/-! Computations that cannot go on. Each constructor names a condition that the callers of an operation promise,
    and the operation checks it before it acts. -/

namespace Formulary

inductive Fault where
  /-- A number was asked for between bounds with nothing between them. -/
  | emptyRange
  /-- A position was used that the list does not have. -/
  | outOfBounds
  /-- More was taken away than there was. -/
  | underflow
  /-- Candidates were rejected for longer than the random words take to repeat. -/
  | endless
  /-- A list was asked for that no memory has room for. -/
  | capacity
deriving DecidableEq, Repr

namespace Fault

def message : Fault → String
  | emptyRange => "cannot sample empty range"
  | outOfBounds => "index out of bounds"
  | underflow => "attempt to subtract with overflow"
  | endless => "no candidate is ever accepted"
  | capacity => "capacity overflow"

/-- The most entries of a list when every entry takes `width` bytes: the bytes of a list are counted with
    63 bits, and up to a multiple of eight. -/
def mostEntries (width : Nat) : Nat := (UInt64.size / 2 - 8) / width

/-- Checks that there is room for a list of `n` entries of `width` bytes. -/
def reserve (width n : Nat) : Except Fault Unit := if n ≤ mostEntries width then .ok () else .error .capacity

/-- The entry of `l` at position `i`. -/
def entry {α : Type} (l : List α) (i : Nat) : Except Fault α :=
  match l[i]? with
  | some a => .ok a
  | none => .error .outOfBounds

/-- The difference `n - k` of two amounts. -/
def difference (n k : Nat) : Except Fault Nat :=
  if k ≤ n then .ok (n - k) else .error .underflow

@[simp] theorem entry_eq_ok {α : Type} {l : List α} {i : Nat} {a : α} : entry l i = .ok a ↔ l[i]? = some a := by
  unfold entry
  cases l[i]? <;> simp

@[simp] theorem difference_eq_ok {n k d : Nat} : difference n k = .ok d ↔ k ≤ n ∧ d = n - k := by
  unfold difference
  split
  case isTrue h => simp [h, eq_comm]
  case isFalse h => simp [h]

@[simp] theorem reserve_eq_ok {width n : Nat} {u : Unit} : reserve width n = .ok u ↔ n ≤ mostEntries width := by
  unfold reserve
  split <;> simp_all

end Fault
end Formulary
