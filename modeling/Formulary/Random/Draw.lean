import Formulary.Fault
import Formulary.Random.Keystream

/-! Random choices as computations on a keystream, and the choice of a whole number between two bounds.

    A number below `span` is the high half of the product of `span` and a random word; when the low half
    comes close to the top, a second word decides whether a carry reaches the high half. -/

namespace Formulary

/-- A computation that takes words from a keystream and may meet a fault. -/
abbrev Draw := StateT Keystream (Except Fault)

/-- The words drawn at once, of 32 or of 64 bits. -/
inductive Width where
  | short
  | long
deriving DecidableEq, Repr

namespace Width

/-- How many words of the width there are. -/
def size : Width → Nat
  | short => UInt32.size
  | long => UInt64.size

/-- The width that numbers up to `n` are drawn with. -/
def ofBound (n : Nat) : Width := if n < UInt32.size then short else long

end Width

namespace Draw

/-- The next word of the keystream. -/
def word : Draw UInt32 := fun s => .ok s.next

/-- A random word of the width, as a number. A long word is two short ones, the low half first. -/
def bits : Width → Draw Nat
  | .short => do return (← word).toNat
  | .long => do
    let low ← word
    let high ← word
    return low.toNat + high.toNat * UInt32.size

/-- A number below `span`, for a span of at most `w.size`. -/
def below (w : Width) (span : Nat) : Draw Nat := do
  let modulus := w.size
  let product := (← bits w) * span
  let high := product / modulus
  let low := product % modulus
  if low > modulus - span then
    let carry := (← bits w) * span / modulus
    return if low + carry ≥ modulus then high + 1 else high
  else
    return high

/-- A number from `lo` to `hi`. When there are as many as words of the width, the word tells how far it is
    above `lo`. -/
def between (w : Width) (lo hi : Nat) : Draw Nat :=
  if hi < lo then throw .emptyRange
  else if hi - lo + 1 = w.size then return lo + (← bits w)
  else return lo + (← below w (hi - lo + 1))

/-- A count from `lo` to `hi`. -/
def count (lo hi : Nat) : Draw Nat := between (Width.ofBound hi) lo hi

/-- A position in a list of `n` entries. -/
def position (n : Nat) : Draw Nat :=
  if n = 0 then throw .emptyRange else between (Width.ofBound n) 0 (n - 1)

/-- A signed number from `lo` to `hi`, drawn with a long word. When all `2 ^ 64` numbers are allowed, the
    word is read as a number in two's complement. -/
def constant (lo hi : Int) : Draw Int :=
  if hi < lo then throw .emptyRange
  else if (hi - lo + 1).toNat = UInt64.size then return Int.bmod (← bits .long) UInt64.size
  else return lo + (← below .long (hi - lo + 1).toNat)

/-- An entry of a list. -/
def oneOf {α : Type} (l : List α) : Draw α := do
  Fault.entry l (← position l.length)

/-- The results of `n` runs of `draw`, in order. -/
def times {α : Type} : Nat → Draw α → Draw (List α)
  | 0, _ => return []
  | n + 1, draw => do
    let a ← draw
    return a :: (← times n draw)

end Draw
end Formulary
