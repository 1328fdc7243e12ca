import Formulary.Random.Draw

/-! Random orders of a list, and random parts of it.

    The entry at position `i` changes places with one at a position up to `i`, for every `i` in turn. The
    positions are not drawn one by one: a single number stands for several of them in mixed radix, as
    many as fit into a short word. -/

namespace Formulary
namespace Draw

/-- A number holding the next few positions in mixed radix, and how many positions are left in it after
    the current one. -/
structure Packed where
  chunk : Nat
  remaining : Nat
deriving DecidableEq, Repr

namespace Packed

/-- Before the first entry: the only position is `0`, which needs no draw. -/
def start : Packed := ⟨0, 1⟩

/-- Multiplies `product` by `next`, `next + 1`, … while the result fits into a short word. Gives the
    product and the first factor left out. -/
def fill (product next : Nat) : Nat × Nat :=
  if h : product * next < UInt32.size ∧ 0 < product ∧ 1 < next then fill (product * next) (next + 1)
  else (product, next)
termination_by UInt32.size - product
decreasing_by
  have : product * 2 ≤ product * next := Nat.mul_le_mul_left _ h.2.2
  omega

/-- A position up to `m - 1`, and what is left for the positions after it. -/
def position (p : Packed) (m : Nat) : Draw (Nat × Packed) := do
  let p ←
    if p.remaining > 0 then pure { p with remaining := p.remaining - 1 }
    else
      let (product, next) := fill m (m + 1)
      pure ⟨← between .short 0 (product - 1), next - m - 1⟩
  if p.remaining = 0 then return (p.chunk, p)
  else return (p.chunk % m, { p with chunk := p.chunk / m })

end Packed

/-- The array with the entries at `i` and `j` exchanged. -/
def exchange {α : Type} (a : Array α) (i j : Nat) : Except Fault (Array α) :=
  if h : i < a.size ∧ j < a.size then .ok (a.swap i j h.1 h.2) else .error .outOfBounds

/-- Shuffles the positions from `i` on, `n` of them. -/
def shuffleFrom {α : Type} : (n i : Nat) → Packed → Array α → Draw (Array α)
  | 0, _, _, a => return a
  | n + 1, i, p, a => do
    let (j, p) ← p.position (i + 1)
    shuffleFrom n (i + 1) p (← exchange a i j)

/-- A random order of `l`. -/
def shuffle {α : Type} (l : List α) : Draw (List α) := do
  if l.length ≤ 1 then return l
  else return (← shuffleFrom l.length 0 .start l.toArray).toList

/-- The first `size` entries of a random order of `l`. -/
def sample {α : Type} (l : List α) (size : Nat) : Draw (List α) := return (← shuffle l).take size

/-- At least one and at most `maxSize` entries of `l`, or nothing if `l` is empty. -/
def subset {α : Type} (l : List α) (maxSize : Nat) : Draw (Option (List α)) := do
  if l.isEmpty then return none
  else return some (← sample l (← count 1 (min (max maxSize 1) l.length)))

end Draw
end Formulary
