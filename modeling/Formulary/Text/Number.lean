/-! Whole numbers in decimal, as machine words hold them. -/

namespace Formulary
namespace Text

/-- The number that ASCII digits stand for. -/
def digits? (s : List Char) : Option Nat :=
  if s ≠ [] ∧ s.all Char.isDigit then some (Nat.ofDigitChars 10 s 0) else none

/-- Reads a number below `2 ^ 64`, with an optional plus sign. -/
def word64? (s : List Char) : Option Nat :=
  let digits := match s with
    | '+' :: rest => rest
    | _ => s
  match digits? digits with
  | some n => if n < UInt64.size then some n else none
  | none => none

/-- Reads a number that fits into 64 bits with a sign. A plus or minus sign may come first. -/
def int64? (s : List Char) : Option Int :=
  let value? := match s with
    | '-' :: rest => (digits? rest).map fun n => -(n : Int)
    | '+' :: rest => (digits? rest).map Int.ofNat
    | _ => (digits? s).map Int.ofNat
  match value? with
  | some n => if Int64.minValue.toInt ≤ n ∧ n ≤ Int64.maxValue.toInt then some n else none
  | none => none

end Text
end Formulary
