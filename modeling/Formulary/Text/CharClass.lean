/-! Sets of characters given by ranges of code points. -/

namespace Formulary

/-- Ranges of code points, both ends included. -/
abbrev CharClass := List (Nat × Nat)

namespace CharClass

def contains (ranges : CharClass) (c : Char) : Bool := ranges.any fun (lo, hi) => lo ≤ c.toNat && c.toNat ≤ hi

end CharClass
end Formulary
