import Formulary.Formula.Basic

/-! Removing double negations. A negation cancels with the negation directly below it when both have exactly
    one operand; any other use of the name is left alone. -/

namespace Formulary
namespace Formula

/-- The node `op` over operands that are free of double negations, free of them too. -/
def cancelNot (op : Operator) (args : List Formula) : Formula :=
  match args with
  | [⟨inner, [f]⟩] => if op.name = Symbol.not.name ∧ inner.name = Symbol.not.name then f else ⟨op, args⟩
  | _ => ⟨op, args⟩

def removeDoubleNegations : Formula → Formula := fold cancelNot

/-- The node is named as a negation and so is its first operand. -/
def startsDoubleNegation (op : Operator) (args : List Formula) : Bool :=
  op.name = Symbol.not.name && args.head?.any (·.name = Symbol.not.name)

mutual

/-- Some node is named as a negation and so is its first operand. -/
def hasDoubleNegation : Formula → Bool
  | ⟨op, args⟩ => startsDoubleNegation op args || anyHasDoubleNegation args

def anyHasDoubleNegation : List Formula → Bool
  | [] => false
  | f :: fs => hasDoubleNegation f || anyHasDoubleNegation fs

end

end Formula
end Formulary
