import Formulary.Formula.Operator

/-! Formulas: finite trees of operators. What is computed from the leaves upward is a `fold`. -/

namespace Formulary

structure Formula where
  operator : Operator
  operands : List Formula
deriving Repr

namespace Formula

/-! ### Induction and equality -/

@[elab_as_elim, induction_eliminator]
theorem induct {motive : Formula → Prop}
    (node : ∀ op args, (∀ f ∈ args, motive f) → motive ⟨op, args⟩) (f : Formula) : motive f :=
  @Formula.rec motive (fun fs => ∀ f ∈ fs, motive f) node
    (fun _ hf => absurd hf List.not_mem_nil)
    (fun _ _ hf hfs _ hg => (List.mem_cons.mp hg).elim (· ▸ hf) (hfs _)) f

mutual

def decEq : (f g : Formula) → Decidable (f = g)
  | ⟨op, args⟩, ⟨op', args'⟩ =>
    if ho : op = op' then
      match decEqAll args args' with
      | .isTrue ha => .isTrue (by rw [ho, ha])
      | .isFalse ha => .isFalse fun h => ha (Formula.mk.inj h).2
    else .isFalse fun h => ho (Formula.mk.inj h).1

def decEqAll : (fs gs : List Formula) → Decidable (fs = gs)
  | [], [] => .isTrue rfl
  | [], _ :: _ => .isFalse nofun
  | _ :: _, [] => .isFalse nofun
  | f :: fs, g :: gs =>
    match decEq f g, decEqAll fs gs with
    | .isTrue hf, .isTrue hfs => .isTrue (by rw [hf, hfs])
    | .isFalse hf, _ => .isFalse fun h => hf (List.cons.inj h).1
    | _, .isFalse hfs => .isFalse fun h => hfs (List.cons.inj h).2

end

instance : DecidableEq Formula := decEq

/-! ### Building formulas -/

def leaf (op : Operator) : Formula := ⟨op, []⟩

/-- The placeholder of an atom. -/
def atom : Formula := leaf .atom

/-- A leaf that carries a text. -/
def literal (text : String) : Formula := leaf (.literal text)

/-- Some of the transitions are fireable. -/
def isFireable (transitions : List String) : Formula := ⟨.isFireable, transitions.map literal⟩

/-- The number of tokens on the places together. -/
def tokenCount (places : List String) : Formula := ⟨.tokenCount, places.map literal⟩

def integerConstant (n : Int) : Formula := ⟨.integerConstant, [literal n.repr]⟩

def leq (left right : Formula) : Formula := ⟨.leq, [left, right]⟩

def name (f : Formula) : String := f.operator.name

def symbol? (f : Formula) : Option Symbol := f.operator.symbol?

def isAtom (f : Formula) : Bool := f.operator = .atom

/-! ### Folding -/

section
variable {α : Type} (combine : Operator → List α → α)

mutual

/-- Combines the values of the operands of every node, from the leaves upward. -/
def fold : Formula → α
  | ⟨op, args⟩ => combine op (foldAll args)

def foldAll : List Formula → List α
  | [] => []
  | f :: fs => fold f :: foldAll fs

end

theorem foldAll_eq_map : ∀ fs : List Formula, foldAll combine fs = fs.map (fold combine)
  | [] => rfl
  | f :: fs => by rw [foldAll, foldAll_eq_map fs, List.map_cons]

@[simp] theorem fold_mk (op : Operator) (args : List Formula) :
    fold combine ⟨op, args⟩ = combine op (args.map (fold combine)) := by
  rw [fold, foldAll_eq_map]

end

/-- Some node of the formula has an operator for which `p` holds. -/
def hasOperator (p : Operator → Bool) : Formula → Bool := fold fun op below => p op || below.any id

def containsPathOperator : Formula → Bool := hasOperator Operator.isPathOperator

def containsPathQuantifier : Formula → Bool := hasOperator Operator.isPathQuantifier

def containsAtom : Formula → Bool := hasOperator (· = .atom)

/-- The number of nodes on a longest way from the root to a leaf. -/
def depth : Formula → Nat := fold fun _ below => 1 + below.foldr max 0

/-- Every node has a number of operands that its operator accepts. -/
def respectsArities : Formula → Bool := fold fun op below => op.acceptsArity below.length && below.all id

/-! ### Payloads -/

mutual

/-- The names of the operands of every node with the given symbol that is not below another such node, from
    left to right. -/
def payloads (symbol : Symbol) : Formula → List String
  | ⟨op, args⟩ => if op.name = symbol.name then args.map name else payloadsAll symbol args

def payloadsAll (symbol : Symbol) : List Formula → List String
  | [] => []
  | f :: fs => payloads symbol f ++ payloadsAll symbol fs

end

/-- The transitions the formula speaks about. -/
def transitions : Formula → List String := payloads .isFireable

/-- The places the formula speaks about. -/
def places : Formula → List String := payloads .tokenCount

/-! ### Temporal formulas -/

/-- The formula uses an operator along paths, so it is more than a statement about one state. -/
def isInteresting (f : Formula) : Bool := f.containsPathOperator

/-- The root quantifies over all paths and nothing below it quantifies over paths. -/
def isLinearTime (f : Formula) : Bool :=
  f.name = Symbol.allPaths.name && !f.operands.any containsPathQuantifier

end Formula
end Formulary
