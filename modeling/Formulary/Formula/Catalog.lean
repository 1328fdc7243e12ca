import Formulary.Formula.Basic

/-! The tables of operators that random formulas are built from. Conjunctions and disjunctions take from two
    to `maxArity` operands, every other operator a fixed number. -/

namespace Formulary

structure Catalog where
  maxArity : Nat
  two_le_maxArity : 2 ≤ maxArity

namespace Catalog

/-- The tables for an arity bound. A connective has room for at least two operands. -/
def ofBound (bound : Nat) : Catalog := ⟨max bound 2, Nat.le_max_right ..⟩

/-- The boolean connectives. -/
def connectives (c : Catalog) : List Operator := [.not, .connective .and c.maxArity, .connective .or c.maxArity]

/-- The roots of state formulas. -/
def booleanOperators (c : Catalog) : List Operator :=
  .atom :: .fixed .allPaths 1 :: .fixed .existsPath 1 :: c.connectives

/-- The roots of path formulas. -/
def pathOperators (_ : Catalog) : List Operator :=
  [.fixed .globally 1, .fixed .eventually 1, .fixed .next 1, .fixed .strongUntil 2]

/-- The roots of formulas about a single state. -/
def stateOperators (c : Catalog) : List Operator := .atom :: c.connectives

/-- The operator with a given name. -/
def find? (c : Catalog) (name : String) : Option Operator :=
  (c.booleanOperators ++ c.pathOperators).find? (·.name = name)

end Catalog
end Formulary
