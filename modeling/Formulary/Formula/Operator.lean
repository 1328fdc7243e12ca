/-! Operators of the formula language. An operator is known by its name, and every name is allowed: the
    names of `Symbol` have a meaning, any other name is the payload of a leaf, such as the identifier of a
    place or the text of a number. -/

namespace Formulary

/-- The operators that have a meaning. -/
inductive Symbol where
  /-- A placeholder, to be replaced by an atom over the identifiers of a model. -/
  | atom
  | allPaths
  | existsPath
  | not
  | and
  | or
  | globally
  | eventually
  | next
  | strongUntil
  | isFireable
  | tokenCount
  | leq
  | integerConstant
deriving DecidableEq, Repr

namespace Symbol

def name : Symbol → String
  | atom => "atom"
  | allPaths => "A"
  | existsPath => "E"
  | not => "not"
  | and => "and"
  | or => "or"
  | globally => "G"
  | eventually => "F"
  | next => "X"
  | strongUntil => "U"
  | isFireable => "is-fireable"
  | tokenCount => "token-count"
  | leq => "leq"
  | integerConstant => "integer-constant"

def all : List Symbol :=
  [atom, allPaths, existsPath, not, and, or, globally, eventually, next, strongUntil, isFireable, tokenCount,
    leq, integerConstant]

/-- The symbol with a given name. -/
def ofName? (s : String) : Option Symbol := all.find? (·.name = s)

theorem name_injective {a b : Symbol} (h : a.name = b.name) : a = b := by
  revert h
  cases a <;> cases b <;> decide

@[simp] theorem ofName?_name (a : Symbol) : ofName? a.name = some a := by cases a <;> decide

theorem ofName?_eq_some {s : String} {a : Symbol} : ofName? s = some a ↔ a.name = s := by
  refine ⟨fun h => ?_, fun h => h ▸ ofName?_name a⟩
  simpa using List.find?_some h

/-- Quantifies over the paths that start in a state. -/
def isPathQuantifier : Symbol → Bool
  | allPaths | existsPath => true
  | _ => false

/-- Speaks about the states along a path. -/
def isPathOperator : Symbol → Bool
  | globally | eventually | next | strongUntil => true
  | _ => false

end Symbol

/-- Bounds on a number of operands come from a machine word; this one is never reached. -/
def unboundedArity : Nat := UInt64.size - 1

structure Operator where
  name : String
  minArity : Nat
  maxArity : Nat
  /-- The operands are state formulas; otherwise they are path formulas. -/
  isOverBooleans : Bool
deriving DecidableEq, Repr

namespace Operator

/-- A leaf that carries a text. -/
def literal (text : String) : Operator := ⟨text, 0, 0, false⟩

/-- The placeholder of an atom. -/
def atom : Operator := literal Symbol.atom.name

/-- An operator over path formulas with a fixed number of operands. -/
def fixed (symbol : Symbol) (arity : Nat) : Operator := ⟨symbol.name, arity, arity, false⟩

def not : Operator := ⟨Symbol.not.name, 1, 1, true⟩

/-- A connective of two to `maxArity` operands. -/
def connective (symbol : Symbol) (maxArity : Nat) : Operator := ⟨symbol.name, 2, maxArity, true⟩

def isFireable : Operator := ⟨Symbol.isFireable.name, 1, unboundedArity, false⟩

def tokenCount : Operator := ⟨Symbol.tokenCount.name, 1, unboundedArity, false⟩

def leq : Operator := fixed .leq 2

def integerConstant : Operator := fixed .integerConstant 1

/-- The symbol that gives the operator its meaning. -/
def symbol? (op : Operator) : Option Symbol := Symbol.ofName? op.name

def isPathQuantifier (op : Operator) : Bool := op.symbol?.any Symbol.isPathQuantifier

def isPathOperator (op : Operator) : Bool := op.symbol?.any Symbol.isPathOperator

def acceptsArity (op : Operator) (n : Nat) : Bool := op.minArity ≤ n && n ≤ op.maxArity

end Operator
end Formulary
