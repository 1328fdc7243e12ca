import Formulary.Formula.Sampling
import Formulary.Random.Shuffle

/-! Binding the placeholders of a formula to atoms over the identifiers of a model. -/

namespace Formulary

/-- The identifiers atoms are built from, and the bounds on their size. -/
structure Binder where
  places : List String
  transitions : List String
  /-- The most transitions in one atom. -/
  maxFireability : Nat
  /-- The most places in one count of tokens. -/
  maxCardinality : Nat
  leastConstant : Int
  greatestConstant : Int
deriving Repr

namespace Binder
variable (b : Binder)

/-- The binder with constants up to the largest number of a marking, if that is more. -/
def widen (marking : Option Int) : Binder :=
  match marking with
  | some n => if n > b.greatestConstant then { b with greatestConstant := n } else b
  | none => b

/-- Random identifiers from the list for a kind of atoms. -/
def identifiers (kind : AtomKind) (pool : List String) (maxSize : Nat) : Generation (List String) := do
  match ← Draw.subset pool maxSize with
  | some ids => return ids
  | none => throw (.noCandidates kind)

/-- A random set of transitions is asked to be fireable. -/
def fireabilityAtom : Generation Formula := do
  return .isFireable (← identifiers .fireability b.transitions b.maxFireability)

def tokenCount : Generation Formula := do
  return .tokenCount (← identifiers .cardinality b.places b.maxCardinality)

def integerConstant : Generation Formula := do
  return .integerConstant (← Draw.constant b.leastConstant b.greatestConstant)

/-- A count of tokens is compared with a constant, on either side, or with another count. -/
def cardinalityAtom : Generation Formula := do
  match ← (Draw.position 3 : Draw Nat) with
  | 0 => return .leq (← b.tokenCount) (← b.integerConstant)
  | 1 => return .leq (← b.integerConstant) (← b.tokenCount)
  | _ => return .leq (← b.tokenCount) (← b.tokenCount)

def atomOf : AtomKind → Generation Formula
  | .fireability => b.fireabilityAtom
  | .cardinality => b.cardinalityAtom

mutual

/-- Replaces every placeholder by a random atom, from left to right. -/
def bind (kind : AtomKind) : Formula → Generation Formula
  | ⟨op, args⟩ =>
    if op = .atom then b.atomOf kind
    else return ⟨op, ← bindAll kind args⟩

def bindAll (kind : AtomKind) : List Formula → Generation (List Formula)
  | [] => return []
  | f :: fs => return (← bind kind f) :: (← bindAll kind fs)

end

end Binder
end Formulary
