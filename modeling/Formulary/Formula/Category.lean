/-! The categories of the benchmark. A category fixes the grammar of its formulas and the kind of their
    atoms, and each category has a pair of property files per model. -/

namespace Formulary

/-- What atoms speak about: which transitions are fireable, or how many tokens places hold. -/
inductive AtomKind where
  | fireability
  | cardinality
deriving DecidableEq, Repr

inductive Grammar where
  /-- Branching-time formulas of any shape. -/
  | ctl
  /-- Some reachable state, or every one, has a property. -/
  | reachability
deriving DecidableEq, Repr

inductive Category where
  | ctlFireability
  | ctlCardinality
  | reachabilityFireability
  | reachabilityCardinality
deriving DecidableEq, Repr

namespace Grammar

def name : Grammar → String
  | ctl => "CTL"
  | reachability => "Reachability"

end Grammar

namespace AtomKind

def name : AtomKind → String
  | fireability => "Fireability"
  | cardinality => "Cardinality"

end AtomKind

namespace Category

def all : List Category := [ctlFireability, ctlCardinality, reachabilityFireability, reachabilityCardinality]

def grammar : Category → Grammar
  | ctlFireability | ctlCardinality => .ctl
  | reachabilityFireability | reachabilityCardinality => .reachability

def atomKind : Category → AtomKind
  | ctlFireability | reachabilityFireability => .fireability
  | ctlCardinality | reachabilityCardinality => .cardinality

def name (c : Category) : String := c.grammar.name ++ c.atomKind.name

def ofName? (s : String) : Option Category := all.find? (·.name = s)

def xmlFileName (c : Category) : String := c.name ++ ".xml"

def textFileName (c : Category) : String := c.name ++ ".txt"

end Category
end Formulary
