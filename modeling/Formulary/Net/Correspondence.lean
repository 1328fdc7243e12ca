import Formulary.Formula.Basic
import Formulary.Net.Mapping
import Formulary.Notice

/-! The correspondence between a colored net and its place/transition twin, and the unfolding of formulas
    along it. -/

namespace Formulary

structure Correspondence where
  places : Mapping
  transitions : Mapping
deriving DecidableEq, Repr

/-- Why two nets do not correspond. -/
inductive MappingError where
  | emptyPlaces
  | emptyTransitions
deriving DecidableEq, Repr

namespace MappingError

def message : MappingError → String
  | emptyPlaces => "empty set of mapped places"
  | emptyTransitions => "empty set of mapped transitions"

end MappingError

/-- The identifiers of the nodes of a net. -/
structure Identifiers where
  places : List String
  transitions : List String
deriving DecidableEq, Repr

namespace Mapping

/-- What there is to report about a mapping. -/
def notices (m : Mapping) (kind : NodeKind) : List Notice :=
  m.unmapped.map (.unmapped kind) ++ m.unclaimed.map (.unclaimed kind) ++
    if m.isEmpty then [.nothingMapped kind] else []

end Mapping

namespace Correspondence

/-- Relates two nets. Places are mapped first; identifiers without a partner are only reported, unless there
    is no other. -/
def between (colored uncolored : Identifiers) : List Notice × Except MappingError Correspondence :=
  let places := Mapping.between colored.places uncolored.places
  if places.isEmpty then (places.notices .place, .error .emptyPlaces)
  else
    let transitions := Mapping.between colored.transitions uncolored.transitions
    (places.notices .place ++ transitions.notices .transition,
      if transitions.isEmpty then .error .emptyTransitions else .ok ⟨places, transitions⟩)

end Correspondence

namespace Formula

/-- The leaves for everything the operands `args` unfold into. -/
def unfoldNames (m : Mapping) (args : List Formula) : List Formula :=
  (args.flatMap fun f => m.image f.name).map literal

mutual

/-- The formula over the identifiers of the uncolored net: every list of transitions or places becomes the
    list of what its entries unfold into, and all else stays. -/
def unfold (c : Correspondence) : Formula → Formula
  | ⟨op, args⟩ =>
    match op.symbol? with
    | some .isFireable => ⟨op, unfoldNames c.transitions args⟩
    | some .tokenCount => ⟨op, unfoldNames c.places args⟩
    | _ => ⟨op, unfoldAll c args⟩

def unfoldAll (c : Correspondence) : List Formula → List Formula
  | [] => []
  | f :: fs => unfold c f :: unfoldAll c fs

end

end Formula
end Formulary
