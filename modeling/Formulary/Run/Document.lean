import Formulary.Document.Codec
import Formulary.Net.Discovery
import Formulary.Run.Outcome

/-! Outcomes as documents. -/

namespace Formulary

def Variant.codec : Codec Variant := .case Variant.ofName? Variant.name

def Category.codec : Codec Category := .case Category.ofName? Category.name

namespace Unfolding

def toValue : Unfolding → Value
  | notApplicable => .text "NotApplicable"
  | noTwin => .text "NoTwin"
  | usable => .text "Usable"
  | unusable reason => .table [("Unusable", .text reason)]

/-- The states that need no explanation, by their names. -/
def ofName? (s : String) : Option Unfolding :=
  if s = "NotApplicable" then some notApplicable
  else if s = "NoTwin" then some noTwin
  else if s = "Usable" then some usable
  else none

def ofValue? (d : Dialect) : Value → Option Unfolding
  | .text s => ofName? s
  | .table [("Unusable", .text reason)] => some (unusable reason)
  | .table [(s, contents)] => if d.isNothing contents then ofName? s else none
  | _ => none

def codec : Codec Unfolding := ⟨ofValue?, toValue⟩

end Unfolding

namespace CategoryOutcome

def names : List String :=
  ["category", "variant", "written", "accepted_by_filter", "random_fill", "unfolded", "rounds"]

def toValue (o : CategoryOutcome) : Value := .table [
  ("category", Category.codec.encode o.category),
  ("variant", Variant.codec.encode o.variant),
  ("written", .nat o.written),
  ("accepted_by_filter", .nat o.acceptedByFilter),
  ("random_fill", .nat o.randomFill),
  ("unfolded", .nat o.unfolded),
  ("rounds", .nat o.rounds)]

def ofValue? (d : Dialect) (v : Value) : Option CategoryOutcome := do
  let entries ← v.fields? names
  return {
    category := ← Category.codec.decode d (← entries.lookup "category")
    variant := ← Variant.codec.decode d (← entries.lookup "variant")
    written := ← Codec.count.decode d (← entries.lookup "written")
    acceptedByFilter := ← Codec.count.decode d (← entries.lookup "accepted_by_filter")
    randomFill := ← Codec.count.decode d (← entries.lookup "random_fill")
    unfolded := ← Codec.count.decode d (← entries.lookup "unfolded")
    rounds := ← Codec.count.decode d (← entries.lookup "rounds") }

def codec : Codec CategoryOutcome := ⟨ofValue?, toValue⟩

end CategoryOutcome

namespace ModelOutcome

def names : List String := ["name", "instance", "variant", "twin", "twin_error", "unfolding", "unmapped_places",
  "unmapped_transitions", "categories"]

def toValue (o : ModelOutcome) : Value := .table [
  ("name", .text o.name),
  ("instance", .text o.instanceName),
  ("variant", Variant.codec.encode o.variant),
  ("twin", Variant.codec.optional.encode o.twin),
  ("twin_error", Codec.text.optional.encode o.twinError),
  ("unfolding", o.unfolding.toValue),
  ("unmapped_places", .nat o.unmappedPlaces),
  ("unmapped_transitions", .nat o.unmappedTransitions),
  ("categories", CategoryOutcome.codec.list.encode o.categories)]

/-- Reads an outcome. The variant of the twin and the error about it may be left out. -/
def ofValue? (d : Dialect) (v : Value) : Option ModelOutcome := do
  let entries ← v.fields? names
  return {
    name := ← Codec.text.decode d (← entries.lookup "name")
    instanceName := ← Codec.text.decode d (← entries.lookup "instance")
    variant := ← Variant.codec.decode d (← entries.lookup "variant")
    twin := ← Variant.codec.optional.decode d ((entries.lookup "twin").getD .null)
    twinError := ← Codec.text.optional.decode d ((entries.lookup "twin_error").getD .null)
    unfolding := ← Unfolding.ofValue? d (← entries.lookup "unfolding")
    unmappedPlaces := ← Codec.count.decode d (← entries.lookup "unmapped_places")
    unmappedTransitions := ← Codec.count.decode d (← entries.lookup "unmapped_transitions")
    categories := ← CategoryOutcome.codec.list.decode d (← entries.lookup "categories") }

def codec : Codec ModelOutcome := ⟨ofValue?, toValue⟩

end ModelOutcome

namespace DiscoveryReport

def toValue (r : DiscoveryReport) : Value := .table [
  ("not_directory", Codec.text.list.encode r.notDirectory),
  ("wrong_name", Codec.text.list.encode r.wrongName),
  ("no_model", Codec.text.list.encode r.noModel),
  ("duplicate", Codec.text.list.encode r.duplicate)]

end DiscoveryReport
end Formulary
