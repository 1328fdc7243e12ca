import Formulary.Files.Disk
import Formulary.Formula.Binder
import Formulary.Net.ModelKey
import Formulary.Net.Pnml

/-! A model of the benchmark and what is known about its net. The identifiers are read at most once, and the
    correspondence of a colored model with its twin is found at most once, until they are released. -/

namespace Formulary

/-- Why a model file tells nothing. -/
inductive ModelFileError where
  | unreadable (path : String) (cause : FileError)
  | malformed (path : String) (cause : PnmlError)
deriving DecidableEq, Repr

namespace ModelFileError

/-- The error and its causes, the outermost first. -/
def chain : ModelFileError → List String
  | unreadable path cause =>
    ["failed to parse model file: " ++ path, "failed to read: " ++ path, cause.message]
  | malformed path cause =>
    ["failed to parse model file: " ++ path, "failed to scan: " ++ path, cause.message]

def message (e : ModelFileError) : String := ": ".intercalate e.chain

end ModelFileError

structure Model where
  key : ModelKey
  directory : String
  /-- The position of the other variant of the model among the models it was found with. -/
  twin : Option Nat := none
  /-- The places that atoms are built from. -/
  places : List String := []
  /-- The transitions that atoms are built from. -/
  transitions : List String := []
  /-- Colored places that unfold into nothing. -/
  unmappedPlaces : List String := []
  /-- Colored transitions that unfold into nothing. -/
  unmappedTransitions : List String := []
  /-- What was found when the correspondence with the twin was looked for. -/
  correspondence : Option (Except MappingError Correspondence) := none
  /-- The largest whole number of the initial marking of an uncolored net. -/
  greatestMarking : Option Int := none
  isLoaded : Bool := false

namespace Model

/-- The model with its identifiers known from the start. -/
def withIdentifiers (m : Model) (places transitions : List String) : Model :=
  { m with places, transitions, isLoaded := true }

def fullName (m : Model) : String := m.key.fullName

def isColored (m : Model) : Bool := m.key.variant = .colored

def file (m : Model) : String := Path.join m.directory "model.pnml"

/-- Reads a model file. -/
def summaryOf (d : Disk) (path : String) : Except ModelFileError NetSummary :=
  match d.read path with
  | .error cause => .error (.unreadable path cause)
  | .ok text =>
    match Pnml.parse text with
    | .error cause => .error (.malformed path cause)
    | .ok net => .ok net

/-- The model with its identifiers, which `parse` finds at a path. A loaded model stays as it is. -/
def load {ε : Type} (m : Model) (parse : String → Except ε NetSummary) : Except ε Model :=
  if m.isLoaded then .ok m
  else
    match parse m.file with
    | .error e => .error e
    | .ok net => .ok { m with
        places := net.places
        transitions := net.transitions
        greatestMarking := if m.isColored then m.greatestMarking else net.greatestMarking
        isLoaded := true }

/-- The model without its identifiers and its correspondence. -/
def release (m : Model) : Model :=
  { m with
    places := []
    transitions := []
    unmappedPlaces := []
    unmappedTransitions := []
    correspondence := none
    isLoaded := false }

def identifiers (m : Model) : Identifiers := ⟨m.places, m.transitions⟩

/-- The correspondence with the twin, if there is one. -/
def usableCorrespondence (m : Model) : Option Correspondence :=
  match m.correspondence with
  | some (.ok c) => some c
  | _ => none

/-- Keeps only the places that a mapping maps. -/
def restrictPlaces (m : Model) (places : Mapping) : Model :=
  { m with places := places.mapped, unmappedPlaces := places.unmapped }

/-- Keeps only the transitions that a mapping maps. -/
def restrictTransitions (m : Model) (transitions : Mapping) : Model :=
  { m with transitions := transitions.mapped, unmappedTransitions := transitions.unmapped }

/-- Keeps only the identifiers that were mapped when the correspondence was looked for. Places are mapped
    first, so they are restricted also when no transition can be mapped. -/
def restrict (m : Model) (uncolored : Identifiers) : Except MappingError Correspondence → Model
  | .ok c => (m.restrictPlaces c.places).restrictTransitions c.transitions
  | .error .emptyTransitions => m.restrictPlaces (Mapping.between m.places uncolored.places)
  | .error .emptyPlaces => m

/-- Looks for the correspondence with `uncolored`, unless that was done before. -/
def ensureCorrespondence (m uncolored : Model) : Model × List Notice :=
  match m.correspondence with
  | some _ => (m, [])
  | none =>
    let (notices, found) := Correspondence.between m.identifiers uncolored.identifiers
    ({ m.restrict uncolored.identifiers found with correspondence := some found }, notices)

end Model
end Formulary
