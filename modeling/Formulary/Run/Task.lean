import Formulary.Net.Arena
import Formulary.Property.Readable
import Formulary.Property.Xml
import Formulary.Run.Outcome

/-! The work on a task: the property files of every category for a model and for its twin. When the nets
    correspond, the first formulas of the twin are unfoldings of formulas of the colored model. -/

namespace Formulary

/-- Why the files of a category were not made. -/
inductive CategoryError where
  | generation (cause : GenerationError)
  | propertyFile (path : String) (cause : FileError)
deriving DecidableEq, Repr

/-- Why the work on a task failed. -/
inductive TaskError where
  | modelFile (cause : ModelFileError)
  | category (category : Category) (cause : CategoryError)
deriving DecidableEq, Repr

namespace CategoryError

/-- The error and its causes, the outermost first. -/
def chain : CategoryError → List String
  | generation cause => [cause.message]
  | propertyFile path cause => ["failed to write property file: " ++ path, cause.message]

end CategoryError

namespace TaskError

/-- The error and its causes, the outermost first. -/
def chain : TaskError → List String
  | modelFile cause => cause.chain
  | category c cause => ("failed to generate " ++ c.name ++ " formulas") :: cause.chain

def message (e : TaskError) : String := ": ".intercalate e.chain

end TaskError

namespace Model

/-- The binder for atoms over the identifiers of the model. -/
def binder (m : Model) (g : GenerationSettings) : Binder := (g.binder m.places m.transitions).widen m.greatestMarking

/-- The formulas of a category as properties of the model. -/
def properties (m : Model) (category : Category) (formulas : List Formula) : PropertySet := ⟨m.key, category, formulas⟩

end Model

namespace Workshop
variable {σ : Type} (w : Workshop σ)

/-- Writes a property file. -/
def writeFile (path text : String) : ExceptT CategoryError (Work σ) Unit :=
  match w.disk.writable path with
  | .error cause => throw (.propertyFile path cause)
  | .ok () => liftM (Work.wrote path text : Work σ Unit)

/-- Writes the two property files of a category for a model. -/
def writeProperties (m : Model) (category : Category) (formulas : List Formula) :
    ExceptT CategoryError (Work σ) Unit := do
  let properties := m.properties category formulas
  w.writeFile (Path.join m.directory category.xmlFileName) properties.xml
  w.writeFile (Path.join m.directory category.textFileName) properties.readable

/-- `count` formulas of a category for a model. -/
def choose (subject : Subject) (category : Category) (count : Nat) : ExceptT CategoryError (Work σ) Selection :=
  (w.select subject category (subject.model.binder w.settings.generation) count).adapt .generation

/-- The formulas of a model that its twin gets too: the first ones, unfolded, if the nets correspond. -/
def unfoldings (m : Model) (formulas : List Formula) : List Formula :=
  match m.usableCorrespondence with
  | some c =>
    let count := min w.settings.generation.numUnfold.toNat w.settings.generation.numFormulas.toNat
    (formulas.take count).map (Formula.unfold c)
  | none => []

/-- Makes the files of one category for a model and for its twin. -/
def runCategory (m : Model) (twin : Option Model) (category : Category) :
    ExceptT CategoryError (Work σ) (List CategoryOutcome) := do
  let count := w.settings.generation.numFormulas.toNat
  let selection ← w.choose (.ofModel m twin) category count
  w.writeProperties m category selection.formulas
  let outcome := CategoryOutcome.ofSelection m category selection 0
  match twin with
  | none => return [outcome]
  | some twin =>
    let unfolded := w.unfoldings m selection.formulas
    let rest ← w.choose (.direct twin) category (← Fault.difference count unfolded.length)
    w.writeProperties twin category (unfolded ++ rest.formulas)
    return [outcome, .ofSelection twin category rest unfolded.length]

/-- Makes the files of several categories. -/
def runCategories (m : Model) (twin : Option Model) :
    List Category → ExceptT TaskError (Work σ) (List CategoryOutcome)
  | [] => return []
  | category :: rest => do
    let outcomes ← (w.runCategory m twin category).adapt (.category category)
    return outcomes ++ (← runCategories m twin rest)

/-- The twin with its identifiers. One that cannot be read is left aside with a notice. -/
def loadTwin : Option Model → Work σ (Option Model × Option String)
  | none => return (none, none)
  | some twin =>
    match twin.load (Model.summaryOf w.disk) with
    | .ok twin => return (some twin, none)
    | .error cause => do
      Work.report [.twinIgnored twin.fullName cause.message]
      return (none, some cause.message)

/-- Looks for the correspondence between a model and its twin. -/
def relate {σ : Type} (m : Model) (twin : Option Model) : Work σ (Model × Unfolding) :=
  if m.isColored then
    match twin with
    | none => return (m, .noTwin)
    | some twin => do
      let (m, notices) := m.ensureCorrespondence twin
      Work.report notices
      match m.correspondence with
      | some (.error e) =>
        Work.report [.unfoldingDisabled m.fullName e.message]
        return (m, .unusable e.message)
      | _ => return (m, .usable)
  else return (m, .notApplicable)

/-- Makes the files of all categories for a model and for its twin. -/
def run (task : Task) : ExceptT TaskError (Work σ) ModelOutcome := do
  let m ← Work.settle ((task.model.load (Model.summaryOf w.disk)).mapError TaskError.modelFile)
  let (twin, twinError) ← w.loadTwin task.twin
  let (m, unfolding) ← (relate m twin : Work σ _)
  let categories ← w.runCategories m twin w.settings.generation.categories
  return {
    name := m.key.name
    instanceName := m.key.instanceName
    variant := m.key.variant
    twin := twin.map (·.key.variant)
    twinError
    unfolding
    unmappedPlaces := m.unmappedPlaces.length
    unmappedTransitions := m.unmappedTransitions.length
    categories }

end Workshop
end Formulary
