import Formulary.Run.Selection

/-! What came of the work on a model: counts per category, and the state of its twin. -/

namespace Formulary

/-- Whether formulas of the model can be unfolded for its twin. -/
inductive Unfolding where
  /-- The model is not colored. -/
  | notApplicable
  /-- There is no twin that can be read. -/
  | noTwin
  | usable
  /-- There is no correspondence with the twin. -/
  | unusable (reason : String)
deriving DecidableEq, Repr

/-- The formulas of one category for one model, counted. -/
structure CategoryOutcome where
  category : Category
  variant : Variant
  written : Nat
  acceptedByFilter : Nat
  randomFill : Nat
  /-- Formulas unfolded from those of the colored twin. -/
  unfolded : Nat
  rounds : Nat
deriving DecidableEq, Repr

structure ModelOutcome where
  name : String
  instanceName : String
  variant : Variant
  twin : Option Variant
  twinError : Option String
  unfolding : Unfolding
  unmappedPlaces : Nat
  unmappedTransitions : Nat
  categories : List CategoryOutcome
deriving DecidableEq, Repr

namespace CategoryOutcome

/-- Counts a selection for a model that got `unfolded` more formulas from its twin. -/
def ofSelection (model : Model) (category : Category) (selection : Selection) (unfolded : Nat) : CategoryOutcome where
  category := category
  variant := model.key.variant
  written := selection.formulas.length + unfolded
  acceptedByFilter := selection.accepted.length
  randomFill := selection.fill.length
  unfolded := unfolded
  rounds := selection.rounds.length

end CategoryOutcome

namespace ModelOutcome

/-- The number of formulas written. -/
def written (o : ModelOutcome) : Nat := (o.categories.map (·.written)).foldr (· + ·) 0

/-- The number of formulas that no oracle saw. -/
def randomFill (o : ModelOutcome) : Nat := (o.categories.map (·.randomFill)).foldr (· + ·) 0

/-- The number of formulas written, in the 64 bits that totals are counted with. -/
def totalWritten (o : ModelOutcome) : UInt64 := UInt64.ofNat o.written

/-- The number of formulas that no oracle saw, in the 64 bits that totals are counted with. -/
def totalRandomFill (o : ModelOutcome) : UInt64 := UInt64.ofNat o.randomFill

end ModelOutcome
end Formulary
