import Formulary.Formula.Binder
import Formulary.Severity

/-! The settings of a run: what formulas look like and how many there are, how they are filtered, and what is
    logged. Numbers are machine words of 64 bits. -/

namespace Formulary

structure LoggerSettings where
  enabled : Bool := true
  logFile : Bool := false
  level : Severity := .info
deriving DecidableEq, Repr

structure GenerationSettings where
  /-- The most operands of a conjunction or disjunction. -/
  maxArity : UInt64 := 2
  /-- The most transitions in one atom. -/
  maxFireabilityAtomSize : UInt64 := 1
  /-- The most places in one count of tokens. -/
  maxCardinalityAtomSize : UInt64 := 1
  minIntegerConstant : Int64 := 0
  maxIntegerConstant : Int64 := 100
  numFormulas : UInt64 := 16
  /-- The number of formulas of a colored model that its twin gets too, unfolded. -/
  numUnfold : UInt64 := 8
  formulaDepth : UInt64 := 2
  categories : List Category := Category.all
deriving DecidableEq, Repr

structure FilterSettings where
  enabled : Bool := true
  maxRounds : UInt64 := 3
  /-- The number of candidates in a round. -/
  setSize : UInt64 := 16
  interpreter : String := "python"
  checkerPath : String := "smc.py"
  /-- Where property files for the checker go, if not where temporary files go. -/
  tmpDir : Option String := none
  maxStates : UInt64 := 2000
deriving DecidableEq, Repr

structure Settings where
  seed : UInt64 := 0
  inputDir : String := "INPUTS"
  numWorkers : UInt64 := 1
  generation : GenerationSettings := {}
  filter : FilterSettings := {}
  logger : LoggerSettings := {}
deriving DecidableEq, Repr

namespace GenerationSettings

/-- The least and the greatest constant of an atom. Bounds without a positive number between them are
    replaced by the default ones. -/
def constantBounds (g : GenerationSettings) : Int × Int :=
  if g.maxIntegerConstant.toInt < 1 ∨ g.minIntegerConstant.toInt > g.maxIntegerConstant.toInt then (0, 100)
  else (g.minIntegerConstant.toInt, g.maxIntegerConstant.toInt)

/-- The binder for given identifiers. -/
def binder (g : GenerationSettings) (places transitions : List String) : Binder where
  places := places
  transitions := transitions
  maxFireability := g.maxFireabilityAtomSize.toNat
  maxCardinality := g.maxCardinalityAtomSize.toNat
  leastConstant := g.constantBounds.1
  greatestConstant := g.constantBounds.2

end GenerationSettings

/-- Why settings cannot be used. -/
inductive SettingsError where
  | noWorkers
  | noDepth
  | branchingDepth
  | atomSize
  | setSize
deriving DecidableEq, Repr

namespace SettingsError

def message : SettingsError → String
  | noWorkers => "num_workers must be at least 1"
  | noDepth => "generation.formula_depth must be at least 1"
  | branchingDepth => "generation.formula_depth must be at least 2 for CTL categories"
  | atomSize => "atom sizes must be at least 1"
  | setSize => "filter.set_size must be at least 1 when filtering is enabled"

end SettingsError

namespace Settings

/-- Checks that the settings can be used, and gives the first reason why not. -/
def validate (s : Settings) : Except SettingsError Unit := do
  if s.numWorkers = 0 then throw .noWorkers
  if s.generation.formulaDepth = 0 then throw .noDepth
  if s.generation.categories.any (·.grammar = .ctl) ∧
      s.generation.formulaDepth.toNat < Catalog.leastBranchingDepth then throw .branchingDepth
  if s.generation.maxFireabilityAtomSize = 0 ∨ s.generation.maxCardinalityAtomSize = 0 then throw .atomSize
  if s.filter.enabled ∧ s.filter.setSize = 0 then throw .setSize

end Settings
end Formulary
