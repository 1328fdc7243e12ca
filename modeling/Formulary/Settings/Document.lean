import Formulary.Document.Json
import Formulary.Document.Toml
import Formulary.Files.Disk
import Formulary.Settings.Basic
import Formulary.Settings.Field

/-! Settings as documents: the names of their fields, and reading them from text and from files. -/

namespace Formulary

namespace LoggerSettings

def fields : List (Field LoggerSettings) := [
  .of "enabled" .bool (·.enabled) fun x s => { s with enabled := x },
  .of "log_file" .bool (·.logFile) fun x s => { s with logFile := x },
  .of "log_level" (.case Severity.ofName? Severity.name) (·.level) fun x s => { s with level := x }]

def codec : Codec LoggerSettings := Field.codec fields {}

end LoggerSettings

namespace GenerationSettings

def fields : List (Field GenerationSettings) := [
  .of "max_arity" .word (·.maxArity) fun x s => { s with maxArity := x },
  .of "max_fireability_atom_size" .word (·.maxFireabilityAtomSize) fun x s =>
    { s with maxFireabilityAtomSize := x },
  .of "max_cardinality_atom_size" .word (·.maxCardinalityAtomSize) fun x s =>
    { s with maxCardinalityAtomSize := x },
  .of "min_integer_constant" .signed (·.minIntegerConstant) fun x s => { s with minIntegerConstant := x },
  .of "max_integer_constant" .signed (·.maxIntegerConstant) fun x s => { s with maxIntegerConstant := x },
  .of "num_formulas" .word (·.numFormulas) fun x s => { s with numFormulas := x },
  .of "num_unfold" .word (·.numUnfold) fun x s => { s with numUnfold := x },
  .of "formula_depth" .word (·.formulaDepth) fun x s => { s with formulaDepth := x },
  .of "categories" (.list (.case Category.ofName? Category.name)) (·.categories) fun x s =>
    { s with categories := x }]

def codec : Codec GenerationSettings := Field.codec fields {}

end GenerationSettings

namespace FilterSettings

def fields : List (Field FilterSettings) := [
  .of "enabled" .bool (·.enabled) fun x s => { s with enabled := x },
  .of "max_rounds" .word (·.maxRounds) fun x s => { s with maxRounds := x },
  .of "set_size" .word (·.setSize) fun x s => { s with setSize := x },
  .of "interpreter" .text (·.interpreter) fun x s => { s with interpreter := x },
  .of "checker_path" .text (·.checkerPath) fun x s => { s with checkerPath := x },
  .of "tmp_dir" (.optional .text) (·.tmpDir) fun x s => { s with tmpDir := x },
  .of "max_states" .word (·.maxStates) fun x s => { s with maxStates := x }]

def codec : Codec FilterSettings := Field.codec fields {}

end FilterSettings

/-- Why settings could not be read. -/
inductive LoadError where
  | unreadable (path : String) (cause : FileError)
  | malformed (path : String)
deriving DecidableEq, Repr

namespace LoadError

/-- The error and its causes, the outermost first. -/
def chain : LoadError → List String
  | unreadable path cause => ["failed to read config: " ++ path, cause.message]
  | malformed path => ["failed to parse config: " ++ path]

def message (e : LoadError) : String := ": ".intercalate e.chain

end LoadError

namespace Codec
variable {α : Type}

/-- Reads a text in the notation that the ending of a file name tells: JSON for `json` in capital letters or
    not, TOML for all others. -/
def ofText? (c : Codec α) (extension : Option String) (s : String) : Option α :=
  if extension.any (·.toLower = "json") then (Json.parse? s).bind (c.decode .json)
  else (Toml.parse? s).bind (c.decode .toml)

/-- Reads a file. -/
def ofFile (c : Codec α) (disk : Disk) (path : String) : Except LoadError α :=
  match disk.read path with
  | .error cause => .error (.unreadable path cause)
  | .ok text =>
    match c.ofText? (Path.extension? path) text with
    | some a => .ok a
    | none => .error (.malformed path)

end Codec

namespace Settings

def fields : List (Field Settings) := [
  .of "seed" .word (·.seed) fun x s => { s with seed := x },
  .of "input_dir" .text (·.inputDir) fun x s => { s with inputDir := x },
  .of "num_workers" .word (·.numWorkers) fun x s => { s with numWorkers := x },
  .of "generation" GenerationSettings.codec (·.generation) fun x s => { s with generation := x },
  .of "filter" FilterSettings.codec (·.filter) fun x s => { s with filter := x },
  .of "logger" LoggerSettings.codec (·.logger) fun x s => { s with logger := x }]

def codec : Codec Settings := Field.codec fields {}

/-- The settings of a file, or the default ones if there is no file. -/
def load (disk : Disk) : Option String → Except LoadError Settings
  | none => .ok {}
  | some path => codec.ofFile disk path

end Settings
end Formulary
