import Formulary.Settings.Basic
import Formulary.Text.Number

/-! The options of the command line. They are read from left to right; the first mistake, or the first request
    for help or for the version, ends the reading. -/

namespace Formulary

structure Arguments where
  config : Option String := none
  inputDir : Option String := none
  seed : Option UInt64 := none
  workers : Option UInt64 := none
  noFilter : Bool := false
deriving DecidableEq, Repr

namespace Arguments

/-- An option with a value. -/
inductive Key where
  | config
  | inputDir
  | seed
  | workers
deriving DecidableEq, Repr

/-- Something to be told instead of a run. -/
inductive Page where
  | help
  | version
deriving DecidableEq, Repr

/-- Why there is nothing to run. -/
inductive Stop where
  | page (page : Page)
  | usage
deriving DecidableEq, Repr

/-- A word of the command line. -/
inductive Word where
  /-- An option that takes the next word as its value. -/
  | key (key : Key)
  /-- An option together with its value. -/
  | setting (key : Key) (value : String)
  | noFilter
  | page (page : Page)
  /-- Two dashes: the options end here. -/
  | separator
  | unknown
deriving DecidableEq, Repr

def Key.ofShort? : Char → Option Key
  | 'c' => some .config
  | 'i' => some .inputDir
  | 's' => some .seed
  | 'w' => some .workers
  | _ => none

def Key.ofLong? (s : List Char) : Option Key :=
  if s = "config".toList then some .config
  else if s = "input-dir".toList then some .inputDir
  else if s = "seed".toList then some .seed
  else if s = "workers".toList then some .workers
  else none

/-- The word after two dashes. -/
def long (s : List Char) : Word :=
  let name := s.takeWhile (· ≠ '=')
  match Key.ofLong? name, s.dropWhile (· ≠ '=') with
  | some key, [] => .key key
  | some key, _ :: value => .setting key (String.ofList value)
  | none, [] =>
    if name = "no-filter".toList then .noFilter
    else if name = "help".toList then .page .help
    else if name = "version".toList then .page .version
    else .unknown
  | none, _ => .unknown

/-- The word after one dash. A value follows its letter directly, or after an equals sign. -/
def short (c : Char) (rest : List Char) : Word :=
  match Key.ofShort? c, rest with
  | some key, [] => .key key
  | some key, '=' :: value => .setting key (String.ofList value)
  | some key, value => .setting key (String.ofList value)
  | none, _ => if c = 'h' then .page .help else if c = 'V' then .page .version else .unknown

def Word.ofString (s : String) : Word :=
  match s.toList with
  | ['-', '-'] => .separator
  | '-' :: '-' :: name => long name
  | '-' :: c :: rest => short c rest
  | _ => .unknown

/-- Whether a word is taken as a value rather than as an option. -/
def isValue (s : String) : Bool := s.toList.head? ≠ some '-' || s = "-"

/-- Sets an option that is not set yet. -/
def set (a : Arguments) (key : Key) (value : String) : Except Stop Arguments :=
  let number? := (Text.word64? value.toList).map UInt64.ofNat
  match key with
  | .config => if a.config.isSome then .error .usage else .ok { a with config := some value }
  | .inputDir => if a.inputDir.isSome then .error .usage else .ok { a with inputDir := some value }
  | .seed => if a.seed.isSome ∨ number?.isNone then .error .usage else .ok { a with seed := number? }
  | .workers => if a.workers.isSome ∨ number?.isNone then .error .usage else .ok { a with workers := number? }

/-- Reads the words of the command line. -/
def read (a : Arguments) : List String → Except Stop Arguments
  | [] => .ok a
  | s :: rest =>
    match Word.ofString s with
    | .setting key value => do read (← a.set key value) rest
    | .key key =>
      match rest with
      | [] => .error .usage
      | value :: rest => if isValue value then do read (← a.set key value) rest else .error .usage
    | .noFilter => if a.noFilter then .error .usage else read { a with noFilter := true } rest
    | .page page => .error (.page page)
    | .separator => if rest.isEmpty then .ok a else .error .usage
    | .unknown => .error .usage

/-- The settings with those replaced that the command line gives. -/
def apply (a : Arguments) (s : Settings) : Settings :=
  { s with
    inputDir := a.inputDir.getD s.inputDir
    seed := a.seed.getD s.seed
    numWorkers := a.workers.getD s.numWorkers
    filter := { s.filter with enabled := s.filter.enabled && !a.noFilter } }

def Page.text : Page → String
  | .version => "Citili 0.1\n"
  | .help => "\n".intercalate [
    "Generate CTL and reachability formulas for Petri net models",
    "",
    "Usage: citili [OPTIONS]",
    "",
    "Options:",
    "  -c, --config <CONFIG>        Configuration file, `.json` or `.toml`",
    "  -i, --input-dir <INPUT_DIR>  Directory containing one sub-directory per model",
    "  -s, --seed <SEED>            ",
    "  -w, --workers <WORKERS>      ",
    "      --no-filter              Keep every generated formula instead of running the checker",
    "  -h, --help                   Print help",
    "  -V, --version                Print version",
    ""]

end Arguments
end Formulary
