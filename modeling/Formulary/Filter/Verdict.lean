import Formulary.Notice
import Formulary.Text.Blank
import Formulary.Text.DecimalDigit
import Formulary.Text.Lines
import Formulary.Text.Number

/-! Reading the verdicts of a checker. Of the lines it prints, log lines are dropped and those with a question
    mark are kept: they are about properties without an answer. Of each of these, one field between dashes is
    left, which starts with the position of the property. -/

namespace Formulary
namespace Verdict

/-! ### The stages -/

/-- A line of the checker's log. -/
def isLog (line : List Char) : Bool := ['s', 'm', 'c', ':'].isPrefixOf line

/-- A line about a property without an answer. -/
def isUnknown (line : List Char) : Bool := line.contains '?'

/-- Field number `n`, counted from one, of a line split at dashes. A line without a dash is a single field
    whatever the number. -/
def field (n : Nat) (line : List Char) : List Char :=
  if line.contains '-' then (line.splitOn '-').getD (n - 1) [] else line

/-- The field that holds the position of a property of a given instance: ids are
    `<name>-<variant>-<instance>-<category>-<position>`, and only the instance may hold dashes. -/
def positionField (instanceName : String) : Nat := 5 + instanceName.toList.count '-'

/-- What a stage reports about the lines it leaves: it fails without any. -/
def outcome (stage : String) (left : List (List Char)) : List Notice := if left = [] then [.stageFailed stage 1] else []

/-- The lines that are left by the stage that drops the log. -/
def spoken (output : List (List Char)) : List (List Char) := output.filter (!isLog ·)

/-- What is left of the checker's lines after the stages. -/
def stages (n : Nat) (output : List (List Char)) : List Notice × List (List Char) :=
  let unknown := (spoken output).filter isUnknown
  (outcome "grep -v ^smc:" (spoken output) ++ outcome "grep ?" unknown, unknown.map (field n))

/-- What the stages report about an output with null characters, which is no text to the first of them: it takes
    null characters for newlines then, and keeps the lines that it leaves to itself. -/
def withoutText (output : List Char) : List Notice :=
  let lines := Text.lines (output.map fun c => if c = '\x00' then '\n' else c)
  outcome "grep -v ^smc:" (spoken lines) ++ outcome "grep ?" []

/-- What is left of the checker's output after the stages. -/
def ofOutput (n : Nat) (output : List Char) : List Notice × List (List Char) :=
  if output.contains '\x00' then (withoutText output, []) else stages n (Text.lines output)

/-! ### Positions -/

/-- The number that a line starts with, after any space. -/
def position? (line : List Char) : Option Nat :=
  match Text.digits? ((line.dropWhile Text.isBlank).takeWhile Text.isDecimalDigit) with
  | some n => if n < UInt64.size then some n else none
  | none => none

/-- The positions in a text with one on every line. Lines of space are passed over in silence, other lines
    without a position with a notice. -/
def positions (text : List Char) : List Notice × List Nat :=
  let ls := (Text.returnedLines text).filter fun line => !line.all Text.isBlank
  ((ls.filter fun line => (position? line).isNone).map fun line => .unreadableVerdict (String.ofList line),
    ls.filterMap position?)

end Verdict
end Formulary
