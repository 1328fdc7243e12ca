/-! Text as lines. A line ends at a newline; text after the last newline is a line of its own, unless it is
    empty. -/

namespace Formulary
namespace Text

/-- The parts of a text that end in a newline, without it, and what is left at the end. -/
def segments (s : List Char) : List (List Char) × List Char :=
  match (s.splitOn '\n').reverse with
  | last :: ended => (ended.reverse, last)
  | [] => ([], [])

/-- The lines of a text. -/
def lines (s : List Char) : List (List Char) :=
  let (ended, last) := segments s
  ended ++ if last = [] then [] else [last]

/-- A line without the carriage return before its newline. -/
def dropReturn (line : List Char) : List Char := if line.getLast? = some '\r' then line.dropLast else line

/-- The lines of a text where a newline may come after a carriage return. -/
def returnedLines (s : List Char) : List (List Char) :=
  let (ended, last) := segments s
  ended.map dropReturn ++ if last = [] then [] else [last]

/-- The text with the given lines. -/
def ofLines (ls : List (List Char)) : List Char := ls.flatMap (· ++ ['\n'])

end Text
end Formulary
