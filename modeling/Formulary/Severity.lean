/-! How grave a message is. -/

namespace Formulary

inductive Severity where
  | debug
  | info
  | warn
  | error
deriving DecidableEq, Repr

namespace Severity

def all : List Severity := [debug, info, warn, error]

def name : Severity → String
  | debug => "Debug"
  | info => "Info"
  | warn => "Warn"
  | error => "Error"

def ofName? (s : String) : Option Severity := all.find? (·.name = s)

/-- The name of the severity in a filter for messages. -/
def directive : Severity → String
  | debug => "debug"
  | info => "info"
  | warn => "warn"
  | error => "error"

/-- The three letters that stand in front of a message. -/
def tag : Severity → String
  | debug => "DBG"
  | info => "INF"
  | warn => "WAR"
  | error => "ERR"

/-- The number of the colour that a terminal shows the tag in. -/
def colour : Severity → String
  | debug => "96"
  | info => "92"
  | warn => "33"
  | error => "91"

/-- The tag with the sequences around it that turn its colour on and off. -/
def colouredTag (s : Severity) : String := "\x1b[" ++ s.colour ++ "m" ++ s.tag ++ "\x1b[0m"

/-- The words for a severity. -/
def words : Severity → List String
  | debug => ["debug", "dbg"]
  | info => ["info", "inf"]
  | warn => ["warn", "warning", "war"]
  | error => ["error", "err"]

/-- Reads a word for a severity, in capital letters or not. Capital letters outside of ASCII are never the
    capitals of letters in these words. -/
def ofWord? (s : String) : Option Severity := all.find? fun severity => severity.words.contains s.toLower

/-- What is said about a word for no severity. -/
def unknownWord (s : String) : String := "Invalid log level: " ++ s

end Severity
end Formulary
