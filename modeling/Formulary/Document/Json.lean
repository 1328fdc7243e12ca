import Formulary.Document.Value
import Formulary.Text.Reader

/-! Documents in the notation of JSON. -/

namespace Formulary
namespace Json
open Reader (next peek skip accept expect)

/-! ### Reading -/

def isSpace (c : Char) : Bool := c = ' ' || c = '\n' || c = '\t' || c = '\r'

/-- The character that a letter after a backslash stands for. -/
def escape? : Char → Option Char
  | '"' => some '"'
  | '\\' => some '\\'
  | '/' => some '/'
  | 'b' => some '\x08'
  | 'f' => some '\x0c'
  | 'n' => some '\n'
  | 'r' => some '\r'
  | 't' => some '\t'
  | _ => none

/-- The character that a pair of code units stands for. -/
def ofUnits? (high low : Nat) : Option Char :=
  if 0xD800 ≤ high ∧ high < 0xDC00 ∧ 0xDC00 ≤ low ∧ low < 0xE000 then
    Text.charOfCode? (0x10000 + (high - 0xD800) * 0x400 + (low - 0xDC00))
  else none

/-- The rest of a string after its opening quote, and what follows its closing one. A character outside the
    basic plane is escaped as a pair of code units. -/
def string? : List Char → Option (List Char × List Char)
  | [] => none
  | '"' :: rest => some ([], rest)
  | '\\' :: 'u' :: a :: b :: c :: d :: rest =>
    match Text.hex? [a, b, c, d] with
    | none => none
    | some n =>
      match Text.charOfCode? n with
      | some x => (string? rest).map fun (s, r) => (x :: s, r)
      | none =>
        match rest with
        | '\\' :: 'u' :: a' :: b' :: c' :: d' :: rest' =>
          match (Text.hex? [a', b', c', d']).bind (ofUnits? n) with
          | some x => (string? rest').map fun (s, r) => (x :: s, r)
          | none => none
        | _ => none
  | '\\' :: c :: rest =>
    match escape? c with
    | some x => (string? rest).map fun (s, r) => (x :: s, r)
    | none => none
  | c :: rest => if c.toNat < 0x20 then none else (string? rest).map fun (s, r) => (c :: s, r)

def string : Reader String := fun s => (string? s).map fun (s, rest) => (String.ofList s, rest)

/-- At least one digit. -/
def digits : Reader (List Char) := do
  let ds ← Reader.span Char.isDigit
  if ds.isEmpty then failure else return ds

/-- The digits of a whole number, which start with a zero only if there is no other. -/
def wholeDigits : Reader (List Char) := do
  let ds ← digits
  if ds.head? = some '0' ∧ ds.length > 1 then failure else return ds

/-- The sign of an exponent, which may be left out. -/
def sign : Reader (List Char) := fun
  | '+' :: rest => some (['+'], rest)
  | '-' :: rest => some (['-'], rest)
  | s => some ([], s)

/-- What makes a number more than a whole number: digits after a point, and an exponent. -/
def fraction : Reader (List Char) := do
  let places ← if ← accept ['.'] then pure ('.' :: (← digits)) else pure []
  match ← peek with
  | some e =>
    if e = 'e' ∨ e = 'E' then
      let _ ← next
      return places ++ e :: (← sign) ++ (← digits)
    else return places
  | none => return places

/-- A number. Zero with a minus sign is no whole number. -/
def number : Reader Value := do
  let negative ← accept ['-']
  let whole ← wholeDigits
  let more ← fraction
  let magnitude := Nat.ofDigitChars 10 whole 0
  if more.isEmpty ∧ ¬(negative ∧ magnitude = 0) then
    return .int (if negative then -magnitude else magnitude)
  else return .real (String.ofList ((if negative then ['-'] else []) ++ whole ++ more))

mutual

/-- A value, with space allowed before it. -/
def value : (fuel : Nat) → Reader Value
  | 0 => failure
  | fuel + 1 => do
    skip isSpace
    match ← peek with
    | some '"' => next *> .text <$> string
    | some '[' => next *> skip isSpace *> do
      if ← accept [']'] then return .list [] else return .list (← elements fuel)
    | some '{' => next *> skip isSpace *> do
      if ← accept ['}'] then return .table [] else return .table (← members fuel)
    | some 't' => expect "true".toList *> pure (.bool true)
    | some 'f' => expect "false".toList *> pure (.bool false)
    | some 'n' => expect "null".toList *> pure .null
    | _ => number

/-- The elements of a list and its closing bracket. -/
def elements : (fuel : Nat) → Reader (List Value)
  | 0 => failure
  | fuel + 1 => do
    let v ← value fuel
    skip isSpace
    if ← accept [','] then return v :: (← elements fuel)
    else expect [']'] *> pure [v]

/-- The entries of a table and its closing brace. -/
def members : (fuel : Nat) → Reader (List (String × Value))
  | 0 => failure
  | fuel + 1 => do
    skip isSpace
    expect ['"']
    let key ← string
    skip isSpace
    expect [':']
    let v ← value fuel
    skip isSpace
    if ← accept [','] then return (key, v) :: (← members fuel)
    else expect ['}'] *> pure [(key, v)]

end

/-- Reads a document. Between a reader of values and the next one inside of it a character is taken, and there
    is one other reader between them, so the length of the text bounds their depth. -/
def parse? (s : String) : Option Value := (value (2 * s.length + 2) <* skip isSpace).all? s.toList

/-! ### Writing -/

/-- The two digits to the base sixteen of a small number. -/
def hexPair (n : Nat) : List Char := [Nat.digitChar (n / 16), Nat.digitChar (n % 16)]

/-- A character of a string, escaped where it has to be. -/
def escaped (c : Char) : List Char :=
  if c = '"' then ['\\', '"']
  else if c = '\\' then ['\\', '\\']
  else if c = '\x08' then ['\\', 'b']
  else if c = '\x0c' then ['\\', 'f']
  else if c = '\n' then ['\\', 'n']
  else if c = '\r' then ['\\', 'r']
  else if c = '\t' then ['\\', 't']
  else if c.toNat < 0x20 then ['\\', 'u', '0', '0'] ++ hexPair c.toNat
  else [c]

def quoted (s : String) : String := String.ofList ('"' :: s.toList.flatMap escaped ++ ['"'])

/-- A new line at an indentation level. -/
def newLine (level : Nat) : String := String.ofList ('\n' :: List.replicate (2 * level) ' ')

/-- Parts between brackets, each on a line of its own. -/
def bracketed (level : Nat) (left right : String) (parts : List String) : String :=
  if parts.isEmpty then left ++ right
  else
    left ++ newLine (level + 1) ++ ("," ++ newLine (level + 1)).intercalate parts ++ newLine level ++ right

mutual

/-- A document with every element and every entry on a line of its own. -/
def render (level : Nat) : Value → String
  | .null => "null"
  | .bool true => "true"
  | .bool false => "false"
  | .int n => n.repr
  | .real written => written
  | .text s => quoted s
  | .list vs => bracketed level "[" "]" (renderAll (level + 1) vs)
  | .table es => bracketed level "\x7b" "\x7d" (renderEntries (level + 1) es)

def renderAll (level : Nat) : List Value → List String
  | [] => []
  | v :: vs => render level v :: renderAll level vs

def renderEntries (level : Nat) : List (String × Value) → List String
  | [] => []
  | (key, v) :: es => (quoted key ++ ": " ++ render level v) :: renderEntries level es

end

end Json
end Formulary
