import Formulary.Document.Toml.Quoted
import Formulary.Document.Toml.Tree

/-! Documents in the notation of TOML. All kinds of values are known but dates and times, which no setting is
    made of. -/

namespace Formulary
namespace Toml
open Reader (peek next skip accept expect finish)

/-! ### Space and keys -/

/-- The rest of a line, which may hold a comment, up to its newline or the end of the document. -/
def comment : Reader Unit := do
  if ← accept ['#'] then skip isPlain

/-- Takes a newline, if one comes next, and tells whether it did. -/
def newline : Reader Bool := fun s =>
  match newline? s with
  | some rest => some (true, rest)
  | none => some (false, s)

/-- Space, newlines and comments. -/
def space : (fuel : Nat) → Reader Unit
  | 0 => failure
  | fuel + 1 => do
    skip isBlank
    comment
    if ← newline then space fuel else return ()

/-- Space, newlines and comments, each of which takes a character. -/
def spaces : Reader Unit := do space ((← get).length + 1)

/-- The end of a line: space, perhaps a comment, and a newline or the end of the document. -/
def lineEnd : Reader Unit := do
  skip isBlank
  comment
  if ← newline then return () else finish

def isBareKeyChar (c : Char) : Bool := c.isAlphanum || c = '_' || c = '-'

/-- One part of a key. -/
def simpleKey : Reader String := do
  let bare ← Reader.span isBareKeyChar
  if bare.isEmpty then key else return String.ofList bare

/-- The parts of a key after the first one. -/
def moreKeys : (fuel : Nat) → Reader (List String)
  | 0 => failure
  | fuel + 1 => do
    skip isBlank
    if ← accept ['.'] then
      skip isBlank
      return (← simpleKey) :: (← moreKeys fuel)
    else return []

/-- The parts of a key but the last one, and the last one. -/
def dottedKey : Reader (List String × String) := do
  let first ← simpleKey
  let more ← moreKeys ((← get).length + 1)
  return ((first :: more).dropLast, more.getLast?.getD first)

/-! ### Values -/

/-- The digits of a number to a base of at most sixteen, with underscores between them. -/
def digits? (base : Nat) (s : List Char) : Option Nat :=
  (s.splitOn '_').foldlM (fun n group =>
    if group.isEmpty then none
    else group.foldlM (fun n c => (Text.hexDigit? c).bind fun d => if d < base then some (n * base + d) else none) n) 0

/-- Decimal digits, which start with a zero only if there is no other. -/
def decimal? (s : List Char) : Option Nat := if s.head? = some '0' ∧ s.length > 1 then none else digits? 10 s

/-- A whole number. Only decimal digits may have a sign. -/
def integer? (s : List Char) : Option Int :=
  match s with
  | '0' :: 'x' :: ds => (digits? 16 ds).map Int.ofNat
  | '0' :: 'o' :: ds => (digits? 8 ds).map Int.ofNat
  | '0' :: 'b' :: ds => (digits? 2 ds).map Int.ofNat
  | '-' :: ds => (decimal? ds).map fun n => -(n : Int)
  | '+' :: ds => (decimal? ds).map Int.ofNat
  | _ => (decimal? s).map Int.ofNat

/-- A text without the sign at its start. -/
def unsigned : List Char → List Char
  | '+' :: rest => rest
  | '-' :: rest => rest
  | s => s

/-- An exponent, which may be left out. -/
def isExponent : List Char → Bool
  | [] => true
  | e :: rest => (e = 'e' || e = 'E') && (digits? 10 (unsigned rest)).isSome

/-- Whether a word is a number with a fraction or an exponent, or stands for what is no number. -/
def isReal (word : List Char) : Bool :=
  let isPart (c : Char) := c.isDigit || c = '_'
  let s := unsigned word
  let more := s.dropWhile isPart
  s = "inf".toList || s = "nan".toList || (decimal? (s.takeWhile isPart)).isSome &&
    match more with
    | '.' :: rest => (digits? 10 (rest.takeWhile isPart)).isSome && isExponent (rest.dropWhile isPart)
    | _ => isExponent more

/-- A truth value or a number. -/
def scalar : Reader Value := do
  let word ← Reader.span fun c => isBareKeyChar c || c = '+' || c = '.' || c = ':'
  if word = "true".toList then return .bool true
  else if word = "false".toList then return .bool false
  else
    match integer? word with
    | some n => return .int n
    | none => if isReal word then return .real (String.ofList word) else failure

mutual

/-- A value. -/
def value : (fuel : Nat) → Reader Value
  | 0 => failure
  | fuel + 1 => do
    match ← peek with
    | some '"' | some '\'' => return .text (← string)
    | some '[' => next *> spaces *> do return .list (← elements fuel)
    | some '{' => next *> spaces *> do return (← entries fuel (Node.table false false [])).toValue
    | _ => scalar

/-- The elements of a list and its closing bracket. A comma may come after the last one. -/
def elements : (fuel : Nat) → Reader (List Value)
  | 0 => failure
  | fuel + 1 => do
    if ← accept [']'] then return []
    else
      let v ← value fuel
      spaces
      if ← accept [','] then
        spaces
        return v :: (← elements fuel)
      else expect [']'] *> pure [v]

/-- The entries of a table between braces, added to those read before, and the closing brace. A comma may come
    after the last one. Entries need not stay on a line, but their keys do. -/
def entries : (fuel : Nat) → Node → Reader Node
  | 0, _ => failure
  | fuel + 1, table => do
    if ← accept ['}'] then return table
    else
      let (parents, key) ← dottedKey
      spaces
      expect ['=']
      spaces
      let v ← value fuel
      match table.assign parents key v with
      | none => failure
      | some table =>
        spaces
        if ← accept [','] then
          spaces
          entries fuel table
        else expect ['}'] *> pure table

end

/-! ### Documents -/

/-- What has been read of a document: its tables, and the path of the table whose header came last. -/
structure Reading where
  root : Node
  current : List String

/-- A header in brackets: the path and whether it adds to a list of tables. -/
def header : Reader (List String × String × Bool) := do
  let isElement ← accept ['[', '[']
  if !isElement then expect ['[']
  skip isBlank
  let (parents, key) ← dottedKey
  skip isBlank
  expect (if isElement then [']', ']'] else [']'])
  return (parents, key, isElement)

/-- One line that is not empty: a header, or an entry of the current table. -/
def statement (r : Reading) : Reader Reading := do
  if (← peek) = some '[' then
    let (parents, key, isElement) ← header
    match r.root.modifyAt false (if isElement then Node.openElement key else Node.openTable key) parents with
    | some root => return ⟨root, parents ++ [key]⟩
    | none => failure
  else
    let (parents, key) ← dottedKey
    skip isBlank
    expect ['=']
    skip isBlank
    let v ← value (2 * (← get).length + 2)
    match r.root.modifyAt false (Node.assign parents key v) r.current with
    | some root => return { r with root }
    | none => failure

/-- The lines of a document from where it was read up to. -/
def statements : (fuel : Nat) → Reading → Reader Reading
  | 0, _ => failure
  | fuel + 1, r => do
    spaces
    if (← get).isEmpty then return r
    else
      let r ← statement r
      lineEnd
      statements fuel r

/-- Reads a document. A byte order mark may come before it. -/
def parse? (s : String) : Option Value :=
  let text := if s.toList.head? = some '\uFEFF' then s.toList.tail else s.toList
  ((statements (text.length + 1) ⟨.table false false [], []⟩).all? text).map fun r => r.root.toValue

end Toml
end Formulary
