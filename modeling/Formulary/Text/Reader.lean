/-! Reading text from left to right. A reader takes characters from the front of a text, or fails. -/

namespace Formulary

abbrev Reader := StateT (List Char) Option

namespace Reader

/-- The next character, which stays where it is; none at the end. -/
def peek : Reader (Option Char) := do return (← get).head?

/-- Takes the next character. -/
def next : Reader Char := fun
  | c :: rest => some (c, rest)
  | [] => none

/-- Takes the longest run of characters with a property. -/
def span (p : Char → Bool) : Reader (List Char) := fun s => some (s.takeWhile p, s.dropWhile p)

/-- Passes over the longest run of characters with a property. -/
def skip (p : Char → Bool) : Reader Unit := fun s => some ((), s.dropWhile p)

/-- Takes the given characters, if they come next, and tells whether they did. -/
def accept (lead : List Char) : Reader Bool := fun s =>
  if lead.isPrefixOf s then some (true, s.drop lead.length) else some (false, s)

/-- Takes the given characters, which must come next. -/
def expect (lead : List Char) : Reader Unit := do
  if ← accept lead then return () else failure

/-- The text is used up. -/
def finish : Reader Unit := do
  if (← get).isEmpty then return () else failure

/-- Reads all of a text. -/
def all? {α : Type} (r : Reader α) (s : List Char) : Option α :=
  match r.run s with
  | some (a, []) => some a
  | _ => none

end Reader

namespace Text

/-- The value of a digit to the base sixteen. -/
def hexDigit? (c : Char) : Option Nat :=
  if c.isDigit then some (c.toNat - '0'.toNat)
  else if 'a' ≤ c ∧ c ≤ 'f' then some (c.toNat - 'a'.toNat + 10)
  else if 'A' ≤ c ∧ c ≤ 'F' then some (c.toNat - 'A'.toNat + 10)
  else none

/-- The number that digits to the base sixteen stand for. -/
def hex? (s : List Char) : Option Nat := s.foldlM (fun n c => (hexDigit? c).map (n * 16 + ·)) 0

/-- The character with a given number, if there is one. -/
def charOfCode? (n : Nat) : Option Char := if n.isValidChar then some (Char.ofNat n) else none

end Text
end Formulary
