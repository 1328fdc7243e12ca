import Formulary.Text.Reader

/-! Strings in TOML. Basic strings have escapes, literal strings have none, and both may run over several lines
    between three quotes. -/

namespace Formulary
namespace Toml

/-- A character that may stand in a line: a tab or no control character. -/
def isPlain (c : Char) : Bool := c = '\t' || (c.toNat ≥ 0x20 && c.toNat ≠ 0x7F)

def isBlank (c : Char) : Bool := c = ' ' || c = '\t'

/-- The character that a letter after a backslash stands for. -/
def escape? : Char → Option Char
  | 'b' => some '\x08'
  | 't' => some '\t'
  | 'n' => some '\n'
  | 'f' => some '\x0c'
  | 'r' => some '\r'
  | 'e' => some '\x1b'
  | '"' => some '"'
  | '\\' => some '\\'
  | _ => none

/-- The number of digits after a letter that begins the number of a character. -/
def codeLength? : Char → Option Nat
  | 'x' => some 2
  | 'u' => some 4
  | 'U' => some 8
  | _ => none

/-- The character escaped after a backslash. -/
def escaped? (s : List Char) : Option (Char × List Char) :=
  match s with
  | [] => none
  | c :: rest =>
    match escape? c, codeLength? c with
    | some x, _ => some (x, rest)
    | none, some n =>
      if rest.length < n then none
      else ((Text.hex? (rest.take n)).bind Text.charOfCode?).map fun x => (x, rest.drop n)
    | none, none => none

theorem length_of_escaped? {s r : List Char} {x : Char} (h : escaped? s = some (x, r)) : r.length < s.length := by
  unfold escaped? at h
  split at h
  · simp at h
  · split at h
    · simp only [Option.some.injEq, Prod.mk.injEq] at h
      simp [← h.2]
    · split at h
      · simp at h
      · simp only [Option.map_eq_some_iff, Prod.mk.injEq] at h
        obtain ⟨_, _, _, rfl⟩ := h
        simp only [List.length_drop, List.length_cons]
        omega
    · simp at h

/-- A newline at the start of `s`, and what follows it. -/
def newline? : List Char → Option (List Char)
  | '\n' :: rest => some rest
  | '\r' :: '\n' :: rest => some rest
  | _ => none

/-- The rest of a basic string on one line. -/
def basic? (s : List Char) : Option (List Char × List Char) :=
  match s with
  | [] => none
  | '"' :: rest => some ([], rest)
  | '\\' :: rest =>
    match h : escaped? rest with
    | some (x, rest') =>
      have := length_of_escaped? h
      (basic? rest').map fun (t, r) => (x :: t, r)
    | none => none
  | c :: rest => if isPlain c then (basic? rest).map fun (t, r) => (c :: t, r) else none
termination_by s.length

/-- The rest of a literal string on one line. -/
def literal? : List Char → Option (List Char × List Char)
  | [] => none
  | '\'' :: rest => some ([], rest)
  | c :: rest => if isPlain c then (literal? rest).map fun (t, r) => (c :: t, r) else none

/-- The end of a string over several lines, at the start of `s`: three quotes, with up to two more before
    them that belong to the string. -/
def ending? (quote : Char) (s : List Char) : Option (List Char × List Char) :=
  let count := min 5 (s.takeWhile (· = quote)).length
  if count < 3 then none else some (List.replicate (count - 3) quote, s.drop count)

/-- The text after the blanks and newlines at the start of `s`. -/
def skipLines : List Char → List Char
  | '\r' :: '\n' :: rest => skipLines rest
  | c :: rest => if isBlank c ∨ c = '\n' then skipLines rest else c :: rest
  | [] => []

/-- What follows a backslash at the end of a line: the rest after blanks and newlines. -/
def continuation? (s : List Char) : Option (List Char) := (newline? (s.dropWhile isBlank)).map skipLines

theorem length_of_newline? {s r : List Char} (h : newline? s = some r) : r.length < s.length := by
  unfold newline? at h
  split at h
  · obtain rfl := Option.some.inj h
    simp only [List.length_cons]
    omega
  · obtain rfl := Option.some.inj h
    simp only [List.length_cons]
    omega
  · simp at h

theorem length_skipLines_le (s : List Char) : (skipLines s).length ≤ s.length := by
  induction s using skipLines.induct with
  | case1 rest ih =>
    rw [skipLines]
    simp only [List.length_cons]
    omega
  | case2 c rest notReturn h ih =>
    have step : skipLines (c :: rest) = skipLines rest := by
      rw [skipLines, if_pos h]
      exact notReturn
    exact step ▸ Nat.le_succ_of_le ih
  | case3 c rest notReturn h =>
    have stop : skipLines (c :: rest) = c :: rest := by
      rw [skipLines, if_neg h]
      exact notReturn
    exact Nat.le_of_eq (congrArg List.length stop)
  | case4 => simp [skipLines]

theorem length_of_continuation? {s r : List Char} (h : continuation? s = some r) : r.length < s.length := by
  simp only [continuation?, Option.map_eq_some_iff] at h
  obtain ⟨t, ht, rfl⟩ := h
  have h1 := length_of_newline? ht
  have h2 : (s.dropWhile isBlank).length ≤ s.length := (List.dropWhile_suffix _).length_le
  have h3 := length_skipLines_le t
  omega

/-- The rest of a basic string over several lines. Its newlines belong to it as they are written. -/
def basicLines? (s : List Char) : Option (List Char × List Char) :=
  match ending? '"' s with
  | some answer => some answer
  | none =>
    match s with
    | [] => none
    | '\\' :: rest =>
      match h : escaped? rest with
      | some (x, rest') =>
        have := length_of_escaped? h
        (basicLines? rest').map fun (t, r) => (x :: t, r)
      | none =>
        match h : continuation? rest with
        | some rest' =>
          have := length_of_continuation? h
          basicLines? rest'
        | none => none
    | '\r' :: '\n' :: rest => (basicLines? rest).map fun (t, r) => ('\r' :: '\n' :: t, r)
    | c :: rest =>
      if isPlain c ∨ c = '\n' then (basicLines? rest).map fun (t, r) => (c :: t, r) else none
termination_by s.length

/-- The rest of a literal string over several lines. Its newlines belong to it as they are written. -/
def literalLines? (s : List Char) : Option (List Char × List Char) :=
  match ending? '\'' s with
  | some answer => some answer
  | none =>
    match s with
    | [] => none
    | '\r' :: '\n' :: rest => (literalLines? rest).map fun (t, r) => ('\r' :: '\n' :: t, r)
    | c :: rest =>
      if isPlain c ∨ c = '\n' then (literalLines? rest).map fun (t, r) => (c :: t, r) else none

/-- A string over several lines does not begin with the newline after its opening quotes. -/
def afterNewline (s : List Char) : List Char := (newline? s).getD s

/-- The rest of a string of any kind, by the quotes it begins with. -/
def body? : List Char → Option (List Char × List Char)
  | '"' :: '"' :: '"' :: rest => basicLines? (afterNewline rest)
  | '\'' :: '\'' :: '\'' :: rest => literalLines? (afterNewline rest)
  | '"' :: rest => basic? rest
  | '\'' :: rest => literal? rest
  | _ => none

/-- A string of any kind. -/
def string : Reader String := fun s => (body? s).map fun (t, rest) => (String.ofList t, rest)

/-- A string on one line. -/
def key : Reader String := fun s =>
  let body := match s with
    | '"' :: rest => basic? rest
    | '\'' :: rest => literal? rest
    | _ => none
  body.map fun (t, rest) => (String.ofList t, rest)

end Toml
end Formulary
