import Formulary.Text.Alphanumeric

/-! Reading marked-up text piece by piece. Only comments and well-formed start tags are told apart; whatever
    else begins with an angle bracket is a piece without a meaning of its own. Every piece comes with the
    character data after it. -/

namespace Formulary
namespace Markup

/-- A start tag, `<name key="value" …>`, or the tag of an element without content, `<name … />`. -/
structure Tag where
  name : List Char
  attributes : List (List Char × List Char)
  isEmpty : Bool
deriving DecidableEq, Repr

/-- The value of the first attribute with a given key. -/
def Tag.attribute? (t : Tag) (key : List Char) : Option (List Char) := t.attributes.lookup key

inductive Piece where
  /-- A tag, and the character data up to the next bracket. -/
  | opening (tag : Tag) (data : List Char)
  /-- What follows a bracket that begins no tag, up to the next bracket. -/
  | other (data : List Char)
deriving DecidableEq, Repr

def isNameChar (c : Char) : Bool := Text.isAlphanumeric c || c = '_' || c = '-' || c = ':' || c = '.'

/-- Space inside of a tag. -/
def isSpace (c : Char) : Bool := c = ' ' || c = '\t' || c = '\r' || c = '\n'

def isNotBracket (c : Char) : Bool := c ≠ '<'

/-- A value in quotes of either style at the start of `s`, and what follows it. -/
def quoted? (s : List Char) : Option (List Char × List Char) :=
  match s with
  | [] => none
  | q :: s =>
    if q = '"' ∨ q = '\'' then
      match s.dropWhile (· ≠ q) with
      | [] => none
      | _ :: rest => some (s.takeWhile (· ≠ q), rest)
    else none

/-- The value after an equals sign, with space allowed on both sides of the sign. -/
def value? (s : List Char) : Option (List Char × List Char) :=
  match s.dropWhile isSpace with
  | '=' :: rest => quoted? (rest.dropWhile isSpace)
  | _ => none

/-- An attribute and the space before it. -/
def attribute? (s : List Char) : Option ((List Char × List Char) × List Char) :=
  match s with
  | [] => none
  | c :: _ =>
    let body := s.dropWhile isSpace
    let key := body.takeWhile isNameChar
    if isSpace c ∧ key ≠ [] then
      match value? (body.dropWhile isNameChar) with
      | some (value, rest) => some ((key, value), rest)
      | none => none
    else none

theorem length_of_quoted? {s v r : List Char} (h : quoted? s = some (v, r)) : r.length < s.length := by
  cases s with
  | nil => simp [quoted?] at h
  | cons q s =>
    simp only [quoted?] at h
    split at h
    · have hle : (s.dropWhile (· ≠ q)).length ≤ s.length := (List.dropWhile_suffix _).length_le
      split at h
      · simp at h
      · rename_i heq
        rw [heq] at hle
        simp only [Option.some.injEq, Prod.mk.injEq] at h
        rw [← h.2]
        simp only [List.length_cons] at hle ⊢
        omega
    · simp at h

theorem length_of_value? {s v r : List Char} (h : value? s = some (v, r)) : r.length < s.length := by
  unfold value? at h
  have hle : (s.dropWhile isSpace).length ≤ s.length := (List.dropWhile_suffix _).length_le
  split at h
  · rename_i rest heq
    have hlt := length_of_quoted? h
    have hle' : (rest.dropWhile isSpace).length ≤ rest.length := (List.dropWhile_suffix _).length_le
    rw [heq, List.length_cons] at hle
    omega
  · simp at h

theorem length_of_attribute? {s r : List Char} {a : List Char × List Char} (h : attribute? s = some (a, r)) :
    r.length < s.length := by
  cases s with
  | nil => simp [attribute?] at h
  | cons c s =>
    simp only [attribute?] at h
    split at h
    · split at h
      · rename_i hv
        have hlt := length_of_value? hv
        have h1 : (((c :: s).dropWhile isSpace).dropWhile isNameChar).length ≤ ((c :: s).dropWhile isSpace).length :=
          (List.dropWhile_suffix _).length_le
        have h2 : ((c :: s).dropWhile isSpace).length ≤ (c :: s).length := (List.dropWhile_suffix _).length_le
        simp only [Option.some.injEq, Prod.mk.injEq] at h
        rw [← h.2]
        omega
      · simp at h
    · simp at h

/-- As many attributes as there are, and what follows them. -/
def attributes (s : List Char) : List (List Char × List Char) × List Char :=
  match h : attribute? s with
  | some (a, rest) =>
    have := length_of_attribute? h
    let (as, rest) := attributes rest
    (a :: as, rest)
  | none => ([], s)
termination_by s.length

theorem length_of_attributes (s : List Char) : (attributes s).2.length ≤ s.length := by
  fun_induction attributes s with
  | case1 s a rest h hlt as rest' heq ih =>
    rw [heq] at ih
    have := length_of_attribute? h
    simp only at ih ⊢
    omega
  | case2 s h => exact Nat.le_refl _

/-- The end of a tag: whether it is marked as empty, and what follows it. -/
def tagEnd? (s : List Char) : Option (Bool × List Char) :=
  match s.dropWhile isSpace with
  | '/' :: '>' :: rest => some (true, rest)
  | '>' :: rest => some (false, rest)
  | _ => none

theorem length_of_tagEnd? {s r : List Char} {b : Bool} (h : tagEnd? s = some (b, r)) : r.length < s.length := by
  unfold tagEnd? at h
  have hle : (s.dropWhile isSpace).length ≤ s.length := (List.dropWhile_suffix _).length_le
  split at h
  · rename_i heq
    rw [heq] at hle
    simp only [Option.some.injEq, Prod.mk.injEq] at h
    rw [← h.2]
    simp only [List.length_cons] at hle
    omega
  · rename_i heq
    rw [heq] at hle
    simp only [Option.some.injEq, Prod.mk.injEq] at h
    rw [← h.2]
    simp only [List.length_cons] at hle
    omega
  · simp at h

/-- A tag whose opening bracket is already read. -/
def tag? (s : List Char) : Option (Tag × List Char) :=
  let name := s.takeWhile isNameChar
  if name = [] then none
  else
    let (attributes, rest) := attributes (s.dropWhile isNameChar)
    match tagEnd? rest with
    | some (isEmpty, rest) => some (⟨name, attributes, isEmpty⟩, rest)
    | none => none

theorem length_of_tag? {s r : List Char} {t : Tag} (h : tag? s = some (t, r)) : r.length < s.length := by
  unfold tag? at h
  simp only at h
  split at h
  · simp at h
  · split at h
    · rename_i he
      have h1 := length_of_tagEnd? he
      have h2 := length_of_attributes (s.dropWhile isNameChar)
      have h3 : (s.dropWhile isNameChar).length ≤ s.length := (List.dropWhile_suffix _).length_le
      simp only [Option.some.injEq, Prod.mk.injEq] at h
      rw [← h.2]
      omega
    · simp at h

/-- What follows the end of a comment; nothing, if it has no end. -/
def afterComment : List Char → List Char
  | '-' :: '-' :: '>' :: rest => rest
  | _ :: rest => afterComment rest
  | [] => []

theorem length_afterComment (s : List Char) : (afterComment s).length ≤ s.length := by
  fun_induction afterComment s <;> simp_all <;> omega

/-- The pieces of a text, in order. Comments leave no piece. -/
def pieces (s : List Char) : List Piece :=
  match _h : s.dropWhile isNotBracket with
  | [] => []
  | _ :: '!' :: '-' :: '-' :: body => pieces (afterComment body)
  | _ :: body =>
    match _ht : tag? body with
    | some (tag, rest) => .opening tag (rest.takeWhile isNotBracket) :: pieces rest
    | none => .other (body.takeWhile isNotBracket) :: pieces body
termination_by s.length
decreasing_by
  all_goals
    have hle : (s.dropWhile isNotBracket).length ≤ s.length := (List.dropWhile_suffix _).length_le
    rw [_h] at hle
    simp only [List.length_cons] at hle
  · have := length_afterComment body
    omega
  · have := length_of_tag? _ht
    omega
  · omega

end Markup
end Formulary
