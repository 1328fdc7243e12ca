import Mathlib.Data.List.TakeWhile
import Formulary.Net.Markup

/-! Documents put together from parts: character data, comments, declarations, and the tags of elements. The pieces of
    such a document are those of its parts, one after the other. What carries this is that no part but a comment has a
    bracket in it that begins a piece: those in the values of a tag are read over with the tag. -/

namespace Formulary
namespace Markup

/-! ### Parts of a document -/

/-- A key and a value in quotes, with space before them and around the sign between them. -/
structure WrittenAttribute where
  lead : List Char
  key : List Char
  before : List Char
  after : List Char
  quote : Char
  value : List Char
  lead_ne : lead ≠ []
  lead_space : lead.all isSpace
  key_ne : key ≠ []
  key_name : key.all isNameChar
  before_space : before.all isSpace
  after_space : after.all isSpace
  isQuote : quote = '"' ∨ quote = '\''
  value_plain : quote ∉ value

/-- The tag that an element begins with, or that of an element without content. -/
structure WrittenTag where
  name : List Char
  attributes : List WrittenAttribute
  space : List Char
  isEmpty : Bool
  name_ne : name ≠ []
  name_name : name.all isNameChar
  space_space : space.all isSpace

inductive Part where
  | data (text : List Char) (plain : '<' ∉ text)
  | comment (body : List Char) (isOpen : ¬['-', '-', '>'] <:+: body)
  | closing (name space : List Char) (name_ne : name ≠ []) (name_name : name.all isNameChar)
      (space_space : space.all isSpace)
  | declaration (mark : Char) (body : List Char) (isMark : mark = '?' ∨ mark = '!') (plain : '<' ∉ body)
  | opening (tag : WrittenTag)

namespace WrittenAttribute

def text (a : WrittenAttribute) : List Char :=
  a.lead ++ (a.key ++ (a.before ++ '=' :: (a.after ++ a.quote :: (a.value ++ [a.quote]))))

def pair (a : WrittenAttribute) : List Char × List Char := (a.key, a.value)

end WrittenAttribute

namespace WrittenTag

/-- What follows the attributes. -/
def ending (t : WrittenTag) : List Char := t.space ++ if t.isEmpty then ['/', '>'] else ['>']

/-- What follows the opening bracket. -/
def text (t : WrittenTag) : List Char := t.name ++ (t.attributes.flatMap (·.text) ++ t.ending)

def tag (t : WrittenTag) : Tag := ⟨t.name, t.attributes.map (·.pair), t.isEmpty⟩

end WrittenTag

namespace Part

def text : Part → List Char
  | data text _ => text
  | comment body _ => '<' :: '!' :: '-' :: '-' :: (body ++ ['-', '-', '>'])
  | closing name space .. => '<' :: '/' :: (name ++ (space ++ ['>']))
  | declaration mark body .. => '<' :: mark :: body
  | opening tag => '<' :: tag.text

/-- The piece that a part makes with the character data after it. -/
def piece? (rest : List Char) : Part → Option Piece
  | data .. | comment .. => none
  | closing name space .. => some (.other ('/' :: (name ++ (space ++ '>' :: rest.takeWhile isNotBracket))))
  | declaration mark body .. => some (.other (mark :: (body ++ rest.takeWhile isNotBracket)))
  | opening tag => some (.opening tag.tag (rest.takeWhile isNotBracket))

def tag? : Part → Option Tag
  | opening tag => some tag.tag
  | _ => none

end Part

/-! ### Characters -/

/-- A text does not go on with a character of a class. -/
def EndsAt (p : Char → Bool) (s : List Char) : Prop := ∀ c ∈ s.head?, p c = false

section EndsAt
variable {p : Char → Bool} {s rest : List Char} {c : Char}

theorem endsAt_cons (h : p c = false) : EndsAt p (c :: rest) := fun _ hc => Option.some.inj hc ▸ h

theorem EndsAt.dropWhile_eq (h : EndsAt p s) : s.dropWhile p = s := by
  cases s with
  | nil => rfl
  | cons c s => exact List.dropWhile_cons_of_neg (by rw [h c rfl]; exact Bool.false_ne_true)

theorem EndsAt.takeWhile_eq (h : EndsAt p s) : s.takeWhile p = [] := by
  cases s with
  | nil => rfl
  | cons c s => exact List.takeWhile_cons_of_neg (by rw [h c rfl]; exact Bool.false_ne_true)

theorem EndsAt.dropWhile_append (h : EndsAt p rest) (hs : s.all p = true) : (s ++ rest).dropWhile p = rest := by
  rw [List.dropWhile_append_of_pos fun c hc => List.all_eq_true.mp hs c hc, h.dropWhile_eq]

theorem EndsAt.takeWhile_append (h : EndsAt p rest) (hs : s.all p = true) : (s ++ rest).takeWhile p = s := by
  rw [List.takeWhile_append_of_pos fun c hc => List.all_eq_true.mp hs c hc, h.takeWhile_eq, List.append_nil]

theorem EndsAt.takeWhile_append_eq (h : EndsAt p rest) (s : List Char) : (s ++ rest).takeWhile p = s.takeWhile p := by
  induction s with
  | nil => exact h.takeWhile_eq
  | cons c s ih => rw [List.cons_append, List.takeWhile_cons, List.takeWhile_cons, ih]

/-- What a text of characters of the class begins with is told before the text ends. -/
theorem EndsAt.prefix_append_iff {start : List Char} (h : EndsAt p rest) (hstart : start.all p = true) :
    start <+: s ++ rest ↔ start <+: s := by
  constructor
  · intro hprefix
    rcases List.prefix_or_prefix_of_prefix hprefix (List.prefix_append s rest) with hprefix | ⟨more, rfl⟩
    · exact hprefix
    · have hmore : more <+: rest := (List.prefix_append_right_inj s).mp hprefix
      cases more with
      | nil => exact (List.append_nil s).symm ▸ List.prefix_refl s
      | cons c more =>
        obtain ⟨tail, rfl⟩ := hmore
        have hc : p c = true := List.all_eq_true.mp hstart c (List.mem_append_right _ List.mem_cons_self)
        rw [h c rfl] at hc
        cases hc
  · exact fun hprefix => hprefix.trans (List.prefix_append s rest)

end EndsAt

theorem isNameChar_of_isSpace {c : Char} (h : isSpace c = true) : isNameChar c = false := by
  unfold isSpace at h
  simp only [Bool.or_eq_true, decide_eq_true_eq] at h
  rcases h with ((rfl | rfl) | rfl) | rfl <;> decide

theorem isSpace_of_isNameChar {c : Char} (h : isNameChar c = true) : isSpace c = false := by
  rw [← Bool.not_eq_true]
  intro hspace
  rw [isNameChar_of_isSpace hspace] at h
  cases h

/-- After space there is no name character before what comes next. -/
theorem endsAt_space_append {s rest : List Char} (hs : s.all isSpace = true) (h : EndsAt isNameChar rest) :
    EndsAt isNameChar (s ++ rest) := by
  cases s with
  | nil => exact h
  | cons c s => exact endsAt_cons (isNameChar_of_isSpace (List.all_eq_true.mp hs c List.mem_cons_self))

theorem endsAt_name_append {s rest : List Char} (hne : s ≠ []) (hs : s.all isNameChar = true) :
    EndsAt isSpace (s ++ rest) := by
  obtain ⟨c, s, rfl⟩ := List.exists_cons_of_ne_nil hne
  exact endsAt_cons (isSpace_of_isNameChar (List.all_eq_true.mp hs c List.mem_cons_self))

/-! ### Tags -/

theorem quoted?_append {q : Char} {value : List Char} (hq : q = '"' ∨ q = '\'') (hvalue : q ∉ value)
    (rest : List Char) : quoted? (q :: (value ++ q :: rest)) = some (value, rest) := by
  have hend : EndsAt (· ≠ q) (q :: rest) := endsAt_cons (by simp)
  have hall : value.all (· ≠ q) = true := by
    rw [List.all_eq_true]
    intro c hc
    exact decide_eq_true (fun heq => hvalue (heq ▸ hc))
  unfold quoted?
  dsimp only
  rw [if_pos hq, hend.dropWhile_append hall, hend.takeWhile_append hall]

namespace WrittenAttribute
variable (a : WrittenAttribute) (rest : List Char)

theorem isSpace_quote : isSpace a.quote = false := by
  rcases a.isQuote with h | h <;> rw [h] <;> decide

theorem value?_append :
    value? (a.before ++ '=' :: (a.after ++ a.quote :: (a.value ++ a.quote :: rest))) = some (a.value, rest) := by
  unfold value?
  rw [(endsAt_cons (by decide)).dropWhile_append a.before_space]
  show quoted? ((a.after ++ _).dropWhile isSpace) = _
  rw [(endsAt_cons a.isSpace_quote).dropWhile_append a.after_space]
  exact quoted?_append a.isQuote a.value_plain rest

theorem attribute?_append : attribute? (a.text ++ rest) = some (a.pair, rest) := by
  obtain ⟨c, lead, hlead⟩ := List.exists_cons_of_ne_nil a.lead_ne
  have hc : isSpace c = true := List.all_eq_true.mp a.lead_space c (hlead ▸ List.mem_cons_self)
  have htext : a.text ++ rest =
      a.lead ++ (a.key ++ (a.before ++ '=' :: (a.after ++ a.quote :: (a.value ++ a.quote :: rest)))) := by
    simp [text]
  have hbody : (a.text ++ rest).dropWhile isSpace =
      a.key ++ (a.before ++ '=' :: (a.after ++ a.quote :: (a.value ++ a.quote :: rest))) := by
    rw [htext]
    exact (endsAt_name_append a.key_ne a.key_name).dropWhile_append a.lead_space
  have hcons : a.text ++ rest = c :: (lead ++ (a.key ++ (a.before ++ '=' :: (a.after ++ a.quote ::
      (a.value ++ a.quote :: rest))))) := by
    rw [htext, hlead]
    rfl
  have hsign : EndsAt isNameChar (a.before ++ '=' :: (a.after ++ a.quote :: (a.value ++ a.quote :: rest))) :=
    endsAt_space_append a.before_space (endsAt_cons (by decide))
  rw [hcons] at hbody ⊢
  unfold attribute?
  dsimp only
  rw [hbody, hsign.takeWhile_append a.key_name, hsign.dropWhile_append a.key_name, if_pos ⟨hc, a.key_ne⟩,
    a.value?_append]
  rfl

end WrittenAttribute

theorem attribute?_eq_none {s : List Char} (h : (s.dropWhile isSpace).takeWhile isNameChar = []) :
    attribute? s = none := by
  unfold attribute?
  split
  · rfl
  · dsimp only
    rw [h, if_neg fun hkey => hkey.2 rfl]

theorem attributes_of_none {s : List Char} (h : attribute? s = none) : attributes s = ([], s) := by
  rw [attributes]
  split
  · rename_i hs
    rw [h] at hs
    cases hs
  · rfl

theorem attributes_of_some {s rest : List Char} {a : List Char × List Char} (h : attribute? s = some (a, rest)) :
    attributes s = (a :: (attributes rest).1, (attributes rest).2) := by
  rw [attributes]
  split
  · rename_i hs
    rw [h] at hs
    cases hs
    rfl
  · rename_i hs
    rw [h] at hs
    cases hs

theorem attributes_append {rest : List Char} (h : attribute? rest = none) (as : List WrittenAttribute) :
    attributes (as.flatMap (·.text) ++ rest) = (as.map (·.pair), rest) := by
  induction as with
  | nil => exact attributes_of_none h
  | cons a as ih =>
    have ha := a.attribute?_append (as.flatMap (·.text) ++ rest)
    rw [List.flatMap_cons, List.append_assoc, attributes_of_some ha, ih]
    rfl

namespace WrittenTag
variable (t : WrittenTag) (rest : List Char)

/-- A tag ends in space and a slash or a bracket. -/
theorem ending_append : ∃ c tail, isSpace c = false ∧ isNameChar c = false ∧ t.ending ++ rest = t.space ++ c :: tail ∧
    tagEnd? (t.ending ++ rest) = some (t.isEmpty, rest) := by
  unfold ending tagEnd?
  cases t.isEmpty with
  | false =>
    refine ⟨'>', rest, by decide, by decide, by simp, ?_⟩
    have hend : EndsAt isSpace (['>'] ++ rest) := endsAt_cons (by decide)
    rw [if_neg Bool.false_ne_true, List.append_assoc, hend.dropWhile_append t.space_space]
    rfl
  | true =>
    refine ⟨'/', '>' :: rest, by decide, by decide, by simp, ?_⟩
    have hend : EndsAt isSpace (['/', '>'] ++ rest) := endsAt_cons (by decide)
    rw [if_pos rfl, List.append_assoc, hend.dropWhile_append t.space_space]
    rfl

theorem attribute?_ending : attribute? (t.ending ++ rest) = none := by
  obtain ⟨c, tail, hspace, hname, heq, -⟩ := t.ending_append rest
  refine attribute?_eq_none ?_
  rw [heq, (endsAt_cons hspace).dropWhile_append t.space_space, (endsAt_cons hname).takeWhile_eq]

theorem endsAt_afterName : EndsAt isNameChar (t.attributes.flatMap (·.text) ++ (t.ending ++ rest)) := by
  cases t.attributes with
  | nil =>
    obtain ⟨c, tail, -, hname, heq, -⟩ := t.ending_append rest
    rw [List.flatMap_nil, List.nil_append, heq]
    exact endsAt_space_append t.space_space (endsAt_cons hname)
  | cons a as =>
    obtain ⟨c, lead, hlead⟩ := List.exists_cons_of_ne_nil a.lead_ne
    have hc : isSpace c = true := List.all_eq_true.mp a.lead_space c (hlead ▸ List.mem_cons_self)
    rw [List.flatMap_cons, WrittenAttribute.text, hlead]
    exact endsAt_cons (isNameChar_of_isSpace hc)

theorem tag?_append : tag? (t.text ++ rest) = some (t.tag, rest) := by
  obtain ⟨-, -, -, -, -, hend⟩ := t.ending_append rest
  have hname := t.endsAt_afterName rest
  unfold tag? text
  rw [List.append_assoc, List.append_assoc, hname.takeWhile_append t.name_name, hname.dropWhile_append t.name_name,
    attributes_append (t.attribute?_ending rest)]
  dsimp only
  rw [if_neg t.name_ne, hend]
  rfl

end WrittenTag

/-! ### Pieces -/

section Pieces
variable {s s' body rest : List Char} {c : Char} {t : Tag}

theorem pieces_of_nil (h : s.dropWhile isNotBracket = []) : pieces s = [] := by
  rw [pieces]
  split <;> simp_all

theorem pieces_of_comment (h : s.dropWhile isNotBracket = c :: '!' :: '-' :: '-' :: body) :
    pieces s = pieces (afterComment body) := by
  rw [pieces]
  split <;> simp_all

theorem pieces_of_tag (h : s.dropWhile isNotBracket = c :: body) (hbody : ¬['!', '-', '-'] <+: body)
    (ht : tag? body = some (t, rest)) :
    pieces s = .opening t (rest.takeWhile isNotBracket) :: pieces rest := by
  rw [pieces]
  split
  · simp_all
  · rename_i hs
    rw [h] at hs
    cases hs
    exact absurd ⟨_, rfl⟩ hbody
  · rename_i hs
    rw [h] at hs
    cases hs
    split <;> simp_all

theorem pieces_of_other (h : s.dropWhile isNotBracket = c :: body) (hbody : ¬['!', '-', '-'] <+: body)
    (ht : tag? body = none) : pieces s = .other (body.takeWhile isNotBracket) :: pieces body := by
  rw [pieces]
  split
  · simp_all
  · rename_i hs
    rw [h] at hs
    cases hs
    exact absurd ⟨_, rfl⟩ hbody
  · rename_i hs
    rw [h] at hs
    cases hs
    split <;> simp_all

/-- Character data in front of a text makes no piece. -/
theorem pieces_congr (h : s.dropWhile isNotBracket = s'.dropWhile isNotBracket) : pieces s = pieces s' := by
  cases hs : s.dropWhile isNotBracket with
  | nil => exact (pieces_of_nil hs).trans (pieces_of_nil (h.symm.trans hs)).symm
  | cons c body =>
    by_cases hbody : ['!', '-', '-'] <+: body
    · obtain ⟨body, rfl⟩ := hbody
      exact (pieces_of_comment hs).trans (pieces_of_comment (h.symm.trans hs)).symm
    · cases ht : tag? body with
      | none => exact (pieces_of_other hs hbody ht).trans (pieces_of_other (h.symm.trans hs) hbody ht).symm
      | some t => exact (pieces_of_tag hs hbody ht).trans (pieces_of_tag (h.symm.trans hs) hbody ht).symm

theorem all_isNotBracket (h : '<' ∉ s) : s.all isNotBracket = true := by
  rw [List.all_eq_true]
  intro c hc
  exact decide_eq_true fun heq => h (heq ▸ hc)

theorem pieces_append (h : '<' ∉ s) (rest : List Char) : pieces (s ++ rest) = pieces rest :=
  pieces_congr (List.dropWhile_append_of_pos fun c hc => List.all_eq_true.mp (all_isNotBracket h) c hc)

theorem takeWhile_append_isNotBracket (h : '<' ∉ s) (rest : List Char) :
    (s ++ rest).takeWhile isNotBracket = s ++ rest.takeWhile isNotBracket :=
  List.takeWhile_append_of_pos fun c hc => List.all_eq_true.mp (all_isNotBracket h) c hc

/-- What begins with a bracket and no name is read up to the next bracket. -/
theorem pieces_bracket (rest : List Char) (hbody : '<' ∉ body) (hname : EndsAt isNameChar (body ++ rest))
    (hopen : ¬['!', '-', '-'] <+: body ++ rest) :
    pieces ('<' :: (body ++ rest)) = .other (body ++ rest.takeWhile isNotBracket) :: pieces rest := by
  have ht : tag? (body ++ rest) = none := by
    unfold tag?
    rw [hname.takeWhile_eq]
    exact if_pos rfl
  have hs : ('<' :: (body ++ rest)).dropWhile isNotBracket = '<' :: (body ++ rest) := rfl
  rw [pieces_of_other hs hopen ht, pieces_append hbody, takeWhile_append_isNotBracket hbody]

theorem afterComment_cons (h : ¬['-', '-', '>'] <+: c :: s) : afterComment (c :: s) = afterComment s := by
  rw [afterComment.eq_def]
  split
  · rename_i heq
    cases heq
    exact absurd ⟨_, rfl⟩ h
  · rename_i heq
    cases heq
    rfl
  · rename_i heq
    cases heq

/-- A comment is over at the first place where it can be. -/
theorem afterComment_append (h : ¬['-', '-', '>'] <:+: body) (rest : List Char) :
    afterComment (body ++ '-' :: '-' :: '>' :: rest) = rest := by
  induction body with
  | nil => rfl
  | cons c body ih =>
    have hbody : ¬['-', '-', '>'] <:+: body := fun hmem => h (hmem.trans (List.suffix_cons c body).isInfix)
    have hstart : ¬['-', '-', '>'] <+: c :: (body ++ '-' :: '-' :: '>' :: rest) := by
      -- the last of the three characters is no dash, so it stands in the body or ends the comment
      rcases body with _ | ⟨d, _ | ⟨e, body⟩⟩
      · simp
      · simp
      · rintro ⟨tail, htail⟩
        cases htail
        exact h ⟨[], body, rfl⟩
    rw [List.cons_append, afterComment_cons hstart]
    exact ih hbody

end Pieces

/-! ### Documents -/

/-- The text of parts, one after the other. -/
def textOf (parts : List Part) : List Char := parts.flatMap (·.text)

/-- No declaration begins, with what follows it, as a comment does. -/
def Apart : List Part → Prop
  | [] => True
  | .declaration mark body isMark plain :: parts =>
    ¬['<', '!', '-', '-'] <+: textOf (.declaration mark body isMark plain :: parts) ∧ Apart parts
  | _ :: parts => Apart parts

/-- The pieces of parts, one after the other. -/
def piecesOf : List Part → List Piece
  | [] => []
  | part :: parts => (part.piece? (textOf parts)).toList ++ piecesOf parts

theorem textOf_cons (part : Part) (parts : List Part) : textOf (part :: parts) = part.text ++ textOf parts :=
  List.flatMap_cons ..

theorem textOf_append (parts parts' : List Part) : textOf (parts ++ parts') = textOf parts ++ textOf parts' :=
  List.flatMap_append

theorem not_mem_of_all {s : List Char} {p : Char → Bool} (hs : s.all p = true) (hp : p '<' = false) : '<' ∉ s := by
  intro hmem
  have h := List.all_eq_true.mp hs _ hmem
  rw [hp] at h
  cases h

theorem pieces_textOf {parts : List Part} (h : Apart parts) : pieces (textOf parts) = piecesOf parts := by
  induction parts with
  | nil => exact pieces_of_nil rfl
  | cons part parts ih =>
    rw [textOf_cons]
    cases part with
    | data text plain =>
      show pieces (text ++ _) = piecesOf parts
      rw [pieces_append plain, ih h]
    | comment body isOpen =>
      have hcomment : (Part.comment body isOpen).text ++ textOf parts =
          '<' :: '!' :: '-' :: '-' :: (body ++ '-' :: '-' :: '>' :: textOf parts) := by simp [Part.text]
      rw [hcomment, pieces_of_comment rfl, afterComment_append isOpen, ih h]
      rfl
    | closing name space name_ne name_name space_space =>
      have hplain : '<' ∉ '/' :: (name ++ (space ++ ['>'])) := by
        simp [not_mem_of_all name_name (by decide), not_mem_of_all space_space (by decide)]
      have hpieces := pieces_bracket (textOf parts) hplain (endsAt_cons (by decide)) (by simp)
      simpa [Part.text, piecesOf, Part.piece?, ih h] using hpieces
    | declaration mark body isMark plain =>
      obtain ⟨hopen, hparts⟩ := h
      have hmark : isNameChar mark = false ∧ mark ≠ '<' := by rcases isMark with rfl | rfl <;> decide
      have hplain : '<' ∉ mark :: body := by simp [hmark.2.symm, plain]
      have hopen' : ¬['!', '-', '-'] <+: mark :: body ++ textOf parts := fun hprefix =>
        hopen ((List.prefix_cons_inj '<').mpr hprefix)
      rw [piecesOf, ← ih hparts, Part.text, List.cons_append, pieces_bracket _ hplain (endsAt_cons hmark.1) hopen']
      rfl
    | opening tag =>
      obtain ⟨c, name, hname⟩ := List.exists_cons_of_ne_nil tag.name_ne
      have hc : isNameChar c = true := List.all_eq_true.mp tag.name_name c (hname ▸ List.mem_cons_self)
      have hopen : ¬['!', '-', '-'] <+: tag.text ++ textOf parts := by
        rw [WrittenTag.text, hname]
        intro hprefix
        cases (List.cons_prefix_cons.mp hprefix).1
        exact absurd hc (by decide)
      rw [piecesOf, ← ih h, Part.text, List.cons_append, pieces_of_tag rfl hopen (tag.tag?_append _)]
      rfl

structure Document where
  parts : List Part
  apart : Apart parts

namespace Document

def text (d : Document) : List Char := textOf d.parts

/-- The tags that elements begin with, in order. -/
def tags (d : Document) : List Tag := d.parts.filterMap (·.tag?)

end Document

/-- The tag in a piece, if it is one. -/
def Piece.tag? : Piece → Option Tag
  | opening tag _ => some tag
  | other _ => none

theorem filterMap_tag?_pieces (d : Document) : (pieces d.text).filterMap Piece.tag? = d.tags := by
  obtain ⟨parts, apart⟩ := d
  show (pieces (textOf parts)).filterMap Piece.tag? = parts.filterMap (·.tag?)
  rw [pieces_textOf apart]
  clear apart
  induction parts with
  | nil => rfl
  | cons part parts ih =>
    rw [piecesOf, List.filterMap_append, ih]
    cases part <;> rfl

end Markup
end Formulary
