import Formulary.Formula.Catalog
import Formulary.Proofs.Formula.Grammar
import Formulary.Proofs.Property.Element
import Formulary.Property.Readable
import Formulary.Text.Number

/-! The property file for readers determines its formulas. An operand in infix form stands between parentheses, or it is
    a count or a constant, and identifiers stand between quotes. So although identifiers may hold parentheses and signs
    of operators, the text of a formula tells where it ends: the first character tells whether the operator stands in
    front of its operand, between its operands, or whether there is an atom; each operand ends where a parenthesis
    closes it; a name ends at the next quote; and a constant ends where no digit follows. -/

namespace Formulary

/-! ### Formulas with an infix form of their own -/

/-- The text can stand between quotes. -/
def IsQuotable (text : String) : Prop := '"' ∉ text.toList

instance (text : String) : Decidable (IsQuotable text) := inferInstanceAs (Decidable ('"' ∉ text.toList))

/-- The text is a number of 64 bits, with or without a sign. -/
def IsNumeral (text : String) : Prop := ∃ n, Text.int64? text.toList = some n

/-- What is compared in an atom. -/
inductive IsShownTerm : Formula → Prop
  | tokenCount {places : List String} (h : ∀ p ∈ places, IsQuotable p) : IsShownTerm (.tokenCount places)
  | integerConstant {text : String} (h : IsNumeral text) : IsShownTerm ⟨.integerConstant, [.literal text]⟩

/-- The atoms, over any number of identifiers. -/
inductive IsShownAtom : Formula → Prop
  | isFireable {transitions : List String} (h : ∀ t ∈ transitions, IsQuotable t) :
      IsShownAtom (.isFireable transitions)
  | leq {f g : Formula} (hf : IsShownTerm f) (hg : IsShownTerm g) : IsShownAtom (.leq f g)

namespace Catalog

/-- The operators that are written in front of their operand, each with its sign. -/
def leading (_ : Catalog) : List (Char × Operator) :=
  [('A', .fixed .allPaths 1), ('E', .fixed .existsPath 1), ('!', .not), ('G', .fixed .globally 1),
    ('F', .fixed .eventually 1), ('X', .fixed .next 1)]

/-- The operators that are written between their operands, each with its sign. -/
def joining (c : Catalog) : List (Char × Operator) :=
  [('&', .connective .and c.maxArity), ('|', .connective .or c.maxArity), ('U', .fixed .strongUntil 2)]

/-- State and path formulas over the operators of the catalog, with atoms over identifiers that can be quoted. A
    connective has any number of operands from two on, an until has two. -/
inductive Legible (c : Catalog) : Formula → Prop
  | atom {f : Formula} (h : IsShownAtom f) : Legible c f
  | led {sign : Char} {op : Operator} {f : Formula} (hop : (sign, op) ∈ c.leading) (hf : Legible c f) :
      Legible c ⟨op, [f]⟩
  | joined {sign : Char} {op : Operator} {f g : Formula} {fs : List Formula} (hop : (sign, op) ∈ c.joining)
      (hpair : sign = 'U' → fs = []) (hargs : ∀ x ∈ f :: g :: fs, Legible c x) : Legible c ⟨op, f :: g :: fs⟩

/-- Every formula that the grammar derives is among them. -/
theorem legible_of_derives {c : Catalog} {scope : Scope} {f : Formula}
    (h : c.Derives IsShownAtom pathQuantifiers scope f) : c.Legible f := by
  have led : ∀ symbol ∈ pathQuantifiers ++ [.globally, .eventually, .next], ∀ f, c.Legible f →
      c.Legible ⟨.fixed symbol 1, [f]⟩ := by
    intro symbol hsymbol f hf
    obtain ⟨sign, hop⟩ : ∃ sign, (sign, .fixed symbol 1) ∈ c.leading := by
      simp only [pathQuantifiers, List.cons_append, List.nil_append, List.mem_cons, List.not_mem_nil, or_false]
        at hsymbol
      rcases hsymbol with rfl | rfl | rfl | rfl | rfl
      · exact ⟨'A', by simp [leading]⟩
      · exact ⟨'E', by simp [leading]⟩
      · exact ⟨'G', by simp [leading]⟩
      · exact ⟨'F', by simp [leading]⟩
      · exact ⟨'X', by simp [leading]⟩
    exact .led hop hf
  induction h with
  | atom h => exact .atom h
  | not _ ih =>
    have hop : ('!', .not) ∈ c.leading := by simp [leading]
    exact .led hop ih
  | @connective symbol args hsymbol two _ _ ih =>
    obtain ⟨sign, hop, hsign⟩ : ∃ sign, (sign, .connective symbol c.maxArity) ∈ c.joining ∧ sign ≠ 'U' := by
      simp only [List.mem_cons, List.not_mem_nil, or_false] at hsymbol
      rcases hsymbol with rfl | rfl
      · exact ⟨'&', by simp [joining]⟩
      · exact ⟨'|', by simp [joining]⟩
    match args, two with
    | f :: g :: fs, _ => exact .joined hop (fun h => absurd h hsign) ih
  | quantified hsymbol _ ih => exact led _ (List.mem_append_left _ hsymbol) _ ih
  | along hsymbol _ ih => exact led _ (List.mem_append_right _ hsymbol) _ ih
  | strongUntil _ _ hf hg =>
    have hop : ('U', .fixed .strongUntil 2) ∈ c.joining := by simp [joining]
    exact .joined hop (fun _ => rfl) (by simp [hf, hg])

end Catalog

/-! ### Names and numbers -/

namespace Formula
variable {names names' : List String} {s t u v rest rest' : List Char}

/-- Texts that go on as long as their characters are of a kind. -/
theorem append_injective_of_all {p : Char → Bool} (hs : ∀ a ∈ s, p a = true) (ht : ∀ a ∈ t, p a = true)
    (hu : ∀ a ∈ u.head?, p a = false) (hv : ∀ a ∈ v.head?, p a = false) (h : s ++ u = t ++ v) : s = t ∧ u = v := by
  have stops : ∀ {w : List Char}, (∀ a ∈ w.head?, p a = false) → w.takeWhile p = [] := by
    intro w hw
    cases w with
    | nil => rfl
    | cons a w => exact List.takeWhile_cons_of_neg (by simp [hw a rfl])
  have htake := congrArg (List.takeWhile p) h
  rw [List.takeWhile_append_of_pos hs, List.takeWhile_append_of_pos ht, stops hu, stops hv, List.append_nil,
    List.append_nil] at htake
  subst htake
  exact ⟨rfl, List.append_cancel_left h⟩

/-- The names after the first one, each between quotes. -/
def moreNames (names : List String) : List Char := names.flatMap fun n => ',' :: ' ' :: '"' :: (n.toList ++ ['"'])

theorem intercalate_cons (sep s : List Char) (l : List (List Char)) :
    sep.intercalate (s :: l) = s ++ l.flatMap (sep ++ ·) := by
  induction l generalizing s with
  | nil => simp
  | cons t l ih => rw [List.intercalate_cons_cons, ih, List.flatMap_cons, List.append_assoc, List.append_assoc]

theorem moreNames_cons (n : String) (names : List String) :
    moreNames (n :: names) = ',' :: ' ' :: (quotedNames ((n :: names).map literal)).toList := by
  have hnames : ∀ n : String, (literal n).name = n := fun _ => rfl
  simp [quotedNames, moreNames, String.toList_intercalate, intercalate_cons, hnames, List.flatMap_map]

theorem moreNames_injective (hs : ∀ n ∈ names, IsQuotable n) (hs' : ∀ n ∈ names', IsQuotable n)
    (h : moreNames names ++ ')' :: rest = moreNames names' ++ ')' :: rest') : names = names' ∧ rest = rest' := by
  induction names generalizing names' with
  | nil =>
    cases names' with
    | nil => exact ⟨rfl, (List.cons.inj h).2⟩
    | cons n' names' => cases (List.cons.inj h).1
  | cons n names ih =>
    cases names' with
    | nil => cases (List.cons.inj h).1
    | cons n' names' =>
      obtain ⟨hn, hnames⟩ := List.forall_mem_cons.mp hs
      obtain ⟨hn', hnames'⟩ := List.forall_mem_cons.mp hs'
      simp only [moreNames, List.flatMap_cons, List.cons_append, List.append_assoc, List.cons.injEq, true_and,
        List.nil_append] at h
      obtain ⟨hname, hmore⟩ := Element.append_cons_injective hn hn' h
      obtain ⟨rfl, hrest⟩ := ih hnames hnames' hmore
      exact ⟨by rw [String.toList_inj.mp hname], hrest⟩

/-- Names between quotes end where the parenthesis around them closes. -/
theorem quotedNames_injective (hs : ∀ n ∈ names, IsQuotable n) (hs' : ∀ n ∈ names', IsQuotable n)
    (h : (quotedNames (names.map literal)).toList ++ ')' :: rest =
      (quotedNames (names'.map literal)).toList ++ ')' :: rest') : names = names' ∧ rest = rest' := by
  have quoted : ∀ n names, ∃ s, (quotedNames ((n :: names).map literal)).toList = '"' :: s := fun n names =>
    ⟨_, (List.cons.inj (List.cons.inj (moreNames_cons n names)).2).2.symm⟩
  cases names with
  | nil =>
    cases names' with
    | nil => exact ⟨rfl, (List.cons.inj h).2⟩
    | cons n' names' =>
      obtain ⟨s, hs⟩ := quoted n' names'
      rw [hs] at h
      cases (List.cons.inj h).1
  | cons n names =>
    cases names' with
    | nil =>
      obtain ⟨s, hs⟩ := quoted n names
      rw [hs] at h
      cases (List.cons.inj h).1
    | cons n' names' =>
      refine moreNames_injective hs hs' ?_
      rw [moreNames_cons, moreNames_cons, List.cons_append, List.cons_append, h]
      rfl

/-- A character of a number. -/
def isNumeralChar (a : Char) : Bool := a.isDigit || a = '+' || a = '-'

theorem isDigit_of_digits? {n : Nat} (h : Text.digits? s = some n) : s ≠ [] ∧ ∀ a ∈ s, a.isDigit = true := by
  unfold Text.digits? at h
  split at h
  case isTrue hs => exact ⟨hs.1, List.all_eq_true.mp hs.2⟩
  case isFalse => cases h

end Formula

open Formula in
theorem IsNumeral.chars {text : String} (h : IsNumeral text) :
    text.toList ≠ [] ∧ ∀ a ∈ text.toList, isNumeralChar a = true := by
  have digits : ∀ {s : List Char} {n : Nat}, Text.digits? s = some n → ∀ a ∈ s, isNumeralChar a = true := by
    intro s n hs a ha
    rw [isNumeralChar, (isDigit_of_digits? hs).2 a ha]
    rfl
  obtain ⟨n, hn⟩ := h
  generalize text.toList = s at hn ⊢
  unfold Text.int64? at hn
  dsimp only at hn
  split at hn
  case h_2 => cases hn
  case h_1 m hm =>
    split at hm
    case h_1 =>
      obtain ⟨_, hk, -⟩ := Option.map_eq_some_iff.mp hm
      obtain ⟨k, hk, -⟩ := Option.bind_eq_some_iff.mp hk
      exact ⟨List.cons_ne_nil _ _, List.forall_mem_cons.mpr ⟨rfl, digits hk⟩⟩
    case h_2 =>
      obtain ⟨k, hk, -⟩ := Option.map_eq_some_iff.mp hm
      exact ⟨List.cons_ne_nil _ _, List.forall_mem_cons.mpr ⟨rfl, digits hk⟩⟩
    case h_3 =>
      obtain ⟨k, hk, -⟩ := Option.map_eq_some_iff.mp hm
      exact ⟨(isDigit_of_digits? hk).1, digits hk⟩

theorem IsNumeral.head {text : String} (h : IsNumeral text) (rest : List Char) :
    ∃ a s, text.toList ++ rest = a :: s ∧ Formula.isNumeralChar a = true := by
  obtain ⟨hne, hchars⟩ := h.chars
  obtain ⟨a, s, hs⟩ := List.exists_cons_of_ne_nil hne
  exact ⟨a, s ++ rest, by rw [hs, List.cons_append], hchars a (hs ▸ List.mem_cons_self)⟩

namespace Formula
variable {rest rest' : List Char} {f g : Formula}

/-! ### Atoms -/

/-- No number goes on after it. -/
def Stops (rest : List Char) : Prop := ∀ a ∈ rest.head?, isNumeralChar a = false

/-- What can follow a formula: nothing, the parenthesis that closes it, or the end of its line. -/
def Closes (rest : List Char) : Prop := ∀ a ∈ rest.head?, a = ')' ∨ a = '\n'

theorem Closes.stops (h : Closes rest) : Stops rest := by
  intro a ha
  rcases h a ha with rfl | rfl <;> decide

theorem toList_readable_isFireable (names : List String) (rest : List Char) :
    (isFireable names).readable.toList ++ rest =
      "is-fireable(".toList ++ ((quotedNames (names.map literal)).toList ++ ')' :: rest) := by
  have hreadable : (isFireable names).readable = "is-fireable" ++ parenthesized (quotedNames (names.map literal)) := rfl
  simp [hreadable, parenthesized]

theorem toList_readable_tokenCount (names : List String) (rest : List Char) :
    (tokenCount names).readable.toList ++ rest =
      "tokens-count(".toList ++ ((quotedNames (names.map literal)).toList ++ ')' :: rest) := by
  have hreadable : (tokenCount names).readable = "tokens-count" ++ parenthesized (quotedNames (names.map literal)) :=
    rfl
  simp [hreadable, parenthesized]

theorem readable_integerConstant (text : String) : readable ⟨.integerConstant, [.literal text]⟩ = text := rfl

theorem toList_readable_leq (f g : Formula) (rest : List Char) :
    (leq f g).readable.toList ++ rest =
      f.readable.toList ++ ' ' :: ("<= ".toList ++ (g.readable.toList ++ rest)) := by
  have hreadable : (leq f g).readable = f.readable ++ " <= " ++ g.readable := rfl
  simp [hreadable]

/-- The text of a count begins with a letter, and that of a constant with a character of a number. -/
theorem head_of_isShownTerm (h : IsShownTerm f) (rest : List Char) :
    ∃ a s, f.readable.toList ++ rest = a :: s ∧ (a = 't' ∨ isNumeralChar a = true) := by
  cases h with
  | tokenCount =>
    rw [toList_readable_tokenCount]
    exact ⟨'t', _, rfl, .inl rfl⟩
  | integerConstant htext =>
    obtain ⟨a, s, hs, ha⟩ := htext.head rest
    exact ⟨a, s, hs, .inr ha⟩

theorem term_append_injective (hf : IsShownTerm f) (hg : IsShownTerm g) (hrest : Stops rest) (hrest' : Stops rest')
    (h : f.readable.toList ++ rest = g.readable.toList ++ rest') : f = g ∧ rest = rest' := by
  have letter : ∀ {text : String} {s rest : List Char}, IsNumeral text → text.toList ++ rest ≠ 't' :: s := by
    intro text s rest htext h
    obtain ⟨a, l, hl, ha⟩ := htext.head rest
    rw [hl] at h
    rw [(List.cons.inj h).1] at ha
    exact absurd ha (by decide)
  cases hf with
  | tokenCount hnames =>
    rw [toList_readable_tokenCount] at h
    cases hg with
    | tokenCount hnames' =>
      rw [toList_readable_tokenCount, List.append_cancel_left_eq] at h
      obtain ⟨rfl, hrest⟩ := quotedNames_injective hnames hnames' h
      exact ⟨rfl, hrest⟩
    | integerConstant htext => exact absurd h.symm (letter htext)
  | integerConstant htext =>
    rw [readable_integerConstant] at h
    cases hg with
    | tokenCount =>
      rw [toList_readable_tokenCount] at h
      exact absurd h (letter htext)
    | integerConstant htext' =>
      obtain ⟨htext, hrest⟩ := append_injective_of_all htext.chars.2 htext'.chars.2 hrest hrest' h
      exact ⟨by rw [String.toList_inj.mp htext], hrest⟩

theorem atom_append_injective (hf : IsShownAtom f) (hg : IsShownAtom g) (hrest : Closes rest) (hrest' : Closes rest')
    (h : f.readable.toList ++ rest = g.readable.toList ++ rest') : f = g ∧ rest = rest' := by
  have word : ∀ {l r : Formula} {s rest : List Char}, IsShownTerm l → (leq l r).readable.toList ++ rest ≠ 'i' :: s := by
    intro l r s rest hl h
    obtain ⟨a, t, ht, ha⟩ := head_of_isShownTerm hl (' ' :: ("<= ".toList ++ (r.readable.toList ++ rest)))
    rw [toList_readable_leq, ht] at h
    rw [(List.cons.inj h).1] at ha
    exact absurd ha (by decide)
  have stops : ∀ {s : List Char}, Stops (' ' :: s) := by
    rintro s a ⟨⟩
    decide
  cases hf with
  | isFireable hnames =>
    rw [toList_readable_isFireable] at h
    cases hg with
    | isFireable hnames' =>
      rw [toList_readable_isFireable, List.append_cancel_left_eq] at h
      obtain ⟨rfl, hrest⟩ := quotedNames_injective hnames hnames' h
      exact ⟨rfl, hrest⟩
    | leq hl => exact absurd h.symm (word hl)
  | leq hl hr =>
    cases hg with
    | isFireable =>
      rw [toList_readable_isFireable] at h
      exact absurd h (word hl)
    | leq hl' hr' =>
      rw [toList_readable_leq, toList_readable_leq] at h
      obtain ⟨rfl, hright⟩ := term_append_injective hl hl' stops stops h
      rw [List.cons.injEq, List.append_cancel_left_eq] at hright
      obtain ⟨rfl, hrest⟩ := term_append_injective hr hr' hrest.stops hrest'.stops hright.2
      exact ⟨rfl, hrest⟩

/-! ### Operators -/

/-- The operands after the first one, each between parentheses and after the sign. -/
def moreOperands (sign : Char) (fs : List Formula) : List Char :=
  fs.flatMap fun f => ' ' :: sign :: ' ' :: '(' :: (f.readable.toList ++ [')'])

section Operators
variable {c : Catalog} {sign : Char} {op op' : Operator}
open Catalog (Legible)

theorem toList_readable_led (hop : (sign, op) ∈ c.leading) (f : Formula) (rest : List Char) :
    (readable ⟨op, [f]⟩).toList ++ rest = sign :: ' ' :: '(' :: (f.readable.toList ++ ')' :: rest) := by
  simp only [Catalog.leading, List.mem_cons, Prod.mk.injEq, List.not_mem_nil, or_false] at hop
  have shown : ∀ lead : String, (lead ++ " " ++ parenthesized f.readable).toList ++ rest =
      lead.toList ++ ' ' :: '(' :: (f.readable.toList ++ ')' :: rest) := by
    intro lead
    simp [parenthesized]
  rcases hop with ⟨rfl, rfl⟩ | ⟨rfl, rfl⟩ | ⟨rfl, rfl⟩ | ⟨rfl, rfl⟩ | ⟨rfl, rfl⟩ | ⟨rfl, rfl⟩
  · exact shown "A"
  · exact shown "E"
  · exact shown "!"
  · exact shown "G"
  · exact shown "F"
  · exact shown "X"

theorem readableAll_eq_map (fs : List Formula) : readableAll fs = fs.map readable := by
  induction fs with
  | nil => rfl
  | cons f fs ih => rw [readableAll, ih, List.map_cons]

theorem toList_readable_joined (hop : (sign, op) ∈ c.joining) {f g : Formula} {fs : List Formula}
    (hpair : sign = 'U' → fs = []) (rest : List Char) :
    (readable ⟨op, f :: g :: fs⟩).toList ++ rest =
      '(' :: (f.readable.toList ++ ')' :: (moreOperands sign (g :: fs) ++ rest)) := by
  simp only [Catalog.joining, List.mem_cons, Prod.mk.injEq, List.not_mem_nil, or_false] at hop
  have joined : ∀ sep : String, sep.toList = [' ', sign, ' '] →
      (sep.intercalate ((readableAll (f :: g :: fs)).map parenthesized)).toList ++ rest =
        '(' :: (f.readable.toList ++ ')' :: (moreOperands sign (g :: fs) ++ rest)) := by
    intro sep hsep
    simp [String.toList_intercalate, readableAll_eq_map, intercalate_cons, hsep, moreOperands, parenthesized,
      List.flatMap_map]
  rcases hop with ⟨rfl, rfl⟩ | ⟨rfl, rfl⟩ | ⟨rfl, rfl⟩
  · exact joined " & " rfl
  · exact joined " | " rfl
  · obtain rfl := hpair rfl
    have hreadable : (readable ⟨.fixed .strongUntil 2, [f, g]⟩) =
      parenthesized f.readable ++ " U " ++ parenthesized g.readable := rfl
    simp [hreadable, moreOperands, parenthesized]

/-- A sign stands for one operator of a table. -/
theorem operator_unique {table : List (Char × Operator)} (hsigns : (table.map (·.1)).Nodup) (hop : (sign, op) ∈ table)
    (hop' : (sign, op') ∈ table) : op = op' :=
  (Prod.mk.inj (List.inj_on_of_nodup_map hsigns hop hop' rfl)).2

theorem nodup_leading : (c.leading.map (·.1)).Nodup := by
  show ['A', 'E', '!', 'G', 'F', 'X'].Nodup
  decide

theorem nodup_joining : (c.joining.map (·.1)).Nodup := by
  show ['&', '|', 'U'].Nodup
  decide

/-- The first characters of atoms. -/
def isAtomHead (a : Char) : Bool := a = 'i' || a = 't' || isNumeralChar a

theorem head_of_isShownAtom (h : IsShownAtom f) (rest : List Char) :
    ∃ a s, f.readable.toList ++ rest = a :: s ∧ isAtomHead a = true := by
  cases h with
  | isFireable =>
    rw [toList_readable_isFireable]
    exact ⟨'i', _, rfl, rfl⟩
  | leq hl =>
    rw [toList_readable_leq]
    obtain ⟨a, s, hs, ha⟩ := head_of_isShownTerm hl _
    refine ⟨a, s, hs, ?_⟩
    rcases ha with rfl | ha
    · rfl
    · simp [isAtomHead, ha]

theorem sign_of_leading (hop : (sign, op) ∈ c.leading) : isAtomHead sign = false ∧ sign ≠ '(' := by
  have hsigns : ∀ sign ∈ c.leading.map (·.1), isAtomHead sign = false ∧ sign ≠ '(' := by
    show ∀ sign ∈ ['A', 'E', '!', 'G', 'F', 'X'], isAtomHead sign = false ∧ sign ≠ '('
    simp [isAtomHead, isNumeralChar]
  exact hsigns sign (List.mem_map_of_mem hop)

/-! ### Formulas -/

/-- The text of the formula tells which formula it is, and where it ends. -/
def Tells (c : Catalog) (f : Formula) : Prop :=
  ∀ {g : Formula} {rest rest' : List Char}, c.Legible g → Closes rest → Closes rest' →
    f.readable.toList ++ rest = g.readable.toList ++ rest' → f = g ∧ rest = rest'

theorem closes_paren : Closes (')' :: rest) := by
  rintro a ⟨⟩
  exact .inl rfl

theorem not_closes_space : ¬Closes (' ' :: rest) := fun h => absurd (h ' ' rfl) (by decide)

/-- The operands end where no sign follows. -/
theorem moreOperands_injective {fs gs : List Formula} (hfs : ∀ f ∈ fs, Tells c f) (hgs : ∀ g ∈ gs, c.Legible g)
    (hrest : Closes rest) (hrest' : Closes rest')
    (h : moreOperands sign fs ++ rest = moreOperands sign gs ++ rest') : fs = gs ∧ rest = rest' := by
  induction fs generalizing gs with
  | nil =>
    cases gs with
    | nil => exact ⟨rfl, h⟩
    | cons g gs =>
      rw [show rest = _ from h] at hrest
      exact absurd hrest not_closes_space
  | cons f fs ih =>
    cases gs with
    | nil =>
      rw [show rest' = _ from h.symm] at hrest'
      exact absurd hrest' not_closes_space
    | cons g gs =>
      obtain ⟨hf, hothers⟩ := List.forall_mem_cons.mp hfs
      obtain ⟨hg, hothers'⟩ := List.forall_mem_cons.mp hgs
      simp only [moreOperands, List.flatMap_cons, List.cons_append, List.append_assoc, List.cons.injEq, true_and,
        List.nil_append] at h
      obtain ⟨rfl, hmore⟩ := hf hg closes_paren closes_paren h
      obtain ⟨rfl, hrest⟩ := ih hothers hothers' (List.cons.inj hmore).2
      exact ⟨rfl, hrest⟩

theorem tells_of_legible (hf : c.Legible f) : Tells c f := by
  induction hf with
  | atom hf =>
    intro g rest rest' hg hrest hrest' h
    obtain ⟨a, s, hs, ha⟩ := head_of_isShownAtom hf rest
    cases hg with
    | atom hg => exact atom_append_injective hf hg hrest hrest' h
    | led hop =>
      rw [hs, toList_readable_led hop] at h
      rw [(List.cons.inj h).1, (sign_of_leading hop).1] at ha
      cases ha
    | joined hop hpair =>
      rw [hs, toList_readable_joined hop hpair] at h
      rw [(List.cons.inj h).1] at ha
      exact absurd ha (by decide)
  | led hop hf ih =>
    intro g rest rest' hg hrest hrest' h
    rw [toList_readable_led hop] at h
    cases hg with
    | atom hg =>
      obtain ⟨a, s, hs, ha⟩ := head_of_isShownAtom hg rest'
      rw [hs] at h
      rw [← (List.cons.inj h).1, (sign_of_leading hop).1] at ha
      cases ha
    | led hop' hg =>
      rw [toList_readable_led hop'] at h
      simp only [List.cons.injEq, true_and] at h
      obtain ⟨rfl, hoperand⟩ := h
      obtain ⟨rfl, hrest⟩ := ih hg closes_paren closes_paren hoperand
      exact ⟨by rw [operator_unique nodup_leading hop hop'], (List.cons.inj hrest).2⟩
    | joined hop' hpair =>
      rw [toList_readable_joined hop' hpair] at h
      exact absurd (List.cons.inj h).1 (sign_of_leading hop).2
  | joined hop hpair hargs ih =>
    intro g rest rest' hg hrest hrest' h
    rw [toList_readable_joined hop hpair] at h
    cases hg with
    | atom hg =>
      obtain ⟨a, s, hs, ha⟩ := head_of_isShownAtom hg rest'
      rw [hs] at h
      rw [← (List.cons.inj h).1] at ha
      exact absurd ha (by decide)
    | led hop' =>
      rw [toList_readable_led hop'] at h
      exact absurd (List.cons.inj h).1.symm (sign_of_leading hop').2
    | joined hop' hpair' hargs' =>
      rw [toList_readable_joined hop' hpair'] at h
      obtain ⟨hfirst, hothers⟩ := List.forall_mem_cons.mp ih
      obtain ⟨hfirst', hothers'⟩ := List.forall_mem_cons.mp hargs'
      obtain ⟨rfl, hmore⟩ := hfirst hfirst' closes_paren closes_paren (List.cons.inj h).2
      rw [List.cons.injEq] at hmore
      -- The sign after the first operand is that of all the others.
      obtain rfl : _ = _ := (List.cons.inj (List.cons.inj hmore.2).2).1
      obtain ⟨hsame, hrest⟩ := moreOperands_injective hothers hothers' hrest hrest' hmore.2
      exact ⟨by rw [operator_unique nodup_joining hop hop', hsame], hrest⟩

end Operators

end Formula

/-! ### Property files -/

namespace PropertySet
variable {c : Catalog} {f g : Formula} {fs gs : List Formula}
open Formula (Closes)

theorem toList_entryText (id : String) (f : Formula) (rest : List Char) :
    (entryText id f).toList ++ rest =
      (line 0 ("Property " ++ id) ++ line 1 ("\"" ++ description ++ "\"") ++ line 1 "is:" ++ margin 2).toList ++
        (f.readable.toList ++ '\n' :: ((line 1 "end.").toList ++ rest)) := by
  simp [entryText, line]

theorem closes_newline {rest : List Char} : Closes ('\n' :: rest) := by
  rintro a ⟨⟩
  exact .inr rfl

/-- Entries with the same ids are told apart one by one. -/
theorem entryTexts_injective (ids : Nat → String) (hfs : ∀ f ∈ fs, c.Legible f) (hgs : ∀ g ∈ gs, c.Legible g)
    (h : String.join (fs.mapIdx fun i f => entryText (ids i) f) =
      String.join (gs.mapIdx fun i f => entryText (ids i) f)) : fs = gs := by
  have nonempty : ∀ {id : String} {f : Formula} {s : String}, entryText id f ++ s ≠ "" := by
    intro id f s
    simp [entryText, line]
  induction fs generalizing gs ids with
  | nil =>
    cases gs with
    | nil => rfl
    | cons g gs =>
      rw [List.mapIdx_cons, String.join_cons] at h
      exact absurd h.symm nonempty
  | cons f fs ih =>
    rw [List.mapIdx_cons, String.join_cons] at h
    cases gs with
    | nil => exact absurd h nonempty
    | cons g gs =>
      obtain ⟨hf, hothers⟩ := List.forall_mem_cons.mp hfs
      obtain ⟨hg, hothers'⟩ := List.forall_mem_cons.mp hgs
      rw [List.mapIdx_cons, String.join_cons] at h
      have hlist := congrArg String.toList h
      rw [String.toList_append, String.toList_append, toList_entryText, toList_entryText, List.append_cancel_left_eq]
        at hlist
      obtain ⟨rfl, hrest⟩ := Formula.tells_of_legible hf hg closes_newline closes_newline hlist
      rw [List.cons.injEq, List.append_cancel_left_eq] at hrest
      rw [ih (fun i => ids (i + 1)) hothers hothers' (String.toList_inj.mp hrest.2)]

/-- Two different formulas never have the same infix form, and the property files of two different lists of formulas are
    different, for each model and category. All formulas that the grammar derives are such formulas. -/
theorem readable_determines_formulas (c : Catalog) :
    (∀ scope f, c.Derives IsShownAtom Catalog.pathQuantifiers scope f → c.Legible f) ∧
    (∀ f g, c.Legible f → c.Legible g → (f.readable = g.readable ↔ f = g)) ∧
    (∀ (model : ModelKey) (category : Category) (fs gs : List Formula), (∀ f ∈ fs, c.Legible f) →
      (∀ g ∈ gs, c.Legible g) → (readable ⟨model, category, fs⟩ = readable ⟨model, category, gs⟩ ↔ fs = gs)) := by
  refine ⟨fun _ _ => Catalog.legible_of_derives, ?_, ?_⟩
  · intro f g hf hg
    constructor
    · intro h
      have hend : Closes [] := nofun
      exact (Formula.tells_of_legible hf hg hend hend (by rw [h])).1
    · rintro rfl
      rfl
  · intro model category fs gs hfs hgs
    constructor
    · intro h
      exact entryTexts_injective (id ⟨model, category, []⟩) hfs hgs h
    · rintro rfl
      rfl

/-- All the transitions are fireable at once, and a count is above a number. -/
def allFireable (transitions : List String) : Formula :=
  ⟨.connective .and 4, .leq ⟨.integerConstant, [.literal "-3"]⟩ (.tokenCount []) ::
    transitions.map fun t => .isFireable [t]⟩

theorem legible_allFireable {t : String} {ts : List String} (h : ∀ x ∈ t :: ts, IsQuotable x) :
    (Catalog.ofBound 4).Legible (allFireable (t :: ts)) := by
  have hnumeral : IsNumeral "-3" := ⟨-3, by decide +kernel⟩
  have hcount : IsShownAtom (.leq ⟨.integerConstant, [.literal "-3"]⟩ (.tokenCount [])) :=
    .leq (.integerConstant hnumeral) (.tokenCount (List.forall_mem_nil _))
  have htransitions : ∀ f ∈ (t :: ts).map fun t => Formula.isFireable [t], (Catalog.ofBound 4).Legible f :=
    List.forall_mem_map.mpr fun x hx => .atom (.isFireable (List.forall_mem_singleton.mpr (h x hx)))
  exact .joined List.mem_cons_self (fun hsign => absurd hsign (by decide))
    (List.forall_mem_cons.mpr ⟨.atom hcount, htransitions⟩)

/-- An identifier that looks like the end of an atom and the beginning of another one. -/
theorem allFireable_readable_determines :
    (allFireable ["t", "u)) & (is-fireable(v"]).readable ≠ (allFireable ["t", "u", "v"]).readable ∧
    readable ⟨⟨"M", .placeTransition, "1"⟩, .ctlFireability, [allFireable ["t"], allFireable ["u"]]⟩ ≠
      readable ⟨⟨"M", .placeTransition, "1"⟩, .ctlFireability, [allFireable ["u"], allFireable ["t"]]⟩ := by
  obtain ⟨-, hformulas, hfiles⟩ := readable_determines_formulas (.ofBound 4)
  have ht : (Catalog.ofBound 4).Legible (allFireable ["t"]) := legible_allFireable (by decide +kernel)
  have hu : (Catalog.ofBound 4).Legible (allFireable ["u"]) := legible_allFireable (by decide +kernel)
  have htu : (Catalog.ofBound 4).Legible (allFireable ["t", "u)) & (is-fireable(v"]) :=
    legible_allFireable (by decide +kernel)
  have htuv : (Catalog.ofBound 4).Legible (allFireable ["t", "u", "v"]) := legible_allFireable (by decide +kernel)
  constructor
  · intro h
    exact absurd ((hformulas _ _ htu htuv).mp h) (by decide)
  · intro h
    have hsame := (hfiles _ _ _ _ (by simp [ht, hu]) (by simp [ht, hu])).mp h
    exact absurd hsame (by decide)

end PropertySet
end Formulary
