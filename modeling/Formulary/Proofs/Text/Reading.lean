import Mathlib.Data.List.TakeWhile
import Formulary.Text.Blank
import Formulary.Text.DecimalDigit
import Formulary.Text.Lines
import Formulary.Text.Number

/-! Text that is read back: lines from the text that they make up, fields from a line, and numbers from digits. -/

namespace Formulary
namespace Text

/-! ### Lines -/

theorem splitOn_ofLines {ls : List (List Char)} (h : ∀ l ∈ ls, '\n' ∉ l) :
    (ofLines ls).splitOn '\n' = ls ++ [[]] := by
  induction ls with
  | nil => rfl
  | cons l ls ih =>
    have hcons : ofLines (l :: ls) = l ++ '\n' :: ofLines ls := by
      unfold ofLines
      rw [List.flatMap_cons, List.append_assoc]
      rfl
    rw [hcons, List.splitOn_append_cons_self_of_not_mem (h l List.mem_cons_self),
      ih fun l hl => h l (List.mem_cons_of_mem _ hl), List.cons_append]

theorem segments_ofLines {ls : List (List Char)} (h : ∀ l ∈ ls, '\n' ∉ l) : segments (ofLines ls) = (ls, []) := by
  unfold segments
  rw [splitOn_ofLines h, List.reverse_append]
  exact Prod.ext ls.reverse_reverse rfl

theorem lines_ofLines {ls : List (List Char)} (h : ∀ l ∈ ls, '\n' ∉ l) : lines (ofLines ls) = ls := by
  unfold lines
  rw [segments_ofLines h]
  exact List.append_nil _

theorem returnedLines_ofLines {ls : List (List Char)} (h : ∀ l ∈ ls, '\n' ∉ l) :
    returnedLines (ofLines ls) = ls.map dropReturn := by
  unfold returnedLines
  rw [segments_ofLines h]
  exact List.append_nil _

theorem dropReturn_append (s : List Char) (rest : List Char) (hrest : rest ≠ []) :
    dropReturn (s ++ rest) = s ++ dropReturn rest := by
  unfold dropReturn
  have hlast : (s ++ rest).getLast? = rest.getLast? := by
    rw [List.getLast?_append, List.getLast?_eq_some_getLast hrest]
    rfl
  rw [hlast, List.dropLast_append_of_ne_nil hrest]
  split <;> rfl

theorem dropReturn_cons {c : Char} (hc : c ≠ '\r') (rest : List Char) :
    ∃ rest', dropReturn (c :: rest) = c :: rest' := by
  by_cases hrest : rest = []
  · subst hrest
    exact ⟨[], if_neg fun h => hc (Option.some.inj h)⟩
  · exact ⟨dropReturn rest, dropReturn_append [c] rest hrest⟩

/-! ### Fields -/

theorem length_splitOn (c : Char) (s : List Char) : (s.splitOn c).length = s.count c + 1 := by
  induction s with
  | nil => rfl
  | cons x s ih =>
    rw [List.splitOn_cons_eq_if_modifyHead, List.count_cons]
    split
    · rw [List.length_cons, ih]
    · rw [List.length_modifyHead, ih]

theorem head?_splitOn (c : Char) (s : List Char) : (s.splitOn c).head? = some (s.takeWhile (· != c)) := by
  induction s with
  | nil => rfl
  | cons x s ih =>
    rw [List.splitOn_cons_eq_if_modifyHead, List.takeWhile_cons, bne]
    cases hx : x == c
    · rw [if_neg Bool.false_ne_true, List.head?_modifyHead, ih]
      rfl
    · rfl

/-- The part after as many separators as there are before it. -/
theorem getD_splitOn_append (c : Char) (s rest : List Char) :
    ((s ++ c :: rest).splitOn c).getD (s.count c + 1) [] = rest.takeWhile (· != c) := by
  rw [List.splitOn_append_cons_self, List.getD_eq_getElem?_getD,
    List.getElem?_append_right (Nat.le_of_eq (length_splitOn c s)), length_splitOn, Nat.sub_self,
    ← List.head?_eq_getElem?, head?_splitOn, Option.getD_some]

/-! ### Digits -/

theorem isDecimalDigit_of_isDigit {c : Char} (h : c.isDigit) : isDecimalDigit c := by
  have hc : 48 ≤ c.toNat ∧ c.toNat ≤ 57 := Char.isDigit_iff_toNat.mp h
  unfold isDecimalDigit CharClass.contains
  refine List.any_eq_true.mpr ⟨(0x30, 0x39), List.mem_cons_self, ?_⟩
  simpa using hc

theorem isBlank_of_isDigit {c : Char} (h : c.isDigit) : isBlank c = false := by
  have hc : 48 ≤ c.toNat ∧ c.toNat ≤ 57 := Char.isDigit_iff_toNat.mp h
  have hranges : ∀ r ∈ whiteSpace, r.2 < 48 ∨ 57 < r.1 := by decide
  unfold isBlank CharClass.contains
  refine List.any_eq_false.mpr fun r hr => ?_
  have hr := hranges r hr
  rw [Bool.and_eq_true, decide_eq_true_eq, decide_eq_true_eq]
  omega

theorem isDigit_repr (n : Nat) : ∀ c ∈ n.repr.toList, c.isDigit := by
  intro c hc
  rw [Nat.toList_repr] at hc
  exact Nat.isDigit_of_mem_toDigits (by omega) (by omega) hc

theorem digits?_of_isDigit {s : List Char} (hne : s ≠ []) (h : ∀ c ∈ s, c.isDigit) :
    digits? s = some (Nat.ofDigitChars 10 s 0) := if_pos ⟨hne, List.all_eq_true.mpr h⟩

theorem digits?_repr (n : Nat) : digits? n.repr.toList = some n := by
  have hne : n.repr.toList ≠ [] := by
    rw [Nat.toList_repr]
    exact Nat.toDigits_ne_nil
  rw [digits?_of_isDigit hne (isDigit_repr n), Nat.toList_repr, Nat.ofDigitChars_ten_toDigits]

/-! ### Numbers with a sign -/

theorem int64?_of_isDigit {s : List Char} {n : Nat} (h : ∀ c ∈ s, c.isDigit) (hread : digits? s = some n)
    (hmost : n ≤ Int64.maxValue.toInt) : int64? s = some (n : Int) := by
  cases s with
  | nil => simp [digits?] at hread
  | cons c rest =>
    have hminus : c ≠ '-' := fun hc => absurd (h c List.mem_cons_self) (by rw [hc]; decide)
    have hplus : c ≠ '+' := fun hc => absurd (h c List.mem_cons_self) (by rw [hc]; decide)
    simp [int64?, hminus, hplus, hread, hmost]

/-- A number that fits is read back. -/
theorem int64?_repr {n : Int} (hleast : Int64.minValue.toInt ≤ n) (hmost : n ≤ Int64.maxValue.toInt) :
    int64? n.repr.toList = some n := by
  cases n with
  | ofNat m => exact int64?_of_isDigit (isDigit_repr m) (digits?_repr m) hmost
  | negSucc m =>
    have hlist : (Int.negSucc m).repr.toList = '-' :: (m + 1).repr.toList := String.toList_append
    rw [hlist, int64?, digits?_repr]
    exact if_pos ⟨hleast, hmost⟩

end Text
end Formulary
