import Formulary.Proofs.Text.Reading
import Formulary.Property.Set

/-! The ids of properties. An id ends in the position of its property, after the names of the model and the category.
    The directory of a model gives it its name, which has letters, digits and underscores only, and its instance, which
    is any text on a single line. So an id is a single line, and before the dash of the position it has three dashes
    besides those of the instance. -/

namespace Formulary

/-! ### Names of directories -/

namespace ModelKey
variable {dir : String} {key : ModelKey}

/-- The names that directories give to models and their instances. -/
theorem of_ofDirectoryName? (h : ofDirectoryName? dir = some key) :
    (∀ c ∈ key.name.toList, isNameChar c = true) ∧ '\n' ∉ key.instanceName.toList := by
  unfold ofDirectoryName? at h
  dsimp only at h
  split at h
  case h_1 variant rest _ =>
    split at h
    case isTrue hline =>
      cases h
      simp only [String.toList_ofList]
      exact ⟨fun c hc => List.mem_takeWhile_imp hc, hline.2.2⟩
    case isFalse => cases h
  case h_2 => cases h

theorem not_mem_name_of_ofDirectoryName? (h : ofDirectoryName? dir = some key) {c : Char} (hc : isNameChar c = false) :
    c ∉ key.name.toList := by
  intro hmem
  have hname := (of_ofDirectoryName? h).1 c hmem
  rw [hc] at hname
  cases hname

end ModelKey

/-! ### Ids -/

namespace PropertySet

theorem isDigit_indexText (i : Nat) : ∀ c ∈ (indexText i).toList, c.isDigit := by
  intro c hc
  unfold indexText at hc
  split at hc
  · rw [String.toList_append, List.mem_append] at hc
    rcases hc with hc | hc
    · cases List.mem_singleton.mp hc
      rfl
    · exact Text.isDigit_repr i c hc
  · exact Text.isDigit_repr i c hc

theorem toList_indexText_ne_nil (i : Nat) : (indexText i).toList ≠ [] := by
  have hrepr : i.repr.toList ≠ [] := by
    rw [Nat.toList_repr]
    exact Nat.toDigits_ne_nil
  unfold indexText
  split
  · rw [String.toList_append]
    exact List.append_ne_nil_of_right_ne_nil _ hrepr
  · exact hrepr

/-- A zero in front does not change the number. -/
theorem ofDigitChars_indexText (i : Nat) : Nat.ofDigitChars 10 (indexText i).toList 0 = i := by
  have hrepr : Nat.ofDigitChars 10 i.repr.toList 0 = i := by
    rw [Nat.toList_repr]
    exact Nat.ofDigitChars_ten_toDigits
  unfold indexText
  split
  · rw [String.toList_append, Nat.ofDigitChars_append]
    exact hrepr
  · exact hrepr

theorem dash_not_mem_indexText (i : Nat) : '-' ∉ (indexText i).toList := fun h =>
  absurd (isDigit_indexText i _ h) Bool.false_ne_true

theorem newline_not_mem_indexText (i : Nat) : '\n' ∉ (indexText i).toList := fun h =>
  absurd (isDigit_indexText i _ h) Bool.false_ne_true

/-- What comes before the last dash of an id. -/
def stem (s : PropertySet) : List Char := (s.model.fullName ++ "-" ++ s.category.name).toList

theorem toList_id (s : PropertySet) (i : Nat) : (s.id i).toList = s.stem ++ '-' :: (indexText i).toList := by
  unfold id stem
  rw [String.toList_append, String.toList_append, List.append_assoc]
  rfl

theorem not_mem_tag (v : Variant) : '-' ∉ v.tag.toList ∧ '\n' ∉ v.tag.toList := by cases v <;> decide

theorem not_mem_categoryName (c : Category) : '-' ∉ c.name.toList ∧ '\n' ∉ c.name.toList := by cases c <;> decide

theorem toList_stem (s : PropertySet) : s.stem =
    s.model.name.toList ++ '-' :: s.model.variant.tag.toList ++ '-' :: s.model.instanceName.toList ++
      '-' :: s.category.name.toList := by
  unfold stem ModelKey.fullName
  simp only [String.toList_append, List.append_assoc]
  rfl

theorem count_stem {s : PropertySet} (hname : '-' ∉ s.model.name.toList) :
    s.stem.count '-' = 3 + s.model.instanceName.toList.count '-' := by
  rw [toList_stem]
  simp only [List.count_append, List.count_cons_self, List.count_eq_zero.mpr hname,
    List.count_eq_zero.mpr (not_mem_tag s.model.variant).1, List.count_eq_zero.mpr (not_mem_categoryName s.category).1]
  omega

theorem newline_not_mem_stem {s : PropertySet} (hname : '\n' ∉ s.model.name.toList)
    (hinstance : '\n' ∉ s.model.instanceName.toList) : '\n' ∉ s.stem := by
  rw [toList_stem]
  simp only [List.mem_append, List.mem_cons, hname, hinstance, (not_mem_tag s.model.variant).2,
    (not_mem_categoryName s.category).2]
  decide

/-- The id of a property of a model is a single line. -/
theorem newline_not_mem_id {s : PropertySet} {dir : String} (h : ModelKey.ofDirectoryName? dir = some s.model)
    (i : Nat) : '\n' ∉ (s.id i).toList := by
  have hname := ModelKey.not_mem_name_of_ofDirectoryName? h (c := '\n') (by decide)
  have hstem := newline_not_mem_stem hname (ModelKey.of_ofDirectoryName? h).2
  rw [toList_id, List.mem_append, List.mem_cons]
  rintro (hmem | hmem | hmem)
  · exact hstem hmem
  · exact absurd hmem (by decide)
  · exact newline_not_mem_indexText i hmem

end PropertySet
end Formulary
