import Formulary.Proofs.Net.Discovery
import Formulary.Proofs.Property.Element

/-! Ids are decoded from both ends. The name of a model holds no dash, so it ends at the first one, and the tag of the
    variant ends at the next. The position and the category hold no dash either, so the last dash begins the position
    and the one before it the category. What is left between is the instance, which may hold any dashes. In the same
    way the name of a directory and the key of its model determine each other. -/

namespace Formulary

/-- A text that begins after the last character of a kind. -/
theorem append_cons_injective_right {a : Char} {s t u v : List Char} (hu : a ∉ u) (hv : a ∉ v)
    (h : s ++ a :: u = t ++ a :: v) : s = t ∧ u = v := by
  have hreverse : u.reverse ++ a :: s.reverse = v.reverse ++ a :: t.reverse := by
    simpa using congrArg List.reverse h
  obtain ⟨hlast, hfirst⟩ := Element.append_cons_injective (by simpa using hu) (by simpa using hv) hreverse
  exact ⟨List.reverse_inj.mp hfirst, List.reverse_inj.mp hlast⟩

/-! ### Names of directories -/

namespace Variant

theorem tag_injective {v w : Variant} (h : v.tag = w.tag) : v = w := by
  revert h
  cases v <;> cases w <;> decide

end Variant

namespace ModelKey
variable {key l : ModelKey} {dir : String}

theorem toList_fullName (key : ModelKey) :
    key.fullName.toList = key.name.toList ++ '-' :: (key.variant.tag.toList ++ '-' :: key.instanceName.toList) := by
  simp [fullName]

theorem fullName_injective (hkey : '-' ∉ key.name.toList) (hl : '-' ∉ l.name.toList) (h : key.fullName = l.fullName) :
    key = l := by
  have hlist := congrArg String.toList h
  rw [toList_fullName, toList_fullName] at hlist
  obtain ⟨hname, hrest⟩ := Element.append_cons_injective hkey hl hlist
  obtain ⟨htag, hinstance⟩ :=
    Element.append_cons_injective (PropertySet.not_mem_tag _).1 (PropertySet.not_mem_tag _).1 hrest
  obtain ⟨name, variant, instanceName⟩ := key
  obtain ⟨name', variant', instanceName'⟩ := l
  cases String.toList_inj.mp hname
  cases Variant.tag_injective (String.toList_inj.mp htag)
  cases String.toList_inj.mp hinstance
  rfl

/-- The names that a model can have as a directory: letters, digits and underscores for itself, and any other text on a
    single line for its instance. -/
structure IsRegular (key : ModelKey) : Prop where
  name_ne : key.name ≠ ""
  name_chars : ∀ c ∈ key.name.toList, isNameChar c = true
  instance_ne : key.instanceName ≠ ""
  instance_line : '\n' ∉ key.instanceName.toList

theorem isRegular_of_ofDirectoryName? (h : ofDirectoryName? dir = some key) : key.IsRegular := by
  obtain ⟨hchars, hline⟩ := of_ofDirectoryName? h
  have nonempty : ∀ {l : List Char}, l ≠ [] → String.ofList l ≠ "" := by
    intro l hl h
    exact hl (by simpa using congrArg String.toList h)
  have hne : key.name ≠ "" ∧ key.instanceName ≠ "" := by
    unfold ofDirectoryName? at h
    dsimp only at h
    split at h
    case h_1 =>
      split at h
      case isTrue hparts =>
        cases h
        exact ⟨nonempty hparts.1, nonempty hparts.2.1⟩
      case isFalse => cases h
    case h_2 => cases h
  exact ⟨hne.1, hchars, hne.2, hline⟩

theorem variantAndInstance?_tag (variant : Variant) (rest : List Char) :
    variantAndInstance? ('-' :: (variant.tag.toList ++ '-' :: rest)) = some (variant, rest) := by
  cases variant <;> simp [variantAndInstance?, after?, Variant.tag]

theorem IsRegular.ofDirectoryName?_fullName (h : key.IsRegular) : ofDirectoryName? key.fullName = some key := by
  obtain ⟨hname, hchars, hinstance, hline⟩ := h
  have htake : key.fullName.toList.takeWhile isNameChar = key.name.toList := by
    rw [toList_fullName, List.takeWhile_append_of_pos hchars, List.takeWhile_cons_of_neg (by decide), List.append_nil]
  have hdrop : key.fullName.toList.dropWhile isNameChar =
      '-' :: (key.variant.tag.toList ++ '-' :: key.instanceName.toList) := by
    rw [toList_fullName, List.dropWhile_append_of_pos hchars, List.dropWhile_cons_of_neg (by decide)]
  unfold ofDirectoryName?
  rw [htake, hdrop, variantAndInstance?_tag]
  simp [hname, hinstance, hline]

end ModelKey

/-! ### Ids -/

namespace Category

theorem name_injective {c d : Category} (h : c.name = d.name) : c = d := by
  revert h
  cases c <;> cases d <;> decide

end Category

namespace PropertySet

theorem indexText_injective {i j : Nat} (h : indexText i = indexText j) : i = j := by
  rw [← ofDigitChars_indexText i, h, ofDigitChars_indexText]

theorem stem_injective {s s' : PropertySet} (hs : '-' ∉ s.model.name.toList) (hs' : '-' ∉ s'.model.name.toList)
    (h : s.stem = s'.stem) : s.model = s'.model ∧ s.category = s'.category := by
  have split : ∀ s : PropertySet, s.stem = s.model.fullName.toList ++ '-' :: s.category.name.toList := by
    intro s
    simp [stem]
  rw [split, split] at h
  obtain ⟨hmodel, hcategory⟩ := append_cons_injective_right (not_mem_categoryName _).1 (not_mem_categoryName _).1 h
  exact ⟨ModelKey.fullName_injective hs hs' (String.toList_inj.mp hmodel),
    Category.name_injective (String.toList_inj.mp hcategory)⟩

/-- An id determines the model, the category and the position that it was made of, if the name of the model holds no
    dash. A directory is read as the key of a model exactly if it has the full name of that model and its parts are as
    they should be. So different directories never give the same key. -/
theorem id_decodes :
    (∀ (s s' : PropertySet) (i i' : Nat), '-' ∉ s.model.name.toList → '-' ∉ s'.model.name.toList → s.id i = s'.id i' →
      s.model = s'.model ∧ s.category = s'.category ∧ i = i') ∧
    (∀ dir key, ModelKey.ofDirectoryName? dir = some key ↔ key.IsRegular ∧ key.fullName = dir) ∧
    (∀ dir dir' key, ModelKey.ofDirectoryName? dir = some key → ModelKey.ofDirectoryName? dir' = some key →
      dir = dir') := by
  refine ⟨fun s s' i i' hs hs' h => ?_, fun dir key => ⟨fun h => ?_, ?_⟩, fun dir dir' key h h' => ?_⟩
  · have hlist := congrArg String.toList h
    rw [toList_id, toList_id] at hlist
    obtain ⟨hstem, hindex⟩ :=
      append_cons_injective_right (dash_not_mem_indexText i) (dash_not_mem_indexText i') hlist
    obtain ⟨hmodel, hcategory⟩ := stem_injective hs hs' hstem
    exact ⟨hmodel, hcategory, indexText_injective (String.toList_inj.mp hindex)⟩
  · exact ⟨ModelKey.isRegular_of_ofDirectoryName? h, ModelKey.fullName_of_ofDirectoryName? h⟩
  · rintro ⟨hregular, rfl⟩
    exact hregular.ofDirectoryName?_fullName
  · rw [← ModelKey.fullName_of_ofDirectoryName? h, ModelKey.fullName_of_ofDirectoryName? h']

/-- An instance that looks like the end of an id. -/
def lookalike : PropertySet := ⟨⟨"M", .placeTransition, "COL-1-CTLFireability-07"⟩, .ctlFireability, []⟩

/-- The id of a property of the look-alike is none of a model with a shorter instance, and it is read as it was made. -/
theorem lookalike_id_decodes :
    (∀ (category : Category) (i : Nat), id ⟨⟨"M", .placeTransition, "COL-1"⟩, category, []⟩ i ≠ lookalike.id 7) ∧
    ModelKey.ofDirectoryName? "M-PT-COL-1-CTLFireability-07" = some lookalike.model ∧
    ∀ dir, ModelKey.ofDirectoryName? dir = some lookalike.model → dir = "M-PT-COL-1-CTLFireability-07" := by
  obtain ⟨hdecodes, hdirectory, hsame⟩ := id_decodes
  have hname : '-' ∉ "M".toList := by decide
  have hchars : ∀ c ∈ "M".toList, ModelKey.isNameChar c = true := by simp [ModelKey.isNameChar]
  have hline : '\n' ∉ "COL-1-CTLFireability-07".toList := by decide +kernel
  have hregular : lookalike.model.IsRegular := ⟨by simp [lookalike], hchars, by simp [lookalike], hline⟩
  have hread := (hdirectory _ _).mpr ⟨hregular, rfl⟩
  refine ⟨fun category i h => ?_, hread, fun dir h => hsame _ _ _ h hread⟩
  have hmodel := (hdecodes _ _ _ _ hname hname h).1
  exact absurd (congrArg ModelKey.instanceName hmodel) (by decide : "COL-1" ≠ "COL-1-CTLFireability-07")

end PropertySet
end Formulary
