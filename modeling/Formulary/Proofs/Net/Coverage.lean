import Formulary.Proofs.Net.Unfolding

/-! Which identifiers a mapping covers. An identifier of the uncolored net is claimed as soon as it extends a colored
    one: if it is colored itself, it is its own unfolding, and otherwise nothing speaks against the one that it extends.
    So two nets correspond just if there are such identifiers among the places and among the transitions. -/

namespace Formulary

/-! ### Mappings -/

namespace Mapping
variable {colored uncolored : List String} {c u : String}

/-- The identifier extends a colored one. -/
def Extends (colored : List String) (u : String) : Prop := ∃ c ∈ colored, c.toList <+: u.toList

/-- Some identifier of the uncolored net extends a colored one. -/
def Meets (colored uncolored : List String) : Prop := ∃ u ∈ uncolored, Extends colored u

/-- Everything that extends the colored identifier is another colored one. -/
def Hidden (colored uncolored : List String) (c : String) : Prop :=
  ∀ u ∈ uncolored, c.toList <+: u.toList → u ≠ c ∧ u ∈ colored

instance : Decidable (Extends colored u) := inferInstanceAs (Decidable (∃ c ∈ colored, c.toList <+: u.toList))

instance : Decidable (Hidden colored uncolored c) :=
  inferInstanceAs (Decidable (∀ u ∈ uncolored, c.toList <+: u.toList → u ≠ c ∧ u ∈ colored))

theorem any_isUnfolding_iff : colored.any (isUnfolding colored u) = true ↔ Extends colored u := by
  simp only [List.any_eq_true, isUnfolding_iff]
  constructor
  · rintro ⟨c, hc, hextends, -⟩
    exact ⟨c, hc, hextends⟩
  · rintro ⟨c, hc, hextends⟩
    by_cases hu : u ∈ colored
    · exact ⟨u, hu, List.prefix_refl _, .inl rfl⟩
    · exact ⟨c, hc, hextends, .inr hu⟩

theorem imageAmong_eq_nil_iff : imageAmong colored uncolored c = [] ↔ Hidden colored uncolored c := by
  simp only [imageAmong, List.filter_eq_nil_iff, isUnfolding_iff, Hidden, not_and, not_or, not_not]

theorem unclaimed_between :
    (between colored uncolored).unclaimed = uncolored.filter fun u => ¬Extends colored u := by
  refine List.filter_congr fun u _ => ?_
  rw [Bool.eq_iff_iff]
  simp [← any_isUnfolding_iff]

theorem mapped_between :
    (between colored uncolored).mapped = colored.filter fun c => ¬Hidden colored uncolored c := by
  rw [mapped, between, List.filter_map, List.map_map]
  refine (List.map_id' _).trans (List.filter_congr fun c _ => ?_)
  rw [Bool.eq_iff_iff]
  simp [← imageAmong_eq_nil_iff]

theorem unmapped_between :
    (between colored uncolored).unmapped = colored.filter fun c => Hidden colored uncolored c := by
  refine List.filter_congr fun c _ => ?_
  rw [Bool.eq_iff_iff]
  simp [← imageAmong_eq_nil_iff]

/-- An identifier is in the image of a mapped one just if it extends a colored one. -/
theorem exists_mem_image_iff :
    (∃ c ∈ (between colored uncolored).mapped, u ∈ (between colored uncolored).image c) ↔
      u ∈ uncolored ∧ Extends colored u := by
  simp only [mapped_between, List.mem_filter, decide_eq_true_eq, mem_image_between]
  constructor
  · rintro ⟨c, -, hc, hu, hextends, -⟩
    exact ⟨hu, c, hc, hextends⟩
  · rintro ⟨hu, hextends⟩
    obtain ⟨c, hc, hunfolds⟩ := List.any_eq_true.mp (any_isUnfolding_iff.mpr hextends)
    obtain ⟨hbegins, hown⟩ := isUnfolding_iff.mp hunfolds
    refine ⟨c, ⟨hc, fun hhidden => ?_⟩, hc, hu, hbegins, hown⟩
    obtain ⟨hne, hcolored⟩ := hhidden u hu hbegins
    rcases hown with heq | hfree
    · exact hne heq
    · exact hfree hcolored

theorem isEmpty_between_iff : (between colored uncolored).isEmpty = true ↔ ¬Meets colored uncolored := by
  have hmapped : (between colored uncolored).isEmpty = true ↔ (between colored uncolored).mapped = [] := by
    simp [isEmpty, mapped]
  rw [hmapped]
  constructor
  · rintro hnone ⟨u, hu, hextends⟩
    obtain ⟨c, hc, -⟩ := exists_mem_image_iff.mpr ⟨hu, hextends⟩
    rw [hnone] at hc
    cases hc
  · intro hnone
    refine List.eq_nil_iff_forall_not_mem.mpr fun c hc => ?_
    obtain ⟨hne, hsub⟩ := mem_mapped_between hc
    obtain ⟨u, hu⟩ := List.exists_mem_of_ne_nil _ hne
    obtain ⟨hu', hextends⟩ := exists_mem_image_iff.mp ⟨c, hc, hu⟩
    exact hnone ⟨u, hu', hextends⟩

theorem isEmpty_between_eq_false_iff : (between colored uncolored).isEmpty = false ↔ Meets colored uncolored := by
  rw [← not_iff_not, Bool.not_eq_false, isEmpty_between_iff]

/-- What the mapping says about all identifiers. -/
structure Coverage (colored uncolored : List String) (m : Mapping) : Prop where
  unclaimed : m.unclaimed = uncolored.filter fun u => ¬Extends colored u
  claimed : ∀ u ∈ uncolored, u ∉ m.unclaimed ↔ ∃ c ∈ m.mapped, u ∈ m.image c
  mapped : m.mapped = colored.filter fun c => ¬Hidden colored uncolored c
  unmapped : m.unmapped = colored.filter fun c => Hidden colored uncolored c
  image : ∀ c ∈ m.mapped, m.image c ≠ [] ∧ (m.image c).Sublist uncolored

theorem coverage_between (colored uncolored : List String) :
    Coverage colored uncolored (between colored uncolored) where
  unclaimed := unclaimed_between
  claimed u hu := by
    rw [exists_mem_image_iff, unclaimed_between]
    simp [hu]
  mapped := mapped_between
  unmapped := unmapped_between
  image c hc := by
    refine ⟨(mem_mapped_between hc).1, ?_⟩
    rw [image_between]
    split
    · exact List.filter_sublist
    · exact List.nil_sublist _

/-- The place `P` is extended by another colored place only. -/
example : (between ["P", "P1"] ["P1", "R"]).mapped = ["P1"] ∧ (between ["P", "P1"] ["P1", "R"]).unmapped = ["P"] ∧
    (between ["P", "P1"] ["P1", "R"]).unclaimed = ["R"] := by cbv

end Mapping

/-! ### Correspondences -/

namespace Correspondence
open Mapping (Meets)

/-- An identifier of the uncolored net is unclaimed just if it extends no colored one, and a colored one is unmapped just
    if everything that extends it is another colored one. So nets correspond just if some place extends a colored one
    and some transition does, and otherwise the first of the two that is missing is what is reported. -/
theorem between_covers :
    (∀ colored uncolored : List String, Mapping.Coverage colored uncolored (.between colored uncolored)) ∧
    ∀ known uncolored : Identifiers,
      ((∃ m, (between known uncolored).2 = .ok m) ↔
        Meets known.places uncolored.places ∧ Meets known.transitions uncolored.transitions) ∧
      ((between known uncolored).2 = .error .emptyPlaces ↔ ¬Meets known.places uncolored.places) ∧
      ((between known uncolored).2 = .error .emptyTransitions ↔
        Meets known.places uncolored.places ∧ ¬Meets known.transitions uncolored.transitions) := by
  refine ⟨Mapping.coverage_between, fun known uncolored => ?_⟩
  rcases between_cases known uncolored with ⟨hplaces, h⟩ | ⟨hplaces, htransitions, h⟩ | ⟨hplaces, htransitions, h⟩
  · have hnone := Mapping.isEmpty_between_iff.mp hplaces
    simp [h, hnone]
  · have hsome := Mapping.isEmpty_between_eq_false_iff.mp hplaces
    have hnone := Mapping.isEmpty_between_iff.mp htransitions
    simp [h, hsome, hnone]
  · have hsome := Mapping.isEmpty_between_eq_false_iff.mp hplaces
    have hsome' := Mapping.isEmpty_between_eq_false_iff.mp htransitions
    simp [h, hsome, hsome']

end Correspondence
end Formulary
