import Formulary.Proofs.Net.Coverage
import Formulary.Proofs.Net.Lifecycle

/-! Restricting a model to its mapped identifiers. An identifier that is left out is not in the uncolored net, or else it
    would be its own unfolding. So it kept no other identifier from claiming anything, and the identifiers that remain
    unfold into what they unfolded into before. -/

namespace Formulary

/-! ### Mappings -/

namespace Mapping
variable {colored uncolored : List String} {c u : String}

/-- A colored identifier of the uncolored net is its own unfolding. -/
theorem mem_mapped_between_iff (hu : u ∈ uncolored) : u ∈ (between colored uncolored).mapped ↔ u ∈ colored := by
  rw [mapped_between, List.mem_filter, decide_eq_true_eq]
  refine ⟨And.left, fun hcolored => ⟨hcolored, fun hhidden => ?_⟩⟩
  exact (hhidden u hu (List.prefix_refl _)).1 rfl

theorem imageAmong_mapped (c : String) :
    imageAmong (between colored uncolored).mapped uncolored c = imageAmong colored uncolored c := by
  refine List.filter_congr fun u hu => ?_
  rw [Bool.eq_iff_iff, isUnfolding_iff, isUnfolding_iff, mem_mapped_between_iff hu]

theorem extends_mapped_iff (hu : u ∈ uncolored) :
    Extends (between colored uncolored).mapped u ↔ Extends colored u := by
  constructor
  · rintro ⟨c, hc, hextends⟩
    rw [mapped_between] at hc
    exact ⟨c, (List.mem_filter.mp hc).1, hextends⟩
  · intro hextends
    obtain ⟨c, hc, hmem⟩ := exists_mem_image_iff.mpr ⟨hu, hextends⟩
    exact ⟨c, hc, (mem_image_between.mp hmem).2.2.1⟩

theorem images_between_mapped :
    (between (between colored uncolored).mapped uncolored).images = (between colored uncolored).images := by
  have hpairs : (between colored uncolored).mapped.map (fun c => (c, imageAmong colored uncolored c)) =
      (between colored uncolored).images := by
    rw [mapped, List.map_map]
    refine (List.map_congr_left fun p hp => ?_).trans (List.map_id _)
    obtain ⟨c, -, rfl⟩ := List.mem_map.mp (List.mem_filter.mp hp).1
    rfl
  show ((between colored uncolored).mapped.map fun c =>
    (c, imageAmong (between colored uncolored).mapped uncolored c)).filter _ = _
  simp only [imageAmong_mapped]
  rw [hpairs]
  exact List.filter_eq_self.mpr fun p hp => (List.mem_filter.mp hp).2

theorem unclaimed_between_mapped :
    (between (between colored uncolored).mapped uncolored).unclaimed = (between colored uncolored).unclaimed := by
  rw [unclaimed_between, unclaimed_between]
  refine List.filter_congr fun u hu => ?_
  rw [decide_eq_decide, extends_mapped_iff hu]

theorem unmapped_between_mapped : (between (between colored uncolored).mapped uncolored).unmapped = [] := by
  refine List.filter_eq_nil_iff.mpr fun c hc => ?_
  rw [mapped_between, List.mem_filter, decide_eq_true_eq] at hc
  rw [imageAmong_mapped, List.isEmpty_iff, imageAmong_eq_nil_iff]
  exact hc.2

/-- Without the identifiers that are not mapped the mapping is the same, and all are mapped. -/
theorem between_mapped (colored uncolored : List String) :
    between (between colored uncolored).mapped uncolored = { between colored uncolored with unmapped := [] } := by
  rw [mk.injEq]
  exact ⟨images_between_mapped, unmapped_between_mapped, unclaimed_between_mapped⟩

end Mapping

/-! ### Models -/

namespace Correspondence
variable {known uncolored : Identifiers} {c : Correspondence}

theorem between_of_isEmpty_eq_false (hplaces : (Mapping.between known.places uncolored.places).isEmpty = false)
    (htransitions : (Mapping.between known.transitions uncolored.transitions).isEmpty = false) :
    (between known uncolored).2 =
      .ok ⟨.between known.places uncolored.places, .between known.transitions uncolored.transitions⟩ := by
  simp [between, hplaces, htransitions]

/-- Nets correspond in the same way when only the mapped identifiers of the colored one are left. -/
theorem between_mapped (h : (between known uncolored).2 = .ok c) :
    (between ⟨c.places.mapped, c.transitions.mapped⟩ uncolored).2 =
      .ok ⟨{ c.places with unmapped := [] }, { c.transitions with unmapped := [] }⟩ := by
  have hcases := between_cases known uncolored
  rw [h] at hcases
  rcases hcases with ⟨-, h⟩ | ⟨-, -, h⟩ | ⟨hplaces, htransitions, h⟩
  · cases h
  · cases h
  · cases h
    have hplaces' := Mapping.between_mapped known.places uncolored.places
    have htransitions' := Mapping.between_mapped known.transitions uncolored.transitions
    rw [between_of_isEmpty_eq_false, hplaces', htransitions']
    · rw [hplaces']
      exact hplaces
    · rw [htransitions']
      exact htransitions

end Correspondence

namespace Model
variable {m twin : Model} {c : Correspondence}

theorem identifiers_ensureCorrespondence (hnone : m.correspondence = none)
    (hfound : (Correspondence.between m.identifiers twin.identifiers).2 = .ok c) :
    (m.ensureCorrespondence twin).1.identifiers = ⟨c.places.mapped, c.transitions.mapped⟩ := by
  rw [ensureCorrespondence_of_none hnone, hfound]
  rfl

/-- A model that was found to correspond with its twin is left with identifiers for which the same is found again, with
    none of them unmapped; and whatever it is related to later, this is what it is left with. -/
theorem ensureCorrespondence_settles :
    (∀ colored uncolored : List String, Mapping.between (Mapping.between colored uncolored).mapped uncolored =
      { Mapping.between colored uncolored with unmapped := [] }) ∧
    ∀ (m twin : Model) (c : Correspondence), m.correspondence = none →
      (m.ensureCorrespondence twin).1.correspondence = some (.ok c) →
        (Correspondence.between (m.ensureCorrespondence twin).1.identifiers twin.identifiers).2 =
          .ok ⟨{ c.places with unmapped := [] }, { c.transitions with unmapped := [] }⟩ ∧
        ∀ other, (m.ensureCorrespondence twin).1.ensureCorrespondence other =
          ((m.ensureCorrespondence twin).1, []) := by
  refine ⟨Mapping.between_mapped, fun m twin c hnone hcached => ⟨?_, ensureCorrespondence_of_some hcached⟩⟩
  have hfound : (Correspondence.between m.identifiers twin.identifiers).2 = .ok c := by
    rw [ensureCorrespondence_of_none hnone] at hcached
    exact Option.some.inj hcached
  rw [identifiers_ensureCorrespondence hnone hfound]
  exact Correspondence.between_mapped hfound

/-- A colored model that has a place and a transition which nothing unfolds. -/
def patchy : Model :=
  ({ key := ⟨"M", .colored, "1"⟩, directory := "M-COL-1" } : Model).withIdentifiers ["P", "Lost", "P1"] ["T", "Lost"]

/-- The twin of the model. -/
def patchyTwin : Model :=
  ({ key := ⟨"M", .placeTransition, "1"⟩, directory := "M-PT-1" } : Model).withIdentifiers ["P1", "P_a", "R"] ["T_a"]

theorem patchy_settles :
    patchy.correspondence = none ∧
    (patchy.ensureCorrespondence patchyTwin).1.correspondence =
      some (.ok ⟨⟨[("P", ["P_a"]), ("P1", ["P1"])], ["Lost"], ["R"]⟩, ⟨[("T", ["T_a"])], ["Lost"], []⟩⟩) ∧
    (Correspondence.between (patchy.ensureCorrespondence patchyTwin).1.identifiers patchyTwin.identifiers).2 =
      .ok ⟨⟨[("P", ["P_a"]), ("P1", ["P1"])], [], ["R"]⟩, ⟨[("T", ["T_a"])], [], []⟩⟩ := by
  have hnone : patchy.correspondence = none := rfl
  have hcached : (patchy.ensureCorrespondence patchyTwin).1.correspondence =
      some (.ok ⟨⟨[("P", ["P_a"]), ("P1", ["P1"])], ["Lost"], ["R"]⟩, ⟨[("T", ["T_a"])], ["Lost"], []⟩⟩) := by cbv
  exact ⟨hnone, hcached, (ensureCorrespondence_settles.2 patchy patchyTwin _ hnone hcached).1⟩

/-- The twin with other identifiers. -/
def renamedTwin : Model :=
  ({ key := ⟨"M", .placeTransition, "1"⟩, directory := "M-PT-1" } : Model).withIdentifiers ["Z"] ["Z"]

/-- What is known of the twin is taken for what is found with the renamed one, and that is nothing. -/
theorem patchy_ensureCorrespondence_renamedTwin :
    ((patchy.ensureCorrespondence patchyTwin).1.ensureCorrespondence renamedTwin).1.correspondence =
      some (.ok ⟨⟨[("P", ["P_a"]), ("P1", ["P1"])], ["Lost"], ["R"]⟩, ⟨[("T", ["T_a"])], ["Lost"], []⟩⟩) ∧
    (Correspondence.between
        ((patchy.ensureCorrespondence patchyTwin).1.ensureCorrespondence renamedTwin).1.identifiers
        renamedTwin.identifiers).2 = .error .emptyPlaces := by
  refine ⟨?_, ?_⟩
  · cbv
  · cbv

end Model
end Formulary
