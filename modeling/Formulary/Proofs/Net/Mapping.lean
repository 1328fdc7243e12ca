import Formulary.Net.Correspondence
import Mathlib

/-! What identifiers unfold into. Two colored identifiers have an unfolding in common where an uncolored
    identifier extends both and is not colored itself. An unfolded formula then lists that identifier more
    than once; else it lists none twice. -/

namespace Formulary

theorem isUnfolding_iff {ids : List String} {u c : String} :
    isUnfolding ids u c ↔ c.toList <+: u.toList ∧ (u = c ∨ u ∉ ids) := by
  simp [isUnfolding, String.startsWith_string_iff]

namespace Mapping
variable {colored uncolored cs : List String} {c d u : String}

/-- The identifier `u` of the uncolored net extends both `c` and `d`, and is not colored. -/
structure Shared (colored uncolored : List String) (c d u : String) : Prop where
  uncolored : u ∈ uncolored
  notColored : u ∉ colored
  extendsLeft : c.toList <+: u.toList
  extendsRight : d.toList <+: u.toList

/-! ### Images -/

theorem lookup_images {f : String → List String} (c : String) :
    ∀ cs : List String, (((cs.map fun c => (c, f c)).filter (!·.2.isEmpty)).lookup c).getD [] =
      if c ∈ cs then f c else []
  | [] => rfl
  | d :: cs => by
    have ih := lookup_images (f := f) c cs
    rw [List.map_cons, List.filter_cons]
    by_cases h : c = d
    · subst h
      rw [if_pos List.mem_cons_self]
      split
      case isTrue => simp
      case isFalse hempty =>
        have hnil : f c = [] := by simpa using hempty
        rw [ih, hnil, ite_self]
    · simp only [List.mem_cons, h, false_or]
      rw [← ih]
      split
      · rw [List.lookup_cons, beq_false_of_ne h]
      · rfl

theorem image_between (c : String) :
    (between colored uncolored).image c = if c ∈ colored then imageAmong colored uncolored c else [] :=
  lookup_images c colored

theorem mem_image_between :
    u ∈ (between colored uncolored).image c ↔
      c ∈ colored ∧ u ∈ uncolored ∧ c.toList <+: u.toList ∧ (u = c ∨ u ∉ colored) := by
  rw [image_between]
  split
  case isTrue hc => simp [imageAmong, isUnfolding_iff, hc]
  case isFalse hc => simp [hc]

theorem nodup_image_between (h : uncolored.Nodup) (c : String) : ((between colored uncolored).image c).Nodup := by
  rw [image_between]
  split
  · exact h.filter _
  · exact List.nodup_nil

/-- An identifier that is colored itself is in no image but its own. -/
theorem mem_images_iff (hc : c ∈ colored) (hd : d ∈ colored) (hne : c ≠ d) :
    u ∈ (between colored uncolored).image c ∧ u ∈ (between colored uncolored).image d ↔
      Shared colored uncolored c d u := by
  simp only [mem_image_between]
  constructor
  · rintro ⟨⟨-, hu, hcu, hown⟩, -, -, hdu, hown'⟩
    refine ⟨hu, fun hcolored => ?_, hcu, hdu⟩
    have heq : u = c := hown.resolve_right (not_not_intro hcolored)
    have heq' : u = d := hown'.resolve_right (not_not_intro hcolored)
    exact hne (heq.symm.trans heq')
  · intro h
    exact ⟨⟨hc, h.uncolored, h.extendsLeft, .inr h.notColored⟩, hd, h.uncolored, h.extendsRight, .inr h.notColored⟩

/-- Of two identifiers with an unfolding in common one extends the other. -/
theorem Shared.prefix_or (h : Shared colored uncolored c d u) : c.toList <+: d.toList ∨ d.toList <+: c.toList :=
  List.prefix_or_prefix_of_prefix h.extendsLeft h.extendsRight

theorem disjoint_images_iff (hc : c ∈ colored) (hd : d ∈ colored) (hne : c ≠ d) :
    List.Disjoint ((between colored uncolored).image c) ((between colored uncolored).image d) ↔
      ∀ u, ¬Shared colored uncolored c d u := by
  constructor
  · intro h u hu
    obtain ⟨hleft, hright⟩ := (mem_images_iff hc hd hne).mpr hu
    exact h hleft hright
  · intro h u hleft hright
    exact h u ((mem_images_iff hc hd hne).mp ⟨hleft, hright⟩)

/-- What distinct identifiers unfold into together has no repetition where no two of them share anything. -/
theorem nodup_flatMap_image_iff (huncolored : uncolored.Nodup) (hcs : cs.Nodup) (hsub : cs ⊆ colored) :
    (cs.flatMap (between colored uncolored).image).Nodup ↔
      ∀ c ∈ cs, ∀ d ∈ cs, c ≠ d → ∀ u, ¬Shared colored uncolored c d u := by
  have hsymm : Std.Symm (Function.onFun List.Disjoint (between colored uncolored).image) :=
    ⟨fun _ _ h _ hleft hright => h hright hleft⟩
  rw [List.nodup_flatMap, ← hcs.pairwise_coe]
  constructor
  · rintro ⟨-, hdisjoint⟩ c hc d hd hne
    exact (disjoint_images_iff (hsub hc) (hsub hd) hne).mp (hdisjoint hc hd hne)
  · intro h
    refine ⟨fun c _ => nodup_image_between huncolored c, ?_⟩
    intro c hc d hd hne
    exact (disjoint_images_iff (hsub hc) (hsub hd) hne).mpr (h c hc d hd hne)

end Mapping

/-! ### Leaves -/

namespace Formula

theorem unfold_tokenCount (m : Correspondence) (cs : List String) :
    (tokenCount cs).unfold m = tokenCount (cs.flatMap m.places.image) := by
  have hsymbol : Operator.tokenCount.symbol? = some .tokenCount := by decide
  simp only [tokenCount, unfold, hsymbol, unfoldNames, List.flatMap_map]
  rfl

theorem unfold_isFireable (m : Correspondence) (cs : List String) :
    (isFireable cs).unfold m = isFireable (cs.flatMap m.transitions.image) := by
  have hsymbol : Operator.isFireable.symbol? = some .isFireable := by decide
  simp only [isFireable, unfold, hsymbol, unfoldNames, List.flatMap_map]
  rfl

end Formula

/-! ### What colored identifiers share -/

namespace Mapping
variable {colored uncolored : List String}

/-- Two colored identifiers share just the identifiers of the uncolored net that extend both and are not
    colored. Over distinct identifiers no leaf is unfolded into a leaf with a repetition, unless two of them
    share one. -/
theorem between_shared (huncolored : uncolored.Nodup) :
    (∀ c ∈ colored, ∀ d ∈ colored, c ≠ d → ∀ u,
      (u ∈ (between colored uncolored).image c ∧ u ∈ (between colored uncolored).image d ↔
        Shared colored uncolored c d u) ∧
      (Shared colored uncolored c d u → c.toList <+: d.toList ∨ d.toList <+: c.toList)) ∧
    ∀ cs ⊆ colored, cs.Nodup →
      (∀ m : Correspondence, m.places = between colored uncolored →
        (Formula.tokenCount cs).unfold m =
          Formula.tokenCount (cs.flatMap (between colored uncolored).image)) ∧
      (∀ m : Correspondence, m.transitions = between colored uncolored →
        (Formula.isFireable cs).unfold m =
          Formula.isFireable (cs.flatMap (between colored uncolored).image)) ∧
      ((cs.flatMap (between colored uncolored).image).Nodup ↔
        ∀ c ∈ cs, ∀ d ∈ cs, c ≠ d → ∀ u, ¬Shared colored uncolored c d u) := by
  refine ⟨fun c hc d hd hne u => ⟨mem_images_iff hc hd hne, Shared.prefix_or⟩, fun cs hsub hcs => ⟨?_, ?_, ?_⟩⟩
  · rintro m hm
    rw [Formula.unfold_tokenCount, hm]
  · rintro m hm
    rw [Formula.unfold_isFireable, hm]
  · exact nodup_flatMap_image_iff huncolored hcs hsub

/-- The place `P1` is colored itself, so it is no instance of `P`. -/
theorem image_of_extension_nodup :
    ["P_a", "P1", "P_b"].Nodup ∧ ["P", "P1"].Nodup ∧
      (["P", "P1"].flatMap (between ["P", "P1"] ["P_a", "P1", "P_b"]).image).Nodup := by
  have huncolored : ["P_a", "P1", "P_b"].Nodup := by decide
  have hcs : ["P", "P1"].Nodup := by decide
  refine ⟨huncolored, hcs, ?_⟩
  refine ((between_shared huncolored).2 ["P", "P1"] (List.Subset.refl _) hcs).2.2.mpr ?_
  rintro c hc d hd hne u ⟨hu, hcolored, hleft, hright⟩
  -- one of the two is `P1`, which only itself extends
  have hP1 : "P1".toList <+: u.toList := by
    rcases List.mem_pair.mp hc with rfl | rfl
    · rcases List.mem_pair.mp hd with rfl | rfl
      · exact absurd rfl hne
      · exact hright
    · exact hleft
  have hmem : u = "P_a" ∨ u = "P1" ∨ u = "P_b" := by simpa using hu
  rcases hmem with rfl | rfl | rfl
  · exact absurd hP1 (by decide)
  · exact absurd hcolored (by decide)
  · exact absurd hP1 (by decide)

/-- The identifier `P1_a` is an instance of `P1`, and `P` claims it too. -/
theorem image_of_extension_overlaps :
    ["P", "P1"].Nodup ∧ ["P1_a"].Nodup ∧ "P" ≠ "P1" ∧
      "P1_a" ∈ (between ["P", "P1"] ["P1_a"]).image "P" ∧ "P1_a" ∈ (between ["P", "P1"] ["P1_a"]).image "P1" ∧
      (Formula.tokenCount ["P", "P1"]).unfold
          ⟨between ["P", "P1"] ["P1_a"], between [] []⟩ = Formula.tokenCount ["P1_a", "P1_a"] := by
  have hleft : (between ["P", "P1"] ["P1_a"]).image "P" = ["P1_a"] := by cbv
  have hright : (between ["P", "P1"] ["P1_a"]).image "P1" = ["P1_a"] := by cbv
  refine ⟨by decide, by decide, by decide, ?_, ?_, ?_⟩
  · rw [hleft]
    exact List.mem_singleton_self _
  · rw [hright]
    exact List.mem_singleton_self _
  · rw [Formula.unfold_tokenCount]
    simp [hleft, hright]

end Mapping
end Formulary
