import Formulary.Proofs.Formula.Meaning
import Formulary.Proofs.Net.Unfolding

/-! Unfolding keeps the meaning of a formula. A colored place has the tokens of everything that it unfolds into, and a
    colored transition is fireable if something that it unfolds into is. Read in that way, a formula over colored
    identifiers means the same as the unfolded formula. -/

namespace Formulary

namespace Valuation
variable {σ : Type} {v : Valuation σ} {m : Correspondence} {ids : List String} {s : σ}

/-- The colored net, seen through what its identifiers unfold into. -/
def folded (v : Valuation σ) (m : Correspondence) : Valuation σ where
  tokens s p := ((m.places.image p).map (v.tokens s)).sum
  fireable s t := ∃ u ∈ m.transitions.image t, v.fireable s u

theorem sum_tokens_folded :
    ((ids.flatMap m.places.image).map (v.tokens s)).sum = (ids.map ((v.folded m).tokens s)).sum := by
  rw [List.map_flatMap, List.flatMap_def, List.sum_flatten, List.map_map]
  rfl

theorem fireable_folded_iff :
    (∃ u ∈ ids.flatMap m.transitions.image, v.fireable s u) ↔ ∃ t ∈ ids, (v.folded m).fireable s t := by
  constructor
  · rintro ⟨u, hu, hfireable⟩
    obtain ⟨t, ht, hu⟩ := List.mem_flatMap.mp hu
    exact ⟨t, ht, u, hu, hfireable⟩
  · rintro ⟨t, ht, u, hu, hfireable⟩
    exact ⟨u, List.mem_flatMap.mpr ⟨t, ht, hu⟩, hfireable⟩

end Valuation

/-- The leaves carry what the operands unfold into. -/
theorem Formula.map_name_unfoldNames (mapping : Mapping) (args : List Formula) :
    (unfoldNames mapping args).map (·.name) = (args.map (·.name)).flatMap mapping.image := by
  rw [unfoldNames, List.map_map, List.flatMap_map]
  exact List.map_id' _

namespace Kripke
variable {σ : Type} {K : Kripke σ} {v : Valuation σ} {m : Correspondence} {op : Operator} {args : List Formula}

theorem combine_isFireable (h : op.symbol? = some .isFireable) :
    K.combine v op ((Formula.unfoldNames m.transitions args).map (K.meaning v)) =
      K.combine (v.folded m) op (args.map (K.meaning (v.folded m))) := by
  simp only [combine, h, map_name_meaning, Formula.map_name_unfoldNames, Valuation.fireable_folded_iff]

theorem combine_tokenCount (h : op.symbol? = some .tokenCount) :
    K.combine v op ((Formula.unfoldNames m.places args).map (K.meaning v)) =
      K.combine (v.folded m) op (args.map (K.meaning (v.folded m))) := by
  simp only [combine, h, map_name_meaning, Formula.map_name_unfoldNames, Valuation.sum_tokens_folded]

/-- The unfolded formula means what the formula means in the colored net. -/
theorem meaning_unfold (f : Formula) : K.meaning v (f.unfold m) = K.meaning (v.folded m) f := by
  induction f with
  | node op args ih =>
    by_cases hfireable : op.symbol? = some .isFireable
    · rw [meaning_mk, ← combine_isFireable hfireable, Formula.unfold]
      simp only [hfireable, meaning_mk]
    · by_cases hcount : op.symbol? = some .tokenCount
      · rw [meaning_mk, ← combine_tokenCount hcount, Formula.unfold]
        simp only [hcount, meaning_mk]
      · have hargs : (args.map (Formula.unfold m)).map (K.meaning v) = args.map (K.meaning (v.folded m)) := by
          rw [List.map_map]
          exact List.map_congr_left ih
        rw [Formula.unfold_mk hfireable hcount, meaning_mk, meaning_mk, hargs]
        exact combine_valuation hfireable hcount v (v.folded m) _

/-- A formula holds in a state of the colored net exactly if the unfolded formula does in the uncolored one, and the
    same is so along paths. -/
theorem holds_unfold_iff (K : Kripke σ) (v : Valuation σ) (m : Correspondence) (f : Formula) :
    (∀ s, K.Holds (v.folded m) f s ↔ K.Holds v (f.unfold m) s) ∧
      ∀ π, K.HoldsAlong (v.folded m) f π ↔ K.HoldsAlong v (f.unfold m) π := by
  have hmeaning : K.meaning v (f.unfold m) = K.meaning (v.folded m) f := meaning_unfold f
  constructor
  · intro s
    rw [Holds, Holds, hmeaning]
  · intro π
    rw [HoldsAlong, HoldsAlong, hmeaning]

end Kripke
end Formulary
