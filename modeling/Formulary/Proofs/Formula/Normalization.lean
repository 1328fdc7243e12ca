import Formulary.Proofs.Formula.Branching

/-! What a pass that removes double negations leaves of a formula. It is normal: a second pass changes nothing. The pass
    takes nodes away, so nothing gets deeper, and every node that stays keeps its number of operands. -/

namespace Formulary
namespace Formula
variable {op : Operator} {args : List Formula} {f : Formula}

/-! ### Depth and arities -/

theorem depth_map_le {change : Formula → Formula} (op : Operator) (h : ∀ f ∈ args, (change f).depth ≤ f.depth) :
    depth ⟨op, args.map change⟩ ≤ depth ⟨op, args⟩ := by
  have hpos := depth_pos ⟨op, args⟩
  obtain ⟨n, hn⟩ : ∃ n, depth ⟨op, args⟩ = n + 1 := ⟨depth ⟨op, args⟩ - 1, by omega⟩
  rw [hn, depth_le_succ_iff, List.forall_mem_map]
  intro f hf
  have := h f hf
  have := depth_lt op hf
  omega

theorem depth_cancelNot_le (op : Operator) (args : List Formula) : (cancelNot op args).depth ≤ depth ⟨op, args⟩ := by
  rcases cancelNot_cases op args with ⟨inner, f, -, -, rfl, hcancel⟩ | hkeep
  · have := depth_lt inner (List.mem_singleton_self f)
    have := depth_lt op (List.mem_singleton_self (⟨inner, [f]⟩ : Formula))
    rw [hcancel]
    omega
  · rw [hkeep]

theorem depth_removeDoubleNegations_le (f : Formula) : f.removeDoubleNegations.depth ≤ f.depth := by
  induction f with
  | node op args ih =>
    rw [removeDoubleNegations_mk]
    exact (depth_cancelNot_le op _).trans (depth_map_le op ih)

theorem respectsArities_mk :
    respectsArities ⟨op, args⟩ = true ↔
      op.acceptsArity args.length = true ∧ ∀ f ∈ args, f.respectsArities = true := by
  simp [respectsArities]

theorem respectsArities_cancelNot (h : respectsArities ⟨op, args⟩ = true) :
    (cancelNot op args).respectsArities = true := by
  rcases cancelNot_cases op args with ⟨inner, f, -, -, rfl, hcancel⟩ | hkeep
  · have hinner := (respectsArities_mk.mp h).2 _ (List.mem_singleton_self _)
    rw [hcancel]
    exact (respectsArities_mk.mp hinner).2 f (List.mem_singleton_self f)
  · rwa [hkeep]

theorem respectsArities_removeDoubleNegations (h : f.respectsArities = true) :
    f.removeDoubleNegations.respectsArities = true := by
  induction f with
  | node op args ih =>
    obtain ⟨hroot, hargs⟩ := respectsArities_mk.mp h
    rw [removeDoubleNegations_mk]
    refine respectsArities_cancelNot (respectsArities_mk.mpr ⟨?_, ?_⟩)
    · rwa [List.length_map]
    · exact List.forall_mem_map.mpr fun f hf => ih f hf (hargs f hf)

/-! ### One pass -/

/-- A second pass finds nothing to remove. Where each negation has one operand, the first one leaves no double negation,
    and it changes a formula just if there is one. No formula gets deeper, and none gets a number of operands that an
    operator does not accept. -/
theorem removeDoubleNegations_normalizes (f : Formula) :
    f.removeDoubleNegations.removeDoubleNegations = f.removeDoubleNegations ∧
    (f.negatesOne = true →
      f.removeDoubleNegations.hasDoubleNegation = false ∧
      (f.removeDoubleNegations = f ↔ f.hasDoubleNegation = false)) ∧
    f.removeDoubleNegations.depth ≤ f.depth ∧
    (f.respectsArities = true → f.removeDoubleNegations.respectsArities = true) := by
  refine ⟨removeDoubleNegations_eq_self_iff.mpr (reduced_removeDoubleNegations f), fun hone => ?_,
    depth_removeDoubleNegations_le f, respectsArities_removeDoubleNegations⟩
  have hnone := hasDoubleNegation_removeDoubleNegations hone
  refine ⟨hnone, fun hsame => ?_, fun hfree => ?_⟩
  · rwa [hsame] at hnone
  · exact removeDoubleNegations_eq_self_iff.mpr (reduced_of_hasDoubleNegation hfree)

/-- A chain of five negations over a conjunction with a chain of four in it. -/
def tower : Formula := negations 5 ⟨.connective .and 2, [negations 4 .atom, .atom]⟩

theorem tower_normalizes :
    tower.negatesOne = true ∧ tower.respectsArities = true ∧
    tower.removeDoubleNegations = negations 1 ⟨.connective .and 2, [.atom, .atom]⟩ ∧
    tower.removeDoubleNegations.hasDoubleNegation = false ∧
    tower.removeDoubleNegations.respectsArities = true := by
  have hone : tower.negatesOne = true := by decide
  have harity : tower.respectsArities = true := by decide
  obtain ⟨-, hclean, -, hkeeps⟩ := removeDoubleNegations_normalizes tower
  exact ⟨hone, harity, by decide, (hclean hone).1, hkeeps harity⟩

/-- A negation without operands counts as a double negation, but nothing cancels there. -/
example : hasDoubleNegation ⟨.not, [⟨.not, []⟩]⟩ = true ∧
    removeDoubleNegations ⟨.not, [⟨.not, []⟩]⟩ = ⟨.not, [⟨.not, []⟩]⟩ := by decide

end Formula
end Formulary
