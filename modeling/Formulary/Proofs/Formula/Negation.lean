import Formulary.Formula.DoubleNegation
import Mathlib

/-! What removing double negations does to a formula. Only negations go: every other operator stays. One pass from the
    leaves upward is enough, since nothing cancels in what it lets through, and it leaves a formula alone in which
    nothing cancels. Where negations have one operand each, no negation stands directly below another one afterwards.
    Below an even number of negations a formula comes out by itself, below an odd number it keeps one of them. -/

namespace Formulary
namespace Formula

theorem any_congr_mem {α : Type} {l : List α} {p q : α → Bool} (h : ∀ a ∈ l, p a = q a) : l.any p = l.any q := by
  induction l with
  | nil => rfl
  | cons a l ih =>
    obtain ⟨ha, hl⟩ := List.forall_mem_cons.mp h
    rw [List.any_cons, List.any_cons, ha, ih hl]

/-! ### Equations -/

@[simp] theorem hasOperator_mk {p : Operator → Bool} {op : Operator} {args : List Formula} :
    hasOperator p ⟨op, args⟩ = (p op || args.any (hasOperator p)) := by
  simp only [hasOperator, fold_mk, List.any_map]
  rfl

theorem removeDoubleNegations_mk {op : Operator} {args : List Formula} :
    removeDoubleNegations ⟨op, args⟩ = cancelNot op (args.map removeDoubleNegations) := fold_mk ..

theorem anyHasDoubleNegation_eq_any : ∀ fs : List Formula, anyHasDoubleNegation fs = fs.any hasDoubleNegation
  | [] => rfl
  | f :: fs => by rw [anyHasDoubleNegation, anyHasDoubleNegation_eq_any fs, List.any_cons]

theorem hasDoubleNegation_mk {op : Operator} {args : List Formula} :
    hasDoubleNegation ⟨op, args⟩ = (startsDoubleNegation op args || args.any hasDoubleNegation) := by
  rw [hasDoubleNegation, anyHasDoubleNegation_eq_any]

/-! ### One node -/

/-- A node cancels with the single negation below it, or stays as it is. -/
theorem cancelNot_cases (op : Operator) (args : List Formula) :
    (∃ inner f, op.name = Symbol.not.name ∧ inner.name = Symbol.not.name ∧ args = [⟨inner, [f]⟩] ∧
      cancelNot op args = f) ∨ cancelNot op args = ⟨op, args⟩ := by
  unfold cancelNot
  split
  case h_1 inner f =>
    split
    case isTrue h => exact Or.inl ⟨inner, f, h.1, h.2, rfl, rfl⟩
    case isFalse => exact Or.inr rfl
  case h_2 => exact Or.inr rfl

theorem cancelNot_of_ne {op : Operator} (args : List Formula) (h : op.name ≠ Symbol.not.name) :
    cancelNot op args = ⟨op, args⟩ := by
  rcases cancelNot_cases op args with ⟨_, _, hop, -⟩ | heq
  · exact absurd hop h
  · exact heq

theorem removeDoubleNegations_of_ne {op : Operator} (args : List Formula) (h : op.name ≠ Symbol.not.name) :
    removeDoubleNegations ⟨op, args⟩ = ⟨op, args.map removeDoubleNegations⟩ := by
  rw [removeDoubleNegations_mk, cancelNot_of_ne _ h]

/-! ### Negations that cancel -/

/-- The formula is the negation of a single one. -/
def IsNegation (f : Formula) : Prop := f.name = Symbol.not.name ∧ f.operands.length = 1

/-- The node is the negation of a single formula, which is such a negation itself. -/
def Cancels (op : Operator) (args : List Formula) : Prop :=
  ∃ inner f, op.name = Symbol.not.name ∧ inner.name = Symbol.not.name ∧ args = [⟨inner, [f]⟩]

theorem cancels_iff {op : Operator} {args : List Formula} :
    Cancels op args ↔ op.name = Symbol.not.name ∧ ∃ f, args = [f] ∧ f.IsNegation := by
  constructor
  · rintro ⟨inner, f, hop, hinner, rfl⟩
    exact ⟨hop, _, rfl, hinner, rfl⟩
  · rintro ⟨hop, ⟨inner, below⟩, rfl, hinner, hlength⟩
    obtain ⟨f, rfl⟩ := List.length_eq_one_iff.mp hlength
    exact ⟨inner, f, hop, hinner, rfl⟩

theorem cancelNot_of_negation {op inner : Operator} (f : Formula) (hop : op.name = Symbol.not.name)
    (hinner : inner.name = Symbol.not.name) : cancelNot op [⟨inner, [f]⟩] = f := if_pos ⟨hop, hinner⟩

theorem cancelNot_of_not_cancels {op : Operator} {args : List Formula} (h : ¬Cancels op args) :
    cancelNot op args = ⟨op, args⟩ := by
  rcases cancelNot_cases op args with ⟨inner, f, hop, hinner, hargs, -⟩ | hkeep
  · exact absurd ⟨inner, f, hop, hinner, hargs⟩ h
  · exact hkeep

/-- Nothing cancels in the formula. -/
inductive Reduced : Formula → Prop
  | node {op : Operator} {args : List Formula} (keep : ¬Cancels op args) (operands : ∀ f ∈ args, Reduced f) :
      Reduced ⟨op, args⟩

theorem Reduced.of_mem {op : Operator} {args : List Formula} {f : Formula} (h : Reduced ⟨op, args⟩) (hf : f ∈ args) :
    Reduced f := by
  cases h with
  | node _ operands => exact operands f hf

theorem reduced_of_leaves {op : Operator} {args : List Formula} (h : ∀ f ∈ args, f.operands = []) :
    Reduced ⟨op, args⟩ := by
  refine .node (fun hcancels => ?_) fun ⟨inner, below⟩ hf => ?_
  · obtain ⟨-, f, rfl, -, hlength⟩ := cancels_iff.mp hcancels
    rw [h f (List.mem_singleton_self f)] at hlength
    cases hlength
  · obtain rfl : below = [] := h _ hf
    refine .node (fun hcancels => ?_) nofun
    obtain ⟨-, _, hnone, -⟩ := cancels_iff.mp hcancels
    cases hnone

/-- What a pair of negations lets through was looked at before. -/
theorem reduced_cancelNot {op : Operator} {args : List Formula} (h : ∀ f ∈ args, Reduced f) :
    Reduced (cancelNot op args) := by
  by_cases hcancels : Cancels op args
  · obtain ⟨inner, f, hop, hinner, rfl⟩ := hcancels
    rw [cancelNot_of_negation f hop hinner]
    exact (h _ (List.mem_singleton_self _)).of_mem (List.mem_singleton_self f)
  · rw [cancelNot_of_not_cancels hcancels]
    exact .node hcancels h

theorem reduced_removeDoubleNegations (f : Formula) : Reduced f.removeDoubleNegations := by
  induction f with
  | node op args ih =>
    rw [removeDoubleNegations_mk]
    exact reduced_cancelNot (List.forall_mem_map.mpr ih)

theorem Reduced.removeDoubleNegations_eq {f : Formula} (h : Reduced f) : f.removeDoubleNegations = f := by
  induction h with
  | @node op args keep _ ih =>
    have hargs : args.map removeDoubleNegations = args := (List.map_congr_left ih).trans (List.map_id' args)
    rw [removeDoubleNegations_mk, hargs, cancelNot_of_not_cancels keep]

theorem removeDoubleNegations_eq_self_iff {f : Formula} : f.removeDoubleNegations = f ↔ Reduced f :=
  ⟨fun h => h ▸ reduced_removeDoubleNegations f, Reduced.removeDoubleNegations_eq⟩

theorem reduced_of_hasDoubleNegation {f : Formula} (h : f.hasDoubleNegation = false) : Reduced f := by
  induction f with
  | node op args ih =>
    rw [hasDoubleNegation_mk, Bool.or_eq_false_iff] at h
    obtain ⟨hroot, hbelow⟩ := h
    refine .node ?_ fun f hf => ih f hf (Bool.eq_false_iff.mpr (List.any_eq_false.mp hbelow f hf))
    rintro ⟨inner, f, hop, hinner, rfl⟩
    simp [startsDoubleNegation, hop, name, hinner] at hroot

/-! ### What stays -/

/-- Only operators named as a negation are lost. -/
theorem hasOperator_removeDoubleNegations {p : Operator → Bool}
    (hp : ∀ op : Operator, op.name = Symbol.not.name → p op = false) (f : Formula) :
    hasOperator p f.removeDoubleNegations = hasOperator p f := by
  induction f with
  | node op args ih =>
    have hargs : (args.map removeDoubleNegations).any (hasOperator p) = args.any (hasOperator p) := by
      rw [List.any_map]
      exact any_congr_mem ih
    rw [removeDoubleNegations_mk, hasOperator_mk, ← hargs]
    rcases cancelNot_cases op (args.map removeDoubleNegations) with ⟨inner, f, hop, hinner, heq, hcancel⟩ | heq
    · rw [hcancel, heq, hp op hop]
      simp [hp inner hinner]
    · rw [heq, hasOperator_mk]

/-! ### Negations of one formula -/

/-- Every node that is named as a negation has exactly one operand. -/
def negatesOne : Formula → Bool :=
  fold fun op below => (op.name ≠ Symbol.not.name || below.length = 1) && below.all id

theorem negatesOne_mk {op : Operator} {args : List Formula} :
    negatesOne ⟨op, args⟩ = true ↔
      (op.name = Symbol.not.name → args.length = 1) ∧ ∀ f ∈ args, f.negatesOne = true := by
  simp only [negatesOne, fold_mk, List.length_map, List.all_map, Bool.and_eq_true, Bool.or_eq_true, decide_eq_true_eq,
    List.all_eq_true, Function.comp_apply, id_eq, ne_eq]
  rw [Decidable.imp_iff_not_or]

theorem negatesOne_removeDoubleNegations {f : Formula} (h : f.negatesOne = true) :
    f.removeDoubleNegations.negatesOne = true := by
  induction f with
  | node op args ih =>
    obtain ⟨hop, hargs⟩ := negatesOne_mk.mp h
    have hargs' : ∀ g ∈ args.map removeDoubleNegations, g.negatesOne = true := by
      intro g hg
      obtain ⟨f, hf, rfl⟩ := List.mem_map.mp hg
      exact ih f hf (hargs f hf)
    rw [removeDoubleNegations_mk]
    rcases cancelNot_cases op (args.map removeDoubleNegations) with ⟨inner, f, -, -, heq, hcancel⟩ | hkeep
    · rw [hcancel]
      have hinner := hargs' ⟨inner, [f]⟩ (by rw [heq]; exact List.mem_singleton_self _)
      exact (negatesOne_mk.mp hinner).2 f (List.mem_singleton_self f)
    · rw [hkeep]
      exact negatesOne_mk.mpr ⟨by rw [List.length_map]; exact hop, hargs'⟩

/-- Where negations have one operand each, two of them cancel wherever one stands directly below the other. -/
theorem Reduced.hasDoubleNegation_eq {f : Formula} (h : Reduced f) (hone : f.negatesOne = true) :
    f.hasDoubleNegation = false := by
  induction h with
  | @node op args keep _ ih =>
    obtain ⟨hop, hargs⟩ := negatesOne_mk.mp hone
    have hbelow : args.any hasDoubleNegation = false :=
      List.any_eq_false.mpr fun f hf => Bool.eq_false_iff.mp (ih f hf (hargs f hf))
    rw [hasDoubleNegation_mk, hbelow, Bool.or_false]
    refine Bool.eq_false_iff.mpr fun hstart => keep ?_
    simp only [startsDoubleNegation, Bool.and_eq_true, decide_eq_true_eq] at hstart
    obtain ⟨hname, hhead⟩ := hstart
    obtain ⟨⟨inner, below⟩, rfl⟩ := List.length_eq_one_iff.mp (hop hname)
    have hinner : inner.name = Symbol.not.name := of_decide_eq_true hhead
    have hlength := (negatesOne_mk.mp (hargs _ (List.mem_singleton_self _))).1 hinner
    exact cancels_iff.mpr ⟨hname, _, rfl, hinner, hlength⟩

theorem hasDoubleNegation_removeDoubleNegations {f : Formula} (h : f.negatesOne = true) :
    f.removeDoubleNegations.hasDoubleNegation = false :=
  (reduced_removeDoubleNegations f).hasDoubleNegation_eq (negatesOne_removeDoubleNegations h)

/-! ### Chains of negations -/

/-- `f` below `n` negations. -/
def negations : Nat → Formula → Formula
  | 0, f => f
  | n + 1, f => ⟨.not, [negations n f]⟩

theorem cancelNot_of_name_ne {f : Formula} (hf : f.name ≠ Symbol.not.name) : cancelNot .not [f] = ⟨.not, [f]⟩ := by
  rcases cancelNot_cases .not [f] with ⟨inner, g, -, hinner, heq, -⟩ | heq
  · exact absurd (by rw [List.singleton_inj.mp heq]; exact hinner) hf
  · exact heq

/-- Below a chain of negations a formula that is none itself keeps one of them or none. -/
theorem removeDoubleNegations_negations {f : Formula} (hf : f.removeDoubleNegations.name ≠ Symbol.not.name)
    (n : Nat) : (negations n f).removeDoubleNegations = negations (n % 2) f.removeDoubleNegations := by
  induction n with
  | zero => rfl
  | succ n ih =>
    rw [negations, removeDoubleNegations_mk, List.map_singleton, ih]
    rcases Nat.mod_two_eq_zero_or_one n with hn | hn
    · rw [hn, show (n + 1) % 2 = 1 by omega]
      exact cancelNot_of_name_ne hf
    · rw [hn, show (n + 1) % 2 = 0 by omega]
      exact cancelNot_of_negation _ rfl rfl

end Formula
end Formulary
