import Formulary.Proofs.Formula.Placeholder
import Formulary.Proofs.Net.Unfolding

/-! Removing double negations before or after. Random formulas lose their double negations while they have placeholders,
    and are bound and unfolded then. Nothing is gained by removing them later: an atom is no negation, and neither is
    what a list of identifiers unfolds into, whatever the identifiers are called, so the same negations cancel before
    and after. No placeholder is lost or moved with them, so the atoms are drawn in the same order. -/

namespace Formulary

/-! ### Computations that go on in the same way -/

namespace Generation
variable {α β : Type} {x : Generation α}

/-- A computation only goes on from what it gives. -/
theorem bind_congr {f g : α → Generation β} (h : ∀ {s a t}, x.Gives s a t → f a = g a) : x >>= f = x >>= g := by
  refine ExceptT.ext (StateT.ext fun s => ?_)
  simp only [ExceptT.run_bind, StateT.run_bind]
  rcases hx : x.run.run s with fault | ⟨e | a, t⟩
  · rfl
  · rfl
  · simp only [bind, Except.bind, h hx]

theorem map_congr {f g : α → β} (h : ∀ {s a t}, x.Gives s a t → f a = g a) : f <$> x = g <$> x := by
  rw [map_eq_pure_bind, map_eq_pure_bind]
  exact bind_congr fun hx => congrArg pure (h hx)

end Generation

/-! ### Binding -/

theorem Formula.Replaced.isNegation {atom atom' : Formula → Prop} {f g : Formula}
    (hatom' : ∀ a, atom' a → a.name ≠ Symbol.not.name) (h : Replaced atom atom' f g) (hg : g.IsNegation) :
    f.IsNegation := by
  cases h with
  | atom _ h' => exact absurd hg.1 (hatom' _ h')
  | node _ length _ => exact ⟨hg.1, length ▸ hg.2⟩

namespace Binder
open Formula
variable {b : Binder} {kind : AtomKind} {op : Operator} {args : List Formula}

theorem ne_atom_of_not (h : op.name = Symbol.not.name) : op ≠ .atom := by
  rintro rfl
  exact absurd h (by decide)

theorem bind_atom (args : List Formula) : b.bind kind ⟨.atom, args⟩ = b.atomOf kind := by
  rw [bind, if_pos rfl]

theorem bind_node (h : op ≠ .atom) : b.bind kind ⟨op, args⟩ = Formula.mk op <$> b.bindAll kind args := by
  rw [bind, if_neg h, map_eq_pure_bind]

theorem bindAll_map {change : Formula → Formula}
    (h : ∀ f ∈ args, b.bind kind (change f) = change <$> b.bind kind f) :
    b.bindAll kind (args.map change) = List.map change <$> b.bindAll kind args := by
  induction args with
  | nil => simp [bindAll]
  | cons f args ih =>
    obtain ⟨hf, hargs⟩ := List.forall_mem_cons.mp h
    simp [bindAll, hf, ih hargs]

/-- Of what a list of operands is bound to, nothing cancels that did not before. -/
theorem not_cancels_of_bindAll {s t : Keystream} {args' : List Formula} (h : (b.bindAll kind args).Gives s args' t)
    (hkeep : ¬Cancels op args) : ¬Cancels op args' := by
  obtain ⟨hlength, hall⟩ := bindAll_gives (fun f _ {_ _ _} hg => bind_gives_replaced hg) h
  intro hcancels
  obtain ⟨hop, g, rfl, hg⟩ := cancels_iff.mp hcancels
  obtain ⟨f, rfl⟩ := List.length_eq_one_iff.mp hlength.symm
  have hfg := hall (f, g) (List.mem_singleton_self _)
  exact hkeep (cancels_iff.mpr ⟨hop, f, rfl, hfg.isNegation (fun _ ha => (ha.inert (c := .ofBound 2)).name_ne) hg⟩)

theorem bind_cancelNot (h : op ≠ .atom) : b.bind kind (cancelNot op args) = cancelNot op <$> b.bindAll kind args := by
  by_cases hcancels : Cancels op args
  · obtain ⟨inner, f, hop, hinner, rfl⟩ := hcancels
    rw [cancelNot_of_negation f hop hinner]
    simp [bindAll, bind_node (ne_atom_of_not hinner), cancelNot_of_negation _ hop hinner]
  · rw [cancelNot_of_not_cancels hcancels, bind_node h]
    exact Generation.map_congr fun hargs => (cancelNot_of_not_cancels (not_cancels_of_bindAll hargs hcancels)).symm

theorem map_atomOf : removeDoubleNegations <$> b.atomOf kind = b.atomOf kind := by
  have hsame : removeDoubleNegations <$> b.atomOf kind = id <$> b.atomOf kind := by
    refine Generation.map_congr fun hgives => Reduced.removeDoubleNegations_eq (reduced_of_hasDoubleNegation ?_)
    exact ((atomOf_gives hgives).inert (c := .ofBound 2)).hasDoubleNegation
  rw [hsame, id_map]

theorem bind_removeDoubleNegations (f : Formula) :
    b.bind kind f.removeDoubleNegations = removeDoubleNegations <$> b.bind kind f := by
  induction f with
  | node op args ih =>
    by_cases hop : op = .atom
    · subst hop
      rw [removeDoubleNegations_of_ne args (by decide), bind_atom, bind_atom, map_atomOf]
    · have hcancel : cancelNot op ∘ List.map removeDoubleNegations = removeDoubleNegations ∘ Formula.mk op :=
        funext fun args' => removeDoubleNegations_mk.symm
      rw [removeDoubleNegations_mk, bind_cancelNot hop, bindAll_map ih, bind_node hop, ← comp_map, ← comp_map, hcancel]

end Binder

/-! ### Unfolding -/

/-- The operands are there for their names. -/
def Operator.Lists (op : Operator) : Prop := op.symbol? = some .isFireable ∨ op.symbol? = some .tokenCount

namespace Formula
variable {m : Correspondence} {op : Operator} {args : List Formula} {f : Formula}

/-- Where identifiers are listed there are leaves. -/
inductive ListsLeaves : Formula → Prop
  | node {op : Operator} {args : List Formula} (leaves : op.Lists → ∀ f ∈ args, f.operands = [])
      (operands : ∀ f ∈ args, ListsLeaves f) : ListsLeaves ⟨op, args⟩

theorem not_lists_of_not (h : op.name = Symbol.not.name) : ¬op.Lists := by
  have hsymbol : op.symbol? = some .not := Symbol.ofName?_eq_some.mpr h.symm
  simp [Operator.Lists, hsymbol]

theorem unfold_of_not_lists (h : ¬op.Lists) : unfold m ⟨op, args⟩ = ⟨op, args.map (unfold m)⟩ :=
  unfold_mk (fun hfireable => h (.inl hfireable)) fun hcount => h (.inr hcount)

/-- A list of identifiers is unfolded into a list of identifiers. -/
theorem unfold_of_lists (h : op.Lists) (args : List Formula) :
    ∃ texts : List String, unfold m ⟨op, args⟩ = ⟨op, texts.map literal⟩ := by
  rcases h with hfireable | hcount
  · exact ⟨args.flatMap fun f => m.transitions.image f.name, by simp only [unfold, hfireable, unfoldNames]⟩
  · exact ⟨args.flatMap fun f => m.places.image f.name, by simp only [unfold, hcount, unfoldNames]⟩

theorem operator_unfold (m : Correspondence) (f : Formula) : (unfold m f).operator = f.operator := by
  obtain ⟨op, args⟩ := f
  by_cases hlists : op.Lists
  · obtain ⟨texts, htexts⟩ := unfold_of_lists (m := m) hlists args
    rw [htexts]
  · rw [unfold_of_not_lists hlists]

theorem isNegation_of_unfold (h : (unfold m f).IsNegation) : f.IsNegation := by
  obtain ⟨op, args⟩ := f
  obtain ⟨hname, hlength⟩ := h
  rw [name, operator_unfold] at hname
  rw [unfold_of_not_lists (not_lists_of_not hname), List.length_map] at hlength
  exact ⟨hname, hlength⟩

theorem unfold_cancelNot (h : ¬op.Lists) : unfold m (cancelNot op args) = cancelNot op (args.map (unfold m)) := by
  by_cases hcancels : Cancels op args
  · obtain ⟨inner, f, hop, hinner, rfl⟩ := hcancels
    rw [cancelNot_of_negation f hop hinner, List.map_singleton, unfold_of_not_lists (not_lists_of_not hinner),
      List.map_singleton, cancelNot_of_negation _ hop hinner]
  · have hkeep : ¬Cancels op (args.map (unfold m)) := by
      intro hafter
      obtain ⟨hop, g, hargs, hg⟩ := cancels_iff.mp hafter
      obtain ⟨f, rfl, rfl⟩ := List.map_eq_singleton_iff.mp hargs
      exact hcancels (cancels_iff.mpr ⟨hop, f, rfl, isNegation_of_unfold hg⟩)
    rw [cancelNot_of_not_cancels hcancels, unfold_of_not_lists h, cancelNot_of_not_cancels hkeep]

theorem unfold_removeDoubleNegations (h : f.ListsLeaves) :
    f.removeDoubleNegations.unfold m = (f.unfold m).removeDoubleNegations := by
  induction h with
  | @node op args leaves _ ih =>
    by_cases hlists : op.Lists
    · obtain ⟨texts, htexts⟩ := unfold_of_lists (m := m) hlists args
      have hleaves : ∀ f ∈ texts.map literal, f.operands = [] := List.forall_mem_map.mpr fun _ _ => rfl
      rw [(reduced_of_leaves (leaves hlists)).removeDoubleNegations_eq, htexts,
        (reduced_of_leaves hleaves).removeDoubleNegations_eq]
    · have hargs : (args.map removeDoubleNegations).map (unfold m) = (args.map (unfold m)).map removeDoubleNegations := by
        rw [List.map_map, List.map_map]
        exact List.map_congr_left ih
      rw [removeDoubleNegations_mk, unfold_cancelNot hlists, hargs, unfold_of_not_lists hlists, removeDoubleNegations_mk]

/-! ### Both -/

/-- Whether double negations are removed before or after binding, the same words are drawn, the same errors and faults
    are met, and the same formula comes out. Unfolding comes to the same before and after, too, where what is listed
    are leaves. -/
theorem removeDoubleNegations_commutes :
    (∀ (b : Binder) (kind : AtomKind) (f : Formula),
      b.bind kind f.removeDoubleNegations = removeDoubleNegations <$> b.bind kind f) ∧
    ∀ (m : Correspondence) (f : Formula), f.ListsLeaves →
      f.removeDoubleNegations.unfold m = (f.unfold m).removeDoubleNegations :=
  ⟨fun _ _ => Binder.bind_removeDoubleNegations, fun _ _ => unfold_removeDoubleNegations⟩

/-- The transitions are called like the operator. -/
theorem namesakes_commutes :
    (negations 3 (.isFireable ["not", "not"])).ListsLeaves ∧
    (negations 3 (.isFireable ["not", "not"])).removeDoubleNegations.unfold
        ⟨.between ["p"] ["p1"], .between ["not"] ["not", "not1"]⟩ =
      negations 1 (.isFireable ["not", "not1", "not", "not1"]) ∧
    ((negations 3 (.isFireable ["not", "not"])).unfold
        ⟨.between ["p"] ["p1"], .between ["not"] ["not", "not1"]⟩).removeDoubleNegations =
      negations 1 (.isFireable ["not", "not1", "not", "not1"]) := by
  have hleaf : ∀ text, ListsLeaves (literal text) := fun text => .node (fun _ => nofun) nofun
  have hatom : ListsLeaves (.isFireable ["not", "not"]) :=
    .node (fun _ => List.forall_mem_map.mpr fun _ _ => rfl) (List.forall_mem_map.mpr fun text _ => hleaf text)
  have hnot : ∀ {f : Formula}, f.ListsLeaves → ListsLeaves ⟨.not, [f]⟩ := fun hf =>
    .node (fun hlists => absurd hlists (not_lists_of_not rfl)) (List.forall_mem_singleton.mpr hf)
  have hlists : (negations 3 (.isFireable ["not", "not"])).ListsLeaves := hnot (hnot (hnot hatom))
  have hunfolded : (negations 3 (.isFireable ["not", "not"])).removeDoubleNegations.unfold
      ⟨.between ["p"] ["p1"], .between ["not"] ["not", "not1"]⟩ =
        negations 1 (.isFireable ["not", "not1", "not", "not1"]) := by cbv
  exact ⟨hlists, hunfolded, (removeDoubleNegations_commutes.2 _ _ hlists).symm.trans hunfolded⟩

end Formula
end Formulary
