import Formulary.Proofs.Formula.Failure
import Formulary.Proofs.Formula.Normalization
import Formulary.Proofs.Formula.Position

/-! How random formulas are put together. They end in placeholders, each quantifier over paths stands directly above one
    operator along paths, and an operator along paths stands nowhere but there, or at the root of a path formula. How
    deep they are is bounded by the depth that is asked for: a path formula counts for one level together with the
    quantifier above it, so what is drawn may be one level deeper, where a path formula is drawn at the last level.

    A draw follows the depth downward, so it comes to an end. It fails only where a list of operands would be longer
    than any memory has room for. -/

namespace Formulary
namespace Formula
variable {f : Formula} {op : Operator} {args : List Formula} {P : Formula → Prop}

/-! ### Nodes -/

/-- Something holds of every node of the formula. -/
def Everywhere (P : Formula → Prop) (f : Formula) : Prop := ∀ p, ∀ g ∈ f.at? p, P g

theorem everywhere_mk : Everywhere P ⟨op, args⟩ ↔ P ⟨op, args⟩ ∧ ∀ f ∈ args, Everywhere P f := by
  constructor
  · intro h
    refine ⟨h [] _ rfl, fun f hf p g hg => ?_⟩
    obtain ⟨i, hi⟩ := List.mem_iff_getElem?.mp hf
    refine h (i :: p) g ?_
    rw [at?_cons, hi]
    exact hg
  · rintro ⟨hroot, hargs⟩ p g hg
    cases p with
    | nil =>
      cases hg
      exact hroot
    | cons i p =>
      obtain ⟨f, hf, hfg⟩ := Option.bind_eq_some_iff.mp hg
      exact hargs f (List.mem_of_getElem? hf) p g hfg

/-- How a node stands to its operands in a formula whose atoms are still to be bound. -/
structure Fits (f : Formula) : Prop where
  leaf : f.operands = [] → f = .atom
  quantifier : f.operator.isPathQuantifier = true → ∃ g, f.operands = [g] ∧ g.operator.isPathOperator = true
  operand : ∀ g ∈ f.operands, g.operator.isPathOperator = true → f.operator.isPathQuantifier = true

/-- A node with operands, none of which is an operator along paths. -/
theorem fits_of_states (hne : args ≠ []) (hop : op.isPathQuantifier = false)
    (hargs : ∀ f ∈ args, f.operator.isPathOperator = false) : Fits ⟨op, args⟩ where
  leaf h := absurd h hne
  quantifier h := by
    rw [hop] at h
    cases h
  operand f hf h := by
    rw [hargs f hf] at h
    cases h

/-- A quantifier over a path formula. -/
theorem fits_of_path (hop : op.isPathQuantifier = true) (hf : f.operator.isPathOperator = true) : Fits ⟨op, [f]⟩ where
  leaf h := absurd h (List.cons_ne_nil _ _)
  quantifier _ := ⟨f, rfl, hf⟩
  operand _ _ _ := hop

/-- The formula is put together as a state formula is, or as a path formula. -/
structure WellBuilt (scope : Scope) (f : Formula) : Prop where
  arities : f.respectsArities = true
  nodes : f.Everywhere Fits
  root : f.operator.isPathOperator = decide (scope = .path)

theorem wellBuilt_atom : WellBuilt .state .atom where
  arities := rfl
  nodes := everywhere_mk.mpr ⟨⟨fun _ => rfl, nofun, nofun⟩, nofun⟩
  root := rfl

section Nodes
variable {scope scope' : Scope}

/-- A node over formulas that are put together well. -/
theorem wellBuilt_mk (harity : op.acceptsArity args.length = true) (hfits : Fits ⟨op, args⟩)
    (hroot : op.isPathOperator = decide (scope = .path)) (hargs : ∀ f ∈ args, WellBuilt scope' f) :
    WellBuilt scope ⟨op, args⟩ where
  arities := respectsArities_mk.mpr ⟨harity, fun f hf => (hargs f hf).arities⟩
  nodes := everywhere_mk.mpr ⟨hfits, fun f hf => (hargs f hf).nodes⟩
  root := hroot

theorem wellBuilt_of_states (hne : args ≠ []) (harity : op.acceptsArity args.length = true)
    (hop : op.isPathQuantifier = false) (hroot : op.isPathOperator = decide (scope = .path))
    (hargs : ∀ f ∈ args, WellBuilt .state f) : WellBuilt scope ⟨op, args⟩ :=
  wellBuilt_mk harity (fits_of_states hne hop fun f hf => (hargs f hf).root) hroot hargs

end Nodes

end Formula

namespace Catalog
variable {c : Catalog} {quantifiers : List Symbol} {scope : Scope} {f : Formula} {depth : Nat} {s t : Keystream}
open Formula (WellBuilt wellBuilt_mk wellBuilt_of_states fits_of_path)

/-! ### What the grammar derives -/

theorem Open.wellBuilt (hquantifiers : ∀ symbol ∈ quantifiers, symbol ∈ pathQuantifiers)
    (h : c.Open quantifiers scope f) : WellBuilt scope f := by
  induction h with
  | atom h =>
    rw [h]
    exact Formula.wellBuilt_atom
  | not _ ih => exact wellBuilt_of_states (List.cons_ne_nil _ _) rfl rfl rfl (List.forall_mem_singleton.mpr ih)
  | @connective symbol args hsymbol two bound _ ih =>
    have hne : args ≠ [] := List.ne_nil_of_length_pos (Nat.lt_of_lt_of_le Nat.two_pos two)
    have harity : (Operator.connective symbol c.maxArity).acceptsArity args.length = true := by
      simp [Operator.acceptsArity, Operator.connective, two, bound]
    rcases List.mem_pair.mp hsymbol with rfl | rfl
    · exact wellBuilt_of_states hne harity rfl rfl ih
    · exact wellBuilt_of_states hne harity rfl rfl ih
  | quantified hsymbol _ ih =>
    rcases List.mem_pair.mp (hquantifiers _ hsymbol) with rfl | rfl
    · exact wellBuilt_mk rfl (fits_of_path rfl ih.root) rfl (List.forall_mem_singleton.mpr ih)
    · exact wellBuilt_mk rfl (fits_of_path rfl ih.root) rfl (List.forall_mem_singleton.mpr ih)
  | along hsymbol _ ih =>
    simp only [List.mem_cons, List.not_mem_nil, or_false] at hsymbol
    rcases hsymbol with rfl | rfl | rfl
    all_goals exact wellBuilt_of_states (List.cons_ne_nil _ _) rfl rfl rfl (List.forall_mem_singleton.mpr ih)
  | strongUntil _ _ hf hg =>
    exact wellBuilt_of_states (List.cons_ne_nil _ _) rfl rfl rfl
      (List.forall_mem_cons.mpr ⟨hf, List.forall_mem_singleton.mpr hg⟩)

/-- Without quantifiers there are no operators along paths either, in a state formula. -/
theorem Open.isStatic (h : c.Open [] .state f) :
    f.containsPathOperator = false ∧ f.containsPathQuantifier = false := by
  generalize hscope : Scope.state = scope at h
  have node : ∀ {op : Operator} {args : List Formula}, op.isPathOperator = false → op.isPathQuantifier = false →
      (∀ f ∈ args, f.containsPathOperator = false ∧ f.containsPathQuantifier = false) →
      Formula.containsPathOperator ⟨op, args⟩ = false ∧ Formula.containsPathQuantifier ⟨op, args⟩ = false := by
    intro op args hoperator hquantifier hargs
    simp only [Formula.containsPathOperator, Formula.containsPathQuantifier, Formula.hasOperator_mk, hoperator,
      hquantifier, Bool.false_or, List.any_eq_false, Bool.not_eq_true]
    exact ⟨fun f hf => (hargs f hf).1, fun f hf => (hargs f hf).2⟩
  induction h with
  | atom h =>
    rw [h]
    decide
  | not _ ih => exact node rfl rfl (List.forall_mem_singleton.mpr (ih rfl))
  | connective hsymbol _ _ _ ih =>
    rcases List.mem_pair.mp hsymbol with rfl | rfl
    · exact node rfl rfl fun f hf => ih f hf rfl
    · exact node rfl rfl fun f hf => ih f hf rfl
  | quantified hsymbol => exact absurd hsymbol List.not_mem_nil
  | along => cases hscope
  | strongUntil => cases hscope

/-! ### Depth -/

theorem depth_pathOver_le {state : Draw Formula} (hstate : ∀ {s g t}, state.Gives s g t → g.depth ≤ depth)
    (h : (c.pathOver state).Gives s f t) : f.depth ≤ depth + 1 := by
  obtain ⟨op, args⟩ := f
  obtain ⟨-, -, -, hargs⟩ := node_gives h
  refine Formula.depth_le_succ_iff.mpr fun g hg => ?_
  obtain ⟨_, _, hg⟩ := hargs g hg
  exact hstate hg

theorem depth_path_le (h : (c.path depth).Gives s f t) : f.depth ≤ max 2 (depth + 1) := by
  have hle : f.depth ≤ depth - 1 + 1 + 1 := depth_pathOver_le depth_boolean_le h
  omega

theorem depth_state_le : ∀ {depth : Nat} {s t : Keystream} {f : Formula}, (c.state depth).Gives s f t →
    f.depth ≤ max 1 depth
  | 0, _, _, _, h => by
    obtain ⟨rfl, -⟩ := Draw.gives_pure.mp h
    decide
  | 1, _, _, _, h => by
    obtain ⟨rfl, -⟩ := Draw.gives_pure.mp h
    decide
  | depth + 2, _, _, ⟨op, args⟩, h => by
    obtain ⟨-, -, -, hargs⟩ := node_gives h
    have hle : Formula.depth ⟨op, args⟩ ≤ depth + 1 + 1 := by
      refine Formula.depth_le_succ_iff.mpr fun g hg => ?_
      obtain ⟨_, _, hg⟩ := hargs g hg
      have := depth_state_le hg
      omega
    omega

/-- At the last level and below nothing but a placeholder is drawn. -/
theorem boolean_eq_pure (h : depth ≤ 1) : c.boolean depth = pure .atom := by
  obtain rfl | rfl := Nat.le_one_iff_eq_zero_or_eq_one.mp h <;> rfl

theorem state_eq_pure (h : depth ≤ 1) : c.state depth = pure .atom := by
  obtain rfl | rfl := Nat.le_one_iff_eq_zero_or_eq_one.mp h <;> rfl

theorem depth_ctl_le (h : (c.ctl depth).Gives s f t) : f.depth ≤ depth + 1 := by
  obtain ⟨candidate, _, hcandidate, -, rfl⟩ := ctl_gives h
  exact (Formula.depth_removeDoubleNegations_le candidate).trans (depth_boolean_le hcandidate)

theorem depth_reachability_le (h : (c.reachability depth).Gives s f t) : f.depth ≤ max 1 depth + 2 := by
  simp only [reachability, Draw.gives_bind, Draw.gives_pure] at h
  obtain ⟨state, _, hstate, side, _, -, rfl, -⟩ := h
  have hle := depth_state_le hstate
  refine (Formula.depth_removeDoubleNegations_le _).trans ?_
  have below : ∀ {op inner : Operator}, Formula.depth ⟨op, [⟨inner, [state]⟩]⟩ ≤ max 1 depth + 2 := by
    intro op inner
    refine Formula.depth_le_succ_iff.mpr (List.forall_mem_singleton.mpr ?_)
    exact Formula.depth_le_succ_iff.mpr (List.forall_mem_singleton.mpr hle)
  split
  · exact below
  · exact below

/-! ### Draws come to an end -/

/-- There is room for the operands of each connective that may be drawn. None is drawn at the last level. -/
def HasRoom (c : Catalog) (depth : Nat) : Prop := c.maxArity ≤ Fault.mostEntries operandWidth ∨ depth ≤ 1

/-- From every keystream the draw gives a formula with the property, unless a list of operands is asked for that there
    is no room for. -/
def Yields (c : Catalog) (depth : Nat) (x : Draw Formula) (P : Formula → Prop) : Prop :=
  ∀ s, (∃ f t, x.Gives s f t ∧ P f) ∨ ¬c.HasRoom depth ∧ x.Meets s .capacity

theorem yields_of_meets {x : Draw Formula} {P : Formula → Prop}
    (hmeets : ∀ {s fault}, x.Meets s fault → fault = .capacity ∧ ¬c.HasRoom depth)
    (hgives : ∀ {s f t}, x.Gives s f t → P f) : c.Yields depth x P := by
  intro s
  cases hrun : x.run s with
  | ok result =>
    obtain ⟨f, t⟩ := result
    exact .inl ⟨f, t, hrun, hgives hrun⟩
  | error fault =>
    obtain ⟨rfl, hroom⟩ := hmeets hrun
    exact .inr ⟨hroom, hrun⟩

/-- A draw that only an overflow stops, and that is a placeholder at the last level, is stopped where there is no room. -/
theorem meets_capacity {x : Draw Formula} {fault : Fault} (h : x.Meets s fault) (hoverflows : c.Overflows fault)
    (hlast : depth ≤ 1 → x = pure .atom) : fault = .capacity ∧ ¬c.HasRoom depth := by
  refine ⟨hoverflows.1, not_or.mpr ⟨Nat.not_le.mpr hoverflows.2, fun hdepth => ?_⟩⟩
  rw [hlast hdepth] at h
  exact Draw.not_meets_pure h

theorem path_meets_capacity {fault : Fault} (h : (c.path depth).Meets s fault) :
    fault = .capacity ∧ ¬c.HasRoom (depth - 1) := by
  obtain ⟨_, hstate⟩ := pathOver_meets h
  exact meets_capacity hstate (boolean_meets hstate) boolean_eq_pure

/-- Where there is room for the operands, a state formula, a path formula and a formula about a single state are drawn
    from every keystream, each put together as it should be and within its bound on the depth. Only connectives can lack
    the room; those of a path formula are one level further down. -/
theorem draws_wellBuilt (c : Catalog) (depth : Nat) :
    c.Yields depth (c.boolean depth) (fun f =>
      WellBuilt .state f ∧ f.depth ≤ depth + 1 ∧ (depth ≤ 1 → f.depth = 1)) ∧
    c.Yields (depth - 1) (c.path depth) (fun f => WellBuilt .path f ∧ f.depth ≤ max 2 (depth + 1)) ∧
    c.Yields depth (c.state depth) (fun f =>
      WellBuilt .state f ∧ f.depth ≤ max 1 depth ∧ f.containsPathOperator = false ∧ f.containsPathQuantifier = false) ∧
    (∀ s f t, (c.ctl depth).Gives s f t → f.depth ≤ depth + 1) ∧
    (∀ s f t, (c.reachability depth).Gives s f t → f.depth ≤ max 1 depth + 2) := by
  refine ⟨yields_of_meets (fun h => meets_capacity h (boolean_meets h) boolean_eq_pure) fun h => ?_,
    yields_of_meets path_meets_capacity fun h => ?_,
    yields_of_meets (fun h => meets_capacity h (state_meets h) state_eq_pure) fun h => ?_,
    fun _ _ _ => depth_ctl_le, fun _ _ _ => depth_reachability_le⟩
  · refine ⟨(boolean_derives h).wellBuilt fun _ => id, depth_boolean_le h, fun hdepth => ?_⟩
    rw [boolean_eq_pure hdepth] at h
    obtain ⟨rfl, -⟩ := Draw.gives_pure.mp h
    decide
  · have hpath : c.Open pathQuantifiers .path _ := pathOver_derives boolean_derives h
    exact ⟨hpath.wellBuilt fun _ => id, depth_path_le h⟩
  · have hstatic := state_derives h
    exact ⟨hstatic.wellBuilt (fun _ hsymbol => absurd hsymbol List.not_mem_nil), depth_state_le h, hstatic.isStatic⟩

/-- Under the smallest catalog everything is drawn, and a statement about reachable states can reach its bound. -/
theorem ofBound_draws_wellBuilt :
    (∃ f t, ((Catalog.ofBound 2).boolean 4).Gives (.ofSeed 13) f t ∧ WellBuilt .state f ∧ f.depth ≤ 5) ∧
    (∃ t, ((Catalog.ofBound 2).reachability 2).Gives (.ofSeed 1) (possibly ⟨.connective .or 2, [.atom, .atom]⟩) t) ∧
    (possibly ⟨.connective .or 2, [.atom, .atom]⟩).depth = max 1 2 + 2 := by
  have hroom : (Catalog.ofBound 2).HasRoom 4 := .inl (by decide)
  obtain ⟨hboolean, -⟩ := draws_wellBuilt (Catalog.ofBound 2) 4
  obtain ⟨-, -, -, -, hreachability⟩ := draws_wellBuilt (Catalog.ofBound 2) 2
  have hdrawn : ∃ t, ((Catalog.ofBound 2).reachability 2).Gives (.ofSeed 1)
      (possibly ⟨.connective .or 2, [.atom, .atom]⟩) t := ⟨_, by unfold Draw.Gives; cbv⟩
  refine ⟨?_, hdrawn, ?_⟩
  · obtain ⟨f, t, hf, hbuilt, hdepth, -⟩ | ⟨hnone, -⟩ := hboolean (.ofSeed 13)
    · exact ⟨f, t, hf, hbuilt, hdepth⟩
    · exact absurd hroom hnone
  · obtain ⟨t, hdrawn⟩ := hdrawn
    exact Nat.le_antisymm (hreachability _ _ t hdrawn) (by decide)

/-- Where connectives may have as many operands as a machine word can count, a draw asks for more of them than there is
    room for. -/
theorem ofBound_state_overflows :
    ¬∃ f t, ((Catalog.ofBound unboundedArity).state 2).Gives (.ofSeed 1) f t := by
  have hmeets : ((Catalog.ofBound unboundedArity).state 2).Meets (.ofSeed 1) .capacity := by
    unfold Draw.Meets
    decide +kernel
  rintro ⟨f, t, hgives⟩
  cases hmeets.symm.trans hgives

end Catalog
end Formulary
