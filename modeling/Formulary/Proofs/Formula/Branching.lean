import Formulary.Proofs.Formula.Generation

/-! Branching-time formulas. What is drawn is accepted before its double negations are removed, and an even number
    of negations can hide a linear-time formula from the test. Up to depth three there is no room for such a chain;
    from depth four on some keystreams lead to a linear-time formula under every catalog. -/

namespace Formulary
namespace Formula
variable {c : Catalog} {f : Formula}

/-! ### Tests that negations do not matter for -/

theorem isPathOperator_of_not {op : Operator} (h : op.name = Symbol.not.name) : op.isPathOperator = false := by
  rw [Operator.isPathOperator, Operator.symbol?, h, Symbol.ofName?_name]
  rfl

theorem isPathQuantifier_of_not {op : Operator} (h : op.name = Symbol.not.name) : op.isPathQuantifier = false := by
  rw [Operator.isPathQuantifier, Operator.symbol?, h, Symbol.ofName?_name]
  rfl

theorem isInteresting_removeDoubleNegations (f : Formula) :
    f.removeDoubleNegations.isInteresting = f.isInteresting :=
  hasOperator_removeDoubleNegations (fun _ => isPathOperator_of_not) f

theorem containsPathQuantifier_removeDoubleNegations (f : Formula) :
    f.removeDoubleNegations.containsPathQuantifier = f.containsPathQuantifier :=
  hasOperator_removeDoubleNegations (fun _ => isPathQuantifier_of_not) f

theorem isLinearTime_of_name_ne (h : f.name ≠ Symbol.allPaths.name) : f.isLinearTime = false := by
  rw [isLinearTime, decide_eq_false h, Bool.false_and]

/-- A formula that is no negation keeps its root, and what is below it keeps its quantifiers. -/
theorem isLinearTime_removeDoubleNegations_of_ne (h : f.name ≠ Symbol.not.name) :
    f.removeDoubleNegations.isLinearTime = f.isLinearTime := by
  obtain ⟨op, args⟩ := f
  rw [removeDoubleNegations_of_ne args h]
  simp only [isLinearTime, name, List.any_map]
  congr 2
  exact any_congr_mem fun f _ => containsPathQuantifier_removeDoubleNegations f

theorem name_removeDoubleNegations_of_ne (h : f.name ≠ Symbol.not.name) : f.removeDoubleNegations.name = f.name := by
  obtain ⟨op, args⟩ := f
  rw [removeDoubleNegations_of_ne args h]
  rfl

theorem not_name_of_isLinearTime (h : f.isLinearTime = true) : f.name ≠ Symbol.not.name := by
  simp only [isLinearTime, Bool.and_eq_true, decide_eq_true_eq] at h
  rw [h.1]
  decide

/-! ### Linear time behind negations -/

/-- A state formula is a chain of negations over a state formula that is none. -/
theorem exists_negations (h : c.Open Catalog.pathQuantifiers .state f) :
    ∃ n g, f = negations n g ∧ g.name ≠ Symbol.not.name := by
  generalize hscope : Scope.state = scope at h
  induction h with
  | atom h => exact ⟨0, _, rfl, by rw [h]; decide⟩
  | not _ ih =>
    obtain ⟨n, g, rfl, hg⟩ := ih rfl
    exact ⟨n + 1, g, rfl, hg⟩
  | connective hsymbol =>
    exact ⟨0, _, rfl, fun hname => Catalog.ne_not_of_mem_connectives hsymbol (Symbol.name_injective hname)⟩
  | quantified hsymbol =>
    exact ⟨0, _, rfl, fun hname => Catalog.ne_not_of_mem_pathQuantifiers hsymbol (Symbol.name_injective hname)⟩
  | along => cases hscope
  | strongUntil => cases hscope

/-- Without its double negations a state formula is a linear-time one exactly if it is such a one below an even
    number of negations. -/
theorem isLinearTime_removeDoubleNegations_iff (h : c.Open Catalog.pathQuantifiers .state f) :
    f.removeDoubleNegations.isLinearTime = true ↔ ∃ n g, f = negations (2 * n) g ∧ g.isLinearTime = true := by
  have even : ∀ {n g}, g.name ≠ Symbol.not.name →
      (negations (2 * n) g).removeDoubleNegations.isLinearTime = g.isLinearTime := fun {n g} hg => by
    rw [removeDoubleNegations_negations (by rwa [name_removeDoubleNegations_of_ne hg]), Nat.mul_mod_right, negations,
      isLinearTime_removeDoubleNegations_of_ne hg]
  constructor
  · intro hlinear
    obtain ⟨n, g, rfl, hg⟩ := exists_negations h
    rcases Nat.mod_two_eq_zero_or_one n with hn | hn
    · obtain ⟨k, rfl⟩ : ∃ k, n = 2 * k := ⟨n / 2, by omega⟩
      exact ⟨k, g, rfl, even hg ▸ hlinear⟩
    · -- Below an odd number of negations one is left, and the root is no quantifier.
      rw [removeDoubleNegations_negations (by rwa [name_removeDoubleNegations_of_ne hg]), hn] at hlinear
      have hroot : (negations 1 g.removeDoubleNegations).name ≠ Symbol.allPaths.name :=
        fun hname => absurd (Symbol.name_injective hname) (a := Symbol.not = .allPaths) (by decide)
      rw [isLinearTime_of_name_ne hroot] at hlinear
      cases hlinear
  · rintro ⟨n, g, rfl, hg⟩
    rw [even (not_name_of_isLinearTime hg)]
    exact hg

/-! ### Depth -/

theorem depth_mk {op : Operator} {args : List Formula} : depth ⟨op, args⟩ = 1 + (args.map depth).foldr max 0 :=
  fold_mk ..

theorem foldr_max_le {l : List Nat} {n : Nat} : l.foldr max 0 ≤ n ↔ ∀ k ∈ l, k ≤ n := by
  induction l with
  | nil => simp
  | cons k l ih => rw [List.foldr_cons, Nat.max_le, ih, List.forall_mem_cons]

theorem depth_le_succ_iff {op : Operator} {args : List Formula} {n : Nat} :
    depth ⟨op, args⟩ ≤ n + 1 ↔ ∀ f ∈ args, f.depth ≤ n := by
  rw [depth_mk, Nat.add_comm, Nat.add_le_add_iff_right, foldr_max_le, List.forall_mem_map]

theorem depth_pos (f : Formula) : 0 < f.depth := by
  obtain ⟨op, args⟩ := f
  rw [depth_mk]
  omega

theorem depth_lt (op : Operator) {args : List Formula} (hf : f ∈ args) : f.depth < depth ⟨op, args⟩ := by
  have hpos := depth_pos ⟨op, args⟩
  have hle : depth ⟨op, args⟩ ≤ (depth ⟨op, args⟩ - 1) + 1 := by omega
  have := depth_le_succ_iff.mp hle f hf
  omega

theorem le_depth_negations (f : Formula) : ∀ n : Nat, n + f.depth ≤ (negations n f).depth
  | 0 => by simp [negations]
  | n + 1 => by
    have ih := le_depth_negations f n
    have := depth_lt .not (List.mem_singleton_self (negations n f))
    rw [negations]
    omega

theorem two_le_depth_of_path (h : c.Open Catalog.pathQuantifiers .path f) : 2 ≤ f.depth := by
  cases h with
  | @along symbol g =>
    have := depth_pos g
    have := depth_lt (.fixed symbol 1) (List.mem_singleton_self g)
    omega
  | @strongUntil g g' =>
    have := depth_pos g
    have := depth_lt (.fixed .strongUntil 2) (List.mem_cons_self : g ∈ [g, g'])
    omega

/-- Below the root of a linear-time formula stands a path formula, and a state formula below that. -/
theorem three_le_depth_of_isLinearTime (h : c.Open Catalog.pathQuantifiers .state f) (hf : f.isLinearTime = true) :
    3 ≤ f.depth := by
  have hname : f.name = Symbol.allPaths.name := by
    simp only [isLinearTime, Bool.and_eq_true, decide_eq_true_eq] at hf
    exact hf.1
  cases h with
  | atom h =>
    rw [h] at hname
    exact absurd hname (by decide)
  | not => exact absurd (Symbol.name_injective hname) (a := Symbol.not = .allPaths) (by decide)
  | connective hsymbol =>
    rw [Symbol.name_injective hname] at hsymbol
    exact absurd hsymbol (by decide)
  | @quantified symbol g _ hg =>
    have := two_le_depth_of_path hg
    have := depth_lt (.fixed symbol 1) (List.mem_singleton_self g)
    omega

/-- What stands below a chain of negations is a state formula. -/
theorem open_of_negations : ∀ {n : Nat}, c.Open Catalog.pathQuantifiers .state (negations n f) →
    c.Open Catalog.pathQuantifiers .state f
  | 0, h => h
  | _ + 1, h => open_of_negations (h.of_not (fun _ => Catalog.ne_not_of_mem_pathQuantifiers) rfl)

end Formula

namespace Catalog
variable {c : Catalog} {f : Formula} {s t : Keystream}

theorem depth_boolean_le : ∀ {depth : Nat} {s t : Keystream} {f : Formula}, (c.boolean depth).Gives s f t →
    f.depth ≤ depth + 1
  | 0, s, t, f, h => by
    obtain ⟨rfl, -⟩ := Draw.gives_pure.mp h
    decide
  | 1, s, t, f, h => by
    obtain ⟨rfl, -⟩ := Draw.gives_pure.mp h
    decide
  | depth + 2, s, t, ⟨op, args⟩, h => by
    obtain ⟨-, -, -, hargs⟩ := node_gives h
    refine Formula.depth_le_succ_iff.mpr fun g hg => ?_
    obtain ⟨_, _, hg⟩ := hargs g hg
    rw [Draw.gives_ite] at hg
    split at hg
    · exact depth_boolean_le hg
    · obtain ⟨op', args'⟩ := g
      obtain ⟨-, -, -, hargs'⟩ := node_gives hg
      refine Formula.depth_le_succ_iff.mpr fun g hg => ?_
      obtain ⟨_, _, hg⟩ := hargs' g hg
      exact depth_boolean_le hg

/-! ### Rejection -/

theorem firstBranching_gives {depth : Nat} : ∀ {attempts : Nat} {s : Keystream},
    (c.firstBranching depth attempts).Gives s f t → isBranching f = true ∧ ∃ s', (c.boolean depth).Gives s' f t
  | 0, s, h => (Draw.gives_throw h).elim
  | attempts + 1, s, h => by
    simp only [firstBranching, Draw.gives_bind, Draw.gives_ite] at h
    obtain ⟨g, u, hg, h⟩ := h
    split at h
    case isTrue hbranching =>
      obtain ⟨rfl, rfl⟩ := Draw.gives_pure.mp h
      exact ⟨hbranching, s, hg⟩
    case isFalse => exact firstBranching_gives h

/-- A branching-time formula is an accepted candidate without its double negations. -/
theorem ctl_gives {depth : Nat} (h : (c.ctl depth).Gives s f t) :
    ∃ candidate s', (c.boolean depth).Gives s' candidate t ∧ isBranching candidate = true ∧
      f = candidate.removeDoubleNegations := by
  simp only [ctl] at h
  split at h
  case isTrue =>
    obtain ⟨_, _, h, -⟩ := Generation.gives_bind.mp h
    exact (Generation.gives_throw h).elim
  case isFalse =>
    simp only [Generation.gives_bind, Generation.gives_lift, Generation.gives_pure] at h
    obtain ⟨candidate, _, hc, rfl, rfl⟩ := h
    obtain ⟨hbranching, s', hs'⟩ := firstBranching_gives hc
    exact ⟨candidate, s', hs', hbranching, rfl⟩

/-- When the first candidate is accepted, it is the formula, without its double negations. -/
theorem ctl_gives_of_boolean {depth : Nat} (hdepth : leastBranchingDepth ≤ depth) (h : (c.boolean depth).Gives s f t)
    (hbranching : isBranching f = true) : (c.ctl depth).Gives s f.removeDoubleNegations t := by
  rw [ctl, if_neg (Nat.not_lt.mpr hdepth)]
  simp only [Generation.gives_bind, Generation.gives_lift, Generation.gives_pure]
  refine ⟨f, t, ?_, rfl, rfl⟩
  rw [show attemptLimit = (attemptLimit - 1) + 1 from rfl, firstBranching, Draw.gives_bind]
  refine ⟨f, t, h, ?_⟩
  rw [if_pos hbranching]
  exact Draw.gives_pure.mpr ⟨rfl, rfl⟩

/-! ### Keystreams that hide a linear-time formula -/

section Hidden
variable {k0 k1 : Row} {block : UInt64} {words : List UInt32} {g : Formula}

/-- A root with one operand takes a word, and so does the number of its operands. -/
theorem node_gives_unary (operators : List Operator) {operand : Operator → Draw Formula} {op : Operator} {i : Nat}
    {word : UInt32} (hword : (Draw.position operators.length).Gives ⟨k0, k1, block, word :: 0 :: words⟩ i
      ⟨k0, k1, block, 0 :: words⟩) (hop : operators[i]? = some op) (hmin : op.minArity = 1) (hmax : op.maxArity = 1)
    (hg : (operand op).Gives ⟨k0, k1, block, words⟩ g t) :
    (node operators operand).Gives ⟨k0, k1, block, word :: 0 :: words⟩ ⟨op, [g]⟩ t := by
  have hone : (Draw.count op.minArity op.maxArity).Gives ⟨k0, k1, block, 0 :: words⟩ 1 ⟨k0, k1, block, words⟩ := by
    rw [hmin, hmax]
    exact Draw.count_gives (by decide)
  have hargs : (Draw.times 1 (operand op)).Gives ⟨k0, k1, block, words⟩ [g] t := by
    simp only [Draw.times, Draw.gives_bind, Draw.gives_pure]
    exact ⟨g, t, hg, [], t, ⟨rfl, rfl⟩, rfl, rfl⟩
  simp only [node, Draw.oneOf, Draw.gives_bind, Draw.gives_pure, Draw.gives_lift, Fault.entry_eq_ok,
    Fault.reserve_eq_ok]
  exact ⟨op, _, ⟨i, _, hword, hop, rfl⟩, 1, _, hone, (), _, ⟨by decide, rfl⟩, [g], t, hargs, rfl, rfl⟩

theorem boolean_gives_not {depth : Nat} (hg : (c.boolean (depth + 1)).Gives ⟨k0, k1, block, words⟩ g t) :
    (c.boolean (depth + 2)).Gives ⟨k0, k1, block, 0x90000000 :: 0 :: words⟩ ⟨.not, [g]⟩ t := by
  have hroot : (Draw.position 6).Gives ⟨k0, k1, block, 0x90000000 :: 0 :: words⟩ 3 ⟨k0, k1, block, 0 :: words⟩ :=
    Draw.position_gives (by decide) (by decide) (by decide)
  exact node_gives_unary c.booleanOperators hroot rfl rfl rfl hg

theorem boolean_gives_always {depth : Nat} (hg : (c.boolean depth).Gives ⟨k0, k1, block, words⟩ g t) :
    (c.boolean (depth + 2)).Gives ⟨k0, k1, block, 0x30000000 :: 0 :: 0 :: 0 :: words⟩ (always g) t := by
  have hroot : (Draw.position 6).Gives ⟨k0, k1, block, 0x30000000 :: 0 :: 0 :: 0 :: words⟩ 1
      ⟨k0, k1, block, 0 :: 0 :: 0 :: words⟩ := Draw.position_gives (by decide) (by decide) (by decide)
  have hpath : (Draw.position 4).Gives ⟨k0, k1, block, 0 :: 0 :: words⟩ 0 ⟨k0, k1, block, 0 :: words⟩ :=
    Draw.position_gives (by decide) (by decide) (by decide)
  exact node_gives_unary c.booleanOperators hroot rfl rfl rfl
    (node_gives_unary c.pathOperators hpath rfl rfl rfl hg)

theorem boolean_gives_atom (c : Catalog) (k0 k1 : Row) (block : UInt64) :
    ∀ depth : Nat, ∃ t, (c.boolean depth).Gives ⟨k0, k1, block, [0, 0]⟩ .atom t
  | 0 => ⟨_, rfl⟩
  | 1 => ⟨_, rfl⟩
  | depth + 2 => by
    refine ⟨⟨k0, k1, block, []⟩, ?_⟩
    have hroot : (Draw.position 6).Gives ⟨k0, k1, block, [0, 0]⟩ 0 ⟨k0, k1, block, [0]⟩ :=
      Draw.position_gives (by decide) (by decide) (by decide)
    simp only [boolean, node, Draw.oneOf, Draw.gives_bind, Draw.gives_pure, Draw.gives_lift, Fault.entry_eq_ok,
      Fault.reserve_eq_ok]
    exact ⟨.atom, _, ⟨0, _, hroot, rfl, rfl⟩, 0, _, Draw.count_gives (by decide), (), _, ⟨by decide, rfl⟩, [], _, rfl,
      rfl, rfl⟩

/-- From depth four on, two negations can be drawn above a linear-time formula. -/
theorem ctl_gives_always (c : Catalog) {depth : Nat} (h : 4 ≤ depth) :
    ∃ s t, (c.ctl depth).Gives s (always .atom) t := by
  obtain ⟨d, rfl⟩ : ∃ d, depth = d + 4 := ⟨depth - 4, by omega⟩
  obtain ⟨t, hatom⟩ := boolean_gives_atom c ⟨0, 0, 0, 0⟩ ⟨0, 0, 0, 0⟩ 0 d
  have hdraw := boolean_gives_not (boolean_gives_not (boolean_gives_always hatom))
  have hleast : leastBranchingDepth ≤ d + 4 := by
    rw [leastBranchingDepth]
    omega
  exact ⟨_, t, ctl_gives_of_boolean hleast hdraw (by decide)⟩

end Hidden

/-! ### Which formulas are drawn -/

theorem isBranching_eq_true : isBranching f = true ↔ f.isInteresting = true ∧ f.isLinearTime = false := by
  rw [isBranching, Bool.and_eq_true, Bool.not_eq_true']

/-- An accepted candidate hides a linear-time formula exactly behind an even number of negations, and not none. -/
theorem isLinearTime_of_isBranching_iff (h : c.Open pathQuantifiers .state f) (hbranching : isBranching f = true) :
    f.removeDoubleNegations.isLinearTime = true ↔
      ∃ n g, f = Formula.negations (2 * (n + 1)) g ∧ g.isLinearTime = true := by
  rw [Formula.isLinearTime_removeDoubleNegations_iff h]
  constructor
  · rintro ⟨n, g, hf, hg⟩
    cases n with
    | zero =>
      have hlinear := (isBranching_eq_true.mp hbranching).2
      rw [hf, Nat.mul_zero, Formula.negations, hg] at hlinear
      cases hlinear
    | succ n => exact ⟨n, g, hf, hg⟩
  · rintro ⟨n, g, hf, hg⟩
    exact ⟨n + 1, g, hf, hg⟩

/-- Two negations above a linear-time formula are deeper than what is drawn at depth three. -/
theorem isLinearTime_of_depth_lt {depth : Nat} (h : (c.boolean depth).Gives s f t) (hbranching : isBranching f = true)
    (hdepth : depth < 4) : f.removeDoubleNegations.isLinearTime = false := by
  have hopen := boolean_derives h
  refine Bool.eq_false_iff.mpr fun hlinear => ?_
  obtain ⟨n, g, rfl, hg⟩ := (isLinearTime_of_isBranching_iff hopen hbranching).mp hlinear
  have hmost := depth_boolean_le h
  have hleast := Formula.le_depth_negations g (2 * (n + 1))
  have hthree := Formula.three_le_depth_of_isLinearTime (Formula.open_of_negations hopen) hg
  omega

/-- A branching-time formula uses an operator along paths. It is in the linear-time fragment exactly if the accepted
    candidate is a linear-time formula below an even number of negations, and not none. No keystream leads there at a
    depth below four, and at any other depth one does. -/
theorem ctl_isLinearTime_iff (c : Catalog) (depth : Nat) :
    (∀ s f t, (c.ctl depth).Gives s f t → f.isInteresting = true ∧
      ∃ candidate s', (c.boolean depth).Gives s' candidate t ∧ f = candidate.removeDoubleNegations ∧
        (f.isLinearTime = true ↔ ∃ n g, candidate = Formula.negations (2 * (n + 1)) g ∧ g.isLinearTime = true)) ∧
      ((∀ s f t, (c.ctl depth).Gives s f t → f.isLinearTime = false) ↔ depth < 4) := by
  refine ⟨fun s f t h => ?_, fun hnone => ?_, fun hdepth s f t h => ?_⟩
  · obtain ⟨candidate, s', hc, hbranching, rfl⟩ := ctl_gives h
    refine ⟨?_, candidate, s', hc, rfl, isLinearTime_of_isBranching_iff (boolean_derives hc) hbranching⟩
    rw [Formula.isInteresting_removeDoubleNegations]
    exact (isBranching_eq_true.mp hbranching).1
  · rcases Nat.lt_or_ge depth 4 with hlt | hge
    · exact hlt
    · obtain ⟨s, t, h⟩ := ctl_gives_always c hge
      exact absurd (hnone s _ t h) (by decide)
  · obtain ⟨candidate, s', hc, hbranching, rfl⟩ := ctl_gives h
    exact isLinearTime_of_depth_lt hc hbranching hdepth

/-- A keystream of a seed that leads to a linear-time formula. -/
theorem ctl_of_seed_isLinearTime :
    ∃ t, ((Catalog.ofBound 2).ctl 4).Gives (.ofSeed 13) (always .atom) t ∧ (always .atom).isLinearTime = true := by
  have hrun : ∃ t, ((Catalog.ofBound 2).ctl 4).run.run (.ofSeed 13) = .ok (.ok (always .atom), t) := ⟨_, by cbv⟩
  obtain ⟨t, hrun⟩ := hrun
  exact ⟨t, hrun, by decide⟩

end Catalog
end Formulary
