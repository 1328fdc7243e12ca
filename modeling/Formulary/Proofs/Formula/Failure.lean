import Formulary.Proofs.Formula.Binding
import Formulary.Proofs.Random.Fault

/-! When no formula can be made. The errors do not hang on the random choices: either the depth leaves no room for a
    branching-time formula, or there are no identifiers to build the atoms from, and every formula has an atom. So
    where one formula was made, all others can only meet a fault, and the only faults are that all candidates are
    rejected, that there is no room for the operands of a connective, and that there are no constants. -/

namespace Formulary

/-- What comes of a computation: a result, or else a fault or an error of its own. -/
abbrev Outcome (ε α : Type) := Except (Fault ⊕ ε) α

namespace Generation
variable {α β : Type} {x : Generation α} {f : α → Generation β} {s : Keystream} {a : α}
  {failure : Fault ⊕ GenerationError} {e : GenerationError}

def outcome (x : Generation α) (s : Keystream) : Outcome GenerationError α :=
  match x.run.run s with
  | .error fault => .error (.inl fault)
  | .ok (.error e, _) => .error (.inr e)
  | .ok (.ok a, _) => .ok a

theorem outcome_eq_ok : x.outcome s = .ok a ↔ ∃ t, x.Gives s a t := by
  unfold outcome Gives Draw.Gives
  rcases x.run.run s with _ | ⟨_ | _, t⟩ <;> simp

theorem outcome_bind_eq_error :
    (x >>= f).outcome s = .error failure ↔
      x.outcome s = .error failure ∨ ∃ a t, x.Gives s a t ∧ (f a).outcome t = .error failure := by
  simp only [outcome, Gives, Draw.Gives, ExceptT.run_bind, StateT.run_bind]
  rcases hx : x.run.run s with fault | ⟨e | a, t⟩
  · simp [bind, Except.bind]
  · simp [bind, Except.bind, pure, StateT.pure, Except.pure, StateT.run]
  · simp [bind, Except.bind]

@[simp] theorem outcome_pure : (pure a : Generation α).outcome s = .ok a := rfl

@[simp] theorem outcome_throw : (throw e : Generation α).outcome s = .error failure ↔ .inr e = failure := by
  show Except.error (.inr e) = .error failure ↔ _
  rw [Except.error.injEq]

/-- A draw may meet a fault, and it has no errors of its own. -/
@[simp] theorem outcome_lift {x : Draw α} :
    (liftM x : Generation α).outcome s = .error failure ↔ ∃ fault, x.Meets s fault ∧ .inl fault = failure := by
  have hrun : (liftM x : Generation α).run.run s = (Except.ok <$> x).run s := rfl
  rw [outcome, hrun, StateT.run_map]
  unfold Draw.Meets
  rcases x.run s with fault | ⟨a, t⟩
  · simp
  · simp

end Generation

/-! ### Formulas -/

/-- A formula of a grammar has atoms. -/
theorem Catalog.Derives.exists_atom {c : Catalog} {atom : Formula → Prop} {quantifiers : List Symbol} {scope : Scope}
    {f : Formula} (h : c.Derives atom quantifiers scope f) : ∃ g, atom g := by
  induction h with
  | atom h => exact ⟨_, h⟩
  | not _ ih => exact ih
  | connective _ two _ _ ih =>
    obtain ⟨f, hf⟩ := List.exists_mem_of_length_pos (Nat.lt_of_lt_of_le Nat.two_pos two)
    exact ih f hf
  | quantified _ _ ih => exact ih
  | along _ _ ih => exact ih
  | strongUntil _ _ ih _ => exact ih

namespace Catalog
variable {c : Catalog} {grammar : Grammar} {depth : Nat} {s t : Keystream} {f : Formula} {fault : Fault}
  {failure : Fault ⊕ GenerationError}

/-- A list of operands is asked for that there is no room for. -/
def Overflows (c : Catalog) (fault : Fault) : Prop :=
  fault = .capacity ∧ Fault.mostEntries operandWidth < c.maxArity

/-- What keeps a formula of the grammar from being made. -/
inductive Prevents (c : Catalog) (grammar : Grammar) (depth : Nat) : Fault ⊕ GenerationError → Prop
  | shallow (h : grammar = .ctl ∧ depth < leastBranchingDepth) :
      Prevents c grammar depth (.inr (.depthTooSmall depth leastBranchingDepth))
  | endless (h : grammar = .ctl ∧ leastBranchingDepth ≤ depth) : Prevents c grammar depth (.inl .endless)
  | overflow {fault : Fault} (h : c.Overflows fault) : Prevents c grammar depth (.inl fault)

/-- There is a root to pick, and each has some number of operands, within the arity bound. -/
structure IsTable (c : Catalog) (operators : List Operator) : Prop where
  ne_nil : operators ≠ []
  arities : ∀ op ∈ operators, op.minArity ≤ op.maxArity ∧ op.maxArity ≤ c.maxArity

theorem arities_of_mem_connectives {op : Operator} (h : op ∈ c.connectives) :
    op.minArity ≤ op.maxArity ∧ op.maxArity ≤ c.maxArity := by
  have := c.two_le_maxArity
  simp only [connectives, List.mem_cons, List.not_mem_nil, or_false] at h
  rcases h with rfl | rfl | rfl <;> simp [Operator.not, Operator.connective] <;> omega

theorem isTable_stateOperators : c.IsTable c.stateOperators where
  ne_nil := List.cons_ne_nil _ _
  arities := List.forall_mem_cons.mpr ⟨⟨Nat.le_refl 0, Nat.zero_le _⟩, fun _ => arities_of_mem_connectives⟩

theorem isTable_booleanOperators : c.IsTable c.booleanOperators where
  ne_nil := List.cons_ne_nil _ _
  arities := by
    have one : ∀ symbol, (Operator.fixed symbol 1).minArity ≤ (Operator.fixed symbol 1).maxArity ∧
        (Operator.fixed symbol 1).maxArity ≤ c.maxArity := fun _ =>
      ⟨Nat.le_refl 1, Nat.le_of_succ_le c.two_le_maxArity⟩
    simp only [booleanOperators, List.forall_mem_cons]
    exact ⟨⟨Nat.le_refl 0, Nat.zero_le _⟩, one _, one _, fun _ => arities_of_mem_connectives⟩

theorem isTable_pathOperators : c.IsTable c.pathOperators where
  ne_nil := List.cons_ne_nil _ _
  arities := by
    have := c.two_le_maxArity
    intro op hop
    simp only [pathOperators, List.mem_cons, List.not_mem_nil, or_false] at hop
    rcases hop with rfl | rfl | rfl | rfl <;> simp [Operator.fixed] <;> omega

theorem IsTable.overflows {operators : List Operator} (htable : c.IsTable operators)
    (h : ∃ op ∈ operators, Fault.mostEntries operandWidth < op.maxArity) : c.Overflows .capacity := by
  obtain ⟨op, hop, hroom⟩ := h
  exact ⟨rfl, Nat.lt_of_lt_of_le hroom (htable.arities op hop).2⟩

theorem node_meets {operators : List Operator} {operand : Operator → Draw Formula} (htable : c.IsTable operators)
    (h : (node operators operand).Meets s fault) :
    (fault = .capacity ∧ ∃ op ∈ operators, Fault.mostEntries operandWidth < op.maxArity) ∨
      ∃ op ∈ operators, ∃ t, (operand op).Meets t fault := by
  simp only [node, Draw.meets_bind, Draw.meets_oneOf, Draw.meets_count, Draw.meets_lift, Draw.gives_lift,
    Draw.not_meets_pure, htable.ne_nil, false_and, false_or, and_false, exists_false, or_false] at h
  obtain ⟨op, _, hop, ⟨hcount, -⟩ | ⟨arity, _, harity, hrest⟩⟩ := h
  · exact absurd (htable.arities op (Draw.oneOf_mem hop)).1 (Nat.not_le.mpr hcount)
  · have hle := (Draw.count_bounds harity).2
    rcases hrest with hreserve | ⟨_, _, -, htimes⟩
    · unfold Fault.reserve at hreserve
      split at hreserve
      case isTrue => cases hreserve
      case isFalse hroom =>
        cases hreserve
        exact .inl ⟨rfl, op, Draw.oneOf_mem hop, by omega⟩
    · exact .inr ⟨op, Draw.oneOf_mem hop, Draw.times_meets htimes⟩

/-- An operator along paths has one or two operands, and there is room for those. -/
theorem pathOver_meets {state : Draw Formula} (h : (c.pathOver state).Meets s fault) : ∃ t, state.Meets t fault := by
  rcases node_meets isTable_pathOperators h with ⟨-, op, hop, hroom⟩ | ⟨_, -, hoperand⟩
  · simp only [pathOperators, List.mem_cons, List.not_mem_nil, or_false] at hop
    rcases hop with rfl | rfl | rfl | rfl
    all_goals exact absurd hroom (by decide)
  · exact hoperand

theorem boolean_meets : ∀ {depth : Nat} {s : Keystream}, (c.boolean depth).Meets s fault → c.Overflows fault
  | 0, _, h => absurd h Draw.not_meets_pure
  | 1, _, h => absurd h Draw.not_meets_pure
  | depth + 2, s, h => by
    rcases node_meets isTable_booleanOperators h with ⟨rfl, hroom⟩ | ⟨op, -, t, hoperand⟩
    · exact isTable_booleanOperators.overflows hroom
    · split at hoperand
      · exact boolean_meets hoperand
      · obtain ⟨_, hoperand⟩ := pathOver_meets hoperand
        exact boolean_meets hoperand

theorem state_meets : ∀ {depth : Nat} {s : Keystream}, (c.state depth).Meets s fault → c.Overflows fault
  | 0, _, h => absurd h Draw.not_meets_pure
  | 1, _, h => absurd h Draw.not_meets_pure
  | depth + 2, s, h => by
    rcases node_meets isTable_stateOperators h with ⟨rfl, hroom⟩ | ⟨_, -, t, hoperand⟩
    · exact isTable_stateOperators.overflows hroom
    · exact state_meets hoperand

theorem firstBranching_meets {attempts : Nat} (h : (c.firstBranching depth attempts).Meets s fault) :
    fault = .endless ∨ c.Overflows fault := by
  induction attempts generalizing s with
  | zero => exact .inl (Draw.meets_throw.mp h).symm
  | succ attempts ih =>
    simp only [firstBranching, Draw.meets_bind, Draw.meets_ite, Draw.not_meets_pure] at h
    rcases h with hcandidate | ⟨f, t, -, hrest⟩
    · exact .inr (boolean_meets hcandidate)
    · split at hrest
      · exact hrest.elim
      · exact ih hrest

theorem generate_outcome_error (h : (c.generate grammar depth).outcome s = .error failure) :
    c.Prevents grammar depth failure := by
  cases grammar with
  | ctl =>
    by_cases hdepth : depth < leastBranchingDepth
    · simp only [generate, ctl, if_pos hdepth, Generation.outcome_bind_eq_error, Generation.outcome_throw,
        Generation.gives_throw, false_and, exists_false, or_false] at h
      subst h
      exact .shallow ⟨rfl, hdepth⟩
    · simp only [generate, ctl, if_neg hdepth, Generation.outcome_bind_eq_error, Generation.outcome_pure,
        Generation.outcome_lift, reduceCtorEq, and_false, exists_false, or_false] at h
      obtain ⟨fault, hmeets, rfl⟩ := h
      rcases firstBranching_meets hmeets with rfl | hroom
      · exact .endless ⟨rfl, Nat.le_of_not_lt hdepth⟩
      · exact .overflow hroom
  | reachability =>
    simp only [generate, Generation.outcome_lift, reachability, Draw.meets_bind, Draw.meets_position,
      OfNat.ofNat_ne_zero, Draw.not_meets_pure, false_and, and_false, exists_false, or_false] at h
    obtain ⟨fault, hmeets, rfl⟩ := h
    exact .overflow (state_meets hmeets)

/-- Too small a depth is found before anything is drawn. -/
theorem generate_outcome_of_shallow (h : grammar = .ctl ∧ depth < leastBranchingDepth) :
    (c.generate grammar depth).outcome s = .error (.inr (.depthTooSmall depth leastBranchingDepth)) := by
  obtain ⟨rfl, hdepth⟩ := h
  simp [generate, ctl, hdepth]

theorem generate_gives_depth (h : (c.generate grammar depth).Gives s f t) :
    ¬(grammar = .ctl ∧ depth < leastBranchingDepth) := by
  rintro ⟨rfl, hdepth⟩
  simp [generate, ctl, hdepth] at h

end Catalog

namespace Binder
variable {b : Binder} {kind : AtomKind} {s t : Keystream} {f g : Formula} {failure : Fault ⊕ GenerationError}

/-- The identifiers that atoms of a kind are built from. -/
def pool (b : Binder) : AtomKind → List String
  | .fireability => b.transitions
  | .cardinality => b.places

theorem pool_ne_nil_of_isAtom (h : IsAtom b.known kind f) : b.pool kind ≠ [] := by
  have nonempty : ∀ {l l' : List String}, l ≠ [] → l ⊆ l' → l' ≠ [] := by
    rintro l _ hne hsub rfl
    exact hne (List.subset_nil.mp hsub)
  have count : ∀ {f : Formula}, IsCount b.known f → b.places ≠ [] := by
    rintro _ ⟨ps, hne, hsub, -⟩
    exact nonempty hne hsub
  cases h with
  | fireability hne hsub => exact nonempty hne hsub
  | atMost h => exact count h
  | atLeast _ h => exact count h
  | compare h => exact count h

/-- What keeps an atom of the kind from being made. -/
inductive Prevents (b : Binder) (kind : AtomKind) : Fault ⊕ GenerationError → Prop
  | identifiers (h : b.pool kind = []) : Prevents b kind (.inr (.noCandidates kind))
  | constants (h : b.greatestConstant < b.leastConstant) : Prevents b kind (.inl .emptyRange)

theorem identifiers_outcome_error {maxSize : Nat}
    (h : (identifiers kind (b.pool kind) maxSize).outcome s = .error failure) : b.Prevents kind failure := by
  simp only [identifiers, Generation.outcome_bind_eq_error, Generation.outcome_lift, Draw.not_meets_subset, false_and,
    exists_false, false_or] at h
  obtain ⟨found, _, hfound, h⟩ := h
  cases found with
  | none =>
    obtain rfl := Generation.outcome_throw.mp h
    exact .identifiers (Draw.subset_gives_none (Generation.gives_lift.mp hfound))
  | some => simp at h

theorem tokenCount_outcome_error (h : b.tokenCount.outcome s = .error failure) : b.Prevents .cardinality failure := by
  simp only [tokenCount, Generation.outcome_bind_eq_error, Generation.outcome_pure, reduceCtorEq, and_false,
    exists_false, or_false] at h
  exact identifiers_outcome_error h

theorem integerConstant_outcome_error (h : b.integerConstant.outcome s = .error failure) : b.Prevents kind failure := by
  simp only [integerConstant, Generation.outcome_bind_eq_error, Generation.outcome_pure, Generation.outcome_lift,
    Draw.meets_constant, reduceCtorEq, and_false, exists_false, or_false] at h
  obtain ⟨_, ⟨hlt, rfl⟩, rfl⟩ := h
  exact .constants hlt

theorem atomOf_outcome_error (h : (b.atomOf kind).outcome s = .error failure) : b.Prevents kind failure := by
  cases kind with
  | fireability =>
    simp only [atomOf, fireabilityAtom, Generation.outcome_bind_eq_error, Generation.outcome_pure, reduceCtorEq,
      and_false, exists_false, or_false] at h
    exact identifiers_outcome_error h
  | cardinality =>
    simp only [atomOf, cardinalityAtom, Generation.outcome_bind_eq_error, Generation.outcome_lift, Draw.meets_position,
      OfNat.ofNat_ne_zero, false_and, exists_false, false_or] at h
    obtain ⟨side, _, -, h⟩ := h
    -- one of the two terms cannot be made
    have terms : ∀ {x y : Generation Formula} {s : Keystream},
        (∀ {s}, x.outcome s = .error failure → b.Prevents .cardinality failure) →
        (∀ {s}, y.outcome s = .error failure → b.Prevents .cardinality failure) →
        (do return Formula.leq (← x) (← y) : Generation Formula).outcome s = .error failure →
          b.Prevents .cardinality failure := by
      intro x y s hx hy h
      simp only [Generation.outcome_bind_eq_error, Generation.outcome_pure, reduceCtorEq, and_false, exists_false,
        or_false] at h
      rcases h with h | ⟨_, _, -, h⟩
      · exact hx h
      · exact hy h
    split at h
    · exact terms tokenCount_outcome_error integerConstant_outcome_error h
    · exact terms integerConstant_outcome_error tokenCount_outcome_error h
    · exact terms tokenCount_outcome_error tokenCount_outcome_error h

theorem bindAll_outcome_error {args : List Formula}
    (hargs : ∀ f ∈ args, ∀ {s}, (b.bind kind f).outcome s = .error failure → b.Prevents kind failure)
    (h : (b.bindAll kind args).outcome s = .error failure) : b.Prevents kind failure := by
  induction args generalizing s with
  | nil => simp [bindAll] at h
  | cons f args ih =>
    simp only [bindAll, Generation.outcome_bind_eq_error, Generation.outcome_pure, reduceCtorEq, and_false,
      exists_false, or_false] at h
    rcases h with h | ⟨_, _, -, h⟩
    · exact hargs f List.mem_cons_self h
    · exact ih (fun f hf => hargs f (List.mem_cons_of_mem _ hf)) h

theorem bind_outcome_error (h : (b.bind kind f).outcome s = .error failure) : b.Prevents kind failure := by
  induction f generalizing s with
  | node op args ih =>
    rw [bind] at h
    split at h
    case isTrue => exact atomOf_outcome_error h
    case isFalse =>
      simp only [Generation.outcome_bind_eq_error, Generation.outcome_pure, reduceCtorEq, and_false, exists_false,
        or_false] at h
      exact bindAll_outcome_error ih h

theorem bind_gives_pool {c : Catalog} {grammar : Grammar} (hf : c.Language grammar (· = .atom) f)
    (h : (b.bind kind f).Gives s g t) : b.pool kind ≠ [] := by
  obtain ⟨_, hatom⟩ := (bind_language hf h).derives.exists_atom
  exact pool_ne_nil_of_isAtom hatom

end Binder
end Formulary
