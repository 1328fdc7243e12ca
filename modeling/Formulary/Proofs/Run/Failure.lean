import Formulary.Proofs.Run.Course
import Formulary.Proofs.Run.Unfiltered

/-! What the work on a task fails of. A selection draws a candidate before it asks the oracle, and whatever the oracle
    answers, it only fails where a candidate cannot be made. That does not hang on the random choices: the first
    candidate fails of a depth that is too small or of missing identifiers just when every other one does. -/

namespace Formulary
namespace Workshop
variable {σ : Type} {w : Workshop σ} {subject : Subject} {category : Category} {binder : Binder} {m : Model}
  {twin : Option Model} {task : Task} {count left got : Nat} {s t : Session σ} {stream : Keystream}
  {failure : Fault ⊕ GenerationError} {fault : Fault} {e : GenerationError}

/-! ### Candidates -/

theorem candidate_outcome_error (h : (w.candidate category binder).outcome stream = .error failure) :
    w.catalog.Prevents category.grammar w.settings.generation.formulaDepth.toNat failure ∨
      binder.Prevents category.atomKind failure := by
  rcases Generation.outcome_bind_eq_error.mp h with hgenerate | ⟨_, _, -, hbind⟩
  · exact .inl (Catalog.generate_outcome_error hgenerate)
  · exact .inr (Binder.bind_outcome_error hbind)

theorem candidate_outcome_of_generate
    (h : (w.catalog.generate category.grammar w.settings.generation.formulaDepth.toNat).outcome stream =
      .error failure) : (w.candidate category binder).outcome stream = .error failure :=
  Generation.outcome_bind_eq_error.mpr (.inl h)

/-- Every formula has an atom, and there is none without identifiers. -/
theorem candidate_outcome_of_pool {f : Formula} (hconstants : binder.leastConstant ≤ binder.greatestConstant)
    (hpool : binder.pool category.atomKind = [])
    (hf : (w.catalog.generate category.grammar w.settings.generation.formulaDepth.toNat).outcome stream = .ok f) :
    (w.candidate category binder).outcome stream = .error (.inr (.noCandidates category.atomKind)) := by
  obtain ⟨stream', hgives⟩ := Generation.outcome_eq_ok.mp hf
  refine Generation.outcome_bind_eq_error.mpr (.inr ⟨f, stream', hgives, ?_⟩)
  cases hbind : (binder.bind category.atomKind f).outcome stream' with
  | ok g =>
    obtain ⟨_, hg⟩ := Generation.outcome_eq_ok.mp hbind
    exact absurd hpool (Binder.bind_gives_pool (Catalog.generate_language hgives) hg)
  | error failure =>
    cases Binder.bind_outcome_error hbind with
    | identifiers => rfl
    | constants hlt => exact absurd hconstants (Int.not_le.mpr hlt)

theorem batch_outcome_of_candidate {size : Nat} (hsize : 0 < size)
    (h : (w.candidate category binder).outcome stream = .error failure) :
    (w.batch category binder size).outcome stream = .error failure := by
  obtain ⟨size, rfl⟩ := Nat.exists_eq_add_one_of_ne_zero (Nat.ne_of_gt hsize)
  exact Generation.outcome_bind_eq_error.mpr (.inl h)

/-! ### Selections -/

/-- While there are no more formulas than wanted, a round does what can be done, and it takes no more than are
    missing. So nothing fails but the candidates of some round. -/
theorem rounds_outcome_error (hgot : got ≤ count)
    (h : Work.outcome (w.rounds subject category binder count left got) s = .error failure) :
    ∃ stream, (w.candidate category binder).outcome stream = .error failure := by
  induction left generalizing got s with
  | zero => cases h
  | succ left ih =>
    have hdifference : Fault.difference count got = .ok (count - got) := Fault.difference_eq_ok.mpr ⟨hgot, rfl⟩
    rw [rounds, Work.outcome_bind_of_gives (Work.gives_check.mpr ⟨hdifference, rfl⟩)] at h
    split at h
    case isTrue => cases h
    case isFalse hmissing =>
      simp only [Work.outcome_bind_eq_error, Work.outcome_generate, Work.outcome_check, Work.outcome_consult_ne,
        Work.outcome_pure, Work.gives_lift, Work.does_consult, Work.gives_check, reduceCtorEq, and_false, exists_false,
        or_false, false_or] at h
      rcases h with hbatch | ⟨batch, _, -, kept, _, ⟨_, _, hfilter, -⟩, hrest⟩
      · exact batch_outcome_error hbatch
      · have hinside : ∀ i ∈ kept.take (count - got), i < batch.length := fun i hi =>
          (Subject.filter_positions hfilter).2 i (List.mem_of_mem_take hi)
        obtain ⟨taken, htaken, hlength⟩ := Fault.exists_mapM_entry hinside
        have hle : taken.length ≤ count - got := hlength ▸ List.length_take_le _ _
        rw [htaken] at hrest
        rcases hrest with ⟨_, hfault, -⟩ | ⟨_, _, ⟨hsame, rfl⟩, hrest⟩
        · cases hfault
        · cases hsame
          exact ih (by omega) hrest

theorem rounds_gives_le {rs : List Round}
    (h : Work.Gives (w.rounds subject category binder count left 0) s rs t) :
    ({ rounds := rs } : Selection).accepted.length ≤ count := by
  obtain ⟨hplays, hpaced⟩ := rounds_gives.mp h
  have hle := hpaced.length_taken_le (Nat.zero_le count) fun r hr => by
    obtain ⟨_, _, hplay⟩ := hplays.plays_of_mem hr
    exact hplay.isFair
  rwa [Nat.zero_add] at hle

theorem select_outcome_error (h : Work.outcome (w.select subject category binder count) s = .error failure) :
    ∃ stream, (w.candidate category binder).outcome stream = .error failure := by
  rw [select, Work.outcome_bind_eq_error] at h
  rcases h with hrounds | ⟨rounds, _, hrounds, h⟩
  · exact rounds_outcome_error (Nat.zero_le count) hrounds
  · have hdifference : Fault.difference count ({ rounds } : Selection).accepted.length = .ok _ :=
      Fault.difference_eq_ok.mpr ⟨rounds_gives_le hrounds, rfl⟩
    rw [Work.outcome_bind_of_gives (Work.gives_check.mpr ⟨hdifference, rfl⟩)] at h
    split at h
    case isTrue => cases h
    case isFalse =>
      simp only [Work.outcome_bind_eq_error, Work.outcome_generate, Work.outcome_report_ne, Work.outcome_pure,
        reduceCtorEq, and_false, exists_false, or_false, false_or] at h
      obtain ⟨_, _, -, hfill⟩ := h
      exact batch_outcome_error hfill

/-- The first candidate is drawn before anything else is done. -/
theorem select_outcome_of_candidate (hcount : 0 < count)
    (h : (w.candidate category binder).outcome s.stream = .error failure) :
    Work.outcome (w.select subject category binder count) s = .error failure := by
  have hsome : count ≠ 0 := Nat.ne_of_gt hcount
  have hdifference : Fault.difference count 0 = .ok count := Fault.difference_eq_ok.mpr ⟨Nat.zero_le count, rfl⟩
  have hlimit : (if w.settings.filter.setSize = 0 then 0 else w.settings.filter.maxRounds.toNat) = w.roundLimit := rfl
  rw [select, hlimit]
  cases hrounds : w.roundLimit with
  | zero =>
    -- without rounds, the fill starts with it
    have hnone : Work.Gives (w.rounds subject category binder count 0 0) s [] s := by
      rw [rounds]
      exact Work.gives_pure.mpr ⟨rfl, rfl⟩
    have hmissing : Fault.difference count ({ rounds := [] } : Selection).accepted.length = .ok count := hdifference
    rw [Work.outcome_bind_of_gives hnone, Work.outcome_bind_of_gives (Work.gives_check.mpr ⟨hmissing, rfl⟩),
      if_neg hsome, Work.outcome_bind_of_gives (Work.gives_lift.mpr ((Work.does_report (a := ())).mpr rfl))]
    refine Work.outcome_bind_of_error ?_
    rw [Work.outcome_generate]
    exact batch_outcome_of_candidate hcount h
  | succ left =>
    have hsize : 0 < w.settings.filter.setSize.toNat := by
      refine Nat.pos_of_ne_zero fun hzero => ?_
      rw [roundLimit, if_pos (UInt64.toNat_inj.mp hzero)] at hrounds
      cases hrounds
    refine Work.outcome_bind_of_error ?_
    rw [rounds, Work.outcome_bind_of_gives (Work.gives_check.mpr ⟨hdifference, rfl⟩), if_neg hsome]
    refine Work.outcome_bind_of_error ?_
    rw [Work.outcome_generate]
    exact batch_outcome_of_candidate hsize h

/-! ### Tasks -/

theorem writeFile_outcome_error {path text : String} {failure : Fault ⊕ CategoryError}
    (h : Work.outcome (w.writeFile path text) s = .error failure) :
    ∃ cause, failure = .inr (.propertyFile path cause) := by
  unfold writeFile at h
  split at h
  case h_1 cause _ => exact ⟨cause, (Work.outcome_throw.mp h).symm⟩
  case h_2 => exact absurd h Work.outcome_wrote_ne

theorem writeProperties_outcome_error {formulas : List Formula} {failure : Fault ⊕ CategoryError}
    (h : Work.outcome (w.writeProperties m category formulas) s = .error failure) :
    ∃ path cause, failure = .inr (.propertyFile path cause) := by
  rcases Work.outcome_bind_eq_error.mp h with h | ⟨_, _, -, h⟩
  · exact ⟨_, writeFile_outcome_error h⟩
  · exact ⟨_, writeFile_outcome_error h⟩

theorem length_unfoldings_le (w : Workshop σ) (m : Model) (formulas : List Formula) :
    (w.unfoldings m formulas).length ≤ w.settings.generation.numFormulas.toNat := by
  unfold unfoldings
  split
  · rw [List.length_map, List.length_take]
    omega
  · exact Nat.zero_le _

theorem choose_outcome_error {failure : Fault ⊕ CategoryError}
    (h : Work.outcome (w.choose subject category count) s = .error failure) :
    ∃ stream cause,
      (w.candidate category (subject.model.binder w.settings.generation)).outcome stream = .error cause ∧
        cause.map id .generation = failure := by
  obtain ⟨cause, hselect, rfl⟩ := Work.outcome_adapt.mp h
  obtain ⟨stream, hcandidate⟩ := select_outcome_error hselect
  exact ⟨stream, cause, hcandidate, rfl⟩

/-- A category fails of a property file, or of a candidate for one of the models. -/
theorem runCategory_outcome_error {failure : Fault ⊕ CategoryError}
    (h : Work.outcome (w.runCategory m twin category) s = .error failure) :
    (∃ path cause, failure = .inr (.propertyFile path cause)) ∨
      ∃ (x : Model) (stream : Keystream) (cause : Fault ⊕ GenerationError),
        (w.candidate category (x.binder w.settings.generation)).outcome stream = .error cause ∧
          cause.map id .generation = failure := by
  cases twin with
  | none =>
    simp only [runCategory, Work.outcome_bind_eq_error, Work.outcome_pure, reduceCtorEq, and_false, exists_false,
      or_false] at h
    rcases h with hchoose | ⟨selection, _, -, hwrite⟩
    · exact .inr ⟨_, choose_outcome_error hchoose⟩
    · exact .inl (writeProperties_outcome_error hwrite)
  | some x =>
    simp only [runCategory, Work.outcome_bind_eq_error, Work.outcome_pure, Work.outcome_check, Work.gives_check,
      reduceCtorEq, and_false, exists_false, or_false] at h
    rcases h with hchoose | ⟨selection, _, -, hwrite | ⟨_, _, -, hdifference | ⟨_, _, -, hchoose | hwrite⟩⟩⟩
    · exact .inr ⟨_, choose_outcome_error hchoose⟩
    · exact .inl (writeProperties_outcome_error hwrite)
    · obtain ⟨fault, hfault, -⟩ := hdifference
      have hle := length_unfoldings_le w m selection.formulas
      rw [Fault.difference_eq_ok.mpr ⟨hle, rfl⟩] at hfault
      cases hfault
    · exact .inr ⟨_, choose_outcome_error hchoose⟩
    · obtain ⟨_, _, -, hwrite⟩ := hwrite
      exact .inl (writeProperties_outcome_error hwrite)

theorem runCategories_outcome_error {categories : List Category} {cause : CategoryError} {c : Category}
    (h : Work.outcome (w.runCategories m twin categories) s = .error (.inr (.category c cause))) :
    c ∈ categories ∧ ∃ s, Work.outcome (w.runCategory m twin c) s = .error (.inr cause) := by
  induction categories generalizing s with
  | nil => cases h
  | cons category categories ih =>
    simp only [runCategories, Work.outcome_bind_eq_error, Work.outcome_pure, Work.outcome_adapt, reduceCtorEq,
      and_false, exists_false, or_false] at h
    rcases h with ⟨cause', hcategory, heq⟩ | ⟨_, _, -, hrest⟩
    · cases cause' with
      | inl => cases heq
      | inr =>
        cases heq
        exact ⟨List.mem_cons_self, s, hcategory⟩
    · obtain ⟨hmem, hfails⟩ := ih hrest
      exact ⟨List.mem_cons_of_mem _ hmem, hfails⟩

/-- If a task fails of a category, it is one of those that were asked for. -/
theorem run_outcome_error {cause : CategoryError} {c : Category}
    (h : Work.outcome (w.run task) s = .error (.inr (.category c cause))) :
    c ∈ w.settings.generation.categories ∧
      ∃ m twin s, Work.outcome (w.runCategory m twin c) s = .error (.inr cause) := by
  simp only [run, Work.outcome_bind_eq_error, Work.outcome_pure, Work.outcome_settle, Work.outcome_lift_ne,
    reduceCtorEq, and_false, exists_false, or_false, false_or] at h
  rcases h with ⟨e, hload, heq⟩ | ⟨_, _, -, _, _, -, ⟨m, _⟩, _, -, hcategories⟩
  · cases hread : task.model.load (Model.summaryOf w.disk) with
    | error cause =>
      rw [hread] at hload
      cases hload
      cases heq
    | ok m =>
      rw [hread] at hload
      cases hload
  · obtain ⟨hmem, s, hfails⟩ := runCategories_outcome_error hcategories
    exact ⟨hmem, m, _, s, hfails⟩

/-! ### Failures of selections -/

end Workshop

/-- Settings that can be used have room for the branching-time formulas that they ask for. -/
theorem Settings.least_le_depth_of_validate {settings : Settings} {category : Category}
    (h : settings.validate = .ok ()) (hcategory : category ∈ settings.generation.categories)
    (hgrammar : category.grammar = .ctl) :
    Catalog.leastBranchingDepth ≤ settings.generation.formulaDepth.toNat := by
  by_contra hdepth
  have hctl : settings.generation.categories.any (·.grammar = .ctl) = true :=
    List.any_eq_true.mpr ⟨category, hcategory, decide_eq_true hgrammar⟩
  have hbranching := And.intro hctl (Nat.lt_of_not_le hdepth)
  unfold Settings.validate at h
  by_cases hworkers : settings.numWorkers = 0
  · rw [if_pos hworkers] at h
    cases h
  · rw [if_neg hworkers] at h
    by_cases hzero : settings.generation.formulaDepth = 0
    · simp only [if_pos hzero] at h
      cases h
    · simp only [if_neg hzero, if_pos hbranching] at h
      cases h

namespace Workshop
variable {σ : Type}

theorem run_outcome_ne_depthTooSmall {w : Workshop σ} (h : w.settings.validate = .ok ()) (task : Task) (s : Session σ)
    (c : Category) (depth least : Nat) :
    Work.outcome (w.run task) s ≠ .error (.inr (.category c (.generation (.depthTooSmall depth least)))) := by
  intro hrun
  obtain ⟨hmem, m, twin, s, hfails⟩ := run_outcome_error hrun
  obtain ⟨_, _, hfile⟩ | ⟨x, stream, cause, hcandidate, hcause⟩ := runCategory_outcome_error hfails
  · cases hfile
  · cases cause with
    | inl => cases hcause
    | inr e =>
      cases hcause
      rcases candidate_outcome_error hcandidate with hgenerate | hbind
      · cases hgenerate with
        | shallow hshallow =>
          exact absurd (Settings.least_le_depth_of_validate h hmem hshallow.1) (Nat.not_le.mpr hshallow.2)
      · cases hbind

/-- No formula of the category can be made at the depth of the settings. -/
def IsShallow (w : Workshop σ) (category : Category) : Prop :=
  category.grammar = .ctl ∧ w.settings.generation.formulaDepth.toNat < Catalog.leastBranchingDepth

/-- A selection of nothing does nothing. Another one fails of the depth exactly if that is too small, and else of
    missing identifiers exactly if there are none, once the first formula could be drawn. Whatever else can happen is
    a fault in the drawing of a formula. -/
theorem select_failure (w : Workshop σ) (subject : Subject) (category : Category) (binder : Binder)
    (hconstants : binder.leastConstant ≤ binder.greatestConstant) (s : Session σ) :
    Work.Gives (w.select subject category binder 0) s {} s ∧
    (∀ count > 0,
      (w.IsShallow category → Work.outcome (w.select subject category binder count) s = .error (.inr
        (.depthTooSmall w.settings.generation.formulaDepth.toNat Catalog.leastBranchingDepth))) ∧
      (¬w.IsShallow category → binder.pool category.atomKind = [] →
        Work.outcome (w.select subject category binder count) s = do
          let _ ← (w.catalog.generate category.grammar w.settings.generation.formulaDepth.toNat).outcome s.stream
          throw (.inr (.noCandidates category.atomKind))) ∧
      (¬w.IsShallow category → binder.pool category.atomKind ≠ [] →
        ∀ e, Work.outcome (w.select subject category binder count) s ≠ .error (.inr e)) ∧
      ∀ fault, Work.outcome (w.select subject category binder count) s = .error (.inl fault) →
        w.catalog.Prevents category.grammar w.settings.generation.formulaDepth.toNat (.inl fault)) ∧
    (w.settings.validate = .ok () → ∀ task s' c depth least,
      Work.outcome (w.run task) s' ≠ .error (.inr (.category c (.generation (.depthTooSmall depth least))))) := by
  refine ⟨select_gives_none w subject category binder s, fun count hcount => ⟨fun hshallow => ?_, fun _ hpool => ?_,
    fun hdeep hpool e h => ?_, fun fault h => ?_⟩, run_outcome_ne_depthTooSmall⟩
  · exact select_outcome_of_candidate hcount
      (candidate_outcome_of_generate (Catalog.generate_outcome_of_shallow hshallow))
  · cases hgenerate : (w.catalog.generate category.grammar w.settings.generation.formulaDepth.toNat).outcome
        s.stream with
    | error failure => exact select_outcome_of_candidate hcount (candidate_outcome_of_generate hgenerate)
    | ok f => exact select_outcome_of_candidate hcount (candidate_outcome_of_pool hconstants hpool hgenerate)
  · obtain ⟨_, hcandidate⟩ := select_outcome_error h
    rcases candidate_outcome_error hcandidate with hgenerate | hbind
    · cases hgenerate with
      | shallow hshallow => exact hdeep hshallow
    · cases hbind with
      | identifiers hnone => exact hpool hnone
  · obtain ⟨_, hcandidate⟩ := select_outcome_error h
    rcases candidate_outcome_error hcandidate with hgenerate | hbind
    · exact hgenerate
    · cases hbind with
      | constants hlt => exact absurd hconstants (Int.not_le.mpr hlt)

/-- There are transitions, but atoms of the category are about places. -/
theorem generous_select_failure :
    (0 : Int) ≤ 100 ∧
    Work.outcome ((generous 2 3).select (.direct { key := ⟨"M", .placeTransition, "1"⟩, directory := "M-PT-1" })
      .reachabilityCardinality ⟨[], ["t", "u"], 1, 1, 0, 100⟩ 3) { stream := .ofSeed 1, oracle := () } =
        .error (.inr (.noCandidates .cardinality)) ∧
    (generous 2 3).settings.validate = .ok () ∧
    ∀ task s c depth least, Work.outcome ((generous 2 3).run task) s ≠
      .error (.inr (.category c (.generation (.depthTooSmall depth least)))) := by
  have hconstants : (0 : Int) ≤ 100 := by decide
  have hvalid : (generous 2 3).settings.validate = .ok () := by decide
  obtain ⟨-, hfails, hdepth⟩ := select_failure (generous 2 3)
    (.direct { key := ⟨"M", .placeTransition, "1"⟩, directory := "M-PT-1" }) .reachabilityCardinality
    ⟨[], ["t", "u"], 1, 1, 0, 100⟩ hconstants { stream := .ofSeed 1, oracle := () }
  obtain ⟨-, hpool, -⟩ := hfails 3 (by decide)
  have hdrawn : ((generous 2 3).catalog.generate .reachability 2).outcome (.ofSeed 1) =
      .ok (Catalog.possibly ⟨.connective .or 2, [.atom, .atom]⟩) := by decide +kernel
  refine ⟨hconstants, (hpool (fun h => absurd h.1 (by decide)) rfl).trans ?_, hvalid, hdepth hvalid⟩
  exact congrArg (· >>= fun _ => throw (.inr (.noCandidates .cardinality))) hdrawn

/-- The first formula has more operands than there is room for, and nobody notices that it could not be bound. -/
theorem generous_select_overflow :
    ¬(generous unboundedArity 1).IsShallow .reachabilityFireability ∧
    (⟨["p"], [], 1, 1, 0, 100⟩ : Binder).pool Category.reachabilityFireability.atomKind = [] ∧
    Work.outcome ((generous unboundedArity 1).select
        (.direct { key := ⟨"M", .placeTransition, "1"⟩, directory := "M-PT-1" }) .reachabilityFireability
        ⟨["p"], [], 1, 1, 0, 100⟩ 1) { stream := .ofSeed 1, oracle := () } = .error (.inl .capacity) := by
  refine ⟨fun h => absurd h.1 (by decide), rfl, ?_⟩
  exact select_outcome_of_candidate (by decide) (candidate_outcome_of_generate (by decide +kernel))

end Workshop
end Formulary
