import Formulary.Proofs.Run.Course

/-! Where the formulas in the property files come from. A formula is filtered if it was kept when its batch was put
    to the oracle, or if it unfolds such a formula. The outcome counts the formulas that fill up selections; but the
    twin also gets unfolded formulas of the fill of the model, when the oracle kept fewer formulas than are unfolded,
    and no count has those. -/

namespace Formulary

/-- A formula in a property file, and whether it is filtered. -/
structure Choice where
  formula : Formula
  filtered : Bool

/-- The formulas of a category that are written for a model. -/
structure Sheet where
  model : Model
  category : Category
  choices : List Choice

namespace Choice

/-- The number of formulas that are not filtered. -/
def unfiltered (choices : List Choice) : Nat := choices.countP (!·.filtered)

theorem unfiltered_append (xs ys : List Choice) : unfiltered (xs ++ ys) = unfiltered xs + unfiltered ys :=
  List.countP_append

end Choice

namespace Sheet

/-- The property files. -/
def files (s : Sheet) : List (String × String) := s.model.propertyFiles s.category (s.choices.map (·.formula))

end Sheet

/-! ### Selections -/

namespace Selection

/-- The formulas of a selection: those that the rounds took are filtered, those that fill up are not. -/
def choices (s : Selection) : List Choice := s.accepted.map (⟨·, true⟩) ++ s.fill.map (⟨·, false⟩)

theorem map_formula_choices (s : Selection) : s.choices.map (·.formula) = s.formulas := by
  rw [choices, List.map_append, List.map_map, List.map_map, formulas]
  congr 1
  · exact List.map_id' _
  · exact List.map_id' _

theorem unfiltered_accepted (fs : List Formula) : Choice.unfiltered (fs.map (⟨·, true⟩)) = 0 := by
  rw [Choice.unfiltered, List.countP_eq_zero]
  intro x hx
  obtain ⟨f, -, rfl⟩ := List.mem_map.mp hx
  exact Bool.false_ne_true

theorem unfiltered_fill (fs : List Formula) : Choice.unfiltered (fs.map (⟨·, false⟩)) = fs.length := by
  rw [Choice.unfiltered, List.countP_eq_length.mpr, List.length_map]
  intro x hx
  obtain ⟨f, -, rfl⟩ := List.mem_map.mp hx
  rfl

theorem unfiltered_choices (s : Selection) : Choice.unfiltered s.choices = s.fill.length := by
  rw [choices, Choice.unfiltered_append, unfiltered_accepted, unfiltered_fill, Nat.zero_add]

/-- The fill comes last, so it is reached by the formulas beyond those that the oracle kept. -/
theorem unfiltered_take_choices (s : Selection) (n : Nat) :
    Choice.unfiltered (s.choices.take n) = min n s.formulas.length - s.accepted.length := by
  have hlength : s.formulas.length = s.accepted.length + s.fill.length := List.length_append
  rw [choices, List.take_append, ← List.map_take, ← List.map_take, Choice.unfiltered_append, unfiltered_accepted,
    unfiltered_fill, List.length_take, List.length_map, hlength]
  omega

end Selection

/-! ### One category -/

namespace Workshop
variable {σ : Type} {w : Workshop σ} {m : Model} {twin : Option Model} {course : Course} {courses : List Course}
  {subject : Subject} {category : Category} {binder : Binder} {count : Nat} {selection : Selection} {task : Task}
  {outcome : ModelOutcome} {s t : Session σ}

/-- What the twin gets from the model: a formula is filtered if the formula that it unfolds is. -/
def unfoldedChoices (w : Workshop σ) (m : Model) (choices : List Choice) : List Choice :=
  match m.usableCorrespondence with
  | some c =>
    let count := min w.settings.generation.numUnfold.toNat w.settings.generation.numFormulas.toNat
    (choices.take count).map fun x => { x with formula := x.formula.unfold c }
  | none => []

theorem map_formula_unfoldedChoices (w : Workshop σ) (m : Model) (choices : List Choice) :
    (w.unfoldedChoices m choices).map (·.formula) = w.unfoldings m (choices.map (·.formula)) := by
  unfold unfoldedChoices unfoldings
  cases m.usableCorrespondence with
  | some c =>
    show ((choices.take _).map _).map _ = ((choices.map _).take _).map _
    rw [← List.map_take, List.map_map, List.map_map]
    rfl
  | none => rfl

/-- The formulas that are unfolded beyond those that the oracle kept are not filtered. -/
theorem unfiltered_unfoldedChoices (w : Workshop σ) (m : Model) (course : Course) :
    Choice.unfiltered (w.unfoldedChoices m course.selection.choices) =
      w.unfoldedCount m course - course.selection.accepted.length := by
  unfold unfoldedCount unfoldings unfoldedChoices
  cases m.usableCorrespondence with
  | some c =>
    show List.countP _ ((course.selection.choices.take _).map _) = (List.map _ (List.take _ _)).length - _
    rw [List.countP_map, List.length_map, List.length_take]
    exact course.selection.unfiltered_take_choices _
  | none => rw [List.length_nil, Nat.zero_sub]; rfl

/-- The sheets of a category, with the provenance of every formula. -/
def sheets (w : Workshop σ) (m : Model) (twin : Option Model) (course : Course) : List Sheet :=
  ⟨m, course.category, course.selection.choices⟩ ::
    twin.toList.map fun x => ⟨x, course.category,
      w.unfoldedChoices m course.selection.choices ++ course.twinSelection.choices⟩

theorem flatMap_files_sheets (w : Workshop σ) (m : Model) (twin : Option Model) (course : Course) :
    (w.sheets m twin course).flatMap Sheet.files = w.courseFiles m twin course := by
  have hmodel : Sheet.files ⟨m, course.category, course.selection.choices⟩ =
      m.propertyFiles course.category course.selection.formulas := by
    rw [Sheet.files, Selection.map_formula_choices]
  rw [sheets, courseFiles, List.flatMap_cons, hmodel, List.flatMap_map]
  congr 2
  funext x
  rw [Sheet.files, List.map_append, map_formula_unfoldedChoices, Selection.map_formula_choices,
    Selection.map_formula_choices]

/-- The formulas of the fill that the twin gets unfolded. -/
def unfoldedFill (w : Workshop σ) (m : Model) (twin : Option Model) (course : Course) : Nat :=
  if twin.isSome then w.unfoldedCount m course - course.selection.accepted.length else 0

theorem unfiltered_sheets (w : Workshop σ) (m : Model) (twin : Option Model) (course : Course) :
    Choice.unfiltered ((w.sheets m twin course).flatMap (·.choices)) =
      ((w.courseOutcomes m twin course).map (·.randomFill)).sum + w.unfoldedFill m twin course := by
  cases twin with
  | none =>
    show Choice.unfiltered (course.selection.choices ++ []) = course.selection.fill.length + 0 + 0
    rw [List.append_nil, Selection.unfiltered_choices]
    rfl
  | some x =>
    show Choice.unfiltered (course.selection.choices ++
        ((w.unfoldedChoices m course.selection.choices ++ course.twinSelection.choices) ++ [])) =
      (course.selection.fill.length + (course.twinSelection.fill.length + 0)) +
        (w.unfoldedCount m course - course.selection.accepted.length)
    rw [List.append_nil, Choice.unfiltered_append, Choice.unfiltered_append, Selection.unfiltered_choices,
      Selection.unfiltered_choices, unfiltered_unfoldedChoices]
    omega

/-! ### All categories -/

/-- The number of formulas in the property files that are not filtered. -/
def unfiltered (w : Workshop σ) (m : Model) (twin : Option Model) (courses : List Course) : Nat :=
  Choice.unfiltered ((courses.flatMap (w.sheets m twin)).flatMap (·.choices))

/-- What is missing in the random fill of the outcome is the fill that is unfolded. -/
theorem unfiltered_eq (w : Workshop σ) (m : Model) (twin : Option Model) (twinError : Option String)
    (unfolding : Unfolding) (courses : List Course) :
    w.unfiltered m twin courses = (w.taskOutcome m twin twinError unfolding courses).randomFill +
      (courses.map (w.unfoldedFill m twin)).sum := by
  show _ = ((courses.flatMap (w.courseOutcomes m twin)).map (·.randomFill)).sum + _
  induction courses with
  | nil => rfl
  | cons course courses ih =>
    have hcourse := w.unfiltered_sheets m twin course
    unfold unfiltered at ih ⊢
    rw [List.flatMap_cons, List.flatMap_append, Choice.unfiltered_append, hcourse, ih, List.flatMap_cons,
      List.map_append, List.sum_append, List.map_cons, List.sum_cons]
    omega

/-- The round takes candidates that a call of the filter kept. -/
def Filters (w : Workshop σ) (subject : Subject) (category : Category) (r : Round) : Prop :=
  (∃ notices o o', (subject.filter w.oracle category r.batch r.target).run o = ((notices, r.kept), o')) ∧
    r.taken.map some = (r.kept.take r.target).map (r.batch[·]?)

theorem select_filters (h : Work.Gives (w.select subject category binder count) s selection t) :
    ∀ r ∈ selection.rounds, w.Filters subject category r := by
  obtain ⟨_, hplays, -⟩ := select_gives_iff.mp h
  intro r hr
  obtain ⟨_, _, hplay⟩ := hplays.plays_of_mem hr
  obtain ⟨_, notices, o, -, hfilter, -⟩ := hplay.consulted
  exact ⟨⟨notices, _, o, hfilter⟩, hplay.taken⟩

/-- The files of the courses, and the calls of the filter that their rounds go by. -/
structure Traces (w : Workshop σ) (m : Model) (twin : Option Model) (courses : List Course) (s t : Session σ) :
    Prop where
  written : t.written = s.written ++ (courses.flatMap (w.sheets m twin)).flatMap Sheet.files
  rounds : ∀ course ∈ courses, ∀ r ∈ course.selection.rounds, w.Filters (.ofModel m twin) course.category r
  twinRounds : ∀ x ∈ twin, ∀ course ∈ courses, ∀ r ∈ course.twinSelection.rounds,
    w.Filters (.direct x) course.category r

theorem TakesAll.traces (h : w.TakesAll m twin courses s t) : w.Traces m twin courses s t where
  written := by
    rw [List.flatMap_assoc, h.written]
    simp only [flatMap_files_sheets]
  rounds := by
    intro course hcourse
    obtain ⟨_, _, _, _, hselect, -⟩ := h.takes_of_mem hcourse
    exact select_filters hselect
  twinRounds := by
    rintro x ⟨rfl⟩ course hcourse
    obtain ⟨_, _, _, _, -, -, _, -, hselect, -⟩ := h.takes_of_mem hcourse
    exact select_filters hselect

theorem totalRandomFill_eq_iff (w : Workshop σ) (m : Model) (twin : Option Model) (twinError : Option String)
    (unfolding : Unfolding) (courses : List Course) :
    (w.taskOutcome m twin twinError unfolding courses).totalRandomFill.toNat = w.unfiltered m twin courses ↔
      w.unfiltered m twin courses < UInt64.size ∧
        (twin.isSome → ∀ course ∈ courses, w.unfoldedCount m course ≤ course.selection.accepted.length) := by
  have htotal := w.unfiltered_eq m twin twinError unfolding courses
  have hnone : (courses.map (w.unfoldedFill m twin)).sum = 0 ↔
      (twin.isSome → ∀ course ∈ courses, w.unfoldedCount m course ≤ course.selection.accepted.length) := by
    rw [List.sum_eq_zero_iff, List.forall_mem_map]
    cases twin with
    | none => exact ⟨fun _ h => absurd h Bool.false_ne_true, fun _ _ _ => rfl⟩
    | some x => exact ⟨fun h _ course hc => Nat.sub_eq_zero_iff_le.mp (h course hc),
        fun h course hc => Nat.sub_eq_zero_of_le (h rfl course hc)⟩
  rw [← hnone, ModelOutcome.totalRandomFill, UInt64.toNat_ofNat']
  -- what is counted is at most what is not filtered, and taking the remainder makes it no larger
  have hmod := Nat.mod_le (w.taskOutcome m twin twinError unfolding courses).randomFill (2 ^ 64)
  have hsize : UInt64.size = 2 ^ 64 := rfl
  constructor
  · intro h
    have hlt := Nat.mod_lt (w.taskOutcome m twin twinError unfolding courses).randomFill (y := 2 ^ 64) (by decide)
    omega
  · rintro ⟨hlt, hzero⟩
    rw [Nat.mod_eq_of_lt (by omega)]
    omega

/-! ### An oracle that keeps nothing -/

/-- A workshop that makes one formula for a category, and whose oracle fails. -/
def unanswered : Workshop Unit where
  settings :=
    { generation := { formulaDepth := 1, numFormulas := 1, numUnfold := 1, categories := [.reachabilityFireability] }
      filter := { maxRounds := 1, setSize := 1 } }
  catalog := .ofBound 2
  oracle := fun _ => return { verdict := .error (.other "no answer") }
  disk := { root := .directory [], here := [] }

/-- A colored net and its twin, both at hand. -/
def pairTask : Task := ⟨{ coloredNet with isLoaded := true }, some { unfoldedNet with isLoaded := true }⟩

/-- The colored net of the task with its correspondence. -/
def relatedModel : Model := { relatedNet with isLoaded := true }

theorem unanswered_readies (s : Session Unit) :
    unanswered.Readies pairTask s relatedModel pairTask.twin none .usable
      { s with notices := s.notices ++ [] } := by
  have hrelated : pairTask.model.ensureCorrespondence { unfoldedNet with isLoaded := true } = (relatedModel, []) := by
    cbv
  have hfound : ∀ e, relatedModel.correspondence ≠ some (.error e) := by
    intro e he
    cases he
  exact ⟨pairTask.model, s, rfl, Work.does_pure.mpr ⟨rfl, rfl⟩, relate_usable rfl hrelated hfound⟩

/-- Files can be written wherever they can be in the lenient workshop. -/
theorem writes_of_disk {w : Workshop Unit} (hdisk : w.disk = lenient.disk) (m : Model) (hm : m.directory = "")
    (formulas : List Formula) (s : Session Unit) :
    ∃ t, Work.Gives (w.writeProperties m .reachabilityFireability formulas) s () t := by
  obtain ⟨_, h⟩ := lenient_writes m hm formulas s
  obtain ⟨hwritable, -⟩ := writeProperties_gives.mp h
  rw [← hdisk] at hwritable
  exact ⟨_, writeProperties_gives.mpr ⟨hwritable, rfl⟩⟩

/-- The formula of the colored net fills up its selection, and it is unfolded for the twin. -/
theorem unanswered_takes :
    ∃ course t, unanswered.Takes relatedModel pairTask.twin course { stream := .ofSeed 1, oracle := () } t ∧
      course.category = .reachabilityFireability ∧ course.selection.accepted = [] ∧ course.selection.fill.length = 1 ∧
      course.twinSelection = {} ∧ unanswered.unfoldedCount relatedModel course = 1 := by
  obtain ⟨selection, u, hselect, haccepted⟩ := Work.exists_gives_and
    (x := unanswered.select (.ofModel relatedModel pairTask.twin) .reachabilityFireability
      (relatedModel.binder unanswered.settings.generation) 1)
    (s := { stream := .ofSeed 1, oracle := () }) (p := fun selection => selection.accepted.isEmpty) (by decide +kernel)
  have hnone : selection.accepted = [] := List.isEmpty_iff.mp haccepted
  have hone : selection.fill.length = 1 := by
    have hlength := select_length hselect
    rwa [hnone, List.length_nil, Nat.zero_add] at hlength
  have hlength : (unanswered.unfoldings relatedModel selection.formulas).length = 1 := by
    obtain ⟨f, hf⟩ := List.length_eq_one_iff.mp hone
    rw [Selection.formulas, hnone, hf]
    rfl
  obtain ⟨v, hwrite⟩ := writes_of_disk (w := unanswered) rfl relatedModel rfl selection.formulas u
  obtain ⟨t, hwrite'⟩ := writes_of_disk (w := unanswered) rfl { unfoldedNet with isLoaded := true } rfl
    (unanswered.unfoldings relatedModel selection.formulas ++ ({} : Selection).formulas) v
  refine ⟨⟨.reachabilityFireability, selection, {}⟩, t, ⟨u, v, hselect, hwrite, v, ?_, ?_, hwrite'⟩, rfl, hnone, hone,
    rfl, hlength⟩
  · exact Nat.le_of_eq hlength
  · rw [unfoldedCount, hlength]
    exact select_gives_none ..

theorem unanswered_run :
    ∃ course t, Work.Gives (unanswered.run pairTask) { stream := .ofSeed 1, oracle := () }
        (unanswered.taskOutcome relatedModel pairTask.twin none .usable [course]) t ∧
      unanswered.TakesAll relatedModel pairTask.twin [course] { stream := .ofSeed 1, oracle := () } t ∧
      course.category = .reachabilityFireability ∧ course.selection.accepted = [] ∧ course.selection.fill.length = 1 ∧
      course.twinSelection = {} ∧ unanswered.unfoldedCount relatedModel course = 1 := by
  obtain ⟨course, t, htakes, hcategory, hcourse⟩ := unanswered_takes
  have hall := TakesAll.course htakes (.none t)
  refine ⟨course, t, run_gives_iff.mpr ⟨_, _, _, _, _, [course], unanswered_readies _, ?_, hall, rfl⟩, hall, hcategory,
    hcourse⟩
  rw [List.map_singleton, hcategory]
  rfl

/-! ### The count of unfiltered formulas -/

/-- After a run, the formulas in the property files that are not filtered are those of the random fill of the outcome
    and, for each category, the unfolded ones beyond the formulas that the oracle kept for the model. So the total of
    the outcome is their number exactly if no category unfolds more formulas than the oracle kept, and 64 bits can
    hold the number. -/
theorem run_unfiltered (h : Work.Gives (w.run task) s outcome t) :
    ∃ m twin twinError unfolding u courses, w.Readies task s m twin twinError unfolding u ∧
      courses.map (·.category) = w.settings.generation.categories ∧
      outcome = w.taskOutcome m twin twinError unfolding courses ∧ w.Traces m twin courses s t ∧
      w.unfiltered m twin courses = outcome.randomFill + (courses.map (w.unfoldedFill m twin)).sum ∧
      (outcome.totalRandomFill.toNat = w.unfiltered m twin courses ↔
        w.unfiltered m twin courses < UInt64.size ∧
          (twin.isSome → ∀ course ∈ courses, w.unfoldedCount m course ≤ course.selection.accepted.length)) := by
  obtain ⟨m, twin, twinError, unfolding, u, courses, hreadies, hcategories, hall, rfl⟩ := run_gives_iff.mp h
  obtain ⟨hwritten, hrounds, htwinRounds⟩ := hall.traces
  rw [hreadies.written] at hwritten
  exact ⟨m, twin, twinError, unfolding, u, courses, hreadies, hcategories, rfl, ⟨hwritten, hrounds, htwinRounds⟩,
    w.unfiltered_eq m twin twinError unfolding courses, w.totalRandomFill_eq_iff m twin twinError unfolding courses⟩

theorem unanswered_run_unfiltered :
    ∃ outcome t, Work.Gives (unanswered.run pairTask) { stream := .ofSeed 1, oracle := () } outcome t ∧
      ∃ m twin twinError unfolding u courses,
        unanswered.Readies pairTask { stream := .ofSeed 1, oracle := () } m twin twinError unfolding u ∧
        outcome = unanswered.taskOutcome m twin twinError unfolding courses ∧
        unanswered.unfiltered m twin courses =
          outcome.randomFill + (courses.map (unanswered.unfoldedFill m twin)).sum := by
  obtain ⟨_, t, hrun, -⟩ := unanswered_run
  obtain ⟨m, twin, twinError, unfolding, u, courses, hreadies, -, houtcome, -, hunfiltered, -⟩ := run_unfiltered hrun
  exact ⟨_, t, hrun, m, twin, twinError, unfolding, u, courses, hreadies, houtcome, hunfiltered⟩

/-- Two formulas that the oracle did not keep are written, one for each net, and the outcome counts one. -/
theorem unanswered_totalRandomFill :
    ∃ outcome t courses, Work.Gives (unanswered.run pairTask) { stream := .ofSeed 1, oracle := () } outcome t ∧
      unanswered.TakesAll relatedModel pairTask.twin courses { stream := .ofSeed 1, oracle := () } t ∧
      t.written = (courses.flatMap (unanswered.sheets relatedModel pairTask.twin)).flatMap Sheet.files ∧
      unanswered.unfiltered relatedModel pairTask.twin courses = 2 ∧ outcome.totalRandomFill.toNat = 1 := by
  obtain ⟨course, t, hrun, hall, -, haccepted, hfill, htwin, hunfolded⟩ := unanswered_run
  have hcount : (unanswered.taskOutcome relatedModel pairTask.twin none .usable [course]).randomFill = 1 := by
    show course.selection.fill.length + (course.twinSelection.fill.length + 0) = 1
    rw [hfill, htwin]
    rfl
  have hwritten := hall.traces.written
  rw [List.nil_append] at hwritten
  refine ⟨_, t, [course], hrun, hall, hwritten, ?_, ?_⟩
  · rw [unanswered.unfiltered_eq relatedModel pairTask.twin none .usable, hcount]
    show 1 + ((unanswered.unfoldedCount relatedModel course - course.selection.accepted.length) + 0) = 2
    rw [hunfolded, haccepted]
    rfl
  · rw [ModelOutcome.totalRandomFill, hcount]
    rfl

end Workshop
end Formulary
