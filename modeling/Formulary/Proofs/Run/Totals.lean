import Formulary.Proofs.Run.Provenance

/-! How many formulas there are. A selection has as many formulas as asked for, so for each category the model and its
    twin get the configured number each. The twin gets the first formulas of the model, unfolded, as many as the
    settings say, and a selection of its own for the others. The total of a run is a product. -/

namespace Formulary

theorem Selection.length_formulas (s : Selection) : s.formulas.length = s.accepted.length + s.fill.length :=
  List.length_append

namespace Workshop
variable {σ : Type} {w : Workshop σ} {m : Model} {twin : Option Model} {course : Course} {courses : List Course}
  {category : Category} {outcomes : List CategoryOutcome} {task : Task} {outcome : ModelOutcome} {s t : Session σ}

/-! ### One category -/

/-- The number of formulas of the model that its twin gets too. -/
def sharedCount (w : Workshop σ) (m : Model) : Nat :=
  if m.usableCorrespondence.isSome then
    min w.settings.generation.numUnfold.toNat w.settings.generation.numFormulas.toNat
  else 0

/-- The formulas of the twin: the first ones of the model, unfolded, and a selection of its own. -/
def twinFormulas (w : Workshop σ) (m : Model) (course : Course) : List Formula :=
  (m.usableCorrespondence.elim [] fun c => (course.selection.formulas.take (w.sharedCount m)).map (Formula.unfold c)) ++
    course.twinSelection.formulas

theorem unfoldings_append_twinSelection (w : Workshop σ) (m : Model) (course : Course) :
    w.unfoldings m course.selection.formulas ++ course.twinSelection.formulas = w.twinFormulas m course := by
  unfold unfoldings twinFormulas sharedCount
  cases m.usableCorrespondence <;> rfl

theorem unfoldedCount_eq (h : course.selection.formulas.length = w.settings.generation.numFormulas.toNat) :
    w.unfoldedCount m course = w.sharedCount m := by
  unfold unfoldedCount unfoldings sharedCount
  cases m.usableCorrespondence with
  | none => rfl
  | some c =>
    simp only [List.length_map, List.length_take, Option.isSome_some, if_true]
    omega

/-- What the outcomes and the files of a category hold, where the configured number of formulas is `n`. -/
structure Tallies (w : Workshop σ) (m : Model) (twin : Option Model) (course : Course) (n : Nat)
    (outcomes : List CategoryOutcome) (s t : Session σ) : Prop where
  /-- There is an outcome for the model, and one for its twin. -/
  owners : outcomes.map (fun o => (o.category, o.variant)) =
    (course.category, m.key.variant) :: twin.toList.map fun x => (course.category, x.key.variant)
  counts : ∀ o ∈ outcomes, o.written = n ∧ o.acceptedByFilter + o.randomFill + o.unfolded = o.written
  unfolded : outcomes.map (·.unfolded) = 0 :: twin.toList.map fun _ => w.sharedCount m
  files : t.written = s.written ++ m.propertyFiles course.category course.selection.formulas ++
    twin.toList.flatMap (·.propertyFiles course.category (w.twinFormulas m course))
  length_formulas : course.selection.formulas.length = n
  length_twinFormulas : twin.isSome → (w.twinFormulas m course).length = n

theorem ofSelection_counts (x : Model) (category : Category) {selection : Selection} {count : Nat} (unfolded : Nat)
    (h : selection.accepted.length + selection.fill.length = count) :
    (CategoryOutcome.ofSelection x category selection unfolded).written = count + unfolded ∧
      (CategoryOutcome.ofSelection x category selection unfolded).acceptedByFilter +
        (CategoryOutcome.ofSelection x category selection unfolded).randomFill +
        (CategoryOutcome.ofSelection x category selection unfolded).unfolded = count + unfolded := by
  constructor
  · show selection.formulas.length + unfolded = count + unfolded
    rw [selection.length_formulas, h]
  · show selection.accepted.length + selection.fill.length + unfolded = count + unfolded
    rw [h]

theorem Takes.tallies (h : w.Takes m twin course s t) :
    w.Tallies m twin course w.settings.generation.numFormulas.toNat (w.courseOutcomes m twin course) s t := by
  have hfiles := h.written
  obtain ⟨u, v, hselect, -, hrest⟩ := h
  have hparts := select_length hselect
  have hlength : course.selection.formulas.length = w.settings.generation.numFormulas.toNat :=
    course.selection.length_formulas.trans hparts
  have hunfolded := unfoldedCount_eq (m := m) hlength
  rw [courseFiles, unfoldings_append_twinSelection, ← List.append_assoc] at hfiles
  have hmodel := ofSelection_counts m course.category 0 hparts
  cases twin with
  | none => exact {
      owners := rfl
      counts := by
        intro o ho
        obtain rfl := List.mem_singleton.mp ho
        exact ⟨hmodel.1, hmodel.2.trans hmodel.1.symm⟩
      unfolded := rfl
      files := hfiles
      length_formulas := hlength
      length_twinFormulas := by
        intro h
        cases h }
  | some x =>
    obtain ⟨u', hle, hselect', -⟩ := hrest
    have hparts' := select_length hselect'
    have htwin := ofSelection_counts x course.category (w.unfoldedCount m course) hparts'
    rw [Nat.sub_add_cancel hle] at htwin
    exact {
      owners := rfl
      counts := by
        intro o ho
        rcases List.mem_cons.mp ho with rfl | ho
        · exact ⟨hmodel.1, hmodel.2.trans hmodel.1.symm⟩
        · obtain rfl := List.mem_singleton.mp ho
          exact ⟨htwin.1, htwin.2.trans htwin.1.symm⟩
      unfolded := by
        show [0, w.unfoldedCount m course] = [0, w.sharedCount m]
        rw [hunfolded]
      files := hfiles
      length_formulas := hlength
      length_twinFormulas := by
        intro _
        rw [← unfoldings_append_twinSelection, List.length_append, course.twinSelection.length_formulas, hparts']
        exact Nat.add_sub_cancel' hle }

/-! ### All categories -/

/-- The number of models that files are made for. -/
def modelCount (twin : Option Model) : Nat := if twin.isSome then 2 else 1

theorem Tallies.sum_written {n : Nat} (h : w.Tallies m twin course n outcomes s t) :
    (outcomes.map (·.written)).sum = n * modelCount twin := by
  have hconst : outcomes.map (·.written) = List.replicate outcomes.length n := by
    rw [List.map_eq_replicate_iff]
    intro o ho
    exact (h.counts o ho).1
  have hlength : outcomes.length = modelCount twin := by
    have howners := congrArg List.length h.owners
    cases twin <;> simpa [modelCount] using howners
  rw [hconst, List.sum_replicate, smul_eq_mul, hlength, Nat.mul_comm]

theorem TakesAll.sum_written (h : w.TakesAll m twin courses s t) :
    ((courses.flatMap (w.courseOutcomes m twin)).map (·.written)).sum =
      w.settings.generation.numFormulas.toNat * courses.length * modelCount twin := by
  induction h with
  | none => simp
  | @course course courses _ _ _ htakes _ ih =>
    rw [List.flatMap_cons, List.map_append, List.sum_append, htakes.tallies.sum_written, ih, List.length_cons]
    ring

theorem courseOutcomes_owners (w : Workshop σ) (m : Model) (twin : Option Model) (courses : List Course) :
    (courses.flatMap (w.courseOutcomes m twin)).map (fun o => (o.category, o.variant)) =
      (courses.map (·.category)).flatMap fun c =>
        (c, m.key.variant) :: twin.toList.map fun x => (c, x.key.variant) := by
  rw [List.map_flatMap, List.flatMap_map]
  congr 1
  funext course
  cases twin <;> rfl

/-! ### The task -/

/-- The twin of the task, if it can be read. -/
def loadedTwin (w : Workshop σ) (task : Task) : Option Model :=
  task.twin.bind fun x => (x.load (Model.summaryOf w.disk)).toOption

theorem loadTwin_eq {twinError : Option String} (h : Work.Does (w.loadTwin task.twin) s (twin, twinError) t) :
    twin = w.loadedTwin task := by
  unfold loadTwin at h
  unfold loadedTwin
  cases htwin : task.twin with
  | none =>
    rw [htwin] at h
    have hpair := (Work.does_pure.mp h).1
    cases hpair
    rfl
  | some x =>
    rw [htwin] at h
    dsimp only at h
    cases hload : x.load (Model.summaryOf w.disk) with
    | ok x' =>
      rw [hload] at h
      have hpair := (Work.does_pure.mp h).1
      cases hpair
      simp [hload, Except.toOption]
    | error cause =>
      rw [hload] at h
      simp only [Work.does_bind, Work.does_report, Work.does_pure] at h
      obtain ⟨_, _, -, hpair, -⟩ := h
      cases hpair
      simp [hload, Except.toOption]

theorem relate_key {m' : Model} {unfolding : Unfolding} (h : Work.Does (relate m twin) s (m', unfolding) t) :
    m'.key = m.key := by
  rcases (relate_cases h).1 with rfl | ⟨x, -, rfl⟩
  · rfl
  · exact (m.ensureCorrespondence_remains x).key

theorem Readies.key {twinError : Option String} {unfolding : Unfolding}
    (h : w.Readies task s m twin twinError unfolding t) : m.key = task.model.key ∧ twin = w.loadedTwin task := by
  obtain ⟨m', u, hload, htwin, hrelate⟩ := h
  exact ⟨(relate_key hrelate).trans (Model.load_remains hload).key, loadTwin_eq htwin⟩

/-- The outcome of a task lists the configured categories in order, the model before its twin, and its total counts
    the configured number of formulas for each of them. -/
theorem run_written (h : Work.Gives (w.run task) s outcome t) :
    outcome.twin = (w.loadedTwin task).map (·.key.variant) ∧
      outcome.categories.map (fun o => (o.category, o.variant)) =
        (w.settings.generation.categories.flatMap fun c =>
          (c, task.model.key.variant) :: (w.loadedTwin task).toList.map fun x => (c, x.key.variant)) ∧
      outcome.written = w.settings.generation.numFormulas.toNat * w.settings.generation.categories.length *
        modelCount (w.loadedTwin task) := by
  obtain ⟨m, twin, twinError, unfolding, u, courses, hreadies, hcategories, hall, rfl⟩ := run_gives_iff.mp h
  obtain ⟨hkey, rfl⟩ := hreadies.key
  refine ⟨rfl, ?_, ?_⟩
  · have howners := courseOutcomes_owners w m (w.loadedTwin task) courses
    rwa [hcategories, hkey] at howners
  · have hsum := hall.sum_written
    rw [← hcategories, List.length_map]
    exact hsum

theorem totalWritten_of_written {n : UInt64} {c k : Nat} (h : outcome.written = n.toNat * c * k) :
    outcome.totalWritten = n * UInt64.ofNat c * UInt64.ofNat k := by
  unfold ModelOutcome.totalWritten
  rw [h, UInt64.ofNat_mul, UInt64.ofNat_mul, UInt64.ofNat_toNat]

/-- For every category as many formulas are written for a model as configured, and as many for its twin. The first
    ones of the twin are those of the model, unfolded in the same order, and the others are a selection of its own.
    So the total of a run is the product of the number of formulas, of categories and of models, in 64 bits. -/
theorem run_totals (w : Workshop σ) :
    (∀ m twin category s outcomes t, Work.Gives (w.runCategory m twin category) s outcomes t →
      ∃ course, course.category = category ∧ w.Takes m twin course s t ∧
        w.Tallies m twin course w.settings.generation.numFormulas.toNat outcomes s t) ∧
    ∀ task s outcome t, Work.Gives (w.run task) s outcome t →
      outcome.twin = (w.loadedTwin task).map (·.key.variant) ∧
      outcome.categories.map (fun o => (o.category, o.variant)) =
        (w.settings.generation.categories.flatMap fun c =>
          (c, task.model.key.variant) :: (w.loadedTwin task).toList.map fun x => (c, x.key.variant)) ∧
      outcome.written = w.settings.generation.numFormulas.toNat * w.settings.generation.categories.length *
        (if (w.loadedTwin task).isSome then 2 else 1) ∧
      outcome.totalWritten = w.settings.generation.numFormulas * UInt64.ofNat w.settings.generation.categories.length *
        (if (w.loadedTwin task).isSome then 2 else 1) := by
  constructor
  · intro m twin category s outcomes t h
    obtain ⟨course, hcategory, htakes, rfl⟩ := runCategory_gives_course.mp h
    exact ⟨course, hcategory, htakes, htakes.tallies⟩
  · intro task s outcome t h
    obtain ⟨htwin, howners, hwritten⟩ := run_written h
    refine ⟨htwin, howners, hwritten, ?_⟩
    rw [totalWritten_of_written hwritten, modelCount]
    split <;> rfl

/-- One formula is written for a net, and its unfolding for the twin. -/
theorem unanswered_run_totals :
    (∃ outcomes t course,
      Work.Gives (unanswered.runCategory relatedModel pairTask.twin .reachabilityFireability)
        { stream := .ofSeed 1, oracle := () } outcomes t ∧
      unanswered.Tallies relatedModel pairTask.twin course 1 outcomes { stream := .ofSeed 1, oracle := () } t) ∧
    ∃ outcome t, Work.Gives (unanswered.run pairTask) { stream := .ofSeed 1, oracle := () } outcome t ∧
      outcome.written = 2 ∧ outcome.totalWritten = 2 := by
  obtain ⟨hcategory, htask⟩ := run_totals unanswered
  constructor
  · obtain ⟨course, t, htakes, hcourse, -⟩ := unanswered_takes
    have hrun := runCategory_gives_course.mpr ⟨course, hcourse, htakes, rfl⟩
    obtain ⟨course', -, -, htallies⟩ := hcategory _ _ _ _ _ _ hrun
    exact ⟨_, t, course', hrun, htallies⟩
  · obtain ⟨_, t, hrun, -⟩ := unanswered_run
    obtain ⟨-, -, hwritten, htotal⟩ := htask _ _ _ _ hrun
    exact ⟨_, t, hrun, hwritten, htotal⟩

end Workshop
end Formulary
