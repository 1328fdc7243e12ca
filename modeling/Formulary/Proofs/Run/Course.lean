import Formulary.Proofs.Run.Category

/-! The course of the work on a task. The nets are read and related once, and then the categories follow one after
    the other, each from the session that the last one left. -/

namespace Formulary
namespace Workshop
variable {σ : Type} {w : Workshop σ} {m : Model} {twin : Option Model} {course : Course} {courses : List Course}
  {category : Category} {categories : List Category} {outcomes : List CategoryOutcome} {task : Task}
  {outcome : ModelOutcome} {s t u : Session σ}

/-! ### All categories -/

/-- The courses are taken one after the other. -/
inductive TakesAll (w : Workshop σ) (m : Model) (twin : Option Model) : List Course → Session σ → Session σ → Prop
  | none (s : Session σ) : TakesAll w m twin [] s s
  | course {course : Course} {courses : List Course} {s t u : Session σ} : w.Takes m twin course s t →
      TakesAll w m twin courses t u → TakesAll w m twin (course :: courses) s u

theorem TakesAll.takes_of_mem (h : w.TakesAll m twin courses s u) (hc : course ∈ courses) :
    ∃ s' t, w.Takes m twin course s' t := by
  induction h with
  | none => exact absurd hc List.not_mem_nil
  | course htakes _ ih =>
    rcases List.mem_cons.mp hc with rfl | hc
    · exact ⟨_, _, htakes⟩
    · exact ih hc

theorem runCategories_gives_iff :
    Work.Gives (w.runCategories m twin categories) s outcomes t ↔
      ∃ courses, courses.map (·.category) = categories ∧ w.TakesAll m twin courses s t ∧
        outcomes = courses.flatMap (w.courseOutcomes m twin) := by
  induction categories generalizing s t outcomes with
  | nil =>
    rw [runCategories, Work.gives_pure]
    constructor
    · rintro ⟨rfl, rfl⟩
      exact ⟨[], rfl, .none _, rfl⟩
    · rintro ⟨courses, hnone, htakes, rfl⟩
      obtain rfl := List.map_eq_nil_iff.mp hnone
      cases htakes
      exact ⟨rfl, rfl⟩
  | cons category categories ih =>
    simp only [runCategories, Work.gives_bind, Work.gives_adapt, Work.gives_pure, runCategory_gives_course, ih]
    constructor
    · rintro ⟨_, v, ⟨course, rfl, htakes, rfl⟩, _, _, ⟨courses, rfl, hall, rfl⟩, rfl, rfl⟩
      exact ⟨course :: courses, rfl, .course htakes hall, rfl⟩
    · rintro ⟨courses, hcategories, hall, rfl⟩
      obtain ⟨course, courses, rfl, rfl, rfl⟩ := List.map_eq_cons_iff.mp hcategories
      cases hall with
      | course htakes hall => exact ⟨_, _, ⟨course, rfl, htakes, rfl⟩, _, _, ⟨courses, rfl, hall, rfl⟩, rfl, rfl⟩

/-! ### The task -/

/-- The model of the task is read, and so is its twin, unless it is left aside; then the two are related. -/
def Readies (w : Workshop σ) (task : Task) (s : Session σ) (m : Model) (twin : Option Model)
    (twinError : Option String) (unfolding : Unfolding) (t : Session σ) : Prop :=
  ∃ m' u, task.model.load (Model.summaryOf w.disk) = .ok m' ∧
    Work.Does (w.loadTwin task.twin) s (twin, twinError) u ∧ Work.Does (relate m' twin) u (m, unfolding) t

/-- What is reported about a task whose nets are at hand. -/
def taskOutcome (w : Workshop σ) (m : Model) (twin : Option Model) (twinError : Option String) (unfolding : Unfolding)
    (courses : List Course) : ModelOutcome where
  name := m.key.name
  instanceName := m.key.instanceName
  variant := m.key.variant
  twin := twin.map (·.key.variant)
  twinError := twinError
  unfolding := unfolding
  unmappedPlaces := m.unmappedPlaces.length
  unmappedTransitions := m.unmappedTransitions.length
  categories := courses.flatMap (w.courseOutcomes m twin)

/-- A colored model is related to its twin unless it is found that they do not correspond. -/
theorem relate_usable {m' x : Model} {notices : List Notice} (hm : m.isColored = true)
    (hensure : m.ensureCorrespondence x = (m', notices)) (hfound : ∀ e, m'.correspondence ≠ some (.error e)) :
    Work.Does (relate m (some x)) s (m', .usable) { s with notices := s.notices ++ notices } := by
  unfold relate
  rw [if_pos hm]
  simp only [hensure, Work.does_bind, Work.does_report]
  exact ⟨(), _, rfl, Work.does_pure.mpr ⟨rfl, rfl⟩⟩

theorem relate_unusable {m' x : Model} {notices : List Notice} {e : MappingError} (hm : m.isColored = true)
    (hensure : m.ensureCorrespondence x = (m', notices)) (hfound : m'.correspondence = some (.error e)) :
    Work.Does (relate m (some x)) s (m', .unusable e.message)
      { s with notices := s.notices ++ (notices ++ [.unfoldingDisabled m'.fullName e.message]) } := by
  unfold relate
  rw [if_pos hm]
  simp only [hensure, Work.does_bind, Work.does_report, hfound, Work.does_pure]
  exact ⟨(), _, rfl, (), _, rfl, trivial, by rw [List.append_assoc]⟩

/-- A model and its twin are related in the same way in every session, and what is reported is added to it. -/
theorem exists_relate (m : Model) (twin : Option Model) :
    ∃ m' unfolding notices, (m' = m ∨ ∃ x, twin = some x ∧ m' = (m.ensureCorrespondence x).1) ∧
      ∀ {σ : Type} (s : Session σ),
        Work.Does (relate m twin) s (m', unfolding) { s with notices := s.notices ++ notices } := by
  have unchanged {σ : Type} (s : Session σ) : s = { s with notices := s.notices ++ [] } := by rw [List.append_nil]
  by_cases hm : m.isColored = true
  case neg =>
    refine ⟨m, .notApplicable, [], .inl rfl, fun s => ?_⟩
    unfold relate
    rw [if_neg hm]
    exact Work.does_pure.mpr ⟨rfl, unchanged s⟩
  cases twin with
  | none =>
    refine ⟨m, .noTwin, [], .inl rfl, fun s => ?_⟩
    unfold relate
    rw [if_pos hm]
    exact Work.does_pure.mpr ⟨rfl, unchanged s⟩
  | some x =>
    have hrelated : ∃ y, some x = some y ∧ (m.ensureCorrespondence x).1 = (m.ensureCorrespondence y).1 := ⟨x, rfl, rfl⟩
    by_cases hfound : ∃ e, (m.ensureCorrespondence x).1.correspondence = some (.error e)
    · obtain ⟨e, he⟩ := hfound
      exact ⟨_, _, _, .inr hrelated, fun s => relate_unusable hm rfl he⟩
    · exact ⟨_, _, _, .inr hrelated, fun s => relate_usable hm rfl (not_exists.mp hfound)⟩

theorem relate_cases {m' : Model} {unfolding : Unfolding} (h : Work.Does (relate m twin) s (m', unfolding) t) :
    (m' = m ∨ ∃ x, twin = some x ∧ m' = (m.ensureCorrespondence x).1) ∧
      ∃ notices, t = { s with notices := s.notices ++ notices } ∧ ∀ {τ : Type} (u : Session τ),
        Work.Does (relate m twin) u (m', unfolding) { u with notices := u.notices ++ notices } := by
  obtain ⟨_, _, notices, hrelated, hdoes⟩ := exists_relate m twin
  cases h.symm.trans (hdoes s)
  exact ⟨hrelated, notices, rfl, hdoes⟩

/-- After the correspondence was looked for, the model is prepared for its twin. -/
theorem relate_prepared {m' : Model} {unfolding : Unfolding} (hm : m.correspondence = none)
    (h : Work.Does (relate m twin) s (m', unfolding) t) : m'.Prepared twin := by
  intro x hx
  rcases (relate_cases h).1 with rfl | ⟨y, hy, rfl⟩
  · exact .inl hm
  · cases hy.symm.trans hx
    exact .inr ⟨m, hm, rfl⟩

/-- If no correspondence was looked for before, the model is prepared for its twin. -/
theorem Readies.prepared {twinError : Option String} {unfolding : Unfolding} (hnew : task.model.correspondence = none)
    (h : w.Readies task s m twin twinError unfolding t) : m.Prepared twin := by
  obtain ⟨m', u, hload, -, hrelate⟩ := h
  refine relate_prepared ?_ hrelate
  rw [Model.load_correspondence hload, hnew]

theorem gives_settle {ε α : Type} {result : Except ε α} {a : α} :
    Work.Gives (Work.settle result : ExceptT ε (Work σ) α) s a t ↔ result = .ok a ∧ s = t := by
  show Work.Does (pure result) s (.ok a) t ↔ _
  rw [Work.does_pure]

theorem run_gives_iff :
    Work.Gives (w.run task) s outcome t ↔
      ∃ m twin twinError unfolding u courses, w.Readies task s m twin twinError unfolding u ∧
        courses.map (·.category) = w.settings.generation.categories ∧ w.TakesAll m twin courses u t ∧
        outcome = w.taskOutcome m twin twinError unfolding courses := by
  simp only [run, Work.gives_bind, gives_settle, Work.gives_lift, runCategories_gives_iff, Work.gives_pure]
  constructor
  · rintro ⟨m', _, ⟨hload, rfl⟩, ⟨twin, twinError⟩, u, htwin, ⟨m, unfolding⟩, v, hrelate, _, _,
      ⟨courses, hcategories, hall, rfl⟩, rfl, rfl⟩
    refine ⟨m, twin, twinError, unfolding, v, courses, ⟨m', u, ?_, htwin, hrelate⟩, hcategories, hall, rfl⟩
    cases hread : task.model.load (Model.summaryOf w.disk) with
    | error e =>
      rw [hread] at hload
      cases hload
    | ok m =>
      rw [hread] at hload
      cases hload
      rfl
  · rintro ⟨m, twin, twinError, unfolding, v, courses, ⟨m', u, hload, htwin, hrelate⟩, hcategories, hall, rfl⟩
    exact ⟨m', s, ⟨by rw [hload]; rfl, rfl⟩, (twin, twinError), u, htwin, (m, unfolding), v, hrelate, _, t,
      ⟨courses, hcategories, hall, rfl⟩, rfl, rfl⟩

/-! ### What is written -/

theorem loadTwin_written {twinError : Option String} (h : Work.Does (w.loadTwin task.twin) s (twin, twinError) t) :
    t.written = s.written := by
  unfold loadTwin at h
  split at h
  case h_1 => rw [← (Work.does_pure.mp h).2]
  case h_2 =>
    split at h
    case h_1 => rw [← (Work.does_pure.mp h).2]
    case h_2 =>
      simp only [Work.does_bind, Work.does_report, Work.does_pure] at h
      obtain ⟨_, _, rfl, -, rfl⟩ := h
      rfl

theorem relate_written {m' : Model} {unfolding : Unfolding} (h : Work.Does (relate m twin) s (m', unfolding) t) :
    t.written = s.written := by
  obtain ⟨-, notices, rfl, -⟩ := relate_cases h
  rfl

theorem Readies.written {twinError : Option String} {unfolding : Unfolding}
    (h : w.Readies task s m twin twinError unfolding t) : t.written = s.written := by
  obtain ⟨_, u, -, htwin, hrelate⟩ := h
  rw [relate_written hrelate, loadTwin_written htwin]

theorem TakesAll.written (h : w.TakesAll m twin courses s t) :
    t.written = s.written ++ courses.flatMap (w.courseFiles m twin) := by
  induction h with
  | none => rw [List.flatMap_nil, List.append_nil]
  | course htakes _ ih => rw [ih, htakes.written, List.flatMap_cons, List.append_assoc]

/-! ### Which formulas a task is about -/

theorem loadTwin_recorded {twinError : Option String} (log : List Request)
    (h : Work.Does (w.loadTwin task.twin) s (twin, twinError) t) :
    Work.Does (w.recorded.loadTwin task.twin) (s.recording log) (twin, twinError) (t.recording log) := by
  have hdisk : w.recorded.disk = w.disk := rfl
  unfold loadTwin at *
  rw [hdisk]
  split at h
  case h_1 =>
    obtain ⟨hresult, rfl⟩ := Work.does_pure.mp h
    exact Work.does_pure.mpr ⟨hresult, rfl⟩
  case h_2 =>
    split at h
    case h_1 =>
      obtain ⟨hresult, rfl⟩ := Work.does_pure.mp h
      exact Work.does_pure.mpr ⟨hresult, rfl⟩
    case h_2 =>
      simp only [Work.does_bind, Work.does_report, Work.does_pure] at h ⊢
      obtain ⟨_, _, rfl, hresult, rfl⟩ := h
      exact ⟨(), _, rfl, hresult, rfl⟩

theorem relate_recorded {m' : Model} {unfolding : Unfolding} (log : List Request)
    (h : Work.Does (relate m twin) s (m', unfolding) t) :
    Work.Does (relate m twin) (s.recording log) (m', unfolding) (t.recording log) := by
  obtain ⟨-, notices, rfl, hdoes⟩ := relate_cases h
  exact hdoes _

theorem Readies.recorded {twinError : Option String} {unfolding : Unfolding} (log : List Request)
    (h : w.Readies task s m twin twinError unfolding t) :
    w.recorded.Readies task (s.recording log) m twin twinError unfolding (t.recording log) := by
  obtain ⟨m', u, hload, htwin, hrelate⟩ := h
  exact ⟨m', _, hload, loadTwin_recorded log htwin, relate_recorded log hrelate⟩

theorem TakesAll.recorded (log : List Request) (h : w.TakesAll m twin courses s t) :
    w.recorded.TakesAll m twin courses (s.recording log)
      (t.recording (log ++ courses.flatMap (courseRequests m twin))) := by
  induction h generalizing log with
  | none =>
    rw [List.flatMap_nil, List.append_nil]
    exact .none _
  | course htakes _ ih =>
    rw [List.flatMap_cons, ← List.append_assoc]
    exact .course (htakes.recorded log) (ih _)

/-- Where the files of a task are made, and no correspondence was looked for before, all formulas in the files of all
    categories and in the questions to the oracle belong to the language of their category, over the identifiers of
    the model that they are written or checked for. -/
theorem run_speaks (hnew : task.model.correspondence = none) (h : Work.Gives (w.run task) s outcome t) :
    ∃ (m : Model) (twin : Option Model) (courses : List Course),
      courses.map (·.category) = w.settings.generation.categories ∧
      t.written = s.written ++ courses.flatMap (w.courseFiles m twin) ∧
      Work.Gives (w.recorded.run task) (s.recording []) outcome
        (t.recording (courses.flatMap (courseRequests m twin))) ∧
      ∀ course ∈ courses, (∀ f ∈ course.selection.formulas, w.Speaks course.category m f) ∧
        (∀ x ∈ twin, ∀ f ∈ w.unfoldings m course.selection.formulas ++ course.twinSelection.formulas,
          w.Speaks course.category x f) ∧
        ∀ request ∈ courseRequests m twin course, ∃ x, (x = m ∨ twin = some x) ∧ w.Asks course.category x request := by
  obtain ⟨m, twin, twinError, unfolding, u, courses, hreadies, hcategories, hall, rfl⟩ := run_gives_iff.mp h
  have hwritten := hall.written
  rw [hreadies.written] at hwritten
  have hrecorded := run_gives_iff.mpr ⟨m, twin, twinError, unfolding, _, courses, hreadies.recorded [], hcategories,
    hall.recorded [], rfl⟩
  refine ⟨m, twin, courses, hcategories, hwritten, hrecorded, fun course hcourse => ?_⟩
  obtain ⟨_, _, htakes⟩ := hall.takes_of_mem hcourse
  have hm := hreadies.prepared hnew
  obtain ⟨hformulas, htwin⟩ := htakes.speaks hm
  exact ⟨hformulas, htwin, htakes.asks hm⟩

end Workshop
end Formulary
