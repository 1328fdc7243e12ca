import Formulary.Proofs.Net.Arena
import Formulary.Proofs.Net.Unfolding
import Formulary.Proofs.Run.Session
import Formulary.Run.Task

/-! What the work on a task depends on: the settings for formulas and filtering, the keystream, what its own model
    files tell, whether its own property files can be written, and what the oracle answers about its own model files.
    Two workshops that agree in these come to the same and write the same files, whatever they report. -/

namespace Formulary

/-- The name of a property file that is made with the settings. -/
def Settings.IsPropertyFile (s : Settings) (name : String) : Prop :=
  ∃ category ∈ s.generation.categories, name = category.xmlFileName ∨ name = category.textFileName

/-- The path of a property file of a model of the task. -/
def Task.Owns (t : Task) (s : Settings) (path : String) : Prop :=
  ∃ m ∈ t.models, ∃ name, s.IsPropertyFile name ∧ path = Path.join m.directory name

/-- Two sessions differ at most in what was reported. -/
structure Session.Alike {σ : Type} (s t : Session σ) : Prop where
  stream : t.stream = s.stream
  oracle : t.oracle = s.oracle
  written : t.written = s.written

namespace Work
variable {σ α β ε δ : Type} {files : String → Prop} {P : α → Prop} {Q : β → Prop}

/-- Two parts of the work come to the same, which has the property `P`, and write the same files, with paths among
    `files`. -/
def Agree (files : String → Prop) (P : α → Prop) (x y : Work σ α) : Prop :=
  ∀ s t, s.Alike t → (y.run.run t).1 = (x.run.run s).1 ∧ (x.run.run s).2.Alike (y.run.run t).2 ∧
    (∃ written, (x.run.run s).2.written = s.written ++ written ∧ ∀ f ∈ written, files f.1) ∧
    ∀ a, (x.run.run s).1 = .ok a → P a

/-- The same of parts that may fail. -/
def Agrees (files : String → Prop) (P : α → Prop) (x y : ExceptT ε (Work σ) α) : Prop :=
  Agree files (fun r => ∀ a, r = .ok a → P a) x.run y.run

theorem agree_pure {a : α} (h : P a) : Agree files P (pure a : Work σ α) (pure a) := by
  intro s t hst
  refine ⟨rfl, hst, ⟨[], (List.append_nil _).symm, nofun⟩, ?_⟩
  intro b hb
  cases hb
  exact h

theorem Agree.bind {x y : Work σ α} {f g : α → Work σ β} (h : Agree files P x y)
    (hf : ∀ a, P a → Agree files Q (f a) (g a)) : Agree files Q (x >>= f) (y >>= g) := by
  intro s t hst
  obtain ⟨hresult, halike, ⟨written, hwritten, hfiles⟩, hP⟩ := h s t hst
  have hx : (x >>= f).run.run s = match x.run.run s with
      | (.ok a, s') => (f a).run.run s'
      | (.error e, s') => (.error e, s') := by
    simp only [ExceptT.run_bind, StateT.run_bind]
    rcases x.run.run s with ⟨_ | _, s'⟩ <;> rfl
  have hy : (y >>= g).run.run t = match y.run.run t with
      | (.ok a, t') => (g a).run.run t'
      | (.error e, t') => (.error e, t') := by
    simp only [ExceptT.run_bind, StateT.run_bind]
    rcases y.run.run t with ⟨_ | _, t'⟩ <;> rfl
  rw [hx, hy]
  rcases hxs : x.run.run s with ⟨r, s'⟩
  rcases hyt : y.run.run t with ⟨r', t'⟩
  rw [hxs, hyt] at hresult halike
  rw [hxs] at hwritten hP
  cases hresult
  cases r with
  | error e => exact ⟨rfl, halike, ⟨written, hwritten, hfiles⟩, nofun⟩
  | ok a =>
    obtain ⟨hresult', halike', ⟨written', hwritten', hfiles'⟩, hQ⟩ := hf a (hP a rfl) s' t' halike
    refine ⟨hresult', halike', ⟨written ++ written', ?_, ?_⟩, hQ⟩
    · exact hwritten'.trans (by rw [hwritten, List.append_assoc])
    · intro f hf
      exact (List.mem_append.mp hf).elim (hfiles f) (hfiles' f)

theorem agree_report (notices notices' : List Notice) :
    Agree files (fun _ => True) (report notices : Work σ Unit) (report notices') := by
  intro s t hst
  exact ⟨rfl, ⟨hst.stream, hst.oracle, hst.written⟩, ⟨[], (List.append_nil _).symm, nofun⟩, fun _ _ => trivial⟩

theorem agree_wrote {path text : String} (h : files path) :
    Agree files (fun _ => True) (wrote path text : Work σ Unit) (wrote path text) := by
  intro s t hst
  refine ⟨rfl, ⟨hst.stream, hst.oracle, ?_⟩, ⟨[(path, text)], rfl, ?_⟩, fun _ _ => trivial⟩
  · show t.written ++ _ = s.written ++ _
    rw [hst.written]
  · intro f hf
    cases List.mem_singleton.mp hf
    exact h

/-- Questions with the same answer agree, whatever there is to report about them. -/
theorem agree_consult {question question' : StateM σ (List Notice × α)}
    (h : ∀ o, (question'.run o).1.2 = (question.run o).1.2 ∧ (question'.run o).2 = (question.run o).2) :
    Agree files (fun _ => True) (consult question) (consult question') := by
  intro s t hst
  obtain ⟨hanswer, horacle⟩ := h s.oracle
  have hx : (consult question).run.run s = (.ok (question.run s.oracle).1.2,
      { s with oracle := (question.run s.oracle).2, notices := s.notices ++ (question.run s.oracle).1.1 }) := rfl
  have hy : (consult question').run.run t = (.ok (question'.run t.oracle).1.2,
      { t with oracle := (question'.run t.oracle).2, notices := t.notices ++ (question'.run t.oracle).1.1 }) := rfl
  rw [hx, hy, hst.oracle]
  exact ⟨congrArg Except.ok hanswer, ⟨hst.stream, horacle, hst.written⟩, ⟨[], (List.append_nil _).symm, nofun⟩, fun _ _ => trivial⟩

/-! ### Parts that may fail -/

theorem agrees_settle {r : Except ε α} (h : ∀ a, r = .ok a → P a) :
    Agrees files P (ExceptT.mk (pure r) : ExceptT ε (Work σ) α) (ExceptT.mk (pure r)) := agree_pure h

theorem agrees_pure {a : α} (h : P a) : Agrees files P (pure a : ExceptT ε (Work σ) α) (pure a) :=
  agrees_settle fun _ ha => Except.ok.inj ha ▸ h

theorem agrees_throw (e : ε) : Agrees files P (throw e : ExceptT ε (Work σ) α) (throw e) :=
  agrees_settle (r := .error e) nofun

theorem Agrees.bind {x y : ExceptT ε (Work σ) α} {f g : α → ExceptT ε (Work σ) β} (h : Agrees files P x y)
    (hf : ∀ a, P a → Agrees files Q (f a) (g a)) : Agrees files Q (x >>= f) (y >>= g) := by
  unfold Agrees
  rw [ExceptT.run_bind, ExceptT.run_bind]
  refine Agree.bind h fun r hr => ?_
  cases r with
  | error e => exact agree_pure nofun
  | ok a => exact hf a (hr a rfl)

theorem agrees_lift {x y : Work σ α} (h : Agree files P x y) :
    Agrees files P (liftM x : ExceptT ε (Work σ) α) (liftM y) := by
  show Agree files _ (Except.ok <$> x) (Except.ok <$> y)
  rw [map_eq_pure_bind, map_eq_pure_bind]
  exact h.bind fun a ha => agree_pure fun b hb => Except.ok.inj hb ▸ ha

theorem agrees_adapt {x y : ExceptT ε (Work σ) α} (f : ε → δ) (h : Agrees files P x y) :
    Agrees files P (x.adapt f) (y.adapt f) := by
  show Agree files _ (Except.mapError f <$> x.run) (Except.mapError f <$> y.run)
  rw [map_eq_pure_bind, map_eq_pure_bind]
  refine Agree.bind h fun r hr => agree_pure fun a ha => ?_
  cases r with
  | error e => cases ha
  | ok b =>
    cases ha
    exact hr _ rfl

theorem agrees_check (x : Except Fault α) :
    Agrees files (fun _ => True) (liftM x : ExceptT ε (Work σ) α) (liftM x) := by
  intro s t hst
  cases x with
  | error e => exact ⟨rfl, hst, ⟨[], (List.append_nil _).symm, nofun⟩, nofun⟩
  | ok a => exact ⟨rfl, hst, ⟨[], (List.append_nil _).symm, nofun⟩, fun _ _ _ _ => trivial⟩

/-- Choices depend on the keystream alone. -/
theorem agrees_generate (g : Generation α) :
    Agrees files (fun _ => True) (generate g : ExceptT GenerationError (Work σ) α) (generate g) := by
  intro s t hst
  cases hrun : g.run.run s.stream with
  | error fault =>
    have hrun' : g.run.run t.stream = .error fault := by rw [hst.stream, hrun]
    rw [run_generate_of_error hrun, run_generate_of_error hrun']
    exact ⟨rfl, hst, ⟨[], (List.append_nil _).symm, nofun⟩, nofun⟩
  | ok r =>
    obtain ⟨result, stream⟩ := r
    have hrun' : g.run.run t.stream = .ok (result, stream) := by rw [hst.stream, hrun]
    rw [run_generate_of_ok hrun, run_generate_of_ok hrun']
    exact ⟨rfl, ⟨rfl, hst.oracle, hst.written⟩, ⟨[], (List.append_nil _).symm, nofun⟩, fun _ _ _ _ => trivial⟩

end Work

/-! ### Oracles -/

/-- Two oracles keep the same of what a request is about, or neither can answer. -/
def Oracle.SameAnswer {σ : Type} (o o' : Oracle σ) (request : Request) : Prop :=
  ∀ state, ((o' request).run state).1.verdict.toOption = ((o request).run state).1.verdict.toOption ∧
    ((o' request).run state).2 = ((o request).run state).2

namespace Subject
variable {σ : Type} {subject : Subject} {task : Task} {o o' : Oracle σ}

/-- What is asked about formulas of the subject is asked about a model file of the task. -/
def Within (subject : Subject) (task : Task) : Prop := ∀ category batch target request,
  subject.request? category batch target = some request → ∃ m ∈ task.models, request.modelFile = m.file

theorem kept_congr {size : Nat} {reply reply' : Reply} (h : reply'.verdict.toOption = reply.verdict.toOption) :
    (subject.kept size reply').2 = (subject.kept size reply).2 := by
  unfold kept
  cases hverdict : reply.verdict <;> cases hverdict' : reply'.verdict <;>
    simp_all [Except.toOption]

theorem filter_answer (hsubject : subject.Within task)
    (h : ∀ m ∈ task.models, ∀ request, request.modelFile = m.file → o.SameAnswer o' request) (category : Category)
    (batch : List Formula) (target : Nat) (state : σ) :
    ((subject.filter o' category batch target).run state).1.2 = ((subject.filter o category batch target).run state).1.2 ∧
      ((subject.filter o' category batch target).run state).2 =
        ((subject.filter o category batch target).run state).2 := by
  unfold filter
  cases hrequest : subject.request? category batch target with
  | none => exact ⟨rfl, rfl⟩
  | some request =>
    obtain ⟨m, hm, hfile⟩ := hsubject category batch target request hrequest
    obtain ⟨hverdict, hstate⟩ := h m hm request hfile state
    exact ⟨kept_congr hverdict, hstate⟩

end Subject

/-! ### The work on a task -/

namespace Workshop
variable {σ : Type} {w w' : Workshop σ} {task : Task} {subject : Subject} {files : String → Prop} {m : Model}
  {twin : Option Model}

/-- The workshop `w'` has the settings of `w` for formulas and filtering, and a task finds the same in both. -/
structure Matches (w w' : Workshop σ) (task : Task) : Prop where
  generation : w'.settings.generation = w.settings.generation
  filter : w'.settings.filter = w.settings.filter
  catalog : w'.catalog = w.catalog
  reads : ∀ m ∈ task.models, Model.summaryOf w'.disk m.file = Model.summaryOf w.disk m.file
  writable : ∀ path, task.Owns w.settings path → w'.disk.writable path = w.disk.writable path
  answers : ∀ m ∈ task.models, ∀ request, request.modelFile = m.file → w.oracle.SameAnswer w'.oracle request

/-- A file that the task can write. -/
def CanWrite (w : Workshop σ) (task : Task) (path : String) : Prop :=
  task.Owns w.settings path ∧ w.disk.writable path = .ok ()

theorem Matches.batch_eq (h : w.Matches w' task) (category : Category) (binder : Binder) (size : Nat) :
    w'.batch category binder size = w.batch category binder size := by
  have hcandidate : w'.candidate category binder = w.candidate category binder := by
    unfold candidate
    rw [h.catalog, h.generation]
  induction size with
  | zero => rfl
  | succ size ih =>
    unfold batch
    rw [hcandidate, ih]

theorem Matches.rounds (h : w.Matches w' task) (hsubject : subject.Within task) (category : Category) (binder : Binder)
    (count left got : Nat) : Work.Agrees files (fun _ => True) (w.rounds subject category binder count left got)
      (w'.rounds subject category binder count left got) := by
  induction left generalizing got with
  | zero => exact Work.agrees_pure trivial
  | succ left ih =>
    unfold Workshop.rounds
    rw [h.filter]
    refine (Work.agrees_check _).bind fun target _ => ?_
    split
    · exact Work.agrees_pure trivial
    · rw [h.batch_eq]
      refine (Work.agrees_generate _).bind fun batch _ => ?_
      refine (Work.agrees_lift (Work.agree_consult ?_)).bind fun kept _ => ?_
      · exact Subject.filter_answer hsubject h.answers category batch target
      refine (Work.agrees_check _).bind fun taken _ => ?_
      exact (ih _).bind fun rounds _ => Work.agrees_pure trivial

theorem Matches.choose (h : w.Matches w' task) (hsubject : subject.Within task) (category : Category) (count : Nat) :
    Work.Agrees files (fun _ => True) (w.choose subject category count) (w'.choose subject category count) := by
  unfold Workshop.choose select
  rw [h.filter, h.generation]
  refine Work.agrees_adapt _ ?_
  refine (h.rounds hsubject category _ count _ 0).bind fun rounds _ => ?_
  refine (Work.agrees_check _).bind fun missing _ => ?_
  split
  · exact Work.agrees_pure trivial
  · refine (Work.agrees_lift (Work.agree_report _ _)).bind fun _ _ => ?_
    rw [h.batch_eq]
    exact (Work.agrees_generate _).bind fun fill _ => Work.agrees_pure trivial

theorem Matches.writeFile (h : w.Matches w' task) {path text : String} (hpath : task.Owns w.settings path) :
    Work.Agrees (w.CanWrite task) (fun _ => True) (w.writeFile path text) (w'.writeFile path text) := by
  unfold Workshop.writeFile
  rw [h.writable path hpath]
  split
  · exact Work.agrees_throw _
  · rename_i hwritable
    exact Work.agrees_lift (Work.agree_wrote ⟨hpath, hwritable⟩)

theorem Matches.writeProperties (h : w.Matches w' task) (hm : ∃ n ∈ task.models, n.directory = m.directory)
    {category : Category} (hcategory : category ∈ w.settings.generation.categories) (formulas : List Formula) :
    Work.Agrees (w.CanWrite task) (fun _ => True) (w.writeProperties m category formulas)
      (w'.writeProperties m category formulas) := by
  obtain ⟨n, hn, hdirectory⟩ := hm
  refine (h.writeFile ⟨n, hn, _, ⟨category, hcategory, .inl rfl⟩, by rw [hdirectory]⟩).bind fun _ _ => ?_
  exact h.writeFile ⟨n, hn, _, ⟨category, hcategory, .inr rfl⟩, by rw [hdirectory]⟩

/-- A model and its twin as they are worked on live in the directories of the models of a task. -/
structure Housed (task : Task) (m : Model) (twin : Option Model) : Prop where
  model : ∃ n ∈ task.models, n.directory = m.directory
  twin : ∀ x ∈ twin, ∃ n ∈ task.models, n.directory = x.directory

theorem within_direct (hm : ∃ n ∈ task.models, n.directory = m.directory) : (Subject.direct m).Within task := by
  obtain ⟨n, hn, hdirectory⟩ := hm
  intro category batch target request hrequest
  cases hrequest
  exact ⟨n, hn, by rw [Model.file, Model.file, hdirectory]⟩

theorem Housed.within (h : Housed task m twin) : (Subject.ofModel m twin).Within task := by
  unfold Subject.ofModel
  split
  · exact within_direct h.model
  · split
    · nofun
    · nofun
    · obtain ⟨n, hn, hdirectory⟩ := h.twin _ rfl
      intro category batch target request hrequest
      cases hrequest
      exact ⟨n, hn, by rw [Model.file, Model.file, hdirectory]⟩

theorem Matches.runCategory (h : w.Matches w' task) (hhoused : Housed task m twin) {category : Category}
    (hcategory : category ∈ w.settings.generation.categories) :
    Work.Agrees (w.CanWrite task) (fun _ => True) (w.runCategory m twin category) (w'.runCategory m twin category) := by
  unfold Workshop.runCategory unfoldings
  rw [h.generation]
  refine (h.choose hhoused.within category _).bind fun selection _ => ?_
  refine (h.writeProperties hhoused.model hcategory _).bind fun _ _ => ?_
  cases twin with
  | none => exact Work.agrees_pure trivial
  | some x =>
    have hx := hhoused.twin x rfl
    dsimp only
    refine (Work.agrees_check _).bind fun count _ => ?_
    refine (h.choose (within_direct hx) category _).bind fun rest _ => ?_
    exact (h.writeProperties hx hcategory _).bind fun _ _ => Work.agrees_pure trivial

theorem Matches.runCategories (h : w.Matches w' task) (hhoused : Housed task m twin) {categories : List Category}
    (hcategories : categories ⊆ w.settings.generation.categories) :
    Work.Agrees (w.CanWrite task) (fun _ => True) (w.runCategories m twin categories)
      (w'.runCategories m twin categories) := by
  induction categories with
  | nil => exact Work.agrees_pure trivial
  | cons category rest ih =>
    obtain ⟨hcategory, hrest⟩ := List.cons_subset.mp hcategories
    refine (Work.agrees_adapt _ (h.runCategory hhoused hcategory)).bind fun outcomes _ => ?_
    exact (ih hrest).bind fun _ _ => Work.agrees_pure trivial

theorem load_congr {ε : Type} {parse parse' : String → Except ε NetSummary} (h : parse' m.file = parse m.file) :
    m.load parse' = m.load parse := by
  unfold Model.load
  rw [h]

theorem Matches.loadTwin (h : w.Matches w' task) : Work.Agree files
    (fun r => ∀ x ∈ r.1, ∃ n ∈ task.models, n.directory = x.directory) (w.loadTwin task.twin) (w'.loadTwin task.twin) := by
  unfold Workshop.loadTwin
  cases htwin : task.twin with
  | none => exact Work.agree_pure nofun
  | some x =>
    have hx : x ∈ task.models := List.mem_cons_of_mem _ (by rw [htwin]; exact List.mem_singleton_self x)
    dsimp only
    rw [load_congr (h.reads x hx)]
    cases hload : x.load (Model.summaryOf w.disk) with
    | ok loaded =>
      refine Work.agree_pure fun y hy => ?_
      cases Option.mem_some.mp hy
      exact ⟨x, hx, (Model.load_remains hload).directory.symm⟩
    | error cause => exact (Work.agree_report _ _).bind fun _ _ => Work.agree_pure nofun

theorem relate_agrees (m : Model) (twin : Option Model) : Work.Agree files (fun r => r.1.directory = m.directory)
    (relate m twin : Work σ (Model × Unfolding)) (relate m twin) := by
  unfold relate
  split
  · split
    · exact Work.agree_pure rfl
    · refine (Work.agree_report _ _).bind fun _ _ => ?_
      split
      · exact (Work.agree_report _ _).bind fun _ _ => Work.agree_pure (m.ensureCorrespondence_remains _).directory
      · exact Work.agree_pure (m.ensureCorrespondence_remains _).directory
  · exact Work.agree_pure rfl

/-- Where a task finds the same, it comes to the same. -/
theorem Matches.run (h : w.Matches w' task) :
    Work.Agrees (w.CanWrite task) (fun _ => True) (w.run task) (w'.run task) := by
  have hmodel : task.model ∈ task.models := List.mem_cons_self
  unfold Workshop.run
  rw [load_congr (h.reads _ hmodel), h.generation]
  refine Work.Agrees.bind (P := fun m => m.directory = task.model.directory) (Work.agrees_settle ?_) fun m hm => ?_
  · intro m hm
    cases hload : task.model.load (Model.summaryOf w.disk) with
    | error e =>
      rw [hload] at hm
      cases hm
    | ok loaded =>
      rw [hload] at hm
      cases hm
      exact (Model.load_remains hload).directory
  refine (Work.agrees_lift h.loadTwin).bind fun r hr => ?_
  refine (Work.agrees_lift (relate_agrees m r.1)).bind fun r' hr' => ?_
  refine (h.runCategories ⟨⟨_, hmodel, ?_⟩, hr⟩ (List.Subset.refl _)).bind fun _ _ => Work.agrees_pure trivial
  rw [hr', hm]

end Workshop
end Formulary
