import Formulary.Proofs.CommandLine.Beginning
import Formulary.Proofs.CommandLine.Interleaving
import Formulary.Proofs.Net.Markup
import Formulary.Proofs.Pool.Schedule

/-! What a run of the command line comes to, task by task. Each task has one entry in the summary and its own files. Where
    no two files are one, both are the same in every course of the pool, in whichever order files are written, and in
    another run that differs in the number of slots or in the model files of other tasks. -/

namespace Formulary
namespace CommandLine
variable {around around' : Surroundings} {a a' : Arguments} {s s' : Settings} {disk disk' d : Disk}
  {found found' : Discovery} {w : Workshop Unit} {tasks : List Task} {task : Task} {i : Nat} {path text logName : String}
  {home : List String} {entries : List (String × Entry)} {summary : Summary}

/-! ### Entries -/

/-- The job of the pool for a task, which finds the disk that `seen` gives it. -/
def job (w : Workshop Unit) (seen : Nat → Disk) : Job Task (Except TaskError ModelOutcome) := fun _ i task =>
  (runTask { w with disk := seen i } i task).outcome.mapError fun fault => .message fault.message

/-- The entry of the task at position `i`: its outcome, or its failure under its own name. -/
def entry (w : Workshop Unit) (i : Nat) (task : Task) : ModelOutcome ⊕ Failure :=
  settle task.model.fullName ((job w fun _ => w.disk).outcome 0 i task)

theorem entry_eq (w : Workshop Unit) (i : Nat) (task : Task) :
    entry w i task = settle task.model.fullName (((runTask w i task).outcome.mapError fun fault =>
      .message fault.message).mapError (JobPanic.ofBreakdown i)) := rfl

theorem entry_congr {w' : Workshop Unit} (h : runTask w' i task = runTask w i task) :
    entry w' i task = entry w i task := by
  rw [entry_eq, entry_eq, h]

/-- A task without a legible model file fails, and writes nothing. -/
theorem runTask_of_summaryOf_error {e : ModelFileError} (hnew : task.model.isLoaded = false)
    (h : Model.summaryOf w.disk task.model.file = .error e) :
    runTask w i task = ⟨.ok (.error (.modelFile e)), []⟩ := by
  have hload : task.model.load (Model.summaryOf w.disk) = .error e := by
    rw [Model.load, hnew, if_neg Bool.false_ne_true, h]
  unfold runTask Workshop.run
  rw [hload]
  rfl

theorem entry_of_summaryOf_error {e : ModelFileError} (hnew : task.model.isLoaded = false)
    (h : Model.summaryOf w.disk task.model.file = .error e) :
    entry w i task = .inr ⟨task.model.fullName, (TaskError.modelFile e).message⟩ := by
  rw [entry_eq, runTask_of_summaryOf_error hnew h]
  rfl

theorem settleAll_mapIdx (f : Nat → Task → Except JobPanic (Except TaskError ModelOutcome)) :
    settleAll tasks (tasks.mapIdx f) = tasks.mapIdx fun i task => settle task.model.fullName (f i task) := by
  refine List.ext_getElem (by simp [settleAll]) fun i hi hi' => ?_
  simp [settleAll]

theorem model_of_entry {failure : Failure} (h : entry w i task = .inr failure) : failure.model = task.model.fullName := by
  unfold entry settle at h
  split at h <;> cases h <;> rfl

/-- The run of the pool hands over what each task came to. -/
theorem settleAll_collect (w : Workshop Unit) (tasks : List Task) (size : Nat) :
    settleAll tasks (collect size (tasks.mapIdx (runTask w))) = tasks.mapIdx (entry w) := by
  have hcollect : collect size (tasks.mapIdx (runTask w)) =
      tasks.mapIdx fun i task => (job w fun _ => w.disk).outcome 0 i task := by
    rw [collect, Pool.run_eq_mapIdx, List.mapIdx_mapIdx]
    rfl
  rw [hcollect, settleAll_mapIdx]
  rfl

/-- So does every other course of the pool, where tasks find disks that leave them undisturbed. -/
theorem settleAll_of_reaches {seen : Nat → Disk} {size : Nat} {events : List Pool.Event}
    {p : Pool Task (Except TaskError ModelOutcome)}
    (hseen : ∀ i task, tasks[i]? = some task → Undisturbed w (seen i) i task)
    (h : Pool.Reaches (job w seen) (Pool.start size tasks) events p) (hfinal : p.IsFinal (job w seen)) :
    settleAll tasks (p.results.filterMap id) = tasks.mapIdx (entry w) := by
  have hcomplete := h.inv.complete (h.inv.isFinal_iff.mp hfinal)
  rw [hcomplete.results_of_ignores_slot (f := job w seen 0) fun _ => rfl, settleAll_mapIdx]
  refine List.ext_getElem (by simp) fun i hi hi' => ?_
  rw [List.length_mapIdx] at hi
  have hresult := (hseen i _ (List.getElem?_eq_getElem hi)).result
  rw [List.getElem_mapIdx, List.getElem_mapIdx, entry, Job.outcome, job, job, hresult]

/-! ### The run -/

theorem run_leave (s : Settings) (summary : Summary) (d : Disk) : (leave s summary).run.run d =
    match d.write (summaryPath s) (Json.render 0 summary.toValue) with
    | .ok d' => (.ok summary, d')
    | .error cause => (.error (.error ⟨"failed to write summary: " ++ summaryPath s, [cause.message]⟩), d) := by
  unfold leave
  refine (run_step_bind _ _ d).trans ?_
  cases d.write (summaryPath s) (Json.render 0 summary.toValue) <;> rfl

/-- The files that tasks write, one task after the other. -/
def allWritten (w : Workshop Unit) (tasks : List Task) : List (String × String) :=
  (tasks.mapIdx (runTask w)).flatMap (·.written)

/-- All files of several tasks, one task after the other. -/
def inTurn (done : List TaskResult) : List (Nat × String × String) :=
  (done.mapIdx fun i r => r.written.map (i, ·)).flatten

theorem inTurn_append_singleton (done : List TaskResult) (r : TaskResult) :
    inTurn (done ++ [r]) = inTurn done ++ r.written.map (done.length, ·) := by
  simp [inTurn, List.mapIdx_append]

theorem map_inTurn (done : List TaskResult) : (inTurn done).map (·.2) = done.flatMap (·.written) := by
  induction done using List.reverseRecOn with
  | nil => rfl
  | append_singleton done r ih =>
    rw [inTurn_append_singleton, List.map_append, ih, List.flatMap_append, List.flatMap_singleton, List.map_map]
    exact congrArg _ (List.map_id _)

theorem isMerge_inTurn (done : List TaskResult) : IsMerge done (inTurn done) := by
  induction done using List.reverseRecOn with
  | nil => exact ⟨nofun, nofun⟩
  | append_singleton done r ih =>
    obtain ⟨hposition, hwritten⟩ := ih
    rw [inTurn_append_singleton]
    constructor
    · intro f hf
      rw [List.length_append, List.length_singleton]
      rcases List.mem_append.mp hf with hf | hf
      · exact (hposition f hf).trans (Nat.lt_succ_self _)
      · obtain ⟨file, -, rfl⟩ := List.mem_map.mp hf
        exact Nat.lt_succ_self _
    · intro i r' hr'
      rw [List.filter_append, List.map_append]
      -- the last task comes last, and no other file has its position
      rcases Nat.lt_trichotomy i done.length with hi | rfl | hi
      · rw [List.getElem?_append_left hi] at hr'
        rw [hwritten i r' hr']
        simp [List.filter_map, Function.comp_def, hi.ne']
      · rw [List.getElem?_concat_length] at hr'
        cases hr'
        have hnone : (inTurn done).filter (·.1 = done.length) = [] :=
          List.filter_eq_nil_iff.mpr fun f hf => by simpa using (hposition f hf).ne
        simp [hnone, List.filter_map, Function.comp_def]
      · rw [List.getElem?_eq_none (by simpa using hi)] at hr'
        cases hr'

theorem run_finish (around : Surroundings) (s : Settings) (disk : Disk) (found : Discovery) (d : Disk) :
    (finish around s disk found).run.run d =
      match Pool.reserve outcomeWidth s.numWorkers.toNat with
      | .error fault => (.error (.fault fault), d)
      | .ok () =>
        (leave s (summarize around s found (settleAll found.arena.tasks
          (collect s.numWorkers.toNat (runTasks (workshop around disk s) 0 found.arena.tasks))))).run.run
          (writeAll d ((runTasks (workshop around disk s) 0 found.arena.tasks).flatMap (·.written))) := by
  unfold finish
  dsimp only
  cases hroom : Pool.reserve outcomeWidth s.numWorkers.toNat with
  | error fault => rfl
  | ok => rfl

theorem Commences.run_make (h : Commences around a s disk found) : (make around a).run.run around.disk =
    match Pool.reserve outcomeWidth s.numWorkers.toNat with
    | .error fault => (.error (.fault fault), disk)
    | .ok () =>
      (leave s (summarize around s found (settleAll found.arena.tasks
        (collect s.numWorkers.toNat (runTasks (workshop around disk s) 0 found.arena.tasks))))).run.run
        (writeAll disk ((runTasks (workshop around disk s) 0 found.arena.tasks).flatMap (·.written))) := by
  have hmake : (make around a).run.run around.disk = (finish around s disk found).run.run disk := by
    have hcommence := h.commence_eq
    unfold make
    simp only [ExceptT.run_bind, StateT.run_bind]
    rw [hcommence]
    rfl
  rw [hmake, run_finish]

/-! ### What is left on the disk -/

/-- The files of the task at position `i` are on a disk as the task leaves them. -/
def Keeps (w : Workshop Unit) (i : Nat) (task : Task) (d : Disk) : Prop :=
  ∀ path text, lastText (runTask w i task).written path = some text → d.read path = .ok text

section Files
variable (hfinds : Discovery.Finds w.disk w.settings.inputDir home entries found)
  (hapart : Apart w.settings logName w.disk found) {files : List (Nat × String × String)}
  (hmerge : IsMerge (found.arena.tasks.mapIdx (runTask w)) files)
  (htask : found.arena.tasks[i]? = some task)
include hfinds hapart hmerge htask

theorem keeps_of_isMerge : Keeps w i task (writeAll w.disk (files.map (·.2))) := by
  intro path text htext
  obtain ⟨-, place, located, hlocate, hplace⟩ := textAt?_of_isMerge hfinds hapart hmerge htask htext
  exact Disk.read_eq_ok.mpr ⟨place, _, (textAt?_writeAll hmerge.writable).1.locate hlocate, hplace⟩

/-- The summary is none of the files of tasks. -/
theorem keeps_leave (summary : Summary) :
    Keeps w i task ((leave w.settings summary).run.run (writeAll w.disk (files.map (·.2)))).2 := by
  have hkeeps := keeps_of_isMerge hfinds hapart hmerge htask
  rw [run_leave]
  split
  · rename_i d' hwrite
    intro path text htext
    obtain ⟨⟨m, hm, name, hname, rfl⟩, place, located, hlocate, -⟩ := textAt?_of_isMerge hfinds hapart hmerge htask htext
    have halike : w.disk.Alike (fun _ => False) (fun _ => False) (writeAll w.disk (files.map (·.2))) :=
      (textAt?_writeAll hmerge.writable).1
    obtain ⟨place', located', hlocate', -, hwrites⟩ := Disk.writes_of_write hwrite
    have hother : place ≠ place' := by
      rintro rfl
      exact hapart.summary m (hfinds.mem_models (List.mem_of_getElem? htask) hm) name (.inr hname)
        (Disk.meet_of_locate hlocate (halike.symm.locate hlocate'))
    have hkeep : (writeAll w.disk (files.map (·.2))).Alike (fun _ => False) (fun q => q = place) d' :=
      .of_writes hwrites nofun fun heq => hother heq.symm
    refine hkeep.read (hkeeps _ _ htext) fun place'' located'' hlocate'' => ?_
    cases (halike.locate hlocate).symm.trans hlocate''
    rfl
  · exact hkeeps

end Files

/-! ### Another run -/

/-- Another run with the settings of the first but for the number of workers, and with a log that is apart too. Model
    files of other tasks than that at position `i` can have other texts, and about a model file with the same text the
    oracle answers the same. -/
structure Reruns (around : Surroundings) (s : Settings) (disk : Disk) (found : Discovery) (i : Nat)
    (around' : Surroundings) (a' : Arguments) (s' : Settings) (disk' : Disk) : Prop where
  settings_eq : settings around'.disk a' = .ok s'
  same : s' = { s with numWorkers := s'.numWorkers }
  changed : around.disk.Changed (IsElsewhere found i) around'.disk
  openLog_eq : openLog around'.disk s' around'.logName = .ok disk'
  logIsApart : LogIsApart s' around'.logName disk'
  tidy : ∀ entries, disk'.list s'.inputDir = .ok entries → Tidy entries
  answers : ∀ request : Request, disk'.read request.modelFile = disk.read request.modelFile →
    (oracle around disk s).SameAnswer (oracle around' disk' s') request

section Reruns
variable (hrerun : Reruns around s disk found i around' a' s' disk') (h : Commences around a s disk found)
  (hapart : Apart s around.logName disk found) (hfinds : Discovery.Finds disk s.inputDir home entries found)
  (htask : found.arena.tasks[i]? = some task)
include hrerun h hapart hfinds htask

theorem Reruns.alike : disk.Alike (fun place => IsModelPlace disk s.inputDir place ∨ IsHook s disk found place)
    (fun place => ∃ m ∈ task.models, ∃ located, disk.locate m.file = .ok (place, located)) disk' :=
  h.alike hapart hrerun.openLog_eq hrerun.logIsApart hrerun.same hfinds htask hrerun.changed

/-- It finds the same models, and their files are apart. -/
theorem Reruns.exists_commences : ∃ found', Commences around' a' s' disk' found' ∧ found'.arena = found.arena ∧
    Apart s' around'.logName disk' found' := by
  have hdir : s'.inputDir = s.inputDir := by rw [hrerun.same]
  have halike := hrerun.alike h hapart hfinds htask
  obtain ⟨entries', hentries'⟩ :=
    (halike.directory_iff home).mpr ⟨entries, (Disk.get?_of_locate hfinds.locate_eq).symm⟩
  -- no directory depends on the texts of model files, so the input directory is there again
  have hlocate' : disk'.locate s.inputDir = .ok (home, some (.directory entries')) := by
    rw [halike.locate hfinds.locate_eq, hentries']
  have hlist' : disk'.list s.inputDir = .ok entries' := by
    rw [Disk.list, hlocate']
    rfl
  have htidy' : Tidy entries' := hrerun.tidy entries' (by rw [hdir, hlist'])
  have hfound' := Discovery.ofDirectory_eq hlist' htidy'.nodup
  have harena := hfinds.arena_congr ⟨hlocate', htidy', hfound'⟩ halike fun _ => .inl
  refine ⟨_, ⟨commence_eq_ok.mpr ⟨hrerun.settings_eq, hrerun.openLog_eq, ?_⟩, hrerun.tidy⟩, harena,
    hapart.congr halike hrerun.same harena hrerun.logIsApart⟩
  rw [hdir, hfound']

/-- The task at position `i` finds the same in it. -/
theorem Reruns.matches : (workshop around disk s).Matches (workshop around' disk' s') task := by
  have halike := hrerun.alike h hapart hfinds htask
  have hmodels : ∀ m ∈ task.models, m ∈ found.arena.models := fun m hm =>
    hfinds.mem_models (List.mem_of_getElem? htask) hm
  have hkept : ∀ m ∈ task.models, ∀ place located, disk.locate m.file = .ok (place, located) →
      ∃ n ∈ task.models, ∃ located, disk.locate n.file = .ok (place, located) :=
    fun m hm _ located hlocate => ⟨m, hm, located, hlocate⟩
  constructor
  case generation =>
    show s'.generation = s.generation
    rw [hrerun.same]
  case filter =>
    show s'.filter = s.filter
    rw [hrerun.same]
  case catalog =>
    show Catalog.ofBound s'.generation.maxArity.toNat = Catalog.ofBound s.generation.maxArity.toNat
    rw [hrerun.same]
  case reads => exact fun m hm => hfinds.summaryOf_eq (hmodels m hm) halike (hkept m hm)
  case writable =>
    intro path hpath
    refine hfinds.writable_eq (List.mem_of_getElem? htask) hpath halike fun p hhangs => .inr ?_
    obtain ⟨m, hm, name, hname, rfl⟩ := hpath
    exact ⟨m, hmodels m hm, name, hname, hhangs⟩
  case answers =>
    intro m hm request hrequest
    refine hrerun.answers request ?_
    rw [hrequest]
    exact hfinds.read_eq (hmodels m hm) halike (hkept m hm)

end Reruns

/-! ### Isolation -/

/-- There is room for a report from every slot of the pool. -/
def HasRoom (s : Settings) : Prop := s.numWorkers.toNat ≤ Fault.mostEntries (Pool.reportWidth outcomeWidth)

/-- What becomes of the tasks of a workshop in every course of the pool, which comes to an end: `seen i` is the disk that
    the task at position `i` finds. -/
structure Settles (w : Workshop Unit) (tasks : List Task) (seen : Nat → Disk) : Prop where
  undisturbed : ∀ d, Interleaved w tasks d → ∀ i task, tasks[i]? = some task → Undisturbed w d i task
  ends : ∀ size events p, Pool.Reaches (job w seen) (Pool.start size tasks) events p →
    events.length ≤ 3 * tasks.length
  entries : ∀ size events p, Pool.Reaches (job w seen) (Pool.start size tasks) events p → p.IsFinal (job w seen) →
    settleAll tasks (p.results.filterMap id) = tasks.mapIdx (entry w)
  keeps : ∀ files, IsMerge (tasks.mapIdx fun i task => runTask { w with disk := seen i } i task) files →
    ∀ i task, tasks[i]? = some task → Keeps w i task (writeAll w.disk (files.map (·.2)))

theorem settles (hfinds : Discovery.Finds w.disk w.settings.inputDir home entries found)
    (hapart : Apart w.settings logName w.disk found) {seen : Nat → Disk}
    (hseen : ∀ i, Interleaved w found.arena.tasks (seen i)) : Settles w found.arena.tasks seen where
  undisturbed d h i task htask := h.undisturbed hfinds hapart htask
  ends size events p h := by
    have hleft := h.length_add_left
    rw [Pool.left_start] at hleft
    exact Nat.le.intro hleft
  entries size events p h hfinal :=
    settleAll_of_reaches (fun i task htask => (hseen i).undisturbed hfinds hapart htask) h hfinal
  keeps files hmerge i task htask := by
    have hdone : (found.arena.tasks.mapIdx fun i task => runTask { w with disk := seen i } i task) =
        found.arena.tasks.mapIdx (runTask w) := by
      refine List.ext_getElem (by simp) fun i hi hi' => ?_
      rw [List.length_mapIdx] at hi
      rw [List.getElem_mapIdx, List.getElem_mapIdx,
        ((hseen i).undisturbed hfinds hapart (List.getElem?_eq_getElem hi)).result]
    exact keeps_of_isMerge hfinds hapart (hdone ▸ hmerge) htask

/-- If tasks come to the same one after the other as each alone, the run leaves what they come to. -/
theorem Commences.make_eq_of_runTasks (h : Commences around a s disk found) (hroom : HasRoom s)
    (hruns : runTasks (workshop around disk s) 0 found.arena.tasks =
      found.arena.tasks.mapIdx (runTask (workshop around disk s))) : (make around a).run.run around.disk =
      (leave s (summarize around s found (found.arena.tasks.mapIdx (entry (workshop around disk s))))).run.run
        (writeAll disk (allWritten (workshop around disk s) found.arena.tasks)) := by
  have hreserve : Pool.reserve outcomeWidth s.numWorkers.toNat = .ok () := by
    rw [Pool.reserve_eq, if_pos (max_le hroom (by decide))]
  rw [h.run_make, hreserve, hruns, settleAll_collect]
  rfl

theorem Commences.make_eq (h : Commences around a s disk found) (hapart : Apart s around.logName disk found)
    (hroom : HasRoom s) : (make around a).run.run around.disk =
      (leave s (summarize around s found (found.arena.tasks.mapIdx (entry (workshop around disk s))))).run.run
        (writeAll disk (allWritten (workshop around disk s) found.arena.tasks)) := by
  obtain ⟨home, entries, hfinds⟩ := h.exists_finds
  exact h.make_eq_of_runTasks hroom (runTasks_eq (w := workshop around disk s) hfinds hapart)

theorem Commences.make_eq_capacity (h : Commences around a s disk found) (hroom : ¬HasRoom s) :
    (make around a).run.run around.disk = (.error (.fault .capacity), disk) := by
  have hreserve : Pool.reserve outcomeWidth s.numWorkers.toNat = .error .capacity := by
    rw [Pool.reserve_eq, if_neg fun h => hroom (Nat.le_trans (Nat.le_max_left ..) h)]
  rw [h.run_make, hreserve]

theorem Commences.keeps (h : Commences around a s disk found) (hapart : Apart s around.logName disk found)
    (hroom : HasRoom s) (htask : found.arena.tasks[i]? = some task) :
    Keeps (workshop around disk s) i task ((make around a).run.run around.disk).2 := by
  obtain ⟨home, entries, hfinds⟩ := h.exists_finds
  rw [h.make_eq hapart hroom, allWritten, ← map_inTurn]
  exact keeps_leave (w := workshop around disk s) hfinds hapart (isMerge_inTurn _) htask _

/-- The directory of a model with a text in its model file. -/
def wing (text : String) : Entry := .directory [("model.pnml", .file text)]

/-- The directories of two models. That of the second is a link to that of the first, if it has no text of its own. -/
def studioEntries (left : String) (right : Option String) : List (String × Entry) :=
  [("A-PT-1", wing left), ("B-PT-1", right.elim (.link ["INPUTS", "A-PT-1"]) wing)]

/-- A run in front of these directories, where no program can be started. -/
def studio (left : String) (right : Option String) : Surroundings where
  disk := ⟨.directory [("INPUTS", .directory (studioEntries left right))], []⟩
  start _ := .error .notFound
  temporaryDirectory := "/tmp"
  tag := ""
  started := ""
  finished := ""
  logName := "log"
  hasColours := false

def studioKey (name : String) : ModelKey := ⟨name, .placeTransition, "1"⟩

def studioModel (name : String) : Model where
  key := studioKey name
  directory := Path.join "INPUTS" (studioKey name).fullName

/-- The default settings with another number of workers and without filtering. -/
def studioSettings (workers : UInt64) : Settings := { numWorkers := workers, filter := { enabled := false } }

def studioArguments (workers : UInt64) : Arguments := { workers := some workers, noFilter := true }

def studioWorkshop (left : String) (right : Option String) (workers : UInt64) : Workshop Unit :=
  workshop (studio left right) (studio left right).disk (studioSettings workers)

def studioFound (left : String) (right : Option String) : Discovery :=
  (Discovery.gather (studio left right).disk "INPUTS" (studioEntries left right)).settled

def studioTask (name : String) : Task := ⟨studioModel name, none⟩

/-- The failure of the task of a model whose model file has an illegible text. -/
def studioFailure (name : String) (e : PnmlError) : Failure :=
  ⟨(studioKey name).fullName, (TaskError.modelFile (.malformed (studioModel name).file e)).message⟩

section Studio
variable (left : String) (right : Option String)

theorem locate_studio : (studio left right).disk.locate "INPUTS" =
    .ok (["INPUTS"], some (.directory (studioEntries left right))) := by
  have hrelative : "INPUTS".startsWith "/" = false := by simp [Bool.eq_false_iff, String.startsWith_string_iff]
  have hsize : ¬"INPUTS".utf8ByteSize ≥ Path.sizeLimit := by decide
  have hnames : Path.names "INPUTS" = ["INPUTS"] := by decide
  rw [Disk.locate, if_neg (by simp), if_neg (by decide), if_neg hsize, Disk.start, hrelative, hnames]
  rfl

/-- The name of a model leads to a place, where there is a text in the model file. -/
structure Leads (name : String) (place : List String) (text : String) : Prop where
  isModel : name = "A-PT-1" ∨ name = "B-PT-1"
  move_eq : Disk.move (studio left right).disk.root ["INPUTS"] name = .ok place
  get?_eq : (studio left right).disk.root.get? place = some (wing text)

theorem isName_studio {name : String} (h : name = "A-PT-1" ∨ name = "B-PT-1") : Path.IsName name := by
  rcases h with rfl | rfl <;> constructor <;> decide

theorem move_studio {name : String} (h : name = "A-PT-1" ∨ name = "B-PT-1") :
    Disk.move (studio left right).disk.root ["INPUTS"] name =
      match (studio left right).disk.root.linkAt? ["INPUTS", name] with
      | some target => Disk.lead (studio left right).disk.root target
      | none => .ok ["INPUTS", name] := by
  have hsize : ¬name.utf8ByteSize > Path.nameLimit := by rcases h with rfl | rfl <;> decide
  rw [Disk.move_name ⟨_, rfl⟩ (isName_studio h), if_neg hsize]
  rfl

theorem leads_left : Leads left right "A-PT-1" ["INPUTS", "A-PT-1"] left :=
  ⟨.inl rfl, move_studio left right (.inl rfl), rfl⟩

theorem leads_right (text : String) : Leads left (some text) "B-PT-1" ["INPUTS", "B-PT-1"] text :=
  ⟨.inr rfl, move_studio left (some text) (.inr rfl), rfl⟩

theorem leads_linked : Leads left none "B-PT-1" ["INPUTS", "A-PT-1"] left :=
  ⟨.inr rfl, move_studio left none (.inr rfl), rfl⟩

variable {left right} {name text : String} {place : List String}

theorem Leads.locate (h : Leads left right name place text) :
    (studio left right).disk.locate (Path.join "INPUTS" name) = .ok (place, some (wing text)) ∧
    (studio left right).disk.locate (Path.join (Path.join "INPUTS" name) "model.pnml") =
      .ok (place ++ ["model.pnml"], some (.file text)) := by
  have hjoin := Disk.locate_join (locate_studio left right) (isName_studio h.isModel)
  have hplain : name.contains '\x00' = false ∧ (Path.join "INPUTS" name).utf8ByteSize < Path.sizeLimit ∧
      (Path.join (Path.join "INPUTS" name) "model.pnml").utf8ByteSize < Path.sizeLimit := by
    rcases h.isModel with rfl | rfl <;> simp [Path.join, String.startsWith_string_iff] <;> decide
  obtain ⟨hnul, hsize, hsize'⟩ := hplain
  rw [hnul, if_neg Bool.false_ne_true, if_neg hsize.not_ge, h.move_eq] at hjoin
  have hdirectory : (studio left right).disk.locate (Path.join "INPUTS" name) = .ok (place, some (wing text)) :=
    hjoin.trans (by rw [Except.map, h.get?_eq])
  have hlink : (studio left right).disk.root.linkAt? (place ++ ["model.pnml"]) = none := by
    rw [Entry.linkAt?_concat h.get?_eq]
    rfl
  have hfile := Disk.locate_join hdirectory isName_model
  rw [if_neg (by simp), if_neg hsize'.not_ge, Disk.move_name ⟨_, h.get?_eq⟩ isName_model, if_neg (by decide),
    hlink] at hfile
  refine ⟨hdirectory, hfile.trans ?_⟩
  show Except.ok (place ++ ["model.pnml"], (studio left right).disk.root.get? (place ++ ["model.pnml"])) = _
  rw [Entry.get?_concat h.get?_eq]
  rfl

theorem Leads.model?_eq (h : Leads left right name place text) {key : ModelKey}
    (hkey : ModelKey.ofDirectoryName? name = some key) :
    Discovery.model? (studio left right).disk "INPUTS" name = some { key, directory := Path.join "INPUTS" name } := by
  obtain ⟨hdirectory, hfile⟩ := h.locate
  have hisDirectory : (studio left right).disk.isDirectory (Path.join "INPUTS" name) = true := by
    rw [Disk.isDirectory, hdirectory]
    rfl
  have hisFile : (studio left right).disk.isFile (Path.join (Path.join "INPUTS" name) "model.pnml") = true := by
    rw [Disk.isFile, hfile]
    rfl
  exact Discovery.model?_eq_some.mpr ⟨hisDirectory, hisFile, key, hkey, rfl⟩

theorem Leads.read_eq (h : Leads left right name place text) :
    (studio left right).disk.read (Path.join (Path.join "INPUTS" name) "model.pnml") = .ok text := by
  have hfile : (studio left right).disk.root.get? (place ++ ["model.pnml"]) = some (.file text) := by
    rw [Entry.get?_concat h.get?_eq]
    rfl
  exact Disk.read_eq_ok.mpr ⟨_, _, h.locate.2, Entry.textAt?_eq_some.mpr hfile⟩

variable (left right)

theorem tidy_studio : Tidy (studioEntries left right) where
  nodup := by
    show ["A-PT-1", "B-PT-1"].Nodup
    decide
  plain := by
    show ∀ name ∈ ["A-PT-1", "B-PT-1"], '/' ∉ name.toList
    decide

theorem tasks_studioFound : (studioFound left right).arena.tasks = [studioTask "A", studioTask "B"] := by
  have hsorts : (Discovery.gather (studio left right).disk "INPUTS" (studioEntries left right)).Sorts
      (studio left right).disk "INPUTS" (Discovery.sortedNames (studioEntries left right)) :=
    Discovery.gather_sorts (tidy_studio left right).nodup
  have hsorted : Discovery.sortedNames (studioEntries left right) = ["A-PT-1", "B-PT-1"] := by
    refine List.mergeSort_of_pairwise ?_
    show ["A-PT-1", "B-PT-1"].Pairwise fun a b => decide (a ≤ b) = true
    decide
  have hkey : ModelKey.ofDirectoryName? "A-PT-1" = some (studioKey "A") := by decide
  have hkey' : ModelKey.ofDirectoryName? "B-PT-1" = some (studioKey "B") := by decide
  have hright : ∃ place text, Leads left right "B-PT-1" place text := by
    cases right with
    | none => exact ⟨_, _, leads_linked left⟩
    | some text => exact ⟨_, _, leads_right left text⟩
  obtain ⟨_, _, hright⟩ := hright
  have hmodels := hsorts.models
  rw [hsorted, List.filterMap_cons, (leads_left left right).model?_eq hkey, List.filterMap_cons,
    hright.model?_eq hkey'] at hmodels
  unfold studioFound Discovery.settled Discovery.withTwin Discovery.find?
  rw [hmodels]
  rfl

theorem commences_studio {workers : UInt64} (h : workers ≠ 0) : Commences (studio left right) (studioArguments workers)
    (studioSettings workers) (studio left right).disk (studioFound left right) := by
  have hlist : (studio left right).disk.list "INPUTS" = .ok (studioEntries left right) := by
    rw [Disk.list, locate_studio]
    rfl
  have hsettings : settings (studio left right).disk (studioArguments workers) = .ok (studioSettings workers) := by
    have hvalid : (studioSettings workers).validate = .ok () := by
      unfold Settings.validate
      rw [if_neg (show ¬(studioSettings workers).numWorkers = 0 from h)]
      rfl
    show (do
      ((studioSettings workers).validate.mapError _ : Except RunError Unit)
      return studioSettings workers) = Except.ok (studioSettings workers)
    rw [hvalid]
    rfl
  refine ⟨commence_eq_ok.mpr ⟨hsettings, rfl, ?_⟩, fun entries hentries => ?_⟩
  · exact Discovery.ofDirectory_eq hlist (tidy_studio left right).nodup
  · cases hlist.symm.trans hentries
    exact tidy_studio left right

/-- The log is not asked for. -/
theorem logIsApart_studio (workers : UInt64) (disk : Disk) : LogIsApart (studioSettings workers) "log" disk :=
  fun hlogs => absurd hlogs Bool.false_ne_true

theorem write_right (old text : String) :
    (studio left (some old)).disk.write (studioModel "B").file text = .ok (studio left (some text)).disk := by
  refine (Disk.write_eq (leads_right left old).locate.2 ?_).trans rfl
  rintro ⟨es, hes⟩
  cases (Disk.get?_of_locate (leads_right left old).locate.2).trans hes

theorem write_linked (text : String) :
    (studio left none).disk.write (studioModel "B").file text = .ok (studio text none).disk := by
  refine (Disk.write_eq (leads_linked left).locate.2 ?_).trans rfl
  rintro ⟨es, hes⟩
  cases (Disk.get?_of_locate (leads_linked left).locate.2).trans hes

variable {left right} in
/-- A run after another text was written to the model file of the second task. -/
theorem reruns_studio {left' : String} {right' : Option String} {workers : UInt64} (h : workers ≠ 0)
    (hwrite : (studio left right).disk.write (studioModel "B").file text = .ok (studio left' right').disk) :
    Reruns (studio left right) (studioSettings 1) (studio left right).disk (studioFound left right) 0
      (studio left' right') (studioArguments workers) (studioSettings workers) (studio left' right').disk := by
  have hcommences := commences_studio left' right' h
  obtain ⟨hsettings, hlog, -⟩ := commence_eq_ok.mp hcommences.commence_eq
  have htask : (studioFound left right).arena.tasks[1]? = some (studioTask "B") := by
    rw [tasks_studioFound]
    rfl
  refine ⟨hsettings, rfl, ?_, hlog, logIsApart_studio workers _, hcommences.tidy, fun request _ state => ⟨rfl, rfl⟩⟩
  exact .write .same ⟨1, _, one_ne_zero, htask, _, List.mem_cons_self, rfl⟩ hwrite

theorem apart_studio (text : String) : Apart (studioSettings 1) "log" (studio left (some text)).disk
    (studioFound left (some text)) := by
  have hwing : ∀ text q, (wing text).linkAt? q = none := by
    intro text
    refine Entry.linkAt?_directory ?_
    simp [Entry.linkAt?_file]
  have hlinks : ∀ q, (studio left (some text)).disk.root.linkAt? q = none := by
    refine Entry.linkAt?_directory ?_
    simp only [List.mem_singleton, forall_eq]
    refine Entry.linkAt?_directory ?_
    simp [studioEntries, hwing]
  have hcommences := commences_studio left (some text) (show (1 : UInt64) ≠ 0 by decide)
  obtain ⟨home, entries, hfinds⟩ := hcommences.exists_finds
  exact apart_of_unlinked hlinks hfinds (by constructor <;> decide)

section Illegible
variable {left right} (name) (workers : UInt64) (h : Leads left right (studioKey name).fullName place text)
  {e : PnmlError} (hparse : Pnml.parse text = .error e)
include h hparse

theorem summaryOf_studio : Model.summaryOf (studio left right).disk (studioModel name).file =
    .error (.malformed (studioModel name).file e) := by
  have hread : (studio left right).disk.read (studioModel name).file = .ok text := h.read_eq
  rw [Model.summaryOf, hread]
  dsimp only
  rw [hparse]

theorem runTask_studio (i : Nat) : runTask (studioWorkshop left right workers) i (studioTask name) =
      ⟨.ok (.error (.modelFile (.malformed (studioModel name).file e))), []⟩ :=
  runTask_of_summaryOf_error rfl (summaryOf_studio name h hparse)

theorem entry_studio (i : Nat) : entry (studioWorkshop left right workers) i (studioTask name) =
    .inr (studioFailure name e) :=
  entry_of_summaryOf_error rfl (summaryOf_studio name h hparse)

end Illegible

theorem hasRoom_one : HasRoom (studioSettings 1) := by
  show (1 : UInt64).toNat ≤ Fault.mostEntries (Pool.reportWidth outcomeWidth)
  decide

/-- Where the model file of both tasks is illegible, both fail. -/
theorem make_linked {e : PnmlError} (hparse : Pnml.parse left = .error e) :
    (make (studio left none) (studioArguments 1)).run.run (studio left none).disk =
      (leave (studioSettings 1) (summarize (studio left none) (studioSettings 1) (studioFound left none)
        [.inr (studioFailure "A" e), .inr (studioFailure "B" e)])).run.run (studio left none).disk := by
  have hcommences := commences_studio left none (show (1 : UInt64) ≠ 0 by decide)
  have hA := runTask_studio "A" 1 (leads_left left none) hparse 0
  have hB := runTask_studio "B" 1 (leads_linked left) hparse 1
  have hruns : runTasks (studioWorkshop left none 1) 0 [studioTask "A", studioTask "B"] =
      [studioTask "A", studioTask "B"].mapIdx (runTask (studioWorkshop left none 1)) := by
    rw [runTasks, hA]
    dsimp only [writeAll, List.foldl_nil]
    rw [runTasks, hB]
    simp [runTasks, hA, hB]
  have hmake := hcommences.make_eq_of_runTasks hasRoom_one (by rw [tasks_studioFound]; exact hruns)
  have hwritten : allWritten (studioWorkshop left none 1) [studioTask "A", studioTask "B"] = [] := by
    simp [allWritten, hA, hB]
  have hentries : [studioTask "A", studioTask "B"].mapIdx (entry (studioWorkshop left none 1)) =
      [.inr (studioFailure "A" e), .inr (studioFailure "B" e)] := by
    simp only [List.mapIdx_cons, List.mapIdx_nil]
    rw [entry_studio "A" 1 (leads_left left none) hparse, entry_studio "B" 1 (leads_linked left) hparse]
  rw [tasks_studioFound] at hmake
  refine hmake.trans ?_
  show (leave _ (summarize _ _ _
    ([studioTask "A", studioTask "B"].mapIdx (entry (studioWorkshop left none 1))))).run.run
      (writeAll _ (allWritten (studioWorkshop left none 1) _)) = _
  rw [hentries, hwritten]
  rfl

end Studio

theorem parse_empty : Pnml.parse "" = .error .noNet := by
  rw [Pnml.parse, Markup.pieces_of_nil rfl]
  rfl

theorem parse_nameless : Pnml.parse "<place/>" = .error (.missingId .place) := by
  have hapart : Markup.Apart [.opening ⟨['p', 'l', 'a', 'c', 'e'], [], [], true, by simp, by decide, rfl⟩] := trivial
  have hpieces := Markup.pieces_textOf hapart
  have htext : "<place/>".toList =
      Markup.textOf [.opening ⟨['p', 'l', 'a', 'c', 'e'], [], [], true, by simp, by decide, rfl⟩] := by
    simp only [String.reduceToList]
    rfl
  rw [Pnml.parse, htext, hpieces]
  rfl

/-- The failure tells why the text is illegible. -/
theorem studioFailure_ne (name : String) {e e' : PnmlError} (h : e.message ≠ e'.message) :
    studioFailure name e ≠ studioFailure name e' := by
  have hmessage (e : PnmlError) : (studioFailure name e).error = "failed to parse model file: " ++
      (studioModel name).file ++ ": " ++ ("failed to scan: " ++ (studioModel name).file) ++ ": " ++ e.message := rfl
  intro heq
  have hmessages := congrArg Failure.error heq
  rw [hmessage, hmessage] at hmessages
  exact h ((String.append_right_inj _).mp hmessages)

def studioNet : String := "<net><place id=\"p\"/><transition id=\"t\"/></net>"

end CommandLine
end Formulary
