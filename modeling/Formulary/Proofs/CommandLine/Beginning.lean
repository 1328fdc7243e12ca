import Formulary.Proofs.CommandLine.Separation

/-! How a run begins: its settings are read, the log is opened and the models are found. A run on a disk with other
    texts in some model files finds the same models, and its log may have another name. -/

namespace Formulary

/-- The disks that come about when files at some paths are written. -/
inductive Disk.Changed (paths : String → Prop) (d : Disk) : Disk → Prop where
  | same : Changed paths d d
  | write {d' d'' : Disk} {path text : String} (h : Changed paths d d') (hpath : paths path)
      (hwrite : d'.write path text = .ok d'') : Changed paths d d''

theorem Disk.Changed.alike {paths : String → Prop} {present kept : List String → Prop} {d d' : Disk}
    (h : d.Changed paths d') (hpaths : ∀ path, paths path → ∀ place found, d.locate path = .ok (place, found) →
      (present place → (d.root.textAt? place).isSome) ∧ ¬kept place) : d.Alike present kept d' := by
  induction h with
  | same => exact .refl present kept d
  | write h hpath hwrite ih =>
    obtain ⟨place, found, hlocate, -, hwrites⟩ := Disk.writes_of_write hwrite
    obtain ⟨hpresent, hkept⟩ := hpaths _ hpath place _ (ih.symm.locate hlocate)
    exact ih.trans (.of_writes hwrites (fun hplace => (ih.isSome_iff place hplace).mpr (hpresent hplace)) hkept)

namespace CommandLine
variable {around around' : Surroundings} {a a' : Arguments} {s s' : Settings} {disk disk' : Disk}
  {found found' : Discovery} {name name' : String} {home place : List String} {entries : List (String × Entry)}

/-! ### The log -/

theorem openLog_eq_of_not_logs (h : ¬Logs s) (disk : Disk) (name : String) : openLog disk s name = .ok disk := by
  unfold openLog
  unfold Logs at h
  rw [if_neg h]
  rfl

/-- Where a log is asked for, there is a directory for it or one is made, and the log is written there. -/
theorem openLog_eq_ok (h : Logs s) : openLog disk s name = .ok disk' ↔
    ∃ made, disk.makeHere "logs" = .ok made ∧ made.write (logPath name) "" = .ok disk' := by
  unfold openLog
  unfold Logs at h
  rw [if_pos h]
  cases disk.makeHere "logs" with
  | error cause => exact ⟨nofun, nofun⟩
  | ok made =>
    show (made.write (logPath name) "").mapError _ = _ ↔ _
    constructor
    · intro hopen
      refine ⟨made, rfl, ?_⟩
      cases hwrite : made.write (logPath name) "" with
      | error cause =>
        rw [hwrite] at hopen
        cases hopen
      | ok written =>
        rw [hwrite] at hopen
        cases hopen
        rfl
    · rintro ⟨_, ⟨rfl⟩, hwrite⟩
      rw [hwrite]
      rfl

/-- Opening the log changes no text but that of the log. -/
structure Opens (s : Settings) (name : String) (disk disk' : Disk) : Prop where
  here : disk'.here = disk.here
  directory : ∀ q, disk.root.IsDirectoryAt q → disk'.root.IsDirectoryAt q
  linkAt?_eq : ∀ q, disk'.root.linkAt? q = disk.root.linkAt? q
  textAt?_eq : ∀ q, (∀ located, Logs s → disk'.locate (logPath name) ≠ .ok (q, located)) →
    disk'.root.textAt? q = disk.root.textAt? q

theorem opens_of_openLog (h : openLog disk s name = .ok disk') : Opens s name disk disk' := by
  by_cases hlogs : Logs s
  · obtain ⟨made, hmake, hwrite⟩ := (openLog_eq_ok hlogs).mp h
    obtain ⟨place, located, hlocate, -, hwrites⟩ := Disk.writes_of_write hwrite
    have hplace : disk'.locate (logPath name) = .ok (place, disk'.root.get? place) :=
      Disk.locate_mono hwrites.here (fun q => (hwrites.directory_iff q).mpr) hwrites.linkAt?_eq hlocate
    have hother : ∀ q, (∀ located, Logs s → disk'.locate (logPath name) ≠ .ok (q, located)) → q ≠ place := by
      rintro q hq rfl
      exact hq _ hlogs hplace
    rcases Disk.makeHere_cases hmake with ⟨-, rfl⟩ | ⟨-, hmakes⟩
    · refine ⟨hwrites.here, fun q => (hwrites.directory_iff q).mpr, hwrites.linkAt?_eq, fun q hq => ?_⟩
      rw [hwrites.textAt?_eq, if_neg (hother q hq)]
    · refine ⟨hwrites.here.trans hmakes.here, fun q hq => ?_, fun q => ?_, fun q hq => ?_⟩
      · exact (hwrites.directory_iff q).mpr ((hmakes.directory_iff q).mpr (.inl hq))
      · rw [hwrites.linkAt?_eq, hmakes.linkAt?_eq]
      · rw [hwrites.textAt?_eq, if_neg (hother q hq), hmakes.textAt?_eq]
  · rw [openLog_eq_of_not_logs hlogs] at h
    cases h
    exact ⟨rfl, fun _ => id, fun _ => rfl, fun _ _ => rfl⟩

theorem Opens.locate {path : String} {place : List String} {located : Option Entry} (h : Opens s name disk disk')
    (hlocate : disk.locate path = .ok (place, located)) : disk'.locate path = .ok (place, disk'.root.get? place) :=
  Disk.locate_mono h.here h.directory h.linkAt?_eq hlocate

/-- Logs that are opened on disks that are alike leave them alike. -/
theorem alike_of_openLog {present kept : List String → Prop} {disk₁ disk₁' : Disk}
    (halike : disk.Alike present kept disk') (hs : s'.logger = s.logger) (h : openLog disk s name = .ok disk₁)
    (h' : openLog disk' s' name' = .ok disk₁')
    (hlog : ∀ place located, Logs s → disk₁.locate (logPath name) = .ok (place, located) → ¬present place ∧ ¬kept place)
    (hlog' : ∀ place located, Logs s' → disk₁'.locate (logPath name') = .ok (place, located) →
      ¬present place ∧ ¬kept place) : disk₁.Alike present kept disk₁' := by
  by_cases hlogs : Logs s
  · have hlogs' : Logs s' := by
      unfold Logs
      rw [hs]
      exact hlogs
    obtain ⟨made, hmake, hwrite⟩ := (openLog_eq_ok hlogs).mp h
    obtain ⟨made', hmake', hwrite'⟩ := (openLog_eq_ok hlogs').mp h'
    -- the text of a log is at a place that need not be alike
    have hwritten {made disk₁ : Disk} {name : String} (hwrite : made.write (logPath name) "" = .ok disk₁)
        (hlog : ∀ place located, disk₁.locate (logPath name) = .ok (place, located) → ¬present place ∧ ¬kept place) :
        made.Alike present kept disk₁ := by
      obtain ⟨place, located, hlocate, -, hwrites⟩ := Disk.writes_of_write hwrite
      obtain ⟨hpresent, hkept⟩ := hlog place _
        (Disk.locate_mono hwrites.here (fun q => (hwrites.directory_iff q).mpr) hwrites.linkAt?_eq hlocate)
      exact .of_writes hwrites (fun hplace => absurd hplace hpresent) hkept
    have hmade := hwritten hwrite fun place located => hlog place located hlogs
    have hmade' := hwritten hwrite' fun place located => hlog' place located hlogs'
    exact hmade.symm.trans ((halike.makeHere hmake hmake').trans hmade')
  · have hlogs' : ¬Logs s' := by
      unfold Logs
      rw [hs]
      exact hlogs
    rw [openLog_eq_of_not_logs hlogs] at h
    rw [openLog_eq_of_not_logs hlogs'] at h'
    cases h
    cases h'
    exact halike

/-! ### The models -/

theorem run_step_bind {α β : Type} (f : Disk → Except RunError (α × Disk)) (g : α → ExceptT RunStop (StateM Disk) β)
    (d : Disk) : (step f >>= g).run.run d =
      match f d with
      | .ok (a, d') => (g a).run.run d'
      | .error e => (.error (.error e), d) := by
  simp only [ExceptT.run_bind, StateT.run_bind, step, ExceptT.run_mk]
  cases hf : f d <;> simp [StateT.run, hf] <;> rfl

theorem run_commence (d : Disk) : (commence around a).run.run d =
    match settings d a with
    | .error e => (.error (.error e), d)
    | .ok s =>
      match openLog d s around.logName with
      | .error e => (.error (.error e), d)
      | .ok disk =>
        match Discovery.ofDirectory disk s.inputDir with
        | .error e => (.error (.error (.ofChain e.chain)), disk)
        | .ok found => (.ok (s, disk, found), disk) := by
  unfold commence
  rw [run_step_bind]
  cases settings d a with
  | error e => rfl
  | ok s =>
    refine (run_step_bind _ _ d).trans ?_
    dsimp only
    cases openLog d s around.logName with
    | error e => rfl
    | ok disk =>
      show (step _ : ExceptT RunStop (StateM Disk) _).run.run disk = _
      dsimp only
      simp only [step, ExceptT.run_mk]
      cases hfound : Discovery.ofDirectory disk s.inputDir <;>
        simp [StateT.run, hfound, Except.mapError, bind, Except.bind, pure, Except.pure]

theorem commence_eq_ok : (commence around a).run.run around.disk = (.ok (s, disk, found), disk) ↔
    settings around.disk a = .ok s ∧ openLog around.disk s around.logName = .ok disk ∧
      Discovery.ofDirectory disk s.inputDir = .ok found := by
  rw [run_commence]
  constructor
  · intro h
    split at h
    · cases h
    · rename_i hsettings
      split at h
      · cases h
      · rename_i hlog
        split at h
        · cases h
        · rename_i hfound
          cases h
          exact ⟨hsettings, hlog, hfound⟩
  · rintro ⟨hsettings, hlog, hfound⟩
    rw [hsettings]
    dsimp only
    rw [hlog]
    dsimp only
    rw [hfound]

/-- A run with settings `s` gets to work: with its log on it the disk is `disk`, and `found` is found there. Names in
    the input directory are those that a file system has. -/
structure Commences (around : Surroundings) (a : Arguments) (s : Settings) (disk : Disk) (found : Discovery) : Prop where
  commence_eq : (commence around a).run.run around.disk = (.ok (s, disk, found), disk)
  tidy : ∀ entries, disk.list s.inputDir = .ok entries → Tidy entries

theorem Commences.exists_finds (h : Commences around a s disk found) :
    ∃ home entries, Discovery.Finds disk s.inputDir home entries found := by
  cases hlist : disk.list s.inputDir with
  | error e =>
    obtain ⟨-, -, hfound⟩ := commence_eq_ok.mp h.commence_eq
    rw [Discovery.ofDirectory, hlist] at hfound
    cases hfound
  | ok entries =>
    obtain ⟨home, hlocate⟩ := Discovery.exists_locate_of_list hlist
    exact ⟨home, entries, hlocate, h.tidy entries hlist, (commence_eq_ok.mp h.commence_eq).2.2⟩

/-- The path of a model file of another task than that at position `i`. -/
def IsElsewhere (found : Discovery) (i : Nat) (path : String) : Prop :=
  ∃ j task, j ≠ i ∧ found.arena.tasks[j]? = some task ∧ ∃ m ∈ task.models, path = m.file

/-- Where only model files of other tasks have other texts, the disk of a second run is alike, and so are the model
    files of the task. -/
theorem Commences.alike (h : Commences around a s disk found) (hapart : Apart s around.logName disk found)
    (hlog' : openLog around'.disk s' around'.logName = .ok disk') (hapart' : LogIsApart s' around'.logName disk')
    (hs : s' = { s with numWorkers := s'.numWorkers }) (hfinds : Discovery.Finds disk s.inputDir home entries found)
    {i : Nat} {task : Task} (htask : found.arena.tasks[i]? = some task)
    (hchanged : around.disk.Changed (IsElsewhere found i) around'.disk) :
    disk.Alike (fun place => IsModelPlace disk s.inputDir place ∨ IsHook s disk found place)
      (fun place => ∃ m ∈ task.models, ∃ located, disk.locate m.file = .ok (place, located)) disk' := by
  obtain ⟨-, hlog, -⟩ := commence_eq_ok.mp h.commence_eq
  have hopens := opens_of_openLog hlog
  have hlogger : s'.logger = s.logger := by rw [hs]
  have hmodel : ∀ m ∈ task.models, m ∈ found.arena.models := fun m hm =>
    hfinds.mem_models (List.mem_of_getElem? htask) hm
  -- paths lead to the same places on both disks
  have hplaces : disk.Alike (fun _ => False) (fun _ => False) disk' :=
    alike_of_openLog (hchanged.alike fun _ _ _ _ _ => ⟨nofun, id⟩) hlogger hlog hlog' (fun _ _ _ _ => ⟨id, id⟩)
      fun _ _ _ _ => ⟨id, id⟩
  refine alike_of_openLog (hchanged.alike ?_) hlogger hlog hlog' ?_ ?_
  · rintro path ⟨j, task', hj, htask', n, hn, rfl⟩ place located hlocate
    have hn' := hfinds.mem_models (List.mem_of_getElem? htask') hn
    have hlocate' := hopens.locate hlocate
    constructor
    · intro _
      obtain ⟨place', located', hlocate'', htext⟩ := hfinds.locate_file hn'
      cases hlocate'.symm.trans hlocate''
      rwa [← hopens.textAt?_eq]
      exact fun _ hlogs hlocated => (hapart.log.misses hlogs hfinds hlocated).2 n hn' _ hlocate'
    · rintro ⟨m, hm, located', hm'⟩
      have hmeet := hapart.files m (hmodel m hm) n hn' _ _ (.inl rfl) (.inl rfl) (Disk.meet_of_locate hm' hlocate')
      exact hfinds.fullName_ne hj.symm htask htask' hm hn hmeet.1
  · intro place located hlogs hlocate
    obtain ⟨hplace, hfiles⟩ := hapart.log.misses hlogs hfinds hlocate
    exact ⟨hplace, fun ⟨m, hm, located', hm'⟩ => hfiles m (hmodel m hm) located' hm'⟩
  · intro place located hlogs hlocate
    rw [hs] at hlogs
    obtain ⟨hplace, hfiles⟩ := (hapart'.congr hplaces hs).misses hlogs hfinds (hplaces.symm.locate hlocate)
    exact ⟨hplace, fun ⟨m, hm, located', hm'⟩ => hfiles m (hmodel m hm) located' hm'⟩

end CommandLine
end Formulary
