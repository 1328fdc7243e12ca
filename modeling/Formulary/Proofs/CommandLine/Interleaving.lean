import Formulary.Proofs.CommandLine.Separation

/-! Tasks at work on one disk. Each writes property files in the directories of its own models and reads the model files
    there. So where these are files of their own, whatever other tasks write at any time, a task finds what it would find
    if it were alone, and in the end its files have the texts that it wrote last. -/

namespace Formulary

namespace Discovery.Finds
variable {disk disk' : Disk} {dir : String} {home : List String} {entries : List (String × Entry)} {found : Discovery}
  {task : Task} {m : Model} {present kept : List String → Prop} {path : String}

theorem read_eq (h : Finds disk dir home entries found) (hm : m ∈ found.arena.models)
    (halike : disk.Alike present kept disk')
    (hkept : ∀ place located, disk.locate m.file = .ok (place, located) → kept place) :
    disk'.read m.file = disk.read m.file := by
  obtain ⟨place, located, hlocate, htext⟩ := h.locate_file hm
  obtain ⟨text, htext⟩ := Option.isSome_iff_exists.mp htext
  have hread : disk.read m.file = .ok text := Disk.read_eq_ok.mpr ⟨place, located, hlocate, htext⟩
  rw [hread]
  exact halike.read hread hkept

theorem summaryOf_eq (h : Finds disk dir home entries found) (hm : m ∈ found.arena.models)
    (halike : disk.Alike present kept disk')
    (hkept : ∀ place located, disk.locate m.file = .ok (place, located) → kept place) :
    Model.summaryOf disk' m.file = Model.summaryOf disk m.file := by
  rw [Model.summaryOf, Model.summaryOf, h.read_eq hm halike hkept]

theorem writable_eq {s : Settings} (h : Finds disk dir home entries found) (htask : task ∈ found.arena.tasks)
    (hpath : task.Owns s path) (halike : disk.Alike present kept disk') (hhangs : ∀ p, disk.Hangs path p → present p) :
    disk'.writable path = disk.writable path := by
  obtain ⟨m, hm, name, hname, rfl⟩ := hpath
  obtain ⟨place, es, hes⟩ := h.locate_directory (h.mem_models htask hm)
  exact halike.writable_join hes hname.isName.1 hhangs

end Discovery.Finds

namespace CommandLine
variable {w w' : Workshop Unit} {task task' : Task} {i j : Nat} {d d' : Disk} {path text : String} {s : Settings}
  {logName : String} {home place : List String} {entries : List (String × Entry)} {found : Discovery}

/-- The work on a task depends on its position only through the sum of the position and the seed. -/
theorem runTask_congr (h : w.Matches w' task)
    (hseed : w'.settings.seed + UInt64.ofNat j = w.settings.seed + UInt64.ofNat i) :
    runTask w' j task = runTask w i task ∧ ∀ f ∈ (runTask w i task).written, w.CanWrite task f.1 := by
  obtain ⟨hresult, halike, ⟨written, hwritten, hfiles⟩, -⟩ := h.run
    { stream := .ofSeed (w.settings.seed + UInt64.ofNat i), oracle := () }
    { stream := .ofSeed (w'.settings.seed + UInt64.ofNat j), oracle := () } ⟨by rw [hseed], rfl, rfl⟩
  constructor
  · unfold runTask
    exact congrArg₂ TaskResult.mk hresult halike.written
  · intro f hf
    exact hfiles f ((List.nil_append written ▸ hwritten) ▸ hf)

theorem matches_refl (w : Workshop Unit) (task : Task) : w.Matches w task :=
  ⟨rfl, rfl, rfl, fun _ _ => rfl, fun _ _ => rfl, fun _ _ _ _ _ => ⟨rfl, rfl⟩⟩

/-! ### What a task finds -/

/-- The disks that there can be while the tasks are at work. Any task can have written any of the files that it makes
    on one of these disks. -/
inductive Interleaved (w : Workshop Unit) (tasks : List Task) : Disk → Prop where
  | start : Interleaved w tasks w.disk
  | write {seen d d' : Disk} {i : Nat} {task : Task} {path text : String} (hseen : Interleaved w tasks seen)
      (h : Interleaved w tasks d) (htask : tasks[i]? = some task)
      (hfile : (path, text) ∈ (runTask { w with disk := seen } i task).written) (hwrite : d.write path text = .ok d') :
      Interleaved w tasks d'

/-- The place of the model file of a model that is found. -/
def IsKept (disk : Disk) (found : Discovery) (place : List String) : Prop :=
  ∃ m ∈ found.arena.models, ∃ located, disk.locate m.file = .ok (place, located)

section Tasks
variable (hfinds : Discovery.Finds w.disk w.settings.inputDir home entries found)
include hfinds

/-- On a disk where the model files are as they were, a task finds the same. -/
theorem matches_of_alike (htask : task ∈ found.arena.tasks)
    (h : w.disk.Alike (IsHook w.settings w.disk found) (IsKept w.disk found) d) :
    w.Matches { w with disk := d } task where
  generation := rfl
  filter := rfl
  catalog := rfl
  reads m hm :=
    have hm := hfinds.mem_models htask hm
    hfinds.summaryOf_eq hm h fun _ located hlocate => ⟨m, hm, located, hlocate⟩
  writable path hpath := by
    refine hfinds.writable_eq htask hpath h fun p hhangs => ?_
    obtain ⟨m, hm, name, hname, rfl⟩ := hpath
    exact ⟨m, hfinds.mem_models htask hm, name, hname, hhangs⟩
  answers _ _ _ _ _ := ⟨rfl, rfl⟩

/-- What the tasks write are no model files, and no links hang below it. -/
theorem Interleaved.alike (hapart : Apart w.settings logName w.disk found) (h : Interleaved w found.arena.tasks d) :
    w.disk.Alike (IsHook w.settings w.disk found) (IsKept w.disk found) d := by
  induction h with
  | start => exact .refl _ _ _
  | @write seen d d' i task path text _ _ htask hfile hwrite hseen hd =>
    have htask' := List.mem_of_getElem? htask
    obtain ⟨heq, hfiles⟩ := runTask_congr (i := i) (j := i) (matches_of_alike hfinds htask' hseen) rfl
    rw [heq] at hfile
    obtain ⟨place, located, hlocate, -, hwrites⟩ := Disk.writes_of_write hwrite
    obtain ⟨m, hm, name, hname, rfl⟩ := (hfiles _ hfile).1
    have hm := hfinds.mem_models htask' hm
    have hplace := hd.symm.locate hlocate
    refine hd.trans (.of_writes hwrites ?_ ?_)
    · rintro ⟨n, hn, name', hname', hhangs⟩
      obtain ⟨hfull, rfl⟩ := hapart.files n hn m hm name' name (.inr hname') (.inr hname)
        (Disk.meet_of_hangs hhangs hplace)
      rw [hfinds.directory_eq hn, hfull, ← hfinds.directory_eq hm] at hhangs
      exact absurd hplace hhangs.locate_ne
    · rintro ⟨n, hn, located', hlocate'⟩
      have hmeet := hapart.files m hm n hn name _ (.inr hname) (.inl rfl) (Disk.meet_of_locate hplace hlocate')
      exact hname.isName.2 hmeet.2

end Tasks

/-- On a disk a task finds its model files and can write its property files as at the start, and comes to the same. -/
structure Undisturbed (w : Workshop Unit) (d : Disk) (i : Nat) (task : Task) : Prop where
  reads : ∀ m ∈ task.models, Model.summaryOf d m.file = Model.summaryOf w.disk m.file
  writable : ∀ path, task.Owns w.settings path → d.writable path = w.disk.writable path
  result : runTask { w with disk := d } i task = runTask w i task

theorem Interleaved.undisturbed (h : Interleaved w found.arena.tasks d)
    (hfinds : Discovery.Finds w.disk w.settings.inputDir home entries found)
    (hapart : Apart w.settings logName w.disk found) (htask : found.arena.tasks[i]? = some task) :
    Undisturbed w d i task := by
  have hmatches := matches_of_alike hfinds (List.mem_of_getElem? htask) (h.alike hfinds hapart)
  exact ⟨hmatches.reads, hmatches.writable, (runTask_congr hmatches rfl).1⟩

theorem Interleaved.writeAll {tasks : List Task} {seen : Disk} {files : List (String × String)}
    (hseen : Interleaved w tasks seen) (htask : tasks[i]? = some task) (h : Interleaved w tasks d)
    (hfiles : ∀ f ∈ files, f ∈ (runTask { w with disk := seen } i task).written) :
    Interleaved w tasks (writeAll d files) := by
  induction files generalizing d with
  | nil => exact h
  | cons f files ih =>
    obtain ⟨hf, hothers⟩ := List.forall_mem_cons.mp hfiles
    have hstep : Interleaved w tasks ((d.write f.1 f.2).toOption.getD d) := by
      cases hwrite : d.write f.1 f.2 with
      | error => exact h
      | ok d' => exact .write hseen h htask hf hwrite
    exact ih hstep hothers

/-- Tasks that come one after the other, each finding the files of those before it, come to what each comes to alone. -/
theorem runTasks_eq (hfinds : Discovery.Finds w.disk w.settings.inputDir home entries found)
    (hapart : Apart w.settings logName w.disk found) :
    runTasks w 0 found.arena.tasks = found.arena.tasks.mapIdx (runTask w) := by
  have hrest : ∀ (rest : List Task) (i : Nat) (d : Disk), Interleaved w found.arena.tasks d →
      (∀ k, rest[k]? = found.arena.tasks[i + k]?) →
        runTasks { w with disk := d } i rest = rest.mapIdx fun k => runTask w (i + k) := by
    intro rest
    induction rest with
    | nil => exact fun _ _ _ _ => rfl
    | cons task rest ih =>
      intro i d hd hrest
      have htask : found.arena.tasks[i]? = some task := (hrest 0).symm
      have hresult := (hd.undisturbed hfinds hapart htask).result
      have hwritten : Interleaved w found.arena.tasks (CommandLine.writeAll d (runTask w i task).written) :=
        hd.writeAll htask hd fun f hf => hresult.symm ▸ hf
      rw [runTasks, hresult, List.mapIdx_cons]
      refine congrArg₂ _ rfl ((ih (i + 1) _ hwritten fun k => ?_).trans ?_)
      · rw [Nat.add_right_comm]
        exact hrest (k + 1)
      · simp only [Nat.add_right_comm i 1, Nat.add_assoc]
  rw [hrest found.arena.tasks 0 w.disk .start fun k => by rw [Nat.zero_add]]
  simp only [Nat.zero_add]

/-! ### What is left in the end -/

/-- All files of several tasks in some order, each with the position of its task: the files of one task come in the
    order in which it writes them. -/
def IsMerge (done : List TaskResult) (files : List (Nat × String × String)) : Prop :=
  (∀ f ∈ files, f.1 < done.length) ∧
    ∀ i r, done[i]? = some r → (files.filter (·.1 = i)).map (·.2) = r.written

/-- The text that a task gives a file in the end, if it writes it. -/
def lastText (files : List (String × String)) (path : String) : Option String := files.reverse.lookup path

theorem lastText_append_singleton (files : List (String × String)) (f : String × String) :
    lastText (files ++ [f]) path = if f.1 = path then some f.2 else lastText files path := by
  unfold lastText
  rw [List.reverse_append, List.reverse_singleton, List.singleton_append, List.lookup_cons]
  by_cases h : f.1 = path
  · rw [if_pos h, h, beq_self_eq_true]
  · rw [if_neg h, beq_false_of_ne (Ne.symm h)]

/-- A file that only one task writes gets its text from that task. -/
theorem lastText_filter {files : List (Nat × String × String)} (h : ∀ f ∈ files, f.2.1 = path → f.1 = i) :
    lastText (files.map (·.2)) path = lastText ((files.filter (·.1 = i)).map (·.2)) path := by
  induction files using List.reverseRecOn with
  | nil => rfl
  | append_singleton files f ih =>
    rw [List.map_append, List.map_singleton, lastText_append_singleton,
      ih fun f hf => h f (List.mem_append_left _ hf), List.filter_append, List.map_append]
    by_cases hpath : f.2.1 = path
    · have hi : f.1 = i := h f (by simp) hpath
      simp [hi, hpath, lastText_append_singleton]
    · by_cases hi : f.1 = i <;> simp [hi, hpath, lastText_append_singleton]

theorem writeAll_append_singleton (d : Disk) (files : List (String × String)) (f : String × String) :
    writeAll d (files ++ [f]) = ((writeAll d files).write f.1 f.2).toOption.getD (writeAll d files) := by
  rw [writeAll, List.foldl_concat]
  rfl

/-- Files that can be written get the texts that are written last, if no two paths lead to the same place. -/
theorem textAt?_writeAll {files : List (String × String)} (hfiles : ∀ f ∈ files, d.writable f.1 = .ok ()) :
    d.Alike (fun _ => False) (fun _ => False) (writeAll d files) ∧
      ∀ path place located, d.locate path = .ok (place, located) →
        (∀ f ∈ files, ∀ located', d.locate f.1 = .ok (place, located') → f.1 = path) →
        (writeAll d files).root.textAt? place = (lastText files path).or (d.root.textAt? place) := by
  induction files using List.reverseRecOn with
  | nil => exact ⟨.refl _ _ _, fun _ _ _ _ _ => rfl⟩
  | append_singleton files f ih =>
    obtain ⟨halike, htexts⟩ := ih fun f hf => hfiles f (List.mem_append_left _ hf)
    obtain ⟨target, located', hlocate', htarget⟩ := Disk.writable_eq_ok.mp (hfiles f (by simp))
    have htarget' : ¬(writeAll d files).root.IsDirectoryAt target := fun h => htarget ((halike.directory_iff _).mp h)
    have hwrite : (writeAll d files).write f.1 f.2 = _ := Disk.write_eq (halike.locate hlocate') htarget'
    obtain ⟨place', located'', hplace', -, hwrites⟩ := Disk.writes_of_write hwrite
    rw [halike.locate hlocate'] at hplace'
    cases hplace'
    have hstep : writeAll d (files ++ [f]) =
        { writeAll d files with root := Entry.put (.file f.2) target (writeAll d files).root } := by
      rw [writeAll_append_singleton, hwrite]
      rfl
    rw [← hstep] at hwrites
    refine ⟨halike.trans (.of_writes hwrites nofun id), fun path place located hlocate honly => ?_⟩
    rw [hwrites.textAt?_eq, lastText_append_singleton]
    by_cases hplace : place = target
    · subst hplace
      have hpath := honly f (by simp) located' hlocate'
      simp [hpath]
    · have hpath : f.1 ≠ path := by
        rintro rfl
        rw [hlocate] at hlocate'
        cases hlocate'
        exact hplace rfl
      rw [if_neg hplace, if_neg hpath]
      exact htexts path place located hlocate fun f hf => honly f (List.mem_append_left _ hf)

theorem canWrite_of_mem_written {f : String × String} (h : f ∈ (runTask w i task).written) : w.CanWrite task f.1 :=
  (runTask_congr (i := i) (j := i) (matches_refl w task) rfl).2 f h

theorem getElem?_done (tasks : List Task) (i : Nat) :
    (tasks.mapIdx (runTask w))[i]? = (tasks[i]?).map (runTask w i) := List.getElem?_mapIdx

theorem IsMerge.exists_task {tasks : List Task} {files : List (Nat × String × String)}
    (h : IsMerge (tasks.mapIdx (runTask w)) files) {f : Nat × String × String} (hf : f ∈ files) :
    ∃ task, tasks[f.1]? = some task ∧ f.2 ∈ (runTask w f.1 task).written := by
  have hlt := h.1 f hf
  rw [List.length_mapIdx] at hlt
  refine ⟨_, List.getElem?_eq_getElem hlt, ?_⟩
  rw [← h.2 f.1 _ (by rw [getElem?_done, List.getElem?_eq_getElem hlt]; rfl)]
  exact List.mem_map_of_mem (List.mem_filter.mpr ⟨hf, decide_eq_true rfl⟩)

theorem IsMerge.writable {tasks : List Task} {files : List (Nat × String × String)}
    (h : IsMerge (tasks.mapIdx (runTask w)) files) : ∀ f ∈ files.map (·.2), w.disk.writable f.1 = .ok () := by
  intro f hf
  obtain ⟨g, hg, rfl⟩ := List.mem_map.mp hf
  obtain ⟨_, -, hwritten⟩ := h.exists_task hg
  exact (canWrite_of_mem_written hwritten).2

/-- In whichever order the tasks write, the place of a file that a task writes has the text that this task gives it. -/
theorem textAt?_of_isMerge (hfinds : Discovery.Finds w.disk w.settings.inputDir home entries found)
    (hapart : Apart w.settings logName w.disk found) {files : List (Nat × String × String)}
    (hmerge : IsMerge (found.arena.tasks.mapIdx (runTask w)) files) (htask : found.arena.tasks[i]? = some task)
    (htext : lastText (runTask w i task).written path = some text) :
    task.Owns w.settings path ∧ ∃ place located, w.disk.locate path = .ok (place, located) ∧
      (writeAll w.disk (files.map (·.2))).root.textAt? place = some text := by
  obtain ⟨-, htexts⟩ := textAt?_writeAll hmerge.writable
  have hmem : (path, text) ∈ (runTask w i task).written := by
    obtain ⟨x, y, heq, -⟩ := List.lookup_eq_some_iff.mp htext
    exact List.mem_reverse.mp (heq ▸ List.mem_append_right _ List.mem_cons_self)
  obtain ⟨howns, hcan⟩ : w.CanWrite task path := canWrite_of_mem_written hmem
  obtain ⟨place, located, hlocate, -⟩ := Disk.writable_eq_ok.mp hcan
  refine ⟨howns, place, located, hlocate, ?_⟩
  obtain ⟨m, hm, name, hname, rfl⟩ := howns
  have hm' := hfinds.mem_models (List.mem_of_getElem? htask) hm
  -- a file at the same place is one of the same model, so it is written by the same task
  have hsame : ∀ f ∈ files, ∀ located', w.disk.locate f.2.1 = .ok (place, located') →
      f.2.1 = Path.join m.directory name ∧ f.1 = i := by
    intro f hf located' hlocate'
    obtain ⟨task', htask', hwritten⟩ := hmerge.exists_task hf
    obtain ⟨n, hn, name', hname', hpath'⟩ := (canWrite_of_mem_written hwritten).1
    have hn' := hfinds.mem_models (List.mem_of_getElem? htask') hn
    rw [hpath'] at hlocate' ⊢
    obtain ⟨hfull, rfl⟩ := hapart.files n hn' m hm' name' name (.inr hname') (.inr hname)
      (Disk.meet_of_locate hlocate' hlocate)
    constructor
    · rw [hfinds.directory_eq hn', hfinds.directory_eq hm', hfull]
    · by_contra hne
      exact hfinds.fullName_ne hne htask' htask hn hm hfull
  rw [htexts _ place located hlocate, lastText_filter (i := i), hmerge.2 i _ (by rw [getElem?_done, htask]; rfl), htext]
  · rfl
  · intro f hf hfile
    exact (hsame f hf located (hfile ▸ hlocate)).2
  · intro f hf located' hlocate'
    obtain ⟨g, hg, rfl⟩ := List.mem_map.mp hf
    exact (hsame g hg located' hlocate').1

end CommandLine
end Formulary
