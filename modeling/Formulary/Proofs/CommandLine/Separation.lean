import Formulary.CommandLine.Run
import Formulary.Proofs.Net.Rediscovery
import Formulary.Proofs.Run.Agreement

/-! When the files of a run are files of their own. Links can make one file of two, or lead below one; without links
    the names of the files tell them apart. -/

namespace Formulary

namespace Settings
variable {s : Settings} {name : String}

theorem IsPropertyFile.isName (h : s.IsPropertyFile name) : Path.IsName name ∧ name ≠ "model.pnml" := by
  obtain ⟨category, -, rfl | rfl⟩ := h <;> cases category <;> exact ⟨by constructor <;> decide, by decide⟩

/-- The name of a file that a run with the settings uses in the directory of a model. -/
def IsUsedFile (s : Settings) (name : String) : Prop := name = "model.pnml" ∨ s.IsPropertyFile name

theorem IsUsedFile.isName (h : s.IsUsedFile name) : Path.IsName name := by
  rcases h with rfl | h
  · exact isName_model
  · exact h.isName.1

end Settings

theorem isName_summary : Path.IsName "summary.json" := by
  constructor <;> decide

namespace Disk
variable {d d' : Disk} {path path' : String} {place : List String} {present kept : List String → Prop}

/-- The path leads to where another one leads, or is that of a link to something below that place. -/
def Meet (d : Disk) (path path' : String) : Prop :=
  ∃ place found, d.locate path' = .ok (place, found) ∧ (d.locate path = .ok (place, found) ∨ d.Hangs path place)

theorem meet_of_locate {found found' : Option Entry} (h : d.locate path = .ok (place, found))
    (h' : d.locate path' = .ok (place, found')) : d.Meet path path' :=
  ⟨place, found', h', .inl (by rw [h, get?_of_locate h, get?_of_locate h'])⟩

theorem meet_of_hangs {found : Option Entry} (h : d.Hangs path place) (h' : d.locate path' = .ok (place, found)) :
    d.Meet path path' := ⟨place, found, h', .inr h⟩

theorem Alike.meet (h : d.Alike present kept d') (hmeet : d'.Meet path path') : d.Meet path path' := by
  obtain ⟨place, found, hlocate', hlocate | hhangs⟩ := hmeet
  · exact meet_of_locate (h.symm.locate hlocate) (h.symm.locate hlocate')
  · exact meet_of_hangs (h.hangs hhangs) (h.symm.locate hlocate')

theorem not_hangs (hlinks : ∀ q, d.root.linkAt? q = none) : ¬d.Hangs path place := by
  rintro ⟨dir, home, es, name, below, rfl, hname, hdir, hbelow, hlink, hplace⟩
  cases (hlinks _).symm.trans hlink

end Disk

namespace CommandLine
variable {s s' : Settings} {disk disk' : Disk} {found : Discovery} {logName logName' dir : String} {home : List String}
  {entries : List (String × Entry)} {present kept : List String → Prop}

/-- A log file is asked for. -/
def Logs (s : Settings) : Prop := (s.logger.enabled && s.logger.logFile) = true

/-- The log is no file that a run uses in a directory with the name of a model. -/
def LogIsApart (s : Settings) (logName : String) (disk : Disk) : Prop :=
  Logs s → ∀ name key file, Path.IsName name → ModelKey.ofDirectoryName? name = some key → s.IsUsedFile file →
    ¬disk.Meet (Path.join (Path.join s.inputDir name) file) (logPath logName)

/-- The place that a link among the property files of the models hangs below. -/
def IsHook (s : Settings) (disk : Disk) (found : Discovery) (place : List String) : Prop :=
  ∃ m ∈ found.arena.models, ∃ name, s.IsPropertyFile name ∧ disk.Hangs (Path.join m.directory name) place

theorem LogIsApart.congr (h : LogIsApart s' logName disk') (halike : disk.Alike present kept disk')
    (hs : s' = { s with numWorkers := s'.numWorkers }) : LogIsApart s logName disk := by
  rw [hs] at h
  exact fun hlogs name key file hname hkey hfile hmeet =>
    h hlogs name key file hname hkey hfile (halike.symm.meet hmeet)

/-- A log that is apart is not at the place of a model file, or one that a link hangs below. -/
theorem LogIsApart.misses (h : LogIsApart s logName disk) (hlogs : Logs s)
    (hfinds : Discovery.Finds disk s.inputDir home entries found) {place : List String} {located : Option Entry}
    (hlocate : disk.locate (logPath logName) = .ok (place, located)) :
    ¬(IsModelPlace disk s.inputDir place ∨ IsHook s disk found place) ∧
      ∀ m ∈ found.arena.models, ∀ located, disk.locate m.file ≠ .ok (place, located) := by
  have hmiss : ∀ m ∈ found.arena.models, ∀ file, s.IsUsedFile file →
      ¬disk.Meet (Path.join m.directory file) (logPath logName) := by
    intro m hm file hfile
    rw [hfinds.directory_eq hm]
    exact h hlogs _ m.key file (hfinds.isName hm) (hfinds.accounts.model m hm).1 hfile
  refine ⟨?_, fun m hm located' hlocate' => hmiss m hm _ (.inl rfl) (Disk.meet_of_locate hlocate' hlocate)⟩
  rintro (⟨name, key, located', hname, hkey, hlocate'⟩ | ⟨m, hm, name, hname, hhangs⟩)
  · exact h hlogs name key _ hname hkey (.inl rfl) (Disk.meet_of_locate hlocate' hlocate)
  · exact hmiss m hm name (.inr hname) (Disk.meet_of_hangs hhangs hlocate)

/-- Of the files that a run uses, those of models, the log and the summary, none of a model is another one, or a link to
    something below another one. -/
structure Apart (s : Settings) (logName : String) (disk : Disk) (found : Discovery) : Prop where
  files : ∀ m ∈ found.arena.models, ∀ n ∈ found.arena.models, ∀ file file', s.IsUsedFile file → s.IsUsedFile file' →
    disk.Meet (Path.join m.directory file) (Path.join n.directory file') → m.fullName = n.fullName ∧ file = file'
  summary : ∀ m ∈ found.arena.models, ∀ file, s.IsUsedFile file →
    ¬disk.Meet (Path.join m.directory file) (summaryPath s)
  log : LogIsApart s logName disk

/-- Files of a first run that are apart are so on a disk that is alike, where the log of a second run is apart too. -/
theorem Apart.congr {found' : Discovery} (h : Apart s logName disk found) (halike : disk.Alike present kept disk')
    (hs : s' = { s with numWorkers := s'.numWorkers }) (harena : found'.arena = found.arena)
    (hlog : LogIsApart s' logName' disk') : Apart s' logName' disk' found' where
  files m hm n hn file file' hfile hfile' hmeet := by
    rw [harena] at hm hn
    rw [hs] at hfile hfile'
    exact h.files m hm n hn file file' hfile hfile' (halike.meet hmeet)
  summary m hm file hfile hmeet := by
    rw [harena] at hm
    rw [hs] at hfile hmeet
    exact h.summary m hm file hfile (halike.meet hmeet)
  log := hlog

theorem logPath_eq_join (hlog : Path.IsName logName) : logPath logName = Path.join "./logs" logName := by
  rw [Path.join, hlog.not_startsWith]
  rfl

section Unlinked
variable (hlinks : ∀ q, disk.root.linkAt? q = none)
include hlinks

theorem place_of_logPath (hlog : Path.IsName logName) {place : List String} {located : Option Entry}
    (hlocate : disk.locate (logPath logName) = .ok (place, located)) : place = disk.here ++ ["logs", logName] := by
  rw [logPath_eq_join hlog] at hlocate
  obtain ⟨logs, es, hlogs, hmove⟩ := Disk.exists_locate_of_join (by decide) hlog hlocate
  have hrelative : "./logs".startsWith "/" = false := by simp [Bool.eq_false_iff, String.startsWith_string_iff]
  have hnames : Path.names "./logs" = [".", "logs"] := by decide
  have hname : Path.IsName "logs" := by constructor <;> decide
  obtain ⟨-, hfollow, -⟩ := Disk.locate_eq_ok.mp hlogs
  rw [Disk.start, hrelative, if_neg Bool.false_ne_true, hnames, Disk.follow_cons_eq_ok] at hfollow
  obtain ⟨here, hhere, hfollow⟩ := hfollow
  rw [Disk.move_eq (Disk.isDirectoryAt_of_move hhere), if_pos (.inr rfl)] at hhere
  cases hhere
  rw [Disk.follow_singleton] at hfollow
  rw [Disk.place_of_move hlog (hlinks _) hmove, Disk.place_of_move hname (hlinks _) hfollow, List.append_assoc]
  rfl

theorem locate_directory_of_unlinked (hfinds : Discovery.Finds disk s.inputDir home entries found) {m : Model}
    (hm : m ∈ found.arena.models) :
    ∃ es, disk.locate m.directory = .ok (home ++ [m.fullName], some (.directory es)) := by
  obtain ⟨place, es, hes⟩ := hfinds.locate_directory hm
  rw [hfinds.directory_eq hm] at hes ⊢
  have hplace := Disk.place_of_locate_join (hfinds.isName hm) (hlinks _) hfinds.locate_eq hes
  exact ⟨es, hplace ▸ hes⟩

/-- On a disk without links names tell all files apart. -/
theorem apart_of_unlinked (hfinds : Discovery.Finds disk s.inputDir home entries found) (hlog : Path.IsName logName) :
    Apart s logName disk found := by
  have hplace : ∀ m ∈ found.arena.models, ∀ file place located, s.IsUsedFile file →
      disk.locate (Path.join m.directory file) = .ok (place, located) → place = home ++ [m.fullName] ++ [file] := by
    intro m hm file place located hfile hlocate
    obtain ⟨es, hes⟩ := locate_directory_of_unlinked hlinks hfinds hm
    exact Disk.place_of_locate_join hfile.isName (hlinks _) hes hlocate
  constructor
  case files =>
    rintro m hm n hn file file' hfile hfile' ⟨place, located, hlocate', hlocate | hhangs⟩
    · have heq := (hplace m hm file place located hfile hlocate).symm.trans
        (hplace n hn file' place located hfile' hlocate')
      obtain ⟨hdirectory, hfile⟩ := List.append_inj' heq rfl
      exact ⟨by simpa using hdirectory, by simpa using hfile⟩
    · exact absurd hhangs (Disk.not_hangs hlinks)
  case summary =>
    rintro m hm file hfile ⟨place, located, hlocate', hlocate | hhangs⟩
    · have heq := (hplace m hm file place located hfile hlocate).symm.trans
        (Disk.place_of_locate_join isName_summary (hlinks _) hfinds.locate_eq hlocate')
      have hlength := congrArg List.length heq
      simp at hlength
    · exact Disk.not_hangs hlinks hhangs
  case log =>
    rintro - name key file hname hkey hfile ⟨place, located, hlocate', hlocate | hhangs⟩
    · obtain ⟨parent, es, hes, hmove⟩ := Disk.exists_locate_of_join (Path.join_ne_empty hname) hfile.isName hlocate
      have hdirectory := Disk.place_of_locate_join hname (hlinks _) hfinds.locate_eq hes
      have hfilePlace := Disk.place_of_move hfile.isName (hlinks _) hmove
      have heq := hfilePlace.symm.trans (place_of_logPath hlinks hlog hlocate')
      rw [hdirectory, List.append_assoc] at heq
      -- the log is in a directory whose name is that of no model
      have hlogs : name = "logs" := by
        have hnames := (List.append_inj' heq rfl).2
        simp at hnames
        exact hnames.1
      rw [hlogs, ModelKey.ofDirectoryName?_eq_none (by decide)] at hkey
      cases hkey
    · exact Disk.not_hangs hlinks hhangs

end Unlinked

end CommandLine
end Formulary
