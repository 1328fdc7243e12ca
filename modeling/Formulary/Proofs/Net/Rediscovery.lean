import Formulary.Proofs.Files.Writing
import Formulary.Proofs.Net.Discovery

/-! Where the models live that are found in a directory, and what finding them depends on: disks with the same
    directories, links and model files have the same models. -/

namespace Formulary

theorem isName_model : Path.IsName "model.pnml" := by
  constructor <;> decide

theorem ModelKey.ofDirectoryName?_eq_none {name : String} (h : name.toList.all isNameChar = true) :
    ofDirectoryName? name = none := by
  have hrest : name.toList.dropWhile isNameChar = [] :=
    List.dropWhile_eq_nil_iff.mpr fun c hc => List.all_eq_true.mp h c hc
  unfold ofDirectoryName?
  rw [hrest]
  rfl

theorem ModelKey.isName {name : String} {key : ModelKey} (h : ofDirectoryName? name = some key)
    (hplain : '/' ∉ name.toList) : Path.IsName name where
  ne_empty := by
    rintro rfl
    cases h
  ne_here := by
    rintro rfl
    cases h
  ne_up := by
    rintro rfl
    cases h
  plain := hplain

/-- The place of the model file in a directory with the name of a model. -/
def IsModelPlace (disk : Disk) (dir : String) (place : List String) : Prop :=
  ∃ name key located, Path.IsName name ∧ ModelKey.ofDirectoryName? name = some key ∧
    disk.locate (Path.join (Path.join dir name) "model.pnml") = .ok (place, located)

/-- No two entries of a directory have the same name, and no name has a slash in it. -/
structure Tidy (entries : List (String × Entry)) : Prop where
  nodup : (entries.map (·.1)).Nodup
  plain : ∀ name ∈ entries.map (·.1), '/' ∉ name.toList

namespace Discovery
variable {disk disk' : Disk} {dir : String} {home : List String} {entries entries' : List (String × Entry)}
  {found found' : Discovery} {m n : Model} {present kept : List String → Prop}

/-! ### Places of models -/

/-- A directory with tidy entries, at the place `home`, and what is found in it. -/
structure Finds (disk : Disk) (dir : String) (home : List String) (entries : List (String × Entry))
    (found : Discovery) : Prop where
  locate_eq : disk.locate dir = .ok (home, some (.directory entries))
  tidy : Tidy entries
  found_eq : ofDirectory disk dir = .ok found

theorem exists_locate_of_list (h : disk.list dir = .ok entries) :
    ∃ home, disk.locate dir = .ok (home, some (.directory entries)) := by
  unfold Disk.list at h
  cases hlocate : disk.locate dir with
  | error e =>
    rw [hlocate] at h
    cases h
  | ok r =>
    obtain ⟨home, located⟩ := r
    rw [hlocate] at h
    match located, h with
    | some (.directory _), rfl => exact ⟨home, rfl⟩

theorem Finds.list_eq (h : Finds disk dir home entries found) : disk.list dir = .ok entries := by
  rw [Disk.list, h.locate_eq]
  rfl

theorem Finds.found_eq_settled (h : Finds disk dir home entries found) : found = (gather disk dir entries).settled := by
  have heq := (ofDirectory_eq h.list_eq h.tidy.nodup).symm.trans h.found_eq
  cases heq
  rfl

theorem Finds.accounts (h : Finds disk dir home entries found) : found.Accounts disk dir entries := by
  rw [h.found_eq_settled]
  exact (gather_sorts h.tidy.nodup).accounts h.tidy.nodup

theorem Finds.isName (h : Finds disk dir home entries found) (hm : m ∈ found.arena.models) : Path.IsName m.fullName := by
  have haccounts := h.accounts
  refine ModelKey.isName (haccounts.model m hm).1 (h.tidy.plain _ (haccounts.once.subset ?_))
  simp only [List.append_assoc, List.mem_append]
  exact .inl (List.mem_map_of_mem hm)

theorem locate_of_isDirectory {path : String} (h : disk.isDirectory path = true) :
    ∃ place es, disk.locate path = .ok (place, some (.directory es)) := by
  obtain ⟨place, located, hlocate, es, hes⟩ := Disk.isDirectory_iff.mp h
  exact ⟨place, es, by rw [hlocate, Disk.get?_of_locate hlocate, hes]⟩

theorem Finds.directory_eq (h : Finds disk dir home entries found) (hm : m ∈ found.arena.models) :
    m.directory = Path.join dir m.fullName := (h.accounts.model m hm).2.1

theorem Finds.locate_directory (h : Finds disk dir home entries found) (hm : m ∈ found.arena.models) :
    ∃ place es, disk.locate m.directory = .ok (place, some (.directory es)) := by
  obtain ⟨-, -, hdirectory, -⟩ := h.accounts.model m hm
  exact locate_of_isDirectory hdirectory

/-- The model file is there. -/
theorem Finds.locate_file (h : Finds disk dir home entries found) (hm : m ∈ found.arena.models) :
    ∃ place located, disk.locate m.file = .ok (place, located) ∧ (disk.root.textAt? place).isSome :=
  Disk.isFile_iff.mp (h.accounts.model m hm).2.2.2

/-- The models of different tasks have different names. -/
theorem Finds.fullName_ne (h : Finds disk dir home entries found) {i j : Nat} {task task' : Task} (hne : i ≠ j)
    (hi : found.arena.tasks[i]? = some task) (hj : found.arena.tasks[j]? = some task') (hm : m ∈ task.models)
    (hn : n ∈ task'.models) : m.fullName ≠ n.fullName := by
  have hperm := h.accounts.paired.divides.models_perm
  have hnames : ((found.arena.tasks.flatMap (·.models)).map (·.fullName)).Nodup :=
    (hperm.map _).nodup_iff.mpr (h.accounts.models_ordered.imp fun hlt heq => by simp [heq] at hlt)
  rw [List.map_flatMap] at hnames
  have hdisjoint := List.pairwise_iff_getElem.mp (List.nodup_flatMap.mp hnames).2
  obtain ⟨hi', rfl⟩ := List.getElem?_eq_some_iff.mp hi
  obtain ⟨hj', rfl⟩ := List.getElem?_eq_some_iff.mp hj
  have hm' := List.mem_map_of_mem (f := Model.fullName) hm
  have hn' := List.mem_map_of_mem (f := Model.fullName) hn
  intro heq
  rcases Nat.lt_or_gt_of_ne hne with hlt | hlt
  · exact hdisjoint i j hi' hj' hlt hm' (heq ▸ hn')
  · exact hdisjoint j i hj' hi' hlt hn' (heq ▸ hm')

theorem Finds.mem_models (h : Finds disk dir home entries found) {task : Task} (htask : task ∈ found.arena.tasks)
    (hm : m ∈ task.models) : m ∈ found.arena.models :=
  h.accounts.paired.divides.models_perm.subset (List.mem_flatMap.mpr ⟨task, htask, hm⟩)

/-! ### The same models -/

theorem model?_congr (halike : disk.Alike present kept disk')
    (hpresent : ∀ place, IsModelPlace disk dir place → present place) {name : String} (hplain : '/' ∉ name.toList) :
    model? disk' dir name = model? disk dir name := by
  unfold model?
  rw [halike.isDirectory]
  split
  · cases hkey : ModelKey.ofDirectoryName? name with
    | none => rfl
    | some key =>
      have hname := ModelKey.isName hkey hplain
      have hfile : disk'.isFile (Path.join (Path.join dir name) "model.pnml") =
          disk.isFile (Path.join (Path.join dir name) "model.pnml") :=
        halike.isFile fun place located hlocate => hpresent place ⟨name, key, located, hname, hkey, hlocate⟩
      simp only [Option.bind_some, Model.file, hfile]
      rfl
  · rfl

/-- What is a directory under a name is an entry of that name. -/
theorem mem_of_isDirectory (hhome : disk.locate dir = .ok (home, some (.directory entries))) {name : String}
    (hname : Path.IsName name) (h : disk.isDirectory (Path.join dir name) = true) : name ∈ entries.map (·.1) := by
  obtain ⟨place, es, hlocate⟩ := locate_of_isDirectory h
  have hplace : disk.root.get? home = some (.directory entries) := (Disk.get?_of_locate hhome).symm
  rw [Disk.locate_join hhome hname] at hlocate
  split_ifs at hlocate
  cases hlookup : entries.lookup name with
  | some x =>
    obtain ⟨y, hy, hname⟩ := List.lookup_isSome_iff.mp (Option.isSome_of_eq_some hlookup)
    exact List.mem_map.mpr ⟨y, hy, (eq_of_beq hname).symm⟩
  | none =>
    -- without an entry the name leads to a place where nothing is
    rw [Disk.move_name ⟨entries, hplace⟩ hname, Entry.linkAt?_concat hplace, hlookup] at hlocate
    split_ifs at hlocate
    · cases hlocate
    · obtain ⟨-, hnone⟩ := Prod.mk.inj (Except.ok.inj hlocate)
      rw [Entry.get?_concat hplace, hlookup] at hnone
      cases hnone

/-- Lists of models in the order of their names are the same if they have the same models. -/
theorem eq_of_mem_iff {l l' : List Model} (hl : (l.map (·.fullName)).Pairwise (· < ·))
    (hl' : (l'.map (·.fullName)).Pairwise (· < ·)) (h : ∀ m, m ∈ l ↔ m ∈ l') : l = l' := by
  rw [List.pairwise_map] at hl hl'
  have hnodup {l : List Model} (hl : l.Pairwise fun m n => m.fullName < n.fullName) : l.Nodup :=
    hl.imp fun hlt heq => by simp [heq] at hlt
  refine ((List.perm_ext_iff_of_nodup (hnodup hl) (hnodup hl')).mpr h).eq_of_pairwise ?_ hl hl'
  intro m n _ _ hlt hgt
  exact absurd hgt (lt_asymm hlt)

/-- Disks with the same directories, links and model files have the same models. -/
theorem Finds.arena_congr (h : Finds disk dir home entries found) (h' : Finds disk' dir home entries' found')
    (halike : disk.Alike present kept disk') (hpresent : ∀ place, IsModelPlace disk dir place → present place) :
    found'.arena = found.arena := by
  have hpresent' : ∀ place, IsModelPlace disk' dir place → present place := by
    rintro place ⟨name, key, located, hname, hkey, hlocate⟩
    exact hpresent place ⟨name, key, _, hname, hkey, halike.symm.locate hlocate⟩
  have hsorts : (gather disk dir entries).Sorts disk dir (sortedNames entries) := gather_sorts h.tidy.nodup
  have hsorts' : (gather disk' dir entries').Sorts disk' dir (sortedNames entries') := gather_sorts h'.tidy.nodup
  have hordered {disk : Disk} {entries : List (String × Entry)} (htidy : Tidy entries) :
      ((gather disk dir entries).arena.models.map (·.fullName)).Pairwise (· < ·) := by
    rw [(gather_sorts htidy.nodup).map_fullName]
    exact (sortedNames_lt htidy.nodup).sublist List.filter_sublist
  have hmono {disk disk' : Disk} {entries entries' : List (String × Entry)} (htidy : Tidy entries)
      (hhome' : disk'.locate dir = .ok (home, some (.directory entries'))) (halike : disk.Alike present kept disk')
      (hpresent : ∀ place, IsModelPlace disk dir place → present place) {m}
      (hm : m ∈ (sortedNames entries).filterMap (model? disk dir)) :
      m ∈ (sortedNames entries').filterMap (model? disk' dir) := by
    obtain ⟨name, hname, hmodel⟩ := List.mem_filterMap.mp hm
    have hplain := htidy.plain name ((sortedNames_perm entries).subset hname)
    have hmodel' := (model?_congr halike hpresent hplain).trans hmodel
    refine List.mem_filterMap.mpr ⟨name, (sortedNames_perm entries').mem_iff.mpr ?_, hmodel'⟩
    obtain ⟨hdirectory, -, key, hkey, -⟩ := model?_eq_some.mp hmodel'
    exact mem_of_isDirectory hhome' (ModelKey.isName hkey hplain) hdirectory
  have hmodels : (gather disk' dir entries').arena.models = (gather disk dir entries).arena.models := by
    refine eq_of_mem_iff (hordered h'.tidy) (hordered h.tidy) fun m => ?_
    rw [hsorts.models, hsorts'.models]
    exact ⟨hmono h'.tidy h.locate_eq halike.symm hpresent', hmono h.tidy h'.locate_eq halike hpresent⟩
  have harena : (gather disk' dir entries').arena = (gather disk dir entries).arena := by
    refine Arena.ext_get? fun k => ?_
    rw [Arena.get?, Arena.get?, hmodels]
  have htwin : (gather disk' dir entries').withTwin = (gather disk dir entries).withTwin := by
    unfold withTwin find?
    rw [harena]
  rw [h.found_eq_settled, h'.found_eq_settled, settled, settled]
  dsimp only
  rw [harena, htwin]

end Discovery
end Formulary
