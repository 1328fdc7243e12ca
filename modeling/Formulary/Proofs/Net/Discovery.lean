import Mathlib.Data.List.Induction
import Mathlib.Data.String.Basic
import Formulary.Net.Discovery
import Formulary.Proofs.Net.Arena
import Formulary.Proofs.Property.Id

/-! What is found in a directory. The name of an entry gives a model its key, and the key gives the name back, so the
    entries have different keys. Then it makes no difference in which order the entries are listed or the models are
    linked: each link sets the twins of two models that no other link is about. -/

namespace Formulary

/-! ### Names of directories -/

namespace ModelKey

theorem append_drop_of_after? {lead s rest : List Char} (h : after? lead s = some rest) : s = lead ++ rest := by
  unfold after? at h
  split at h
  · rename_i hprefix
    cases h
    exact (List.prefix_iff_eq_append.mp (List.isPrefixOf_iff_prefix.mp hprefix)).symm
  · cases h

/-- The key of a model has the parts of the name of its directory. -/
theorem fullName_of_ofDirectoryName? {name : String} {key : ModelKey} (h : ofDirectoryName? name = some key) :
    key.fullName = name := by
  have hsplit : name.toList = name.toList.takeWhile isNameChar ++ name.toList.dropWhile isNameChar :=
    List.takeWhile_append_dropWhile.symm
  unfold ofDirectoryName? at h
  dsimp only at h
  split at h
  case h_1 variant rest hvariant =>
    split at h
    case isTrue =>
      cases h
      have htail : name.toList.dropWhile isNameChar = '-' :: variant.tag.toList ++ '-' :: rest := by
        unfold variantAndInstance? at hvariant
        split at hvariant
        · rename_i hcolored
          cases hvariant
          have happend := append_drop_of_after? hcolored
          exact happend
        · rename_i huncolored
          cases hvariant
          have happend := append_drop_of_after? huncolored
          exact happend
        · cases hvariant
      refine String.toList_inj.mp ?_
      rw [fullName]
      simp only [String.toList_append, String.toList_ofList]
      conv_rhs => rw [hsplit, htail]
      simp
    case isFalse => cases h
  case h_2 => cases h

/-- The key of the other variant of a model. -/
def other (k : ModelKey) : ModelKey :=
  { k with variant := match k.variant with
    | .colored => .placeTransition
    | .placeTransition => .colored }

theorem opposite_iff {k l : ModelKey} : k.Opposite l ↔ l = k.other := by
  obtain ⟨name, variant, instanceName⟩ := k
  obtain ⟨name', variant', instanceName'⟩ := l
  constructor
  · rintro ⟨hvariant, hname, hinstance⟩
    cases hname
    cases hinstance
    cases variant <;> cases variant' <;> first | rfl | exact absurd rfl hvariant
  · rintro ⟨⟩
    exact ⟨by cases variant <;> nofun, rfl, rfl⟩

theorem other_other (k : ModelKey) : k.other.other = k := by
  obtain ⟨name, variant, instanceName⟩ := k
  cases variant <;> rfl

/-- The key of the colored variant of a model. -/
def colored (k : ModelKey) : ModelKey := { k with variant := .colored }

theorem colored_eq_iff {k l : ModelKey} (hl : l.variant = .colored) : k.colored = l ↔ k = l ∨ k = l.other := by
  obtain ⟨name, variant, instanceName⟩ := k
  obtain ⟨name', variant', instanceName'⟩ := l
  cases hl
  cases variant <;> simp [colored, other]

theorem colored_ne {k l : ModelKey} (hl : l.variant ≠ .colored) : k.colored ≠ l := fun h => hl (h ▸ rfl)

end ModelKey

namespace Discovery
variable {disk : Disk} {dir : String} {entries : List (String × Entry)} {names : List String} {name : String}
  {d : Discovery} {m n : Model} {i j : Nat}

/-! ### Names in order -/

theorem sortedNames_perm (entries : List (String × Entry)) : (sortedNames entries).Perm (entries.map (·.1)) :=
  List.mergeSort_perm ..

theorem sortedNames_le (entries : List (String × Entry)) : (sortedNames entries).Pairwise (· ≤ ·) := by
  unfold sortedNames
  have htrans (a b c : String) : decide (a ≤ b) = true → decide (b ≤ c) = true → decide (a ≤ c) = true := by
    simpa using le_trans
  have htotal (a b : String) : (decide (a ≤ b) || decide (b ≤ a)) = true := by
    simpa using le_total a b
  simpa using List.pairwise_mergeSort htrans htotal (entries.map (·.1))

theorem sortedNames_lt (h : (entries.map (·.1)).Nodup) : (sortedNames entries).Pairwise (· < ·) :=
  (sortedNames_le entries).imp₂ (fun _ _ => lt_of_le_of_ne) ((sortedNames_perm entries).nodup_iff.mpr h)

theorem sortedNames_congr {entries' : List (String × Entry)} (h : entries'.Perm entries) :
    sortedNames entries' = sortedNames entries := by
  have hperm := ((sortedNames_perm entries').trans (h.map _)).trans (sortedNames_perm entries).symm
  exact hperm.eq_of_pairwise (fun _ _ _ _ => le_antisymm) (sortedNames_le entries') (sortedNames_le entries)

/-! ### What becomes of an entry -/

/-- Whether an entry is a directory with a model file in it, the name of the directory being that of a model. -/
def model? (disk : Disk) (dir name : String) : Option Model :=
  if disk.isDirectory (Path.join dir name) then
    (ModelKey.ofDirectoryName? name).bind fun key =>
      let m : Model := { key, directory := Path.join dir name }
      if disk.isFile m.file then some m else none
  else none

/-- An entry that is no directory. -/
def isStray (disk : Disk) (dir name : String) : Bool := !disk.isDirectory (Path.join dir name)

/-- A directory whose name is not that of a model. -/
def isMisnamed (disk : Disk) (dir name : String) : Bool :=
  disk.isDirectory (Path.join dir name) && (ModelKey.ofDirectoryName? name).isNone

/-- A directory with the name of a model and no model file. -/
def isEmpty (disk : Disk) (dir name : String) : Bool :=
  disk.isDirectory (Path.join dir name) && (ModelKey.ofDirectoryName? name).isSome &&
    !disk.isFile (Path.join (Path.join dir name) "model.pnml")

theorem model?_eq_some : model? disk dir name = some m ↔
    disk.isDirectory (Path.join dir name) = true ∧ disk.isFile m.file = true ∧
      ∃ key, ModelKey.ofDirectoryName? name = some key ∧ m = { key, directory := Path.join dir name } := by
  unfold model?
  split
  · rename_i hdirectory
    rw [Option.bind_eq_some_iff]
    constructor
    · rintro ⟨key, hkey, h⟩
      dsimp only at h
      split at h
      · rename_i hfile
        cases h
        exact ⟨hdirectory, hfile, key, hkey, rfl⟩
      · cases h
    · rintro ⟨-, hfile, key, hkey, rfl⟩
      exact ⟨key, hkey, if_pos hfile⟩
  · rename_i hdirectory
    exact ⟨nofun, fun h => absurd h.1 hdirectory⟩

theorem fullName_of_model? (h : model? disk dir name = some m) : m.fullName = name := by
  obtain ⟨-, -, key, hkey, rfl⟩ := model?_eq_some.mp h
  exact ModelKey.fullName_of_ofDirectoryName? hkey

/-- What was found among some entries: those with a model file are models, and the others are listed by reason. -/
structure Sorts (disk : Disk) (dir : String) (names : List String) (d : Discovery) : Prop where
  models : d.arena.models = names.filterMap (model? disk dir)
  notDirectory : d.report.notDirectory = names.filter (isStray disk dir)
  wrongName : d.report.wrongName = names.filter (isMisnamed disk dir)
  noModel : d.report.noModel = names.filter (isEmpty disk dir)
  duplicate : d.report.duplicate = []

theorem find?_eq_none_iff {key : ModelKey} : d.find? key = none ↔ ∀ m ∈ d.arena.models, m.key ≠ key := by
  unfold find?
  rw [List.findIdx?_eq_none_iff]
  simp

/-- An entry of another name has another key. -/
theorem Sorts.find?_eq_none (h : d.Sorts disk dir names) (hname : name ∉ names) {key : ModelKey}
    (hkey : ModelKey.ofDirectoryName? name = some key) : d.find? key = none := by
  refine find?_eq_none_iff.mpr fun m hm heq => hname ?_
  rw [h.models, List.mem_filterMap] at hm
  obtain ⟨name', hname', hm⟩ := hm
  have hfull := fullName_of_model? hm
  rw [Model.fullName, heq, ModelKey.fullName_of_ofDirectoryName? hkey] at hfull
  rwa [hfull]

theorem Sorts.visit (h : d.Sorts disk dir names) (hname : name ∉ names) :
    (d.visit disk dir name).Sorts disk dir (names ++ [name]) := by
  obtain ⟨hmodels, hnotDirectory, hwrongName, hnoModel, hduplicate⟩ := id h
  unfold Discovery.visit
  cases hdirectory : disk.isDirectory (Path.join dir name) with
  | false =>
    constructor <;> simp [hmodels, hnotDirectory, hwrongName, hnoModel, hduplicate, model?, isStray, isMisnamed, isEmpty,
      hdirectory]
  | true =>
    cases hkey : ModelKey.ofDirectoryName? name with
    | none =>
      constructor <;> simp [hmodels, hnotDirectory, hwrongName, hnoModel, hduplicate, model?, isStray, isMisnamed,
        isEmpty, hdirectory, hkey]
    | some key =>
      have hnew := h.find?_eq_none hname hkey
      cases hfile : disk.isFile (Path.join (Path.join dir name) "model.pnml") <;>
        constructor <;> simp [hmodels, hnotDirectory, hwrongName, hnoModel, hduplicate, model?, isStray, isMisnamed,
          isEmpty, hdirectory, hkey, Model.file, hfile, hnew, Arena.add]

theorem sorts_foldl (h : names.Nodup) : Sorts disk dir names (names.foldl (visit disk dir) {}) := by
  induction names using List.reverseRecOn with
  | nil => exact ⟨rfl, rfl, rfl, rfl, rfl⟩
  | append_singleton names name ih =>
    rw [List.nodup_append] at h
    rw [List.foldl_concat]
    exact (ih h.1).visit fun hmem => h.2.2 name hmem name List.mem_cons_self rfl

theorem gather_sorts (h : (entries.map (·.1)).Nodup) :
    (gather disk dir entries).Sorts disk dir (sortedNames entries) :=
  sorts_foldl ((sortedNames_perm entries).nodup_iff.mpr h)

theorem Sorts.map_fullName (h : d.Sorts disk dir names) :
    d.arena.models.map (·.fullName) = names.filter fun name => (model? disk dir name).isSome := by
  rw [h.models, List.map_filterMap, ← List.filterMap_eq_filter]
  refine List.filterMap_congr fun name _ => ?_
  cases hm : model? disk dir name with
  | none => simp [Option.guard, hm]
  | some m => simp [Option.guard, hm, fullName_of_model? hm]

/-- The entries of the models found and those in the lists are all entries. -/
theorem Sorts.once (h : d.Sorts disk dir names) :
    (d.arena.models.map (·.fullName) ++ d.report.notDirectory ++ d.report.wrongName ++ d.report.noModel).Perm names := by
  rw [h.map_fullName, h.notDirectory, h.wrongName, h.noModel, List.perm_iff_count]
  intro name
  have hcount (p : String → Bool) : (names.filter p).count name = if p name then names.count name else 0 := by
    split
    · rename_i hp
      exact List.count_filter hp
    · rename_i hp
      exact List.count_eq_zero.mpr fun hmem => hp (List.mem_filter.mp hmem).2
  simp only [List.count_append, hcount]
  -- an entry has exactly one of the four reasons
  unfold model? isStray isMisnamed isEmpty
  cases disk.isDirectory (Path.join dir name) with
  | false => simp
  | true =>
    cases ModelKey.ofDirectoryName? name with
    | none => simp
    | some key => cases hfile : disk.isFile (Path.join (Path.join dir name) "model.pnml") <;> simp [Model.file, hfile]

/-! ### Links in any order -/

/-- The models found have different keys, and no twins yet. -/
structure Fresh (d : Discovery) : Prop where
  nodup : (d.arena.models.map (·.key)).Nodup
  free : ∀ m ∈ d.arena.models, m.twin = none

theorem Sorts.fresh (h : d.Sorts disk dir names) (hnames : names.Nodup) : d.Fresh where
  nodup := by
    have hnodup : (d.arena.models.map (·.fullName)).Nodup := by
      refine List.Nodup.sublist ?_ (h.once.nodup_iff.mpr hnames)
      rw [List.append_assoc, List.append_assoc]
      exact List.sublist_append_left ..
    have hkeys : d.arena.models.map (·.fullName) = (d.arena.models.map (·.key)).map ModelKey.fullName :=
      (List.map_map ..).symm
    rw [hkeys] at hnodup
    exact hnodup.of_map _
  free m hm := by
    rw [h.models, List.mem_filterMap] at hm
    obtain ⟨name, -, hm⟩ := hm
    obtain ⟨-, -, key, -, rfl⟩ := model?_eq_some.mp hm
    rfl

theorem Fresh.find?_eq_some_iff (h : d.Fresh) {key : ModelKey} :
    d.find? key = some i ↔ ∃ m, d.arena.get? i = some m ∧ m.key = key := by
  unfold find? Arena.get?
  rw [List.findIdx?_eq_some_iff_getElem]
  constructor
  · rintro ⟨hi, hkey, -⟩
    exact ⟨_, List.getElem?_eq_getElem hi, of_decide_eq_true hkey⟩
  · rintro ⟨m, hm, rfl⟩
    obtain ⟨hi, rfl⟩ := List.getElem?_eq_some_iff.mp hm
    refine ⟨hi, decide_eq_true rfl, fun j hj hkey => ?_⟩
    have hkey := of_decide_eq_true hkey
    rw [← List.getElem_map (f := Model.key) (h := by simp; omega),
      ← List.getElem_map (f := Model.key) (h := by simp; omega), h.nodup.getElem_inj_iff] at hkey
    omega

/-- The model with its other variant as its twin, if that was found too. -/
def withTwin (d : Discovery) (m : Model) : Model := { m with twin := d.find? m.key.other }

@[simp] theorem withTwin_key (d : Discovery) (m : Model) : (d.withTwin m).key = m.key := rfl

@[simp] theorem withTwin_withTwin (d : Discovery) (m : Model) : d.withTwin (d.withTwin m) = d.withTwin m := rfl

theorem withTwin_eq_self (hfree : m.twin = none) (hother : d.find? m.key.other = none) : d.withTwin m = m := by
  rw [withTwin, hother, ← hfree]

/-- The arena in which the models whose colored variant has one of the keys have their twins. -/
def twinned (d : Discovery) (keys : List ModelKey) : Arena :=
  ⟨d.arena.models.map fun m => if m.key.colored ∈ keys then d.withTwin m else m⟩

theorem get?_twinned (keys : List ModelKey) (k : Nat) : (d.twinned keys).get? k = (d.arena.get? k).map fun m =>
    if m.key.colored ∈ keys then d.withTwin m else m :=
  List.getElem?_map ..

theorem exists_of_get?_twinned {keys : List ModelKey} {k : Nat} (h : (d.twinned keys).get? k = some m) :
    ∃ n, d.arena.get? k = some n ∧ m.key = n.key := by
  rw [get?_twinned] at h
  obtain ⟨n, hn, rfl⟩ := Option.map_eq_some_iff.mp h
  exact ⟨n, hn, by split <;> rfl⟩

/-- One more key changes the twins of the two variants of a model. -/
theorem get?_twinned_cons (key : ModelKey) (keys : List ModelKey) (k : Nat) :
    (d.twinned (key :: keys)).get? k = ((d.twinned keys).get? k).map fun m =>
      if m.key.colored = key then d.withTwin m else m := by
  rw [get?_twinned, get?_twinned, Option.map_map]
  refine Option.map_congr fun m _ => ?_
  by_cases hkey : m.key.colored = key
  · subst hkey
    by_cases hkeys : m.key.colored ∈ keys <;> simp [hkeys]
  · by_cases hkeys : m.key.colored ∈ keys <;> simp [hkeys, hkey]

theorem Fresh.twinned_cons_eq (h : d.Fresh) {key : ModelKey} {keys : List ModelKey}
    (hstay : ∀ m ∈ d.arena.models, m.key.colored = key → d.find? m.key.other = none) :
    d.twinned (key :: keys) = d.twinned keys := by
  refine Arena.ext_get? fun k => ?_
  rw [get?_twinned, get?_twinned]
  refine Option.map_congr fun m hk => ?_
  have hm : m ∈ d.arena.models := List.mem_of_getElem? hk
  by_cases hkey : m.key.colored = key
  · simp [hkey, withTwin_eq_self (h.free m hm) (hstay m hm hkey)]
  · simp [hkey]

theorem Fresh.linkTwin_twinned (h : d.Fresh) {keys : List ModelKey} (hm : m ∈ d.arena.models) (hnew : m.key ∉ keys) :
    d.linkTwin (d.twinned keys) m = .ok (d.twinned (m.key :: keys)) := by
  obtain ⟨i, hi⟩ : ∃ i, d.arena.get? i = some m := List.mem_iff_getElem?.mp hm
  have hfind : d.find? m.key = some i := h.find?_eq_some_iff.mpr ⟨m, hi, rfl⟩
  unfold linkTwin
  rw [hfind]
  cases hcolored : m.isColored with
  | false =>
    have hvariant : m.key.variant ≠ .colored := of_decide_eq_false hcolored
    rw [h.twinned_cons_eq fun n _ hn => absurd hn (ModelKey.colored_ne hvariant)]
    split <;> rfl
  | true =>
    have hvariant : m.key.variant = .colored := of_decide_eq_true hcolored
    have hother : { m.key with variant := .placeTransition } = m.key.other := by rw [ModelKey.other, hvariant]
    rw [hother]
    cases hpartner : d.find? m.key.other with
    | none =>
      rw [h.twinned_cons_eq]
      intro n hn hkey
      rcases (ModelKey.colored_eq_iff hvariant).mp hkey with heq | heq
      · rw [heq, hpartner]
      · exact absurd heq (find?_eq_none_iff.mp hpartner n hn)
    | some j =>
      obtain ⟨n, hj, hkey⟩ := h.find?_eq_some_iff.mp hpartner
      have hm' : m.key.colored = m.key := (ModelKey.colored_eq_iff hvariant).mpr (.inl rfl)
      have hn' : n.key.colored = m.key := (ModelKey.colored_eq_iff hvariant).mpr (.inr hkey)
      have hlinkable : (d.twinned keys).Linkable i j m n := by
        refine ⟨?_, ?_, ModelKey.opposite_iff.mpr hkey, h.free m hm, h.free n (List.mem_of_getElem? hj)⟩
        · rw [get?_twinned, hi, Option.map_some, if_neg (by rwa [hm'])]
        · rw [get?_twinned, hj, Option.map_some, if_neg (by rwa [hn'])]
      have hback : d.find? n.key.other = some i := by rw [hkey, ModelKey.other_other, hfind]
      dsimp only
      rw [if_pos rfl]
      refine Arena.link_eq_ok_iff.mpr ⟨⟨m, n, hlinkable⟩, Arena.ext_get? fun k => ?_⟩
      rw [get?_twinned_cons, Arena.get?_join hlinkable.ne]
      refine Option.map_congr fun o hk => ?_
      by_cases hki : k = i
      · subst hki
        cases hlinkable.first.symm.trans hk
        rw [if_pos rfl, if_pos hm', withTwin, hpartner]
      · by_cases hkj : k = j
        · subst hkj
          cases hlinkable.second.symm.trans hk
          rw [if_neg hki, if_pos rfl, if_pos hn', withTwin, hback]
        · -- no third model has one of the two keys
          have hthird : o.key.colored ≠ m.key := by
            obtain ⟨o₀, hk₀, hkey₀⟩ := exists_of_get?_twinned hk
            rw [hkey₀]
            intro hcontra
            rcases (ModelKey.colored_eq_iff hvariant).mp hcontra with heq | heq
            · exact hki (Option.some.inj ((h.find?_eq_some_iff.mpr ⟨o₀, hk₀, heq⟩).symm.trans hfind))
            · exact hkj (Option.some.inj ((h.find?_eq_some_iff.mpr ⟨o₀, hk₀, heq⟩).symm.trans hpartner))
          rw [if_neg hki, if_neg hkj, if_neg hthird]

theorem Fresh.foldlM_linkTwin (h : d.Fresh) {seen : List Model} {keys : List ModelKey}
    (hseen : ∀ m ∈ seen, m ∈ d.arena.models) (hnodup : ((seen.map (·.key)).reverse ++ keys).Nodup) :
    seen.foldlM d.linkTwin (d.twinned keys) = .ok (d.twinned ((seen.map (·.key)).reverse ++ keys)) := by
  induction seen generalizing keys with
  | nil => rfl
  | cons m seen ih =>
    rw [List.map_cons, List.reverse_cons, List.append_assoc, List.singleton_append] at hnodup ⊢
    have hnew : m.key ∉ keys := (List.nodup_cons.mp hnodup.of_append_right).1
    rw [List.foldlM_cons, h.linkTwin_twinned (hseen m List.mem_cons_self) hnew]
    exact ih (fun n hn => hseen n (List.mem_cons_of_mem _ hn)) hnodup

theorem twinned_nil (d : Discovery) : d.twinned [] = d.arena := by
  refine Arena.ext_get? fun k => ?_
  rw [get?_twinned]
  simp

/-- With all models done, each has its other variant as its twin. -/
theorem twinned_congr {keys : List ModelKey} (h : keys.Perm (d.arena.models.map (·.key))) (hfree : d.Fresh) :
    d.twinned keys = ⟨d.arena.models.map d.withTwin⟩ := by
  refine Arena.ext_get? fun k => ?_
  rw [get?_twinned]
  show _ = (d.arena.models.map d.withTwin)[k]?
  rw [List.getElem?_map]
  refine Option.map_congr fun m hk => ?_
  have hm : m ∈ d.arena.models := List.mem_of_getElem? hk
  split
  · rfl
  · rename_i hcolored
    refine (withTwin_eq_self (hfree.free m hm) (find?_eq_none_iff.mpr fun n hn heq => hcolored ?_)).symm
    rw [h.mem_iff]
    -- the colored variant of the model would be the model itself or its other variant
    by_cases hvariant : m.key.variant = .colored
    · rw [(ModelKey.colored_eq_iff hvariant).mpr (.inl rfl)]
      exact List.mem_map_of_mem hm
    · have hother : m.key.colored = n.key := by
        rw [heq, ModelKey.other, ModelKey.colored]
        cases hm : m.key.variant <;> simp_all
      rw [hother]
      exact List.mem_map_of_mem hn

/-- The models in any order link to the same arena. -/
theorem Fresh.linked_eq (h : d.Fresh) {seen : List Model} (hseen : seen.Perm d.arena.models) :
    d.linked seen = .ok { d with arena := ⟨d.arena.models.map d.withTwin⟩ } := by
  have hkeys : (seen.map (·.key)).reverse.Perm (d.arena.models.map (·.key)) := (List.reverse_perm _).trans (hseen.map _)
  have hnodup := hkeys.nodup_iff.mpr h.nodup
  rw [← List.append_nil (seen.map _).reverse] at hnodup
  have hfold := h.foldlM_linkTwin (fun m hm => hseen.subset hm) hnodup
  rw [twinned_nil, List.append_nil, twinned_congr hkeys h] at hfold
  unfold linked
  rw [hfold]
  rfl

/-! ### What is found -/

/-- Every entry is accounted for once, in the order of names, as a model or under a reason that it has, and the twins
    are the two variants of one model. -/
structure Accounts (disk : Disk) (dir : String) (entries : List (String × Entry)) (d : Discovery) : Prop where
  once : (d.arena.models.map (·.fullName) ++ d.report.notDirectory ++ d.report.wrongName ++ d.report.noModel).Perm
    (entries.map (·.1))
  duplicate : d.report.duplicate = []
  models_ordered : (d.arena.models.map (·.fullName)).Pairwise (· < ·)
  notDirectory_ordered : d.report.notDirectory.Pairwise (· < ·)
  wrongName_ordered : d.report.wrongName.Pairwise (· < ·)
  noModel_ordered : d.report.noModel.Pairwise (· < ·)
  model : ∀ m ∈ d.arena.models, ModelKey.ofDirectoryName? m.fullName = some m.key ∧
    m.directory = Path.join dir m.fullName ∧ disk.isDirectory m.directory = true ∧ disk.isFile m.file = true
  notDirectory : ∀ name ∈ d.report.notDirectory, disk.isDirectory (Path.join dir name) = false
  wrongName : ∀ name ∈ d.report.wrongName, ModelKey.ofDirectoryName? name = none
  noModel : ∀ name ∈ d.report.noModel, disk.isFile (Path.join (Path.join dir name) "model.pnml") = false
  paired : d.arena.Paired
  twin_iff : ∀ i m j n, d.arena.get? i = some m → d.arena.get? j = some n →
    (m.twin = some j ↔ m.key.Opposite n.key)

theorem Fresh.find?_other_iff (h : d.Fresh) (hj : d.arena.get? j = some n) :
    d.find? m.key.other = some j ↔ m.key.Opposite n.key := by
  rw [h.find?_eq_some_iff, ModelKey.opposite_iff]
  constructor
  · rintro ⟨n', hj', hkey⟩
    cases hj.symm.trans hj'
    exact hkey
  · intro hkey
    exact ⟨n, hj, hkey⟩

/-- The models found, each with its other variant as its twin. -/
def settled (d : Discovery) : Discovery := { d with arena := ⟨d.arena.models.map d.withTwin⟩ }

theorem exists_of_get?_settled (h : d.settled.arena.get? i = some m) :
    ∃ n, d.arena.get? i = some n ∧ m = d.withTwin n := by
  unfold settled Arena.get? at h
  rw [List.getElem?_map] at h
  obtain ⟨n, hn, rfl⟩ := Option.map_eq_some_iff.mp h
  exact ⟨n, hn, rfl⟩

theorem Fresh.twin_iff (h : d.Fresh) (hi : d.settled.arena.get? i = some m) (hj : d.settled.arena.get? j = some n) :
    m.twin = some j ↔ m.key.Opposite n.key := by
  obtain ⟨m, -, rfl⟩ := exists_of_get?_settled hi
  obtain ⟨n', hj', rfl⟩ := exists_of_get?_settled hj
  have hfind := h.find?_other_iff (m := m) hj'
  exact hfind

theorem Fresh.paired (h : d.Fresh) : d.settled.arena.Paired := by
  intro i m j hi htwin
  obtain ⟨m, hi', rfl⟩ := exists_of_get?_settled hi
  obtain ⟨n, hj, hkey⟩ := h.find?_eq_some_iff.mp htwin
  have hj' : d.settled.arena.get? j = some (d.withTwin n) := by
    unfold settled Arena.get? at *
    rw [List.getElem?_map, hj]
    rfl
  have hopposite : m.key.Opposite n.key := ModelKey.opposite_iff.mpr hkey
  exact ⟨d.withTwin n, hj', (h.twin_iff hj' hi).mpr hopposite.symm, hopposite⟩

theorem Sorts.accounts (h : d.Sorts disk dir (sortedNames entries)) (hnames : (entries.map (·.1)).Nodup) :
    d.settled.Accounts disk dir entries := by
  have hordered := sortedNames_lt hnames
  have hfresh := h.fresh ((sortedNames_perm entries).nodup_iff.mpr hnames)
  have hfull : d.settled.arena.models.map (·.fullName) = d.arena.models.map (·.fullName) := List.map_map ..
  refine ⟨?_, h.duplicate, ?_, ?_, ?_, ?_, ?_, ?_, ?_, ?_, hfresh.paired, fun _ _ _ _ => hfresh.twin_iff⟩
  · rw [hfull]
    exact h.once.trans (sortedNames_perm entries)
  · rw [hfull, h.map_fullName]
    exact hordered.sublist List.filter_sublist
  · exact h.notDirectory ▸ hordered.sublist List.filter_sublist
  · exact h.wrongName ▸ hordered.sublist List.filter_sublist
  · exact h.noModel ▸ hordered.sublist List.filter_sublist
  · intro m hm
    obtain ⟨m, hmem, rfl⟩ := List.mem_map.mp hm
    rw [h.models, List.mem_filterMap] at hmem
    obtain ⟨name, -, hm⟩ := hmem
    have hname := fullName_of_model? hm
    obtain ⟨hdirectory, hfile, key, hkey, rfl⟩ := model?_eq_some.mp hm
    have hname : (d.withTwin { key, directory := Path.join dir name }).fullName = name := hname
    rw [hname]
    exact ⟨hkey, rfl, hdirectory, hfile⟩
  · intro name hmem
    have hmem : name ∈ d.report.notDirectory := hmem
    rw [h.notDirectory, List.mem_filter, isStray, Bool.not_eq_true'] at hmem
    exact hmem.2
  · intro name hmem
    have hmem : name ∈ d.report.wrongName := hmem
    rw [h.wrongName, List.mem_filter, isMisnamed, Bool.and_eq_true, Option.isNone_iff_eq_none] at hmem
    exact hmem.2.2
  · intro name hmem
    have hmem : name ∈ d.report.noModel := hmem
    rw [h.noModel, List.mem_filter, isEmpty, Bool.and_eq_true, Bool.not_eq_true'] at hmem
    exact hmem.2.2

theorem ofDirectory_eq (hlist : disk.list dir = .ok entries) (hnames : (entries.map (·.1)).Nodup) :
    ofDirectory disk dir = .ok (gather disk dir entries).settled := by
  have hsorts : (gather disk dir entries).Sorts disk dir (sortedNames entries) := gather_sorts hnames
  have hfresh := hsorts.fresh ((sortedNames_perm entries).nodup_iff.mpr hnames)
  unfold ofDirectory
  rw [hlist]
  show ((gather disk dir entries).linked _).mapError _ = _
  rw [hfresh.linked_eq (.refl _)]
  rfl

/-- A directory that can be listed gives its models, and every entry is accounted for. In whichever order the entries
    are listed, and in whichever order the models are linked then, no link fails and the same is found. -/
theorem ofDirectory_accounts (hlist : disk.list dir = .ok entries) (hnames : (entries.map (·.1)).Nodup) :
    ∃ d, ofDirectory disk dir = .ok d ∧ d.Accounts disk dir entries ∧
      ∀ listing seen, listing.Perm entries → seen.Perm (gather disk dir listing).arena.models →
        (gather disk dir listing).linked seen = .ok d := by
  have hsorts : (gather disk dir entries).Sorts disk dir (sortedNames entries) := gather_sorts hnames
  refine ⟨_, ofDirectory_eq hlist hnames, hsorts.accounts hnames, fun listing seen hlisting hseen => ?_⟩
  have hsame : gather disk dir listing = gather disk dir entries := by
    unfold gather
    rw [sortedNames_congr hlisting]
  rw [hsame] at hseen ⊢
  exact (hsorts.fresh ((sortedNames_perm entries).nodup_iff.mpr hnames)).linked_eq hseen

/-- Entries of every kind, with both variants of a model. -/
def inboxEntries : List (String × Entry) :=
  [("A-PT-1", .directory [("model.pnml", .file "")]), ("notes", .directory []),
    ("A-COL-1", .directory [("model.pnml", .file "")]), ("B-PT-1", .directory []), ("summary.json", .file "")]

def inbox : Disk := ⟨.directory [("IN", .directory inboxEntries)], []⟩

theorem inbox_accounts : inbox.list "IN" = .ok inboxEntries ∧ (inboxEntries.map (·.1)).Nodup ∧
    ∃ d, ofDirectory inbox "IN" = .ok d ∧ d.Accounts inbox "IN" inboxEntries ∧
      ∀ listing seen, listing.Perm inboxEntries → seen.Perm (gather inbox "IN" listing).arena.models →
        (gather inbox "IN" listing).linked seen = .ok d := by
  have hlocate : inbox.locate "IN" = .ok (["IN"], some (.directory inboxEntries)) := by
    have hrelative : "IN".startsWith "/" = false := by simp [Bool.eq_false_iff, String.startsWith_string_iff]
    have hsize : ¬"IN".utf8ByteSize ≥ Path.sizeLimit := by decide
    have hnames : Path.names "IN" = ["IN"] := by decide
    rw [Disk.locate, if_neg (by simp), if_neg (by decide), if_neg hsize, Disk.start, hrelative, hnames]
    rfl
  have hlist : inbox.list "IN" = .ok inboxEntries := by
    rw [Disk.list, hlocate]
    rfl
  have hnames : (inboxEntries.map (·.1)).Nodup := by decide
  exact ⟨hlist, hnames, ofDirectory_accounts hlist hnames⟩

end Discovery
end Formulary
