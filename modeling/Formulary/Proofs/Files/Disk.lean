import Mathlib.Data.List.Basic
import Mathlib.Data.String.Basic
import Formulary.Files.Disk

/-! What a file that is written changes on a disk: its own text, and nothing that a path to another file or directory
    leads through. Which place a path leads to depends only on where there are directories. -/

namespace Formulary

/-! ### Trees -/

namespace Entry
variable {e new : Entry} {name other : String} {place rest p q : List String} {text : String}

/-- There is a directory at a place. -/
def IsDirectoryAt (e : Entry) (place : List String) : Prop := ∃ entries, e.get? place = some (.directory entries)

/-- The text of the file at a place. -/
def textAt? (e : Entry) (place : List String) : Option String :=
  match e.get? place with
  | some (.file text) => some text
  | _ => none

/-- The place that the link at a place leads to. -/
def linkAt? (e : Entry) (place : List String) : Option (List String) :=
  match e.get? place with
  | some (.link target) => some target
  | _ => none

theorem lookup_insert_self (name : String) (new : Entry) (es : List (String × Entry)) :
    (insert name new es).lookup name = some new := by
  induction es with
  | nil => simp [insert]
  | cons x es ih =>
    obtain ⟨n, old⟩ := x
    unfold insert
    split
    · rename_i hname
      simp [hname]
    · rename_i hname
      rw [List.lookup_cons, beq_false_of_ne (Ne.symm hname)]
      exact ih

theorem lookup_insert_of_ne (h : other ≠ name) (new : Entry) (es : List (String × Entry)) :
    (insert name new es).lookup other = es.lookup other := by
  induction es with
  | nil => simp [insert, h]
  | cons x es ih =>
    obtain ⟨n, old⟩ := x
    unfold insert
    split
    · rename_i hname
      rw [List.lookup_cons, List.lookup_cons, hname, beq_false_of_ne h]
    · rw [List.lookup_cons, List.lookup_cons, ih]

theorem get?_append (e : Entry) (p q : List String) : e.get? (p ++ q) = (e.get? p).bind (·.get? q) := by
  induction p generalizing e with
  | nil => rfl
  | cons name p ih =>
    show (e.entries.lookup name).bind (·.get? (p ++ q)) = ((e.entries.lookup name).bind (·.get? p)).bind (·.get? q)
    rw [Option.bind_assoc]
    exact congrArg _ (funext ih)

/-- Below something that is no directory there is nothing. -/
theorem get?_eq_none (he : ∀ es, e ≠ directory es) (hq : q ≠ []) : e.get? q = none := by
  obtain ⟨name, q, rfl⟩ := List.exists_cons_of_ne_nil hq
  cases e with
  | file text => rfl
  | directory es => exact absurd rfl (he es)
  | link target => rfl

theorem isDirectoryAt_of_get? (h : e.get? (p ++ q) = some new) (hq : q ≠ []) : e.IsDirectoryAt p := by
  rw [get?_append, Option.bind_eq_some_iff] at h
  obtain ⟨x, hx, hget⟩ := h
  by_cases hdirectory : ∃ es, x = directory es
  · obtain ⟨es, rfl⟩ := hdirectory
    exact ⟨es, hx⟩
  · rw [get?_eq_none (not_exists.mp hdirectory) hq] at hget
    cases hget

theorem get?_append_eq_none (h : ¬e.IsDirectoryAt p) (hq : q ≠ []) : e.get? (p ++ q) = none := by
  rw [Option.eq_none_iff_forall_ne_some]
  exact fun x hx => h (isDirectoryAt_of_get? hx hq)

theorem IsDirectoryAt.above (h : e.IsDirectoryAt q) (hp : p <+: q) : e.IsDirectoryAt p := by
  obtain ⟨rest, rfl⟩ := hp
  cases rest with
  | nil =>
    rw [List.append_nil] at h
    exact h
  | cons name rest =>
    obtain ⟨es, hes⟩ := h
    exact isDirectoryAt_of_get? hes (List.cons_ne_nil _ _)

theorem get?_concat {es : List (String × Entry)} (h : e.get? place = some (.directory es)) (name : String) :
    e.get? (place ++ [name]) = es.lookup name := by
  rw [get?_append, h]
  exact Option.bind_fun_some _

theorem textAt?_eq_some : e.textAt? place = some text ↔ e.get? place = some (.file text) := by
  unfold textAt?
  split
  · rename_i h
    simp [h]
  · rename_i h
    exact ⟨nofun, fun htext => absurd htext (h text)⟩

theorem IsDirectoryAt.textAt?_eq_none (h : e.IsDirectoryAt place) : e.textAt? place = none := by
  obtain ⟨es, hes⟩ := h
  rw [textAt?, hes]

theorem IsDirectoryAt.linkAt?_eq_none (h : e.IsDirectoryAt place) : e.linkAt? place = none := by
  obtain ⟨es, hes⟩ := h
  rw [linkAt?, hes]

theorem linkAt?_eq_some {target : List String} : e.linkAt? place = some target ↔ e.get? place = some (.link target) := by
  unfold linkAt?
  split
  · rename_i h
    simp [h]
  · rename_i h
    exact ⟨nofun, fun hlink => absurd hlink (h target)⟩

theorem blocks_iff : e.blocks place = true ↔ (e.textAt? place).isSome ∨ (e.linkAt? place).isSome := by
  unfold blocks textAt? linkAt?
  cases e.get? place with
  | none => simp
  | some x => cases x <;> simp [isDirectory]

theorem linkAt?_concat {es : List (String × Entry)} (h : e.get? place = some (.directory es)) (name : String) :
    e.linkAt? (place ++ [name]) = match es.lookup name with
      | some (.link target) => some target
      | _ => none := by
  rw [linkAt?, get?_concat h]

theorem linkAt?_file (text : String) (place : List String) : (file text).linkAt? place = none := by
  cases place <;> rfl

/-- A directory without links in its entries is one without links. -/
theorem linkAt?_directory {es : List (String × Entry)} (h : ∀ x ∈ es, ∀ q, x.2.linkAt? q = none) (place : List String) :
    (directory es).linkAt? place = none := by
  cases place with
  | nil => rfl
  | cons name rest =>
    have hget : (directory es).get? (name :: rest) = (es.lookup name).bind (·.get? rest) := rfl
    cases hlookup : es.lookup name with
    | none => rw [linkAt?, hget, hlookup, Option.bind_none]
    | some x =>
      obtain ⟨front, back, rfl, -⟩ := List.lookup_eq_some_iff.mp hlookup
      rw [linkAt?, hget, hlookup, Option.bind_some]
      exact h (name, x) (List.mem_append_right _ List.mem_cons_self) rest

/-! ### Putting an entry into a tree -/

theorem get?_put_cons (new e : Entry) (name : String) (p q : List String) : (put new (name :: p) e).get? (name :: q) =
    (put new p ((e.entries.lookup name).getD (directory []))).get? q := by
  show ((insert name (put new p ((e.entries.lookup name).getD (directory []))) e.entries).lookup name).bind _ = _
  rw [lookup_insert_self]
  rfl

theorem get?_put_append (new e : Entry) (p q : List String) : (put new p e).get? (p ++ q) = new.get? q := by
  induction p generalizing e with
  | nil => rfl
  | cons name p ih => rw [List.cons_append, get?_put_cons, ih]

theorem get?_put_self (new e : Entry) (p : List String) : (put new p e).get? p = some new := by
  have h := get?_put_append new e p []
  rwa [List.append_nil] at h

/-- On the way to the place there are directories. -/
theorem isDirectoryAt_put (new e : Entry) (hq : q <+: p) (hne : q ≠ p) : (put new p e).IsDirectoryAt q := by
  induction p generalizing e q with
  | nil => exact absurd (List.prefix_nil.mp hq) hne
  | cons name p ih =>
    cases q with
    | nil => exact ⟨_, rfl⟩
    | cons other q =>
      obtain ⟨rfl, hrest⟩ := List.cons_prefix_cons.mp hq
      obtain ⟨es, hes⟩ := ih ((e.entries.lookup other).getD (directory [])) hrest fun h => hne (h ▸ rfl)
      exact ⟨es, (get?_put_cons ..).trans hes⟩

/-- Beside the place and the way to it nothing changes. -/
theorem get?_put_of_ne (new e : Entry) (hp : ¬p <+: q) (hq : ¬q <+: p) : (put new p e).get? q = e.get? q := by
  induction p generalizing e q with
  | nil => exact absurd (List.nil_prefix) hp
  | cons name p ih =>
    cases q with
    | nil => exact absurd (List.nil_prefix) hq
    | cons other q =>
      by_cases hname : other = name
      · subst hname
        rw [List.cons_prefix_cons, not_and] at hp hq
        rw [get?_put_cons, ih _ (hp rfl) (hq rfl)]
        show _ = (e.entries.lookup other).bind _
        cases e.entries.lookup other with
        | some x => rfl
        | none =>
          cases q with
          | nil => exact absurd List.nil_prefix (hq rfl)
          | cons => rfl
      · show ((insert name _ e.entries).lookup other).bind _ = (e.entries.lookup other).bind _
        rw [lookup_insert_of_ne hname]

/-- Something that has nothing below it is put into a directory, where no directory is: what is at other places stays,
    and directories stay directories. -/
theorem get?_put_concat (hp : e.IsDirectoryAt p) (hplace : ¬e.IsDirectoryAt (p ++ [name]))
    (hnew : ∀ rest, rest ≠ [] → new.get? rest = none) (hq : q ≠ p ++ [name]) :
    (put new (p ++ [name]) e).get? q = e.get? q ∨ (put new (p ++ [name]) e).IsDirectoryAt q ∧ e.IsDirectoryAt q := by
  by_cases hbelow : p ++ [name] <+: q
  · obtain ⟨rest, rfl⟩ := hbelow
    have hrest : rest ≠ [] := fun hrest => hq (by rw [hrest, List.append_nil])
    exact .inl (by rw [get?_put_append, hnew rest hrest, get?_append_eq_none hplace hrest])
  by_cases hway : q <+: p ++ [name]
  · exact .inr ⟨isDirectoryAt_put new e hway hq, hp.above ((List.prefix_concat_iff.mp hway).resolve_left hq)⟩
  · exact .inl (get?_put_of_ne new e hbelow hway)

section Put
variable (hp : e.IsDirectoryAt p) (hplace : ¬e.IsDirectoryAt (p ++ [name]))
  (hnew : ∀ rest, rest ≠ [] → new.get? rest = none) (hq : q ≠ p ++ [name])
include hp hplace hnew hq

theorem isDirectoryAt_put_concat : (put new (p ++ [name]) e).IsDirectoryAt q ↔ e.IsDirectoryAt q := by
  rcases get?_put_concat hp hplace hnew hq with h | ⟨h, h'⟩
  · rw [IsDirectoryAt, IsDirectoryAt, h]
  · exact iff_of_true h h'

theorem textAt?_put_concat : (put new (p ++ [name]) e).textAt? q = e.textAt? q := by
  rcases get?_put_concat hp hplace hnew hq with h | ⟨h, h'⟩
  · rw [textAt?, textAt?, h]
  · rw [h.textAt?_eq_none, h'.textAt?_eq_none]

theorem linkAt?_put_concat : (put new (p ++ [name]) e).linkAt? q = e.linkAt? q := by
  rcases get?_put_concat hp hplace hnew hq with h | ⟨h, h'⟩
  · rw [linkAt?, linkAt?, h]
  · rw [h.linkAt?_eq_none, h'.linkAt?_eq_none]

end Put

end Entry

/-! ### Paths -/

namespace Path
variable {dir name : String}

/-- A name that an entry of a directory can have, other than those with a meaning of their own. -/
structure IsName (name : String) : Prop where
  ne_empty : name ≠ ""
  ne_here : name ≠ "."
  ne_up : name ≠ ".."
  plain : '/' ∉ name.toList

theorem IsName.not_startsWith (h : IsName name) : name.startsWith "/" = false := by
  rw [Bool.eq_false_iff, ne_eq, String.startsWith_string_iff]
  rintro ⟨tail, htail⟩
  exact h.plain (htail ▸ List.mem_append_left _ (by simp))

theorem IsName.names_eq (h : IsName name) : (name.toList.splitOn '/').map String.ofList = [name] := by
  rw [List.splitOn_eq_singleton h.plain, List.map_singleton, String.ofList_toList]

/-- The path of a name in a directory ends in that name. A slash that the path of the directory ends with is not
    doubled. -/
theorem names_join (hdir : dir ≠ "") (hname : IsName name) :
    names (join dir name) = names dir ++ [name] ∨
      ∃ ns, names dir = ns ++ [""] ∧ names (join dir name) = ns ++ [name] := by
  unfold join
  rw [hname.not_startsWith]
  simp only [Bool.false_or, decide_eq_true_eq, if_neg hdir]
  split
  · rename_i hlast
    right
    obtain ⟨s, hs⟩ := List.getLast?_eq_some_iff.mp hlast
    refine ⟨(s.splitOn '/').map String.ofList, ?_, ?_⟩
    · rw [names, hs, List.splitOn_append_cons_self, List.map_append, List.splitOn_nil]
      rfl
    · rw [names, String.toList_append, hs, List.append_assoc, List.singleton_append, List.splitOn_append_cons_self,
        List.map_append, hname.names_eq]
  · left
    have hslash : (dir ++ "/" ++ name).toList = dir.toList ++ '/' :: name.toList := by simp
    rw [names, hslash, List.splitOn_append_cons_self, List.map_append, hname.names_eq]
    rfl

theorem startsWith_join (hdir : dir ≠ "") (hname : IsName name) : (join dir name).startsWith "/" = dir.startsWith "/" := by
  have hhead (tail : String) : (dir ++ tail).startsWith "/" = dir.startsWith "/" := by
    rw [Bool.eq_iff_iff, String.startsWith_string_iff, String.startsWith_string_iff, String.toList_append]
    have hne : dir.toList ≠ [] := by simpa using hdir
    obtain ⟨c, s, hs⟩ := List.exists_cons_of_ne_nil hne
    rw [hs]
    simp
  unfold join
  rw [hname.not_startsWith]
  simp only [Bool.false_or, decide_eq_true_eq, if_neg hdir]
  split
  · exact hhead name
  · rw [String.append_assoc]
    exact hhead _

theorem contains_join (hdir : dir ≠ "") (hname : IsName name) :
    (join dir name).contains '\x00' = (dir.contains '\x00' || name.contains '\x00') := by
  unfold join
  rw [hname.not_startsWith]
  simp only [Bool.false_or, decide_eq_true_eq, if_neg hdir]
  split <;> simp

theorem join_ne_empty (hname : IsName name) : join dir name ≠ "" := by
  have hne := hname.ne_empty
  unfold join
  split
  · exact hne
  · split <;> simp [hne]

theorem utf8ByteSize_le_join (hname : IsName name) : dir.utf8ByteSize ≤ (join dir name).utf8ByteSize := by
  unfold join
  rw [hname.not_startsWith]
  simp only [Bool.false_or, decide_eq_true_eq]
  split
  · rename_i hdir
    rw [hdir]
    exact Nat.zero_le _
  · split <;> simp only [String.utf8ByteSize_append] <;> omega

end Path

/-! ### Following paths -/

namespace Disk
variable {d d' : Disk} {root root' : Entry} {place target names : List String} {found : Option Entry}
  {path dir name text : String}

/-- A place that paths lead to: there is no link, and there is a directory, or it would be an entry of one. -/
structure Lands (root : Entry) (place : List String) : Prop where
  linkAt?_eq_none : root.linkAt? place = none
  directory : root.IsDirectoryAt place ∨ ∃ parent name, place = parent ++ [name] ∧ root.IsDirectoryAt parent

theorem Lands.of_isDirectoryAt (h : root.IsDirectoryAt place) : Lands root place := ⟨h.linkAt?_eq_none, .inl h⟩

theorem lands_concat (h : root.IsDirectoryAt place) (hlink : root.linkAt? (place ++ [name]) = none) :
    Lands root (place ++ [name]) := ⟨hlink, .inr ⟨place, name, rfl, h⟩⟩

theorem get?_of_not_lands (hroot : root.IsDirectoryAt []) (hlink : root.linkAt? target = none) (h : ¬Lands root target) :
    root.get? target = none := by
  cases htarget : root.get? target with
  | none => rfl
  | some x =>
    refine absurd ⟨hlink, ?_⟩ h
    rcases List.eq_nil_or_concat' target with rfl | ⟨parent, name, rfl⟩
    · exact .inl hroot
    · exact .inr ⟨parent, name, rfl, Entry.isDirectoryAt_of_get? htarget (List.cons_ne_nil _ _)⟩

theorem lead_of_linkAt? {other : List String} (h : root.linkAt? target = some other) :
    lead root target = .error .tooManyLinks := by
  rw [lead, Entry.linkAt?_eq_some.mp h]

theorem lead_of_lands (h : Lands root target) : lead root target = .ok target := by
  unfold lead
  cases htarget : root.get? target with
  | some x =>
    cases x with
    | file | directory => rfl
    | link other => exact absurd (h.linkAt?_eq_none.symm.trans (Entry.linkAt?_eq_some.mpr htarget)) nofun
  | none =>
    obtain ⟨es, hes⟩ | ⟨parent, name, rfl, es, hes⟩ := h.directory
    · cases htarget.symm.trans hes
    · rw [List.dropLast_concat, hes]

theorem lead_of_not_lands (hroot : root.IsDirectoryAt []) (hlink : root.linkAt? target = none)
    (h : ¬Lands root target) : lead root target = .error
      (if (List.range target.length).any (root.blocks <| target.take ·) then .notDirectory else .notFound) := by
  rw [lead, get?_of_not_lands hroot hlink h]
  dsimp only
  split
  · rename_i hes
    rcases List.eq_nil_or_concat' target with rfl | ⟨parent, name, rfl⟩
    · exact absurd ⟨hlink, .inl hroot⟩ h
    · rw [List.dropLast_concat] at hes
      exact absurd (lands_concat ⟨_, hes⟩ hlink) h
  · rfl

/-- A link leads where paths can. -/
theorem lead_eq_ok (hroot : root.IsDirectoryAt []) :
    lead root target = .ok place ↔ place = target ∧ Lands root target := by
  constructor
  · intro h
    cases hlink : root.linkAt? target with
    | some other =>
      rw [lead_of_linkAt? hlink] at h
      cases h
    | none =>
      by_cases hlands : Lands root target
      · rw [lead_of_lands hlands] at h
        exact ⟨(Except.ok.inj h).symm, hlands⟩
      · rw [lead_of_not_lands hroot hlink hlands] at h
        cases h
  · rintro ⟨rfl, hlands⟩
    exact lead_of_lands hlands

theorem isDirectoryAt_of_move (h : move root place name = .ok target) : root.IsDirectoryAt place := by
  unfold move at h
  split at h
  · rename_i es hes
    exact ⟨es, hes⟩
  · cases h
  · cases h

theorem move_eq (hplace : root.IsDirectoryAt place) (name : String) : move root place name =
    if name = "" ∨ name = "." then .ok place
    else if name = ".." then .ok place.dropLast
    else if name.utf8ByteSize > Path.nameLimit then .error .nameTooLong
    else
      match root.linkAt? (place ++ [name]) with
      | some target => lead root target
      | none => .ok (place ++ [name]) := by
  obtain ⟨es, hes⟩ := hplace
  rw [move, hes, Entry.linkAt?_concat hes]
  dsimp only
  cases es.lookup name with
  | none => rfl
  | some x => cases x <;> rfl

theorem move_name (hplace : root.IsDirectoryAt place) (hname : Path.IsName name) : move root place name =
    if name.utf8ByteSize > Path.nameLimit then .error .nameTooLong
    else
      match root.linkAt? (place ++ [name]) with
      | some target => lead root target
      | none => .ok (place ++ [name]) := by
  rw [move_eq hplace, if_neg (not_or.mpr ⟨hname.ne_empty, hname.ne_here⟩), if_neg hname.ne_up]

theorem move_lands (h : move root place name = .ok target) : Lands root target := by
  have hplace := isDirectoryAt_of_move h
  rw [move_eq hplace] at h
  split_ifs at h
  · cases h
    exact .of_isDirectoryAt hplace
  · cases h
    exact .of_isDirectoryAt (hplace.above (List.dropLast_prefix _))
  · split at h
    · obtain ⟨rfl, hlands⟩ := (lead_eq_ok (hplace.above List.nil_prefix)).mp h
      exact hlands
    · rename_i hlink
      cases h
      exact lands_concat hplace hlink

section Mono
variable (hmore : ∀ q, root.IsDirectoryAt q → root'.IsDirectoryAt q) (hlinks : ∀ q, root'.linkAt? q = root.linkAt? q)
include hmore hlinks

theorem Lands.mono (h : Lands root place) : Lands root' place where
  linkAt?_eq_none := by rw [hlinks, h.linkAt?_eq_none]
  directory := h.directory.imp (hmore place) fun ⟨parent, name, heq, hparent⟩ => ⟨parent, name, heq, hmore parent hparent⟩

/-- A name that leads to a place leads there also when there are more directories. -/
theorem move_mono (h : move root place name = .ok target) : move root' place name = .ok target := by
  have hplace := isDirectoryAt_of_move h
  have hroot := hplace.above List.nil_prefix
  rw [move_eq hplace] at h
  rw [move_eq (hmore place hplace), hlinks]
  split_ifs at h ⊢
  · exact h
  · exact h
  · split at h
    · rename_i other _
      obtain ⟨rfl, hlands⟩ := (lead_eq_ok hroot).mp h
      exact (lead_eq_ok (hmore _ hroot)).mpr ⟨rfl, hlands.mono hmore hlinks⟩
    · exact h

end Mono

theorem follow_cons_eq_ok {rest : List String} : follow root place (name :: rest) = .ok target ↔
    ∃ between, move root place name = .ok between ∧ follow root between rest = .ok target := by
  unfold follow
  rw [List.foldlM_cons]
  cases move root place name <;> simp [bind, Except.bind]

theorem follow_append (root : Entry) (place names more : List String) : follow root place (names ++ more) =
    (follow root place names).bind fun between => follow root between more := by
  unfold follow
  rw [List.foldlM_append]
  rfl

theorem follow_singleton (root : Entry) (place : List String) (name : String) :
    follow root place [name] = move root place name := by
  unfold follow
  rw [List.foldlM_cons]
  cases move root place name <;> rfl

theorem follow_lands (h : follow root place names = .ok target) (hne : names ≠ []) : Lands root target := by
  induction names generalizing place with
  | nil => exact absurd rfl hne
  | cons name rest ih =>
    obtain ⟨between, hmove, hrest⟩ := follow_cons_eq_ok.mp h
    cases rest with
    | nil =>
      cases hrest
      exact move_lands hmove
    | cons => exact ih hrest (List.cons_ne_nil _ _)

theorem follow_mono (hmore : ∀ q, root.IsDirectoryAt q → root'.IsDirectoryAt q)
    (hlinks : ∀ q, root'.linkAt? q = root.linkAt? q) (h : follow root place names = .ok target) :
    follow root' place names = .ok target := by
  induction names generalizing place with
  | nil => exact h
  | cons name rest ih =>
    obtain ⟨between, hmove, hrest⟩ := follow_cons_eq_ok.mp h
    exact follow_cons_eq_ok.mpr ⟨between, move_mono hmore hlinks hmove, ih hrest⟩

/-! ### Places -/

theorem names_ne_nil (path : String) : Path.names path ≠ [] := by
  unfold Path.names
  rw [ne_eq, List.map_eq_nil_iff]
  exact List.splitOn_ne_nil '/' path.toList

theorem locate_eq_ok : d.locate path = .ok (target, found) ↔
    (path.contains '\x00' = false ∧ path ≠ "" ∧ path.utf8ByteSize < Path.sizeLimit) ∧
      follow d.root (d.start path) (Path.names path) = .ok target ∧ found = d.root.get? target := by
  unfold locate
  cases follow d.root (d.start path) (Path.names path) <;> split_ifs <;> simp_all [Except.map, eq_comm]

theorem get?_of_locate (h : d.locate path = .ok (target, found)) : found = d.root.get? target := (locate_eq_ok.mp h).2.2

theorem lands_of_locate (h : d.locate path = .ok (target, found)) : Lands d.root target :=
  follow_lands (locate_eq_ok.mp h).2.1 (names_ne_nil path)

theorem exists_parent (h : d.locate path = .ok (target, found)) (hfound : ¬d.root.IsDirectoryAt target) :
    ∃ parent name, target = parent ++ [name] ∧ d.root.IsDirectoryAt parent :=
  (lands_of_locate h).directory.resolve_left hfound

theorem locate_mono (hhere : d'.here = d.here) (hmore : ∀ q, d.root.IsDirectoryAt q → d'.root.IsDirectoryAt q)
    (hlinks : ∀ q, d'.root.linkAt? q = d.root.linkAt? q) (h : d.locate path = .ok (target, found)) :
    d'.locate path = .ok (target, d'.root.get? target) := by
  obtain ⟨hplain, hfollow, -⟩ := locate_eq_ok.mp h
  refine locate_eq_ok.mpr ⟨hplain, ?_, rfl⟩
  rw [start, hhere]
  exact follow_mono hmore hlinks hfollow

/-- The path of a name in a directory leads to the directory, and then where the name leads there. -/
theorem follow_join (hdir : dir ≠ "") (hname : Path.IsName name) : follow root place (Path.names (Path.join dir name)) =
    (follow root place (Path.names dir)).bind fun between => move root between name := by
  rcases Path.names_join hdir hname with hnames | ⟨ns, hns, hnames⟩
  · rw [hnames, follow_append]
    simp only [follow_singleton]
  · rw [hns, hnames, follow_append, follow_append]
    simp only [follow_singleton]
    cases follow root place ns with
    | error e => rfl
    | ok between =>
      -- the last slash leads nowhere else
      show move root between name = (move root between "").bind fun between => move root between name
      by_cases hbetween : root.IsDirectoryAt between
      · rw [move_eq hbetween "", if_pos (.inl rfl)]
        rfl
      · unfold move
        split
        · rename_i es hes
          exact absurd ⟨es, hes⟩ hbetween
        · rfl
        · rfl

/-- The path of a name in a directory leads where the name leads there, unless it is too long. -/
theorem locate_join {es : List (String × Entry)} (hdir : d.locate dir = .ok (place, some (.directory es)))
    (hname : Path.IsName name) : d.locate (Path.join dir name) =
      if name.contains '\x00' then .error .nulInName
      else if (Path.join dir name).utf8ByteSize ≥ Path.sizeLimit then .error .nameTooLong
      else (move d.root place name).map fun target => (target, d.root.get? target) := by
  obtain ⟨⟨hnul, hempty, -⟩, hfollow, hget⟩ := locate_eq_ok.mp hdir
  have hjoin : follow d.root (d.start dir) (Path.names (Path.join dir name)) = move d.root place name := by
    rw [follow_join hempty hname, hfollow]
    rfl
  rw [locate, Path.contains_join hempty hname, hnul, Bool.false_or, if_neg (Path.join_ne_empty hname), start,
    Path.startsWith_join hempty hname, ← start, hjoin]

/-- A path of a name leads somewhere only through a directory. -/
theorem exists_locate_of_join (hdir : dir ≠ "") (hname : Path.IsName name)
    (h : d.locate (Path.join dir name) = .ok (target, found)) :
    ∃ place es, d.locate dir = .ok (place, some (.directory es)) ∧ move d.root place name = .ok target := by
  obtain ⟨⟨hnul, -, hsize⟩, hfollow, -⟩ := locate_eq_ok.mp h
  rw [Path.contains_join hdir hname, Bool.or_eq_false_iff] at hnul
  have hplain : dir.contains '\x00' = false ∧ dir ≠ "" ∧ dir.utf8ByteSize < Path.sizeLimit :=
    ⟨hnul.1, hdir, Nat.lt_of_le_of_lt (Path.utf8ByteSize_le_join hname) hsize⟩
  have hstart : d.start (Path.join dir name) = d.start dir := by rw [start, Path.startsWith_join hdir hname, start]
  rw [hstart] at hfollow
  rw [follow_join hdir hname] at hfollow
  cases hplace : follow d.root (d.start dir) (Path.names dir) with
  | error e =>
    rw [hplace] at hfollow
    cases hfollow
  | ok place =>
    rw [hplace] at hfollow
    have hmove : move d.root place name = .ok target := hfollow
    obtain ⟨es, hes⟩ := isDirectoryAt_of_move hmove
    exact ⟨place, es, locate_eq_ok.mpr ⟨hplain, hplace, hes.symm⟩, hmove⟩

section Unlinked
variable {es : List (String × Entry)} (hname : Path.IsName name) (hlink : d.root.linkAt? (place ++ [name]) = none)
include hname hlink

theorem place_of_move (h : move d.root place name = .ok target) : target = place ++ [name] := by
  rw [move_name (isDirectoryAt_of_move h) hname, hlink] at h
  split_ifs at h
  cases h
  rfl

/-- The path of a name in a directory leads to the entry of that name, if that is no link. -/
theorem place_of_locate_join (hdir : d.locate dir = .ok (place, some (.directory es)))
    (h : d.locate (Path.join dir name) = .ok (target, found)) : target = place ++ [name] := by
  rw [locate_join hdir hname] at h
  split_ifs at h
  cases hmove : move d.root place name with
  | error e =>
    rw [hmove] at h
    cases h
  | ok target' =>
    rw [hmove] at h
    cases h
    exact place_of_move hname hlink hmove

end Unlinked

end Disk
end Formulary
