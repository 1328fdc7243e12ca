import Formulary.Proofs.Files.Disk

/-! Disks with the same directories. A path leads to the same place on them, so what they answer about a path differs
    at most in the text of the file there. Writing a file leads from a disk to such a disk. -/

namespace Formulary
namespace Disk
variable {d d' d'' : Disk} {place q : List String} {found : Option Entry} {path dir name text : String}

/-! ### What is at a path -/

theorem exists_ok_iff {P : List String → Prop} : (∃ place' found',
    (.ok (place, found) : Except FileError (List String × Option Entry)) = .ok (place', found') ∧ P place') ↔ P place := by
  simp

theorem isDirectory_iff : d.isDirectory path = true ↔
    ∃ place found, d.locate path = .ok (place, found) ∧ d.root.IsDirectoryAt place := by
  unfold isDirectory
  cases hlocate : d.locate path with
  | error e => simp
  | ok r =>
    obtain ⟨place, found⟩ := r
    rw [exists_ok_iff, Entry.IsDirectoryAt, ← get?_of_locate hlocate]
    cases found with
    | none => simp
    | some x => cases x <;> simp [Entry.isDirectory]

theorem isFile_iff : d.isFile path = true ↔
    ∃ place found, d.locate path = .ok (place, found) ∧ (d.root.textAt? place).isSome := by
  unfold isFile
  cases hlocate : d.locate path with
  | error e => simp
  | ok r =>
    obtain ⟨place, found⟩ := r
    rw [exists_ok_iff, Entry.textAt?, ← get?_of_locate hlocate]
    cases found with
    | none => simp
    | some x => cases x <;> simp [Entry.isFile]

theorem read_eq_ok : d.read path = .ok text ↔
    ∃ place found, d.locate path = .ok (place, found) ∧ d.root.textAt? place = some text := by
  unfold read
  cases hlocate : d.locate path with
  | error e => simp [bind, Except.bind]
  | ok r =>
    obtain ⟨place, found⟩ := r
    rw [exists_ok_iff, Entry.textAt?_eq_some, ← get?_of_locate hlocate]
    cases found with
    | none => simp [bind, Except.bind, throw, throwThe, MonadExceptOf.throw]
    | some x => cases x <;> simp [bind, Except.bind, pure, Except.pure, throw, throwThe, MonadExceptOf.throw]

theorem write_eq (hlocate : d.locate path = .ok (place, found)) (hplace : ¬d.root.IsDirectoryAt place) :
    d.write path text = .ok { d with root := Entry.put (.file text) place d.root } := by
  have hfound := get?_of_locate hlocate
  unfold write
  rw [hlocate]
  cases found with
  | none => rfl
  | some x =>
    cases x with
    | directory es => exact absurd ⟨es, hfound.symm⟩ hplace
    | file | link => rfl

theorem write_eq_ok : d.write path text = .ok d' ↔ ∃ place found, d.locate path = .ok (place, found) ∧
    ¬d.root.IsDirectoryAt place ∧ d' = { d with root := Entry.put (.file text) place d.root } := by
  constructor
  · intro h
    cases hlocate : d.locate path with
    | error e =>
      rw [write, hlocate] at h
      cases h
    | ok r =>
      obtain ⟨place, found⟩ := r
      have hplace : ¬d.root.IsDirectoryAt place := by
        rintro ⟨es, hes⟩
        rw [write, hlocate, get?_of_locate hlocate, hes] at h
        cases h
      rw [write_eq hlocate hplace] at h
      cases h
      exact ⟨place, found, rfl, hplace, rfl⟩
  · rintro ⟨place, found, hlocate, hplace, rfl⟩
    exact write_eq hlocate hplace

theorem writable_eq_ok : d.writable path = .ok () ↔
    ∃ place found, d.locate path = .ok (place, found) ∧ ¬d.root.IsDirectoryAt place := by
  have hwrite : d.writable path = .ok () ↔ ∃ d', d.write path "" = .ok d' := by
    unfold writable
    cases d.write path "" <;> simp [bind, Except.bind, pure, Except.pure]
  rw [hwrite]
  simp only [write_eq_ok]
  constructor
  · rintro ⟨d', place, found, hlocate, hplace, -⟩
    exact ⟨place, found, hlocate, hplace⟩
  · rintro ⟨place, found, hlocate, hplace⟩
    exact ⟨_, place, found, hlocate, hplace, rfl⟩

theorem writable_eq_error {e : FileError} (h : d.locate path = .error e) : d.writable path = .error e := by
  rw [writable, write, h]
  rfl

theorem writable_eq_isDirectory (hlocate : d.locate path = .ok (place, found)) (hplace : d.root.IsDirectoryAt place) :
    d.writable path = .error .isDirectory := by
  obtain ⟨es, hes⟩ := hplace
  rw [writable, write, hlocate, get?_of_locate hlocate, hes]
  rfl

/-- The path is that of a link to something below a place where there is no directory. -/
def Hangs (d : Disk) (path : String) (place : List String) : Prop :=
  ∃ dir home es name below, path = Path.join dir name ∧ Path.IsName name ∧
    d.locate dir = .ok (home, some (.directory es)) ∧ below ≠ [] ∧
    d.root.linkAt? (home ++ [name]) = some (place ++ below) ∧ ¬d.root.IsDirectoryAt place

theorem Hangs.locate_ne {target : List String} (h : d.Hangs path place) : d.locate path ≠ .ok (target, found) := by
  obtain ⟨dir, home, es, name, below, rfl, hname, hdir, hbelow, hlink, hplace⟩ := h
  have hhome : d.root.IsDirectoryAt home := ⟨es, (get?_of_locate hdir).symm⟩
  intro hlocate
  have hlead : lead d.root (place ++ below) = .ok target := by
    obtain ⟨home', es', hdir', hmove⟩ := exists_locate_of_join (locate_eq_ok.mp hdir).1.2.1 hname hlocate
    cases hdir.symm.trans hdir'
    rw [move_name hhome hname, hlink] at hmove
    split_ifs at hmove
    exact hmove
  obtain ⟨-, -, hdirectory | ⟨parent, last, heq, hparent⟩⟩ := (lead_eq_ok (hhome.above List.nil_prefix)).mp hlead
  · exact hplace (hdirectory.above (List.prefix_append ..))
  · have hprefix := (List.prefix_concat_iff.mp (heq ▸ List.prefix_append place below)).resolve_left fun hself =>
      hbelow (List.append_right_eq_self.mp (heq.trans hself.symm))
    exact hplace (hparent.above hprefix)

/-! ### Writing -/

/-- How the disk `d'` with a text at a place differs from `d`. -/
structure Writes (d : Disk) (place : List String) (text : String) (d' : Disk) : Prop where
  here : d'.here = d.here
  directory_iff : ∀ q, d'.root.IsDirectoryAt q ↔ d.root.IsDirectoryAt q
  linkAt?_eq : ∀ q, d'.root.linkAt? q = d.root.linkAt? q
  textAt?_eq : ∀ q, d'.root.textAt? q = if q = place then some text else d.root.textAt? q

theorem writes_put {parent : List String} (hparent : d.root.IsDirectoryAt parent)
    (hplace : ¬d.root.IsDirectoryAt (parent ++ [name])) (hlink : d.root.linkAt? (parent ++ [name]) = none) :
    d.Writes (parent ++ [name]) text { d with root := Entry.put (.file text) (parent ++ [name]) d.root } := by
  have hget : (Entry.put (.file text) (parent ++ [name]) d.root).get? (parent ++ [name]) = some (.file text) :=
    Entry.get?_put_self ..
  have hbelow : ∀ rest, rest ≠ [] → (Entry.file text).get? rest = none := fun _ => Entry.get?_eq_none nofun
  refine ⟨rfl, fun q => ?_, fun q => ?_, fun q => ?_⟩
  · by_cases hq : q = parent ++ [name]
    · subst hq
      exact iff_of_false (fun ⟨es, hes⟩ => by cases hget.symm.trans hes) hplace
    · exact Entry.isDirectoryAt_put_concat hparent hplace hbelow hq
  · by_cases hq : q = parent ++ [name]
    · subst hq
      rw [hlink, Entry.linkAt?, hget]
    · exact Entry.linkAt?_put_concat hparent hplace hbelow hq
  · by_cases hq : q = parent ++ [name]
    · subst hq
      rw [if_pos rfl, Entry.textAt?_eq_some, hget]
    · rw [if_neg hq]
      exact Entry.textAt?_put_concat hparent hplace hbelow hq

theorem writes_of_write (h : d.write path text = .ok d') :
    ∃ place found, d.locate path = .ok (place, found) ∧ ¬d.root.IsDirectoryAt place ∧ d.Writes place text d' := by
  obtain ⟨place, found, hlocate, hplace, rfl⟩ := write_eq_ok.mp h
  obtain ⟨parent, name, rfl, hparent⟩ := exists_parent hlocate hplace
  exact ⟨_, found, hlocate, hplace, writes_put hparent hplace (lands_of_locate hlocate).linkAt?_eq_none⟩

/-! ### Making a directory -/

/-- How the disk `d'` with a new directory at a place differs from `d`. -/
structure Makes (d : Disk) (place : List String) (d' : Disk) : Prop where
  here : d'.here = d.here
  directory_iff : ∀ q, d'.root.IsDirectoryAt q ↔ d.root.IsDirectoryAt q ∨ q = place
  linkAt?_eq : ∀ q, d'.root.linkAt? q = d.root.linkAt? q
  textAt?_eq : ∀ q, d'.root.textAt? q = d.root.textAt? q

theorem makes_put {parent : List String} (hparent : d.root.IsDirectoryAt parent)
    (hnone : d.root.get? (parent ++ [name]) = none) :
    d.Makes (parent ++ [name]) { d with root := Entry.put (.directory []) (parent ++ [name]) d.root } := by
  have hplace : ¬d.root.IsDirectoryAt (parent ++ [name]) := fun ⟨es, hes⟩ => by cases hnone.symm.trans hes
  have hget : (Entry.put (.directory []) (parent ++ [name]) d.root).get? (parent ++ [name]) = some (.directory []) :=
    Entry.get?_put_self ..
  have hbelow : ∀ rest, rest ≠ [] → (Entry.directory []).get? rest = none := by
    intro rest hrest
    obtain ⟨n, rest, rfl⟩ := List.exists_cons_of_ne_nil hrest
    rfl
  refine ⟨rfl, fun q => ?_, fun q => ?_, fun q => ?_⟩
  · by_cases hq : q = parent ++ [name]
    · exact iff_of_true ⟨[], hq ▸ hget⟩ (.inr hq)
    · rw [Entry.isDirectoryAt_put_concat hparent hplace hbelow hq, or_iff_left hq]
  · by_cases hq : q = parent ++ [name]
    · rw [hq, Entry.linkAt?, Entry.linkAt?, hget, hnone]
    · exact Entry.linkAt?_put_concat hparent hplace hbelow hq
  · by_cases hq : q = parent ++ [name]
    · rw [hq, Entry.textAt?, Entry.textAt?, hget, hnone]
    · exact Entry.textAt?_put_concat hparent hplace hbelow hq

/-- There is a directory of the name, or it is made. -/
theorem makeHere_cases (h : d.makeHere name = .ok d') :
    d.isDirectory name = true ∧ d' = d ∨ d.isDirectory name = false ∧ d.Makes (d.here ++ [name]) d' := by
  unfold makeHere at h
  split at h
  case isTrue hdirectory =>
    cases h
    exact .inl ⟨hdirectory, rfl⟩
  case isFalse hdirectory =>
    split at h
    case isTrue => cases h
    case isFalse hnone =>
      split at h
      · rename_i es hes
        cases h
        exact .inr ⟨Bool.not_eq_true _ ▸ hdirectory, makes_put ⟨es, hes⟩ (Option.not_isSome_iff_eq_none.mp hnone)⟩
      · cases h

/-! ### Disks that are alike -/

/-- Two disks have the same directories and links, files at the same of some places, and the same texts at other
    places. -/
structure Alike (present kept : List String → Prop) (d d' : Disk) : Prop where
  here : d'.here = d.here
  directory_iff : ∀ q, d'.root.IsDirectoryAt q ↔ d.root.IsDirectoryAt q
  linkAt?_eq : ∀ q, d'.root.linkAt? q = d.root.linkAt? q
  isSome_iff : ∀ q, present q → ((d'.root.textAt? q).isSome ↔ (d.root.textAt? q).isSome)
  textAt?_eq : ∀ q, kept q → d'.root.textAt? q = d.root.textAt? q

namespace Alike
variable {present kept : List String → Prop}

theorem refl (present kept : List String → Prop) (d : Disk) : d.Alike present kept d :=
  ⟨rfl, fun _ => .rfl, fun _ => rfl, fun _ _ => .rfl, fun _ _ => rfl⟩

theorem trans (h : d.Alike present kept d') (h' : d'.Alike present kept d'') : d.Alike present kept d'' where
  here := h'.here.trans h.here
  directory_iff q := (h'.directory_iff q).trans (h.directory_iff q)
  linkAt?_eq q := (h'.linkAt?_eq q).trans (h.linkAt?_eq q)
  isSome_iff q hq := (h'.isSome_iff q hq).trans (h.isSome_iff q hq)
  textAt?_eq q hq := (h'.textAt?_eq q hq).trans (h.textAt?_eq q hq)

theorem symm (h : d.Alike present kept d') : d'.Alike present kept d where
  here := h.here.symm
  directory_iff q := (h.directory_iff q).symm
  linkAt?_eq q := (h.linkAt?_eq q).symm
  isSome_iff q hq := (h.isSome_iff q hq).symm
  textAt?_eq q hq := (h.textAt?_eq q hq).symm

theorem of_writes (h : d.Writes place text d') (hpresent : present place → (d.root.textAt? place).isSome)
    (hkept : ¬kept place) : d.Alike present kept d' where
  here := h.here
  directory_iff := h.directory_iff
  linkAt?_eq := h.linkAt?_eq
  isSome_iff q hq := by
    rw [h.textAt?_eq]
    split
    · rename_i heq
      subst heq
      simp [hpresent hq]
    · rfl
  textAt?_eq q hq := by
    rw [h.textAt?_eq, if_neg]
    rintro rfl
    exact hkept hq

theorem locate (h : d.Alike present kept d') (hlocate : d.locate path = .ok (place, found)) :
    d'.locate path = .ok (place, d'.root.get? place) :=
  locate_mono h.here (fun q => (h.directory_iff q).mpr) h.linkAt?_eq hlocate

theorem isDirectory (h : d.Alike present kept d') (path : String) : d'.isDirectory path = d.isDirectory path := by
  have hmono {d d' : Disk} (h : d.Alike present kept d') (hpath : d.isDirectory path = true) :
      d'.isDirectory path = true := by
    obtain ⟨place, found, hlocate, hplace⟩ := isDirectory_iff.mp hpath
    exact isDirectory_iff.mpr ⟨place, _, h.locate hlocate, (h.directory_iff place).mpr hplace⟩
  exact Bool.eq_iff_iff.mpr ⟨hmono h.symm, hmono h⟩

theorem isFile (h : d.Alike present kept d')
    (hpath : ∀ place found, d.locate path = .ok (place, found) → present place) : d'.isFile path = d.isFile path := by
  have hmono {d d' : Disk} (h : d.Alike present kept d')
      (hpath : ∀ place found, d.locate path = .ok (place, found) → present place) (hfile : d.isFile path = true) :
      d'.isFile path = true := by
    obtain ⟨place, found, hlocate, hplace⟩ := isFile_iff.mp hfile
    exact isFile_iff.mpr ⟨place, _, h.locate hlocate, (h.isSome_iff place (hpath place found hlocate)).mpr hplace⟩
  refine Bool.eq_iff_iff.mpr ⟨hmono h.symm fun place found hlocate => ?_, hmono h hpath⟩
  exact hpath place _ (h.symm.locate hlocate)

theorem read (h : d.Alike present kept d') (hread : d.read path = .ok text)
    (hpath : ∀ place found, d.locate path = .ok (place, found) → kept place) : d'.read path = .ok text := by
  obtain ⟨place, found, hlocate, hplace⟩ := read_eq_ok.mp hread
  exact read_eq_ok.mpr ⟨place, _, h.locate hlocate, (h.textAt?_eq place (hpath place found hlocate)).trans hplace⟩

theorem makes {d₁ d₁' : Disk} (h : d.Alike present kept d') (hmakes : d.Makes place d₁) (hmakes' : d'.Makes place d₁') :
    d₁.Alike present kept d₁' where
  here := by rw [hmakes'.here, h.here, hmakes.here]
  directory_iff q := by rw [hmakes'.directory_iff, hmakes.directory_iff, h.directory_iff]
  linkAt?_eq q := by rw [hmakes'.linkAt?_eq, hmakes.linkAt?_eq, h.linkAt?_eq]
  isSome_iff q hq := by rw [hmakes'.textAt?_eq, hmakes.textAt?_eq, h.isSome_iff q hq]
  textAt?_eq q hq := by rw [hmakes'.textAt?_eq, hmakes.textAt?_eq, h.textAt?_eq q hq]

theorem makeHere {d₁ d₁' : Disk} (h : d.Alike present kept d') (hmake : d.makeHere name = .ok d₁)
    (hmake' : d'.makeHere name = .ok d₁') : d₁.Alike present kept d₁' := by
  have hdirectory := h.isDirectory name
  rcases makeHere_cases hmake with ⟨hthere, rfl⟩ | ⟨hmissing, hmakes⟩ <;>
    rcases makeHere_cases hmake' with ⟨hthere', rfl⟩ | ⟨hmissing', hmakes'⟩
  · exact h
  · rw [hmissing', hthere] at hdirectory
    cases hdirectory
  · rw [hthere', hmissing] at hdirectory
    cases hdirectory
  · rw [h.here] at hmakes'
    exact h.makes hmakes hmakes'

/-- Links that lead nowhere tell on both disks that they do so in the same way, if what they hang below is there or
    missing on both. -/
theorem lead_eq (h : d.Alike present kept d') (hroot : d.root.IsDirectoryAt [])
    (hhangs : ∀ p below, below ≠ [] → q = p ++ below → ¬d.root.IsDirectoryAt p → present p) :
    lead d'.root q = lead d.root q := by
  have hlands : Lands d'.root q ↔ Lands d.root q :=
    ⟨Lands.mono (fun p => (h.directory_iff p).mp) fun p => (h.linkAt?_eq p).symm,
      Lands.mono (fun p => (h.directory_iff p).mpr) h.linkAt?_eq⟩
  cases hlink : d.root.linkAt? q with
  | some target => rw [lead_of_linkAt? hlink, lead_of_linkAt? ((h.linkAt?_eq q).trans hlink)]
  | none =>
    by_cases hq : Lands d.root q
    · rw [lead_of_lands hq, lead_of_lands (hlands.mpr hq)]
    rw [lead_of_not_lands hroot hlink hq, lead_of_not_lands ((h.directory_iff []).mpr hroot)
      ((h.linkAt?_eq q).trans hlink) (mt hlands.mp hq)]
    -- what is in the way of the link is in its way on both disks
    have hblocks : ∀ n ∈ List.range q.length, d'.root.blocks (q.take n) = d.root.blocks (q.take n) := by
      intro n hn
      rw [Bool.eq_iff_iff, Entry.blocks_iff, Entry.blocks_iff, h.linkAt?_eq]
      by_cases hdirectory : d.root.IsDirectoryAt (q.take n)
      · rw [hdirectory.textAt?_eq_none, ((h.directory_iff _).mpr hdirectory).textAt?_eq_none]
      · have hbelow : q.drop n ≠ [] := by
          rw [ne_eq, List.drop_eq_nil_iff, not_le]
          exact List.mem_range.mp hn
        rw [h.isSome_iff _ (hhangs _ _ hbelow (List.take_append_drop n q).symm hdirectory)]
    have hany : (List.range q.length).any (d'.root.blocks <| q.take ·) =
        (List.range q.length).any (d.root.blocks <| q.take ·) := by
      rw [Bool.eq_iff_iff, List.any_eq_true, List.any_eq_true]
      exact exists_congr fun n => and_congr_right fun hn => by rw [hblocks n hn]
    rw [hany]

/-- In a directory a path that leads nowhere does so on both disks in the same way. -/
theorem locate_join_error {es : List (String × Entry)} {e : FileError} (h : d.Alike present kept d')
    (hdir : d.locate dir = .ok (place, some (.directory es))) (hname : Path.IsName name)
    (hhangs : ∀ p, d.Hangs (Path.join dir name) p → present p) (hlocate : d.locate (Path.join dir name) = .error e) :
    d'.locate (Path.join dir name) = .error e := by
  have hplace : d.root.IsDirectoryAt place := ⟨es, (get?_of_locate hdir).symm⟩
  obtain ⟨es', hes'⟩ := (h.directory_iff place).mpr hplace
  have hdir' := h.locate hdir
  rw [hes'] at hdir'
  have hmove : ∀ e, move d.root place name = .error e → move d'.root place name = .error e := by
    intro e hmove
    rw [move_name hplace hname] at hmove
    rw [move_name ⟨es', hes'⟩ hname, h.linkAt?_eq]
    split_ifs at hmove ⊢
    · exact hmove
    · split at hmove
      · rename_i target htarget
        refine (h.lead_eq (hplace.above List.nil_prefix) fun p below hbelow heq hp => ?_).trans hmove
        exact hhangs p ⟨dir, place, es, name, below, rfl, hname, hdir, hbelow, heq ▸ htarget, hp⟩
      · cases hmove
  rw [locate_join hdir hname] at hlocate
  rw [locate_join hdir' hname]
  split_ifs at hlocate ⊢
  · exact hlocate
  · exact hlocate
  · cases hfound : move d.root place name with
    | ok target =>
      rw [hfound] at hlocate
      cases hlocate
    | error e' =>
      rw [hfound] at hlocate
      cases hlocate
      rw [hmove e hfound]
      rfl

theorem hangs (h : d.Alike present kept d') (hhangs : d'.Hangs path place) : d.Hangs path place := by
  obtain ⟨dir, home, es, name, below, rfl, hname, hdir, hbelow, hlink, hplace⟩ := hhangs
  obtain ⟨es', hes'⟩ := (h.directory_iff home).mp ⟨es, (get?_of_locate hdir).symm⟩
  have hdir' := h.symm.locate hdir
  rw [hes'] at hdir'
  exact ⟨dir, home, es', name, below, rfl, hname, hdir', hbelow, (h.linkAt?_eq _).symm.trans hlink,
    mt (h.directory_iff place).mpr hplace⟩

/-- In a directory the same files can be written. -/
theorem writable_join {es : List (String × Entry)} (h : d.Alike present kept d')
    (hdir : d.locate dir = .ok (place, some (.directory es))) (hname : Path.IsName name)
    (hhangs : ∀ p, d.Hangs (Path.join dir name) p → present p) :
    d'.writable (Path.join dir name) = d.writable (Path.join dir name) := by
  cases hlocate : d.locate (Path.join dir name) with
  | ok r =>
    obtain ⟨target, found⟩ := r
    have hlocate' := h.locate hlocate
    by_cases hdirectory : d.root.IsDirectoryAt target
    · rw [writable_eq_isDirectory hlocate hdirectory,
        writable_eq_isDirectory hlocate' ((h.directory_iff _).mpr hdirectory)]
    · rw [writable_eq_ok.mpr ⟨_, _, hlocate, hdirectory⟩,
        writable_eq_ok.mpr ⟨_, _, hlocate', fun hdirectory' => hdirectory ((h.directory_iff _).mp hdirectory')⟩]
  | error e => rw [writable_eq_error hlocate, writable_eq_error (h.locate_join_error hdir hname hhangs hlocate)]

end Alike
end Disk
end Formulary
