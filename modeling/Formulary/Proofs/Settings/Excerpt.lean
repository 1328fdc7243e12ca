import Formulary.Settings.Document
import Mathlib

/-! Settings that are read from a part of a document. A document that holds some of the keys of a record, in any order,
    gives the record those fields, and leaves the others at their defaults; what holds all of them, as a record is
    written, gives the record back. In a section of the settings the same holds of the keys of the section, and it makes
    no difference whether a section is missing, null or empty. A key that no field has is never overlooked. -/

namespace Formulary

/-! ### Values that are read back -/

namespace Codec
variable {α : Type}

/-- A value is read back from JSON as it was written, and it is the default if it was written as null. -/
structure Lawful (c : Codec α) (default : α) : Prop where
  decode_encode : ∀ a, c.decode .json (c.encode a) = some a
  eq_default : ∀ a, c.encode a = .null → a = default

theorem bool_lawful (default : Bool) : bool.Lawful default := ⟨fun _ => rfl, nofun⟩

theorem text_lawful (default : String) : text.Lawful default := ⟨fun _ => rfl, nofun⟩

theorem word_lawful (default : UInt64) : word.Lawful default where
  decode_encode n := by
    have hlt := n.toNat_lt_size
    show (if 0 ≤ (n.toNat : Int) ∧ (n.toNat : Int).toNat < UInt64.size then
      some (UInt64.ofNat (n.toNat : Int).toNat) else none) = some n
    rw [Int.toNat_natCast, if_pos ⟨Int.natCast_nonneg _, hlt⟩, UInt64.ofNat_toNat]
  eq_default := nofun

theorem signed_lawful (default : Int64) : signed.Lawful default where
  decode_encode n := by
    show (if Int64.minValue.toInt ≤ n.toInt ∧ n.toInt ≤ Int64.maxValue.toInt then
      some (Int64.ofInt n.toInt) else none) = some n
    rw [if_pos ⟨n.minValue_le_toInt, n.toInt_le⟩, Int64.ofInt_toInt]
  eq_default := nofun

theorem case_lawful {ofName? : String → Option α} {name : α → String} (h : ∀ a, ofName? (name a) = some a)
    (default : α) : (case ofName? name).Lawful default := ⟨h, nofun⟩

theorem list_lawful {c : Codec α} {a : α} (h : c.Lawful a) (default : List α) : (list c).Lawful default where
  decode_encode as := by
    show (as.map c.encode).mapM (c.decode .json) = some as
    induction as with
    | nil => rfl
    | cons a as ih =>
      rw [List.map_cons, List.mapM_cons, h.decode_encode, ih]
      rfl
  eq_default := nofun

theorem optional_text_lawful : (optional text).Lawful none where
  decode_encode
    | none => rfl
    | some _ => rfl
  eq_default
    | none, _ => rfl

/-- A JSON text of the value is read as `a`, or refused if there is no `a`. -/
def ReadsJson (c : Codec α) (v : Value) (a : Option α) : Prop :=
  ∀ extension text, extension.toLower = "json" → Json.parse? text = some v → c.ofText? (some extension) text = a

theorem readsJson {c : Codec α} {v : Value} {a : Option α} (h : c.decode .json v = a) : c.ReadsJson v a := by
  intro extension text hextension hparse
  unfold ofText?
  rw [Option.any_some, if_pos (decide_eq_true hextension), hparse]
  exact h

/-- Reading goes by parts: a text that holds a part of a value is read as what this part picks of it, the text of a
    whole value as that value, and a text with an unknown key not at all. -/
structure ReadsParts {ι : Type} (c : Codec α) (IsPart : ι → Prop) (excerpt : ι → α → Value) (pick : ι → α → α)
    (HasUnknownKey : Value → Prop) : Prop where
  part : ∀ i a, IsPart i → c.ReadsJson (excerpt i a) (some (pick i a))
  whole : ∀ a, c.ReadsJson (c.encode a) (some a)
  unknown : ∀ v, HasUnknownKey v → c.ReadsJson v none

end Codec

/-! ### Records -/

namespace Field
variable {σ α : Type} {fields : List (Field σ)} {entries : List (String × Value)} {names : List String} {name : String}
  {n : Dialect} {c : Codec α} {get : σ → α} {set : α → σ → σ} {s r : σ} {a default : α} {value : String → Value}

/-- The names are those of fields, and none comes twice. -/
structure IsSelection (fields : List (Field σ)) (names : List String) : Prop where
  nodup : names.Nodup
  known : ∀ name ∈ names, name ∈ fields.map (·.name)

theorem load_table (h : IsSelection fields (entries.map (·.1))) (s : σ) :
    load fields s n (.table entries) = fields.foldlM (fill n entries) s := by
  have hkeys : entries? fields n (.table entries) = some entries := by
    refine if_pos ⟨List.all_eq_true.mpr fun name hname => ?_, h.nodup⟩
    obtain ⟨f, hf, hfname⟩ := List.mem_map.mp (h.known name hname)
    exact List.any_eq_true.mpr ⟨f, hf, decide_eq_true hfname⟩
  rw [load, hkeys]
  rfl

theorem load_table_of_not (h : ¬IsSelection fields (entries.map (·.1))) (s : σ) :
    load fields s n (.table entries) = none := by
  have hkeys : entries? fields n (.table entries) = none := by
    refine if_neg fun hkeys => h ⟨hkeys.2, fun name hname => ?_⟩
    obtain ⟨f, hf, hfname⟩ := List.any_eq_true.mp (List.all_eq_true.mp hkeys.1 name hname)
    exact List.mem_map.mpr ⟨f, hf, of_decide_eq_true hfname⟩
  rw [load, hkeys]
  rfl

/-- What the entries say about a field: its value, or the default if the field is missing or null. -/
def read (c : Codec α) (entries : List (String × Value)) (name : String) (default : α) : Option α :=
  match entries.lookup name with
  | none | some .null => some default
  | some v => c.decode .json v

/-- A field takes the value that is read for it. -/
theorem foldlM_fill_of (hset : set (get s) s = s) :
    (of name c get set :: fields).foldlM (fill .json entries) s =
      (read c entries name (get s)).bind fun a => fields.foldlM (fill .json entries) (set a s) := by
  have hfill : fill .json entries s (of name c get set) = (read c entries name (get s)).map (set · s) := by
    show (match entries.lookup name with
      | none | some .null => some s
      | some v => (c.decode .json v).map (set · s)) = _
    unfold read
    split
    · rw [Option.map_some, hset]
    · rw [Option.map_some, hset]
    · rfl
  rw [List.foldlM_cons, hfill]
  exact Option.bind_map

theorem foldlM_fill_of_read (hset : set (get s) s = s) (hread : read c entries name (get s) = some a)
    (hrest : fields.foldlM (fill .json entries) (set a s) = some r) :
    (of name c get set :: fields).foldlM (fill .json entries) s = some r := by
  rw [foldlM_fill_of hset, hread]
  exact hrest

theorem lookup_of_not_mem (hname : name ∉ entries.map (·.1)) : entries.lookup name = none :=
  List.lookup_eq_none_iff.mpr fun _ he => bne_iff_ne.mpr fun h => hname (h ▸ List.mem_map_of_mem he)

theorem map_fst_map (names : List String) (value : String → Value) :
    (names.map fun k => (k, value k)).map (·.1) = names := by
  rw [List.map_map]
  exact List.map_id names

theorem lookup_map (hname : name ∈ names) : (names.map fun k => (k, value k)).lookup name = some (value name) := by
  induction names with
  | nil => cases hname
  | cons k names ih =>
    rw [List.map_cons, List.lookup_cons]
    by_cases hk : name = k
    · rw [hk, beq_self_eq_true]
    · rw [beq_false_of_ne hk]
      exact ih ((List.mem_cons.mp hname).resolve_left hk)

theorem read_of_not_mem (hname : name ∉ names) :
    read c (names.map fun k => (k, value k)) name default = some default := by
  unfold read
  rw [lookup_of_not_mem (by rwa [map_fst_map])]

theorem read_of_null (hname : name ∈ names) (hvalue : value name = .null) :
    read c (names.map fun k => (k, value k)) name default = some default := by
  unfold read
  rw [lookup_map hname, hvalue]

theorem read_of_ne_null (hname : name ∈ names) (hvalue : value name ≠ .null) :
    read c (names.map fun k => (k, value k)) name default = c.decode .json (value name) := by
  unfold read
  rw [lookup_map hname]
  split
  case h_1 h => cases h
  case h_2 h => exact absurd (Option.some.inj h) hvalue
  case h_3 h =>
    cases h
    rfl

/-- A field that is written as it is, or else not at all. -/
theorem read_written (hc : c.Lawful default) (hvalue : value name = c.encode a) :
    read c (names.map fun k => (k, value k)) name default = some (if name ∈ names then a else default) := by
  split
  case isTrue hname =>
    by_cases hnull : value name = .null
    · rw [read_of_null hname hnull, hc.eq_default a (hvalue ▸ hnull)]
    · rw [read_of_ne_null hname hnull, hvalue, hc.decode_encode]
  case isFalse hname => exact read_of_not_mem hname

theorem foldlM_fill_written (hset : set (get s) s = s) (hc : c.Lawful (get s)) (hvalue : value name = c.encode a)
    (hrest : fields.foldlM (fill .json (names.map fun k => (k, value k))) (set (if name ∈ names then a else get s) s) =
      some r) :
    (of name c get set :: fields).foldlM (fill .json (names.map fun k => (k, value k))) s = some r :=
  foldlM_fill_of_read hset (read_written hc hvalue) hrest

/-! ### Excerpts -/

/-- The value of the field with a name. -/
def valueOf (fields : List (Field σ)) (s : σ) (name : String) : Value :=
  ((fields.find? (·.name = name)).map (·.value s)).getD .null

/-- The document that holds the fields with the given names, in their order. -/
def excerpt (fields : List (Field σ)) (names : List String) (s : σ) : Value :=
  .table (names.map fun name => (name, valueOf fields s name))

/-- An excerpt of a section, or null in its place. -/
def part (fields : List (Field σ)) (names : Option (List String)) (s : σ) : Value :=
  (names.map fun names => excerpt fields names s).getD .null

/-- A section is read as the part of it that is written. -/
theorem read_part {sub : List (Field α)} {inner : Option (List String)} {pick : List String → α → α}
    (hdecode : ∀ ks, IsSelection sub ks → c.decode .json (excerpt sub ks a) = some (pick ks a))
    (hnil : pick [] a = default) (hinner : ∀ ks ∈ inner, IsSelection sub ks) (hvalue : value name = part sub inner a) :
    read c (names.map fun k => (k, value k)) name default =
      some (pick (if name ∈ names then inner.getD [] else []) a) := by
  split
  case isTrue hname =>
    cases inner with
    | none => rw [read_of_null hname hvalue, Option.getD_none, hnil]
    | some ks =>
      rw [read_of_ne_null hname (hvalue ▸ nofun), hvalue]
      exact hdecode ks (hinner ks rfl)
  case isFalse hname => rw [read_of_not_mem hname, hnil]

/-! ### Unknown keys -/

/-- The document has a key that is no name of a field. -/
def HasUnknownKey (fields : List (Field σ)) (v : Value) : Prop :=
  ∃ entries, v = .table entries ∧ ∃ e ∈ entries, e.1 ∉ fields.map (·.name)

theorem load_eq_none_of_unknown {v : Value} (h : HasUnknownKey fields v) (s : σ) : load fields s n v = none := by
  obtain ⟨entries, rfl, e, he, hunknown⟩ := h
  exact load_table_of_not (fun hkeys => hunknown (hkeys.known e.1 (List.mem_map_of_mem he))) s

/-- One field that cannot be filled is enough. -/
theorem foldlM_fill_eq_none {f : Field σ} (hf : f ∈ fields) (h : ∀ s, fill n entries s f = none) (s : σ) :
    fields.foldlM (fill n entries) s = none := by
  induction fields generalizing s with
  | nil => cases hf
  | cons g fields ih =>
    rw [List.foldlM_cons]
    rcases List.mem_cons.mp hf with rfl | hf
    · rw [h]
      rfl
    · exact Option.bind_eq_none_iff.mpr fun s' _ => ih hf s'

theorem lookup_of_mem {w : Value} (hnodup : (entries.map (·.1)).Nodup) (he : (name, w) ∈ entries) :
    entries.lookup name = some w := by
  induction entries with
  | nil => cases he
  | cons e entries ih =>
    obtain ⟨hfirst, hrest⟩ := List.nodup_cons.mp hnodup
    rcases List.mem_cons.mp he with rfl | he
    · rw [List.lookup_cons, beq_self_eq_true]
    · have hne : name ≠ e.1 := fun h => hfirst (List.mem_map.mpr ⟨(name, w), he, h⟩)
      rw [List.lookup_cons, beq_false_of_ne hne]
      exact ih hrest he

/-- A section with an unknown key is not overlooked, wherever it stands. -/
theorem load_eq_none_of_section {sub : List (Field α)} {w : Value} {default : α}
    (hf : of name (codec sub default) get set ∈ fields) (he : (name, w) ∈ entries) (hw : HasUnknownKey sub w) (s : σ) :
    load fields s n (.table entries) = none := by
  -- A document whose own keys are wrong is refused before the section is read.
  by_cases h : IsSelection fields (entries.map (·.1))
  case pos =>
    have hfill : ∀ s, fill n entries s (of name (codec sub default) get set) = none := by
      intro s
      show (match entries.lookup name with
        | none | some .null => some s
        | some v => (load sub default n v).map (set · s)) = none
      have hload := load_eq_none_of_unknown hw default (n := n)
      obtain ⟨inner, rfl, _⟩ := hw
      rw [lookup_of_mem h.nodup he]
      show (load sub default n (.table inner)).map (set · s) = none
      rw [hload, Option.map_none]
    rw [load_table h, foldlM_fill_eq_none hf hfill]
  case neg => exact load_table_of_not h s

theorem readsParts {pick : List String → σ → σ} {d : σ} (hnodup : (fields.map (·.name)).Nodup)
    (hdecode : ∀ s names, IsSelection fields names → load fields d .json (excerpt fields names s) = some (pick names s))
    (hrecord : ∀ s, excerpt fields (fields.map (·.name)) s = record fields s)
    (hpick : ∀ s, pick (fields.map (·.name)) s = s) :
    (codec fields d).ReadsParts (IsSelection fields) (excerpt fields) pick (HasUnknownKey fields) where
  part names s h := Codec.readsJson (hdecode s names h)
  whole s := Codec.readsJson <| by
    show load fields d .json (record fields s) = some s
    rw [← hrecord s, hdecode s _ ⟨hnodup, fun _ h => h⟩, hpick]
  unknown _ h := Codec.readsJson (load_eq_none_of_unknown h d)

/-! ### Vacant sections -/

section Vacant
variable {before after : List (String × Value)} {k : String} {w : Value}

theorem isSelection_insert (hk : k ∈ fields.map (·.name)) (hnew : k ∉ (before ++ after).map (·.1)) :
    IsSelection fields ((before ++ (k, w) :: after).map (·.1)) ↔ IsSelection fields ((before ++ after).map (·.1)) := by
  have hperm : ((before ++ (k, w) :: after).map (·.1)).Perm (k :: (before ++ after).map (·.1)) :=
    List.perm_middle.map Prod.fst
  constructor
  · intro h
    refine ⟨(List.nodup_cons.mp (hperm.nodup_iff.mp h.nodup)).2, fun name hname => h.known name ?_⟩
    exact hperm.mem_iff.mpr (List.mem_cons_of_mem k hname)
  · intro h
    refine ⟨hperm.nodup_iff.mpr (List.nodup_cons.mpr ⟨hnew, h.nodup⟩), fun name hname => ?_⟩
    rcases List.mem_cons.mp (hperm.mem_iff.mp hname) with rfl | hname
    · exact hk
    · exact h.known name hname

theorem read_insert_of_ne (hne : name ≠ k) :
    read c (before ++ (k, w) :: after) name default = read c (before ++ after) name default := by
  unfold read
  rw [List.lookup_append, List.lookup_append, List.lookup_cons, beq_false_of_ne hne]

/-- A section that is null or empty is as good as none. -/
theorem read_insert (hempty : c.decode .json (.table []) = some default) (hw : w = .null ∨ w = .table [])
    (hnew : k ∉ (before ++ after).map (·.1)) :
    read c (before ++ (k, w) :: after) k default = read c (before ++ after) k default := by
  have hbefore : k ∉ before.map (·.1) := fun h => hnew (List.map_append ▸ List.mem_append_left _ h)
  unfold read
  rw [lookup_of_not_mem hnew, List.lookup_append, lookup_of_not_mem hbefore, List.lookup_cons, beq_self_eq_true]
  rcases hw with rfl | rfl
  · rfl
  · exact hempty

end Vacant
end Field

/-! ### Settings -/

theorem Severity.ofName?_name (a : Severity) : Severity.ofName? a.name = some a := by cases a <;> decide

theorem Category.ofName?_name (a : Category) : Category.ofName? a.name = some a := by cases a <;> decide

namespace LoggerSettings

/-- The settings at the given keys, and the default ones at the others. -/
def pick (names : List String) (s : LoggerSettings) : LoggerSettings where
  enabled := if "enabled" ∈ names then s.enabled else true
  logFile := if "log_file" ∈ names then s.logFile else false
  level := if "log_level" ∈ names then s.level else .info

theorem decode_excerpt (s : LoggerSettings) (names : List String) (h : Field.IsSelection fields names) :
    codec.decode .json (Field.excerpt fields names s) = some (s.pick names) := by
  refine (Field.load_table (by rwa [Field.map_fst_map]) _).trans ?_
  refine Field.foldlM_fill_written rfl (Codec.bool_lawful _) rfl ?_
  refine Field.foldlM_fill_written rfl (Codec.bool_lawful _) rfl ?_
  exact Field.foldlM_fill_written rfl (Codec.case_lawful Severity.ofName?_name _) rfl rfl

end LoggerSettings

namespace GenerationSettings

/-- The settings at the given keys, and the default ones at the others. -/
def pick (names : List String) (s : GenerationSettings) : GenerationSettings where
  maxArity := if "max_arity" ∈ names then s.maxArity else 2
  maxFireabilityAtomSize := if "max_fireability_atom_size" ∈ names then s.maxFireabilityAtomSize else 1
  maxCardinalityAtomSize := if "max_cardinality_atom_size" ∈ names then s.maxCardinalityAtomSize else 1
  minIntegerConstant := if "min_integer_constant" ∈ names then s.minIntegerConstant else 0
  maxIntegerConstant := if "max_integer_constant" ∈ names then s.maxIntegerConstant else 100
  numFormulas := if "num_formulas" ∈ names then s.numFormulas else 16
  numUnfold := if "num_unfold" ∈ names then s.numUnfold else 8
  formulaDepth := if "formula_depth" ∈ names then s.formulaDepth else 2
  categories := if "categories" ∈ names then s.categories else Category.all

theorem decode_excerpt (s : GenerationSettings) (names : List String) (h : Field.IsSelection fields names) :
    codec.decode .json (Field.excerpt fields names s) = some (s.pick names) := by
  refine (Field.load_table (by rwa [Field.map_fst_map]) _).trans ?_
  refine Field.foldlM_fill_written rfl (Codec.word_lawful _) rfl ?_
  refine Field.foldlM_fill_written rfl (Codec.word_lawful _) rfl ?_
  refine Field.foldlM_fill_written rfl (Codec.word_lawful _) rfl ?_
  refine Field.foldlM_fill_written rfl (Codec.signed_lawful _) rfl ?_
  refine Field.foldlM_fill_written rfl (Codec.signed_lawful _) rfl ?_
  refine Field.foldlM_fill_written rfl (Codec.word_lawful _) rfl ?_
  refine Field.foldlM_fill_written rfl (Codec.word_lawful _) rfl ?_
  refine Field.foldlM_fill_written rfl (Codec.word_lawful _) rfl ?_
  have hcategories := Codec.list_lawful (Codec.case_lawful Category.ofName?_name .reachabilityCardinality)
  exact Field.foldlM_fill_written rfl (hcategories _) rfl rfl

end GenerationSettings

namespace FilterSettings

/-- The settings at the given keys, and the default ones at the others. -/
def pick (names : List String) (s : FilterSettings) : FilterSettings where
  enabled := if "enabled" ∈ names then s.enabled else true
  maxRounds := if "max_rounds" ∈ names then s.maxRounds else 3
  setSize := if "set_size" ∈ names then s.setSize else 16
  interpreter := if "interpreter" ∈ names then s.interpreter else "python"
  checkerPath := if "checker_path" ∈ names then s.checkerPath else "smc.py"
  tmpDir := if "tmp_dir" ∈ names then s.tmpDir else none
  maxStates := if "max_states" ∈ names then s.maxStates else 2000

theorem decode_excerpt (s : FilterSettings) (names : List String) (h : Field.IsSelection fields names) :
    codec.decode .json (Field.excerpt fields names s) = some (s.pick names) := by
  refine (Field.load_table (by rwa [Field.map_fst_map]) _).trans ?_
  refine Field.foldlM_fill_written rfl (Codec.bool_lawful _) rfl ?_
  refine Field.foldlM_fill_written rfl (Codec.word_lawful _) rfl ?_
  refine Field.foldlM_fill_written rfl (Codec.word_lawful _) rfl ?_
  refine Field.foldlM_fill_written rfl (Codec.text_lawful _) rfl ?_
  refine Field.foldlM_fill_written rfl (Codec.text_lawful _) rfl ?_
  refine Field.foldlM_fill_written rfl Codec.optional_text_lawful rfl ?_
  exact Field.foldlM_fill_written rfl (Codec.word_lawful _) rfl rfl

end FilterSettings

namespace Settings

/-- What a document of settings holds: keys of its own, and in each section that it holds some keys of the section,
    or null in place of it. -/
structure Selection where
  names : List String
  generation : Option (List String)
  filter : Option (List String)
  logger : Option (List String)

namespace Selection

/-- All keys are those of settings, and none comes twice. -/
structure IsValid (c : Selection) : Prop where
  names : Field.IsSelection Settings.fields c.names
  generation : ∀ ks ∈ c.generation, Field.IsSelection GenerationSettings.fields ks
  filter : ∀ ks ∈ c.filter, Field.IsSelection FilterSettings.fields ks
  logger : ∀ ks ∈ c.logger, Field.IsSelection LoggerSettings.fields ks

/-- The value of a key. -/
def valueOf (c : Selection) (s : Settings) : String → Value
  | "generation" => Field.part GenerationSettings.fields c.generation s.generation
  | "filter" => Field.part FilterSettings.fields c.filter s.filter
  | "logger" => Field.part LoggerSettings.fields c.logger s.logger
  | name => Field.valueOf Settings.fields s name

/-- The document that holds what is selected of the settings. -/
def excerpt (c : Selection) (s : Settings) : Value := .table (c.names.map fun name => (name, c.valueOf s name))

/-- The settings at the selected keys, and the default ones at the others. Nothing is selected of a section that is
    missing, null or empty. -/
def pick (c : Selection) (s : Settings) : Settings where
  seed := if "seed" ∈ c.names then s.seed else 0
  inputDir := if "input_dir" ∈ c.names then s.inputDir else "INPUTS"
  numWorkers := if "num_workers" ∈ c.names then s.numWorkers else 1
  generation := s.generation.pick (if "generation" ∈ c.names then c.generation.getD [] else [])
  filter := s.filter.pick (if "filter" ∈ c.names then c.filter.getD [] else [])
  logger := s.logger.pick (if "logger" ∈ c.names then c.logger.getD [] else [])

end Selection

theorem decode_excerpt {c : Selection} (h : c.IsValid) (s : Settings) :
    codec.decode .json (c.excerpt s) = some (c.pick s) := by
  refine (Field.load_table (by rw [Field.map_fst_map]; exact h.names) _).trans ?_
  refine Field.foldlM_fill_written rfl (Codec.word_lawful _) rfl ?_
  refine Field.foldlM_fill_written rfl (Codec.text_lawful _) rfl ?_
  refine Field.foldlM_fill_written rfl (Codec.word_lawful _) rfl ?_
  refine Field.foldlM_fill_of_read rfl (Field.read_part s.generation.decode_excerpt rfl h.generation rfl) ?_
  refine Field.foldlM_fill_of_read rfl (Field.read_part s.filter.decode_excerpt rfl h.filter rfl) ?_
  exact Field.foldlM_fill_of_read rfl (Field.read_part s.logger.decode_excerpt rfl h.logger rfl) rfl

/-- A key of the settings or of one of their sections is unknown. -/
inductive HasUnknownKey : Value → Prop
  | own {v : Value} : Field.HasUnknownKey fields v → HasUnknownKey v
  | generation {entries : List (String × Value)} {v : Value} :
      ("generation", v) ∈ entries → Field.HasUnknownKey GenerationSettings.fields v → HasUnknownKey (.table entries)
  | filter {entries : List (String × Value)} {v : Value} :
      ("filter", v) ∈ entries → Field.HasUnknownKey FilterSettings.fields v → HasUnknownKey (.table entries)
  | logger {entries : List (String × Value)} {v : Value} :
      ("logger", v) ∈ entries → Field.HasUnknownKey LoggerSettings.fields v → HasUnknownKey (.table entries)

theorem decode_eq_none_of_unknown {v : Value} (h : HasUnknownKey v) : codec.decode .json v = none := by
  cases h with
  | own h => exact Field.load_eq_none_of_unknown h _
  | generation he h =>
    have hfield : .of "generation" GenerationSettings.codec (·.generation) (fun x s => { s with generation := x }) ∈
        fields := by simp [fields]
    exact Field.load_eq_none_of_section hfield he h _
  | filter he h =>
    have hfield : .of "filter" FilterSettings.codec (·.filter) (fun x s => { s with filter := x }) ∈ fields := by
      simp [fields]
    exact Field.load_eq_none_of_section hfield he h _
  | logger he h =>
    have hfield : .of "logger" LoggerSettings.codec (·.logger) (fun x s => { s with logger := x }) ∈ fields := by
      simp [fields]
    exact Field.load_eq_none_of_section hfield he h _

/-- The settings that are read from the entries of a document, field by field. -/
theorem foldlM_fill (entries : List (String × Value)) :
    fields.foldlM (Field.fill .json entries) {} = do
      let seed ← Field.read .word entries "seed" 0
      let inputDir ← Field.read .text entries "input_dir" "INPUTS"
      let numWorkers ← Field.read .word entries "num_workers" 1
      let generation ← Field.read GenerationSettings.codec entries "generation" {}
      let filter ← Field.read FilterSettings.codec entries "filter" {}
      let logger ← Field.read LoggerSettings.codec entries "logger" {}
      return { seed, inputDir, numWorkers, generation, filter, logger } := by
  refine (Field.foldlM_fill_of rfl).trans (congrArg _ (funext fun _ => ?_))
  refine (Field.foldlM_fill_of rfl).trans (congrArg _ (funext fun _ => ?_))
  refine (Field.foldlM_fill_of rfl).trans (congrArg _ (funext fun _ => ?_))
  refine (Field.foldlM_fill_of rfl).trans (congrArg _ (funext fun _ => ?_))
  refine (Field.foldlM_fill_of rfl).trans (congrArg _ (funext fun _ => ?_))
  exact Field.foldlM_fill_of rfl

theorem decode_insert {before after : List (String × Value)} {k : String} {v : Value}
    (hk : k ∈ ["generation", "filter", "logger"]) (hv : v = .null ∨ v = .table [])
    (hnew : k ∉ (before ++ after).map (·.1)) :
    codec.decode .json (.table (before ++ (k, v) :: after)) = codec.decode .json (.table (before ++ after)) := by
  have hfold : fields.foldlM (Field.fill .json (before ++ (k, v) :: after)) {} =
      fields.foldlM (Field.fill .json (before ++ after)) {} := by
    rw [foldlM_fill, foldlM_fill]
    simp only [List.mem_cons, List.not_mem_nil, or_false] at hk
    -- What is read for the section is the default, and the other fields do not see it.
    obtain rfl | rfl | rfl := hk
    · rw [Field.read_insert (c := GenerationSettings.codec) rfl hv hnew]
      simp +decide only [Field.read_insert_of_ne]
    · rw [Field.read_insert (c := FilterSettings.codec) rfl hv hnew]
      simp +decide only [Field.read_insert_of_ne]
    · rw [Field.read_insert (c := LoggerSettings.codec) rfl hv hnew]
      simp +decide only [Field.read_insert_of_ne]
  have hknown : k ∈ fields.map (·.name) := List.mem_append_right ["seed", "input_dir", "num_workers"] hk
  have hselection := Field.isSelection_insert (w := v) hknown hnew
  -- With or without the section, the keys are right or they are not.
  by_cases h : Field.IsSelection fields ((before ++ after).map (·.1))
  · exact (Field.load_table (hselection.mpr h) _).trans (hfold.trans (Field.load_table h _).symm)
  · exact (Field.load_table_of_not (h ∘ hselection.mp) _).trans (Field.load_table_of_not h _).symm

/-- What settings are written as. -/
def Selection.all : Selection where
  names := fields.map (·.name)
  generation := some (GenerationSettings.fields.map (·.name))
  filter := some (FilterSettings.fields.map (·.name))
  logger := some (LoggerSettings.fields.map (·.name))

theorem Selection.all_isValid : all.IsValid where
  names := ⟨by decide, fun _ h => h⟩
  generation := by
    rintro _ ⟨⟩
    exact ⟨by decide, fun _ h => h⟩
  filter := by
    rintro _ ⟨⟩
    exact ⟨by decide, fun _ h => h⟩
  logger := by
    rintro _ ⟨⟩
    exact ⟨by decide, fun _ h => h⟩

/-- The settings and each of their sections are read from any part of a JSON document, whatever the order of its keys:
    the keys that it holds are as it says, the others are the default ones. A whole document gives back the settings it
    was written from, and one with an unknown key at any level is refused. In every document a section that is null or
    empty is as good as none. -/
theorem reads_by_parts :
    LoggerSettings.codec.ReadsParts (Field.IsSelection LoggerSettings.fields) (Field.excerpt LoggerSettings.fields)
      LoggerSettings.pick (Field.HasUnknownKey LoggerSettings.fields) ∧
    GenerationSettings.codec.ReadsParts (Field.IsSelection GenerationSettings.fields)
      (Field.excerpt GenerationSettings.fields) GenerationSettings.pick
      (Field.HasUnknownKey GenerationSettings.fields) ∧
    FilterSettings.codec.ReadsParts (Field.IsSelection FilterSettings.fields) (Field.excerpt FilterSettings.fields)
      FilterSettings.pick (Field.HasUnknownKey FilterSettings.fields) ∧
    Settings.codec.ReadsParts Selection.IsValid Selection.excerpt Selection.pick HasUnknownKey ∧
    ∀ before after : List (String × Value), ∀ k ∈ ["generation", "filter", "logger"],
      k ∉ (before ++ after).map (·.1) → ∀ v, v = .null ∨ v = .table [] →
        Settings.codec.decode .json (.table (before ++ (k, v) :: after)) =
          Settings.codec.decode .json (.table (before ++ after)) := by
  refine ⟨?_, ?_, ?_, ⟨?_, ?_, ?_⟩, fun _ _ _ hk hnew _ hv => decode_insert hk hv hnew⟩
  · exact Field.readsParts (by decide) LoggerSettings.decode_excerpt (fun _ => rfl) fun _ => rfl
  · exact Field.readsParts (by decide) GenerationSettings.decode_excerpt (fun _ => rfl) fun _ => rfl
  · exact Field.readsParts (by decide) FilterSettings.decode_excerpt (fun _ => rfl) fun _ => rfl
  · exact fun c s h => Codec.readsJson (decode_excerpt h s)
  · exact fun s => Codec.readsJson (decode_excerpt Selection.all_isValid s)
  · exact fun v h => Codec.readsJson (decode_eq_none_of_unknown h)

/-- One of the settings and one key of a section, with another section null, and with the sections first. -/
def Selection.few : Selection where
  names := ["filter", "generation", "seed"]
  generation := some ["num_formulas"]
  filter := none
  logger := none

theorem Selection.few_isValid : few.IsValid where
  names := ⟨by decide, by decide⟩
  generation := by
    rintro _ ⟨⟩
    exact ⟨by decide, by decide⟩
  filter := nofun
  logger := nofun

theorem few_reads_by_parts :
    Selection.few.IsValid ∧
    codec.ofText? (some "JSON") "\x7b\"filter\": null, \"generation\": \x7b\"num_formulas\": 4\x7d, \"seed\": 7\x7d" =
      some { seed := 7, generation := { numFormulas := 4 } } ∧
    HasUnknownKey (.table [("logger", .table [("verbose", .bool true)])]) ∧
    codec.ofText? (some "json") "\x7b\"logger\": \x7b\"verbose\": true\x7d\x7d" = none := by
  obtain ⟨-, -, -, hread, -⟩ := reads_by_parts
  have hunknown : HasUnknownKey (.table [("logger", .table [("verbose", .bool true)])]) :=
    .logger (.head _) ⟨_, rfl, _, .head _, by decide⟩
  refine ⟨Selection.few_isValid, ?_, hunknown, ?_⟩
  · exact hread.part Selection.few { seed := 7, generation := { numFormulas := 4, maxArity := 9 } }
      Selection.few_isValid "JSON" _ (by decide +kernel) (by cbv)
  · exact hread.unknown _ hunknown "json" _ (by decide +kernel) (by cbv)

end Settings
end Formulary
