import Formulary.Proofs.Net.Unfolding
import Formulary.Proofs.Run.Record
import Formulary.Run.Task

/-! The formulas of a category, for a model and for its twin. Whether the oracle kept them, they filled up a
    selection, or they were unfolded, they belong to the language of the category over the identifiers of the
    model that they are written for. The same holds of the formulas that the oracle is asked about. -/

namespace Formulary

namespace Model

theorem known_binder (m : Model) (g : GenerationSettings) : (m.binder g).known = m.identifiers := by
  unfold binder Binder.widen
  split
  · split <;> rfl
  · rfl

/-- The property files of a category with the given formulas. -/
def propertyFiles (m : Model) (category : Category) (formulas : List Formula) : List (String × String) :=
  [(Path.join m.directory category.xmlFileName, (m.properties category formulas).xml),
    (Path.join m.directory category.textFileName, (m.properties category formulas).readable)]

/-- If a correspondence of the model was looked for, it was the one with the twin. -/
def Prepared (m : Model) (twin : Option Model) : Prop :=
  ∀ x ∈ twin, m.correspondence = none ∨
    ∃ m' : Model, m'.correspondence = none ∧ m = (m'.ensureCorrespondence x).1

theorem Prepared.covers {m twin : Model} {k : Correspondence} (h : m.Prepared (some twin))
    (hk : m.usableCorrespondence = some k) : k.Covers m.identifiers twin.identifiers := by
  rcases h twin rfl with hnone | ⟨m', hm', rfl⟩
  · rw [usableCorrespondence, hnone] at hk
    cases hk
  · exact ensureCorrespondence_covers hm' hk

end Model

/-- What is made for one category: a selection for the model, and one for its twin, if there is a twin. -/
structure Course where
  category : Category
  selection : Selection
  twinSelection : Selection := {}

namespace Workshop
variable {σ : Type} {w : Workshop σ} {subject : Subject} {category : Category} {binder : Binder} {m x : Model}
  {twin : Option Model} {count : Nat} {selection : Selection} {formulas : List Formula} {course : Course}
  {s t : Session σ}

/-! ### What is done for a category -/

theorem writeFile_gives {path text : String} {u : Unit} :
    Work.Gives (w.writeFile path text) s u t ↔
      w.disk.writable path = .ok () ∧ t = { s with written := s.written ++ [(path, text)] } := by
  unfold writeFile
  split
  case h_1 cause hwritable =>
    rw [hwritable]
    simp
  case h_2 hwritable => rw [Work.gives_lift, Work.does_wrote, hwritable, eq_self_iff_true, true_and]

theorem writeProperties_gives {u : Unit} :
    Work.Gives (w.writeProperties m category formulas) s u t ↔
      (∀ file ∈ m.propertyFiles category formulas, w.disk.writable file.1 = .ok ()) ∧
        t = { s with written := s.written ++ m.propertyFiles category formulas } := by
  simp only [writeProperties, Work.gives_bind, writeFile_gives, Model.propertyFiles, List.forall_mem_cons]
  constructor
  · rintro ⟨_, _, ⟨hxml, rfl⟩, htext, rfl⟩
    exact ⟨⟨hxml, htext, List.forall_mem_nil _⟩, by rw [List.append_assoc]; rfl⟩
  · rintro ⟨⟨hxml, htext, -⟩, rfl⟩
    exact ⟨(), _, ⟨hxml, rfl⟩, htext, by rw [List.append_assoc]; rfl⟩

theorem model_ofModel (m : Model) (twin : Option Model) : (Subject.ofModel m twin).model = m := by
  unfold Subject.ofModel
  split
  · rfl
  · split <;> rfl

theorem model_direct (m : Model) : (Subject.direct m).model = m := rfl

/-- The selection for the model is written, and then what the twin gets: the unfolded formulas and a selection of
    its own. -/
theorem runCategory_gives_iff {outcomes : List CategoryOutcome} :
    Work.Gives (w.runCategory m twin category) s outcomes t ↔
      ∃ selection u v,
        Work.Gives (w.select (.ofModel m twin) category (m.binder w.settings.generation)
          w.settings.generation.numFormulas.toNat) s selection u ∧
        Work.Gives (w.writeProperties m category selection.formulas) u () v ∧
        match twin with
        | none => outcomes = [.ofSelection m category selection 0] ∧ t = v
        | some x => ∃ rest u',
          (w.unfoldings m selection.formulas).length ≤ w.settings.generation.numFormulas.toNat ∧
          Work.Gives (w.select (.direct x) category (x.binder w.settings.generation)
            (w.settings.generation.numFormulas.toNat - (w.unfoldings m selection.formulas).length)) v rest u' ∧
          Work.Gives (w.writeProperties x category (w.unfoldings m selection.formulas ++ rest.formulas)) u' () t ∧
          outcomes = [.ofSelection m category selection 0,
            .ofSelection x category rest (w.unfoldings m selection.formulas).length] := by
  cases twin with
  | none =>
    simp only [runCategory, choose, model_ofModel, Work.gives_bind, Work.gives_adapt, Work.gives_pure]
    constructor
    · rintro ⟨selection, u, hselect, _, v, hwrite, rfl, rfl⟩
      exact ⟨selection, u, _, hselect, hwrite, rfl, rfl⟩
    · rintro ⟨selection, u, v, hselect, hwrite, rfl, rfl⟩
      exact ⟨selection, u, hselect, (), _, hwrite, rfl, rfl⟩
  | some x =>
    simp only [runCategory, choose, model_ofModel, model_direct, Work.gives_bind, Work.gives_adapt, Work.gives_pure,
      Work.gives_check, Fault.difference_eq_ok]
    constructor
    · rintro ⟨selection, u, hselect, _, v, hwrite, _, _, ⟨⟨hle, rfl⟩, rfl⟩, rest, u', hrest, _, _, hwrite', rfl, rfl⟩
      exact ⟨selection, u, _, hselect, hwrite, rest, u', hle, hrest, hwrite', rfl⟩
    · rintro ⟨selection, u, v, hselect, hwrite, rest, u', hle, hrest, hwrite', rfl⟩
      exact ⟨selection, u, hselect, (), v, hwrite, _, v, ⟨⟨hle, rfl⟩, rfl⟩, rest, u', hrest, (), t, hwrite', rfl, rfl⟩

/-! ### The course of a category -/

/-- The number of formulas that the twin gets from the model. -/
def unfoldedCount (w : Workshop σ) (m : Model) (course : Course) : Nat :=
  (w.unfoldings m course.selection.formulas).length

/-- What is counted for a category. -/
def courseOutcomes (w : Workshop σ) (m : Model) (twin : Option Model) (course : Course) : List CategoryOutcome :=
  .ofSelection m course.category course.selection 0 ::
    twin.toList.map fun x => .ofSelection x course.category course.twinSelection (w.unfoldedCount m course)

/-- The course is taken from the session `s` and leaves `t`: the selection for the model is written, and then what
    the twin gets, the unfolded formulas and as many of its own as are missing. -/
def Takes (w : Workshop σ) (m : Model) (twin : Option Model) (course : Course) (s t : Session σ) : Prop :=
  ∃ u v,
    Work.Gives (w.select (.ofModel m twin) course.category (m.binder w.settings.generation)
      w.settings.generation.numFormulas.toNat) s course.selection u ∧
    Work.Gives (w.writeProperties m course.category course.selection.formulas) u () v ∧
    match twin with
    | none => t = v
    | some x => ∃ u',
      w.unfoldedCount m course ≤ w.settings.generation.numFormulas.toNat ∧
      Work.Gives (w.select (.direct x) course.category (x.binder w.settings.generation)
        (w.settings.generation.numFormulas.toNat - w.unfoldedCount m course)) v course.twinSelection u' ∧
      Work.Gives (w.writeProperties x course.category
        (w.unfoldings m course.selection.formulas ++ course.twinSelection.formulas)) u' () t

theorem runCategory_gives_course {outcomes : List CategoryOutcome} :
    Work.Gives (w.runCategory m twin category) s outcomes t ↔
      ∃ course, course.category = category ∧ w.Takes m twin course s t ∧ outcomes = w.courseOutcomes m twin course := by
  rw [runCategory_gives_iff]
  cases twin with
  | none =>
    constructor
    · rintro ⟨selection, u, v, hselect, hwrite, houtcomes, ht⟩
      exact ⟨⟨category, selection, {}⟩, rfl, ⟨u, v, hselect, hwrite, ht⟩, houtcomes⟩
    · rintro ⟨course, rfl, ⟨u, v, hselect, hwrite, ht⟩, houtcomes⟩
      exact ⟨course.selection, u, v, hselect, hwrite, houtcomes, ht⟩
  | some x =>
    constructor
    · rintro ⟨selection, u, v, hselect, hwrite, rest, u', hle, hrest, hwrite', houtcomes⟩
      exact ⟨⟨category, selection, rest⟩, rfl, ⟨u, v, hselect, hwrite, u', hle, hrest, hwrite'⟩, houtcomes⟩
    · rintro ⟨course, rfl, ⟨u, v, hselect, hwrite, u', hle, hrest, hwrite'⟩, houtcomes⟩
      exact ⟨course.selection, u, v, hselect, hwrite, course.twinSelection, u', hle, hrest, hwrite', houtcomes⟩

/-! ### Which formulas there are -/

/-- The formula belongs to the language of the category over the identifiers of the model. -/
def Speaks (w : Workshop σ) (category : Category) (x : Model) (f : Formula) : Prop :=
  w.catalog.Language category.grammar (IsAtom x.identifiers category.atomKind) f

theorem candidate_speaks {f : Formula} {stream stream' : Keystream}
    (h : (w.candidate category (m.binder w.settings.generation)).Gives stream f stream') : w.Speaks category m f := by
  simp only [candidate, Generation.gives_bind] at h
  obtain ⟨g, _, hg, hf⟩ := h
  have hlanguage := Binder.bind_language (Catalog.generate_language hg) hf
  rwa [Model.known_binder] at hlanguage

theorem batch_speaks {size : Nat} {stream stream' : Keystream}
    (h : (w.batch category (m.binder w.settings.generation) size).Gives stream formulas stream') :
    ∀ f ∈ formulas, w.Speaks category m f := by
  intro f hf
  obtain ⟨_, _, hcandidate⟩ := (batch_gives h).2 f hf
  exact candidate_speaks hcandidate

section Select
variable (h : Work.Gives (w.select subject category (m.binder w.settings.generation) count) s selection t)
include h

theorem round_speaks {r : Round} (hr : r ∈ selection.rounds) : ∀ f ∈ r.batch, w.Speaks category m f := by
  obtain ⟨_, hplays, -⟩ := select_gives_iff.mp h
  obtain ⟨_, _, hplay⟩ := hplays.plays_of_mem hr
  obtain ⟨_, _, _, hbatch, -, -⟩ := hplay.consulted
  exact batch_speaks hbatch

/-- Every formula of a selection is one for the model, whether the oracle kept it or it fills up. -/
theorem selection_speaks : ∀ f ∈ selection.formulas, w.Speaks category m f := by
  intro f hf
  obtain ⟨u, hplays, -, -, hfills⟩ := select_gives_iff.mp h
  rcases List.mem_append.mp hf with hf | hf
  · obtain ⟨r, hr, hf⟩ := List.mem_flatMap.mp hf
    obtain ⟨_, _, hplay⟩ := hplays.plays_of_mem hr
    exact round_speaks h hr f (hplay.isFair.mem_batch hf)
  · by_cases hmissing : count - selection.accepted.length = 0
    · rw [((fills_of_eq_zero hmissing).mp hfills).1] at hf
      exact absurd hf List.not_mem_nil
    · obtain ⟨_, hfill, -⟩ := (fills_of_ne_zero hmissing).mp hfills
      exact batch_speaks hfill f hf

end Select

theorem PlaysAll.written {rs : List Round} (h : w.PlaysAll subject category binder rs s t) : t.written = s.written := by
  induction h with
  | none => rfl
  | round hplay _ ih =>
    obtain ⟨_, _, _, -, -, rfl⟩ := hplay.consulted
    exact ih

/-- A selection writes no file. -/
theorem select_written (h : Work.Gives (w.select subject category binder count) s selection t) :
    t.written = s.written := by
  obtain ⟨u, hplays, -, -, hfills⟩ := select_gives_iff.mp h
  rw [← hplays.written]
  by_cases hmissing : count - selection.accepted.length = 0
  · rw [((fills_of_eq_zero hmissing).mp hfills).2]
  · obtain ⟨_, -, rfl⟩ := (fills_of_ne_zero hmissing).mp hfills
    rfl

/-- The formulas that the twin gets from the model are formulas for the twin. -/
theorem unfoldings_speak (hm : m.Prepared (some x)) (hformulas : ∀ f ∈ formulas, w.Speaks category m f) :
    ∀ f ∈ w.unfoldings m formulas, w.Speaks category x f := by
  intro f hf
  unfold unfoldings at hf
  split at hf
  case h_1 k hk =>
    obtain ⟨g, hg, rfl⟩ := List.mem_map.mp hf
    exact Formula.unfold_language (hm.covers hk) (hformulas g (List.mem_of_mem_take hg))
  case h_2 => exact absurd hf List.not_mem_nil

/-! ### What the oracle is asked -/

/-- The request is about the model, and so are all of its formulas. -/
structure Asks (w : Workshop σ) (category : Category) (x : Model) (request : Request) : Prop where
  modelFile : request.modelFile = x.file
  key : request.properties.model = x.key
  ofCategory : request.properties.category = category
  formulas : ∀ f ∈ request.properties.formulas, w.Speaks category x f

theorem asks_direct {batch : List Formula} {target : Nat} (hbatch : ∀ f ∈ batch, w.Speaks category x f) :
    ∀ request ∈ (Subject.direct x).requests category batch target, w.Asks category x request := by
  intro request hrequest
  rw [List.mem_singleton.mp hrequest]
  exact ⟨rfl, rfl, rfl, hbatch⟩

theorem asks_ofModel {batch : List Formula} {target : Nat} (hm : m.Prepared twin)
    (hbatch : ∀ f ∈ batch, w.Speaks category m f) :
    ∀ request ∈ (Subject.ofModel m twin).requests category batch target,
      ∃ x, (x = m ∨ twin = some x) ∧ w.Asks category x request := by
  unfold Subject.ofModel
  split
  case isTrue => exact fun request hrequest => ⟨m, .inl rfl, asks_direct hbatch request hrequest⟩
  case isFalse =>
    split
    case h_1 => exact nofun
    case h_2 => exact nofun
    case h_3 x k hk =>
      intro request hrequest
      rw [List.mem_singleton.mp hrequest]
      refine ⟨x, .inr rfl, rfl, rfl, rfl, fun f hf => ?_⟩
      obtain ⟨g, hg, rfl⟩ := List.mem_map.mp hf
      exact Formula.unfold_language (hm.covers hk) (hbatch g hg)

theorem asks_of_requests {asked : Request → Prop}
    (h : ∀ r ∈ selection.rounds, ∀ request ∈ subject.requests category r.batch r.target, asked request) :
    ∀ request ∈ selection.requests subject category, asked request := by
  intro request hrequest
  obtain ⟨r, hr, hrequest⟩ := List.mem_flatMap.mp hrequest
  exact h r hr request hrequest

/-! ### The files of a category -/

/-- The files of a category: those of the model, and those of its twin. -/
def courseFiles (w : Workshop σ) (m : Model) (twin : Option Model) (course : Course) : List (String × String) :=
  m.propertyFiles course.category course.selection.formulas ++ twin.toList.flatMap (·.propertyFiles course.category
    (w.unfoldings m course.selection.formulas ++ course.twinSelection.formulas))

theorem Takes.written (h : w.Takes m twin course s t) : t.written = s.written ++ w.courseFiles m twin course := by
  obtain ⟨u, v, hselect, hwrite, hrest⟩ := h
  obtain ⟨-, rfl⟩ := writeProperties_gives.mp hwrite
  cases twin with
  | none =>
    obtain rfl := hrest
    rw [courseFiles, Option.toList_none, List.flatMap_nil, List.append_nil, ← select_written hselect]
  | some x =>
    obtain ⟨u', -, hselect', hwrite'⟩ := hrest
    obtain ⟨-, rfl⟩ := writeProperties_gives.mp hwrite'
    have hwritten : u'.written = u.written ++ m.propertyFiles course.category course.selection.formulas :=
      select_written hselect'
    show u'.written ++ _ = _
    rw [hwritten, select_written hselect, courseFiles, Option.toList_some, List.flatMap_singleton, List.append_assoc]

/-- The formulas in the files of the model and of its twin are formulas for the one and for the other. -/
theorem Takes.speaks (hm : m.Prepared twin) (h : w.Takes m twin course s t) :
    (∀ f ∈ course.selection.formulas, w.Speaks course.category m f) ∧
      ∀ x ∈ twin, ∀ f ∈ w.unfoldings m course.selection.formulas ++ course.twinSelection.formulas,
        w.Speaks course.category x f := by
  obtain ⟨u, v, hselect, -, hrest⟩ := h
  have hspeaks := selection_speaks hselect
  refine ⟨hspeaks, ?_⟩
  rintro x ⟨rfl⟩ f hf
  obtain ⟨u', -, hselect', -⟩ := hrest
  rcases List.mem_append.mp hf with hf | hf
  · exact unfoldings_speak hm hspeaks f hf
  · exact selection_speaks hselect' f hf

/-- The questions of a category: those about the model, and those about its twin. -/
def courseRequests (m : Model) (twin : Option Model) (course : Course) : List Request :=
  course.selection.requests (.ofModel m twin) course.category ++
    twin.toList.flatMap fun x => course.twinSelection.requests (.direct x) course.category

/-- Every question is about the model or its twin, with formulas for that model. -/
theorem Takes.asks (hm : m.Prepared twin) (h : w.Takes m twin course s t) :
    ∀ request ∈ courseRequests m twin course, ∃ x, (x = m ∨ twin = some x) ∧ w.Asks course.category x request := by
  obtain ⟨u, v, hselect, -, hrest⟩ := h
  intro request hrequest
  rcases List.mem_append.mp hrequest with hrequest | hrequest
  · exact asks_of_requests (fun r hr => asks_ofModel hm (round_speaks hselect hr)) request hrequest
  · obtain ⟨x, hx, hasked⟩ := List.mem_flatMap.mp hrequest
    obtain rfl := Option.mem_toList.mp hx
    obtain ⟨u', -, hselect', -⟩ := hrest
    exact ⟨x, .inr rfl, asks_of_requests (fun r hr => asks_direct (round_speaks hselect' hr)) request hasked⟩

theorem writeProperties_recorded (log : List Request)
    (h : Work.Gives (w.writeProperties m category formulas) s () t) :
    Work.Gives (w.recorded.writeProperties m category formulas) (s.recording log) () (t.recording log) := by
  obtain ⟨hwritable, rfl⟩ := writeProperties_gives.mp h
  exact writeProperties_gives.mpr ⟨hwritable, rfl⟩

theorem Takes.recorded (log : List Request) (h : w.Takes m twin course s t) :
    w.recorded.Takes m twin course (s.recording log) (t.recording (log ++ courseRequests m twin course)) := by
  obtain ⟨u, v, hselect, hwrite, hrest⟩ := h
  refine ⟨_, _, select_recorded log hselect, writeProperties_recorded _ hwrite, ?_⟩
  cases twin with
  | none =>
    obtain rfl := hrest
    rw [courseRequests, Option.toList_none, List.flatMap_nil, List.append_nil]
  | some x =>
    obtain ⟨u', hle, hselect', hwrite'⟩ := hrest
    refine ⟨_, hle, select_recorded _ hselect', ?_⟩
    rw [courseRequests, Option.toList_some, List.flatMap_singleton, ← List.append_assoc]
    exact writeProperties_recorded _ hwrite'

theorem runCategory_written {outcomes : List CategoryOutcome} (hm : m.Prepared twin)
    (h : Work.Gives (w.runCategory m twin category) s outcomes t) :
    ∃ formulas twinFormulas : List Formula,
      t.written = s.written ++ m.propertyFiles category formulas ++
        twin.toList.flatMap (·.propertyFiles category twinFormulas) ∧
      (∀ f ∈ formulas, w.Speaks category m f) ∧ ∀ x ∈ twin, ∀ f ∈ twinFormulas, w.Speaks category x f := by
  obtain ⟨course, rfl, htakes, rfl⟩ := runCategory_gives_course.mp h
  obtain ⟨hformulas, htwin⟩ := htakes.speaks hm
  have hwritten := htakes.written
  rw [courseFiles, ← List.append_assoc] at hwritten
  exact ⟨_, _, hwritten, hformulas, htwin⟩

theorem runCategory_recorded {outcomes : List CategoryOutcome} (hm : m.Prepared twin)
    (h : Work.Gives (w.runCategory m twin category) s outcomes t) :
    ∃ requests : List Request,
      Work.Gives (w.recorded.runCategory m twin category) (s.recording []) outcomes (t.recording requests) ∧
      ∀ request ∈ requests, ∃ x, (x = m ∨ twin = some x) ∧ w.Asks category x request := by
  obtain ⟨course, rfl, htakes, rfl⟩ := runCategory_gives_course.mp h
  exact ⟨_, runCategory_gives_course.mpr ⟨course, rfl, htakes.recorded [], rfl⟩, htakes.asks hm⟩

/-- Where the files of a category are made for a model and its twin, all formulas in the files and in the
    questions to the oracle belong to the language of the category, over the identifiers of the model that they
    are written or checked for. -/
theorem runCategory_speaks {outcomes : List CategoryOutcome} (hm : m.Prepared twin)
    (h : Work.Gives (w.runCategory m twin category) s outcomes t) :
    (∃ formulas twinFormulas : List Formula,
      t.written = s.written ++ m.propertyFiles category formulas ++
        twin.toList.flatMap (·.propertyFiles category twinFormulas) ∧
      (∀ f ∈ formulas, w.Speaks category m f) ∧ ∀ x ∈ twin, ∀ f ∈ twinFormulas, w.Speaks category x f) ∧
    ∃ requests : List Request,
      Work.Gives (w.recorded.runCategory m twin category) (s.recording []) outcomes (t.recording requests) ∧
      ∀ request ∈ requests, ∃ x, (x = m ∨ twin = some x) ∧ w.Asks category x request :=
  ⟨runCategory_written hm h, runCategory_recorded hm h⟩

/-! ### A colored net and its twin -/

/-- A colored net with a place and a transition. -/
def coloredNet : Model := { key := ⟨"M", .colored, "1"⟩, directory := "", places := ["p"], transitions := ["t"] }

/-- A net that the colored one unfolds into. -/
def unfoldedNet : Model :=
  { key := ⟨"M", .placeTransition, "1"⟩, directory := "", places := ["p1", "p2"], transitions := ["t1", "t2"] }

/-- The colored net with its correspondence. -/
def relatedNet : Model :=
  { coloredNet with
    correspondence := some (.ok ⟨⟨[("p", ["p1", "p2"])], [], []⟩, ⟨[("t", ["t1", "t2"])], [], []⟩⟩) }

theorem relatedNet_prepared : relatedNet.Prepared (some unfoldedNet) := by
  have hrelated : (coloredNet.ensureCorrespondence unfoldedNet).1 = relatedNet := by cbv
  rintro _ ⟨rfl⟩
  exact .inr ⟨coloredNet, rfl, hrelated.symm⟩

/-- A workshop that makes one formula for each category and keeps all candidates. -/
def lenient : Workshop Unit where
  settings := { generation := { formulaDepth := 1, numFormulas := 1 }, filter := { maxRounds := 1, setSize := 1 } }
  catalog := .ofBound 2
  oracle := Oracle.keepAll
  disk := { root := .directory [], here := [] }

/-- A file with a plain name can be written in an empty working directory. -/
theorem lenient_writable {name : String} (hnul : name.contains '\x00' = false) (hne : name ≠ "")
    (hsize : name.utf8ByteSize ≤ Path.nameLimit) (hrelative : name.startsWith "/" = false)
    (hnames : Path.names name = [name]) (hdots : name ≠ "." ∧ name ≠ "..") :
    lenient.disk.writable name = .ok () := by
  have hlimit : ¬name.utf8ByteSize ≥ Path.sizeLimit := by
    rw [Path.nameLimit] at hsize
    rw [Path.sizeLimit]
    omega
  have hmove : Disk.move lenient.disk.root lenient.disk.here name = .ok [name] := by
    simp [Disk.move, lenient, Entry.get?, hne, hdots, Nat.not_lt.mpr hsize]
  have hlocate : lenient.disk.locate name = .ok ([name], none) := by
    rw [Disk.locate, hnul, if_neg Bool.false_ne_true, if_neg hne, if_neg hlimit, Disk.start, hrelative,
      if_neg Bool.false_ne_true, hnames, Disk.follow, List.foldlM_cons, hmove]
    rfl
  rw [Disk.writable, Disk.write, hlocate]
  rfl

theorem lenient_writes (m : Model) (hm : m.directory = "") (formulas : List Formula) (s : Session Unit) :
    ∃ t, Work.Gives (lenient.writeProperties m .reachabilityFireability formulas) s () t := by
  have hxml : Path.join "" Category.reachabilityFireability.xmlFileName = "ReachabilityFireability.xml" := by
    decide +kernel
  have htext : Path.join "" Category.reachabilityFireability.textFileName = "ReachabilityFireability.txt" := by
    decide +kernel
  have hxmlFile : lenient.disk.writable "ReachabilityFireability.xml" = .ok () :=
    lenient_writable (by simp) (by decide) (by decide +kernel)
      (by simp [Bool.eq_false_iff, String.startsWith_string_iff]) (by decide +kernel) (by decide)
  have htextFile : lenient.disk.writable "ReachabilityFireability.txt" = .ok () :=
    lenient_writable (by simp) (by decide) (by decide +kernel)
      (by simp [Bool.eq_false_iff, String.startsWith_string_iff]) (by decide +kernel) (by decide)
  refine ⟨_, writeProperties_gives.mpr ⟨?_, rfl⟩⟩
  rw [Model.propertyFiles, hm, hxml, htext]
  exact List.forall_mem_cons.mpr ⟨hxmlFile, List.forall_mem_singleton.mpr htextFile⟩

/-- The formula of the colored net is unfolded for its twin. -/
theorem lenient_runCategory_speaks :
    ∃ outcomes t, relatedNet.Prepared (some unfoldedNet) ∧
      Work.Gives (lenient.runCategory relatedNet (some unfoldedNet) .reachabilityFireability)
        { stream := .ofSeed 1, oracle := () } outcomes t ∧
      ∃ formulas twinFormulas : List Formula,
        t.written = relatedNet.propertyFiles .reachabilityFireability formulas ++
          unfoldedNet.propertyFiles .reachabilityFireability twinFormulas ∧
        (∀ f ∈ formulas, lenient.Speaks .reachabilityFireability relatedNet f) ∧
        ∀ f ∈ twinFormulas, lenient.Speaks .reachabilityFireability unfoldedNet f := by
  obtain ⟨selection, u, hselect⟩ := Work.exists_gives (x := lenient.select (.ofModel relatedNet (some unfoldedNet))
    .reachabilityFireability (relatedNet.binder lenient.settings.generation) 1)
    (s := { stream := .ofSeed 1, oracle := () }) (by decide +kernel)
  obtain ⟨v, hwrite⟩ := lenient_writes relatedNet rfl selection.formulas u
  have hlength : (lenient.unfoldings relatedNet selection.formulas).length = 1 := by
    have hone : selection.formulas.length = 1 := by
      rw [Selection.formulas, List.length_append, select_length hselect]
    obtain ⟨f, hf⟩ := List.length_eq_one_iff.mp hone
    rw [hf]
    rfl
  obtain ⟨t, hwrite'⟩ := lenient_writes unfoldedNet rfl
    (lenient.unfoldings relatedNet selection.formulas ++ ({} : Selection).formulas) v
  have hrun := runCategory_gives_iff.mpr ⟨selection, u, v, hselect, hwrite, {}, v, Nat.le_of_eq hlength,
    by rw [hlength]; exact select_gives_none .., hwrite', rfl⟩
  obtain ⟨⟨formulas, twinFormulas, hwritten, hformulas, htwin⟩, -⟩ := runCategory_speaks relatedNet_prepared hrun
  exact ⟨_, t, relatedNet_prepared, hrun, formulas, twinFormulas, by simpa using hwritten, hformulas, htwin _ rfl⟩

end Workshop
end Formulary
