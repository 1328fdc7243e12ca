import Formulary.Proofs.Formula.Failure
import Formulary.Proofs.Run.Selection

/-! Selections where nothing is filtered. Every round takes its whole batch, and the fill goes on where the rounds
    stop, so the formulas of a selection are those that a single batch has. The last round makes a whole batch also
    where less is missing. The candidates beyond are drawn after all others and nobody gets them, but a fault in one
    of them is a fault of the selection. -/

namespace Formulary
namespace Work
variable {σ α β γ δ ε : Type} {s t : Session σ} {a : α} {b : β} {g : Generation β} {failure : Fault ⊕ ε}

/-! ### Parts that make the choices of a computation -/

/-- From every session the part makes the random choices of `g`. It comes to something that fits what `g` comes to,
    or it fails as `g` does. -/
structure Follows (x : ExceptT GenerationError (Work σ) α) (g : Generation β) (fits : α → β → Prop) : Prop where
  gives : ∀ {s : Session σ} {b : β} {stream : Keystream}, g.Gives s.stream b stream →
    ∃ a t, Gives x s a t ∧ t.stream = stream ∧ fits a b
  fails : ∀ {s : Session σ} {failure : Fault ⊕ GenerationError}, g.outcome s.stream = .error failure →
    outcome x s = .error failure

section Follows
variable {x : ExceptT GenerationError (Work σ) α} {f : α → ExceptT GenerationError (Work σ) γ} {h : β → Generation δ}
  {fits : α → β → Prop} {fits' : γ → δ → Prop}

theorem Follows.pure (hfits : fits a b) : Follows (pure a : ExceptT GenerationError (Work σ) α) (pure b) fits where
  gives := by
    intro s b' stream hb
    obtain ⟨rfl, rfl⟩ := Generation.gives_pure.mp hb
    exact ⟨a, s, gives_pure.mpr ⟨rfl, rfl⟩, rfl, hfits⟩
  fails := nofun

theorem Follows.bind (hx : Follows x g fits) (hf : ∀ a b, fits a b → Follows (f a) (h b) fits') :
    Follows (x >>= f) (g >>= h) fits' where
  gives := by
    intro s d stream hd
    obtain ⟨b, _, hb, hd⟩ := Generation.gives_bind.mp hd
    obtain ⟨a, t, ha, rfl, hfits⟩ := hx.gives hb
    obtain ⟨c, u, hc, hu, hfits'⟩ := (hf a b hfits).gives hd
    exact ⟨c, u, gives_bind.mpr ⟨a, t, ha, hc⟩, hu, hfits'⟩
  fails := by
    intro s failure hfailure
    rcases Generation.outcome_bind_eq_error.mp hfailure with hfirst | ⟨b, _, hb, hrest⟩
    · exact outcome_bind_of_error (hx.fails hfirst)
    · obtain ⟨a, t, ha, rfl, hfits⟩ := hx.gives hb
      rw [outcome_bind_of_gives ha]
      exact (hf a b hfits).fails hrest

theorem follows_generate (g : Generation α) : Follows (generate g : ExceptT GenerationError (Work σ) α) g Eq where
  gives := by
    intro s a stream ha
    exact ⟨a, { s with stream }, gives_generate.mpr ⟨stream, ha, rfl⟩, rfl, rfl⟩
  fails := outcome_generate.trans

theorem Follows.and {P : β → Prop} (hx : Follows x g fits) (hP : ∀ {s b t}, g.Gives s b t → P b) :
    Follows x g fun a b => fits a b ∧ P b where
  gives := by
    intro s b stream hb
    obtain ⟨a, t, ha, ht, hfits⟩ := hx.gives hb
    exact ⟨a, t, ha, ht, hfits, hP hb⟩
  fails := hx.fails

/-- What the part comes to fits what the computation does. -/
theorem Follows.of_gives (hx : Follows x g fits) (ha : Gives x s a t) :
    ∃ b, g.Gives s.stream b t.stream ∧ fits a b := by
  cases houtcome : g.outcome s.stream with
  | error failure =>
    have hok := outcome_eq_ok.mpr ⟨t, ha⟩
    rw [hx.fails houtcome] at hok
    cases hok
  | ok b =>
    obtain ⟨stream, hb⟩ := Generation.outcome_eq_ok.mp houtcome
    obtain ⟨a', t', ha', rfl, hfits⟩ := hx.gives hb
    have hsame := ha.symm.trans ha'
    cases hsame
    exact ⟨b, hb, hfits⟩

end Follows

/-! ### Parts that make no choices -/

/-- From every session the part comes to something with `P`, and it leaves the keystream as it is. -/
def Steady (x : ExceptT ε (Work σ) α) (P : α → Prop) : Prop :=
  ∀ s, ∃ a t, Gives x s a t ∧ t.stream = s.stream ∧ P a

section Steady
variable {P : α → Prop}

/-- What comes before the choices does not matter for them. -/
theorem Steady.bind {x : ExceptT GenerationError (Work σ) α} {f : α → ExceptT GenerationError (Work σ) γ}
    {fits : γ → β → Prop} (hx : Steady x P) (hf : ∀ a, P a → Follows (f a) g fits) : Follows (x >>= f) g fits where
  gives := by
    intro s b stream hb
    obtain ⟨a, t, ha, ht, hP⟩ := hx s
    rw [← ht] at hb
    obtain ⟨c, u, hc, hu, hfits⟩ := (hf a hP).gives hb
    exact ⟨c, u, gives_bind.mpr ⟨a, t, ha, hc⟩, hu, hfits⟩
  fails := by
    intro s failure hfailure
    obtain ⟨a, t, ha, ht, hP⟩ := hx s
    rw [← ht] at hfailure
    rw [outcome_bind_of_gives ha]
    exact (hf a hP).fails hfailure

theorem steady_check {x : Except Fault α} (h : x = .ok a) : Steady (liftM x : ExceptT ε (Work σ) α) (· = a) :=
  fun s => ⟨a, s, gives_check.mpr ⟨h, rfl⟩, rfl, rfl⟩

theorem steady_report (notices : List Notice) :
    Steady (liftM (report notices : Work σ Unit) : ExceptT ε (Work σ) Unit) fun _ => True :=
  fun _ => ⟨(), _, gives_lift.mpr (does_report.mpr rfl), rfl, trivial⟩

theorem steady_consult {question : StateM σ (List Notice × α)} (h : ∀ o, P (question.run o).1.2) :
    Steady (liftM (consult question) : ExceptT ε (Work σ) α) P :=
  fun s => ⟨_, _, gives_lift.mpr (does_consult.mpr ⟨_, _, rfl, rfl⟩), rfl, h s.oracle⟩

end Steady

end Work

/-! ### Keeping everything -/

/-- The oracle keeps every formula that it is asked about. -/
def Oracle.KeepsAll {σ : Type} (oracle : Oracle σ) : Prop :=
  ∀ request o, ((oracle request).run o).1.verdict = .ok (List.range request.properties.formulas.length)

theorem Oracle.keepAll_keepsAll : Oracle.KeepsAll Oracle.keepAll := fun _ _ => rfl

namespace Subject
variable {σ : Type} {oracle : Oracle σ} {subject : Subject}

theorem length_formulas_of_request? {category : Category} {batch : List Formula} {target : Nat} {request : Request}
    (h : subject.request? category batch target = some request) :
    request.properties.formulas.length = batch.length := by
  cases subject with
  | direct =>
    cases h
    rfl
  | unfolded =>
    cases h
    exact List.length_map _
  | withoutTwin => cases h
  | withoutCorrespondence => cases h

theorem kept_of_range {size : Nat} {reply : Reply} (h : reply.verdict = .ok (List.range size)) :
    (subject.kept size reply).2 = List.range size := by
  unfold kept
  rw [h]
  exact List.filter_eq_self.mpr fun i hi => List.contains_iff_mem.mpr hi

/-- All of the batch is kept. -/
theorem filter_of_keepsAll (h : oracle.KeepsAll ∨ subject.obstacle?.isSome = true) (category : Category)
    (batch : List Formula) (target : Nat) (o : σ) :
    ((subject.filter oracle category batch target).run o).1.2 = List.range batch.length := by
  unfold filter
  cases hrequest : subject.request? category batch target with
  | none => rfl
  | some request =>
    have hkeeps : oracle.KeepsAll := by
      refine h.resolve_right fun hobstacle => ?_
      cases subject <;> cases hrequest <;> cases hobstacle
    have hverdict := hkeeps request o
    rw [length_formulas_of_request? hrequest] at hverdict
    exact kept_of_range hverdict

end Subject

theorem Fault.mapM_entry_range {α : Type} (l : List α) (n : Nat) :
    ((List.range l.length).take n).mapM (Fault.entry l) = .ok (l.take n) := by
  rw [Fault.mapM_entry_eq_ok, List.map_take, List.map_take]
  congr 1
  refine List.ext_getElem (by simp) fun i hi _ => ?_
  rw [List.length_map] at hi
  rw [List.getElem_map, List.getElem_map, List.getElem_range, List.getElem?_eq_getElem hi]

/-! ### Batches -/

namespace Workshop
variable {σ : Type} {w : Workshop σ} {subject : Subject} {category : Category} {binder : Binder} {count : Nat}
  {s : Session σ}

theorem batch_add (w : Workshop σ) (category : Category) (binder : Binder) (a b : Nat) :
    w.batch category binder (a + b) = do
      let fs ← w.batch category binder a
      return fs ++ (← w.batch category binder b) := by
  induction a with
  | zero => simp [batch]
  | succ a ih => simp [Nat.succ_add, batch, ih]

theorem ceilDiv_succ {missing size : Nat} (hsize : 0 < size) (hmissing : 0 < missing) :
    missing ⌈/⌉ size = (missing - size) ⌈/⌉ size + 1 := by
  rw [Nat.ceilDiv_eq_add_pred_div, Nat.ceilDiv_eq_add_pred_div, ← Nat.add_div_right _ hsize]
  rcases Nat.le_total size missing with hle | hle
  · congr 1
    omega
  · rw [Nat.sub_eq_zero_of_le hle, Nat.div_eq_of_lt_le (k := 1) (by omega) (by omega),
      Nat.div_eq_of_lt_le (k := 1) (by omega) (by omega)]

/-- Where everything is kept, rounds go on until nothing is missing or none is left, and they take the first
    candidates. -/
theorem rounds_follow (hkeeps : w.oracle.KeepsAll ∨ subject.obstacle?.isSome = true)
    (hsize : 0 < w.settings.filter.setSize.toNat) {left got : Nat} (hgot : got ≤ count) :
    Work.Follows (w.rounds subject category binder count left got)
      (w.batch category binder
        (min left ((count - got) ⌈/⌉ w.settings.filter.setSize.toNat) * w.settings.filter.setSize.toNat))
      fun rs fs => rs.length = min left ((count - got) ⌈/⌉ w.settings.filter.setSize.toNat) ∧
        rs.flatMap (·.taken) = fs.take (count - got) := by
  -- by induction on the rounds that are left, along the loop; a round makes the first candidates of the batch, and the
  -- rounds after it the others
  induction left generalizing got with
  | zero =>
    rw [rounds, Nat.zero_min, Nat.zero_mul, batch]
    exact .pure ⟨rfl, List.take_nil.symm⟩
  | succ left ih =>
    rw [rounds]
    refine (Work.steady_check (Fault.difference_eq_ok.mpr ⟨hgot, rfl⟩)).bind ?_
    rintro _ rfl
    by_cases hnone : count - got = 0
    · rw [if_pos hnone, hnone, zero_ceilDiv, Nat.min_zero, Nat.zero_mul, batch]
      exact .pure ⟨rfl, rfl⟩
    · rw [if_neg hnone, ceilDiv_succ hsize (Nat.pos_of_ne_zero hnone), Nat.add_min_add_right, Nat.succ_mul,
        Nat.add_comm, batch_add]
      refine ((Work.follows_generate _).and fun h => (batch_gives h).1).bind ?_
      rintro batch _ ⟨rfl, hlength⟩
      refine (Work.steady_consult (P := (· = List.range batch.length))
        (Subject.filter_of_keepsAll hkeeps category batch _)).bind ?_
      rintro _ rfl
      refine (Work.steady_check (Fault.mapM_entry_range batch _)).bind ?_
      rintro _ rfl
      have hmissing : count - (got + (batch.take (count - got)).length) =
          count - got - w.settings.filter.setSize.toNat := by
        rw [List.length_take, hlength]
        omega
      have hgot' : got + (batch.take (count - got)).length ≤ count := by
        rw [List.length_take]
        omega
      have hrest := ih hgot'
      rw [hmissing] at hrest
      refine hrest.bind ?_
      rintro rs fs ⟨hrs, hfs⟩
      refine .pure ⟨by rw [List.length_cons, hrs], ?_⟩
      rw [List.flatMap_cons, hfs, List.take_append, hlength]

/-- The number of rounds for `count` formulas where everything is kept. -/
def roundCount (w : Workshop σ) (count : Nat) : Nat :=
  if count = 0 ∨ w.settings.filter.setSize = 0 then 0
  else min w.settings.filter.maxRounds.toNat (count ⌈/⌉ w.settings.filter.setSize.toNat)

theorem roundCount_eq (hsize : w.settings.filter.setSize ≠ 0) (count : Nat) :
    w.roundCount count = min w.settings.filter.maxRounds.toNat (count ⌈/⌉ w.settings.filter.setSize.toNat) := by
  by_cases hcount : count = 0
  · rw [roundCount, if_pos (.inl hcount), hcount, zero_ceilDiv, Nat.min_zero]
  · rw [roundCount, if_neg (by simp [hcount, hsize])]

/-- The number of candidates that the last round makes beyond those that are missing. -/
def surplus (w : Workshop σ) (count : Nat) : Nat := w.roundCount count * w.settings.filter.setSize.toNat - count

theorem rounds_follow_roundCount (hkeeps : w.oracle.KeepsAll ∨ subject.obstacle?.isSome = true)
    (category : Category) (binder : Binder) (count : Nat) :
    Work.Follows (w.rounds subject category binder count w.roundLimit 0)
      (w.batch category binder (w.roundCount count * w.settings.filter.setSize.toNat))
      fun rs fs => rs.length = w.roundCount count ∧ rs.flatMap (·.taken) = fs.take count := by
  by_cases hsize : w.settings.filter.setSize = 0
  · rw [roundLimit, if_pos hsize, roundCount, if_pos (.inr hsize), Nat.zero_mul, rounds, batch]
    exact .pure ⟨rfl, List.take_nil.symm⟩
  · have hpos : 0 < w.settings.filter.setSize.toNat := Nat.pos_of_ne_zero fun h => hsize (UInt64.toNat_inj.mp h)
    rw [roundLimit, if_neg hsize, roundCount_eq hsize]
    exact rounds_follow hkeeps hpos (Nat.zero_le count)

/-- Where everything is kept, the selection makes the candidates of a single batch: the formulas, and then the
    surplus. -/
theorem select_follows (hkeeps : w.oracle.KeepsAll ∨ subject.obstacle?.isSome = true) (category : Category)
    (binder : Binder) (count : Nat) :
    Work.Follows (w.select subject category binder count) (w.batch category binder (count + w.surplus count))
      fun selection fs => selection.rounds.length = w.roundCount count ∧
        selection.accepted.length = min count (w.roundCount count * w.settings.filter.setSize.toNat) ∧
        selection.formulas = fs.take count := by
  have hrounds := (rounds_follow_roundCount hkeeps category binder count).and
    fun h => (batch_gives h).1
  unfold select surplus
  by_cases hmissing : w.roundCount count * w.settings.filter.setSize.toNat < count
  · -- all candidates of the rounds are taken, and the fill goes on with the batch
    have hbatch : count + (w.roundCount count * w.settings.filter.setSize.toNat - count) =
        w.roundCount count * w.settings.filter.setSize.toNat +
          (count - w.roundCount count * w.settings.filter.setSize.toNat) := by omega
    rw [hbatch, batch_add]
    refine hrounds.bind ?_
    rintro rs fs ⟨⟨hcount, htaken⟩, hlength⟩
    rw [List.take_of_length_le (by omega)] at htaken
    have haccepted : ∀ fill, (⟨rs, fill⟩ : Selection).accepted = fs := fun _ => htaken
    dsimp only
    rw [haccepted, hlength]
    refine (Work.steady_check (Fault.difference_eq_ok.mpr ⟨by omega, rfl⟩)).bind ?_
    rintro _ rfl
    rw [if_neg (by omega)]
    refine (Work.steady_report _).bind fun _ _ => ?_
    refine ((Work.follows_generate _).and fun h => (batch_gives h).1).bind ?_
    rintro fill _ ⟨rfl, hfill⟩
    refine .pure ⟨hcount, ?_, ?_⟩
    · rw [haccepted, hlength, Nat.min_eq_right (Nat.le_of_lt hmissing)]
    · rw [Selection.formulas, haccepted, List.take_of_length_le (by rw [List.length_append]; omega)]
  · -- the rounds make the whole batch, with the surplus, and there is no fill
    have hbatch : count + (w.roundCount count * w.settings.filter.setSize.toNat - count) =
        w.roundCount count * w.settings.filter.setSize.toNat := by omega
    rw [hbatch, ← bind_pure (w.batch category binder _)]
    refine hrounds.bind ?_
    rintro rs fs ⟨⟨hcount, htaken⟩, hlength⟩
    have haccepted : (⟨rs, []⟩ : Selection).accepted = fs.take count := htaken
    have htake : (fs.take count).length = count := by
      rw [List.length_take]
      omega
    dsimp only
    rw [haccepted, htake]
    refine (Work.steady_check (Fault.difference_eq_ok.mpr ⟨Nat.le_refl count, rfl⟩)).bind ?_
    rintro _ rfl
    rw [if_pos (Nat.sub_self count)]
    refine .pure ⟨hcount, ?_, ?_⟩
    · rw [haccepted, htake, Nat.min_eq_left (Nat.le_of_not_lt hmissing)]
    · rw [Selection.formulas, haccepted, List.append_nil]

/-! ### The surplus -/

/-- If a candidate can be made, no candidate of the category has an error. -/
theorem candidate_outcome_ne {f : Formula} {stream stream' : Keystream}
    (h : (w.candidate category binder).Gives stream f stream') (stream'' : Keystream) (e : GenerationError) :
    (w.candidate category binder).outcome stream'' ≠ .error (.inr e) := by
  intro herror
  obtain ⟨g, _, hg, hf⟩ := Generation.gives_bind.mp h
  rcases Generation.outcome_bind_eq_error.mp herror with hgenerate | ⟨_, _, -, hbind⟩
  · cases Catalog.generate_outcome_error hgenerate with
    | shallow hdepth => exact Catalog.generate_gives_depth hg hdepth
  · cases Binder.bind_outcome_error hbind with
    | identifiers hpool => exact Binder.bind_gives_pool (Catalog.generate_language hg) hf hpool

theorem batch_outcome_error {size : Nat} {stream : Keystream} {failure : Fault ⊕ GenerationError}
    (h : (w.batch category binder size).outcome stream = .error failure) :
    ∃ stream, (w.candidate category binder).outcome stream = .error failure := by
  induction size generalizing stream with
  | zero => cases h
  | succ size ih =>
    simp only [batch, Generation.outcome_bind_eq_error, Generation.outcome_pure, reduceCtorEq, and_false, exists_false,
      or_false] at h
    rcases h with h | ⟨_, _, -, h⟩
    · exact ⟨stream, h⟩
    · exact ih h

/-- After the formulas that are wanted, one of the surplus meets the fault. -/
def SurplusFault (w : Workshop σ) (category : Category) (binder : Binder) (count : Nat) (stream : Keystream)
    (fault : Fault) : Prop :=
  ∃ fs stream', (w.batch category binder count).Gives stream fs stream' ∧
    (w.batch category binder (w.surplus count)).outcome stream' = .error (.inl fault)

/-- There is a surplus only after formulas that could be made. -/
theorem surplus_outcome_ne {fs : List Formula} {stream stream' : Keystream}
    (h : (w.batch category binder count).Gives stream fs stream') (e : GenerationError) :
    (w.batch category binder (w.surplus count)).outcome stream' ≠ .error (.inr e) := by
  intro herror
  obtain ⟨stream'', hcandidate⟩ := batch_outcome_error herror
  cases fs with
  | nil =>
    have hcount : count = 0 := (batch_gives h).1.symm
    rw [surplus, roundCount, if_pos (.inl hcount), Nat.zero_mul, Nat.zero_sub, batch] at herror
    cases herror
  | cons f fs =>
    obtain ⟨_, _, hf⟩ := (batch_gives h).2 f List.mem_cons_self
    exact candidate_outcome_ne hf stream'' e hcandidate

theorem SurplusFault.outcome_batch {stream : Keystream} {fault : Fault}
    (h : w.SurplusFault category binder count stream fault) :
    (w.batch category binder (count + w.surplus count)).outcome stream = .error (.inl fault) := by
  obtain ⟨fs, stream', hfs, hrest⟩ := h
  rw [batch_add, Generation.outcome_bind_eq_error]
  exact .inr ⟨fs, stream', hfs, Generation.outcome_bind_eq_error.mpr (.inl hrest)⟩

/-- Where nothing is filtered, the formulas of a selection are those of a single batch, and what fails in the batch
    fails in the selection, whatever the size and the number of the rounds. Only a fault in the surplus comes between
    them. -/
theorem select_unfiltered (w : Workshop σ) (subject : Subject)
    (h : w.oracle.KeepsAll ∨ subject.obstacle?.isSome = true) (category : Category) (binder : Binder) (count : Nat)
    (s : Session σ) :
    ((∀ fault, ¬w.SurplusFault category binder count s.stream fault) →
      (Work.outcome (w.select subject category binder count) s).map Selection.formulas =
        (w.batch category binder count).outcome s.stream) ∧
    (∀ fault, w.SurplusFault category binder count s.stream fault →
      Work.outcome (w.select subject category binder count) s = .error (.inl fault)) ∧
    ∀ selection t, Work.Gives (w.select subject category binder count) s selection t →
      selection.rounds.length = w.roundCount count ∧
        selection.accepted.length = min count (w.roundCount count * w.settings.filter.setSize.toNat) := by
  have hfollows := select_follows h category binder count
  refine ⟨fun hnone => ?_, fun fault hfault => hfollows.fails hfault.outcome_batch, ?_⟩
  · cases hbatch : (w.batch category binder count).outcome s.stream with
    | error failure =>
      have hall : (w.batch category binder (count + w.surplus count)).outcome s.stream = .error failure := by
        rw [batch_add]
        exact Generation.outcome_bind_eq_error.mpr (.inl hbatch)
      rw [hfollows.fails hall]
      rfl
    | ok fs =>
      obtain ⟨stream, hfs⟩ := Generation.outcome_eq_ok.mp hbatch
      cases hsurplus : (w.batch category binder (w.surplus count)).outcome stream with
      | error failure =>
        cases failure with
        | inl fault => exact absurd ⟨fs, stream, hfs, hsurplus⟩ (hnone fault)
        | inr e => exact absurd hsurplus (surplus_outcome_ne hfs e)
      | ok rest =>
        obtain ⟨stream', hrest⟩ := Generation.outcome_eq_ok.mp hsurplus
        have hall : (w.batch category binder (count + w.surplus count)).Gives s.stream (fs ++ rest) stream' := by
          simp only [batch_add, Generation.gives_bind, Generation.gives_pure]
          exact ⟨fs, stream, hfs, rest, stream', hrest, rfl, rfl⟩
        obtain ⟨selection, t, hselect, -, -, -, hformulas⟩ := hfollows.gives hall
        rw [Work.outcome_eq_ok.mpr ⟨t, hselect⟩]
        show Except.ok selection.formulas = Except.ok fs
        rw [hformulas, List.take_left' (batch_gives hfs).1]
  · intro selection t hselect
    obtain ⟨fs, -, hrounds, haccepted, -⟩ := hfollows.of_gives hselect
    exact ⟨hrounds, haccepted⟩

/-- A workshop whose rounds have two candidates, both kept. -/
def generous (bound rounds : Nat) : Workshop Unit where
  settings := { generation := { formulaDepth := 2 }, filter := { maxRounds := UInt64.ofNat rounds, setSize := 2 } }
  catalog := .ofBound bound
  oracle := Oracle.keepAll
  disk := { root := .directory [], here := [] }

/-- Two rounds make four candidates, of which the selection has three. -/
theorem generous_select_unfiltered :
    Oracle.KeepsAll (generous 2 3).oracle ∧
    (Work.outcome ((generous 2 3).select (.direct { key := ⟨"M", .placeTransition, "1"⟩, directory := "M-PT-1" })
      .reachabilityFireability ⟨["p"], ["t", "u"], 1, 1, 0, 100⟩ 3) { stream := .ofSeed 1, oracle := () }).map
        Selection.formulas =
      ((generous 2 3).batch .reachabilityFireability ⟨["p"], ["t", "u"], 1, 1, 0, 100⟩ 3).outcome (.ofSeed 1) ∧
    ∃ selection t, Work.Gives ((generous 2 3).select
        (.direct { key := ⟨"M", .placeTransition, "1"⟩, directory := "M-PT-1" }) .reachabilityFireability
        ⟨["p"], ["t", "u"], 1, 1, 0, 100⟩ 3) { stream := .ofSeed 1, oracle := () } selection t ∧
      selection.rounds.length = 2 ∧ selection.accepted.length = 3 := by
  have hkeeps : Oracle.KeepsAll (generous 2 3).oracle := Oracle.keepAll_keepsAll
  obtain ⟨hequal, -, hcounts⟩ := select_unfiltered (generous 2 3)
    (.direct { key := ⟨"M", .placeTransition, "1"⟩, directory := "M-PT-1" }) (.inl hkeeps) .reachabilityFireability
    ⟨["p"], ["t", "u"], 1, 1, 0, 100⟩ 3 { stream := .ofSeed 1, oracle := () }
  refine ⟨hkeeps, hequal fun fault hfault => ?_, ?_⟩
  · have hmade : ((generous 2 3).batch .reachabilityFireability ⟨["p"], ["t", "u"], 1, 1, 0, 100⟩ 4).outcome
        (.ofSeed 1) |>.isOk := by decide +kernel
    have hfails := hfault.outcome_batch
    rw [show 3 + (generous 2 3).surplus 3 = 4 by decide] at hfails
    rw [hfails] at hmade
    exact absurd hmade Bool.false_ne_true
  · obtain ⟨selection, t, hselect⟩ := Work.exists_gives (x := (generous 2 3).select
      (.direct { key := ⟨"M", .placeTransition, "1"⟩, directory := "M-PT-1" }) .reachabilityFireability
      ⟨["p"], ["t", "u"], 1, 1, 0, 100⟩ 3) (s := { stream := .ofSeed 1, oracle := () }) (by decide +kernel)
    obtain ⟨hrounds, haccepted⟩ := hcounts selection t hselect
    exact ⟨selection, t, hselect, hrounds.trans (by decide), haccepted.trans (by decide)⟩

/-- One formula can be made, but the candidate after it has more operands than there is room for, and the round makes
    both. -/
theorem generous_surplus_fault :
    ((generous unboundedArity 1).batch .reachabilityFireability ⟨["p"], ["t"], 1, 1, 0, 100⟩ 1).outcome (.ofSeed 5) =
      .ok [Catalog.always (.isFireable ["t"])] ∧
    Work.outcome ((generous unboundedArity 1).select
        (.direct { key := ⟨"M", .placeTransition, "1"⟩, directory := "M-PT-1" }) .reachabilityFireability
        ⟨["p"], ["t"], 1, 1, 0, 100⟩ 1) { stream := .ofSeed 5, oracle := () } = .error (.inl .capacity) := by
  have hkeeps : Oracle.KeepsAll (generous unboundedArity 1).oracle := Oracle.keepAll_keepsAll
  have hbatch : ((generous unboundedArity 1).batch .reachabilityFireability ⟨["p"], ["t"], 1, 1, 0, 100⟩
      (1 + (generous unboundedArity 1).surplus 1)).outcome (.ofSeed 5) = .error (.inl .capacity) := by
    decide +kernel
  exact ⟨by decide +kernel, (select_follows (.inl hkeeps) _ _ _).fails hbatch⟩

end Workshop
end Formulary
