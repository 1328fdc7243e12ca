import Formulary.Proofs.Run.Session
import Formulary.Run.Selection

/-! What a selection is made of. A round takes the first of the candidates that the oracle keeps, as many as are
    missing. The rounds are played one after the other, each from the session that the last one left, and the
    fill comes after them. So a selection picks candidates in the order in which they were made, none of them
    twice, whatever the oracle answers. -/

namespace Formulary

theorem Fault.mapM_entry_eq_ok {α : Type} {l : List α} :
    ∀ {positions : List Nat} {as : List α},
      positions.mapM (Fault.entry l) = .ok as ↔ as.map some = positions.map (l[·]?)
  | [], as => by
    show Except.ok [] = Except.ok as ↔ as.map some = []
    rw [Except.ok.injEq, List.map_eq_nil_iff, eq_comm]
  | i :: positions, as => by
    have ih : ∀ as, positions.mapM (Fault.entry l) = .ok as ↔ as.map some = positions.map (l[·]?) :=
      fun _ => Fault.mapM_entry_eq_ok
    rw [List.mapM_cons, List.map_cons, List.map_eq_cons_iff]
    constructor
    · intro h
      cases hentry : Fault.entry l i with
      | error e => simp [hentry, bind, Except.bind] at h
      | ok a =>
        cases hrest : positions.mapM (Fault.entry l) with
        | error e => simp [hentry, hrest, bind, Except.bind] at h
        | ok bs =>
          simp only [hentry, hrest, bind, Except.bind, pure, Except.pure, Except.ok.injEq] at h
          exact ⟨a, bs, h.symm, (Fault.entry_eq_ok.mp hentry).symm, (ih bs).mp hrest⟩
    · rintro ⟨a, bs, rfl, ha, hbs⟩
      rw [Fault.entry_eq_ok.mpr ha.symm, (ih bs).mpr hbs]
      rfl

theorem Fault.exists_mapM_entry {α : Type} {l : List α} {positions : List Nat} (h : ∀ i ∈ positions, i < l.length) :
    ∃ as, positions.mapM (Fault.entry l) = .ok as ∧ as.length = positions.length := by
  have hentries : ∃ as : List α, as.map some = positions.map (l[·]?) := by
    induction positions with
    | nil => exact ⟨[], rfl⟩
    | cons i positions ih =>
      obtain ⟨hi, hpositions⟩ := List.forall_mem_cons.mp h
      obtain ⟨as, has⟩ := ih hpositions
      exact ⟨l[i] :: as, by rw [List.map_cons, List.map_cons, has, List.getElem?_eq_getElem hi]⟩
  obtain ⟨as, has⟩ := hentries
  refine ⟨as, Fault.mapM_entry_eq_ok.mpr has, ?_⟩
  have hlength := congrArg List.length has
  rwa [List.length_map, List.length_map] at hlength

/-! ### Rounds -/

namespace Subject
variable {σ : Type} {oracle : Oracle σ} {subject : Subject} {category : Category} {batch : List Formula}
  {target size : Nat} {notices : List Notice} {positions : List Nat} {o o' : σ}

theorem pairwise_kept (reply : Reply) : (subject.kept size reply).2.Pairwise (· < ·) := by
  unfold kept
  split
  · exact .nil
  · exact List.pairwise_lt_range.filter _

theorem lt_of_mem_kept {reply : Reply} {i : Nat} (h : i ∈ (subject.kept size reply).2) : i < size := by
  unfold kept at h
  split at h
  · exact absurd h List.not_mem_nil
  · exact List.mem_range.mp (List.mem_filter.mp h).1

/-- Whatever the oracle answers, positions of the batch are kept, in increasing order. -/
theorem filter_positions (h : (subject.filter oracle category batch target).run o = ((notices, positions), o')) :
    positions.Pairwise (· < ·) ∧ ∀ i ∈ positions, i < batch.length := by
  unfold filter at h
  split at h
  · cases h
    exact ⟨List.pairwise_lt_range, fun _ => List.mem_range.mp⟩
  · obtain ⟨hkept, -⟩ := Prod.ext_iff.mp h
    have hpositions := congrArg Prod.snd hkept
    rw [← show _ = positions from hpositions]
    exact ⟨pairwise_kept _, fun _ => lt_of_mem_kept⟩

end Subject

namespace Round

/-- The positions of the batch that were taken. -/
def chosen (r : Round) : List Nat := r.kept.take r.target

/-- Positions of the batch were kept in increasing order, and the first of them were taken. -/
structure IsFair (r : Round) : Prop where
  increasing : r.kept.Pairwise (· < ·)
  inside : ∀ i ∈ r.kept, i < r.batch.length
  taken : r.taken.map some = r.chosen.map (r.batch[·]?)

variable {r : Round}

theorem IsFair.length_taken (h : r.IsFair) : r.taken.length = min r.target r.kept.length := by
  have hlen := congrArg List.length h.taken
  simpa [chosen] using hlen

theorem IsFair.chosen_increasing (h : r.IsFair) : r.chosen.Pairwise (· < ·) :=
  h.increasing.sublist (List.take_sublist _ _)

theorem IsFair.chosen_inside (h : r.IsFair) {i : Nat} (hi : i ∈ r.chosen) : i < r.batch.length :=
  h.inside i (List.mem_of_mem_take hi)

theorem IsFair.mem_batch (h : r.IsFair) {f : Formula} (hf : f ∈ r.taken) : f ∈ r.batch := by
  have hmem : some f ∈ r.chosen.map (r.batch[·]?) := h.taken ▸ List.mem_map_of_mem hf
  obtain ⟨i, -, hi⟩ := List.mem_map.mp hmem
  exact List.mem_of_getElem? hi

end Round

namespace Workshop
variable {σ : Type} {w : Workshop σ} {subject : Subject} {category : Category} {binder : Binder}
  {count size left got : Nat} {r : Round} {rs : List Round} {s t u : Session σ}

/-- A batch has as many candidates as asked for, each freshly drawn. -/
theorem batch_gives {stream stream' : Keystream} {fs : List Formula}
    (h : (w.batch category binder size).Gives stream fs stream') :
    fs.length = size ∧ ∀ f ∈ fs, ∃ stream stream', (w.candidate category binder).Gives stream f stream' := by
  induction size generalizing stream stream' fs with
  | zero =>
    obtain ⟨rfl, -⟩ := Generation.gives_pure.mp h
    exact ⟨rfl, List.forall_mem_nil _⟩
  | succ size ih =>
    simp only [batch, Generation.gives_bind, Generation.gives_pure] at h
    obtain ⟨f, _, hf, fs, _, hfs, rfl, -⟩ := h
    obtain ⟨hlength, hfresh⟩ := ih hfs
    exact ⟨by rw [List.length_cons, hlength], List.forall_mem_cons.mpr ⟨⟨_, _, hf⟩, hfresh⟩⟩

/-- The round is played from the session `s` and leaves `t`: a fresh batch is put to the oracle, and the first
    candidates that it keeps are taken. -/
structure Plays (w : Workshop σ) (subject : Subject) (category : Category) (binder : Binder) (r : Round)
    (s t : Session σ) : Prop where
  consulted : ∃ stream notices oracle,
    (w.batch category binder w.settings.filter.setSize.toNat).Gives s.stream r.batch stream ∧
      (subject.filter w.oracle category r.batch r.target).run s.oracle = ((notices, r.kept), oracle) ∧
      t = { s with stream, oracle, notices := s.notices ++ notices }
  taken : r.taken.map some = (r.kept.take r.target).map (r.batch[·]?)

/-- The rounds are played one after the other. -/
inductive PlaysAll (w : Workshop σ) (subject : Subject) (category : Category) (binder : Binder) :
    List Round → Session σ → Session σ → Prop
  | none (s : Session σ) : PlaysAll w subject category binder [] s s
  | round {r : Round} {rs : List Round} {s t u : Session σ} : w.Plays subject category binder r s t →
      PlaysAll w subject category binder rs t u → PlaysAll w subject category binder (r :: rs) s u

theorem Plays.isFair (h : w.Plays subject category binder r s t) : r.IsFair := by
  obtain ⟨⟨_, _, _, -, hfilter, -⟩, htaken⟩ := h
  obtain ⟨hincreasing, hinside⟩ := Subject.filter_positions hfilter
  exact ⟨hincreasing, hinside, htaken⟩

theorem Plays.batch_length (h : w.Plays subject category binder r s t) :
    r.batch.length = w.settings.filter.setSize.toNat := by
  obtain ⟨_, _, _, hbatch, -, -⟩ := h.consulted
  exact (batch_gives hbatch).1

/-- Every round is played from the session that the rounds before it left. -/
theorem PlaysAll.split {earlier later : List Round}
    (h : w.PlaysAll subject category binder (earlier ++ r :: later) s u) :
    ∃ s' t, w.PlaysAll subject category binder earlier s s' ∧ w.Plays subject category binder r s' t ∧
      w.PlaysAll subject category binder later t u := by
  induction earlier generalizing s with
  | nil =>
    cases h with
    | round hplays hlater => exact ⟨_, _, .none _, hplays, hlater⟩
  | cons first earlier ih =>
    cases h with
    | round hplays hrest =>
      obtain ⟨s', t, hearlier, hr, hlater⟩ := ih hrest
      exact ⟨s', t, .round hplays hearlier, hr, hlater⟩

theorem PlaysAll.plays_of_mem (h : w.PlaysAll subject category binder rs s u) (hr : r ∈ rs) :
    ∃ s' t, w.Plays subject category binder r s' t := by
  obtain ⟨earlier, later, rfl⟩ := List.append_of_mem hr
  obtain ⟨s', t, -, hplays, -⟩ := h.split
  exact ⟨s', t, hplays⟩

/-- There are at most `left` rounds. Each asks for what is missing after the rounds before it, and there is a round
    as long as something is missing. -/
def Paced (count : Nat) : (left got : Nat) → List Round → Prop
  | 0, _, rs => rs = []
  | _ + 1, got, [] => got = count
  | left + 1, got, r :: rs => got < count ∧ r.target = count - got ∧ Paced count left (got + r.taken.length) rs

/-- The rounds of a selection are the ones that can be played at its pace. -/
theorem rounds_gives :
    Work.Gives (w.rounds subject category binder count left got) s rs t ↔
      w.PlaysAll subject category binder rs s t ∧ Paced count left got rs := by
  -- by induction on the rounds that are left, along the loop
  induction left generalizing got s t rs with
  | zero =>
    rw [rounds, Work.gives_pure, Paced]
    constructor
    · rintro ⟨rfl, rfl⟩
      exact ⟨.none _, rfl⟩
    · rintro ⟨hplays, rfl⟩
      cases hplays
      exact ⟨rfl, rfl⟩
  | succ left ih =>
    simp only [rounds, Work.gives_bind, Work.gives_check, Fault.difference_eq_ok, Work.gives_ite, Work.gives_pure,
      Work.gives_generate, Work.gives_lift, Work.does_consult, Fault.mapM_entry_eq_ok, ih]
    constructor
    · rintro ⟨target, _, ⟨⟨hle, rfl⟩, rfl⟩, h⟩
      split at h
      case isTrue hnone =>
        obtain ⟨rfl, rfl⟩ := h
        exact ⟨.none _, show got = count by omega⟩
      case isFalse hsome =>
        obtain ⟨batch, _, ⟨stream, hbatch, rfl⟩, kept, _, ⟨notices, oracle, hfilter, rfl⟩, taken, _,
          ⟨htaken, rfl⟩, rest, _, ⟨hplays, hpaced⟩, rfl, rfl⟩ := h
        exact ⟨.round ⟨⟨stream, notices, oracle, hbatch, hfilter, rfl⟩, htaken⟩ hplays,
          show got < count by omega, rfl, hpaced⟩
    · rintro ⟨hplays, hpaced⟩
      cases hplays with
      | none s =>
        have hgot : got = count := hpaced
        exact ⟨0, s, ⟨⟨Nat.le_of_eq hgot, by omega⟩, rfl⟩, by rw [if_pos rfl]; exact ⟨rfl, rfl⟩⟩
      | @round r rs _ u _ hplay hplays =>
        obtain ⟨hlt, htarget, hpaced⟩ := hpaced
        obtain ⟨⟨stream, notices, oracle, hbatch, hfilter, rfl⟩, htaken⟩ := hplay
        refine ⟨r.target, s, ⟨⟨Nat.le_of_lt hlt, htarget⟩, rfl⟩, ?_⟩
        rw [if_neg (by omega)]
        exact ⟨r.batch, _, ⟨stream, hbatch, rfl⟩, r.kept, _, ⟨notices, oracle, hfilter, rfl⟩, r.taken, _,
          ⟨htaken, rfl⟩, rs, _, ⟨hplays, hpaced⟩, rfl, rfl⟩

/-- What is missing after the rounds is filled up with fresh candidates, and a notice says so. -/
def Fills (w : Workshop σ) (subject : Subject) (category : Category) (binder : Binder) (missing : Nat)
    (fill : List Formula) (s t : Session σ) : Prop :=
  if missing = 0 then fill = [] ∧ t = s
  else ∃ stream, (w.batch category binder missing).Gives s.stream fill stream ∧
    t = { s with stream, notices := s.notices ++ [.unfiltered missing category subject.model.fullName] }

section
variable {missing : Nat} {fill : List Formula}

theorem fills_of_eq_zero (h : missing = 0) :
    w.Fills subject category binder missing fill s t ↔ fill = [] ∧ t = s := by
  rw [Fills, if_pos h]

theorem fills_of_ne_zero (h : missing ≠ 0) :
    w.Fills subject category binder missing fill s t ↔
      ∃ stream, (w.batch category binder missing).Gives s.stream fill stream ∧
        t = { s with stream, notices := s.notices ++ [.unfiltered missing category subject.model.fullName] } := by
  rw [Fills, if_neg h]

end

/-- The most rounds that are played. -/
def roundLimit (w : Workshop σ) : Nat := if w.settings.filter.setSize = 0 then 0 else w.settings.filter.maxRounds.toNat

variable {selection : Selection}

/-- A selection succeeds just when its rounds can be played at its pace and what is missing then can be filled
    up. -/
theorem select_gives_iff :
    Work.Gives (w.select subject category binder count) s selection t ↔
      ∃ u, w.PlaysAll subject category binder selection.rounds s u ∧
        Paced count w.roundLimit 0 selection.rounds ∧ selection.accepted.length ≤ count ∧
        w.Fills subject category binder (count - selection.accepted.length) selection.fill u t := by
  simp only [select, Work.gives_bind, rounds_gives, Work.gives_check, Fault.difference_eq_ok, Work.gives_ite,
    Work.gives_pure, Work.gives_lift, Work.does_report, Work.gives_generate]
  have haccepted : ({ rounds := selection.rounds } : Selection).accepted = selection.accepted := rfl
  constructor
  · rintro ⟨rounds, u, ⟨hplays, hpaced⟩, missing, _, ⟨⟨hle, rfl⟩, rfl⟩, h⟩
    split at h
    case isTrue hnone =>
      obtain ⟨rfl, rfl⟩ := h
      exact ⟨u, hplays, hpaced, hle, (fills_of_eq_zero hnone).mpr ⟨rfl, rfl⟩⟩
    case isFalse hsome =>
      obtain ⟨_, _, rfl, fill, _, ⟨stream, hfill, rfl⟩, rfl, rfl⟩ := h
      exact ⟨u, hplays, hpaced, hle, (fills_of_ne_zero hsome).mpr ⟨stream, hfill, rfl⟩⟩
  · rintro ⟨u, hplays, hpaced, hle, hfills⟩
    refine ⟨selection.rounds, u, ⟨hplays, hpaced⟩, _, u, ⟨⟨hle, rfl⟩, rfl⟩, ?_⟩
    rw [haccepted]
    split
    case isTrue hnone =>
      obtain ⟨hfill, rfl⟩ := (fills_of_eq_zero hnone).mp hfills
      exact ⟨by rw [← hfill], rfl⟩
    case isFalse hsome =>
      obtain ⟨stream, hfill, rfl⟩ := (fills_of_ne_zero hsome).mp hfills
      exact ⟨(), _, rfl, selection.fill, _, ⟨stream, hfill, rfl⟩, rfl, rfl⟩

/-! ### The pace of the rounds -/

theorem Paced.length_le (h : Paced count left got rs) : rs.length ≤ left := by
  induction left generalizing got rs with
  | zero =>
    obtain rfl := h
    exact Nat.le_refl 0
  | succ left ih =>
    cases rs with
    | nil => exact Nat.zero_le _
    | cons r rs => exact Nat.succ_le_succ (ih h.2.2)

/-- Rounds are left out just when nothing is missing. -/
theorem Paced.length_taken (h : Paced count left got rs) (hlt : rs.length < left) :
    got + (rs.flatMap (·.taken)).length = count := by
  induction left generalizing got rs with
  | zero => exact absurd hlt (Nat.not_lt_zero _)
  | succ left ih =>
    cases rs with
    | nil => exact h
    | cons r rs =>
      have htaken := ih h.2.2 (Nat.lt_of_succ_lt_succ hlt)
      rw [List.flatMap_cons, List.length_append]
      omega

/-- No round takes more than are missing. -/
theorem Paced.length_taken_le {rs : List Round} (h : Paced count left got rs) (hgot : got ≤ count)
    (hfair : ∀ r ∈ rs, r.IsFair) : got + (rs.flatMap (·.taken)).length ≤ count := by
  induction left generalizing got rs with
  | zero =>
    obtain rfl := h
    exact hgot
  | succ left ih =>
    cases rs with
    | nil => exact hgot
    | cons r rs =>
      obtain ⟨hr, hrs⟩ := List.forall_mem_cons.mp hfair
      obtain ⟨hlt, htarget, hpaced⟩ := h
      have htaken := hr.length_taken
      have hrest := ih hpaced (by omega) hrs
      rw [List.flatMap_cons, List.length_append]
      omega

theorem Paced.target {earlier later : List Round} (h : Paced count left got (earlier ++ r :: later)) :
    got + (earlier.flatMap (·.taken)).length < count ∧
      r.target = count - (got + (earlier.flatMap (·.taken)).length) := by
  induction earlier generalizing left got with
  | nil =>
    cases left with
    | zero => exact absurd h (List.cons_ne_nil _ _)
    | succ left => exact ⟨h.1, h.2.1⟩
  | cons first earlier ih =>
    cases left with
    | zero => exact absurd h (List.cons_ne_nil _ _)
    | succ left =>
      rw [List.flatMap_cons, List.length_append, ← Nat.add_assoc]
      exact ih h.2.2

theorem Fills.length_fill {missing : Nat} {fill : List Formula}
    (h : w.Fills subject category binder missing fill s t) : fill.length = missing := by
  by_cases hmissing : missing = 0
  · rw [((fills_of_eq_zero hmissing).mp h).1, hmissing, List.length_nil]
  · obtain ⟨_, hfill, -⟩ := (fills_of_ne_zero hmissing).mp h
    exact (batch_gives hfill).1

end Workshop

/-! ### Positions -/

namespace Selection

/-- The candidates that were put to the oracle. -/
def submitted (s : Selection) : List Formula := s.rounds.flatMap (·.batch)

/-- All candidates, in the order in which they were made. -/
def candidates (s : Selection) : List Formula := s.submitted ++ s.fill

/-- The positions of what rounds take, where the first batch starts at `start`. -/
def positionsFrom : (start : Nat) → List Round → List Nat
  | _, [] => []
  | start, r :: rs => r.chosen.map (start + ·) ++ positionsFrom (start + r.batch.length) rs

/-- The positions of the chosen formulas among the candidates: what the rounds take, and all of the fill. -/
def positions (s : Selection) : List Nat :=
  positionsFrom 0 s.rounds ++ List.range' s.submitted.length s.fill.length

variable {rs : List Round} {start i : Nat}

theorem positionsFrom_bounds (hfair : ∀ r ∈ rs, r.IsFair) (hi : i ∈ positionsFrom start rs) :
    start ≤ i ∧ i < start + (rs.flatMap (·.batch)).length := by
  induction rs generalizing start with
  | nil => exact absurd hi List.not_mem_nil
  | cons r rs ih =>
    obtain ⟨hr, hrs⟩ := List.forall_mem_cons.mp hfair
    rw [List.flatMap_cons, List.length_append]
    rcases List.mem_append.mp hi with hi | hi
    · obtain ⟨j, hj, rfl⟩ := List.mem_map.mp hi
      have := hr.chosen_inside hj
      omega
    · have := ih hrs hi
      omega

theorem positionsFrom_increasing (hfair : ∀ r ∈ rs, r.IsFair) : (positionsFrom start rs).Pairwise (· < ·) := by
  induction rs generalizing start with
  | nil => exact .nil
  | cons r rs ih =>
    obtain ⟨hr, hrs⟩ := List.forall_mem_cons.mp hfair
    refine List.pairwise_append.mpr ⟨?_, ih hrs, ?_⟩
    · exact List.pairwise_map.mpr (hr.chosen_increasing.imp fun h => Nat.add_lt_add_left h start)
    · intro i hi j hj
      obtain ⟨k, hk, rfl⟩ := List.mem_map.mp hi
      have hinside := hr.chosen_inside hk
      have hlater := (positionsFrom_bounds hrs hj).1
      omega

/-- The positions tell what the rounds take, with any candidates before and after theirs. -/
theorem map_positionsFrom (hfair : ∀ r ∈ rs, r.IsFair) (before after : List Formula) :
    (positionsFrom before.length rs).map ((before ++ (rs.flatMap (·.batch) ++ after))[·]?) =
      (rs.flatMap (·.taken)).map some := by
  -- the batch of the first round moves to the candidates before the others
  induction rs generalizing before with
  | nil => rfl
  | cons r rs ih =>
    obtain ⟨hr, hrs⟩ := List.forall_mem_cons.mp hfair
    rw [positionsFrom, List.flatMap_cons, List.flatMap_cons, List.map_append, List.map_append]
    congr 1
    · rw [hr.taken, List.map_map]
      refine List.map_congr_left fun j hj => ?_
      have hinside := hr.chosen_inside hj
      rw [Function.comp_apply, List.getElem?_append_right (Nat.le_add_right _ _), Nat.add_sub_cancel_left,
        List.append_assoc, List.getElem?_append_left hinside]
    · have hrest := ih hrs (before ++ r.batch)
      rwa [List.length_append, List.append_assoc, ← List.append_assoc r.batch] at hrest

theorem map_fill (before fill : List Formula) :
    (List.range' before.length fill.length).map ((before ++ fill)[·]?) = fill.map some := by
  refine List.ext_getElem (by simp) fun n hn _ => ?_
  have hlt : n < fill.length := by simpa using hn
  rw [List.getElem_map, List.getElem_map, List.getElem_range', Nat.one_mul,
    List.getElem?_append_right (Nat.le_add_right _ _), Nat.add_sub_cancel_left, List.getElem?_eq_getElem hlt]

variable {s : Selection}

theorem positions_increasing (hfair : ∀ r ∈ s.rounds, r.IsFair) : s.positions.Pairwise (· < ·) := by
  refine List.pairwise_append.mpr ⟨positionsFrom_increasing hfair, List.pairwise_lt_range', ?_⟩
  intro i hi j hj
  have hinside := (positionsFrom_bounds hfair hi).2
  have hfill := (List.mem_range'_1.mp hj).1
  rw [Nat.zero_add] at hinside
  exact Nat.lt_of_lt_of_le hinside hfill

theorem map_positions (hfair : ∀ r ∈ s.rounds, r.IsFair) :
    s.positions.map (s.candidates[·]?) = s.formulas.map some := by
  rw [positions, formulas, List.map_append, List.map_append]
  congr 1
  · exact map_positionsFrom hfair [] s.fill
  · exact map_fill s.submitted s.fill

theorem mem_positions_of_fill (h : s.submitted.length ≤ i) (hi : i < s.candidates.length) : i ∈ s.positions := by
  rw [candidates, List.length_append] at hi
  exact List.mem_append_right _ (List.mem_range'_1.mpr ⟨h, hi⟩)

end Selection

/-! ### The selection -/

namespace Workshop
variable {σ : Type} {w : Workshop σ} {subject : Subject} {category : Category} {binder : Binder} {count : Nat}
  {selection : Selection} {s t : Session σ}

theorem select_length (h : Work.Gives (w.select subject category binder count) s selection t) :
    selection.accepted.length + selection.fill.length = count := by
  obtain ⟨_, -, -, hle, hfills⟩ := select_gives_iff.mp h
  have := hfills.length_fill
  omega

/-- A selection of nothing takes no rounds. -/
theorem select_gives_none (w : Workshop σ) (subject : Subject) (category : Category) (binder : Binder)
    (s : Session σ) : Work.Gives (w.select subject category binder 0) s {} s := by
  refine select_gives_iff.mpr ⟨s, .none s, ?_, Nat.le_refl 0, (fills_of_eq_zero rfl).mpr ⟨rfl, rfl⟩⟩
  cases w.roundLimit <;> rfl

/-- What a selection of `count` formulas is that is made from the session `s` and leaves `t`. -/
structure Selects (w : Workshop σ) (subject : Subject) (category : Category) (binder : Binder) (count : Nat)
    (selection : Selection) (s t : Session σ) : Prop where
  /-- The rounds are played one after the other, and the fill is made after them. -/
  played : ∃ u, w.PlaysAll subject category binder selection.rounds s u ∧
    w.Fills subject category binder (count - selection.accepted.length) selection.fill u t
  length_formulas : selection.formulas.length = count
  length_parts : selection.accepted.length + selection.fill.length = count
  rounds_le : selection.rounds.length ≤ w.settings.filter.maxRounds.toNat
  rounds_lt : selection.rounds.length < w.settings.filter.maxRounds.toNat →
    selection.fill = [] ∨ w.settings.filter.setSize = 0
  batch : ∀ r ∈ selection.rounds, r.batch.length = w.settings.filter.setSize.toNat
  /-- A round asks for what is missing after the rounds before it. -/
  target : ∀ earlier r later, selection.rounds = earlier ++ r :: later →
    1 ≤ r.target ∧ r.target = count - (earlier.flatMap (·.taken)).length
  /-- A round takes the first formulas that the oracle keeps, in the order of the batch. -/
  fair : ∀ r ∈ selection.rounds, r.IsFair ∧ r.taken.length = min r.target r.kept.length
  /-- The formulas stand among the candidates in this order. -/
  increasing : selection.positions.Pairwise (· < ·)
  positions : selection.positions.map (selection.candidates[·]?) = selection.formulas.map some
  fill : ∀ i, selection.submitted.length ≤ i → i < selection.candidates.length → i ∈ selection.positions

/-- Whatever the oracle answers, a selection that succeeds has as many formulas as asked for, picked from the
    candidates in order. -/
theorem select_selects (h : Work.Gives (w.select subject category binder count) s selection t) :
    w.Selects subject category binder count selection s t := by
  have hparts := select_length h
  obtain ⟨u, hplays, hpaced, -, hfills⟩ := select_gives_iff.mp h
  have hfair : ∀ r ∈ selection.rounds, r.IsFair := by
    intro r hr
    obtain ⟨_, _, hplay⟩ := hplays.plays_of_mem hr
    exact hplay.isFair
  refine {
    played := ⟨u, hplays, hfills⟩
    length_formulas := by rw [Selection.formulas, List.length_append, hparts]
    length_parts := hparts
    rounds_le := ?_
    rounds_lt := ?_
    batch := ?_
    target := ?_
    fair := fun r hr => ⟨hfair r hr, (hfair r hr).length_taken⟩
    increasing := Selection.positions_increasing hfair
    positions := Selection.map_positions hfair
    fill := fun _ => Selection.mem_positions_of_fill }
  · refine Nat.le_trans hpaced.length_le ?_
    rw [roundLimit]
    split
    · exact Nat.zero_le _
    · exact Nat.le_refl _
  · intro hlt
    by_cases hsize : w.settings.filter.setSize = 0
    · exact .inr hsize
    · have hlimit : w.roundLimit = w.settings.filter.maxRounds.toNat := if_neg hsize
      have htaken : selection.accepted.length = count := by
        have := hpaced.length_taken (by rwa [hlimit])
        rwa [Nat.zero_add] at this
      exact .inl (List.eq_nil_of_length_eq_zero (by omega))
  · intro r hr
    obtain ⟨_, _, hplay⟩ := hplays.plays_of_mem hr
    exact hplay.batch_length
  · intro earlier r later hrounds
    rw [hrounds] at hpaced
    obtain ⟨hlt, htarget⟩ := hpaced.target
    rw [Nat.zero_add] at hlt htarget
    exact ⟨by omega, htarget⟩

/-- A workshop with an oracle that names the second candidate of every batch twice, and one that is not there. -/
def repetitive : Workshop Unit where
  settings := { generation := { formulaDepth := 1 }, filter := { maxRounds := 2, setSize := 2 } }
  catalog := .ofBound 2
  oracle := fun _ => return { verdict := .ok [1, 7, 1] }
  disk := { root := .directory [], here := [] }

/-- Two rounds take a formula each, and a third formula fills up. -/
theorem repetitive_select_selects :
    ∃ selection t,
      Work.Gives (repetitive.select
        (.direct { key := ⟨"M", .placeTransition, "1"⟩, directory := "M-PT-1" }) .reachabilityFireability
        ⟨["p"], ["t", "u"], 1, 1, 0, 100⟩ 3) { stream := .ofSeed 1, oracle := () } selection t ∧
      repetitive.Selects (.direct { key := ⟨"M", .placeTransition, "1"⟩, directory := "M-PT-1" })
        .reachabilityFireability ⟨["p"], ["t", "u"], 1, 1, 0, 100⟩ 3 selection
        { stream := .ofSeed 1, oracle := () } t := by
  obtain ⟨selection, t, h⟩ := Work.exists_gives (x := repetitive.select
    (.direct { key := ⟨"M", .placeTransition, "1"⟩, directory := "M-PT-1" }) .reachabilityFireability
    ⟨["p"], ["t", "u"], 1, 1, 0, 100⟩ 3) (s := { stream := .ofSeed 1, oracle := () }) (by decide +kernel)
  exact ⟨selection, t, h, select_selects h⟩

end Workshop
end Formulary
