import Mathlib.Data.List.Perm.Basic
import Mathlib.Data.Option.Basic
import Formulary.Pool.Basic

/-! Every course that a pool can take. The submitter starts the next job while a slot is free and otherwise receives;
    the jobs at work end in any order. Two facts carry everything: the slots are those of the jobs in flight and the
    free ones, each once; and a result is missing exactly while its job waits or is in flight. -/

namespace Formulary

/-- What a job reports in the end. -/
def Job.outcome {α β : Type} (job : Job α β) (slot i : Nat) (item : α) : Except JobPanic β :=
  (job slot i item).mapError (JobPanic.ofBreakdown i)

theorem Job.outcome_error_index {α β : Type} {job : Job α β} {slot i : Nat} {item : α} {e : JobPanic}
    (h : job.outcome slot i item = .error e) : e.index = i := by
  unfold Job.outcome at h
  cases hjob : job slot i item with
  | ok result => rw [hjob] at h; cases h
  | error breakdown =>
    rw [hjob] at h
    cases h
    cases breakdown <;> rfl

namespace Pool
variable {α β : Type} {job : Job α β} {size : Nat} {items : List α} {p q : Pool α β} {slot i : Nat} {item : α}
  {result : Except JobPanic β}

/-! ### Setting up -/

/-- The channel takes more room than the list of the free slots. -/
theorem reserve_eq (width size : Nat) : reserve width size =
    if max size 1 ≤ Fault.mostEntries (reportWidth width) then .ok () else .error .capacity := by
  have hmost : Fault.mostEntries (reportWidth width) ≤ Fault.mostEntries slotWidth := by
    refine Nat.div_le_div_left ?_ (by decide)
    rw [slotWidth, reportWidth]
    omega
  unfold reserve Fault.reserve
  by_cases hslots : max size 1 ≤ Fault.mostEntries slotWidth
  · rw [if_pos hslots]
    rfl
  · rw [if_neg hslots, if_neg fun h => hslots (Nat.le_trans h hmost)]
    rfl

/-! ### Steps -/

/-- What happens to a job with a slot and a position. -/
inductive Event where
  | started (slot index : Nat)
  | finished (slot index : Nat)
  | received (slot index : Nat)
deriving DecidableEq, Repr

/-- One step of the submitter or of a job at work. The submitter receives only when it can start no job. -/
inductive Step (job : Job α β) (p : Pool α β) : Event → Pool α β → Prop where
  | start {slot i : Nat} {item : α} {q : Pool α β} (h : p.submit? = some q)
      (hrunning : q.running = p.running ++ [(slot, i, item)]) : Step job p (.started slot i) q
  | finish (place : Nat) {slot i : Nat} {item : α} {q : Pool α β}
      (hrunning : p.running[place]? = some (slot, i, item)) (h : p.finish? job place = some q) :
      Step job p (.finished slot i) q
  | receive {slot i : Nat} {result : Except JobPanic β} {q : Pool α β} (hsubmit : p.submit? = none)
      (h : p.receive? = some q) (hchannel : p.channel = (slot, i, result) :: q.channel) :
      Step job p (.received slot i) q

/-- A course of steps, with its events in order. -/
inductive Reaches (job : Job α β) (p : Pool α β) : List Event → Pool α β → Prop where
  | refl : Reaches job p [] p
  | step {events : List Event} {event : Event} {q r : Pool α β} (h : Reaches job p events q)
      (hstep : q.Step job event r) : Reaches job p (events ++ [event]) r

/-- There is no way on. -/
def IsFinal (job : Job α β) (p : Pool α β) : Prop := ∀ event q, ¬ p.Step job event q

/-- The slots and positions of the jobs that were started, in order. -/
def starts (events : List Event) : List (Nat × Nat) :=
  events.filterMap fun
    | .started slot i => some (slot, i)
    | _ => none

/-- The slots that no job has, in the order in which they are given out. -/
def free (p : Pool α β) : List Nat := p.freed ++ List.range' p.fresh (p.size - p.fresh)

/-- Slots and positions of the jobs that were started and whose report is not received. -/
def inFlight (p : Pool α β) : List (Nat × Nat) :=
  p.running.map (fun x => (x.1, x.2.1)) ++ p.channel.map (fun x => (x.1, x.2.1))

/-- The positions of the jobs whose report is not received. -/
def pending (p : Pool α β) : List Nat := p.waiting.map (·.1) ++ p.inFlight.map (·.2)

/-! ### What a step does -/

structure Starts (p : Pool α β) (slot i : Nat) (item : α) (q : Pool α β) : Prop where
  waiting : p.waiting = (i, item) :: q.waiting
  free : p.free = slot :: q.free
  running : q.running = p.running ++ [(slot, i, item)]
  channel : q.channel = p.channel
  results : q.results = p.results
  size : q.size = p.size

structure Finishes (job : Job α β) (p : Pool α β) (slot i : Nat) (item : α) (q : Pool α β) : Prop where
  running : p.running.Perm ((slot, i, item) :: q.running)
  channel : q.channel = p.channel ++ [(slot, i, job.outcome slot i item)]
  waiting : q.waiting = p.waiting
  free : q.free = p.free
  results : q.results = p.results
  size : q.size = p.size

structure Receives (p : Pool α β) (slot i : Nat) (result : Except JobPanic β) (q : Pool α β) : Prop where
  channel : p.channel = (slot, i, result) :: q.channel
  free : q.free = slot :: p.free
  results : q.results = p.results.set i (some result)
  waiting : q.waiting = p.waiting
  running : q.running = p.running
  size : q.size = p.size

theorem submit?_eq_some (h : p.submit? = some q) : ∃ slot i item, p.Starts slot i item q := by
  unfold submit? at h
  split at h
  · cases h
  · rename_i i item waiting slot freed hwaiting hfreed
    cases h
    exact ⟨slot, i, item, hwaiting, by rw [free, hfreed]; rfl, rfl, rfl, rfl, rfl⟩
  · rename_i i item waiting hwaiting hfreed
    split at h
    · rename_i hfresh
      cases h
      -- the first slot that was never used comes first among the free ones, as none was given back
      refine ⟨p.fresh, i, item, hwaiting, ?_, rfl, rfl, rfl, rfl⟩
      obtain ⟨k, hk⟩ : ∃ k, p.size - p.fresh = k + 1 := ⟨p.size - (p.fresh + 1), by omega⟩
      have hk' : p.size - (p.fresh + 1) = k := by omega
      show p.freed ++ List.range' p.fresh (p.size - p.fresh) =
        p.fresh :: (p.freed ++ List.range' (p.fresh + 1) (p.size - (p.fresh + 1)))
      rw [hfreed, hk, hk', List.range'_succ]
      rfl
    · cases h

theorem submit?_eq_none_iff : p.submit? = none ↔ p.waiting = [] ∨ p.free = [] := by
  unfold submit? free
  split
  · rename_i hwaiting
    exact ⟨fun _ => .inl hwaiting, fun _ => rfl⟩
  · rename_i hwaiting hfreed
    rw [hwaiting, hfreed]
    exact ⟨nofun, fun h => by rcases h with h | h <;> cases h⟩
  · rename_i hwaiting hfreed
    rw [hwaiting, hfreed, List.nil_append, List.range'_eq_nil_iff]
    split
    · exact ⟨nofun, fun h => h.elim nofun (by omega)⟩
    · exact ⟨fun _ => .inr (by omega), fun _ => rfl⟩

theorem finish?_eq_some {place : Nat} (hrunning : p.running[place]? = some (slot, i, item))
    (h : p.finish? job place = some q) : p.Finishes job slot i item q := by
  unfold finish? at h
  rw [hrunning] at h
  dsimp only at h
  split at h
  · cases h
    obtain ⟨hplace, hitem⟩ := List.getElem?_eq_some_iff.mp hrunning
    have hperm := (List.getElem_cons_eraseIdx_perm hplace).symm
    rw [hitem] at hperm
    exact ⟨hperm, rfl, rfl, rfl, rfl, rfl⟩
  · cases h

theorem finish?_isSome {place : Nat} (hplace : place < p.running.length) (hroom : p.channel.length < p.size) :
    ∃ q, p.finish? job place = some q := by
  unfold finish?
  rw [List.getElem?_eq_getElem hplace]
  exact ⟨_, if_pos hroom⟩

theorem receive?_eq_some (h : p.receive? = some q) : ∃ slot i result, p.Receives slot i result q := by
  unfold receive? at h
  split at h
  · cases h
  · rename_i slot i result channel hchannel
    cases h
    exact ⟨slot, i, result, hchannel, rfl, rfl, rfl, rfl, rfl⟩

theorem receive?_eq_none_iff : p.receive? = none ↔ p.channel = [] := by
  unfold receive?
  split
  · rename_i hchannel
    exact ⟨fun _ => hchannel, fun _ => rfl⟩
  · rename_i hchannel
    rw [hchannel]
    exact ⟨nofun, nofun⟩

theorem Step.cases {event : Event} (h : p.Step job event q) :
    (∃ slot i item, event = .started slot i ∧ p.Starts slot i item q) ∨
      (∃ slot i item, event = .finished slot i ∧ p.Finishes job slot i item q) ∨
      ∃ slot i result, event = .received slot i ∧ p.submit? = none ∧ p.Receives slot i result q := by
  cases h with
  | start h hrunning =>
    rename_i slot i item
    obtain ⟨slot', i', item', hstarts⟩ := submit?_eq_some h
    have hlast := List.append_cancel_left (hrunning.symm.trans hstarts.running)
    cases hlast
    exact .inl ⟨slot, i, item, rfl, hstarts⟩
  | finish place hrunning h => exact .inr (.inl ⟨_, _, _, rfl, finish?_eq_some hrunning h⟩)
  | receive hsubmit h hchannel =>
    rename_i slot i result
    obtain ⟨slot', i', result', hreceives⟩ := receive?_eq_some h
    cases hchannel.symm.trans hreceives.channel
    exact .inr (.inr ⟨slot, i, result, rfl, hsubmit, hreceives⟩)

/-! ### The jobs in flight -/

theorem Starts.inFlight (h : p.Starts slot i item q) : q.inFlight.Perm ((slot, i) :: p.inFlight) := by
  unfold Pool.inFlight
  rw [h.running, h.channel, List.map_append, List.append_assoc]
  exact List.perm_middle

theorem Finishes.inFlight (h : p.Finishes job slot i item q) : q.inFlight.Perm p.inFlight := by
  have hrunning := h.running.map fun x : Nat × Nat × α => (x.1, x.2.1)
  unfold Pool.inFlight
  rw [h.channel, List.map_append, ← List.append_assoc]
  exact (List.perm_append_singleton ..).trans (hrunning.symm.append_right _)

theorem Receives.inFlight (h : p.Receives slot i result q) : p.inFlight.Perm ((slot, i) :: q.inFlight) := by
  unfold Pool.inFlight
  rw [h.channel, h.running, List.map_cons]
  exact List.perm_middle

theorem Starts.pending (h : p.Starts slot i item q) : q.pending.Perm p.pending := by
  unfold Pool.pending
  rw [h.waiting, List.map_cons, List.cons_append]
  exact ((h.inFlight.map _).append_left _).trans List.perm_middle

theorem Finishes.pending (h : p.Finishes job slot i item q) : q.pending.Perm p.pending := by
  unfold Pool.pending
  rw [h.waiting]
  exact (h.inFlight.map _).append_left _

theorem Receives.pending (h : p.Receives slot i result q) : p.pending.Perm (i :: q.pending) := by
  unfold Pool.pending
  rw [h.waiting]
  exact ((h.inFlight.map _).append_left _).trans List.perm_middle

/-! ### Invariants -/

/-- Every slot is that of one job in flight, or it is free. -/
structure Slots (size : Nat) (p : Pool α β) : Prop where
  size_eq : p.size = size
  partition : (p.inFlight.map (·.1) ++ p.free).Perm (List.range size)

/-- The jobs are started in the order of the items. -/
def InOrder (items : List α) (events : List Event) (p : Pool α β) : Prop :=
  (starts events).map (·.2) ++ p.waiting.map (·.1) = List.range items.length

/-- The results that are missing are those of the jobs that wait or are in flight. -/
structure Reports (items : List α) (p : Pool α β) : Prop where
  length : p.results.length = items.length
  missing : ∀ i, p.results[i]? = some none ↔ i ∈ p.pending
  nodup : p.pending.Nodup

/-- A job was started with a slot, and it reports a result. -/
def Reported (job : Job α β) (items : List α) (events : List Event) (slot i : Nat) (result : Except JobPanic β) :
    Prop :=
  (slot, i) ∈ starts events ∧ ∃ item, items[i]? = some item ∧ result = job.outcome slot i item

/-- Where items and results come from. -/
structure Sources (job : Job α β) (items : List α) (events : List Event) (p : Pool α β) : Prop where
  waiting : ∀ x ∈ p.waiting, items[x.1]? = some x.2
  running : ∀ x ∈ p.running, (x.1, x.2.1) ∈ starts events ∧ items[x.2.1]? = some x.2.2
  channel : ∀ x ∈ p.channel, Reported job items events x.1 x.2.1 x.2.2
  results : ∀ i result, p.results[i]? = some (some result) → ∃ slot, Reported job items events slot i result

structure Inv (job : Job α β) (size : Nat) (items : List α) (events : List Event) (p : Pool α β) : Prop where
  slots : p.Slots (max size 1)
  inOrder : p.InOrder items events
  reports : p.Reports items
  sources : p.Sources job items events

section Start

theorem start_waiting_positions (size : Nat) (items : List α) :
    (start size items : Pool α β).waiting.map (·.1) = List.range items.length := by
  show (items.mapIdx fun i item => (i, item)).map (·.1) = _
  exact List.ext_getElem (by simp) (by simp)

theorem inv_start (job : Job α β) (size : Nat) (items : List α) : Inv job size items [] (start size items) where
  slots := by
    refine ⟨rfl, ?_⟩
    show (List.range' 0 (max size 1 - 0)).Perm _
    rw [Nat.sub_zero, List.range_eq_range']
  inOrder := start_waiting_positions size items
  reports := by
    have hpending : (start size items : Pool α β).pending = List.range items.length := by
      unfold pending
      rw [start_waiting_positions]
      exact List.append_nil _
    refine ⟨List.length_map _, ?_, hpending ▸ List.nodup_range⟩
    intro i
    rw [hpending, List.mem_range]
    show (items.map fun _ => none)[i]? = some none ↔ _
    rw [List.getElem?_map]
    cases h : items[i]? with
    | none => simpa using h
    | some item => simpa using (List.getElem?_eq_some_iff.mp h).1
  sources := by
    refine ⟨?_, nofun, nofun, ?_⟩
    · intro x hx
      obtain ⟨i, hi, rfl⟩ := List.mem_mapIdx.mp hx
      exact List.getElem?_eq_getElem hi
    · intro i result h
      have h : (items.map fun _ => none)[i]? = some (some result) := h
      rw [List.getElem?_map] at h
      cases hitem : items[i]? <;> rw [hitem] at h <;> cases h

end Start

section Step
variable {events : List Event} {event : Event}

theorem starts_started (events : List Event) (slot i : Nat) :
    starts (events ++ [.started slot i]) = starts events ++ [(slot, i)] := List.filterMap_append

theorem starts_finished (events : List Event) (slot i : Nat) :
    starts (events ++ [.finished slot i]) = starts events :=
  List.filterMap_append.trans (List.append_nil _)

theorem starts_received (events : List Event) (slot i : Nat) :
    starts (events ++ [.received slot i]) = starts events :=
  List.filterMap_append.trans (List.append_nil _)

theorem Slots.step (hp : p.Slots size) (hstep : p.Step job event q) : q.Slots size := by
  obtain ⟨hsize, hpartition⟩ := hp
  rcases hstep.cases with ⟨slot, i, item, -, h⟩ | ⟨slot, i, item, -, h⟩ | ⟨slot, i, result, -, -, h⟩
  · refine ⟨h.size.trans hsize, ((h.inFlight.map _).append_right _).trans (.trans ?_ hpartition)⟩
    rw [h.free]
    exact List.perm_middle.symm
  · refine ⟨h.size.trans hsize, ((h.inFlight.map _).append_right _).trans ?_⟩
    rw [h.free]
    exact hpartition
  · refine ⟨h.size.trans hsize, .trans ?_ (((h.inFlight.map _).append_right _).symm.trans hpartition)⟩
    rw [h.free]
    exact List.perm_middle

theorem InOrder.step (hp : p.InOrder items events) (hstep : p.Step job event q) :
    q.InOrder items (events ++ [event]) := by
  unfold InOrder at hp ⊢
  rcases hstep.cases with ⟨slot, i, item, rfl, h⟩ | ⟨slot, i, item, rfl, h⟩ | ⟨slot, i, result, rfl, -, h⟩
  · rw [starts_started, List.map_append, List.append_assoc]
    rw [h.waiting] at hp
    exact hp
  · rw [starts_finished, h.waiting]
    exact hp
  · rw [starts_received, h.waiting]
    exact hp

theorem Reports.congr (hp : p.Reports items) (hresults : q.results = p.results) (hpending : q.pending.Perm p.pending) :
    q.Reports items where
  length := hresults ▸ hp.length
  missing := fun i => by rw [hresults, hp.missing, hpending.mem_iff]
  nodup := hpending.nodup_iff.mpr hp.nodup

theorem Reports.step (hp : p.Reports items) (hstep : p.Step job event q) : q.Reports items := by
  rcases hstep.cases with ⟨slot, i, item, -, h⟩ | ⟨slot, i, item, -, h⟩ | ⟨slot, i, result, -, -, h⟩
  · exact hp.congr h.results h.pending
  · exact hp.congr h.results h.pending
  · -- the position was pending once, so it is pending no more
    obtain ⟨hnot, hnodup⟩ := List.nodup_cons.mp (h.pending.nodup_iff.mp hp.nodup)
    refine ⟨by rw [h.results, List.length_set, hp.length], ?_, hnodup⟩
    intro j
    rw [h.results, List.getElem?_set]
    split
    · rename_i hj
      subst hj
      refine iff_of_false ?_ hnot
      split <;> nofun
    · rename_i hj
      rw [hp.missing, h.pending.mem_iff, List.mem_cons]
      exact or_iff_right (Ne.symm hj)

theorem Reported.mono (h : Reported job items events slot i result) (event : Event) :
    Reported job items (events ++ [event]) slot i result := by
  refine ⟨?_, h.2⟩
  rw [starts, List.filterMap_append]
  exact List.mem_append_left _ h.1

theorem Sources.step (hp : p.Sources job items events) (hstep : p.Step job event q) :
    q.Sources job items (events ++ [event]) := by
  obtain ⟨hwaiting, hrunning, hchannel, hresults⟩ := hp
  have hresults' : ∀ i result, p.results[i]? = some (some result) →
      ∃ slot, Reported job items (events ++ [event]) slot i result := by
    intro i result hresult
    obtain ⟨slot, hreported⟩ := hresults i result hresult
    exact ⟨slot, hreported.mono event⟩
  rcases hstep.cases with ⟨slot, i, item, rfl, h⟩ | ⟨slot, i, item, rfl, h⟩ | ⟨slot, i, result, rfl, -, h⟩
  · refine ⟨?_, ?_, ?_, h.results ▸ hresults'⟩
    · intro x hx
      exact hwaiting x (h.waiting ▸ List.mem_cons_of_mem _ hx)
    · intro x hx
      rw [starts_started]
      rw [h.running, List.mem_append, List.mem_singleton] at hx
      rcases hx with hx | rfl
      · exact ⟨List.mem_append_left _ (hrunning x hx).1, (hrunning x hx).2⟩
      · exact ⟨List.mem_append_right _ List.mem_cons_self, hwaiting (i, item) (h.waiting ▸ List.mem_cons_self)⟩
    · intro x hx
      exact (hchannel x (h.channel ▸ hx)).mono _
  · refine ⟨h.waiting ▸ hwaiting, ?_, ?_, h.results ▸ hresults'⟩
    · intro x hx
      rw [starts_finished]
      exact hrunning x (h.running.mem_iff.mpr (List.mem_cons_of_mem _ hx))
    · intro x hx
      rw [h.channel, List.mem_append, List.mem_singleton] at hx
      rcases hx with hx | rfl
      · exact (hchannel x hx).mono _
      · -- the job that ends reports what it gives for its slot, position and item
        obtain ⟨hstart, hitem⟩ := hrunning (slot, i, item) (h.running.mem_iff.mpr List.mem_cons_self)
        exact Reported.mono ⟨hstart, item, hitem, rfl⟩ _
  · refine ⟨h.waiting ▸ hwaiting, ?_, ?_, ?_⟩
    · rw [starts_received, h.running]
      exact hrunning
    · intro x hx
      exact (hchannel x (h.channel ▸ List.mem_cons_of_mem _ hx)).mono _
    · intro j result' hj
      rw [h.results, List.getElem?_set] at hj
      split at hj
      · rename_i hij
        subst hij
        split at hj
        · cases hj
          exact ⟨slot, (hchannel (slot, i, result) (h.channel ▸ List.mem_cons_self)).mono _⟩
        · cases hj
      · exact hresults' j result' hj

theorem Inv.step (hp : Inv job size items events p) (hstep : p.Step job event q) :
    Inv job size items (events ++ [event]) q :=
  ⟨hp.slots.step hstep, hp.inOrder.step hstep, hp.reports.step hstep, hp.sources.step hstep⟩

theorem Reaches.inv (h : Reaches job (start size items) events p) : Inv job size items events p := by
  induction h with
  | refl => exact inv_start job size items
  | step _ hstep ih => exact ih.step hstep

end Step

/-! ### Jobs in flight are bounded -/

/-- The jobs in flight are at most as many as there are slots, and those at work have slots of their own. -/
structure Bounded (size : Nat) (p : Pool α β) : Prop where
  inFlight : p.running.length + p.channel.length ≤ size
  slot_lt : ∀ x ∈ p.running, x.1 < size
  slots_nodup : (p.running.map (·.1)).Nodup

theorem map_slot_running_sublist (p : Pool α β) :
    (p.running.map (·.1)).Sublist (p.inFlight.map (·.1) ++ p.free) := by
  unfold inFlight
  rw [List.map_append, List.map_map, List.append_assoc]
  exact List.sublist_append_left ..

theorem Slots.bounded (h : p.Slots size) : p.Bounded size where
  inFlight := by
    have hlength := h.partition.length_eq
    unfold Pool.inFlight at hlength
    simp only [List.length_append, List.length_map, List.length_range] at hlength
    omega
  slot_lt := by
    intro x hx
    have hslot := p.map_slot_running_sublist.subset (List.mem_map_of_mem hx)
    exact List.mem_range.mp (h.partition.subset hslot)
  slots_nodup := p.map_slot_running_sublist.nodup (h.partition.nodup_iff.mpr List.nodup_range)

/-! ### Nobody waits in vain -/

/-- The channel has room for the report of every job at work. When the submitter has a job but no slot for it, then a
    report can arrive; when it has started all jobs, a report can arrive exactly while a result is missing. -/
structure Unblocked (job : Job α β) (size : Nat) (p : Pool α β) : Prop where
  capacity : p.channel.length ≤ size
  finish : ∀ place < p.running.length, ∃ q, p.finish? job place = some q
  receive : p.waiting ≠ [] → p.submit? = none → p.running ≠ [] ∨ p.channel ≠ []
  drain : p.waiting = [] → (none ∈ p.results ↔ p.running ≠ [] ∨ p.channel ≠ [])

theorem inFlight_eq_nil_iff : p.inFlight = [] ↔ p.running = [] ∧ p.channel = [] := by
  unfold inFlight
  rw [List.append_eq_nil_iff, List.map_eq_nil_iff, List.map_eq_nil_iff]

theorem inFlight_ne_nil_iff : p.inFlight ≠ [] ↔ p.running ≠ [] ∨ p.channel ≠ [] := by
  rw [ne_eq, inFlight_eq_nil_iff, not_and_or]

/-- Without a free slot, each slot is that of a job in flight, and there is a slot. -/
theorem Slots.inFlight_ne_nil (h : p.Slots size) (hsize : 0 < size) (hfree : p.free = []) : p.inFlight ≠ [] := by
  intro hnil
  have hlength := h.partition.length_eq
  rw [hnil, hfree, List.length_range] at hlength
  exact absurd hlength (Nat.ne_of_lt hsize)

theorem Reports.none_mem_iff (h : p.Reports items) : none ∈ p.results ↔ p.pending ≠ [] := by
  rw [List.mem_iff_getElem?]
  constructor
  · rintro ⟨i, hi⟩
    exact List.ne_nil_of_mem ((h.missing i).mp hi)
  · intro hne
    obtain ⟨i, hi⟩ := List.exists_mem_of_ne_nil _ hne
    exact ⟨i, (h.missing i).mpr hi⟩

theorem Inv.unblocked {events : List Event} (h : Inv job size items events p) : p.Unblocked job (max size 1) where
  capacity := Nat.le_trans (Nat.le_add_left ..) h.slots.bounded.inFlight
  finish := by
    intro place hplace
    have hinFlight := h.slots.bounded.inFlight
    rw [← h.slots.size_eq] at hinFlight
    exact finish?_isSome hplace (by omega)
  receive := by
    intro hwaiting hsubmit
    have hfree := (submit?_eq_none_iff.mp hsubmit).resolve_left hwaiting
    exact inFlight_ne_nil_iff.mp (h.slots.inFlight_ne_nil (by omega) hfree)
  drain := by
    intro hwaiting
    rw [h.reports.none_mem_iff, pending, hwaiting, List.map_nil, List.nil_append, ne_eq, List.map_eq_nil_iff]
    exact inFlight_ne_nil_iff

/-! ### In the end every result is there -/

/-- Every job was started once, in the order of the items, and each has its result: what it gives for the slot that it
    was started with, its position and its item. -/
structure Complete (job : Job α β) (items : List α) (events : List Event) (p : Pool α β) : Prop where
  starts_index : (starts events).map (·.2) = List.range items.length
  results_eq : p.results.filterMap id =
    List.zipWith (fun x item => job.outcome x.1 x.2 item) (starts events) items
  length_results : (p.results.filterMap id).length = items.length
  panic_index : ∀ (i : Nat) (e : JobPanic), (p.results.filterMap id)[i]? = some (.error e) → e.index = i

theorem next?_eq_some (h : p.next? job = some q) : ∃ event, p.Step job event q := by
  unfold next? at h
  rw [Option.orElse_eq_some, Option.orElse_eq_some] at h
  rcases h with h | ⟨hsubmit, h | ⟨-, h⟩⟩
  · obtain ⟨_, _, _, hstarts⟩ := submit?_eq_some h
    exact ⟨_, .start h hstarts.running⟩
  · obtain ⟨_, _, _, hreceives⟩ := receive?_eq_some h
    exact ⟨_, .receive hsubmit h hreceives.channel⟩
  · cases hrunning : p.running[0]? with
    | none =>
      unfold finish? at h
      rw [hrunning] at h
      cases h
    | some x => exact ⟨_, .finish 0 hrunning h⟩

theorem Inv.pending_eq_nil {events : List Event} (h : Inv job size items events p) (hnext : p.next? job = none) :
    p.pending = [] := by
  unfold next? at hnext
  rw [Option.orElse_eq_none, Option.orElse_eq_none] at hnext
  obtain ⟨hsubmit, hreceive, hfinish⟩ := hnext
  have hrunning : p.running = [] := by
    by_contra hne
    obtain ⟨q, hq⟩ := h.unblocked.finish 0 (List.length_pos_iff.mpr hne)
    rw [hfinish] at hq
    cases hq
  have hinFlight := inFlight_eq_nil_iff.mpr ⟨hrunning, receive?_eq_none_iff.mp hreceive⟩
  rcases submit?_eq_none_iff.mp hsubmit with hwaiting | hfree
  · rw [pending, hwaiting, hinFlight]
    rfl
  · exact absurd hinFlight (h.slots.inFlight_ne_nil (by omega) hfree)

theorem isFinal_of_pending_eq_nil (hpending : p.pending = []) : p.IsFinal job := by
  intro event q hstep
  obtain ⟨hwaiting, hinFlight⟩ := List.append_eq_nil_iff.mp hpending
  obtain ⟨hrunning, hchannel⟩ := inFlight_eq_nil_iff.mp (List.map_eq_nil_iff.mp hinFlight)
  rcases hstep.cases with ⟨slot, i, item, -, h⟩ | ⟨slot, i, item, -, h⟩ | ⟨slot, i, result, -, -, h⟩
  · rw [h.waiting] at hwaiting
    cases hwaiting
  · have hperm := h.running
    rw [hrunning] at hperm
    exact absurd hperm.symm.eq_nil nofun
  · rw [h.channel] at hchannel
    cases hchannel

theorem Inv.isFinal_iff {events : List Event} (h : Inv job size items events p) :
    p.IsFinal job ↔ p.pending = [] := by
  refine ⟨fun hfinal => h.pending_eq_nil ?_, isFinal_of_pending_eq_nil⟩
  rw [Option.eq_none_iff_forall_ne_some]
  intro q hq
  obtain ⟨event, hstep⟩ := next?_eq_some hq
  exact hfinal event q hstep

theorem length_starts {events : List Event} {n : Nat} (hstarts : (starts events).map (·.2) = List.range n) :
    (starts events).length = n := by
  rw [← List.length_map (·.2), hstarts, List.length_range]

theorem snd_of_getElem?_starts {events : List Event} {n : Nat} {x : Nat × Nat}
    (hstarts : (starts events).map (·.2) = List.range n) (h : (starts events)[i]? = some x) : x.2 = i := by
  have hrange : (List.range n)[i]? = some x.2 := by rw [← hstarts, List.getElem?_map, h]; rfl
  obtain ⟨hlt, hi⟩ := List.getElem?_eq_some_iff.mp hrange
  rw [← hi, List.getElem_range]

theorem getElem?_starts {events : List Event} {n : Nat} (hstarts : (starts events).map (·.2) = List.range n)
    (h : (slot, i) ∈ starts events) : (starts events)[i]? = some (slot, i) := by
  obtain ⟨j, hj⟩ := List.mem_iff_getElem?.mp h
  have hi : i = j := snd_of_getElem?_starts hstarts hj
  rw [hi, hj, hi]

theorem Inv.complete {events : List Event} (h : Inv job size items events p) (hpending : p.pending = []) :
    p.Complete job items events := by
  have hstarts : (starts events).map (·.2) = List.range items.length := by
    have hinOrder := h.inOrder
    unfold InOrder at hinOrder
    rw [(List.append_eq_nil_iff.mp hpending).1, List.append_nil] at hinOrder
    exact hinOrder
  have hlength := length_starts hstarts
  have hresults : p.results =
      (List.zipWith (fun x item => job.outcome x.1 x.2 item) (starts events) items).map some := by
    refine List.ext_getElem (by simp [h.reports.length, hlength]) fun i hi hi' => ?_
    -- nothing is pending, so the result is there, and it is that of the job that was started at this position
    have hsome := List.getElem?_eq_getElem hi
    cases hresult : p.results[i] with
    | none =>
      rw [hresult, h.reports.missing, hpending] at hsome
      cases hsome
    | some result =>
      rw [hresult] at hsome
      obtain ⟨slot, hstart, item, hitem, rfl⟩ := h.sources.results i result hsome
      obtain ⟨_, hstart⟩ := List.getElem?_eq_some_iff.mp (getElem?_starts hstarts hstart)
      obtain ⟨_, hitem⟩ := List.getElem?_eq_some_iff.mp hitem
      rw [List.getElem_map, List.getElem_zipWith, hstart, hitem]
  have heq : p.results.filterMap id =
      List.zipWith (fun x item => job.outcome x.1 x.2 item) (starts events) items := by
    rw [hresults, List.filterMap_map]
    exact List.filterMap_some
  refine ⟨hstarts, heq, ?_, ?_⟩
  · rw [heq, List.length_zipWith, hlength, Nat.min_self]
  · intro i e he
    rw [heq, List.getElem?_zipWith_eq_some] at he
    obtain ⟨x, item, hx, -, he⟩ := he
    rw [Job.outcome_error_index he]
    exact snd_of_getElem?_starts hstarts hx

theorem Complete.results_of_ignores_slot {events : List Event} {f : Nat → α → Except Breakdown β}
    (h : p.Complete job items events) (hjob : ∀ slot, job slot = f) :
    p.results.filterMap id = items.mapIdx fun i item => (f i item).mapError (JobPanic.ofBreakdown i) := by
  rw [h.results_eq]
  refine List.ext_getElem (by simp [length_starts h.starts_index]) fun i hi hi' => ?_
  rw [List.getElem_zipWith, List.getElem_mapIdx, Job.outcome, hjob,
    snd_of_getElem?_starts h.starts_index (List.getElem?_eq_getElem _)]

/-! ### The run of the pool itself -/

/-- The steps that are left. -/
def left (p : Pool α β) : Nat := 3 * p.waiting.length + 2 * p.running.length + p.channel.length

theorem Step.left {event : Event} (hstep : p.Step job event q) : q.left + 1 = p.left := by
  unfold Pool.left
  rcases hstep.cases with ⟨slot, i, item, -, h⟩ | ⟨slot, i, item, -, h⟩ | ⟨slot, i, result, -, -, h⟩
  · rw [h.waiting, h.running, h.channel, List.length_cons, List.length_append, List.length_singleton]
    omega
  · rw [h.waiting, h.running.length_eq, h.channel, List.length_cons, List.length_append, List.length_singleton]
    omega
  · rw [h.waiting, h.running, h.channel, List.length_cons]
    omega

/-- Every course comes to an end: each job is started, ends and is received. -/
theorem Reaches.length_add_left {events : List Event} (h : Reaches job p events q) :
    events.length + q.left = p.left := by
  induction h with
  | refl => exact Nat.zero_add _
  | step _ hstep ih =>
    have hleft := hstep.left
    rw [List.length_append, List.length_singleton]
    omega

theorem left_start (size : Nat) (items : List α) : (start size items : Pool α β).left = 3 * items.length := by
  show 3 * (items.mapIdx _).length + 2 * 0 + 0 = _
  rw [List.length_mapIdx]
  omega

/-- With enough steps the pool comes to an end. -/
theorem Reaches.go {events : List Event} (h : Reaches job (start size items) events p) (steps : Nat)
    (hsteps : p.left ≤ steps) :
    ∃ events', Reaches job (start size items) events' (p.go job steps) ∧ (p.go job steps).pending = [] := by
  induction steps generalizing events p with
  | zero =>
    -- every step lowers what is left, so there is none
    refine ⟨events, h, h.inv.pending_eq_nil ?_⟩
    rw [Option.eq_none_iff_forall_ne_some]
    intro q hq
    obtain ⟨_, hstep⟩ := next?_eq_some hq
    have hleft := hstep.left
    omega
  | succ steps ih =>
    unfold Pool.go
    cases hnext : p.next? job with
    | none => exact ⟨events, h, h.inv.pending_eq_nil hnext⟩
    | some q =>
      obtain ⟨_, hstep⟩ := next?_eq_some hnext
      have hleft := hstep.left
      exact ih (h.step hstep) (by omega)

/-- The run of the pool is one of its courses, to the end. -/
theorem run_reaches (size : Nat) (items : List α) (job : Job α β) :
    ∃ events p, Reaches job (start size items) events p ∧ p.Complete job items events ∧
      run size items job = p.results.filterMap id := by
  obtain ⟨events, hreaches, hpending⟩ :=
    Reaches.go (.refl : Reaches job (start size items) [] (start size items)) (3 * items.length)
      (Nat.le_of_eq (left_start size items))
  exact ⟨events, _, hreaches, hreaches.inv.complete hpending, rfl⟩

/-- For jobs that ignore their slot, the run is a map. -/
theorem run_eq_mapIdx (size : Nat) (items : List α) (f : Nat → α → Except Breakdown β) :
    run size items (fun _ => f) = items.mapIdx fun i item => (f i item).mapError (JobPanic.ofBreakdown i) := by
  obtain ⟨_, _, _, hcomplete, hrun⟩ := run_reaches size items fun _ => f
  rw [hrun, hcomplete.results_of_ignores_slot fun _ => rfl]

/-! ### Every course -/

/-- In every state that a pool can reach, the jobs in flight are at most as many as there are slots, no two at work
    share a slot, the channel has room for all of them, and the submitter waits for a report only if one can arrive.
    Where no step is left, every job has its result, in the order of the items. For jobs that ignore their slot these
    do not depend on the number of slots or on the course. -/
theorem Reaches.bounded_unblocked_complete {events : List Event} (h : Reaches job (start size items) events p) :
    p.Bounded (max size 1) ∧ p.Unblocked job (max size 1) ∧
      (p.IsFinal job → p.Complete job items events ∧
        ∀ f : Nat → α → Except Breakdown β, (∀ slot, job slot = f) →
          p.results.filterMap id = items.mapIdx fun i item => (f i item).mapError (JobPanic.ofBreakdown i)) := by
  have hinv := h.inv
  refine ⟨hinv.slots.bounded, hinv.unblocked, fun hfinal => ?_⟩
  have hcomplete := hinv.complete (hinv.isFinal_iff.mp hfinal)
  exact ⟨hcomplete, fun f hjob => hcomplete.results_of_ignores_slot hjob⟩

/-- Divides ten by each item, and breaks down at zero. -/
def tenths : Job Nat Nat := fun _ _ n => if n = 0 then .error (.message "zero") else .ok (10 / n)

/-- In two slots: the second job ends first and breaks down, and the third ends before the first. -/
theorem tenths_bounded_unblocked_complete :
    ∃ events p, Reaches tenths (start 2 [1, 0, 3]) events p ∧ p.IsFinal tenths ∧ p.Bounded 2 ∧
      p.Unblocked tenths 2 ∧ starts events = [(0, 0), (1, 1), (1, 2)] ∧
      p.results.filterMap id = [.ok 10, .error ⟨1, "zero"⟩, .ok 3] := by
  have h : Reaches tenths (start 2 [1, 0, 3]) _ _ :=
    .step (.step (.step (.step (.step (.step (.step (.step (.step .refl
      (.start rfl rfl)) (.start rfl rfl)) (.finish 1 rfl rfl)) (.receive rfl rfl rfl)) (.start rfl rfl))
      (.finish 1 rfl rfl)) (.finish 0 rfl rfl)) (.receive rfl rfl rfl)) (.receive rfl rfl rfl)
  obtain ⟨hbounded, hunblocked, hcomplete⟩ := h.bounded_unblocked_complete
  refine ⟨_, _, h, isFinal_of_pending_eq_nil rfl, hbounded, hunblocked, rfl, ?_⟩
  rw [(hcomplete (isFinal_of_pending_eq_nil rfl)).2 (tenths 0) fun _ => rfl]
  rfl

end Pool
end Formulary
