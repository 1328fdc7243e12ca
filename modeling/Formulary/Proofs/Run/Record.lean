import Formulary.Proofs.Run.Selection

/-! Writing down what an oracle is asked. A recorded oracle answers as the oracle does and keeps a list of the
    requests. Nothing else reads that list, so the work takes the same course as without it. -/

namespace Formulary
variable {σ : Type}

/-- The oracle, with a list of the requests that it was asked. -/
def Oracle.recorded (o : Oracle σ) : Oracle (σ × List Request) := fun request state =>
  let (reply, next) := (o request).run state.1
  (reply, next, state.2 ++ [request])

/-- The workshop with its oracle recorded. -/
def Workshop.recorded (w : Workshop σ) : Workshop (σ × List Request) := { w with oracle := w.oracle.recorded }

/-- The session with the requests that were asked so far. -/
def Session.recording (s : Session σ) (requests : List Request) : Session (σ × List Request) where
  stream := s.stream
  oracle := (s.oracle, requests)
  notices := s.notices
  written := s.written

namespace Subject
variable {oracle : Oracle σ} {subject : Subject} {category : Category} {batch : List Formula} {target : Nat}
  {notices : List Notice} {positions : List Nat} {o o' : σ}

/-- The questions asked about a batch: one, if there is anything to check it against. -/
def requests (s : Subject) (category : Category) (batch : List Formula) (target : Nat) : List Request :=
  (s.request? category batch target).toList

theorem filter_recorded (log : List Request)
    (h : (subject.filter oracle category batch target).run o = ((notices, positions), o')) :
    (subject.filter oracle.recorded category batch target).run (o, log) =
      ((notices, positions), o', log ++ subject.requests category batch target) := by
  unfold filter requests at *
  cases hrequest : subject.request? category batch target with
  | none =>
    rw [hrequest] at h
    cases h
    rw [Option.toList_none, List.append_nil]
    rfl
  | some request =>
    rw [hrequest] at h
    obtain ⟨hkept, ho⟩ := Prod.ext_iff.mp h
    exact Prod.ext hkept (Prod.ext ho rfl)

end Subject

namespace Selection

/-- The questions asked in the rounds. -/
def requests (s : Selection) (subject : Subject) (category : Category) : List Request :=
  s.rounds.flatMap fun r => subject.requests category r.batch r.target

end Selection

namespace Workshop
variable {w : Workshop σ} {subject : Subject} {category : Category} {binder : Binder} {count : Nat} {r : Round}
  {rs : List Round} {selection : Selection} {s t : Session σ}

theorem batch_recorded (size : Nat) : w.recorded.batch category binder size = w.batch category binder size := by
  induction size with
  | zero => rfl
  | succ size ih =>
    rw [batch, batch, ih]
    rfl

theorem Plays.recorded (log : List Request) (h : w.Plays subject category binder r s t) :
    w.recorded.Plays subject category binder r (s.recording log)
      (t.recording (log ++ subject.requests category r.batch r.target)) := by
  obtain ⟨stream, notices, oracle, hbatch, hfilter, rfl⟩ := h.consulted
  refine ⟨⟨stream, notices, _, ?_, Subject.filter_recorded log hfilter, rfl⟩, h.taken⟩
  rw [batch_recorded]
  exact hbatch

theorem PlaysAll.recorded (log : List Request) (h : w.PlaysAll subject category binder rs s t) :
    w.recorded.PlaysAll subject category binder rs (s.recording log)
      (t.recording (log ++ rs.flatMap fun r => subject.requests category r.batch r.target)) := by
  induction h generalizing log with
  | none s =>
    rw [List.flatMap_nil, List.append_nil]
    exact .none _
  | round hplay _ ih =>
    rw [List.flatMap_cons, ← List.append_assoc]
    exact .round (hplay.recorded log) (ih _)

theorem Fills.recorded {missing : Nat} {fill : List Formula} (log : List Request)
    (h : w.Fills subject category binder missing fill s t) :
    w.recorded.Fills subject category binder missing fill (s.recording log) (t.recording log) := by
  by_cases hmissing : missing = 0
  · obtain ⟨hfill, rfl⟩ := (fills_of_eq_zero hmissing).mp h
    exact (fills_of_eq_zero hmissing).mpr ⟨hfill, rfl⟩
  · obtain ⟨stream, hfill, rfl⟩ := (fills_of_ne_zero hmissing).mp h
    refine (fills_of_ne_zero hmissing).mpr ⟨stream, ?_, rfl⟩
    rw [batch_recorded]
    exact hfill

/-- A selection is made in the same way when the oracle is recorded. -/
theorem select_recorded (log : List Request)
    (h : Work.Gives (w.select subject category binder count) s selection t) :
    Work.Gives (w.recorded.select subject category binder count) (s.recording log) selection
      (t.recording (log ++ selection.requests subject category)) := by
  obtain ⟨u, hplays, hpaced, hle, hfills⟩ := select_gives_iff.mp h
  exact select_gives_iff.mpr ⟨_, hplays.recorded log, hpaced, hle, hfills.recorded _⟩

end Workshop
end Formulary
