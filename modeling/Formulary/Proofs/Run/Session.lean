import Formulary.Proofs.Formula.Failure
import Formulary.Run.Session

/-! What parts of the work on a model do. A part is followed session by session: it comes to a result and leaves a
    session, in which the keystream and the oracle have gone on and reports and files have been added. A part that does
    not come to a result meets a fault or has an error, and it has it from the first of its steps that does. -/

namespace Formulary
namespace Work
variable {σ α β ε δ : Type} {s t u : Session σ}

/-- From the session `s` the part comes to `a`, and leaves `t`. -/
def Does (x : Work σ α) (s : Session σ) (a : α) (t : Session σ) : Prop := x.run.run s = (.ok a, t)

/-- From the session `s` the part succeeds with `a`, and leaves `t`. -/
def Gives (x : ExceptT ε (Work σ) α) (s : Session σ) (a : α) (t : Session σ) : Prop := Does x.run s (.ok a) t

/-! ### Parts that do not fail -/

@[simp] theorem does_pure {a b : α} : Does (pure a) s b t ↔ a = b ∧ s = t := by
  simp only [Does, ExceptT.run_pure]
  show (Except.ok a, s) = (Except.ok b, t) ↔ _
  simp

@[simp] theorem does_bind {x : Work σ α} {f : α → Work σ β} {b : β} :
    Does (x >>= f) s b u ↔ ∃ a t, Does x s a t ∧ Does (f a) t b u := by
  simp only [Does, ExceptT.run_bind, StateT.run_bind]
  cases h : x.run.run s with
  | mk r t =>
    cases r with
    | error e =>
      constructor
      · nofun
      · rintro ⟨_, _, heq, -⟩
        cases heq
    | ok a =>
      constructor
      · intro hf
        exact ⟨a, t, rfl, hf⟩
      · rintro ⟨_, _, heq, hf⟩
        cases heq
        exact hf

@[simp] theorem does_report {notices : List Notice} {a : Unit} :
    Does (report notices) s a t ↔ t = { s with notices := s.notices ++ notices } := by
  show (Except.ok (), _) = (Except.ok a, t) ↔ _
  simp [eq_comm]

@[simp] theorem does_wrote {path text : String} {a : Unit} :
    Does (wrote path text) s a t ↔ t = { s with written := s.written ++ [(path, text)] } := by
  show (Except.ok (), _) = (Except.ok a, t) ↔ _
  simp [eq_comm]

@[simp] theorem does_consult {question : StateM σ (List Notice × α)} {a : α} :
    Does (consult question) s a t ↔
      ∃ notices oracle, question.run s.oracle = ((notices, a), oracle) ∧
        t = { s with oracle, notices := s.notices ++ notices } := by
  have hrun : (consult question).run.run s = (.ok (question.run s.oracle).1.2,
      { s with oracle := (question.run s.oracle).2, notices := s.notices ++ (question.run s.oracle).1.1 }) := rfl
  rw [Does, hrun]
  constructor
  · intro h
    cases h
    exact ⟨_, _, rfl, rfl⟩
  · rintro ⟨notices, oracle, hquestion, rfl⟩
    rw [hquestion]

/-! ### Parts that may fail -/

@[simp] theorem gives_pure {a b : α} : Gives (pure a : ExceptT ε (Work σ) α) s b t ↔ a = b ∧ s = t := by
  simp only [Gives, ExceptT.run_pure, does_pure, Except.ok.injEq]

@[simp] theorem gives_bind {x : ExceptT ε (Work σ) α} {f : α → ExceptT ε (Work σ) β} {b : β} :
    Gives (x >>= f) s b u ↔ ∃ a t, Gives x s a t ∧ Gives (f a) t b u := by
  simp only [Gives, ExceptT.run_bind, does_bind]
  constructor
  · rintro ⟨r, t, hx, hf⟩
    cases r with
    | error e => cases (does_pure.mp hf).1
    | ok a => exact ⟨a, t, hx, hf⟩
  · rintro ⟨a, t, hx, hf⟩
    exact ⟨.ok a, t, hx, hf⟩

@[simp] theorem gives_throw {e : ε} {a : α} : ¬Gives (throw e : ExceptT ε (Work σ) α) s a t := by
  simp only [Gives, ExceptT.run_throw, does_pure, reduceCtorEq, false_and, not_false_eq_true]

@[simp] theorem gives_ite {p : Prop} [Decidable p] {x y : ExceptT ε (Work σ) α} {a : α} :
    Gives (if p then x else y) s a t ↔ if p then Gives x s a t else Gives y s a t := by
  split <;> rfl

@[simp] theorem gives_lift {x : Work σ α} {a : α} :
    Gives (liftM x : ExceptT ε (Work σ) α) s a t ↔ Does x s a t := by
  show Does (Except.ok <$> x) s (.ok a) t ↔ _
  rw [map_eq_pure_bind]
  simp only [does_bind, does_pure, Except.ok.injEq]
  constructor
  · rintro ⟨_, _, hx, rfl, rfl⟩
    exact hx
  · intro hx
    exact ⟨_, _, hx, rfl, rfl⟩

/-- A check leaves the session as it is. -/
@[simp] theorem gives_check {x : Except Fault α} {a : α} :
    Gives (liftM x : ExceptT ε (Work σ) α) s a t ↔ x = .ok a ∧ s = t := by
  cases x with
  | error e => exact ⟨nofun, nofun⟩
  | ok b =>
    show ((Except.ok (Except.ok b), s) : Except Fault (Except ε α) × Session σ) = (.ok (.ok a), t) ↔ _
    simp

@[simp] theorem gives_adapt {x : ExceptT ε (Work σ) α} {f : ε → δ} {a : α} :
    Gives (x.adapt f) s a t ↔ Gives x s a t := by
  show Does ((Except.mapError f) <$> x.run) s (.ok a) t ↔ _
  rw [map_eq_pure_bind]
  simp only [does_bind, does_pure]
  constructor
  · rintro ⟨r, t, hx, hr, rfl⟩
    cases r with
    | error e => cases hr
    | ok b =>
      cases hr
      exact hx
  · intro hx
    exact ⟨_, _, hx, rfl, rfl⟩

section Generate
variable {g : Generation α} {result : Except GenerationError α} {stream : Keystream} {fault : Fault}

/-- The draws move the keystream on. -/
theorem run_generate_of_ok (h : g.run.run s.stream = .ok (result, stream)) :
    (generate g : ExceptT GenerationError (Work σ) α).run.run.run s = (.ok result, { s with stream }) := by
  simp only [StateT.run] at h
  simp only [generate, ExceptT.run_mk, StateT.run, h]

theorem run_generate_of_error (h : g.run.run s.stream = .error fault) :
    (generate g : ExceptT GenerationError (Work σ) α).run.run.run s = (.error fault, s) := by
  simp only [StateT.run] at h
  simp only [generate, ExceptT.run_mk, StateT.run, h]

@[simp] theorem gives_generate {a : α} :
    Gives (generate g : ExceptT GenerationError (Work σ) α) s a t ↔
      ∃ stream, g.Gives s.stream a stream ∧ t = { s with stream } := by
  simp only [Gives, Does, Generation.Gives, Draw.Gives]
  cases hrun : g.run.run s.stream with
  | error e =>
    rw [run_generate_of_error hrun]
    constructor
    · intro h
      cases h
    · rintro ⟨_, h, -⟩
      cases h
  | ok r =>
    obtain ⟨result, stream⟩ := r
    rw [run_generate_of_ok hrun]
    constructor
    · intro h
      cases h
      exact ⟨_, rfl, rfl⟩
    · rintro ⟨_, heq, rfl⟩
      cases heq
      rfl

end Generate

theorem exists_gives_and {x : ExceptT ε (Work σ) α} {p : α → Bool}
    (h : ((x.run.run s).1.toOption.bind Except.toOption).any p = true) : ∃ a t, Gives x s a t ∧ p a = true := by
  obtain ⟨a, ha, hp⟩ := (Option.any_eq_true _ _).mp h
  obtain ⟨r, hr, hra⟩ := Option.bind_eq_some_iff.mp ha
  refine ⟨a, (x.run.run s).2, Prod.ext ?_ rfl, hp⟩
  cases hx : (x.run.run s).1 with
  | error e => simp [hx, Except.toOption] at hr
  | ok r' =>
    rw [hx] at hr
    cases hr
    cases r with
    | error e => simp [Except.toOption] at hra
    | ok b =>
      cases hra
      exact hx

theorem exists_gives {x : ExceptT ε (Work σ) α}
    (h : ((x.run.run s).1.toOption.bind Except.toOption).isSome = true) : ∃ a t, Gives x s a t := by
  obtain ⟨a, t, hx, -⟩ := exists_gives_and (x := x) (s := s) (p := fun _ => true) (by rwa [Option.any_true])
  exact ⟨a, t, hx⟩

/-! ### What comes of a part -/

section Outcome
variable {x : ExceptT ε (Work σ) α} {f : α → ExceptT ε (Work σ) β} {a : α} {failure : Fault ⊕ ε}

def outcome (x : ExceptT ε (Work σ) α) (s : Session σ) : Outcome ε α :=
  match (x.run.run.run s).1 with
  | .error fault => .error (.inl fault)
  | .ok (.error e) => .error (.inr e)
  | .ok (.ok a) => .ok a

theorem outcome_eq_ok : outcome x s = .ok a ↔ ∃ t, Gives x s a t := by
  unfold outcome Gives Does
  constructor
  · intro h
    refine ⟨(x.run.run.run s).2, Prod.ext ?_ rfl⟩
    split at h
    · cases h
    · cases h
    · cases h
      assumption
  · rintro ⟨t, h⟩
    rw [h]

theorem run_bind (x : ExceptT ε (Work σ) α) (f : α → ExceptT ε (Work σ) β) (s : Session σ) :
    (x >>= f).run.run.run s =
      match x.run.run.run s with
      | (.ok (.ok a), t) => (f a).run.run.run t
      | (.ok (.error e), t) => (.ok (.error e), t)
      | (.error fault, t) => (.error fault, t) := by
  simp only [ExceptT.run_bind, StateT.run_bind]
  rcases x.run.run.run s with ⟨_ | _ | _, t⟩ <;> rfl

theorem outcome_bind_of_gives (h : Gives x s a t) : outcome (x >>= f) s = outcome (f a) t := by
  have hx : x.run.run.run s = (.ok (.ok a), t) := h
  rw [outcome, run_bind, hx, outcome]

theorem outcome_bind_of_error (h : outcome x s = .error failure) : outcome (x >>= f) s = .error failure := by
  rw [outcome, run_bind]
  unfold outcome at h
  rcases hx : x.run.run.run s with ⟨_ | _ | _, t⟩
  · rw [hx] at h
    cases h
    rfl
  · rw [hx] at h
    cases h
    rfl
  · rw [hx] at h
    cases h

theorem outcome_bind_eq_error :
    outcome (x >>= f) s = .error failure ↔
      outcome x s = .error failure ∨ ∃ a t, Gives x s a t ∧ outcome (f a) t = .error failure := by
  constructor
  · intro h
    cases hx : outcome x s with
    | error failure' =>
      rw [outcome_bind_of_error hx] at h
      cases h
      exact .inl rfl
    | ok a =>
      obtain ⟨t, ha⟩ := outcome_eq_ok.mp hx
      rw [outcome_bind_of_gives ha] at h
      exact .inr ⟨a, t, ha, h⟩
  · rintro (hx | ⟨a, t, ha, hf⟩)
    · exact outcome_bind_of_error hx
    · rwa [outcome_bind_of_gives ha]

@[simp] theorem outcome_pure : outcome (pure a : ExceptT ε (Work σ) α) s = .ok a := rfl

@[simp] theorem outcome_throw {e : ε} :
    outcome (throw e : ExceptT ε (Work σ) α) s = .error failure ↔ .inr e = failure := by
  show Except.error (.inr e) = .error failure ↔ _
  rw [Except.error.injEq]

@[simp] theorem outcome_check {r : Except Fault α} :
    outcome (liftM r : ExceptT ε (Work σ) α) s = .error failure ↔
      ∃ fault, r = .error fault ∧ .inl fault = failure := by
  cases r with
  | error fault =>
    show Except.error (.inl fault) = .error failure ↔ _
    simp
  | ok a =>
    show Except.ok a = .error failure ↔ _
    simp

theorem outcome_generate {g : Generation α} : outcome (generate g) s = g.outcome s.stream := by
  cases hrun : g.run.run s.stream with
  | error fault => rw [outcome, run_generate_of_error hrun, Generation.outcome, hrun]
  | ok r =>
    obtain ⟨result, stream⟩ := r
    rw [outcome, run_generate_of_ok hrun, Generation.outcome, hrun]
    cases result <;> rfl

@[simp] theorem outcome_consult_ne {question : StateM σ (List Notice × α)} :
    outcome (liftM (consult question) : ExceptT ε (Work σ) α) s ≠ .error failure := nofun

@[simp] theorem outcome_report_ne {notices : List Notice} :
    outcome (liftM (report notices : Work σ Unit) : ExceptT ε (Work σ) Unit) s ≠ .error failure := nofun

@[simp] theorem outcome_wrote_ne {path text : String} :
    outcome (liftM (wrote path text : Work σ Unit) : ExceptT ε (Work σ) Unit) s ≠ .error failure := nofun

/-- Work that has no errors of its own can still meet a fault. -/
@[simp] theorem outcome_lift_ne {y : Work σ α} {e : ε} :
    outcome (liftM y : ExceptT ε (Work σ) α) s ≠ .error (.inr e) := by
  have hrun : (liftM y : ExceptT ε (Work σ) α).run.run.run s = (Except.ok <$> y).run.run s := rfl
  rw [outcome, hrun, ExceptT.run_map, StateT.run_map]
  rcases y.run.run s with ⟨_ | _, t⟩ <;> intro h <;> cases h

@[simp] theorem outcome_adapt {f : ε → δ} {failure : Fault ⊕ δ} :
    outcome (x.adapt f) s = .error failure ↔ ∃ cause, outcome x s = .error cause ∧ cause.map id f = failure := by
  have hrun : (x.adapt f).run.run.run s = (Except.mapError f <$> x.run).run.run s := rfl
  rw [outcome, hrun, ExceptT.run_map, StateT.run_map, outcome]
  rcases x.run.run.run s with ⟨fault | e | a, t⟩
  · show Except.error (.inl fault) = .error failure ↔ _
    simp
  · show Except.error (.inr (f e)) = .error failure ↔ _
    simp
  · show Except.ok a = .error failure ↔ _
    simp

@[simp] theorem outcome_settle {r : Except ε α} :
    outcome (settle r : ExceptT ε (Work σ) α) s = .error failure ↔ ∃ e, r = .error e ∧ .inr e = failure := by
  cases r with
  | error e =>
    show Except.error (.inr e) = .error failure ↔ _
    simp
  | ok a =>
    show Except.ok a = .error failure ↔ _
    simp

end Outcome

end Work
end Formulary
