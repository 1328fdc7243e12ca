import Formulary.Proofs.Run.Failure

/-! What cannot happen in the work on a category. Whatever the settings, the nets and the oracle are, every number is
    drawn between bounds that have one between them, every position is one of its list, and nothing is taken away
    from less. All that is left is that there is no room for a list, or that no candidate is ever accepted. -/

namespace Formulary

/-! ### Depths -/

namespace Catalog

/-- The depth of a state formula is only counted down where it is more than one. -/
theorem boolean_eq (c : Catalog) (depth : Nat) :
    c.boolean depth =
      if depth ≤ 1 then return .atom
      else node c.booleanOperators (fun op => do
        let below ← Fault.difference depth 1
        if op.isOverBooleans then c.boolean below else c.path below) := by
  match depth with
  | 0 | 1 => rfl
  | depth + 2 =>
    have hdifference : Fault.difference (depth + 2) 1 = .ok (depth + 1) :=
      Fault.difference_eq_ok.mpr ⟨by omega, rfl⟩
    rw [if_neg (by omega), hdifference]
    rfl

theorem state_eq (c : Catalog) (depth : Nat) :
    c.state depth =
      if depth ≤ 1 then return .atom
      else node c.stateOperators (fun _ => do c.state (← Fault.difference depth 1)) := by
  match depth with
  | 0 | 1 => rfl
  | depth + 2 =>
    have hdifference : Fault.difference (depth + 2) 1 = .ok (depth + 1) :=
      Fault.difference_eq_ok.mpr ⟨by omega, rfl⟩
    rw [if_neg (by omega), hdifference]
    rfl

end Catalog

/-! ### Constants -/

namespace GenerationSettings
variable (g : GenerationSettings)

/-- Bounds without a number between them are replaced. -/
theorem constantBounds_le : g.constantBounds.1 ≤ g.constantBounds.2 := by
  unfold constantBounds
  split
  case isTrue => decide
  case isFalse h =>
    simp only [not_or, not_lt] at h
    exact h.2

end GenerationSettings

theorem Binder.le_widen {b : Binder} (marking : Option Int) (h : b.leastConstant ≤ b.greatestConstant) :
    (b.widen marking).leastConstant ≤ (b.widen marking).greatestConstant := by
  unfold widen
  split
  · split
    case isTrue hgreater => exact Int.le_trans h (Int.le_of_lt hgreater)
    case isFalse => exact h
  · exact h

/-- A model has constants for its atoms, whatever its initial marking is. -/
theorem Model.constants_le (m : Model) (g : GenerationSettings) :
    (m.binder g).leastConstant ≤ (m.binder g).greatestConstant :=
  Binder.le_widen m.greatestMarking g.constantBounds_le

/-! ### The work on a category -/

namespace Workshop
variable {σ : Type} {w : Workshop σ} {m : Model} {twin : Option Model} {category : Category} {s : Session σ}
  {fault : Fault}

theorem runCategory_outcome_fault (h : Work.outcome (w.runCategory m twin category) s = .error (.inl fault)) :
    w.catalog.Prevents category.grammar w.settings.generation.formulaDepth.toNat (.inl fault) := by
  obtain ⟨_, _, hfile⟩ | ⟨x, stream, cause, hcandidate, hcause⟩ := runCategory_outcome_error h
  · cases hfile
  · cases cause with
    | inr => cases hcause
    | inl =>
      cases hcause
      rcases candidate_outcome_error hcandidate with hgenerate | hbind
      · exact hgenerate
      · cases hbind with
        | constants hlt => exact absurd (x.constants_le _) (Int.not_le.mpr hlt)

/-- Of all faults, the work on a category can only meet those of drawing a formula: no candidate is ever accepted, or
    there is no room for operands. -/
theorem runCategory_safe (w : Workshop σ) (m : Model) (twin : Option Model) (category : Category) (s : Session σ) :
    Work.outcome (w.runCategory m twin category) s ≠ .error (.inl .emptyRange) ∧
    Work.outcome (w.runCategory m twin category) s ≠ .error (.inl .outOfBounds) ∧
    Work.outcome (w.runCategory m twin category) s ≠ .error (.inl .underflow) ∧
    (∀ depth, w.catalog.boolean depth =
      if depth ≤ 1 then return .atom
      else Catalog.node w.catalog.booleanOperators (fun op => do
        let below ← Fault.difference depth 1
        if op.isOverBooleans then w.catalog.boolean below else w.catalog.path below)) ∧
    ∀ depth, w.catalog.state depth =
      if depth ≤ 1 then return .atom
      else Catalog.node w.catalog.stateOperators (fun _ => do w.catalog.state (← Fault.difference depth 1)) := by
  have excluded : ∀ fault, fault ≠ .endless → fault ≠ .capacity →
      Work.outcome (w.runCategory m twin category) s ≠ .error (.inl fault) := by
    intro fault hendless hcapacity h
    cases runCategory_outcome_fault h with
    | endless => exact hendless rfl
    | overflow hoverflow => exact hcapacity hoverflow.1
  exact ⟨excluded _ nofun nofun, excluded _ nofun nofun, excluded _ nofun nofun, w.catalog.boolean_eq,
    w.catalog.state_eq⟩

end Workshop
end Formulary
