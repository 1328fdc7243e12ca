import Formulary.Proofs.Formula.Grammar

/-! What random formulas are. A branching-time formula is the first accepted state formula, and a statement about
    reachable states has a formula of placeholders and connectives below its quantifier; neither has a negation
    directly below another one. -/

namespace Formulary

/-! ### Computations that may find that no formula can be made -/

namespace Generation
variable {α β : Type} {s t u : Keystream}

/-- From the keystream `s` the computation makes `a`, and leaves `t`. -/
def Gives (x : Generation α) (s : Keystream) (a : α) (t : Keystream) : Prop := Draw.Gives x.run s (.ok a) t

@[simp] theorem gives_pure {a b : α} : Gives (pure a) s b t ↔ a = b ∧ s = t := by
  simp only [Gives, ExceptT.run_pure, Draw.gives_pure, Except.ok.injEq]

@[simp] theorem gives_bind {x : Generation α} {f : α → Generation β} {b : β} :
    Gives (x >>= f) s b u ↔ ∃ a t, Gives x s a t ∧ Gives (f a) t b u := by
  simp only [Gives, ExceptT.run_bind, Draw.gives_bind]
  constructor
  · rintro ⟨r, t, hx, hf⟩
    cases r with
    | error e => cases (Draw.gives_pure.mp hf).1
    | ok a => exact ⟨a, t, hx, hf⟩
  · rintro ⟨a, t, hx, hf⟩
    exact ⟨.ok a, t, hx, hf⟩

@[simp] theorem gives_throw {e : GenerationError} {a : α} : ¬Gives (throw e : Generation α) s a t := by
  simp only [Gives, ExceptT.run_throw, Draw.gives_pure, reduceCtorEq, false_and, not_false_eq_true]

@[simp] theorem gives_lift {x : Draw α} {a : α} : Gives (liftM x) s a t ↔ x.Gives s a t := by
  show Draw.Gives (Except.ok <$> x) s (.ok a) t ↔ _
  simp only [Draw.gives_map, Except.ok.injEq, exists_eq_right]

@[simp] theorem gives_ite {p : Prop} [Decidable p] {x y : Generation α} {a : α} :
    Gives (if p then x else y) s a t ↔ if p then Gives x s a t else Gives y s a t := by
  split <;> rfl

/-- From some keystream the computation makes `a`. -/
def CanGive (x : Generation α) (a : α) : Prop := ∃ s t, x.Gives s a t

end Generation

/-! ### Formulas without double negations -/

namespace Catalog
variable {c : Catalog} {atom : Formula → Prop} {quantifiers : List Symbol} {scope : Scope} {f : Formula}

theorem Derives.negatesOne (hatom : ∀ f, atom f → f.negatesOne = true) (h : c.Derives atom quantifiers scope f) :
    f.negatesOne = true := by
  have one : ∀ {op : Operator} {f : Formula}, f.negatesOne = true → Formula.negatesOne ⟨op, [f]⟩ = true :=
    fun hf => Formula.negatesOne_mk.mpr ⟨fun _ => rfl, List.forall_mem_singleton.mpr hf⟩
  induction h with
  | atom h => exact hatom _ h
  | not _ ih => exact one ih
  | connective hsymbol _ _ _ ih =>
    refine Formula.negatesOne_mk.mpr ⟨fun hname => ?_, ih⟩
    have hnot := Symbol.name_injective (b := .not) hname
    subst hnot
    exact absurd hsymbol (by decide)
  | quantified _ _ ih => exact one ih
  | along _ _ ih => exact one ih
  | strongUntil _ _ hf hg =>
    refine Formula.negatesOne_mk.mpr ⟨fun hname => absurd hname (by decide), ?_⟩
    rintro f hf'
    simp only [List.mem_cons, List.not_mem_nil, or_false] at hf'
    rcases hf' with rfl | rfl
    · exact hf
    · exact hg

theorem ne_not_of_mem_connectives {symbol : Symbol} (h : symbol ∈ [Symbol.and, .or]) : symbol ≠ .not := by
  rintro rfl
  exact absurd h (by decide)

theorem ne_not_of_mem_pathQuantifiers {symbol : Symbol} (h : symbol ∈ pathQuantifiers) : symbol ≠ .not := by
  rintro rfl
  exact absurd h (by decide)

/-- What stands below a negation is a state formula. -/
theorem Open.of_not {op : Operator} (hquantifiers : ∀ symbol ∈ quantifiers, symbol ≠ .not)
    (hop : op.name = Symbol.not.name) (h : c.Open quantifiers .state ⟨op, [f]⟩) : c.Open quantifiers .state f := by
  cases h with
  | atom h =>
    rw [(Formula.mk.inj h).1] at hop
    exact absurd hop (by decide)
  | not h => exact h
  | connective _ two => exact absurd two (by simp)
  | quantified hsymbol => exact absurd (Symbol.name_injective hop) (hquantifiers _ hsymbol)

/-- The grammar derives a formula also without its double negations. -/
theorem Open.removeDoubleNegations (hquantifiers : ∀ symbol ∈ quantifiers, symbol ≠ .not)
    (h : c.Open quantifiers scope f) : c.Open quantifiers scope f.removeDoubleNegations := by
  have keep : ∀ {symbol : Symbol} {least most : Nat} {overBooleans : Bool} (args : List Formula), symbol ≠ .not →
      Formula.removeDoubleNegations ⟨⟨symbol.name, least, most, overBooleans⟩, args⟩ =
        ⟨⟨symbol.name, least, most, overBooleans⟩, args.map Formula.removeDoubleNegations⟩ := fun args hsymbol =>
    Formula.removeDoubleNegations_of_ne args fun hname => hsymbol (Symbol.name_injective hname)
  induction h with
  | atom h =>
    subst h
    exact .atom rfl
  | @not f _ ih =>
    rw [Formula.removeDoubleNegations_mk, List.map_singleton]
    rcases Formula.cancelNot_cases .not [f.removeDoubleNegations] with ⟨inner, g, -, hinner, heq, hcancel⟩ | hkeep
    · -- What is left is the operand of a negation that the grammar derives.
      rw [hcancel]
      rw [List.singleton_inj.mp heq] at ih
      exact ih.of_not hquantifiers hinner
    · rw [hkeep]
      exact .not ih
  | connective hsymbol two bound _ ih =>
    rw [Operator.connective, keep _ (ne_not_of_mem_connectives hsymbol)]
    exact .connective hsymbol (by rwa [List.length_map]) (by rwa [List.length_map]) (List.forall_mem_map.mpr ih)
  | quantified hsymbol _ ih =>
    rw [Operator.fixed, keep _ (hquantifiers _ hsymbol)]
    exact .quantified hsymbol ih
  | along hsymbol _ ih =>
    rw [Operator.fixed, keep _ (by rintro rfl; exact absurd hsymbol (by decide))]
    exact .along hsymbol ih
  | strongUntil _ _ hf hg =>
    rw [Operator.fixed, keep _ (by decide)]
    exact .strongUntil hf hg

end Catalog
end Formulary
