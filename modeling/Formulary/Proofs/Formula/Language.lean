import Formulary.Formula.Binder
import Formulary.Net.Correspondence
import Formulary.Proofs.Formula.Branching
import Formulary.Proofs.Formula.Replacement
import Formulary.Proofs.Random.Shuffle

/-! The languages of the categories. A branching-time formula is a state formula with some operator along paths,
    a statement about reachable states quantifies over a formula of atoms and connectives, and neither has a
    double negation. Atoms ask for some transitions to be fireable, or compare counts of tokens on some places. -/

namespace Formulary

/-! ### Atoms -/

/-- A number of tokens on some of the places. -/
def IsCount (ids : Identifiers) (f : Formula) : Prop := ∃ ps ≠ [], ps ⊆ ids.places ∧ f = .tokenCount ps

/-- The atoms over the identifiers. -/
inductive IsAtom (ids : Identifiers) : AtomKind → Formula → Prop
  | fireability {ts : List String} (some : ts ≠ []) (known : ts ⊆ ids.transitions) :
      IsAtom ids .fireability (.isFireable ts)
  | atMost {f : Formula} (h : IsCount ids f) (n : Int) : IsAtom ids .cardinality (.leq f (.integerConstant n))
  | atLeast {f : Formula} (n : Int) (h : IsCount ids f) : IsAtom ids .cardinality (.leq (.integerConstant n) f)
  | compare {f g : Formula} (hf : IsCount ids f) (hg : IsCount ids g) : IsAtom ids .cardinality (.leq f g)

namespace Catalog
variable {c : Catalog} {atom atom' : Formula → Prop} {grammar : Grammar} {quantifiers : List Symbol} {scope : Scope}
  {f g : Formula}

/-- The formulas of a grammar, with what counts as an atom. -/
def Language (c : Catalog) (grammar : Grammar) (atom : Formula → Prop) (f : Formula) : Prop :=
  f.hasDoubleNegation = false ∧
    match grammar with
    | .ctl => c.Derives atom pathQuantifiers .state f ∧ f.hasOperator (· ∈ c.pathOperators) = true
    | .reachability => ∃ g, c.Derives atom [] .state g ∧ (f = always g ∨ f = possibly g)

/-! ### Random formulas -/

/-- Before atoms are bound, an operator named as one along paths is one. -/
theorem Open.hasPathOperator_eq (hquantifiers : ∀ symbol ∈ quantifiers, symbol ∈ pathQuantifiers)
    (h : c.Open quantifiers scope f) : f.hasOperator (· ∈ c.pathOperators) = f.containsPathOperator := by
  rw [Formula.containsPathOperator]
  have node : ∀ {op : Operator} {args : List Formula}, decide (op ∈ c.pathOperators) = op.isPathOperator →
      (∀ f ∈ args, f.hasOperator (· ∈ c.pathOperators) = f.hasOperator Operator.isPathOperator) →
      Formula.hasOperator (· ∈ c.pathOperators) ⟨op, args⟩ =
        Formula.hasOperator Operator.isPathOperator ⟨op, args⟩ := by
    intro op args hop hargs
    rw [Formula.hasOperator_mk, Formula.hasOperator_mk, hop, Formula.any_congr_mem hargs]
  induction h with
  | atom h =>
    subst h
    rfl
  | not _ ih => exact node rfl (List.forall_mem_singleton.mpr ih)
  | connective hsymbol _ _ _ ih =>
    refine node ?_ ih
    rcases List.mem_pair.mp hsymbol with rfl | rfl <;> rfl
  | quantified hsymbol _ ih =>
    refine node ?_ (List.forall_mem_singleton.mpr ih)
    rcases List.mem_pair.mp (hquantifiers _ hsymbol) with rfl | rfl <;> rfl
  | along hsymbol _ ih =>
    refine node ?_ (List.forall_mem_singleton.mpr ih)
    simp only [List.mem_cons, List.not_mem_nil, or_false] at hsymbol
    rcases hsymbol with rfl | rfl | rfl <;> rfl
  | strongUntil _ _ hf hg => exact node rfl (List.forall_mem_cons.mpr ⟨hf, List.forall_mem_singleton.mpr hg⟩)

theorem ctl_language {depth : Nat} {s t : Keystream} (h : (c.ctl depth).Gives s f t) :
    c.Language .ctl (· = .atom) f := by
  obtain ⟨candidate, s', hc, hbranching, rfl⟩ := ctl_gives h
  have hopen := boolean_derives hc
  have hplain := hopen.removeDoubleNegations fun _ => ne_not_of_mem_pathQuantifiers
  have hinteresting := (isBranching_eq_true.mp hbranching).1
  refine ⟨Formula.hasDoubleNegation_removeDoubleNegations (hopen.negatesOne ?_), hplain, ?_⟩
  · rintro _ rfl
    rfl
  · rw [hplain.hasPathOperator_eq fun _ => id]
    rwa [← Formula.isInteresting_removeDoubleNegations] at hinteresting

theorem hasDoubleNegation_quantified {quantifier operator : Symbol} (hq : quantifier ≠ .not) (ho : operator ≠ .not) :
    Formula.hasDoubleNegation ⟨.fixed quantifier 1, [⟨.fixed operator 1, [f]⟩]⟩ = f.hasDoubleNegation := by
  have hquantifier : quantifier.name ≠ Symbol.not.name := fun h => hq (Symbol.name_injective h)
  have hoperator : operator.name ≠ Symbol.not.name := fun h => ho (Symbol.name_injective h)
  simp [Formula.hasDoubleNegation_mk, Formula.startsDoubleNegation, Operator.fixed, hquantifier, hoperator]

theorem removeDoubleNegations_quantified {quantifier operator : Symbol} (hq : quantifier ≠ .not)
    (ho : operator ≠ .not) :
    Formula.removeDoubleNegations ⟨.fixed quantifier 1, [⟨.fixed operator 1, [f]⟩]⟩ =
      ⟨.fixed quantifier 1, [⟨.fixed operator 1, [f.removeDoubleNegations]⟩]⟩ := by
  rw [Formula.removeDoubleNegations_of_ne _ fun h => hq (Symbol.name_injective h), List.map_singleton,
    Formula.removeDoubleNegations_of_ne _ fun h => ho (Symbol.name_injective h), List.map_singleton]

theorem reachability_language {depth : Nat} {s t : Keystream} (h : (c.reachability depth).Gives s f t) :
    c.Language .reachability (· = .atom) f := by
  simp only [reachability, Draw.gives_bind, Draw.gives_pure] at h
  obtain ⟨g, _, hg, side, _, -, rfl, -⟩ := h
  have hopen := state_derives hg
  have hplain := hopen.removeDoubleNegations (by simp)
  have hnone := Formula.hasDoubleNegation_removeDoubleNegations (hopen.negatesOne (by rintro _ rfl; rfl))
  have halways : (always g).removeDoubleNegations = always g.removeDoubleNegations :=
    removeDoubleNegations_quantified (by decide) (by decide)
  have hpossibly : (possibly g).removeDoubleNegations = possibly g.removeDoubleNegations :=
    removeDoubleNegations_quantified (by decide) (by decide)
  split
  · rw [halways]
    exact ⟨(hasDoubleNegation_quantified (by decide) (by decide)).trans hnone, _, hplain, .inl rfl⟩
  · rw [hpossibly]
    exact ⟨(hasDoubleNegation_quantified (by decide) (by decide)).trans hnone, _, hplain, .inr rfl⟩

/-- A random formula of a grammar belongs to its language, with placeholders for the atoms. -/
theorem generate_language {depth : Nat} {s t : Keystream} (h : (c.generate grammar depth).Gives s f t) :
    c.Language grammar (· = .atom) f := by
  cases grammar with
  | ctl => exact ctl_language h
  | reachability => exact reachability_language (Generation.gives_lift.mp h)

/-! ### Other atoms -/

section
variable (hatom : ∀ f, atom f → Formula.Inert c f)
include hatom

theorem Derives.replaced (h : c.Derives atom quantifiers scope f) (hfg : Formula.Replaced atom atom' f g) :
    c.Derives atom' quantifiers scope g := by
  induction h generalizing g with
  | atom h => exact .atom (hfg.of_atom h)
  | not _ ih =>
    rcases hfg.unary with ⟨-, hg⟩ | ⟨f', rfl, hf'⟩
    · exact .atom hg
    · exact .not (ih hf')
  | connective hsymbol two bound _ ih =>
    cases hfg with
    | atom _ hg => exact .atom hg
    | node _ length hargs =>
      refine .connective hsymbol (length ▸ two) (length ▸ bound) fun g hg => ?_
      obtain ⟨f, hf, hfg⟩ := Formula.Replaced.exists_of_mem length hargs hg
      exact ih f hf hfg
  | quantified hsymbol _ ih =>
    rcases hfg.unary with ⟨-, hg⟩ | ⟨f', rfl, hf'⟩
    · exact .atom hg
    · exact .quantified hsymbol (ih hf')
  | along hsymbol _ ih =>
    rcases hfg.unary with ⟨hf, -⟩ | ⟨f', rfl, hf'⟩
    · refine absurd ?_ (hatom _ hf).not_mem
      simp only [List.mem_cons, List.not_mem_nil, or_false] at hsymbol
      rcases hsymbol with rfl | rfl | rfl <;> simp [pathOperators]
    · exact .along hsymbol (ih hf')
  | strongUntil _ _ ihf ihg =>
    cases hfg with
    | atom hf =>
      refine absurd ?_ (hatom _ hf).not_mem
      simp [pathOperators]
    | @node _ _ args' _ length hargs =>
      obtain ⟨f', g', rfl⟩ := List.length_eq_two.mp length
      exact .strongUntil (ihf (hargs _ List.mem_cons_self)) (ihg (hargs _ (List.mem_cons_of_mem _ List.mem_cons_self)))

/-- What stands below a quantifier and an operator along paths changes, and they stay. -/
theorem quantified_replaced {quantifier operator : Symbol} (hoperator : Operator.fixed operator 1 ∈ c.pathOperators)
    (h : Formula.Replaced atom atom' ⟨.fixed quantifier 1, [⟨.fixed operator 1, [f]⟩]⟩ g) :
    ∃ f', g = ⟨.fixed quantifier 1, [⟨.fixed operator 1, [f']⟩]⟩ ∧ Formula.Replaced atom atom' f f' := by
  rcases h.unary with ⟨hroot, -⟩ | ⟨p, rfl, hp⟩
  · exact absurd hoperator (hatom _ hroot).not_mem_below
  · rcases hp.unary with ⟨hroot, -⟩ | ⟨f', rfl, hf'⟩
    · exact absurd hoperator (hatom _ hroot).not_mem
    · exact ⟨f', rfl, hf'⟩

/-- With new atoms a formula is in the language over the new atoms. -/
theorem Language.replaced (hatom' : ∀ f, atom' f → Formula.Inert c f) (h : c.Language grammar atom f)
    (hfg : Formula.Replaced atom atom' f g) : c.Language grammar atom' g := by
  obtain ⟨hnegation, h⟩ := h
  refine ⟨(Formula.Replaced.hasDoubleNegation_eq hatom hatom' hfg).trans hnegation, ?_⟩
  cases grammar with
  | ctl =>
    exact ⟨h.1.replaced hatom hfg, (Formula.Replaced.hasPathOperator_eq hatom hatom' hfg).trans h.2⟩
  | reachability =>
    obtain ⟨b, hb, rfl | rfl⟩ := h
    · obtain ⟨b', rfl, hb'⟩ := quantified_replaced hatom (by simp [pathOperators]) hfg
      exact ⟨b', hb.replaced hatom hb', .inl rfl⟩
    · obtain ⟨b', rfl, hb'⟩ := quantified_replaced hatom (by simp [pathOperators]) hfg
      exact ⟨b', hb.replaced hatom hb', .inr rfl⟩

end

end Catalog
end Formulary
