import Formulary.Proofs.Formula.Language
import Formulary.Proofs.Formula.Meaning

/-! Removing double negations keeps what a formula means. That needs nothing but that a negation takes itself back, so
    it is so for all formulas and every way to read operators. A Kripke structure is one of these ways, if negation
    turns truth along paths around as well as truth in states. Formulas in which only state formulas are negated do
    not tell this reading from the plain one, where a negated path formula means nothing. -/

namespace Formulary

/-! ### Values -/

namespace Formula
variable {α : Type} {interpret : String → List α → α} {op : Operator} {args : List Formula} {f : Formula}

/-- The value of a formula, where `interpret` tells what an operator makes of the values of its operands. -/
def value (interpret : String → List α → α) : Formula → α := fold fun op => interpret op.name

theorem value_mk (interpret : String → List α → α) (op : Operator) (args : List Formula) :
    value interpret ⟨op, args⟩ = interpret op.name (args.map (value interpret)) := fold_mk ..

section
variable (hnot : Function.Involutive fun a => interpret Symbol.not.name [a])
include hnot

theorem value_cancelNot (op : Operator) (args : List Formula) :
    (cancelNot op args).value interpret = value interpret ⟨op, args⟩ := by
  rcases cancelNot_cases op args with ⟨inner, f, hop, hinner, rfl, hcancel⟩ | hkeep
  · have hback : interpret Symbol.not.name [interpret Symbol.not.name [f.value interpret]] = f.value interpret :=
      hnot _
    simp only [hcancel, value_mk, List.map_singleton, hop, hinner, hback]
  · rw [hkeep]

theorem value_removeDoubleNegations (f : Formula) : f.removeDoubleNegations.value interpret = f.value interpret := by
  induction f with
  | node op args ih =>
    have hargs : (args.map removeDoubleNegations).map (value interpret) = args.map (value interpret) := by
      rw [List.map_map]
      exact List.map_congr_left ih
    rw [removeDoubleNegations_mk, value_cancelNot hnot, value_mk, value_mk, hargs]

end

/-! ### Where negations stand -/

theorem cancelNot_of_not_isNegation (h : ¬IsNegation ⟨op, args⟩) : cancelNot op args = ⟨op, args⟩ := by
  refine cancelNot_of_not_cancels fun hcancels => h ?_
  obtain ⟨hop, f, rfl, -⟩ := cancels_iff.mp hcancels
  exact ⟨hop, rfl⟩

theorem not_isNegation_removeDoubleNegations (h : ¬f.IsNegation) : ¬f.removeDoubleNegations.IsNegation := by
  obtain ⟨op, args⟩ := f
  have hlength : (args.map removeDoubleNegations).length = args.length := List.length_map _
  have hmap : ¬IsNegation ⟨op, args.map removeDoubleNegations⟩ := fun hneg => h ⟨hneg.1, hlength ▸ hneg.2⟩
  rwa [removeDoubleNegations_mk, cancelNot_of_not_isNegation hmap]

end Formula

/-- The operands count for what they say about states, and not for a path, a number or a name. -/
def Operator.readsStates (op : Operator) : Bool :=
  match op.symbol? with
  | some .allPaths | some .existsPath | some .isFireable | some .tokenCount | some .leq | some .integerConstant => false
  | _ => true

namespace Formula
variable {op : Operator} {args : List Formula} {f : Formula}

/-- Negations stand only where a state formula is expected. -/
inductive NegatesStates : Formula → Prop
  | node {op : Operator} {args : List Formula} (place : op.readsStates = true ∨ ∀ f ∈ args, ¬f.IsNegation)
      (operands : ∀ f ∈ args, NegatesStates f) : NegatesStates ⟨op, args⟩

theorem NegatesStates.removeDoubleNegations (h : NegatesStates f) : NegatesStates f.removeDoubleNegations := by
  induction h with
  | @node op args place _ ih =>
    rw [removeDoubleNegations_mk]
    rcases cancelNot_cases op (args.map Formula.removeDoubleNegations) with ⟨inner, f, -, -, heq, hcancel⟩ | hkeep
    · have hinner : NegatesStates ⟨inner, [f]⟩ := by
        refine List.forall_mem_map.mpr ih _ ?_
        rw [heq]
        exact List.mem_singleton_self _
      rw [hcancel]
      cases hinner with
      | node _ operands => exact operands f (List.mem_singleton_self f)
    · rw [hkeep]
      refine .node ?_ (List.forall_mem_map.mpr ih)
      rcases place with hreads | hplain
      · exact .inl hreads
      · exact .inr (List.forall_mem_map.mpr fun f hf => not_isNegation_removeDoubleNegations (hplain f hf))

theorem not_isNegation_of_ne (h : f.name ≠ Symbol.not.name) : ¬f.IsNegation := fun hneg => h hneg.1

theorem negatesStates_literals (op : Operator) (texts : List String) : NegatesStates ⟨op, texts.map literal⟩ := by
  have hleaf : ∀ f ∈ texts.map literal, f.operands = [] := List.forall_mem_map.mpr fun _ _ => rfl
  refine .node (.inr fun f hf hneg => ?_) (List.forall_mem_map.mpr fun _ _ => .node (.inr nofun) nofun)
  rw [IsNegation, hleaf f hf] at hneg
  cases hneg.2

theorem negatesStates_leq {g : Formula} (hf : f.NegatesStates ∧ f.name ≠ Symbol.not.name)
    (hg : g.NegatesStates ∧ g.name ≠ Symbol.not.name) : NegatesStates (leq f g) := by
  refine .node (.inr ?_) ?_
  · simp [not_isNegation_of_ne hf.2, not_isNegation_of_ne hg.2]
  · simp [hf.1, hg.1]

end Formula

section Atoms
variable {ids : Identifiers} {kind : AtomKind} {f : Formula}

theorem IsCount.negatesStates (h : IsCount ids f) : f.NegatesStates ∧ f.name ≠ Symbol.not.name := by
  obtain ⟨ps, -, -, rfl⟩ := h
  exact ⟨Formula.negatesStates_literals _ ps, show Operator.tokenCount.name ≠ _ by decide⟩

theorem Formula.negatesStates_integerConstant (n : Int) :
    (integerConstant n).NegatesStates ∧ (integerConstant n).name ≠ Symbol.not.name :=
  ⟨negatesStates_literals _ [n.repr], show Operator.integerConstant.name ≠ _ by decide⟩

theorem IsAtom.negatesStates (h : IsAtom ids kind f) : f.NegatesStates := by
  cases h with
  | @fireability ts => exact Formula.negatesStates_literals _ ts
  | atMost h n => exact Formula.negatesStates_leq h.negatesStates (Formula.negatesStates_integerConstant n)
  | atLeast n h => exact Formula.negatesStates_leq (Formula.negatesStates_integerConstant n) h.negatesStates
  | compare hf hg => exact Formula.negatesStates_leq hf.negatesStates hg.negatesStates

end Atoms

namespace Catalog
variable {c : Catalog} {atom : Formula → Prop} {scope : Scope} {symbol : Symbol} {f : Formula}

theorem Derives.name_ne_of_path (h : c.Derives atom pathQuantifiers .path f) : f.name ≠ Symbol.not.name := by
  cases h with
  | along hsymbol =>
    intro hname
    rw [Symbol.name_injective hname] at hsymbol
    exact absurd hsymbol (by decide)
  | strongUntil => exact fun hname => absurd (Symbol.name_injective hname) (a := Symbol.strongUntil = .not) (by decide)

/-- The formulas of a catalog negate state formulas only, if their atoms do. -/
theorem Derives.negatesStates (hatom : ∀ f, atom f → f.NegatesStates)
    (h : c.Derives atom pathQuantifiers scope f) : f.NegatesStates := by
  have one : ∀ {op : Operator} {f : Formula}, op.readsStates = true → f.NegatesStates →
      Formula.NegatesStates ⟨op, [f]⟩ := fun hreads hf =>
    .node (.inl hreads) (List.forall_mem_singleton.mpr hf)
  induction h with
  | atom h => exact hatom _ h
  | not _ ih => exact one rfl ih
  | connective hsymbol _ _ _ ih =>
    refine .node (.inl ?_) ih
    rcases List.mem_pair.mp hsymbol with rfl | rfl <;> rfl
  | quantified _ h ih =>
    refine .node (.inr ?_) (List.forall_mem_singleton.mpr ih)
    exact List.forall_mem_singleton.mpr (Formula.not_isNegation_of_ne h.name_ne_of_path)
  | along hsymbol _ ih =>
    refine one ?_ ih
    simp only [List.mem_cons, List.not_mem_nil, or_false] at hsymbol
    rcases hsymbol with rfl | rfl | rfl <;> rfl
  | strongUntil _ _ hf hg => exact .node (.inl rfl) (List.forall_mem_cons.mpr ⟨hf, List.forall_mem_singleton.mpr hg⟩)

end Catalog

/-! ### Kripke structures -/

namespace Kripke
variable {σ : Type} {K : Kripke σ} {v : Valuation σ} {op : Operator} {below : List (Meaning σ)} {f : Formula}

/-- What an operator makes of the meanings of its operands, where a negation turns around what is so in states and
    what is so along paths, and changes nothing else. -/
def interpret (K : Kripke σ) (v : Valuation σ) (name : String) (below : List (Meaning σ)) : Meaning σ :=
  match Symbol.ofName? name, below with
  | some .not, [x] => { x with holds := fun s => ¬x.holds s, along := fun π => ¬x.along π }
  | _, _ => K.combine v (.literal name) below

/-- The formula is satisfied in `s`, with negation read along paths too. -/
def Satisfies (K : Kripke σ) (v : Valuation σ) (f : Formula) (s : σ) : Prop := (f.value (K.interpret v)).holds s

theorem interpret_not (x : Meaning σ) :
    K.interpret v Symbol.not.name [x] = { x with holds := fun s => ¬x.holds s, along := fun π => ¬x.along π } := by
  simp only [interpret, Symbol.ofName?_name]

theorem involutive_interpret_not : Function.Involutive fun x => K.interpret v Symbol.not.name [x] := by
  intro x
  simp only [interpret_not, not_not]

theorem interpret_of_not_negation (h : ¬(op.name = Symbol.not.name ∧ below.length = 1)) :
    K.interpret v op.name below = K.combine v op below := by
  unfold interpret
  split
  case h_1 x hsymbol => exact absurd ⟨(Symbol.ofName?_eq_some.mp hsymbol).symm, rfl⟩ h
  case h_2 => rfl

theorem holds_combine_not (hop : op.name = Symbol.not.name) (x : Meaning σ) :
    (K.combine v op [x]).holds = fun s => ¬x.holds s := by
  have hsymbol : op.symbol? = some .not := Symbol.ofName?_eq_some.mpr hop.symm
  simp only [combine, hsymbol]

/-- What is left of a meaning for an operator that reads states. -/
def onStates (x : Meaning σ) : Meaning σ := ⟨"", fun _ => 0, x.holds, fun _ => False⟩

theorem combine_map_onStates (h : op.readsStates = true) (below : List (Meaning σ)) :
    K.combine v op (below.map onStates) = K.combine v op below := by
  unfold Operator.readsStates at h
  cases hsymbol : op.symbol? with
  | none => simp only [combine, hsymbol]
  | some symbol =>
    rw [hsymbol] at h
    cases symbol with
    | allPaths | existsPath | isFireable | tokenCount | leq | integerConstant => cases h
    | _ =>
      rcases below with _ | ⟨x, _ | ⟨y, _ | ⟨z, below⟩⟩⟩ <;> simp [combine, hsymbol, onStates]

/-- Where only state formulas are negated, it does not matter how negation is read along paths. -/
theorem value_interpret (h : f.NegatesStates) :
    (f.value (K.interpret v)).holds = (K.meaning v f).holds ∧
      (¬f.IsNegation → f.value (K.interpret v) = K.meaning v f) := by
  induction h with
  | @node op args place _ ih =>
    by_cases hneg : Formula.IsNegation ⟨op, args⟩
    · refine ⟨?_, fun hnone => absurd hneg hnone⟩
      obtain ⟨hname, hlength⟩ := hneg
      obtain ⟨g, rfl⟩ := List.length_eq_one_iff.mp hlength
      have hop : op.name = Symbol.not.name := hname
      have hg := (ih g (List.mem_singleton_self g)).1
      rw [Formula.value_mk, meaning_mk, List.map_singleton, List.map_singleton, holds_combine_not hop, ← hg, hop,
        interpret_not]
    · suffices heq : Formula.value (K.interpret v) ⟨op, args⟩ = K.meaning v ⟨op, args⟩ from
        ⟨congrArg Meaning.holds heq, fun _ => heq⟩
      have hplace : ¬(op.name = Symbol.not.name ∧ (args.map (Formula.value (K.interpret v))).length = 1) := by
        rwa [List.length_map]
      rw [Formula.value_mk, meaning_mk, interpret_of_not_negation hplace]
      rcases place with hreads | hplain
      · rw [← combine_map_onStates hreads, ← combine_map_onStates hreads (args.map (K.meaning v)), List.map_map,
          List.map_map]
        refine congrArg (K.combine v op) (List.map_congr_left fun f hf => ?_)
        simp only [Function.comp_apply, onStates, (ih f hf).1]
      · exact congrArg (K.combine v op) (List.map_congr_left fun f hf => (ih f hf).2 (hplain f hf))

theorem satisfies_iff_holds (h : f.NegatesStates) (s : σ) : K.Satisfies v f s ↔ K.Holds v f s := by
  rw [Satisfies, Holds, (value_interpret h).1]

end Kripke

/-! ### Meaning -/

/-- Without its double negations a formula has the value that it had, wherever a negation takes itself back. In
    particular it is satisfied in the same states of a Kripke structure, and it holds in the same ones, unless
    something else than a state formula is negated. -/
theorem Formula.removeDoubleNegations_means :
    (∀ {α : Type} (interpret : String → List α → α),
      Function.Involutive (fun a => interpret Symbol.not.name [a]) →
      ∀ f : Formula, f.removeDoubleNegations.value interpret = f.value interpret) ∧
    ∀ {σ : Type} (K : Kripke σ) (v : Valuation σ) (f : Formula),
      (∀ s, K.Satisfies v f.removeDoubleNegations s ↔ K.Satisfies v f s) ∧
      (f.NegatesStates → ∀ s, K.Holds v f.removeDoubleNegations s ↔ K.Holds v f s) := by
  refine ⟨fun _ hnot => value_removeDoubleNegations hnot, fun K v f => ?_⟩
  have hsatisfies : ∀ s, K.Satisfies v f.removeDoubleNegations s ↔ K.Satisfies v f s := fun s => by
    rw [Kripke.Satisfies, value_removeDoubleNegations Kripke.involutive_interpret_not, Kripke.Satisfies]
  refine ⟨hsatisfies, fun hplace s => ?_⟩
  rw [← Kripke.satisfies_iff_holds hplace.removeDoubleNegations, hsatisfies, Kripke.satisfies_iff_holds hplace]

/-- Every operator adds up its operands, and a negation changes the sign. -/
def signedSum (name : String) (below : List Int) : Int :=
  if name = Symbol.not.name then -below.sum else 1 + below.sum

/-- Two states that follow each other and themselves. In one of them everything is fireable. -/
def lamp : Kripke Bool × Valuation Bool := (⟨fun _ _ => True⟩, ⟨fun _ _ => 0, fun s _ => s = true⟩)

theorem lamp_means :
    Function.Involutive (fun a => signedSum Symbol.not.name [a]) ∧
    Formula.value signedSum ⟨.connective .and 2, [.atom, .negations 1 .atom]⟩ =
      Formula.value signedSum ⟨.connective .and 2, [.negations 4 .atom, .negations 3 .atom]⟩ ∧
    (Catalog.possibly (.negations 2 (.isFireable ["t"]))).NegatesStates ∧
    (lamp.1.Holds lamp.2 (Catalog.possibly (.isFireable ["t"])) false ↔
      lamp.1.Holds lamp.2 (Catalog.possibly (.negations 2 (.isFireable ["t"]))) false) := by
  have hnot : Function.Involutive (fun a => signedSum Symbol.not.name [a]) := fun a => by simp [signedSum]
  have hstate : (Catalog.ofBound 2).Derives (IsAtom ⟨[], ["t"]⟩ .fireability) Catalog.pathQuantifiers .state
      (Catalog.possibly (.negations 2 (.isFireable ["t"]))) :=
    .quantified (by simp [Catalog.pathQuantifiers]) (.along (by simp)
      (.not (.not (.atom (.fireability (List.cons_ne_nil _ _) (List.Subset.refl _))))))
  have hplace := hstate.negatesStates fun _ => IsAtom.negatesStates
  have hremoved : (Catalog.possibly (.negations 2 (.isFireable ["t"]))).removeDoubleNegations =
      Catalog.possibly (.isFireable ["t"]) := rfl
  refine ⟨hnot, ?_, hplace, ?_⟩
  · exact Formula.removeDoubleNegations_means.1 signedSum hnot
      ⟨.connective .and 2, [.negations 4 .atom, .negations 3 .atom]⟩
  · rw [← hremoved]
    exact (Formula.removeDoubleNegations_means.2 lamp.1 lamp.2 _).2 hplace false

end Formulary
