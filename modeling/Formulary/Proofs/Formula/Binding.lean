import Formulary.Proofs.Formula.Language

/-! Binding makes a formula of a language over placeholders one over identifiers. Every placeholder is replaced by
    an atom over the identifiers of the binder, and the nodes above it stay as they are. -/

namespace Formulary

/-! ### Atoms over identifiers -/

section Atoms
variable {c : Catalog} {ids : Identifiers} {kind : AtomKind} {f : Formula}

theorem not_mem_pathOperators {op : Operator} (h : op.isPathOperator = false) : op ∉ c.pathOperators := by
  intro hop
  simp only [Catalog.pathOperators, List.mem_cons, List.not_mem_nil, or_false] at hop
  rcases hop with rfl | rfl | rfl | rfl <;> exact absurd h (by decide)

theorem hasDoubleNegation_literal (text : String) : (Formula.literal text).hasDoubleNegation = false := by
  simp [Formula.literal, Formula.leaf, Formula.hasDoubleNegation_mk, Formula.startsDoubleNegation]

/-- A leaf has no operands, whatever it is called. -/
theorem hasPathOperator_literal (text : String) :
    (Formula.literal text).hasOperator (· ∈ c.pathOperators) = false := by
  simp [Formula.literal, Formula.leaf, Formula.hasOperator_mk, Catalog.pathOperators, Operator.literal, Operator.fixed]

theorem inert_literals {op : Operator} (texts : List String) (hname : op.name ≠ Symbol.not.name)
    (hop : op ∉ c.pathOperators) : Formula.Inert c ⟨op, texts.map Formula.literal⟩ where
  name_ne := hname
  hasDoubleNegation := by
    simp [Formula.hasDoubleNegation_mk, Formula.startsDoubleNegation, hname, hasDoubleNegation_literal]
  hasPathOperator := by
    simp only [Formula.hasOperator_mk, hop, decide_false, Bool.false_or, List.any_map, List.any_eq_false,
      Function.comp_apply, hasPathOperator_literal, Bool.false_eq_true, not_false_eq_true, implies_true]

theorem inert_integerConstant (n : Int) : Formula.Inert c (.integerConstant n) :=
  inert_literals [n.repr] (by decide) (not_mem_pathOperators (by decide))

theorem inert_leq {g : Formula} (hf : Formula.Inert c f) (hg : Formula.Inert c g) : Formula.Inert c (.leq f g) where
  name_ne := show Operator.leq.name ≠ Symbol.not.name by decide
  hasDoubleNegation := by
    have hname : Operator.leq.name ≠ Symbol.not.name := by decide
    simp [Formula.leq, Formula.hasDoubleNegation_mk, Formula.startsDoubleNegation, hname, hf.hasDoubleNegation,
      hg.hasDoubleNegation]
  hasPathOperator := by
    have hop : Operator.leq ∉ c.pathOperators := not_mem_pathOperators (by decide)
    simp only [Formula.leq, Formula.hasOperator_mk, hop, hf.hasPathOperator, hg.hasPathOperator, List.any_cons,
      List.any_nil, decide_false, Bool.or_false]

theorem IsCount.inert (h : IsCount ids f) : Formula.Inert c f := by
  obtain ⟨ps, -, -, rfl⟩ := h
  exact inert_literals ps (by decide) (not_mem_pathOperators (by decide))

theorem IsAtom.inert (h : IsAtom ids kind f) : Formula.Inert c f := by
  cases h with
  | @fireability ts _ _ =>
    exact inert_literals ts (by decide) (not_mem_pathOperators (by decide))
  | atMost h n => exact inert_leq h.inert (inert_integerConstant n)
  | atLeast n h => exact inert_leq (inert_integerConstant n) h.inert
  | compare hf hg => exact inert_leq hf.inert hg.inert

/-- The root of an atom asks for transitions or compares counts. -/
theorem IsAtom.operator_mem (h : IsAtom ids kind f) : f.operator ∈ [Operator.isFireable, .leq] := by
  cases h <;> simp [Formula.isFireable, Formula.leq]

end Atoms

/-! ### Nodes above atoms -/

/-- The symbols of the nodes above the atoms of a formula. -/
def Symbol.isInner : Symbol → Bool
  | atom | isFireable | tokenCount | leq | integerConstant => false
  | _ => true

/-- The operator stands above the atoms of a formula. -/
def Operator.isInner (op : Operator) : Bool := op.symbol?.any Symbol.isInner

namespace Catalog
variable {c : Catalog} {atom : Formula → Prop} {quantifiers : List Symbol} {scope : Scope} {grammar : Grammar}
  {op : Operator} {args : List Formula} {f : Formula}

/-- A formula that the grammar derives is an atom, or a node above formulas that it derives. -/
theorem Derives.inner (h : c.Derives atom pathQuantifiers scope ⟨op, args⟩) :
    atom ⟨op, args⟩ ∨ op.isInner = true ∧ ∀ f ∈ args, ∃ scope, c.Derives atom pathQuantifiers scope f := by
  have one : ∀ {scope : Scope} {f : Formula}, op.isInner = true → c.Derives atom pathQuantifiers scope f →
      op.isInner = true ∧ ∀ g ∈ [f], ∃ scope, c.Derives atom pathQuantifiers scope g := fun hop hf =>
    ⟨hop, List.forall_mem_singleton.mpr ⟨_, hf⟩⟩
  cases h with
  | atom h => exact .inl h
  | not h => exact .inr (one rfl h)
  | connective hsymbol _ _ h =>
    refine .inr ⟨?_, fun f hf => ⟨.state, h f hf⟩⟩
    rcases List.mem_pair.mp hsymbol with rfl | rfl <;> rfl
  | quantified hsymbol h =>
    refine .inr (one ?_ h)
    rcases List.mem_pair.mp hsymbol with rfl | rfl <;> rfl
  | along hsymbol h =>
    refine .inr (one ?_ h)
    simp only [List.mem_cons, List.not_mem_nil, or_false] at hsymbol
    rcases hsymbol with rfl | rfl | rfl <;> rfl
  | strongUntil hf hg =>
    exact .inr ⟨rfl, List.forall_mem_cons.mpr ⟨⟨_, hf⟩, List.forall_mem_singleton.mpr ⟨_, hg⟩⟩⟩

theorem Derives.widen (h : c.Derives atom [] scope f) : c.Derives atom quantifiers scope f := by
  induction h with
  | atom h => exact .atom h
  | not _ ih => exact .not ih
  | connective hsymbol two bound _ ih => exact .connective hsymbol two bound ih
  | quantified hsymbol => exact absurd hsymbol List.not_mem_nil
  | along hsymbol _ ih => exact .along hsymbol ih
  | strongUntil _ _ hf hg => exact .strongUntil hf hg

/-- The formulas of both languages are state formulas. -/
theorem Language.derives (h : c.Language grammar atom f) : c.Derives atom pathQuantifiers .state f := by
  obtain ⟨-, h⟩ := h
  cases grammar with
  | ctl => exact h.1
  | reachability =>
    obtain ⟨g, hg, rfl | rfl⟩ := h
    · exact .quantified (by decide) (.along (by decide) hg.widen)
    · exact .quantified (by decide) (.along (by decide) hg.widen)

end Catalog

/-! ### Binding -/

/-- There is an identifier, there are no more than allowed, and they are at different positions of the list. -/
structure Picks (pool : List String) (most : Nat) (ids : List String) : Prop where
  positive : 1 ≤ ids.length
  bounded : ids.length ≤ min (max 1 most) pool.length
  isPart : Draw.IsPart ids pool

theorem Picks.ne_nil {pool ids : List String} {most : Nat} (h : Picks pool most ids) : ids ≠ [] :=
  List.ne_nil_of_length_pos h.positive

namespace Binder
variable {b : Binder} {c : Catalog} {kind : AtomKind} {scope : Scope} {grammar : Grammar} {f g : Formula}
  {s t : Keystream}

/-- The identifiers that atoms are built from. -/
def known (b : Binder) : Identifiers := ⟨b.places, b.transitions⟩

theorem identifiers_gives {pool ids : List String} {maxSize : Nat} (h : (identifiers kind pool maxSize).CanGive ids) :
    Picks pool maxSize ids := by
  obtain ⟨s, t, h⟩ := h
  simp only [identifiers, Generation.gives_bind, Generation.gives_lift] at h
  obtain ⟨found, _, hfound, h⟩ := h
  cases found with
  | none => exact (Generation.gives_throw h).elim
  | some part =>
    obtain ⟨rfl, -⟩ := Generation.gives_pure.mp h
    obtain ⟨hpositive, hbounded, _, _, -, hsample⟩ := Draw.subset_gives hfound
    exact ⟨hpositive, hbounded, hsample.isPart⟩

theorem tokenCount_gives (h : b.tokenCount.CanGive f) : ∃ ps, Picks b.places b.maxCardinality ps ∧ f = .tokenCount ps := by
  obtain ⟨s, t, h⟩ := h
  simp only [tokenCount, Generation.gives_bind, Generation.gives_pure] at h
  obtain ⟨ps, _, hps, rfl, -⟩ := h
  exact ⟨ps, identifiers_gives ⟨_, _, hps⟩, rfl⟩

theorem integerConstant_gives (h : b.integerConstant.CanGive f) :
    ∃ n, (∃ s t, (Draw.constant b.leastConstant b.greatestConstant).Gives s n t) ∧ f = .integerConstant n := by
  obtain ⟨s, t, h⟩ := h
  simp only [integerConstant, Generation.gives_bind, Generation.gives_pure, Generation.gives_lift] at h
  obtain ⟨n, _, hn, rfl, -⟩ := h
  exact ⟨n, ⟨_, _, hn⟩, rfl⟩

theorem fireabilityAtom_gives (h : b.fireabilityAtom.CanGive f) :
    ∃ ts, Picks b.transitions b.maxFireability ts ∧ f = .isFireable ts := by
  obtain ⟨s, t, h⟩ := h
  simp only [fireabilityAtom, Generation.gives_bind, Generation.gives_pure] at h
  obtain ⟨ts, _, hts, rfl, -⟩ := h
  exact ⟨ts, identifiers_gives ⟨_, _, hts⟩, rfl⟩

/-- Two terms are compared, and one of them is a count of tokens. -/
theorem cardinalityAtom_gives (h : b.cardinalityAtom.CanGive f) :
    ∃ left right, f = .leq left right ∧
      (b.tokenCount.CanGive left ∧ b.integerConstant.CanGive right ∨
        b.integerConstant.CanGive left ∧ b.tokenCount.CanGive right ∨
        b.tokenCount.CanGive left ∧ b.tokenCount.CanGive right) := by
  obtain ⟨s, t, h⟩ := h
  simp only [cardinalityAtom, Generation.gives_bind, Generation.gives_lift] at h
  obtain ⟨side, _, -, h⟩ := h
  split at h <;> simp only [Generation.gives_bind, Generation.gives_pure] at h <;>
    obtain ⟨left, _, hleft, right, _, hright, rfl, -⟩ := h
  · exact ⟨left, right, rfl, .inl ⟨⟨_, _, hleft⟩, ⟨_, _, hright⟩⟩⟩
  · exact ⟨left, right, rfl, .inr (.inl ⟨⟨_, _, hleft⟩, ⟨_, _, hright⟩⟩)⟩
  · exact ⟨left, right, rfl, .inr (.inr ⟨⟨_, _, hleft⟩, ⟨_, _, hright⟩⟩)⟩

theorem atomOf_gives (h : (b.atomOf kind).Gives s f t) : IsAtom b.known kind f := by
  have count : ∀ {f : Formula}, b.tokenCount.CanGive f → IsCount b.known f := fun hf => by
    obtain ⟨ps, hps, rfl⟩ := tokenCount_gives hf
    exact ⟨ps, hps.ne_nil, hps.isPart.subset, rfl⟩
  cases kind with
  | fireability =>
    obtain ⟨ts, hts, rfl⟩ := fireabilityAtom_gives ⟨s, t, h⟩
    exact .fireability hts.ne_nil hts.isPart.subset
  | cardinality =>
    obtain ⟨f, g, rfl, ⟨hf, hg⟩ | ⟨hf, hg⟩ | ⟨hf, hg⟩⟩ := cardinalityAtom_gives ⟨s, t, h⟩
    · obtain ⟨n, -, rfl⟩ := integerConstant_gives hg
      exact .atMost (count hf) n
    · obtain ⟨n, -, rfl⟩ := integerConstant_gives hf
      exact .atLeast n (count hg)
    · exact .compare (count hf) (count hg)

theorem bindAll_gives {swap : Formula → Formula → Prop} {args : List Formula}
    (hargs : ∀ f ∈ args, ∀ {s g t}, (b.bind kind f).Gives s g t → swap f g) :
    ∀ {s t : Keystream} {args' : List Formula}, (b.bindAll kind args).Gives s args' t →
      args'.length = args.length ∧ ∀ p ∈ args.zip args', swap p.1 p.2 := by
  induction args with
  | nil =>
    intro s t args' h
    rw [bindAll, Generation.gives_pure] at h
    obtain ⟨rfl, -⟩ := h
    exact ⟨rfl, nofun⟩
  | cons f args ih =>
    intro s t args' h
    simp only [bindAll, Generation.gives_bind, Generation.gives_pure] at h
    obtain ⟨g, _, hg, rest, _, hrest, rfl, -⟩ := h
    obtain ⟨hlength, hall⟩ := ih (fun f hf => hargs f (List.mem_cons_of_mem _ hf)) hrest
    refine ⟨by rw [List.length_cons, List.length_cons, hlength], ?_⟩
    exact List.forall_mem_cons.mpr ⟨hargs f List.mem_cons_self hg, hall⟩

/-- Placeholders become atoms over the identifiers of the binder, and nothing else changes. -/
theorem bind_gives (hf : c.Derives (· = .atom) Catalog.pathQuantifiers scope f) (h : (b.bind kind f).Gives s g t) :
    Formula.Replaced (· = .atom) (IsAtom b.known kind) f g := by
  induction f generalizing scope s g t with
  | node op args ih =>
    rw [bind] at h
    rcases hf.inner with hatom | ⟨hinner, hargs⟩
    · have hop : op = .atom := (Formula.mk.inj hatom).1
      rw [if_pos hop] at h
      exact .atom hatom (atomOf_gives h)
    · have hop : op ≠ .atom := by
        rintro rfl
        exact absurd hinner (by decide)
      rw [if_neg hop] at h
      simp only [Generation.gives_bind, Generation.gives_pure] at h
      obtain ⟨args', _, hargs', rfl, -⟩ := h
      obtain ⟨hlength, hall⟩ := bindAll_gives (fun f hmem {_ _ _} hg => by
        obtain ⟨_, hf⟩ := hargs f hmem
        exact ih f hmem hf hg) hargs'
      exact .node (fun hatom => hop (Formula.mk.inj hatom).1) hlength hall

/-- A bound formula of a language speaks about the identifiers of the binder. -/
theorem bind_language (hf : c.Language grammar (· = .atom) f) (h : (b.bind kind f).Gives s g t) :
    c.Language grammar (IsAtom b.known kind) g := by
  refine hf.replaced ?_ (fun _ => IsAtom.inert) (bind_gives hf.derives h)
  rintro _ rfl
  exact Formula.inert_atom

end Binder
end Formulary
