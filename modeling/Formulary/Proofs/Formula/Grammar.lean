import Formulary.Formula.Sampling
import Formulary.Proofs.Formula.Negation
import Formulary.Proofs.Random.Choice

/-! The grammar of formulas, and that random formulas follow it. A state formula is an atom, a negation, a
    connective over state formulas, or a quantifier over a path formula; a path formula is an operator along
    paths over state formulas. The grammar is about the operators of a catalog, and it leaves open what the atoms
    are and which quantifiers there may be. -/

namespace Formulary

/-- What a formula speaks about. -/
inductive Scope where
  | state
  | path
deriving DecidableEq, Repr

namespace Catalog
variable {c : Catalog} {atom : Formula → Prop} {quantifiers : List Symbol} {scope : Scope} {f : Formula}

/-- The formulas over the operators of the catalog. -/
inductive Derives (c : Catalog) (atom : Formula → Prop) (quantifiers : List Symbol) : Scope → Formula → Prop
  | atom {f : Formula} (h : atom f) : Derives c atom quantifiers .state f
  | not {f : Formula} (h : Derives c atom quantifiers .state f) : Derives c atom quantifiers .state ⟨.not, [f]⟩
  | connective {symbol : Symbol} {args : List Formula} (hsymbol : symbol ∈ [.and, .or]) (two : 2 ≤ args.length)
      (bound : args.length ≤ c.maxArity) (h : ∀ f ∈ args, Derives c atom quantifiers .state f) :
      Derives c atom quantifiers .state ⟨.connective symbol c.maxArity, args⟩
  | quantified {symbol : Symbol} {f : Formula} (hsymbol : symbol ∈ quantifiers)
      (h : Derives c atom quantifiers .path f) : Derives c atom quantifiers .state ⟨.fixed symbol 1, [f]⟩
  | along {symbol : Symbol} {f : Formula} (hsymbol : symbol ∈ [.globally, .eventually, .next])
      (h : Derives c atom quantifiers .state f) : Derives c atom quantifiers .path ⟨.fixed symbol 1, [f]⟩
  | strongUntil {f g : Formula} (hf : Derives c atom quantifiers .state f) (hg : Derives c atom quantifiers .state g) :
      Derives c atom quantifiers .path ⟨.fixed .strongUntil 2, [f, g]⟩

/-- The quantifiers over paths. -/
def pathQuantifiers : List Symbol := [.allPaths, .existsPath]

/-- The formulas whose atoms are still to be bound. -/
abbrev Open (c : Catalog) (quantifiers : List Symbol) : Scope → Formula → Prop := c.Derives (· = .atom) quantifiers

/-! ### Random formulas -/

section Sampling
variable {s t : Keystream}

/-- The root comes from the table, and the operands are as many as it accepts, each drawn for it. -/
theorem node_gives {operators : List Operator} {operand : Operator → Draw Formula} {op : Operator}
    {args : List Formula} (h : (node operators operand).Gives s ⟨op, args⟩ t) :
    op ∈ operators ∧ op.minArity ≤ args.length ∧ args.length ≤ op.maxArity ∧
      ∀ g ∈ args, ∃ s t, (operand op).Gives s g t := by
  simp only [node, Draw.gives_bind, Draw.gives_pure, Draw.gives_lift, Formula.mk.injEq] at h
  obtain ⟨op, _, hop, n, _, hn, _, _, -, args, _, hargs, ⟨rfl, rfl⟩, -⟩ := h
  obtain ⟨hlen, hall⟩ := Draw.times_forall (P := fun g => ∃ s t, (operand op).Gives s g t)
    (fun hg => ⟨_, _, hg⟩) hargs
  obtain ⟨hmin, hmax⟩ := Draw.count_bounds hn
  exact ⟨Draw.oneOf_mem hop, by rw [hlen]; exact hmin, by rw [hlen]; exact hmax, hall⟩

theorem pathOver_derives {state : Draw Formula}
    (hstate : ∀ {s g t}, state.Gives s g t → c.Derives atom quantifiers .state g)
    (h : (c.pathOver state).Gives s f t) : c.Derives atom quantifiers .path f := by
  obtain ⟨op, args⟩ := f
  obtain ⟨hop, hmin, hmax, hargs⟩ := node_gives h
  have hargs : ∀ g ∈ args, c.Derives atom quantifiers .state g := by
    intro g hg
    obtain ⟨_, _, hg⟩ := hargs g hg
    exact hstate hg
  simp only [pathOperators, List.mem_cons, List.not_mem_nil, or_false] at hop
  have unary : ∀ {symbol : Symbol}, symbol ∈ [Symbol.globally, .eventually, .next] → op = .fixed symbol 1 →
      c.Derives atom quantifiers .path ⟨op, args⟩ := by
    rintro symbol hsymbol rfl
    obtain ⟨g, rfl⟩ := List.length_eq_one_iff.mp (Nat.le_antisymm hmax hmin)
    exact .along hsymbol (hargs g (List.mem_singleton_self g))
  rcases hop with hop | hop | hop | hop
  · exact unary (by decide) hop
  · exact unary (by decide) hop
  · exact unary (by decide) hop
  · subst hop
    match args, Nat.le_antisymm hmax hmin with
    | [g, g'], _ => exact .strongUntil (hargs g (by simp)) (hargs g' (by simp))

/-- A connective over formulas that the grammar derives. -/
theorem connectives_derives {op : Operator} {args : List Formula} (hop : op ∈ c.connectives)
    (hmin : op.minArity ≤ args.length) (hmax : args.length ≤ op.maxArity)
    (hargs : ∀ g ∈ args, c.Derives atom quantifiers .state g) : c.Derives atom quantifiers .state ⟨op, args⟩ := by
  simp only [connectives, List.mem_cons, List.not_mem_nil, or_false] at hop
  rcases hop with rfl | rfl | rfl
  · obtain ⟨g, rfl⟩ := List.length_eq_one_iff.mp (Nat.le_antisymm hmax hmin)
    exact .not (hargs g (List.mem_singleton_self g))
  · exact .connective (by decide) hmin hmax hargs
  · exact .connective (by decide) hmin hmax hargs

theorem isOverBooleans_of_mem_connectives {op : Operator} (h : op ∈ c.connectives) : op.isOverBooleans = true := by
  simp only [connectives, List.mem_cons, List.not_mem_nil, or_false] at h
  rcases h with rfl | rfl | rfl <;> rfl

/-- A placeholder has no operands. -/
theorem eq_atom_of_arity {args : List Formula} (h : args.length ≤ Operator.atom.maxArity) :
    (⟨.atom, args⟩ : Formula) = .atom := by
  rw [List.length_eq_zero_iff.mp (Nat.le_zero.mp h)]
  rfl

theorem boolean_derives : ∀ {depth : Nat} {s t : Keystream} {f : Formula}, (c.boolean depth).Gives s f t →
    c.Open pathQuantifiers .state f
  | 0, s, t, f, h => by
    obtain ⟨rfl, -⟩ := Draw.gives_pure.mp h
    exact .atom rfl
  | 1, s, t, f, h => by
    obtain ⟨rfl, -⟩ := Draw.gives_pure.mp h
    exact .atom rfl
  | depth + 2, s, t, ⟨op, args⟩, h => by
    obtain ⟨hop, hmin, hmax, hargs⟩ := node_gives h
    have quantified : ∀ {symbol : Symbol}, symbol ∈ pathQuantifiers → op = .fixed symbol 1 →
        c.Open pathQuantifiers .state ⟨op, args⟩ := by
      rintro symbol hsymbol rfl
      obtain ⟨g, rfl⟩ := List.length_eq_one_iff.mp (Nat.le_antisymm hmax hmin)
      obtain ⟨_, _, hg⟩ := hargs g (List.mem_singleton_self g)
      exact .quantified hsymbol (pathOver_derives boolean_derives hg)
    simp only [booleanOperators, List.mem_cons] at hop
    rcases hop with rfl | hop | hop | hop
    · exact .atom (eq_atom_of_arity hmax)
    · exact quantified (by decide) hop
    · exact quantified (by decide) hop
    · refine connectives_derives hop hmin hmax fun g hg => ?_
      obtain ⟨_, _, hg⟩ := hargs g hg
      rw [isOverBooleans_of_mem_connectives hop, if_pos rfl] at hg
      exact boolean_derives hg

theorem state_derives : ∀ {depth : Nat} {s t : Keystream} {f : Formula}, (c.state depth).Gives s f t →
    c.Open [] .state f
  | 0, s, t, f, h => by
    obtain ⟨rfl, -⟩ := Draw.gives_pure.mp h
    exact .atom rfl
  | 1, s, t, f, h => by
    obtain ⟨rfl, -⟩ := Draw.gives_pure.mp h
    exact .atom rfl
  | depth + 2, s, t, ⟨op, args⟩, h => by
    obtain ⟨hop, hmin, hmax, hargs⟩ := node_gives h
    rcases List.mem_cons.mp hop with rfl | hop
    · exact .atom (eq_atom_of_arity hmax)
    · refine connectives_derives hop hmin hmax fun g hg => ?_
      obtain ⟨_, _, hg⟩ := hargs g hg
      exact state_derives hg

end Sampling

end Catalog
end Formulary
