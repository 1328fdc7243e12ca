import Formulary.Proofs.Formula.Position
import Formulary.Proofs.Text.Reading

/-! What binding puts in the place of the placeholders: one atom for each, from left to right. Every atom is drawn from the
    keystream that the one before it leaves, and it keeps to the bounds of the binder. Binding fails just where there is a
    placeholder and nothing to make atoms of. -/

namespace Formulary

namespace Generation
variable {α : Type} {x : Generation α} {s t u : Keystream} {a : α} {l l' : List α}

/-- The computation is run once for each entry, and every run goes on with the keystream that the run before it leaves. -/
inductive Series (x : Generation α) : Keystream → List α → Keystream → Prop
  | nil {s : Keystream} : Series x s [] s
  | cons {s t u : Keystream} {a : α} {l : List α} (first : x.Gives s a t) (rest : Series x t l u) : Series x s (a :: l) u

theorem Series.single (h : x.Gives s a t) : x.Series s [a] t := .cons h .nil

theorem Series.append (h : x.Series s l t) (h' : x.Series t l' u) : x.Series s (l ++ l') u := by
  induction h with
  | nil => exact h'
  | cons first _ ih => exact .cons first (ih h')

theorem Series.canGive (h : x.Series s l t) (ha : a ∈ l) : x.CanGive a := by
  induction h with
  | nil => cases ha
  | cons first _ ih =>
    rcases List.mem_cons.mp ha with rfl | ha
    · exact ⟨_, _, first⟩
    · exact ih ha

end Generation

theorem exists_mem_of_forall₂ {α β : Type} {r : α → β → Prop} {l : List α} {l' : List β} {a : α}
    (h : List.Forall₂ r l l') (ha : a ∈ l) : ∃ b ∈ l', r a b := by
  obtain ⟨i, hi, rfl⟩ := List.mem_iff_getElem.mp ha
  have hi' : i < l'.length := h.length_eq ▸ hi
  exact ⟨l'[i], List.getElem_mem hi', h.get hi hi'⟩

/-! ### Atoms within bounds -/

namespace Binder
variable {b : Binder} {kind : AtomKind} {f g : Formula} {s t : Keystream}

/-- The bounds on constants are numbers of 64 bits, the lower one first. -/
structure IsBounded (b : Binder) : Prop where
  least : Int64.minValue.toInt ≤ b.leastConstant
  greatest : b.greatestConstant ≤ Int64.maxValue.toInt
  ordered : b.leastConstant ≤ b.greatestConstant

/-- A number of tokens, on no more places than the binder allows. -/
def MakesCount (b : Binder) (f : Formula) : Prop := ∃ ps, Picks b.places b.maxCardinality ps ∧ f = .tokenCount ps

/-- A constant whose text is read as a number between the bounds. -/
def MakesConstant (b : Binder) (f : Formula) : Prop :=
  ∃ text n, f = ⟨.integerConstant, [.literal text]⟩ ∧ Text.int64? text.toList = some n ∧
    b.leastConstant ≤ n ∧ n ≤ b.greatestConstant

/-- The atoms of a kind that keep to the bounds of the binder. -/
inductive MakesAtom (b : Binder) : AtomKind → Formula → Prop
  | fireability {ts : List String} (h : Picks b.transitions b.maxFireability ts) : MakesAtom b .fireability (.isFireable ts)
  | atMost {f g : Formula} (hf : b.MakesCount f) (hg : b.MakesConstant g) : MakesAtom b .cardinality (.leq f g)
  | atLeast {f g : Formula} (hf : b.MakesConstant f) (hg : b.MakesCount g) : MakesAtom b .cardinality (.leq f g)
  | compare {f g : Formula} (hf : b.MakesCount f) (hg : b.MakesCount g) : MakesAtom b .cardinality (.leq f g)

theorem integerConstant_makes (hb : b.IsBounded) (h : b.integerConstant.CanGive f) : b.MakesConstant f := by
  obtain ⟨n, ⟨_, _, hn⟩, rfl⟩ := integerConstant_gives h
  obtain ⟨hleast, hmost⟩ := Draw.constant_bounds hb.least hb.greatest hn
  have hread := Text.int64?_repr (hb.least.trans hleast) (hmost.trans hb.greatest)
  exact ⟨n.repr, n, rfl, hread, hleast, hmost⟩

theorem atomOf_makes (hb : b.IsBounded) (h : (b.atomOf kind).CanGive f) : b.MakesAtom kind f := by
  cases kind with
  | fireability =>
    obtain ⟨ts, hts, rfl⟩ := fireabilityAtom_gives h
    exact .fireability hts
  | cardinality =>
    obtain ⟨f, g, rfl, ⟨hf, hg⟩ | ⟨hf, hg⟩ | ⟨hf, hg⟩⟩ := cardinalityAtom_gives h
    · exact .atMost (tokenCount_gives hf) (integerConstant_makes hb hg)
    · exact .atLeast (integerConstant_makes hb hf) (tokenCount_gives hg)
    · exact .compare (tokenCount_gives hf) (tokenCount_gives hg)

/-! ### One atom after the other -/

/-- The atoms of the operands follow one another, and each is found at the position of its placeholder. Operands are numbered
    from `n` on. -/
theorem bindAll_series {args : List Formula}
    (hargs : ∀ f ∈ args, ∀ {s g t}, (b.bind kind f).Gives s g t →
      ∃ atoms, (b.atomOf kind).Series s atoms t ∧ List.Forall₂ (fun p a => g.at? p = some a) f.slots atoms) :
    ∀ {n : Nat} {s t : Keystream} {args' : List Formula}, (b.bindAll kind args).Gives s args' t →
      ∃ atoms, (b.atomOf kind).Series s atoms t ∧
        List.Forall₂ (fun p a => ∃ i q, p = (n + i) :: q ∧ args'[i]?.bind (·.at? q) = some a)
          (Formula.slotsFrom n args) atoms := by
  induction args with
  | nil =>
    intro n s t args' h
    rw [bindAll, Generation.gives_pure] at h
    obtain ⟨-, rfl⟩ := h
    exact ⟨[], .nil, .nil⟩
  | cons f args ih =>
    intro n s t args' h
    simp only [bindAll, Generation.gives_bind, Generation.gives_pure] at h
    obtain ⟨g, _, hg, rest, _, hrest, rfl, rfl⟩ := h
    obtain ⟨first, hfirst, hat⟩ := hargs f List.mem_cons_self hg
    obtain ⟨others, hothers, hbelow⟩ := ih (fun f hf => hargs f (List.mem_cons_of_mem _ hf)) (n := n + 1) hrest
    refine ⟨first ++ others, hfirst.append hothers, ?_⟩
    rw [Formula.slotsFrom]
    refine List.rel_append ?_ ?_
    · refine List.forall₂_map_left_iff.mpr (hat.imp fun q a hqa => ?_)
      exact ⟨0, q, rfl, hqa⟩
    · refine hbelow.imp fun p a hpa => ?_
      obtain ⟨i, q, rfl, hqa⟩ := hpa
      exact ⟨i + 1, q, by rw [Nat.add_assoc, Nat.add_comm 1], hqa⟩

theorem bind_series (h : (b.bind kind f).Gives s g t) :
    ∃ atoms, (b.atomOf kind).Series s atoms t ∧ List.Forall₂ (fun p a => g.at? p = some a) f.slots atoms := by
  induction f generalizing s g t with
  | node op args ih =>
    rw [bind, Generation.gives_ite] at h
    rw [Formula.slots]
    split at h
    case isTrue hop =>
      rw [if_pos hop]
      exact ⟨[g], .single h, .cons rfl .nil⟩
    case isFalse hop =>
      rw [if_neg hop]
      simp only [Generation.gives_bind, Generation.gives_pure] at h
      obtain ⟨args', _, hargs', rfl, rfl⟩ := h
      obtain ⟨atoms, hseries, hat⟩ := bindAll_series (n := 0) (fun f hf {_ _ _} hg => ih f hf hg) hargs'
      refine ⟨atoms, hseries, hat.imp fun p a hpa => ?_⟩
      obtain ⟨i, q, rfl, hqa⟩ := hpa
      rw [Nat.zero_add]
      exact hqa

/-! ### Bound formulas -/

/-- Binding the formula `f` with the keystream `s` may give `g` and leave `t`: nothing but the placeholders is replaced, each
    placeholder by an atom within the bounds, and the atoms are drawn from left to right. -/
structure Fills (b : Binder) (kind : AtomKind) (f : Formula) (s : Keystream) (g : Formula) (t : Keystream) : Prop where
  kept : ∀ p, f.Clear p → (g.at? p).map Formula.shape = (f.at? p).map Formula.shape
  replaced : ∀ p, f.IsSlot p → ∃ a, g.at? p = some a ∧ b.MakesAtom kind a
  inOrder : ∃ slots atoms, (∀ p, p ∈ slots ↔ f.IsSlot p) ∧ slots.Pairwise (· < ·) ∧
    (b.atomOf kind).Series s atoms t ∧ List.Forall₂ (fun p a => g.at? p = some a) slots atoms

theorem bind_gives_fills (hb : b.IsBounded) (h : (b.bind kind f).Gives s g t) : b.Fills kind f s g t := by
  obtain ⟨atoms, hseries, hat⟩ := bind_series h
  refine ⟨fun p hp => (bind_gives_replaced h).shape_at? hp, fun p hp => ?_, ?_⟩
  · obtain ⟨a, ha, hpa⟩ := exists_mem_of_forall₂ hat (Formula.mem_slots_iff.mpr hp)
    exact ⟨a, hpa, atomOf_makes hb (hseries.canGive ha)⟩
  · exact ⟨f.slots, atoms, fun _ => Formula.mem_slots_iff, f.pairwise_slots, hseries, hat⟩

theorem MakesAtom.pool_ne_nil (h : b.MakesAtom kind f) : b.pool kind ≠ [] := by
  have picks : ∀ {pool ids : List String} {most : Nat}, Picks pool most ids → pool ≠ [] := fun h => by
    have hpositive := h.positive
    have hbounded := h.bounded
    exact List.ne_nil_of_length_pos (by omega)
  have count : ∀ {f : Formula}, b.MakesCount f → b.places ≠ [] := by
    rintro _ ⟨ps, hps, -⟩
    exact picks hps
  cases h with
  | fireability h => exact picks h
  | atMost hf => exact count hf
  | atLeast _ hg => exact count hg
  | compare hf => exact count hf

theorem prevents_iff (hb : b.IsBounded) {failure : Fault ⊕ GenerationError} :
    b.Prevents kind failure ↔ failure = .inr (.noCandidates kind) ∧ b.pool kind = [] := by
  constructor
  · intro h
    cases h with
    | identifiers hpool => exact ⟨rfl, hpool⟩
    | constants hlt => exact absurd hb.ordered (Int.not_le.mpr hlt)
  · rintro ⟨rfl, hpool⟩
    exact .identifiers hpool

/-- Binding fails just where there is a placeholder and no identifier for it. -/
theorem bind_outcome_error_iff (hb : b.IsBounded) {failure : Fault ⊕ GenerationError} :
    (b.bind kind f).outcome s = .error failure ↔
      failure = .inr (.noCandidates kind) ∧ f.containsAtom = true ∧ b.pool kind = [] := by
  constructor
  · intro h
    obtain ⟨hfailure, hpool⟩ := (prevents_iff hb).mp (bind_outcome_error h)
    refine ⟨hfailure, ?_, hpool⟩
    by_contra hfree
    rw [bind_eq_pure (Bool.eq_false_iff.mpr hfree), Generation.outcome_pure] at h
    cases h
  · rintro ⟨rfl, hatom, hpool⟩
    rcases houtcome : (b.bind kind f).outcome s with failure | g
    · rw [((prevents_iff hb).mp (bind_outcome_error houtcome)).1]
    · obtain ⟨t, hgives⟩ := Generation.outcome_eq_ok.mp houtcome
      have hslots : f.slots ≠ [] := fun h => by simp [Formula.slots_eq_nil_iff.mp h] at hatom
      obtain ⟨p, hp⟩ := List.exists_mem_of_ne_nil _ hslots
      obtain ⟨_, -, hmakes⟩ := (bind_gives_fills hb hgives).replaced p (Formula.mem_slots_iff.mp hp)
      exact absurd hpool hmakes.pool_ne_nil

/-- Binding replaces the placeholders and nothing else, one after the other, by atoms within the bounds. It fails just where
    there is a placeholder and no identifier for it. -/
theorem bind_fills (hb : b.IsBounded) :
    (∀ g t, (b.bind kind f).Gives s g t → b.Fills kind f s g t) ∧
    ∀ failure, (b.bind kind f).outcome s = .error failure ↔
      failure = .inr (.noCandidates kind) ∧ f.containsAtom = true ∧ b.pool kind = [] :=
  ⟨fun _ _ => bind_gives_fills hb, fun _ => bind_outcome_error_iff hb⟩

/-- Counts of tokens on one or two places, and constants with a sign. -/
def twoPlaces : Binder := ⟨["p", "q"], ["t"], 1, 2, -3, 3⟩

/-- One placeholder below a conjunction, and one below a negation in it. -/
def twoPlaceholders : Formula := ⟨.connective .and 2, [.atom, ⟨.not, [.atom]⟩]⟩

theorem twoPlaces_bind_fills :
    ∃ t, twoPlaces.IsBounded ∧
      (twoPlaces.bind .cardinality twoPlaceholders).Gives (.ofSeed 3)
        ⟨.connective .and 2, [.leq (.integerConstant 3) (.tokenCount ["q"]),
          ⟨.not, [.leq (.tokenCount ["p", "q"]) (.integerConstant (-2))]⟩]⟩ t ∧
      twoPlaces.Fills .cardinality twoPlaceholders (.ofSeed 3)
        ⟨.connective .and 2, [.leq (.integerConstant 3) (.tokenCount ["q"]),
          ⟨.not, [.leq (.tokenCount ["p", "q"]) (.integerConstant (-2))]⟩]⟩ t ∧
      ((⟨[], [], 1, 2, -3, 3⟩ : Binder).bind .cardinality twoPlaceholders).outcome (.ofSeed 3) =
        .error (.inr (.noCandidates .cardinality)) := by
  have hb : twoPlaces.IsBounded := ⟨by decide, by decide, by decide⟩
  have hnone : (⟨[], [], 1, 2, -3, 3⟩ : Binder).IsBounded := ⟨by decide, by decide, by decide⟩
  obtain ⟨t, hgives⟩ := Generation.outcome_eq_ok.mp (show
    (twoPlaces.bind .cardinality twoPlaceholders).outcome (.ofSeed 3) =
      .ok ⟨.connective .and 2, [.leq (.integerConstant 3) (.tokenCount ["q"]),
        ⟨.not, [.leq (.tokenCount ["p", "q"]) (.integerConstant (-2))]⟩]⟩ by decide +kernel)
  have hatom : twoPlaceholders.containsAtom = true := by decide
  exact ⟨t, hb, hgives, (bind_fills hb).1 _ _ hgives, ((bind_fills hnone).2 _).mpr ⟨rfl, hatom, rfl⟩⟩

end Binder
end Formulary
