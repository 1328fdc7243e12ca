import Formulary.Net.Pnml
import Formulary.Proofs.Formula.Failure
import Formulary.Settings.Basic

/-! What binding leaves of the placeholders. A placeholder is told by its operator alone, and so is a leaf that names
    an identifier. Every placeholder of a formula is replaced by an atom, but an identifier called like the
    placeholder reads as one in the bound formula. Where no atom lists it, a second binding finds nothing to
    replace. -/

namespace Formulary

/-! ### Placeholders in formulas -/

namespace Formula
variable {f g : Formula} {op : Operator} {args : List Formula} {atom' p q : Formula → Prop}

theorem isAtom_mk : isAtom ⟨op, args⟩ = true ↔ op = .atom := decide_eq_true_iff

theorem containsAtom_mk_eq_false :
    containsAtom ⟨op, args⟩ = false ↔ op ≠ .atom ∧ ∀ f ∈ args, f.containsAtom = false := by
  simp [containsAtom]

theorem Replaced.mono (h : Replaced p q f g) (hq : ∀ a, q a → atom' a) : Replaced p atom' f g := by
  induction h with
  | atom h h' => exact .atom h (hq _ h')
  | node inner length _ ih => exact .node inner length ih

/-- The new formula has a placeholder only inside an atom that was put in. -/
theorem Replaced.containsAtom_eq_false_iff (h : Replaced (·.isAtom = true) atom' f g) :
    g.containsAtom = false ↔
      Replaced (·.isAtom = true) (fun a => atom' a ∧ a.containsAtom = false) f g := by
  constructor
  · intro hg
    induction h with
    | atom h h' => exact .atom h ⟨h', hg⟩
    | node inner length _ ih =>
      have hbelow := (containsAtom_mk_eq_false.mp hg).2
      exact .node inner length fun p hp => ih p hp (hbelow p.2 (List.of_mem_zip hp).2)
  · intro hfree
    clear h
    induction hfree with
    | atom _ h' => exact h'.2
    | node inner length _ ih =>
      refine containsAtom_mk_eq_false.mpr ⟨fun hop => inner (isAtom_mk.mpr hop), fun g hg => ?_⟩
      obtain ⟨f, -, hzip⟩ := exists_mem_zip length hg
      exact ih _ hzip

/-! ### Placeholders in atoms -/

theorem containsAtom_literals (texts : List String) (hop : op ≠ .atom) :
    containsAtom ⟨op, texts.map literal⟩ = false ↔ Symbol.atom.name ∉ texts := by
  have hleaf : ∀ text, (literal text).containsAtom = false ↔ text ≠ Symbol.atom.name := fun text => by
    simp [literal, leaf, containsAtom_mk_eq_false, Operator.atom, Operator.literal]
  rw [containsAtom_mk_eq_false, List.forall_mem_map]
  constructor
  · rintro ⟨-, hall⟩ hmem
    exact (hleaf _).mp (hall _ hmem) rfl
  · intro hmem
    refine ⟨hop, fun text htext => (hleaf text).mpr ?_⟩
    rintro rfl
    exact hmem htext

/-- The text of a number is read back, so it is no name of a placeholder. -/
theorem containsAtom_integerConstant (n : Int) : (integerConstant n).containsAtom = false := by
  refine (containsAtom_literals [n.repr] (by decide)).mpr fun hmem => ?_
  have hread := Int.toInt?_repr n
  have hnone : Symbol.atom.name.toInt? = none := by cbv
  rw [← List.mem_singleton.mp hmem, hnone] at hread
  cases hread

theorem containsAtom_leq : (leq f g).containsAtom = false ↔ f.containsAtom = false ∧ g.containsAtom = false := by
  have hop : Operator.leq ≠ .atom := by decide
  simp [leq, containsAtom_mk_eq_false, hop]

theorem payloads_literals (symbol : Symbol) (texts : List String) :
    payloads symbol ⟨op, texts.map literal⟩ = if op.name = symbol.name then texts else [] := by
  have hbelow : payloadsAll symbol (texts.map literal) = [] := by
    induction texts with
    | nil => rfl
    | cons text texts ih => simp [payloadsAll, ih, literal, leaf, payloads]
  rw [payloads, hbelow, List.map_map]
  exact congrArg (fun l => if op.name = symbol.name then l else []) (List.map_id texts)

theorem payloads_leq {symbol : Symbol} (hsymbol : symbol ≠ .leq) :
    payloads symbol (leq f g) = payloads symbol f ++ payloads symbol g := by
  have hname : Operator.leq.name ≠ symbol.name := fun h => hsymbol (Symbol.name_injective (a := .leq) h).symm
  rw [leq, payloads, if_neg hname, payloadsAll, payloadsAll, payloadsAll, List.append_nil]

/-- The identifiers the formula speaks about. -/
def identifiers (f : Formula) : List String := f.transitions ++ f.places

theorem identifiers_isFireable (ts : List String) : (isFireable ts).identifiers = ts := by
  rw [identifiers, transitions, places, isFireable, payloads_literals, payloads_literals]
  exact List.append_nil ts

theorem identifiers_tokenCount (ps : List String) : (tokenCount ps).identifiers = ps := by
  rw [identifiers, transitions, places, tokenCount, payloads_literals, payloads_literals]
  exact List.nil_append ps

theorem identifiers_integerConstant (n : Int) : (integerConstant n).identifiers = [] := by
  rw [identifiers, transitions, places, integerConstant, ← List.map_singleton, payloads_literals, payloads_literals]
  rfl

theorem mem_identifiers_leq {x : String} :
    x ∈ (leq f g).identifiers ↔ x ∈ f.identifiers ∨ x ∈ g.identifiers := by
  rw [identifiers, transitions, places, payloads_leq (by decide), payloads_leq (by decide)]
  simp only [identifiers, transitions, places, List.mem_append]
  tauto

end Formula

section Atoms
variable {b : Binder} {ids : Identifiers} {kind : AtomKind} {a : Formula}

theorem IsCount.containsAtom_eq_false_iff (h : IsCount ids a) :
    a.containsAtom = false ↔ Symbol.atom.name ∉ a.identifiers := by
  obtain ⟨ps, -, -, rfl⟩ := h
  rw [Formula.identifiers_tokenCount]
  exact Formula.containsAtom_literals _ (by decide)

/-- An atom has a placeholder exactly if it speaks about an identifier of that name. -/
theorem IsAtom.containsAtom_eq_false_iff (h : IsAtom ids kind a) :
    a.containsAtom = false ↔ Symbol.atom.name ∉ a.identifiers := by
  cases h with
  | @fireability ts =>
    rw [Formula.identifiers_isFireable]
    exact Formula.containsAtom_literals _ (by decide)
  | atMost h n =>
    simp [Formula.containsAtom_leq, Formula.mem_identifiers_leq, h.containsAtom_eq_false_iff,
      Formula.containsAtom_integerConstant, Formula.identifiers_integerConstant]
  | atLeast n h =>
    simp [Formula.containsAtom_leq, Formula.mem_identifiers_leq, h.containsAtom_eq_false_iff,
      Formula.containsAtom_integerConstant, Formula.identifiers_integerConstant]
  | compare hf hg =>
    simp [Formula.containsAtom_leq, Formula.mem_identifiers_leq, hf.containsAtom_eq_false_iff,
      hg.containsAtom_eq_false_iff]

theorem IsCount.identifiers_subset (h : IsCount b.known a) : a.identifiers ⊆ b.places := by
  obtain ⟨ps, -, hsub, rfl⟩ := h
  rwa [Formula.identifiers_tokenCount]

theorem IsAtom.identifiers_subset (h : IsAtom b.known kind a) : a.identifiers ⊆ b.pool kind := by
  cases h with
  | fireability _ known => rwa [Formula.identifiers_isFireable]
  | atMost h n =>
    intro x hx
    rw [Formula.mem_identifiers_leq, Formula.identifiers_integerConstant] at hx
    exact h.identifiers_subset (hx.resolve_right List.not_mem_nil)
  | atLeast n h =>
    intro x hx
    rw [Formula.mem_identifiers_leq, Formula.identifiers_integerConstant] at hx
    exact h.identifiers_subset (hx.resolve_left List.not_mem_nil)
  | compare hf hg =>
    intro x hx
    exact (Formula.mem_identifiers_leq.mp hx).elim (hf.identifiers_subset ·) (hg.identifiers_subset ·)

end Atoms

/-! ### Binding any formula -/

namespace Binder
variable {b : Binder} {kind : AtomKind} {f g : Formula} {s t : Keystream}

theorem bind_gives_replaced (h : (b.bind kind f).Gives s g t) :
    Formula.Replaced (·.isAtom = true) (IsAtom b.known kind) f g := by
  induction f generalizing s g t with
  | node op args ih =>
    rw [bind, Generation.gives_ite] at h
    split at h
    case isTrue hop => exact .atom (Formula.isAtom_mk.mpr hop) (atomOf_gives h)
    case isFalse hop =>
      simp only [Generation.gives_bind, Generation.gives_pure] at h
      obtain ⟨args', _, hargs', rfl, -⟩ := h
      obtain ⟨hlength, hall⟩ := bindAll_gives (fun f hmem {_ _ _} hg => ih f hmem hg) hargs'
      exact .node (fun hatom => hop (Formula.isAtom_mk.mp hatom)) hlength hall

theorem bindAll_eq_pure {args : List Formula} (h : ∀ f ∈ args, b.bind kind f = pure f) :
    b.bindAll kind args = pure args := by
  induction args with
  | nil => rw [bindAll]
  | cons f args ih =>
    obtain ⟨hf, hargs⟩ := List.forall_mem_cons.mp h
    rw [bindAll, hf, ih hargs, pure_bind, pure_bind]

/-- Nothing is drawn where there is nothing to replace. -/
theorem bind_eq_pure (h : f.containsAtom = false) : b.bind kind f = pure f := by
  induction f with
  | node op args ih =>
    obtain ⟨hop, hargs⟩ := Formula.containsAtom_mk_eq_false.mp h
    rw [bind, if_neg hop, bindAll_eq_pure fun f hf => ih f hf (hargs f hf), pure_bind]

/-- A binder without identifiers can replace nothing. -/
theorem containsAtom_eq_false_of_bind_eq_pure (h : (⟨[], [], 0, 0, 0, 0⟩ : Binder).bind kind f = pure f) :
    f.containsAtom = false := by
  have hgives : ((⟨[], [], 0, 0, 0, 0⟩ : Binder).bind kind f).Gives (.ofSeed 0) f (.ofSeed 0) := by
    rw [h]
    exact Generation.gives_pure.mpr ⟨rfl, rfl⟩
  have hreplaced := bind_gives_replaced hgives
  refine hreplaced.containsAtom_eq_false_iff.mpr (hreplaced.mono fun a ha => ?_)
  exact absurd (by cases kind <;> rfl) (pool_ne_nil_of_isAtom ha)

/-- Every placeholder of a formula is replaced by an atom, and the bound formula has a placeholder exactly if one of
    these atoms speaks about an identifier of that name. Unless there is one, no binder changes the formula again. -/
theorem bind_replaces_placeholders (h : (b.bind kind f).Gives s g t) :
    Formula.Replaced (·.isAtom = true) (IsAtom b.known kind) f g ∧
    (g.containsAtom = false ↔
      Formula.Replaced (·.isAtom = true) (fun a => IsAtom b.known kind a ∧ Symbol.atom.name ∉ a.identifiers) f g) ∧
    (g.containsAtom = false ↔ ∀ (b' : Binder) (kind' : AtomKind), b'.bind kind' g = pure g) ∧
    (Symbol.atom.name ∉ b.pool kind → g.containsAtom = false) := by
  have hreplaced := bind_gives_replaced h
  have hfree : g.containsAtom = false ↔
      Formula.Replaced (·.isAtom = true) (fun a => IsAtom b.known kind a ∧ Symbol.atom.name ∉ a.identifiers) f g := by
    rw [hreplaced.containsAtom_eq_false_iff]
    constructor
    · exact fun hg => hg.mono fun a ⟨ha, hnone⟩ => ⟨ha, ha.containsAtom_eq_false_iff.mp hnone⟩
    · exact fun hg => hg.mono fun a ⟨ha, hnone⟩ => ⟨ha, ha.containsAtom_eq_false_iff.mpr hnone⟩
  refine ⟨hreplaced, hfree, ⟨fun hg b' kind' => bind_eq_pure hg, fun hagain => ?_⟩, fun hpool => ?_⟩
  · exact containsAtom_eq_false_of_bind_eq_pure (hagain _ .fireability)
  · exact hfree.mpr (hreplaced.mono fun a ha => ⟨ha, fun hmem => hpool (ha.identifiers_subset hmem)⟩)

/-- One of the transitions is called like the placeholder, and the atom is about the other one. -/
theorem bind_replaces_placeholders_spared :
    ∃ t, ((⟨["p"], ["atom", "t"], 1, 1, 0, 100⟩ : Binder).bind .fireability ⟨.not, [.atom]⟩).Gives (.ofSeed 2)
        ⟨.not, [.isFireable ["t"]]⟩ t ∧
      Formula.containsAtom ⟨.not, [.isFireable ["t"]]⟩ = false ∧
      Formula.Replaced (·.isAtom = true)
        (fun a => IsAtom ⟨["p"], ["atom", "t"]⟩ .fireability a ∧ Symbol.atom.name ∉ a.identifiers)
        ⟨.not, [.atom]⟩ ⟨.not, [.isFireable ["t"]]⟩ := by
  obtain ⟨t, h⟩ := Generation.outcome_eq_ok.mp (show
    ((⟨["p"], ["atom", "t"], 1, 1, 0, 100⟩ : Binder).bind .fireability ⟨.not, [.atom]⟩).outcome (.ofSeed 2) =
      .ok ⟨.not, [.isFireable ["t"]]⟩ by decide +kernel)
  have hfree : Formula.containsAtom ⟨.not, [.isFireable ["t"]]⟩ = false := by decide
  exact ⟨t, h, hfree, (bind_replaces_placeholders h).2.1.mp hfree⟩

/-- A net may have a transition called like the placeholder. The only atom that there is for it has a placeholder, and
    a second binding puts the atom into itself. -/
theorem bind_atom_transition :
    Pnml.parse "<pnml><net id=\"n\"><place id=\"p\"/><transition id=\"atom\"/></net></pnml>" =
      .ok ⟨["p"], ["atom"], none⟩ ∧
    ((({} : GenerationSettings).binder ["p"] ["atom"]).bind .fireability .atom).outcome (.ofSeed 1) =
      .ok (.isFireable ["atom"]) ∧
    (Formula.isFireable ["atom"]).containsAtom = true ∧
    ((({} : GenerationSettings).binder ["p"] ["atom"]).bind .fireability (.isFireable ["atom"])).outcome (.ofSeed 1) =
      .ok ⟨.isFireable, [.isFireable ["atom"]]⟩ :=
  ⟨by decide +kernel, by decide +kernel, by decide, by decide +kernel⟩

end Binder
end Formulary
