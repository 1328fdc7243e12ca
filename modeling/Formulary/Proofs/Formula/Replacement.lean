import Formulary.Proofs.Formula.Generation

/-! Putting atoms in the place of others. The nodes above them stay, so a formula keeps its operators along paths,
    and it has a double negation only if it had one before. -/

namespace Formulary
namespace Formula

/-- `g` is `f` with new atoms in the place of its atoms. -/
inductive Replaced (atom atom' : Formula → Prop) : Formula → Formula → Prop
  | atom {f g : Formula} (h : atom f) (h' : atom' g) : Replaced atom atom' f g
  | node {op : Operator} {args args' : List Formula} (inner : ¬atom ⟨op, args⟩) (length : args'.length = args.length)
      (h : ∀ p ∈ args.zip args', Replaced atom atom' p.1 p.2) : Replaced atom atom' ⟨op, args⟩ ⟨op, args'⟩

variable {atom atom' : Formula → Prop} {f g : Formula} {args args' : List Formula}

/-! ### Lists side by side -/

theorem exists_mem_zip {α β : Type} {l : List α} {l' : List β} {b : β} (h : l'.length = l.length) (hb : b ∈ l') :
    ∃ a ∈ l, (a, b) ∈ l.zip l' := by
  obtain ⟨i, hi, rfl⟩ := List.mem_iff_getElem.mp hb
  have hi' : i < l.length := h ▸ hi
  have hzip : i < (l.zip l').length := by
    rw [List.length_zip]
    omega
  exact ⟨l[i], List.getElem_mem hi', List.mem_iff_getElem.mpr ⟨i, hzip, List.getElem_zip⟩⟩

theorem map_eq_of_zip {α β γ : Type} {p : α → γ} {q : β → γ} :
    ∀ {l : List α} {l' : List β}, l'.length = l.length → (∀ x ∈ l.zip l', q x.2 = p x.1) → l'.map q = l.map p
  | [], [], _, _ => rfl
  | [], _ :: _, hlen, _ => by cases hlen
  | _ :: _, [], hlen, _ => by cases hlen
  | a :: l, b :: l', hlen, h => by
    obtain ⟨hhead, htail⟩ := List.forall_mem_cons.mp h
    rw [List.map_cons, List.map_cons, show q b = p a from hhead, map_eq_of_zip (Nat.succ.inj hlen) htail]

theorem Replaced.exists_of_mem (length : args'.length = args.length)
    (h : ∀ p ∈ args.zip args', Replaced atom atom' p.1 p.2) (hg : g ∈ args') :
    ∃ f ∈ args, Replaced atom atom' f g := by
  obtain ⟨f, hf, hzip⟩ := exists_mem_zip length hg
  exact ⟨f, hf, h _ hzip⟩

theorem Replaced.of_atom (h : Replaced atom atom' f g) (hf : atom f) : atom' g := by
  cases h with
  | atom _ h' => exact h'
  | node inner => exact absurd hf inner

/-- A node with one operand is an atom and is taken out, or its operand changes. -/
theorem Replaced.unary {op : Operator} (h : Replaced atom atom' ⟨op, [f]⟩ g) :
    atom ⟨op, [f]⟩ ∧ atom' g ∨ ∃ f', g = ⟨op, [f']⟩ ∧ Replaced atom atom' f f' := by
  cases h with
  | atom h h' => exact .inl ⟨h, h'⟩
  | node _ length h =>
    obtain ⟨f', rfl⟩ := List.length_eq_one_iff.mp length
    exact .inr ⟨f', rfl, h _ (List.mem_singleton_self _)⟩

theorem Replaced.of_map {op : Operator} {change : Formula → Formula} (inner : ¬atom ⟨op, args⟩)
    (h : ∀ f ∈ args, Replaced atom atom' f (change f)) : Replaced atom atom' ⟨op, args⟩ ⟨op, args.map change⟩ := by
  refine .node inner (List.length_map _) fun p hp => ?_
  rw [← List.map_prod_left_eq_zip] at hp
  obtain ⟨f, hf, rfl⟩ := List.mem_map.mp hp
  exact h f hf

/-! ### Atoms -/

/-- The formula is no negation, has no double negation, and no operator along paths. -/
structure Inert (c : Catalog) (f : Formula) : Prop where
  name_ne : f.name ≠ Symbol.not.name
  hasDoubleNegation : f.hasDoubleNegation = false
  hasPathOperator : f.hasOperator (· ∈ c.pathOperators) = false

variable {c : Catalog}

theorem Inert.not_mem {op : Operator} (h : Inert c ⟨op, args⟩) : op ∉ c.pathOperators := by
  have hnone := h.hasPathOperator
  rw [hasOperator_mk, Bool.or_eq_false_iff] at hnone
  exact of_decide_eq_false hnone.1

theorem Inert.not_mem_below {op inner : Operator} {below : List Formula} (h : Inert c ⟨op, [⟨inner, below⟩]⟩) :
    inner ∉ c.pathOperators := by
  have hnone := h.hasPathOperator
  rw [hasOperator_mk, List.any_cons, hasOperator_mk] at hnone
  simp only [Bool.or_eq_false_iff] at hnone
  exact of_decide_eq_false hnone.2.1.1

theorem inert_atom : Inert c .atom where
  name_ne := by decide
  hasDoubleNegation := by decide
  hasPathOperator := rfl

/-! ### What replacement keeps -/

section
variable (hatom : ∀ f, atom f → Inert c f) (hatom' : ∀ f, atom' f → Inert c f)
include hatom hatom'

theorem Replaced.hasPathOperator_eq (h : Replaced atom atom' f g) :
    g.hasOperator (· ∈ c.pathOperators) = f.hasOperator (· ∈ c.pathOperators) := by
  induction h with
  | atom h h' => rw [(hatom _ h).hasPathOperator, (hatom' _ h').hasPathOperator]
  | node _ length _ ih =>
    have hmap := congrArg (List.any · id) (map_eq_of_zip length ih)
    simp only [List.any_map, Function.id_comp] at hmap
    rw [hasOperator_mk, hasOperator_mk, hmap]

theorem Replaced.isNot_eq (h : Replaced atom atom' f g) :
    decide (g.name = Symbol.not.name) = decide (f.name = Symbol.not.name) := by
  cases h with
  | atom h h' => rw [decide_eq_false (hatom _ h).name_ne, decide_eq_false (hatom' _ h').name_ne]
  | node => rfl

theorem Replaced.hasDoubleNegation_eq (h : Replaced atom atom' f g) :
    g.hasDoubleNegation = f.hasDoubleNegation := by
  induction h with
  | atom h h' => rw [(hatom _ h).hasDoubleNegation, (hatom' _ h').hasDoubleNegation]
  | @node op args args' _ length h ih =>
    have hbelow := congrArg (List.any · id) (map_eq_of_zip length ih)
    simp only [List.any_map, Function.id_comp] at hbelow
    have hnames : args'.map (fun f => decide (f.name = Symbol.not.name)) =
        args.map fun f => decide (f.name = Symbol.not.name) :=
      map_eq_of_zip length fun p hp => Replaced.isNot_eq hatom hatom' (h p hp)
    replace hnames := congrArg List.head? hnames
    rw [List.head?_map, List.head?_map] at hnames
    have hfirst := congrArg (Option.any id) hnames
    simp only [Option.any_map] at hfirst
    rw [hasDoubleNegation_mk, hasDoubleNegation_mk, hbelow, startsDoubleNegation, startsDoubleNegation]
    exact congrArg (fun b => op.name = Symbol.not.name && b || args.any hasDoubleNegation) hfirst

end

end Formula
end Formulary
