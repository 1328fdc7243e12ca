import Formulary.Proofs.Formula.Placeholder

/-! Positions in a formula. A position is the way from the root to a node, given by the numbers of the operands that it goes
    through. A formula in which placeholders are replaced is the same at all positions that are not at or below a
    placeholder. -/

namespace Formulary
namespace Formula
variable {f g x : Formula} {op : Operator} {args args' : List Formula} {i n : Nat} {p q : List Nat}

/-- The part of the formula at a position, if there is a node. -/
def at? (f : Formula) : List Nat → Option Formula
  | [] => some f
  | i :: p => f.operands[i]?.bind (·.at? p)

/-- What can be said about a node without going further down: its operator and how many operands it has. -/
def shape (f : Formula) : Operator × Nat := (f.operator, f.operands.length)

@[simp] theorem at?_nil (f : Formula) : f.at? [] = some f := rfl

@[simp] theorem at?_cons (f : Formula) (i : Nat) (p : List Nat) :
    f.at? (i :: p) = f.operands[i]?.bind (·.at? p) := rfl

/-! ### Placeholders -/

mutual

/-- The positions of the placeholders that are not below another one, from left to right. -/
def slots : Formula → List (List Nat)
  | ⟨op, args⟩ => if op = .atom then [[]] else slotsFrom 0 args

/-- The positions of the placeholders of operands whose numbers begin with `n`. -/
def slotsFrom : Nat → List Formula → List (List Nat)
  | _, [] => []
  | n, f :: fs => (slots f).map (n :: ·) ++ slotsFrom (n + 1) fs

end

/-- The position is neither that of a placeholder nor below one. -/
def Clear (f : Formula) (p : List Nat) : Prop := ∀ q, q <+: p → ∀ x ∈ f.at? q, x.isAtom = false

/-- There is a placeholder at the position, and none above it. -/
structure IsSlot (f : Formula) (p : List Nat) : Prop where
  isAtom : ∃ x ∈ f.at? p, x.isAtom = true
  above : ∀ q, q <+: p → q ≠ p → ∀ x ∈ f.at? q, x.isAtom = false

theorem mem_slotsFrom :
    p ∈ slotsFrom n args ↔ ∃ i q, p = (n + i) :: q ∧ ∃ f, args[i]? = some f ∧ q ∈ f.slots := by
  induction args generalizing n with
  | nil => simp [slotsFrom]
  | cons f args ih =>
    rw [slotsFrom, List.mem_append, List.mem_map, ih]
    constructor
    · rintro (⟨q, hq, rfl⟩ | ⟨i, q, rfl, g, hg, hq⟩)
      · exact ⟨0, q, rfl, f, rfl, hq⟩
      · exact ⟨i + 1, q, by rw [Nat.add_assoc, Nat.add_comm 1], g, hg, hq⟩
    · rintro ⟨i, q, rfl, g, hg, hq⟩
      cases i with
      | zero =>
        cases hg
        exact .inl ⟨q, hq, rfl⟩
      | succ i => exact .inr ⟨i, q, by rw [Nat.add_assoc, Nat.add_comm 1], g, hg, hq⟩

theorem isSlot_nil : f.IsSlot [] ↔ f.isAtom = true := by
  constructor
  · rintro ⟨⟨x, ⟨rfl⟩, hx⟩, -⟩
    exact hx
  · intro h
    exact ⟨⟨f, rfl, h⟩, fun q hq hne => absurd (List.prefix_nil.mp hq) hne⟩

theorem isSlot_cons :
    f.IsSlot (i :: p) ↔ f.isAtom = false ∧ ∃ g, f.operands[i]? = some g ∧ g.IsSlot p := by
  constructor
  · rintro ⟨⟨x, hx, hatom⟩, habove⟩
    obtain ⟨g, hg, hgx⟩ := Option.bind_eq_some_iff.mp hx
    refine ⟨habove [] List.nil_prefix (List.cons_ne_nil _ _).symm f rfl, g, hg, ⟨x, hgx, hatom⟩, fun q hq hne y hy => ?_⟩
    refine habove (i :: q) ((List.prefix_cons_inj i).mpr hq) (fun heq => hne (List.cons.inj heq).2) y ?_
    rw [at?_cons, hg]
    exact hy
  · rintro ⟨hf, g, hg, ⟨x, hx, hatom⟩, habove⟩
    refine ⟨⟨x, by rw [at?_cons, hg]; exact hx, hatom⟩, fun q hq hne y hy => ?_⟩
    cases q with
    | nil =>
      cases hy
      exact hf
    | cons j q =>
      obtain ⟨rfl, hbelow⟩ := List.cons_prefix_cons.mp hq
      rw [at?_cons, hg] at hy
      exact habove q hbelow (fun heq => hne (heq ▸ rfl)) y hy

/-- Just the outermost placeholders are listed. -/
theorem mem_slots_iff : p ∈ f.slots ↔ f.IsSlot p := by
  induction f generalizing p with
  | node op args ih =>
    rw [slots]
    split
    case isTrue hop =>
      have hatom : isAtom ⟨op, args⟩ = true := isAtom_mk.mpr hop
      cases p with
      | nil => simp [isSlot_nil, hatom]
      | cons i p => simp [isSlot_cons, hatom]
    case isFalse hop =>
      have hinner : isAtom ⟨op, args⟩ = false := Bool.eq_false_iff.mpr fun h => hop (isAtom_mk.mp h)
      rw [mem_slotsFrom]
      cases p with
      | nil => simp [isSlot_nil, hinner]
      | cons i p =>
        rw [isSlot_cons]
        constructor
        · rintro ⟨j, q, heq, g, hg, hq⟩
          rw [Nat.zero_add] at heq
          cases heq
          exact ⟨hinner, g, hg, (ih g (List.mem_of_getElem? hg)).mp hq⟩
        · rintro ⟨-, g, hg, hp⟩
          exact ⟨i, p, by rw [Nat.zero_add], g, hg, (ih g (List.mem_of_getElem? hg)).mpr hp⟩

/-- The positions are listed in the order in which a walk through the formula that takes a node before its operands comes to
    them. -/
theorem pairwise_slots (f : Formula) : f.slots.Pairwise (· < ·) := by
  induction f with
  | node op args ih =>
    have hfrom : ∀ n, (slotsFrom n args).Pairwise (· < ·) := by
      induction args with
      | nil => exact fun n => .nil
      | cons f args ihargs =>
        obtain ⟨hf, hargs⟩ := List.forall_mem_cons.mp ih
        intro n
        rw [slotsFrom]
        refine List.pairwise_append.mpr ⟨?_, ihargs hargs (n + 1), ?_⟩
        · refine List.pairwise_map.mpr (hf.imp fun hlt => ?_)
          exact List.cons_lt_cons_self.mpr hlt
        · rintro p hp q hq
          obtain ⟨p, -, rfl⟩ := List.mem_map.mp hp
          obtain ⟨i, q, rfl, -⟩ := mem_slotsFrom.mp hq
          exact List.cons_lt_cons_iff.mpr (.inl (by omega))
    rw [slots]
    split
    · exact List.pairwise_singleton _ _
    · exact hfrom 0

theorem slotsFrom_eq_nil_iff : slotsFrom n args = [] ↔ ∀ f ∈ args, f.slots = [] := by
  induction args generalizing n with
  | nil => simp [slotsFrom]
  | cons f args ih => simp [slotsFrom, ih]

theorem slots_eq_nil_iff : f.slots = [] ↔ f.containsAtom = false := by
  induction f with
  | node op args ih =>
    rw [slots, containsAtom_mk_eq_false]
    split
    case isTrue hop => simp [hop]
    case isFalse hop =>
      rw [slotsFrom_eq_nil_iff, and_iff_right hop]
      exact forall₂_congr ih

/-! ### Replacing -/

theorem Clear.of_cons (h : f.Clear (i :: p)) (hg : f.operands[i]? = some g) : g.Clear p := by
  intro q hq x hx
  refine h (i :: q) ((List.prefix_cons_inj i).mpr hq) x ?_
  rw [at?_cons, hg]
  exact hx

/-- The nodes that are neither at nor below a placeholder stay. -/
theorem Replaced.shape_at? {atom' : Formula → Prop} (h : Replaced (·.isAtom = true) atom' f g) (hp : f.Clear p) :
    (g.at? p).map shape = (f.at? p).map shape := by
  induction h generalizing p with
  | atom hatom =>
    have hclear := hp [] List.nil_prefix _ rfl
    rw [hatom] at hclear
    cases hclear
  | @node op args args' _ length _ ih =>
    cases p with
    | nil => simp [shape, length]
    | cons i p =>
      rw [at?_cons, at?_cons]
      rcases Nat.lt_or_ge i args.length with hi | hi
      · have hi' : i < args'.length := length ▸ hi
        have hzip : (args[i], args'[i]) ∈ args.zip args' :=
          List.mem_iff_getElem.mpr ⟨i, by rw [List.length_zip]; omega, List.getElem_zip⟩
        rw [List.getElem?_eq_getElem hi, List.getElem?_eq_getElem hi']
        exact ih _ hzip (hp.of_cons (List.getElem?_eq_getElem hi))
      · rw [List.getElem?_eq_none hi, List.getElem?_eq_none (length ▸ hi)]

end Formula
end Formulary
