import Formulary.Proofs.Random.Shuffle

/-! What draws can meet. A number is drawn whenever there is one between the bounds, so a choice among the entries of a
    list fails only if the list is empty. A shuffle always stays inside the list: the number that holds the next
    positions is below the product of their radices, so each position that is taken out of it is below its own. -/

namespace Formulary
namespace Draw
variable {α β : Type} {s t : Keystream} {fault : Fault}

/-- From the keystream `s` the draw meets the fault. -/
def Meets (x : Draw α) (s : Keystream) (fault : Fault) : Prop := x.run s = .error fault

@[simp] theorem not_meets_pure {a : α} : ¬Meets (pure a) s fault := nofun

@[simp] theorem meets_throw {e : Fault} : Meets (throw e : Draw α) s fault ↔ e = fault := by
  show Except.error e = Except.error fault ↔ _
  rw [Except.error.injEq]

@[simp] theorem meets_bind {x : Draw α} {f : α → Draw β} :
    Meets (x >>= f) s fault ↔ Meets x s fault ∨ ∃ a t, Gives x s a t ∧ Meets (f a) t fault := by
  simp only [Meets, Gives, StateT.run_bind]
  cases x.run s with
  | error e => simp [bind, Except.bind]
  | ok r => simp [bind, Except.bind, Prod.ext_iff]

@[simp] theorem meets_map {f : α → β} {x : Draw α} : Meets (f <$> x) s fault ↔ Meets x s fault := by
  rw [map_eq_pure_bind, meets_bind]
  simp only [not_meets_pure, and_false, exists_false, or_false]

@[simp] theorem meets_lift {x : Except Fault α} : Meets (liftM x) s fault ↔ x = .error fault := by
  simp only [Meets, liftM, StateT.run_monadLift]
  cases x <;> simp [monadLift, bind, Except.bind, pure, Except.pure]

@[simp] theorem meets_ite {p : Prop} [Decidable p] {x y : Draw α} :
    Meets (if p then x else y) s fault ↔ if p then Meets x s fault else Meets y s fault := by
  split <;> rfl

/-- What meets no fault gives something. -/
theorem exists_gives {x : Draw α} (h : ∀ fault, ¬x.Meets s fault) : ∃ a t, x.Gives s a t := by
  cases hrun : x.run s with
  | error fault => exact absurd hrun (h fault)
  | ok r => exact ⟨r.1, r.2, hrun⟩

/-! ### Numbers -/

@[simp] theorem not_meets_word : ¬Meets word s fault := nofun

@[simp] theorem not_meets_bits {w : Width} : ¬Meets (bits w) s fault := by
  cases w <;> simp [bits]

@[simp] theorem not_meets_below {w : Width} {span : Nat} : ¬Meets (below w span) s fault := by
  simp [below]

/-- Between two bounds there is a number, unless the upper one is below the other. -/
@[simp] theorem meets_between {w : Width} {lo hi : Nat} :
    Meets (between w lo hi) s fault ↔ hi < lo ∧ fault = .emptyRange := by
  by_cases hlt : hi < lo
  · simp [between, hlt, eq_comm]
  · simp only [between, hlt, meets_ite, meets_bind, not_meets_bits, not_meets_below, not_meets_pure, and_false,
      exists_false, or_self, if_false, ite_self, false_and]

@[simp] theorem meets_count {lo hi : Nat} : Meets (count lo hi) s fault ↔ hi < lo ∧ fault = .emptyRange :=
  meets_between

@[simp] theorem meets_position {n : Nat} : Meets (position n) s fault ↔ n = 0 ∧ fault = .emptyRange := by
  by_cases hn : n = 0
  · simp [position, hn, eq_comm]
  · simp [position, hn]

@[simp] theorem meets_constant {lo hi : Int} : Meets (constant lo hi) s fault ↔ hi < lo ∧ fault = .emptyRange := by
  by_cases hlt : hi < lo
  · simp [constant, hlt, eq_comm]
  · simp only [constant, hlt, meets_ite, meets_bind, not_meets_bits, not_meets_below, not_meets_pure, and_false,
      exists_false, or_self, if_false, ite_self, false_and]

theorem position_lt {n i : Nat} (h : (position n).Gives s i t) : i < n := by
  simp only [position, gives_ite, gives_throw] at h
  split at h
  case isTrue => exact h.elim
  case isFalse hn =>
    have := (between_bounds h).2
    omega

/-! ### Lists -/

@[simp] theorem meets_oneOf {l : List α} : Meets (oneOf l) s fault ↔ l = [] ∧ fault = .emptyRange := by
  simp only [oneOf, meets_bind, meets_position, meets_lift, List.length_eq_zero_iff]
  refine or_iff_left ?_
  rintro ⟨i, _, hi, hentry⟩
  rw [Fault.entry_eq_ok.mpr (List.getElem?_eq_getElem (position_lt hi))] at hentry
  cases hentry

theorem times_meets {n : Nat} {draw : Draw α} (h : (times n draw).Meets s fault) : ∃ t, draw.Meets t fault := by
  induction n generalizing s with
  | zero => exact absurd h not_meets_pure
  | succ n ih =>
    simp only [times, meets_bind, not_meets_pure, and_false, exists_false, or_false] at h
    rcases h with h | ⟨_, _, -, h⟩
    · exact ⟨s, h⟩
    · exact ih h

/-! ### Shuffles -/

namespace Packed

/-- What is left holds the positions among `m` entries, among `m + 1` entries, and so on. -/
def Fits (p : Packed) (m : Nat) : Prop := 0 < p.remaining → p.chunk < m.ascFactorial p.remaining

theorem fits_start : start.Fits 1 := fun _ => by decide

theorem ascFactorial_eq_mul (m n : Nat) : m.ascFactorial (n + 1) = m * (m + 1).ascFactorial n := by
  rw [Nat.ascFactorial_succ, ← Nat.succ_ascFactorial]

/-- The product is multiplied by the numbers from `next` up to the first one left out. -/
theorem fill_eq {product next : Nat} (hproduct : 0 < product) (hnext : 1 < next) :
    ∃ n, fill product next = (product * next.ascFactorial n, next + n) := by
  fun_induction fill product next with
  | case1 product next h ih =>
    obtain ⟨n, hn⟩ := ih (Nat.mul_pos hproduct (by omega)) (by omega)
    exact ⟨n + 1, by rw [hn, ascFactorial_eq_mul, Nat.mul_assoc, Nat.add_right_comm, Nat.add_assoc]⟩
  | case2 product next h => exact ⟨0, by simp⟩

/-- What holds the next positions: what was left, or a number drawn anew. -/
def refill (p : Packed) (m : Nat) : Draw Packed :=
  if p.remaining > 0 then pure { p with remaining := p.remaining - 1 }
  else do
    let (product, next) := fill m (m + 1)
    return ⟨← between .short 0 (product - 1), next - m - 1⟩

theorem position_eq (p : Packed) (m : Nat) : p.position m = do
    let p ← p.refill m
    if p.remaining = 0 then return (p.chunk, p)
    else return (p.chunk % m, { p with chunk := p.chunk / m }) := by
  unfold position refill
  split <;> simp

theorem refill_gives {p p' : Packed} {m : Nat} (hp : p.Fits (m + 1)) (h : (p.refill (m + 1)).Gives s p' t) :
    p'.chunk < (m + 1).ascFactorial (p'.remaining + 1) := by
  simp only [refill, gives_ite, gives_bind, gives_pure] at h
  split at h
  case isTrue hleft =>
    obtain ⟨rfl, -⟩ := h
    rw [Nat.sub_add_cancel hleft]
    exact hp hleft
  case isFalse =>
    obtain ⟨n, hfill⟩ := fill_eq (Nat.succ_pos m) (show 1 < m + 1 + 1 by omega)
    rw [hfill, ← ascFactorial_eq_mul] at h
    obtain ⟨chunk, _, hchunk, rfl, -⟩ := h
    have hpos := Nat.ascFactorial_pos m (n + 1)
    have hle := (between_bounds hchunk).2
    rw [show m + 1 + 1 + n - (m + 1) - 1 = n by omega]
    exact Nat.lt_of_le_sub_one hpos hle

/-- A position is below the number of entries, and what is left fits the next one. -/
theorem position_gives {p p' : Packed} {m j : Nat} (hp : p.Fits (m + 1))
    (h : (p.position (m + 1)).Gives s (j, p') t) : j < m + 1 ∧ p'.Fits (m + 2) := by
  simp only [position_eq, gives_bind, gives_ite, gives_pure, Prod.mk.injEq] at h
  obtain ⟨q, _, hq, h⟩ := h
  have hchunk := refill_gives hp hq
  rw [ascFactorial_eq_mul] at hchunk
  split at h
  case isTrue hnone =>
    obtain ⟨⟨rfl, rfl⟩, -⟩ := h
    rw [hnone, Nat.ascFactorial_zero, Nat.mul_one] at hchunk
    exact ⟨hchunk, fun hleft => absurd hleft (by omega)⟩
  case isFalse =>
    obtain ⟨⟨rfl, rfl⟩, -⟩ := h
    exact ⟨Nat.mod_lt _ (Nat.succ_pos m), fun _ => Nat.div_lt_of_lt_mul hchunk⟩

@[simp] theorem not_meets_position {p : Packed} {m : Nat} : ¬(p.position m).Meets s fault := by
  simp [position_eq, refill]

end Packed

theorem exists_exchange {a : Array α} {i j : Nat} (hi : i < a.size) (hj : j < a.size) :
    ∃ b, exchange a i j = .ok b ∧ b.size = a.size :=
  ⟨_, dif_pos ⟨hi, hj⟩, Array.size_swap⟩

/-- Every entry changes places with one up to it, so both are there. -/
theorem not_meets_shuffleFrom {n i : Nat} {p : Packed} {a : Array α} (hp : p.Fits (i + 1)) (hn : i + n ≤ a.size) :
    ¬(shuffleFrom n i p a).Meets s fault := by
  induction n generalizing i p a s with
  | zero => exact not_meets_pure
  | succ n ih =>
    simp only [shuffleFrom, meets_bind, meets_lift, gives_lift, Packed.not_meets_position, false_or]
    rintro ⟨⟨j, p'⟩, _, hj, hrest⟩
    obtain ⟨hlt, hp'⟩ := Packed.position_gives hp hj
    obtain ⟨b, hexchange, hsize⟩ := exists_exchange (a := a) (i := i) (j := j) (by omega) (by omega)
    rw [hexchange] at hrest
    rcases hrest with hfault | ⟨_, _, ⟨hb, rfl⟩, hrest⟩
    · cases hfault
    · cases hb
      exact ih hp' (by omega) hrest

@[simp] theorem not_meets_shuffle {l : List α} : ¬(shuffle l).Meets s fault := by
  have hfrom : ¬(shuffleFrom l.length 0 .start l.toArray).Meets s fault :=
    not_meets_shuffleFrom Packed.fits_start (by simp)
  simp [shuffle, hfrom]

@[simp] theorem not_meets_sample {l : List α} {size : Nat} : ¬(sample l size).Meets s fault := by
  simp [sample]

@[simp] theorem not_meets_subset {l : List α} {maxSize : Nat} : ¬(subset l maxSize).Meets s fault := by
  cases l with
  | nil => simp [subset]
  | cons a l =>
    have hleast : 1 ≤ min (max maxSize 1) (l.length + 1) := by omega
    simp [subset, Nat.not_lt.mpr hleast]

end Draw
end Formulary
