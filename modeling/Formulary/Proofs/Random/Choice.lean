import Formulary.Random.Draw
import Mathlib

/-! What draws give. A draw is followed word by word: it gives a value and leaves a keystream. Numbers drawn
    between two bounds lie between them, so what is picked from a list is an entry of it. -/

namespace Formulary
namespace Draw
variable {α β : Type} {s t u : Keystream}

/-- From the keystream `s` the draw gives `a`, and leaves `t`. -/
def Gives (x : Draw α) (s : Keystream) (a : α) (t : Keystream) : Prop := x.run s = .ok (a, t)

theorem Gives.unique {x : Draw α} {a b : α} (h : x.Gives s a t) (h' : x.Gives s b u) : a = b ∧ t = u :=
  Prod.mk.inj (Except.ok.inj (h.symm.trans h'))

@[simp] theorem gives_pure {a b : α} : Gives (pure a) s b t ↔ a = b ∧ s = t := by
  simp only [Gives, StateT.run_pure]
  show Except.ok (a, s) = Except.ok (b, t) ↔ _
  simp

@[simp] theorem gives_bind {x : Draw α} {f : α → Draw β} {b : β} :
    Gives (x >>= f) s b u ↔ ∃ a t, Gives x s a t ∧ Gives (f a) t b u := by
  simp only [Gives, StateT.run_bind]
  cases h : x.run s with
  | error e => simp [bind, Except.bind]
  | ok r =>
    obtain ⟨a, t⟩ := r
    constructor
    · intro hf
      exact ⟨a, t, rfl, hf⟩
    · rintro ⟨_, _, heq, hf⟩
      cases heq
      exact hf

@[simp] theorem gives_map {f : α → β} {x : Draw α} {b : β} :
    Gives (f <$> x) s b u ↔ ∃ a, Gives x s a u ∧ f a = b := by
  rw [map_eq_pure_bind, gives_bind]
  constructor
  · rintro ⟨a, t, hx, hf⟩
    obtain ⟨rfl, rfl⟩ := gives_pure.mp hf
    exact ⟨a, hx, rfl⟩
  · rintro ⟨a, hx, rfl⟩
    exact ⟨a, u, hx, gives_pure.mpr ⟨rfl, rfl⟩⟩

@[simp] theorem gives_throw {e : Fault} {a : α} : ¬Gives (throw e : Draw α) s a t := nofun

/-- A check draws nothing. -/
@[simp] theorem gives_lift {x : Except Fault α} {a : α} : Gives (liftM x) s a t ↔ x = .ok a ∧ s = t := by
  simp only [Gives, liftM, StateT.run_monadLift]
  cases x with
  | error e => simp [monadLift, bind, Except.bind]
  | ok b => simp [monadLift, bind, Except.bind, pure, Except.pure]

@[simp] theorem gives_ite {p : Prop} [Decidable p] {x y : Draw α} {a : α} :
    Gives (if p then x else y) s a t ↔ if p then Gives x s a t else Gives y s a t := by
  split <;> rfl

/-! ### Numbers -/

theorem bits_lt {w : Width} {n : Nat} (h : (bits w).Gives s n t) : n < w.size := by
  cases w with
  | short =>
    simp only [bits, gives_bind, gives_pure] at h
    obtain ⟨x, _, -, rfl, -⟩ := h
    exact x.toNat_lt_size
  | long =>
    simp only [bits, gives_bind, gives_pure] at h
    obtain ⟨x, _, -, y, _, -, rfl, -⟩ := h
    have hx := x.toNat_lt_size
    have hy := y.toNat_lt_size
    simp only [Width.size, UInt32.size, UInt64.size] at hx hy ⊢
    omega

/-- The high half of the product of a word and `span` is below `span`. Where it is the last number below `span`,
    the low half is too small for a carry. -/
theorem high_lt {word span modulus : Nat} (hw : word < modulus) (hs : 0 < span) :
    word * span / modulus < span ∧
      (word * span % modulus > modulus - span → word * span / modulus + 1 < span) := by
  have hm : 0 < modulus := by omega
  have hlt : word * span / modulus < span := by
    rw [Nat.div_lt_iff_lt_mul hm, Nat.mul_comm]
    exact Nat.mul_lt_mul_of_pos_left hw hs
  refine ⟨hlt, fun hlow => ?_⟩
  rcases Nat.lt_or_ge (word * span / modulus + 1) span with h | hge
  · exact h
  · exfalso
    have hlast : word * span / modulus = span - 1 := by omega
    have hsplit := Nat.div_add_mod (word * span) modulus
    rw [hlast, Nat.mul_sub, Nat.mul_one] at hsplit
    have hle : (word + 1) * span ≤ modulus * span := Nat.mul_le_mul_right span hw
    rw [Nat.succ_mul] at hle
    have : modulus ≤ modulus * span := Nat.le_mul_of_pos_right modulus hs
    omega

theorem below_lt {w : Width} {span n : Nat} (hs : 0 < span) (h : (below w span).Gives s n t) : n < span := by
  simp only [below, gives_bind, gives_ite] at h
  obtain ⟨word, _, hword, h⟩ := h
  obtain ⟨hlt, hcarry⟩ := high_lt (bits_lt hword) hs
  split at h
  case isTrue hlow =>
    simp only [gives_pure] at h
    obtain ⟨_, _, -, rfl, -⟩ := h
    split
    · exact hcarry hlow
    · exact hlt
  case isFalse =>
    obtain ⟨rfl, -⟩ := gives_pure.mp h
    exact hlt

theorem between_bounds {w : Width} {lo hi n : Nat} (h : (between w lo hi).Gives s n t) : lo ≤ n ∧ n ≤ hi := by
  simp only [between, gives_ite, gives_bind, gives_pure, gives_throw] at h
  split at h
  case isTrue => exact h.elim
  case isFalse hle =>
    split at h
    case isTrue hfull =>
      obtain ⟨m, _, hm, rfl, -⟩ := h
      have := bits_lt hm
      omega
    case isFalse =>
      obtain ⟨m, _, hm, rfl, -⟩ := h
      have := below_lt (by omega) hm
      omega

theorem count_bounds {lo hi n : Nat} (h : (count lo hi).Gives s n t) : lo ≤ n ∧ n ≤ hi := between_bounds h

/-- Bounds that leave out no number of 64 bits are the least and the greatest of these numbers. -/
theorem constant_bounds {lo hi n : Int} (hleast : Int64.minValue.toInt ≤ lo) (hmost : hi ≤ Int64.maxValue.toInt)
    (h : (constant lo hi).Gives s n t) : lo ≤ n ∧ n ≤ hi := by
  have hmin : Int64.minValue.toInt = -9223372036854775808 := rfl
  have hmax : Int64.maxValue.toInt = 9223372036854775807 := rfl
  simp only [constant, gives_ite, gives_bind, gives_pure, gives_throw] at h
  split at h
  case isTrue => exact h.elim
  case isFalse hle =>
    split at h
    case isTrue hfull =>
      obtain ⟨m, _, -, rfl, -⟩ := h
      have hleast := Int.le_bmod (x := m) (m := UInt64.size) (by decide)
      have hmost := Int.bmod_lt (x := m) (m := UInt64.size) (by decide)
      simp only [UInt64.size] at hfull hleast hmost ⊢
      omega
    case isFalse =>
      obtain ⟨m, _, hm, rfl, -⟩ := h
      have := below_lt (by omega) hm
      omega

/-! ### Numbers from given words -/

section Pending
variable {k0 k1 : Row} {block : UInt64} {word : UInt32} {words : List UInt32}

theorem word_gives : Gives Draw.word ⟨k0, k1, block, word :: words⟩ word ⟨k0, k1, block, words⟩ := rfl

/-- One word decides, unless the low half of its product comes close to the top. -/
theorem below_gives {span : Nat} (h : word.toNat * span % UInt32.size ≤ UInt32.size - span) :
    (below .short span).Gives ⟨k0, k1, block, word :: words⟩ (word.toNat * span / UInt32.size)
      ⟨k0, k1, block, words⟩ := by
  have hlow : ¬word.toNat * span % Width.short.size > Width.short.size - span := Nat.not_lt.mpr h
  simp only [below, bits, gives_bind, gives_pure]
  refine ⟨_, _, ⟨word, _, word_gives, rfl, rfl⟩, ?_⟩
  rw [if_neg hlow]
  exact gives_pure.mpr ⟨rfl, rfl⟩

theorem between_gives {lo hi : Nat} (hle : lo ≤ hi) (hspan : hi - lo + 1 < UInt32.size)
    (h : word.toNat * (hi - lo + 1) % UInt32.size ≤ UInt32.size - (hi - lo + 1)) :
    (between .short lo hi).Gives ⟨k0, k1, block, word :: words⟩ (lo + word.toNat * (hi - lo + 1) / UInt32.size)
      ⟨k0, k1, block, words⟩ := by
  have hpart : ¬hi - lo + 1 = Width.short.size := Nat.ne_of_lt hspan
  rw [between, if_neg (Nat.not_lt.mpr hle), if_neg hpart, gives_bind]
  exact ⟨_, _, below_gives h, gives_pure.mpr ⟨rfl, rfl⟩⟩

theorem position_gives {n : Nat} (hpos : 0 < n) (hlt : n < UInt32.size)
    (h : word.toNat * n % UInt32.size ≤ UInt32.size - n) :
    (position n).Gives ⟨k0, k1, block, word :: words⟩ (word.toNat * n / UInt32.size) ⟨k0, k1, block, words⟩ := by
  have hspan : n - 1 - 0 + 1 = n := by omega
  have hgives : (between .short 0 (n - 1)).Gives ⟨k0, k1, block, word :: words⟩
      (0 + word.toNat * (n - 1 - 0 + 1) / UInt32.size) ⟨k0, k1, block, words⟩ :=
    between_gives (Nat.zero_le (n - 1)) (by rwa [hspan]) (by rwa [hspan])
  rw [hspan, Nat.zero_add] at hgives
  rw [position, if_neg (Nat.ne_of_gt hpos), Width.ofBound, if_pos hlt]
  exact hgives

/-- A word is taken even where there is only one number. -/
theorem count_gives {n : Nat} (h : n < UInt32.size) :
    (count n n).Gives ⟨k0, k1, block, word :: words⟩ n ⟨k0, k1, block, words⟩ := by
  have hspan : n - n + 1 = 1 := by omega
  have hword := word.toNat_lt_size
  have hlow : word.toNat * 1 % UInt32.size ≤ UInt32.size - 1 := by
    rw [Nat.mul_one, Nat.mod_eq_of_lt hword]
    exact Nat.le_sub_one_of_lt hword
  have hgives : (between .short n n).Gives ⟨k0, k1, block, word :: words⟩
      (n + word.toNat * (n - n + 1) / UInt32.size) ⟨k0, k1, block, words⟩ :=
    between_gives (Nat.le_refl n) (by rw [hspan]; decide) (by rwa [hspan])
  rw [hspan, Nat.mul_one, Nat.div_eq_of_lt hword, Nat.add_zero] at hgives
  rw [count, Width.ofBound, if_pos h]
  exact hgives

end Pending

/-! ### Lists -/

theorem oneOf_mem {l : List α} {a : α} (h : (oneOf l).Gives s a t) : a ∈ l := by
  simp only [oneOf, gives_bind, gives_lift, Fault.entry_eq_ok] at h
  obtain ⟨i, _, -, hi, -⟩ := h
  exact List.mem_of_getElem? hi

/-- As many results as asked for, each given by a run of the draw. -/
theorem times_forall {P : α → Prop} {draw : Draw α} (hP : ∀ {s a t}, draw.Gives s a t → P a) :
    ∀ {n : Nat} {s t : Keystream} {l : List α}, (times n draw).Gives s l t → l.length = n ∧ ∀ a ∈ l, P a
  | 0, s, t, l, h => by
    obtain ⟨rfl, -⟩ := gives_pure.mp h
    exact ⟨rfl, nofun⟩
  | n + 1, s, t, l, h => by
    simp only [times, gives_bind, gives_pure] at h
    obtain ⟨a, _, ha, l, _, hl, rfl, -⟩ := h
    obtain ⟨hlen, hall⟩ := times_forall hP hl
    exact ⟨by rw [List.length_cons, hlen], List.forall_mem_cons.mpr ⟨hP ha, hall⟩⟩

end Draw
end Formulary
