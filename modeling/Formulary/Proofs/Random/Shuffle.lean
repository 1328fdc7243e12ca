import Formulary.Proofs.Random.Choice
import Formulary.Random.Shuffle

/-! What shuffles give. Entries only change places, so a shuffled list has the entries that it had before, and a
    part of it is a part of the list. Which entries change places does not depend on what they are: a list is
    shuffled by shuffling its positions and reading its entries in that order. -/

namespace Formulary
namespace Draw
variable {α β : Type} {s t : Keystream} {l l' part : List α} {order : List Nat} {a b : Array α} {i j n size maxSize : Nat}

/-! ### The entries of a shuffled list -/

theorem exchange_perm (h : exchange a i j = .ok b) : b.toList.Perm a.toList := by
  unfold exchange at h
  split at h
  case isTrue hlt =>
    cases h
    exact Array.perm_iff_toList_perm.mp (Array.swap_perm hlt.1 hlt.2)
  case isFalse => cases h

theorem shuffleFrom_perm {p : Packed} (h : (shuffleFrom n i p a).Gives s b t) : b.toList.Perm a.toList := by
  induction n generalizing i p a s with
  | zero =>
    obtain ⟨rfl, -⟩ := gives_pure.mp h
    exact .refl _
  | succ n ih =>
    simp only [shuffleFrom, gives_bind, gives_lift] at h
    obtain ⟨_, _, -, a', _, ⟨hexchange, -⟩, hrest⟩ := h
    exact (ih hrest).trans (exchange_perm hexchange)

/-- A shuffled list has the entries of the list, each as often. -/
theorem shuffle_perm (h : (shuffle l).Gives s l' t) : l'.Perm l := by
  simp only [shuffle, gives_ite, gives_bind, gives_pure] at h
  split at h
  case isTrue =>
    obtain ⟨rfl, -⟩ := h
    exact .refl _
  case isFalse =>
    obtain ⟨a, _, hshuffle, rfl, -⟩ := h
    exact shuffleFrom_perm hshuffle

/-! ### Positions in the place of entries -/

theorem exchange_map (f : α → β) : exchange (a.map f) i j = Array.map f <$> exchange a i j := by
  by_cases h : i < a.size ∧ j < a.size
  · have h' : i < (a.map f).size ∧ j < (a.map f).size := by rwa [Array.size_map]
    have hswap : (a.map f).swap i j h'.1 h'.2 = (a.swap i j h.1 h.2).map f := by
      ext k hk hk'
      · simp
      · simp only [Array.getElem_swap, Array.getElem_map]
        split_ifs <;> rfl
    rw [exchange, dif_pos h', exchange, dif_pos h, hswap]
    rfl
  · have h' : ¬(i < (a.map f).size ∧ j < (a.map f).size) := by rwa [Array.size_map]
    rw [exchange, dif_neg h', exchange, dif_neg h]
    rfl

theorem shuffleFrom_map (f : α → β) {p : Packed} :
    shuffleFrom n i p (a.map f) = Array.map f <$> shuffleFrom n i p a := by
  induction n generalizing i p a with
  | zero => rw [shuffleFrom, shuffleFrom, map_pure]
  | succ n ih =>
    simp only [shuffleFrom, map_bind, exchange_map, liftM_map, bind_map_left]
    refine bind_congr fun ⟨j, p⟩ => bind_congr fun b => ?_
    exact ih

/-- Shuffling looks at no entry. -/
theorem shuffle_map (f : α → β) : shuffle (l.map f) = List.map f <$> shuffle l := by
  simp only [shuffle, List.length_map]
  split
  · rw [map_pure]
  · simp only [← List.map_toArray, shuffleFrom_map, bind_map_left, map_bind, map_pure, Array.toList_map]

theorem map_getElem?_range (l : List α) : (List.range l.length).map (l[·]?) = l.map some := by
  apply List.ext_getElem (by simp)
  intro i hi _
  rw [List.length_map, List.length_range] at hi
  simp [hi]

/-- A shuffled list is read off from the shuffled positions of the list. -/
theorem shuffle_gives_iff : (shuffle l).Gives s l' t ↔
    ∃ order, (shuffle (List.range l.length)).Gives s order t ∧ order.map (l[·]?) = l'.map some := by
  have hread : List.map some <$> shuffle l = List.map (l[·]?) <$> shuffle (List.range l.length) := by
    rw [← shuffle_map, ← shuffle_map, map_getElem?_range]
  rw [← gives_map, ← hread, gives_map]
  constructor
  · intro h
    exact ⟨l', h, rfl⟩
  · rintro ⟨_, h, heq⟩
    rwa [List.map_injective_iff.mpr (Option.some_injective α) heq] at h

/-! ### Parts -/

/-- The entries of the part come from different positions of the list, in any order. -/
def IsPart (part l : List α) : Prop := ∃ positions : List Nat, positions.Nodup ∧ part.map some = positions.map (l[·]?)

theorem IsPart.subset (h : IsPart l' l) : l' ⊆ l := by
  obtain ⟨positions, -, heq⟩ := h
  intro a ha
  have hsome : some a ∈ l'.map some := List.mem_map_of_mem ha
  rw [heq] at hsome
  obtain ⟨i, -, hi⟩ := List.mem_map.mp hsome
  exact List.mem_of_getElem? hi

/-- The part has the first `size` entries of the list when its positions are put into the order: no position is used
    twice, and all of them are used if `size` allows for it. -/
structure IsSample (l : List α) (order : List Nat) (size : Nat) (part : List α) : Prop where
  permutes : order.Perm (List.range l.length)
  entries : part.map some = (order.take size).map (l[·]?)
  once : (order.take size).Nodup
  length : part.length = min size l.length
  whole : l.length ≤ size → part.Perm l

theorem isSample_of_perm (hperm : order.Perm (List.range l.length))
    (hentries : part.map some = (order.take size).map (l[·]?)) : IsSample l order size part where
  permutes := hperm
  entries := hentries
  once := (hperm.nodup_iff.mpr List.nodup_range).sublist (List.take_sublist size order)
  length := by
    have hlength := congrArg List.length hentries
    rwa [List.length_map, List.length_map, List.length_take, hperm.length_eq, List.length_range] at hlength
  whole hsize := by
    rw [List.take_of_length_le (by rwa [hperm.length_eq, List.length_range])] at hentries
    have hall : (part.map some).Perm (l.map some) := by
      rw [hentries, ← map_getElem?_range]
      exact hperm.map _
    exact (List.map_perm_map_iff (Option.some_injective α)).mp hall

theorem IsSample.isPart (h : IsSample l order size part) : IsPart part l := ⟨order.take size, h.once, h.entries⟩

/-- A sample follows the order into which the positions of the list are shuffled, whatever its size is. -/
theorem sample_gives (h : (sample l size).Gives s part t) :
    ∃ order, (shuffle (List.range l.length)).Gives s order t ∧ IsSample l order size part := by
  simp only [sample, gives_bind, gives_pure] at h
  obtain ⟨l', _, hshuffle, rfl, rfl⟩ := h
  obtain ⟨order, horder, hentries⟩ := shuffle_gives_iff.mp hshuffle
  exact ⟨order, horder, isSample_of_perm (shuffle_perm horder) (by rw [List.map_take, List.map_take, hentries])⟩

theorem subset_gives_iff {found : Option (List α)} : (subset l maxSize).Gives s found t ↔
    (l = [] ∧ found = none ∧ s = t) ∨
    (l ≠ [] ∧ ∃ size u part, (count 1 (min (max maxSize 1) l.length)).Gives s size u ∧
      (sample l size).Gives u part t ∧ found = some part) := by
  simp only [subset, gives_ite, gives_bind, gives_pure, List.isEmpty_iff]
  split
  case isTrue hnil => simp [hnil, eq_comm]
  case isFalse hne => simp [hne, eq_comm]

theorem subset_gives_none (h : (subset l maxSize).Gives s none t) : l = [] := by
  rcases subset_gives_iff.mp h with ⟨hnil, -⟩ | ⟨-, _, _, _, -, -, hsome⟩
  · exact hnil
  · cases hsome

/-- A part that is taken is not empty, and it has no more entries than asked for, unless that is nothing. -/
theorem subset_gives (h : (subset l maxSize).Gives s (some part) t) :
    1 ≤ part.length ∧ part.length ≤ min (max 1 maxSize) l.length ∧
      ∃ order u, (shuffle (List.range l.length)).Gives u order t ∧ IsSample l order part.length part := by
  rcases subset_gives_iff.mp h with ⟨-, hnone, -⟩ | ⟨hne, size, u, part, hsize, hsample, heq⟩
  · cases hnone
  · cases heq
    obtain ⟨hleast, hmost⟩ := count_bounds hsize
    obtain ⟨order, horder, hpart⟩ := sample_gives hsample
    have hpos : 0 < l.length := List.length_pos_iff.mpr hne
    obtain rfl : part.length = size := by
      rw [hpart.length]
      omega
    exact ⟨hleast, by omega, order, u, horder, hpart⟩

end Draw
end Formulary
