import Formulary.Proofs.Random.Fault

/-! What samples always give. No shuffle leaves the list, so from every keystream there is an order of the positions, and
    the samples of all sizes take the first entries in that order. A random part of a list is such a sample, of a size
    drawn before. -/

namespace Formulary
namespace Draw
variable {α : Type} {s t : Keystream}

/-- The positions are put into one order, and it serves the samples of all sizes. -/
theorem exists_samples (s : Keystream) (l : List α) :
    ∃ order t, (shuffle (List.range l.length)).Gives s order t ∧
      ∀ size, ∃ part, (sample l size).Gives s part t ∧ IsSample l order size part := by
  obtain ⟨order, t, horder⟩ := exists_gives (x := shuffle (List.range l.length)) (s := s) fun _ => not_meets_shuffle
  refine ⟨order, t, horder, fun size => ?_⟩
  -- The order that a sample of this size follows comes from the same keystream, so it is the same order.
  obtain ⟨part, t', hpart⟩ := exists_gives (x := sample l size) (s := s) fun _ => not_meets_sample
  obtain ⟨order', horder', hsample⟩ := sample_gives hpart
  obtain ⟨rfl, rfl⟩ := horder'.unique horder
  exact ⟨part, hpart, hsample⟩

/-- It is only in the empty list that nothing is found. -/
theorem exists_subset (s : Keystream) (l : List α) (maxSize : Nat) :
    ∃ found t, (subset l maxSize).Gives s found t ∧ (found = none ↔ l = []) := by
  obtain ⟨found, t, hfound⟩ := exists_gives (x := subset l maxSize) (s := s) fun _ => not_meets_subset
  refine ⟨found, t, hfound, ?_, ?_⟩
  · rintro rfl
    exact subset_gives_none hfound
  · intro hnil
    rcases subset_gives_iff.mp hfound with ⟨-, hnone, -⟩ | ⟨hne, -⟩
    · exact hnone
    · exact absurd hnil hne

/-- From every keystream there are samples of all sizes. They take the entries of the list in one order, into which its
    positions are shuffled: no position twice, and all of them if the size allows for it. There is a random part of every
    list but the empty one, and it is such a sample, of one entry at least and of no more than asked for, unless that is
    nothing. -/
theorem sample_follows_order (s : Keystream) (l : List α) :
    (∃ order t, (shuffle (List.range l.length)).Gives s order t ∧
      ∀ size, ∃ part, (sample l size).Gives s part t ∧ IsSample l order size part) ∧
    ∀ maxSize, ∃ found t, (subset l maxSize).Gives s found t ∧ (found = none ↔ l = []) ∧
      ∀ part ∈ found, 1 ≤ part.length ∧ part.length ≤ min (max 1 maxSize) l.length ∧
        ∃ order u, (shuffle (List.range l.length)).Gives u order t ∧ IsSample l order part.length part := by
  refine ⟨exists_samples s l, fun maxSize => ?_⟩
  obtain ⟨found, t, hfound, hnone⟩ := exists_subset s l maxSize
  refine ⟨found, t, hfound, hnone, fun part hpart => ?_⟩
  rw [Option.mem_def] at hpart
  exact subset_gives (hpart ▸ hfound)

theorem Gives.eq_of_run {x : Draw α} {a b : α} (h : x.Gives s a t) (hrun : (x.run s).map Prod.fst = .ok b) : a = b := by
  rw [Gives] at h
  rw [h] at hrun
  exact Except.ok.inj hrun

/-- The positions of twenty letters are held by three numbers. -/
def letters : List Char := "abcdefghijklmnopqrst".toList

theorem letters_sample_follows_order :
    (∃ t, (sample letters 3).Gives (.ofSeed 42) ['r', 'q', 'n'] t ∧
      IsSample letters [17, 16, 13, 2, 1, 5, 15, 14, 19, 0, 18, 6, 8, 3, 7, 10, 11, 12, 9, 4] 3 ['r', 'q', 'n']) ∧
    ∃ t, (subset letters 4).Gives (.ofSeed 3) (some ['h', 'l', 'o']) t ∧ (some ['h', 'l', 'o'] = none ↔ letters = []) ∧
      ['h', 'l', 'o'].length ≤ min (max 1 4) letters.length ∧ ∃ order, IsSample letters order 3 ['h', 'l', 'o'] := by
  obtain ⟨⟨order, t, horder, hsamples⟩, -⟩ := sample_follows_order (.ofSeed 42) letters
  obtain ⟨part, hpart, hsample⟩ := hsamples 3
  obtain ⟨-, hsubset⟩ := sample_follows_order (.ofSeed 3) letters
  obtain ⟨found, u, hfound, hnone, hsome⟩ := hsubset 4
  have hshuffled : ((shuffle (List.range letters.length)).run (.ofSeed 42)).map Prod.fst =
      .ok [17, 16, 13, 2, 1, 5, 15, 14, 19, 0, 18, 6, 8, 3, 7, 10, 11, 12, 9, 4] := by decide +kernel
  have hsampled : ((sample letters 3).run (.ofSeed 42)).map Prod.fst = .ok ['r', 'q', 'n'] := by decide +kernel
  have htaken : ((subset letters 4).run (.ofSeed 3)).map Prod.fst = .ok (some ['h', 'l', 'o']) := by decide +kernel
  obtain rfl := horder.eq_of_run hshuffled
  obtain rfl := hpart.eq_of_run hsampled
  obtain rfl := hfound.eq_of_run htaken
  obtain ⟨-, hmost, order, _, -, hsample'⟩ := hsome _ rfl
  exact ⟨⟨t, hpart, hsample⟩, u, hfound, hnone, hmost, order, hsample'⟩

end Draw
end Formulary
