import Mathlib.Data.List.Destutter
import Formulary.Proofs.Net.Mapping
import Formulary.Proofs.Run.Record

/-! What a round of filtering keeps. Of an answer only the positions inside the batch count, however often and in whatever
    order they are named. A batch of a colored model is put to the oracle as the unfolded batch of its twin, formula by
    formula, so what is kept of the one is what is kept of the other. -/

namespace Formulary

/-! ### Answers -/

/-- The answer rules in position `i`. An oracle that fails rules in none, and one that is not asked rules in all. -/
def Admits : Option (Except OracleError (List Nat)) → Nat → Prop
  | none, _ => True
  | some (.error _), _ => False
  | some (.ok positions), i => i ∈ positions

/-- Of `size` formulas those that the answer rules in are kept, in increasing order. -/
structure Sifts (size : Nat) (answer : Option (Except OracleError (List Nat))) (kept : List Nat) : Prop where
  increasing : kept.Pairwise (· < ·)
  mem_iff : ∀ i, i ∈ kept ↔ i < size ∧ Admits answer i

section Sifts
variable {size : Nat} {answer answer' : Option (Except OracleError (List Nat))} {kept kept' : List Nat}

/-- What is kept depends on nothing but which positions of the batch are ruled in. -/
theorem Sifts.congr (h : Sifts size answer kept) (h' : Sifts size answer' kept')
    (hsame : ∀ i < size, Admits answer i ↔ Admits answer' i) : kept = kept' := by
  refine h.increasing.eq_of_mem_iff h'.increasing fun i => ?_
  rw [h.mem_iff, h'.mem_iff]
  exact and_congr_right (hsame i)

/-- The positions outside the batch are dropped, the others are sorted, and of equal ones next to each other one is
    left. -/
theorem sifts_destutter (size : Nat) (positions : List Nat) :
    Sifts size (some (.ok positions)) ((positions.filter (· < size)).mergeSort.destutter (· ≠ ·)) := by
  have hsorted : (positions.filter (· < size)).mergeSort.Pairwise (· ≤ ·) := List.pairwise_mergeSort' _ _
  rw [hsorted.destutter_eq_dedup]
  constructor
  · have hle := hsorted.sublist (List.dedup_sublist _)
    exact (hle.and (List.nodup_dedup _)).imp fun ⟨hle, hne⟩ => Nat.lt_of_le_of_ne hle hne
  · intro i
    rw [List.mem_dedup, List.mem_mergeSort, List.mem_filter, decide_eq_true_eq, and_comm]
    rfl

end Sifts

/-! ### Rounds -/

namespace Subject
variable {σ : Type}

/-- What the oracle answers to the question about a batch, if there is one. -/
def answer? (oracle : Oracle σ) (o : σ) (s : Subject) (category : Category) (batch : List Formula) (target : Nat) :
    Option (Except OracleError (List Nat)) :=
  (s.request? category batch target).map fun request => ((oracle request).run o).1.verdict

section
variable {oracle : Oracle σ} {o : σ} {s : Subject} {category : Category} {batch : List Formula} {target : Nat}

theorem mem_kept_iff {size : Nat} {reply : Reply} {i : Nat} :
    i ∈ (s.kept size reply).2 ↔ i < size ∧ Admits (some reply.verdict) i := by
  unfold kept
  cases reply.verdict with
  | error e => simp [Admits]
  | ok positions => simp [Admits]

theorem sifts_filter :
    Sifts batch.length (s.answer? oracle o category batch target)
      ((s.filter oracle category batch target).run o).1.2 := by
  unfold filter answer?
  cases s.request? category batch target with
  | none => exact ⟨List.pairwise_lt_range, fun i => List.mem_range.trans (and_iff_left trivial).symm⟩
  | some request => exact ⟨pairwise_kept _, fun i => mem_kept_iff⟩

theorem length_requests : (s.requests category batch target).length = if s.obstacle?.isSome then 0 else 1 := by
  cases s <;> rfl

end

section
variable {τ : Type} (oracle : Oracle σ) (o : σ) (s : Subject) (category : Category) (batch : List Formula) (target : Nat)

/-- The positions of a batch that are kept. -/
def keptBy : List Nat := ((s.filter oracle category batch target).run o).1.2

/-- The unfolded batch has as many formulas, and the question about it is the same one. -/
theorem keptBy_unfolded (colored twin : Model) (c : Correspondence) :
    (unfolded colored twin c).keptBy oracle o category batch target =
      (direct twin).keptBy oracle o category (batch.map (Formula.unfold c)) target := by
  have hsifts : Sifts (batch.map (Formula.unfold c)).length _
      ((direct twin).keptBy oracle o category (batch.map (Formula.unfold c)) target) := sifts_filter
  rw [List.length_map] at hsifts
  exact sifts_filter.congr hsifts fun _ _ => Iff.rfl

/-- Just the positions of the batch are kept that the answer rules in, and the oracle is asked once, or not at all if there
    is nothing to check the formulas against. For a colored model all of this is as for the unfolded batch of its
    twin. -/
theorem filter_sifts (oracle' : Oracle τ) (o' : τ) :
    (∀ log : List Request, ∃ notices next,
      (s.filter oracle.recorded category batch target).run (o, log) =
        ((notices, s.keptBy oracle o category batch target), next, log ++ s.requests category batch target)) ∧
    (s.requests category batch target).length = (if s.obstacle?.isSome then 0 else 1) ∧
    Sifts batch.length (s.answer? oracle o category batch target) (s.keptBy oracle o category batch target) ∧
    (∀ positions, s.answer? oracle o category batch target = some (.ok positions) →
      s.keptBy oracle o category batch target = (positions.filter (· < batch.length)).mergeSort.destutter (· ≠ ·)) ∧
    ((∀ i < batch.length, Admits (s.answer? oracle o category batch target) i ↔
        Admits (s.answer? oracle' o' category batch target) i) →
      s.keptBy oracle o category batch target = s.keptBy oracle' o' category batch target) ∧
    ∀ colored twin c, s = unfolded colored twin c →
      s.requests category batch target =
        [⟨twin.file, ⟨twin.key, category, batch.map (Formula.unfold c)⟩, target⟩] ∧
      (direct twin).requests category (batch.map (Formula.unfold c)) target = s.requests category batch target ∧
      s.keptBy oracle o category batch target =
        (direct twin).keptBy oracle o category (batch.map (Formula.unfold c)) target := by
  have hsifts : Sifts batch.length (s.answer? oracle o category batch target)
      (s.keptBy oracle o category batch target) := sifts_filter
  refine ⟨fun log => ⟨_, _, filter_recorded log rfl⟩, length_requests, hsifts, ?_, ?_, ?_⟩
  · intro positions hanswer
    rw [hanswer] at hsifts
    exact hsifts.congr (sifts_destutter _ _) fun _ _ => Iff.rfl
  · intro hsame
    exact hsifts.congr sifts_filter hsame
  · rintro colored twin c rfl
    exact ⟨rfl, rfl, keptBy_unfolded oracle o category batch target colored twin c⟩

end

/-- The uncolored variant of a model, with two instances of a transition. -/
def duplex : Model :=
  ({ key := ⟨"M", .placeTransition, "1"⟩, directory := "M-PT-1" } : Model).withIdentifiers ["P_a"] ["T_a", "T_b"]

def duplexSubject : Subject :=
  .unfolded { key := ⟨"M", .colored, "1"⟩, directory := "M-COL-1" } duplex
    ⟨.between ["P"] duplex.places, .between ["T"] duplex.transitions⟩

/-- An oracle that gives the same answer to every question. -/
def answering (positions : List Nat) : Oracle Unit := fun _ => return { verdict := .ok positions }

/-- An answer with a repetition and a position outside of the batch comes to the same as one without. -/
theorem duplex_filter_sifts :
    duplexSubject.answer? (answering [5, 1, 1, 99]) () .ctlFireability (List.replicate 6 (.isFireable ["T"])) 3 =
      some (.ok [5, 1, 1, 99]) ∧
    (∀ i < 6, Admits (some (.ok [5, 1, 1, 99])) i ↔ Admits (some (.ok [1, 5])) i) ∧
    duplexSubject.keptBy (answering [5, 1, 1, 99]) () .ctlFireability (List.replicate 6 (.isFireable ["T"])) 3 = [1, 5] ∧
    duplexSubject.keptBy (answering [5, 1, 1, 99]) () .ctlFireability (List.replicate 6 (.isFireable ["T"])) 3 =
      duplexSubject.keptBy (answering [1, 5]) () .ctlFireability (List.replicate 6 (.isFireable ["T"])) 3 ∧
    duplexSubject.requests .ctlFireability (List.replicate 6 (.isFireable ["T"])) 3 =
      [⟨duplex.file, ⟨duplex.key, .ctlFireability, List.replicate 6 (.isFireable ["T_a", "T_b"])⟩, 3⟩] := by
  have hanswer : duplexSubject.answer? (answering [5, 1, 1, 99]) () .ctlFireability
      (List.replicate 6 (.isFireable ["T"])) 3 = some (.ok [5, 1, 1, 99]) := rfl
  have hsame : ∀ i < 6, Admits (some (.ok [5, 1, 1, 99])) i ↔ Admits (some (.ok [1, 5])) i := by
    intro i hi
    simp only [Admits, List.mem_cons, List.not_mem_nil, or_false]
    omega
  obtain ⟨-, -, -, hkept, hcongr, hunfolded⟩ := filter_sifts (answering [5, 1, 1, 99]) () duplexSubject
    .ctlFireability (List.replicate 6 (.isFireable ["T"])) 3 (answering [1, 5]) ()
  refine ⟨hanswer, hsame, ?_, hcongr hsame, ?_⟩
  · rw [hkept _ hanswer]
    cbv
  · have himages : ["T"].flatMap (Mapping.between ["T"] duplex.transitions).image = ["T_a", "T_b"] := by cbv
    rw [(hunfolded _ _ _ rfl).1, List.map_replicate, Formula.unfold_isFireable, himages]

end Subject
end Formulary
