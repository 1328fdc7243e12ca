import Mathlib.Data.List.Nodup
import Mathlib.Data.List.Perm.Basic
import Formulary.Net.Arena

/-! What models in an arena have to do with each other. Adding models and linking them keeps every link mutual and
    between the two variants of one model. So the model that leads the task of a model is known from its position and
    its link, and the tasks take every model once. -/

namespace Formulary

/-- The keys of the two variants of one model. -/
structure ModelKey.Opposite (k l : ModelKey) : Prop where
  variant_ne : k.variant ≠ l.variant
  name_eq : k.name = l.name
  instance_eq : k.instanceName = l.instanceName

theorem ModelKey.Opposite.symm {k l : ModelKey} (h : k.Opposite l) : l.Opposite k :=
  ⟨h.variant_ne.symm, h.name_eq.symm, h.instance_eq.symm⟩

namespace Model

/-- A model that leads a task. -/
def leads (m : Model) : Bool := m.isColored || m.twin.isNone

theorem leads_iff {m : Model} : m.leads = true ↔ m.isColored = true ∨ m.twin = none := by
  rw [leads, Bool.or_eq_true, Option.isNone_iff_eq_none]

theorem leads_eq_false_iff {m : Model} : m.leads = false ↔ m.isColored = false ∧ m.twin ≠ none := by
  rw [leads, Bool.or_eq_false_iff, Option.isNone_eq_false_iff, Option.isSome_iff_ne_none]

theorem isColored_of_opposite {m n : Model} (h : m.key.Opposite n.key) : n.isColored = !m.isColored := by
  have hne := h.variant_ne
  unfold isColored
  cases hm : m.key.variant <;> cases hn : n.key.variant <;> simp_all

end Model

/-- The models of a task. -/
def Task.models (t : Task) : List Model := t.model :: t.twin.toList

namespace Arena
variable {a b : Arena} {i j k : Nat} {m n : Model}

theorem get?_lt (h : a.get? i = some m) : i < a.size := (List.getElem?_eq_some_iff.mp h).1

theorem exists_get? (h : i < a.size) : ∃ m, a.get? i = some m := ⟨_, List.getElem?_eq_getElem h⟩

theorem ext_get? (h : ∀ k, a.get? k = b.get? k) : a = b := congrArg Arena.mk (List.ext_getElem? h)

theorem get?_add (m : Model) (k : Nat) : (a.add m).get? k = if k = a.size then some m else a.get? k := by
  unfold get? add size
  rw [List.getElem?_append]
  split
  · rw [if_neg (by omega)]
  · split
    · rename_i hk
      simp [hk]
    · rw [List.getElem?_eq_none (by simp; omega), List.getElem?_eq_none (by omega)]

/-! ### Links -/

/-- Two models that can be linked: the two variants of one model, both without a twin. -/
structure Linkable (a : Arena) (i j : Nat) (m n : Model) : Prop where
  first : a.get? i = some m
  second : a.get? j = some n
  opposite : m.key.Opposite n.key
  first_free : m.twin = none
  second_free : n.twin = none

/-- The arena with the models at two positions as each other's twins. -/
def join (a : Arena) (i j : Nat) : Arena := (a.modify i ({ · with twin := some j })).modify j ({ · with twin := some i })

theorem Linkable.ne (h : a.Linkable i j m n) : i ≠ j := by
  rintro rfl
  cases h.first.symm.trans h.second
  exact h.opposite.variant_ne rfl

theorem link_eq_ok_iff : a.link i j = .ok b ↔ (∃ m n, a.Linkable i j m n) ∧ b = a.join i j := by
  unfold link
  cases hm : a.get? i with
  | none => exact ⟨nofun, fun ⟨⟨_, _, h⟩, _⟩ => nomatch hm.symm.trans h.first⟩
  | some m =>
    cases hn : a.get? j with
    | none => exact ⟨nofun, fun ⟨⟨_, _, h⟩, _⟩ => nomatch hn.symm.trans h.second⟩
    | some n =>
      dsimp only
      constructor
      · intro h
        split at h
        · cases h
        · split at h
          · cases h
          · split at h
            · cases h
            · rename_i hvariant hname hfree
              cases h
              rw [not_or] at hvariant hname hfree
              exact ⟨⟨m, n, hm, hn, ⟨hvariant.2, not_not.mp hname.1, not_not.mp hname.2⟩,
                Option.not_isSome_iff_eq_none.mp hfree.1, Option.not_isSome_iff_eq_none.mp hfree.2⟩, rfl⟩
      · rintro ⟨⟨_, _, h⟩, rfl⟩
        have hne := h.ne
        cases hm.symm.trans h.first
        cases hn.symm.trans h.second
        rw [if_neg (by simp [hne, h.opposite.variant_ne]),
          if_neg (by simp [h.opposite.name_eq, h.opposite.instance_eq]),
          if_neg (by simp [h.first_free, h.second_free])]
        rfl

theorem get?_join (hne : i ≠ j) (k : Nat) : (a.join i j).get? k = (a.get? k).map fun m =>
    if k = i then { m with twin := some j } else if k = j then { m with twin := some i } else m := by
  unfold join get? modify
  rw [List.getElem?_modify, List.getElem?_modify, Option.map_eq_map, Option.map_eq_map, Option.map_map]
  congr 1
  funext m
  by_cases hi : k = i
  · subst hi
    simp [hne.symm]
  · by_cases hj : k = j
    · subst hj
      simp [hne, hi]
    · simp [hi, hj, Ne.symm hi, Ne.symm hj]

/-- Every link is mutual, and between the two variants of one model. -/
def Paired (a : Arena) : Prop :=
  ∀ i m j, a.get? i = some m → m.twin = some j →
    ∃ n, a.get? j = some n ∧ n.twin = some i ∧ m.key.Opposite n.key

theorem paired_empty : ({} : Arena).Paired := fun _ _ _ h => nomatch h

theorem Paired.add (h : a.Paired) (hfree : m.twin = none) : (a.add m).Paired := by
  intro i m' j hi htwin
  rw [get?_add] at hi
  split at hi
  · cases hi
    rw [hfree] at htwin
    cases htwin
  · obtain ⟨n, hj, hback, hopposite⟩ := h i m' j hi htwin
    refine ⟨n, ?_, hback, hopposite⟩
    rw [get?_add, if_neg (Nat.ne_of_lt (get?_lt hj)), hj]

theorem Paired.join (h : a.Paired) (hlink : a.Linkable i j m n) : (a.join i j).Paired := by
  have hne := hlink.ne
  -- no other model is linked to one of the two, as links are mutual
  have apart {k l : Nat} {o o' : Model} (hk : a.get? k = some o) (ho : o.twin = none) (hl : a.get? l = some o')
      (ho' : o'.twin = some k) : False := by
    obtain ⟨o'', hk', hback, -⟩ := h l o' k hl ho'
    cases hk.symm.trans hk'
    rw [ho] at hback
    cases hback
  intro k o l hk htwin
  rw [get?_join hne] at hk
  obtain ⟨o₀, hk₀, rfl⟩ := Option.map_eq_some_iff.mp hk
  by_cases hki : k = i
  · subst hki
    cases hlink.first.symm.trans hk₀
    rw [if_pos rfl] at htwin
    cases htwin
    refine ⟨{ n with twin := some k }, ?_, rfl, ?_⟩
    · rw [get?_join hne, hlink.second, Option.map_some, if_neg hne.symm, if_pos rfl]
    · rw [if_pos rfl]
      exact hlink.opposite
  · by_cases hkj : k = j
    · subst hkj
      cases hlink.second.symm.trans hk₀
      rw [if_neg hki, if_pos rfl] at htwin
      cases htwin
      refine ⟨{ m with twin := some k }, ?_, rfl, ?_⟩
      · rw [get?_join hne, hlink.first, Option.map_some, if_pos rfl]
      · rw [if_neg hki, if_pos rfl]
        exact hlink.opposite.symm
    · rw [if_neg hki, if_neg hkj] at htwin ⊢
      obtain ⟨n', hl, hback, hopposite⟩ := h k o₀ l hk₀ htwin
      have hli : l ≠ i := fun heq => apart hlink.first hlink.first_free hk₀ (heq ▸ htwin)
      have hlj : l ≠ j := fun heq => apart hlink.second hlink.second_free hk₀ (heq ▸ htwin)
      refine ⟨n', ?_, hback, hopposite⟩
      rw [get?_join hne, hl, Option.map_some, if_neg hli, if_neg hlj]

theorem Paired.twin_ne (h : a.Paired) (hm : a.get? i = some m) (htwin : m.twin = some j) : j ≠ i := by
  rintro rfl
  obtain ⟨n, hn, -, hopposite⟩ := h _ _ _ hm htwin
  cases hm.symm.trans hn
  exact hopposite.variant_ne rfl

/-! ### Changes of an arena -/

/-- A model is added, or two models are linked. -/
inductive Change where
  | add (m : Model)
  | link (i j : Nat)

/-- The arena after a change. A link that fails leaves it as it is. -/
def after (a : Arena) : Change → Arena
  | .add m => a.add m
  | .link i j => (a.link i j).toOption.getD a

/-- The arena after changes in turn, from an empty one. -/
def build (changes : List Change) : Arena := changes.foldl after {}

/-- The models that are added have no twin yet. -/
def Change.AddsFree : Change → Prop
  | .add m => m.twin = none
  | .link _ _ => True

theorem after_link_of_error {e : LinkError} (h : a.link i j = .error e) : a.after (.link i j) = a := by
  show (a.link i j).toOption.getD a = a
  rw [h]
  rfl

theorem Paired.after (h : a.Paired) {c : Change} (hc : c.AddsFree) : (a.after c).Paired := by
  cases c with
  | add m => exact h.add hc
  | link i j =>
    cases hlink : a.link i j with
    | error e =>
      rw [after_link_of_error hlink]
      exact h
    | ok b =>
      obtain ⟨⟨m, n, hlinkable⟩, rfl⟩ := link_eq_ok_iff.mp hlink
      show ((a.link i j).toOption.getD a).Paired
      rw [hlink]
      exact h.join hlinkable

theorem build_paired {changes : List Change} (h : ∀ c ∈ changes, c.AddsFree) : (build changes).Paired := by
  suffices hrun : ∀ a : Arena, a.Paired → (changes.foldl Arena.after a).Paired from hrun {} paired_empty
  induction changes with
  | nil => exact fun _ ha => ha
  | cons c changes ih =>
    intro a ha
    exact ih (fun d hd => h d (List.mem_cons_of_mem _ hd)) _ (ha.after (h c List.mem_cons_self))

/-! ### The tasks of an arena -/

/-- The positions of the models of a task. -/
structure Seat where
  lead : Nat
  twin : Option Nat
deriving DecidableEq, Repr

/-- The positions of a task, that of the model that leads it first. -/
def Seat.positions (s : Seat) : List Nat := s.lead :: s.twin.toList

/-- The task with the models at the positions of a seat. -/
def taskAt (a : Arena) (s : Seat) : Option Task := (a.get? s.lead).map fun m => ⟨m, s.twin.bind a.get?⟩

/-- The seat of the task that the model at a position leads. -/
def seat? (a : Arena) (i : Nat) : Option Seat :=
  (a.get? i).bind fun m => if m.leads then some ⟨i, m.twin⟩ else none

/-- The seats of all tasks, in the order of the models that lead them. -/
def seats (a : Arena) : List Seat := (List.range a.size).filterMap a.seat?

/-- The position of the model that leads the task of the model `m` at position `k`. -/
def owner (k : Nat) (m : Model) : Nat := if m.leads then k else m.twin.getD k

/-- The models whose tasks are led by models from position `i` on. -/
def remaining (a : Arena) (i : Nat) : List (Option Model) :=
  a.models.mapIdx fun k m => if owner k m < i then none else some m

theorem seat?_eq_some {s : Seat} :
    a.seat? i = some s ↔ s.lead = i ∧ ∃ m, a.get? i = some m ∧ m.leads = true ∧ s.twin = m.twin := by
  unfold seat?
  cases a.get? i with
  | none => exact ⟨nofun, fun ⟨_, _, h, _⟩ => nomatch h⟩
  | some m =>
    rw [Option.bind_some]
    cases hleads : m.leads with
    | false =>
      refine ⟨nofun, ?_⟩
      rintro ⟨-, _, h, hm, -⟩
      cases h
      rw [hleads] at hm
      cases hm
    | true =>
      constructor
      · intro h
        cases h
        exact ⟨rfl, m, rfl, hleads, rfl⟩
      · rintro ⟨rfl, _, h, -, htwin⟩
        cases h
        rw [if_pos rfl, ← htwin]

theorem mem_seats {s : Seat} : s ∈ a.seats ↔ ∃ m, a.get? s.lead = some m ∧ m.leads = true ∧ s.twin = m.twin := by
  unfold seats
  rw [List.mem_filterMap]
  constructor
  · rintro ⟨i, -, h⟩
    obtain ⟨rfl, hlead⟩ := seat?_eq_some.mp h
    exact hlead
  · intro h
    obtain ⟨m, hm, -⟩ := id h
    exact ⟨s.lead, List.mem_range.mpr (get?_lt hm), seat?_eq_some.mpr ⟨rfl, h⟩⟩

/-- A model belongs to the task that the model at position `i` leads, if it is that model or its twin. -/
theorem Paired.owner_eq_iff (h : a.Paired) (hi : a.get? i = some m) (hk : a.get? k = some n) :
    owner k n = i ↔ m.leads = true ∧ (k = i ∨ m.twin = some k) := by
  unfold owner
  cases hn : n.leads with
  | true =>
    rw [if_pos rfl]
    constructor
    · rintro rfl
      cases hi.symm.trans hk
      exact ⟨hn, .inl rfl⟩
    · rintro ⟨hm, rfl | htwin⟩
      · rfl
      · -- both would be colored
        obtain ⟨n', hk', hback, hopposite⟩ := h i m k hi htwin
        cases hk.symm.trans hk'
        have hcolored := (Model.leads_iff.mp hm).resolve_right (by rw [htwin]; nofun)
        have hcolored' := (Model.leads_iff.mp hn).resolve_right (by rw [hback]; nofun)
        rw [Model.isColored_of_opposite hopposite, hcolored] at hcolored'
        cases hcolored'
  | false =>
    obtain ⟨hplain, hlinked⟩ := Model.leads_eq_false_iff.mp hn
    obtain ⟨l, hl⟩ := Option.ne_none_iff_exists'.mp hlinked
    obtain ⟨m', hl', hback, hopposite⟩ := h k n l hk hl
    rw [if_neg Bool.false_ne_true, hl, Option.getD_some]
    constructor
    · rintro rfl
      cases hi.symm.trans hl'
      refine ⟨Model.leads_iff.mpr (.inl ?_), .inr hback⟩
      rw [Model.isColored_of_opposite hopposite, hplain]
      rfl
    · rintro ⟨hm, rfl | htwin⟩
      · cases hi.symm.trans hk
        rw [hn] at hm
        cases hm
      · obtain ⟨n', hk', hback', -⟩ := h i m k hi htwin
        cases hk.symm.trans hk'
        rw [hl] at hback'
        exact Option.some.inj hback'

theorem getElem?_remaining (k : Nat) :
    (a.remaining i)[k]? = (a.get? k).map fun m => if owner k m < i then none else some m := by
  unfold remaining get?
  rw [List.getElem?_mapIdx]

theorem remaining_zero : a.remaining 0 = a.models.map some := by
  refine List.ext_getElem? fun k => ?_
  rw [getElem?_remaining, List.getElem?_map]
  congr 1

theorem map_some_filterMap {α β : Type} {f : α → Option β} {l : List α} (h : ∀ x ∈ l, (f x).isSome) :
    (l.filterMap f).map some = l.map f := by
  induction l with
  | nil => rfl
  | cons x l ih =>
    obtain ⟨y, hy⟩ := Option.isSome_iff_exists.mp (h x List.mem_cons_self)
    rw [List.filterMap_cons_some hy, List.map_cons, List.map_cons, hy, ih fun z hz => h z (List.mem_cons_of_mem _ hz)]

theorem getElem?_set_none {α : Type} (l : List (Option α)) (i k : Nat) :
    (l.set i none)[k]? = l[k]?.map fun x => if k = i then none else x := by
  rw [List.getElem?_set]
  by_cases hk : i = k
  · subst hk
    by_cases hi : i < l.length
    · simp [hi]
    · simp [hi]
  · simp [hk, Ne.symm hk]

/-- When the model at position `i` has its turn, what it takes from the models that are left is its task. -/
theorem Paired.takeTask_remaining (h : a.Paired) (hi : i < a.size) :
    takeTask (a.remaining i) i = ((a.seat? i).bind a.taskAt, a.remaining (i + 1)) := by
  obtain ⟨m, hm⟩ := exists_get? hi
  -- after the turn of `i`, the models of its task are gone
  have hnext (k : Nat) {n : Model} (hk : a.get? k = some n) : (owner k n < i + 1) ↔
      owner k n < i ∨ (m.leads = true ∧ (k = i ∨ m.twin = some k)) := by
    rw [← h.owner_eq_iff hm hk, Nat.lt_succ_iff_lt_or_eq]
  cases hleads : m.leads with
  | false =>
    have hseat : a.seat? i = none := by
      rw [seat?, hm, Option.bind_some, hleads]
      rfl
    have hsame : a.remaining (i + 1) = a.remaining i := by
      refine List.ext_getElem? fun k => ?_
      rw [getElem?_remaining, getElem?_remaining]
      refine Option.map_congr fun n hk => ?_
      simp [hnext k hk, hleads]
    obtain ⟨hplain, hlinked⟩ := Model.leads_eq_false_iff.mp hleads
    rw [hseat, hsame, Option.bind_none]
    unfold takeTask
    rw [getElem?_remaining, hm, Option.map_some, Option.join_some]
    split
    · rfl
    · rename_i m' hm'
      split at hm'
      · cases hm'
      · cases hm'
        rw [if_pos (by simp [hplain, Option.isSome_iff_ne_none, hlinked])]
  | true =>
    have hown : owner i m = i := (h.owner_eq_iff hm hm).mpr ⟨hleads, .inl rfl⟩
    have hslot : (a.remaining i)[i]?.join = some m := by
      rw [getElem?_remaining, hm, Option.map_some, Option.join_some, hown, if_neg (Nat.lt_irrefl i)]
    have hseat : a.seat? i = some ⟨i, m.twin⟩ := seat?_eq_some.mpr ⟨rfl, m, hm, hleads, rfl⟩
    have hturn : ¬(!m.isColored && m.twin.isSome) = true := by
      rcases Model.leads_iff.mp hleads with hcolored | hfree
      · simp [hcolored]
      · simp [hfree]
    have hgone (k : Nat) : (a.remaining (i + 1))[k]? =
        (a.get? k).map fun n => if owner k n < i ∨ k = i ∨ m.twin = some k then none else some n := by
      rw [getElem?_remaining]
      refine Option.map_congr fun n hk => ?_
      simp [hnext k hk, hleads]
    unfold takeTask
    rw [hslot, hseat]
    dsimp only
    rw [if_neg hturn, Option.bind_some, taskAt, hm, Option.map_some]
    cases htwin : m.twin with
    | none =>
      refine Prod.ext rfl (List.ext_getElem? fun k => ?_)
      rw [hgone, getElem?_set_none, getElem?_remaining, htwin, Option.map_map]
      refine Option.map_congr fun n _ => ?_
      by_cases hk : k = i <;> simp [hk]
    | some j =>
      obtain ⟨n, hj, hback, -⟩ := h i m j hm htwin
      have hne := h.twin_ne hm htwin
      have htaken : ((a.remaining i).set i none)[j]?.join = some n := by
        have hown' : owner j n = i := (h.owner_eq_iff hm hj).mpr ⟨hleads, .inr htwin⟩
        rw [getElem?_set_none, getElem?_remaining, hj, Option.map_some, Option.map_some, Option.join_some, if_neg hne,
          hown', if_neg (Nat.lt_irrefl i)]
      refine Prod.ext ?_ (List.ext_getElem? fun k => ?_)
      · dsimp only
        rw [htaken, Option.bind_some, hj]
      · dsimp only
        rw [hgone, getElem?_set_none, getElem?_set_none, getElem?_remaining, htwin, Option.map_map, Option.map_map]
        refine Option.map_congr fun n _ => ?_
        by_cases hi : k = i
        · simp [hi]
        · by_cases hj : k = j
          · simp [hj]
          · simp [hi, hj, Ne.symm hj]

theorem Paired.takeTasks_remaining (h : a.Paired) (n : Nat) (hn : i + n = a.size) :
    takeTasks (List.range' i n) (a.remaining i) =
      (List.range' i n).filterMap fun k => (a.seat? k).bind a.taskAt := by
  induction n generalizing i with
  | zero => rfl
  | succ n ih =>
    rw [List.range'_succ, takeTasks, h.takeTask_remaining (by omega)]
    dsimp only
    rw [ih (by omega), List.filterMap_cons]
    cases (a.seat? i).bind a.taskAt <;> rfl

theorem Paired.tasks_eq (h : a.Paired) : a.tasks = a.seats.filterMap a.taskAt := by
  unfold tasks seats
  rw [List.filterMap_filterMap, ← remaining_zero, List.range_eq_range']
  exact h.takeTasks_remaining a.size (Nat.zero_add _)

/-- The seats are those of tasks that take every model once, in one role. A model that leads a task is colored or
    has no twin, and the tasks come in the order of these. -/
structure Divides (a : Arena) (seats : List Seat) (tasks : List Task) : Prop where
  tasks_eq : tasks.map some = seats.map a.taskAt
  once : (seats.flatMap Seat.positions).Perm (List.range a.size)
  ordered : (seats.map (·.lead)).Pairwise (· < ·)
  lead : ∀ s ∈ seats, ∃ m, a.get? s.lead = some m ∧ (m.isColored = true ∨ m.twin = none) ∧ s.twin = m.twin

/-- The tasks of an arena have its models, each once. -/
theorem Divides.models_perm {seats : List Seat} {tasks : List Task} (h : a.Divides seats tasks) :
    (tasks.flatMap (·.models)).Perm a.models := by
  have hget : ∀ s ∈ seats, ∀ k ∈ s.positions, (a.get? k).isSome := by
    intro s hs k hk
    have hmem := h.once.subset (List.mem_flatMap.mpr ⟨s, hs, hk⟩)
    obtain ⟨m, hm⟩ := exists_get? (List.mem_range.mp hmem)
    rw [hm]
    rfl
  have hseats : (tasks.flatMap (·.models)).map some = (seats.flatMap Seat.positions).map a.get? := by
    have htasks := h.tasks_eq
    clear h
    induction seats generalizing tasks with
    | nil =>
      rw [List.map_nil, List.map_eq_nil_iff] at htasks
      rw [htasks]
      rfl
    | cons s seats ih =>
      obtain ⟨t, tasks, rfl⟩ := List.exists_cons_of_ne_nil (l := tasks) (by rintro rfl; cases htasks)
      rw [List.map_cons, List.map_cons, List.cons.injEq] at htasks
      obtain ⟨hseat, htasks⟩ := htasks
      have hrest := ih (fun s hs => hget s (List.mem_cons_of_mem _ hs)) htasks
      obtain ⟨m, hm, rfl⟩ := Option.map_eq_some_iff.mp hseat.symm
      have htwin : (s.twin.bind a.get?).toList.map some = s.twin.toList.map a.get? := by
        cases hj : s.twin with
        | none => rfl
        | some j =>
          have hj' := hget s List.mem_cons_self j (by simp [Seat.positions, hj])
          obtain ⟨n, hn⟩ := Option.isSome_iff_exists.mp hj'
          simp [hn]
      rw [List.flatMap_cons, List.flatMap_cons, List.map_append, List.map_append, hrest]
      simp [Task.models, Seat.positions, hm, htwin]
  have hmodels : (List.range a.size).map a.get? = a.models.map some := by
    refine List.ext_getElem? fun k => ?_
    rw [List.getElem?_map, List.getElem?_map]
    by_cases hk : k < a.size
    · obtain ⟨m, hm⟩ := exists_get? hk
      have hm' : a.models[k]? = some m := hm
      rw [List.getElem?_range hk, Option.map_some, hm, hm']
      rfl
    · have hk' : a.models.length ≤ k := Nat.le_of_not_lt hk
      simp [hk, hk']
  have hperm := (h.once.map a.get?).filterMap id
  rw [← hseats, hmodels] at hperm
  simpa [List.filterMap_map, Function.comp_def] using hperm

theorem seats_ordered (a : Arena) : (a.seats.map (·.lead)).Pairwise (· < ·) := by
  have hlead : a.seats.map (·.lead) = (List.range a.size).filter fun i => (a.seat? i).isSome := by
    unfold seats
    rw [List.map_filterMap, ← List.filterMap_eq_filter]
    refine List.filterMap_congr fun i _ => ?_
    cases hseat : a.seat? i with
    | none => simp [Option.guard, hseat]
    | some s => simp [Option.guard, hseat, (seat?_eq_some.mp hseat).1]
  rw [hlead]
  exact List.pairwise_lt_range.sublist List.filter_sublist

/-- A position belongs to a seat, if the model there belongs to the task that the seat's first model leads. -/
theorem Paired.mem_positions_iff (h : a.Paired) {s : Seat} (hs : s ∈ a.seats) (hk : a.get? k = some n) :
    k ∈ s.positions ↔ owner k n = s.lead := by
  obtain ⟨m, hm, hleads, htwin⟩ := mem_seats.mp hs
  rw [h.owner_eq_iff hm hk, Seat.positions, List.mem_cons, Option.mem_toList, htwin]
  simp [hleads]

theorem Paired.lt_size (h : a.Paired) {s : Seat} (hs : s ∈ a.seats) (hk : k ∈ s.positions) : k < a.size := by
  obtain ⟨m, hm, -, htwin⟩ := mem_seats.mp hs
  rw [Seat.positions, List.mem_cons, Option.mem_toList, htwin] at hk
  rcases hk with rfl | hk
  · exact get?_lt hm
  · obtain ⟨n, hn, -⟩ := h _ _ _ hm hk
    exact get?_lt hn

theorem Paired.positions_nodup (h : a.Paired) {s : Seat} (hs : s ∈ a.seats) : s.positions.Nodup := by
  obtain ⟨m, hm, hleads, htwin⟩ := mem_seats.mp hs
  cases hj : s.twin with
  | none => simp [Seat.positions, hj]
  | some j =>
    have hne := h.twin_ne hm (htwin.symm.trans hj)
    simp [Seat.positions, hj, hne.symm]

theorem Paired.seats_once (h : a.Paired) : (a.seats.flatMap Seat.positions).Perm (List.range a.size) := by
  refine (List.perm_ext_iff_of_nodup ?_ List.nodup_range).mpr fun k => ?_
  · refine List.nodup_flatMap.mpr ⟨fun s hs => h.positions_nodup hs, ?_⟩
    -- seats differ in the position that leads, so no model belongs to two of them
    refine (List.pairwise_map.mp a.seats_ordered).imp_of_mem fun {s s'} hs hs' hlt k hk hk' => ?_
    obtain ⟨n, hn⟩ := exists_get? (h.lt_size hs hk)
    rw [h.mem_positions_iff hs hn] at hk
    rw [h.mem_positions_iff hs' hn] at hk'
    omega
  · rw [List.mem_flatMap, List.mem_range]
    constructor
    · rintro ⟨s, hs, hk⟩
      exact h.lt_size hs hk
    · intro hk
      obtain ⟨n, hn⟩ := exists_get? hk
      cases hleads : n.leads with
      | true => exact ⟨⟨k, n.twin⟩, mem_seats.mpr ⟨n, hn, hleads, rfl⟩, List.mem_cons_self⟩
      | false =>
        -- the model is the twin of a colored one
        obtain ⟨hplain, hlinked⟩ := Model.leads_eq_false_iff.mp hleads
        obtain ⟨l, hl⟩ := Option.ne_none_iff_exists'.mp hlinked
        obtain ⟨m, hm, hback, hopposite⟩ := h k n l hn hl
        have hcolored : m.isColored = true := by rw [Model.isColored_of_opposite hopposite, hplain]; rfl
        refine ⟨⟨l, m.twin⟩, mem_seats.mpr ⟨m, hm, Model.leads_iff.mpr (.inl hcolored), rfl⟩, ?_⟩
        rw [Seat.positions, hback]
        exact List.mem_cons_of_mem _ List.mem_cons_self

theorem Paired.divides (h : a.Paired) : a.Divides a.seats a.tasks where
  tasks_eq := by
    rw [h.tasks_eq]
    exact map_some_filterMap fun s hs => by
      obtain ⟨m, hm, -⟩ := mem_seats.mp hs
      rw [taskAt, hm]
      rfl
  once := h.seats_once
  ordered := a.seats_ordered
  lead s hs := by
    obtain ⟨m, hm, hleads, htwin⟩ := mem_seats.mp hs
    exact ⟨m, hm, Model.leads_iff.mp hleads, htwin⟩

/-! ### Every arena that is built -/

/-- However models are added and linked: a link succeeds exactly between two free variants of one model, and leaves the
    arena as it is if it fails; every link is mutual, and between the two variants of one model; and the tasks take
    every model once. -/
theorem build_links_tasks {changes : List Change} (h : ∀ c ∈ changes, c.AddsFree) :
    (∀ i j, (∃ m n, (build changes).Linkable i j m n) ∧ (build changes).after (.link i j) = (build changes).join i j ∨
      (∃ e, (build changes).link i j = .error e) ∧ (build changes).after (.link i j) = build changes) ∧
    (build changes).Paired ∧ ∃ seats, (build changes).Divides seats (build changes).tasks := by
  have hpaired := build_paired h
  refine ⟨fun i j => ?_, hpaired, _, hpaired.divides⟩
  cases hlink : (build changes).link i j with
  | error e => exact .inr ⟨⟨e, rfl⟩, after_link_of_error hlink⟩
  | ok b =>
    obtain ⟨hlinkable, rfl⟩ := link_eq_ok_iff.mp hlink
    refine .inl ⟨hlinkable, ?_⟩
    show ((build changes).link i j).toOption.getD _ = _
    rw [hlink]
    rfl

/-- An uncolored model is found before its colored variant, and another uncolored one wants the same twin. -/
def rivals : List Change :=
  [.add { key := ⟨"A", .placeTransition, "1"⟩, directory := "A-PT-1" },
    .add { key := ⟨"A", .colored, "1"⟩, directory := "A-COL-1" },
    .add { key := ⟨"A", .placeTransition, "1"⟩, directory := "copy" }, .link 0 1, .link 2 1]

theorem rivals_links_tasks :
    (∀ c ∈ rivals, c.AddsFree) ∧ (build rivals).seats = [⟨1, some 0⟩, ⟨2, none⟩] ∧
      (∃ e, (build rivals).link 2 1 = .error e) ∧ (build rivals).Paired ∧
      ∃ seats, (build rivals).Divides seats (build rivals).tasks := by
  have hfree : ∀ c ∈ rivals, c.AddsFree := by simp [rivals, Change.AddsFree]
  obtain ⟨hlinks, hpaired, hdivides⟩ := build_links_tasks hfree
  refine ⟨hfree, by decide, ?_, hpaired, hdivides⟩
  rcases hlinks 2 1 with ⟨⟨m, n, hlinkable⟩, -⟩ | ⟨herror, -⟩
  · -- the colored model has its twin already
    have htwin : ((build rivals).get? 1).map (·.twin) = some (some 0) := by decide
    rw [hlinkable.second, Option.map_some, hlinkable.second_free] at htwin
    cases htwin
  · exact herror

end Arena
end Formulary
