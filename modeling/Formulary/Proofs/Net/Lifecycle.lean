import Formulary.Proofs.Net.Unfolding

/-! The life of a model. It is loaded, related to twins and released, any number of times and in any order. The
    correspondence is looked for once until the next release, and what was found then tells which identifiers the
    model keeps, whatever is done to it in between. -/

namespace Formulary

/-! ### Mapped identifiers -/

/-- Of the identifiers of one kind, `ids` are mapped and `others` are not. There are some that are mapped, and each of
    them unfolds into something. -/
structure Mapping.Splits (mapping : Mapping) (ids others : List String) : Prop where
  mapped : ids = mapping.mapped
  unmapped : others = mapping.unmapped
  ne_nil : ids ≠ []
  image_ne_nil : ∀ c ∈ ids, mapping.image c ≠ []

theorem Mapping.splits_between {colored uncolored : List String} (h : (between colored uncolored).isEmpty = false) :
    (between colored uncolored).Splits (between colored uncolored).mapped (between colored uncolored).unmapped where
  mapped := rfl
  unmapped := rfl
  ne_nil := by
    intro hnone
    rw [isEmpty, List.map_eq_nil_iff.mp hnone] at h
    cases h
  image_ne_nil := fun _ hc => (mem_mapped_between hc).1

theorem Mapping.isEmpty_between_nil (uncolored : List String) : (between [] uncolored).isEmpty = true := rfl

namespace Correspondence
variable {known uncolored : Identifiers} {c : Correspondence}

theorem splits_of_between_eq_ok (h : (between known uncolored).2 = .ok c) :
    c = ⟨.between known.places uncolored.places, .between known.transitions uncolored.transitions⟩ ∧
      c.places.Splits c.places.mapped c.places.unmapped ∧
      c.transitions.Splits c.transitions.mapped c.transitions.unmapped := by
  have hcases := between_cases known uncolored
  rw [h] at hcases
  rcases hcases with ⟨-, h⟩ | ⟨-, -, h⟩ | ⟨hplaces, htransitions, h⟩
  · cases h
  · cases h
  · cases h
    exact ⟨rfl, Mapping.splits_between hplaces, Mapping.splits_between htransitions⟩

theorem splits_of_between_eq_emptyTransitions (h : (between known uncolored).2 = .error .emptyTransitions) :
    (Mapping.between known.places uncolored.places).Splits
      (Mapping.between known.places uncolored.places).mapped
      (Mapping.between known.places uncolored.places).unmapped := by
  have hcases := between_cases known uncolored
  rw [h] at hcases
  rcases hcases with ⟨-, h⟩ | ⟨hplaces, -, -⟩ | ⟨-, -, h⟩
  · cases h
  · exact Mapping.splits_between hplaces
  · cases h

theorem places_ne_nil_of_between (h : (between known uncolored).2 ≠ .error .emptyPlaces) : known.places ≠ [] := by
  intro hnone
  refine h ?_
  simp only [between, hnone, Mapping.isEmpty_between_nil, if_true]

end Correspondence

/-! ### Operations -/

namespace Model
variable {ε : Type} {m m' start twin : Model} {parse : String → Except ε NetSummary}
  {found : Except MappingError Correspondence}

/-- What is done to a model. -/
inductive Operation (ε : Type) where
  /-- Its file is read, or is found to tell nothing. -/
  | load (parse : String → Except ε NetSummary)
  /-- The correspondence with a model is looked for. -/
  | relate (uncolored : Model)
  | release

namespace Operation

/-- The model after the operation. A load that fails leaves it as it was. -/
def apply (m : Model) : Operation ε → Model
  | load parse => (m.load parse).toOption.getD m
  | relate uncolored => (m.ensureCorrespondence uncolored).1
  | release => m.release

def isRelease : Operation ε → Bool
  | release => true
  | load _ | relate _ => false

end Operation

def after (m : Model) (ops : List (Operation ε)) : Model := ops.foldl Operation.apply m

@[simp] theorem after_append {ops ops' : List (Operation ε)} : m.after (ops ++ ops') = (m.after ops).after ops' :=
  List.foldl_append

@[simp] theorem after_singleton {op : Operation ε} : m.after [op] = op.apply m := rfl

/-- A model that nothing was done to yet: nothing is known about it, or its identifiers are. -/
inductive IsNew : Model → Prop
  | unread (key : ModelKey) (directory : String) : IsNew { key, directory }
  | known (key : ModelKey) (directory : String) (places transitions : List String) :
      IsNew (({ key, directory } : Model).withIdentifiers places transitions)

/-! ### What one operation does -/

def reading (m : Model) (net : NetSummary) : Model :=
  { m with
    places := net.places
    transitions := net.transitions
    greatestMarking := if m.isColored then m.greatestMarking else net.greatestMarking
    isLoaded := true }

theorem load_of_isLoaded (h : m.isLoaded = true) (parse : String → Except ε NetSummary) : m.load parse = .ok m := by
  rw [load, if_pos h]

theorem load_of_not_isLoaded (h : m.isLoaded = false) (parse : String → Except ε NetSummary) :
    m.load parse = (parse m.file).map m.reading := by
  rw [load, if_neg (Bool.eq_false_iff.mp h)]
  cases parse m.file <;> rfl

theorem apply_load_of_ok (h : m.load parse = .ok m') : (Operation.load parse).apply m = m' := by
  rw [Operation.apply, h]
  rfl

theorem apply_load_of_error {e : ε} (h : m.load parse = .error e) : (Operation.load parse).apply m = m := by
  rw [Operation.apply, h]
  rfl

/-- A load changes nothing, or it reads the file of a model that was not loaded. -/
theorem apply_load_cases (m : Model) (parse : String → Except ε NetSummary) :
    (Operation.load parse).apply m = m ∨
      ∃ net, m.isLoaded = false ∧ (Operation.load parse).apply m = m.reading net := by
  cases hloaded : m.isLoaded with
  | true => exact .inl (apply_load_of_ok (load_of_isLoaded hloaded parse))
  | false =>
    have hload := load_of_not_isLoaded hloaded parse
    cases hparse : parse m.file with
    | error e =>
      rw [hparse] at hload
      exact .inl (apply_load_of_error hload)
    | ok net =>
      rw [hparse] at hload
      exact .inr ⟨net, rfl, apply_load_of_ok hload⟩

theorem ensureCorrespondence_of_some (h : m.correspondence = some found) (twin : Model) :
    m.ensureCorrespondence twin = (m, []) := by
  rw [ensureCorrespondence, h]

theorem ensureCorrespondence_of_none (h : m.correspondence = none) (twin : Model) :
    (m.ensureCorrespondence twin).1 =
      { m.restrict twin.identifiers (Correspondence.between m.identifiers twin.identifiers).2 with
        correspondence := some (Correspondence.between m.identifiers twin.identifiers).2 } := by
  simp only [ensureCorrespondence, h]

/-! ### What operations keep -/

/-- What holds of a model at any time. Without having been loaded it has no identifiers, and then there are no places
    that could be mapped. -/
structure IsTidy (m : Model) : Prop where
  twin : m.twin = none
  unread : m.isLoaded = false → m.places = [] ∧ m.transitions = []
  greatestMarking : m.isColored = true → m.greatestMarking = none
  searched : ∀ found, m.correspondence = some found → found ≠ .error .emptyPlaces → m.isLoaded = true

theorem IsNew.isTidy (h : m.IsNew) : m.IsTidy := by
  cases h with
  | unread => exact ⟨rfl, fun _ => ⟨rfl, rfl⟩, fun _ => rfl, nofun⟩
  | known => exact ⟨rfl, nofun, fun _ => rfl, nofun⟩

theorem restrict_eq (m : Model) (uncolored : Identifiers) (found : Except MappingError Correspondence) :
    m.restrict uncolored found = { m with
      places := (m.restrict uncolored found).places
      transitions := (m.restrict uncolored found).transitions
      unmappedPlaces := (m.restrict uncolored found).unmappedPlaces
      unmappedTransitions := (m.restrict uncolored found).unmappedTransitions } := by
  cases found with
  | ok c => rfl
  | error e => cases e <;> rfl

theorem IsTidy.ensureCorrespondence (h : m.IsTidy) (twin : Model) : (m.ensureCorrespondence twin).1.IsTidy := by
  cases hcached : m.correspondence with
  | some found =>
    rw [ensureCorrespondence_of_some hcached]
    exact h
  | none =>
    rw [ensureCorrespondence_of_none hcached, restrict_eq]
    -- a model without places finds nothing, and it is restricted to nothing
    have hfound : m.isLoaded = false →
        (Correspondence.between m.identifiers twin.identifiers).2 = .error .emptyPlaces := by
      intro hloaded
      by_contra hfound
      exact Correspondence.places_ne_nil_of_between hfound (h.unread hloaded).1
    refine ⟨h.twin, fun hloaded => ?_, h.greatestMarking, ?_⟩
    · rw [hfound hloaded]
      exact h.unread hloaded
    · rintro _ ⟨rfl⟩ hne
      by_contra hloaded
      exact hne (hfound (Bool.eq_false_iff.mpr hloaded))

theorem IsTidy.apply (h : m.IsTidy) (op : Operation ε) : (op.apply m).IsTidy := by
  cases op with
  | load parse =>
    rcases apply_load_cases m parse with hsame | ⟨net, -, hread⟩
    · rw [hsame]
      exact h
    · rw [hread]
      refine ⟨h.twin, nofun, fun hcolored => ?_, fun _ _ _ => rfl⟩
      have hcolored : m.isColored = true := hcolored
      show (if m.isColored = true then m.greatestMarking else net.greatestMarking) = none
      rw [if_pos hcolored]
      exact h.greatestMarking hcolored
  | relate uncolored => exact h.ensureCorrespondence uncolored
  | release => exact ⟨h.twin, fun _ => ⟨rfl, rfl⟩, h.greatestMarking, nofun⟩

theorem IsTidy.after (h : m.IsTidy) (ops : List (Operation ε)) : (m.after ops).IsTidy := by
  induction ops generalizing m with
  | nil => exact h
  | cons op ops ih => exact ih (h.apply op)

theorem release_remains (m : Model) : m.Remains m.release := ⟨rfl, rfl⟩

theorem apply_remains (m : Model) (op : Operation ε) : m.Remains (op.apply m) := by
  cases op with
  | load parse =>
    rcases apply_load_cases m parse with hsame | ⟨net, -, hread⟩
    · rw [hsame]
      exact ⟨rfl, rfl⟩
    · rw [hread]
      exact ⟨rfl, rfl⟩
  | relate uncolored => exact ensureCorrespondence_remains m uncolored
  | release => exact release_remains m

theorem after_remains (m : Model) (ops : List (Operation ε)) : m.Remains (m.after ops) := by
  induction ops generalizing m with
  | nil => exact ⟨rfl, rfl⟩
  | cons op ops ih =>
    obtain ⟨hkey, hdirectory⟩ := ih (op.apply m)
    obtain ⟨hkey', hdirectory'⟩ := apply_remains m op
    exact ⟨hkey.trans hkey', hdirectory.trans hdirectory'⟩

/-! ### What was found stays -/

theorem correspondence_apply_load (m : Model) (parse : String → Except ε NetSummary) :
    ((Operation.load parse).apply m).correspondence = m.correspondence := by
  rcases apply_load_cases m parse with hsame | ⟨_, -, hread⟩
  · rw [hsame]
  · rw [hread]
    rfl

theorem correspondence_apply {op : Operation ε} (h : m.correspondence = some found) (hop : op.isRelease = false) :
    (op.apply m).correspondence = some found := by
  cases op with
  | load parse => rw [correspondence_apply_load, h]
  | relate uncolored => rw [Operation.apply, ensureCorrespondence_of_some h, h]
  | release => cases hop

/-- Until the next release, what was found is what every further look finds. -/
theorem correspondence_after {ops : List (Operation ε)} (h : m.correspondence = some found)
    (hops : ∀ op ∈ ops, op.isRelease = false) : (m.after ops).correspondence = some found := by
  induction ops generalizing m with
  | nil => exact h
  | cons op ops ih =>
    obtain ⟨hop, hops⟩ := List.forall_mem_cons.mp hops
    exact ih (correspondence_apply h hop) hops

/-- What is known about the correspondence was found by the first look since the last release. Unless no place could be
    mapped, the model is still as that look left it. -/
theorem exists_search (hstart : start.IsNew) {ops : List (Operation ε)}
    (h : (start.after ops).correspondence = some found) :
    ∃ before uncolored later, ops = before ++ .relate uncolored :: later ∧
      (start.after before).correspondence = none ∧
      found = (Correspondence.between (start.after before).identifiers uncolored.identifiers).2 ∧
      (found ≠ .error .emptyPlaces →
        start.after ops = ((start.after before).ensureCorrespondence uncolored).1) := by
  -- by induction on the operations, the last one first: it is the look itself, or it leaves what was found
  induction ops using List.reverseRecOn with
  | nil => cases hstart <;> cases h
  | append_singleton ops op ih =>
    rw [after_append, after_singleton] at h ⊢
    cases op with
    | load parse =>
      rw [correspondence_apply_load] at h
      obtain ⟨before, uncolored, later, rfl, hnone, hfound, hsame⟩ := ih h
      refine ⟨before, uncolored, later ++ [.load parse], by simp, hnone, hfound, fun hne => ?_⟩
      have hloaded := (hstart.isTidy.after _).searched found h hne
      rw [apply_load_of_ok (load_of_isLoaded hloaded parse)]
      exact hsame hne
    | relate uncolored =>
      cases hcached : (start.after ops).correspondence with
      | none =>
        refine ⟨ops, uncolored, [], rfl, hcached, ?_, fun _ => rfl⟩
        rw [Operation.apply, ensureCorrespondence_of_none hcached] at h
        exact (Option.some.inj h).symm
      | some cached =>
        rw [Operation.apply, ensureCorrespondence_of_some hcached] at h ⊢
        obtain ⟨before, uncolored', later, rfl, hrest⟩ := ih h
        exact ⟨before, uncolored', later ++ [.relate uncolored], by simp, hrest⟩
    | release => cases h

/-! ### The life of a model -/

/-- A released model is a new one, but for the largest number of the initial marking. A load of an uncolored model
    reads that again, and a colored model never has it. -/
theorem IsTidy.reading_release (h : m.IsTidy) :
    m.release.reading = ({ key := m.key, directory := m.directory } : Model).reading := by
  funext net
  have hgreatest : (if m.isColored = true then m.greatestMarking else net.greatestMarking) =
      if m.isColored = true then none else net.greatestMarking := by
    split
    case isTrue hcolored => exact h.greatestMarking hcolored
    case isFalse => rfl
  simp only [reading, release, h.twin]
  congr 1

theorem IsTidy.load_release (h : m.IsTidy) (parse : String → Except ε NetSummary) :
    m.release.load parse = ({ key := m.key, directory := m.directory } : Model).load parse := by
  rw [load_of_not_isLoaded rfl, load_of_not_isLoaded rfl, h.reading_release]
  rfl

/-- What a model is after the operations `ops`, which began with the model `start`. -/
structure Lives (start : Model) (ops : List (Operation ε)) : Prop where
  /-- A correspondence tells which identifiers the model keeps, and they all unfold into something. -/
  usable : ∀ c, (start.after ops).correspondence = some (.ok c) →
    (start.after ops).isLoaded = true ∧
      c.places.Splits (start.after ops).places (start.after ops).unmappedPlaces ∧
      c.transitions.Splits (start.after ops).transitions (start.after ops).unmappedTransitions
  /-- If transitions could not be mapped, the model keeps the places that could. -/
  emptyTransitions : (start.after ops).correspondence = some (.error .emptyTransitions) →
    ∃ before uncolored later, ops = before ++ .relate uncolored :: later ∧
      (start.after before).correspondence = none ∧
      (Mapping.between (start.after before).places uncolored.places).Splits (start.after ops).places
        (start.after ops).unmappedPlaces
  /-- What was found does not change until the next release, and looking again changes nothing. -/
  cached : ∀ found, (start.after ops).correspondence = some found →
    ∀ later : List (Operation ε), (∀ op ∈ later, op.isRelease = false) →
      ((start.after ops).after later).correspondence = some found ∧
      ∀ uncolored, ((start.after ops).after later).ensureCorrespondence uncolored =
        ((start.after ops).after later, [])
  /-- A load changes nothing if it fails or if the model is loaded. -/
  load : ∀ parse : String → Except ε NetSummary,
    (∃ e, (start.after ops).load parse = .error e) ∨ (start.after ops).isLoaded = true →
      (Operation.load parse).apply (start.after ops) = start.after ops
  /-- A load after a release gives what it gives for a new model. -/
  release : ∀ parse : String → Except ε NetSummary,
    (start.after ops).release.load parse = ({ key := start.key, directory := start.directory } : Model).load parse

/-- Loaded, related and released in any order, a model is always in step with what was found about its correspondence. -/
theorem IsNew.lives (h : start.IsNew) (ops : List (Operation ε)) : start.Lives ops := by
  have htidy := h.isTidy.after ops
  refine ⟨fun c hc => ?_, fun hempty => ?_, fun found hfound later hlater => ?_, fun parse hload => ?_, fun parse => ?_⟩
  · obtain ⟨before, uncolored, later, rfl, hnone, hfound, hsame⟩ := exists_search h hc
    obtain ⟨-, hplaces, htransitions⟩ := Correspondence.splits_of_between_eq_ok hfound.symm
    refine ⟨htidy.searched _ hc nofun, ?_⟩
    rw [hsame nofun, ensureCorrespondence_of_none hnone, ← hfound]
    exact ⟨hplaces, htransitions⟩
  · obtain ⟨before, uncolored, later, rfl, hnone, hfound, hsame⟩ := exists_search h hempty
    refine ⟨before, uncolored, later, rfl, hnone, ?_⟩
    rw [hsame nofun, ensureCorrespondence_of_none hnone, ← hfound]
    exact Correspondence.splits_of_between_eq_emptyTransitions hfound.symm
  · have hlater' := correspondence_after hfound hlater
    exact ⟨hlater', ensureCorrespondence_of_some hlater'⟩
  · rcases hload with ⟨e, herror⟩ | hloaded
    · exact apply_load_of_error herror
    · exact apply_load_of_ok (load_of_isLoaded hloaded parse)
  · obtain ⟨hkey, hdirectory⟩ := after_remains start ops
    rw [htidy.load_release, hkey, hdirectory]

/-- A model that is related too early, released, and then loaded and related to two twins. -/
def errands : List (Operation Unit) := [
  .relate (({ key := ⟨"M", .placeTransition, "1"⟩, directory := "M-PT-1" } : Model).withIdentifiers ["P1"] ["T1"]),
  .release,
  .load fun _ => .error (),
  .load fun _ => .ok ⟨["P", "Q"], ["T", "U"], some 3⟩,
  .relate (({ key := ⟨"M", .placeTransition, "1"⟩, directory := "M-PT-1" } : Model).withIdentifiers ["P1"] ["T1"]),
  .relate (({ key := ⟨"M", .placeTransition, "2"⟩, directory := "M-PT-2" } : Model).withIdentifiers ["Q1"] ["U1"])]

theorem errands_lives :
    IsNew { key := ⟨"M", .colored, "1"⟩, directory := "M-COL-1" } ∧
      (({ key := ⟨"M", .colored, "1"⟩, directory := "M-COL-1" } : Model).after errands).places = ["P"] ∧
      (({ key := ⟨"M", .colored, "1"⟩, directory := "M-COL-1" } : Model).after errands).unmappedTransitions = ["U"] ∧
      Lives { key := ⟨"M", .colored, "1"⟩, directory := "M-COL-1" } errands := by
  have hnew : IsNew { key := ⟨"M", .colored, "1"⟩, directory := "M-COL-1" } := .unread _ _
  exact ⟨hnew, by cbv, by cbv, hnew.lives errands⟩

end Model
end Formulary
