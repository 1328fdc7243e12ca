import Formulary.Net.Model
import Formulary.Proofs.Formula.Binding
import Formulary.Proofs.Net.Mapping

/-! Unfolding keeps a formula in its language. Where all identifiers of a formula unfold into something, the
    unfolded formula speaks about identifiers of the uncolored net; and once the correspondence of a model has
    been looked for, the model keeps only such identifiers. -/

namespace Formulary

/-- Each of the identifiers `ids` unfolds into some of the identifiers `ids'`, and into no others. -/
structure Correspondence.Covers (m : Correspondence) (ids ids' : Identifiers) : Prop where
  places : ∀ p ∈ ids.places, m.places.image p ≠ [] ∧ m.places.image p ⊆ ids'.places
  transitions : ∀ t ∈ ids.transitions, m.transitions.image t ≠ [] ∧ m.transitions.image t ⊆ ids'.transitions

/-! ### Unfolded formulas -/

namespace Formula
variable {m : Correspondence} {c : Catalog} {ids ids' : Identifiers} {kind : AtomKind} {scope : Scope}
  {grammar : Grammar} {op : Operator} {args : List Formula} {f : Formula}

theorem unfoldAll_eq_map (m : Correspondence) : ∀ fs : List Formula, unfoldAll m fs = fs.map (unfold m)
  | [] => rfl
  | f :: fs => by rw [unfoldAll, unfoldAll_eq_map m fs, List.map_cons]

theorem unfold_mk (hfireable : op.symbol? ≠ some .isFireable) (hcount : op.symbol? ≠ some .tokenCount) :
    unfold m ⟨op, args⟩ = ⟨op, args.map (unfold m)⟩ := by
  rw [unfold]
  split
  case h_1 h => exact absurd h hfireable
  case h_2 h => exact absurd h hcount
  case h_3 => rw [unfoldAll_eq_map]

/-- A leaf stays, also one with the name of an operator. -/
theorem unfold_literal (text : String) : unfold m (literal text) = literal text := by
  rw [literal, leaf, unfold]
  split <;> rfl

theorem unfold_integerConstant (n : Int) : unfold m (integerConstant n) = integerConstant n := by
  rw [integerConstant, unfold_mk (by decide) (by decide), List.map_singleton, unfold_literal]

theorem unfold_leq (f g : Formula) : unfold m (leq f g) = leq (unfold m f) (unfold m g) :=
  unfold_mk (by decide) (by decide)

/-- What identifiers with images unfold into is something, and in the images. -/
theorem flatMap_image {mapping : Mapping} {cs us : List String} (hcs : cs ≠ [])
    (h : ∀ c ∈ cs, mapping.image c ≠ [] ∧ mapping.image c ⊆ us) :
    cs.flatMap mapping.image ≠ [] ∧ cs.flatMap mapping.image ⊆ us := by
  constructor
  · intro hnone
    obtain ⟨c, hc⟩ := List.exists_mem_of_ne_nil cs hcs
    exact (h c hc).1 (List.flatMap_eq_nil_iff.mp hnone c hc)
  · intro u hu
    obtain ⟨c, hc, hu⟩ := List.mem_flatMap.mp hu
    exact (h c hc).2 hu

section
variable (hm : m.Covers ids ids')
include hm

theorem isCount_unfold (h : IsCount ids f) : IsCount ids' (unfold m f) := by
  obtain ⟨ps, hps, hknown, rfl⟩ := h
  obtain ⟨hne, hsub⟩ := flatMap_image hps fun p hp => hm.places p (hknown hp)
  exact ⟨_, hne, hsub, unfold_tokenCount m ps⟩

theorem isAtom_unfold (h : IsAtom ids kind f) : IsAtom ids' kind (unfold m f) := by
  cases h with
  | fireability hts hknown =>
    obtain ⟨hne, hsub⟩ := flatMap_image hts fun t ht => hm.transitions t (hknown ht)
    rw [unfold_isFireable]
    exact .fireability hne hsub
  | atMost h n =>
    rw [unfold_leq, unfold_integerConstant]
    exact .atMost (isCount_unfold hm h) n
  | atLeast n h =>
    rw [unfold_leq, unfold_integerConstant]
    exact .atLeast n (isCount_unfold hm h)
  | compare hf hg =>
    rw [unfold_leq]
    exact .compare (isCount_unfold hm hf) (isCount_unfold hm hg)

theorem unfold_replaced (h : c.Derives (IsAtom ids kind) Catalog.pathQuantifiers scope f) :
    Replaced (IsAtom ids kind) (IsAtom ids' kind) f (unfold m f) := by
  induction f generalizing scope with
  | node op args ih =>
    rcases h.inner with hatom | ⟨hinner, hargs⟩
    · exact .atom hatom (isAtom_unfold hm hatom)
    · have hsymbol : ∀ symbol, symbol.isInner = false → op.symbol? ≠ some symbol := by
        rintro symbol hsymbol heq
        rw [Operator.isInner, heq, Option.any_some, hsymbol] at hinner
        exact Bool.false_ne_true hinner
      rw [unfold_mk (hsymbol _ rfl) (hsymbol _ rfl)]
      refine .of_map (fun hatom => ?_) fun f hf => ?_
      · have hop : op = .isFireable ∨ op = .leq := List.mem_pair.mp hatom.operator_mem
        rcases hop with rfl | rfl
        · exact absurd hinner (by decide)
        · exact absurd hinner (by decide)
      · obtain ⟨_, hf'⟩ := hargs f hf
        exact ih f hf hf'

/-- An unfolded formula of a language speaks about the identifiers of the uncolored net. -/
theorem unfold_language (h : c.Language grammar (IsAtom ids kind) f) :
    c.Language grammar (IsAtom ids' kind) (unfold m f) :=
  h.replaced (fun _ => IsAtom.inert) (fun _ => IsAtom.inert) (unfold_replaced hm h.derives)

end

end Formula

/-! ### Models with a correspondence -/

namespace Mapping
variable {colored uncolored : List String} {c : String}

theorem mem_mapped_between (h : c ∈ (between colored uncolored).mapped) :
    (between colored uncolored).image c ≠ [] ∧ (between colored uncolored).image c ⊆ uncolored := by
  obtain ⟨⟨c, us⟩, hmem, rfl⟩ := List.mem_map.mp h
  obtain ⟨hmem, hne⟩ := List.mem_filter.mp hmem
  obtain ⟨c, hc, heq⟩ := List.mem_map.mp hmem
  cases heq
  rw [image_between, if_pos hc]
  exact ⟨by simpa using hne, List.filter_subset_self _⟩

end Mapping

/-- Transitions are looked at only if some places are mapped. -/
theorem Correspondence.between_cases (colored uncolored : Identifiers) :
    (Mapping.between colored.places uncolored.places).isEmpty = true ∧
      (between colored uncolored).2 = .error .emptyPlaces ∨
    (Mapping.between colored.places uncolored.places).isEmpty = false ∧
      (Mapping.between colored.transitions uncolored.transitions).isEmpty = true ∧
      (between colored uncolored).2 = .error .emptyTransitions ∨
    (Mapping.between colored.places uncolored.places).isEmpty = false ∧
      (Mapping.between colored.transitions uncolored.transitions).isEmpty = false ∧
      (between colored uncolored).2 =
        .ok ⟨.between colored.places uncolored.places, .between colored.transitions uncolored.transitions⟩ := by
  cases hplaces : (Mapping.between colored.places uncolored.places).isEmpty with
  | true => simp [between, hplaces]
  | false =>
    cases htransitions : (Mapping.between colored.transitions uncolored.transitions).isEmpty with
    | true => simp [between, hplaces, htransitions]
    | false => simp [between, hplaces, htransitions]

theorem Correspondence.eq_of_between_eq_ok {colored uncolored : Identifiers} {m : Correspondence}
    {notices : List Notice} (h : between colored uncolored = (notices, .ok m)) :
    m = ⟨.between colored.places uncolored.places, .between colored.transitions uncolored.transitions⟩ := by
  have hcases := between_cases colored uncolored
  rw [h] at hcases
  rcases hcases with ⟨-, h⟩ | ⟨-, -, h⟩ | ⟨-, -, h⟩
  · cases h
  · cases h
  · cases h
    rfl

/-- A model keeps its key and its directory while it is worked on. -/
structure Model.Remains (m m' : Model) : Prop where
  key : m'.key = m.key
  directory : m'.directory = m.directory

namespace Model
variable {m m' twin : Model} {k : Correspondence}

theorem load_remains {ε : Type} {parse : String → Except ε NetSummary} (h : m.load parse = .ok m') : m.Remains m' := by
  unfold load at h
  split at h
  · cases h
    exact ⟨rfl, rfl⟩
  · split at h
    · cases h
    · cases h
      exact ⟨rfl, rfl⟩

theorem load_correspondence {ε : Type} {parse : String → Except ε NetSummary} (h : m.load parse = .ok m') :
    m'.correspondence = m.correspondence := by
  unfold load at h
  split at h
  · cases h
    rfl
  · split at h
    · cases h
    · cases h
      rfl

theorem restrict_remains (m : Model) (uncolored : Identifiers) (found : Except MappingError Correspondence) :
    m.Remains (m.restrict uncolored found) := by
  cases found with
  | ok c => exact ⟨rfl, rfl⟩
  | error e => cases e <;> exact ⟨rfl, rfl⟩

theorem ensureCorrespondence_remains (m twin : Model) : m.Remains (m.ensureCorrespondence twin).1 := by
  unfold ensureCorrespondence
  split
  · exact ⟨rfl, rfl⟩
  · obtain ⟨hkey, hdirectory⟩ := restrict_remains m twin.identifiers
      (Correspondence.between m.identifiers twin.identifiers).2
    exact ⟨hkey, hdirectory⟩

/-- A model whose correspondence with the twin was looked for keeps identifiers that unfold into those of the
    twin. -/
theorem ensureCorrespondence_covers (hm : m.correspondence = none)
    (hk : (m.ensureCorrespondence twin).1.usableCorrespondence = some k) :
    k.Covers (m.ensureCorrespondence twin).1.identifiers twin.identifiers := by
  simp only [ensureCorrespondence, hm] at hk ⊢
  generalize hbetween : Correspondence.between m.identifiers twin.identifiers = result at hk ⊢
  obtain ⟨notices, found⟩ := result
  cases found with
  | error e => cases hk
  | ok found =>
    cases hk
    obtain rfl := Correspondence.eq_of_between_eq_ok hbetween
    exact ⟨fun _ => Mapping.mem_mapped_between, fun _ => Mapping.mem_mapped_between⟩

end Model
end Formulary
