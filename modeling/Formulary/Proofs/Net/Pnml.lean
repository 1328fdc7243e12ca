import Formulary.Net.Pnml
import Formulary.Proofs.Net.Markup

/-! What a model file tells about the nodes of its net. Each piece adds the ids of the tag in it, and only a tag of a
    node without an id ends the reading; so a document gives the ids of its tags, in their order. -/

namespace Formulary
namespace Pnml
open Markup

/-- The id that a tag gives, if it gives one. -/
def idOf (t : Tag) : Option String := (t.attribute? "id".toList).map String.ofList

/-- What the tags of nodes of a kind give as ids. -/
def idsOf (kind : NodeKind) (tags : List Tag) : List (Option String) :=
  (tags.filter (·.name = kind.name.toList)).map idOf

/-- A tag of a node that has no id. -/
def Nameless (kind : NodeKind) (t : Tag) : Prop := t.name = kind.name.toList ∧ t.attribute? "id".toList = none

instance (kind : NodeKind) (t : Tag) : Decidable (Nameless kind t) := inferInstanceAs (Decidable (_ ∧ _))

section Reading
variable {r r' r'' : Reading} {tags tags' : List Tag} {t : Tag} {kind : NodeKind}

/-- What the reading of some tags has added. -/
structure Continues (r : Reading) (tags : List Tag) (r' : Reading) : Prop where
  places : r'.places.map some = r.places.map some ++ idsOf .place tags
  transitions : r'.transitions.map some = r.transitions.map some ++ idsOf .transition tags
  seenNet : r'.seenNet = (r.seenNet || tags.any (·.name = "net".toList))

theorem idsOf_append (kind : NodeKind) (tags tags' : List Tag) :
    idsOf kind (tags ++ tags') = idsOf kind tags ++ idsOf kind tags' := by
  unfold idsOf
  rw [List.filter_append, List.map_append]

theorem none_mem_idsOf (ht : t ∈ tags) (h : Nameless kind t) : none ∈ idsOf kind tags := by
  refine List.mem_map.mpr ⟨t, List.mem_filter.mpr ⟨ht, decide_eq_true h.1⟩, ?_⟩
  rw [idOf, h.2]
  rfl

theorem Continues.nil (hplaces : r'.places = r.places) (htransitions : r'.transitions = r.transitions)
    (hseen : r'.seenNet = r.seenNet) : Continues r [] r' :=
  ⟨by rw [hplaces]; exact (List.append_nil _).symm, by rw [htransitions]; exact (List.append_nil _).symm,
    by rw [hseen]; exact (Bool.or_false _).symm⟩

theorem Continues.trans (h : Continues r tags r') (h' : Continues r' tags' r'') :
    Continues r (tags ++ tags') r'' where
  places := by rw [h'.places, h.places, idsOf_append, List.append_assoc]
  transitions := by rw [h'.transitions, h.transitions, idsOf_append, List.append_assoc]
  seenNet := by rw [h'.seenNet, h.seenNet, List.any_append, Bool.or_assoc]

/-! ### Elements -/

/-- What the tags of an element are called. -/
def Element.name : Element → List Char
  | net => "net".toList
  | node kind => kind.name.toList
  | initialMarking => "initialMarking".toList
  | text => "text".toList

theorem ofName?_eq_some_iff {name : List Char} {element : Element} :
    Element.ofName? name = some element ↔ name = element.name := by
  constructor
  · intro h
    unfold Element.ofName? at h
    split_ifs at h <;> cases h <;> assumption
  · rintro rfl
    cases element with
    | node kind => cases kind <;> rfl
    | net | initialMarking | text => rfl

theorem ofName?_eq_node_iff {name : List Char} : Element.ofName? name = some (.node kind) ↔ name = kind.name.toList :=
  ofName?_eq_some_iff

theorem ofName?_eq_net_iff {name : List Char} : Element.ofName? name = some .net ↔ name = "net".toList :=
  ofName?_eq_some_iff

theorem idsOf_singleton (kind : NodeKind) (t : Tag) :
    idsOf kind [t] = if Element.ofName? t.name = some (.node kind) then [idOf t] else [] := by
  unfold idsOf
  simp only [ofName?_eq_node_iff]
  by_cases h : t.name = kind.name.toList <;> simp [h]

/-- A tag of another element than a node adds no ids. -/
theorem continues_singleton (hnode : ∀ kind, Element.ofName? t.name ≠ some (.node kind))
    (hplaces : r'.places = r.places) (htransitions : r'.transitions = r.transitions)
    (hseen : r'.seenNet = (r.seenNet || decide (Element.ofName? t.name = some .net))) : Continues r [t] r' where
  places := by rw [hplaces, idsOf_singleton, if_neg (hnode _), List.append_nil]
  transitions := by rw [htransitions, idsOf_singleton, if_neg (hnode _), List.append_nil]
  seenNet := by
    rw [hseen]
    simp [ofName?_eq_net_iff]

theorem continues_addNode {id : List Char} (hkind : Element.ofName? t.name = some (.node kind))
    (hid : t.attribute? "id".toList = some id) : Continues r [t] (r.addNode kind (String.ofList id)) := by
  have hidOf : idOf t = some (String.ofList id) := by
    rw [idOf, hid]
    rfl
  have hnet : [t].any (·.name = "net".toList) = false := by
    simp only [List.any_cons, List.any_nil, Bool.or_false, ← ofName?_eq_net_iff, hkind]
    rfl
  cases kind <;> exact ⟨by simp [Reading.addNode, idsOf_singleton, hkind, hidOf],
    by simp [Reading.addNode, idsOf_singleton, hkind, hidOf], by rw [hnet, Bool.or_false]; rfl⟩

/-! ### Reading -/

/-- A piece adds what its tag gives, or it is the tag of a node without an id. -/
theorem read_cases (r : Reading) (p : Piece) :
    (∃ r', read r p = .ok r' ∧ Continues r p.tag?.toList r') ∨
      ∃ kind, (∃ t ∈ p.tag?, Nameless kind t) ∧ read r p = .error (.missingId kind) := by
  cases p with
  | other data =>
    refine .inl ⟨_, rfl, ?_⟩
    split <;> exact .nil rfl rfl rfl
  | opening t data =>
    dsimp only [read]
    cases helement : Element.ofName? t.name with
    | none => exact .inl ⟨_, rfl, continues_singleton (by simp [helement]) rfl rfl (by simp [helement])⟩
    | some element =>
      cases element with
      | net => exact .inl ⟨_, rfl, continues_singleton (by simp [helement]) rfl rfl (by simp [helement])⟩
      | initialMarking =>
        exact .inl ⟨_, rfl, continues_singleton (by simp [helement]) rfl rfl (by simp [helement])⟩
      | text =>
        refine .inl ⟨_, rfl, ?_⟩
        have hmarking : ∀ m, (r.addMarking m).places = r.places ∧ (r.addMarking m).transitions = r.transitions ∧
            (r.addMarking m).seenNet = r.seenNet := by
          intro m
          unfold Reading.addMarking
          split <;> exact ⟨rfl, rfl, rfl⟩
        split
        · obtain ⟨hplaces, htransitions, hseen⟩ := hmarking data
          exact continues_singleton (by simp [helement]) hplaces htransitions (by simp [helement, hseen])
        · exact continues_singleton (by simp [helement]) rfl rfl (by simp [helement])
      | node kind =>
        cases hid : t.attribute? "id".toList with
        | some id => exact .inl ⟨_, rfl, continues_addNode helement hid⟩
        | none => exact .inr ⟨kind, ⟨t, rfl, ofName?_eq_node_iff.mp helement, hid⟩, rfl⟩

theorem foldlM_read_cases (r : Reading) (ps : List Piece) :
    (∃ r', ps.foldlM read r = .ok r' ∧ Continues r (ps.filterMap Piece.tag?) r') ∨
      ∃ kind, (∃ t ∈ ps.filterMap Piece.tag?, Nameless kind t) ∧ ps.foldlM read r = .error (.missingId kind) := by
  induction ps generalizing r with
  | nil => exact .inl ⟨r, rfl, .nil rfl rfl rfl⟩
  | cons p ps ih =>
    have htags : (p :: ps).filterMap Piece.tag? = p.tag?.toList ++ ps.filterMap Piece.tag? := by
      cases h : p.tag? <;> simp [h]
    rw [htags, List.foldlM_cons]
    rcases read_cases r p with ⟨r', hread, hcontinues⟩ | ⟨kind, ⟨t, ht, hnameless⟩, hread⟩
    · rw [hread]
      rcases ih r' with ⟨r'', hfold, hrest⟩ | ⟨kind, ⟨t, ht, hnameless⟩, hfold⟩
      · exact .inl ⟨r'', hfold, hcontinues.trans hrest⟩
      · exact .inr ⟨kind, ⟨t, List.mem_append_right _ ht, hnameless⟩, hfold⟩
    · rw [hread]
      exact .inr ⟨kind, ⟨t, List.mem_append_left _ (Option.mem_toList.mpr ht), hnameless⟩, rfl⟩

end Reading

/-! ### Documents -/

variable (d : Document)

/-- A document is read to its end and gives the ids of its tags, or it has the tag of a node without an id. -/
theorem parse_cases :
    (∃ net, (∀ kind, ∀ t ∈ d.tags, ¬Nameless kind t) ∧ net.places.map some = idsOf .place d.tags ∧
      net.transitions.map some = idsOf .transition d.tags ∧
      parse (String.ofList d.text) = if d.tags.any (·.name = "net".toList) then .ok net else .error .noNet) ∨
    ∃ kind, (∃ t ∈ d.tags, Nameless kind t) ∧ parse (String.ofList d.text) = .error (.missingId kind) := by
  have hfold := foldlM_read_cases {} (pieces d.text)
  rw [filterMap_tag?_pieces] at hfold
  unfold parse
  rw [String.toList_ofList]
  rcases hfold with ⟨r, hfold, hcontinues⟩ | ⟨kind, hnameless, hfold⟩
  · have hplaces : r.places.map some = idsOf .place d.tags := hcontinues.places
    have htransitions : r.transitions.map some = idsOf .transition d.tags := hcontinues.transitions
    have hseen : r.seenNet = d.tags.any (·.name = "net".toList) := hcontinues.seenNet.trans (Bool.false_or _)
    refine .inl ⟨⟨r.places, r.transitions, r.greatestMarking⟩, ?_, hplaces, htransitions, ?_⟩
    · intro kind t ht hnameless
      have hnone := none_mem_idsOf ht hnameless
      cases kind
      · simp [← hplaces] at hnone
      · simp [← htransitions] at hnone
    · rw [hfold, ← hseen]
      rfl
  · refine .inr ⟨kind, hnameless, ?_⟩
    rw [hfold]
    rfl

/-- A document with a net, and with an id on every node, gives the first id of each tag of a place and of each tag of a
    transition, in order, and nothing else. Any other document gives an error. -/
theorem parse_document :
    ((∃ t ∈ d.tags, t.name = "net".toList) → (∀ kind, ∀ t ∈ d.tags, ¬Nameless kind t) →
      ∃ net, parse (String.ofList d.text) = .ok net ∧ net.places.map some = idsOf .place d.tags ∧
        net.transitions.map some = idsOf .transition d.tags) ∧
    ((∃ kind, ∃ t ∈ d.tags, Nameless kind t) → ∃ kind, parse (String.ofList d.text) = .error (.missingId kind)) ∧
    ((∀ t ∈ d.tags, t.name ≠ "net".toList) → ∃ e, parse (String.ofList d.text) = .error e) := by
  rcases parse_cases d with ⟨net, hnamed, hplaces, htransitions, hparse⟩ | ⟨kind, ⟨t, ht, hnameless⟩, hparse⟩
  · refine ⟨?_, ?_, ?_⟩
    · rintro ⟨t, ht, hnet⟩ -
      rw [if_pos (List.any_eq_true.mpr ⟨t, ht, decide_eq_true hnet⟩)] at hparse
      exact ⟨net, hparse, hplaces, htransitions⟩
    · rintro ⟨kind, t, ht, hnameless⟩
      exact absurd hnameless (hnamed kind t ht)
    · intro hnet
      refine ⟨.noNet, hparse.trans (if_neg ?_)⟩
      rw [List.any_eq_true]
      rintro ⟨t, ht, hname⟩
      exact hnet t ht (of_decide_eq_true hname)
  · exact ⟨fun _ hnamed => absurd hnameless (hnamed kind t ht), fun _ => ⟨kind, hparse⟩, fun _ => ⟨_, hparse⟩⟩

/-- An attribute with one blank in front. -/
def plainAttribute (key value : List Char) (key_ne : key ≠ []) (key_name : key.all isNameChar)
    (value_plain : '"' ∉ value) : WrittenAttribute where
  lead := [' ']
  key := key
  before := []
  after := []
  quote := '"'
  value := value
  lead_ne := List.cons_ne_nil _ _
  lead_space := rfl
  key_ne := key_ne
  key_name := key_name
  before_space := rfl
  after_space := rfl
  isQuote := .inl rfl
  value_plain := value_plain

/-- A net with a place in a comment, a place with two ids and a tag in its note, and a transition. -/
def disguised : Document where
  parts := [
    .opening ⟨['n', 'e', 't'], [], [], false, by simp, by decide, rfl⟩,
    .comment ['<', 'p', 'l', 'a', 'c', 'e', '/', '>'] (by decide),
    .opening ⟨['p', 'l', 'a', 'c', 'e'], [
      plainAttribute ['n', 'o', 't', 'e'] ['<', 'p', 'l', 'a', 'c', 'e', '/', '>'] (by simp) (by decide) (by decide),
      plainAttribute ['i', 'd'] ['P'] (by simp) (by decide) (by decide),
      plainAttribute ['i', 'd'] ['Q'] (by simp) (by decide) (by decide)], [], true, by simp, by decide, rfl⟩,
    .opening ⟨['t', 'r', 'a', 'n', 's', 'i', 't', 'i', 'o', 'n'], [
      plainAttribute ['i', 'd'] ['T'] (by simp) (by decide) (by decide)], [' '], true, by simp, by decide, rfl⟩,
    .closing ['n', 'e', 't'] [] (by simp) (by decide) rfl]
  apart := trivial

theorem disguised_tags : disguised.tags = [⟨['n', 'e', 't'], [], false⟩,
    ⟨['p', 'l', 'a', 'c', 'e'], [(['n', 'o', 't', 'e'], ['<', 'p', 'l', 'a', 'c', 'e', '/', '>']), (['i', 'd'], ['P']),
      (['i', 'd'], ['Q'])], true⟩,
    ⟨['t', 'r', 'a', 'n', 's', 'i', 't', 'i', 'o', 'n'], [(['i', 'd'], ['T'])], true⟩] := rfl

theorem disguised_parse :
    disguised.text = ("<net><!--<place/>--><place note=\"<place/>\" id=\"P\" id=\"Q\"/>" ++
      "<transition id=\"T\" /></net>").toList ∧
    (∃ t ∈ disguised.tags, t.name = "net".toList) ∧ (∀ kind, ∀ t ∈ disguised.tags, ¬Nameless kind t) ∧
    ∃ net, parse (String.ofList disguised.text) = .ok net ∧ net.places = ["P"] ∧ net.transitions = ["T"] := by
  have htext : disguised.text = ("<net><!--<place/>--><place note=\"<place/>\" id=\"P\" id=\"Q\"/>" ++
      "<transition id=\"T\" /></net>").toList := by
    rw [String.toList_append]
    simp only [String.reduceToList]
    rfl
  have hnet : ∃ t ∈ disguised.tags, t.name = "net".toList := by
    rw [disguised_tags]
    simp
  have hnamed : ∀ kind, ∀ t ∈ disguised.tags, ¬Nameless kind t := by
    rw [disguised_tags]
    rintro (_ | _) <;> simp [Nameless, NodeKind.name, Tag.attribute?]
  have hplaceIds : idsOf .place disguised.tags = ["P"].map some := by
    rw [disguised_tags]
    simp [idsOf, NodeKind.name, idOf, Tag.attribute?, List.lookup_cons]
  have htransitionIds : idsOf .transition disguised.tags = ["T"].map some := by
    rw [disguised_tags]
    simp [idsOf, NodeKind.name, idOf, Tag.attribute?]
  obtain ⟨net, hparse, hplaces, htransitions⟩ := (parse_document disguised).1 hnet hnamed
  refine ⟨htext, hnet, hnamed, net, hparse, ?_, ?_⟩
  · exact (List.map_inj_right fun _ _ => Option.some.inj).mp (hplaces.trans hplaceIds)
  · exact (List.map_inj_right fun _ _ => Option.some.inj).mp (htransitions.trans htransitionIds)

end Pnml
end Formulary
