import Mathlib.Data.List.Basic
import Formulary.Proofs.Net.Nesting
import Formulary.Proofs.Net.Pnml

/-! What a model file tells about the initial marking. Whether the next text is that of a marking is all that is kept of the
    place in the document, so what is heard of a marking is told by its parts. It is the text in the marking, if no end tag
    before the text begins with the name of the marking, and if the text is not written as one tag. -/

namespace Formulary
namespace Pnml
open Markup

/-! ### Numbers among texts -/

/-- The greatest of the numbers among some texts. -/
def greatest (texts : List (List Char)) : Option Int := (texts.filterMap fun text => Text.int64? (Text.trim text)).max?

theorem max?_concat (l : List Int) (n : Int) : (l ++ [n]).max? = some (l.max?.elim n (max · n)) := by
  cases l with
  | nil => rfl
  | cons m l => simp [List.max?, List.foldl_append]

theorem greatestMarking_addMarking {r : Reading} {texts : List (List Char)} (h : r.greatestMarking = greatest texts)
    (text : List Char) : (r.addMarking text).greatestMarking = greatest (texts ++ [text]) := by
  unfold Reading.addMarking greatest
  rw [List.filterMap_append]
  split
  case h_1 n hn => simp [hn, max?_concat, h, greatest]
  case h_2 hn => simp [hn, h, greatest]

/-! ### Listening -/

/-- The piece is the end tag of a marking, or that of an element whose name begins in the same way. -/
def endsMarking (data : List Char) : Bool := "/initialMarking".toList.isPrefixOf data

/-- Whether the next text is that of a marking, after a piece. -/
def attend (inMarking : Bool) : Piece → Bool
  | .opening tag _ =>
    match Element.ofName? tag.name with
    | some (.node _) | some .text => false
    | some .initialMarking => !tag.isEmpty
    | some .net | none => inMarking
  | .other data => inMarking && !endsMarking data

/-- The text of a marking that a piece gives. -/
def heard? (inMarking : Bool) : Piece → Option (List Char)
  | .opening tag data => if inMarking ∧ Element.ofName? tag.name = some .text then some data else none
  | .other _ => none

/-- All texts of markings that pieces give. -/
def heard : Bool → List Piece → List (List Char)
  | _, [] => []
  | inMarking, p :: ps => (heard? inMarking p).toList ++ heard (attend inMarking p) ps

section Listening
variable {r r' : Reading} {p : Piece} {ps : List Piece} {texts : List (List Char)}

theorem addMarking_inMarking (text : List Char) : (r.addMarking text).inMarking = false := by
  unfold Reading.addMarking
  split <;> rfl

/-- What is known after a piece follows from what was known before. -/
theorem read_hears (h : read r p = .ok r') (hr : r.greatestMarking = greatest texts) :
    r'.inMarking = attend r.inMarking p ∧ r'.greatestMarking = greatest (texts ++ (heard? r.inMarking p).toList) := by
  cases p with
  | other data =>
    have hread : read r (.other data) = .ok (if endsMarking data then { r with inMarking := false } else r) := rfl
    rw [hread] at h
    rw [attend, heard?]
    cases hends : endsMarking data <;> rw [hends] at h <;> cases h <;> simp [hr]
  | opening tag data =>
    rw [attend, heard?]
    cases helement : Element.ofName? tag.name with
    | none =>
      simp only [read, helement] at h
      cases h
      simp [hr]
    | some element =>
      cases element with
      | net | initialMarking =>
        simp only [read, helement] at h
        cases h
        simp [hr]
      | node kind =>
        simp only [read, helement] at h
        split at h <;> cases h
        cases kind <;> simp [Reading.addNode, hr]
      | text =>
        simp only [read, helement] at h
        cases hmarking : r.inMarking <;> rw [hmarking] at h <;> cases h
        · simp [hmarking, hr]
        · simp [addMarking_inMarking, greatestMarking_addMarking hr]

theorem foldlM_read_hears (h : ps.foldlM read r = .ok r') (hr : r.greatestMarking = greatest texts) :
    r'.greatestMarking = greatest (texts ++ heard r.inMarking ps) := by
  induction ps generalizing r texts with
  | nil =>
    cases h
    rw [heard, List.append_nil, hr]
  | cons p ps ih =>
    rw [List.foldlM_cons] at h
    cases hread : read r p with
    | error e =>
      rw [hread] at h
      cases h
    | ok r'' =>
      rw [hread] at h
      obtain ⟨hflag, hgreatest⟩ := read_hears hread hr
      rw [heard, ← List.append_assoc, ← hflag]
      exact ih h hgreatest

theorem parse_hears {d : Document} {net : NetSummary} (h : parse (String.ofList d.text) = .ok net) :
    net.greatestMarking = greatest (heard false (piecesOf d.parts)) := by
  unfold parse at h
  rw [String.toList_ofList, Document.text, pieces_textOf d.apart] at h
  cases hfold : (piecesOf d.parts).foldlM read {} with
  | error e =>
    rw [hfold] at h
    cases h
  | ok r =>
    rw [hfold] at h
    have hgreatest : r.greatestMarking = greatest (heard false (piecesOf d.parts)) :=
      foldlM_read_hears hfold (show ({} : Reading).greatestMarking = greatest [] from rfl)
    rw [← hgreatest]
    cases hnet : r.seenNet <;> simp [bind, Except.bind, hnet] at h
    cases h
    rfl

end Listening

/-! ### Parts -/

theorem endsMarking_closing {name space rest : List Char} (hspace : space.all isSpace = true) :
    endsMarking ('/' :: (name ++ (space ++ '>' :: rest))) = true ↔ Element.initialMarking.name <+: name := by
  have hname : Element.initialMarking.name.all isNameChar = true := by decide
  have hend : EndsAt isNameChar (space ++ '>' :: rest) := endsAt_space_append hspace (endsAt_cons (by decide))
  rw [endsMarking, List.isPrefixOf_iff_prefix, ← hend.prefix_append_iff hname]
  exact List.prefix_cons_inj '/'

/-- The tag of a text. -/
def isText : Part → Bool
  | .opening tag => tag.name = Element.text.name
  | _ => false

/-- An end tag that is taken for that of a marking. -/
def seemsMarkingEnd : Part → Bool
  | .closing name .. => Element.initialMarking.name.isPrefixOf name
  | _ => false

/-- What is heard of a marking: its first text, up to the next bracket, unless an end tag before it is taken for that of the
    marking. -/
def heardIn : List Part → Option (List Char)
  | [] => none
  | part :: parts =>
    if isText part then some ((textOf parts).takeWhile isNotBracket)
    else if seemsMarkingEnd part then none
    else heardIn parts

section Parts
variable {part : Part} {parts rest : List Part} {inMarking : Bool} {tag : WrittenTag}

theorem heardIn_of_text (h : isText part = true) :
    heardIn (part :: parts) = some ((textOf parts).takeWhile isNotBracket) := by rw [heardIn, if_pos h]

theorem heardIn_of_end (h : isText part = false) (hend : seemsMarkingEnd part = true) : heardIn (part :: parts) = none := by
  rw [heardIn, if_neg (Bool.eq_false_iff.mp h), if_pos hend]

theorem heardIn_of_other (h : isText part = false) (hend : seemsMarkingEnd part = false) :
    heardIn (part :: parts) = heardIn parts := by
  rw [heardIn, if_neg (Bool.eq_false_iff.mp h), if_neg (Bool.eq_false_iff.mp hend)]

theorem heard?_false (p : Piece) : heard? false p = none := by cases p <;> simp [heard?]

theorem attend_false_opening {tag : Tag} (h : tag.name ≠ Element.initialMarking.name) (data : List Char) :
    attend false (.opening tag data) = false := by
  rw [attend]
  cases helement : Element.ofName? tag.name with
  | none => rfl
  | some element =>
    cases element with
    | net | node | text => rfl
    | initialMarking => exact absurd (ofName?_eq_some_iff.mp helement) h

theorem attend_marking {tag : Tag} (h : tag.name = Element.initialMarking.name) (data : List Char) :
    attend inMarking (.opening tag data) = !tag.isEmpty := by rw [attend, ofName?_eq_some_iff.mpr h]

theorem attend_text {tag : Tag} (h : Element.ofName? tag.name = some .text) (data : List Char) :
    attend inMarking (.opening tag data) = false := by rw [attend, h]

/-- An element without a meaning keeps the place. -/
theorem attend_opening_of_none {tag : Tag} (hnode : ∀ kind, tag.name ≠ (Element.node kind).name)
    (hmarking : tag.name ≠ Element.initialMarking.name) (htext : tag.name ≠ Element.text.name) (data : List Char) :
    attend inMarking (.opening tag data) = inMarking := by
  rw [attend]
  cases helement : Element.ofName? tag.name with
  | none => rfl
  | some element =>
    have hname := ofName?_eq_some_iff.mp helement
    cases element with
    | net => rfl
    | node kind => exact absurd hname (hnode kind)
    | initialMarking => exact absurd hname hmarking
    | text => exact absurd hname htext

theorem heard_closing {name space : List Char} {name_ne : name ≠ []} {name_name : name.all isNameChar}
    {space_space : space.all isSpace} :
    heard inMarking (piecesOf (.closing name space name_ne name_name space_space :: parts)) =
      heard (inMarking && !seemsMarkingEnd (.closing name space name_ne name_name space_space)) (piecesOf parts) := by
  have hends : ∀ rest, endsMarking ('/' :: (name ++ (space ++ '>' :: rest))) =
      seemsMarkingEnd (.closing name space name_ne name_name space_space) :=
    fun rest => Bool.eq_iff_iff.mpr ((endsMarking_closing space_space).trans List.isPrefixOf_iff_prefix.symm)
  rw [← hends]
  rfl

theorem heard_opening :
    heard inMarking (piecesOf (.opening tag :: parts)) =
      (heard? inMarking (.opening tag.tag ((textOf parts).takeWhile isNotBracket))).toList ++
        heard (attend inMarking (.opening tag.tag ((textOf parts).takeWhile isNotBracket))) (piecesOf parts) := rfl

/-- Outside of markings nothing is heard before the next marking begins. -/
theorem heard_outside (h : ∀ tag ∈ parts.filterMap (·.written?), tag.name ≠ Element.initialMarking.name) :
    heard false (piecesOf (parts ++ rest)) = heard false (piecesOf rest) := by
  induction parts with
  | nil => rfl
  | cons part parts ih =>
    cases part with
    | data | comment | closing | declaration => exact ih h
    | opening tag =>
      obtain ⟨htag, hparts⟩ := List.forall_mem_cons.mp h
      rw [List.cons_append, heard_opening, heard?_false, attend_false_opening htag]
      exact ih hparts

/-- Once its first text or what is taken for its end has come, no more is heard of a marking, for no other one begins
    in it. -/
theorem heard_marking {space : List Char} {name_ne : Element.initialMarking.name ≠ []}
    {name_name : Element.initialMarking.name.all isNameChar} {space_space : space.all isSpace}
    (hnode : ∀ tag ∈ parts.filterMap (·.written?), ∀ kind, tag.name ≠ (Element.node kind).name)
    (hmarking : ∀ tag ∈ parts.filterMap (·.written?), tag.name ≠ Element.initialMarking.name) :
    heard true (piecesOf (parts ++ .closing Element.initialMarking.name space name_ne name_name space_space :: rest)) =
      (heardIn parts).toList ++ heard false (piecesOf rest) := by
  have hself : seemsMarkingEnd (.closing Element.initialMarking.name space name_ne name_name space_space) = true :=
    List.isPrefixOf_iff_prefix.mpr (List.prefix_refl _)
  induction parts with
  | nil =>
    show heard true (piecesOf (_ :: rest)) = _
    rw [heard_closing, hself]
    rfl
  | cons part parts ih =>
    cases part with
    | data | comment => exact ih hnode hmarking
    | declaration mark body isMark plain =>
      have hends : ∀ rest, endsMarking (mark :: rest) = false := fun rest => by
        rcases isMark with rfl | rfl <;> rfl
      show heard (true && !endsMarking (mark :: _)) (piecesOf (parts ++ _)) = _
      rw [hends]
      exact ih hnode hmarking
    | closing name space name_ne name_name space_space =>
      have htext : isText (.closing name space name_ne name_name space_space) = false := rfl
      rw [List.cons_append, heard_closing]
      cases hend : seemsMarkingEnd (.closing name space name_ne name_name space_space)
      · rw [heardIn_of_other htext hend]
        exact ih hnode hmarking
      · rw [heardIn_of_end htext hend]
        exact (heard_outside hmarking).trans heard_closing
    | opening tag =>
      obtain ⟨hnodeTag, hnodeParts⟩ := List.forall_mem_cons.mp hnode
      obtain ⟨hmarkingTag, hmarkingParts⟩ := List.forall_mem_cons.mp hmarking
      rw [List.cons_append, heard_opening]
      by_cases htext : tag.name = Element.text.name
      · have helement : Element.ofName? tag.tag.name = some .text := ofName?_eq_some_iff.mpr htext
        have hself : isText (.opening tag) = true := decide_eq_true htext
        have hbracket : EndsAt isNotBracket (textOf (.closing Element.initialMarking.name space name_ne name_name
            space_space :: rest)) := endsAt_cons rfl
        rw [heard?, if_pos ⟨rfl, helement⟩, attend_text helement, heardIn_of_text hself, textOf_append,
          hbracket.takeWhile_append_eq, heard_outside hmarkingParts, heard_closing]
        rfl
      · have helement : Element.ofName? tag.tag.name ≠ some .text := fun h => htext (ofName?_eq_some_iff.mp h)
        have hother : isText (.opening tag) = false := decide_eq_false htext
        rw [heard?, if_neg fun h => helement h.2, attend_opening_of_none hnodeTag hmarkingTag htext,
          heardIn_of_other hother rfl]
        exact ih hnodeParts hmarkingParts

end Parts

/-! ### Documents -/

/-- What may stand in a marking: no nodes of the net, no other marking, and at most one text, in which there is nothing but
    character data. -/
structure IsMarking (content : List Node) : Prop where
  noNode : ∀ e ∈ elementsOf content, ∀ kind, e.tag.name ≠ (Element.node kind).name
  noMarking : ∀ e ∈ elementsOf content, e.tag.name ≠ Element.initialMarking.name
  oneText : (contentsOf Element.text.name content).length ≤ 1
  plainText : ∀ nodes ∈ contentsOf Element.text.name content, ∀ node ∈ nodes, node.isData = true

/-- There is a net, every node of it has an id, and there is nothing in a marking that cannot be in one. -/
structure IsNetFile (nodes : List Node) : Prop where
  net : ∃ e ∈ elementsOf nodes, e.tag.name = Element.net.name
  ids : ∀ kind, ∀ e ∈ elementsOf nodes, ¬Nameless kind e.tag.tag
  markings : ∀ content ∈ contentsOf Element.initialMarking.name nodes, IsMarking content

instance {p : NodeKind → Prop} [DecidablePred p] : Decidable (∀ kind, p kind) :=
  decidable_of_iff (p .place ∧ p .transition)
    ⟨fun h kind => match kind with | .place => h.1 | .transition => h.2, fun h => ⟨h .place, h .transition⟩⟩

instance (content : List Node) : Decidable (IsMarking content) :=
  decidable_of_iff
    ((∀ e ∈ elementsOf content, ∀ kind, e.tag.name ≠ (Element.node kind).name) ∧
      (∀ e ∈ elementsOf content, e.tag.name ≠ Element.initialMarking.name) ∧
      (contentsOf Element.text.name content).length ≤ 1 ∧
      ∀ nodes ∈ contentsOf Element.text.name content, ∀ node ∈ nodes, node.isData = true)
    ⟨fun ⟨noNode, noMarking, oneText, plainText⟩ => ⟨noNode, noMarking, oneText, plainText⟩,
      fun h => ⟨h.noNode, h.noMarking, h.oneText, h.plainText⟩⟩

instance (nodes : List Node) : Decidable (IsNetFile nodes) :=
  decidable_of_iff
    ((∃ e ∈ elementsOf nodes, e.tag.name = Element.net.name) ∧
      (∀ kind, ∀ e ∈ elementsOf nodes, ¬Nameless kind e.tag.tag) ∧
      ∀ content ∈ contentsOf Element.initialMarking.name nodes, IsMarking content)
    ⟨fun ⟨net, ids, markings⟩ => ⟨net, ids, markings⟩, fun h => ⟨h.net, h.ids, h.markings⟩⟩

/-- Texts have end tags of their own, and none comes after an end tag that is taken for that of a marking. -/
structure Audible (parts : List Part) : Prop where
  closed : ∀ tag ∈ parts.filterMap (·.written?), tag.name = Element.text.name → tag.isEmpty = false
  inTime : parts.Pairwise fun part later => seemsMarkingEnd part = true → isText later = false

instance (parts : List Part) : Decidable (Audible parts) :=
  decidable_of_iff
    ((∀ tag ∈ parts.filterMap (·.written?), tag.name = Element.text.name → tag.isEmpty = false) ∧
      parts.Pairwise fun part later => seemsMarkingEnd part = true → isText later = false)
    ⟨fun ⟨closed, inTime⟩ => ⟨closed, inTime⟩, fun h => ⟨h.closed, h.inTime⟩⟩

section Documents
variable {nodes content : List Node} {rest : List Part}

theorem forall_written {P : List Char → Prop} (h : ∀ e ∈ elementsOf nodes, P e.tag.name) :
    ∀ tag ∈ (partsOf nodes).filterMap (·.written?), P tag.name := by
  rw [filterMap_written?_partsOf]
  exact List.forall_mem_map.mpr h

/-- Between markings it is known where the next one begins, so each marking is heard as if it were alone. -/
theorem heard_nodes (h : ∀ content ∈ contentsOf Element.initialMarking.name nodes, IsMarking content) :
    heard false (piecesOf (partsOf nodes ++ rest)) =
      (contentsOf Element.initialMarking.name nodes).filterMap (fun content => heardIn (partsOf content)) ++
        heard false (piecesOf rest) := by
  -- no node leaves the reader waiting for a text: a marking does not, since its own end tag comes after all others in it
  induction nodes using Node.forest_induct generalizing rest with
  | nil => rfl
  | data _ _ _ ih | comment _ _ _ ih => exact ih h
  | empty tag isEmpty nodes ih =>
    rw [contentsOf_empty] at h ⊢
    have hrest : heard false (piecesOf (partsOf nodes ++ rest)) = _ :=
      ih fun content hcontent => h content (List.mem_append_right _ hcontent)
    show heard false (piecesOf (.opening tag :: (partsOf nodes ++ rest))) = _
    rw [heard_opening, heard?_false]
    by_cases hname : tag.name = Element.initialMarking.name
    · have hflag : (!tag.tag.isEmpty) = false := congrArg (!·) isEmpty
      rw [attend_marking hname, hflag, if_pos hname]
      exact hrest
    · rw [attend_false_opening hname, if_neg hname]
      exact hrest
  | element tag isEmpty content space space_space nodes hcontent hnodes =>
    rw [contentsOf_element] at h ⊢
    have hrest : heard false (piecesOf (partsOf nodes ++ rest)) = _ :=
      hnodes fun content hmem => h content (List.mem_append_right _ (List.mem_append_right _ hmem))
    rw [partsOf_element, List.cons_append, List.append_assoc, List.cons_append, heard_opening, heard?_false]
    by_cases hname : tag.name = Element.initialMarking.name
    · have hflag : (!tag.tag.isEmpty) = true := congrArg (!·) isEmpty
      rw [if_pos hname] at h ⊢
      have hmarking : IsMarking content := h content List.mem_cons_self
      obtain ⟨name, attributes, space', isEmpty', name_ne, name_name, space_space'⟩ := tag
      obtain rfl : name = Element.initialMarking.name := hname
      have hnode := forall_written (P := fun name => ∀ kind, name ≠ (Element.node kind).name) hmarking.noNode
      have hnone := forall_written (P := fun name => name ≠ Element.initialMarking.name) hmarking.noMarking
      rw [attend_marking rfl, hflag, heard_marking hnode hnone, hrest, contentsOf_eq_nil hmarking.noMarking]
      cases hheard : heardIn (partsOf content) <;> simp [hheard]
    · have hbelow : ∀ rest, heard false (piecesOf (partsOf content ++ rest)) = _ := fun rest =>
        hcontent fun content hmem => h content (List.mem_append_right _ (List.mem_append_left _ hmem))
      rw [attend_false_opening hname, if_neg hname]
      refine (hbelow _).trans ?_
      rw [heard_closing, Bool.false_and, hrest, List.nil_append, List.filterMap_append, List.append_assoc]

theorem heardIn_append {before parts : List Part} (htext : ∀ part ∈ before, isText part = false)
    (hend : ∀ part ∈ before, seemsMarkingEnd part = false) : heardIn (before ++ parts) = heardIn parts := by
  induction before with
  | nil => rfl
  | cons part before ih =>
    obtain ⟨htextPart, htextBefore⟩ := List.forall_mem_cons.mp htext
    obtain ⟨hendPart, hendBefore⟩ := List.forall_mem_cons.mp hend
    rw [List.cons_append, heardIn_of_other htextPart hendPart]
    exact ih htextBefore hendBefore

theorem heardIn_eq_none {parts : List Part} (htext : ∀ part ∈ parts, isText part = false) : heardIn parts = none := by
  induction parts with
  | nil => rfl
  | cons part parts ih =>
    obtain ⟨hpart, hparts⟩ := List.forall_mem_cons.mp htext
    rw [heardIn, hpart, if_neg Bool.false_ne_true, ih hparts, ite_self]

/-- There are as many tags of texts as texts. -/
theorem countP_isText (nodes : List Node) :
    (partsOf nodes).countP isText = (contentsOf Element.text.name nodes).length := by
  have hparts : ∀ parts : List Part,
      parts.countP isText = (parts.filterMap (·.written?)).countP (·.name = Element.text.name) := by
    intro parts
    induction parts with
    | nil => rfl
    | cons part parts ih => cases part <;> simp [List.countP_cons, Part.written?, isText, ih]
  rw [hparts, filterMap_written?_partsOf, List.countP_map, contentsOf, List.length_map, List.countP_eq_length_filter]
  rfl

theorem heardIn_eq (hcontent : IsMarking content) (haudible : Audible (partsOf content)) :
    (heardIn (partsOf content)).toList = (contentsOf Element.text.name content).map dataOf := by
  have hone := hcontent.oneText
  have hcount := countP_isText content
  cases htexts : contentsOf Element.text.name content with
  | nil =>
    rw [htexts] at hcount
    have hnone : ∀ part ∈ partsOf content, isText part = false := fun part hpart =>
      Bool.eq_false_iff.mpr (List.countP_eq_zero.mp hcount part hpart)
    rw [heardIn_eq_none hnone]
    rfl
  | cons nodes others =>
    have hmem : nodes ∈ contentsOf Element.text.name content := htexts ▸ List.mem_cons_self
    obtain ⟨e, he, rfl⟩ := List.mem_map.mp hmem
    obtain ⟨he, hname⟩ := List.mem_filter.mp he
    obtain ⟨before, after, hparts, hend⟩ := exists_parts_of_mem he
    have hself : isText (.opening e.tag) = true := hname
    have hopen : e.tag.isEmpty = false := by
      refine haudible.closed e.tag ?_ (of_decide_eq_true hname)
      rw [filterMap_written?_partsOf]
      exact List.mem_map_of_mem he
    obtain ⟨part, rest, rfl, hpart⟩ := hend hopen
    -- the text is the first one, and it comes in time
    have hfirst : ∀ part ∈ before, isText part = false := fun part hpart => by
      rw [hparts, List.countP_append, List.countP_cons_of_pos hself] at hcount
      exact Bool.eq_false_iff.mpr (List.countP_eq_zero.mp (by omega) part hpart)
    have hintime : ∀ part ∈ before, seemsMarkingEnd part = false := fun part hpart => by
      have hpairwise := haudible.inTime
      rw [hparts] at hpairwise
      have hlater := (List.pairwise_append.mp hpairwise).2.2 part hpart _ List.mem_cons_self
      exact Bool.eq_false_iff.mpr fun hend => absurd hself (Bool.eq_false_iff.mp (hlater hend))
    have hbracket : EndsAt isNotBracket (textOf (part :: rest)) := by
      cases part with
      | closing => exact endsAt_cons rfl
      | data | comment | declaration | opening => cases hpart
    have hdata : (textOf (partsOf e.content ++ part :: rest)).takeWhile isNotBracket = dataOf e.content := by
      rw [textOf_append, hbracket.takeWhile_append_eq, textOf_partsOf (hcontent.plainText _ hmem),
        List.takeWhile_eq_self_iff]
      exact List.all_eq_true.mp (all_isNotBracket (not_mem_dataOf e.content))
    obtain rfl : others = [] := by
      rw [htexts] at hone
      exact List.eq_nil_of_length_eq_zero (Nat.le_zero.mp (Nat.le_of_succ_le_succ hone))
    rw [hparts, heardIn_append hfirst hintime, heardIn_of_text hself, hdata]
    rfl

end Documents

/-! ### Markings -/

variable {nodes : List Node}

/-- The greatest number of a net file is that of the texts heard of its markings. Where all markings can be heard, these are
    the texts in them. -/
theorem parse_markings (h : IsNetFile nodes) :
    ∃ net, parse (String.ofList (textOf (partsOf nodes))) = .ok net ∧
      net.greatestMarking =
        greatest ((contentsOf Element.initialMarking.name nodes).filterMap fun content => heardIn (partsOf content)) ∧
      ((∀ content ∈ contentsOf Element.initialMarking.name nodes, Audible (partsOf content)) →
        net.greatestMarking = greatest ((contentsOf Element.initialMarking.name nodes).flatMap fun content =>
          (contentsOf Element.text.name content).map dataOf)) := by
  have hnet : ∃ t ∈ (documentOf nodes).tags, t.name = "net".toList := by
    obtain ⟨e, he, hname⟩ := h.net
    rw [tags_documentOf]
    exact ⟨_, List.mem_map_of_mem he, hname⟩
  have hids : ∀ kind, ∀ t ∈ (documentOf nodes).tags, ¬Nameless kind t := by
    rw [tags_documentOf]
    exact fun kind => List.forall_mem_map.mpr (h.ids kind)
  obtain ⟨net, hparse, -, -⟩ := (parse_document (documentOf nodes)).1 hnet hids
  have hheard : heard false (piecesOf (partsOf nodes ++ [])) = _ := heard_nodes h.markings
  rw [List.append_nil] at hheard
  have hgreatest : net.greatestMarking = greatest ((contentsOf Element.initialMarking.name nodes).filterMap
      fun content => heardIn (partsOf content)) := by
    rw [parse_hears hparse]
    exact (congrArg greatest hheard).trans (congrArg greatest (List.append_nil _))
  refine ⟨net, hparse, hgreatest, fun haudible => ?_⟩
  have htexts : (contentsOf Element.initialMarking.name nodes).filterMap (fun content => heardIn (partsOf content)) =
      (contentsOf Element.initialMarking.name nodes).flatMap fun content =>
        (contentsOf Element.text.name content).map dataOf := by
    rw [List.filterMap_eq_flatMap_toList]
    exact List.flatMap_congr fun content hcontent => heardIn_eq (h.markings content hcontent) (haudible content hcontent)
  rw [hgreatest, htexts]

/-- An element whose tags have no space in them. -/
def plainElement (name : String) (attributes : List WrittenAttribute) (content : List Node) (name_ne : name.toList ≠ [])
    (name_name : name.toList.all isNameChar) : Node :=
  .element ⟨name.toList, attributes, [], false, name_ne, name_name, List.all_nil⟩ rfl content [] List.all_nil

/-- An element written as one tag. -/
def plainEmpty (name : String) (name_ne : name.toList ≠ []) (name_name : name.toList.all isNameChar) : Node :=
  .empty ⟨name.toList, [], [], true, name_ne, name_name, List.all_nil⟩ rfl

/-- A net of one place, with what is below the place. -/
def onePlace (content : List Node) : List Node :=
  [plainElement "net" [] [plainElement "place" [plainAttribute "id".toList "p".toList (by decide) (by decide) (by decide)]
    content (by decide) (by decide)] (by decide) (by decide)]

def textNode (data : String) (plain : '<' ∉ data.toList) : Node :=
  plainElement "text" [] [.data data.toList plain] (by decide) (by decide)

def markingNode (content : List Node) : Node := plainElement "initialMarking" [] content (by decide) (by decide)

/-- A marking without a text, a name and a marking with a text. -/
def marked : List Node :=
  onePlace [markingNode [], plainElement "name" [] [textNode "40" (by decide)] (by decide) (by decide),
    markingNode [.comment " 7 ".toList (by decide), textNode " 12 " (by decide)]]

theorem marked_parse :
    textOf (partsOf marked) = ("<net><place id=\"p\"><initialMarking></initialMarking><name><text>40</text></name>" ++
      "<initialMarking><!-- 7 --><text> 12 </text></initialMarking></place></net>").toList ∧
    IsNetFile marked ∧ (∀ content ∈ contentsOf Element.initialMarking.name marked, Audible (partsOf content)) ∧
    ∃ net, parse (String.ofList (textOf (partsOf marked))) = .ok net ∧ net.greatestMarking = some 12 := by
  have hfile : IsNetFile marked := by decide +kernel
  have haudible : ∀ content ∈ contentsOf Element.initialMarking.name marked, Audible (partsOf content) := by
    decide +kernel
  obtain ⟨net, hparse, -, hgreatest⟩ := parse_markings hfile
  exact ⟨by decide +kernel, hfile, haudible, net, hparse, (hgreatest haudible).trans (by decide +kernel)⟩

/-- An element named almost like a marking ends before the text, which is not heard. -/
def muffled : List Node :=
  onePlace [markingNode [plainElement "initialMarkingX" [] [] (by decide) (by decide), textNode "3" (by decide)]]

/-- There is nothing in the text, but what comes after it is heard. -/
def overheard : List Node :=
  onePlace [markingNode [plainEmpty "text" (by decide) (by decide), .data "7".toList (by decide)]]

theorem muffled_parse :
    (textOf (partsOf muffled) = ("<net><place id=\"p\"><initialMarking><initialMarkingX></initialMarkingX>" ++
      "<text>3</text></initialMarking></place></net>").toList ∧
    IsNetFile muffled ∧ parse (String.ofList (textOf (partsOf muffled))) = .ok ⟨["p"], [], none⟩ ∧
    greatest ((contentsOf Element.initialMarking.name muffled).flatMap fun content =>
      (contentsOf Element.text.name content).map dataOf) = some 3) ∧
    (textOf (partsOf overheard) = "<net><place id=\"p\"><initialMarking><text/>7</initialMarking></place></net>".toList ∧
    IsNetFile overheard ∧ parse (String.ofList (textOf (partsOf overheard))) = .ok ⟨["p"], [], some 7⟩ ∧
    greatest ((contentsOf Element.initialMarking.name overheard).flatMap fun content =>
      (contentsOf Element.text.name content).map dataOf) = none) := by
  decide +kernel

end Pnml
end Formulary
