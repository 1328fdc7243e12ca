import Formulary.Proofs.Net.Markup

/-! Documents of nested elements. Every element has a start tag, its content and an end tag of the same name, or it is written
    as one tag. Written out, such a document is a list of parts, in which the parts of an element are next to one another. -/

namespace Formulary
namespace Markup

/-! ### Elements and what is between them -/

inductive Node where
  | data (text : List Char) (plain : '<' ∉ text)
  | comment (body : List Char) (isOpen : ¬['-', '-', '>'] <:+: body)
  | empty (tag : WrittenTag) (isEmpty : tag.isEmpty = true)
  | element (tag : WrittenTag) (isEmpty : tag.isEmpty = false) (content : List Node) (space : List Char)
      (space_space : space.all isSpace)

/-- An element, with the tag that it begins with. -/
structure WrittenElement where
  tag : WrittenTag
  content : List Node

mutual

def Node.parts : Node → List Part
  | .data text plain => [.data text plain]
  | .comment body isOpen => [.comment body isOpen]
  | .empty tag _ => [.opening tag]
  | .element tag _ content space space_space =>
    .opening tag :: (partsOf content ++ [.closing tag.name space tag.name_ne tag.name_name space_space])

/-- The parts of nodes, one after the other. -/
def partsOf : List Node → List Part
  | [] => []
  | node :: nodes => node.parts ++ partsOf nodes

end

mutual

def Node.elements : Node → List WrittenElement
  | .data .. | .comment .. => []
  | .empty tag _ => [⟨tag, []⟩]
  | .element tag _ content .. => ⟨tag, content⟩ :: elementsOf content

/-- All elements, each one before those in it. -/
def elementsOf : List Node → List WrittenElement
  | [] => []
  | node :: nodes => node.elements ++ elementsOf nodes

end

/-- What is in the elements of a name. -/
def contentsOf (name : List Char) (nodes : List Node) : List (List Node) :=
  ((elementsOf nodes).filter (·.tag.name = name)).map (·.content)

namespace Node

def isData : Node → Bool
  | data .. => true
  | _ => false

/-- The character data of a node that is nothing else. -/
def text : Node → List Char
  | data text _ => text
  | _ => []

end Node

/-- The character data that is in no element further down. -/
def dataOf (nodes : List Node) : List Char := nodes.flatMap (·.text)

namespace Part

/-- The tag that an element is opened with. -/
def written? : Part → Option WrittenTag
  | opening tag => some tag
  | _ => none

/-- The name in an end tag. -/
def endName? : Part → Option (List Char)
  | closing name .. => some name
  | _ => none

theorem tag?_eq (part : Part) : part.tag? = part.written?.map (·.tag) := by cases part <;> rfl

end Part

/-- A forest is empty, or it has a first node; if that is an element, then its content is a smaller forest, too. -/
@[elab_as_elim]
theorem Node.forest_induct {motive : List Node → Prop} (nil : motive [])
    (data : ∀ text plain nodes, motive nodes → motive (.data text plain :: nodes))
    (comment : ∀ body isOpen nodes, motive nodes → motive (.comment body isOpen :: nodes))
    (empty : ∀ tag isEmpty nodes, motive nodes → motive (.empty tag isEmpty :: nodes))
    (element : ∀ tag isEmpty content space space_space nodes, motive content → motive nodes →
      motive (.element tag isEmpty content space space_space :: nodes)) (nodes : List Node) : motive nodes :=
  @Node.rec_1 (fun node => ∀ nodes, motive nodes → motive (node :: nodes)) motive data comment empty
    (fun tag isEmpty content space space_space hcontent nodes =>
      element tag isEmpty content space space_space nodes hcontent)
    nil (fun _ nodes hnode hnodes => hnode nodes hnodes) nodes

section Forest
variable {nodes content : List Node} {e : WrittenElement} {tag : WrittenTag} {name : List Char}

theorem partsOf_element {isEmpty : tag.isEmpty = false} {space : List Char} {space_space : space.all isSpace} :
    partsOf (.element tag isEmpty content space space_space :: nodes) = .opening tag ::
      (partsOf content ++ .closing tag.name space tag.name_ne tag.name_name space_space :: partsOf nodes) := by
  rw [partsOf, Node.parts, List.cons_append, List.append_assoc]
  rfl

theorem contentsOf_empty {isEmpty : tag.isEmpty = true} :
    contentsOf name (.empty tag isEmpty :: nodes) = (if tag.name = name then [[]] else []) ++ contentsOf name nodes := by
  have helements : elementsOf (.empty tag isEmpty :: nodes) = ⟨tag, []⟩ :: elementsOf nodes := rfl
  rw [contentsOf, helements, List.filter_cons]
  by_cases h : tag.name = name <;> simp [h, contentsOf]

theorem contentsOf_element {isEmpty : tag.isEmpty = false} {space : List Char} {space_space : space.all isSpace} :
    contentsOf name (.element tag isEmpty content space space_space :: nodes) =
      (if tag.name = name then [content] else []) ++ (contentsOf name content ++ contentsOf name nodes) := by
  have helements : elementsOf (.element tag isEmpty content space space_space :: nodes) =
      ⟨tag, content⟩ :: (elementsOf content ++ elementsOf nodes) := rfl
  rw [contentsOf, helements, List.filter_cons]
  by_cases h : tag.name = name <;> simp [h, contentsOf]

theorem contentsOf_eq_nil (h : ∀ e ∈ elementsOf nodes, e.tag.name ≠ name) : contentsOf name nodes = [] := by
  rw [contentsOf, List.map_eq_nil_iff, List.filter_eq_nil_iff]
  exact fun e he hname => h e he (of_decide_eq_true hname)

/-- The tags that open elements come in the order of the elements. -/
theorem filterMap_written?_partsOf (nodes : List Node) :
    (partsOf nodes).filterMap (·.written?) = (elementsOf nodes).map (·.tag) := by
  induction nodes using Node.forest_induct with
  | nil => rfl
  | data _ _ _ ih | comment _ _ _ ih => exact ih
  | empty tag _ nodes ih => exact congrArg (tag :: ·) ih
  | element tag _ content _ _ nodes hcontent hnodes =>
    rw [partsOf_element, elementsOf, Node.elements]
    show tag :: (partsOf content ++ _ :: partsOf nodes).filterMap (·.written?) = _
    rw [List.filterMap_append, hcontent, List.cons_append, List.map_cons, List.map_append, ← hnodes]
    rfl

/-- The parts of an element are somewhere among those of the document, and they close with its end tag, if it has one. -/
theorem exists_parts_of_mem (he : e ∈ elementsOf nodes) :
    ∃ before after, partsOf nodes = before ++ .opening e.tag :: (partsOf e.content ++ after) ∧
      (e.tag.isEmpty = false → ∃ part rest, after = part :: rest ∧ part.endName? = some e.tag.name) := by
  induction nodes using Node.forest_induct with
  | nil => cases he
  | data text plain nodes ih =>
    obtain ⟨before, after, hparts, hend⟩ := ih he
    exact ⟨.data text plain :: before, after, congrArg (_ :: ·) hparts, hend⟩
  | comment body isOpen nodes ih =>
    obtain ⟨before, after, hparts, hend⟩ := ih he
    exact ⟨.comment body isOpen :: before, after, congrArg (_ :: ·) hparts, hend⟩
  | empty tag isEmpty nodes ih =>
    rcases List.mem_cons.mp he with rfl | he
    · exact ⟨[], partsOf nodes, rfl, fun h => absurd isEmpty (by rw [h]; decide)⟩
    · obtain ⟨before, after, hparts, hend⟩ := ih he
      exact ⟨.opening tag :: before, after, congrArg (_ :: ·) hparts, hend⟩
  | element tag isEmpty content space space_space nodes hcontent hnodes =>
    rw [partsOf_element]
    rw [elementsOf, Node.elements, List.cons_append, List.mem_cons, List.mem_append] at he
    rcases he with rfl | he | he
    · exact ⟨[], _, rfl, fun _ => ⟨_, _, rfl, rfl⟩⟩
    · obtain ⟨before, after, hparts, hend⟩ := hcontent he
      refine ⟨.opening tag :: before, after ++ .closing tag.name space tag.name_ne tag.name_name space_space :: partsOf nodes,
        by rw [hparts]; simp, fun h => ?_⟩
      obtain ⟨part, rest, rfl, hname⟩ := hend h
      exact ⟨part, _, rfl, hname⟩
    · obtain ⟨before, after, hparts, hend⟩ := hnodes he
      refine ⟨.opening tag :: (partsOf content ++ .closing tag.name space tag.name_ne tag.name_name space_space :: before),
        after, by rw [hparts]; simp, hend⟩

/-- There are no declarations among the parts, so all of them are told apart. -/
theorem apart_append (nodes : List Node) {parts : List Part} (h : Apart parts) : Apart (partsOf nodes ++ parts) := by
  induction nodes using Node.forest_induct generalizing parts with
  | nil => exact h
  | data _ _ _ ih | comment _ _ _ ih | empty _ _ _ ih => exact ih h
  | element tag _ content _ _ nodes hcontent hnodes =>
    rw [partsOf_element, List.cons_append, List.append_assoc]
    exact hcontent (hnodes h)

/-- The character data of nodes that are nothing else. -/
theorem textOf_partsOf (h : ∀ node ∈ nodes, node.isData = true) : textOf (partsOf nodes) = dataOf nodes := by
  induction nodes with
  | nil => rfl
  | cons node nodes ih =>
    obtain ⟨hnode, hnodes⟩ := List.forall_mem_cons.mp h
    cases node with
    | data text plain => exact congrArg (text ++ ·) (ih hnodes)
    | comment | empty | element => cases hnode

theorem not_mem_dataOf (nodes : List Node) : '<' ∉ dataOf nodes := by
  intro hmem
  obtain ⟨node, -, hnode⟩ := List.mem_flatMap.mp hmem
  cases node with
  | data text plain => exact plain hnode
  | comment | empty | element => cases hnode

end Forest

/-- The document that the nodes make up. -/
def documentOf (nodes : List Node) : Document where
  parts := partsOf nodes
  apart := by
    rw [← List.append_nil (partsOf nodes)]
    exact apart_append nodes trivial

theorem tags_documentOf (nodes : List Node) : (documentOf nodes).tags = (elementsOf nodes).map (·.tag.tag) := by
  have htags : ∀ parts : List Part, parts.filterMap (·.tag?) = (parts.filterMap (·.written?)).map (·.tag) := fun parts => by
    rw [List.map_filterMap]
    exact congrArg (List.filterMap · parts) (funext Part.tag?_eq)
  rw [Document.tags, documentOf, htags, filterMap_written?_partsOf, List.map_map]
  rfl

end Markup
end Formulary
