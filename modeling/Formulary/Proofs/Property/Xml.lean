import Formulary.Proofs.Formula.Binding
import Formulary.Proofs.Property.Element
import Formulary.Proofs.Property.Id

/-! The property file for checkers determines its formulas. A formula is written as an element, and a formula over
    identifiers is read off its element: the tag tells the operator, for each catalog, and the children tell the
    operands in order. The text of an element tells where it ends, so the formulas of a file are told apart. -/

namespace Formulary

/-! ### The elements of formulas -/

namespace Formula

mutual

/-- The element of a formula. -/
def element : Formula → Element
  | ⟨op, args⟩ =>
    match op.symbol? with
    | some .strongUntil => .block "until" (untilElements args)
    | some .integerConstant => .field "integer-constant" ((args.head?.map name).getD "0")
    | some .isFireable => .block "is-fireable" (args.map fun f => .field "transition" f.name)
    | some .tokenCount => .block "tokens-count" (args.map fun f => .field "place" f.name)
    | some symbol =>
      match symbol.element? with
      | some tag => .block tag (elements args)
      | none => .comment op.name
    | none => .comment op.name

def elements : List Formula → List Element
  | [] => []
  | f :: fs => element f :: elements fs

/-- The two sides of an until. -/
def untilElements : List Formula → List Element
  | [] => []
  | [before] => [.block "before" [element before]]
  | before :: reach :: _ => [.block "before" [element before], .block "reach" [element reach]]

end

theorem elements_eq_map (fs : List Formula) : elements fs = fs.map element := by
  induction fs with
  | nil => rfl
  | cons f fs ih => rw [elements, ih, List.map_cons]

theorem renderAll_fields (level : Nat) (tag : String) (fs : List Formula) :
    Element.renderAll level (fs.map fun f => .field tag f.name) = named level tag fs := by
  unfold named
  induction fs with
  | nil => rfl
  | cons f fs ih => rw [List.map_cons, List.map_cons, String.join_cons, Element.renderAll, ih, Element.render]

mutual

/-- A formula is written as its element. -/
theorem render_element (level : Nat) : ∀ f : Formula, f.element.render level = f.xml level
  | ⟨op, args⟩ => by
    rw [element, xml]
    cases op.symbol? with
    | none => rfl
    | some symbol =>
      cases symbol with
      | strongUntil => exact congrArg (enclosed level "until") (renderAll_untilElements (level + 1) args)
      | integerConstant => rfl
      | isFireable => exact congrArg (enclosed level "is-fireable") (renderAll_fields (level + 1) "transition" args)
      | tokenCount => exact congrArg (enclosed level "tokens-count") (renderAll_fields (level + 1) "place" args)
      | atom => rfl
      | allPaths | existsPath | not | and | or | globally | eventually | next | leq =>
        exact congrArg (enclosed level _) (renderAll_elements (level + 1) args)

theorem renderAll_elements (level : Nat) : ∀ fs : List Formula, Element.renderAll level (elements fs) = xmlAll level fs
  | [] => rfl
  | f :: fs => by rw [elements, Element.renderAll, render_element level f, renderAll_elements level fs, xmlAll]

theorem renderAll_untilElements (level : Nat) : ∀ fs : List Formula,
    Element.renderAll level (untilElements fs) = xmlUntil level fs
  | [] => rfl
  | [before] => by
    simp only [untilElements, Element.renderAll, Element.render, xmlUntil, render_element (level + 1) before,
      String.append_empty]
  | before :: reach :: fs => by
    simp only [untilElements, Element.renderAll, Element.render, xmlUntil, render_element (level + 1) before,
      render_element (level + 1) reach, String.append_empty]

end

end Formula

/-! ### The formulas of elements -/

namespace Catalog

/-- The operator that is shown with a tag. -/
def operatorOf (c : Catalog) : String → Operator
  | "all-paths" => .fixed .allPaths 1
  | "exists-path" => .fixed .existsPath 1
  | "negation" => .not
  | "conjunction" => .connective .and c.maxArity
  | "disjunction" => .connective .or c.maxArity
  | "globally" => .fixed .globally 1
  | "finally" => .fixed .eventually 1
  | "next" => .fixed .next 1
  | "until" => .fixed .strongUntil 2
  | "integer-le" => .leq
  | "is-fireable" => .isFireable
  | "tokens-count" => .tokenCount
  | _ => .atom

end Catalog

namespace Element
variable (c : Catalog)

mutual

/-- The formula that is shown as the element. The sides of an until are shown in blocks of their own. -/
def formula : Element → Formula
  | .block tag children =>
    if tag = "before" ∨ tag = "reach" then (formulas children).headD .atom
    else ⟨c.operatorOf tag, formulas children⟩
  | .field tag text => if tag = "integer-constant" then ⟨.integerConstant, [.literal text]⟩ else .literal text
  | .comment text => .literal text

def formulas : List Element → List Formula
  | [] => []
  | e :: es => formula e :: formulas es

end

theorem formulas_eq_map (es : List Element) : formulas c es = es.map (formula c) := by
  induction es with
  | nil => rfl
  | cons e es ih => rw [formulas, ih, List.map_cons]

end Element

/-! ### Bound formulas -/

/-- The text holds nothing that could end the field that it is shown in. -/
def IsPlain (text : String) : Prop := '<' ∉ text.toList

/-- What counts of tokens are compared with. -/
inductive IsTerm : Formula → Prop
  | tokenCount {places : List String} (h : ∀ p ∈ places, IsPlain p) : IsTerm (.tokenCount places)
  | integerConstant (n : Int) : IsTerm (.integerConstant n)

/-- The atoms that stand for placeholders, over any number of identifiers. -/
inductive IsBoundAtom : Formula → Prop
  | isFireable {transitions : List String} (h : ∀ t ∈ transitions, IsPlain t) : IsBoundAtom (.isFireable transitions)
  | leq {f g : Formula} (hf : IsTerm f) (hg : IsTerm g) : IsBoundAtom (.leq f g)

namespace Catalog

/-- The formulas over the operators of the catalog whose placeholders are bound. -/
abbrev Bound (c : Catalog) (scope : Scope) (f : Formula) : Prop := c.Derives IsBoundAtom pathQuantifiers scope f

end Catalog

namespace Formula
variable {c : Catalog} {scope : Scope} {f : Formula}

/-- The formula can be read back from the text of its element. -/
structure Reads (c : Catalog) (f : Formula) : Prop where
  legible : f.element.Legible
  formula : f.element.formula c = f

/-- A node with an element of its own is shown over its operands. -/
theorem element_node {op : Operator} {symbol : Symbol} {tag : String} (hname : op.name = symbol.name)
    (htag : symbol.element? = some tag) (args : List Formula) : element ⟨op, args⟩ = .block tag (args.map element) := by
  rw [element, Operator.symbol?, hname, Symbol.ofName?_name, ← elements_eq_map]
  cases symbol <;> cases htag <;> rfl

theorem tag_of_element? {symbol : Symbol} {tag : String} (htag : symbol.element? = some tag) :
    '>' ∉ tag.toList ∧ tag ∉ Element.fieldTags ∧ ¬(tag = "before" ∨ tag = "reach") := by
  cases symbol <;> cases htag <;> decide

theorem reads_node (symbol : Symbol) {op : Operator} {tag : String} {args : List Formula}
    (hname : op.name = symbol.name) (htag : symbol.element? = some tag) (hop : c.operatorOf tag = op)
    (hargs : ∀ f ∈ args, Reads c f) : Reads c ⟨op, args⟩ := by
  obtain ⟨hplain, hblock, hside⟩ := tag_of_element? htag
  have helement := element_node hname htag args
  constructor
  · rw [helement]
    exact .block tag hplain hblock (List.forall_mem_map.mpr fun f hf => (hargs f hf).legible)
  · have hids : args.map (Element.formula c ∘ element) = args.map id :=
      List.map_congr_left fun f hf => (hargs f hf).formula
    rw [helement, Element.formula, if_neg hside, hop, Element.formulas_eq_map, List.map_map, hids, List.map_id]

/-- The two sides of an until are kept apart by the blocks that they are shown in. -/
theorem reads_strongUntil {g : Formula} (hf : Reads c f) (hg : Reads c g) :
    Reads c ⟨.fixed .strongUntil 2, [f, g]⟩ where
  legible := by
    have side : ∀ {tag : String} {f : Formula}, '>' ∉ tag.toList → tag ∉ Element.fieldTags → Reads c f →
        (Element.block tag [f.element]).Legible :=
      fun hplain hblock hf => .block _ hplain hblock (List.forall_mem_singleton.mpr hf.legible)
    refine .block "until" (by decide) (by decide) (List.forall_mem_cons.mpr ⟨?_, ?_⟩)
    · exact side (by decide) (by decide) hf
    · exact List.forall_mem_singleton.mpr (side (by decide) (by decide) hg)
  formula := by
    show (⟨.fixed .strongUntil 2, [f.element.formula c, g.element.formula c]⟩ : Formula) = _
    rw [hf.formula, hg.formula]

/-! ### Leaves -/

section Names
variable {texts : List String}

theorem formulas_fields (tag : String) (htag : tag ≠ "integer-constant") :
    Element.formulas c ((texts.map literal).map fun f => .field tag f.name) = texts.map literal := by
  rw [Element.formulas_eq_map, List.map_map, List.map_map]
  refine List.map_congr_left fun text _ => ?_
  rw [Function.comp_apply, Function.comp_apply, Element.formula, if_neg htag]
  rfl

theorem legible_fields (tag : String) (htag : tag ∈ Element.fieldTags) (h : ∀ text ∈ texts, IsPlain text) :
    ∀ e ∈ (texts.map literal).map fun f => Element.field tag f.name, e.Legible := by
  simp only [List.forall_mem_map]
  intro text htext
  exact .field tag htag (h text htext)

theorem reads_isFireable (h : ∀ text ∈ texts, IsPlain text) : Reads c (.isFireable texts) where
  legible := .block "is-fireable" (by decide) (by decide) (legible_fields "transition" (by decide) h)
  formula := congrArg (Formula.mk .isFireable) (formulas_fields "transition" (by decide))

theorem reads_tokenCount (h : ∀ text ∈ texts, IsPlain text) : Reads c (.tokenCount texts) where
  legible := .block "tokens-count" (by decide) (by decide) (legible_fields "place" (by decide) h)
  formula := congrArg (Formula.mk .tokenCount) (formulas_fields "place" (by decide))

end Names

theorem isPlain_repr (n : Int) : IsPlain n.repr := by
  have hnat : ∀ k : Nat, '<' ∉ k.repr.toList := by
    intro k hk
    exact absurd (Text.isDigit_repr k _ hk) (by decide)
  cases n with
  | ofNat k => exact hnat k
  | negSucc k =>
    show '<' ∉ ("-" ++ (k + 1).repr).toList
    rw [String.toList_append, List.mem_append]
    rintro (h | h)
    · exact absurd h (by decide)
    · exact hnat _ h

theorem reads_integerConstant (n : Int) : Reads c (.integerConstant n) where
  legible := .field "integer-constant" (by decide) (isPlain_repr n)
  formula := rfl

theorem reads_of_isTerm (h : IsTerm f) : Reads c f := by
  cases h with
  | tokenCount h => exact reads_tokenCount h
  | integerConstant n => exact reads_integerConstant n

theorem reads_of_isBoundAtom (h : IsBoundAtom f) : Reads c f := by
  cases h with
  | isFireable h => exact reads_isFireable h
  | leq hf hg =>
    refine reads_node .leq rfl rfl rfl ?_
    exact List.forall_mem_cons.mpr ⟨reads_of_isTerm hf, List.forall_mem_singleton.mpr (reads_of_isTerm hg)⟩

/-- A bound formula can be read back. -/
theorem reads_of_bound (h : c.Bound scope f) : Reads c f := by
  have one : ∀ {f : Formula}, Reads c f → ∀ g ∈ [f], Reads c g := fun hf => List.forall_mem_singleton.mpr hf
  induction h with
  | atom h => exact reads_of_isBoundAtom h
  | not _ ih => exact reads_node .not rfl rfl rfl (one ih)
  | connective hsymbol _ _ _ ih =>
    rcases List.mem_pair.mp hsymbol with rfl | rfl
    · exact reads_node .and rfl rfl rfl ih
    · exact reads_node .or rfl rfl rfl ih
  | quantified hsymbol _ ih =>
    rcases List.mem_pair.mp hsymbol with rfl | rfl
    · exact reads_node .allPaths rfl rfl rfl (one ih)
    · exact reads_node .existsPath rfl rfl rfl (one ih)
  | along hsymbol _ ih =>
    simp only [List.mem_cons, List.not_mem_nil, or_false] at hsymbol
    rcases hsymbol with rfl | rfl | rfl
    · exact reads_node .globally rfl rfl rfl (one ih)
    · exact reads_node .eventually rfl rfl rfl (one ih)
    · exact reads_node .next rfl rfl rfl (one ih)
  | strongUntil _ _ hf hg => exact reads_strongUntil hf hg

/-- The text of a bound formula tells which formula it is and where it ends. -/
theorem xml_append_injective {g : Formula} {scope' : Scope} (hf : c.Bound scope f) (hg : c.Bound scope' g)
    {level : Nat} {rest rest' : List Char} (h : (f.xml level).toList ++ rest = (g.xml level).toList ++ rest') :
    f = g ∧ rest = rest' := by
  have hreads := reads_of_bound hf
  have hreads' := reads_of_bound hg
  rw [← render_element, ← render_element] at h
  obtain ⟨helement, hrest⟩ := Element.render_append_injective hreads.legible hreads'.legible h
  rw [← hreads.formula, ← hreads'.formula, helement]
  exact ⟨rfl, hrest⟩

end Formula

/-! ### Property files -/

namespace PropertySet
open Formula (enclosed inlined)

/-- The formulas with their ids, in order. -/
def entries (s : PropertySet) : List (String × Formula) := s.formulas.mapIdx fun i f => (s.id i, f)

variable {c : Catalog} {f g : Formula} {fs gs : List Formula} {id id' : String}

/-- Around the id and the formula all properties have the same lines. -/
theorem toList_propertyText (id : String) (f : Formula) (rest : List Char) :
    (propertyText id f).toList ++ rest =
      (line 1 "<property>" ++ margin 2 ++ "<id>").toList ++ (id.toList ++ "</id>".toList ++ '\n' ::
        ((line 2 (inlined "description" description) ++ line 2 "<formula>").toList ++ ((f.xml 3).toList ++
          ((line 2 "</formula>" ++ line 1 "</property>").toList ++ rest)))) := by
  simp [propertyText, enclosed, inlined, line]

theorem propertyText_append_injective {scope scope' : Scope} (hf : c.Bound scope f) (hg : c.Bound scope' g)
    (hid : id = id' ∨ '\n' ∉ id.toList ∧ '\n' ∉ id'.toList) {rest rest' : List Char}
    (h : (propertyText id f).toList ++ rest = (propertyText id' g).toList ++ rest') :
    id = id' ∧ f = g ∧ rest = rest' := by
  rw [toList_propertyText, toList_propertyText, List.append_cancel_left_eq] at h
  have hsame : id = id' := by
    refine hid.elim (fun hid => hid) fun ⟨hline, hline'⟩ => ?_
    have closed : ∀ {id : String}, '\n' ∉ id.toList → '\n' ∉ id.toList ++ "</id>".toList := by
      intro id hline hmem
      exact (List.mem_append.mp hmem).elim hline (by decide)
    obtain ⟨htext, -⟩ := Element.append_cons_injective (closed hline) (closed hline') h
    exact String.toList_inj.mp (List.append_cancel_right htext)
  subst hsame
  rw [List.append_cancel_left_eq, List.cons.injEq, List.append_cancel_left_eq] at h
  obtain ⟨rfl, hrest⟩ := Formula.xml_append_injective hf hg h.2
  exact ⟨rfl, rfl, List.append_cancel_left hrest⟩

/-- The properties of a file end where the set is closed, further to the left. So they are told apart one by one. -/
theorem properties_injective (hfs : ∀ f ∈ fs, c.Bound .state f) (hgs : ∀ g ∈ gs, c.Bound .state g)
    {ids ids' : Nat → String}
    (hids : ∀ i, ids i = ids' i ∨ '\n' ∉ (ids i).toList ∧ '\n' ∉ (ids' i).toList) {rest rest' : List Char}
    (h : (String.join (fs.mapIdx fun i f => propertyText (ids i) f)).toList ++ '<' :: rest =
      (String.join (gs.mapIdx fun i f => propertyText (ids' i) f)).toList ++ '<' :: rest') :
    fs.mapIdx (fun i f => (ids i, f)) = gs.mapIdx fun i f => (ids' i, f) := by
  have further : ∀ {id : String} {f : Formula} {rest rest' : List Char},
      (propertyText id f).toList ++ rest ≠ '<' :: rest' := by
    intro id f rest rest' h
    rw [toList_propertyText] at h
    cases h
  induction fs generalizing gs ids ids' with
  | nil =>
    cases gs with
    | nil => rfl
    | cons g gs =>
      rw [List.mapIdx_cons, String.join_cons, String.toList_append, List.append_assoc] at h
      exact absurd h.symm further
  | cons f fs ih =>
    rw [List.mapIdx_cons, String.join_cons, String.toList_append, List.append_assoc] at h
    cases gs with
    | nil => exact absurd h further
    | cons g gs =>
      obtain ⟨hf, hothers⟩ := List.forall_mem_cons.mp hfs
      obtain ⟨hg, hothers'⟩ := List.forall_mem_cons.mp hgs
      rw [List.mapIdx_cons, String.join_cons, String.toList_append, List.append_assoc] at h
      obtain ⟨hid, hfirst, hrest⟩ := propertyText_append_injective hf hg (hids 0) h
      rw [List.mapIdx_cons, List.mapIdx_cons, hid, hfirst, ih hothers hothers' (fun i => hids (i + 1)) hrest]

/-- The lines above the properties. -/
def header : String := line 0 "<?xml version=\"1.0\"?>" ++ line 0 "<property-set xmlns=\"http://mcc.lip6.fr/\">"

theorem toList_xml (s : PropertySet) :
    s.xml.toList = header.toList ++
      ((String.join (s.formulas.mapIdx fun i f => propertyText (s.id i) f)).toList ++
        '<' :: "/property-set>\n".toList) := by
  have hxml : s.xml = header ++ String.join (s.formulas.mapIdx fun i f => propertyText (s.id i) f) ++
    line 0 "</property-set>" := rfl
  rw [hxml, String.toList_append, String.toList_append, List.append_assoc]
  rfl

/-- Files with the same text have the same ids and formulas, if the ids can be told. -/
theorem entries_eq_of_xml_eq {s s' : PropertySet} (hs : ∀ f ∈ s.formulas, c.Bound .state f)
    (hs' : ∀ f ∈ s'.formulas, c.Bound .state f)
    (hids : ∀ i, s.id i = s'.id i ∨ '\n' ∉ (s.id i).toList ∧ '\n' ∉ (s'.id i).toList) (h : s.xml = s'.xml) :
    s.entries = s'.entries := by
  have hlist := congrArg String.toList h
  rw [toList_xml, toList_xml] at hlist
  exact properties_injective hs hs' hids (List.append_cancel_left hlist)

theorem map_entries (s : PropertySet) : s.entries.map (·.2) = s.formulas := by
  refine List.ext_getElem (by simp [entries]) fun i _ _ => ?_
  simp [entries]

/-- The property file of a model determines its formulas. Whatever the model and the category are, the ids and the
    formulas can be recovered from the text alone. -/
theorem xml_determines_formulas (c : Catalog) :
    (∀ (model : ModelKey) (category : Category) (fs gs : List Formula), (∀ f ∈ fs, c.Bound .state f) →
      (∀ g ∈ gs, c.Bound .state g) → (xml ⟨model, category, fs⟩ = xml ⟨model, category, gs⟩ ↔ fs = gs)) ∧
    ∃ decode : String → List (String × Formula), ∀ (s : PropertySet) (dir : String),
      ModelKey.ofDirectoryName? dir = some s.model → (∀ f ∈ s.formulas, c.Bound .state f) →
        decode s.xml = s.formulas.mapIdx fun i f => (s.id i, f) := by
  constructor
  · intro model category fs gs hfs hgs
    constructor
    · intro h
      have hentries : entries ⟨model, category, fs⟩ = entries ⟨model, category, gs⟩ :=
        entries_eq_of_xml_eq hfs hgs (fun _ => .inl rfl) h
      have hformulas := congrArg (List.map (·.2)) hentries
      rwa [map_entries, map_entries] at hformulas
    · rintro rfl
      rfl
  · have hfactors : Function.FactorsThrough
        (fun s : { s : PropertySet // (∃ dir, ModelKey.ofDirectoryName? dir = some s.model) ∧
          ∀ f ∈ s.formulas, c.Bound .state f } => s.1.entries) fun s => s.1.xml := by
      rintro ⟨s, ⟨dir, hdir⟩, hs⟩ ⟨s', ⟨dir', hdir'⟩, hs'⟩ h
      exact entries_eq_of_xml_eq hs hs' (fun i => .inr ⟨newline_not_mem_id hdir i, newline_not_mem_id hdir' i⟩) h
    obtain ⟨decode, hdecode⟩ := (Function.factorsThrough_iff _).mp hfactors
    refine ⟨decode, fun s dir hdir hs => ?_⟩
    exact (congrFun hdecode ⟨s, ⟨dir, hdir⟩, hs⟩).symm

/-- Some path has the first property until the second one. -/
def untilOf (f g : Formula) : Formula := ⟨.fixed .existsPath 1, [⟨.fixed .strongUntil 2, [f, g]⟩]⟩

theorem untilOf_bound (hf : IsBoundAtom f) (hg : IsBoundAtom g) : c.Bound .state (untilOf f g) :=
  .quantified (by decide) (.strongUntil (.atom hf) (.atom hg))

/-- The sides of an until can be told, also where one of them speaks about nothing. -/
theorem untilOf_xml_determines :
    xml ⟨⟨"M", .placeTransition, "1"⟩, .ctlFireability, [untilOf (.isFireable ["t", "u"]) (.isFireable [])]⟩ ≠
      xml ⟨⟨"M", .placeTransition, "1"⟩, .ctlFireability, [untilOf (.isFireable []) (.isFireable ["t", "u"])]⟩ ∧
    ∃ decode : String → List (String × Formula),
      decode (xml ⟨⟨"M", .placeTransition, "1"⟩, .ctlFireability,
        [untilOf (.isFireable ["t", "u"]) (.isFireable [])]⟩) =
      [("M-PT-1-CTLFireability-00", untilOf (.isFireable ["t", "u"]) (.isFireable []))] := by
  have hplain : ∀ t ∈ ["t", "u"], IsPlain t := by
    intro t ht
    simp only [List.mem_cons, List.not_mem_nil, or_false] at ht
    rcases ht with rfl | rfl
    · exact (by decide : '<' ∉ "t".toList)
    · exact (by decide : '<' ∉ "u".toList)
  have hsome : IsBoundAtom (.isFireable ["t", "u"]) := .isFireable hplain
  have hnone : IsBoundAtom (.isFireable []) := .isFireable (List.forall_mem_nil _)
  have hbound := List.forall_mem_singleton.mpr (untilOf_bound (c := .ofBound 2) hsome hnone)
  have hbound' := List.forall_mem_singleton.mpr (untilOf_bound (c := .ofBound 2) hnone hsome)
  obtain ⟨hinjective, decode, hdecode⟩ := xml_determines_formulas (.ofBound 2)
  refine ⟨fun h => ?_, decode, hdecode ⟨⟨"M", .placeTransition, "1"⟩, _, _⟩ "M-PT-1" (by decide +kernel) hbound⟩
  have hsame := (hinjective _ _ _ _ hbound hbound').mp h
  exact absurd hsame (by decide)

end PropertySet
end Formulary
