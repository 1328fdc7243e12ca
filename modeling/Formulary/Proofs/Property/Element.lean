import Formulary.Property.Xml
import Mathlib

/-! Elements as text. A block has its children between two lines with its tag, each child one level further to the
    right; a field has a text between its tags, on one line. The text of an element tells where it ends: blocks and
    fields have different tags, the text of a field ends at the next `<`, and the closing line of a block stands
    further to the left than its children. So no text of an element is the beginning of another one. -/

namespace Formulary

inductive Element where
  | block (tag : String) (children : List Element)
  | field (tag text : String)
  | comment (text : String)
deriving Repr

namespace Element

@[elab_as_elim, induction_eliminator]
theorem induct {motive : Element → Prop}
    (block : ∀ tag children, (∀ e ∈ children, motive e) → motive (.block tag children))
    (field : ∀ tag text, motive (.field tag text)) (comment : ∀ text, motive (.comment text)) (e : Element) :
    motive e :=
  @Element.rec motive (fun es => ∀ e ∈ es, motive e) block field comment
    (fun _ he => absurd he List.not_mem_nil)
    (fun _ _ he hes _ hd => (List.mem_cons.mp hd).elim (· ▸ he) (hes _)) e

/-! ### Writing elements -/

open PropertySet (line margin)
open Formula (enclosed inlined)

mutual

/-- The lines of an element. -/
def render (level : Nat) : Element → String
  | .block tag children => enclosed level tag (renderAll (level + 1) children)
  | .field tag text => line level (inlined tag text)
  | .comment text => line level ("<!-- " ++ text ++ " -->")

def renderAll (level : Nat) : List Element → String
  | [] => ""
  | e :: es => render level e ++ renderAll level es

end

theorem toList_margin (level : Nat) : (margin level).toList = List.replicate (3 * level) ' ' := by
  induction level with
  | zero => rfl
  | succ level ih =>
    rw [margin, String.toList_append, ih, Nat.mul_succ, Nat.add_comm, List.replicate_add]
    rfl

theorem toList_margin_succ (level : Nat) (rest : List Char) :
    (margin (level + 1)).toList ++ rest = (margin level).toList ++ ' ' :: ' ' :: ' ' :: rest := by
  rw [toList_margin, toList_margin, Nat.mul_succ, List.replicate_add, List.append_assoc]
  rfl

/-- An opening tag on a line of its own, the lines between the tags, and the closing tag. -/
theorem toList_enclosed (level : Nat) (tag body : String) (rest : List Char) :
    (enclosed level tag body).toList ++ rest =
      (margin level).toList ++ '<' :: (tag.toList ++ '>' :: '\n' :: (body.toList ++ ((margin level).toList ++
        '<' :: '/' :: (tag.toList ++ '>' :: '\n' :: rest)))) := by
  simp [enclosed, line]

theorem toList_inlined (level : Nat) (tag text : String) (rest : List Char) :
    (line level (inlined tag text)).toList ++ rest =
      (margin level).toList ++ '<' :: (tag.toList ++ '>' :: (text.toList ++
        '<' :: '/' :: (tag.toList ++ '>' :: '\n' :: rest))) := by
  simp [inlined, line]

/-! ### Reading them back -/

/-- A text that ends at the first character of a kind. -/
theorem append_cons_injective {a : Char} {s t u v : List Char} (hs : a ∉ s) (ht : a ∉ t)
    (h : s ++ a :: u = t ++ a :: v) : s = t ∧ u = v := by
  induction s generalizing t with
  | nil =>
    cases t with
    | nil => exact ⟨rfl, (List.cons.inj h).2⟩
    | cons c t =>
      obtain ⟨rfl, -⟩ := List.cons.inj h
      exact absurd List.mem_cons_self ht
  | cons c s ih =>
    cases t with
    | nil =>
      obtain ⟨rfl, -⟩ := List.cons.inj h
      exact absurd List.mem_cons_self hs
    | cons d t =>
      obtain ⟨rfl, htail⟩ := List.cons.inj h
      obtain ⟨rfl, rfl⟩ := ih (List.not_mem_of_not_mem_cons hs) (List.not_mem_of_not_mem_cons ht) htail
      exact ⟨rfl, rfl⟩

/-- The tags of fields. -/
def fieldTags : List String := ["integer-constant", "transition", "place"]

/-- Elements that can be read back. -/
inductive Legible : Element → Prop
  | block (tag : String) {children : List Element} (htag : '>' ∉ tag.toList) (hblock : tag ∉ fieldTags)
      (hchildren : ∀ e ∈ children, Legible e) : Legible (.block tag children)
  | field (tag : String) {text : String} (hfield : tag ∈ fieldTags) (htext : '<' ∉ text.toList) :
      Legible (.field tag text)

theorem not_mem_of_mem_fieldTags {tag : String} (h : tag ∈ fieldTags) : '>' ∉ tag.toList := by
  revert tag
  decide

/-- A child stands further to the right than what closes the block that it is in. -/
theorem render_append_ne {level : Nat} {e : Element} (he : e.Legible) (rest rest' : List Char) :
    (e.render (level + 1)).toList ++ rest ≠ (margin level).toList ++ '<' :: rest' := by
  intro h
  cases he with
  | block =>
    rw [render, toList_enclosed, toList_margin_succ, List.append_cancel_left_eq] at h
    cases h
  | field =>
    rw [render, toList_inlined, toList_margin_succ, List.append_cancel_left_eq] at h
    cases h

/-- The children of a block end where the block is closed, if each of them tells where it ends. -/
theorem renderAll_append_injective {level : Nat} {es es' : List Element} {rest rest' : List Char}
    (hes : ∀ e ∈ es, e.Legible) (hes' : ∀ e ∈ es', e.Legible)
    (hend : ∀ e ∈ es, ∀ {e' rest rest'}, e'.Legible →
      (e.render (level + 1)).toList ++ rest = (e'.render (level + 1)).toList ++ rest' → e = e' ∧ rest = rest')
    (h : (renderAll (level + 1) es).toList ++ ((margin level).toList ++ '<' :: rest) =
      (renderAll (level + 1) es').toList ++ ((margin level).toList ++ '<' :: rest')) : es = es' ∧ rest = rest' := by
  induction es generalizing es' with
  | nil =>
    cases es' with
    | nil =>
      obtain ⟨-, hrest⟩ := List.cons.inj (List.append_cancel_left h)
      exact ⟨rfl, hrest⟩
    | cons e' es' =>
      rw [renderAll, renderAll, String.toList_append, List.append_assoc] at h
      exact absurd h.symm (render_append_ne (hes' e' List.mem_cons_self) _ _)
  | cons e es ih =>
    rw [renderAll, String.toList_append, List.append_assoc] at h
    cases es' with
    | nil => exact absurd h (render_append_ne (hes e List.mem_cons_self) _ _)
    | cons e' es' =>
      obtain ⟨he', hothers'⟩ := List.forall_mem_cons.mp hes'
      obtain ⟨hfirst, hothersEnd⟩ := List.forall_mem_cons.mp hend
      rw [renderAll, String.toList_append, List.append_assoc] at h
      obtain ⟨rfl, hothers⟩ := hfirst he' h
      obtain ⟨rfl, rfl⟩ := ih (List.forall_mem_cons.mp hes).2 hothers' hothersEnd hothers
      exact ⟨rfl, rfl⟩

/-- The text of an element tells which element it is and where it ends. -/
theorem render_append_injective {level : Nat} {e e' : Element} {rest rest' : List Char} (he : e.Legible)
    (he' : e'.Legible) (h : (e.render level).toList ++ rest = (e'.render level).toList ++ rest') :
    e = e' ∧ rest = rest' := by
  -- by induction on the first element; what follows it is arbitrary, so it can be what follows a child in its block
  induction e generalizing level e' rest rest' with
  | block tag children ih =>
    cases he with
    | block _ htag hblock hchildren =>
      rw [render, toList_enclosed] at h
      cases he' with
      | @block _ children' htag' _ hchildren' =>
        rw [render, toList_enclosed, List.append_cancel_left_eq, List.cons.injEq] at h
        obtain ⟨hsame, hbody⟩ := append_cons_injective htag htag' h.2
        obtain rfl := String.toList_inj.mp hsame
        obtain ⟨rfl, hclose⟩ := renderAll_append_injective hchildren hchildren'
          (fun e he => ih e he (hchildren e he)) (List.cons.inj hbody).2
        obtain ⟨-, hrest⟩ := append_cons_injective htag htag (List.cons.inj hclose).2
        exact ⟨rfl, (List.cons.inj hrest).2⟩
      | @field _ text' hfield htext =>
        rw [render, toList_inlined, List.append_cancel_left_eq, List.cons.injEq] at h
        obtain ⟨hsame, -⟩ := append_cons_injective htag (not_mem_of_mem_fieldTags hfield) h.2
        obtain rfl := String.toList_inj.mp hsame
        exact absurd hfield hblock
  | field tag text =>
    cases he with
    | field _ hfield htext =>
      have htag := not_mem_of_mem_fieldTags hfield
      rw [render, toList_inlined] at h
      cases he' with
      | @block _ children' htag' hblock _ =>
        rw [render, toList_enclosed, List.append_cancel_left_eq, List.cons.injEq] at h
        obtain ⟨hsame, -⟩ := append_cons_injective htag htag' h.2
        obtain rfl := String.toList_inj.mp hsame
        exact absurd hfield hblock
      | @field _ text' hfield' htext' =>
        rw [render, toList_inlined, List.append_cancel_left_eq, List.cons.injEq] at h
        obtain ⟨hsame, hbody⟩ := append_cons_injective htag (not_mem_of_mem_fieldTags hfield') h.2
        obtain rfl := String.toList_inj.mp hsame
        obtain ⟨htexts, hclose⟩ := append_cons_injective htext htext' hbody
        obtain rfl := String.toList_inj.mp htexts
        obtain ⟨-, hrest⟩ := append_cons_injective htag htag (List.cons.inj hclose).2
        exact ⟨rfl, (List.cons.inj hrest).2⟩
  | comment => cases he

end Element
end Formulary
