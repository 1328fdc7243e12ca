import Formulary.Net.Correspondence
import Formulary.Net.Markup
import Formulary.Text.Blank
import Formulary.Text.Number

/-! What a model file tells about a net: the identifiers of its nodes in the order of the document, and the
    largest whole number among its initial markings. -/

namespace Formulary

/-- What a model file tells about a net. -/
structure NetSummary where
  places : List String
  transitions : List String
  /-- The largest whole number of the initial marking, if it has any. -/
  greatestMarking : Option Int
deriving DecidableEq, Repr

/-- Why a text is no model file. -/
inductive PnmlError where
  | missingId (kind : NodeKind)
  | noNet
deriving DecidableEq, Repr

namespace PnmlError

def message : PnmlError → String
  | missingId kind => kind.name ++ " element without id"
  | noNet => "not a PNML document: no net element found"

end PnmlError

namespace Pnml
open Markup

/-- What has been read so far. -/
structure Reading where
  places : List String := []
  transitions : List String := []
  greatestMarking : Option Int := none
  seenNet : Bool := false
  /-- The next text is that of an initial marking. -/
  inMarking : Bool := false
deriving DecidableEq, Repr

namespace Reading

def addNode (r : Reading) (kind : NodeKind) (id : String) : Reading :=
  match kind with
  | .place => { r with places := r.places ++ [id], inMarking := false }
  | .transition => { r with transitions := r.transitions ++ [id], inMarking := false }

/-- Takes the text of a marking into account; one that is no whole number says nothing. -/
def addMarking (r : Reading) (text : List Char) : Reading :=
  match Text.int64? (Text.trim text) with
  | some n => { r with greatestMarking := some (r.greatestMarking.elim n (max · n)), inMarking := false }
  | none => { r with inMarking := false }

end Reading

/-- The elements that matter. -/
inductive Element where
  | net
  | node (kind : NodeKind)
  | initialMarking
  | text
deriving DecidableEq, Repr

/-- The element that a tag name stands for. -/
def Element.ofName? (name : List Char) : Option Element :=
  if name = "net".toList then some .net
  else if name = "place".toList then some (.node .place)
  else if name = "transition".toList then some (.node .transition)
  else if name = "initialMarking".toList then some .initialMarking
  else if name = "text".toList then some .text
  else none

/-- Reads one piece. -/
def read (r : Reading) : Piece → Except PnmlError Reading
  | .opening tag data =>
    match Element.ofName? tag.name with
    | some .net => .ok { r with seenNet := true }
    | some (.node kind) =>
      match tag.attribute? "id".toList with
      | some id => .ok (r.addNode kind (String.ofList id))
      | none => .error (.missingId kind)
    | some .initialMarking => .ok { r with inMarking := !tag.isEmpty }
    | some .text => .ok (if r.inMarking then r.addMarking data else r)
    | none => .ok r
  | .other data => .ok (if "/initialMarking".toList.isPrefixOf data then { r with inMarking := false } else r)

/-- Reads a model file. It needs a net, and an id on every node. -/
def parse (s : String) : Except PnmlError NetSummary := do
  let r ← (pieces s.toList).foldlM read {}
  if r.seenNet then return ⟨r.places, r.transitions, r.greatestMarking⟩ else throw .noNet

end Pnml
end Formulary
