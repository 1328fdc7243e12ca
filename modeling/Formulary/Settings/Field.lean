import Formulary.Document.Codec

/-! Reading and writing records as documents. A record is described by its fields, each with a name and a way
    to read and write it; what a document leaves out keeps its default. -/

namespace Formulary

/-- A field of a record of type `σ`. -/
structure Field (σ : Type) where
  name : String
  /-- The record with the field as a document gives it. -/
  assign : Dialect → Value → σ → Option σ
  /-- The field as a document has it. -/
  value : σ → Value

namespace Field
variable {σ α : Type}

/-- A field with a codec and the two ways to get at it. -/
def of (name : String) (c : Codec α) (get : σ → α) (set : α → σ → σ) : Field σ where
  name := name
  assign n v s := (c.decode n v).map (set · s)
  value s := c.encode (get s)

/-- The entries of a document for a record with the given fields: a table, or a list of the first fields in
    order. No entry may be unknown or come twice, and only a dialect that overlooks them has elements after that
    of the last field. -/
def entries? (fields : List (Field σ)) (n : Dialect) : Value → Option (List (String × Value))
  | .table entries =>
    let keys := entries.map (·.1)
    if keys.all (fun k => fields.any (·.name = k)) ∧ keys.Nodup then some entries else none
  | .list vs => if n.overlooksTail ∨ vs.length ≤ fields.length then some ((fields.map (·.name)).zip vs) else none
  | _ => none

/-- The record with one field as the entries give it; an entry that is null is as good as none. -/
def fill (n : Dialect) (entries : List (String × Value)) (s : σ) (f : Field σ) : Option σ :=
  match entries.lookup f.name with
  | none | some .null => some s
  | some v => f.assign n v s

/-- The record that a document gives, starting from the default one. -/
def load (fields : List (Field σ)) (default : σ) (n : Dialect) (v : Value) : Option σ := do
  let entries ← entries? fields n v
  fields.foldlM (fill n entries) default

/-- The record as a table. -/
def record (fields : List (Field σ)) (s : σ) : Value := .table (fields.map fun f => (f.name, f.value s))

/-- The codec of a record. -/
def codec (fields : List (Field σ)) (default : σ) : Codec σ where
  decode := load fields default
  encode := record fields

end Field
end Formulary
