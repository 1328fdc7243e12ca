import Formulary.Document.Value

/-! Ways to read values of a type from documents, and to write them. -/

namespace Formulary

/-- The notation a document was written in, where it matters for its meaning. -/
inductive Dialect where
  | json
  | toml
deriving DecidableEq, Repr

namespace Dialect

/-- What stands behind the name of a case without contents when the case is written as a table. -/
def isNothing : Dialect → Value → Bool
  | json, .null => true
  | toml, .list [] | toml, .table [] => true
  | _, _ => false

/-- Whether a list that stands for a record may have more elements than the record has fields. -/
def overlooksTail : Dialect → Bool
  | json => false
  | toml => true

end Dialect

/-- A way to read and write values of a type. -/
structure Codec (α : Type) where
  decode : Dialect → Value → Option α
  encode : α → Value

namespace Codec

def bool : Codec Bool where
  decode _ v := match v with
    | .bool b => some b
    | _ => none
  encode := .bool

def text : Codec String where
  decode _ v := match v with
    | .text s => some s
    | _ => none
  encode := .text

/-- A number of 64 bits. -/
def word : Codec UInt64 where
  decode _ v := match v with
    | .int n => if 0 ≤ n ∧ n.toNat < UInt64.size then some (UInt64.ofNat n.toNat) else none
    | _ => none
  encode n := .int n.toNat

/-- A number of 64 bits with a sign. -/
def signed : Codec Int64 where
  decode _ v := match v with
    | .int n => if Int64.minValue.toInt ≤ n ∧ n ≤ Int64.maxValue.toInt then some (Int64.ofInt n) else none
    | _ => none
  encode n := .int n.toInt

/-- A case without contents, by its name. -/
def case {α : Type} (ofName? : String → Option α) (name : α → String) : Codec α where
  decode n v := match v with
    | .text s => ofName? s
    | .table [(s, contents)] => if n.isNothing contents then ofName? s else none
    | _ => none
  encode a := .text (name a)

/-- A count that fits into 64 bits. -/
def count : Codec Nat where
  decode d v := (word.decode d v).map UInt64.toNat
  encode := .nat

def list {α : Type} (c : Codec α) : Codec (List α) where
  decode n v := match v with
    | .list vs => vs.mapM (c.decode n)
    | _ => none
  encode as := .list (as.map c.encode)

/-- Something that may be left out. -/
def optional {α : Type} (c : Codec α) : Codec (Option α) where
  decode n v := match v with
    | .null => some none
    | v => (c.decode n v).map some
  encode := Value.ofOption c.encode

end Codec

namespace Value

/-- The entries of a document for a record with fields of the given names: a table, in which the names may not
    come twice and other names do not matter, or a list with one element per field. -/
def fields? (names : List String) : Value → Option (List (String × Value))
  | table entries =>
    let known := entries.filter fun e => names.contains e.1
    if (known.map (·.1)).Nodup then some known else none
  | list vs => if vs.length = names.length then some (names.zip vs) else none
  | _ => none

end Value
end Formulary
