import Formulary.Document.Value

/-! The tables of a document in TOML while it is read. A table may be opened once by its header; the tables on
    the way to it, and those that dotted keys lead through, come into being without one. -/

namespace Formulary
namespace Toml

inductive Node where
  | value (v : Value)
  /-- A table. It is implicit until it has a header of its own, and dotted if a dotted key made it. -/
  | table (isImplicit isDotted : Bool) (entries : List (String × Node))
  /-- A list of tables with headers. -/
  | tables (elements : List Node)

namespace Node

/-- A table that nothing but a path has named so far. -/
def fresh (isDotted : Bool) : Node := table true isDotted []

/-- The entries with that of `key` replaced, or added at the end. -/
def insert (key : String) (n : Node) : List (String × Node) → List (String × Node)
  | [] => [(key, n)]
  | (k, old) :: rest => if k = key then (k, n) :: rest else (k, old) :: insert key n rest

/-- Changes the table at the end of a path, making the tables on the way that are missing. A dotted path does
    not lead through a table with a header, and none leads through a value; a list of tables is entered at
    its last table. -/
def modifyAt (isDotted : Bool) (act : Node → Option Node) : List String → Node → Option Node
  | [], n => act n
  | key :: rest, table i d entries =>
    match entries.lookup key with
    | none => do
      let child ← modifyAt isDotted act rest (fresh isDotted)
      return table i d (entries ++ [(key, child)])
    | some (value _) => none
    | some (table i' d' entries') =>
      if isDotted && !i' then none
      else do
        let child ← modifyAt isDotted act rest (table i' d' entries')
        return table i d (insert key child entries)
    | some (tables elements) => do
      let last ← elements.getLast?
      let child ← modifyAt isDotted act rest last
      return table i d (insert key (tables (elements.dropLast ++ [child])) entries)
  | _ :: _, _ => none

/-- Adds an entry to a table. A key by itself does not add to a table that dotted keys made, and a dotted key
    only to such a table. -/
def addEntry (isDotted : Bool) (key : String) (v : Value) : Node → Option Node
  | table i d entries =>
    if d = isDotted ∧ (entries.lookup key).isNone then some (table i d (entries ++ [(key, value v)])) else none
  | _ => none

/-- Adds an entry under a key with the given parts to a table. -/
def assign (parents : List String) (key : String) (v : Value) (n : Node) : Option Node :=
  modifyAt true (addEntry (!parents.isEmpty) key v) parents n

/-- Gives a table its header. -/
def openTable (key : String) : Node → Option Node
  | table i d entries =>
    match entries.lookup key with
    | none => some (table i d (entries ++ [(key, table false false [])]))
    | some (table true false entries') => some (table i d (insert key (table false false entries') entries))
    | _ => none
  | _ => none

/-- Adds a table to a list of tables. -/
def openElement (key : String) : Node → Option Node
  | table i d entries =>
    match entries.lookup key with
    | none => some (table i d (entries ++ [(key, tables [table false false []])]))
    | some (tables elements) =>
      some (table i d (insert key (tables (elements ++ [table false false []])) entries))
    | _ => none
  | _ => none

mutual

/-- What a node holds once the document is read. -/
def toValue : Node → Value
  | value v => v
  | table _ _ entries => .table (entriesToValue entries)
  | tables elements => .list (elementsToValue elements)

def entriesToValue : List (String × Node) → List (String × Value)
  | [] => []
  | (key, n) :: rest => (key, toValue n) :: entriesToValue rest

def elementsToValue : List Node → List Value
  | [] => []
  | n :: rest => toValue n :: elementsToValue rest

end

end Node
end Toml
end Formulary
