/-! What structured documents hold, whatever notation they are written in. -/

namespace Formulary

inductive Value where
  | null
  | bool (b : Bool)
  | int (n : Int)
  /-- A number that is not written as a whole number. -/
  | real (written : String)
  | text (s : String)
  | list (elements : List Value)
  /-- Entries in the order of the document. A key may come twice. -/
  | table (entries : List (String × Value))
deriving Inhabited, Repr

namespace Value

def ofOption {α : Type} (value : α → Value) : Option α → Value
  | none => null
  | some a => value a

def nat (n : Nat) : Value := int n

end Value
end Formulary
