import Formulary.Formula.Basic
import Formulary.Formula.Category
import Formulary.Net.ModelKey

/-! The formulas of one category for one model, as they are handed out. Every formula has an id made of the
    names of the model and the category and of its position. -/

namespace Formulary

structure PropertySet where
  model : ModelKey
  category : Category
  formulas : List Formula
deriving Repr

namespace PropertySet

/-- A position with at least two digits. -/
def indexText (i : Nat) : String := if i < 10 then "0" ++ i.repr else i.repr

/-- `<name>-<COL|PT>-<instance>-<category>-<NN>` -/
def id (s : PropertySet) (i : Nat) : String :=
  s.model.fullName ++ "-" ++ s.category.name ++ "-" ++ indexText i

/-- What every property says about where it comes from. -/
def description : String := "Automatically generated by Citili 0.1.0"

/-- The space that texts are indented by, per level. -/
def margin : Nat → String
  | 0 => ""
  | n + 1 => "   " ++ margin n

/-- A line of text at an indentation level. -/
def line (level : Nat) (text : String) : String := margin level ++ text ++ "\n"

end PropertySet
end Formulary
