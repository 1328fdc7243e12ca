/-! How a model is named. A model has a name, a variant and an instance, and lives in a directory called
    `<name>-<COL|PT>-<instance>`. The name holds no dash, so the directory name determines the three. -/

namespace Formulary

inductive Variant where
  /-- Tokens carry values. -/
  | colored
  /-- A place/transition net: tokens are alike. -/
  | placeTransition
deriving DecidableEq, Repr

namespace Variant

def tag : Variant → String
  | colored => "COL"
  | placeTransition => "PT"

def ofTag? (s : String) : Option Variant := [colored, placeTransition].find? (·.tag = s)

/-- The name of the variant in reports. -/
def name : Variant → String
  | colored => "Colored"
  | placeTransition => "PlaceTransition"

def ofName? (s : String) : Option Variant := [colored, placeTransition].find? (·.name = s)

end Variant

structure ModelKey where
  name : String
  variant : Variant
  instanceName : String
deriving DecidableEq, Repr

namespace ModelKey

def fullName (k : ModelKey) : String := k.name ++ "-" ++ k.variant.tag ++ "-" ++ k.instanceName

/-- A character of the name of a model: an ASCII letter or digit, or an underscore. -/
def isNameChar (c : Char) : Bool := c.isAlphanum || c = '_'

/-- The text after `lead`, if `s` starts with it. -/
def after? (lead s : List Char) : Option (List Char) := if lead.isPrefixOf s then some (s.drop lead.length) else none

/-- The variant and the instance in what follows the name. -/
def variantAndInstance? (s : List Char) : Option (Variant × List Char) :=
  match after? ['-', 'C', 'O', 'L', '-'] s, after? ['-', 'P', 'T', '-'] s with
  | some rest, _ => some (.colored, rest)
  | none, some rest => some (.placeTransition, rest)
  | none, none => none

/-- Reads the name of a directory. The name of the model and its instance are not empty, and the instance is
    a single line. -/
def ofDirectoryName? (s : String) : Option ModelKey :=
  let name := s.toList.takeWhile isNameChar
  match variantAndInstance? (s.toList.dropWhile isNameChar) with
  | some (variant, rest) =>
    if name ≠ [] ∧ rest ≠ [] ∧ '\n' ∉ rest then some ⟨String.ofList name, variant, String.ofList rest⟩ else none
  | none => none

end ModelKey
end Formulary
