import Formulary.Property.Set

/-! The property file for checkers: one element per formula, one nested element per operator. -/

namespace Formulary

namespace Symbol

/-- The element of an operator whose operands are its children. -/
def element? : Symbol → Option String
  | allPaths => some "all-paths"
  | existsPath => some "exists-path"
  | not => some "negation"
  | and => some "conjunction"
  | or => some "disjunction"
  | globally => some "globally"
  | eventually => some "finally"
  | next => some "next"
  | leq => some "integer-le"
  | atom | strongUntil | isFireable | tokenCount | integerConstant => none

end Symbol

namespace Formula
open PropertySet (line)

/-- The lines `body` between the tags of an element. -/
def enclosed (level : Nat) (element body : String) : String :=
  line level ("<" ++ element ++ ">") ++ body ++ line level ("</" ++ element ++ ">")

/-- An element on one line. -/
def inlined (element text : String) : String := "<" ++ element ++ ">" ++ text ++ "</" ++ element ++ ">"

/-- One line per name, each in an element of its own. -/
def named (level : Nat) (element : String) (fs : List Formula) : String :=
  String.join (fs.map fun f => line level (inlined element f.name))

mutual

/-- The element of a formula. Only the first two operands of an until are shown, and only the first of a
    constant. A name without a meaning becomes a comment. -/
def xml (level : Nat) : Formula → String
  | ⟨op, args⟩ =>
    match op.symbol? with
    | some .strongUntil => enclosed level "until" (xmlUntil (level + 1) args)
    | some .integerConstant => line level (inlined "integer-constant" ((args.head?.map name).getD "0"))
    | some .isFireable => enclosed level "is-fireable" (named (level + 1) "transition" args)
    | some .tokenCount => enclosed level "tokens-count" (named (level + 1) "place" args)
    | some symbol =>
      match symbol.element? with
      | some element => enclosed level element (xmlAll (level + 1) args)
      | none => line level ("<!-- " ++ op.name ++ " -->")
    | none => line level ("<!-- " ++ op.name ++ " -->")

def xmlAll (level : Nat) : List Formula → String
  | [] => ""
  | f :: fs => xml level f ++ xmlAll level fs

/-- The two sides of an until. -/
def xmlUntil (level : Nat) : List Formula → String
  | [] => ""
  | [before] => enclosed level "before" (xml (level + 1) before)
  | before :: reach :: _ =>
    enclosed level "before" (xml (level + 1) before) ++ enclosed level "reach" (xml (level + 1) reach)

end

end Formula

namespace PropertySet
open Formula (enclosed inlined)

/-- The element of a formula with an id. -/
def propertyText (id : String) (f : Formula) : String :=
  enclosed 1 "property"
    (line 2 (inlined "id" id) ++ line 2 (inlined "description" description) ++ enclosed 2 "formula" (f.xml 3))

/-- The property file for checkers. -/
def xml (s : PropertySet) : String :=
  line 0 "<?xml version=\"1.0\"?>" ++ line 0 "<property-set xmlns=\"http://mcc.lip6.fr/\">" ++
    String.join (s.formulas.mapIdx fun i f => propertyText (s.id i) f) ++ line 0 "</property-set>"

end PropertySet
end Formulary
