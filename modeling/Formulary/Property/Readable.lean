import Formulary.Property.Set

/-! The property file for readers: formulas in infix form. -/

namespace Formulary
namespace Formula

/-- The names of the operands between double quotes, with commas between them. -/
def quotedNames (fs : List Formula) : String :=
  ", ".intercalate (fs.map fun f => "\"" ++ f.name ++ "\"")

def parenthesized (text : String) : String := "(" ++ text ++ ")"

mutual

/-- The infix form of a formula, such as `A (G ((is-fireable("t1")) & (! (tokens-count("p1") <= 3))))`. An
    operand that is missing is left out. -/
def readable : Formula → String
  | ⟨op, args⟩ =>
    let parts := readableAll args
    let first := parts.getD 0 ""
    let second := parts.getD 1 ""
    match op.symbol? with
    | some .allPaths | some .existsPath | some .globally | some .eventually | some .next =>
      op.name ++ " " ++ parenthesized first
    | some .not => "! " ++ parenthesized first
    | some .and => " & ".intercalate (parts.map parenthesized)
    | some .or => " | ".intercalate (parts.map parenthesized)
    | some .strongUntil => parenthesized first ++ " U " ++ parenthesized second
    | some .isFireable => "is-fireable" ++ parenthesized (quotedNames args)
    | some .tokenCount => "tokens-count" ++ parenthesized (quotedNames args)
    | some .leq => first ++ " <= " ++ second
    | some .integerConstant => (args.head?.map name).getD ""
    | some .atom | none => op.name

def readableAll : List Formula → List String
  | [] => []
  | f :: fs => readable f :: readableAll fs

end

end Formula

namespace PropertySet

/-- The entry of a formula with an id. -/
def entryText (id : String) (f : Formula) : String :=
  line 0 ("Property " ++ id) ++ line 1 ("\"" ++ description ++ "\"") ++ line 1 "is:" ++
    line 2 f.readable ++ line 1 "end."

/-- The property file for readers. -/
def readable (s : PropertySet) : String := String.join (s.formulas.mapIdx fun i f => entryText (s.id i) f)

end PropertySet
end Formulary
