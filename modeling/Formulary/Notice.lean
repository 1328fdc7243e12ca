import Formulary.Formula.Category

/-! What the library reports as it works without failing: one constructor per event. -/

namespace Formulary

/-- The two kinds of nodes of a net. -/
inductive NodeKind where
  | place
  | transition
deriving DecidableEq, Repr

namespace NodeKind

def name : NodeKind → String
  | place => "place"
  | transition => "transition"

end NodeKind

inductive Notice where
  /-- A colored identifier unfolds into nothing. -/
  | unmapped (kind : NodeKind) (id : String)
  /-- An uncolored identifier is no unfolding. -/
  | unclaimed (kind : NodeKind) (id : String)
  /-- All colored identifiers of a kind unfold into nothing. -/
  | nothingMapped (kind : NodeKind)
  | notModelDirectory (entry : String)
  | noModelFile (entry : String)
  | duplicateModel (entry : String)
  | entriesSkipped (count : Nat)
  | twinIgnored (model reason : String)
  | unfoldingDisabled (model reason : String)
  /-- The oracle could not answer. -/
  | roundAborted (model reason : String)
  /-- The oracle named a formula that it was not asked about. -/
  | indexOutOfRange (index size : Nat)
  | nothingKept (model : String)
  /-- Formulas were added that no oracle has seen. -/
  | unfiltered (count : Nat) (category : Category) (model : String)
  /-- A line of the checker's error output. -/
  | checkerSaid (line : String)
  | stageFailed (stage : String) (status : Nat)
  | unreadableVerdict (line : String)
deriving DecidableEq, Repr

namespace Notice

def message : Notice → String
  | unmapped kind id =>
    "colored model has a " ++ kind.name ++ " not mapped to any PT " ++ kind.name ++ ": " ++ id
  | unclaimed kind id =>
    "PT model has a " ++ kind.name ++ " not unfolded from any colored " ++ kind.name ++ ": " ++ id
  | nothingMapped kind => "colored model has an empty set of mapped " ++ kind.name ++ "s"
  | notModelDirectory entry => "skipping " ++ entry ++ ": not a <name>-<COL|PT>-<instance> directory"
  | noModelFile entry => "skipping " ++ entry ++ ": no model.pnml"
  | duplicateModel entry => "skipping " ++ entry ++ ": duplicate model"
  | entriesSkipped count => "skipped " ++ count.repr ++ " entries of the input directory"
  | twinIgnored model reason => "ignoring twin " ++ model ++ ": " ++ reason
  | unfoldingDisabled model reason => "unfolding disabled for " ++ model ++ ": " ++ reason
  | roundAborted model reason => "filter round aborted for " ++ model ++ ": " ++ reason
  | indexOutOfRange index size => "oracle returned index " ++ index.repr ++ " for a batch of " ++ size.repr
  | nothingKept model => "filter round for " ++ model ++ " kept no formula"
  | unfiltered count category model =>
    count.repr ++ " " ++ category.name ++ " formulas for " ++ model ++ " were not filtered"
  | checkerSaid line => "checker stderr: " ++ line
  | stageFailed stage status => stage ++ " exited with exit status: " ++ status.repr
  | unreadableVerdict line => "skipping unparsable checker line: " ++ line

end Notice
end Formulary
