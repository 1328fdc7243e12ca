import Formulary.Formula.Catalog
import Formulary.Formula.Category
import Formulary.Formula.DoubleNegation
import Formulary.Random.Draw

/-! Random formulas over a catalog, with placeholders for atoms. All randomness comes from the keystream, so
    the same seed and bounds give the same formula.

    Branching-time formulas are found by rejection: candidates are drawn until one uses an operator along
    paths and does not belong to the linear-time fragment. -/

namespace Formulary

/-- Why no formula can be made. -/
inductive GenerationError where
  /-- The model has no identifiers to build atoms of the kind from. -/
  | noCandidates (kind : AtomKind)
  /-- All formulas of this depth would be rejected. -/
  | depthTooSmall (depth least : Nat)
deriving DecidableEq, Repr

namespace GenerationError

def message : GenerationError → String
  | noCandidates .fireability => "no transition available for fireability atoms"
  | noCandidates .cardinality => "no place available for cardinality atoms"
  | depthTooSmall depth least =>
    "formula depth " ++ depth.repr ++ " is too small, CTL formulas need at least depth " ++ least.repr

end GenerationError

/-- A random computation that may find that no formula can be made. The words drawn until then stay drawn. -/
abbrev Generation := ExceptT GenerationError Draw

namespace Catalog
variable (c : Catalog)

/-- The bytes that a formula takes in the list of operands that it stands in. -/
def operandWidth : Nat := 72

/-- A random root from `operators`, over operands drawn as `operand` says. There must be room for the operands
    before the first of them is drawn. -/
def node (operators : List Operator) (operand : Operator → Draw Formula) : Draw Formula := do
  let op ← Draw.oneOf operators
  let arity ← Draw.count op.minArity op.maxArity
  Fault.reserve operandWidth arity
  return ⟨op, ← Draw.times arity (operand op)⟩

/-- A path formula over random state formulas. -/
def pathOver (state : Draw Formula) : Draw Formula := node c.pathOperators fun _ => state

/-- A random state formula; a placeholder at depth one and below. -/
def boolean : Nat → Draw Formula
  | 0 => return .atom
  | 1 => return .atom
  | d + 2 => node c.booleanOperators fun op =>
    if op.isOverBooleans then boolean (d + 1) else c.pathOver (boolean d)

/-- A random path formula. -/
def path (depth : Nat) : Draw Formula := c.pathOver (c.boolean (depth - 1))

/-- A random formula of placeholders and boolean connectives. -/
def state : Nat → Draw Formula
  | 0 => return .atom
  | 1 => return .atom
  | d + 2 => node c.stateOperators fun _ => state (d + 1)

/-! ### Branching time -/

/-- Below this depth no formula has an operator along paths. -/
def leastBranchingDepth : Nat := 2

def isBranching (f : Formula) : Bool := f.isInteresting && !f.isLinearTime

/-- The first acceptable candidate among the next `attempts`. -/
def firstBranching (depth : Nat) : (attempts : Nat) → Draw Formula
  | 0 => throw .endless
  | attempts + 1 => do
    let f ← c.boolean depth
    if isBranching f then return f else firstBranching depth attempts

/-- A number of attempts after which the keystream has come back to where it was: every attempt takes a
    word, there are `2 ^ 64` blocks of sixteen words, and a keystream is told by its block number and by how
    many words of the current block are left. Who is not served by then is never served. -/
def attemptLimit : Nat := 32 * UInt64.size

/-- A random branching-time formula without double negations. -/
def ctl (depth : Nat) : Generation Formula := do
  if depth < leastBranchingDepth then throw (.depthTooSmall depth leastBranchingDepth)
  let f ← c.firstBranching depth attemptLimit
  return f.removeDoubleNegations

/-! ### Reachability -/

/-- All reachable states have the property. -/
def always (f : Formula) : Formula := ⟨.fixed .allPaths 1, [⟨.fixed .globally 1, [f]⟩]⟩

/-- Some reachable state has the property. -/
def possibly (f : Formula) : Formula := ⟨.fixed .existsPath 1, [⟨.fixed .eventually 1, [f]⟩]⟩

/-- A random statement about reachable states without double negations. -/
def reachability (depth : Nat) : Draw Formula := do
  let f ← c.state depth
  let side ← Draw.position 2
  return (if side = 0 then always f else possibly f).removeDoubleNegations

/-- A random formula of a grammar. -/
def generate (grammar : Grammar) (depth : Nat) : Generation Formula :=
  match grammar with
  | .ctl => c.ctl depth
  | .reachability => liftM (c.reachability depth)

end Catalog
end Formulary
