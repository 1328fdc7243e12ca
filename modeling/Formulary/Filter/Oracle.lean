import Formulary.Files.Disk
import Formulary.Net.Model
import Formulary.Property.Set

/-! Oracles decide which formulas of a batch are worth keeping. An oracle may have a state of its own, and it
    may fail. -/

namespace Formulary

/-- The question put to an oracle: which of these properties of a model file to keep, at most `target` of
    them. -/
structure Request where
  modelFile : String
  properties : PropertySet
  target : Nat

/-- Why an oracle gives no answer. -/
inductive OracleError where
  | propertyFile (path : String) (cause : FileError)
  | notStarted (program script : String) (cause : FileError)
  | checkerFailed (status : Nat)
  /-- The oracle's own words. -/
  | other (reason : String)
deriving DecidableEq, Repr

namespace OracleError

/-- The error and its causes, the outermost first. -/
def chain : OracleError → List String
  | propertyFile path cause => ["failed to write property file: " ++ path, cause.message]
  | notStarted program script cause => ["failed to spawn checker: " ++ program ++ " " ++ script, cause.message]
  | checkerFailed status => ["checker exited with exit status: " ++ status.repr]
  | other reason => [reason]

def message (e : OracleError) : String := ": ".intercalate e.chain

end OracleError

/-- The positions of the formulas to keep, in any order and with any repetitions, and what there is to
    report. -/
structure Reply where
  verdict : Except OracleError (List Nat)
  notices : List Notice := []

/-- A way of answering requests, with a state of type `σ`. -/
abbrev Oracle (σ : Type) := Request → StateM σ Reply

namespace Oracle

/-- Keeps every formula. -/
def keepAll : Oracle Unit := fun request => return { verdict := .ok (List.range request.properties.formulas.length) }

end Oracle
end Formulary
