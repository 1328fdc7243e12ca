import Formulary.Document.Json
import Formulary.Run.Document
import Formulary.Severity

/-! The summary of a run, as a document and in a few lines. -/

namespace Formulary

/-- A task that came to nothing. -/
structure Failure where
  model : String
  error : String
deriving DecidableEq, Repr

structure Summary where
  started : String
  finished : String
  seed : UInt64
  discovery : DiscoveryReport
  outcomes : List ModelOutcome
  failures : List Failure
deriving Repr

namespace Failure

def toValue (f : Failure) : Value := .table [("model", .text f.model), ("error", .text f.error)]

end Failure

namespace Summary

def toValue (s : Summary) : Value := .table [
  ("started", .text s.started),
  ("finished", .text s.finished),
  ("seed", .nat s.seed.toNat),
  ("discovery", s.discovery.toValue),
  ("outcomes", .list (s.outcomes.map (·.toValue))),
  ("failures", .list (s.failures.map (·.toValue)))]

/-- A line with the tag of its severity in front. -/
def line (tag : Severity → String) (severity : Severity) (text : String) : String :=
  "[" ++ tag severity ++ "] " ++ text ++ "\n"

/-- The summary in lines, with tags written as `tag` says. -/
def report (s : Summary) (tag : Severity → String) : String :=
  let written := (s.outcomes.map (·.totalWritten)).foldr (· + ·) 0
  let unfiltered := (s.outcomes.map (·.totalRandomFill)).foldr (· + ·) 0
  let skipped := s.discovery.totalSkipped
  line tag .info (s.outcomes.length.repr ++ " jobs done, " ++ written.toNat.repr ++ " formulas written (" ++
      unfiltered.toNat.repr ++ " unfiltered)") ++
    (if skipped > 0 then line tag .warn (skipped.repr ++ " entries of the input directory skipped") else "") ++
    String.join (s.failures.map fun f => line tag .error (f.model ++ ": " ++ f.error))

end Summary
end Formulary
