import Formulary.Filter.Round
import Formulary.Formula.Sampling

/-! The course of the work on one model: the keystream that choices are made from, the state of the oracle,
    what was reported, and the files that were written. -/

namespace Formulary

structure Session (σ : Type) where
  stream : Keystream
  oracle : σ
  notices : List Notice := []
  /-- Paths and texts, in the order of writing. -/
  written : List (String × String) := []

/-- A part of the work on a model. What was done before a fault stays done. -/
abbrev Work (σ : Type) := ExceptT Fault (StateM (Session σ))

namespace Work
variable {σ α : Type}

def report (notices : List Notice) : Work σ Unit := modify fun s => { s with notices := s.notices ++ notices }

/-- Goes on with a result that is already there. -/
def settle {ε : Type} (result : Except ε α) : ExceptT ε (Work σ) α := ExceptT.mk (pure result)

/-- Makes random choices. -/
def generate (g : Generation α) : ExceptT GenerationError (Work σ) α :=
  ExceptT.mk <| ExceptT.mk fun s =>
    match g.run.run s.stream with
    | .ok (result, stream) => (.ok result, { s with stream })
    | .error fault => (.error fault, s)

/-- Asks the oracle and reports what there is to report. -/
def consult (question : StateM σ (List Notice × α)) : Work σ α := ExceptT.mk fun s =>
  let ((notices, answer), oracle) := question.run s.oracle
  (.ok answer, { s with oracle, notices := s.notices ++ notices })

/-- Notes that a file was written. -/
def wrote (path text : String) : Work σ Unit := modify fun s => { s with written := s.written ++ [(path, text)] }

end Work
end Formulary
