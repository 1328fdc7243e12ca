import Formulary.Filter.Oracle
import Formulary.Filter.Verdict
import Formulary.Property.Xml

/-! The oracle that asks an external checker. The properties are written to a file, the checker is started on
    it, and the properties it gives no answer for are kept. -/

namespace Formulary

/-- A program to start, with the text of the property file that its last argument names. -/
structure Launch where
  program : String
  arguments : List String
  properties : String
deriving DecidableEq, Repr

/-- What a program has done. -/
structure Completion where
  output : String
  errorOutput : String
  status : Nat
deriving DecidableEq, Repr

structure Checker where
  interpreter : String
  script : String
  /-- Where property files are written. -/
  directory : String
  maxStates : Nat
  /-- Tells the property files of one run of the library from those of another. -/
  tag : String

namespace Checker

/-- The path of the property file. -/
def propertyFile (c : Checker) : String := Path.join c.directory ("citili_" ++ c.tag ++ ".xml")

/-- How the checker is started for a request. -/
def launch (c : Checker) (request : Request) : Launch where
  program := c.interpreter
  arguments := [c.script, "--use10", "--max-states=" ++ c.maxStates.repr,
    "--mcc15-stop-after=" ++ request.target.repr, request.modelFile, c.propertyFile]
  properties := request.properties.xml

/-- Whether a program can be started with the words of a launch. -/
def startable (l : Launch) : Except FileError Unit :=
  if (l.program :: l.arguments).any (·.contains '\x00') then .error .nulInWord else .ok ()

/-- Reads what the checker has done. -/
def reply (request : Request) (done : Completion) : Reply :=
  let (failed, fields) :=
    Verdict.ofOutput (Verdict.positionField request.properties.model.instanceName) done.output.toList
  let said := (Text.returnedLines done.errorOutput.toList).map fun line => .checkerSaid (String.ofList line)
  if done.status = 0 then
    let (unreadable, positions) := Verdict.positions (Text.ofLines fields)
    ⟨.ok positions, said ++ failed ++ unreadable⟩
  else ⟨.error (.checkerFailed done.status), said ++ failed⟩

/-- The oracle of a checker, where `writable` says whether a file can be written and `start` what a program
    does when it is started. -/
def oracle (c : Checker) (writable : String → Except FileError Unit)
    (start : Launch → Except FileError Completion) : Oracle Unit := fun request => pure <|
  match writable c.propertyFile with
  | .error cause => { verdict := .error (.propertyFile c.propertyFile cause) }
  | .ok () =>
    match startable (c.launch request) *> start (c.launch request) with
    | .error cause => { verdict := .error (.notStarted c.interpreter c.script cause) }
    | .ok done => reply request done

end Checker
end Formulary
