import Formulary.CommandLine.Arguments
import Formulary.CommandLine.Summary
import Formulary.Filter.Checker
import Formulary.Pool.Basic
import Formulary.Run.Task
import Formulary.Settings.Document

/-! A run from the command line: the models of a directory are found, the files of every task are made, each
    task with a keystream of its own, and a summary is left in the directory. -/

namespace Formulary

/-- What a run finds around it. -/
structure Surroundings where
  disk : Disk
  /-- What a program does when it is started. -/
  start : Launch → Except FileError Completion
  temporaryDirectory : String
  /-- Tells the property files of this run from those of others. -/
  tag : String
  started : String
  finished : String
  /-- The name of the log file, if one is asked for. -/
  logName : String
  /-- The answer goes to a terminal that shows colours. -/
  hasColours : Bool

/-- What a run leaves behind. -/
structure RunResult where
  status : Nat
  output : String := ""
  errorOutput : String := ""
  disk : Disk

/-- Why a run failed: the error and its causes, the outermost first. -/
structure RunError where
  outermost : String
  causes : List String := []
deriving DecidableEq, Repr

namespace RunError

def ofChain : List String → RunError
  | [] => ⟨"", []⟩
  | e :: causes => ⟨e, causes⟩

/-- The error with its causes below it, numbered if there are several. -/
def report (e : RunError) : String :=
  "Error: " ++ e.outermost ++
    (match e.causes with
    | [] => ""
    | [cause] => "\n\nCaused by:\n    " ++ cause
    | causes => "\n\nCaused by:" ++ String.join (causes.mapIdx fun i c => "\n    " ++ i.repr ++ ": " ++ c)) ++ "\n"

end RunError

/-- Why a run ended early. -/
inductive RunStop where
  | error (e : RunError)
  /-- The run broke down, which no task is to blame for. -/
  | fault (f : Fault)
deriving DecidableEq, Repr

namespace RunStop

/-- The exit status. -/
def status : RunStop → Nat
  | error _ => 1
  | fault _ => 101

def report : RunStop → String
  | error e => e.report
  | fault f => f.message ++ "\n"

end RunStop

namespace CommandLine

/-- What one task leaves: its outcome, why it failed or how it broke down, and the files it wrote. -/
structure TaskResult where
  outcome : Except Fault (Except TaskError ModelOutcome)
  written : List (String × String)

/-- The bytes that an outcome takes. What a task fails with, or breaks down with, fits into them. -/
def outcomeWidth : Nat := 144

/-- The work on the task at position `index`, with the keystream of the seed that many above the first. -/
def runTask (w : Workshop Unit) (index : Nat) (task : Task) : TaskResult :=
  let seed := w.settings.seed + UInt64.ofNat index
  let (outcome, session) := (w.run task).run.run.run { stream := .ofSeed seed, oracle := () }
  ⟨outcome, session.written⟩

/-- The disk with files written. -/
def writeAll (disk : Disk) (files : List (String × String)) : Disk :=
  files.foldl (fun d (path, text) => (d.write path text).toOption.getD d) disk

/-- The work on tasks in their order, the first of them at position `i`: each finds the files of those before it. Where
    slots work side by side a task finds the files that are there by then. -/
def runTasks (w : Workshop Unit) (i : Nat) : List Task → List TaskResult
  | [] => []
  | task :: tasks =>
    let result := runTask w i task
    result :: runTasks { w with disk := writeAll w.disk result.written } (i + 1) tasks

/-- What a task of the model `name` came to. -/
def settle (name : String) : Except JobPanic (Except TaskError ModelOutcome) → ModelOutcome ⊕ Failure
  | .ok (.ok outcome) => .inl outcome
  | .ok (.error e) => .inr ⟨name, e.message⟩
  | .error panic => .inr ⟨name, panic.report⟩

/-- What all tasks came to, in their order. The work on a task is the same in every slot, so the jobs only hand
    over what there is. -/
def collect (size : Nat) (results : List TaskResult) : List (Except JobPanic (Except TaskError ModelOutcome)) :=
  Pool.run size results fun _ _ result => result.outcome.mapError fun fault => .message fault.message

/-- What each of the tasks came to, with their results. -/
def settleAll (tasks : List Task) (results : List (Except JobPanic (Except TaskError ModelOutcome))) :
    List (ModelOutcome ⊕ Failure) :=
  (tasks.zip results).map fun (task, result) => settle task.model.fullName result

/-- The settings of a run. -/
def settings (disk : Disk) (a : Arguments) : Except RunError Settings := do
  let failed := "failed to load config: " ++ a.config.getD "<default>"
  let s ← (Settings.load disk a.config).mapError fun e => ⟨failed, e.chain⟩
  let s := a.apply s
  s.validate.mapError fun e => ⟨"invalid configuration", [e.message]⟩
  return s

/-- The path of the log file. -/
def logPath (name : String) : String := "./logs/" ++ name

/-- The disk with the log file, if one is asked for. -/
def openLog (disk : Disk) (s : Settings) (name : String) : Except RunError Disk := do
  if s.logger.enabled && s.logger.logFile then
    let disk ← (disk.makeHere "logs").mapError fun cause => ⟨"failed to create ./logs", [cause.message]⟩
    (disk.write (logPath name) "").mapError fun cause =>
      ⟨"failed to create log file: " ++ logPath name, [cause.message]⟩
  else return disk

/-- The oracle that the settings ask for. -/
def oracle (around : Surroundings) (disk : Disk) (s : Settings) : Oracle Unit :=
  if s.filter.enabled then
    let checker : Checker := {
      interpreter := s.filter.interpreter
      script := s.filter.checkerPath
      directory := s.filter.tmpDir.getD around.temporaryDirectory
      maxStates := s.filter.maxStates.toNat
      tag := around.tag }
    checker.oracle disk.writable around.start
  else Oracle.keepAll

/-- A step that may fail and changes the disk if it does not. -/
def step {α : Type} (f : Disk → Except RunError (α × Disk)) : ExceptT RunStop (StateM Disk) α :=
  ExceptT.mk fun disk =>
    match f disk with
    | .ok (a, disk) => (.ok a, disk)
    | .error e => (.error (.error e), disk)

/-- What the tasks of a run with settings are worked on with. -/
def workshop (around : Surroundings) (disk : Disk) (s : Settings) : Workshop Unit where
  settings := s
  catalog := .ofBound s.generation.maxArity.toNat
  oracle := oracle around disk s
  disk := disk

/-- The summary of a run, where `settled` is what each task came to. -/
def summarize (around : Surroundings) (s : Settings) (found : Discovery) (settled : List (ModelOutcome ⊕ Failure)) :
    Summary where
  started := around.started
  finished := around.finished
  seed := s.seed
  discovery := found.report
  outcomes := settled.filterMap Sum.getLeft?
  failures := settled.filterMap Sum.getRight?

/-- The path of the summary. -/
def summaryPath (s : Settings) : String := Path.join s.inputDir "summary.json"

/-- Leaves the summary in the input directory. -/
def leave (s : Settings) (summary : Summary) : ExceptT RunStop (StateM Disk) Summary := do
  let path := summaryPath s
  step fun disk => do
    let disk ← (disk.write path (Json.render 0 summary.toValue)).mapError fun cause =>
      ⟨"failed to write summary: " ++ path, [cause.message]⟩
    return ((), disk)
  return summary

/-- Reads the settings, opens the log and finds the models, on the disk with the log. -/
def commence (around : Surroundings) (a : Arguments) : ExceptT RunStop (StateM Disk) (Settings × Disk × Discovery) := do
  let s ← step fun disk => do return (← settings disk a, disk)
  step fun disk => do return ((), ← openLog disk s around.logName)
  step fun disk => do
    let found ← (Discovery.ofDirectory disk s.inputDir).mapError fun e => .ofChain e.chain
    return ((s, disk, found), disk)

/-- Makes the files of all models that were found, and the summary. -/
def finish (around : Surroundings) (s : Settings) (disk : Disk) (found : Discovery) :
    ExceptT RunStop (StateM Disk) Summary := do
  let tasks := found.arena.tasks
  let size := s.numWorkers.toNat
  ((Pool.reserve outcomeWidth size).mapError RunStop.fault : Except RunStop Unit)
  let done := runTasks (workshop around disk s) 0 tasks
  modify (writeAll · (done.flatMap (·.written)))
  leave s (summarize around s found (settleAll tasks (collect size done)))

/-- Makes the files of all models and the summary. -/
def make (around : Surroundings) (a : Arguments) : ExceptT RunStop (StateM Disk) Summary := do
  let (s, disk, found) ← commence around a
  finish around s disk found

/-- A run with the words of the command line. -/
def run (around : Surroundings) (words : List String) : RunResult :=
  match Arguments.read {} words with
  | .error (.page page) => { status := 0, output := page.text, disk := around.disk }
  | .error .usage => { status := 2, errorOutput := "error: invalid arguments\n", disk := around.disk }
  | .ok a =>
    match (make around a).run.run around.disk with
    | (.error stop, disk) => { status := stop.status, errorOutput := stop.report, disk }
    | (.ok summary, disk) =>
      { status := 0, output := summary.report (if around.hasColours then (·.colouredTag) else (·.tag)), disk }

end CommandLine
end Formulary
