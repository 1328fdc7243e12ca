import Formulary.Fault

/-! Running jobs in a fixed number of slots. Items wait in line; the submitter gives each a free slot, and while
    there is none it waits for a job to report over a channel that it is done. A job that breaks down reports
    that instead of a result and frees its slot too. Results are handed out in the order of the items. -/

namespace Formulary

/-- How a job broke down: with a message, or with something that is no text. -/
inductive Breakdown where
  | message (text : String)
  | unknown
deriving DecidableEq, Repr

/-- The report on a job that broke down. -/
structure JobPanic where
  index : Nat
  message : String
deriving DecidableEq, Repr

namespace JobPanic

def ofBreakdown (index : Nat) : Breakdown → JobPanic
  | .message text => ⟨index, text⟩
  | .unknown => ⟨index, "unknown panic payload"⟩

def report (p : JobPanic) : String := "job " ++ p.index.repr ++ " panicked: " ++ p.message

end JobPanic

/-- Jobs over items of type `α` with results of type `β`: a job gets its slot, its position and its item. -/
abbrev Job (α β : Type) := Nat → Nat → α → Except Breakdown β

/-- The state of a pool. -/
structure Pool (α β : Type) where
  /-- The number of slots. -/
  size : Nat
  /-- Positions and items of the jobs that have not started. -/
  waiting : List (Nat × α)
  /-- Slots from this one on were never used. -/
  fresh : Nat := 0
  /-- Slots that were used and are free again. -/
  freed : List Nat := []
  /-- Slots, positions and items of the jobs at work. -/
  running : List (Nat × Nat × α) := []
  /-- Slots, positions and results of the jobs whose report is not received. -/
  channel : List (Nat × Nat × Except JobPanic β) := []
  /-- The results received so far, by position. -/
  results : List (Option (Except JobPanic β))

namespace Pool
variable {α β : Type}

/-- The bytes that the number of a free slot takes. -/
def slotWidth : Nat := 8

/-- The bytes that a report takes in the channel, where the result of a job takes `width`: a stamp, the slot, the
    position and the result. -/
def reportWidth (width : Nat) : Nat := 24 + width

/-- Checks that there is room for what a pool with `size` slots sets up before it starts a job: the list of the free
    slots, and then the channel, which has a place for a report from every slot. -/
def reserve (width size : Nat) : Except Fault Unit := do
  Fault.reserve slotWidth (max size 1)
  Fault.reserve (reportWidth width) (max size 1)

/-- Before anything is started. There is always a slot. -/
def start (size : Nat) (items : List α) : Pool α β where
  size := max size 1
  waiting := items.mapIdx fun i item => (i, item)
  results := items.map fun _ => none

/-- The submitter starts the next job, if one waits and a slot is free. -/
def submit? (p : Pool α β) : Option (Pool α β) :=
  match p.waiting, p.freed with
  | [], _ => none
  | (i, item) :: waiting, slot :: freed => some { p with
      waiting
      freed
      running := p.running ++ [(slot, i, item)] }
  | (i, item) :: waiting, [] =>
    if p.fresh < p.size then some { p with
      waiting
      fresh := p.fresh + 1
      running := p.running ++ [(p.fresh, i, item)] }
    else none

/-- The job at a place among those at work ends and reports, if the channel has room. -/
def finish? (job : Job α β) (p : Pool α β) (place : Nat) : Option (Pool α β) :=
  match p.running[place]? with
  | none => none
  | some (slot, i, item) =>
    if p.channel.length < p.size then some { p with
      running := p.running.eraseIdx place
      channel := p.channel ++ [(slot, i, (job slot i item).mapError (JobPanic.ofBreakdown i))] }
    else none

/-- The submitter receives a report, if there is one. -/
def receive? (p : Pool α β) : Option (Pool α β) :=
  match p.channel with
  | [] => none
  | (slot, i, result) :: channel => some { p with
      channel
      freed := slot :: p.freed
      results := p.results.set i (some result) }

/-- One way on: jobs are started as soon as possible, and those that started first end first. -/
def next? (job : Job α β) (p : Pool α β) : Option (Pool α β) :=
  p.submit? <|> p.receive? <|> p.finish? job 0

/-- Goes on for a number of steps, as long as there is a way on. -/
def go (job : Job α β) : (steps : Nat) → Pool α β → Pool α β
  | 0, p => p
  | steps + 1, p =>
    match p.next? job with
    | some p => go job steps p
    | none => p

/-- Runs a job on every item with a number of slots. Every job is started, ends, and is received. -/
def run (size : Nat) (items : List α) (job : Job α β) : List (Except JobPanic β) :=
  (go job (3 * items.length) (start size items)).results.filterMap id

end Pool
end Formulary
