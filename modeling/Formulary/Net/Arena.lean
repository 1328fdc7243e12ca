import Formulary.Net.Model

/-! A collection of models, each known by its position, and the links between the two variants of the same
    model. -/

namespace Formulary

structure Arena where
  models : List Model := []

/-- Why two models cannot be linked. -/
inductive LinkError where
  | sameVariant (a b : String)
  | differentModels (a b : String)
  | alreadyLinked (a b : String)
  /-- A position without a model. -/
  | unknown (position : Nat)
deriving DecidableEq, Repr

namespace LinkError

def message : LinkError → String
  | sameVariant a b => "cannot link " ++ a ++ " and " ++ b ++ ": twins need different variants"
  | differentModels a b => "cannot link " ++ a ++ " and " ++ b ++ ": twins need the same name and instance"
  | alreadyLinked a b => "cannot link " ++ a ++ " and " ++ b ++ ": one of them already has a twin"
  | unknown position => "no model at position " ++ position.repr

end LinkError

/-- A model to work on, together with its twin. -/
structure Task where
  model : Model
  twin : Option Model

namespace Arena

/-- The arena with one more model, which takes the next position. -/
def add (a : Arena) (m : Model) : Arena := ⟨a.models ++ [m]⟩

def size (a : Arena) : Nat := a.models.length

def get? (a : Arena) (i : Nat) : Option Model := a.models[i]?

/-- Changes the model at a position. -/
def modify (a : Arena) (i : Nat) (f : Model → Model) : Arena := ⟨a.models.modify i f⟩

/-- Makes two models each other's twin. They are the variants of one model and have no twins yet. -/
def link (a : Arena) (i j : Nat) : Except LinkError Arena :=
  match a.get? i, a.get? j with
  | none, _ => .error (.unknown i)
  | _, none => .error (.unknown j)
  | some m, some n =>
    if i = j ∨ m.key.variant = n.key.variant then .error (.sameVariant m.fullName n.fullName)
    else if m.key.name ≠ n.key.name ∨ m.key.instanceName ≠ n.key.instanceName then
      .error (.differentModels m.fullName n.fullName)
    else if m.twin.isSome ∨ n.twin.isSome then .error (.alreadyLinked m.fullName n.fullName)
    else .ok ((a.modify i ({ · with twin := some j })).modify j ({ · with twin := some i }))

/-- The task that the model at a position leads, taken from the models that are `left`, and what is left then. An
    uncolored model with a twin leads none: it belongs to the task of its twin. -/
def takeTask (left : List (Option Model)) (i : Nat) : Option Task × List (Option Model) :=
  match left[i]?.join with
  | none => (none, left)
  | some m =>
    if !m.isColored && m.twin.isSome then (none, left)
    else
      let left := left.set i none
      match m.twin with
      | none => (some ⟨m, none⟩, left)
      | some j => (some ⟨m, left[j]?.join⟩, left.set j none)

/-- The tasks that the models at some positions lead, in turn. -/
def takeTasks : List Nat → List (Option Model) → List Task
  | [], _ => []
  | i :: positions, left =>
    let (task, left) := takeTask left i
    task.toList ++ takeTasks positions left

/-- The models as tasks, in the order of the models that lead them. -/
def tasks (a : Arena) : List Task := takeTasks (List.range a.size) (a.models.map some)

end Arena
end Formulary
