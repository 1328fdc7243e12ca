import Formulary.Filter.Oracle

/-! One round of filtering: a batch of formulas of a model is put to an oracle. The formulas of a colored model
    are asked about as formulas of its twin. -/

namespace Formulary

/-- What formulas of a model are checked against. -/
inductive Subject where
  /-- The model's own file. -/
  | direct (model : Model)
  /-- The file of the twin, after unfolding. -/
  | unfolded (colored twin : Model) (correspondence : Correspondence)
  /-- Nothing: a colored model without a twin. -/
  | withoutTwin (model : Model)
  /-- Nothing: a colored model that has no correspondence with its twin. -/
  | withoutCorrespondence (model : Model)

namespace Subject

/-- How formulas of `model` can be checked. -/
def ofModel (model : Model) (twin : Option Model) : Subject :=
  if !model.isColored then direct model
  else
    match twin, model.usableCorrespondence with
    | none, _ => withoutTwin model
    | some _, none => withoutCorrespondence model
    | some twin, some c => unfolded model twin c

/-- The model that the formulas are about. -/
def model : Subject → Model
  | direct m | unfolded m _ _ | withoutTwin m | withoutCorrespondence m => m

/-- Why there is nothing to check the formulas against, if that is so. -/
def obstacle? : Subject → Option String
  | direct _ | unfolded .. => none
  | withoutTwin _ => some "colored model without PT twin"
  | withoutCorrespondence _ => some "no usable correspondence with the PT twin"

/-- The question to ask about a batch, if there is anything to check it against. -/
def request? (s : Subject) (category : Category) (batch : List Formula) (target : Nat) : Option Request :=
  match s with
  | direct m => some ⟨m.file, ⟨m.key, category, batch⟩, target⟩
  | unfolded _ twin c => some ⟨twin.file, ⟨twin.key, category, batch.map (Formula.unfold c)⟩, target⟩
  | withoutTwin _ | withoutCorrespondence _ => none

/-- The positions of a batch of `size` formulas of the model that a reply keeps, in increasing order. -/
def kept (s : Subject) (size : Nat) (reply : Reply) : List Notice × List Nat :=
  match reply.verdict with
  | .error e => (reply.notices ++ [.roundAborted s.model.fullName e.message], [])
  | .ok positions =>
    let outside := positions.filter (size ≤ ·)
    let inside := (List.range size).filter positions.contains
    (reply.notices ++ outside.map (.indexOutOfRange · size) ++
      if inside = [] then [.nothingKept s.model.fullName] else [], inside)

/-- Puts a batch to an oracle. Without anything to check it against, all of the batch is kept. -/
def filter {σ : Type} (oracle : Oracle σ) (s : Subject) (category : Category) (batch : List Formula)
    (target : Nat) : StateM σ (List Notice × List Nat) :=
  match s.request? category batch target with
  | none => return ([], List.range batch.length)
  | some request => return s.kept batch.length (← oracle request)

end Subject
end Formulary
