import Formulary.Run.Session
import Formulary.Settings.Basic

/-! Choosing the formulas of a category for a model. Rounds of candidates are put to the oracle until there are
    enough or the rounds are used up; what is missing then is filled up with candidates that no oracle saw. -/

namespace Formulary

/-- What formulas are made with. -/
structure Workshop (σ : Type) where
  settings : Settings
  catalog : Catalog
  oracle : Oracle σ
  disk : Disk

/-- A batch of candidates, how many were wanted, the positions that the oracle kept, and the candidates that
    were taken. -/
structure Round where
  batch : List Formula
  target : Nat
  kept : List Nat
  taken : List Formula
deriving Repr

structure Selection where
  rounds : List Round := []
  /-- The formulas that no oracle saw. -/
  fill : List Formula := []
deriving Repr

namespace Selection

/-- The formulas kept by the oracle. -/
def accepted (s : Selection) : List Formula := s.rounds.flatMap (·.taken)

def formulas (s : Selection) : List Formula := s.accepted ++ s.fill

end Selection

namespace Workshop
variable {σ : Type} (w : Workshop σ)

/-- A fresh formula of a category. -/
def candidate (category : Category) (binder : Binder) : Generation Formula := do
  let f ← w.catalog.generate category.grammar w.settings.generation.formulaDepth.toNat
  binder.bind category.atomKind f

/-- `size` fresh formulas of a category. -/
def batch (category : Category) (binder : Binder) : (size : Nat) → Generation (List Formula)
  | 0 => return []
  | size + 1 => do
    let f ← w.candidate category binder
    return f :: (← batch category binder size)

/-- At most `left` rounds, until there are `count` formulas, `got` of which are there already. -/
def rounds (subject : Subject) (category : Category) (binder : Binder) (count : Nat) :
    (left got : Nat) → ExceptT GenerationError (Work σ) (List Round)
  | 0, _ => return []
  | left + 1, got => do
    let target ← Fault.difference count got
    if target = 0 then return []
    else
      let batch ← Work.generate (w.batch category binder w.settings.filter.setSize.toNat)
      let kept ← (Work.consult (subject.filter w.oracle category batch target) : Work σ (List Nat))
      let taken ← ((kept.take target).mapM (Fault.entry batch) : Except Fault (List Formula))
      return ⟨batch, target, kept, taken⟩ :: (← rounds subject category binder count left (got + taken.length))

/-- `count` formulas of a category. -/
def select (subject : Subject) (category : Category) (binder : Binder) (count : Nat) :
    ExceptT GenerationError (Work σ) Selection := do
  let limit := if w.settings.filter.setSize = 0 then 0 else w.settings.filter.maxRounds.toNat
  let rounds ← w.rounds subject category binder count limit 0
  let got := ({ rounds } : Selection).accepted.length
  let missing ← Fault.difference count got
  if missing = 0 then return { rounds }
  else
    (Work.report [.unfiltered missing category subject.model.fullName] : Work σ Unit)
    return { rounds, fill := ← Work.generate (w.batch category binder missing) }

end Workshop
end Formulary
