import Formulary.Formula.Basic
import Mathlib

/-! What formulas mean. A formula is read in a Kripke structure whose states have tokens on places and transitions
    that are fireable. A state formula holds in some of the states, and a path formula along some of the paths; a path
    ends only in a state without successors. Every operator combines what its operands mean, so the meaning of a
    formula is a fold. -/

namespace Formulary

variable {σ : Type}

/-- A Kripke structure over the states `σ`. -/
structure Kripke (σ : Type) where
  /-- The second state is a successor of the first. -/
  next : σ → σ → Prop

/-- What is so in every state. -/
structure Valuation (σ : Type) where
  tokens : σ → String → Nat
  fireable : σ → String → Prop

/-- A sequence of states, which may end. -/
abbrev StatePath (σ : Type) := Nat → Option σ

/-- What a node of a formula contributes to the meaning of the nodes above. -/
structure Meaning (σ : Type) where
  name : String
  number : σ → Int
  holds : σ → Prop
  along : StatePath σ → Prop

namespace Kripke
variable (K : Kripke σ) (v : Valuation σ)

/-- The path starts in `s` and goes on as long as there are successors. -/
structure IsPath (s : σ) (π : StatePath σ) : Prop where
  start : π 0 = some s
  step : ∀ i a b, π i = some a → π (i + 1) = some b → K.next a b
  maximal : ∀ i a, π i = some a → π (i + 1) = none → ∀ b, ¬K.next a b
  ended : ∀ i, π i = none → π (i + 1) = none

/-- What a node means when its operands mean `below`. -/
def combine (op : Operator) (below : List (Meaning σ)) : Meaning σ where
  name := op.name
  number s :=
    match op.symbol?, below with
    | some .tokenCount, _ => ((below.map (·.name)).map (v.tokens s)).sum
    | some .integerConstant, [x] => x.name.toInt?.getD 0
    | _, _ => 0
  holds s :=
    match op.symbol?, below with
    | some .isFireable, _ => ∃ t ∈ below.map (·.name), v.fireable s t
    | some .leq, [x, y] => x.number s ≤ y.number s
    | some .not, [x] => ¬x.holds s
    | some .and, _ => ∀ x ∈ below, x.holds s
    | some .or, _ => ∃ x ∈ below, x.holds s
    | some .allPaths, [x] => ∀ π, K.IsPath s π → x.along π
    | some .existsPath, [x] => ∃ π, K.IsPath s π ∧ x.along π
    | _, _ => False
  along π :=
    match op.symbol?, below with
    | some .globally, [x] => ∀ i s, π i = some s → x.holds s
    | some .eventually, [x] => ∃ i s, π i = some s ∧ x.holds s
    | some .next, [x] => ∃ s, π 1 = some s ∧ x.holds s
    | some .strongUntil, [x, y] =>
      ∃ i s, π i = some s ∧ y.holds s ∧ ∀ j < i, ∀ r, π j = some r → x.holds r
    | _, _ => False

def meaning : Formula → Meaning σ := Formula.fold (K.combine v)

/-- The state formula holds in `s`. -/
def Holds (f : Formula) (s : σ) : Prop := (K.meaning v f).holds s

/-- The path formula holds along `π`. -/
def HoldsAlong (p : Formula) (π : StatePath σ) : Prop := (K.meaning v p).along π

variable {K v}

theorem meaning_mk (op : Operator) (args : List Formula) :
    K.meaning v ⟨op, args⟩ = K.combine v op (args.map (K.meaning v)) :=
  Formula.fold_mk _ op args

theorem name_meaning (f : Formula) : (K.meaning v f).name = f.name := by
  cases f with
  | mk op args =>
    rw [meaning_mk]
    rfl

theorem map_name_meaning (fs : List Formula) : (fs.map (K.meaning v)).map (·.name) = fs.map (·.name) := by
  rw [List.map_map]
  exact List.map_congr_left fun f _ => name_meaning f

/-- Only leaves over identifiers depend on what is so in the states. -/
theorem combine_valuation {op : Operator} (hfireable : op.symbol? ≠ some .isFireable)
    (hcount : op.symbol? ≠ some .tokenCount) (v v' : Valuation σ) (below : List (Meaning σ)) :
    K.combine v op below = K.combine v' op below := by
  cases hsymbol : op.symbol? with
  | none => simp only [combine, hsymbol]
  | some symbol =>
    cases symbol with
    | isFireable => exact absurd hsymbol hfireable
    | tokenCount => exact absurd hsymbol hcount
    | _ =>
      -- what the other symbols mean may depend on the number of operands
      rcases below with _ | ⟨x, _ | ⟨y, _ | ⟨z, below⟩⟩⟩ <;> simp only [combine, hsymbol]

end Kripke
end Formulary
