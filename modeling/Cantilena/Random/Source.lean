import Cantilena.Number.Amount

/-!
# Sources of chance

A source gives numbers in the unit interval and picks among finitely many things; its state is
passed on. What draws from a source is written for every source.

* `Source` -- the two draws;
* `Drawing` -- what is drawn from a state of chance, or the fault it ended with; the draws made
  before a fault stay made;
* `Source.chance`, `Source.choose` -- a decision, and one of several values;
* `Source.weighted` -- one of several values by weight.
-/

namespace Cantilena

/-- The two draws from a state of chance. -/
structure Source (σ : Type) where
  /-- A number, by a fair source from 0 on and below 1. -/
  unit : σ → Float × σ
  /-- One of the first `n + 1` numbers, by a fair source always one of them. -/
  pick : (n : Nat) → σ → Option (Fin (n + 1)) × σ

/-- What is drawn from a state of chance, or the fault it ended with. -/
abbrev Drawing (σ : Type) := ExceptT Fault (StateM σ)

namespace Source

variable {σ α : Type} (src : Source σ)

/-! ## 1. Decisions and choices -/

/-- A draw of a number. -/
def draw : Drawing σ Float := ExceptT.lift src.unit

/-- A decision that falls for yes with a probability, whatever amount it is. -/
def chanceOf (probability : Amount) : Drawing σ Bool := do
  let x ← src.draw
  if probability.isNumber then return (Amount.real x).below probability else throw .wrongKind

/-- A decision that falls for yes with a probability. -/
def chance (probability : Float) : Drawing σ Bool := do
  return (← src.draw) < probability

/-- One of the first `n + 1` numbers as places of a collection of some kind. -/
def place (kind : String) (n : Nat) : Drawing σ (Fin (n + 1)) := do
  match ← ExceptT.lift (src.pick n) with
  | some i => return i
  | none => throw (.noSuchPlace kind)

/-- One of a first value and others that make up a collection of some kind. -/
def chooseFrom (kind : String) (first : α) (others : List α) : Drawing σ α := do
  let i ← src.place kind others.length
  return (first :: others).get i

/-- One of a first value and others in a list. -/
def choose (first : α) (others : List α) : Drawing σ α := src.chooseFrom "list" first others

/-- The numbers that are too many to be counted. -/
def countLimit : Int := 2 ^ 63

/-- One of the numbers from 0 on and below a bound. -/
def chooseBelow (bound : Int) : Drawing σ Int := do
  if bound ≤ 0 then throw .nothingToPick
  else if countLimit ≤ bound then throw .tooManyToCount
  else return ((← src.place "range object" (bound - 1).toNat).val : Int)

/-! ## 2. Choices by weight -/

/-- The value at which the weights added up reach a threshold, or else the last one. -/
def reach (threshold sum : Float) (first : α × Amount) : List (α × Amount) → Except Fault α
  | [] => (Amount.addTo sum first.2).map fun _ => first.1
  | second :: others => do
    let sum ← Amount.addTo sum first.2
    if sum ≥ threshold then return first.1 else reach threshold sum second others

/-- The weights added up from the left. -/
def total (options : List (α × Amount)) : Except Fault Amount :=
  options.foldlM (fun sum o => sum.plus o.2) (.whole 0)

/-- One of a first value and others, by weights with the sum that is given. -/
def weightedBy (sum : Amount) (first : α × Amount) (others : List (α × Amount)) :
    Drawing σ α := do
  let x ← src.draw
  let threshold ← sum.toFloat.map (x * ·)
  reach threshold 0.0 first others

/-- One of a first value and others, by weights that are known to add up. -/
def weightedFrom (first : α × Amount) (others : List (α × Amount)) : Drawing σ α := do
  src.weightedBy (← total (first :: others)) first others

/-- One of several values by weight. Without a value or with no weight nothing is drawn. -/
def weighted : List (α × Amount) → Drawing σ α
  | [] => throw .noOptions
  | first :: others => do
    let sum ← total (first :: others)
    if sum ≤ 0 then throw .noWeight else src.weightedBy sum first others

end Source

end Cantilena
