import Cantilena.Number.Amount

/-!
# Quantities

Pitches and ticks are counted in whole numbers, but settings may ask for fractions. What is written
for both is written over a quantity: a kind of numbers with order and arithmetic, in which every
whole number has its place.

* `Quantity` -- such a kind of numbers; `Int` and `Amount` are two;
* `settled` -- a number that is not missing;
* `magnitude`, `direction`, `keepBetween` -- a number without its sign, its sign, and a number kept
  between two bounds.
-/

namespace Cantilena

/-- A kind of numbers with order and arithmetic, which holds the whole numbers. -/
class Quantity (ν : Type) extends
    Add ν, Sub ν, Neg ν, Mul ν, Div ν, Mod ν, BEq ν, LT ν, LE ν, IntCast ν where
  literal : (n : Nat) → OfNat ν n
  decidableLT : DecidableLT ν
  decidableLE : DecidableLE ν
  /-- A number as an amount. -/
  amount : ν → Amount
  /-- Whether a number is one of some whole numbers. -/
  isOneOf : ν → List Int → Bool

attribute [reducible, instance] Quantity.literal Quantity.decidableLT Quantity.decidableLE

instance : Quantity Int where
  literal _ := inferInstance
  decidableLT := inferInstance
  decidableLE := inferInstance
  amount := .whole
  isOneOf n set := n ∈ set

instance : Quantity Amount where
  literal _ := inferInstance
  decidableLT := inferInstance
  decidableLE := inferInstance
  amount a := a
  isOneOf a set := set.any fun n => a == .whole n

/-- A number kept between two bounds; what compares with neither is the upper one. -/
def keepBetween {α : Type} [LT α] [DecidableLT α] (low high x : α) : α :=
  let capped := if x < high then x else high
  if low < capped then capped else low

theorem keepBetween_eq (low high n : Int) : keepBetween low high n = max low (min high n) := by
  unfold keepBetween
  grind

variable {ν : Type} [Quantity ν]

/-- A number, or the cause for which there is none. -/
def settled (x : ν) : Except Fault ν :=
  match Quantity.amount x with
  | .missing cause => .error cause
  | _ => .ok x

@[simp] theorem settled_int (n : Int) : settled n = .ok n := rfl

/-- A number without its sign. -/
def magnitude (x : ν) : ν := if x < 0 then -x else x

/-- The sign of a number. -/
def direction (x : ν) : Int := (if 0 < x then 1 else 0) - (if x < 0 then 1 else 0)

theorem magnitude_eq (n : Int) : magnitude n = n.natAbs := by
  unfold magnitude
  split <;> omega

theorem direction_eq (n : Int) : direction n = n.sign := by
  unfold direction
  rcases Int.lt_trichotomy n 0 with h | h | h
  · simp [h, Int.sign_eq_neg_one_of_neg h, Int.not_lt.2 (Int.le_of_lt h)]
  · simp [h]
  · simp [h, Int.sign_eq_one_of_pos h, Int.not_lt.2 (Int.le_of_lt h)]

end Cantilena
