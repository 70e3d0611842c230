import Cantilena.Number.Numeral

/-!
# Amounts

An amount is a whole number, a binary floating-point number, or a number that is missing for some
cause. Whole numbers stay exact as long as they meet only whole numbers; a comparison is exact
whatever meets.

* `Amount.compare` -- how two amounts compare, if they do;
* `Amount.toFloat` -- an amount as a binary floating-point number;
* `Amount.settled` -- an amount that is not missing;
* `Amount.plus`, `Amount.times` -- sums and products, or the cause for which there is none.

The plain operations `+`, `-`, `*`, `/` and `%` are total: what has no result is missing, and so is
what is computed from it.
-/

namespace Cantilena

/-- A whole number, a binary floating-point number, or no number, for a cause. -/
inductive Amount
  | whole (n : Int)
  | real (x : Float)
  | missing (cause : Fault)
  deriving DecidableEq, Repr, Inhabited

namespace Amount

/-! ## 1. Comparisons -/

/-- How a whole number compares with a finite number or an infinity; not at all with what is no
    number. -/
def compareWhole (n : Int) (x : Float) : Option Ordering :=
  match Number.Dyadic.ofFloat? x with
  | some d => some (Ord.compare (n * d.den) (Number.signed (Number.hasMinus x) d.num))
  | none => if x.isNaN then none else some (if Number.hasMinus x then .gt else .lt)

/-- How two binary floating-point numbers compare. -/
def compareReal (x y : Float) : Option Ordering :=
  if x < y then some .lt else if y < x then some .gt else if x == y then some .eq else none

/-- How two amounts compare, if they do. -/
def compare : Amount → Amount → Option Ordering
  | .whole m, .whole n => some (Ord.compare m n)
  | .whole m, .real y => compareWhole m y
  | .real x, .whole n => (compareWhole n x).map Ordering.swap
  | .real x, .real y => compareReal x y
  | _, _ => none

/-- Whether an amount is below another. -/
def below (a b : Amount) : Bool := a.compare b == some .lt

/-- Whether an amount is at most another. -/
def atMost (a b : Amount) : Bool := a.below b || a.compare b == some .eq

/-- Whether two amounts are the same number. -/
def sameAs (a b : Amount) : Bool := a.compare b == some .eq

/-! ## 2. Conversions -/

/-- An amount as a binary floating-point number. -/
def toFloat : Amount → Except Fault Float
  | .whole n => Number.floatOfWhole n
  | .real x => .ok x
  | .missing cause => .error cause

/-- An amount that is a number, or the cause for which it is none. -/
def settled : Amount → Except Fault Amount
  | .missing cause => .error cause
  | a => .ok a

/-- The whole number an amount is. -/
def whole? : Amount → Option Int
  | .whole n => some n
  | _ => none

/-- Whether an amount is a number. -/
def isNumber : Amount → Bool
  | .missing _ => false
  | _ => true

/-! ## 3. Sums and products -/

/-- An operation on amounts that is exact on whole numbers. -/
def combine (onWhole : Int → Int → Int) (onReal : Float → Float → Float) : Amount → Amount → Amount
  | .whole m, .whole n => .whole (onWhole m n)
  | .missing cause, _ => .missing cause
  | _, .missing cause => .missing cause
  | a, b =>
    match a.toFloat, b.toFloat with
    | .ok x, .ok y => .real (onReal x y)
    | .error cause, _ => .missing cause
    | _, .error cause => .missing cause

/-- The sum of two amounts. -/
def plus (a b : Amount) : Except Fault Amount := (combine (· + ·) (· + ·) a b).settled

/-- The product of two amounts. -/
def times (a b : Amount) : Except Fault Amount := (combine (· * ·) (· * ·) a b).settled

/-- A binary floating-point number with an amount added to it. -/
def addTo (x : Float) (a : Amount) : Except Fault Float := do return x + (← a.toFloat)

/-- A binary floating-point number with an amount taken from it. -/
def takeFrom (x : Float) (a : Amount) : Except Fault Float := do return x - (← a.toFloat)

/-! ## 4. Total arithmetic -/

/-- Two finite numbers as whole numbers of one unit, and the exponent of that unit. -/
def inUnits (x y : Number.Dyadic) : Nat × Nat × Int :=
  let scale := min x.scale y.scale
  (x.units * 2 ^ (x.scale - scale).toNat, y.units * 2 ^ (y.scale - scale).toNat, scale)

/-- What is left of a number after as many whole multiples of another as it holds, all signs left
    aside; it has the sign of the first. A number that is finite holds no multiple of infinity. -/
def remainder (x y : Float) : Float :=
  match Number.Dyadic.ofFloat? x, Number.Dyadic.ofFloat? y with
  | some a, some b =>
    let (m, n, scale) := inUnits a b
    let rest := Float.scaleB (Float.ofNat (m % n)) scale
    if Number.hasMinus x then -rest else rest
  | some _, none => if y.isNaN then y else x
  | none, _ => 0.0 / 0.0

/-- Whether a remainder that is not zero has another sign than the divisor. -/
def pointsAway (rest y : Float) : Bool := rest != 0.0 && Number.hasMinus rest != Number.hasMinus y

/-- What is left of a number after the largest whole multiple of another that is not beyond it; it
    has the sign of the other one. -/
def floorMod (x y : Float) : Float :=
  let rest := remainder x y
  if rest == 0.0 then (if Number.hasMinus y then -0.0 else 0.0)
  else if pointsAway rest y then rest + y else rest

/-- The largest whole number that is not beyond a quotient. It is found from the quotient without
    the remainder, which is whole but for its rounding. -/
def floorDiv (x y : Float) : Float :=
  let rest := remainder x y
  let quotient := (x - rest) / y
  let quotient := if pointsAway rest y then quotient - 1.0 else quotient
  if quotient == 0.0 then (if Number.hasMinus (x / y) then -0.0 else 0.0)
  else
    let below := quotient.floor
    if 0.5 < quotient - below then below + 1.0 else below

instance : IntCast Amount := ⟨.whole⟩
instance (n : Nat) : OfNat Amount n := ⟨.whole n⟩
instance : Add Amount := ⟨combine (· + ·) (· + ·)⟩
instance : Sub Amount := ⟨combine (· - ·) (· - ·)⟩
instance : Mul Amount := ⟨combine (· * ·) (· * ·)⟩
instance : Div Amount := ⟨combine Int.fdiv floorDiv⟩
instance : Mod Amount := ⟨combine Int.fmod floorMod⟩
instance : BEq Amount := ⟨sameAs⟩
instance : LT Amount := ⟨fun a b => a.below b = true⟩
instance : LE Amount := ⟨fun a b => a.atMost b = true⟩
instance : DecidableLT Amount := fun a b => inferInstanceAs (Decidable (a.below b = true))
instance : DecidableLE Amount := fun a b => inferInstanceAs (Decidable (a.atMost b = true))

instance : Neg Amount where
  neg
    | .whole n => .whole (-n)
    | .real x => .real (-x)
    | .missing cause => .missing cause

theorem whole_lt_whole {m n : Int} : Amount.whole m < .whole n ↔ m < n := by
  show Amount.below _ _ = true ↔ _
  simp [below, compare, Int.compare_eq_lt]

end Amount

end Cantilena
