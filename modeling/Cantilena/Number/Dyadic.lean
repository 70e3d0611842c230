import Cantilena.Fault
import Cantilena.Number.Power

/-!
# Dyadic numbers

A finite binary floating-point number is a whole number of units, each a power of two. This file
fixes that reading and the roundings built on it, all in exact whole-number arithmetic:

* `Dyadic.ofFloat?` -- the magnitude of a finite number;
* `roundQuotient` -- a quotient to the nearest whole number, halves to the even neighbour;
* `Dyadic.nearest` -- a quotient to 53 significant bits, halves to the even neighbour;
* `wholePart`, `nearestWhole` -- the whole number that is nearest toward zero, and the nearest.
-/

namespace Cantilena.Number

/-- The number `units * 2 ^ scale`. -/
structure Dyadic where
  units : Nat
  scale : Int
  deriving DecidableEq, Repr, Inhabited

namespace Dyadic

/-- The numerator over `den`. -/
def num (d : Dyadic) : Nat := d.units * 2 ^ d.scale.toNat

/-- A power of two, one unless the scale is negative. -/
def den (d : Dyadic) : Nat := 2 ^ (-d.scale).toNat

/-- The magnitude of a finite number. A number with the least exponent has no hidden bit. -/
def ofFloat? (x : Float) : Option Dyadic :=
  let bits := x.toBits.toNat
  let fraction : Nat := bits % 2 ^ 52
  let exponent : Nat := bits / 2 ^ 52 % 2 ^ 11
  if exponent = 2047 then none
  else if exponent = 0 then some ⟨fraction, -1074⟩
  else some ⟨2 ^ 52 + fraction, (exponent : Int) - 1075⟩

end Dyadic

/-- Whether the sign bit is set. -/
def hasMinus (x : Float) : Bool := x.toBits.toNat ≥ 2 ^ 63

/-- The whole number nearest to `num / den`; a half goes to the even neighbour. -/
def roundQuotient (num den : Nat) : Nat :=
  let q := num / den
  let r := num % den
  if 2 * r < den then q
  else if den < 2 * r then q + 1
  else q + q % 2

/-- The quotient `num / den` to 53 significant bits; a half goes to the even neighbour. -/
def Dyadic.nearest (num den : Nat) : Dyadic :=
  if num = 0 then ⟨0, 0⟩
  else
    let guess : Int := (num.log2 : Int) - den.log2
    let order := if den * 2 ^ guess.toNat ≤ num * 2 ^ (-guess).toNat then guess else guess - 1
    let scale := order - 52
    ⟨roundQuotient (num * 2 ^ (-scale).toNat) (den * 2 ^ scale.toNat), scale⟩

/-- Whether a number lies beyond the finite binary floating-point numbers. -/
def Dyadic.overflows (d : Dyadic) : Bool := 2 ^ 1024 * d.den ≤ d.num

/-- A magnitude with the sign of a number. -/
def signed (minus : Bool) (n : Nat) : Int := if minus then -(n : Int) else n

/-- The cause for which a number that is not finite has no whole number. -/
def notFinite (x : Float) : Fault := if x.isNaN then .wholeOfNaN else .wholeOfInfinity

/-- The whole part of a number, toward zero. -/
def wholePart (x : Float) : Except Fault Int :=
  match Dyadic.ofFloat? x with
  | some d => .ok (signed (hasMinus x) (d.num / d.den))
  | none => .error (notFinite x)

/-- The whole number nearest to a number; a half goes to the even neighbour. -/
def nearestWhole (x : Float) : Except Fault Int :=
  match Dyadic.ofFloat? x with
  | some d => .ok (signed (hasMinus x) (roundQuotient d.num d.den))
  | none => .error (notFinite x)

end Cantilena.Number
