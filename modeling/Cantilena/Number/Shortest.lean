import Cantilena.Number.Dyadic

/-!
# Decimal text of binary fractions

* `shortest` -- the decimal number with the fewest digits among those that read back as the
  given number, and the nearest of those;
* `floatText` -- its layout: positional from a ten-thousandth up to sixteen whole digits, with at
  least one digit on each side of the point, and otherwise with a signed exponent of at least
  two digits;
* `fixedText` -- a fixed number of decimal places, the last one rounded from the exact value,
  halves to the even neighbour.
-/

namespace Cantilena.Number

/-- The number `digits * 10 ^ scale`. -/
structure Decimal where
  digits : Nat
  scale : Int
  deriving DecidableEq, Repr, Inhabited

/-- The decimal digits of a natural number. -/
def decimalDigits (n : Nat) : List Char := Nat.toDigits 10 n

/-- The power of ten just above `num / den`: the least one that exceeds it. -/
def decimalOrder (num den : Nat) : Int :=
  if den ≤ num then (decimalDigits (num / den)).length
  else 1 - ((decimalDigits ((den - 1) / num)).length : Int)

/-- The quarters of a unit to the ends of the numbers that round to `d`, downward. Below the
    least number of an exponent the neighbour is only half a unit away. -/
def lowerQuarters (d : Dyadic) : Nat :=
  if d.units = 2 ^ 52 ∧ d.scale ≠ -1074 then 1 else 2

/-- The candidates for `d` on the grid of multiples of `10 ^ scale`: of its two neighbours there
    those that round to `d`, and of two such the nearer. -/
def onGrid (d : Dyadic) (scale : Int) : Option Decimal :=
  let unit := 2 ^ (d.scale - 2).toNat * 10 ^ (-scale).toNat
  let step := 10 ^ scale.toNat * 2 ^ (2 - d.scale).toNat
  let value := 4 * d.units * unit
  let low := (4 * d.units - lowerQuarters d) * unit
  let high := (4 * d.units + 2) * unit
  let even := d.units % 2 = 0
  let hits (n : Nat) : Bool :=
    (low < n * step || (even && low == n * step)) && (n * step < high || (even && n * step == high))
  let floor := value / step
  let below := value - floor * step
  let above := (floor + 1) * step - value
  match hits floor, hits (floor + 1) with
  | true, true =>
    if below < above then some ⟨floor, scale⟩
    else if above < below then some ⟨floor + 1, scale⟩
    else some ⟨floor + floor % 2, scale⟩
  | true, false => some ⟨floor, scale⟩
  | false, true => some ⟨floor + 1, scale⟩
  | false, false => none

/-- The shortest decimal number that reads back as `d`, for `d` other than zero. Seventeen digits
    always suffice. -/
def shortest (d : Dyadic) : Decimal :=
  let order := decimalOrder d.num d.den
  ((List.range 17).findSome? fun (n : Nat) => onGrid d (order - ((n : Int) + 1))).getD ⟨0, 0⟩

/-- The digits of a decimal number without zeros at the end, and the place of its point,
    counted from before the first digit. -/
def Decimal.significant (d : Decimal) : List Char × Int :=
  let digits := decimalDigits d.digits
  ((digits.reverse.dropWhile (· == '0')).reverse, digits.length + d.scale)

/-- A run of zeros. -/
def zeros (n : Nat) : List Char := List.replicate n '0'

/-- The text of an exponent: its sign and at least two digits. -/
def exponentText (e : Int) : List Char :=
  let digits := decimalDigits e.natAbs
  (if e < 0 then '-' else '+') :: (zeros (2 - digits.length) ++ digits)

/-- The layout of significant digits with their point at `point`. -/
def layout (digits : List Char) (point : Int) : List Char :=
  if -4 < point ∧ point ≤ 16 then
    if point ≤ 0 then '0' :: '.' :: (zeros (-point).toNat ++ digits)
    else
      let whole := point.toNat
      let places := digits.drop whole
      digits.take whole ++ zeros (whole - digits.length) ++ '.' ::
        (if places.isEmpty then ['0'] else places)
  else
    let mantissa := match digits with
      | first :: second :: rest => first :: '.' :: second :: rest
      | short => short
    mantissa ++ 'e' :: exponentText (point - 1)

/-- The shortest text that reads back as the given number. -/
def floatChars (x : Float) : List Char :=
  match Dyadic.ofFloat? x with
  | none =>
    if x.isNaN then ['n', 'a', 'n']
    else (if hasMinus x then ['-'] else []) ++ ['i', 'n', 'f']
  | some d =>
    (if hasMinus x then ['-'] else []) ++
      (if d.units = 0 then ['0', '.', '0']
      else let (digits, point) := (shortest d).significant; layout digits point)

/-- The shortest text that reads back as the given number, as a string. -/
def floatText (x : Float) : String := String.ofList (floatChars x)

/-- A number with a fixed number of decimal places. -/
def fixedChars (places : Nat) (x : Float) : List Char :=
  match Dyadic.ofFloat? x with
  | none => floatChars x
  | some d =>
    let scaled := roundQuotient (d.num * 10 ^ places) d.den
    let fraction := decimalDigits (scaled % 10 ^ places)
    (if hasMinus x then ['-'] else []) ++ decimalDigits (scaled / 10 ^ places) ++
      '.' :: (zeros (places - fraction.length) ++ fraction)

/-- A number with a fixed number of decimal places, as a string. -/
def fixedText (places : Nat) (x : Float) : String := String.ofList (fixedChars places x)

end Cantilena.Number
