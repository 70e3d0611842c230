import Cantilena.Number.Dyadic
import Cantilena.Text.Blank
import Cantilena.Text.Digit

/-!
# Reading numbers

* `wholeNumber` -- a sign or none and decimal digits of any script, single underscores allowed
  between two digits, blanks allowed around it, and no more than 4300 digits;
* `isWritable` -- whether a whole number can be written again under the same limit;
* `decimalNumber` -- the same with a fraction and an exponent, or the name of an infinity or of
  the number that is none;
* `scaledFloat` -- the binary floating-point number nearest to a decimal one.
-/

namespace Cantilena.Number

open Text (decimalValue isBlank)

/-- A blank that may stand around a number: any but the information separators. -/
def isMargin (c : Char) : Bool := isBlank c && !(0x1c ≤ c.toNat && c.toNat ≤ 0x1f)

/-- Reads on after a digit: the values of the digits read, the last first, and the rest. An
    underscore is read only between two digits; nothing is returned where it stands elsewhere. -/
def moreDigits (read : List Nat) : List Char → Option (List Nat × List Char)
  | [] => some (read, [])
  | '_' :: [] => none
  | '_' :: c :: rest =>
    match decimalValue c with
    | some d => moreDigits (d :: read) rest
    | none => none
  | c :: rest =>
    match decimalValue c with
    | some d => moreDigits (d :: read) rest
    | none => some (read, c :: rest)

/-- The digits at the front of a text, the last first, and the rest. -/
def leadingDigits : List Char → Option (List Nat × List Char)
  | [] => none
  | c :: rest => (decimalValue c).bind fun d => moreDigits [d] rest

/-- The number that digits write, the last digit first. -/
def ofReversedDigits : List Nat → Nat
  | [] => 0
  | d :: rest => 10 * ofReversedDigits rest + d

/-- The number that digits write, the first digit first. -/
def ofDigits (ds : List Nat) : Nat := ds.foldl (fun n d => 10 * n + d) 0

/-- The sign in front of a number: whether it is a minus, and the rest. -/
def leadingSign : List Char → Bool × List Char
  | '-' :: rest => (true, rest)
  | '+' :: rest => (false, rest)
  | s => (false, s)

/-- The most digits of a whole number that are read. -/
def mostDigits : Nat := 4300

/-- Whether a whole number has no more digits than are written. -/
def isWritable (n : Int) : Bool := n.natAbs < 10 ^ mostDigits

/-- The fault whose wording holds a whole number, or the one that says why it cannot. -/
def shows (n : Int) (cause : Fault) : Fault := if isWritable n then cause else .tooManyToWrite

/-- Reads a whole number. -/
def wholeNumber (text : List Char) : Except Fault Int :=
  let (minus, body) := leadingSign (text.dropWhile isMargin)
  match leadingDigits body with
  | none => .error (.notWhole text)
  | some (read, rest) =>
    if mostDigits < read.length then .error (.tooManyDigits read.length)
    else if rest.all isMargin then .ok (signed minus (ofDigits read.reverse))
    else .error (.notWhole text)

/-- The binary floating-point number nearest to `digits * 10 ^ scale`. Beyond four hundred places
    on either side all numbers are infinite or zero. -/
def scaledFloat (digits : Nat) (scale : Int) : Float :=
  if digits = 0 then 0.0
  else
    let order := (Nat.toDigits 10 digits).length + scale
    if 400 < order then 1.0 / 0.0
    else if order < -400 then 0.0
    else if 0 ≤ scale then Float.ofScientific (digits * 10 ^ scale.toNat) false 0
    else Float.ofScientific digits true (-scale).toNat

/-- The binary floating-point number nearest to a whole number. -/
def floatOfWhole (n : Int) : Except Fault Float :=
  if (Dyadic.nearest n.natAbs 1).overflows then .error .beyondFloat else .ok (Float.ofInt n)

/-- A text without the underscores that stand between two digits; nothing is returned where one
    stands elsewhere. -/
def dropUnderscores (afterDigit : Bool) : List Char → Option (List Char)
  | [] => some []
  | '_' :: [] => none
  | '_' :: c :: rest =>
    if afterDigit && c.isDigit then (dropUnderscores true rest).map (c :: ·) else none
  | c :: rest => (dropUnderscores c.isDigit rest).map (c :: ·)

/-- An exponent, if the text is one and nothing else. -/
def exponent? : List Char → Option Int
  | [] => some 0
  | e :: rest =>
    if e == 'e' || e == 'E' then
      let (minus, digits) := leadingSign rest
      if !digits.isEmpty && digits.all Char.isDigit then
        some (signed minus (ofDigits (digits.map fun c => c.toNat - 48)))
      else none
    else none

/-- A decimal number without sign in plain digits, if the text is one and nothing else. -/
def unsignedDecimal? (s : List Char) : Option Float :=
  let whole := s.takeWhile Char.isDigit
  let afterWhole := s.dropWhile Char.isDigit
  let (places, afterPlaces) := match afterWhole with
    | '.' :: rest => (rest.takeWhile Char.isDigit, rest.dropWhile Char.isDigit)
    | rest => ([], rest)
  if whole.isEmpty && places.isEmpty then none
  else (exponent? afterPlaces).map fun e =>
    scaledFloat (ofDigits ((whole ++ places).map fun c => c.toNat - 48)) (e - places.length)

/-- A number that is named and not written in digits. -/
def namedFloat? (s : List Char) : Option Float :=
  let name := String.ofList (s.map Char.toLower)
  if name == "inf" || name == "infinity" then some (1.0 / 0.0)
  else if name == "nan" then some (0.0 / 0.0)
  else none

/-- Decimal digits of any script as those of ASCII. -/
def plainDigit (c : Char) : Char :=
  match decimalValue c with
  | some d => Char.ofNat (48 + d)
  | none => c

/-- Reads a decimal number. -/
def decimalNumber (text : List Char) : Except Fault Float :=
  let bare := Text.dropEnd isMargin (text.dropWhile isMargin)
  let read : Option Float := do
    let plain ← dropUnderscores false (bare.map plainDigit)
    let (minus, body) := leadingSign plain
    let x ← (namedFloat? body).or (unsignedDecimal? body)
    return if minus then -x else x
  match read with
  | some x => .ok x
  | none => .error (.notDecimal text)

end Cantilena.Number
