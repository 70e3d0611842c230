import Cantilena.Value

/-!
# Scalars of documents

A scalar without quotes is nothing, a truth value, a number or else a text, by how it is spelled.

* `wholeOf?` -- whole numbers in decimal, in base 2, 8 or 16 after `0b`, `0` or `0x`, or in base 60
  with a colon between the places;
* `realOf?` -- numbers with a point, infinities and the number that is none; the whole places may
  be in base 60 too;
* `scalarOf` -- the value of a scalar.

Underscores among the digits of a number are passed over.
-/

namespace Cantilena.Document

/-! ## 1. Numbers -/

/-- The value of a character as a digit; sixteen or more if it is none. -/
def digitValue (c : Char) : Nat :=
  if c.isDigit then c.toNat - 48
  else if 'a' ≤ c ∧ c ≤ 'f' then c.toNat - 87
  else if 'A' ≤ c ∧ c ≤ 'F' then c.toNat - 55
  else 16

/-- The number that digits of a base write. -/
def inBase (base : Nat) (digits : List Char) : Nat :=
  digits.foldl (fun n c => base * n + digitValue c) 0

/-- The number that digits behind a mark of their base write. There has to be a digit. -/
def marked? (base : Nat) (s : List Char) : Option (Except Fault Nat) :=
  let digits := s.filter (· != '_')
  if s.isEmpty || digits.any fun c => base ≤ digitValue c then none
  else if digits.isEmpty then some (.error (.notInBase base))
  else some (.ok (inBase base digits))

/-- The number that decimal digits write, no more of them than are read. -/
def decimal (digits : List Char) : Except Fault Nat :=
  if Number.mostDigits < digits.length then .error (.tooManyDigits digits.length)
  else .ok (inBase 10 digits)

/-- The parts of a text between colons. -/
def splitColons (s : List Char) : List (List Char) :=
  s.foldr (fun c parts => if c = ':' then [] :: parts else
    match parts with
    | [] => [[c]]
    | part :: rest => (c :: part) :: rest) [[]]

/-- Whether a text is a place of base 60 behind the first one. -/
def isSixtieth : List Char → Bool
  | [c] => c.isDigit
  | [c, d] => '0' ≤ c && c ≤ '5' && d.isDigit
  | _ => false

/-- The number that decimal digits in places of base 60 write. -/
def sexagesimal (parts : List (List Char)) : Except Fault Nat :=
  parts.foldlM (fun n part => (decimal part).map (60 * n + ·)) 0

/-- The whole number that a text without sign writes. -/
def magnitudeOf? : List Char → Option (Except Fault Nat)
  | ['0'] => some (.ok 0)
  | '0' :: 'b' :: rest => marked? 2 rest
  | '0' :: 'x' :: rest => marked? 16 rest
  | '0' :: rest =>
    let digits := rest.filter (· != '_')
    if rest.isEmpty || digits.any fun c => 8 ≤ digitValue c then none
    else some (.ok (inBase 8 digits))
  | s =>
    match splitColons s with
    | first :: rest =>
      let digits := first.filter (· != '_')
      if (first.headD '_').isDigit && digits.all Char.isDigit && rest.all isSixtieth then
        some (sexagesimal (digits :: rest))
      else none
    | [] => none

/-- The whole number that a text writes. -/
def wholeOf? (s : List Char) : Option (Except Fault Int) :=
  let (minus, body) := Number.leadingSign s
  (magnitudeOf? body).map (·.map (Number.signed minus))

/-- A digit, or an underscore among digits. -/
def isPlace (c : Char) : Bool := c.isDigit || c == '_'

/-- Whether a text is an exponent, which has a sign, or nothing. -/
def isExponent : List Char → Bool
  | [] => true
  | e :: sign :: digits =>
    (e == 'e' || e == 'E') && (sign == '+' || sign == '-') && !digits.isEmpty
      && digits.all Char.isDigit
  | _ => false

/-- Whether a text is a number with a point: it starts with a digit, or without a sign with the
    point and a digit. -/
def isReal (s : List Char) : Bool :=
  match s with
  | '.' :: c :: rest => c.isDigit && isExponent (rest.dropWhile isPlace)
  | _ =>
    let (_, body) := Number.leadingSign s
    (body.headD '.').isDigit &&
      match body.dropWhile isPlace with
      | '.' :: rest => isExponent (rest.dropWhile isPlace)
      | _ => false

/-- The number with a point whose whole places are in base 60: each place counts sixty times as
    much as the one behind it, the last one first. -/
def sexagesimalReal? (s : List Char) : Option Float :=
  match (splitColons s).reverse with
  | last :: place :: more =>
    let (whole, tail) := last.span Char.isDigit
    let first := ((place :: more).getLastD []).filter (· != '_')
    let middle := (place :: more).dropLast
    let firstOk := (((place :: more).getLastD []).headD '_').isDigit && first.all Char.isDigit
    match tail with
    | '.' :: places =>
      if isSixtieth whole && places.all isPlace && middle.all isSixtieth && firstOk then
        let read (digits : List Char) : Option Float := (Number.decimalNumber digits).toOption
        let digits := (whole ++ '.' :: places.filter (· != '_')) :: middle ++ [first]
        let sum := digits.foldlM (fun (sum, base) part =>
          (read part).map fun x => (sum + x * base, base * 60.0)) (0.0, 1.0)
        sum.map (·.1)
      else none
    | _ => none
  | _ => none

/-- The named number that a text without sign writes. -/
def namedReal? (s : String) : Option Float :=
  if [".inf", ".Inf", ".INF"].contains s then some (1.0 / 0.0) else none

/-- The number with a point, or the named number, that a text writes. -/
def realOf? (s : List Char) : Option Float :=
  if isReal s then (Number.decimalNumber (s.filter (· != '_'))).toOption
  else if [".nan", ".NaN", ".NAN"].contains (String.ofList s) then some (0.0 / 0.0)
  else
    let (minus, body) := Number.leadingSign s
    ((namedReal? (String.ofList body)).or (sexagesimalReal? body)).map fun x =>
      if minus then -x else x

/-! ## 2. Scalars -/

/-- The spellings of nothing. -/
def nullWords : List String := ["", "~", "null", "Null", "NULL"]

/-- The spellings of yes. -/
def trueWords : List String :=
  ["yes", "Yes", "YES", "true", "True", "TRUE", "on", "On", "ON"]

/-- The spellings of no. -/
def falseWords : List String :=
  ["no", "No", "NO", "false", "False", "FALSE", "off", "Off", "OFF"]

/-- The value of a scalar without quotes. -/
def scalarOf (s : List Char) : Except Fault Scalar :=
  let word := String.ofList s
  if nullWords.contains word then .ok .null
  else if trueWords.contains word then .ok (.bool true)
  else if falseWords.contains word then .ok (.bool false)
  else
    match wholeOf? s, realOf? s with
    | some n, _ => n.map .int
    | none, some x => .ok (.float x)
    | none, none => .ok (.text word)

end Cantilena.Document
