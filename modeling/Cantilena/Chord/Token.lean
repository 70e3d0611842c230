import Cantilena.Chord.Formula
import Cantilena.Number.Numeral
import Cantilena.Pitch

/-!
# Chord tokens

A chord token of the notation is a root or the rest sign, at most one octave digit, a quality,
and at most one length operator with its operand.

* `LengthOperator` -- the four operators and the length they make of the default length;
* `ChordToken` -- the parts of a token and what it sounds;
* `ChordToken.read` -- reads a token. A digit after the root is an octave, unless it starts a
  quality that is itself a number and nothing readable follows the digit, so `G7` is a seventh
  chord and `G4` a triad in octave 4.
-/

namespace Cantilena

/-! ## 1. Length operators -/

/-- The operators that change a default length. -/
inductive LengthOperator
  | times | over | plus | minus
  deriving DecidableEq, Repr, Inhabited

namespace LengthOperator

/-- The operator a character writes. -/
def ofChar? : Char → Option LengthOperator
  | '*' => some .times
  | '/' => some .over
  | '+' => some .plus
  | '-' => some .minus
  | _ => none

/-- The character that writes an operator. -/
def toChar : LengthOperator → Char
  | .times => '*'
  | .over => '/'
  | .plus => '+'
  | .minus => '-'

/-- The bare result of an operator. Only a divisor above one divides. -/
def result (op : LengthOperator) (length operand : Int) : Int :=
  match op with
  | .times => length * operand
  | .over => if 1 < operand then length / operand else length
  | .plus => length + operand
  | .minus => length - operand

theorem ofChar?_toChar (op : LengthOperator) : ofChar? op.toChar = some op := by cases op <;> rfl

end LengthOperator

/-- A length with an operator and its operand, or none: never below one tick. -/
def lengthWith (length : Int) : Option (LengthOperator × Int) → Int
  | none => max 1 length
  | some (op, operand) => max 1 (op.result length operand)

/-! ## 2. The parts of a token -/

/-- Why a chord token sounds nothing. -/
inductive ChordFault
  | operandNotNumber (text : List Char)
  | unknownRoot
  | unknownQuality (quality : List Char)
  deriving DecidableEq, Repr, Inhabited

/-- The wording of a chord fault. -/
def ChordFault.message : ChordFault → String
  | .operandNotNumber text => "length operand " ++ Text.quoted text ++ " is not a number"
  | .unknownRoot => "unknown root"
  | .unknownQuality quality => "unknown chord quality " ++ Text.quoted quality

/-- What a chord token means. -/
inductive ChordSense
  | silence
  | sounds (formula : Formula) (pitches : List Int)
  | fault (cause : ChordFault)
  deriving DecidableEq, Repr, Inhabited

/-- A chord token, read. -/
structure ChordToken where
  text : List Char
  root : Option Sign := none
  octave : Int := Pitch.defaultOctave
  quality : List Char := []
  length : Option (LengthOperator × Int) := none
  sense : ChordSense
  deriving DecidableEq, Repr, Inhabited

namespace ChordToken

/-- Whether the token is understood. -/
def ok (t : ChordToken) : Bool :=
  match t.sense with
  | .fault _ => false
  | _ => true

/-- The pitches a token sounds. -/
def pitches (t : ChordToken) : List Int :=
  match t.sense with
  | .sounds _ pitches => pitches
  | _ => []

/-- The text before the first length operator, and the operator with the text after it. -/
def splitOperator : List Char → List Char × Option (LengthOperator × List Char)
  | [] => ([], none)
  | c :: rest =>
    match LengthOperator.ofChar? c with
    | some op => ([], some (op, rest))
    | none =>
      let (before, tail) := splitOperator rest
      (c :: before, tail)

/-- Whether the digit at the front of a quality is an octave. -/
def octaveFirst (quality after : List Char) : Bool :=
  (!after.isEmpty && (Formula.find? after).isSome) || (Formula.find? quality).isNone

/-- The octave and the quality that the text after a root means. -/
def readOctave (default : Int) : List Char → Except Fault (Int × List Char)
  | [] => .ok (default, [])
  | c :: after =>
    if Text.isDigit c && octaveFirst (c :: after) after then
      (Number.wholeNumber [c]).map fun octave => (octave, after)
    else .ok (default, c :: after)

/-- What a root, an octave and a quality sound. -/
def senseOf (root : Sign) (octave : Int) (quality : List Char) : ChordSense :=
  match root with
  | .silence => .silence
  | .note n =>
    match Formula.find? quality with
    | none => .fault (.unknownQuality quality)
    | some f => .sounds f (f.intervals.map fun i => Pitch.ofClass n.pitchClass octave + i)

/-- Reads a chord token. -/
def read (token : List Char) (defaultOctave : Int) : Except Fault ChordToken := do
  let text := plainAccidentals token
  let (root, remaining) := match Sign.leading? text with
    | some (sign, rest) => (some sign, rest)
    | none => (none, text)
  let (before, tail) := splitOperator remaining
  let (octave, quality) ←
    if root.isSome then readOctave defaultOctave before else pure (defaultOctave, before)
  let length ← match tail with
    | none => pure none
    | some (op, digits) =>
      if Text.isDigits digits then
        (Number.wholeNumber digits).map fun operand => some (op, operand)
      else
        return ⟨token, root, octave, quality, none, .fault (.operandNotNumber digits)⟩
  match root with
  | none =>
    return ⟨token, none, Pitch.defaultOctave, quality, length, .fault .unknownRoot⟩
  | some root =>
    return ⟨token, some root, octave, quality, length, senseOf root octave quality⟩

end ChordToken

end Cantilena
