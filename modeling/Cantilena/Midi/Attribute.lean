import Cantilena.Number.Numeral

/-!
# Attributes of a track

A message about the track itself is a kind and some bytes that write its attributes. Of what they
write nothing is kept, but bytes that write no attributes end the reading of a file. The bytes of a
message whose kind is not known write none.

* `isKnown` -- whether the kind of a message is known;
* `checkTime`, `checkMetre`, `checkKey` -- the attributes that not all bytes write, each read from
  left to right;
* `checkAttributes` -- whether bytes write the attributes of a kind of message.
-/

namespace Cantilena.Midi

/-- The kinds of messages that are known: the number of a sequence, texts, the name of a device, a
    channel and an outlet, the end of a track, the tempo, a time, a metre, a key, and what the maker
    of an instrument adds. -/
def knownKinds : List Nat :=
  [0x00, 0x01, 0x02, 0x03, 0x04, 0x05, 0x06, 0x07, 0x09, 0x20, 0x21, 0x2f, 0x51, 0x54, 0x58, 0x59,
   0x7f]

/-- Whether the kind of a message about the track is known. -/
def isKnown (kind : Nat) : Bool := knownKinds.contains kind

/-- A byte by its place. -/
def byteAt (data : List Nat) (place : Nat) : Except Fault Nat :=
  match data[place]? with
  | some b => .ok b
  | none => .error (.noSuchPlace "list")

/-- That a byte is there. -/
def checkByte (data : List Nat) (place : Nat) : Except Fault Unit :=
  (byteAt data place).map fun _ => ()

/-- That a byte is there and not above the most that is allowed. -/
def checkMost (most : Nat) (data : List Nat) (place : Nat) : Except Fault Unit := do
  if most < (← byteAt data place) then throw (.attributeRange most)

/-- A time: its rate of four with the hours, the minutes, the seconds, the frames, and their
    hundredths. -/
def checkTime (data : List Nat) : Except Fault Unit := do
  let rate := (← byteAt data 0) / 32
  if 3 < rate then throw (.frameRate rate)
  checkMost 59 data 1
  checkMost 59 data 2
  checkByte data 3
  checkMost 99 data 4

/-- Whether the logarithm of a power of two, divided by that of two, comes out whole. -/
def hasWholeLogarithm (exponent : Nat) : Bool :=
  let quotient := Float.log (Float.scaleB 1.0 (exponent : Int)) / Float.log 2.0
  quotient == quotient.floor

/-- A metre: the beats, the exponent of the power of two that is their unit, and two numbers
    more. -/
def checkMetre (data : List Nat) : Except Fault Unit := do
  checkByte data 0
  if !hasWholeLogarithm (← byteAt data 1) then throw .metreUnit
  checkByte data 2
  checkByte data 3

/-- A key: its sharps or its flats as a signed byte, at most seven, and one of two modes. -/
def checkKey (data : List Nat) : Except Fault Unit := do
  let signs ← byteAt data 0
  let mode ← byteAt data 1
  if (7 < signs ∧ signs < 249) ∨ 1 < mode then throw .keySigns

/-- Whether bytes write the attributes of a kind of message. The number of a sequence may be left
    out altogether. -/
def checkAttributes (kind : Nat) (data : List Nat) : Except Fault Unit :=
  match kind with
  | 0x00 => if data.isEmpty then .ok () else checkByte data 1
  | 0x20 => checkByte data 0
  | 0x51 => checkByte data 2
  | 0x54 => checkTime data
  | 0x58 => checkMetre data
  | 0x59 => checkKey data
  | _ => .ok ()

end Cantilena.Midi
