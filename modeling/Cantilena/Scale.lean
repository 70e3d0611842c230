import Cantilena.Number.Quantity

/-!
# Scales

A scale is a name, the semitone offsets of its degrees from the tonic, and, if it has them, the
names of the triads on its degrees.

* `Scale.make` -- a scale from its parts: the offsets start at 0, lie in one octave and are
  distinct, and triads are named for all degrees or for none;
* `Scale.pitchClasses` -- the classes of a scale on a tonic;
* `nearestIn` -- the pitch nearest to a given one whose class is in a scale.
-/

namespace Cantilena

/-- A named scale. -/
structure Scale where
  name : String
  intervals : List Int
  triads : List String := []
  deriving DecidableEq, Repr, Inhabited

namespace Scale

/-- A scale from its parts. -/
def make (name : String) (intervals : List Int) (triads : List String) : Except Fault Scale :=
  if intervals.head? ≠ some 0 then .error (.scaleStart name)
  else if !intervals.all fun i => 0 ≤ i && i ≤ 11 then .error (.scaleRange name)
  else if !decide intervals.Nodup then .error (.scaleRepeat name)
  else if !triads.isEmpty && triads.length ≠ intervals.length then .error (.scaleTriads name)
  else .ok ⟨name, intervals, triads⟩

/-- The classes of a scale on a tonic, in scale order. -/
def pitchClasses (s : Scale) (tonic : Int) : List Int := s.intervals.map fun i => (tonic + i) % 12

/-- The triads on the degrees of the major scale. -/
def majorTriads : List String :=
  ["major", "minor", "minor", "major", "major", "minor", "diminished"]

/-- The triads of the church mode on a degree of the major scale. -/
def modeTriads (degree : Nat) : List String :=
  majorTriads.drop degree ++ majorTriads.take degree

/-- The scales known from the start. -/
def builtin : List Scale :=
  [⟨"ionian", [0, 2, 4, 5, 7, 9, 11], modeTriads 0⟩,
    ⟨"dorian", [0, 2, 3, 5, 7, 9, 10], modeTriads 1⟩,
    ⟨"phrygian", [0, 1, 3, 5, 7, 8, 10], modeTriads 2⟩,
    ⟨"lydian", [0, 2, 4, 6, 7, 9, 11], modeTriads 3⟩,
    ⟨"mixolydian", [0, 2, 4, 5, 7, 9, 10], modeTriads 4⟩,
    ⟨"aeolian", [0, 2, 3, 5, 7, 8, 10], modeTriads 5⟩,
    ⟨"locrian", [0, 1, 3, 5, 6, 8, 10], modeTriads 6⟩,
    ⟨"harmonic_minor", [0, 2, 3, 5, 7, 8, 11],
      ["minor", "diminished", "augmented", "minor", "major", "major", "diminished"]⟩,
    ⟨"melodic_minor", [0, 2, 3, 5, 7, 9, 11],
      ["minor", "minor", "augmented", "major", "major", "diminished", "diminished"]⟩]

end Scale

/-! ## The nearest pitch of a scale -/

section

variable {ν : Type} [Quantity ν]

/-- The pitch at a distance whose class is in a scale, the upper one first. -/
def neighbourIn (classes : List Int) (pitch : ν) (distance : Int) : Option ν :=
  let pc := pitch % 12
  if Quantity.isOneOf ((pc + distance) % 12) classes then some (pitch + distance)
  else if Quantity.isOneOf ((pc - distance) % 12) classes then some (pitch - distance)
  else none

/-- The pitch nearest to `pitch` whose class is in a scale; of two equally near ones the upper. A
    scale without classes leaves the pitch as it is. -/
def nearestIn (classes : List Int) (pitch : ν) : ν :=
  if classes.isEmpty || Quantity.isOneOf (pitch % 12) classes then pitch
  else ([1, 2, 3, 4, 5, 6].findSome? (neighbourIn classes pitch)).getD pitch

end

end Cantilena
