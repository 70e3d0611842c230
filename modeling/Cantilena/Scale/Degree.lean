import Cantilena.Chord
import Cantilena.Scale.Registry

/-!
# Scale degrees and their triads

* `Registry.degrees` -- the degrees of a key, each with its root class and the name of its triad,
  which need not be known;
* `Registry.chords` -- the chords on the degrees, if all their triads are known;
* `Registry.degreePitch` -- the pitch of a degree above the tonic: degrees past the last one go on
  in the next octave, and degrees below the first in the octave before;
* `Registry.triadAt` -- the pitches of the triad on a degree.

Degrees are counted from zero.
-/

namespace Cantilena

/-- A degree of a key: its root class and the name of its triad, as the scale names it. -/
structure Degree where
  root : Int
  triad : String
  deriving DecidableEq, Repr, Inhabited

/-- The chord on a degree, if its triad is known. -/
def Degree.chord (d : Degree) : Except Fault Chord := Chord.make d.root d.triad "none"

/-- The pitch of a degree of a scale on a tonic pitch. -/
def Scale.degreePitch (s : Scale) (tonic degree : Int) : Int :=
  let size : Int := s.intervals.length
  tonic + s.intervals.getD (degree % size).toNat 0 + 12 * (degree / size)

namespace Registry

/-- The degrees of a key. The scale has to have triads; what they are called is not looked at. -/
def degrees (r : Registry) (key : List Char) (mode : String) : Except Fault (List Degree) := do
  let scale ← r.get mode
  if scale.triads.isEmpty then throw (.noTriads mode)
  let tonic ← Pitch.classNamed key
  return (scale.pitchClasses tonic).zipWith Degree.mk scale.triads

/-- The chords on the degrees of a key. The first triad that is not known is the cause if there are
    none. -/
def chords (r : Registry) (key : List Char) (mode : String) : Except Fault (List Chord) := do
  (← r.degrees key mode).mapM Degree.chord

/-- The pitch of a degree above the tonic in an octave. -/
def degreePitch (r : Registry) (key : List Char) (mode : String) (degree octave : Int) :
    Except Fault Int := do
  let scale ← r.get mode
  let tonic ← Pitch.classNamed key
  return scale.degreePitch (Pitch.ofClass tonic octave) degree

/-- The pitches of the triad on a degree. -/
def triadAt (r : Registry) (key : List Char) (mode : String) (degree octave : Int) :
    Except Fault (List Int) := do
  let degrees ← r.degrees key mode
  let here := degrees.getD (degree % degrees.length).toNat default
  let root ← r.degreePitch key mode degree octave
  let chord ← here.chord
  return chord.intervals.map (root + ·)

end Registry

end Cantilena
