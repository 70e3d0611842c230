import Cantilena.Chord
import Cantilena.Pitch
import Cantilena.Scale.Registry

/-!
# Keys

A key is the tonic, the mode and the scale a melody is written in.

* `Key.snap` -- a pitch or a class put on the scale;
* `PreferredScale` -- a scale chosen up front, by tonic and mode or by its notes, the first of
  which is the tonic;
* `PreferredScale.resolve` -- its key;
* `impliedMode` -- the mode that the first chord of a progression implies.
-/

namespace Cantilena

/-- The tonic, the mode and the scale of a melody. -/
structure Key where
  tonic : Int
  mode : String
  classes : List Int
  deriving DecidableEq, Repr, Inhabited

/-- A pitch or a class put on the scale. -/
def Key.snap {ν : Type} [Quantity ν] (k : Key) (pitch : ν) : ν := nearestIn k.classes pitch

/-- A scale chosen up front. -/
structure PreferredScale where
  root : String := "C"
  mode : String := "ionian"
  notes : List String := []
  deriving DecidableEq, Repr, Inhabited

/-- The key of a mode on a tonic. -/
def Registry.key (r : Registry) (tonic : Int) (mode : String) : Except Fault Key := do
  let scale ← r.get mode
  return ⟨tonic, scale.name, scale.pitchClasses tonic⟩

/-- The classes of note names, each once, in the order of their first names. -/
def distinctClasses (names : List String) : Except Fault (List Int) := do
  return (← names.mapM fun n => Pitch.classNamed n.toList).eraseDups

namespace PreferredScale

/-- The key of a scale chosen up front. -/
def resolve (s : PreferredScale) (r : Registry) : Except Fault Key := do
  if s.notes.isEmpty then
    let tonic ← Pitch.classNamed s.root.toList
    r.key tonic s.mode
  else
    let classes ← distinctClasses s.notes
    return ⟨classes.headD 0, "custom", classes⟩

end PreferredScale

/-- The chord that stands for one that cannot be read: C major. -/
def fallbackChord : Chord := { root := 0 }

/-- The mode that a first chord implies. -/
def impliedMode (c : Chord) : String :=
  if c.triad = .minor then "aeolian"
  else if c.seventh = .dominant then "mixolydian"
  else "ionian"

end Cantilena
