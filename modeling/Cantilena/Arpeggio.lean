import Cantilena.Arpeggio.Ordering
import Cantilena.Note
import Cantilena.Scale.Degree

/-!
# Arpeggios over scale degrees

The triads on a list of scale degrees are played one after the other: each as a sustained block
chord, as an arpeggio that goes through a pattern of tone indices some times, or as both.

* `Arpeggio` -- what is fixed for all degrees;
* `Arpeggio.tone` -- the pitch of an index of the pattern: indices past the triad go on in the
  next octave;
* `Arpeggio.play` -- the notes, by start and pitch.
-/

namespace Cantilena

/-- What is fixed for all degrees of an arpeggio. Without a pattern only the block chords sound,
    each for `chordLength` steps. -/
structure Arpeggio where
  key : List Char := ['C']
  mode : String := "ionian"
  pattern : List Int := []
  rounds : Int := 1
  stepLength : Int := 1
  chordLength : Int := 4
  chordOctave : Int := 4
  octave : Int := 5
  withChords : Bool := true
  velocity : Int := Note.defaultVelocity
  chordVelocity : Int := Note.chordVelocity
  deriving DecidableEq, Repr

namespace Arpeggio

/-- The steps of one chord. -/
def steps (a : Arpeggio) : Int :=
  if a.pattern.isEmpty then a.chordLength else a.pattern.length * a.rounds

/-- The ticks of one chord. -/
def ticks (a : Arpeggio) : Int := a.steps * a.stepLength

/-- The pitch of a tone index. -/
def tone (triad : List Int) (index : Int) : Int :=
  let size : Int := triad.length
  triad.getD (index % size).toNat 0 + 12 * (index / size)

/-- The tone index of a step. -/
def indexAt (a : Arpeggio) (step : Nat) : Int := a.pattern.getD (step % a.pattern.length) 0

/-- The block chord of a degree, if chords are to sound. -/
def chordAt (a : Arpeggio) (r : Registry) (cursor degree : Int) : Except Fault (List Note) := do
  if a.withChords then
    let triad ← r.triadAt a.key a.mode degree a.chordOctave
    triad.mapM fun p => Note.make p cursor a.ticks a.chordVelocity
  else return []

/-- The line of a degree, if there is a pattern. -/
def lineAt (a : Arpeggio) (r : Registry) (cursor degree : Int) : Except Fault (List Note) := do
  if a.pattern.isEmpty then return []
  else
    let triad ← r.triadAt a.key a.mode degree a.octave
    (List.range a.steps.toNat).mapM fun i =>
      Note.make (tone triad (a.indexAt i)) (cursor + i * a.stepLength) a.stepLength a.velocity

/-- The notes of the degrees from a tick on. -/
def playFrom (a : Arpeggio) (r : Registry) (cursor : Int) : List Int → Except Fault (List Note)
  | [] => .ok []
  | degree :: rest => do
    let chord ← a.chordAt r cursor degree
    let line ← a.lineAt r cursor degree
    return chord ++ line ++ (← a.playFrom r (cursor + a.ticks) rest)

/-- The notes of an arpeggio, by start and pitch. -/
def play (a : Arpeggio) (r : Registry) (degrees : List Int) : Except Fault (List Note) :=
  if a.stepLength ≤ 0 then .error .stepLength
  else if a.rounds ≤ 0 then .error .repeatCount
  else (a.playFrom r 0 degrees).map sortNotes

end Arpeggio

end Cantilena
