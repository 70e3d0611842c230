import Cantilena.Midi.Message
import Cantilena.Note
import Cantilena.Number.Amount

/-!
# From notes to a track

Each note gives two moments, its begin and its end. The moments are put in order, ends before
begins on the same tick, and every moment is stored with the ticks since the one before it.

* `timeline` -- the moments of notes in order;
* `withDeltas` -- moments as messages with the ticks between them;
* `trackOf` -- the tempo, the messages of notes, and the end of the track;
* `buildTrack` -- the same with the tempo given in beats per minute.
-/

namespace Cantilena.Midi

/-! ## 1. Moments -/

/-- File ticks of a beat. -/
def resolution : Int := 480

/-- File ticks of a tick of the grid. -/
def ticksPerStep : Int := 120

/-- The begin or the end of a note. -/
structure Moment where
  tick : Int
  isBegin : Bool
  message : Message
  deriving DecidableEq, Repr, Inhabited

/-- Whether a moment comes no later than another: by tick, and ends before begins. -/
def Moment.comesBy (a b : Moment) : Bool :=
  a.tick < b.tick || (a.tick == b.tick && (!a.isBegin || b.isBegin))

/-- The begin and the end of a note. -/
def momentsOf (channel : Int) (n : Note) : List Moment :=
  [⟨n.start * ticksPerStep, true, .noteOn channel n.pitch n.velocity⟩,
    ⟨n.stop * ticksPerStep, false, .noteOff channel n.pitch 0⟩]

/-- The moments of notes in order; moments alike in tick and kind keep theirs. -/
def timeline (channel : Int) (notes : List Note) : List Moment :=
  (notes.flatMap (momentsOf channel)).mergeSort Moment.comesBy

/-- Moments as messages, with the ticks that pass since a tick and then from one to the next. -/
def withDeltas (last : Int) : List Moment → Track
  | [] => []
  | m :: rest => ⟨m.tick - last, m.message⟩ :: withDeltas m.tick rest

/-! ## 2. Tracks -/

/-- The tempo, the messages of notes, and the end of the track. -/
def trackOf (tempo channel : Int) (notes : List Note) : Track :=
  ⟨0, .tempo tempo⟩ :: withDeltas 0 (timeline channel notes) ++ [⟨0, .endOfTrack⟩]

/-- The longest beat in microseconds: three bytes hold it. -/
def longestBeat : Nat := 16777215

/-- The microseconds of a beat at a number of beats per minute. -/
def microseconds (bpm : Amount) : Except Fault Int := do
  let bpm ← bpm.toFloat
  let tempo ← Number.nearestWhole (60.0 * 1000000.0 / bpm * 4.0 / 4.0)
  if 0 ≤ tempo ∧ tempo ≤ longestBeat then return tempo else throw (.attributeRange longestBeat)

/-- The microseconds of a beat of a track on a channel. -/
def tempoOf (bpm : Amount) (channel : Int) : Except Fault Int := do
  if !bpm.isNumber then throw .wrongKind
  if bpm ≤ 0 then throw .tempoTooLow
  if channel < 0 ∨ 15 < channel then throw .channelRange
  microseconds bpm

/-- The track of notes at a number of beats per minute on a channel. -/
def buildTrack (notes : List Note) (bpm : Amount) (channel : Int) : Except Fault Track := do
  return trackOf (← tempoOf bpm channel) channel notes

end Cantilena.Midi
