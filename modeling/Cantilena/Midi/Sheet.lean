import Cantilena.Midi.Timeline
import Cantilena.Note.Event
import Cantilena.Sorting.Pending

/-!
# Sheets and their tracks

Notes on the grid make a track whose times are whole numbers of file ticks. Notes off the grid make a
track as well, but some of its times are fractions, and whoever writes it may refuse them.

* `Sheet` -- notes to be written: on the grid, or some of them off it;
* `FineTrack` -- messages with the times between them, which may be fractions;
* `fineTrackOf`, `Sheet.track` -- the track of notes off the grid, and of a sheet;
* `Writer` -- a way to write tracks as the bytes of a file;
* `Writer.Completes` -- that a track is written to its end if its times are whole.
-/

namespace Cantilena

/-! ## 1. Sheets -/

/-- Notes to be written. -/
inductive Sheet
  | onGrid (notes : List Note)
  /-- Some of the notes are off the grid. -/
  | offGrid (notes : List FineNote)
  deriving DecidableEq, Repr

/-- The sheet of fine notes. -/
def Sheet.ofFine (notes : List FineNote) : Sheet :=
  match notes.mapM FineNote.onGrid? with
  | some notes => .onGrid notes
  | none => .offGrid notes

namespace Midi

/-! ## 2. Tracks off the grid -/

/-- A message and the file ticks that pass before it, which may be a fraction. -/
structure FineTimed where
  delta : Amount
  message : Message
  deriving DecidableEq, Repr, Inhabited

/-- Messages with times that may be fractions. -/
abbrev FineTrack := List FineTimed

/-- A message after a whole number of file ticks. -/
def Timed.fine (t : Timed) : FineTimed := ⟨.whole t.delta, t.message⟩

/-- The message of a whole number of file ticks that a message is. -/
def FineTimed.whole? (t : FineTimed) : Option Timed :=
  t.delta.whole?.map fun delta => ⟨delta, t.message⟩

/-- The begin or the end of a note off the grid. -/
structure FineMoment where
  tick : Amount
  isBegin : Bool
  message : Message
  deriving DecidableEq, Repr, Inhabited

/-- Whether a moment comes before another: by tick, and ends before begins. -/
def FineMoment.comesBefore (a b : FineMoment) : Bool :=
  if a.tick == b.tick then !a.isBegin && b.isBegin else a.tick < b.tick

/-- The begin and the end of a note off the grid. Its pitch has to be whole. -/
def fineMomentsOf (channel : Int) (n : FineNote) : Except Fault (List FineMoment) := do
  let first ← n.start.times (.whole ticksPerStep)
  match n.pitch.whole? with
  | none => throw .wrongKind
  | some pitch =>
    let stop ← n.start.plus n.length
    let last ← stop.times (.whole ticksPerStep)
    return [⟨first, true, .noteOn channel pitch n.velocity⟩,
      ⟨last, false, .noteOff channel pitch 0⟩]

/-- The moments of notes off the grid in order. -/
def fineTimeline (channel : Int) (notes : List FineNote) : Except Fault (List FineMoment) := do
  let moments ← notes.mapM (fineMomentsOf channel)
  return Sorting.sorted FineMoment.comesBefore moments.flatten

/-- Moments as messages, with the time that passes since a tick and then from one to the next. -/
def withFineDeltas (last : Amount) : List FineMoment → Except Fault FineTrack
  | [] => .ok []
  | m :: rest => do
    let delta ← (m.tick - last).settled
    return ⟨delta, m.message⟩ :: (← withFineDeltas m.tick rest)

/-- The track of notes off the grid at a number of beats per minute on a channel. -/
def fineTrackOf (notes : List FineNote) (bpm : Amount) (channel : Int) :
    Except Fault FineTrack := do
  let tempo ← tempoOf bpm channel
  let messages ← withFineDeltas 0 (← fineTimeline channel notes)
  return ⟨0, .tempo tempo⟩ :: messages ++ [⟨0, .endOfTrack⟩]

/-! ## 3. Writers -/

/-- The bytes that are written, and the fault that cut them short if there was one. -/
structure Saved where
  bytes : List UInt8
  cut : Option Fault := none
  deriving DecidableEq, Repr

/-- A way to write a track to a file that has been opened. -/
abbrev Writer := FineTrack → Saved

/-- A writer writes a track to its end if all its times are whole numbers from zero on. -/
def Writer.Completes (w : Writer) : Prop :=
  ∀ track : Track, (∀ t ∈ track, 0 ≤ t.delta) → (w (track.map Timed.fine)).cut = none

end Midi

/-- The track of a sheet. -/
def Sheet.track (sheet : Sheet) (bpm : Amount) (channel : Int) : Except Fault Midi.FineTrack :=
  match sheet with
  | .onGrid notes => (Midi.buildTrack notes bpm channel).map (·.map Midi.Timed.fine)
  | .offGrid notes => Midi.fineTrackOf notes bpm channel

/-- The number of notes of a sheet. -/
def Sheet.count : Sheet → Nat
  | .onGrid notes => notes.length
  | .offGrid notes => notes.length

end Cantilena
