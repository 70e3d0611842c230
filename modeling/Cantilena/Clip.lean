import Cantilena.Notation.Line
import Cantilena.Number.Amount

/-!
# Clips

A clip is a container of notes with a fixed length in bars. Notes are filed under their first
tick, in the order in which they arrive; a note that outlasts the clip is cut to end with it, and
a note past its end is passed over. What is passed over is reported with its start, and a start
of too many digits to be written ends the operation; what was filed before stays filed.

* `Clip.make` -- an empty clip;
* `Clip.add`, `Clip.emit`, `Clip.clear` -- what is filed;
* `Clip.notes`, `Clip.size` -- what has been filed, by start and pitch, and how much;
* `Clip.importBlock` -- compiles a block of notation and files its notes.
-/

namespace Cantilena

/-- A clip: its length in bars and beats, its tempo, the octave and length of notes without their
    own, and the notes filed under their first ticks. -/
structure Clip where
  bars : Int := 4
  beatsPerBar : Int := 4
  tempo : Amount := .real 120.0
  octave : Int := Pitch.defaultOctave
  length : Int := 1
  steps : List (Int × List Note) := []

namespace Clip

/-- Ticks of a beat. -/
def ticksPerBeat : Int := 4

/-- An empty clip. -/
def make (bars beatsPerBar : Int) (tempo : Amount) (octave length : Int) : Except Fault Clip :=
  if bars < 1 then .error .clipTooShort
  else if beatsPerBar < 1 then .error .beatsTooFew
  else if !tempo.isNumber then .error .wrongKind
  else if tempo ≤ 0 then .error .tempoTooLow
  else .ok { bars, beatsPerBar, tempo, octave, length }

/-- The length of a clip in ticks. -/
def ticks (c : Clip) : Int := c.bars * c.beatsPerBar * ticksPerBeat

/-! ## 1. Filing -/

/-- Files a note under its first tick, behind those filed there before. -/
def file (n : Note) : List (Int × List Note) → List (Int × List Note)
  | [] => [(n.start, [n])]
  | (start, notes) :: rest =>
    if start = n.start then (start, notes ++ [n]) :: rest else (start, notes) :: file n rest

/-- A note cut to end with a clip of some ticks; none if it starts past its end. -/
def fitted? (ticks : Int) (n : Note) : Option Note :=
  if h : ticks ≤ n.start then none
  else if ticks < n.stop then some (n.withLength (ticks - n.start) (by omega))
  else some n

/-- A clip with a note filed, or the same clip if the note is past its end. -/
def record (c : Clip) (n : Note) : Clip :=
  match fitted? c.ticks n with
  | none => c
  | some fitted => { c with steps := file fitted c.steps }

/-- Whether a note can be filed or passed over: one that is passed over is reported with its
    start. -/
def accepts (c : Clip) (n : Note) : Bool :=
  (fitted? c.ticks n).isSome || Number.isWritable n.start

/-- Adds a note. -/
def add (c : Clip) (n : Note) : Except Fault Clip :=
  if c.accepts n then .ok (c.record n) else .error .tooManyToWrite

/-- Adds a note given by its four numbers. -/
def addNote (c : Clip) (position pitch velocity duration : Int) : Except Fault Clip := do
  c.add (← Note.make pitch position duration velocity)

/-- A clip without its notes. -/
def clear (c : Clip) : Clip := { c with steps := [] }

/-! ## 2. Contents -/

/-- The filed notes by start, then by pitch. -/
def notes (c : Clip) : List Note := sortNotes (c.steps.flatMap (·.2))

/-- The number of filed notes. -/
def size (c : Clip) : Nat := (c.steps.map (·.2.length)).sum

/-! ## 3. Filing several notes -/

/-- The report of a note that is passed over. -/
def passedOver (ticks : Int) (n : Note) : List LogEntry :=
  if (fitted? ticks n).isNone then
    [⟨.debug, "Dropped note " ++ toString n.pitch ++ " at tick " ++ toString n.start
      ++ ": past the clip end"⟩]
  else []

/-- Adds notes in order up to the first that cannot be added: the reports of those passed over, and
    the clip then. -/
def emit (c : Clip) (notes : List Note) : Logged Unit × Clip :=
  let taken := notes.takeWhile c.accepts
  let outcome := if taken.length = notes.length then .ok () else .error .tooManyToWrite
  (⟨taken.flatMap (passedOver c.ticks), outcome⟩, taken.foldl record c)

/-- Adds the notes of something that is read first. -/
def receive {α : Type} (c : Clip) (read : Logged α) (notesOf : α → List Note) :
    Logged α × Clip :=
  match read.outcome with
  | .error _ => (read, c)
  | .ok a =>
    let (emitted, after) := c.emit (notesOf a)
    (read.bind fun a => emitted.bind fun _ => .ok a, after)

/-- Compiles a block of notation with the defaults of a clip and adds its notes. -/
def importBlock (c : Clip) (text : List Char) (limit : Int) :
    Logged Notation.Reading × Clip :=
  c.receive (Notation.readBlock text c.octave c.length limit) (·.notes)

end Clip

end Cantilena
