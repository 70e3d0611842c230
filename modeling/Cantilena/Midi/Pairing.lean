import Cantilena.Midi.Message
import Cantilena.Note
import Cantilena.Number.Dyadic

/-!
# From a track to notes

Messages that begin notes are paired with those that end them. A begin of velocity 0 counts as an
end. Of several open notes alike in channel and pitch the one opened first is closed first; an end
without an open note is passed over, and so are notes still open at the end of the track.

* `sixteenths` -- file ticks as ticks of the grid, at a number of file ticks per beat;
* `release` -- closes a note;
* `notesOf` -- the notes of a track in the order in which they are closed, and the number of notes
  left open. How ticks are converted is a parameter.
-/

namespace Cantilena.Midi

/-! ## 1. Ticks -/

/-- The number of file ticks to 53 significant bits. -/
def approximated (ticks : Int) : Except Fault Number.Dyadic :=
  let d := Number.Dyadic.nearest ticks.natAbs 1
  if d.overflows then .error .beyondFloat else .ok d

/-- File ticks as ticks of the grid, a quarter of a beat each. The number of file ticks and the
    quotient are taken to 53 significant bits, and the quotient is then rounded; halves go to the
    even neighbour every time. -/
def sixteenths (perBeat ticks : Int) : Except Fault Int := do
  let d ← approximated ticks
  if perBeat = 0 then throw .noResolution
  let quotient := Number.Dyadic.nearest (d.num * 4) (d.den * perBeat.natAbs)
  if quotient.overflows then throw .wholeOfInfinity
  let minus := decide (ticks < 0) != decide (perBeat < 0)
  return Number.signed minus (Number.roundQuotient quotient.num quotient.den)

/-! ## 2. Pairing -/

/-- An open note. -/
structure Held where
  channel : Int
  pitch : Int
  since : Int
  velocity : Int
  deriving DecidableEq, Repr, Inhabited

/-- Closes the first open note of a channel and pitch. -/
def release (channel pitch : Int) : List Held → Option (Held × List Held)
  | [] => none
  | h :: rest =>
    if h.channel = channel ∧ h.pitch = pitch then some (h, rest)
    else (release channel pitch rest).map fun (found, others) => (found, h :: others)

/-- How far the reading of a track has come: the file ticks passed, the open notes in the order in
    which they were opened, and the notes closed, the last first. -/
structure Progress where
  now : Int := 0
  held : List Held := []
  closed : List Note := []
  deriving DecidableEq, Repr

/-- The note of an open note that is closed at a tick of the file. -/
def Held.note (convert : Int → Except Fault Int) (h : Held) (now : Int) : Except Fault Note := do
  let first ← convert h.since
  let last ← convert now
  Note.make h.pitch first (max 1 (last - first)) h.velocity

/-- Ends a note, some file ticks after the message before. An end without an open note is reported
    with those ticks, which have to be writable. -/
def Progress.close (convert : Int → Except Fault Int) (p : Progress) (channel pitch delta : Int) :
    Except Fault Progress :=
  match release channel pitch p.held with
  | none => if Number.isWritable delta then .ok p else .error .tooManyToWrite
  | some (h, others) =>
    (h.note convert p.now).map fun n => { p with held := others, closed := n :: p.closed }

/-- Reads one message. -/
def Progress.step (convert : Int → Except Fault Int) (p : Progress) (t : Timed) :
    Except Fault Progress :=
  let p := { p with now := p.now + t.delta }
  match t.message with
  | .noteOn channel pitch velocity =>
    if 0 < velocity then .ok { p with held := p.held ++ [⟨channel, pitch, p.now, velocity⟩] }
    else p.close convert channel pitch t.delta
  | .noteOff channel pitch _ => p.close convert channel pitch t.delta
  | _ => .ok p

/-- The notes of a track in the order in which they are closed, and the number of notes left
    open. -/
def notesOf (convert : Int → Except Fault Int) (track : Track) : Except Fault (List Note × Nat) :=
  (track.foldlM (Progress.step convert) {}).map fun p => (p.closed.reverse, p.held.length)

end Cantilena.Midi
