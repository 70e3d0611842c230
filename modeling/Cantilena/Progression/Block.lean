import Cantilena.Notation.Line
import Cantilena.Note.Event
import Cantilena.Progression

/-!
# Block chords

A progression sounds as sustained chords, one per entry.

* `Entry.tones` -- the pitches of an entry. Its symbol is read as a chord token first, and what
  that does not understand as a chord symbol;
* `blockChords` -- the notes of a progression, on the grid or off it. An entry that cannot be read
  leaves a gap, and pitches out of range are left out.
-/

namespace Cantilena

/-- The pitches of an entry, with the reports of what cannot be read. -/
def Entry.tones (e : Entry) (octave : Int) : Logged (List Int) := do
  let token ← (ChordToken.read e.chord octave : Except Fault ChordToken)
  match token.sense with
  | .silence => return []
  | .sounds _ pitches => return pitches
  | .fault cause =>
    match cause with
    | .unknownQuality quality => Logged.tell [Notation.noFormula quality e.chord]
    | _ => pure ()
    match Chord.ofSymbol? e.chord with
    | some chord => return chord.tones octave
    | none =>
      Logged.say .warning
        ("Skipped chord " ++ Text.quoted e.chord ++ ": " ++ cause.message)
      return []

section

variable {ε ν : Type} [Quantity ν] [Event ε ν]

/-- The notes of pitches that start together; pitches out of range are left out. -/
def chordNotes (start length : ν) (velocity : Int) (pitches : List Int) :
    Except Fault (List ε) :=
  (pitches.filter Pitch.playable).mapM fun (p : Int) => Event.make (p : ν) start length velocity

/-- The notes of the entries from a tick on. -/
def blockChordsFrom (octave : Int) (ticksPerBar : ν) (velocity : Int) (cursor : ν) :
    List Entry → Logged (List ε)
  | [] => .ok []
  | e :: rest => do
    let length ← (settled (((e.bars : Int) : ν) * ticksPerBar) : Except Fault ν)
    let pitches ← e.tones octave
    let notes ← (chordNotes cursor length velocity pitches : Except Fault (List ε))
    let next ← (settled (cursor + length) : Except Fault ν)
    return notes ++ (← blockChordsFrom octave ticksPerBar velocity next rest)

/-- The notes of a progression as block chords. -/
def blockChords (entries : List Entry) (octave : Int) (ticksPerBar : ν) (velocity : Int) :
    Logged (List ε) :=
  blockChordsFrom octave ticksPerBar velocity 0 entries

end

end Cantilena
