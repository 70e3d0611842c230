import Cantilena.Clip
import Cantilena.Midi.Decoding
import Cantilena.Midi.Encoding
import Cantilena.Midi.Pairing
import Cantilena.Note.Event

/-!
# MIDI files

* `Midi.saveSheet`, `Midi.save` -- what a writer writes of a sheet, and the bytes of a file that
  holds some notes;
* `Midi.loadTracks`, `Midi.load` -- the notes of a file, track by track or all together;
* `Clip.importFile` -- adds the notes of a file to a clip.
-/

namespace Cantilena

namespace Midi

/-! ## 1. Writing -/

/-- The tempo of a file where none is given. -/
def defaultTempo : Amount := .real 120.0

/-- The report of notes that are written. -/
def saving (count : Nat) (path : String) : LogEntry :=
  ⟨.info, "Saving " ++ toString count ++ " note(s) to " ++ path ++ "..."⟩

/-- What is written of a sheet, in the way of a writer. -/
def saveSheet (w : Writer) (sheet : Sheet) (path : String) (bpm : Amount) (channel : Int) :
    Logged Saved := do
  let track ← (sheet.track bpm channel : Except Fault FineTrack)
  Logged.tell [saving sheet.count path]
  return w track

/-- The bytes of a file that holds some notes. -/
def save (notes : List Note) (path : String) (bpm : Amount) (channel : Int) :
    Logged (List UInt8) := do
  return (← saveSheet standardWriter (.onGrid notes) path bpm channel).bytes

/-! ## 2. Reading -/

/-- The notes of a track by start and pitch. Notes left open are reported. -/
def loadTrack (perBeat : Int) (track : Track) : Logged (List Note) := do
  let (notes, left) ← (notesOf (sixteenths perBeat) track : Except Fault (List Note × Nat))
  if 0 < left then
    Logged.say .warning ("Dropped " ++ toString left ++ " note(s) with no note-off")
  return sortNotes notes

/-- The notes of a file, track by track. -/
def loadTracks (bytes : List UInt8) : Logged (List (List Note)) := do
  let file ← (readFile bytes : Except Fault File)
  file.tracks.mapM (loadTrack file.perBeat)

/-- The notes of a file, all tracks together. -/
def load (path : String) (bytes : List UInt8) : Logged (List Note) := do
  let notes := (← loadTracks bytes).flatten
  Logged.say .info ("Read " ++ toString notes.length ++ " note(s) from " ++ path)
  return sortNotes notes

end Midi

/-- Adds the notes of a file to a clip. -/
def Clip.importFile (c : Clip) (path : String) (bytes : List UInt8) :
    Logged (List Note) × Clip :=
  c.receive (Midi.load path bytes) fun notes => notes

end Cantilena
