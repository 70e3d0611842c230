import Cantilena.Arpeggio
import Cantilena.Command.Invocation
import Cantilena.Melody.Search
import Cantilena.Midi
import Cantilena.Progression.Block

/-!
# Carrying out a command line

A task reads its input, makes notes of it, and writes them to a file. What is at fault with the
input is reported and ends the command with code 1; the file is written last, so that it changes
only if all went well, or if notes off the grid cut it short.

* `Task.sheet` -- the notes of a task;
* `Formats` -- how configurations are read and tracks are written;
* `carryOutIn`, `carryOut` -- what a command line reports, how it ends, and what it leaves on the
  disk.
-/

namespace Cantilena.Command

/-- What an option was given, where something is needed. -/
def needed {α : Type} : Given α → Except Fault α
  | some a => .ok a
  | none => .error .wrongKind

/-! ## 1. Compiling -/

/-- The reports of what a block of notation holds and cannot be compiled. -/
def unresolved (r : Notation.Reading) : List LogEntry :=
  (r.failures.map fun f =>
    ⟨.info, "Could not resolve " ++ Text.quoted f.text ++ ": " ++ f.reason.message⟩)
  ++ r.faults.map fun e => ⟨.warning, e.message⟩

/-- The notes of a file of notation, cut to fit a clip. -/
def CompileTask.notes (t : CompileTask) (d : Disk) (s : Settings) (tempo : Amount)
    (path : String) : Logged (List Note) := do
  let text ← (d.readText path : Except Fault (List Char))
  let bars ← (needed t.bars : Except Fault Int)
  let clip ← (Clip.make bars s.beatsPerBar tempo s.octave s.length : Except Fault Clip)
  let (imported, clip) := clip.importBlock text s.limit
  let reading ← imported
  Logged.tell (unresolved reading)
  return clip.notes

/-! ## 2. Composing -/

/-- The octave of the block chords beneath a melody. -/
def chordOctave : Int := 3

/-- What is drawn where no seed says: the source of the final pick and its state, and the number
    that stands for a missing seed. -/
structure Chance (σ : Type) where
  source : Source σ
  state : σ
  spare : Int

section

variable {σ ε ν : Type} [Quantity ν] [Event ε ν]

/-- A melody with the block chords of its progression behind it, if they are asked for. -/
def melodyWithChords (withChords : Bool) (entries : List Entry) (params : Params ν)
    (melody : List ε) : Logged (List ε) :=
  if withChords then do
    let chords : List ε ←
      blockChords entries chordOctave params.frame.stepsPerBar Note.chordVelocity
    return melody ++ chords
  else return melody

/-- The report of the melody that was picked. -/
def bestEntry (best : Candidate ε) : LogEntry :=
  ⟨.info, "Best melody: " ++ toString best.events.length ++ " notes, score "
    ++ Number.fixedText 2 best.score⟩

/-- The best melody of a task. A number of workers has to be there before the candidates are
    written, and a number of those that are kept behind it. -/
def ComposeTask.best (t : ComposeTask) (chance : Chance σ) (entries : List Entry)
    (params : Params ν) : Logged (Candidate ε) := do
  let count ← (needed t.candidates : Except Fault Int)
  if 1 ≤ count then discard (needed t.workers : Except Fault Int)
  match t.keep with
  | some keep =>
    let (best, _) ← bestMelody chance.source chance.state Registry.builtin (.ok entries) params {}
      count keep chance.spare
    return best
  | none =>
    let _ : List (Candidate ε) ←
      Cantilena.candidates Registry.builtin (.ok entries) params {} count chance.spare
    Logged.fault .wrongKind

/-- The melody of a task in settings of some kind of numbers. -/
def ComposeTask.melody (t : ComposeTask) (chance : Chance σ) (entries : List Entry)
    (params : Params ν) : Logged (List ε) := do
  let best ← t.best chance entries params
  Logged.tell [bestEntry best]
  melodyWithChords t.withChords entries params best.events

/-- The value of a seed. -/
def seedValue : Given Int → Value
  | some n => .int n
  | none => .list []

/-- The melody of a task; none of an empty progression, which is reported. -/
def ComposeTask.sheet (t : ComposeTask) (chance : Chance σ) (s : Settings)
    (progression : String) : Logged (Option Sheet) := do
  let entries ←
    (readProgression progression.toList s.beatsPerBar : Except Fault (List Entry))
  if entries.isEmpty then
    Logged.say .error "Progression is empty"
    return none
  else
    let (_, params) ← melodyParams Registry.builtin s.melody (some (.int s.beatsPerBar))
      (t.seed.map seedValue)
    match params.whole? with
    | some params =>
      let notes : List Note ← t.melody chance entries params
      return some (.onGrid notes)
    | none =>
      let notes : List FineNote ← t.melody chance entries params
      return some (Sheet.ofFine notes)

end

/-! ## 3. Arpeggiating -/

/-- The scale degrees that a text lists, separated by blanks or commas. -/
def readDegrees (text : String) : Except Fault (List Int) :=
  (Text.words (text.toList.map fun c => if c == ',' then ' ' else c)).mapM Number.wholeNumber

/-- The pattern that a text lists. Without a text it is the first one up and down a triad. -/
def patternOf (text : Option String) : Except Fault (List Int) :=
  match text with
  | none | some "" => .ok (looped [0, 1, 2])
  | some text => readPattern text.toList

/-- The key and the mode of a task, where a degree sounds: the mode is looked up before the key. -/
def ArpeggiateTask.tonality (t : ArpeggiateTask) : Except Fault (String × String) :=
  match t.mode, t.key with
  | some mode, some key => .ok (key, mode)
  | some mode, none => do
    discard (Registry.builtin.degrees ['C'] mode)
    throw .noText
  | none, _ => .error .noText

/-- The notes of arpeggios. -/
def ArpeggiateTask.notes (t : ArpeggiateTask) (degrees : String) :
    Except Fault (List Note) := do
  let degrees ← readDegrees degrees
  let pattern ← patternOf t.pattern
  let arpeggio : Arpeggio := { pattern, rounds := ← needed t.rounds, withChords := t.withChords }
  if arpeggio.rounds ≤ 0 || degrees.isEmpty || (pattern.isEmpty && !t.withChords) then
    arpeggio.play Registry.builtin degrees
  else
    let (key, mode) ← t.tonality
    ({ arpeggio with key := key.toList, mode } : Arpeggio).play Registry.builtin degrees

/-! ## 4. The command -/

/-- The notes of a task, or none if it has nothing to write. -/
def Task.sheet {σ : Type} (task : Task) (chance : Chance σ) (d : Disk) (s : Settings)
    (tempo : Amount) : Logged (Option Sheet) :=
  match task with
  | .compile path t => do return some (.onGrid (← t.notes d s tempo path))
  | .compose progression t => t.sheet chance s progression
  | .arpeggiate degrees t => do return some (.onGrid (← t.notes degrees))

/-- The formats of a command: how it reads documents, and how it writes tracks. -/
structure Formats where
  document : DocumentReader
  track : Midi.Writer

/-- The formats of this library. -/
def Formats.standard : Formats := ⟨Document.read, Midi.standardWriter⟩

/-- The settings of a command line: those of the configuration. -/
def Shared.settings (shared : Shared) (f : Formats) (d : Disk) : Logged Settings := do
  let path ← (needed shared.configuration : Except Fault String)
  let entries ← configurationEntries f.document d path
  (Settings.ofEntries entries : Except Fault Settings)

/-- The tempo of a command line: its own, or else that of the configuration. -/
def Shared.tempoOver (shared : Shared) (s : Settings) : Amount :=
  shared.tempo.getD (.real s.tempo)

/-- How a path is reported, if there is one. -/
def shownPath (path : Given String) : String := path.getD "[]"

/-- The disk after a task, and the fault that cut its file short if there was one; nothing if the
    task had nothing to write. -/
def perform {σ : Type} (i : Invocation) (f : Formats) (chance : Chance σ) (d : Disk) :
    Logged (Option (Disk × Option Fault)) := do
  let s ← i.shared.settings f d
  let tempo := i.shared.tempoOver s
  match ← i.task.sheet chance d s tempo with
  | none => return none
  | some sheet =>
    let saved ← Midi.saveSheet f.track sheet (shownPath i.shared.output) tempo 0
    let path ← (needed i.shared.output : Except Fault String)
    let after ← (d.write path saved.bytes : Except Fault Disk)
    return some (after, saved.cut)

/-- Whether a fault lies in what was given to the command, so that the command reports it. Any
    other ends the command itself. -/
def isReported : Fault → Bool
  | .wrongKind => false
  | .unknownSetting => false
  | .noMapping => false
  | .noText => false
  | .beyondFloat => false
  | .wholeOfInfinity => false
  | .tooManyToCount => false
  | .noResolution => false
  | .entryWithoutChord => false
  | .nothingToPick => false
  | .frameRate _ => false
  | .keySigns => false
  | .noSuchPlace _ => false
  | .endOfFile => false
  | .configurationText => false
  | _ => true

/-- How a command ended: what it reported, its code or the fault that ended it, and the disk. -/
structure Ending where
  log : List LogEntry
  code : Except Fault Int
  disk : Disk

/-- How a command ends with a fault, which is reported where that is its place. -/
def Ending.ofFault (log : List LogEntry) (e : Fault) (d : Disk) : Ending :=
  if isReported e then ⟨log ++ [⟨.error, e.message⟩], .ok 1, d⟩ else ⟨log, .error e, d⟩

/-- How a command ends after its task. -/
def endingOf (d : Disk) (r : Logged (Option (Disk × Option Fault))) : Ending :=
  match r.outcome with
  | .ok (some (after, none)) => ⟨r.log, .ok 0, after⟩
  | .ok (some (after, some e)) => .ofFault r.log e after
  | .ok none => ⟨r.log, .ok 1, d⟩
  | .error e => .ofFault r.log e d

/-- The reports that are shown: all of them, or all but the smallest. -/
def shownLog (verbose : Bool) (log : List LogEntry) : List LogEntry :=
  if verbose then log else log.filter fun e => e.level != .debug

/-- Carries out an invocation. -/
def Invocation.carryOut {σ : Type} (i : Invocation) (f : Formats) (chance : Chance σ) (d : Disk) :
    Ending :=
  let ending := endingOf d (perform i f chance d)
  { ending with log := shownLog i.shared.verbose ending.log }

/-- Carries out a command line in some formats. -/
def carryOutIn {σ : Type} (f : Formats) (words : List String) (chance : Chance σ) (d : Disk) :
    Except Stop Ending :=
  (Invocation.read words).map fun i => i.carryOut f chance d

/-- Carries out a command line. -/
def carryOut {σ : Type} (words : List String) (chance : Chance σ) (d : Disk) :
    Except Stop Ending :=
  carryOutIn .standard words chance d

end Cantilena.Command
