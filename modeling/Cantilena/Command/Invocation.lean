import Cantilena.Command.Option
import Cantilena.Settings

/-!
# Command lines

A command line is options for every task, the name of a task, and the options and the operand of
the task.

* `Shared` -- what options for every task set;
* `Task` -- a block of notation to be compiled, a melody to be written, or an arpeggio;
* `Invocation.read` -- reads a command line.
-/

namespace Cantilena.Command

/-! ## 1. Settings -/

/-- What options for every task set. -/
structure Shared where
  configuration : Given String := some configurationPath
  output : Given String := some "groovix.mid"
  tempo : Option Amount := none
  verbose : Bool := false
  deriving DecidableEq, Repr

/-- A file of notation to be compiled. -/
structure CompileTask where
  bars : Given Int := some 64
  deriving DecidableEq, Repr

/-- A melody to be written over a progression. -/
structure ComposeTask where
  seed : Option (Given Int) := none
  candidates : Given Int := some 24
  keep : Given Int := some 3
  workers : Given Int := some 1
  withChords : Bool := false
  deriving DecidableEq, Repr

/-- Scale degrees to be played as arpeggios. -/
structure ArpeggiateTask where
  key : Given String := some "C"
  mode : Given String := some "ionian"
  pattern : Option String := none
  rounds : Given Int := some 1
  withChords : Bool := true
  deriving DecidableEq, Repr

/-- A task with its operand: the path of a file, a progression, or scale degrees. -/
inductive Task
  | compile (path : String) (t : CompileTask)
  | compose (progression : String) (t : ComposeTask)
  | arpeggiate (degrees : String) (t : ArpeggiateTask)
  deriving DecidableEq, Repr

/-- A command line that has been read. -/
structure Invocation where
  shared : Shared
  task : Task
  deriving DecidableEq, Repr

/-! ## 2. Options -/

/-- An option whose value is a whole number. -/
def wholeOption {α : Type} (names : List String) (set : Given Int → α → α) : Opt α :=
  ⟨names, .value fun
    | none, a => some (set none a)
    | some s, a => (Number.wholeNumber s.toList).toOption.map fun n => set (some n) a⟩

/-- An option whose value is a text. -/
def textOption {α : Type} (names : List String) (set : Given String → α → α) : Opt α :=
  ⟨names, .value fun s a => some (set s a)⟩

/-- An option without value. -/
def flagOption {α : Type} (names : List String) (set : α → α) : Opt α := ⟨names, .flag set⟩

/-- The options for every task. -/
def sharedOptions : List (Opt Shared) :=
  [helpOption,
    textOption ["--config"] fun s a => { a with configuration := s },
    textOption ["--output", "-o"] fun s a => { a with output := s },
    ⟨["--bpm"], .value fun
      | none, a => some { a with tempo := some (.missing .wrongKind) }
      | some s, a =>
        (Number.decimalNumber s.toList).toOption.map fun x => { a with tempo := some (.real x) }⟩,
    flagOption ["--verbose", "-v"] fun a => { a with verbose := true }]

/-- The options of compiling. -/
def compileOptions : List (Opt CompileTask) :=
  [helpOption, wholeOption ["--bars"] fun n a => { a with bars := n }]

/-- The options of composing. How many workers there are changes nothing in the outcome. -/
def composeOptions : List (Opt ComposeTask) :=
  [helpOption,
    wholeOption ["--seed"] fun n a => { a with seed := some n },
    wholeOption ["--candidates"] fun n a => { a with candidates := n },
    wholeOption ["--keep-top"] fun n a => { a with keep := n },
    wholeOption ["--workers"] fun n a => { a with workers := n },
    flagOption ["--with-chords"] fun a => { a with withChords := true }]

/-- The options of arpeggios. -/
def arpeggiateOptions : List (Opt ArpeggiateTask) :=
  [helpOption,
    textOption ["--key"] fun s a => { a with key := s },
    textOption ["--mode"] fun s a => { a with mode := s },
    textOption ["--pattern"] fun s a => { a with pattern := s },
    wholeOption ["--repeat"] fun n a => { a with rounds := n },
    flagOption ["--no-chords"] fun a => { a with withChords := false }]

/-! ## 3. Reading -/

/-- The settings and the operand of a task, and whether something was left over. -/
def readTask {α : Type} (options : List (Opt α)) (start : α) (words : List String) :
    Except Stop (α × String × Bool) := do
  let r ← readAll options ⟨start, none, false⟩ (← wordsOf options words)
  match r.operand with
  | some operand => return (r.settings, operand, r.leftOver)
  | none => throw .misuse

/-- The task of a name, and whether something was left over of its words. -/
def readNamed (name : String) (words : List String) : Except Stop (Task × Bool) :=
  if name = "notation" then do
    let (t, operand, leftOver) ← readTask compileOptions {} words
    return (.compile operand t, leftOver)
  else if name = "melody" then do
    let (t, operand, leftOver) ← readTask composeOptions {} words
    return (.compose operand t, leftOver)
  else if name = "arpeggio" then do
    let (t, operand, leftOver) ← readTask arpeggiateOptions {} words
    return (.arpeggiate operand t, leftOver)
  else .error .misuse

/-- Reads a command line. -/
def Invocation.read (words : List String) : Except Stop Invocation := do
  let (r, rest) ← readOptions sharedOptions ⟨{}, none, false⟩ (← wordsOf sharedOptions words)
  match rest with
  | (name, .operand) :: rest =>
    let (task, leftOver) ← readNamed name (rest.map (·.1))
    if r.leftOver || leftOver then throw .misuse
    return ⟨r.settings, task⟩
  | _ => throw .misuse

end Cantilena.Command
