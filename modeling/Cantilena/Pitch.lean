import Cantilena.Fault

/-!
# Pitches and note names

A pitch is a whole number of semitones, twelve to the octave, middle C (in octave 4) at 60.

* `NoteName` -- a letter with or without an accidental, and the pitch class it names;
* `Sign` -- a note name or the rest sign;
* `Pitch.ofClass`, `Pitch.classOf`, `Pitch.octaveOf` -- a pitch from its class and octave, and
  back;
* `Pitch.name` -- the name of a pitch, spelled with sharps.
-/

namespace Cantilena

/-- The seven letters of the notes. -/
inductive Letter
  | c | d | e | f | g | a | b
  deriving DecidableEq, Repr, Inhabited

/-- Nothing, a sharp or a flat after the letter. -/
inductive Accidental
  | natural | sharp | flat
  deriving DecidableEq, Repr, Inhabited

/-- A note name. -/
structure NoteName where
  letter : Letter
  accidental : Accidental := .natural
  deriving DecidableEq, Repr, Inhabited

/-! ## 1. Spelling -/

namespace Letter

/-- The letter a character writes. -/
def ofChar? : Char → Option Letter
  | 'C' => some .c | 'D' => some .d | 'E' => some .e | 'F' => some .f
  | 'G' => some .g | 'A' => some .a | 'B' => some .b
  | _ => none

/-- The character that writes a letter. -/
def toChar : Letter → Char
  | .c => 'C' | .d => 'D' | .e => 'E' | .f => 'F' | .g => 'G' | .a => 'A' | .b => 'B'

/-- Semitones from C. -/
def semitones : Letter → Int
  | .c => 0 | .d => 2 | .e => 4 | .f => 5 | .g => 7 | .a => 9 | .b => 11

theorem ofChar?_toChar (l : Letter) : ofChar? l.toChar = some l := by cases l <;> rfl

end Letter

namespace Accidental

/-- The accidental a character writes. -/
def ofChar? : Char → Option Accidental
  | '#' => some .sharp
  | 'b' => some .flat
  | _ => none

/-- How an accidental is written. -/
def toChars : Accidental → List Char
  | .natural => []
  | .sharp => ['#']
  | .flat => ['b']

/-- Semitones from the natural note. -/
def semitones : Accidental → Int
  | .natural => 0
  | .sharp => 1
  | .flat => -1

end Accidental

/-- A text with the sharp and flat signs written as `#` and `b`. -/
def plainAccidentals (s : List Char) : List Char :=
  s.map fun c => if c == '♯' then '#' else if c == '♭' then 'b' else c

namespace NoteName

/-- How a note name is written. -/
def toChars (n : NoteName) : List Char := n.letter.toChar :: n.accidental.toChars

/-- The pitch class of a note name: C flat is that of B, and B sharp that of C. -/
def pitchClass (n : NoteName) : Int := (n.letter.semitones + n.accidental.semitones) % 12

/-- The accidental at the front of a text, and the rest. -/
def leadingAccidental : List Char → Accidental × List Char
  | c :: rest =>
    match Accidental.ofChar? c with
    | some a => (a, rest)
    | none => (.natural, c :: rest)
  | [] => (.natural, [])

/-- The note name at the front of a text, with the accidental if there is one, and the rest. -/
def leading? : List Char → Option (NoteName × List Char)
  | c :: rest => (Letter.ofChar? c).map fun l =>
    let (a, rest) := leadingAccidental rest
    (⟨l, a⟩, rest)
  | [] => none

/-- The note name a whole text writes. -/
def ofChars? (s : List Char) : Option NoteName :=
  match leading? (plainAccidentals s) with
  | some (n, []) => some n
  | _ => none

end NoteName

/-- What stands in the place of a note: its name, or the rest sign. -/
inductive Sign
  | silence
  | note (name : NoteName)
  deriving DecidableEq, Repr, Inhabited

namespace Sign

/-- How a sign is written. -/
def toChars : Sign → List Char
  | .silence => ['Z']
  | .note n => n.toChars

/-- The sign at the front of a text, and the rest of the text. -/
def leading? : List Char → Option (Sign × List Char)
  | 'Z' :: rest => some (.silence, rest)
  | s => (NoteName.leading? s).map fun (n, rest) => (.note n, rest)

end Sign

/-! ## 2. Pitches -/

namespace Pitch

/-- The octave taken where none is written. -/
def defaultOctave : Int := 5

/-- The lowest pitch of a note. -/
def lowest : Int := 0

/-- The highest pitch of a note. -/
def highest : Int := 127

/-- Whether a note can have this pitch. -/
def playable (p : Int) : Bool := lowest ≤ p && p ≤ highest

/-- The pitch of a class in an octave. -/
def ofClass (pc octave : Int) : Int := pc + 12 * (octave + 1)

/-- The class of a pitch. -/
def classOf (p : Int) : Int := p % 12

/-- The octave of a pitch. -/
def octaveOf (p : Int) : Int := p / 12 - 1

/-- The class a text names. -/
def classNamed (name : List Char) : Except Fault Int :=
  match NoteName.ofChars? name with
  | some n => .ok n.pitchClass
  | none => .error (.unknownNote name)

/-- The pitch a text names in an octave. -/
def named? (name : List Char) (octave : Int) : Option Int :=
  (NoteName.ofChars? name).map fun n => ofClass n.pitchClass octave

/-- The sharp-spelled names of the classes from C upward. -/
def classNames : List String :=
  ["C", "C#", "D", "D#", "E", "F", "F#", "G", "G#", "A", "A#", "B"]

/-- The sharp-spelled name of the class of a pitch. -/
def className (p : Int) : String := classNames.getD (classOf p).toNat ""

/-- The sharp-spelled name of a pitch with its octave. -/
def name (p : Int) : String := className p ++ toString (octaveOf p)

end Pitch

end Cantilena
