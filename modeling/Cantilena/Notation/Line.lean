import Cantilena.Notation.NoteToken
import Cantilena.Notation.Repeat
import Cantilena.Text.Line

/-!
# Lines of notation

A line starts at tick 0 and walks its tokens with a cursor.

* `noteLine` -- each token is placed at the cursor, which moves on by the token's length;
* `chordLine` -- each token is one chord. A token that is not understood moves the cursor all the
  same;
* `readHeader` -- the kind of a line and its octave and length digits;
* `readLine` -- compiles one line: header, expansion, and the walk over the tokens.
-/

namespace Cantilena.Notation

/-! ## 1. Walks -/

/-- What holds for all tokens of a line: the octave and the length of notes without their own,
    and the velocity. -/
structure Defaults where
  octave : Int := Pitch.defaultOctave
  length : Int := 1
  velocity : Int := Note.defaultVelocity
  deriving DecidableEq, Repr, Inhabited

/-- How far the walk over a line has come: the cursor, the number of tokens passed, and the notes
    and failures so far. -/
structure Walk where
  cursor : Int := 0
  index : Nat := 0
  notes : Array Note := #[]
  failures : Array Failure := #[]
  deriving Repr

/-- The outcome of a line: its notes, its failures and the tick after its last token. -/
structure LineResult where
  notes : List Note := []
  failures : List Failure := []
  stop : Int := 0
  deriving DecidableEq, Repr

/-- The outcome of a finished walk. -/
def Walk.result (w : Walk) : LineResult := ⟨w.notes.toList, w.failures.toList, w.cursor⟩

/-- A walk moved on by a token's notes, failures and length. -/
def Walk.add (w : Walk) (r : Resolved) : Walk :=
  ⟨w.cursor + r.length, w.index + 1, w.notes ++ r.notes, w.failures ++ r.failures⟩

/-- The place where a walk stands. -/
def Walk.place (w : Walk) (d : Defaults) : Place :=
  ⟨w.cursor, d.octave, d.length, d.velocity, w.index⟩

/-- Places one note token. -/
def noteStep (d : Defaults) (w : Walk) (token : List Char) : Except Fault Walk :=
  (NoteToken.resolve token (w.place d)).map w.add

/-- The notes of a line of note tokens. -/
def noteLine (d : Defaults) (tokens : List (List Char)) : Except Fault LineResult :=
  (tokens.foldlM (noteStep d) {}).map Walk.result

/-- A chord token without the commas at its end. -/
def chordText (token : List Char) : List Char := Text.dropEnd (· == ',') token

/-- The notes of a chord's tones, and a failure for each tone out of range. -/
def chordTones (p : Place) (length : Int) (token : List Char) :
    List Int → Except Fault Resolved
  | [] => .ok { length }
  | pitch :: rest => do
    if Pitch.playable pitch then
      let note ← Note.make pitch p.cursor length p.velocity
      return Resolved.beside { notes := [note] } (← chordTones p length token rest)
    else
      let failure ← Failure.make token (.toneOutOfRange pitch) p.index
      return Resolved.beside { failures := [failure] } (← chordTones p length token rest)

/-- The notes, the failures and the length of a chord token. -/
def chordToken (p : Place) (token : List Char) : Except Fault Resolved := do
  let chord ← ChordToken.read (chordText token) p.octave
  let length := lengthWith p.length chord.length
  match chord.sense with
  | .fault cause => return ⟨[], [← Failure.make token (.chord cause) p.index], length⟩
  | .silence => return { length }
  | .sounds _ pitches => chordTones p length token pitches

/-- Places one chord token. A token of commas alone is passed over. -/
def chordStep (d : Defaults) (w : Walk) (token : List Char) : Except Fault Walk :=
  if (chordText token).isEmpty then .ok { w with index := w.index + 1 }
  else (chordToken (w.place d) token).map w.add

/-- The notes of a line of chord tokens. -/
def chordLine (d : Defaults) (tokens : List (List Char)) : Except Fault LineResult :=
  (tokens.foldlM (chordStep d) {}).map Walk.result

/-! ## 2. Reports -/

/-- The report of a quality without formula. -/
def noFormula (quality text : List Char) : LogEntry :=
  ⟨.debug, "No chord formula for " ++ Text.quoted quality ++ " in " ++ Text.quoted text⟩

/-- The reports of a failure in a chord line: an unknown quality is reported by itself first. -/
def chordEntries (f : Failure) : List LogEntry :=
  match f.reason with
  | .chord (.unknownQuality quality) => [noFormula quality (chordText f.text), f.entry]
  | _ => [f.entry]

/-- The reports of a note line, up to the token where a fault ends it. -/
def noteLog (d : Defaults) : (index : Nat) → List (List Char) → List LogEntry
  | _, [] => []
  | index, token :: rest =>
    let p : Place := ⟨0, d.octave, d.length, d.velocity, index⟩
    NoteToken.log token p ++
      match NoteToken.resolve token p with
      | .ok _ => noteLog d (index + 1) rest
      | .error _ => []

/-- The reports of a chord line, up to the token where a fault ends it. -/
def chordLog (d : Defaults) : (index : Nat) → List (List Char) → List LogEntry
  | _, [] => []
  | index, token :: rest =>
    if (chordText token).isEmpty then chordLog d (index + 1) rest
    else
      match chordToken ⟨0, d.octave, d.length, d.velocity, index⟩ token with
      | .ok r => r.failures.flatMap chordEntries ++ chordLog d (index + 1) rest
      | .error _ => []

/-! ## 3. Headers -/

/-- The sign of a note line. -/
def noteSign : Char := '#'

/-- The sign of a chord line. -/
def chordSign : Char := '&'

/-- The number that a digit at the front of a text writes, or another. -/
def digitOr (default : Int) : List Char → Except Fault Int
  | [] => .ok default
  | c :: _ => if Text.isDigit c then Number.wholeNumber [c] else .ok default

/-- The octave and the length of a header: its second and third characters where they are
    digits. A length is at least one tick. -/
def readHeader (token : List Char) (octave length : Int) : Except Fault (Int × Int) := do
  let octave ← digitOr octave (token.drop 1)
  let length ← digitOr length (token.drop 2)
  return (octave, max 1 length)

/-! ## 4. Compiling a line -/

/-- What a line or a block of notation compiles to. `faults` holds the refused expansions. -/
structure Reading where
  notes : List Note := []
  failures : List Failure := []
  faults : List Fault := []
  stop : Int := 0
  deriving DecidableEq, Repr

/-- What a resolved line reads as. -/
def LineResult.reading (r : LineResult) : Reading := ⟨r.notes, r.failures, [], r.stop⟩

/-- The report of a line that grows too large. -/
def skipped (line : List Char) (cause : Fault) : LogEntry :=
  ⟨.warning, "Skipped line " ++ Text.quoted (line.take 40) ++ ": " ++ cause.message⟩

/-- The outcome of the tokens of a line, with its reports. -/
def readTokens (kind : Char) (d : Defaults) (tokens : List (List Char)) : Logged Reading :=
  if kind == noteSign then
    ⟨noteLog d 0 tokens, (noteLine d tokens).map LineResult.reading⟩
  else
    let d := { d with velocity := Note.chordVelocity }
    ⟨chordLog d 0 tokens, (chordLine d tokens).map LineResult.reading⟩

/-- Compiles one line. A line that does not start with one of the two signs is empty. -/
def readLine (line : List Char) (octave length limit : Int) : Logged Reading :=
  let bare := Text.strip line
  match bare with
  | [] => .ok {}
  | kind :: _ =>
    if kind == noteSign || kind == chordSign then
      match expand (tokenize bare) limit with
      | .error (.tooLarge most requested) =>
        let cause := Fault.tooLarge most requested
        ⟨[skipped bare cause], .ok { faults := [cause] }⟩
      | .error cause => .fault cause
      | .ok tokens => do
        let (octave, length) ← readHeader (tokens.headD []) octave length
        readTokens kind { octave, length } tokens.tail
    else .ok {}

/-! ## 5. Compiling a block -/

/-- The outcome of lines one after the other; they all start at tick 0. -/
def readLines (octave length limit : Int) : List (List Char) → Logged Reading
  | [] => .ok {}
  | line :: rest => do
    let first ← readLine line octave length limit
    let others ← readLines octave length limit rest
    return ⟨first.notes ++ others.notes, first.failures ++ others.failures,
      first.faults ++ others.faults, max first.stop others.stop⟩

/-- The report of the failures of a block, if there are any. -/
def failureCount (failures : List Failure) : List LogEntry :=
  if failures.isEmpty then []
  else [⟨.info, toString failures.length ++ " notation item(s) could not be resolved"⟩]

/-- Compiles a block of lines. -/
def readBlock (text : List Char) (octave length limit : Int) : Logged Reading := do
  let all ← readLines octave length limit (Text.splitLines text)
  Logged.tell (failureCount all.failures)
  return { all with notes := sortNotes all.notes }

end Cantilena.Notation
