import Cantilena.Chord.Token
import Cantilena.Log
import Cantilena.Note
import Cantilena.Number.Shortest

/-!
# Note tokens

A note token holds notes written back to back; they start together, and the token lasts as long as
the longest of them. Commas separate nothing and mean nothing.

* `WrittenNote` -- a note as written: its sign, its octave digit and its length operator;
* `pieces` -- a token cut into notes, commas and stray characters;
* `Failure` -- a piece of text that gives no note, and the reason;
* `NoteToken.resolve` -- the notes, the failures and the length of a token.
-/

namespace Cantilena.Notation

/-! ## 1. Pieces -/

/-- A note as written. The operand of a length operator may be missing. -/
structure WrittenNote where
  sign : Sign
  octave : Option Char := none
  length : Option (LengthOperator × List Char) := none
  deriving DecidableEq, Repr, Inhabited

namespace WrittenNote

/-- How a note is written. -/
def toChars (n : WrittenNote) : List Char :=
  n.sign.toChars ++ n.octave.toList ++
    match n.length with
    | none => []
    | some (op, digits) => op.toChar :: digits

/-- The octave digit at the front of a text, and the rest. -/
def leadingOctave : List Char → Option Char × List Char
  | [] => (none, [])
  | c :: rest => if Text.isDigit c then (some c, rest) else (none, c :: rest)

/-- The length operator at the front of a text with the digits after it, and the rest. -/
def leadingLength : List Char → Option (LengthOperator × List Char) × List Char
  | [] => (none, [])
  | c :: rest =>
    match LengthOperator.ofChar? c with
    | some op => (some (op, rest.takeWhile Text.isDigit), rest.dropWhile Text.isDigit)
    | none => (none, c :: rest)

/-- The note at the front of a text, and the rest. -/
def leading? (s : List Char) : Option (WrittenNote × List Char) :=
  (Sign.leading? s).map fun (sign, afterSign) =>
    let (octave, afterOctave) := leadingOctave afterSign
    let (length, rest) := leadingLength afterOctave
    (⟨sign, octave, length⟩, rest)

theorem length_leadingOctave (s : List Char) : (leadingOctave s).2.length ≤ s.length := by
  unfold leadingOctave
  split
  · simp
  · split <;> simp

theorem length_leadingLength (s : List Char) : (leadingLength s).2.length ≤ s.length := by
  unfold leadingLength
  split
  · simp
  · rename_i rest
    have := Text.length_dropWhile_le Text.isDigit rest
    split
    · simp only [List.length_cons]; omega
    · simp

theorem length_leadingAccidental (s : List Char) :
    (NoteName.leadingAccidental s).2.length ≤ s.length := by
  unfold NoteName.leadingAccidental
  split
  · split <;> simp
  · simp

theorem length_leadingName {s rest : List Char} {n : NoteName}
    (h : NoteName.leading? s = some (n, rest)) : rest.length < s.length := by
  unfold NoteName.leading? at h
  split at h
  · rename_i c tail
    obtain ⟨l, _, hl⟩ := Option.map_eq_some_iff.1 h
    have := length_leadingAccidental tail
    simp only [Prod.mk.injEq] at hl
    rw [← hl.2]
    simp only [List.length_cons]
    omega
  · simp at h

theorem length_leadingSign {s rest : List Char} {sign : Sign}
    (h : Sign.leading? s = some (sign, rest)) : rest.length < s.length := by
  unfold Sign.leading? at h
  split at h
  · simp only [Option.some.injEq, Prod.mk.injEq] at h
    rw [← h.2]; simp
  · obtain ⟨⟨n, tail⟩, hn, he⟩ := Option.map_eq_some_iff.1 h
    simp only [Prod.mk.injEq] at he
    rw [← he.2]
    exact length_leadingName hn

/-- A note takes at least one character. -/
theorem length_leading? {s rest : List Char} {n : WrittenNote}
    (h : leading? s = some (n, rest)) : rest.length < s.length := by
  unfold leading? at h
  obtain ⟨⟨sign, afterSign⟩, hs, he⟩ := Option.map_eq_some_iff.1 h
  simp only [Prod.mk.injEq] at he
  have h1 := length_leadingSign hs
  have h2 := length_leadingOctave afterSign
  have h3 := length_leadingLength (leadingOctave afterSign).2
  rw [← he.2]
  omega

end WrittenNote

/-- A piece of a note token. -/
inductive Piece
  | comma
  | stray (c : Char)
  | note (n : WrittenNote)
  deriving DecidableEq, Repr, Inhabited

/-- How a piece is written. -/
def Piece.toChars : Piece → List Char
  | .comma => [',']
  | .stray c => [c]
  | .note n => n.toChars

/-- A text cut into pieces. -/
def pieces (s : List Char) : List Piece :=
  match s with
  | [] => []
  | c :: rest =>
    if c == ',' then .comma :: pieces rest
    else
      match h : WrittenNote.leading? (c :: rest) with
      | none => .stray c :: pieces rest
      | some (n, tail) =>
        have := WrittenNote.length_leading? h
        .note n :: pieces tail
termination_by s.length
decreasing_by
  · simp
  · simp
  · assumption

/-! ## 2. Failures -/

/-- Why a piece of notation gives no note. -/
inductive Reason
  /-- A character that starts nothing, in a token. -/
  | strayCharacter (token : List Char)
  /-- A length operator without operand, in a token. -/
  | operatorAlone (token : List Char)
  | outOfRange
  | chord (cause : ChordFault)
  | toneOutOfRange (pitch : Int)
  deriving DecidableEq, Repr, Inhabited

/-- The wording of a reason. -/
def Reason.message : Reason → String
  | .strayCharacter token => "unexpected character in " ++ Text.quoted token
  | .operatorAlone token => "length operator without a number in " ++ Text.quoted token
  | .outOfRange => "pitch outside the MIDI range"
  | .chord cause => cause.message
  | .toneOutOfRange pitch => "chord tone " ++ toString pitch ++ " outside the MIDI range"

/-- A piece of notation that gives no note: its text, the reason and the place of its token. -/
structure Failure where
  text : List Char
  reason : Reason
  token : Int
  deriving DecidableEq, Repr, Inhabited

/-- Whether the wording of a reason can be written. -/
def Reason.isWritable : Reason → Bool
  | .toneOutOfRange pitch => Number.isWritable pitch
  | _ => true

/-- A failure, which is reported with its reason and its place and therefore has to be writable. -/
def Failure.make (text : List Char) (reason : Reason) (token : Int) : Except Fault Failure :=
  if reason.isWritable && Number.isWritable token then .ok ⟨text, reason, token⟩
  else .error .tooManyToWrite

/-- The report of a failure. -/
def Failure.entry (f : Failure) : LogEntry :=
  ⟨.debug, "Dropped " ++ Text.quoted f.text ++ " (token " ++ toString f.token ++ "): "
    ++ f.reason.message⟩

/-! ## 3. Resolving a token -/

/-- What stands around a token: where it starts, the octave and the length of notes without their
    own, the velocity, and its place in the line. -/
structure Place where
  cursor : Int
  octave : Int
  length : Int
  velocity : Int := Note.defaultVelocity
  index : Int := -1
  deriving DecidableEq, Repr, Inhabited

/-- The notes and failures of a part of a token, and the length of the longest note. -/
structure Resolved where
  notes : List Note := []
  failures : List Failure := []
  length : Int := 0
  deriving DecidableEq, Repr

/-- Two parts of a token. They start together. -/
def Resolved.beside (a b : Resolved) : Resolved :=
  ⟨a.notes ++ b.notes, a.failures ++ b.failures, max a.length b.length⟩

/-- The length of a written note, and the failure of an operator without operand. -/
def WrittenNote.lengthAt (n : WrittenNote) (p : Place) (token : List Char) :
    Except Fault (Int × List Failure) :=
  match n.length with
  | none => .ok (p.length, [])
  | some (op, []) => do
    let failure ← Failure.make (n.sign.toChars ++ [op.toChar]) (.operatorAlone token) p.index
    return (p.length, [failure])
  | some (op, digits) =>
    (Number.wholeNumber digits).map fun operand => (lengthWith p.length (some (op, operand)), [])

/-- The octave of a written note. -/
def WrittenNote.octaveAt (n : WrittenNote) (p : Place) : Except Fault Int :=
  match n.octave with
  | none => .ok p.octave
  | some c => Number.wholeNumber [c]

/-- A note name with its octave, if that can be written. -/
def namedOctave (name : NoteName) (octave : Int) : Except Fault (List Char) :=
  if Number.isWritable octave then .ok (name.toChars ++ (toString octave).toList)
  else .error .tooManyToWrite

/-- The note or the failure that a written note gives. -/
def WrittenNote.resolve (n : WrittenNote) (p : Place) (token : List Char) :
    Except Fault Resolved := do
  let octave ← n.octaveAt p
  let (length, failures) ← n.lengthAt p token
  match n.sign with
  | .silence => return ⟨[], failures, length⟩
  | .note name =>
    let pitch := Pitch.ofClass name.pitchClass octave
    if Pitch.playable pitch then
      let note ← Note.make pitch p.cursor length p.velocity
      return ⟨[note], failures, length⟩
    else
      let failure ← Failure.make (← namedOctave name octave) .outOfRange p.index
      return ⟨[], failures ++ [failure], length⟩

/-- What a piece of a token gives. -/
def Piece.resolve (p : Place) (token : List Char) : Piece → Except Fault Resolved
  | .comma => .ok {}
  | .stray c => do
    let failure ← Failure.make [c] (.strayCharacter token) p.index
    return { failures := [failure] }
  | .note n => n.resolve p token

/-- The failures of a piece that ends in a fault: its octave and its length are looked at before
    anything else. -/
def Piece.failuresBefore (p : Place) (token : List Char) : Piece → List Failure
  | .note n =>
    match n.octaveAt p, n.lengthAt p token with
    | .ok _, .ok (_, failures) => failures
    | _, _ => []
  | _ => []

/-- What pieces of a token give. -/
def resolvePieces (p : Place) (token : List Char) : List Piece → Except Fault Resolved
  | [] => .ok {}
  | piece :: rest => do
    let first ← piece.resolve p token
    let others ← resolvePieces p token rest
    return first.beside others

/-- The length of a token without a note but with a failure is the default length. -/
def Resolved.settled (r : Resolved) (p : Place) : Resolved :=
  if r.length = 0 ∧ r.failures ≠ [] then { r with length := p.length } else r

namespace NoteToken

/-- The notes, the failures and the length of a note token. -/
def resolve (token : List Char) (p : Place) : Except Fault Resolved :=
  (resolvePieces p token (pieces (plainAccidentals token))).map (·.settled p)

/-- The reports of a note token, up to the piece where a fault ends it. -/
def log (token : List Char) (p : Place) : List LogEntry :=
  go (pieces (plainAccidentals token))
where
  go : List Piece → List LogEntry
    | [] => []
    | piece :: rest =>
      match piece.resolve p token with
      | .ok r => r.failures.map Failure.entry ++ go rest
      | .error _ => (piece.failuresBefore p token).map Failure.entry

end NoteToken

end Cantilena.Notation
