import Cantilena.Proofs.Chord.Parts
import Cantilena.Proofs.Notation.Modest

/-!
# Note tokens that are spelled

The grammar of note tokens stands apart from the scanner that cuts them: a spelled token is a row of
commas and notes, and a note is a sign, an octave digit or none, and a length operator with its
operand or none. A token fails in nothing just where it is spelled and its notes can have their
pitches, and then it gives one note for each that is spelled.

* `SpelledNote`, `SpelledItem`, `spelling` -- the grammar;
* `WrittenNote.leading?_toChars_append`, `pieces_spelling` -- a spelled text is cut into what is
  spelled;
* `exists_resolvePieces_spelled` -- what spelled pieces give;
* `exists_spelling` -- what fails in nothing is spelled;
* `NoteToken.resolves_spelled` -- both directions for whole tokens.
-/

namespace Cantilena

open ChordToken (tailChars)
open Number (isWritable mostDigits)
open Text (isDigit isAsciiDigit IsNumbered)

/-! ## 1. Signs as they are written -/

/-- A text that goes on with nothing that a note can be made longer by. -/
def StartsAnew (s : List Char) : Prop :=
  ∀ c ∈ s.head?, isDigit c = false ∧ Accidental.ofChar? c = none ∧ LengthOperator.ofChar? c = none

theorem Sign.exists_head (sign : Sign) : ∃ c rest, sign.toChars = c :: rest
    ∧ (c == ',') = false ∧ StartsAnew [c] := by
  have hhead (c : Char) (h : isDigit c = false ∧ Accidental.ofChar? c = none
      ∧ LengthOperator.ofChar? c = none) : StartsAnew [c] :=
    fun b hb => Option.some.inj hb ▸ h
  cases sign with
  | silence => exact ⟨'Z', [], rfl, rfl, hhead 'Z' ⟨rfl, rfl, rfl⟩⟩
  | note name =>
    refine ⟨name.letter.toChar, _, rfl, ?_, hhead _ ?_⟩
    · cases name.letter <;> rfl
    · cases name.letter <;> exact ⟨rfl, rfl, rfl⟩

/-- A sign is found where it is written, if no accidental follows. -/
theorem Sign.leading?_toChars_append {sign : Sign} {rest : List Char}
    (h : ∀ c ∈ rest.head?, Accidental.ofChar? c = none) :
    leading? (sign.toChars ++ rest) = some (sign, rest) := by
  cases sign with
  | silence => rfl
  | note name => exact NoteName.sign_leading? (NoteName.leading?_toChars_append fun _ => h)

namespace Notation

/-! ## 2. The grammar -/

/-- A note as it is spelled: a note name or the rest sign, at most one octave digit, and at most one
    length operator, which has an operand. -/
structure SpelledNote where
  sign : Sign
  octave : Option {c : Char // isAsciiDigit c = true}
  length : Option WrittenLength

/-- What a spelled token is made of. -/
inductive SpelledItem
  | comma
  | note (n : SpelledNote)

namespace SpelledNote

/-- How a note is spelled. -/
def toChars (n : SpelledNote) : List Char :=
  n.sign.toChars ++ (n.octave.map Subtype.val).toList ++ tailChars n.length

/-- The octave of a note: that of its digit, or the default octave. -/
def ownOctave (default : Int) (n : SpelledNote) : Int :=
  n.octave.elim default fun c => (c.val.toNat : Int) - 48

/-- The length of a note: the one its operator makes of the default length, or the default length. -/
def ownLength (default : Int) (n : SpelledNote) : Int :=
  n.length.elim default fun l => lengthWith default (some l.value)

/-- The pitch of a note, if it is no rest. -/
def pitch? (default : Int) (n : SpelledNote) : Option Int :=
  match n.sign with
  | .silence => none
  | .note name => some (name.pitchClass + 12 * (n.ownOctave default + 1))

/-- The four numbers of the note that is spelled at a place, if it is no rest. -/
def numbers? (p : Place) (n : SpelledNote) : Option (Int × Int × Int × Int) :=
  (n.pitch? p.octave).map fun pitch => (pitch, p.cursor, n.ownLength p.length, p.velocity)

/-- Whether a note that is spelled can have its pitch. -/
def IsPlayable (default : Int) (n : SpelledNote) : Prop :=
  ∀ pitch ∈ n.pitch? default, 0 ≤ pitch ∧ pitch ≤ 127

instance (default : Int) (n : SpelledNote) : Decidable (n.IsPlayable default) :=
  inferInstanceAs (Decidable (∀ pitch ∈ n.pitch? default, 0 ≤ pitch ∧ pitch ≤ 127))

end SpelledNote

namespace SpelledItem

/-- How an item is spelled. -/
def toChars : SpelledItem → List Char
  | .comma => [',']
  | .note n => n.toChars

/-- The note of an item. -/
def note? : SpelledItem → Option SpelledNote
  | .comma => none
  | .note n => some n

end SpelledItem

/-- The text that items spell. -/
def spelling (items : List SpelledItem) : List Char := items.flatMap SpelledItem.toChars

/-- The notes among items, rests included. -/
def spelledNotes (items : List SpelledItem) : List SpelledNote := items.filterMap SpelledItem.note?

/-! ## 3. The pieces of a spelled text -/

theorem startsAnew_spelling (items : List SpelledItem) : StartsAnew (spelling items) := by
  cases items with
  | nil => exact fun c hc => by cases hc
  | cons item items =>
    cases item with
    | comma => exact fun c hc => Option.some.inj hc ▸ ⟨rfl, rfl, rfl⟩
    | note n =>
      obtain ⟨c, rest, hsign, -, hc⟩ := Sign.exists_head n.sign
      intro b hb
      rw [spelling, List.flatMap_cons, SpelledItem.toChars, SpelledNote.toChars, hsign] at hb
      exact hc b hb

namespace WrittenNote

theorem leadingOctave_append (octave : Option {c : Char // isAsciiDigit c = true})
    {rest : List Char} (h : ∀ c ∈ rest.head?, isDigit c = false) :
    leadingOctave ((octave.map Subtype.val).toList ++ rest) = (octave.map Subtype.val, rest) := by
  cases octave with
  | none =>
    cases rest with
    | nil => rfl
    | cons c rest =>
      have hc : isDigit c = false := h c rfl
      show leadingOctave (c :: rest) = (none, c :: rest)
      rw [leadingOctave, hc, if_neg Bool.false_ne_true]
  | some c =>
    show leadingOctave (c.val :: rest) = (some c.val, rest)
    rw [leadingOctave, Text.isDigit_of_isAsciiDigit c.property, if_pos rfl]

theorem leadingLength_append (length : Option WrittenLength) {rest : List Char}
    (h : StartsAnew rest) : leadingLength (tailChars length ++ rest)
      = (length.map fun l => (l.operator, l.digits), rest) := by
  cases length with
  | none =>
    cases rest with
    | nil => rfl
    | cons c rest =>
      have hc : LengthOperator.ofChar? c = none := (h c rfl).2.2
      show leadingLength (c :: rest) = (none, c :: rest)
      rw [leadingLength, hc]
  | some l =>
    have hdigits : ∀ c ∈ l.digits, isDigit c = true :=
      fun c hc => Text.isDigit_of_isAsciiDigit (l.ascii c hc)
    have hrest : rest.takeWhile isDigit = [] ∧ rest.dropWhile isDigit = rest := by
      cases rest with
      | nil => exact ⟨rfl, rfl⟩
      | cons c rest =>
        have hc : ¬ isDigit c = true := Bool.eq_false_iff.mp (h c rfl).1
        exact ⟨List.takeWhile_cons_of_neg hc, List.dropWhile_cons_of_neg hc⟩
    show leadingLength (l.operator.toChar :: (l.digits ++ rest))
      = (some (l.operator, l.digits), rest)
    rw [leadingLength, LengthOperator.ofChar?_toChar]
    simp only
    rw [List.takeWhile_append_of_pos hdigits, List.dropWhile_append_of_pos hdigits, hrest.1,
      hrest.2, List.append_nil]

end WrittenNote

/-- A spelled note as the scanner finds it. -/
def SpelledNote.written (n : SpelledNote) : WrittenNote :=
  ⟨n.sign, n.octave.map Subtype.val, n.length.map fun l => (l.operator, l.digits)⟩

/-- A spelled item as the scanner finds it. -/
def SpelledItem.piece : SpelledItem → Piece
  | .comma => .comma
  | .note n => .note n.written

/-- **A note is found where it is spelled**, as far as it is spelled. -/
theorem WrittenNote.leading?_toChars_append (n : SpelledNote) {rest : List Char}
    (h : StartsAnew rest) : leading? (n.toChars ++ rest) = some (n.written, rest) := by
  have hlength : ∀ c ∈ (tailChars n.length ++ rest).head?,
      isDigit c = false ∧ Accidental.ofChar? c = none := by
    cases n.length with
    | none => exact fun c hc => ⟨(h c hc).1, (h c hc).2.1⟩
    | some l =>
      intro c hc
      obtain rfl := Option.some.inj hc
      cases l.operator <;> exact ⟨rfl, rfl⟩
  have hoctave : ∀ c ∈ ((n.octave.map Subtype.val).toList ++ (tailChars n.length ++ rest)).head?,
      Accidental.ofChar? c = none := by
    cases n.octave with
    | none => exact fun c hc => (hlength c hc).2
    | some d =>
      intro c hc
      obtain rfl := Option.some.inj hc
      exact Accidental.ofChar?_of_isDigit (Text.isDigit_of_isAsciiDigit d.property)
  rw [SpelledNote.toChars, List.append_assoc, List.append_assoc, leading?,
    Sign.leading?_toChars_append hoctave]
  simp only [Option.map_some]
  rw [leadingOctave_append n.octave fun c hc => (hlength c hc).1, leadingLength_append n.length h]
  rfl

/-- **A spelled text is cut into what is spelled.** -/
theorem pieces_spelling (items : List SpelledItem) :
    pieces (spelling items) = items.map SpelledItem.piece := by
  induction items with
  | nil => exact pieces.eq_1
  | cons item items ih =>
    cases item with
    | comma =>
      show pieces (',' :: spelling items) = .comma :: items.map SpelledItem.piece
      rw [pieces, if_pos (beq_self_eq_true ','), ih]
    | note n =>
      have hleading := WrittenNote.leading?_toChars_append n (startsAnew_spelling items)
      obtain ⟨c, more, hsign, hcomma, -⟩ := Sign.exists_head n.sign
      have hchars : n.toChars ++ spelling items = c :: (more ++ ((n.octave.map Subtype.val).toList
          ++ tailChars n.length) ++ spelling items) := by
        rw [SpelledNote.toChars, hsign]
        simp
      rw [hchars] at hleading
      show pieces (n.toChars ++ spelling items) = .note n.written :: items.map SpelledItem.piece
      rw [hchars, pieces_note (Bool.eq_false_iff.mp hcomma) hleading, ih]

/-! ## 4. What is spelled gives its notes -/

namespace SpelledNote

variable {n : SpelledNote} {p : Place} {token : List Char}

theorem octaveAt_written (n : SpelledNote) (p : Place) :
    n.written.octaveAt p = .ok (n.ownOctave p.octave) := by
  unfold WrittenNote.octaveAt written ownOctave
  cases n.octave with
  | none => rfl
  | some c => exact Number.wholeNumber_digit c.property

theorem lengthAt_written (h : ∀ l ∈ n.length, l.digits.length ≤ mostDigits) :
    n.written.lengthAt p token = .ok (n.ownLength p.length, []) := by
  unfold WrittenNote.lengthAt written ownLength
  cases hlength : n.length with
  | none => rfl
  | some l =>
    have hread := l.wholeNumber_digits (h l hlength)
    have hne := l.ne_nil
    obtain ⟨op, digits, _, hascii⟩ := l
    cases digits with
    | nil => exact absurd rfl hne
    | cons c digits =>
      simp only [Option.map_some, hread]
      rfl

theorem ownLength_pos (hp : p.IsSound) (n : SpelledNote) : 1 ≤ n.ownLength p.length := by
  unfold ownLength
  cases n.length with
  | none => exact hp.length_pos
  | some l => exact lengthWith_pos p.length (some l.value)

/-- A spelled note that can have its pitch gives the note that is spelled, or none as a rest, and
    fails in nothing. -/
theorem exists_resolve_written (hp : p.IsSound) (token : List Char)
    (hlength : ∀ l ∈ n.length, l.digits.length ≤ mostDigits) (hplay : n.IsPlayable p.octave) :
    ∃ r, n.written.resolve p token = .ok r ∧ r.failures = []
      ∧ (r.notes.map fun note => (note.pitch, note.start, note.length, note.velocity))
        = (n.numbers? p).toList ∧ r.length = n.ownLength p.length := by
  have hoctave := octaveAt_written n p
  have hl : n.written.lengthAt p token = _ := lengthAt_written hlength
  cases hsign : n.sign with
  | silence =>
    refine ⟨⟨[], [], n.ownLength p.length⟩, WrittenNote.resolve_eq_ok.mpr
      ⟨_, _, _, hoctave, hl, .inl ⟨hsign, rfl⟩⟩, rfl, ?_, rfl⟩
    rw [numbers?, pitch?, hsign]
    rfl
  | note name =>
    have hpitch : n.pitch? p.octave
        = some (Pitch.ofClass name.pitchClass (n.ownOctave p.octave)) := by
      rw [pitch?, hsign]
      rfl
    have hrange := hplay _ hpitch
    have hvalid := Note.make_eq_ok
      ⟨hrange, hp.cursor_nonneg, ownLength_pos hp n, hp.velocity_range⟩
    have hplayable : Pitch.playable (Pitch.ofClass name.pitchClass (n.ownOctave p.octave)) = true :=
      Bool.and_eq_true_iff.mpr ⟨decide_eq_true hrange.1, decide_eq_true hrange.2⟩
    refine ⟨_, WrittenNote.resolve_eq_ok.mpr ⟨_, _, _, hoctave, hl,
      .inr (.inl ⟨name, _, hsign, hplayable, hvalid, rfl⟩)⟩, rfl, ?_, rfl⟩
    rw [numbers?, hpitch]
    rfl

end SpelledNote

/-- **What spelled pieces give**: one note for each that is spelled, in their order, no failure, and
    the length of the longest note. -/
theorem exists_resolvePieces_spelled {p : Place} (hp : p.IsSound) (token : List Char)
    {items : List SpelledItem} (h : ∀ n ∈ spelledNotes items, n.IsPlayable p.octave
      ∧ ∀ l ∈ n.length, l.digits.length ≤ mostDigits) :
    ∃ r, resolvePieces p token (items.map SpelledItem.piece) = .ok r ∧ r.failures = []
      ∧ (r.notes.map fun note => (note.pitch, note.start, note.length, note.velocity))
        = (spelledNotes items).filterMap (·.numbers? p)
      ∧ r.length = ((spelledNotes items).map (·.ownLength p.length)).foldr max 0 := by
  induction items with
  | nil => exact ⟨{}, rfl, rfl, rfl, rfl⟩
  | cons item items ih =>
    cases item with
    | comma =>
      obtain ⟨others, hothers, hfailures, hnotes, hlength⟩ := ih h
      refine ⟨_, bind_eq_ok.mpr ⟨{}, rfl, bind_eq_ok.mpr ⟨others, hothers, rfl⟩⟩, hfailures,
        hnotes, ?_⟩
      exact (Int.max_eq_right (resolvePieces_length_nonneg hothers)).trans hlength
    | note n =>
      obtain ⟨⟨hplay, hdigits⟩, hrest⟩ := List.forall_mem_cons.mp h
      obtain ⟨own, hown, hownFailures, hownNotes, hownLength⟩ :=
        SpelledNote.exists_resolve_written hp token hdigits hplay
      obtain ⟨others, hothers, hfailures, hnotes, hlength⟩ := ih hrest
      refine ⟨_, bind_eq_ok.mpr ⟨own, hown, bind_eq_ok.mpr ⟨others, hothers, rfl⟩⟩, ?_, ?_, ?_⟩
      · exact List.append_eq_nil_iff.mpr ⟨hownFailures, hfailures⟩
      · show (own.notes ++ others.notes).map _ = (n :: spelledNotes items).filterMap _
        rw [List.map_append, hownNotes, hnotes, List.filterMap_cons]
        cases n.numbers? p <;> rfl
      · show max own.length others.length = max (n.ownLength p.length) _
        rw [hownLength, hlength]
        rfl

/-! ## 5. What fails in nothing is spelled -/

/-- A row of pieces that are each spelled is spelled as a whole. -/
theorem exists_map_piece {Good : SpelledItem → Prop} {ps : List Piece}
    (h : ∀ piece ∈ ps, ∃ item : SpelledItem, item.piece = piece ∧ Good item) :
    ∃ items : List SpelledItem, items.map SpelledItem.piece = ps ∧ ∀ item ∈ items, Good item := by
  induction ps with
  | nil => exact ⟨[], rfl, fun _ hmem => absurd hmem List.not_mem_nil⟩
  | cons piece ps ih =>
    obtain ⟨⟨item, rfl, hitem⟩, hps⟩ := List.forall_mem_cons.mp h
    obtain ⟨items, rfl, hitems⟩ := ih hps
    exact ⟨item :: items, rfl, List.forall_mem_cons.mpr ⟨hitem, hitems⟩⟩

theorem SpelledNote.toChars_written (n : SpelledNote) : n.written.toChars = n.toChars := by
  rw [WrittenNote.toChars_eq, toChars]
  cases hlength : n.length <;> simp only [written, hlength] <;> rfl

theorem flatMap_toChars_piece (items : List SpelledItem) :
    (items.map SpelledItem.piece).flatMap Piece.toChars = spelling items := by
  rw [List.flatMap_map, spelling]
  refine congrArg (items.flatMap ·) (funext fun item => ?_)
  cases item with
  | comma => rfl
  | note n => exact n.toChars_written

theorem note_mem_of_mem_spelledNotes {items : List SpelledItem} {n : SpelledNote}
    (h : n ∈ spelledNotes items) : .note n ∈ items := by
  obtain ⟨item, hitem, he⟩ := List.mem_filterMap.mp h
  cases item with
  | comma => cases he
  | note m => exact Option.some.inj he ▸ hitem

/-- A note that is cut out is spelled if its digits are ASCII digits and no operator stands alone. -/
theorem exists_written {n : WrittenNote} (hoctave : ∀ c, n.octave = some c → isAsciiDigit c = true)
    (halone : ∀ op, n.length ≠ some (op, []))
    (hoperand : ∀ op digits, n.length = some (op, digits) → ∀ c ∈ digits, isAsciiDigit c = true) :
    ∃ m : SpelledNote, m.written = n := by
  obtain ⟨sign, digit, length⟩ := n
  obtain ⟨octave, rfl⟩ : ∃ octave : Option {c : Char // isAsciiDigit c = true},
      octave.map Subtype.val = digit := by
    cases digit with
    | none => exact ⟨none, rfl⟩
    | some c => exact ⟨some ⟨c, hoctave c rfl⟩, rfl⟩
  cases length with
  | none => exact ⟨⟨sign, octave, none⟩, rfl⟩
  | some tail =>
    obtain ⟨op, digits⟩ := tail
    have hne : digits ≠ [] := fun he => halone op (he ▸ rfl)
    exact ⟨⟨sign, octave, some ⟨op, digits, hne, hoperand op digits rfl⟩⟩, rfl⟩

/-- A spelled note that is not shown to be out of range can have its pitch. -/
theorem SpelledNote.isPlayable_of_isShown {m : SpelledNote} {octave index : Int} {token : List Char}
    {notes : List Note} (hshown : m.written.IsShown octave index token notes []) :
    m.IsPlayable octave := by
  obtain ⟨sign, digit, length⟩ := m
  intro pitch hpitch
  cases sign with
  | silence => cases hpitch
  | note name =>
    obtain rfl := Option.some.inj hpitch
    have hown := octaveAt_written ⟨.note name, digit, length⟩
      ⟨0, octave, 1, Note.defaultVelocity, 0⟩
    have hplay : Pitch.playable (Pitch.ofClass name.pitchClass
        (ownOctave octave ⟨.note name, digit, length⟩)) = true :=
      eq_true_of_ne_false fun hbad =>
        absurd (hshown.range name _ rfl hown hbad) List.not_mem_nil
    obtain ⟨hlow, hhigh⟩ := Bool.and_eq_true_iff.mp hplay
    exact ⟨of_decide_eq_true hlow, of_decide_eq_true hhigh⟩

/-- A note of a numbered text that fails in nothing is spelled, and can have its pitch. -/
theorem exists_spelledNote {text : List Char} (h : IsNumbered text) {n : WrittenNote}
    (hmem : .note n ∈ pieces text) {octave index : Int} {token : List Char} {notes : List Note}
    (hshown : n.IsShown octave index token notes []) :
    ∃ m : SpelledNote, m.written = n ∧ m.IsPlayable octave := by
  have hdigits := hasDigits_of_mem_pieces hmem
  have hcut : IsNumbered n.toChars := h.of_part (infix_of_note_mem_pieces hmem)
  rw [WrittenNote.toChars_eq] at hcut
  obtain ⟨m, rfl⟩ : ∃ m : SpelledNote, m.written = n := by
    refine exists_written (fun c hc => ?_) (fun op hop => ?_) fun op digits hlength c hc => ?_
    · exact hcut.ascii c (by simp [hc]) (hdigits.octave c hc)
    · exact absurd (hshown.alone op hop) List.not_mem_nil
    · have hlater : c ∈ WrittenNote.lengthChars n.length :=
        hlength ▸ List.mem_cons_of_mem op.toChar hc
      exact hcut.ascii c (List.mem_append_right _ hlater) (hdigits.operand op digits hlength c hc)
  exact ⟨m, rfl, SpelledNote.isPlayable_of_isShown hshown⟩

namespace NoteToken

variable {token : List Char} {p : Place}

/-- **A numbered token that fails in nothing is spelled**, and its notes can have their pitches. -/
theorem exists_spelling (h : IsNumbered token) (hp : 1 ≤ p.length) {r : Resolved}
    (hr : resolve token p = .ok r) (hfailures : r.failures = []) :
    ∃ items, spelling items = plainAccidentals token
      ∧ ∀ n ∈ spelledNotes items, n.IsPlayable p.octave := by
  have hshown := isShown_of_resolve hp hr
  rw [hfailures] at hshown
  have hspelled : ∀ piece ∈ pieces (plainAccidentals token), ∃ item : SpelledItem,
      item.piece = piece ∧ ∀ n, item = .note n → n.IsPlayable p.octave := by
    intro piece hpiece
    cases piece with
    | comma => exact ⟨.comma, rfl, fun n hn => by cases hn⟩
    | stray c => exact absurd (hshown _ hpiece) List.not_mem_nil
    | note n =>
      obtain ⟨m, rfl, hplay⟩ := exists_spelledNote h.plainAccidentals hpiece (hshown _ hpiece)
      exact ⟨.note m, rfl, fun n hn => SpelledItem.note.inj hn ▸ hplay⟩
  obtain ⟨items, hitems, hgood⟩ := exists_map_piece hspelled
  refine ⟨items, ?_, fun n hn => hgood _ (note_mem_of_mem_spelledNotes hn) n rfl⟩
  rw [← flatMap_toChars_piece, hitems, flatMap_toChars_pieces]

/-- The operands of what is spelled in a numbered token have no more digits than are read. -/
theorem length_digits_le (h : IsNumbered token) {items : List SpelledItem}
    (hitems : spelling items = plainAccidentals token) {n : SpelledNote}
    (hn : n ∈ spelledNotes items) : ∀ l ∈ n.length, l.digits.length ≤ mostDigits := by
  intro l hl
  have hpart : n.toChars <:+: plainAccidentals token := by
    obtain ⟨before, after, rfl⟩ := List.append_of_mem (note_mem_of_mem_spelledNotes hn)
    rw [← hitems, spelling, List.flatMap_append, List.flatMap_cons, ← List.append_assoc]
    exact List.infix_append _ _ _
  have hdigits : l.digits <:+: n.toChars := by
    have hlength : n.length = some l := hl
    rw [SpelledNote.toChars, hlength]
    exact ((List.suffix_cons l.operator.toChar l.digits).trans (List.suffix_append _ _)).isInfix
  exact h.plainAccidentals.rows _ (hdigits.trans hpart) fun c hc =>
    Text.isDigit_of_isAsciiDigit (l.ascii c hc)

/-- **A numbered token fails in nothing just where it is spelled and its notes can have their
    pitches.** It gives the notes that are spelled then, in their order, from the place where it
    stands on, and lasts as long as the longest of them, rests included. Whatever it holds, something
    is given for it if the default octave and the number of the token can be written. -/
theorem resolves_spelled (h : IsNumbered token) (hp : p.IsSound) :
    ((∃ r, resolve token p = .ok r ∧ r.failures = [])
      ↔ ∃ items, spelling items = plainAccidentals token
        ∧ ∀ n ∈ spelledNotes items, n.IsPlayable p.octave)
    ∧ (∀ items, spelling items = plainAccidentals token →
      (∀ n ∈ spelledNotes items, n.IsPlayable p.octave) →
      ∃ r, resolve token p = .ok r ∧ r.failures = []
        ∧ (r.notes.map fun note => (note.pitch, note.start, note.length, note.velocity))
          = (spelledNotes items).filterMap (·.numbers? p)
        ∧ r.length = ((spelledNotes items).map (·.ownLength p.length)).foldr max 0)
    ∧ (isWritable p.octave = true → isWritable p.index = true →
      ∃ r, resolve token p = .ok r) := by
  have hgives : ∀ items, spelling items = plainAccidentals token →
      (∀ n ∈ spelledNotes items, n.IsPlayable p.octave) →
      ∃ r, resolve token p = .ok r ∧ r.failures = []
        ∧ (r.notes.map fun note => (note.pitch, note.start, note.length, note.velocity))
          = (spelledNotes items).filterMap (·.numbers? p)
        ∧ r.length = ((spelledNotes items).map (·.ownLength p.length)).foldr max 0 := by
    intro items hitems hplay
    obtain ⟨r, hr, hfailures, hnotes, hlength⟩ := exists_resolvePieces_spelled hp token
      fun n hn => ⟨hplay n hn, length_digits_le h hitems hn⟩
    have hsettled : r.settled p = r := if_neg fun hbad => hbad.2 hfailures
    refine ⟨r, ?_, hfailures, hnotes, hlength⟩
    rw [resolve, ← hitems, pieces_spelling, hr]
    exact congrArg Except.ok hsettled
  refine ⟨⟨?_, ?_⟩, hgives, fun hoctave hindex => ?_⟩
  · rintro ⟨r, hr, hfailures⟩
    exact exists_spelling h hp.length_pos hr hfailures
  · rintro ⟨items, hitems, hplay⟩
    obtain ⟨r, hr, hfailures, -⟩ := hgives items hitems hplay
    exact ⟨r, hr, hfailures⟩
  · exact (exists_resolve_iff hp).mpr
      ⟨isLegible_of_isNumbered h, isWorded_of_isWritable h hoctave hindex⟩

/-- Two notes with lengths of their own, and a rest between them. -/
theorem resolves_spelled_rest : ∃ r, resolve "C♯5*2,Z,E♭-1".toList ⟨8, 4, 4, 100, 0⟩ = .ok r
    ∧ r.failures = []
    ∧ (r.notes.map fun note => (note.pitch, note.start, note.length, note.velocity))
      = [(73, 8, 8, 100), (63, 8, 3, 100)] ∧ r.length = 8 := by
  have hascii : ∀ c ∈ "C♯5*2,Z,E♭-1".toList.filter isDigit, isAsciiDigit c = true :=
    List.all_eq_true.mp (by decide +kernel)
  have hnumbered : IsNumbered "C♯5*2,Z,E♭-1".toList := Text.isNumbered_of_countP
    (by decide +kernel) fun c hc hdigit => hascii c (List.mem_filter.mpr ⟨hc, hdigit⟩)
  have hplace : Place.IsSound ⟨8, 4, 4, 100, 0⟩ := ⟨by decide, by decide, by decide⟩
  let items : List SpelledItem :=
    [.note ⟨.note ⟨.c, .sharp⟩, some ⟨'5', rfl⟩,
      some ⟨.times, ['2'], List.cons_ne_nil _ _, List.forall_mem_singleton.mpr rfl⟩⟩, .comma,
      .note ⟨.silence, none, none⟩, .comma,
      .note ⟨.note ⟨.e, .flat⟩, none,
        some ⟨.minus, ['1'], List.cons_ne_nil _ _, List.forall_mem_singleton.mpr rfl⟩⟩]
  exact (resolves_spelled hnumbered hplace).2.1 items rfl (by decide)

end NoteToken

end Notation

end Cantilena
