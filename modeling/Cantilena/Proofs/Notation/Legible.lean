import Cantilena.Proofs.Chord.Legible
import Cantilena.Proofs.Notation.Walking

/-!
# Which note tokens are resolved

A note token is resolved where its digits are read and the numbers that its failures name can be
written. Nothing else in it keeps it from being resolved: what gives no note gives a failure.

* `flatMap_toChars_pieces` -- nothing of a token is lost in its pieces;
* `NoteToken.IsLegible`, `NoteToken.IsWorded` -- the digits of a token are read, and the numbers in
  its failures can be written;
* `NoteToken.exists_resolve_iff` -- a token is resolved just where it is legible and worded;
* `NoteToken.IsShown`, `NoteToken.isShown_of_resolve` -- each piece of a resolved token is found in
  what it gives, as a note or as a failure.
-/

namespace Cantilena

open Number (IsReadable isWritable wholeNumber)
open Text (isDigit isDigits decimalValue)

/-! ## 1. Signs as they are written -/

theorem Letter.toChar_of_ofChar? {c : Char} {l : Letter} (h : Letter.ofChar? c = some l) :
    l.toChar = c := by
  unfold Letter.ofChar? at h
  split at h <;> cases h <;> rfl

theorem Accidental.toChars_of_ofChar? {c : Char} {a : Accidental}
    (h : Accidental.ofChar? c = some a) : a.toChars = [c] := by
  unfold Accidental.ofChar? at h
  split at h <;> cases h <;> rfl

theorem LengthOperator.toChar_of_ofChar? {c : Char} {op : LengthOperator}
    (h : LengthOperator.ofChar? c = some op) : op.toChar = c := by
  unfold LengthOperator.ofChar? at h
  split at h <;> cases h <;> rfl

theorem NoteName.toChars_append_of_leading? {s rest : List Char} {n : NoteName}
    (h : NoteName.leading? s = some (n, rest)) : n.toChars ++ rest = s := by
  cases s with
  | nil => cases h
  | cons c s =>
    obtain ⟨letter, hletter, he⟩ := Option.map_eq_some_iff.mp h
    obtain ⟨rfl, rfl⟩ := Prod.mk.inj he
    rw [NoteName.toChars, Letter.toChar_of_ofChar? hletter, List.cons_append]
    refine congrArg (c :: ·) ?_
    cases s with
    | nil => rfl
    | cons d s =>
      show (NoteName.leadingAccidental (d :: s)).1.toChars ++ (NoteName.leadingAccidental (d :: s)).2
        = d :: s
      rw [NoteName.leadingAccidental]
      cases haccidental : Accidental.ofChar? d with
      | none => rfl
      | some a => rw [Accidental.toChars_of_ofChar? haccidental, List.singleton_append]

theorem Sign.toChars_append_of_leading? {s rest : List Char} {sign : Sign}
    (h : Sign.leading? s = some (sign, rest)) : sign.toChars ++ rest = s := by
  unfold Sign.leading? at h
  split at h
  · obtain ⟨rfl, rfl⟩ := Prod.mk.inj (Option.some.inj h)
    rfl
  · obtain ⟨⟨n, rest'⟩, hleading, he⟩ := Option.map_eq_some_iff.mp h
    obtain ⟨rfl, rfl⟩ := Prod.mk.inj he
    exact NoteName.toChars_append_of_leading? hleading

namespace Notation

/-! ## 2. Failures and places -/

/-- A failure is made where its reason and the place of its token can be written. -/
theorem Failure.make_eq_ok {text : List Char} {reason : Reason} {index : Int} {f : Failure} :
    Failure.make text reason index = .ok f
      ↔ reason.isWritable = true ∧ isWritable index = true ∧ ⟨text, reason, index⟩ = f := by
  unfold Failure.make
  by_cases h : reason.isWritable = true ∧ isWritable index = true
  · rw [if_pos (Bool.and_eq_true_iff.mpr h)]
    exact ⟨fun he => ⟨h.1, h.2, Except.ok.inj he⟩, fun he => congrArg Except.ok he.2.2⟩
  · rw [if_neg fun hb => h (Bool.and_eq_true_iff.mp hb)]
    refine iff_of_false (fun he => ?_) fun he => h ⟨he.1, he.2.1⟩
    cases he

/-- A place at which notes can stand. -/
structure Place.IsSound (p : Place) : Prop where
  cursor_nonneg : 0 ≤ p.cursor
  length_pos : 1 ≤ p.length
  velocity_range : 0 ≤ p.velocity ∧ p.velocity ≤ 127

/-- A pitch that notes can have makes a note at a sound place. -/
theorem Place.IsSound.exists_note {p : Place} (hp : p.IsSound) {pitch length : Int}
    (hpitch : Pitch.playable pitch = true) (hlength : 1 ≤ length) :
    ∃ n, Note.make pitch p.cursor length p.velocity = .ok n := by
  simp only [Pitch.playable, Bool.and_eq_true, decide_eq_true_eq] at hpitch
  exact ⟨_, Note.make_eq_ok ⟨hpitch, hp.cursor_nonneg, hlength, hp.velocity_range⟩⟩

/-! ## 3. Written notes -/

namespace WrittenNote

/-- A note as it can be written: its octave is a digit, and so are the characters of its operand. -/
structure HasDigits (n : WrittenNote) : Prop where
  octave : ∀ c, n.octave = some c → isDigit c = true
  operand : ∀ op digits, n.length = some (op, digits) → ∀ c ∈ digits, isDigit c = true

theorem of_leadingOctave (s : List Char) :
    (leadingOctave s).1.toList ++ (leadingOctave s).2 = s
      ∧ ∀ c, (leadingOctave s).1 = some c → isDigit c = true := by
  cases s with
  | nil => exact ⟨rfl, fun c hc => by cases hc⟩
  | cons c s =>
    rw [leadingOctave]
    split
    · rename_i hdigit
      refine ⟨rfl, fun b hb => ?_⟩
      rwa [← Option.some.inj hb]
    · exact ⟨rfl, fun b hb => by cases hb⟩

/-- How the length of a note is written. -/
def lengthChars : Option (LengthOperator × List Char) → List Char
  | none => []
  | some (op, digits) => op.toChar :: digits

theorem toChars_eq (n : WrittenNote) :
    n.toChars = n.sign.toChars ++ n.octave.toList ++ lengthChars n.length := by
  unfold toChars lengthChars
  cases n.length <;> rfl

theorem of_leadingLength (s : List Char) :
    lengthChars (leadingLength s).1 ++ (leadingLength s).2 = s
      ∧ ∀ op digits, (leadingLength s).1 = some (op, digits) → ∀ c ∈ digits, isDigit c = true := by
  cases s with
  | nil => exact ⟨rfl, fun _ _ hd => by cases hd⟩
  | cons c s =>
    rw [leadingLength]
    split
    · rename_i op hop
      refine ⟨?_, fun op digits hd => ?_⟩
      · rw [lengthChars, LengthOperator.toChar_of_ofChar? hop, List.cons_append,
          List.takeWhile_append_dropWhile]
      · obtain ⟨-, rfl⟩ := Prod.mk.inj (Option.some.inj hd)
        exact List.all_eq_true.mp List.all_takeWhile
    · exact ⟨rfl, fun _ _ hd => by cases hd⟩

/-- A note is cut from a text as it is written. -/
theorem of_leading? {s rest : List Char} {n : WrittenNote} (h : leading? s = some (n, rest)) :
    n.toChars ++ rest = s ∧ n.HasDigits := by
  obtain ⟨⟨sign, afterSign⟩, hsign, he⟩ := Option.map_eq_some_iff.mp h
  obtain ⟨rfl, rfl⟩ := Prod.mk.inj he
  obtain ⟨hoctave, hdigit⟩ := of_leadingOctave afterSign
  obtain ⟨hlength, hdigits⟩ := of_leadingLength (leadingOctave afterSign).2
  refine ⟨?_, hdigit, hdigits⟩
  rw [toChars_eq, List.append_assoc, List.append_assoc]
  show sign.toChars ++ ((leadingOctave afterSign).1.toList
    ++ (lengthChars (leadingLength (leadingOctave afterSign).2).1
      ++ (leadingLength (leadingOctave afterSign).2).2)) = s
  rw [hlength, hoctave]
  exact Sign.toChars_append_of_leading? hsign

/-- The octave of a note among notes of an octave. -/
def octaveIn (n : WrittenNote) (octave : Int) : Except Fault Int :=
  n.octaveAt ⟨0, octave, 1, Note.defaultVelocity, 0⟩

/-- Whether the digits of a note are read. -/
structure IsLegible (n : WrittenNote) : Prop where
  octave : ∀ c, n.octave = some c → (decimalValue c).isSome = true
  operand : ∀ op digits, n.length = some (op, digits) → IsReadable digits

/-- Whether the numbers in the failures of a note can be written: the place of its token, and the
    octave of a note out of range. -/
structure IsWorded (octave index : Int) (n : WrittenNote) : Prop where
  alone : ∀ op, n.length = some (op, []) → isWritable index = true
  range : ∀ name own, n.sign = .note name → n.octaveIn octave = .ok own →
    Pitch.playable (Pitch.ofClass name.pitchClass own) = false →
    isWritable own = true ∧ isWritable index = true

variable {n : WrittenNote} {p : Place} {text token : List Char} {r : Resolved}

theorem exists_octaveAt_iff (hn : n.HasDigits) : (∃ o, n.octaveAt p = .ok o)
    ↔ ∀ c, n.octave = some c → (decimalValue c).isSome = true := by
  have hdigit := hn.octave
  unfold octaveAt
  cases hoctave : n.octave with
  | none => exact iff_of_true ⟨_, rfl⟩ fun c hc => by cases hc
  | some c =>
    rw [Number.exists_wholeNumber_singleton_iff (hdigit c hoctave)]
    exact ⟨fun h b hb => Option.some.inj hb ▸ h, fun h => h c rfl⟩

/-- The failure of an operator without operand. -/
def aloneFailure (n : WrittenNote) (op : LengthOperator) (token : List Char) (index : Int) :
    Failure :=
  ⟨n.sign.toChars ++ [op.toChar], .operatorAlone token, index⟩

theorem exists_lengthAt_iff (hn : n.HasDigits) : (∃ l, n.lengthAt p token = .ok l)
    ↔ (∀ op digits, n.length = some (op, digits) → IsReadable digits)
      ∧ ∀ op, n.length = some (op, []) → isWritable p.index = true := by
  have hdigits := hn.operand
  unfold lengthAt
  cases hlength : n.length with
  | none =>
    refine iff_of_true ⟨_, rfl⟩ ⟨fun op digits h => ?_, fun op h => ?_⟩
    · cases h
    · cases h
  | some length =>
    obtain ⟨op, digits⟩ := length
    cases digits with
    | nil =>
      constructor
      · rintro ⟨l, hl⟩
        obtain ⟨f, hf, -⟩ := bind_eq_ok.mp hl
        refine ⟨fun op' digits h => ?_, fun _ _ => (Failure.make_eq_ok.mp hf).2.1⟩
        obtain ⟨-, rfl⟩ := Prod.mk.inj (Option.some.inj h)
        exact ⟨fun c hc => absurd hc List.not_mem_nil, Nat.zero_le _⟩
      · rintro ⟨-, hindex⟩
        exact ⟨_, bind_eq_ok.mpr ⟨_, Failure.make_eq_ok.mpr ⟨rfl, hindex op rfl, rfl⟩, rfl⟩⟩
    | cons c digits =>
      have hall : isDigits (c :: digits) = true :=
        List.all_eq_true.mpr (hdigits op (c :: digits) hlength)
      have hread := Number.exists_wholeNumber_iff hall
      constructor
      · rintro ⟨l, hl⟩
        obtain ⟨operand, ho, -⟩ := map_eq_ok.mp hl
        refine ⟨fun op' digits' h => ?_, fun op' h => by cases h⟩
        obtain ⟨-, rfl⟩ := Prod.mk.inj (Option.some.inj h)
        exact hread.mp ⟨operand, ho⟩
      · rintro ⟨hreadable, -⟩
        obtain ⟨operand, ho⟩ := hread.mpr (hreadable op (c :: digits) rfl)
        exact ⟨_, map_eq_ok.mpr ⟨operand, ho, rfl⟩⟩

/-- A note lasts at least one tick, and reports an operator without operand. -/
theorem of_lengthAt_eq_ok {l : Int × List Failure} (hp : 1 ≤ p.length)
    (h : n.lengthAt p token = .ok l) :
    1 ≤ l.1 ∧ ∀ op, n.length = some (op, []) → n.aloneFailure op token p.index ∈ l.2 := by
  unfold lengthAt at h
  split at h
  · rename_i hlength
    obtain rfl := Except.ok.inj h
    exact ⟨hp, fun op he => by rw [hlength] at he; cases he⟩
  · rename_i op hlength
    obtain ⟨f, hf, hl⟩ := bind_eq_ok.mp h
    obtain rfl := pure_eq_ok.mp hl
    refine ⟨hp, fun op' he => ?_⟩
    obtain ⟨rfl, -⟩ := Prod.mk.inj (Option.some.inj (hlength.symm.trans he))
    exact List.mem_singleton.mpr (Failure.make_eq_ok.mp hf).2.2
  · rename_i op digits hne hlength
    obtain ⟨operand, -, rfl⟩ := map_eq_ok.mp h
    refine ⟨lengthWith_pos p.length (some (op, operand)), fun op' he => ?_⟩
    obtain ⟨-, rfl⟩ := Prod.mk.inj (Option.some.inj (hlength.symm.trans he))
    exact absurd rfl hne

/-- The failure of a note out of range. -/
def rangeFailure (name : NoteName) (octave index : Int) : Failure :=
  ⟨name.toChars ++ (toString octave).toList, .outOfRange, index⟩

/-- What a note gives: nothing as a rest, a note as a pitch that notes can have, and a failure as
    any other. -/
theorem resolve_eq_ok : n.resolve p token = .ok r ↔ ∃ octave length failures,
    n.octaveAt p = .ok octave ∧ n.lengthAt p token = .ok (length, failures)
      ∧ ((n.sign = .silence ∧ r = ⟨[], failures, length⟩)
        ∨ (∃ name note, n.sign = .note name
          ∧ Pitch.playable (Pitch.ofClass name.pitchClass octave) = true
          ∧ Note.make (Pitch.ofClass name.pitchClass octave) p.cursor length p.velocity = .ok note
          ∧ r = ⟨[note], failures, length⟩)
        ∨ ∃ name, n.sign = .note name
          ∧ Pitch.playable (Pitch.ofClass name.pitchClass octave) = false
          ∧ isWritable octave = true ∧ isWritable p.index = true
          ∧ r = ⟨[], failures ++ [rangeFailure name octave p.index], length⟩) := by
  unfold resolve
  rw [bind_eq_ok]
  refine exists_congr fun octave => ?_
  constructor
  · rintro ⟨ho, h⟩
    obtain ⟨⟨length, failures⟩, hl, h⟩ := bind_eq_ok.mp h
    refine ⟨length, failures, ho, hl, ?_⟩
    cases hsign : n.sign with
    | silence =>
      rw [hsign] at h
      exact .inl ⟨rfl, (pure_eq_ok.mp h).symm⟩
    | note name =>
      rw [hsign] at h
      simp only at h
      split at h
      · rename_i hplay
        obtain ⟨note, hnote, h⟩ := bind_eq_ok.mp h
        exact .inr (.inl ⟨name, note, rfl, hplay, hnote, (pure_eq_ok.mp h).symm⟩)
      · rename_i hplay
        obtain ⟨shown, hshown, h⟩ := bind_eq_ok.mp h
        obtain ⟨f, hf, h⟩ := bind_eq_ok.mp h
        obtain ⟨-, hindex, rfl⟩ := Failure.make_eq_ok.mp hf
        unfold namedOctave at hshown
        split at hshown
        · rename_i hoctave
          obtain rfl := Except.ok.inj hshown
          exact .inr (.inr ⟨name, rfl, Bool.eq_false_iff.mpr hplay, hoctave, hindex,
            (pure_eq_ok.mp h).symm⟩)
        · cases hshown
  · rintro ⟨length, failures, ho, hl, hr⟩
    refine ⟨ho, bind_eq_ok.mpr ⟨(length, failures), hl, ?_⟩⟩
    rcases hr with ⟨hsign, rfl⟩ | ⟨name, note, hsign, hplay, hnote, rfl⟩
      | ⟨name, hsign, hplay, hoctave, hindex, rfl⟩
    · rw [hsign]
      rfl
    · rw [hsign]
      simp only [hplay, if_true]
      exact bind_eq_ok.mpr ⟨note, hnote, rfl⟩
    · rw [hsign]
      simp only [hplay, Bool.false_eq_true, if_false]
      refine bind_eq_ok.mpr ⟨_, ?_, bind_eq_ok.mpr ⟨_, Failure.make_eq_ok.mpr ⟨rfl, hindex, rfl⟩, rfl⟩⟩
      rw [namedOctave, if_pos hoctave]

/-- **A note is resolved just where it is legible and worded.** -/
theorem exists_resolve_iff (hn : n.HasDigits) (hp : p.IsSound) :
    (∃ r, n.resolve p token = .ok r) ↔ n.IsLegible ∧ n.IsWorded p.octave p.index := by
  constructor
  · rintro ⟨r, h⟩
    obtain ⟨octave, length, failures, ho, hl, hr⟩ := resolve_eq_ok.mp h
    obtain ⟨hoperand, halone⟩ := (exists_lengthAt_iff hn).mp ⟨_, hl⟩
    refine ⟨⟨(exists_octaveAt_iff hn).mp ⟨octave, ho⟩, hoperand⟩, halone,
      fun name own hsign hown hplay => ?_⟩
    obtain rfl := Except.ok.inj (ho.symm.trans hown)
    rcases hr with ⟨hsign', -⟩ | ⟨name', -, hsign', hplay', -⟩ | ⟨-, -, -, hoctave, hindex, -⟩
    · rw [hsign] at hsign'
      cases hsign'
    · rw [hsign] at hsign'
      rw [← Sign.note.inj hsign', hplay] at hplay'
      cases hplay'
    · exact ⟨hoctave, hindex⟩
  · rintro ⟨hlegible, hworded⟩
    obtain ⟨octave, ho⟩ := (exists_octaveAt_iff (p := p) hn).mpr hlegible.octave
    obtain ⟨⟨length, failures⟩, hl⟩ : ∃ l, n.lengthAt p token = .ok l :=
      (exists_lengthAt_iff hn).mpr ⟨hlegible.operand, hworded.alone⟩
    have hlength := (of_lengthAt_eq_ok hp.length_pos hl).1
    cases hsign : n.sign with
    | silence => exact ⟨_, resolve_eq_ok.mpr ⟨octave, length, failures, ho, hl, .inl ⟨hsign, rfl⟩⟩⟩
    | note name =>
      cases hplay : Pitch.playable (Pitch.ofClass name.pitchClass octave) with
      | true =>
        obtain ⟨note, hnote⟩ := hp.exists_note hplay hlength
        exact ⟨_, resolve_eq_ok.mpr ⟨octave, length, failures, ho, hl,
          .inr (.inl ⟨name, note, hsign, hplay, hnote, rfl⟩)⟩⟩
      | false =>
        obtain ⟨hoctave, hindex⟩ := hworded.range name octave hsign ho hplay
        exact ⟨_, resolve_eq_ok.mpr ⟨octave, length, failures, ho, hl,
          .inr (.inr ⟨name, hsign, hplay, hoctave, hindex, rfl⟩)⟩⟩

/-- Whether a note is found among notes and failures: a rest is nothing to be found, a pitch that
    notes can have is that of a note, and any other pitch and an operator without operand have their
    failures. -/
structure IsShown (octave index : Int) (token : List Char) (notes : List Note)
    (failures : List Failure) (n : WrittenNote) : Prop where
  alone : ∀ op, n.length = some (op, []) → n.aloneFailure op token index ∈ failures
  sounds : ∀ name own, n.sign = .note name → n.octaveIn octave = .ok own →
    Pitch.playable (Pitch.ofClass name.pitchClass own) = true →
    ∃ note ∈ notes, note.pitch = Pitch.ofClass name.pitchClass own
  range : ∀ name own, n.sign = .note name → n.octaveIn octave = .ok own →
    Pitch.playable (Pitch.ofClass name.pitchClass own) = false →
    rangeFailure name own index ∈ failures

theorem isShown_of_resolve (hp : 1 ≤ p.length) (h : n.resolve p token = .ok r) :
    n.IsShown p.octave p.index token r.notes r.failures := by
  obtain ⟨octave, length, failures, ho, hl, hr⟩ := resolve_eq_ok.mp h
  have halone := (of_lengthAt_eq_ok hp hl).2
  rcases hr with ⟨hsign, rfl⟩ | ⟨name, note, hsign, hplay, hnote, rfl⟩
    | ⟨name, hsign, hplay, -, -, rfl⟩
  · refine ⟨halone, fun name own hname => ?_, fun name own hname => ?_⟩
    · rw [hsign] at hname
      cases hname
    · rw [hsign] at hname
      cases hname
  · refine ⟨halone, fun name' own hname hown _ => ?_, fun name' own hname hown hplay' => ?_⟩
    · obtain rfl := Sign.note.inj (hsign.symm.trans hname)
      obtain rfl := Except.ok.inj (ho.symm.trans hown)
      exact ⟨note, List.mem_singleton_self note, (Note.of_make_eq_ok hnote).1⟩
    · obtain rfl := Sign.note.inj (hsign.symm.trans hname)
      obtain rfl := Except.ok.inj (ho.symm.trans hown)
      rw [hplay] at hplay'
      cases hplay'
  · refine ⟨fun op hop => List.mem_append_left _ (halone op hop),
      fun name' own hname hown hplay' => ?_, fun name' own hname hown _ => ?_⟩
    · obtain rfl := Sign.note.inj (hsign.symm.trans hname)
      obtain rfl := Except.ok.inj (ho.symm.trans hown)
      rw [hplay] at hplay'
      cases hplay'
    · obtain rfl := Sign.note.inj (hsign.symm.trans hname)
      obtain rfl := Except.ok.inj (ho.symm.trans hown)
      exact List.mem_append_right _ (List.mem_singleton_self _)

end WrittenNote

/-! ## 4. Pieces and tokens -/

theorem pieces_stray {c : Char} {rest : List Char} (hcomma : ¬(c == ',') = true)
    (h : WrittenNote.leading? (c :: rest) = none) :
    pieces (c :: rest) = .stray c :: pieces rest := by
  rw [pieces, if_neg hcomma]
  split
  · rfl
  · rename_i h'
    rw [h] at h'
    cases h'

theorem pieces_note {c : Char} {rest tail : List Char} {n : WrittenNote}
    (hcomma : ¬(c == ',') = true) (h : WrittenNote.leading? (c :: rest) = some (n, tail)) :
    pieces (c :: rest) = .note n :: pieces tail := by
  rw [pieces, if_neg hcomma]
  split
  · rename_i h'
    rw [h] at h'
    cases h'
  · rename_i n' tail' h'
    rw [h] at h'
    obtain ⟨rfl, rfl⟩ := Prod.mk.inj (Option.some.inj h')
    rfl

/-- **Nothing of a text is lost in its pieces.** -/
theorem flatMap_toChars_pieces (text : List Char) : (pieces text).flatMap Piece.toChars = text := by
  induction text using pieces.induct with
  | case1 =>
    rw [pieces]
    rfl
  | case2 c rest hcomma ih =>
    rw [pieces, if_pos hcomma, List.flatMap_cons, ih, Piece.toChars, eq_of_beq hcomma]
    rfl
  | case3 c rest hcomma hleading ih =>
    rw [pieces_stray hcomma hleading, List.flatMap_cons, ih]
    rfl
  | case4 c rest hcomma n tail hleading _ ih =>
    rw [pieces_note hcomma hleading, List.flatMap_cons, ih]
    exact (WrittenNote.of_leading? hleading).1

theorem hasDigits_of_mem_pieces {text : List Char} {n : WrittenNote} (h : .note n ∈ pieces text) :
    n.HasDigits := by
  induction text using pieces.induct with
  | case1 =>
    rw [pieces] at h
    cases h
  | case2 c rest hcomma ih =>
    rw [pieces, if_pos hcomma] at h
    rcases List.mem_cons.mp h with h | h
    · cases h
    · exact ih h
  | case3 c rest hcomma hleading ih =>
    rw [pieces_stray hcomma hleading] at h
    rcases List.mem_cons.mp h with h | h
    · cases h
    · exact ih h
  | case4 c rest hcomma first tail hleading _ ih =>
    rw [pieces_note hcomma hleading] at h
    rcases List.mem_cons.mp h with h | h
    · obtain rfl := Piece.note.inj h
      exact (WrittenNote.of_leading? hleading).2
    · exact ih h

namespace Piece

/-- Whether the digits of a piece are read. -/
def IsLegible : Piece → Prop
  | .note n => n.IsLegible
  | _ => True

/-- Whether the numbers in the failures of a piece can be written. -/
def IsWorded (octave index : Int) : Piece → Prop
  | .comma => True
  | .stray _ => isWritable index = true
  | .note n => n.IsWorded octave index

/-- Whether a piece is found among notes and failures. -/
def IsShown (octave index : Int) (token : List Char) (notes : List Note)
    (failures : List Failure) : Piece → Prop
  | .comma => True
  | .stray c => ⟨[c], .strayCharacter token, index⟩ ∈ failures
  | .note n => n.IsShown octave index token notes failures

variable {piece : Piece} {p : Place} {text token : List Char} {r : Resolved}

theorem exists_resolve_iff (hpiece : piece ∈ pieces text) (hp : p.IsSound) :
    (∃ r, piece.resolve p token = .ok r) ↔ piece.IsLegible ∧ piece.IsWorded p.octave p.index := by
  cases piece with
  | comma => exact iff_of_true ⟨_, rfl⟩ ⟨trivial, trivial⟩
  | stray c =>
    constructor
    · rintro ⟨r, h⟩
      obtain ⟨f, hf, -⟩ := bind_eq_ok.mp h
      exact ⟨trivial, (Failure.make_eq_ok.mp hf).2.1⟩
    · rintro ⟨-, hindex⟩
      exact ⟨_, bind_eq_ok.mpr ⟨_, Failure.make_eq_ok.mpr ⟨rfl, hindex, rfl⟩, rfl⟩⟩
  | note n => exact WrittenNote.exists_resolve_iff (hasDigits_of_mem_pieces hpiece) hp

theorem isShown_of_resolve (hp : 1 ≤ p.length) (h : piece.resolve p token = .ok r) :
    piece.IsShown p.octave p.index token r.notes r.failures := by
  cases piece with
  | comma => trivial
  | stray c =>
    obtain ⟨f, hf, h⟩ := bind_eq_ok.mp h
    obtain rfl := pure_eq_ok.mp h
    exact List.mem_singleton.mpr (Failure.make_eq_ok.mp hf).2.2
  | note n => exact WrittenNote.isShown_of_resolve hp h

/-- What is shown is shown among more notes and failures. -/
theorem IsShown.mono {octave index : Int} {notes notes' : List Note}
    {failures failures' : List Failure} (hn : notes ⊆ notes') (hf : failures ⊆ failures')
    (h : piece.IsShown octave index token notes failures) :
    piece.IsShown octave index token notes' failures' := by
  cases piece with
  | comma => trivial
  | stray c => exact hf h
  | note n =>
    refine ⟨fun op hop => hf (h.alone op hop), fun name own hname hown hplay => ?_,
      fun name own hname hown hplay => hf (h.range name own hname hown hplay)⟩
    obtain ⟨note, hnote, hpitch⟩ := h.sounds name own hname hown hplay
    exact ⟨note, hn hnote, hpitch⟩

end Piece

section

variable {p : Place} {token : List Char} {ps : List Piece} {r : Resolved}

/-- Pieces are resolved where each of them is. -/
theorem exists_resolvePieces_iff : (∃ r, resolvePieces p token ps = .ok r)
    ↔ ∀ piece ∈ ps, ∃ own, piece.resolve p token = .ok own := by
  induction ps with
  | nil => exact iff_of_true ⟨_, rfl⟩ fun _ h => absurd h List.not_mem_nil
  | cons piece rest ih =>
    rw [List.forall_mem_cons, ← ih]
    constructor
    · rintro ⟨r, h⟩
      obtain ⟨own, hown, h⟩ := bind_eq_ok.mp h
      obtain ⟨others, hothers, -⟩ := bind_eq_ok.mp h
      exact ⟨⟨own, hown⟩, others, hothers⟩
    · rintro ⟨⟨own, hown⟩, others, hothers⟩
      exact ⟨_, bind_eq_ok.mpr ⟨own, hown, bind_eq_ok.mpr ⟨others, hothers, rfl⟩⟩⟩

/-- What each piece gives is among what pieces give. -/
theorem of_resolvePieces (h : resolvePieces p token ps = .ok r) : ∀ piece ∈ ps,
    ∃ own, piece.resolve p token = .ok own ∧ own.notes ⊆ r.notes ∧ own.failures ⊆ r.failures := by
  induction ps generalizing r with
  | nil => exact fun _ h => absurd h List.not_mem_nil
  | cons piece rest ih =>
    obtain ⟨own, hown, h⟩ := bind_eq_ok.mp h
    obtain ⟨others, hothers, h⟩ := bind_eq_ok.mp h
    obtain rfl := pure_eq_ok.mp h
    rw [List.forall_mem_cons]
    refine ⟨⟨own, hown, List.subset_append_left _ _, List.subset_append_left _ _⟩,
      fun piece' hmem => ?_⟩
    obtain ⟨own', hown', hnotes, hfailures⟩ := ih hothers piece' hmem
    exact ⟨own', hown', List.subset_append_of_subset_right _ hnotes,
      List.subset_append_of_subset_right _ hfailures⟩

end

namespace NoteToken

/-- Whether the digits of a note token are read. -/
def IsLegible (token : List Char) : Prop :=
  ∀ piece ∈ pieces (plainAccidentals token), piece.IsLegible

/-- Whether the numbers in the failures of a note token can be written. -/
def IsWorded (octave index : Int) (token : List Char) : Prop :=
  ∀ piece ∈ pieces (plainAccidentals token), piece.IsWorded octave index

/-- Whether all that a note token holds is found among notes and failures. -/
def IsShown (octave index : Int) (token : List Char) (notes : List Note)
    (failures : List Failure) : Prop :=
  ∀ piece ∈ pieces (plainAccidentals token), piece.IsShown octave index token notes failures

variable {p : Place} {token : List Char} {r : Resolved}

/-- **A note token is resolved just where it is legible and worded.** -/
theorem exists_resolve_iff (hp : p.IsSound) :
    (∃ r, resolve token p = .ok r) ↔ IsLegible token ∧ IsWorded p.octave p.index token := by
  rw [resolve, exists_map_eq_ok, exists_resolvePieces_iff]
  constructor
  · intro h
    exact ⟨fun piece hpiece => ((Piece.exists_resolve_iff hpiece hp).mp (h piece hpiece)).1,
      fun piece hpiece => ((Piece.exists_resolve_iff hpiece hp).mp (h piece hpiece)).2⟩
  · rintro ⟨hlegible, hworded⟩ piece hpiece
    exact (Piece.exists_resolve_iff hpiece hp).mpr ⟨hlegible piece hpiece, hworded piece hpiece⟩

theorem isShown_of_resolve (hp : 1 ≤ p.length) (h : resolve token p = .ok r) :
    IsShown p.octave p.index token r.notes r.failures := by
  obtain ⟨bare, hbare, rfl⟩ := map_eq_ok.mp h
  intro piece hpiece
  obtain ⟨own, hown, hnotes, hfailures⟩ := of_resolvePieces hbare piece hpiece
  have hshown := (Piece.isShown_of_resolve hp hown).mono hnotes hfailures
  unfold Resolved.settled
  split
  · exact hshown
  · exact hshown

end NoteToken

end Notation

end Cantilena
