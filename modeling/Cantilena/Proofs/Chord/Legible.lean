import Cantilena.Proofs.Chord.Reading
import Cantilena.Proofs.Number.Readable

/-!
# Which chord tokens are read

A chord token is read for a sign, an octave digit, a quality and a length. Only its digits can keep
it from being read: the digit of the octave may have no value, and the operand of the length no
value or too many digits. Whatever else stands in a token is reported in what is read.

* `ChordToken.behindSign`, `ChordToken.IsLegible` -- the text behind the sign of a token, and whether
  the digits in it are read;
* `ChordToken.exists_read_iff` -- a token is read just where it is legible;
* `ChordToken.Understands`, `ChordToken.understands_of_ok` -- a token that is not at fault is
  understood in all its parts.
-/

namespace Cantilena.ChordToken

open Number (IsReadable wholeNumber)
open Text (isDigit isDigits decimalValue)

variable {text : List Char} {default : Int} {token : ChordToken}

/-! ## 1. How a token is read -/

/-- The sign of a token, if it has one. -/
def signOf (text : List Char) : Option Sign := (Sign.leading? (plainAccidentals text)).map Prod.fst

/-- The text behind the sign of a token, which is all of it where it has no sign. -/
def behindSign (text : List Char) : List Char :=
  ((Sign.leading? (plainAccidentals text)).map Prod.snd).getD (plainAccidentals text)

theorem signOf_of_leading? {root : NoteName} {rest : List Char}
    (h : NoteName.leading? (plainAccidentals text) = some (root, rest)) :
    signOf text = some (.note root) ∧ behindSign text = rest := by
  have hsign := NoteName.sign_leading? h
  rw [signOf, behindSign, hsign]
  exact ⟨rfl, rfl⟩

/-- The octave and the quality of a token. Without a sign there is no octave to be read. -/
def octaveOf (text : List Char) (default : Int) : Except Fault (Int × List Char) :=
  if (signOf text).isSome then readOctave default (splitOperator (behindSign text)).1
  else .ok (default, (splitOperator (behindSign text)).1)

/-- A token with an octave, a quality and a length. -/
def whole (text : List Char) (o : Int × List Char) (length : Option (LengthOperator × Int)) :
    ChordToken :=
  match signOf text with
  | none => ⟨text, none, Pitch.defaultOctave, o.2, length, .fault .unknownRoot⟩
  | some root => ⟨text, some root, o.1, o.2, length, senseOf root o.1 o.2⟩

/-- A token with an octave and a quality and the operator that stands behind them, if there is one. -/
def ending (text : List Char) (o : Int × List Char) :
    Option (LengthOperator × List Char) → Except Fault ChordToken
  | none => .ok (whole text o none)
  | some (op, digits) =>
    if isDigits digits then (wholeNumber digits).map fun n => whole text o (some (op, n))
    else .ok ⟨text, signOf text, o.1, o.2, none, .fault (.operandNotNumber digits)⟩

/-- **A token is read in two steps**: the octave and the quality, and then the length. -/
theorem read_eq (text : List Char) (default : Int) : read text default
    = octaveOf text default >>= fun o => ending text o (splitOperator (behindSign text)).2 := by
  unfold read octaveOf behindSign
  have hsignOf : signOf text = (Sign.leading? (plainAccidentals text)).map Prod.fst := rfl
  cases hsign : Sign.leading? (plainAccidentals text) with
  | none =>
    rw [hsign, Option.map_none] at hsignOf
    simp only [hsign, hsignOf, Option.map_none, Option.getD_none, Option.isSome_none,
      Bool.false_eq_true, if_false]
    cases (splitOperator (plainAccidentals text)).2 with
    | none => simp [ending, whole, hsignOf, pure, Except.pure, bind, Except.bind]
    | some tail =>
      cases hdigits : isDigits tail.2 <;> cases hvalue : wholeNumber tail.2 <;>
        simp [ending, whole, hsignOf, hdigits, hvalue, pure, Except.pure, bind, Except.bind,
          Except.map]
  | some leading =>
    rw [hsign, Option.map_some] at hsignOf
    simp only [hsign, hsignOf, Option.map_some, Option.getD_some, Option.isSome_some, if_true]
    refine bind_congr fun o => ?_
    cases (splitOperator leading.2).2 with
    | none => simp [ending, whole, hsignOf, pure, Except.pure, bind, Except.bind]
    | some tail =>
      cases hdigits : isDigits tail.2 <;> cases hvalue : wholeNumber tail.2 <;>
        simp [ending, whole, hsignOf, hdigits, hvalue, pure, Except.pure, bind, Except.bind,
          Except.map]

/-! ## 2. Legible tokens -/

/-- Whether the digits of a token are read: the digit that is its octave has a value, and the operand
    of its length, if it is a number at all, is readable. -/
structure IsLegible (text : List Char) : Prop where
  octave : (signOf text).isSome = true → ∀ c after,
    (splitOperator (behindSign text)).1 = c :: after → isDigit c = true →
    octaveFirst (c :: after) after = true → (decimalValue c).isSome = true
  operand : ∀ op digits, (splitOperator (behindSign text)).2 = some (op, digits) →
    isDigits digits = true → IsReadable digits

/-- An octave is read from a text unless it starts with an octave digit without a value. -/
theorem exists_readOctave_iff {text : List Char} : (∃ o, readOctave default text = .ok o)
    ↔ ∀ c after, text = c :: after → isDigit c = true → octaveFirst (c :: after) after = true →
      (decimalValue c).isSome = true := by
  cases text with
  | nil => exact iff_of_true ⟨_, rfl⟩ fun _ _ h => by cases h
  | cons c after =>
    rw [readOctave]
    by_cases h : isDigit c = true ∧ octaveFirst (c :: after) after = true
    · rw [if_pos (Bool.and_eq_true_iff.mpr h)]
      have hvalue := Number.exists_wholeNumber_singleton_iff h.1
      constructor
      · rintro ⟨o, ho⟩ b rest he - -
        obtain ⟨rfl, rfl⟩ := List.cons.inj he
        obtain ⟨n, hn, -⟩ := map_eq_ok.mp ho
        exact hvalue.mp ⟨n, hn⟩
      · intro hc
        obtain ⟨n, hn⟩ := hvalue.mpr (hc c after rfl h.1 h.2)
        exact ⟨(n, after), map_eq_ok.mpr ⟨n, hn, rfl⟩⟩
    · rw [if_neg fun hb => h (Bool.and_eq_true_iff.mp hb)]
      refine iff_of_true ⟨_, rfl⟩ fun b rest he hdigit hfirst => ?_
      obtain ⟨rfl, rfl⟩ := List.cons.inj he
      exact absurd ⟨hdigit, hfirst⟩ h

theorem exists_octaveOf_iff : (∃ o, octaveOf text default = .ok o)
    ↔ ((signOf text).isSome = true → ∀ c after,
      (splitOperator (behindSign text)).1 = c :: after → isDigit c = true →
      octaveFirst (c :: after) after = true → (decimalValue c).isSome = true) := by
  unfold octaveOf
  split
  · rename_i hsign
    rw [exists_readOctave_iff]
    exact ⟨fun h _ => h, fun h => h hsign⟩
  · rename_i hsign
    exact iff_of_true ⟨_, rfl⟩ fun h => absurd h hsign

theorem exists_ending_iff {o : Int × List Char} {tail : Option (LengthOperator × List Char)} :
    (∃ token, ending text o tail = .ok token)
      ↔ ∀ op digits, tail = some (op, digits) → isDigits digits = true → IsReadable digits := by
  cases tail with
  | none => exact iff_of_true ⟨_, rfl⟩ fun _ _ h => by cases h
  | some tail =>
    obtain ⟨op, digits⟩ := tail
    rw [ending]
    split
    · rename_i hdigits
      have hread := Number.exists_wholeNumber_iff hdigits
      constructor
      · rintro ⟨token, htoken⟩ op' digits' he -
        obtain ⟨-, rfl⟩ := Prod.mk.inj (Option.some.inj he)
        obtain ⟨n, hn, -⟩ := map_eq_ok.mp htoken
        exact hread.mp ⟨n, hn⟩
      · intro h
        obtain ⟨n, hn⟩ := hread.mpr (h op digits rfl hdigits)
        exact ⟨_, map_eq_ok.mpr ⟨n, hn, rfl⟩⟩
    · rename_i hdigits
      refine iff_of_true ⟨_, rfl⟩ fun op' digits' he hd => ?_
      obtain ⟨-, rfl⟩ := Prod.mk.inj (Option.some.inj he)
      exact absurd hd hdigits

/-- **A token is read just where it is legible.** -/
theorem exists_read_iff : (∃ token, read text default = .ok token) ↔ IsLegible text := by
  rw [read_eq]
  constructor
  · rintro ⟨token, h⟩
    obtain ⟨o, ho, htoken⟩ := bind_eq_ok.mp h
    exact ⟨exists_octaveOf_iff.mp ⟨o, ho⟩, exists_ending_iff.mp ⟨token, htoken⟩⟩
  · intro h
    obtain ⟨o, ho⟩ := exists_octaveOf_iff.mpr h.octave
    obtain ⟨token, htoken⟩ := exists_ending_iff.mpr h.operand
    exact ⟨token, bind_eq_ok.mpr ⟨o, ho, htoken⟩⟩

/-! ## 3. Understood tokens -/

/-- Whether nothing of a text is passed over in a token that is read from it: the token has the sign
    of the text, its length has the operand behind the operator, and it is a rest or sounds a formula
    that is found for its quality above its root. -/
structure Understands (text : List Char) (default : Int) (token : ChordToken) : Prop where
  root : token.root.isSome = true ∧ token.root = signOf text
  parts : readOctave default (splitOperator (behindSign text)).1 = .ok (token.octave, token.quality)
  length : ∀ op digits, (splitOperator (behindSign text)).2 = some (op, digits) →
    isDigits digits = true ∧ ∃ n, wholeNumber digits = .ok n ∧ token.length = some (op, n)
  sounds : token.root = some .silence ∨ ∃ root f, token.root = some (.note root)
    ∧ Formula.find? token.quality = some f
    ∧ token.pitches = f.intervals.map fun k => Pitch.ofClass root.pitchClass token.octave + k

/-- A token that is not at fault has a sign and a formula. -/
theorem of_whole_ok {o : Int × List Char} {length : Option (LengthOperator × Int)}
    (h : (whole text o length).ok = true) :
    (signOf text).isSome = true ∧ (whole text o length).root = signOf text
      ∧ (whole text o length).octave = o.1 ∧ (whole text o length).quality = o.2
      ∧ (whole text o length).length = length
      ∧ ((whole text o length).root = some .silence
        ∨ ∃ root f, (whole text o length).root = some (.note root)
          ∧ Formula.find? o.2 = some f ∧ (whole text o length).pitches
            = f.intervals.map fun k => Pitch.ofClass root.pitchClass o.1 + k) := by
  unfold whole at h ⊢
  cases hsign : signOf text with
  | none =>
    rw [hsign] at h
    cases h
  | some sign =>
    rw [hsign] at h
    refine ⟨rfl, rfl, rfl, rfl, rfl, ?_⟩
    cases sign with
    | silence => exact .inl rfl
    | note root =>
      cases hfind : Formula.find? o.2 with
      | none =>
        simp only [senseOf, hfind] at h
        cases h
      | some f =>
        refine .inr ⟨root, f, rfl, rfl, ?_⟩
        simp only [pitches, senseOf, hfind]

/-- **A token that is not at fault is understood in all its parts.** -/
theorem understands_of_ok (h : read text default = .ok token) (hok : token.ok = true) :
    Understands text default token := by
  rw [read_eq] at h
  obtain ⟨o, ho, h⟩ := bind_eq_ok.mp h
  have hfinish {length : Option (LengthOperator × Int)} (he : whole text o length = token)
      (hlength : ∀ op digits, (splitOperator (behindSign text)).2 = some (op, digits) →
        isDigits digits = true ∧ ∃ n, wholeNumber digits = .ok n ∧ length = some (op, n)) :
      Understands text default token := by
    subst he
    obtain ⟨hsign, hroot, hoctave, hquality, hl, hsounds⟩ := of_whole_ok hok
    rw [octaveOf, if_pos hsign] at ho
    refine ⟨⟨hroot ▸ hsign, hroot⟩, by rw [hoctave, hquality, ho], fun op digits hd => ?_, ?_⟩
    · obtain ⟨hdigits, n, hn, he⟩ := hlength op digits hd
      exact ⟨hdigits, n, hn, hl.trans he⟩
    · rw [hoctave, hquality]
      exact hsounds
  cases htail : (splitOperator (behindSign text)).2 with
  | none =>
    rw [htail] at h
    exact hfinish (Except.ok.inj h) fun _ _ he => by rw [htail] at he; cases he
  | some tail =>
    obtain ⟨op, digits⟩ := tail
    rw [htail, ending] at h
    split at h
    · rename_i hdigits
      obtain ⟨n, hn, he⟩ := map_eq_ok.mp h
      refine hfinish he fun op' digits' hd => ?_
      rw [htail] at hd
      obtain ⟨rfl, rfl⟩ := Prod.mk.inj (Option.some.inj hd)
      exact ⟨hdigits, n, hn, rfl⟩
    · obtain rfl := Except.ok.inj h
      cases hok

end Cantilena.ChordToken
