import Cantilena.Proofs.Chord.Legible
import Cantilena.Proofs.Number.Decimal

/-!
# The parts of chord tokens

A chord token is written as a root, an octave digit or none, a text that names its quality, and a
length operator with its operand or none. It is read for just these parts, whatever the text of the
quality is. Only a digit that is a quality itself needs the text behind it to be read for an octave.

* `WrittenLength` -- lengths as they are written;
* `Formula.name_of_find?_digit`, `Formula.isSome_find?_digit_iff` -- the formulas of texts that start
  with one digit;
* `StandsBetween`, `FollowsRoot` -- what can stand between a root and a length;
* `IsReadAs` -- the parts for which a token is read;
* `read_parts` -- the parts of a token with an octave digit, and of one without.
-/

namespace Cantilena

open Number (IsNumeral wholeNumber mostDigits)
open Text (isDigit isDigits isAsciiDigit)

/-! ## 1. Lengths as they are written -/

/-- A length operator with its operand as they are written: the operand has at least one digit. -/
structure WrittenLength where
  operator : LengthOperator
  digits : List Char
  ne_nil : digits ≠ []
  ascii : ∀ c ∈ digits, isAsciiDigit c = true

namespace WrittenLength

/-- How a length is written. -/
def toChars (l : WrittenLength) : List Char := l.operator.toChar :: l.digits

/-- The operator and the number that the digits of the operand write. -/
def value (l : WrittenLength) : LengthOperator × Int :=
  (l.operator, Nat.ofDigitChars 10 l.digits 0)

theorem isDigits_digits (l : WrittenLength) : isDigits l.digits = true := by
  have hne : l.digits.isEmpty = false := by
    rw [List.isEmpty_eq_false_iff]
    exact l.ne_nil
  rw [isDigits, hne, Bool.not_false, Bool.true_and, List.all_eq_true]
  exact fun c hc => Text.isDigit_of_isAsciiDigit (l.ascii c hc)

theorem wholeNumber_digits (l : WrittenLength) (h : l.digits.length ≤ mostDigits) :
    wholeNumber l.digits = .ok l.value.2 := by
  have hnumeral : IsNumeral l.digits (Nat.ofDigitChars 10 l.digits 0) := ⟨l.ne_nil, l.ascii, rfl⟩
  rw [Number.wholeNumber_numeral hnumeral, if_neg (Nat.not_lt.mpr h)]
  rfl

end WrittenLength

theorem Number.wholeNumber_digit {c : Char} (h : isAsciiDigit c = true) :
    wholeNumber [c] = .ok ((c.toNat : Int) - 48) := by
  have hnumeral : IsNumeral [c] (c.toNat - 48) :=
    ⟨List.cons_ne_nil c [], List.forall_mem_singleton.mpr h, by simp [Nat.ofDigitChars]⟩
  have hshort : ¬ mostDigits < [c].length := Nat.not_lt.mpr (Nat.le_of_ble_eq_true rfl)
  have hcode := (Text.isAsciiDigit_toNat h).1
  rw [Number.wholeNumber_numeral hnumeral, if_neg hshort, Int.ofNat_sub hcode]
  rfl

/-! ## 2. Where one part ends and the next one starts -/

theorem LengthOperator.ofChar?_of_isDigit {c : Char} (h : isDigit c = true) : ofChar? c = none := by
  unfold ofChar?
  split <;> first | rfl | (revert h; decide)

theorem Accidental.ofChar?_of_isDigit {c : Char} (h : isDigit c = true) : ofChar? c = none := by
  unfold ofChar?
  split <;> first | rfl | (revert h; decide)

theorem Accidental.ofChar?_operator (op : LengthOperator) : ofChar? op.toChar = none := by
  cases op <;> rfl

/-- A note name is found where it is written, unless a natural note goes on with an accidental. -/
theorem NoteName.leading?_toChars_append {n : NoteName} {rest : List Char}
    (h : n.accidental = .natural → ∀ c ∈ rest.head?, Accidental.ofChar? c = none) :
    leading? (n.toChars ++ rest) = some (n, rest) := by
  obtain ⟨letter, accidental⟩ := n
  have hnext : leadingAccidental (accidental.toChars ++ rest) = (accidental, rest) := by
    cases accidental with
    | natural =>
      cases rest with
      | nil => rfl
      | cons c rest =>
        have hnone : Accidental.ofChar? c = none := h rfl c rfl
        rw [Accidental.toChars, List.nil_append, leadingAccidental, hnone]
    | sharp => rfl
    | flat => rfl
  rw [toChars, List.cons_append, leading?, Letter.ofChar?_toChar, hnext]
  rfl

theorem plainAccidentals_eq_self {s : List Char} (h : ∀ c ∈ s, c ≠ '♯' ∧ c ≠ '♭') :
    plainAccidentals s = s := by
  refine (List.map_congr_left fun c hc => ?_).trans (List.map_id s)
  obtain ⟨hsharp, hflat⟩ := h c hc
  rw [if_neg (by simpa using hsharp), if_neg (by simpa using hflat)]
  rfl

theorem plainAccidentals_digits {s : List Char} (h : ∀ c ∈ s, isAsciiDigit c = true) :
    plainAccidentals s = s :=
  plainAccidentals_eq_self fun c hc =>
    ⟨Number.ne_of_isAsciiDigit (h c hc) (by decide), Number.ne_of_isAsciiDigit (h c hc) (by decide)⟩

theorem NoteName.plainAccidentals_toChars (n : NoteName) :
    plainAccidentals n.toChars = n.toChars := by
  obtain ⟨letter, accidental⟩ := n
  cases letter <;> cases accidental <;> rfl

theorem WrittenLength.plainAccidentals_toChars (l : WrittenLength) :
    plainAccidentals l.toChars = l.toChars := by
  have hop : plainAccidentals [l.operator.toChar] = [l.operator.toChar] := by
    cases l.operator <;> rfl
  rw [toChars, ← List.singleton_append, plainAccidentals_append, hop,
    plainAccidentals_digits l.ascii]

/-! ## 3. Formulas behind a digit -/

namespace Text

/-- Behind the ASCII digits lower case stays behind them. -/
theorem le_lowerCode {n : Nat} (h : 58 ≤ n) : 58 ≤ lowerCode n := by
  have hshifts : ∀ s ∈ lowerShifts, 58 ≤ (s.1 : Int) + s.2.2.2 := by decide +kernel
  unfold lowerCode
  split
  · rename_i first last step shift hfound
    have hshift := hshifts _ (List.mem_of_find?_eq_some hfound)
    have hwithin := List.find?_some hfound
    simp at hwithin hshift
    omega
  · exact h

theorem not_isAsciiDigit_of_toNat {c : Char} (h : c.toNat < 48 ∨ 57 < c.toNat) :
    isAsciiDigit c = false := by
  refine Bool.eq_false_iff.mpr fun hdigit => ?_
  have := isAsciiDigit_toNat hdigit
  omega

theorem not_isAsciiDigit_ofNat {n : Nat} (h : 58 ≤ n) : isAsciiDigit (Char.ofNat n) = false := by
  refine not_isAsciiDigit_of_toNat ?_
  by_cases hvalid : n.isValidChar
  · rw [Char.ofNat, dif_pos hvalid]
    exact .inr h
  · rw [Char.ofNat, dif_neg hvalid]
    exact .inl (by decide)

theorem not_isAsciiDigit_toLower {c : Char} (h : isAsciiDigit c = false) :
    isAsciiDigit c.toLower = false := by
  unfold Char.toLower
  split
  · rename_i hcapital
    have hA : 65 ≤ c.val.toNat := UInt32.le_iff_toNat_le.mp hcapital.1
    have hZ : c.val.toNat ≤ 90 := UInt32.le_iff_toNat_le.mp hcapital.2
    refine not_isAsciiDigit_of_toNat (.inr ?_)
    show 57 < (c.val + 32).toNat
    rw [UInt32.toNat_add, show (32 : UInt32).toNat = 32 from rfl]
    omega
  · exact h

theorem not_isAsciiDigit_plainSigma {c : Char} (h : isAsciiDigit c = false) :
    isAsciiDigit (plainSigma c) = false := by
  unfold plainSigma
  split
  · decide
  · exact h

/-- **Lower case makes no ASCII digit of what is no digit.** -/
theorem head_foldedChar {c : Char} (h : isDigit c = false) :
    ∃ b rest, foldedChar c = b :: rest ∧ isAsciiDigit b = false := by
  unfold foldedChar lowerChar
  split
  · rename_i hascii
    rw [isDigit, if_pos hascii] at h
    exact ⟨_, [], rfl, not_isAsciiDigit_plainSigma (not_isAsciiDigit_toLower h)⟩
  · split
    · exact ⟨_, _, rfl, by decide⟩
    · have hcode : 58 ≤ lowerCode c.toNat := le_lowerCode (by omega)
      exact ⟨_, [], rfl, not_isAsciiDigit_plainSigma (not_isAsciiDigit_ofNat hcode)⟩

end Text

namespace Formula

section

variable {d : Char} (hd : isAsciiDigit d = true) {s : List Char}
  (hs : ∀ c ∈ s.head?, isDigit c = false)
include hd

theorem folded_digit (s : List Char) : Text.folded (d :: s) = d :: Text.folded s := by
  rw [Text.folded_cons, Text.foldedChar_of_isDigit (Text.isDigit_of_isAsciiDigit hd)]
  rfl

include hs

/-- Of a digit and a text that does not go on with one, a formula is found for the digit only. -/
theorem name_of_find?_digit {f : Formula} (h : find? (d :: s) = some f) : f.name.toList = [d] := by
  -- a name that starts with a digit goes on with a digit, if it goes on
  have hnames : ∀ f ∈ table, f.name.toList ≠ [] ∧ ((f.name.toList.headD ' ').isDigit = true →
      f.name.toList.tail.head?.all isAsciiDigit = true) := by decide +kernel
  obtain ⟨hmem, hname | ⟨hempty, -⟩⟩ := of_find?_eq_some h
  · rw [Text.prefix_lower_iff (name_plain hmem).1, folded_digit hd] at hname
    obtain ⟨hne, hmore⟩ := hnames f hmem
    cases hwritten : f.name.toList with
    | nil => exact absurd hwritten hne
    | cons c more =>
      rw [hwritten] at hname hmore
      obtain ⟨rfl, hbehind⟩ := List.cons_prefix_cons.mp hname
      cases more with
      | nil => rfl
      | cons b more =>
        have hb : isAsciiDigit b = true := hmore hd
        cases s with
        | nil => exact absurd (List.prefix_nil.mp hbehind) (List.cons_ne_nil b more)
        | cons a s =>
          obtain ⟨first, rest, hfolded, hfirst⟩ := Text.head_foldedChar (hs a rfl)
          rw [Text.folded_cons, hfolded] at hbehind
          obtain ⟨rfl, -⟩ := List.cons_prefix_cons.mp hbehind
          rw [hb] at hfirst
          cases hfirst
  · cases hempty

/-- Of a digit and a text that does not go on with one, a formula is found for 7 and 9. -/
theorem isSome_find?_digit_iff : (find? (d :: s)).isSome = true ↔ d = '7' ∨ d = '9' := by
  have hsingle : ∀ f ∈ table, f.name.toList.length = 1 →
      f.name.toList = ['7'] ∨ f.name.toList = ['9'] := by decide +kernel
  constructor
  · intro h
    obtain ⟨f, hf⟩ := Option.isSome_iff_exists.mp h
    have hname := name_of_find?_digit hd hs hf
    rcases hsingle f (of_find?_eq_some hf).1 (by rw [hname]; rfl) with h7 | h9
    · exact .inl (List.cons.inj (hname.symm.trans h7)).1
    · exact .inr (List.cons.inj (hname.symm.trans h9)).1
  · have hstarts (f : Formula) (hmem : f ∈ table) (hname : f.name.toList = [d]) :
        (find? (d :: s)).isSome = true := by
      refine List.find?_isSome.mpr ⟨f, hmem, List.isPrefixOf_iff_prefix.mpr ?_⟩
      refine (Text.prefix_lower_iff (name_plain hmem).1).mpr ?_
      show f.name.toList <+: Text.folded (d :: s)
      rw [folded_digit hd, hname]
      exact List.cons_prefix_cons.mpr ⟨rfl, List.nil_prefix⟩
    rintro (rfl | rfl)
    · exact hstarts ⟨"7", [0, 4, 7, 10]⟩ (by decide) rfl
    · exact hstarts ⟨"9", [0, 4, 7, 10, 14]⟩ (by decide) rfl

end

end Formula

namespace ChordToken

/-! ## 4. Tokens as they are written -/

/-- The formula that a token sounds. -/
def formula? (t : ChordToken) : Option Formula :=
  match t.sense with
  | .sounds f _ => some f
  | _ => none

/-- A text that can stand between a root and a length, and is part of neither: it has no length
    operator, and behind a natural root it does not start with an accidental. -/
structure StandsBetween (root : NoteName) (s : List Char) : Prop where
  plain : plainAccidentals s = s
  quality : ∀ c ∈ s, LengthOperator.ofChar? c = none
  accidental : root.accidental = .natural → ∀ c ∈ s.head?, Accidental.ofChar? c = none

/-- A text that can also stand behind the octave digit of a root: it does not start with a digit
    itself. -/
structure FollowsRoot (root : NoteName) (s : List Char) : Prop extends StandsBetween root s where
  digit : ∀ c ∈ s.head?, isDigit c = false

/-- A digit may stand in front of such a text. -/
theorem FollowsRoot.cons {root : NoteName} {s : List Char} (h : FollowsRoot root s) {d : Char}
    (hd : isAsciiDigit d = true) : StandsBetween root (d :: s) where
  plain := by
    rw [← List.singleton_append, plainAccidentals_append, h.plain,
      plainAccidentals_digits (List.forall_mem_singleton.mpr hd)]
  quality := List.forall_mem_cons.mpr
    ⟨LengthOperator.ofChar?_of_isDigit (Text.isDigit_of_isAsciiDigit hd), h.quality⟩
  accidental _ c hc := by
    obtain rfl := Option.some.inj hc
    exact Accidental.ofChar?_of_isDigit (Text.isDigit_of_isAsciiDigit hd)

/-- How the length at the end of a token is written, if there is one. -/
def tailChars (tail : Option WrittenLength) : List Char := tail.elim [] WrittenLength.toChars

/-- A token that is read for a root, an octave, a quality, a formula and a length. With a formula it
    sounds the tones of the formula above the root, and without it its quality is at fault. -/
structure IsReadAs (t : ChordToken) (name : NoteName) (own : Int) (text : List Char)
    (found : Option Formula) (tail : Option (LengthOperator × Int)) : Prop where
  root : t.root = some (.note name)
  octave : t.octave = own
  quality : t.quality = text
  length : t.length = tail
  formula : t.formula? = found
  ok : t.ok = found.isSome
  pitches : ∀ f, found = some f →
    t.pitches = f.intervals.map fun k => name.pitchClass + 12 * (own + 1) + k
  fault : found = none → t.sense = .fault (.unknownQuality text) ∧ t.pitches = []

/-- What stands in front of an operator has none. -/
theorem splitOperator_append_of_none {s : List Char}
    (h : ∀ c ∈ s, LengthOperator.ofChar? c = none) (tail : Option WrittenLength) :
    splitOperator (s ++ tailChars tail) = (s, tail.map fun l => (l.operator, l.digits)) := by
  induction s with
  | nil =>
    cases tail with
    | none => rfl
    | some l =>
      show splitOperator (l.operator.toChar :: l.digits) = ([], some (l.operator, l.digits))
      rw [splitOperator, LengthOperator.ofChar?_toChar]
  | cons c s ih =>
    have hc : LengthOperator.ofChar? c = none := h c List.mem_cons_self
    rw [List.cons_append, splitOperator, hc, ih fun b hb => h b (List.mem_cons_of_mem c hb)]

/-- The octave is looked for in front of the quality only. -/
theorem readOctave_of_head {s : List Char} (h : ∀ c ∈ s.head?, isDigit c = false) (octave : Int) :
    readOctave octave s = .ok (octave, s) := by
  cases s with
  | nil => rfl
  | cons c s =>
    have hc : isDigit c = false := h c rfl
    rw [readOctave, hc, Bool.false_and, if_neg Bool.false_ne_true]

/-- A digit is the octave, unless it is a quality itself and no formula is found behind it. -/
theorem readOctave_digit {d : Char} (hd : isAsciiDigit d = true) {s : List Char}
    (hs : ∀ c ∈ s.head?, isDigit c = false) (octave : Int) : readOctave octave (d :: s)
      = .ok (if (d = '7' ∨ d = '9') ∧ (s = [] ∨ Formula.find? s = none) then (octave, d :: s)
        else ((d.toNat : Int) - 48, s)) := by
  have hfirst : octaveFirst (d :: s) s = false
      ↔ (d = '7' ∨ d = '9') ∧ (s = [] ∨ Formula.find? s = none) := by
    rw [octaveFirst, Bool.or_eq_false_iff, Bool.and_eq_false_iff, Option.isNone_eq_false_iff,
      Formula.isSome_find?_digit_iff hd hs, Bool.not_eq_false', List.isEmpty_iff,
      Option.isSome_eq_false_iff, Option.isNone_iff_eq_none, and_comm]
  rw [readOctave, Text.isDigit_of_isAsciiDigit hd, Bool.true_and]
  by_cases hnumeric : (d = '7' ∨ d = '9') ∧ (s = [] ∨ Formula.find? s = none)
  · rw [hfirst.mpr hnumeric, if_neg Bool.false_ne_true, if_pos hnumeric]
  · have hoctave : octaveFirst (d :: s) s = true :=
      eq_true_of_ne_false fun h => hnumeric (hfirst.mp h)
    rw [hoctave, if_pos rfl, if_neg hnumeric, Number.wholeNumber_digit hd]
    rfl

/-- A token with a root is read for its parts. -/
theorem isReadAs_whole {text rest : List Char} {root : NoteName}
    (h : NoteName.leading? (plainAccidentals text) = some (root, rest)) (o : Int × List Char)
    (length : Option (LengthOperator × Int)) :
    (whole text o length).IsReadAs root o.1 o.2 (Formula.find? o.2) length := by
  rw [whole, (signOf_of_leading? h).1]
  cases hfind : Formula.find? o.2 with
  | none =>
    have hsense : senseOf (.note root) o.1 o.2 = .fault (.unknownQuality o.2) := by
      rw [senseOf, hfind]
    simp only [hsense]
    refine ⟨rfl, rfl, rfl, rfl, rfl, rfl, fun f hf => ?_, fun _ => ⟨rfl, rfl⟩⟩
    cases hf
  | some f =>
    have hsense : senseOf (.note root) o.1 o.2
        = .sounds f (f.intervals.map fun k => Pitch.ofClass root.pitchClass o.1 + k) := by
      rw [senseOf, hfind]
    simp only [hsense]
    refine ⟨rfl, rfl, rfl, rfl, rfl, rfl, fun g hg => ?_, fun he => by cases he⟩
    obtain rfl := Option.some.inj hg
    rfl

/-- The root of a token is found where it is written. -/
theorem leading?_toChars_append {root : NoteName} {middle : List Char}
    (hmiddle : StandsBetween root middle) (tail : Option WrittenLength) :
    NoteName.leading? (plainAccidentals (root.toChars ++ middle ++ tailChars tail))
      = some (root, middle ++ tailChars tail) := by
  have hlength : plainAccidentals (tailChars tail) = tailChars tail := by
    cases tail with
    | none => rfl
    | some l => exact l.plainAccidentals_toChars
  rw [plainAccidentals_append, plainAccidentals_append, root.plainAccidentals_toChars,
    hmiddle.plain, hlength, List.append_assoc]
  refine NoteName.leading?_toChars_append fun hnatural c hc => ?_
  cases middle with
  | nil =>
    cases tail with
    | none => cases hc
    | some l =>
      obtain rfl := Option.some.inj hc
      exact Accidental.ofChar?_operator l.operator
  | cons b middle => exact hmiddle.accidental hnatural c hc

/-- **What stands between a root and a length is read for the octave and the quality**, whatever the
    length is. -/
theorem exists_isReadAs {root : NoteName} {middle : List Char} {octave : Int}
    {o : Int × List Char} {tail : Option WrittenLength}
    (htail : ∀ l ∈ tail, l.digits.length ≤ mostDigits) (hmiddle : StandsBetween root middle)
    (ho : readOctave octave middle = .ok o) :
    ∃ t, read (root.toChars ++ middle ++ tailChars tail) octave = .ok t
      ∧ t.IsReadAs root o.1 o.2 (Formula.find? o.2) (tail.map WrittenLength.value) := by
  have hleading := leading?_toChars_append hmiddle tail
  obtain ⟨hsign, hbehind⟩ := signOf_of_leading? hleading
  refine ⟨_, ?_, isReadAs_whole hleading o _⟩
  rw [read_eq, octaveOf, hsign, hbehind, splitOperator_append_of_none hmiddle.quality tail,
    Option.isSome_some, if_pos rfl, ho]
  cases tail with
  | none => rfl
  | some l =>
    show (if isDigits l.digits then _ else _) = _
    rw [if_pos l.isDigits_digits, l.wholeNumber_digits (htail l rfl)]
    rfl

/-- **The parts of a token are read apart**, for every text of a quality and every length, with an
    octave digit and without one. -/
theorem read_parts {root : NoteName} {s : List Char} (hs : FollowsRoot root s) {d : Char}
    (hd : isAsciiDigit d = true) {tail : Option WrittenLength}
    (htail : ∀ l ∈ tail, l.digits.length ≤ mostDigits) (octave : Int) :
    (∃ t, read (root.toChars ++ s ++ tailChars tail) octave = .ok t
      ∧ (t.ok = true ↔ s = [] ∨ (Formula.find? s).isSome = true)
      ∧ t.IsReadAs root octave s (Formula.find? s) (tail.map WrittenLength.value))
    ∧ ∃ t, read (root.toChars ++ d :: s ++ tailChars tail) octave = .ok t
      ∧ (t.ok = true ↔ s = [] ∨ (Formula.find? s).isSome = true ∨ d = '7' ∨ d = '9')
      ∧ if (d = '7' ∨ d = '9') ∧ (s = [] ∨ Formula.find? s = none) then
          ∃ f ∈ Formula.table, f.name.toList = [d]
            ∧ t.IsReadAs root octave (d :: s) (some f) (tail.map WrittenLength.value)
        else
          t.IsReadAs root ((d.toNat : Int) - 48) s (Formula.find? s)
            (tail.map WrittenLength.value) := by
  have hmajor : s = [] → (Formula.find? s).isSome = true := by
    rintro rfl
    decide +kernel
  constructor
  · obtain ⟨t, ht, hreads⟩ := exists_isReadAs htail hs.toStandsBetween
      (readOctave_of_head hs.digit octave)
    refine ⟨t, ht, ?_, hreads⟩
    rw [hreads.ok]
    exact ⟨.inr, fun h => h.elim hmajor id⟩
  · obtain ⟨t, ht, hreads⟩ := exists_isReadAs htail (hs.cons hd)
      (readOctave_digit hd hs.digit octave)
    refine ⟨t, ht, ?_⟩
    by_cases hnumeric : (d = '7' ∨ d = '9') ∧ (s = [] ∨ Formula.find? s = none)
    · rw [if_pos hnumeric] at hreads ⊢
      have hsome := (Formula.isSome_find?_digit_iff hd hs.digit).mpr hnumeric.1
      obtain ⟨f, hf⟩ := Option.isSome_iff_exists.mp hsome
      have hok : t.ok = true := hreads.ok.trans hsome
      rw [hf] at hreads
      exact ⟨iff_of_true hok (.inr (.inr hnumeric.1)), f, (Formula.of_find?_eq_some hf).1,
        Formula.name_of_find?_digit hd hs.digit hf, hreads⟩
    · rw [if_neg hnumeric] at hreads ⊢
      refine ⟨?_, hreads⟩
      rw [hreads.ok]
      constructor
      · exact fun h => .inr (.inl h)
      · rintro (hempty | hfind | hseven)
        · exact hmajor hempty
        · exact hfind
        · -- behind a digit that is a quality itself a formula is found
          exact Option.isSome_iff_ne_none.mpr fun hnone => hnumeric ⟨hseven, .inr hnone⟩

/-- A flat root with the octave 7 behind it, a minor seventh and a doubled length. -/
theorem read_parts_flat : ∃ t, read "Ab7m7*2".toList 5 = .ok t ∧ t.ok = true
    ∧ t.IsReadAs ⟨.a, .flat⟩ 7 "m7".toList (Formula.find? "m7".toList) (some (.times, 2)) := by
  have hfollows : FollowsRoot ⟨.a, .flat⟩ ['m', '7'] :=
    ⟨⟨rfl, List.forall_mem_cons.mpr ⟨rfl, List.forall_mem_singleton.mpr rfl⟩, fun h => by cases h⟩,
      fun c hc => Option.some.inj hc ▸ rfl⟩
  have htail : ∀ l ∈ some (WrittenLength.mk .times ['2'] (List.cons_ne_nil _ _)
      (List.forall_mem_singleton.mpr rfl)), l.digits.length ≤ mostDigits :=
    fun l hl => Option.some.inj hl ▸ Nat.le_of_ble_eq_true rfl
  obtain ⟨-, t, ht, hok, hreads⟩ := read_parts hfollows (d := '7') rfl htail 5
  have hfind : (Formula.find? ['m', '7']).isSome = true := by decide +kernel
  have hnumeric : ¬ (('7' = '7' ∨ '7' = '9')
      ∧ (['m', '7'] = [] ∨ Formula.find? ['m', '7'] = none)) := by decide +kernel
  rw [if_neg hnumeric] at hreads
  exact ⟨t, ht, hok.mpr (.inr (.inl hfind)), hreads⟩

end ChordToken

end Cantilena
