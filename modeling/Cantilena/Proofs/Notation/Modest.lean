import Cantilena.Proofs.Notation.Told

/-!
# Lines whose numbers can be written

The numbers that are told of tokens are octaves, pitches and places. With a modest octave and a
modest limit they can all be written, and so nothing but the size at which a line is refused can keep
it from being told.

* `isWordedIn_of_isModest` -- the tokens of numbered texts, in a modest octave;
* `isTold_iff` -- numbered lines, with a modest octave and limit.
-/

namespace Cantilena

open Number (isWritable wholeNumber mostDigits IsNumeral)
open Text (isDigit isAsciiDigit IsNumbered)

/-! ## 1. Numbers that can be written -/

namespace Number

theorem isWritable_iff {n : Int} : isWritable n = true ↔ n.natAbs < 10 ^ mostDigits := by
  unfold isWritable
  exact decide_eq_true_iff

/-- A number no further from zero than one that can be written can be written. -/
theorem isWritable_of_le {m n : Int} (hn : isWritable n = true) (h : m.natAbs ≤ n.natAbs) :
    isWritable m = true :=
  isWritable_iff.mpr (Nat.lt_of_le_of_lt h (isWritable_iff.mp hn))

theorem isWritable_thousand : isWritable 1000 = true := by decide +kernel

/-- An ASCII digit is read as a number from 0 to 9. -/
theorem of_wholeNumber_digit {c : Char} {n : Int} (hc : isAsciiDigit c = true)
    (h : wholeNumber [c] = .ok n) : 0 ≤ n ∧ n ≤ 9 := by
  have hnumeral : IsNumeral [c] (c.toNat - 48) :=
    ⟨List.cons_ne_nil c [], List.forall_mem_singleton.mpr hc, by simp [Nat.ofDigitChars]⟩
  have hshort : ¬ mostDigits < [c].length := Nat.not_lt.mpr (Nat.le_of_ble_eq_true rfl)
  rw [wholeNumber_numeral hnumeral, if_neg hshort] at h
  obtain rfl := Except.ok.inj h
  obtain ⟨-, hhigh⟩ := Text.isAsciiDigit_toNat hc
  omega

end Number

/-- An octave so small that the pitches in it can be written. -/
def IsModest (octave : Int) : Prop := isWritable (100 * octave) = true

theorem isModest_of_digit {n : Int} (h : 0 ≤ n ∧ n ≤ 9) : IsModest n :=
  Number.isWritable_of_le Number.isWritable_thousand (by omega)

/-- An octave that is read from an ASCII digit is modest. -/
theorem isModest_of_wholeNumber {c : Char} {n : Int} (hc : isAsciiDigit c = true)
    (h : wholeNumber [c] = .ok n) : IsModest n :=
  isModest_of_digit (Number.of_wholeNumber_digit hc h)

theorem IsModest.isWritable {octave : Int} (h : IsModest octave) : isWritable octave = true :=
  Number.isWritable_of_le h (by omega)

/-- The pitches of a chord in a modest octave can be written. -/
theorem IsModest.isWritable_pitch {octave pc k : Int} (h : IsModest octave)
    (hpc : 0 ≤ pc ∧ pc < 12) (hk : 0 ≤ k ∧ k ≤ 21) :
    Number.isWritable (Pitch.ofClass pc octave + k) = true := by
  unfold Pitch.ofClass
  by_cases hzero : octave = 0
  · exact Number.isWritable_of_le Number.isWritable_thousand (by omega)
  · exact Number.isWritable_of_le h (by omega)

theorem NoteName.pitchClass_range (n : NoteName) : 0 ≤ n.pitchClass ∧ n.pitchClass < 12 := by
  unfold pitchClass
  omega

namespace Notation

/-! ## 2. Tokens -/

section

variable {token : List Char} {octave index : Int}

/-- The note tokens of numbered texts are worded in an octave that can be written. -/
theorem NoteToken.isWorded_of_isWritable (h : IsNumbered token) (hoctave : isWritable octave = true)
    (hindex : isWritable index = true) : NoteToken.IsWorded octave index token := by
  intro piece hpiece
  cases piece with
  | comma => trivial
  | stray c => exact hindex
  | note n =>
    refine ⟨fun _ _ => hindex, fun name own _ hown _ => ⟨?_, hindex⟩⟩
    unfold WrittenNote.octaveIn WrittenNote.octaveAt at hown
    cases hdigit : n.octave with
    | none =>
      rw [hdigit] at hown
      obtain rfl := Except.ok.inj hown
      exact hoctave
    | some c =>
      rw [hdigit] at hown
      have hcut : c ∈ n.toChars := by
        rw [WrittenNote.toChars_eq, hdigit]
        simp
      have hnumbered : IsNumbered n.toChars :=
        h.plainAccidentals.of_part (infix_of_note_mem_pieces hpiece)
      have hascii := hnumbered.ascii c hcut ((hasDigits_of_mem_pieces hpiece).octave c hdigit)
      exact (isModest_of_wholeNumber hascii hown).isWritable

/-- A chord that is read from a numbered token has a modest octave if the default is one. -/
theorem isModest_of_readOctave {default : Int} {text quality : List Char} (h : IsNumbered text)
    (hdefault : IsModest default)
    (hread : ChordToken.readOctave default text = .ok (octave, quality)) : IsModest octave := by
  cases text with
  | nil =>
    obtain ⟨rfl, -⟩ := Prod.mk.inj (Except.ok.inj hread)
    exact hdefault
  | cons c after =>
    rw [ChordToken.readOctave] at hread
    split at hread
    · rename_i hdigit
      obtain ⟨value, hvalue, he⟩ := map_eq_ok.mp hread
      obtain ⟨rfl, -⟩ := Prod.mk.inj he
      have hascii := h.ascii c List.mem_cons_self (Bool.and_eq_true_iff.mp hdigit).1
      exact isModest_of_wholeNumber hascii hvalue
    · obtain ⟨rfl, -⟩ := Prod.mk.inj (Except.ok.inj hread)
      exact hdefault

/-- The tokens of the chord lines of numbered texts are worded in a modest octave. -/
theorem ChordSlot.isWorded_of_isModest (h : IsNumbered token) (hoctave : IsModest octave)
    (hindex : isWritable index = true) : ChordSlot.IsWorded octave index token := by
  have hintervals : ∀ f ∈ Formula.table, ∀ k ∈ f.intervals, 0 ≤ k ∧ k ≤ 21 := by decide +kernel
  intro _ chord hchord
  refine ⟨fun _ => hindex, fun pitch hpitch _ => ⟨?_, hindex⟩⟩
  have hnumbered : IsNumbered (chordText token) :=
    h.of_part (prefix_chordText token).isInfix
  unfold ChordToken.pitches at hpitch
  cases hsense : chord.sense with
  | fault cause =>
    rw [hsense] at hpitch
    cases hpitch
  | silence =>
    rw [hsense] at hpitch
    cases hpitch
  | sounds f pitches =>
    rw [hsense] at hpitch
    obtain ⟨root, remaining, own, quality, hroot, hown, hfind, rfl⟩ :=
      ChordToken.of_sense_eq_sounds hchord hsense
    obtain ⟨k, hk, rfl⟩ := List.mem_map.mp hpitch
    have hremaining : remaining <:+: plainAccidentals (chordText token) :=
      List.IsSuffix.isInfix ⟨_, Sign.toChars_append_of_leading? hroot⟩
    have hcut := (ChordToken.of_splitOperator remaining).1.isInfix.trans hremaining
    have hmodest := isModest_of_readOctave (hnumbered.plainAccidentals.of_part hcut) hoctave hown
    exact hmodest.isWritable_pitch root.pitchClass_range
      (hintervals f (Formula.of_find?_eq_some hfind).1 k hk)

/-- **The tokens of numbered texts are worded in a modest octave**, in lines of either kind. -/
theorem isWordedIn_of_isModest {kind : Char} (h : IsNumbered token) (hoctave : IsModest octave)
    (hindex : isWritable index = true) : IsWordedIn kind octave index token := by
  unfold IsWordedIn
  split
  · exact NoteToken.isWorded_of_isWritable h hoctave.isWritable hindex
  · exact ChordSlot.isWorded_of_isModest h hoctave hindex

end

/-! ## 3. Lines -/

/-- The octave of a header is modest if the default is. -/
theorem isModest_of_digitOr {default own : Int} {text : List Char} (h : IsNumbered text)
    (hdefault : IsModest default) (hown : digitOr default text = .ok own) : IsModest own := by
  cases text with
  | nil =>
    obtain rfl := Except.ok.inj hown
    exact hdefault
  | cons c rest =>
    rw [digitOr] at hown
    split at hown
    · rename_i hdigit
      exact isModest_of_wholeNumber (h.ascii c List.mem_cons_self hdigit) hown
    · obtain rfl := Except.ok.inj hown
      exact hdefault

/-- **With a modest octave and a modest limit a numbered line is told** unless it is refused at a size
    that cannot be written. -/
theorem isTold_iff {line : List Char} {octave limit : Int} (h : IsNumbered line)
    (hoctave : IsModest octave) (hlimit : isWritable limit = true) : IsTold octave limit line
      ↔ ∀ requested, refusalOf? limit line = some requested → isWritable requested = true := by
  constructor
  · intro htold requested hrequested
    exact (htold.refused requested hrequested).1
  · intro hwritable
    refine ⟨fun requested hrequested => ⟨hwritable requested hrequested, hlimit⟩,
      fun hgranted kind rest hbare hkind own hown i token hi => ?_⟩
    have hheader : IsNumbered (((lineTokens line).headD []).drop 1) := by
      cases htokens : lineTokens line with
      | nil => exact h.of_part List.nil_infix
      | cons header rest =>
        have hmem : header ∈ lineTokens line := htokens ▸ List.mem_cons_self
        exact (isNumbered_of_mem_lineTokens h hmem).of_part (List.drop_suffix 1 header).isInfix
    have htoken : IsNumbered token :=
      isNumbered_of_mem_lineTokens h (List.mem_of_mem_tail (List.mem_of_getElem? hi))
    -- the tokens of a line that is not refused are no more than the limit
    have hindex : isWritable (i : Int) = true := by
      have hsmall := (refusalOf?_eq_none_iff h).mp hgranted
      have hsigned := isSigned_iff.mpr ⟨kind, rest, hbare, hkind⟩
      have hsize : ((lineTokens line).length : Int) ≤ limit :=
        Classical.byContradiction fun hn => hsmall ⟨hsigned, fun hfits => hn hfits.2⟩
      have hi' : i < (lineTokens line).tail.length := (List.getElem?_eq_some_iff.mp hi).1
      rw [List.length_tail] at hi'
      exact Number.isWritable_of_le hlimit (by omega)
    exact isWordedIn_of_isModest htoken (isModest_of_digitOr hheader hoctave hown) hindex

end Notation

end Cantilena
