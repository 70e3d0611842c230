import Cantilena.Proofs.Chord.Triads
import Cantilena.Proofs.Outcome

/-!
# Symbols that are read as tokens

A chord symbol stands without the blanks around it and is read for its root and the text behind it.
As a token the same text is read for a root, an octave digit, a quality and a length. Where a token
sounds, both find the same root, and the symbol the text that the token is read for.

* `splitOperator_append`, `of_readOctave_eq_ok`, `sense_cases` -- the parts of a token;
* `leading?_of_strip` -- the root of a token and that of a symbol;
* `isRead_of_sounds` -- a token that sounds is read for its formula in the symbol;
* `not_suspended` -- a symbol without the mark of a suspension has none behind its root.
-/

namespace Cantilena

open Text (IsGap folded)

/-! ## 1. The parts of a token -/

namespace ChordToken

/-- A text without its length starts where an operator does. -/
theorem splitOperator_append (s : List Char) : ∃ back, s = (splitOperator s).1 ++ back
    ∧ ∀ c rest, back = c :: rest → (LengthOperator.ofChar? c).isSome = true := by
  induction s with
  | nil => exact ⟨[], rfl, fun _ _ h => by cases h⟩
  | cons c s ih =>
    obtain ⟨back, hs, hback⟩ := ih
    cases hop : LengthOperator.ofChar? c with
    | none =>
      refine ⟨back, ?_, hback⟩
      rw [splitOperator, hop]
      exact congrArg (c :: ·) hs
    | some op =>
      refine ⟨c :: s, ?_, fun d rest h => ?_⟩
      · rw [splitOperator, hop]
        rfl
      · obtain rfl := (List.cons.inj h).1
        rw [hop]
        rfl

/-- What an octave is read from is the quality, or an octave digit and the quality. -/
theorem of_readOctave_eq_ok {default octave : Int} {text quality : List Char}
    (h : readOctave default text = .ok (octave, quality)) :
    text = quality ∨ ∃ digit, Text.isDigit digit = true ∧ text = digit :: quality := by
  cases text with
  | nil =>
    obtain ⟨-, rfl⟩ := Prod.mk.inj (Except.ok.inj h)
    exact .inl rfl
  | cons c after =>
    rw [readOctave] at h
    split at h
    · rename_i hdigit
      obtain ⟨value, -, hvalue⟩ := map_eq_ok.mp h
      obtain ⟨-, rfl⟩ := Prod.mk.inj hvalue
      exact .inr ⟨c, (Bool.and_eq_true_iff.mp hdigit).1, rfl⟩
    · obtain ⟨-, rfl⟩ := Prod.mk.inj (Except.ok.inj h)
      exact .inl rfl

/-- A token is at fault, or it has a root and means what its root, its octave and its quality do. -/
theorem sense_cases {symbol : List Char} {default : Int} {token : ChordToken}
    (h : read symbol default = .ok token) : (∃ cause, token.sense = .fault cause)
      ∨ ∃ sign remaining octave quality,
        Sign.leading? (plainAccidentals symbol) = some (sign, remaining)
          ∧ readOctave default (splitOperator remaining).1 = .ok (octave, quality)
          ∧ token.sense = senseOf sign octave quality := by
  unfold read at h
  cases hsign : Sign.leading? (plainAccidentals symbol) with
  | none =>
    simp only [hsign, Option.isSome_none, Bool.false_eq_true, if_false] at h
    obtain ⟨_, -, h⟩ := bind_eq_ok.mp h
    refine .inl ?_
    split at h
    · obtain rfl := Except.ok.inj h
      exact ⟨_, rfl⟩
    · split at h
      · obtain ⟨_, -, h⟩ := bind_eq_ok.mp h
        obtain rfl := Except.ok.inj h
        exact ⟨_, rfl⟩
      · obtain rfl := Except.ok.inj h
        exact ⟨_, rfl⟩
  | some leading =>
    obtain ⟨sign, remaining⟩ := leading
    simp only [hsign, Option.isSome_some, if_true] at h
    obtain ⟨⟨octave, quality⟩, hoctave, h⟩ := bind_eq_ok.mp h
    split at h
    · obtain rfl := Except.ok.inj h
      exact .inr ⟨sign, remaining, octave, quality, rfl, hoctave, rfl⟩
    · split at h
      · obtain ⟨_, -, h⟩ := bind_eq_ok.mp h
        obtain rfl := Except.ok.inj h
        exact .inr ⟨sign, remaining, octave, quality, rfl, hoctave, rfl⟩
      · obtain rfl := Except.ok.inj h
        exact .inl ⟨_, rfl⟩

/-- **What a token sounds** it has from its root, its octave and its quality. -/
theorem of_sense_eq_sounds {symbol : List Char} {default : Int} {token : ChordToken} {f : Formula}
    {pitches : List Int} (h : read symbol default = .ok token)
    (hsounds : token.sense = .sounds f pitches) :
    ∃ root remaining octave quality,
      Sign.leading? (plainAccidentals symbol) = some (.note root, remaining)
        ∧ readOctave default (splitOperator remaining).1 = .ok (octave, quality)
        ∧ Formula.find? quality = some f
        ∧ pitches = f.intervals.map fun k => Pitch.ofClass root.pitchClass octave + k := by
  obtain ⟨cause, hfault⟩ | ⟨sign, remaining, octave, quality, hsign, hoctave, hsense⟩ :=
    sense_cases h
  · rw [hfault] at hsounds
    cases hsounds
  rw [hsense] at hsounds
  cases sign with
  | silence => cases hsounds
  | note root =>
    rw [senseOf] at hsounds
    split at hsounds
    · cases hsounds
    · rename_i found hfound
      obtain ⟨rfl, rfl⟩ := ChordSense.sounds.inj hsounds
      exact ⟨root, remaining, octave, quality, hsign, hoctave, hfound, rfl⟩

end ChordToken

/-! ## 2. The root -/

theorem plainAccidentals_append (s t : List Char) :
    plainAccidentals (s ++ t) = plainAccidentals s ++ plainAccidentals t := List.map_append

theorem plainAccidentals_gap {s : List Char} (h : IsGap s) : plainAccidentals s = s := by
  refine (List.map_congr_left fun c hc => ?_).trans (List.map_id s)
  have hblank := h c hc
  have hsharp : (c == '♯') = false := beq_eq_false_iff_ne.mpr (by rintro rfl; revert hblank; decide)
  have hflat : (c == '♭') = false := beq_eq_false_iff_ne.mpr (by rintro rfl; revert hblank; decide)
  rw [hsharp, hflat]
  rfl

namespace NoteName

theorem leadingAccidental_append_gap {gap : List Char} (hgap : IsGap gap) (s : List Char) :
    leadingAccidental (s ++ gap) = ((leadingAccidental s).1, (leadingAccidental s).2 ++ gap) := by
  cases s with
  | nil =>
    cases gap with
    | nil => rfl
    | cons c gap =>
      have hnone : Accidental.ofChar? c = none := by
        have hblank := hgap c List.mem_cons_self
        unfold Accidental.ofChar?
        split
        · revert hblank; decide
        · revert hblank; decide
        · rfl
      rw [List.nil_append, leadingAccidental, hnone]
      rfl
  | cons c s =>
    rw [List.cons_append, leadingAccidental, leadingAccidental]
    cases Accidental.ofChar? c with
    | none => rfl
    | some a => rfl

/-- The note name at the front of a text stays with blanks behind the text. -/
theorem leading?_append_gap {s rest gap : List Char} {n : NoteName} (hgap : IsGap gap)
    (h : leading? s = some (n, rest)) : leading? (s ++ gap) = some (n, rest ++ gap) := by
  cases s with
  | nil => cases h
  | cons c s =>
    obtain ⟨letter, hletter, hrest⟩ := Option.map_eq_some_iff.mp h
    obtain ⟨rfl, rfl⟩ := Prod.mk.inj hrest
    rw [List.cons_append, leading?, hletter, leadingAccidental_append_gap hgap]
    rfl

/-- A text that starts with a note name has the sign of this note in front. -/
theorem sign_leading? {s rest : List Char} {n : NoteName} (h : leading? s = some (n, rest)) :
    Sign.leading? s = some (.note n, rest) := by
  unfold Sign.leading?
  split
  · cases h
  · rw [h]
    rfl

end NoteName

theorem Sign.leading?_blank {c : Char} {s : List Char} (hc : Text.isBlank c = true) :
    Sign.leading? (c :: s) = none := by
  have hletter : Letter.ofChar? c = none := by
    unfold Letter.ofChar?
    split <;> first | rfl | (revert hc; decide)
  unfold Sign.leading?
  split
  · rename_i rest heq
    have hz : Text.isBlank 'Z' = false := by decide
    rw [(List.cons.inj heq).1, hz] at hc
    cases hc
  · rw [NoteName.leading?, hletter]
    rfl

/-- **A token that has a root has the one of its symbol**, and behind it the same text but for
    blanks. -/
theorem leading?_of_strip {symbol rest remaining : List Char} {root : NoteName} {sign : Sign}
    (hsymbol : NoteName.leading? (plainAccidentals (Text.strip symbol)) = some (root, rest))
    (htoken : Sign.leading? (plainAccidentals symbol) = some (sign, remaining)) :
    sign = .note root ∧ ∃ gap, IsGap gap ∧ remaining = rest ++ gap := by
  obtain ⟨before, after, hbefore, hafter, hsplit⟩ := Text.exists_strip symbol
  have hplain : plainAccidentals symbol
      = before ++ (plainAccidentals (Text.strip symbol) ++ after) :=
    calc plainAccidentals symbol
        = plainAccidentals (before ++ Text.strip symbol ++ after) := congrArg _ hsplit
      _ = plainAccidentals before ++ plainAccidentals (Text.strip symbol)
            ++ plainAccidentals after := by
          rw [plainAccidentals_append, plainAccidentals_append]
      _ = before ++ (plainAccidentals (Text.strip symbol) ++ after) := by
          rw [plainAccidentals_gap hbefore, plainAccidentals_gap hafter, List.append_assoc]
  rw [hplain] at htoken
  cases before with
  | cons c before =>
    -- a blank in front leaves the token without a root
    rw [List.cons_append, Sign.leading?_blank (hbefore c List.mem_cons_self)] at htoken
    cases htoken
  | nil =>
    have hroot := NoteName.sign_leading? (NoteName.leading?_append_gap hafter hsymbol)
    obtain ⟨hsign, rfl⟩ := Prod.mk.inj (Option.some.inj (htoken.symm.trans hroot))
    exact ⟨hsign, after, hafter, rfl⟩

/-! ## 3. The text behind the root -/

/-- Operators have no case. -/
theorem LengthOperator.foldedChar {c : Char} (h : (ofChar? c).isSome = true) :
    Text.foldedChar c = [c] := by
  unfold ofChar? at h
  split at h
  · decide
  · decide
  · decide
  · decide
  · cases h

namespace Formula

/-- The formula of a quality is one whose name it starts with, or the major triad of no quality. -/
theorem of_find?_eq_some {quality : List Char} {f : Formula} (h : find? quality = some f) :
    f ∈ table ∧ (f.name.toList <+: Text.lower quality ∨ (quality = [] ∧ f.name = "maj")) := by
  unfold find? at h
  have hmem : f ∈ table := List.mem_of_find?_eq_some h
  cases quality with
  | nil =>
    have hnames : ∀ f ∈ table, find? [] = some f → f.name = "maj" := by decide +kernel
    exact ⟨hmem, .inr ⟨rfl, hnames f hmem h⟩⟩
  | cons c quality =>
    have hstarts : f.starts (Text.lower (c :: quality)) = true :=
      List.find?_some (p := fun g : Formula => g.starts (Text.lower (c :: quality))) h
    exact ⟨hmem, .inl (List.isPrefixOf_iff_prefix.mp hstarts)⟩

/-- Names of formulas hold neither blanks nor sigmas. -/
theorem name_plain {f : Formula} (hf : f ∈ table) :
    Text.NoSigma f.name.toList ∧ ∀ c ∈ f.name.toList, Text.isBlank c = false := by
  have hnames : ∀ f ∈ table,
      Text.NoSigma f.name.toList ∧ f.name.toList.all (fun c => !Text.isBlank c) = true := by
    decide +kernel
  obtain ⟨hsigma, hblank⟩ := hnames f hf
  exact ⟨hsigma, fun c hc => (Bool.not_eq_true' _).mp (List.all_eq_true.mp hblank c hc)⟩

/-- A text of a quality and what an operator starts is read for the formula of the quality, with
    blanks behind it or without. -/
theorem opens_of_append {rest gap quality back : List Char} (hgap : IsGap gap)
    (hback : ∀ c more, back = c :: more → (LengthOperator.ofChar? c).isSome = true) {f : Formula}
    (hfind : find? quality = some f) (h : rest ++ gap = quality ++ back) :
    f.Opens (folded rest) := by
  obtain ⟨hmem, hname | ⟨rfl, hmaj⟩⟩ := of_find?_eq_some hfind
  · obtain ⟨hsigma, hblank⟩ := name_plain hmem
    have hfolded : folded rest ++ gap = folded quality ++ folded back := by
      rw [← Text.folded_append, ← h, Text.folded_append, Text.folded_gap hgap]
    have hprefix : f.name.toList <+: folded rest ++ gap := by
      rw [hfolded]
      exact ((Text.prefix_lower_iff hsigma).mp hname).trans (List.prefix_append _ _)
    refine .inl (Text.prefix_of_prefix_append hprefix fun c hc hmem => ?_)
    have := hgap c hc
    rw [hblank c hmem] at this
    cases this
  · refine .inr ⟨hmaj, fun c more hc => ?_⟩
    cases rest with
    | nil => cases hc
    | cons b rest =>
      have hop := hback b (rest ++ gap) h.symm
      rw [Text.folded_cons, LengthOperator.foldedChar hop] at hc
      obtain rfl := (List.cons.inj hc).1
      exact hop

end Formula

/-- **A token that sounds is read for its formula in its symbol**, and sounds the formula above the
    root of the symbol. -/
theorem isRead_of_sounds {symbol rest : List Char} {root : NoteName}
    (hsymbol : NoteName.leading? (plainAccidentals (Text.strip symbol)) = some (root, rest))
    {default : Int} {token : ChordToken} (h : ChordToken.read symbol default = .ok token)
    {f : Formula} {pitches : List Int} (hsounds : token.sense = .sounds f pitches) :
    f ∈ Formula.table ∧ f.IsRead (folded rest)
      ∧ ∃ octave, pitches = f.intervals.map fun k => Pitch.ofClass root.pitchClass octave + k := by
  obtain ⟨root', remaining, octave, quality, hsign, hoctave, hfind, hpitches⟩ :=
    ChordToken.of_sense_eq_sounds h hsounds
  obtain ⟨hroot, gap, hgap, rfl⟩ := leading?_of_strip hsymbol hsign
  obtain rfl := Sign.note.inj hroot
  obtain ⟨back, hsplit, hback⟩ := ChordToken.splitOperator_append (rest ++ gap)
  refine ⟨(Formula.of_find?_eq_some hfind).1, ?_, octave, hpitches⟩
  rcases ChordToken.of_readOctave_eq_ok hoctave with hbefore | ⟨digit, hdigit, hbefore⟩
  · rw [hbefore] at hsplit
    exact .inl (Formula.opens_of_append hgap hback hfind hsplit)
  · rw [hbefore, List.cons_append] at hsplit
    cases rest with
    | nil =>
      rw [List.nil_append] at hsplit
      have hblank := hgap digit (hsplit ▸ List.mem_cons_self)
      rw [Text.isBlank_of_isDigit hdigit] at hblank
      cases hblank
    | cons c rest =>
      obtain ⟨rfl, hbehind⟩ := List.cons.inj hsplit
      refine .inr ⟨c, folded rest, hdigit, ?_, Formula.opens_of_append hgap hback hfind hbehind⟩
      rw [Text.folded_cons, Text.foldedChar_of_isDigit hdigit]
      rfl

/-- The token of a symbol is no rest. -/
theorem ChordToken.sense_ne_silence {symbol rest : List Char} {root : NoteName}
    (hsymbol : NoteName.leading? (plainAccidentals (Text.strip symbol)) = some (root, rest))
    {default : Int} {token : ChordToken} (h : read symbol default = .ok token) :
    token.sense ≠ .silence := by
  intro hsilence
  obtain ⟨cause, hfault⟩ | ⟨sign, remaining, octave, quality, hsign, -, hsense⟩ := sense_cases h
  · rw [hfault] at hsilence
    cases hsilence
  obtain ⟨rfl, -⟩ := leading?_of_strip hsymbol hsign
  rw [hsense, senseOf] at hsilence
  split at hsilence
  · cases hsilence
  · cases hsilence

/-! ## 4. Suspensions -/

theorem NoteName.suffix_of_leading? {s rest : List Char} {n : NoteName}
    (h : leading? s = some (n, rest)) : rest <:+ s := by
  cases s with
  | nil => cases h
  | cons c s =>
    obtain ⟨letter, -, hrest⟩ := Option.map_eq_some_iff.mp h
    obtain ⟨-, rfl⟩ := Prod.mk.inj hrest
    refine List.IsSuffix.trans ?_ (List.suffix_cons c s)
    cases s with
    | nil => exact List.suffix_refl _
    | cons d s =>
      show (leadingAccidental (d :: s)).2 <:+ d :: s
      rw [leadingAccidental]
      cases Accidental.ofChar? d with
      | none => exact List.suffix_refl _
      | some a => exact List.suffix_cons d s

/-- The signs of accidentals as one. -/
def plainSign (c : Char) : Char := if c ∈ ['♯', '♭', 'b'] then '#' else c

/-- With the signs of accidentals as one it does not matter how they are written. -/
theorem map_folded_plainAccidentals (s : List Char) :
    (folded (plainAccidentals s)).map plainSign = (folded s).map plainSign := by
  induction s with
  | nil => rfl
  | cons c s ih =>
    have hcons : plainAccidentals (c :: s) = plainAccidentals [c] ++ plainAccidentals s := rfl
    have hc : (folded (plainAccidentals [c])).map plainSign
        = (Text.foldedChar c).map plainSign := by
      by_cases hsharp : c = '♯'
      · rw [hsharp]
        decide +kernel
      · by_cases hflat : c = '♭'
        · rw [hflat]
          decide +kernel
        · have hsame : plainAccidentals [c] = [c] := by
            simp [plainAccidentals, hsharp, hflat]
          rw [hsame, Text.folded_cons]
          simp [folded]
    rw [hcons, Text.folded_append, List.map_append, ih, hc, Text.folded_cons, List.map_append]

theorem keeps_plainSign {word : List Char}
    (h : (word.all fun c => !(['♯', '♭', 'b', '#'].contains c)) = true) :
    Text.Keeps plainSign word := by
  intro a ha c
  have hsign := (Bool.not_eq_true' _).mp (List.all_eq_true.mp h a ha)
  unfold plainSign
  split
  · rename_i hc
    constructor
    · rintro rfl
      cases hsign
    · rintro rfl
      have hmem : c ∈ ['♯', '♭', 'b', '#'] := List.mem_append_left _ hc
      rw [List.contains_iff_mem.mpr hmem] at hsign
      cases hsign
  · exact Iff.rfl

/-- **A symbol without the mark of a suspension has none behind its root.** -/
theorem not_suspended {symbol rest : List Char} {root : NoteName}
    (hsymbol : NoteName.leading? (plainAccidentals (Text.strip symbol)) = some (root, rest))
    (hsus : mentions (Text.lower symbol) "sus" = false) : mentions (folded rest) "sus" = false := by
  refine Bool.eq_false_iff.mpr fun hmention => Bool.eq_false_iff.mp hsus ?_
  obtain ⟨front, hfront⟩ := NoteName.suffix_of_leading? hsymbol
  obtain ⟨front', rest', hstrip, -, rfl⟩ := List.map_eq_append_iff.mp hfront.symm
  obtain ⟨before, after, -, -, hsplit⟩ := Text.exists_strip symbol
  have hkeeps : Text.Keeps plainSign "sus".toList := keeps_plainSign (by decide)
  -- the mark stands in the text behind the root as it is written in the symbol
  have hrest : "sus".toList <:+: folded rest' := by
    have hwritten : "sus".toList <:+: (folded (plainAccidentals rest')).map plainSign :=
      (Text.infix_map_iff hkeeps).mpr (mentions_iff.mp hmention)
    rw [map_folded_plainAccidentals] at hwritten
    exact (Text.infix_map_iff hkeeps).mp hwritten
  have hwhole : folded symbol
      = folded (before ++ front') ++ folded rest' ++ folded after := by
    rw [← Text.folded_append, ← Text.folded_append, List.append_assoc before, ← hstrip, ← hsplit]
  refine mentions_iff.mpr ((Text.infix_lower_iff (by decide)).mpr (hrest.trans ?_))
  exact ⟨_, _, hwhole.symm⟩

end Cantilena
