import Cantilena.Proofs.Chord.Legible
import Cantilena.Proofs.Progression.Triads

/-!
# The octave of block chords

Block chords are asked for in an octave, and a chord symbol names none. But as a token the same text
may have a digit behind its root that is read as an octave, and then the chord sounds in that one.

* `ChordToken.OctaveDigit` -- the digit of a text that is its octave when the text sounds as a token;
* `Entry.KeepsOctave` -- whether an entry has no such digit but that of the octave asked for;
* `Entry.head_tones_iff` -- the pitches of an entry start with its root in the octave just then;
* `blockChords_in_octave` -- the rows of block chords.
-/

namespace Cantilena

open Number (wholeNumber)
open Text (isDigit isDigits)

/-! ## 1. Octave digits -/

namespace ChordToken

/-- A digit behind the root of a text that is its octave when the text sounds as a token: behind the
    digit a formula is found, and with nothing behind it none is found for the digit itself. If the
    text has a length operator, digits stand behind it. -/
def OctaveDigit (text : List Char) (digit : Char) : Prop :=
  ∃ root rest quality, NoteName.leading? (plainAccidentals text) = some (root, rest)
    ∧ (splitOperator rest).1 = digit :: quality ∧ isDigit digit = true
    ∧ (Formula.find? quality).isSome = true ∧ (quality = [] → Formula.find? [digit] = none)
    ∧ ∀ op digits, (splitOperator rest).2 = some (op, digits) → isDigits digits = true

variable {text : List Char} {default : Int} {token : ChordToken}

theorem leading?_of_sign {s rest : List Char} {n : NoteName}
    (h : Sign.leading? s = some (.note n, rest)) : NoteName.leading? s = some (n, rest) := by
  unfold Sign.leading? at h
  split at h
  · cases h
  · obtain ⟨⟨n', rest'⟩, hleading, he⟩ := Option.map_eq_some_iff.mp h
    obtain ⟨hn, rfl⟩ := Prod.mk.inj he
    rw [hleading, Sign.note.inj hn]

/-- A text with an octave digit is understood as a token, in the octave of the digit. -/
theorem of_octaveDigit {digit : Char} (hdigit : OctaveDigit text digit)
    (h : read text default = .ok token) :
    token.ok = true ∧ wholeNumber [digit] = .ok token.octave := by
  obtain ⟨root, rest, quality, hroot, hbefore, hd, hfind, hbare, hoperand⟩ := hdigit
  obtain ⟨hsign, hbehind⟩ := signOf_of_leading? hroot
  have hfirst : octaveFirst (digit :: quality) quality = true := by
    cases quality with
    | nil => rw [octaveFirst, hbare rfl]; rfl
    | cons c quality => rw [octaveFirst, hfind]; rfl
  rw [read_eq, octaveOf, hsign, hbehind, hbefore, readOctave, hd, hfirst] at h
  obtain ⟨o, ho, h⟩ := bind_eq_ok.mp h
  obtain ⟨n, hn, rfl⟩ := map_eq_ok.mp ho
  obtain ⟨f, hf⟩ := Option.isSome_iff_exists.mp hfind
  have hwhole (length : Option (LengthOperator × Int)) :
      (whole text (n, quality) length).ok = true
        ∧ wholeNumber [digit] = .ok (whole text (n, quality) length).octave := by
    simp only [whole, hsign, ok, senseOf, hf, hn, and_self]
  cases htail : (splitOperator rest).2 with
  | none =>
    rw [htail] at h
    obtain rfl := Except.ok.inj h
    exact hwhole none
  | some tail =>
    obtain ⟨op, digits⟩ := tail
    rw [htail, ending, if_pos (hoperand op digits htail)] at h
    obtain ⟨l, -, rfl⟩ := map_eq_ok.mp h
    exact hwhole (some (op, l))

/-- A text that sounds as a token has an octave digit, or it sounds in the octave that is asked
    for. -/
theorem octaveDigit_or_of_sounds {root : NoteName} {rest : List Char}
    (hroot : NoteName.leading? (plainAccidentals text) = some (root, rest))
    (h : read text default = .ok token) {f : Formula} {pitches : List Int}
    (hsounds : token.sense = .sounds f pitches) :
    (∃ digit, OctaveDigit text digit) ∨ token.octave = default := by
  have hok : token.ok = true := by rw [ok, hsounds]
  have hunderstood := understands_of_ok h hok
  obtain ⟨hsign, hbehind⟩ := signOf_of_leading? hroot
  have hparts := hunderstood.parts
  have hlength := hunderstood.length
  rw [hbehind] at hparts hlength
  have hfind : (Formula.find? token.quality).isSome = true := by
    rcases hunderstood.sounds with hrest | ⟨root', f', -, hf', -⟩
    · rw [hunderstood.root.2, hsign] at hrest
      cases hrest
    · rw [hf']
      rfl
  cases hbefore : (splitOperator rest).1 with
  | nil =>
    rw [hbefore] at hparts
    exact .inr (Prod.mk.inj (Except.ok.inj hparts)).1.symm
  | cons c after =>
    rw [hbefore, readOctave] at hparts
    split at hparts
    · rename_i hfirst
      obtain ⟨hdigit, hfirst⟩ := Bool.and_eq_true_iff.mp hfirst
      obtain ⟨n, -, he⟩ := map_eq_ok.mp hparts
      obtain ⟨-, rfl⟩ := Prod.mk.inj he
      refine .inl ⟨c, root, rest, token.quality, hroot, hbefore, hdigit, hfind, fun hbare => ?_,
        fun op digits htail => (hlength op digits htail).1⟩
      rw [hbare] at hfirst
      exact Option.isNone_iff_eq_none.mp hfirst
    · exact .inr (Prod.mk.inj (Except.ok.inj hparts)).1.symm

end ChordToken

/-! ## 2. The first pitch -/

/-- Among the pitches of a formula that notes can have, the first is a root that notes can have just
    where the octave is its own. -/
theorem Formula.head_playable_iff {f : Formula} (hf : f ∈ table) {root octave octave' : Int}
    (hroot : Pitch.playable (Pitch.ofClass root octave) = true) :
    ((f.intervals.map fun k => Pitch.ofClass root octave' + k).filter Pitch.playable).head?
        = some (Pitch.ofClass root octave)
      ↔ octave' = octave := by
  have hintervals : ∀ f ∈ table, f.intervals.head? = some 0
      ∧ ∀ k ∈ f.intervals, k % 12 = 0 → k = 0 := by decide +kernel
  obtain ⟨hfirst, honly⟩ := hintervals f hf
  constructor
  · intro h
    obtain ⟨k, hk, hpitch⟩ := List.mem_map.mp (List.mem_filter.mp (List.mem_of_mem_head? h)).1
    rw [Pitch.ofClass, Pitch.ofClass] at hpitch
    have := honly k hk (by omega)
    omega
  · rintro rfl
    obtain ⟨rest, hrest⟩ := List.head?_eq_some_iff.mp hfirst
    rw [hrest, List.map_cons, Int.add_zero, List.filter_cons_of_pos hroot]
    rfl

/-- The tones of a chord start with its root. -/
theorem Chord.head_playable_tones (c : Chord) {octave : Int}
    (hroot : Pitch.playable (Pitch.ofClass c.root octave) = true) :
    ((c.tones octave).filter Pitch.playable).head? = some (Pitch.ofClass c.root octave) := by
  have hfirst : c.intervals.head? = some 0 := by
    unfold intervals
    cases c.triad <;> rfl
  obtain ⟨rest, hrest⟩ := List.head?_eq_some_iff.mp hfirst
  rw [tones, hrest, List.map_cons, Int.add_zero, List.filter_cons_of_pos hroot]
  rfl

namespace Entry

variable {e : Entry} {octave : Int} {chord : Chord} {pitches : List Int}

/-- Whether the symbol of an entry has no octave digit, or that of the octave asked for. -/
def KeepsOctave (e : Entry) (octave : Int) : Prop :=
  ∀ digit, ChordToken.OctaveDigit e.chord digit → wholeNumber [digit] = .ok octave

/-- **The pitches of an entry start with the root of its symbol in the octave asked for** just where
    the entry keeps this octave. -/
theorem head_tones_iff (hchord : Chord.ofSymbol? e.chord = some chord)
    (h : (e.tones octave).outcome = .ok pitches)
    (hroot : Pitch.playable (Pitch.ofClass chord.root octave) = true) :
    (pitches.filter Pitch.playable).head? = some (Pitch.ofClass chord.root octave)
      ↔ e.KeepsOctave octave := by
  obtain ⟨root, rest, hsymbol, -, hchordroot, -⟩ := Chord.of_ofSymbol?_eq_some hchord
  obtain ⟨token, htoken, ⟨hsilence, -⟩ | ⟨f, hsounds⟩ | ⟨cause, hfault, rfl⟩⟩ :=
    of_tones_eq_ok hchord h
  · exact absurd hsilence (ChordToken.sense_ne_silence hsymbol htoken)
  · -- the token sounds: its octave is that of the digit, or the one asked for
    obtain ⟨root', remaining, octave', quality, hsign, hoctave, hfind, rfl⟩ :=
      ChordToken.of_sense_eq_sounds htoken hsounds
    obtain ⟨hroot', -⟩ := leading?_of_strip hsymbol hsign
    obtain rfl := Sign.note.inj hroot'
    have hleading := ChordToken.leading?_of_sign hsign
    have hok : token.ok = true := by rw [ChordToken.ok, hsounds]
    have hparts := (ChordToken.understands_of_ok htoken hok).parts
    rw [(ChordToken.signOf_of_leading? hleading).2, hoctave] at hparts
    obtain ⟨rfl, -⟩ := Prod.mk.inj (Except.ok.inj hparts)
    rw [hchordroot] at hroot ⊢
    rw [Formula.head_playable_iff (Formula.of_find?_eq_some hfind).1 hroot]
    constructor
    · rintro rfl digit hdigit
      exact (ChordToken.of_octaveDigit hdigit htoken).2
    · intro hkeeps
      rcases ChordToken.octaveDigit_or_of_sounds hleading htoken hsounds with ⟨digit, hdigit⟩ | he
      · have := (ChordToken.of_octaveDigit hdigit htoken).2
        exact Except.ok.inj (this.symm.trans (hkeeps digit hdigit))
      · exact he
  · refine iff_of_true (chord.head_playable_tones hroot) fun digit hdigit => ?_
    have hok := (ChordToken.of_octaveDigit hdigit htoken).1
    rw [ChordToken.ok, hfault] at hok
    cases hok

end Entry

/-! ## 3. Progressions -/

/-- **Block chords stand in the octave asked for where their symbols keep it.** A progression has block
    chords just where the digits of all its symbols are read. They fall into rows, one for each entry.
    If the root of an entry is the pitch of a note in the octave asked for, the row of the entry
    starts with it just where the symbol has no octave digit, or the digit of this octave. -/
theorem blockChords_in_octave {ticksPerBar velocity : Int} (hticks : 1 ≤ ticksPerBar)
    (hvelocity : 0 ≤ velocity ∧ velocity ≤ 127) (octave : Int) (entries : List Entry) :
    ((∃ notes : List Note,
        (blockChords entries octave ticksPerBar velocity).outcome = .ok notes)
      ↔ ∀ e ∈ entries, ChordToken.IsLegible e.chord)
    ∧ ∀ notes : List Note, (blockChords entries octave ticksPerBar velocity).outcome = .ok notes →
      ∃ rows : List (List Note), notes = rows.flatten ∧ rows.length = entries.length
        ∧ ∀ i (hi : i < entries.length) (chord : Chord),
          entries[i].Sounds octave velocity (tickBefore ticksPerBar entries i)
            (tickBefore ticksPerBar entries (i + 1)) (rows.getD i [])
          ∧ (Chord.ofSymbol? entries[i].chord = some chord →
            Pitch.playable (Pitch.ofClass chord.root octave) = true →
            ((rows.getD i []).head?.map Note.pitch = some (Pitch.ofClass chord.root octave)
              ↔ entries[i].KeepsOctave octave)) := by
  refine ⟨?_, fun notes h => ?_⟩
  · refine (exists_blockChordsFrom_iff hticks hvelocity (Int.le_refl 0)).trans ?_
    exact forall₂_congr fun e _ => ChordToken.exists_read_iff
  · obtain ⟨rows, rfl, hcount, hrows⟩ := exists_rows h
    refine ⟨rows, rfl, hcount, fun i hi chord => ?_⟩
    have hrow := hrows i hi
    rw [Int.zero_add, Int.zero_add] at hrow
    refine ⟨hrow, fun hchord hroot => ?_⟩
    obtain ⟨pitches, hpitches, hmap⟩ := hrow.tones
    rw [← List.head?_map, hmap]
    exact Entry.head_tones_iff hchord hpitches hroot

/-- One bar of G with a seventh. -/
def dominant : Entry := ⟨['G', '7'], 1, Nat.one_pos⟩

/-- The seven of G with a seventh is no octave: the chord starts with the G of octave 3. -/
theorem blockChords_in_octave_dominant : ∃ rows : List (List Note),
    (blockChords [dominant] 3 16 90).outcome = .ok rows.flatten
      ∧ (rows.getD 0 []).head?.map Note.pitch = some 55 := by
  have hticks : (1 : Int) ≤ 16 := by decide
  have hvelocity : (0 : Int) ≤ 90 ∧ (90 : Int) ≤ 127 := by decide
  obtain ⟨hexists, hrows⟩ := blockChords_in_octave hticks hvelocity 3 [dominant]
  have hleading : NoteName.leading? (plainAccidentals dominant.chord) = some (⟨.g, .natural⟩, ['7']) := by
    decide +kernel
  have hlegible : ∀ e ∈ [dominant], ChordToken.IsLegible e.chord := by
    intro e he
    rw [List.mem_singleton.mp he]
    have hread : (ChordToken.read dominant.chord 3).toOption.isSome = true := by decide +kernel
    obtain ⟨token, htoken⟩ := Option.isSome_iff_exists.mp hread
    exact ChordToken.exists_read_iff.mp ⟨token, toOption_eq_some.mp htoken⟩
  have hkeeps : dominant.KeepsOctave 3 := by
    rintro digit ⟨root, rest, quality, hroot, hbefore, -, -, hbare, -⟩
    obtain ⟨-, rfl⟩ := Prod.mk.inj (Option.some.inj (hleading.symm.trans hroot))
    obtain ⟨rfl, rfl⟩ := List.cons.inj hbefore
    have hseventh : Formula.find? ['7'] ≠ none := by decide +kernel
    exact absurd (hbare rfl) hseventh
  obtain ⟨notes, hnotes⟩ := hexists.mpr hlegible
  obtain ⟨rows, rfl, -, hrow⟩ := hrows notes hnotes
  obtain ⟨-, hiff⟩ := hrow 0 Nat.one_pos ⟨7, .major, .dominant⟩
  refine ⟨rows, hnotes, (hiff ?_ ?_).mpr hkeeps⟩
  · decide +kernel
  · decide

/-- A digit behind the root of a symbol is the octave of a token. -/
theorem blockChords_octave_digit :
    Chord.ofSymbol? ['C', '4'] = some ⟨0, .major, .absent⟩
      ∧ Pitch.playable (Pitch.ofClass 0 3) = true
      ∧ ((blockChords [⟨['C', '4'], 1, Nat.one_pos⟩] 3 16 90
          : Logged (List Note)).outcome.toOption.map (List.map Note.pitch)) = some [60, 64, 67]
      ∧ (60 : Int) ≠ Pitch.ofClass 0 3 := by
  decide +kernel

end Cantilena
