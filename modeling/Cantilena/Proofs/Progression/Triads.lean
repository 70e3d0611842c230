import Cantilena.Proofs.Chord.Reading
import Cantilena.Proofs.Progression.Rows

/-!
# Block chords and the chords of a melody

A melody is written over the chord that the symbol of an entry is read as. The block chord of the
entry is what its symbol sounds as a token, and only where it is none, the chord of the symbol. So
the block chord holds the triad of the melody unless the formula of the token is of another triad.

* `Entry.KeepsTriad` -- whether the formula that an entry sounds, if it does, is of a triad that
  stands in the symbol;
* `Entry.holds_triad_iff` -- the pitches of an entry hold the triad of its symbol just then;
* `exists_blockChords_iff` -- a progression has block chords where all its symbols can be read as
  tokens;
* `blockChords_hold_triads` -- the rows of block chords.
-/

namespace Cantilena

/-! ## 1. The chord of a symbol -/

namespace Chord

/-- The lower-case text behind the root of a chord symbol. -/
def behindRoot (symbol : List Char) : List Char :=
  match NoteName.leading? (plainAccidentals (Text.strip symbol)) with
  | some (_, rest) => Text.lower rest
  | none => []

theorem of_ofSymbol?_eq_some {symbol : List Char} {chord : Chord}
    (h : ofSymbol? symbol = some chord) : ∃ root rest,
      NoteName.leading? (plainAccidentals (Text.strip symbol)) = some (root, rest)
        ∧ behindRoot symbol = Text.lower rest
        ∧ chord.root = root.pitchClass ∧ chord.triad = triadOf (Text.lower rest) := by
  unfold ofSymbol? at h
  unfold behindRoot
  cases hleading : NoteName.leading? (plainAccidentals (Text.strip symbol)) with
  | none =>
    rw [hleading] at h
    cases h
  | some leading =>
    obtain ⟨root, rest⟩ := leading
    rw [hleading] at h
    simp only at h
    split at h
    · cases h
    · obtain rfl := Option.some.inj h
      exact ⟨root, rest, rfl, rfl, rfl, rfl⟩

/-- The pitches of a chord hold its triad. -/
theorem mem_tones (c : Chord) (octave : Int) {k : Int} (hk : k ∈ c.triad.intervals) :
    ∃ p ∈ c.tones octave, p % 12 = (c.root + k) % 12 := by
  refine ⟨Pitch.ofClass c.root octave + k, List.mem_map_of_mem (List.mem_append_left _ hk), ?_⟩
  unfold Pitch.ofClass
  omega

end Chord

/-! ## 2. Entries -/

namespace Entry

variable {e : Entry} {octave : Int} {chord : Chord} {pitches : List Int}

/-- Whether the formula that the symbol of an entry sounds as a token, if it does, is of a triad
    that stands in the symbol. -/
def KeepsTriad (e : Entry) (octave : Int) : Prop :=
  ∀ token f pitches, ChordToken.read e.chord octave = .ok token →
    token.sense = .sounds f pitches →
    ∃ t, f.triad? = some t ∧ t.Stands (Chord.behindRoot e.chord)

/-- The pitches of an entry are those of its token, or of its symbol where the token is at fault. -/
theorem of_tones_eq_ok (hchord : Chord.ofSymbol? e.chord = some chord)
    (h : (e.tones octave).outcome = .ok pitches) :
    ∃ token, ChordToken.read e.chord octave = .ok token ∧
      ((token.sense = .silence ∧ pitches = []) ∨ (∃ f, token.sense = .sounds f pitches)
        ∨ ∃ cause, token.sense = .fault cause ∧ pitches = chord.tones octave) := by
  obtain ⟨token, htoken, h⟩ := Logged.bind_outcome_eq_ok.mp h
  refine ⟨token, htoken, ?_⟩
  cases hsense : token.sense with
  | silence =>
    rw [hsense] at h
    exact .inl ⟨rfl, (Except.ok.inj h).symm⟩
  | sounds f tones =>
    rw [hsense] at h
    obtain rfl := Except.ok.inj h
    exact .inr (.inl ⟨f, rfl⟩)
  | fault cause =>
    rw [hsense] at h
    simp only [hchord] at h
    refine .inr (.inr ⟨cause, rfl, ?_⟩)
    cases cause with
    | unknownQuality quality =>
      obtain ⟨_, -, h⟩ := Logged.bind_outcome_eq_ok.mp h
      exact (Except.ok.inj h).symm
    | unknownRoot => exact (Except.ok.inj h).symm
    | operandNotNumber text => exact (Except.ok.inj h).symm

/-- An entry has pitches where its symbol can be read as a token. -/
theorem exists_tones_iff :
    (∃ pitches, (e.tones octave).outcome = .ok pitches)
      ↔ ∃ token, ChordToken.read e.chord octave = .ok token := by
  constructor
  · rintro ⟨pitches, h⟩
    obtain ⟨token, htoken, -⟩ := Logged.bind_outcome_eq_ok.mp h
    exact ⟨token, htoken⟩
  · rintro ⟨token, htoken⟩
    cases hsense : token.sense with
    | silence =>
      refine ⟨[], Logged.bind_outcome_eq_ok.mpr ⟨token, htoken, ?_⟩⟩
      rw [hsense]
      rfl
    | sounds f pitches =>
      refine ⟨pitches, Logged.bind_outcome_eq_ok.mpr ⟨token, htoken, ?_⟩⟩
      rw [hsense]
      rfl
    | fault cause =>
      cases hchord : Chord.ofSymbol? e.chord with
      | some chord =>
        refine ⟨chord.tones octave, Logged.bind_outcome_eq_ok.mpr ⟨token, htoken, ?_⟩⟩
        simp only [hsense, hchord]
        cases cause <;> rfl
      | none =>
        refine ⟨[], Logged.bind_outcome_eq_ok.mpr ⟨token, htoken, ?_⟩⟩
        simp only [hsense, hchord]
        cases cause <;> rfl

/-- **The pitches of an entry hold the triad of its symbol** just where the formula that they are
    taken from, if they are, is of a triad that stands in the symbol. -/
theorem holds_triad_iff (hchord : Chord.ofSymbol? e.chord = some chord)
    (hsus : mentions (Text.lower e.chord) "sus" = false)
    (h : (e.tones octave).outcome = .ok pitches) :
    (∀ k ∈ chord.triad.intervals, ∃ p ∈ pitches, p % 12 = (chord.root + k) % 12)
      ↔ e.KeepsTriad octave := by
  obtain ⟨root, rest, hsymbol, hbehind, hroot, htriad⟩ := Chord.of_ofSymbol?_eq_some hchord
  obtain ⟨token, htoken, ⟨hsilence, -⟩ | ⟨f, hsounds⟩ | ⟨cause, hfault, hpitches⟩⟩ :=
    of_tones_eq_ok hchord h
  · exact absurd hsilence (ChordToken.sense_ne_silence hsymbol htoken)
  · obtain ⟨hf, hread, octave', rfl⟩ := isRead_of_sounds hsymbol htoken hsounds
    have hclasses : (∀ k ∈ chord.triad.intervals,
          ∃ p ∈ f.intervals.map fun l => Pitch.ofClass root.pitchClass octave' + l,
            p % 12 = (chord.root + k) % 12)
        ↔ ∀ k ∈ chord.triad.intervals, ∃ l ∈ f.intervals, k % 12 = l % 12 := by
      have hclass (k l : Int) : (Pitch.ofClass root.pitchClass octave' + l) % 12
          = (chord.root + k) % 12 ↔ k % 12 = l % 12 := by
        rw [hroot, Pitch.ofClass]
        omega
      refine forall₂_congr fun k _ => ?_
      constructor
      · rintro ⟨p, hp, hsame⟩
        obtain ⟨l, hl, rfl⟩ := List.mem_map.mp hp
        exact ⟨l, hl, (hclass k l).mp hsame⟩
      · rintro ⟨l, hl, hsame⟩
        exact ⟨_, List.mem_map_of_mem hl, (hclass k l).mpr hsame⟩
    rw [hclasses, ← Formula.triad?_eq_some_iff hf]
    have hstands {t : Triad} (ht : f.triad? = some t) :
        t.Stands (Chord.behindRoot e.chord) ↔ chord.triad = t := by
      rw [hbehind, Triad.stands_lower, htriad, Chord.triadOf_lower]
      exact (triadOf_eq_iff hf hread (not_suspended hsymbol hsus) ht).symm
    constructor
    · intro ht token' f' pitches' htoken' hsounds'
      obtain rfl := Except.ok.inj (htoken.symm.trans htoken')
      obtain ⟨rfl, -⟩ := ChordSense.sounds.inj (hsounds.symm.trans hsounds')
      exact ⟨chord.triad, ht, (hstands ht).mpr rfl⟩
    · intro hkeeps
      obtain ⟨t, ht, hstand⟩ := hkeeps token f _ htoken hsounds
      rw [(hstands ht).mp hstand]
      exact ht
  · -- the symbol sounds itself
    rw [hpitches]
    refine iff_of_true (fun k hk => chord.mem_tones octave hk) ?_
    intro token' f pitches' htoken' hsounds
    obtain rfl := Except.ok.inj (htoken.symm.trans htoken')
    rw [hfault] at hsounds
    cases hsounds

end Entry

/-! ## 3. Progressions -/

section

variable {octave ticksPerBar velocity : Int} (hticks : 1 ≤ ticksPerBar)
  (hvelocity : 0 ≤ velocity ∧ velocity ≤ 127)
include hvelocity

theorem exists_chordNotes {start length : Int} (hstart : 0 ≤ start) (hlength : 1 ≤ length)
    (pitches : List Int) :
    ∃ notes : List Note, chordNotes start length velocity pitches = .ok notes := by
  refine exists_mapM fun p hp => ?_
  have hplayable := (List.mem_filter.mp hp).2
  simp only [Pitch.playable, Bool.and_eq_true, decide_eq_true_eq] at hplayable
  exact ⟨_, Note.make_eq_ok ⟨hplayable, hstart, hlength, hvelocity⟩⟩

include hticks

/-- **A progression has block chords where all its symbols can be read as tokens.** -/
theorem exists_blockChordsFrom_iff {entries : List Entry} {cursor : Int} (hcursor : 0 ≤ cursor) :
    (∃ notes : List Note,
        (blockChordsFrom octave ticksPerBar velocity cursor entries).outcome = .ok notes)
      ↔ ∀ e ∈ entries, ∃ token, ChordToken.read e.chord octave = .ok token := by
  induction entries generalizing cursor with
  | nil => exact ⟨fun _ e he => absurd he List.not_mem_nil, fun _ => ⟨[], rfl⟩⟩
  | cons e rest ih =>
    have hbars : (1 : Int) ≤ e.bars := by
      have := e.bars_pos
      omega
    have hlength : 1 ≤ (e.bars : Int) * ticksPerBar := by
      have := Int.mul_le_mul hbars hticks (by omega) (by omega)
      omega
    have hnext : 0 ≤ cursor + (e.bars : Int) * ticksPerBar := by omega
    have hrest := ih hnext
    rw [List.forall_mem_cons, ← hrest, ← Entry.exists_tones_iff]
    constructor
    · rintro ⟨notes, h⟩
      obtain ⟨length, hl, h⟩ := Logged.bind_outcome_eq_ok.mp h
      obtain rfl : (e.bars : Int) * ticksPerBar = length := Except.ok.inj hl
      obtain ⟨pitches, hpitches, h⟩ := Logged.bind_outcome_eq_ok.mp h
      obtain ⟨_, -, h⟩ := Logged.bind_outcome_eq_ok.mp h
      obtain ⟨next, hn, h⟩ := Logged.bind_outcome_eq_ok.mp h
      obtain rfl : cursor + (e.bars : Int) * ticksPerBar = next := Except.ok.inj hn
      obtain ⟨others, hothers, -⟩ := Logged.bind_outcome_eq_ok.mp h
      exact ⟨⟨pitches, hpitches⟩, others, hothers⟩
    · rintro ⟨⟨pitches, hpitches⟩, others, hothers⟩
      obtain ⟨row, hrow⟩ := exists_chordNotes hvelocity hcursor hlength pitches
      refine ⟨row ++ others, Logged.bind_outcome_eq_ok.mpr ⟨_, rfl, ?_⟩⟩
      refine Logged.bind_outcome_eq_ok.mpr ⟨pitches, hpitches, ?_⟩
      refine Logged.bind_outcome_eq_ok.mpr ⟨row, hrow, ?_⟩
      refine Logged.bind_outcome_eq_ok.mpr ⟨_, rfl, ?_⟩
      exact Logged.bind_outcome_eq_ok.mpr ⟨others, hothers, rfl⟩

/-- **Block chords sound the triads of a melody where they keep them.** A progression whose symbols
    can all be read as tokens, and only such a one, has block chords. They fall into rows, one for
    each entry. A row whose pitches are all those of notes holds the root, the third and the fifth
    of the chord that the symbol of its entry is read as just where the entry keeps its triad: the
    formula that the symbol sounds as a token, if it sounds one, is of a triad that no mark in the
    symbol overrules. -/
theorem blockChords_hold_triads (octave : Int) (entries : List Entry) :
    ((∃ notes : List Note,
        (blockChords entries octave ticksPerBar velocity).outcome = .ok notes)
      ↔ ∀ e ∈ entries, ∃ token, ChordToken.read e.chord octave = .ok token)
    ∧ ∀ notes : List Note, (blockChords entries octave ticksPerBar velocity).outcome = .ok notes →
      ∃ rows : List (List Note), notes = rows.flatten ∧ rows.length = entries.length
        ∧ ∀ i (hi : i < entries.length) (chord : Chord),
          entries[i].Sounds octave velocity (tickBefore ticksPerBar entries i)
            (tickBefore ticksPerBar entries (i + 1)) (rows.getD i [])
          ∧ (Chord.ofSymbol? entries[i].chord = some chord →
            mentions (Text.lower entries[i].chord) "sus" = false →
            (∀ pitches, (entries[i].tones octave).outcome = .ok pitches →
              ∀ p ∈ pitches, Pitch.playable p = true) →
            ((∀ k ∈ chord.triad.intervals,
                ∃ n ∈ rows.getD i [], n.pitch % 12 = (chord.root + k) % 12)
              ↔ entries[i].KeepsTriad octave)) := by
  refine ⟨exists_blockChordsFrom_iff hticks hvelocity (Int.le_refl 0), fun notes h => ?_⟩
  obtain ⟨rows, rfl, hcount, hrows⟩ := exists_rows h
  refine ⟨rows, rfl, hcount, fun i hi chord => ?_⟩
  have hrow := hrows i hi
  rw [Int.zero_add, Int.zero_add] at hrow
  refine ⟨hrow, fun hchord hsus hplayable => ?_⟩
  obtain ⟨pitches, hpitches, hmap⟩ := hrow.tones
  rw [List.filter_eq_self.mpr (hplayable pitches hpitches)] at hmap
  rw [← Entry.holds_triad_iff hchord hsus hpitches, ← hmap]
  refine forall₂_congr fun k _ => ?_
  constructor
  · rintro ⟨n, hn, hclass⟩
    exact ⟨n.pitch, List.mem_map_of_mem hn, hclass⟩
  · rintro ⟨p, hp, hclass⟩
    obtain ⟨n, hn, rfl⟩ := List.mem_map.mp hp
    exact ⟨n, hn, hclass⟩

end

/-- One bar of A minor with a seventh. -/
def minorSeventh : Entry := ⟨['A', 'm', '7'], 1, Nat.one_pos⟩

/-- One bar of A minor with a seventh sounds A, C and E. -/
theorem blockChords_hold_triads_minor_seventh : ∃ rows : List (List Note),
    (blockChords [minorSeventh] 3 16 90).outcome = .ok rows.flatten
      ∧ ∀ k ∈ Triad.minor.intervals, ∃ n ∈ rows.getD 0 [], n.pitch % 12 = (9 + k) % 12 := by
  have hticks : (1 : Int) ≤ 16 := by decide
  have hvelocity : (0 : Int) ≤ 90 ∧ (90 : Int) ≤ 127 := by decide
  have hsense : (ChordToken.read minorSeventh.chord 3).toOption.map ChordToken.sense
      = some (.sounds ⟨"m7", [0, 3, 7, 10]⟩ [57, 60, 64, 67]) := by decide +kernel
  obtain ⟨token, htoken, hsounds⟩ := Option.map_eq_some_iff.mp hsense
  have htoken := toOption_eq_some.mp htoken
  have hkeeps : minorSeventh.KeepsTriad 3 := by
    intro token' f pitches htoken' hsounds'
    obtain rfl := Except.ok.inj (htoken.symm.trans htoken')
    obtain ⟨rfl, -⟩ := ChordSense.sounds.inj (hsounds.symm.trans hsounds')
    refine ⟨.minor, by decide, Triad.stands_iff.mpr ?_⟩
    decide +kernel
  have hplayable : ∀ pitches, (minorSeventh.tones 3).outcome = .ok pitches →
      ∀ p ∈ pitches, Pitch.playable p = true := by
    intro pitches hpitches
    have htones : (minorSeventh.tones 3).outcome.toOption = some [57, 60, 64, 67] := by
      decide +kernel
    obtain rfl := Except.ok.inj ((toOption_eq_some.mp htones).symm.trans hpitches)
    decide
  have hread : ∀ e ∈ [minorSeventh], ∃ token, ChordToken.read e.chord 3 = .ok token := by
    intro e he
    rw [List.mem_singleton.mp he]
    exact ⟨token, htoken⟩
  obtain ⟨hexists, hrows⟩ := blockChords_hold_triads hticks hvelocity 3 [minorSeventh]
  obtain ⟨notes, hnotes⟩ := hexists.mpr hread
  obtain ⟨rows, rfl, -, hsound⟩ := hrows notes hnotes
  obtain ⟨-, hiff⟩ := hsound 0 Nat.one_pos ⟨9, .minor, .dominant⟩
  refine ⟨rows, hnotes, (hiff ?_ ?_ hplayable).mpr hkeeps⟩
  · decide +kernel
  · decide +kernel

/-- A plus sign that means an augmented triad in a symbol is the operator of a length in a token. -/
theorem blockChords_plus_operator :
    Chord.ofSymbol? ['C', '+', '7'] = some ⟨0, .augmented, .dominant⟩
      ∧ mentions (Text.lower ['C', '+', '7']) "sus" = false
      ∧ ((blockChords [⟨['C', '+', '7'], 1, Nat.one_pos⟩] 3 16 90
          : Logged (List Note)).outcome.toOption.map (List.map Note.pitch)) = some [48, 52, 55]
      ∧ ¬ ∀ k ∈ Triad.augmented.intervals, ∃ p ∈ [48, 52, 55], p % 12 = (0 + k) % 12 := by
  decide +kernel

end Cantilena
