import Cantilena.Arpeggio
import Cantilena.Proofs.Arpeggio.Rows
import Cantilena.Proofs.Note.Order
import Cantilena.Proofs.Progression.Rows
import Cantilena.Proofs.Scale.Triads

/-!
# The line of an arpeggio

The line of an arpeggio sounds step after step without a gap, through all degrees, and the block
chord of each degree lasts from its first step to the first one of the next degree.

* `Climbs`, `climbs_of_triadAt` -- the tones of a triad rise with the index, an octave for three;
* `Plays` -- the block chords and the lines of the degrees, one after the other;
* `playFrom_eq_ok` -- an arpeggio has notes where all its degrees have them;
* `Plays.line` -- where each note of the line stands;
* `Plays.sortNotes_eq` -- chords and line in order are the sorted chords beside the sorted line;
* `arpeggio_in_time` -- all of this for what is played.
-/

namespace Cantilena.Arpeggio

/-! ## 1. Tones -/

/-- Tones through which an index climbs: every index is higher than those below it, and three
    indices are an octave. -/
structure Climbs (tones : List Int) : Prop where
  rises : ∀ i j : Int, i < j → tone tones i < tone tones j
  octave : ∀ i : Int, tone tones (i + 3) = tone tones i + 12

theorem tone_triad (root third fifth index : Int) : tone [root, third, fifth] index
    = (if index % 3 = 0 then root else if index % 3 = 1 then third else fifth)
      + 12 * (index / 3) := by
  have hrange : index % 3 = 0 ∨ index % 3 = 1 ∨ index % 3 = 2 := by omega
  show [root, third, fifth].getD (index % 3).toNat 0 + 12 * (index / 3) = _
  rcases hrange with h | h | h <;> rw [h] <;> rfl

theorem climbs_of_triadAt {r : Registry} {key : List Char} {mode : String}
    {degree octave : Int} {tones : List Int} (h : r.triadAt key mode degree octave = .ok tones) :
    tones.length = 3 ∧ Climbs tones := by
  obtain ⟨root, t, rfl⟩ := Registry.of_triadAt_eq_ok h
  obtain ⟨third, fifth, htones, hthird, hfifth, hoctave⟩ := t.intervals_eq
  rw [htones]
  refine ⟨rfl, ⟨fun i j hij => ?_, fun i => ?_⟩⟩
  · simp only [List.map_cons, List.map_nil, tone_triad]
    omega
  · simp only [List.map_cons, List.map_nil, tone_triad]
    omega

/-! ## 2. The degrees one after the other -/

variable {r : Registry} {a : Arpeggio} {cursor : Int} {degrees : List Int}
  {parts : List (List Note × List Note)}

/-- The block chords and the lines of degrees from a tick on. -/
inductive Plays (r : Registry) (a : Arpeggio) :
    Int → List Int → List (List Note × List Note) → Prop
  | nil {cursor : Int} : Plays r a cursor [] []
  | cons {cursor degree : Int} {rest : List Int} {chord line : List Note}
      {parts : List (List Note × List Note)} (hchord : a.chordAt r cursor degree = .ok chord)
      (hline : a.lineAt r cursor degree = .ok line) (hrest : Plays r a (cursor + a.ticks) rest parts) :
      Plays r a cursor (degree :: rest) ((chord, line) :: parts)

/-- **An arpeggio has notes where all its degrees have them.** -/
theorem playFrom_eq_ok {notes : List Note} : a.playFrom r cursor degrees = .ok notes
    ↔ ∃ parts, notes = parts.flatMap (fun p => p.1 ++ p.2) ∧ Plays r a cursor degrees parts := by
  induction degrees generalizing cursor notes with
  | nil =>
    constructor
    · intro h
      obtain rfl := Except.ok.inj h
      exact ⟨[], rfl, .nil⟩
    · rintro ⟨parts, rfl, ⟨⟩⟩
      rfl
  | cons degree rest ih =>
    constructor
    · intro h
      obtain ⟨chord, hchord, h⟩ := bind_eq_ok.mp h
      obtain ⟨line, hline, h⟩ := bind_eq_ok.mp h
      obtain ⟨others, hothers, h⟩ := bind_eq_ok.mp h
      obtain ⟨parts, rfl, hparts⟩ := ih.mp hothers
      exact ⟨(chord, line) :: parts, (pure_eq_ok.mp h).symm, .cons hchord hline hparts⟩
    · rintro ⟨parts, rfl, hparts⟩
      cases hparts with
      | cons hchord hline hrest =>
        exact bind_eq_ok.mpr ⟨_, hchord, bind_eq_ok.mpr ⟨_, hline,
          bind_eq_ok.mpr ⟨_, ih.mpr ⟨_, rfl, hrest⟩, rfl⟩⟩⟩

/-- An arpeggio without its block chords. -/
def silenced (a : Arpeggio) : Arpeggio := { a with withChords := false }

/-- Without block chords the lines are as they were. -/
theorem Plays.silenced (h : Plays r a cursor degrees parts) :
    Plays r a.silenced cursor degrees (parts.map fun p => ([], p.2)) := by
  induction h with
  | nil => exact .nil
  | cons hchord hline hrest ih => exact .cons rfl hline ih

theorem Plays.length_eq (h : Plays r a cursor degrees parts) : parts.length = degrees.length := by
  induction h with
  | nil => rfl
  | cons hchord hline hrest ih => exact congrArg (· + 1) ih

/-- The part in a place is that of the degree in the same place, as many chords behind the first. -/
theorem Plays.getElem? (h : Plays r a cursor degrees parts) {k : Nat}
    {part : List Note × List Note} (hpart : parts[k]? = some part) :
    ∃ degree, degrees[k]? = some degree
      ∧ a.chordAt r (cursor + k * a.ticks) degree = .ok part.1
      ∧ a.lineAt r (cursor + k * a.ticks) degree = .ok part.2 := by
  induction h generalizing k with
  | nil => cases hpart
  | @cons cursor degree rest chord line parts hchord hline hrest ih =>
    cases k with
    | zero =>
      obtain rfl := Option.some.inj hpart
      rw [Int.natCast_zero, Int.zero_mul, Int.add_zero]
      exact ⟨degree, rfl, hchord, hline⟩
    | succ k =>
      have hstart : cursor + (k + 1 : Nat) * a.ticks = cursor + a.ticks + k * a.ticks := by
        rw [Int.natCast_succ, Int.add_mul, Int.one_mul]
        omega
      rw [hstart]
      exact ih hpart

/-! ## 3. The parts of a degree -/

/-- A block chord has the three tones of the triad, over all steps of the degree. -/
theorem of_chordAt_eq_ok {degree : Int} {chord : List Note} (hchords : a.withChords = true)
    (h : a.chordAt r cursor degree = .ok chord) :
    ∃ tones, r.triadAt a.key a.mode degree a.chordOctave = .ok tones ∧ chord.map Note.pitch = tones
      ∧ ∀ n ∈ chord, n.start = cursor ∧ n.length = a.ticks ∧ n.velocity = a.chordVelocity := by
  rw [chordAt, if_pos hchords] at h
  obtain ⟨tones, htones, h⟩ := bind_eq_ok.mp h
  obtain ⟨hpitches, hspan⟩ := together_eq_ok h
  exact ⟨tones, htones, hpitches, hspan⟩

/-- The line of a degree has one note for each step, with the tone of the index in the pattern. -/
theorem of_lineAt_eq_ok {degree : Int} {voice : List Note} (hpattern : a.pattern ≠ [])
    (h : a.lineAt r cursor degree = .ok voice) :
    voice.length = a.steps.toNat
      ∧ ∃ tones, r.triadAt a.key a.mode degree a.octave = .ok tones
        ∧ ∀ (i : Nat) n, voice[i]? = some n → n.start = cursor + i * a.stepLength
          ∧ n.length = a.stepLength ∧ n.velocity = a.velocity
          ∧ n.pitch = tone tones (a.indexAt i) := by
  rw [lineAt, if_neg (mt List.isEmpty_iff.mp hpattern)] at h
  obtain ⟨tones, htones, h⟩ := bind_eq_ok.mp h
  have hlength := length_of_mapM h
  rw [List.length_range] at hlength
  refine ⟨hlength, tones, htones, fun i n hn => ?_⟩
  have hi : i < a.steps.toNat := hlength ▸ (List.getElem?_eq_some_iff.mp hn).1
  have hmake := getElem?_of_mapM h i
  rw [List.getElem?_range hi, hn] at hmake
  obtain ⟨hpitch, hstart, hspan, hvelocity⟩ := Note.of_make_eq_ok (Option.some.inj hmake)
  exact ⟨hstart, hspan, hvelocity, hpitch⟩

/-! ## 4. The whole line -/

/-- An arpeggio with a pattern that takes `size` steps for each degree. -/
structure Takes (a : Arpeggio) (size : Nat) : Prop where
  pattern_ne_nil : a.pattern ≠ []
  size_pos : 0 < size
  steps_eq : a.steps = size
  stepLength_pos : 1 ≤ a.stepLength

variable {size : Nat}

theorem Takes.ticks_eq (ha : a.Takes size) : a.ticks = size * a.stepLength := by
  rw [ticks, ha.steps_eq]

theorem Takes.mul_stepLength_lt (ha : a.Takes size) {i j : Nat} (h : i < j) :
    (i : Int) * a.stepLength < j * a.stepLength :=
  Int.mul_lt_mul_of_pos_right (Int.ofNat_lt.mpr h) ha.stepLength_pos

namespace Plays

variable (ha : a.Takes size) (h : Plays r a cursor degrees parts)
include ha h

theorem length_of_mem : ∀ p ∈ parts, p.2.length = size := by
  intro p hp
  obtain ⟨k, hk⟩ := List.mem_iff_getElem?.mp hp
  obtain ⟨degree, -, -, hline⟩ := h.getElem? hk
  rw [(of_lineAt_eq_ok ha.pattern_ne_nil hline).1, ha.steps_eq, Int.toNat_natCast]

theorem length_line : (parts.flatMap Prod.snd).length = degrees.length * size := by
  rw [length_rows (h.length_of_mem ha), h.length_eq]

/-- **Where each note of the line stands**: so many steps behind the first one, on the degree and at
    the index of the pattern that are counted by division. -/
theorem line {j : Nat} {n : Note} (hn : (parts.flatMap Prod.snd)[j]? = some n) :
    n.start = cursor + j * a.stepLength ∧ n.length = a.stepLength ∧ n.velocity = a.velocity
      ∧ ∃ degree tones, degrees[j / size]? = some degree
        ∧ r.triadAt a.key a.mode degree a.octave = .ok tones
        ∧ n.pitch = tone tones (a.indexAt (j % size)) := by
  rw [getElem?_rows ha.size_pos (h.length_of_mem ha)] at hn
  obtain ⟨part, hpart, hn⟩ := Option.bind_eq_some_iff.mp hn
  obtain ⟨degree, hdegree, -, hline⟩ := h.getElem? hpart
  obtain ⟨-, tones, htones, hnotes⟩ := of_lineAt_eq_ok ha.pattern_ne_nil hline
  obtain ⟨hstart, hlength, hvelocity, hpitch⟩ := hnotes _ n hn
  refine ⟨?_, hlength, hvelocity, degree, tones, hdegree, htones, hpitch⟩
  have hj : (j : Int) = (j / size : Nat) * size + (j % size : Nat) := by
    have := Nat.div_add_mod' j size
    omega
  rw [hstart, ha.ticks_eq, hj, Int.add_mul, Int.mul_assoc, Int.add_assoc]

theorem pairwise_line : (parts.flatMap Prod.snd).Pairwise fun m n => m.comesBy n = true := by
  rw [List.pairwise_iff_getElem]
  intro i j hi hj hij
  have hfirst := (h.line ha (List.getElem?_eq_getElem hi)).1
  have hsecond := (h.line ha (List.getElem?_eq_getElem hj)).1
  have hstep := ha.mul_stepLength_lt hij
  exact comesBy_iff.mpr (.inl (by omega))

/-- The line is in order as it is. -/
theorem sortNotes_line : sortNotes (parts.flatMap Prod.snd) = parts.flatMap Prod.snd :=
  List.mergeSort_of_pairwise (h.pairwise_line ha)

/-- A line stops sounding before the next degree starts. -/
theorem start_lt {k : Nat} {part : List Note × List Note} (hpart : parts[k]? = some part) {n : Note}
    (hn : n ∈ part.2) : n.start < cursor + (k + 1 : Nat) * a.ticks := by
  obtain ⟨_, -, -, hline⟩ := h.getElem? hpart
  obtain ⟨hlength, _, -, hnotes⟩ := of_lineAt_eq_ok ha.pattern_ne_nil hline
  obtain ⟨i, hi⟩ := List.mem_iff_getElem?.mp hn
  have hsize : i < size := by
    have := (List.getElem?_eq_some_iff.mp hi).1
    rwa [hlength, ha.steps_eq, Int.toNat_natCast] at this
  have hstep := ha.mul_stepLength_lt hsize
  rw [← ha.ticks_eq] at hstep
  rw [(hnotes i n hi).1, Int.natCast_succ, Int.add_mul, Int.one_mul]
  omega

/-- **Chords and line in order** are the chords and behind them the line, sorted. -/
theorem sortNotes_eq (hchords : a.withChords = true) :
    sortNotes (parts.flatMap fun p => p.1 ++ p.2)
      = sortNotes (parts.flatMap Prod.fst ++ parts.flatMap Prod.snd) := by
  refine order_comesBy.mergeSort_interleaved ?_
  rw [List.pairwise_iff_getElem]
  intro i j hi hj hij m hm n hn
  obtain ⟨_, -, hchord, -⟩ := h.getElem? (List.getElem?_eq_getElem hj)
  obtain ⟨_, -, -, hspan⟩ := of_chordAt_eq_ok hchords hchord
  have hbefore := h.start_lt ha (List.getElem?_eq_getElem hi) hm
  have hticks : 0 ≤ a.ticks := by
    rw [ha.ticks_eq]
    exact Int.mul_nonneg (Int.natCast_nonneg size) (Int.le_trans (by decide) ha.stepLength_pos)
  have hlater : ((i + 1 : Nat) : Int) * a.ticks ≤ j * a.ticks :=
    Int.mul_le_mul_of_nonneg_right (Int.ofNat_le.mpr hij) hticks
  have hstart := (hspan n hn).1
  rw [Bool.eq_false_iff, Ne, comesBy_iff]
  omega

end Plays

/-! ## 5. What is played -/

theorem play_eq_ok {notes : List Note} : a.play r degrees = .ok notes
    ↔ 1 ≤ a.stepLength ∧ 1 ≤ a.rounds
      ∧ ∃ parts, Plays r a 0 degrees parts
        ∧ notes = sortNotes (parts.flatMap fun p => p.1 ++ p.2) := by
  rw [play, refuse_eq_ok, refuse_eq_ok, map_eq_ok]
  simp only [playFrom_eq_ok]
  constructor
  · rintro ⟨hstep, hrounds, _, ⟨parts, rfl, hparts⟩, rfl⟩
    exact ⟨by omega, by omega, parts, hparts, rfl⟩
  · rintro ⟨hstep, hrounds, parts, hparts, rfl⟩
    exact ⟨by omega, by omega, _, ⟨parts, rfl, hparts⟩, rfl⟩

theorem takes_of_play {notes : List Note} (hpattern : a.pattern ≠ [])
    (h : a.play r degrees = .ok notes) :
    ∃ size : Nat, (size : Int) = a.pattern.length * a.rounds ∧ a.Takes size := by
  obtain ⟨hstep, hrounds, -⟩ := play_eq_ok.mp h
  obtain ⟨rounds, hnat⟩ := Int.eq_ofNat_of_zero_le (Int.le_trans (by decide) hrounds)
  have hsize : ((a.pattern.length * rounds : Nat) : Int) = a.pattern.length * a.rounds := by
    rw [hnat, Int.natCast_mul]
  refine ⟨a.pattern.length * rounds, hsize, hpattern, Nat.mul_pos ?_ (by omega), ?_, hstep⟩
  · exact Nat.pos_of_ne_zero (mt List.length_eq_zero_iff.mp hpattern)
  · rw [steps, if_neg (mt List.isEmpty_iff.mp hpattern), hsize]

/-- Without block chords the line is played alone. -/
theorem play_silenced {size : Nat} (ha : a.Takes size) (hrounds : 1 ≤ a.rounds)
    (h : Plays r a 0 degrees parts) : a.silenced.play r degrees = .ok (parts.flatMap Prod.snd) := by
  refine play_eq_ok.mpr ⟨ha.stepLength_pos, hrounds, _, h.silenced, ?_⟩
  rw [List.flatMap_map]
  exact (h.sortNotes_line ha).symm

/-- **The line of an arpeggio tiles time.** An arpeggio with a pattern that is played takes the steps
    of all rounds of the pattern for each degree. Without block chords it is a line with one note
    for each step: each starts where the one before it stops, and has the tone of its place in the
    pattern, on the triad of its degree, through which the index climbs. With block chords it is
    the chords and behind them that line, put in the order of starts and pitches; the chord of a
    degree has the three tones of its triad, which sound together from the first step of the degree
    until the first one of the next. -/
theorem arpeggio_in_time (hpattern : a.pattern ≠ []) {notes : List Note}
    (h : a.play r degrees = .ok notes) :
    ∃ (size : Nat) (voice : List Note), (size : Int) = a.pattern.length * a.rounds ∧ 0 < size
      ∧ a.silenced.play r degrees = .ok voice
      ∧ voice.length = degrees.length * size
      ∧ (∀ (j : Nat) (n : Note), voice[j]? = some n →
          n.start = j * a.stepLength ∧ n.length = a.stepLength ∧ n.velocity = a.velocity
          ∧ ∃ degree tones, degrees[j / size]? = some degree
            ∧ r.triadAt a.key a.mode degree a.octave = .ok tones ∧ Climbs tones
            ∧ n.pitch = tone tones (a.pattern.getD (j % size % a.pattern.length) 0))
      ∧ (a.withChords = false → notes = voice)
      ∧ (a.withChords = true → ∃ chords : List (List Note),
          chords.length = degrees.length
          ∧ notes = sortNotes (chords.flatten ++ voice)
          ∧ notes.Pairwise (fun m n => m.start < n.start ∨ m.start = n.start ∧ m.pitch ≤ n.pitch)
          ∧ ∀ (k : Nat) (chord : List Note), chords[k]? = some chord → chord.length = 3
            ∧ (∃ degree, degrees[k]? = some degree
              ∧ r.triadAt a.key a.mode degree a.chordOctave = .ok (chord.map Note.pitch))
            ∧ ∀ n ∈ chord, n.start = k * (size * a.stepLength)
              ∧ n.stop = (k + 1) * (size * a.stepLength) ∧ n.velocity = a.chordVelocity) := by
  obtain ⟨size, hsize, ha⟩ := takes_of_play hpattern h
  obtain ⟨-, hrounds, parts, hparts, rfl⟩ := play_eq_ok.mp h
  have hline := play_silenced ha hrounds hparts
  refine ⟨size, parts.flatMap Prod.snd, hsize, ha.size_pos, hline, hparts.length_line ha,
    fun j n hn => ?_, fun hchords => ?_, fun hchords => ?_⟩
  · obtain ⟨hstart, hlength, hvelocity, degree, tones, hdegree, htones, hpitch⟩ := hparts.line ha hn
    rw [Int.zero_add] at hstart
    exact ⟨hstart, hlength, hvelocity, degree, tones, hdegree, htones, (climbs_of_triadAt htones).2,
      hpitch⟩
  · have hsame : a.silenced = a := by
      rw [silenced, ← hchords]
    rw [hsame] at hline
    exact Except.ok.inj (h.symm.trans hline)
  · refine ⟨parts.map Prod.fst, (List.length_map _).trans hparts.length_eq, ?_, ?_, fun k chord hk => ?_⟩
    · rw [← List.flatMap_def]
      exact hparts.sortNotes_eq ha hchords
    · exact (order_comesBy.pairwise_mergeSort _).imp comesBy_iff.mp
    · rw [List.getElem?_map] at hk
      obtain ⟨part, hpart, rfl⟩ := Option.map_eq_some_iff.mp hk
      obtain ⟨degree, hdegree, hchord, -⟩ := hparts.getElem? hpart
      obtain ⟨tones, htones, rfl, hspan⟩ := of_chordAt_eq_ok hchords hchord
      have hthree := (climbs_of_triadAt htones).1
      rw [List.length_map] at hthree
      refine ⟨hthree, ⟨degree, hdegree, htones⟩, fun n hn => ?_⟩
      obtain ⟨hstart, hlength, hvelocity⟩ := hspan n hn
      rw [← ha.ticks_eq, Note.stop, hstart, hlength, Int.zero_add, Int.add_mul, Int.one_mul]
      exact ⟨rfl, rfl, hvelocity⟩

/-- Two rounds of a pattern that goes below its triad and above it, on two degrees. -/
def twoRounds : Arpeggio := { pattern := [0, -1, 4], rounds := 2, stepLength := 3 }

theorem arpeggio_in_time_twoRounds :
    ∃ notes line, twoRounds.play Registry.builtin [0, -2] = .ok notes
      ∧ twoRounds.silenced.play Registry.builtin [0, -2] = .ok line ∧ line.length = 12
      ∧ ∃ chords : List (List Note), chords.length = 2 ∧ notes = sortNotes (chords.flatten ++ line) := by
  have hpattern : twoRounds.pattern ≠ [] := by decide
  have hplay : ∃ notes, twoRounds.play Registry.builtin [0, -2] = .ok notes := by
    have hok : (twoRounds.playFrom Registry.builtin 0 [0, -2]).isOk = true := by decide +kernel
    rw [play, if_neg (by decide), if_neg (by decide), exists_map_eq_ok]
    cases hfrom : twoRounds.playFrom Registry.builtin 0 [0, -2] with
    | ok notes => exact ⟨notes, rfl⟩
    | error cause =>
      rw [hfrom] at hok
      cases hok
  obtain ⟨notes, hnotes⟩ := hplay
  obtain ⟨size, line, hsize, -, hline, hlength, -, -, hchords⟩ := arpeggio_in_time hpattern hnotes
  obtain rfl : size = 6 := Int.ofNat.inj hsize
  obtain ⟨chords, hcount, hsorted, -⟩ := hchords rfl
  exact ⟨notes, line, hnotes, hline, hlength, chords, hcount, hsorted⟩

end Cantilena.Arpeggio
