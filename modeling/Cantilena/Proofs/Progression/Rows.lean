import Cantilena.Progression.Block
import Cantilena.Proofs.Outcome

/-!
# Block chords in rows

The block chords of a progression fall into rows, one for each entry. The notes of a row start
together where the bars in front of the entry end, and last as long as the entry.

* `barsBefore`, `tickBefore` -- the bars in front of an entry, and the tick at which they end;
* `together_eq_ok` -- the notes of pitches that start together;
* `Entry.Sounds` -- a row of notes that is the block chord of an entry;
* `exists_rows` -- the notes of a progression are such rows, one behind the other.
-/

namespace Cantilena

/-! ## 1. Bars -/

/-- The number of bars in front of the entry of a number. -/
def barsBefore (entries : List Entry) (i : Nat) : Nat := ((entries.take i).map Entry.bars).sum

theorem barsBefore_zero (entries : List Entry) : barsBefore entries 0 = 0 := rfl

theorem barsBefore_cons_succ (e : Entry) (rest : List Entry) (i : Nat) :
    barsBefore (e :: rest) (i + 1) = e.bars + barsBefore rest i := rfl

/-- Every bar is one of an entry. -/
theorem exists_entry_of_lt {entries : List Entry} {bar : Nat}
    (h : bar < (entries.map Entry.bars).sum) :
    ∃ i < entries.length, barsBefore entries i ≤ bar ∧ bar < barsBefore entries (i + 1) := by
  induction entries generalizing bar with
  | nil => exact absurd h (Nat.not_lt_zero bar)
  | cons e rest ih =>
    rw [List.map_cons, List.sum_cons] at h
    rcases Nat.lt_or_ge bar e.bars with hbar | hbar
    · exact ⟨0, Nat.succ_pos _, Nat.zero_le _, hbar⟩
    · have hrest : bar - e.bars < (rest.map Entry.bars).sum := by omega
      obtain ⟨i, hi, hfirst, hlast⟩ := ih hrest
      refine ⟨i + 1, Nat.succ_lt_succ hi, ?_⟩
      rw [barsBefore_cons_succ, barsBefore_cons_succ]
      omega

/-- A bar of an entry has the chord of the entry. -/
theorem barChords_getD {entries : List Entry} {i bar : Nat} (hi : i < entries.length)
    (hfirst : barsBefore entries i ≤ bar) (hlast : bar < barsBefore entries (i + 1)) :
    (barChords entries).getD bar none = Chord.ofSymbol? entries[i].chord := by
  induction entries generalizing i bar with
  | nil => cases hi
  | cons e rest ih =>
    have hlength : (List.replicate e.bars (Chord.ofSymbol? e.chord)).length = e.bars :=
      List.length_replicate
    have hbars : barChords (e :: rest)
        = List.replicate e.bars (Chord.ofSymbol? e.chord) ++ barChords rest := List.flatMap_cons
    rw [hbars, List.getD_eq_getElem?_getD]
    cases i with
    | zero =>
      have hbar : bar < e.bars := hlast
      rw [List.getElem?_append_left (by omega), List.getElem?_replicate, if_pos hbar]
      rfl
    | succ i =>
      rw [barsBefore_cons_succ] at hfirst hlast
      rw [List.getElem?_append_right (by omega), hlength, ← List.getD_eq_getElem?_getD]
      exact ih (by simpa using hi) (by omega) (by omega)

/-! ## 2. Rows -/

/-- Notes that are made to start together have the pitches they are made of. -/
theorem together_eq_ok {start length velocity : Int} {pitches : List Int} {notes : List Note}
    (h : (pitches.mapM fun p => Note.make p start length velocity) = .ok notes) :
    notes.map Note.pitch = pitches
      ∧ ∀ n ∈ notes, n.start = start ∧ n.length = length ∧ n.velocity = velocity := by
  refine ⟨map_of_mapM (fun pitch n hn => (Note.of_make_eq_ok hn).1) h, fun n hn => ?_⟩
  obtain ⟨pitch, -, hmake⟩ := exists_of_mem_mapM h hn
  exact (Note.of_make_eq_ok hmake).2

/-- The notes of pitches that start together have those of the pitches that notes can have. -/
theorem chordNotes_eq_ok {start length velocity : Int} {pitches : List Int} {notes : List Note}
    (h : chordNotes start length velocity pitches = .ok notes) :
    notes.map Note.pitch = pitches.filter Pitch.playable
      ∧ ∀ n ∈ notes, n.start = start ∧ n.length = length ∧ n.velocity = velocity :=
  together_eq_ok h

/-- A row of notes that is the block chord of an entry between two ticks: it has the pitches of the
    entry as far as notes can have them, and all its notes last from the one tick to the other. -/
structure Entry.Sounds (octave velocity first last : Int) (e : Entry) (row : List Note) : Prop where
  tones : ∃ pitches, (e.tones octave).outcome = .ok pitches
    ∧ row.map Note.pitch = pitches.filter Pitch.playable
  starts : ∀ n ∈ row, n.start = first
  stops : ∀ n ∈ row, n.stop = last
  velocities : ∀ n ∈ row, n.velocity = velocity

/-- The tick at which the bars in front of the entry of a number end. -/
def tickBefore (ticksPerBar : Int) (entries : List Entry) (i : Nat) : Int :=
  barsBefore entries i * ticksPerBar

theorem tickBefore_zero (ticksPerBar : Int) (entries : List Entry) :
    tickBefore ticksPerBar entries 0 = 0 := by
  rw [tickBefore, barsBefore_zero, Int.natCast_zero, Int.zero_mul]

theorem tickBefore_cons_succ (ticksPerBar : Int) (e : Entry) (rest : List Entry) (i : Nat) :
    tickBefore ticksPerBar (e :: rest) (i + 1)
      = e.bars * ticksPerBar + tickBefore ticksPerBar rest i := by
  rw [tickBefore, barsBefore_cons_succ, Int.natCast_add, Int.add_mul, tickBefore]

/-- **Block chords fall into rows, one for each entry**, and every entry lasts until the next one
    starts. -/
theorem exists_rows {octave ticksPerBar velocity cursor : Int} {entries : List Entry}
    {notes : List Note}
    (h : (blockChordsFrom octave ticksPerBar velocity cursor entries).outcome = .ok notes) :
    ∃ rows : List (List Note), notes = rows.flatten ∧ rows.length = entries.length
      ∧ ∀ i (hi : i < entries.length), entries[i].Sounds octave velocity
          (cursor + tickBefore ticksPerBar entries i)
          (cursor + tickBefore ticksPerBar entries (i + 1)) (rows.getD i []) := by
  induction entries generalizing cursor notes with
  | nil =>
    obtain rfl := Except.ok.inj h
    exact ⟨[], rfl, rfl, fun i hi => absurd hi (Nat.not_lt_zero i)⟩
  | cons e rest ih =>
    rw [blockChordsFrom] at h
    obtain ⟨length, hlength, h⟩ := Logged.bind_outcome_eq_ok.mp h
    obtain rfl : (e.bars : Int) * ticksPerBar = length := Except.ok.inj hlength
    obtain ⟨pitches, hpitches, h⟩ := Logged.bind_outcome_eq_ok.mp h
    obtain ⟨row, hrow, h⟩ := Logged.bind_outcome_eq_ok.mp h
    obtain ⟨next, hnext, h⟩ := Logged.bind_outcome_eq_ok.mp h
    obtain rfl : cursor + (e.bars : Int) * ticksPerBar = next := Except.ok.inj hnext
    obtain ⟨others, hothers, h⟩ := Logged.bind_outcome_eq_ok.mp h
    obtain rfl := Except.ok.inj h
    obtain ⟨rows, rfl, hcount, hrows⟩ := ih hothers
    obtain ⟨hmap, hspan⟩ := chordNotes_eq_ok hrow
    have htick (i : Nat) : cursor + tickBefore ticksPerBar (e :: rest) (i + 1)
        = cursor + e.bars * ticksPerBar + tickBefore ticksPerBar rest i := by
      rw [tickBefore_cons_succ, Int.add_assoc]
    refine ⟨row :: rows, rfl, congrArg (· + 1) hcount, fun i hi => ?_⟩
    cases i with
    | zero =>
      rw [htick, tickBefore_zero, tickBefore_zero, Int.add_zero, Int.add_zero]
      refine ⟨⟨pitches, hpitches, hmap⟩, fun n hn => (hspan n hn).1, fun n hn => ?_,
        fun n hn => (hspan n hn).2.2⟩
      obtain ⟨hfirst, hlength, -⟩ := hspan n hn
      rw [Note.stop, hfirst, hlength]
    | succ i =>
      rw [htick, htick]
      exact hrows i (by simpa using hi)

end Cantilena
