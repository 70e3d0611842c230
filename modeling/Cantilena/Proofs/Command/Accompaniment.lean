import Cantilena.Command
import Cantilena.Proofs.Melody.Origin
import Cantilena.Proofs.Melody.Pick
import Cantilena.Proofs.Progression.Rows

/-!
# A melody and its chords

The command writes the block chords of a progression behind the melody over it. The chords start
with the first tick, the melody with the first tick of its start bar, so that the bars of both
coincide only where the start bar is the first one.

* `Composer.within_chord` -- when a note of a bar starts while the chord of the bar sounds;
* `Accompanies` -- a melody and rows of chords over one progression;
* `exists_accompanied` -- what the command writes is such a melody with its chords.
-/

namespace Cantilena

namespace Composer

variable {c : Composer Int} {P : Int → Prop} {entries : List Entry} {i b : Nat} {n : Note}

/-- A note of a bar starts within the bar of this number from the start bar on. -/
theorem Shaped.ticks (h : c.Shaped P b n) :
    (c.params.frame.startBar + b) * c.stepsPerBar ≤ n.start
      ∧ n.start < (c.params.frame.startBar + b + 1) * c.stepsPerBar := by
  have hlast : n.start < (c.params.frame.startBar + (b + 1 : Int)) * c.stepsPerBar := h.start_lt
  rw [← Int.add_assoc] at hlast
  exact ⟨h.start_ge, hlast⟩

/-- A note of a bar starts no earlier than the chord of the bar, and later by the bars in front of
    the start bar at most. -/
theorem start_between (h : c.Shaped P b n) (hfirst : barsBefore entries i ≤ b)
    (hlast : b < barsBefore entries (i + 1)) :
    tickBefore c.stepsPerBar entries i + c.params.frame.startBar * c.stepsPerBar ≤ n.start
      ∧ n.start < tickBefore c.stepsPerBar entries (i + 1)
          + c.params.frame.startBar * c.stepsPerBar := by
  obtain ⟨hge, hlt⟩ := h.ticks
  have hlow := c.ticks_mono
    (by omega : (barsBefore entries i : Int) + c.params.frame.startBar
      ≤ c.params.frame.startBar + b)
  have hhigh := c.ticks_mono
    (by omega : c.params.frame.startBar + b + 1
      ≤ (barsBefore entries (i + 1) : Int) + c.params.frame.startBar)
  rw [Int.add_mul] at hlow
  rw [Int.add_mul (barsBefore entries (i + 1) : Int)] at hhigh
  exact ⟨Int.le_trans hlow hge, Int.lt_of_lt_of_le hlt hhigh⟩

/-- **A note of a bar starts while the chord of the bar sounds** just where the bars in front of the
    start bar do not carry the bar beyond the last one of the chord. -/
theorem within_chord (h : c.Shaped P b n) (hfirst : barsBefore entries i ≤ b) :
    (tickBefore c.stepsPerBar entries i ≤ n.start
        ∧ n.start < tickBefore c.stepsPerBar entries (i + 1))
      ↔ c.params.frame.startBar + b < barsBefore entries (i + 1) := by
  have hstart : ¬ c.params.frame.startBar < 0 := c.params.frame.startBar_ok
  obtain ⟨hge, hlt⟩ := h.ticks
  constructor
  · rintro ⟨-, hbefore⟩
    -- a bar behind the chord would start no earlier than the chord ends
    refine Int.not_le.mp fun hbehind => ?_
    have hend := c.ticks_mono hbehind
    exact absurd (Int.lt_of_lt_of_le hbefore (Int.le_trans hend hge)) (Int.lt_irrefl _)
  · intro hbar
    have hlow := c.ticks_mono
      (by omega : (barsBefore entries i : Int) ≤ c.params.frame.startBar + b)
    have hhigh := c.ticks_mono
      (by omega : c.params.frame.startBar + b + 1 ≤ (barsBefore entries (i + 1) : Int))
    exact ⟨Int.le_trans hlow hge, Int.lt_of_lt_of_le hlt hhigh⟩

end Composer

/-- A melody that a composer has written over a progression, and rows of notes that are the block
    chords of its entries one behind the other. -/
structure Accompanies (c : Composer Int) (entries : List Entry) (rows : List (List Note))
    (melody : List Note) : Prop where
  /-- Every note of the melody is written for a bar of an entry, over the chord of this entry. -/
  written : ∀ n ∈ melody, ∃ (i : Nat) (hi : i < entries.length) (b : Nat),
    (barsBefore entries i ≤ b ∧ b < barsBefore entries (i + 1))
      ∧ c.Writes Twister.source (Chord.ofSymbol? entries[i].chord, (b : Int)) n
  count : rows.length = entries.length
  /-- Every entry sounds from where the bars in front of it end until the next one starts. -/
  sounds : ∀ i (hi : i < entries.length), entries[i].Sounds Command.chordOctave Note.chordVelocity
    (tickBefore c.stepsPerBar entries i) (tickBefore c.stepsPerBar entries (i + 1))
    (rows.getD i [])

/-- What a composer writes over a progression goes with the block chords of this progression. -/
theorem accompanies {p : Params Int} {entries : List Entry} {c : Composer Int}
    (hc : (composerFor Registry.builtin p entries).outcome = .ok c) {twister : Twister}
    {melody chords : List Note} (hmelody : ((c.compose Twister.source).run twister).1 = .ok melody)
    (hchords : (blockChords entries Command.chordOctave p.frame.stepsPerBar
      Note.chordVelocity).outcome = .ok chords) :
    ∃ rows : List (List Note), chords = rows.flatten ∧ Accompanies c entries rows melody := by
  obtain ⟨rfl, hbars⟩ := of_composerFor_eq_ok hc
  obtain ⟨rows, rfl, hcount, hsounds⟩ := exists_rows hchords
  refine ⟨rows, rfl, fun n hn => ?_, hcount, fun i hi => ?_⟩
  · have hwritten := Yields.of_run (Composer.yields_written Twister.alwaysPicks_source)
      (Prod.ext hmelody rfl)
    obtain ⟨b, hb, hwrites⟩ := hwritten n hn
    rw [hbars, length_barChords] at hb
    obtain ⟨i, hi, hfirst, hlast⟩ := exists_entry_of_lt hb
    rw [hbars, barChords_getD hi hfirst hlast] at hwrites
    exact ⟨i, hi, b, ⟨hfirst, hlast⟩, hwrites⟩
  · have hrow := hsounds i hi
    rw [Int.zero_add, Int.zero_add] at hrow
    exact hrow

namespace Command

/-- What runs behind a step that is not always made comes to its result by itself. -/
theorem of_ite_bind {α : Type} {c : Prop} [Decidable c] {step : Logged PUnit} {x : Logged α}
    {a : α} (h : (if c then step >>= fun _ => x else x).outcome = .ok a) : x.outcome = .ok a := by
  split at h
  · exact (Logged.bind_outcome_eq_ok.mp h).choose_spec.2
  · exact h

/-- The best melody of a task is one that a composer has composed. -/
theorem isComposed_best {σ : Type} {t : ComposeTask} {chance : Chance σ} {entries : List Entry}
    {p : Params Int} {best : Candidate Note} (h : (t.best chance entries p).outcome = .ok best) :
    best.IsComposed Registry.builtin p entries := by
  obtain ⟨count, -, h⟩ := Logged.bind_outcome_eq_ok.mp h
  have h := of_ite_bind h
  cases hkeep : t.keep with
  | none =>
    rw [hkeep] at h
    obtain ⟨_, -, h⟩ := Logged.bind_outcome_eq_ok.mp h
    cases h
  | some keep =>
    rw [hkeep] at h
    obtain ⟨⟨picked, state⟩, hpicked, h⟩ := Logged.bind_outcome_eq_ok.mp h
    obtain rfl := Except.ok.inj h
    exact isComposed_bestMelody hpicked

/-- The notes of a task with chords are the best melody and the block chords behind it. -/
theorem sheet_eq_ok {σ : Type} {t : ComposeTask} (hchords : t.withChords = true)
    {chance : Chance σ} {s : Settings} {progression : String} {entries : List Entry}
    (hentries : readProgression progression.toList s.beatsPerBar = .ok entries)
    {counting : Entries} {params : Params Amount}
    (hparams : (melodyParams Registry.builtin s.melody (some (.int s.beatsPerBar))
      (t.seed.map seedValue)).outcome = .ok (counting, params))
    {p : Params Int} (hp : params.whole? = some p) {sheet : Sheet} :
    (t.sheet chance s progression).outcome = .ok (some sheet) ↔ entries.isEmpty = false ∧
        ∃ (best : Candidate Note) (chords : List Note),
          (t.best chance entries p).outcome = .ok best
            ∧ (blockChords entries chordOctave p.frame.stepsPerBar Note.chordVelocity).outcome
                = .ok chords
            ∧ sheet = .onGrid (best.events ++ chords) := by
  unfold ComposeTask.sheet
  rw [hentries, Logged.bind_outcome_eq_ok]
  constructor
  · rintro ⟨_, hread, h⟩
    obtain rfl := Except.ok.inj hread
    cases hempty : entries.isEmpty with
    | true =>
      rw [hempty] at h
      obtain ⟨_, -, h⟩ := Logged.bind_outcome_eq_ok.mp h
      cases h
    | false =>
      rw [hempty] at h
      obtain ⟨_, hread, h⟩ := Logged.bind_outcome_eq_ok.mp h
      obtain rfl := Except.ok.inj (hparams.symm.trans hread)
      simp only [hp] at h
      obtain ⟨notes, hnotes, h⟩ := Logged.bind_outcome_eq_ok.mp h
      obtain rfl := Option.some.inj (Except.ok.inj h)
      obtain ⟨best, hbest, hnotes⟩ := Logged.bind_outcome_eq_ok.mp hnotes
      obtain ⟨_, -, hnotes⟩ := Logged.bind_outcome_eq_ok.mp hnotes
      rw [melodyWithChords, if_pos hchords] at hnotes
      obtain ⟨chords, hblock, hnotes⟩ := Logged.bind_outcome_eq_ok.mp hnotes
      obtain rfl := Except.ok.inj hnotes
      exact ⟨rfl, best, chords, hbest, hblock, rfl⟩
  · rintro ⟨hempty, best, chords, hbest, hblock, rfl⟩
    refine ⟨entries, rfl, ?_⟩
    simp only [hempty]
    refine Logged.bind_outcome_eq_ok.mpr ⟨_, hparams, ?_⟩
    simp only [hp]
    refine Logged.bind_outcome_eq_ok.mpr ⟨best.events ++ chords, ?_, rfl⟩
    refine Logged.bind_outcome_eq_ok.mpr ⟨best, hbest, ?_⟩
    refine Logged.bind_outcome_eq_ok.mpr ⟨(), rfl, ?_⟩
    rw [melodyWithChords, if_pos hchords]
    exact Logged.bind_outcome_eq_ok.mpr ⟨chords, hblock, rfl⟩

/-- **The bars of a melody are those of its chords, moved by the start bar.** What the command
    writes for a progression with chords is a melody and behind it the block chord of every entry.
    A note that is written for a bar starts in this bar counted from the start bar on, where the
    chords count theirs from the first tick. So it starts while the chord of its bar sounds just
    where the start bar does not carry the bar beyond the last one of the entry, as it never does
    with the first bar as start bar. -/
theorem melody_over_chords {σ : Type} {t : ComposeTask} (hchords : t.withChords = true)
    {chance : Chance σ} {s : Settings} {progression : String} {entries : List Entry}
    (hentries : readProgression progression.toList s.beatsPerBar = .ok entries)
    {counting : Entries} {params : Params Amount}
    (hparams : (melodyParams Registry.builtin s.melody (some (.int s.beatsPerBar))
      (t.seed.map seedValue)).outcome = .ok (counting, params))
    {p : Params Int} (hp : params.whole? = some p) {notes : List Note}
    (h : (t.sheet chance s progression).outcome = .ok (some (.onGrid notes))) :
    ∃ (best : Candidate Note) (c : Composer Int) (rows : List (List Note)),
      (composerFor Registry.builtin { p with seed := best.seed } entries).outcome = .ok c
        ∧ (∃ twister, ((c.compose Twister.source).run twister).1 = .ok best.events)
        ∧ notes = best.events ++ rows.flatten ∧ Accompanies c entries rows best.events
        ∧ ∀ (i b : Nat) (n : Note), barsBefore entries i ≤ b → b < barsBefore entries (i + 1) →
          c.Writes Twister.source ((barChords entries).getD b none, (b : Int)) n →
          (tickBefore c.stepsPerBar entries i + p.frame.startBar * c.stepsPerBar ≤ n.start
            ∧ n.start < tickBefore c.stepsPerBar entries (i + 1)
                + p.frame.startBar * c.stepsPerBar)
          ∧ ((tickBefore c.stepsPerBar entries i ≤ n.start
              ∧ n.start < tickBefore c.stepsPerBar entries (i + 1))
            ↔ p.frame.startBar + b < barsBefore entries (i + 1)) := by
  obtain ⟨-, best, chords, hbest, hblock, hsheet⟩ :=
    (sheet_eq_ok hchords hentries hparams hp).mp h
  obtain rfl : notes = best.events ++ chords := Sheet.onGrid.inj hsheet
  obtain ⟨c, twister, hc, hmelody⟩ := isComposed_best hbest
  obtain ⟨rows, rfl, hrows⟩ := accompanies hc hmelody hblock
  refine ⟨best, c, rows, hc, ⟨twister, hmelody⟩, rfl, hrows, fun i b n hfirst hlast hn => ?_⟩
  have hshaped := hn.shaped Twister.alwaysPicks_source (Int.natCast_nonneg b)
  have hparams := (of_composerFor_eq_ok hc).1
  have hbetween := Composer.start_between hshaped hfirst hlast
  have hwithin := Composer.within_chord hshaped hfirst
  rw [hparams] at hbetween hwithin
  exact ⟨hbetween, hwithin⟩

/-- A task for one melody with chords. -/
def oneMelody : ComposeTask :=
  { seed := some (some 3), candidates := some 1, keep := some 1, withChords := true }

/-- Settings with a melody from the second bar on. -/
def secondBarSettings : Settings := { melody := [(.text "start_bar", .int 1)] }

/-- The settings of this melody. -/
def fromSecondBar : Params Int :=
  { seed := .whole 3, frame := { Frame.start with startBar := 1, startBar_ok := by decide } }

/-- One bar of C major. -/
def barOfC : List Entry := [⟨['C'], 1, Nat.one_pos⟩]

theorem exists_params_secondBar : ∃ (counting : Entries) (params : Params Amount),
    (melodyParams Registry.builtin secondBarSettings.melody
      (some (.int secondBarSettings.beatsPerBar)) (oneMelody.seed.map seedValue)).outcome
        = .ok (counting, params) ∧ params.whole? = some fromSecondBar := by
  have hsettings : ((melodyParams Registry.builtin secondBarSettings.melody
      (some (.int secondBarSettings.beatsPerBar))
      (oneMelody.seed.map seedValue)).outcome.toOption.bind fun x => x.2.whole?)
        = some fromSecondBar := by rfl
  obtain ⟨⟨counting, params⟩, hparams, hp⟩ := Option.bind_eq_some_iff.mp hsettings
  exact ⟨counting, params, toOption_eq_some.mp hparams, hp⟩

theorem exists_best_secondBar : ∃ best : Candidate Note,
    (oneMelody.best ⟨Source.fixed 0.5, (), 0⟩ barOfC fromSecondBar).outcome = .ok best := by
  have hadmitted : fromSecondBar.Admitted Registry.builtin :=
    ⟨(Params.admitted_start Registry.builtin).mode, fun _ h => by cases h⟩
  have hfew : ((barOfC.map Entry.bars).sum : Int) * fromSecondBar.frame.stepsPerBar < 2 ^ 50 := by
    decide
  obtain ⟨⟨best, state⟩, hbest⟩ := exists_bestMelody .builtin hadmitted hfew
    (Source.alwaysPicks_fixed 0.5) (n := 3) rfl (by decide +kernel) () 1 0
  refine ⟨best, Logged.bind_outcome_eq_ok.mpr ⟨1, rfl, ?_⟩⟩
  refine Logged.bind_outcome_eq_ok.mpr ⟨(), rfl, ?_⟩
  exact Logged.bind_outcome_eq_ok.mpr ⟨(best, state), hbest, rfl⟩

/-- A melody from the second bar on over one bar of C major: it starts where the chord ends. -/
theorem melody_over_chords_second_bar : ∃ (notes : List Note) (best : Candidate Note)
      (c : Composer Int) (rows : List (List Note)),
    (oneMelody.sheet ⟨Source.fixed 0.5, (), 0⟩ secondBarSettings "C").outcome
        = .ok (some (.onGrid notes))
      ∧ notes = best.events ++ rows.flatten ∧ Accompanies c barOfC rows best.events
      ∧ (∀ n ∈ rows.getD 0 [], n.start = 0 ∧ n.stop = 16) ∧ ∀ n ∈ best.events, 16 ≤ n.start := by
  have hread : readProgression "C".toList 4 = .ok barOfC :=
    toOption_eq_some.mp (by decide +kernel)
  obtain ⟨counting, params, hparams, hp⟩ := exists_params_secondBar
  obtain ⟨best, hpick⟩ := exists_best_secondBar
  have hblock : ((blockChords barOfC chordOctave fromSecondBar.frame.stepsPerBar Note.chordVelocity
      : Logged (List Note)).outcome.toOption).isSome = true := by decide +kernel
  obtain ⟨chords, hchords⟩ := Option.isSome_iff_exists.mp hblock
  have hsheet := (sheet_eq_ok rfl hread hparams hp).mpr
    ⟨rfl, best, chords, hpick, toOption_eq_some.mp hchords, rfl⟩
  obtain ⟨best', c, rows, hc, -, hnotes, hrows, hspan⟩ :=
    melody_over_chords rfl hread hparams hp hsheet
  have hframe : c.params.frame = fromSecondBar.frame := by rw [(of_composerFor_eq_ok hc).1]
  have hsteps : c.stepsPerBar = 16 := by
    show c.params.frame.stepsPerBar = 16
    rw [hframe]
    rfl
  refine ⟨_, best', c, rows, hsheet, hnotes, hrows, fun n hn => ?_, fun n hn => ?_⟩
  · have hrow := hrows.sounds 0 Nat.one_pos
    rw [hsteps] at hrow
    exact ⟨hrow.starts n hn, hrow.stops n hn⟩
  · obtain ⟨i, hi, b, ⟨hfirst, hlast⟩, hwrites⟩ := hrows.written n hn
    rw [← barChords_getD hi hfirst hlast] at hwrites
    obtain ⟨⟨hstart, -⟩, -⟩ := hspan i b n hfirst hlast hwrites
    have hbefore : 0 ≤ tickBefore c.stepsPerBar barOfC i := by
      rw [tickBefore, hsteps]
      omega
    rw [hsteps] at hstart hbefore
    have hone : fromSecondBar.frame.startBar = 1 := rfl
    rw [hone] at hstart
    omega

end Command

end Cantilena
