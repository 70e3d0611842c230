import Cantilena.Command
import Cantilena.Proofs.Disk.Written
import Cantilena.Proofs.Midi.RoundTrip

/-!
# The file of a command line

A command writes one file, and it does so last. Where it ends with code 0 the file holds the track
of the notes that its task made, at its tempo; where it ends with anything else nothing on the disk
has changed, but for one case: settings of a melody that are not whole numbers make notes off the
grid, and a writer that does not write their track to its end has changed the file by then. All of
this holds in whatever way documents are read, and for every writer that writes tracks with whole
times to their end.

* `saveSheet_eq_ok`, `track_onGrid` -- what is saved of a sheet, and the track of notes on the grid;
* `completes_standardWriter` -- the writer of the program writes such tracks to their end;
* `Invocation.Saves`, `perform_eq_some` -- what a command line sets out to save, and when it does;
* `Task.IsFine`, `isFine_of_offGrid` -- the tasks whose notes can be off the grid, and one such
  task;
* `endingOf_eq` -- how a command ends once it has written;
* `output_of_carryOut` -- what the file holds then, and when the disk is left alone.
-/

namespace Cantilena

/-! ## 1. What is saved -/

namespace Midi

variable {w : Writer} {sheet : Sheet} {notes : List Note} {path : String} {bpm : Amount}
  {channel : Int} {saved : Saved}

/-- What is saved of a sheet is what the writer writes of its track. -/
theorem saveSheet_eq_ok : (saveSheet w sheet path bpm channel).outcome = .ok saved ↔
    ∃ track, sheet.track bpm channel = .ok track ∧ w track = saved := by
  unfold saveSheet
  constructor
  · intro h
    obtain ⟨track, htrack, h⟩ := Logged.bind_outcome_eq_ok.mp h
    obtain ⟨_, -, h⟩ := Logged.bind_outcome_eq_ok.mp h
    exact ⟨track, htrack, Except.ok.inj h⟩
  · rintro ⟨track, htrack, rfl⟩
    refine Logged.bind_outcome_eq_ok.mpr ⟨track, htrack, ?_⟩
    exact Logged.bind_outcome_eq_ok.mpr ⟨(), rfl, rfl⟩

/-- **Notes on the grid have a track with whole times**, none of which is below zero. -/
theorem track_onGrid {track : FineTrack} :
    (Sheet.onGrid notes).track bpm channel = .ok track ↔
      ∃ whole, buildTrack notes bpm channel = .ok whole ∧ whole.map Timed.fine = track
        ∧ ∀ t ∈ whole, 0 ≤ t.delta := by
  constructor
  · intro h
    obtain ⟨whole, hwhole, rfl⟩ := map_eq_ok.mp h
    obtain ⟨tempo, -, hmade⟩ := bind_eq_ok.mp hwhole
    obtain rfl := pure_eq_ok.mp hmade
    exact ⟨_, hwhole, rfl, fun t ht => delta_trackOf_nonneg ht⟩
  · rintro ⟨whole, hwhole, rfl, -⟩
    exact map_eq_ok.mpr ⟨whole, hwhole, rfl⟩

/-- Messages after whole numbers of file ticks are read back as they are. -/
theorem mapM_whole?_fine (track : Track) :
    (track.map Timed.fine).mapM FineTimed.whole? = some track := by
  induction track with
  | nil => rfl
  | cons t track ih => simp [List.mapM_cons, ih, FineTimed.whole?, Timed.fine, Amount.whole?]

theorem standardWriter_fine (track : Track) :
    standardWriter (track.map Timed.fine) = ⟨fileBytes track, none⟩ := by
  unfold standardWriter
  rw [mapM_whole?_fine]

theorem completes_standardWriter : Writer.Completes standardWriter := fun track _ => by
  rw [standardWriter_fine]

end Midi

namespace Command

open Midi (Track FineTrack Timed buildTrack fileBytes)

variable {σ : Type} {i : Invocation} {f : Formats} {chance : Chance σ} {d after : Disk}
  {s : Settings} {sheet : Sheet} {path : String}

/-- What a command line sets out to save: the sheet that its task makes in the settings of its
    configuration, at the path of its output. -/
structure Invocation.Saves (i : Invocation) (f : Formats) (chance : Chance σ) (d : Disk)
    (s : Settings) (sheet : Sheet) (path : String) : Prop where
  settings : (i.shared.settings f d).outcome = .ok s
  made : (i.task.sheet chance d s (i.shared.tempoOver s)).outcome = .ok (some sheet)
  output : i.shared.output = some path

/-- **When a command line saves something**: nothing that comes before fails, and then the file can
    be written. -/
theorem perform_eq_some {cut : Option Fault} :
    (perform i f chance d).outcome = .ok (some (after, cut)) ↔
      ∃ s sheet path track, i.Saves f chance d s sheet path
        ∧ sheet.track (i.shared.tempoOver s) 0 = .ok track
        ∧ d.write path (f.track track).bytes = .ok after ∧ (f.track track).cut = cut := by
  unfold perform
  constructor
  · intro h
    obtain ⟨s, hs, h⟩ := Logged.bind_outcome_eq_ok.mp h
    obtain ⟨sheet?, hsheet, h⟩ := Logged.bind_outcome_eq_ok.mp h
    cases sheet? with
    | none => cases h
    | some sheet =>
      obtain ⟨saved, hsaved, h⟩ := Logged.bind_outcome_eq_ok.mp h
      obtain ⟨path, hpath, h⟩ := Logged.bind_outcome_eq_ok.mp h
      obtain ⟨disk, hwrite, h⟩ := Logged.bind_outcome_eq_ok.mp h
      obtain ⟨rfl, rfl⟩ := Prod.mk.inj (Option.some.inj (Except.ok.inj h))
      obtain ⟨track, htrack, rfl⟩ := Midi.saveSheet_eq_ok.mp hsaved
      have houtput : i.shared.output = some path := by
        cases hgiven : i.shared.output with
        | none =>
          rw [hgiven] at hpath
          cases hpath
        | some given =>
          rw [hgiven] at hpath
          exact congrArg some (Except.ok.inj hpath)
      exact ⟨s, sheet, path, track, ⟨hs, hsheet, houtput⟩, htrack, hwrite, rfl⟩
  · rintro ⟨s, sheet, path, track, ⟨hs, hsheet, houtput⟩, htrack, hwrite, rfl⟩
    refine Logged.bind_outcome_eq_ok.mpr ⟨s, hs, ?_⟩
    refine Logged.bind_outcome_eq_ok.mpr ⟨some sheet, hsheet, ?_⟩
    refine Logged.bind_outcome_eq_ok.mpr
      ⟨f.track track, Midi.saveSheet_eq_ok.mpr ⟨track, htrack, rfl⟩, ?_⟩
    rw [houtput]
    refine Logged.bind_outcome_eq_ok.mpr ⟨path, rfl, ?_⟩
    exact Logged.bind_outcome_eq_ok.mpr ⟨after, hwrite, rfl⟩

/-! ## 2. Notes off the grid -/

/-- A task for a melody in settings that are not whole numbers. -/
def Task.IsFine (task : Task) (s : Settings) : Prop :=
  ∃ progression t counting params, task = .compose progression t
    ∧ (melodyParams Registry.builtin s.melody (some (.int s.beatsPerBar))
        (t.seed.map seedValue)).outcome = .ok (counting, params)
    ∧ params.whole? = none

/-- Only such a task makes notes off the grid. -/
theorem isFine_of_offGrid {task : Task} {tempo : Amount} {notes : List FineNote}
    (h : (task.sheet chance d s tempo).outcome = .ok (some (.offGrid notes))) :
    task.IsFine s := by
  cases task with
  | compile path t =>
    obtain ⟨_, -, h⟩ := Logged.bind_outcome_eq_ok.mp h
    cases h
  | arpeggiate degrees t =>
    obtain ⟨_, -, h⟩ := Logged.bind_outcome_eq_ok.mp h
    cases h
  | compose progression t =>
    obtain ⟨entries, -, h⟩ := Logged.bind_outcome_eq_ok.mp h
    split at h
    · obtain ⟨_, -, h⟩ := Logged.bind_outcome_eq_ok.mp h
      cases h
    · obtain ⟨⟨counting, params⟩, hparams, h⟩ := Logged.bind_outcome_eq_ok.mp h
      cases hwhole : params.whole? with
      | none => exact ⟨progression, t, counting, params, rfl, hparams, hwhole⟩
      | some whole =>
        simp only [hwhole] at h
        obtain ⟨_, -, h⟩ := Logged.bind_outcome_eq_ok.mp h
        cases h

/-- Settings with three beats to the bar, written as a decimal number. -/
def threeBeatsAsDecimal : Settings := { melody := [(.text "beats_per_bar", .float 3.0)] }

/-- A decimal number is not whole though it has no fraction, so that a melody is off the grid. -/
theorem isFine_threeBeatsAsDecimal : Task.IsFine (.compose "C" {}) threeBeatsAsDecimal := by
  have hfine : ((melodyParams Registry.builtin threeBeatsAsDecimal.melody
      (some (.int threeBeatsAsDecimal.beatsPerBar)) none).outcome.toOption.map
        fun x => x.2.whole?.isNone) = some true := by decide +kernel
  obtain ⟨⟨counting, params⟩, hparams, hwhole⟩ := Option.map_eq_some_iff.mp hfine
  exact ⟨"C", {}, counting, params, rfl, toOption_eq_some.mp hparams,
    Option.isNone_iff_eq_none.mp hwhole⟩

/-! ## 3. How a command ends -/

/-- A command that ends with a fault changes nothing more, and its code is never 0. -/
theorem of_ofFault (log : List LogEntry) (cause : Fault) (d : Disk) :
    (Ending.ofFault log cause d).code ≠ .ok 0 ∧ (Ending.ofFault log cause d).disk = d := by
  unfold Ending.ofFault
  split
  · exact ⟨fun h => absurd (Except.ok.inj h) (by decide), rfl⟩
  · exact ⟨nofun, rfl⟩

/-- **A command that has written ends with the disk that it wrote to**, and with code 0 just where
    its file was not cut short. -/
theorem endingOf_eq {r : Logged (Option (Disk × Option Fault))} {cut : Option Fault}
    (h : r.outcome = .ok (some (after, cut))) :
    (endingOf d r).disk = after ∧ ((endingOf d r).code = .ok 0 ↔ cut = none) := by
  unfold endingOf
  rw [h]
  cases cut with
  | none => exact ⟨rfl, iff_of_true rfl rfl⟩
  | some cause =>
    obtain ⟨hcode, hdisk⟩ := of_ofFault r.log cause after
    exact ⟨hdisk, iff_of_false hcode nofun⟩

/-- **The ways in which a command ends**: after it has written, or with the disk as it was. -/
theorem endingOf_cases (d : Disk) (r : Logged (Option (Disk × Option Fault))) :
    (∃ after cut, r.outcome = .ok (some (after, cut)))
      ∨ (endingOf d r).code ≠ .ok 0 ∧ (endingOf d r).disk = d := by
  unfold endingOf
  split
  · rename_i after h
    exact .inl ⟨after, none, h⟩
  · rename_i after cause h
    exact .inl ⟨after, some cause, h⟩
  · exact .inr ⟨fun h => absurd (Except.ok.inj h) (by decide), rfl⟩
  · rename_i cause h
    exact .inr (of_ofFault r.log cause d)

/-- **What a command leaves in its file, whatever its words, its files and its disk are**, in
    whatever way documents are read, and for every writer that writes tracks with whole times to
    their end. With code 0 the file holds the track of the notes of its task, at its own tempo or
    that of the configuration; and so it ends wherever there is such a track, the file can be
    opened, and the writer does not cut it short. A track of notes on the grid has whole times, none
    of which is below zero, and is never cut short. With any other end the disk is as it was, unless
    settings that are not whole numbers have put the notes of a melody off the grid and the writer
    has cut their track short: then the file holds what there was of it by then. -/
theorem output_of_carryOut {words : List String} (hread : Invocation.read words = .ok i)
    (f : Formats) (hwriter : f.track.Completes) (chance : Chance σ) (d : Disk) :
    ∃ ending, carryOutIn f words chance d = .ok ending
      ∧ (ending.code = .ok 0 → ∃ s sheet path track, i.Saves f chance d s sheet path
          ∧ sheet.track (i.shared.tempoOver s) 0 = .ok track
          ∧ (f.track track).cut = none ∧ d.Written path (f.track track).bytes ending.disk)
      ∧ (∀ s sheet path track after, i.Saves f chance d s sheet path →
          sheet.track (i.shared.tempoOver s) 0 = .ok track →
          d.write path (f.track track).bytes = .ok after →
            ending.disk = after ∧ (ending.code = .ok 0 ↔ (f.track track).cut = none))
      ∧ (∀ s notes track, (Sheet.onGrid notes).track (i.shared.tempoOver s) 0 = .ok track →
          (f.track track).cut = none
            ∧ ∃ whole : Track, buildTrack notes (i.shared.tempoOver s) 0 = .ok whole
              ∧ whole.map Timed.fine = track ∧ ∀ t ∈ whole, 0 ≤ t.delta)
      ∧ (ending.code ≠ .ok 0 → ending.disk = d ∨ ∃ s notes path track,
          i.Saves f chance d s (.offGrid notes) path ∧ i.task.IsFine s
            ∧ (Sheet.offGrid notes).track (i.shared.tempoOver s) 0 = .ok track
            ∧ (f.track track).cut ≠ none ∧ d.Written path (f.track track).bytes ending.disk)
      ∧ ((∀ s, (i.shared.settings f d).outcome = .ok s → ¬ i.task.IsFine s) →
          ending.code ≠ .ok 0 → ending.disk = d) := by
  have hwhole (s : Settings) (notes : List Note) (track : FineTrack)
      (h : (Sheet.onGrid notes).track (i.shared.tempoOver s) 0 = .ok track) :
      (f.track track).cut = none
        ∧ ∃ whole : Track, buildTrack notes (i.shared.tempoOver s) 0 = .ok whole
          ∧ whole.map Timed.fine = track ∧ ∀ t ∈ whole, 0 ≤ t.delta := by
    obtain ⟨whole, hbuilt, rfl, hdelta⟩ := Midi.track_onGrid.mp h
    exact ⟨hwriter whole hdelta, whole, hbuilt, rfl, hdelta⟩
  have hfailed : (i.carryOut f chance d).code ≠ .ok 0 →
      (i.carryOut f chance d).disk = d ∨ ∃ s notes path track,
        i.Saves f chance d s (.offGrid notes) path ∧ i.task.IsFine s
          ∧ (Sheet.offGrid notes).track (i.shared.tempoOver s) 0 = .ok track
          ∧ (f.track track).cut ≠ none
          ∧ d.Written path (f.track track).bytes (i.carryOut f chance d).disk := by
    intro hcode
    obtain ⟨after, cut, hperform⟩ | ⟨-, hdisk⟩ := endingOf_cases d (perform i f chance d)
    · obtain ⟨hdisk, hzero⟩ := endingOf_eq (d := d) hperform
      obtain ⟨s, sheet, path, track, hsaves, htrack, hwrite, rfl⟩ := perform_eq_some.mp hperform
      have hcut : (f.track track).cut ≠ none := mt hzero.mpr hcode
      cases sheet with
      | onGrid notes => exact absurd (hwhole s notes track htrack).1 hcut
      | offGrid notes =>
        refine .inr ⟨s, notes, path, track, hsaves, isFine_of_offGrid hsaves.made, htrack, hcut, ?_⟩
        exact hdisk ▸ Disk.written_of_write hwrite
    · exact .inl hdisk
  refine ⟨i.carryOut f chance d, by rw [carryOutIn, hread]; rfl, ?_, ?_, hwhole, hfailed, ?_⟩
  · intro hcode
    obtain ⟨after, cut, hperform⟩ | ⟨hne, -⟩ := endingOf_cases d (perform i f chance d)
    · obtain ⟨hdisk, hzero⟩ := endingOf_eq (d := d) hperform
      obtain ⟨s, sheet, path, track, hsaves, htrack, hwrite, rfl⟩ := perform_eq_some.mp hperform
      exact ⟨s, sheet, path, track, hsaves, htrack, hzero.mp hcode,
        hdisk ▸ Disk.written_of_write hwrite⟩
    · exact absurd hcode hne
  · intro s sheet path track after hsaves htrack hwrite
    exact endingOf_eq (perform_eq_some.mpr ⟨s, sheet, path, track, hsaves, htrack, hwrite, rfl⟩)
  · intro hgrid hcode
    obtain hdisk | ⟨s, _, _, _, hsaves, hfine, _⟩ := hfailed hcode
    · exact hdisk
    · exact absurd hfine (hgrid s hsaves.settings)

/-- One arpeggio on an empty disk: the command ends with code 0, and its file holds a track. -/
theorem output_of_arpeggio : ∃ ending track,
    carryOut ["arpeggio", "1"] ⟨Twister.source, Twister.ofSeed 0, 0⟩ {} = .ok ending
      ∧ ending.code = .ok 0 ∧ ending.disk.read "groovix.mid" = .ok (fileBytes track) := by
  let i : Invocation := ⟨{}, .arpeggiate "1" {}⟩
  let chance : Chance Twister := ⟨Twister.source, Twister.ofSeed 0, 0⟩
  have hread : Invocation.read ["arpeggio", "1"] = .ok i :=
    toOption_eq_some.mp (by decide +kernel)
  have hsettings : ((i.shared.settings .standard {}).outcome.toOption.map i.shared.tempoOver)
      = some Midi.defaultTempo := by decide +kernel
  obtain ⟨s, hs, htempo⟩ := Option.map_eq_some_iff.mp hsettings
  have hplayed : ((ArpeggiateTask.notes {} "1").toOption).isSome = true := by decide +kernel
  obtain ⟨notes, hnotes⟩ := Option.isSome_iff_exists.mp hplayed
  have hsaves : i.Saves .standard chance {} s (.onGrid notes) "groovix.mid" :=
    { settings := toOption_eq_some.mp hs
      made := Logged.bind_outcome_eq_ok.mpr ⟨notes, toOption_eq_some.mp hnotes, rfl⟩
      output := rfl }
  have hbuilt : buildTrack notes (i.shared.tempoOver s) 0
      = .ok (Midi.trackOf 500000 0 notes) := by
    rw [htempo]
    exact Midi.buildTrack_eq_ok notes Midi.defaultTempo_pos Midi.microseconds_defaultTempo
      (by decide)
  have htrack := Midi.track_onGrid.mpr ⟨_, hbuilt, rfl, fun t ht => Midi.delta_trackOf_nonneg ht⟩
  have hbytes := Midi.standardWriter_fine (Midi.trackOf 500000 0 notes)
  have hwritable (bytes : List UInt8) : ∃ after, ({} : Disk).write "groovix.mid" bytes = .ok after :=
    ⟨_, Disk.write_eq_ok.mpr ⟨["groovix.mid"], toOption_eq_some.mp (by decide +kernel),
      by decide +kernel, by decide +kernel, rfl⟩⟩
  obtain ⟨after, hwrite⟩ := hwritable (fileBytes (Midi.trackOf 500000 0 notes))
  obtain ⟨ending, hending, -, hsaved, -⟩ :=
    output_of_carryOut hread .standard Midi.completes_standardWriter chance {}
  obtain ⟨hdisk, hcode⟩ := hsaved s (.onGrid notes) _ _ after hsaves htrack
    (by rw [show Formats.standard.track = Midi.standardWriter from rfl, hbytes]; exact hwrite)
  refine ⟨ending, Midi.trackOf 500000 0 notes, hending, hcode.mpr ?_, ?_⟩
  · rw [show Formats.standard.track = Midi.standardWriter from rfl, hbytes]
  · rw [hdisk]
    exact (Disk.written_of_write hwrite).read

end Command

end Cantilena
