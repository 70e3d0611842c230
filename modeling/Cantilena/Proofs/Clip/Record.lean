import Cantilena.Midi
import Cantilena.Proofs.Clip.Filing
import Cantilena.Proofs.Outcome

/-!
# What a clip has been given

A clip is the record of the notes that came to it since it was last cleared, cut to end with it.
An act that builds no notes leaves no mark on it; one that meets a note past the end whose start
has too many digits to be reported ends there, and keeps what came before.

* `Act`, `perform`, `run` -- what is done to a clip, once and many times;
* `Act.built`, `arrived` -- the notes an act builds, and those that come to the clip;
* `perform_of_error`, `perform_of_ok` -- all that an act can do;
* `Holds` -- a clip holds what came to it; `Holds.perform` and `holds_run` keep it;
* `run_records` -- what a clip holds after any acts, and what one more act does.
-/

namespace Cantilena.Clip

variable {c start : Clip} {n : Note} {notes row : List Note} {cause : Fault}

/-! ## 1. Acts -/

/-- Something that is done to a clip. -/
inductive Act
  | addNote (position pitch velocity duration : Int)
  | add (n : Note)
  | emit (notes : List Note)
  | importBlock (text : List Char) (limit : Int)
  | importFile (path : String) (bytes : List UInt8)
  | clear

/-- A clip with a note added, or the same clip and the fault for which there is none. -/
def kept (c : Clip) : Except Fault Clip → Except Fault Unit × Clip
  | .ok after => (.ok (), after)
  | .error cause => (.error cause, c)

/-- An act on a clip: the fault it ends with if there is one, and the clip then. -/
def perform (c : Clip) : Act → Except Fault Unit × Clip
  | .addNote position pitch velocity duration => c.kept (c.addNote position pitch velocity duration)
  | .add n => c.kept (c.add n)
  | .emit notes => ((c.emit notes).1.outcome, (c.emit notes).2)
  | .importBlock text limit =>
    ((c.importBlock text limit).1.outcome.map fun _ => (), (c.importBlock text limit).2)
  | .importFile path bytes =>
    ((c.importFile path bytes).1.outcome.map fun _ => (), (c.importFile path bytes).2)
  | .clear => (.ok (), c.clear)

/-- A clip after several acts, whatever they ended with. -/
def run (c : Clip) (acts : List Act) : Clip := acts.foldl (fun c act => (c.perform act).2) c

/-- The notes that an act builds, compiles or reads before it adds any of them. -/
def Act.built (octave length : Int) : Act → Except Fault (List Note)
  | .addNote position pitch velocity duration =>
    (Note.make pitch position duration velocity).map fun n => [n]
  | .add n => .ok [n]
  | .emit notes => .ok notes
  | .importBlock text limit =>
    (Notation.readBlock text octave length limit).outcome.map (·.notes)
  | .importFile path bytes => (Midi.load path bytes).outcome
  | .clear => .ok []

/-- Whether a note can come to a clip of some ticks: it starts before the end, or its start can be
    reported. -/
def arrives (ticks : Int) (n : Note) : Bool := n.start < ticks || Number.isWritable n.start

/-- The notes that have come to a clip since it was last cleared, with those of one more act. -/
def arrived (c : Clip) (row : List Note) (act : Act) : List Note :=
  match act, act.built c.octave c.length with
  | .clear, _ => []
  | _, .error _ => row
  | _, .ok notes => row ++ notes.takeWhile (arrives c.ticks)

/-- The notes that have come to a clip by several acts since it was last cleared. -/
def log (c : Clip) (acts : List Act) : List Note := acts.foldl (arrived c) []

/-! ## 2. What an act can do -/

variable {act : Act}

theorem accepts_eq (c : Clip) : c.accepts = arrives c.ticks := by
  funext n
  unfold accepts arrives
  rw [fitted?_eq_clamp?]
  unfold clamp?
  split
  · rename_i hstart
    rw [decide_eq_true hstart]
    rfl
  · rename_i hstart
    rw [decide_eq_false hstart]
    rfl

theorem length_takeWhile_eq_iff {α : Type} {p : α → Bool} {l : List α} :
    (l.takeWhile p).length = l.length ↔ l.all p = true := by
  induction l with
  | nil => exact ⟨fun _ => rfl, fun _ => rfl⟩
  | cons a l ih =>
    cases ha : p a with
    | false => simp [ha]
    | true => simp [ha, ← ih]

theorem emit_outcome (c : Clip) (notes : List Note) :
    (c.emit notes).1.outcome
      = if notes.all (arrives c.ticks) then .ok () else .error .tooManyToWrite := by
  show (if (notes.takeWhile c.accepts).length = notes.length then _ else _) = _
  rw [accepts_eq]
  simp only [length_takeWhile_eq_iff]

theorem emit_clip (c : Clip) (notes : List Note) :
    (c.emit notes).2 = (notes.takeWhile (arrives c.ticks)).foldl record c := by
  rw [← accepts_eq]
  rfl

theorem add_eq (c : Clip) (n : Note) :
    c.add n = if arrives c.ticks n then .ok (c.record n) else .error .tooManyToWrite := by
  rw [add, accepts_eq]

section Receive

variable {α : Type} {read : Logged α} {notesOf : α → List Note}

theorem receive_of_error (h : (read.outcome.map notesOf) = .error cause) :
    c.receive read notesOf = (read, c) ∧ read.outcome.map (fun _ => ()) = .error cause := by
  unfold receive
  cases hread : read.outcome with
  | error e =>
    rw [hread] at h
    exact ⟨rfl, congrArg _ (Except.error.inj h)⟩
  | ok a =>
    rw [hread] at h
    cases h

theorem receive_of_ok (h : read.outcome.map notesOf = .ok notes) :
    ((c.receive read notesOf).1.outcome.map fun _ => ()) = (c.emit notes).1.outcome
      ∧ (c.receive read notesOf).2 = (c.emit notes).2 := by
  obtain ⟨a, hread, rfl⟩ := map_eq_ok.mp h
  have hreceive : c.receive read notesOf
      = (read.bind fun a' => (c.emit (notesOf a)).1.bind fun _ => .ok a',
        (c.emit (notesOf a)).2) := by
    unfold receive
    rw [hread]
  rw [hreceive]
  refine ⟨?_, rfl⟩
  show ((read.bind _).outcome.map fun _ => ()) = _
  rw [Logged.bind_outcome, hread]
  show ((Logged.bind _ _).outcome.map fun _ => ()) = _
  rw [Logged.bind_outcome]
  cases (c.emit (notesOf a)).1.outcome <;> rfl

end Receive

/-- **An act that builds no notes leaves a clip as it was.** -/
theorem perform_of_error (h : act.built c.octave c.length = .error cause) :
    c.perform act = (.error cause, c) := by
  cases act with
  | addNote position pitch velocity duration =>
    cases hmake : Note.make pitch position duration velocity with
    | ok n =>
      rw [Act.built, hmake] at h
      cases h
    | error e =>
      rw [Act.built, hmake] at h
      cases h
      rw [perform, addNote, hmake]
      rfl
  | add n => cases h
  | emit notes => cases h
  | importBlock text limit =>
    obtain ⟨hreceive, houtcome⟩ := receive_of_error (c := c) h
    rw [perform, importBlock, hreceive, houtcome]
  | importFile path bytes =>
    have hload : (Midi.load path bytes).outcome.map (fun notes => notes) = .error cause :=
      (congrFun Except.map_id _).trans h
    obtain ⟨hreceive, houtcome⟩ := receive_of_error (c := c) hload
    rw [perform, importFile, hreceive, houtcome]
  | clear => cases h

/-- An act that builds notes adds them in order, up to the first that cannot come to the clip. -/
theorem perform_of_ok (hact : act ≠ .clear) (h : act.built c.octave c.length = .ok notes) :
    c.perform act = (if notes.all (arrives c.ticks) then .ok () else .error .tooManyToWrite,
      (notes.takeWhile (arrives c.ticks)).foldl record c) := by
  have hone (n : Note) : c.kept (c.add n)
      = (if [n].all (arrives c.ticks) then .ok () else .error .tooManyToWrite,
        ([n].takeWhile (arrives c.ticks)).foldl record c) := by
    rw [add_eq]
    cases harrives : arrives c.ticks n with
    | false => simp [harrives, kept]
    | true => simp [harrives, kept]
  cases act with
  | addNote position pitch velocity duration =>
    obtain ⟨n, hmake, rfl⟩ := map_eq_ok.mp h
    rw [perform, addNote, hmake]
    exact hone n
  | add n =>
    obtain rfl := Except.ok.inj h
    exact hone n
  | emit notes =>
    obtain rfl := Except.ok.inj h
    rw [perform, emit_outcome, emit_clip]
  | importBlock text limit =>
    obtain ⟨houtcome, hclip⟩ := receive_of_ok (c := c) h
    rw [perform, importBlock, houtcome, hclip, emit_outcome, emit_clip]
  | importFile path bytes =>
    have hload : (Midi.load path bytes).outcome.map (fun notes => notes) = .ok notes :=
      (congrFun Except.map_id _).trans h
    obtain ⟨houtcome, hclip⟩ := receive_of_ok (c := c) hload
    rw [perform, importFile, houtcome, hclip, emit_outcome, emit_clip]
  | clear => exact absurd rfl hact

theorem arrived_of_error (h : act.built c.octave c.length = .error cause) :
    arrived c row act = row := by
  unfold arrived
  rw [h]
  cases act with
  | clear => cases h
  | _ => rfl

theorem arrived_of_ok (hact : act ≠ .clear) (h : act.built c.octave c.length = .ok notes) :
    arrived c row act = row ++ notes.takeWhile (arrives c.ticks) := by
  unfold arrived
  rw [h]
  cases act with
  | clear => exact absurd rfl hact
  | _ => rfl

/-! ## 3. What a clip holds -/

/-- A clip that was made as another one holds the notes of a row: each that starts before its end,
    cut to end with it. -/
structure Holds (start : Clip) (row : List Note) (c : Clip) : Prop where
  same : c = { start with steps := c.steps }
  files : Files c.steps (row.filterMap (clamp? start.ticks))

theorem holds_nil (h : start.steps = []) : Holds start [] start :=
  ⟨rfl, h ▸ files_nil⟩

theorem Holds.ticks (h : Holds start row c) : c.ticks = start.ticks := by
  rw [h.same]
  rfl

/-- An act builds the same notes on all clips that were made alike. -/
theorem Holds.built_eq (h : Holds start row c) (act : Act) :
    act.built c.octave c.length = act.built start.octave start.length := by
  rw [h.same]

/-- One more note is filed behind those that came before. -/
theorem Holds.record (h : Holds start row c) (n : Note) :
    Holds start (row ++ [n]) (c.record n) := by
  unfold Clip.record
  rw [fitted?_eq_clamp?, h.ticks]
  cases hclamp : clamp? start.ticks n with
  | none =>
    refine ⟨h.same, ?_⟩
    rw [List.filterMap_append, List.filterMap_cons_none hclamp, List.filterMap_nil, List.append_nil]
    exact h.files
  | some fitted =>
    refine ⟨?_, ?_⟩
    · conv => lhs; rw [h.same]
    · rw [List.filterMap_append, List.filterMap_cons_some hclamp, List.filterMap_nil]
      exact h.files.file fitted

theorem Holds.foldl_record (h : Holds start row c) (notes : List Note) :
    Holds start (row ++ notes) (notes.foldl Clip.record c) := by
  induction notes generalizing row c with
  | nil => rwa [List.append_nil]
  | cons n notes ih =>
    rw [List.append_cons]
    exact ih (h.record n)

/-- **An act keeps what a clip holds**, with the notes that come to the clip. -/
theorem Holds.perform (h : Holds start row c) (act : Act) :
    Holds start (arrived start row act) (c.perform act).2 := by
  by_cases hact : act = .clear
  · subst hact
    have hclear : (c.perform .clear).2 = { start with steps := [] } := by
      show { c with steps := [] } = _
      rw [h.same]
    rw [hclear]
    exact ⟨rfl, files_nil⟩
  cases hbuilt : act.built start.octave start.length with
  | error cause =>
    rw [arrived_of_error hbuilt, perform_of_error ((h.built_eq act).trans hbuilt)]
    exact h
  | ok notes =>
    rw [arrived_of_ok hact hbuilt, perform_of_ok hact ((h.built_eq act).trans hbuilt),
      h.ticks]
    exact h.foldl_record _

/-- **A clip holds what came to it**, after any acts. -/
theorem Holds.run (h : Holds start row c) (acts : List Act) :
    Holds start (acts.foldl (arrived start) row) (c.run acts) := by
  induction acts generalizing row c with
  | nil => exact h
  | cons act acts ih => exact ih (h.perform act)

/-! ## 4. What is seen of it -/

theorem Holds.notes_eq (h : Holds start row c) :
    c.notes = sortNotes (row.filterMap (clamp? start.ticks)) :=
  h.files.sortNotes_eq

/-- A note in a step starts at its tick and ends within the clip. -/
theorem Holds.of_mem_step (h : Holds start row c) {tick : Int} (hstep : (tick, notes) ∈ c.steps)
    (hn : n ∈ notes) : n.start = tick ∧ n.start < start.ticks ∧ n.stop ≤ start.ticks := by
  rw [h.files.step tick notes hstep] at hn
  obtain ⟨hfiled, hstart⟩ := List.mem_filter.mp hn
  obtain ⟨m, -, hclamp⟩ := List.mem_filterMap.mp hfiled
  obtain ⟨-, -, -, -, hend⟩ := of_clamp?_eq_some hclamp
  exact ⟨of_decide_eq_true hstart, hend⟩

theorem size_eq (c : Clip) : c.size = c.notes.length := by
  unfold size Clip.notes sortNotes
  rw [List.length_mergeSort, List.length_flatMap]

/-- The fault of an act, in a clip that holds what came to it. -/
theorem Holds.perform_outcome (h : Holds start row c)
    (hbuilt : act.built start.octave start.length = .ok notes) :
    (c.perform act).1
      = if notes.all (arrives start.ticks) then .ok () else .error .tooManyToWrite := by
  by_cases hact : act = .clear
  · subst hact
    obtain rfl := Except.ok.inj hbuilt
    rfl
  · rw [perform_of_ok hact ((h.built_eq act).trans hbuilt), h.ticks]

theorem steps_of_make_eq_ok {bars beats octave length : Int} {tempo : Amount}
    (h : make bars beats tempo octave length = .ok start) : start.steps = [] := by
  unfold make at h
  split at h
  · cases h
  split at h
  · cases h
  split at h
  · cases h
  split at h
  · cases h
  · obtain rfl := Except.ok.inj h
    rfl

/-- **A clip is the record of what it was given, cut to its end.** After any acts on a new clip, its
    notes are in order all notes that came to it since it was last cleared and start before its
    end, each cut to end with it; each is filed once, under its first tick. An act that builds no
    notes leaves the clip as it is, and one that builds notes fails only at a note past the end
    whose start has too many digits to be reported. -/
theorem run_records {bars beats octave length : Int} {tempo : Amount}
    (h : make bars beats tempo octave length = .ok start) (acts : List Act) :
    (start.run acts).notes = sortNotes ((start.log acts).filterMap (clamp? start.ticks))
      ∧ ((start.run acts).steps.map (·.1)).Nodup
      ∧ (∀ tick notes, (tick, notes) ∈ (start.run acts).steps →
        notes = ((start.log acts).filterMap (clamp? start.ticks)).filter (·.start = tick)
          ∧ ∀ n ∈ notes, n.start = tick ∧ n.start < start.ticks ∧ n.stop ≤ start.ticks)
      ∧ (start.run acts).size = (start.run acts).notes.length
      ∧ (∀ act cause, act.built start.octave start.length = .error cause →
        (start.run acts).perform act = (.error cause, start.run acts))
      ∧ (∀ act notes, act.built start.octave start.length = .ok notes →
        ((start.run acts).perform act).1
          = if notes.all (arrives start.ticks) then .ok () else .error .tooManyToWrite)
      ∧ ∀ n, (start.run acts).perform (.add n)
          = if arrives start.ticks n then (.ok (), (start.run acts).record n)
            else (.error .tooManyToWrite, start.run acts) := by
  have hholds : Holds start (start.log acts) (start.run acts) :=
    (holds_nil (steps_of_make_eq_ok h)).run acts
  refine ⟨hholds.notes_eq, hholds.files.nodup, fun tick notes hstep => ?_, size_eq _,
    fun act cause hbuilt => ?_, fun act notes => hholds.perform_outcome, fun n => ?_⟩
  · exact ⟨hholds.files.step tick notes hstep, fun n hn => hholds.of_mem_step hstep hn⟩
  · exact perform_of_error ((hholds.built_eq act).trans hbuilt)
  · rw [← hholds.ticks, perform, add_eq]
    split <;> rfl

/-- A bar to which four notes are given: one that outlasts it, one past its end, one that cannot be,
    and one made before. -/
theorem run_records_one_bar :
    ∃ start, make 1 4 (.whole 120) 5 1 = .ok start
      ∧ (start.run [.addNote 14 60 100 4, .addNote 16 62 100 1, .addNote 3 128 100 1,
          .emit [⟨72, 1, 1, 100, by decide⟩]]).notes
        = [⟨72, 1, 1, 100, by decide⟩, ⟨60, 14, 2, 100, by decide⟩] := by
  have hmake : make 1 4 (.whole 120) 5 1 = .ok ⟨1, 4, .whole 120, 5, 1, []⟩ := rfl
  refine ⟨_, hmake, ?_⟩
  rw [(run_records hmake _).1]
  have hrow : (log ⟨1, 4, .whole 120, 5, 1, []⟩ [.addNote 14 60 100 4, .addNote 16 62 100 1,
      .addNote 3 128 100 1, .emit [⟨72, 1, 1, 100, by decide⟩]]).filterMap (clamp? 16)
      = [⟨60, 14, 2, 100, by decide⟩, ⟨72, 1, 1, 100, by decide⟩] := by decide +kernel
  refine (congrArg sortNotes hrow).trans ?_
  simp [sortNotes, List.mergeSort, List.MergeSort.Internal.splitInTwo, Note.comesBy]

/-- A note past the end of a bar cannot be added if its start has more digits than are written. -/
theorem not_add_unwritable :
    ¬ ∀ start, make 1 4 (.whole 120) 5 1 = .ok start → ∀ n, ∃ after, start.add n = .ok after := by
  intro h
  have hmake : make 1 4 (.whole 120) 5 1 = .ok ⟨1, 4, .whole 120, 5, 1, []⟩ := rfl
  have hvalid : Note.Valid 60 ((10 ^ Number.mostDigits : Nat) : Int) 1 100 := by decide +kernel
  obtain ⟨after, hadd⟩ := h _ hmake ⟨60, _, 1, 100, hvalid⟩
  rw [add_eq] at hadd
  have hwritable : ¬ arrives 16 ⟨60, _, 1, 100, hvalid⟩ := by
    have hlate : ¬ ((10 ^ Number.mostDigits : Nat) : Int) < 16 := by decide +kernel
    have hlong : Number.isWritable ((10 ^ Number.mostDigits : Nat) : Int) = false := by
      decide +kernel
    rw [arrives, hlong, Bool.or_false, decide_eq_true_iff]
    exact hlate
  rw [show ticks _ = 16 from rfl, if_neg hwritable] at hadd
  cases hadd

end Cantilena.Clip
