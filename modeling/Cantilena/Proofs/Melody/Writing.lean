import Cantilena.Proofs.Melody.Decisions

/-!
# Writing bars

Whatever is drawn, a bar is written without a fault, and its notes have the shape of notes of that
bar.

* `Composer.Shaped` -- the shape of a note of a bar;
* `Line.Goes` -- a line that holds some strokes and behind them only notes of one bar; every part of
  a slot keeps this;
* `Composer.yields_writeBar` -- a bar adds only notes of its own;
* `Rows`, `Composer.yields_writeBars` -- strokes that fall into rows, one for each bar of a phrase.
-/

namespace Cantilena.Composer

variable {σ : Type} {src : Source σ} {c : Composer Int} {P : Int → Prop}

/-! ## 1. Notes of a bar -/

/-- The shape of a note of a bar: it starts in the bar, lasts from one step to the longest, can be
    heard, and its pitch has a property. -/
structure Shaped (c : Composer Int) (P : Int → Prop) (bar : Int) (n : Note) : Prop where
  start_ge : c.tickOfBar bar ≤ n.start
  start_lt : n.start < c.tickOfBar (bar + 1)
  length_pos : 1 ≤ n.length
  length_le : n.length ≤ longest
  velocity_pos : 1 ≤ n.velocity
  pitch : P n.pitch

theorem stepsPerBar_pos (c : Composer Int) : 4 ≤ c.stepsPerBar := by
  have h : ¬ c.params.frame.beatsPerBar < 1 := c.params.frame.beatsPerBar_ok
  show 4 ≤ c.params.frame.beatsPerBar * 4
  omega

/-- A bar ends where the next one starts. -/
theorem tickOfBar_succ (c : Composer Int) (bar : Int) :
    c.tickOfBar (bar + 1) = c.tickOfBar bar + c.stepsPerBar := by
  show (c.params.frame.startBar + (bar + 1)) * c.stepsPerBar
    = (c.params.frame.startBar + bar) * c.stepsPerBar + c.stepsPerBar
  rw [← Int.add_assoc, Int.add_mul, Int.one_mul]

/-- No bar starts before the first tick. -/
theorem tickOfBar_nonneg (c : Composer Int) {bar : Int} (h : 0 ≤ bar) : 0 ≤ c.tickOfBar bar := by
  have hstart : ¬ c.params.frame.startBar < 0 := c.params.frame.startBar_ok
  have hsteps := c.stepsPerBar_pos
  show 0 ≤ (c.params.frame.startBar + bar) * c.stepsPerBar
  exact Int.mul_nonneg (by omega) (by omega)

/-! ## 2. Lines within a bar -/

/-- A line that can be gone on with: its motif is sound, and its last pitch has a property. -/
structure Line.Ready (P : Int → Prop) (line : Line Note Int) : Prop where
  motif : line.motif.Sound
  last : ∀ p, line.last = some p → P p

/-- A phrase starts with such a line. -/
theorem Line.ready_start {motif : Motif} (h : motif.Sound) :
    ({ motif } : Line Note Int).Ready P :=
  ⟨h, fun _ hp => by cases hp⟩

/-- A line that holds some strokes and behind them only notes of a bar. -/
structure Line.Goes (c : Composer Int) (P : Int → Prop) (bar : Int)
    (before : List (Stroke Note)) (line : Line Note Int) : Prop extends line.Ready P where
  strokes : ∃ row, line.strokes.toList = before ++ row ∧ ∀ s ∈ row, c.Shaped P bar s.note

namespace Line.Goes

variable {bar : Int} {before : List (Stroke Note)} {line : Line Note Int}

theorem with_motif (h : line.Goes c P bar before) {motif : Motif} (hm : motif.Sound) :
    ({ line with motif } : Line Note Int).Goes c P bar before :=
  ⟨⟨hm, h.last⟩, h.strokes⟩

theorem with_last (h : line.Goes c P bar before) {pitch : Int} (hp : P pitch) :
    ({ line with last := some pitch } : Line Note Int).Goes c P bar before :=
  ⟨⟨h.motif, fun _ hq => Option.some.inj hq ▸ hp⟩, h.strokes⟩

/-- **A note of the bar goes behind what the line holds.** -/
theorem push (hP : c.Keeps P) (h : line.Goes c P bar before) (kind : StrokeKind)
    {pitch start length : Int} {loudness : Float} (hbar : 0 ≤ c.tickOfBar bar) (hpitch : P pitch)
    (hstart : c.tickOfBar bar ≤ start ∧ start < c.tickOfBar (bar + 1))
    (hlength : 1 ≤ length ∧ length ≤ longest) (hloud : ∃ y, loudness = keepBetween 0.2 1.0 y) :
    ∃ line', Composer.push kind pitch start length loudness line = .ok line'
      ∧ line'.Goes c P bar before := by
  obtain ⟨y, rfl⟩ := hloud
  obtain ⟨velocity, hv, hlow, hhigh⟩ := velocityOf_kept y
  have hvalid : Note.Valid pitch start length velocity :=
    ⟨⟨hP.low hpitch, hP.high hpitch⟩, Int.le_trans hbar hstart.1, hlength.1,
      Int.le_trans Int.one_nonneg hlow, hhigh⟩
  refine ⟨_, bind_eq_ok.mpr ⟨_, hv, bind_eq_ok.mpr ⟨_, Note.make_eq_ok hvalid, rfl⟩⟩,
    ⟨h.motif, h.last⟩, ?_⟩
  obtain ⟨row, hrow, hshaped⟩ := h.strokes
  refine ⟨row ++ [⟨kind, ⟨pitch, start, length, velocity, hvalid⟩⟩], ?_, ?_⟩
  · rw [Array.toList_push, hrow, List.append_assoc]
  · intro s hs
    rcases List.mem_append.mp hs with hs | hs
    · exact hshaped s hs
    · rw [List.mem_singleton.mp hs]
      exact ⟨hstart.1, hstart.2, hlength.1, hlength.2, hlow, hpitch⟩

end Line.Goes

/-! ## 3. Slots -/

section Slots

variable (hP : c.Keeps P) {b : Int} {bar : Bar Int}
  {before : List (Stroke Note)} {line : Line Note Int} {slot : Slot} {pc : Int} {loudness : Float}
  (hb : 0 ≤ c.tickOfBar b) (htick : bar.tick = c.tickOfBar b)
include hP hb htick

theorem yields_fill (hsrc : src.AlwaysPicks) {step : Nat} (h : line.Goes c P b before) :
    Yields (c.fill src bar step pc loudness line) fun line' => line'.Goes c P b before := by
  unfold fill
  split
  · exact .pure h
  · rename_i hstep
    refine yields_chance.bind fun skipped _ => ?_
    split
    · exact .pure h
    · refine (yields_choose hsrc).bind fun nudge _ => ?_
      refine (yields_nextPitch hP).bind fun pitch hpitch => ?_
      have hstep' : (step : Int) < c.stepsPerBar := Int.not_le.mp hstep
      have hstart : c.tickOfBar b ≤ bar.tick + step ∧ bar.tick + step < c.tickOfBar (b + 1) := by
        rw [tickOfBar_succ, htick]
        omega
      obtain ⟨line', hpush, hline'⟩ := h.push hP .fill hb hpitch hstart
        ⟨Int.le_refl 1, by decide⟩ ⟨loudness * 0.7, rfl⟩
      refine (Yields.ofExcept hpush hline').bind fun line₁ h₁ => .pure ?_
      exact h₁.with_last hpitch

theorem yields_fills (hsrc : src.AlwaysPicks) (h : line.Goes c P b before) :
    Yields (c.fills src bar slot pc loudness line) fun line' => line'.Goes c P b before := by
  unfold fills
  refine yields_chance.bind fun filled _ => ?_
  split
  · refine (yields_fill hP hb htick hsrc h).bind fun line₁ h₁ => ?_
    exact yields_fill hP hb htick hsrc h₁
  · exact .pure h

theorem yields_leadIn {approach : Option Int} (happroach : ∀ p, approach = some p → P p)
    (hslot : (slot.step : Int) < c.stepsPerBar) (h : line.Goes c P b before) :
    Yields (c.leadIn src bar slot approach loudness line)
      fun line' => line'.Goes c P b before := by
  unfold leadIn
  split
  · exact .pure h
  · rename_i pitch
    split
    · exact .pure h
    · rename_i hstep
      refine yields_chance.bind fun written _ => ?_
      split
      · have hstart : c.tickOfBar b ≤ bar.tick + slot.step - 1
            ∧ bar.tick + slot.step - 1 < c.tickOfBar (b + 1) := by
          rw [tickOfBar_succ, htick]
          omega
        obtain ⟨line', hpush, hline'⟩ := h.push hP .approach hb (happroach pitch rfl)
          hstart ⟨Int.le_refl 1, by decide⟩ ⟨loudness * 0.78, rfl⟩
        exact .ofExcept hpush hline'
      · exact .pure h

/-- **A slot that sounds adds only notes of its bar.** -/
theorem yields_soundSlot (hsrc : src.AlwaysPicks) {i : Nat}
    (hi : (i : Int) + 1 < Source.countLimit) (hslot : (slot.step : Int) < c.stepsPerBar)
    (hduration : 1 ≤ slot.duration ∧ slot.duration ≤ 8) (h : line.Goes c P b before) :
    Yields (c.soundSlot src bar i slot line) fun line' => line'.Goes c P b before := by
  unfold soundSlot
  refine (yields_aim hsrc h.motif hi).bind fun ⟨pc, motif⟩ hmotif => ?_
  refine (yields_nextPitch hP).bind fun pitch hpitch => ?_
  refine (yields_approach hP h.last hpitch).bind fun approach happroach => ?_
  refine (yields_lengthOf hsrc hduration).bind fun length hlength => ?_
  refine yields_loudnessOf.bind fun loudness hloud => ?_
  refine (yields_leadIn hP hb htick happroach hslot (h.with_motif hmotif)).bind
    fun line₁ h₁ => ?_
  have hstart : c.tickOfBar b ≤ bar.tick + slot.step
      ∧ bar.tick + slot.step < c.tickOfBar (b + 1) := by
    rw [tickOfBar_succ, htick]
    omega
  obtain ⟨line₂, hpush, h₂⟩ := h₁.push hP .main hb hpitch hstart hlength hloud
  refine (Yields.ofExcept hpush h₂).bind fun line₂ h₂ => ?_
  exact yields_fills hP hb htick hsrc (h₂.with_last hpitch)

theorem yields_writeSlot (hsrc : src.AlwaysPicks) {i : Nat}
    (hi : (i : Int) + 1 < Source.countLimit) (hslot : (slot.step : Int) < c.stepsPerBar)
    (hduration : 1 ≤ slot.duration ∧ slot.duration ≤ 8) (h : line.Goes c P b before) :
    Yields (c.writeSlot src bar line (slot, i)) fun line' => line'.Goes c P b before := by
  unfold writeSlot
  refine yields_draw.bind fun x _ => ?_
  split
  · exact .pure h
  · refine yields_draw.bind fun y _ => ?_
    split
    · exact .pure h
    · exact yields_soundSlot hP hb htick hsrc hi hslot hduration h

end Slots

/-! ## 4. Bars -/

theorem mem_slotsOf {rhythm : Rhythm} {syncopated : Bool} {slot : Slot}
    (h : slot ∈ c.slotsOf rhythm syncopated) :
    slot ∈ rhythm ∧ (slot.step : Int) < c.stepsPerBar := by
  obtain ⟨hmem, hstep⟩ := List.mem_filter.mp h
  refine ⟨?_, of_decide_eq_true hstep⟩
  split at hmem
  · exact hmem
  · exact (List.mem_filter.mp hmem).1

theorem length_slotsOf (rhythm : Rhythm) (syncopated : Bool) :
    (c.slotsOf rhythm syncopated).length ≤ rhythm.length := by
  refine Nat.le_trans (List.length_filter_le _ _) ?_
  split
  · exact Nat.le_refl _
  · exact List.length_filter_le _ _

/-- **A bar adds only notes of its own**, whatever line it goes on with and whatever role its phrase
    has. -/
theorem yields_writeBar (hsrc : src.AlwaysPicks) (hP : c.Keeps P) {role : Role}
    {line : Line Note Int} {bar : Option Chord × Int} (hb : 0 ≤ bar.2) (hline : line.Ready P) :
    Yields (c.writeBar src role line bar)
      fun line' => line'.Goes c P bar.2 line.strokes.toList := by
  unfold writeBar
  refine (Yields.ofExcept (settled_int _) (P := fun t => t = c.tickOfBar bar.2) rfl).bind ?_
  rintro tick rfl
  refine (yields_chooseFrom hsrc).bind fun rhythm hrhythm => ?_
  obtain ⟨hfew, hslots⟩ := slots_of_rhythms c.params.genre rhythm hrhythm
  refine yields_chance.bind fun syncopated _ => ?_
  have hstart : line.Goes c P bar.2 line.strokes.toList :=
    ⟨hline, [], (List.append_nil _).symm, fun s hs => absurd hs List.not_mem_nil⟩
  refine Yields.ite_bind (P := fun _ => True) (fun _ => .pure trivial) (fun _ => yields_chance)
    fun replays _ => ?_
  refine .foldlM hstart fun line' hline' slot hslot => ?_
  obtain ⟨hindex, hget⟩ := List.mem_zipIdx' (x := slot.1) (i := slot.2) hslot
  have hmem : slot.1 ∈ c.slotsOf rhythm syncopated := hget ▸ List.getElem_mem hindex
  have hlimit : (slot.2 : Int) + 1 < Source.countLimit := by
    have := length_slotsOf (c := c) rhythm syncopated
    have hlarge : (10 : Int) < Source.countLimit := by decide
    omega
  exact yields_writeSlot hP (c.tickOfBar_nonneg hb) rfl hsrc hlimit (mem_slotsOf hmem).2
    (hslots slot.1 (mem_slotsOf hmem).1) hline'

/-! ## 5. Phrases -/

/-- Strokes that fall into rows, one for each bar of a list. -/
inductive Rows (c : Composer Int) (P : Int → Prop) :
    List (Option Chord × Int) → List (Stroke Note) → Prop
  | nil : Rows c P [] []
  | cons {bar : Option Chord × Int} {bars : List (Option Chord × Int)}
      {row strokes : List (Stroke Note)} (hrow : ∀ s ∈ row, c.Shaped P bar.2 s.note)
      (h : Rows c P bars strokes) : Rows c P (bar :: bars) (row ++ strokes)

theorem Rows.append {bars others : List (Option Chord × Int)} {strokes more : List (Stroke Note)}
    (h : c.Rows P bars strokes) (h' : c.Rows P others more) :
    c.Rows P (bars ++ others) (strokes ++ more) := by
  induction h with
  | nil => exact h'
  | cons hrow _ ih =>
    rw [List.append_assoc]
    exact .cons hrow ih

/-- Every stroke is of some bar. -/
theorem Rows.exists_bar {bars : List (Option Chord × Int)} {strokes : List (Stroke Note)}
    (h : c.Rows P bars strokes) {s : Stroke Note} (hs : s ∈ strokes) :
    ∃ bar ∈ bars, c.Shaped P bar.2 s.note := by
  induction h with
  | nil => exact absurd hs List.not_mem_nil
  | @cons bar bars row strokes hrow _ ih =>
    rcases List.mem_append.mp hs with hs | hs
    · exact ⟨bar, List.mem_cons_self, hrow s hs⟩
    · obtain ⟨bar', hbar', hshaped⟩ := ih hs
      exact ⟨bar', List.mem_cons_of_mem _ hbar', hshaped⟩

/-- **The strokes of a phrase fall into rows, one for each of its bars.** -/
theorem yields_bars (hsrc : src.AlwaysPicks) (hP : c.Keeps P) {role : Role}
    {bars : List (Option Chord × Int)} {line : Line Note Int} (hbars : ∀ bar ∈ bars, 0 ≤ bar.2)
    (hline : line.Ready P) :
    Yields (bars.foldlM (c.writeBar src role) line) fun line' => line'.Ready P
      ∧ ∃ added, line'.strokes.toList = line.strokes.toList ++ added ∧ c.Rows P bars added := by
  induction bars generalizing line with
  | nil => exact .pure ⟨hline, [], (List.append_nil _).symm, .nil⟩
  | cons bar bars ih =>
    rw [List.foldlM_cons]
    refine (yields_writeBar hsrc hP (hbars bar List.mem_cons_self) hline).bind fun line₁ h₁ => ?_
    obtain ⟨row, hrow, hshaped⟩ := h₁.strokes
    refine (ih (fun bar hbar => hbars bar (List.mem_cons_of_mem _ hbar)) h₁.toReady).mono ?_
    rintro line₂ ⟨hline₂, added, hadded, hrows⟩
    refine ⟨hline₂, row ++ added, ?_, .cons hshaped hrows⟩
    rw [hadded, hrow, List.append_assoc]

theorem yields_writeBars (hsrc : src.AlwaysPicks) (hP : c.Keeps P) {role : Role} {motif : Motif}
    {bars : List (Option Chord × Int)} (hbars : ∀ bar ∈ bars, 0 ≤ bar.2) (hmotif : motif.Sound) :
    Yields (c.writeBars src role motif bars) fun line : Line Note Int =>
      line.motif.Sound ∧ c.Rows P bars line.strokes.toList := by
  refine (yields_bars hsrc hP hbars (Line.ready_start hmotif)).mono ?_
  rintro line ⟨hline, added, hadded, hrows⟩
  rw [hadded]
  exact ⟨hline.motif, hrows⟩

end Cantilena.Composer
