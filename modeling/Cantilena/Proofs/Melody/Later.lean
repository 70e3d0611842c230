import Cantilena.Proofs.Melody.Shape
import Cantilena.Proofs.Note.Moved
import Cantilena.Proofs.Random.Coupled

/-!
# Melodies that start later

Settings that start some bars later ask for the same draws, and the melody is the same but for the
ticks at which its notes start.

* `Params.later`, `Composer.later` -- the same, some bars later;
* `Composer.coupled_writeBar` -- a bar is written side by side with the same bar later;
* `Composer.compose_later` -- a melody of a later composer is the melody, moved in time.
-/

namespace Cantilena

/-! ## 1. Settings and composers -/

namespace Frame

variable (bars : Nat) (f : Frame Int)

theorem later_ok : ¬ f.startBar + bars < 0 := by
  have h : ¬ f.startBar < 0 := f.startBar_ok
  omega

/-- The same frame some bars later. -/
def later : Frame Int := { f with startBar := f.startBar + bars, startBar_ok := f.later_ok bars }

/-- The ticks of some bars. -/
def ticksOf : Nat := bars * f.stepsPerBar.toNat

theorem ticksOf_eq : (f.ticksOf bars : Int) = bars * f.stepsPerBar := by
  have hbeats : ¬ f.beatsPerBar < 1 := f.beatsPerBar_ok
  have hsteps : 0 ≤ f.stepsPerBar := by
    show 0 ≤ f.beatsPerBar * 4
    omega
  unfold ticksOf
  rw [Int.natCast_mul, Int.toNat_of_nonneg hsteps]

end Frame

/-- The same settings some bars later. -/
def Params.later (bars : Nat) (p : Params Int) : Params Int := { p with frame := p.frame.later bars }

/-- The same stroke some ticks later. -/
def Stroke.later (ticks : Nat) (s : Stroke Note) : Stroke Note := ⟨s.kind, s.note.later ticks⟩

namespace Composer

/-- The same composer some bars later. -/
def later (bars : Nat) (c : Composer Int) : Composer Int := { c with params := c.params.later bars }

/-- The same line some ticks later. -/
def Line.later (ticks : Nat) (line : Line Note Int) : Line Note Int :=
  { line with strokes := line.strokes.map (Stroke.later ticks) }

theorem Line.later_start (ticks : Nat) (motif : Motif) :
    ({ motif } : Line Note Int).later ticks = { motif } := by
  simp [Line.later]

/-- The same bar some ticks later. -/
def Bar.later (ticks : Nat) (bar : Bar Int) : Bar Int := { bar with tick := bar.tick + ticks }

variable {σ : Type} (src : Source σ) (c : Composer Int) (bars : Nat)

theorem tickOfBar_later (index : Int) :
    (c.later bars).tickOfBar index = c.tickOfBar index + c.params.frame.ticksOf bars := by
  rw [Frame.ticksOf_eq]
  show (c.params.frame.startBar + bars + index) * c.stepsPerBar
    = (c.params.frame.startBar + index) * c.stepsPerBar + bars * c.stepsPerBar
  rw [← Int.add_mul, Int.add_right_comm]

/-! ## 2. Strokes -/

/-- A stroke is written side by side with the same stroke later. -/
theorem matched_push (ticks : Nat) (kind : StrokeKind) (pitch : Int) {start : Int}
    (hstart : 0 ≤ start) (length : Int) (loudness : Float) (line : Line Note Int) :
    Matched (fun a b => b = Line.later ticks a) (push kind pitch start length loudness line)
      (push kind pitch (start + ticks) length loudness (line.later ticks)) := by
  refine matched_map_iff.mpr ?_
  unfold push
  cases velocityOf (.real loudness) with
  | error e => rfl
  | ok velocity =>
    show (Note.make pitch (start + ticks) length velocity >>= _)
      = (Note.make pitch start length velocity >>= _).map _
    rw [Note.make_later_eq hstart]
    cases Note.make pitch start length velocity with
    | error e => rfl
    | ok n =>
      refine congrArg (fun strokes => Except.ok { line with strokes }) ?_
      show (line.strokes.map (Stroke.later ticks)).push (Stroke.later ticks ⟨kind, n⟩)
        = (line.strokes.push ⟨kind, n⟩).map (Stroke.later ticks)
      rw [Array.map_push]

section Slots

variable {bar : Bar Int} (hbar : 0 ≤ bar.tick) (ticks : Nat)
include hbar

theorem coupled_fill (step : Nat) (pc : Int) (loudness : Float) (line : Line Note Int) :
    Coupled (fun a b => b = Line.later ticks a) (c.fill src bar step pc loudness line)
      ((c.later bars).fill src (bar.later ticks) step pc loudness (line.later ticks)) := by
  unfold fill
  refine .ite (fun _ => .pure rfl) fun _ => ?_
  refine .bind_same _ fun skipped => .ite (fun _ => .pure rfl) fun _ => ?_
  refine .bind_same _ fun nudge => .bind_same _ fun pitch => ?_
  have hstart : 0 ≤ bar.tick + (step : Int) := Int.add_nonneg hbar (Int.natCast_nonneg step)
  have htick : bar.tick + ticks + (step : Int) = bar.tick + step + ticks := Int.add_right_comm ..
  show Coupled _ (_ >>= _) (push .fill pitch (bar.tick + ticks + (step : Int)) 1 _ _ >>= _)
  rw [htick]
  refine (Coupled.ofExcept (matched_push ticks .fill pitch hstart 1 _ line)).bind ?_
  rintro line₁ _ rfl
  exact .pure rfl

theorem coupled_fills (slot : Slot) (pc : Int) (loudness : Float) (line : Line Note Int) :
    Coupled (fun a b => b = Line.later ticks a) (c.fills src bar slot pc loudness line)
      ((c.later bars).fills src (bar.later ticks) slot pc loudness (line.later ticks)) := by
  unfold fills
  refine .bind_same _ fun filled => .ite (fun _ => ?_) fun _ => .pure rfl
  refine (coupled_fill src c bars hbar ticks _ pc loudness line).bind ?_
  rintro line₁ _ rfl
  exact coupled_fill src c bars hbar ticks _ pc loudness line₁

theorem coupled_leadIn (slot : Slot) (approach : Option Int) (loudness : Float)
    (line : Line Note Int) :
    Coupled (fun a b => b = Line.later ticks a) (c.leadIn src bar slot approach loudness line)
      ((c.later bars).leadIn src (bar.later ticks) slot approach loudness (line.later ticks)) := by
  unfold leadIn
  cases approach with
  | none => exact .pure rfl
  | some pitch =>
    refine .ite (fun _ => .pure rfl) fun hstep => ?_
    refine .bind_same _ fun written => .ite (fun _ => ?_) fun _ => .pure rfl
    have hstart : 0 ≤ bar.tick + slot.step - 1 := by omega
    have htick : bar.tick + ticks + (slot.step : Int) - 1 = bar.tick + slot.step - 1 + ticks := by
      omega
    show Coupled _ _ (liftM (push .approach pitch (bar.tick + ticks + (slot.step : Int) - 1) 1 _ _))
    rw [htick]
    exact .ofExcept (matched_push ticks .approach pitch hstart 1 _ line)

/-- **The strokes of a slot are written side by side with those of the same slot later.** -/
theorem coupled_soundSlot (i : Nat) (slot : Slot) (line : Line Note Int) :
    Coupled (fun a b => b = Line.later ticks a) (c.soundSlot src bar i slot line)
      ((c.later bars).soundSlot src (bar.later ticks) i slot (line.later ticks)) := by
  unfold soundSlot
  refine .bind_same (c.aim src bar i slot line.motif) fun ⟨pc, motif⟩ => ?_
  refine .bind_same (c.nextPitch src line.last pc) fun pitch => ?_
  refine .bind_same (c.approach src line.last pitch) fun approach => ?_
  refine .bind_same (c.lengthOf src slot.duration) fun length => ?_
  refine .bind_same (c.loudnessOf src slot.accent) fun loudness => ?_
  refine (coupled_leadIn src c bars hbar ticks slot approach loudness { line with motif }).bind ?_
  rintro line₁ _ rfl
  have hstart : 0 ≤ bar.tick + (slot.step : Int) :=
    Int.add_nonneg hbar (Int.natCast_nonneg slot.step)
  have htick : bar.tick + ticks + (slot.step : Int) = bar.tick + slot.step + ticks :=
    Int.add_right_comm ..
  show Coupled _ (_ >>= _) (push .main pitch (bar.tick + ticks + (slot.step : Int)) length _ _ >>= _)
  rw [htick]
  refine (Coupled.ofExcept (matched_push ticks .main pitch hstart length _ line₁)).bind ?_
  rintro line₂ _ rfl
  exact coupled_fills src c bars hbar ticks slot pc loudness { line₂ with last := some pitch }

theorem coupled_writeSlot (slot : Slot × Nat) (line : Line Note Int) :
    Coupled (fun a b => b = Line.later ticks a) (c.writeSlot src bar line slot)
      ((c.later bars).writeSlot src (bar.later ticks) (line.later ticks) slot) := by
  unfold writeSlot
  refine .bind_same _ fun x => .ite (fun _ => .pure rfl) fun _ => ?_
  refine .bind_same _ fun y => .ite (fun _ => .pure rfl) fun _ => ?_
  exact coupled_soundSlot src c bars hbar ticks slot.2 slot.1 line

theorem coupled_slots (slots : List (Slot × Nat)) (line : Line Note Int) :
    Coupled (fun a b => b = Line.later ticks a) (slots.foldlM (c.writeSlot src bar) line)
      (slots.foldlM ((c.later bars).writeSlot src (bar.later ticks)) (line.later ticks)) := by
  refine .foldlM rfl fun line₁ _ hline slot _ => ?_
  subst hline
  exact coupled_writeSlot src c bars hbar ticks slot line₁

end Slots

/-! ## 3. Bars and phrases -/

/-- **A bar is written side by side with the same bar later.** -/
theorem coupled_writeBar (role : Role) {bar : Option Chord × Int} (hbar : 0 ≤ bar.2)
    (line : Line Note Int) :
    Coupled (fun a b => b = Line.later (c.params.frame.ticksOf bars) a)
      (c.writeBar src role line bar)
      ((c.later bars).writeBar src role (line.later (c.params.frame.ticksOf bars)) bar) := by
  unfold writeBar
  refine (Coupled.ofExcept (R := fun t t' : Int => 0 ≤ t ∧ t' = t + c.params.frame.ticksOf bars)
    (.ok ⟨c.tickOfBar_nonneg hbar, c.tickOfBar_later bars bar.2⟩)).bind ?_
  rintro tick _ ⟨htick, rfl⟩
  refine .bind_same _ fun rhythm => .bind_same _ fun syncopated => ?_
  have hbar (replays : Bool) :
      0 ≤ (⟨tick, bar.1.getD fallbackChord, role, replays⟩ : Bar Int).tick := htick
  have hslots (replays : Bool) := coupled_slots src c bars (hbar replays)
    (c.params.frame.ticksOf bars) (c.slotsOf rhythm syncopated).zipIdx line
  refine .ite (fun _ => ?_) fun _ => ?_
  · exact .bind_same _ fun replays => hslots replays
  · exact .bind_same _ fun replays => hslots replays

theorem coupled_writeBars (role : Role) (motif : Motif) {bars' : List (Option Chord × Int)}
    (hbars : ∀ bar ∈ bars', 0 ≤ bar.2) :
    Coupled (fun a b => b = Line.later (c.params.frame.ticksOf bars) a)
      (c.writeBars src role motif bars') ((c.later bars).writeBars src role motif bars') :=
  .foldlM (Line.later_start _ motif).symm fun line _ hline bar hbar => by
    subst hline
    exact coupled_writeBar src c bars role (hbars bar hbar) line

/-- **The strokes of phrases are written side by side with those of the same phrases later.** -/
theorem coupled_writePhrases (index first : Nat) (motif : Motif) (l : List (Option Chord)) :
    Coupled (fun a b => b = a.map (Stroke.later (c.params.frame.ticksOf bars)))
      (c.writePhrases src index first motif l)
      ((c.later bars).writePhrases src index first motif l) := by
  induction hl : l.length using Nat.strongRecOn generalizing index first motif l with
  | ind n ih =>
    subst hl
    cases l with
    | nil =>
      rw [writePhrases, writePhrases]
      exact .pure rfl
    | cons bar rest =>
      rw [writePhrases_cons, writePhrases_cons]
      have hbars : ∀ bar' ∈ numbered first (bar :: rest.take c.moreBars), 0 ≤ bar'.2 :=
        fun bar' h => Int.le_trans (Int.natCast_nonneg first) (mem_numbered h).1
      refine (coupled_writeBars src c bars (Role.ofIndex index) motif hbars).bind ?_
      rintro line _ rfl
      have hshorter : (rest.drop c.moreBars).length < (bar :: rest).length := by
        rw [List.length_drop, List.length_cons]
        omega
      refine (ih _ hshorter _ _ line.motif _ rfl).bind ?_
      rintro others _ rfl
      refine .pure ?_
      rw [List.map_append]
      exact congrArg (· ++ _) (Array.toList_map ..)

end Composer

/-! ## 4. Melodies -/

/-- Notes that are all moved are thinned as they were before. -/
theorem thin_later (ticks : Nat) (l : List Note) :
    thin (l.map (Note.later ticks)) = (thin l).map (Note.later ticks) :=
  thin_map (f := Note.later ticks) (fun _ _ => Int.add_left_inj _) (fun _ => rfl) l

namespace Composer

variable {σ : Type} (src : Source σ) (c : Composer Int) (bars : Nat)

/-- **The melody of a later composer is the melody, moved in time**, from the same draws. -/
theorem compose_later :
    (c.later bars).compose src
      = List.map (Note.later (c.params.frame.ticksOf bars)) <$> c.compose src := by
  refine Coupled.eq_map ?_
  refine (coupled_writePhrases src c bars 0 0 {} c.bars).bind ?_
  rintro strokes _ rfl
  refine .pure ?_
  unfold loudestPerTick
  rw [← thin_later, ← byStart_later, List.map_map, List.map_map]
  rfl

end Composer

end Cantilena
