import Cantilena.Proofs.Melody.Shape
import Cantilena.Proofs.Note.Raised
import Cantilena.Proofs.Random.Coupled

/-!
# Melodies in another octave

Whatever decides about a pitch looks at its class, at its distance from the pitch before and at its
place in the register. So settings that prefer another octave ask for the same draws, and the melody
is the same, some octaves higher, as long as the register stays clear of the ends of the range of
notes.

* `Params.raised`, `Composer.raised` -- the same, some octaves higher;
* `Composer.Roomy` -- a register that stays clear of these ends;
* `place_raised`, `neighbour_raised` -- what is placed in a raised register is raised;
* `Line.Rises` -- a line beside the same line, raised; every part of a slot keeps this;
* `Composer.compose_raised` -- a melody of a raised composer is the melody, raised.
-/

namespace Cantilena

/-! ## 1. Settings and composers -/

/-- The same frame some octaves higher. -/
def Frame.raised (octaves : Int) (f : Frame Int) : Frame Int := { f with octave := f.octave + octaves }

/-- The same settings some octaves higher. -/
def Params.raised (octaves : Int) (p : Params Int) : Params Int :=
  { p with frame := p.frame.raised octaves }

/-- The same stroke some semitones higher. -/
def Stroke.raised (semitones : Int) (s : Stroke Note) : Stroke Note :=
  ⟨s.kind, s.note.raised semitones⟩

namespace Composer

/-- The same composer some octaves higher. -/
def raised (octaves : Int) (c : Composer Int) : Composer Int :=
  { c with params := c.params.raised octaves }

/-- That the register stays clear of the ends of the range of notes: a pitch on the scale may lie six
    semitones beside the register, and its neighbour two more. -/
structure Roomy (c : Composer Int) : Prop where
  low : 0 ≤ c.lowest - 8
  high : c.highest + 8 ≤ 127

variable {c : Composer Int} {octaves : Int}

theorem middle_raised (c : Composer Int) (octaves pc : Int) :
    (c.raised octaves).middle pc = c.middle pc + 12 * octaves := by
  show pc + 12 * (c.params.frame.octave + octaves + 1) = pc + 12 * (c.params.frame.octave + 1) + _
  omega

theorem lowest_raised (c : Composer Int) (octaves : Int) :
    (c.raised octaves).lowest = c.lowest + 12 * octaves := by
  have hcentre : (c.raised octaves).centre = c.centre + 12 * octaves := c.middle_raised octaves _
  show (c.raised octaves).centre - c.params.frame.range = c.centre - c.params.frame.range + _
  omega

theorem highest_raised (c : Composer Int) (octaves : Int) :
    (c.raised octaves).highest = c.highest + 12 * octaves := by
  have hcentre : (c.raised octaves).centre = c.centre + 12 * octaves := c.middle_raised octaves _
  show (c.raised octaves).centre + c.params.frame.range = c.centre + c.params.frame.range + _
  omega

/-! ## 2. Placing -/

theorem keepBetween_add (low high x d : Int) :
    keepBetween (low + d) (high + d) (x + d) = keepBetween low high x + d := by
  rw [keepBetween_eq, keepBetween_eq]
  omega

theorem magnitude_add (a b d : Int) : magnitude (a + d - (b + d)) = magnitude (a - b) := by
  have h : a + d - (b + d) = a - b := Int.add_sub_add_right ..
  rw [h]

theorem nearer_add (last a b d : Int) :
    nearer (last + d) (a + d) (b + d) = nearer last a b + d := by
  unfold nearer
  rw [magnitude_add, magnitude_add]
  exact (apply_ite (· + d) ..).symm

/-- **The octave nearest to a raised pitch is the nearest octave, raised.** -/
theorem nearestOctave_raised (c : Composer Int) (octaves pc last : Int) :
    (c.raised octaves).nearestOctave pc (last + 12 * octaves)
      = c.nearestOctave pc last + 12 * octaves := by
  have hfold (l : List Int) (first : Int) :
      (l.map (· + 12 * octaves)).foldl (nearer (last + 12 * octaves)) (first + 12 * octaves)
        = l.foldl (nearer last) first + 12 * octaves := by
    induction l generalizing first with
    | nil => rfl
    | cons a l ih => rw [List.map_cons, List.foldl_cons, nearer_add, ih, List.foldl_cons]
  have hup (d : Int) : c.middle pc + 12 * octaves + d = c.middle pc + d + 12 * octaves :=
    Int.add_right_comm ..
  have hdown (d : Int) : c.middle pc + 12 * octaves - d = c.middle pc - d + 12 * octaves := by
    omega
  unfold nearestOctave
  simp only
  rw [middle_raised, hup, hup, hdown, hdown, ← hfold]
  rfl

theorem withinLeap_raised (c : Composer Int) (octaves last pitch : Int) :
    (c.raised octaves).withinLeap (last + 12 * octaves) (pitch + 12 * octaves)
      = c.withinLeap last pitch + 12 * octaves := by
  have hdistance : pitch + 12 * octaves - (last + 12 * octaves) = pitch - last :=
    Int.add_sub_add_right ..
  have hmost : (c.raised octaves).params.frame.maxLeap = c.params.frame.maxLeap := rfl
  unfold withinLeap
  simp only
  rw [hdistance, hmost]
  by_cases hfar : c.params.frame.maxLeap < magnitude (pitch - last)
  · rw [if_pos hfar, if_pos hfar]
    exact Int.add_right_comm ..
  · rw [if_neg hfar, if_neg hfar]

/-- A pitch on the scale, in the register or at most six semitones beside it. -/
structure Within (c : Composer Int) (pitch : Int) : Prop where
  mem : pitch % 12 ∈ c.key.classes
  low : c.lowest - 6 ≤ pitch
  high : pitch ≤ c.highest + 6

/-- A pitch that a note has, and still has when it is raised. -/
structure Movable (octaves pitch : Int) : Prop where
  range : 0 ≤ pitch ∧ pitch ≤ 127
  raised : 0 ≤ pitch + 12 * octaves ∧ pitch + 12 * octaves ≤ 127

section Placing

variable (hk : c.key.Sound)
include hk

/-- In a roomy register nothing is cut off when a pitch is placed. -/
theorem place_eq (hc : c.Roomy) (pitch : Int) :
    c.place pitch = c.key.snap (keepBetween c.lowest c.highest pitch)
      ∧ c.Within (c.place pitch) := by
  obtain ⟨hlow, hhigh⟩ := keepBetween_range c.lowest_le_highest pitch
  have hsix : (c.key.snap (keepBetween c.lowest c.highest pitch)
      - keepBetween c.lowest c.highest pitch).natAbs ≤ 6 :=
    natAbs_nearestIn_sub hk.ne_nil hk.range _
  have hmem := (hk.isNearest (keepBetween c.lowest c.highest pitch)).mem
  have hroomlow := hc.low
  have hroomhigh := hc.high
  have heq : c.place pitch = c.key.snap (keepBetween c.lowest c.highest pitch) :=
    keepBetween_of_mem (by omega) (by omega)
  exact ⟨heq, heq ▸ ⟨hmem, by omega, by omega⟩⟩

/-- **What is placed in a raised register is placed, raised.** -/
theorem place_raised (hc : c.Roomy) (hc' : (c.raised octaves).Roomy) (pitch : Int) :
    (c.raised octaves).place (pitch + 12 * octaves) = c.place pitch + 12 * octaves := by
  have hk' : (c.raised octaves).key.Sound := hk
  rw [(place_eq hk' hc' _).1, (place_eq hk hc pitch).1, lowest_raised, highest_raised,
    keepBetween_add]
  exact nearestIn_add ..

/-- A neighbour of a pitch on the scale is the pitch itself or lies within two semitones of it. -/
theorem neighbour_eq (hc : c.Roomy) (last : Int) {pitch : Int} (hpitch : c.Within pitch) :
    c.neighbour last pitch = c.key.snap (if last ≤ pitch then pitch - 1 else pitch + 1)
      ∧ c.lowest - 8 ≤ c.neighbour last pitch ∧ c.neighbour last pitch ≤ c.highest + 8 := by
  generalize hbeside : (if last ≤ pitch then pitch - 1 else pitch + 1) = beside
  have hstep : (pitch - beside).natAbs = 1 := by
    by_cases hup : last ≤ pitch
    · rw [if_pos hup] at hbeside
      omega
    · rw [if_neg hup] at hbeside
      omega
  -- the pitch is on the scale itself, so the nearest one is no further away
  have hnear := (hk.isNearest beside).nearest pitch hpitch.mem
  have hlow := hpitch.low
  have hhigh := hpitch.high
  have hroomlow := hc.low
  have hroomhigh := hc.high
  have heq : c.neighbour last pitch = c.key.snap beside := by
    unfold neighbour
    rw [hbeside]
    exact keepBetween_of_mem (by omega) (by omega)
  exact ⟨heq, by omega, by omega⟩

/-- **A neighbour that leads into a raised pitch is the neighbour, raised.** -/
theorem neighbour_raised (hc : c.Roomy) (hc' : (c.raised octaves).Roomy) {last pitch : Int}
    (hpitch : c.Within pitch) :
    (c.raised octaves).neighbour (last + 12 * octaves) (pitch + 12 * octaves)
      = c.neighbour last pitch + 12 * octaves := by
  have hk' : (c.raised octaves).key.Sound := hk
  have hpitch' : (c.raised octaves).Within (pitch + 12 * octaves) := by
    refine ⟨?_, ?_, ?_⟩
    · rw [Int.add_mul_emod_self_left]
      exact hpitch.mem
    · rw [lowest_raised]
      have := hpitch.low
      omega
    · rw [highest_raised]
      have := hpitch.high
      omega
  have hbeside : (if last + 12 * octaves ≤ pitch + 12 * octaves then pitch + 12 * octaves - 1
        else pitch + 12 * octaves + 1)
      = (if last ≤ pitch then pitch - 1 else pitch + 1) + 12 * octaves := by
    by_cases hup : last ≤ pitch
    · rw [if_pos hup, if_pos (by omega)]
      omega
    · rw [if_neg hup, if_neg (by omega)]
      omega
  rw [(neighbour_eq hk' hc' _ hpitch').1, (neighbour_eq hk hc _ hpitch).1, hbeside]
  exact nearestIn_add ..

end Placing

/-- What lies at most eight semitones beside a roomy register can be raised with it. -/
theorem Roomy.movable (hc : c.Roomy) (hc' : (c.raised octaves).Roomy) {pitch : Int}
    (hlow : c.lowest - 8 ≤ pitch) (hhigh : pitch ≤ c.highest + 8) : Movable octaves pitch := by
  have hroomlow := hc.low
  have hroomhigh := hc.high
  have hroomlow' := hc'.low
  have hroomhigh' := hc'.high
  rw [lowest_raised] at hroomlow'
  rw [highest_raised] at hroomhigh'
  exact ⟨⟨by omega, by omega⟩, by omega, by omega⟩

theorem Within.movable {pitch : Int} (h : c.Within pitch) (hc : c.Roomy)
    (hc' : (c.raised octaves).Roomy) : Movable octaves pitch := by
  have hlow := h.low
  have hhigh := h.high
  exact hc.movable hc' (by omega) (by omega)

/-! ## 3. Lines -/

/-- The same line some semitones higher. -/
def Line.raised (semitones : Int) (line : Line Note Int) : Line Note Int :=
  { line with
    strokes := line.strokes.map (Stroke.raised semitones)
    last := line.last.map (· + semitones) }

/-- A line beside the same line some octaves higher: its last pitch is about the register, and all
    its notes can be raised. -/
structure Line.Rises (c : Composer Int) (octaves : Int) (line line' : Line Note Int) : Prop where
  eq : line' = line.raised (12 * octaves)
  last : ∀ pitch, line.last = some pitch → c.Within pitch
  strokes : ∀ s ∈ line.strokes, s.note.CanRise (12 * octaves)

namespace Line.Rises

variable {line line' : Line Note Int}

theorem start (motif : Motif) :
    Line.Rises c octaves ({ motif } : Line Note Int) { motif } where
  eq := by simp [Line.raised]
  last _ h := by cases h
  strokes _ h := absurd h (Array.not_mem_empty _)

theorem motif_eq (h : line.Rises c octaves line') : line'.motif = line.motif := by
  rw [h.eq]
  rfl

theorem last_eq (h : line.Rises c octaves line') :
    line'.last = line.last.map (· + 12 * octaves) := by
  rw [h.eq]
  rfl

theorem with_motif (h : line.Rises c octaves line') (motif : Motif) :
    ({ line with motif } : Line Note Int).Rises c octaves { line' with motif } where
  eq := by
    rw [h.eq]
    rfl
  last := h.last
  strokes := h.strokes

theorem with_last (h : line.Rises c octaves line') {pitch : Int} (hpitch : c.Within pitch) :
    ({ line with last := some pitch } : Line Note Int).Rises c octaves
      { line' with last := some (pitch + 12 * octaves) } where
  eq := by
    rw [h.eq]
    rfl
  last _ hq := Option.some.inj hq ▸ hpitch
  strokes := h.strokes

/-- **A stroke is written side by side with the raised stroke.** -/
theorem push (h : line.Rises c octaves line') {pitch : Int} (hpitch : Movable octaves pitch)
    (kind : StrokeKind) (start length : Int) (loudness : Float) :
    Matched (Line.Rises c octaves) (Composer.push kind pitch start length loudness line)
      (Composer.push kind (pitch + 12 * octaves) start length loudness line') := by
  unfold Composer.push
  cases velocityOf (.real loudness) with
  | error e => exact .error e
  | ok velocity =>
    show Matched _ (Note.make pitch start length velocity >>= _)
      (Note.make (pitch + 12 * octaves) start length velocity >>= _)
    rw [Note.make_raised hpitch.range hpitch.raised]
    cases hnote : Note.make pitch start length velocity with
    | error e => exact .error e
    | ok n =>
      have hn : n.pitch = pitch := (Note.of_make_eq_ok hnote).1
      have hrise : n.CanRise (12 * octaves) := by
        rw [Note.CanRise, hn]
        exact hpitch.raised
      refine .ok ⟨?_, h.last, fun s hs => ?_⟩
      · rw [h.eq]
        refine congrArg (fun strokes : Array (Stroke Note) =>
          (⟨strokes, line.motif, line.last.map (· + 12 * octaves)⟩ : Line Note Int)) ?_
        show (line.strokes.map (Stroke.raised _)).push (Stroke.raised (12 * octaves) ⟨kind, n⟩) = _
        rw [← Array.map_push]
      · rcases Array.mem_push.mp hs with hs | rfl
        · exact h.strokes s hs
        · exact hrise

end Line.Rises

/-! ## 4. Pitches -/

section Writing

variable {σ : Type} (src : Source σ) (hk : c.key.Sound) (hc : c.Roomy)
  (hc' : (c.raised octaves).Roomy)
include hk hc hc'

omit hk hc hc' in
theorem coupled_maybeLeap (last near : Int) :
    Coupled (fun a b => b = a + 12 * octaves) (c.maybeLeap src last near)
      ((c.raised octaves).maybeLeap src (last + 12 * octaves) (near + 12 * octaves)) := by
  unfold maybeLeap
  simp only
  rw [magnitude_add]
  refine .bind_same _ fun prefersStep => .ite (fun _ => ?_) fun _ => .pure rfl
  refine .bind_same _ fun leaps => .ite (fun _ => ?_) fun _ => .pure rfl
  exact .bind_same _ fun up => .pure (Int.add_right_comm ..)

/-- **The pitch of a class is chosen side by side with the raised one.** -/
theorem coupled_nextPitch {last : Option Int} (hlast : ∀ pitch, last = some pitch → c.Within pitch)
    (pc : Int) :
    Coupled (fun a b => b = a + 12 * octaves ∧ c.Within a) (c.nextPitch src last pc)
      ((c.raised octaves).nextPitch src (last.map (· + 12 * octaves)) pc) := by
  have hplaced (pitch : Int) : (c.raised octaves).place (pitch + 12 * octaves)
      = c.place pitch + 12 * octaves ∧ c.Within (c.place pitch) :=
    ⟨place_raised hk hc hc' pitch, (place_eq hk hc pitch).2⟩
  have hcheck : Coupled (σ := σ) (fun _ _ => True) (liftM c.checkRegister)
      (liftM (c.raised octaves).checkRegister) := .ofExcept (.ok trivial)
  cases last with
  | none =>
    refine hcheck.bind fun _ _ _ => .pure ?_
    rw [middle_raised]
    exact hplaced _
  | some last =>
    show Coupled _ (c.maybeLeap src last (c.nearestOctave pc last) >>= _)
      ((c.raised octaves).maybeLeap src (last + 12 * octaves)
        ((c.raised octaves).nearestOctave pc (last + 12 * octaves)) >>= _)
    rw [nearestOctave_raised]
    refine (coupled_maybeLeap src last _).bind ?_
    rintro pitch _ rfl
    refine hcheck.bind fun _ _ _ => .pure ?_
    rw [withinLeap_raised]
    exact hplaced _

theorem coupled_approach {last : Option Int} {pitch : Int} (hpitch : c.Within pitch) :
    Coupled (fun a b => b = a.map (· + 12 * octaves) ∧ ∀ p, a = some p → Movable octaves p)
      (c.approach src last pitch)
      ((c.raised octaves).approach src (last.map (· + 12 * octaves)) (pitch + 12 * octaves)) := by
  cases last with
  | none => exact .pure ⟨rfl, nofun⟩
  | some last =>
    refine .bind_same _ fun written => .ite (fun _ => .pure ?_) fun _ => .pure ⟨rfl, nofun⟩
    obtain ⟨-, hlow, hhigh⟩ := neighbour_eq hk hc last hpitch
    refine ⟨congrArg some (neighbour_raised hk hc hc' hpitch), fun p hp => ?_⟩
    obtain rfl := Option.some.inj hp
    exact hc.movable hc' hlow hhigh

/-! ## 5. Slots -/

variable (bar : Bar Int) {line line' : Line Note Int}

theorem rises_fill (h : line.Rises c octaves line') (step : Nat) (pc : Int) (loudness : Float) :
    Coupled (Line.Rises c octaves) (c.fill src bar step pc loudness line)
      ((c.raised octaves).fill src bar step pc loudness line') := by
  unfold fill
  refine .ite (fun _ => .pure h) fun _ => ?_
  refine .bind_same _ fun skipped => .ite (fun _ => .pure h) fun _ => ?_
  refine .bind_same _ fun nudge => ?_
  rw [h.last_eq]
  refine (coupled_nextPitch src hk hc hc' h.last _).bind ?_
  rintro pitch _ ⟨rfl, hpitch⟩
  refine (Coupled.ofExcept (h.push (hpitch.movable hc hc') .fill _ 1 _)).bind ?_
  exact fun line₁ line₁' h₁ => .pure (h₁.with_last hpitch)

theorem rises_fills (h : line.Rises c octaves line') (slot : Slot) (pc : Int) (loudness : Float) :
    Coupled (Line.Rises c octaves) (c.fills src bar slot pc loudness line)
      ((c.raised octaves).fills src bar slot pc loudness line') := by
  unfold fills
  refine .bind_same _ fun filled => .ite (fun _ => ?_) fun _ => .pure h
  refine (rises_fill src hk hc hc' bar h _ pc loudness).bind fun line₁ line₁' h₁ => ?_
  exact rises_fill src hk hc hc' bar h₁ _ pc loudness

omit hk hc hc' in
theorem rises_leadIn (h : line.Rises c octaves line') (slot : Slot) {approach : Option Int}
    (happroach : ∀ p, approach = some p → Movable octaves p) (loudness : Float) :
    Coupled (Line.Rises c octaves) (c.leadIn src bar slot approach loudness line)
      ((c.raised octaves).leadIn src bar slot (approach.map (· + 12 * octaves)) loudness line') := by
  unfold leadIn
  cases approach with
  | none => exact .pure h
  | some pitch =>
    refine .ite (fun _ => .pure h) fun _ => ?_
    refine .bind_same _ fun written => .ite (fun _ => ?_) fun _ => .pure h
    exact .ofExcept (h.push (happroach pitch rfl) .approach _ 1 _)

/-- **The strokes of a slot are written side by side with the raised ones.** -/
theorem rises_soundSlot (h : line.Rises c octaves line') (i : Nat) (slot : Slot) :
    Coupled (Line.Rises c octaves) (c.soundSlot src bar i slot line)
      ((c.raised octaves).soundSlot src bar i slot line') := by
  obtain rfl := h.eq
  unfold soundSlot
  refine .bind_same (c.aim src bar i slot line.motif) fun ⟨pc, motif⟩ => ?_
  refine (coupled_nextPitch src hk hc hc' h.last pc).bind ?_
  rintro pitch _ ⟨rfl, hpitch⟩
  refine (coupled_approach src hk hc hc' hpitch).bind ?_
  rintro approach _ ⟨rfl, happroach⟩
  refine .bind_same (c.lengthOf src slot.duration) fun length => ?_
  refine .bind_same (c.loudnessOf src slot.accent) fun loudness => ?_
  refine (rises_leadIn src bar (h.with_motif motif) slot happroach loudness).bind ?_
  intro line₁ line₁' h₁
  refine (Coupled.ofExcept (h₁.push (hpitch.movable hc hc') .main _ length loudness)).bind ?_
  intro line₂ line₂' h₂
  exact rises_fills src hk hc hc' bar (h₂.with_last hpitch) slot pc loudness

theorem rises_writeSlot (h : line.Rises c octaves line') (slot : Slot × Nat) :
    Coupled (Line.Rises c octaves) (c.writeSlot src bar line slot)
      ((c.raised octaves).writeSlot src bar line' slot) := by
  unfold writeSlot
  refine .bind_same _ fun x => .ite (fun _ => .pure h) fun _ => ?_
  refine .bind_same _ fun y => .ite (fun _ => .pure h) fun _ => ?_
  exact rises_soundSlot src hk hc hc' bar h slot.2 slot.1

/-! ## 6. Bars and phrases -/

omit bar in
/-- **A bar is written side by side with the raised bar.** -/
theorem rises_writeBar (h : line.Rises c octaves line') (role : Role) (bar : Option Chord × Int) :
    Coupled (Line.Rises c octaves) (c.writeBar src role line bar)
      ((c.raised octaves).writeBar src role line' bar) := by
  unfold writeBar
  rw [h.motif_eq]
  refine .bind_same _ fun tick => .bind_same _ fun rhythm => .bind_same _ fun syncopated => ?_
  have hslots (replays : Bool) := Coupled.foldlM (l := (c.slotsOf rhythm syncopated).zipIdx) h
    fun line₁ line₁' h₁ slot _ => rises_writeSlot src hk hc hc'
      (⟨tick, bar.1.getD fallbackChord, role, replays⟩ : Bar Int) h₁ slot
  refine .ite (fun _ => ?_) fun _ => ?_
  · exact .bind_same _ fun replays => hslots replays
  · exact .bind_same _ fun replays => hslots replays

omit bar in
/-- **The strokes of phrases are written side by side with the raised ones.** -/
theorem rises_writePhrases (index first : Nat) (motif : Motif) (bars : List (Option Chord)) :
    Coupled (fun a b => b = a.map (Stroke.raised (12 * octaves))
        ∧ ∀ s ∈ a, s.note.CanRise (12 * octaves))
      (c.writePhrases src index first motif bars)
      ((c.raised octaves).writePhrases src index first motif bars) := by
  induction hl : bars.length using Nat.strongRecOn generalizing index first motif bars with
  | ind n ih =>
    subst hl
    cases bars with
    | nil =>
      rw [writePhrases, writePhrases]
      exact .pure ⟨rfl, fun s hs => absurd hs List.not_mem_nil⟩
    | cons bar rest =>
      rw [writePhrases_cons, writePhrases_cons]
      have hphrase : Coupled (Line.Rises c octaves)
          (c.writeBars src (Role.ofIndex index) motif
            (numbered first (bar :: rest.take c.moreBars)))
          ((c.raised octaves).writeBars src (Role.ofIndex index) motif
            (numbered first (bar :: rest.take c.moreBars))) :=
        .foldlM (.start motif) fun line line' h bar' _ => rises_writeBar src hk hc hc' h _ bar'
      refine hphrase.bind fun line line' hline => ?_
      have hshorter : (rest.drop c.moreBars).length < (bar :: rest).length := by
        rw [List.length_drop, List.length_cons]
        omega
      rw [hline.motif_eq]
      refine (ih _ hshorter _ _ line.motif _ rfl).bind ?_
      rintro others _ ⟨rfl, hothers⟩
      refine .pure ⟨?_, fun s hs => ?_⟩
      · rw [List.map_append, hline.eq]
        exact congrArg (· ++ _) (Array.toList_map ..)
      · rcases List.mem_append.mp hs with hs | hs
        · exact hline.strokes s (Array.mem_toList_iff.mp hs)
        · exact hothers s hs

end Writing

end Composer

/-! ## 7. Melodies -/

/-- Notes that are all raised are thinned as they were before. -/
theorem loudestPerTick_raised (semitones : Int) (l : List Note) :
    loudestPerTick (l.map (Note.raised semitones))
      = (loudestPerTick l).map (Note.raised semitones) := by
  unfold loudestPerTick
  rw [byStart_raised]
  exact thin_map (f := Note.raised semitones) (fun _ _ => Iff.rfl) (fun _ => rfl) _

namespace Composer

variable {σ : Type} (src : Source σ) {c : Composer Int} {octaves : Int}

/-- **The melody of a raised composer is the melody, raised**, from the same draws, where both
    registers are roomy; and no note of it goes beyond the range of notes. -/
theorem compose_raised (hk : c.key.Sound) (hc : c.Roomy) (hc' : (c.raised octaves).Roomy) :
    Coupled (fun a b => b = a.map (Note.raised (12 * octaves))
        ∧ ∀ n ∈ a, n.CanRise (12 * octaves))
      (c.compose src) ((c.raised octaves).compose src) := by
  refine (rises_writePhrases src hk hc hc' 0 0 {} c.bars).bind ?_
  rintro strokes _ ⟨rfl, hstrokes⟩
  refine .pure ⟨?_, fun n hn => ?_⟩
  · rw [← loudestPerTick_raised, List.map_map, List.map_map]
    rfl
  · obtain ⟨s, hs, rfl⟩ := List.mem_map.mp (mem_of_mem_loudestPerTick hn)
    exact hstrokes s hs

end Composer

end Cantilena
