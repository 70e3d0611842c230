import Cantilena.Proofs.Melody.Reach
import Cantilena.Proofs.Melody.Shape
import Cantilena.Proofs.Random.Recorded
import Cantilena.Proofs.Random.Unit

/-!
# Melodies of full density

At full density and without rests every slot of a bar sounds. The rhythm of a bar is drawn on the way
and cannot be seen from its notes, so the melody is written once more beside a record of the rhythms.

* `Composer.Noted.compose` -- the melody, with the number and the rhythm of every bar on record;
* `Sounds`, `ensures_sounds_soundSlot` -- a slot that sounds leaves a stroke on its step, whatever
  leads into it and fills up behind it;
* `Composer.yields_full_slots` -- at full density all slots of a bar sound;
* `Composer.Heard` -- the record of some bars, and strokes on all the beats it names;
* `compose_full_density` -- no beat of a rhythm goes missing from the melody.
-/

namespace Cantilena

/-- A walk over values that keeps a property, and after which each of the values has left its mark, if
    no step takes a mark away. -/
theorem Yields.foldlM_marked {σ α β : Type} {f : β → α → Drawing σ β} {R : β → Prop}
    {marked : α → β → Prop} {l : List α} {b : β} (hb : R b)
    (hf : ∀ b, R b → ∀ a ∈ l, Yields (f b a) fun b' =>
      R b' ∧ marked a b' ∧ ∀ x, marked x b → marked x b') :
    Yields (l.foldlM f b) fun b' =>
      R b' ∧ (∀ a ∈ l, marked a b') ∧ ∀ x, marked x b → marked x b' := by
  induction l generalizing b with
  | nil => exact .pure ⟨hb, fun a ha => absurd ha List.not_mem_nil, fun x hx => hx⟩
  | cons a l ih =>
    rw [List.foldlM_cons]
    refine (hf b hb a List.mem_cons_self).bind fun b₁ h₁ => ?_
    obtain ⟨hb₁, hmark, hkept⟩ := h₁
    refine (ih hb₁ fun b hb x hx => hf b hb x (List.mem_cons_of_mem _ hx)).mono fun b₂ h₂ => ?_
    obtain ⟨hb₂, hmarks, hkept₂⟩ := h₂
    refine ⟨hb₂, fun x hx => ?_, fun x hx => hkept₂ x (hkept x hx)⟩
    rcases List.mem_cons.mp hx with rfl | hx
    · exact hkept₂ x hmark
    · exact hmarks x hx

/-- What holds of every result holds of the one there is. -/
theorem Yields.and_ensures {σ α : Type} {d : Drawing σ α} {P Q : α → Prop} (hd : Yields d P)
    (he : Ensures d Q) : Yields d fun a => P a ∧ Q a := by
  intro s
  obtain ⟨a, s', hrun, ha⟩ := hd s
  exact ⟨a, s', hrun, ha, he s a (congrArg Prod.fst hrun)⟩

namespace Composer

variable {σ : Type} (src : Source σ) (c : Composer Int)

/-! ## 1. The melody beside a record of its rhythms -/

/-- The number of a bar and the rhythm that is drawn for it. -/
abbrev Measure := Int × Rhythm

namespace Noted

/-- The strokes of a bar with a chord. -/
def writeBar (role : Role) (line : Line Note Int) (bar : Option Chord × Int) :
    Drawing (σ × List Measure) (Line Note Int) := do
  let genre := c.params.genre
  let t := c.params.tendencies
  let tick ← settled (c.tickOfBar bar.2)
  let rhythm ← silently (src.chooseFrom "tuple" genre.firstRhythm genre.otherRhythms)
  record (bar.2, rhythm)
  let syncopated ← silently (src.chance t.syncopation.value)
  let slots := c.slotsOf rhythm syncopated
  let replays ←
    if line.motif.isEmpty then pure false else silently (src.chance t.motifReuse.value)
  let bar : Bar Int := ⟨tick, bar.1.getD fallbackChord, role, replays⟩
  silently (slots.zipIdx.foldlM (c.writeSlot src bar) line)

/-- The strokes of numbered bars, and the motif they end with. -/
def writeBars (role : Role) (motif : Motif) (bars : List (Option Chord × Int)) :
    Drawing (σ × List Measure) (Line Note Int) :=
  bars.foldlM (writeBar src c role) { motif }

/-- The strokes of the phrases from one on: a first bar and as many more as a phrase has, and then the
    phrases behind them. -/
def writePhrases (index first : Nat) (motif : Motif) (bars : List (Option Chord)) :
    Drawing (σ × List Measure) (List (Stroke Note)) :=
  match bars with
  | [] => pure []
  | bar :: rest => do
    let here := numbered first (bar :: rest.take c.moreBars)
    let line ← writeBars src c (Role.ofIndex index) motif here
    let others ← writePhrases (index + 1) (first + here.length) line.motif (rest.drop c.moreBars)
    return line.strokes.toList ++ others
termination_by bars.length
decreasing_by simp only [List.length_drop, List.length_cons]; omega

/-- The melody, by start, with at most one note per tick. -/
def compose : Drawing (σ × List Measure) (List Note) := do
  let strokes ← writePhrases src c 0 0 {} c.bars
  return loudestPerTick (strokes.map (·.note))

end Noted

variable {src} {c} {P : Int → Prop}

/-! ## 2. A slot that sounds -/

/-- Whether some stroke starts on a tick. -/
def Sounds (strokes : List (Stroke Note)) (tick : Int) : Prop :=
  ∃ stroke ∈ strokes, stroke.note.start = tick

theorem Sounds.mono {strokes strokes' : List (Stroke Note)} {tick : Int}
    (hsubset : strokes ⊆ strokes') (h : Sounds strokes tick) : Sounds strokes' tick := by
  obtain ⟨stroke, hstroke, htick⟩ := h
  exact ⟨stroke, hsubset hstroke, htick⟩

/-- One more stroke is behind all others, and starts where it is asked for. -/
theorem start_of_push {kind : StrokeKind} {pitch start length : Int} {loudness : Float}
    {line line' : Line Note Int} (h : push kind pitch start length loudness line = .ok line') :
    line.strokes.toList <+: line'.strokes.toList ∧ Sounds line'.strokes.toList start := by
  obtain ⟨n, -, hstart, rfl⟩ := of_push_eq_ok h
  have hstrokes : (line.strokes.push ⟨kind, n⟩).toList = line.strokes.toList ++ [⟨kind, n⟩] :=
    Array.toList_push
  refine ⟨?_, ⟨⟨kind, n⟩, ?_, hstart⟩⟩
  · rw [hstrokes]
    exact List.prefix_append _ _
  · rw [hstrokes]
    exact List.mem_append_right _ List.mem_cons_self

theorem ensures_prefix_fill {bar : Bar Int} {step : Nat} {pc : Int} {loudness : Float}
    {line : Line Note Int} :
    Ensures (c.fill src bar step pc loudness line)
      fun line' => line.strokes.toList <+: line'.strokes.toList := by
  unfold fill
  refine .ite (fun _ => .pure (List.prefix_refl _)) fun _ => .bind_any fun skipped => ?_
  refine .ite (fun _ => .pure (List.prefix_refl _)) fun _ => .bind_any fun nudge => ?_
  refine .bind_any fun pitch => ?_
  exact (Ensures.ofExcept fun line' => start_of_push).bind fun line₁ h₁ => .pure h₁.1

theorem ensures_prefix_fills {bar : Bar Int} {slot : Slot} {pc : Int} {loudness : Float}
    {line : Line Note Int} :
    Ensures (c.fills src bar slot pc loudness line)
      fun line' => line.strokes.toList <+: line'.strokes.toList := by
  unfold fills
  refine .bind_any fun filled => .ite (fun _ => ?_) fun _ => .pure (List.prefix_refl _)
  exact ensures_prefix_fill.bind fun line₁ h₁ => ensures_prefix_fill.mono fun line₂ h₂ => h₁.trans h₂

/-- **A slot that sounds leaves a stroke on its step**, and takes none away. -/
theorem ensures_sounds_soundSlot {bar : Bar Int} {i : Nat} {slot : Slot} {line : Line Note Int} :
    Ensures (c.soundSlot src bar i slot line) fun line' =>
      line.strokes.toList <+: line'.strokes.toList
        ∧ Sounds line'.strokes.toList (bar.tick + slot.step) := by
  unfold soundSlot
  refine .bind_any fun ⟨pc, motif⟩ => .bind_any fun pitch => .bind_any fun approach => ?_
  refine .bind_any fun length => .bind_any fun loudness => ?_
  refine ensures_leadIn.bind fun line₁ hled => ?_
  refine (Ensures.ofExcept fun line' => start_of_push).bind fun line₂ ⟨hpush, hsounds⟩ => ?_
  refine ensures_prefix_fills.mono fun line₃ hfills => ?_
  obtain ⟨lead, hlead, -⟩ := hled.strokes
  have hled' : line.strokes.toList <+: line₁.strokes.toList := by
    rw [hlead]
    exact List.prefix_append _ _
  exact ⟨(hled'.trans hpush).trans hfills, hsounds.mono hfills.subset⟩

/-! ## 3. Bars of full density -/

/-- A slot on an even step within the bar is one of those that are played, with syncopation or
    without. -/
theorem mem_slotsOf_of_even {rhythm : Rhythm} {syncopated : Bool} {slot : Slot}
    (hmem : slot ∈ rhythm) (heven : slot.step % 2 = 0) (hstep : (slot.step : Int) < c.stepsPerBar) :
    slot ∈ c.slotsOf rhythm syncopated := by
  refine List.mem_filter.mpr ⟨?_, decide_eq_true hstep⟩
  split
  · exact hmem
  · exact List.mem_filter.mpr ⟨hmem, beq_iff_eq.mpr heven⟩

section Full

variable (hsrc : src.AlwaysPicks) (hunits : src.DrawsUnits) (hP : c.Keeps P)
  (hdensity : 1.0 ≤ c.params.tendencies.density.value)
  (hrest : c.params.tendencies.restChance.value ≤ 0.0)
include hunits hdensity hrest

/-- **At full density and without rests a slot sounds.** -/
theorem yields_full_slot {bar : Bar Int} {line : Line Note Int} {slot : Slot × Nat}
    {R : Line Note Int → Prop} (h : Yields (c.soundSlot src bar slot.2 slot.1 line) R) :
    Yields (c.writeSlot src bar line slot) R := by
  unfold writeSlot
  refine (yields_draw_unit hunits).bind fun x hx => ?_
  rw [if_neg (hx.not_above hdensity)]
  refine (yields_draw_unit hunits).bind fun y hy => ?_
  rw [if_neg (hy.not_below hrest)]
  exact h

include hsrc hP

/-- **At full density all slots of a bar sound.** -/
theorem yields_full_slots {b : Int} {bar : Bar Int} {rhythm : Rhythm} {syncopated : Bool}
    {line : Line Note Int} (hb : 0 ≤ c.tickOfBar b) (htick : bar.tick = c.tickOfBar b)
    (hrhythm : rhythm ∈ c.params.genre.rhythms) (hline : line.Ready P) :
    Yields ((c.slotsOf rhythm syncopated).zipIdx.foldlM (c.writeSlot src bar) line) fun line' =>
      line'.Ready P ∧ line.strokes.toList <+: line'.strokes.toList
        ∧ ∀ slot ∈ c.slotsOf rhythm syncopated,
          Sounds line'.strokes.toList (c.tickOfBar b + slot.step) := by
  obtain ⟨hfew, hslots⟩ := slots_of_rhythms c.params.genre rhythm hrhythm
  have hstep (line₁ : Line Note Int) (h₁ : line₁.Goes c P b line.strokes.toList)
      (slot : Slot × Nat) (hslot : slot ∈ (c.slotsOf rhythm syncopated).zipIdx) :
      Yields (c.writeSlot src bar line₁ slot) fun line₂ =>
        line₂.Goes c P b line.strokes.toList
          ∧ Sounds line₂.strokes.toList (c.tickOfBar b + slot.1.step)
          ∧ ∀ x : Slot × Nat, Sounds line₁.strokes.toList (c.tickOfBar b + x.1.step) →
            Sounds line₂.strokes.toList (c.tickOfBar b + x.1.step) := by
    obtain ⟨hindex, hget⟩ := List.mem_zipIdx' (x := slot.1) (i := slot.2) hslot
    have hmem : slot.1 ∈ c.slotsOf rhythm syncopated := hget ▸ List.getElem_mem hindex
    have hlimit : (slot.2 : Int) + 1 < Source.countLimit := by
      have := length_slotsOf (c := c) rhythm syncopated
      have hlarge : (10 : Int) < Source.countLimit := by decide
      omega
    have hsounds := yields_soundSlot hP hb htick hsrc hlimit (mem_slotsOf hmem).2
      (hslots slot.1 (mem_slotsOf hmem).1) h₁
    refine yields_full_slot hunits hdensity hrest
      ((hsounds.and_ensures ensures_sounds_soundSlot).mono fun line₂ h₂ => ?_)
    obtain ⟨hgoes, hprefix, hown⟩ := h₂
    rw [htick] at hown
    exact ⟨hgoes, hown, fun x => .mono hprefix.subset⟩
  have hstart : line.Goes c P b line.strokes.toList :=
    ⟨hline, [], (List.append_nil _).symm, fun s hs => absurd hs List.not_mem_nil⟩
  refine (Yields.foldlM_marked hstart hstep).mono fun line' h => ?_
  obtain ⟨hgoes, hmarks, -⟩ := h
  obtain ⟨row, hrow, -⟩ := hgoes.strokes
  refine ⟨hgoes.toReady, ⟨row, hrow.symm⟩, fun slot hslot => ?_⟩
  obtain ⟨i, hi, hget⟩ := List.mem_iff_getElem.mp hslot
  exact hmarks (slot, i) (List.mem_zipIdx_iff_getElem?.mpr (hget ▸ List.getElem?_eq_getElem hi))

end Full

/-! ## 4. Bars on record -/

/-- The record of some bars: it has their numbers in order and rhythms of the genre, and on every beat
    that it names some stroke starts. -/
structure Heard (c : Composer Int) (bars : List (Option Chord × Int)) (strokes : List (Stroke Note))
    (measures : List Measure) : Prop where
  numbers : measures.map Prod.fst = bars.map Prod.snd
  rhythm : ∀ m ∈ measures, m.2 ∈ c.params.genre.rhythms
  beat : ∀ m ∈ measures, ∀ slot ∈ m.2, slot.step % 2 = 0 → (slot.step : Int) < c.stepsPerBar →
    Sounds strokes (c.tickOfBar m.1 + slot.step)

theorem Heard.nil (strokes : List (Stroke Note)) : c.Heard [] strokes [] := ⟨rfl, nofun, nofun⟩

/-- More strokes do not take a beat away. -/
theorem Heard.mono {bars : List (Option Chord × Int)} {strokes strokes' : List (Stroke Note)}
    {measures : List Measure} (h : c.Heard bars strokes measures) (hsubset : strokes ⊆ strokes') :
    c.Heard bars strokes' measures :=
  ⟨h.numbers, h.rhythm, fun m hm slot hslot heven hstep =>
    (h.beat m hm slot hslot heven hstep).mono hsubset⟩

theorem Heard.append {bars others : List (Option Chord × Int)} {strokes : List (Stroke Note)}
    {measures more : List Measure} (h : c.Heard bars strokes measures)
    (h' : c.Heard others strokes more) : c.Heard (bars ++ others) strokes (measures ++ more) where
  numbers := by rw [List.map_append, List.map_append, h.numbers, h'.numbers]
  rhythm m hm := (List.mem_append.mp hm).elim (h.rhythm m) (h'.rhythm m)
  beat m hm := (List.mem_append.mp hm).elim (h.beat m) (h'.beat m)

section Full

variable (hsrc : src.AlwaysPicks) (hunits : src.DrawsUnits) (hP : c.Keeps P)
  (hdensity : 1.0 ≤ c.params.tendencies.density.value)
  (hrest : c.params.tendencies.restChance.value ≤ 0.0)
include hsrc hunits hP hdensity hrest

/-- **A bar of full density has a stroke on every beat of the rhythm on record.** -/
theorem heard_writeBar {role : Role} {line : Line Note Int} {bar : Option Chord × Int}
    (hb : 0 ≤ bar.2) (hline : line.Ready P) :
    YieldsBeside (Noted.writeBar src c role line bar) (c.writeBar src role line bar)
      fun line' measures => line'.Ready P ∧ line.strokes.toList <+: line'.strokes.toList
        ∧ c.Heard [bar] line'.strokes.toList measures := by
  unfold Noted.writeBar writeBar
  refine .ofExcept_bind (settled_int _) ?_
  refine .silently_bind (yields_chooseFrom hsrc) fun rhythm hrhythm => .record_bind ?_
  refine .silently_bind yields_chance fun syncopated _ => ?_
  have hslots (replays : Bool) :
      let written := (c.slotsOf rhythm syncopated).zipIdx.foldlM
        (c.writeSlot src ⟨c.tickOfBar bar.2, bar.1.getD fallbackChord, role, replays⟩) line
      YieldsBeside (silently written) written fun line' more =>
        line'.Ready P ∧ line.strokes.toList <+: line'.strokes.toList
          ∧ c.Heard [bar] line'.strokes.toList ((bar.2, rhythm) :: more) := by
    refine .silently ((yields_full_slots hsrc hunits hP hdensity hrest (c.tickOfBar_nonneg hb) rfl
      hrhythm hline).mono fun line' h => ?_)
    obtain ⟨hready, hprefix, hsounds⟩ := h
    refine ⟨hready, hprefix, rfl, ?_, ?_⟩
    · intro m hm
      exact List.mem_singleton.mp hm ▸ hrhythm
    · intro m hm slot hslot heven hstep
      obtain rfl := List.mem_singleton.mp hm
      exact hsounds slot (mem_slotsOf_of_even hslot heven hstep)
  refine .ite (fun _ => hslots false) fun _ => ?_
  exact .silently_bind yields_chance fun replays _ => hslots replays

/-- **So do bars that are written one after the other.** -/
theorem heard_bars {role : Role} {bars : List (Option Chord × Int)} {line : Line Note Int}
    (hbars : ∀ bar ∈ bars, 0 ≤ bar.2) (hline : line.Ready P) :
    YieldsBeside (bars.foldlM (Noted.writeBar src c role) line)
      (bars.foldlM (c.writeBar src role) line) fun line' measures =>
        line'.Ready P ∧ line.strokes.toList <+: line'.strokes.toList
          ∧ c.Heard bars line'.strokes.toList measures := by
  induction bars generalizing line with
  | nil => exact .pure ⟨hline, List.prefix_refl _, .nil _⟩
  | cons bar bars ih =>
    rw [List.foldlM_cons, List.foldlM_cons]
    refine (heard_writeBar hsrc hunits hP hdensity hrest (hbars bar List.mem_cons_self) hline).bind
      fun line₁ measures h₁ => ?_
    obtain ⟨hready, hprefix, hheard⟩ := h₁
    refine (ih (fun bar hbar => hbars bar (List.mem_cons_of_mem _ hbar)) hready).mono ?_
    intro line₂ more h₂
    obtain ⟨hready₂, hprefix₂, hheard₂⟩ := h₂
    exact ⟨hready₂, hprefix.trans hprefix₂, (hheard.mono hprefix₂.subset).append hheard₂⟩

/-- **So do all phrases from one on.** -/
theorem heard_writePhrases {index first : Nat} {motif : Motif} {bars : List (Option Chord)}
    (hmotif : motif.Sound) :
    YieldsBeside (Noted.writePhrases src c index first motif bars)
      (c.writePhrases src index first motif bars : Drawing σ (List (Stroke Note)))
      (c.Heard (numbered first bars)) := by
  induction hl : bars.length using Nat.strongRecOn generalizing index first motif bars with
  | ind k ih =>
    cases bars with
    | nil =>
      rw [writePhrases, Noted.writePhrases]
      exact .pure (.nil [])
    | cons bar rest =>
      rw [writePhrases_cons, Noted.writePhrases]
      have hbars : ∀ bar' ∈ numbered first (bar :: rest.take c.moreBars), 0 ≤ bar'.2 :=
        fun bar' h => Int.le_trans (Int.natCast_nonneg first) (mem_numbered h).1
      refine (heard_bars hsrc hunits hP hdensity hrest hbars (Line.ready_start hmotif)).bind
        fun line measures h => ?_
      obtain ⟨hready, -, hheard⟩ := h
      have hshorter : (rest.drop c.moreBars).length < k := by
        rw [List.length_drop]
        rw [List.length_cons] at hl
        omega
      refine (ih _ hshorter hready.motif rfl).bind fun others more hothers => .pure ?_
      have hsplit := numbered_take_drop first (c.moreBars + 1) (bar :: rest)
      rw [List.take_succ_cons, List.drop_succ_cons] at hsplit
      rw [hsplit, List.append_nil]
      exact (hheard.mono (List.subset_append_left _ _)).append
        (hothers.mono (List.subset_append_right _ _))

end Full

theorem map_snd_numbered (bars : List (Option Chord)) :
    (numbered 0 bars).map Prod.snd = (List.range bars.length).map Int.ofNat := by
  unfold numbered
  rw [List.map_map, List.range_eq_range', ← List.zipIdx_map_snd 0 bars, List.map_map]
  exact List.map_congr_left fun x _ => Int.zero_add _

end Composer

/-! ## 5. Melodies -/

/-- **At full density no beat goes missing.** Settings that are admitted have a composer over every
    progression. With full density and without rests it has a melody whatever is drawn, and beside a
    record of the rhythms it writes the same one: the record has a rhythm of the genre for every bar of
    the progression, in order, and on each of its even steps within the bar a note of the melody
    starts, whatever else there is on that tick. -/
theorem compose_full_density {σ : Type} {src : Source σ} (hsrc : src.AlwaysPicks)
    (hunits : src.DrawsUnits) {r : Registry} (hr : r.Reachable) {p : Params Int} (hp : p.Admitted r)
    (hdensity : 1.0 ≤ p.tendencies.density.value) (hrest : p.tendencies.restChance.value ≤ 0.0)
    (entries : List Entry) :
    ∃ c : Composer Int, (composerFor r p entries).outcome = .ok c
      ∧ ∀ s, ∃ (melody : List Note) (s' : σ) (measures : List Composer.Measure),
        (c.compose src).run s = (.ok melody, s')
        ∧ (Composer.Noted.compose src c).run (s, []) = (.ok melody, (s', measures))
        ∧ measures.map Prod.fst = (List.range (entries.map Entry.bars).sum).map Int.ofNat
        ∧ ∀ m ∈ measures, m.2 ∈ p.genre.rhythms
          ∧ ∀ slot ∈ m.2, slot.step % 2 = 0 → (slot.step : Int) < p.frame.stepsPerBar →
            ∃ n ∈ melody, n.start = (p.frame.startBar + m.1) * p.frame.stepsPerBar + slot.step := by
  obtain ⟨k, hc, -⟩ := exists_composer hr hp entries
  refine ⟨_, hc, fun s => ?_⟩
  generalize hcomposer : (⟨p, k, barChords entries⟩ : Composer Int) = c at hc ⊢
  have hbars : c.bars = barChords entries := by rw [← hcomposer]
  obtain rfl : c.params = p := by rw [← hcomposer]
  have hmelody : YieldsBeside (Composer.Noted.compose src c) (c.compose src) fun melody measures =>
      ∃ strokes, melody = loudestPerTick (strokes.map Stroke.note)
        ∧ c.Heard (Composer.numbered 0 c.bars) strokes measures := by
    refine (Composer.heard_writePhrases hsrc hunits c.keeps_range hdensity hrest
      Motif.sound_empty).bind fun strokes measures h => .pure ⟨strokes, rfl, ?_⟩
    rw [List.append_nil]
    exact h
  obtain ⟨melody, s', measures, hrun, hrecord, strokes, rfl, hheard⟩ := hmelody s
  refine ⟨_, s', measures, hrun, hrecord [], ?_, fun m hm => ⟨hheard.rhythm m hm, ?_⟩⟩
  · rw [hheard.numbers, Composer.map_snd_numbered, hbars, length_barChords]
  · intro slot hslot heven hstep
    obtain ⟨stroke, hstroke, hstart⟩ := hheard.beat m hm slot hslot heven hstep
    obtain ⟨n, hn, hsame, -⟩ := exists_mem_loudestPerTick (List.mem_map_of_mem hstroke)
    exact ⟨n, hn, hsame.trans hstart⟩

/-- The settings from the start at full density and without rests. -/
def Params.dense : Params Int :=
  { Params.start with
    tendencies := { Tendencies.start with
      density := ⟨1.0, by decide, by decide⟩, restChance := ⟨0.0, by decide, by decide⟩ } }

/-- Two bars of A minor at full density, from a source that does not change. -/
theorem compose_full_density_two_bars :
    ∃ c : Composer Int,
      (composerFor Registry.builtin Params.dense [⟨['A', 'm'], 2, by decide⟩]).outcome = .ok c
        ∧ ∃ (melody : List Note) (measures : List Composer.Measure),
          (Composer.Noted.compose (Source.fixed 0.5) c).run ((), []) = (.ok melody, ((), measures))
          ∧ measures.map Prod.fst = [0, 1]
          ∧ ∀ m ∈ measures, ∀ slot ∈ m.2, slot.step % 2 = 0 → (slot.step : Int) < 16 →
            ∃ n ∈ melody, n.start = (0 + m.1) * 16 + slot.step := by
  have hadmitted : Params.dense.Admitted Registry.builtin :=
    ⟨(Params.admitted_start _).mode, (Params.admitted_start _).preferred⟩
  have hunits : (Source.fixed 0.5).DrawsUnits :=
    Source.drawsUnits_fixed ⟨by decide, by decide⟩
  obtain ⟨c, hc, hmelody⟩ := compose_full_density (Source.alwaysPicks_fixed 0.5) hunits .builtin
    hadmitted (by decide) (by decide) [⟨['A', 'm'], 2, by decide⟩]
  obtain ⟨melody, _, measures, -, hrecord, hnumbers, hbeats⟩ := hmelody ()
  exact ⟨c, hc, melody, measures, hrecord, hnumbers, fun m hm => (hbeats m hm).2⟩

end Cantilena
