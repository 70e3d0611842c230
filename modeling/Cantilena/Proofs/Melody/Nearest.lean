import Cantilena.Proofs.Melody.Classes
import Cantilena.Proofs.Melody.Reach
import Cantilena.Proofs.Melody.Tonic
import Cantilena.Proofs.Random.Recorded

/-!
# The nearest octave

A class is placed in the nearest of five octaves. These are all that are needed as long as the
previous pitch is not too far from the middle of the register, and a line gets no further than its
register and its scale let it.

* `isNearest_nearestOctave` -- within nineteen semitones of the middle, the octave that is found is
  the nearest of all;
* `Call`, `Recorded.nextPitch`, `Recorded.writePhrase` -- a phrase beside a record of the octaves
  that are asked for on its way;
* `records_writePhrase` -- it does as the phrase does, and all octaves in its record are the nearest;
* `octaves_nearest` -- the phrases of melodies over progressions.
-/

namespace Cantilena

namespace Composer

variable {σ : Type} {src : Source σ} {c : Composer Int} {reach : Nat}

/-! ## 1. Five octaves -/

/-- That a pitch is of a class, at most six semitones from the previous one, and none of this class
    is nearer. -/
structure IsNearestOf (pc last pitch : Int) : Prop where
  mem : pitch % 12 = pc
  near : (pitch - last).natAbs ≤ 6
  nearest : ∀ q : Int, q % 12 = pc → (pitch - last).natAbs ≤ (q - last).natAbs

/-- Of several pitches one is found that is as near as any of them. -/
theorem foldl_nearer (last : Int) (l : List Int) (first : Int) :
    l.foldl (nearer last) first ∈ first :: l
      ∧ ∀ q ∈ first :: l, (l.foldl (nearer last) first - last).natAbs ≤ (q - last).natAbs := by
  induction l generalizing first with
  | nil =>
    exact ⟨List.mem_cons_self, fun q hq => List.mem_singleton.mp hq ▸ Nat.le_refl _⟩
  | cons a l ih =>
    have hnearer : (nearer last first a = first ∨ nearer last first a = a)
        ∧ (nearer last first a - last).natAbs ≤ (first - last).natAbs
        ∧ (nearer last first a - last).natAbs ≤ (a - last).natAbs := by
      unfold nearer
      rw [magnitude_eq, magnitude_eq]
      split <;> omega
    obtain ⟨hmem, hleast⟩ := ih (nearer last first a)
    rw [List.foldl_cons]
    have hhead := hleast _ List.mem_cons_self
    refine ⟨?_, List.forall_mem_cons.mpr ⟨by omega, List.forall_mem_cons.mpr ⟨by omega, ?_⟩⟩⟩
    · rcases List.mem_cons.mp hmem with he | hmem
      · rw [he]
        rcases hnearer.1 with he | he
        · rw [he]
          exact List.mem_cons_self
        · rw [he]
          exact List.mem_cons_of_mem _ List.mem_cons_self
      · exact List.mem_cons_of_mem _ (List.mem_cons_of_mem _ hmem)
    · exact fun q hq => hleast q (List.mem_cons_of_mem _ hq)

/-- A pitch at most six semitones from the previous one is the nearest one of its class. -/
theorem isNearestOf_of_le {pc last pitch : Int} (hmem : pitch % 12 = pc)
    (hsix : (pitch - last).natAbs ≤ 6) : IsNearestOf pc last pitch :=
  ⟨hmem, hsix, fun q hq => by omega⟩

/-- **Five octaves are enough** for a previous pitch within nineteen semitones of the middle: two
    classes are at most eleven semitones apart, and two octaves and a tritone are thirty. -/
theorem isNearest_nearestOctave (htonic : IsClass c.key.tonic) {pc last : Int} (hpc : IsClass pc)
    (hlast : (last - c.centre).natAbs ≤ 19) : IsNearestOf pc last (c.nearestOctave pc last) := by
  obtain ⟨htonicLow, htonicHigh⟩ := htonic
  obtain ⟨hlow, hhigh⟩ := hpc
  have hcentre : c.centre = c.key.tonic + 12 * (c.params.frame.octave + 1) := rfl
  have hmiddle : c.middle pc = pc + 12 * (c.params.frame.octave + 1) := rfl
  obtain ⟨hmem, hleast⟩ := foldl_nearer last
    [c.middle pc, c.middle pc + 12, c.middle pc + 24, c.middle pc - 24] (c.middle pc - 12)
  have hfar : (last - c.middle pc).natAbs ≤ 30 := by omega
  obtain ⟨q, hq, hclose⟩ : ∃ q ∈ [c.middle pc - 12, c.middle pc, c.middle pc + 12, c.middle pc + 24,
      c.middle pc - 24], (q - last).natAbs ≤ 6 := by
    by_cases h₁ : last ≤ c.middle pc - 18
    · exact ⟨c.middle pc - 24, by simp, by omega⟩
    by_cases h₂ : last ≤ c.middle pc - 6
    · exact ⟨c.middle pc - 12, by simp, by omega⟩
    by_cases h₃ : last ≤ c.middle pc + 6
    · exact ⟨c.middle pc, by simp, by omega⟩
    by_cases h₄ : last ≤ c.middle pc + 18
    · exact ⟨c.middle pc + 12, by simp, by omega⟩
    · exact ⟨c.middle pc + 24, by simp, by omega⟩
  refine isNearestOf_of_le ?_ (Nat.le_trans (hleast q hq) hclose)
  simp only [List.mem_cons, List.not_mem_nil, or_false] at hmem
  show c.nearestOctave pc last % 12 = pc
  generalize hfound : c.nearestOctave pc last = found
  have hfound' : [c.middle pc, c.middle pc + 12, c.middle pc + 24, c.middle pc - 24].foldl
    (nearer last) (c.middle pc - 12) = found := hfound
  rw [hfound'] at hmem
  omega

/-! ## 2. A phrase beside a record -/

/-- An octave that is asked for: the class, the previous pitch, and the pitch that is found. -/
structure Call where
  pc : Int
  last : Int
  pitch : Int
  deriving DecidableEq

namespace Recorded

variable (src) (c)

/-- The pitch of a class after the previous note, for which the nearest octave is asked for. -/
def nextPitch (last : Option Int) (pc : Int) : Drawing (σ × List Call) Int := do
  match last with
  | none => silently (c.nextPitch src none pc)
  | some last =>
    let near := c.nearestOctave pc last
    record (⟨pc, last, near⟩ : Call)
    let pitch ← silently (c.maybeLeap src last near)
    c.checkRegister
    return c.place (c.withinLeap last pitch)

/-- A fill at a step behind a note, if one is written. -/
def fill (bar : Bar Int) (step : Nat) (pc : Int) (loudness : Float) (line : Line Note Int) :
    Drawing (σ × List Call) (Line Note Int) := do
  if c.stepsPerBar ≤ (step : Int) then return line
  else if ← silently (src.chance 0.55) then return line
  else
    let nudge ← silently (src.choose (-2) [-1, 1, 2])
    let pitch ← nextPitch src c line.last (c.key.snap (pc + nudge) % 12)
    let line ← push .fill pitch (bar.tick + (step : Int)) 1
      (keepBetween 0.2 1.0 (loudness * 0.7)) line
    return { line with last := some pitch }

/-- The fills behind a note, now and then. -/
def fills (bar : Bar Int) (slot : Slot) (pc : Int) (loudness : Float) (line : Line Note Int) :
    Drawing (σ × List Call) (Line Note Int) := do
  let t := c.params.tendencies
  let filled ← silently (src.chance (t.fillChance.value * t.randomness.value))
  if filled && (slot.step : Int) ≤ c.stepsPerBar - 4 then
    let line ← fill src c bar (slot.step + 1) pc loudness line
    fill src c bar (slot.step + 2) pc loudness line
  else return line

/-- The strokes of a slot that sounds. -/
def soundSlot (bar : Bar Int) (i : Nat) (slot : Slot) (line : Line Note Int) :
    Drawing (σ × List Call) (Line Note Int) := do
  let (pc, motif) ← silently (c.aim src bar i slot line.motif)
  let pitch ← nextPitch src c line.last pc
  let approach ← silently (c.approach src line.last pitch)
  let length ← silently (c.lengthOf src slot.duration)
  let loudness ← silently (c.loudnessOf src slot.accent)
  let line ← silently (c.leadIn src bar slot approach loudness { line with motif })
  let line ← push .main pitch (bar.tick + (slot.step : Int)) length loudness line
  fills src c bar slot pc loudness { line with last := some pitch }

/-- The strokes of a slot, which may stay silent. -/
def writeSlot (bar : Bar Int) (line : Line Note Int) (slot : Slot × Nat) :
    Drawing (σ × List Call) (Line Note Int) := do
  if (← silently src.draw) > c.params.tendencies.density.value then return line
  else if (← silently src.draw) < c.params.tendencies.restChance.value then return line
  else soundSlot src c bar slot.2 slot.1 line

/-- The strokes of a bar with a chord. -/
def writeBar (role : Role) (line : Line Note Int) (bar : Option Chord × Int) :
    Drawing (σ × List Call) (Line Note Int) := do
  let genre := c.params.genre
  let t := c.params.tendencies
  let tick ← settled (c.tickOfBar bar.2)
  let rhythm ← silently (src.chooseFrom "tuple" genre.firstRhythm genre.otherRhythms)
  let syncopated ← silently (src.chance t.syncopation.value)
  let slots := c.slotsOf rhythm syncopated
  let replays ←
    if line.motif.isEmpty then pure false else silently (src.chance t.motifReuse.value)
  let bar : Bar Int := ⟨tick, bar.1.getD fallbackChord, role, replays⟩
  slots.zipIdx.foldlM (writeSlot src c bar) line

/-- The strokes of numbered bars, and the motif they end with. -/
def writeBars (role : Role) (motif : Motif) (bars : List (Option Chord × Int)) :
    Drawing (σ × List Call) (Line Note Int) :=
  bars.foldlM (writeBar src c role) { motif }

/-- The notes of a phrase of some bars, and its motif. -/
def writePhrase (first count : Int) (role : Role) (motif : Motif) :
    Drawing (σ × List Call) (List Note × Motif) := do
  let bars := (c.barsFrom first).take count.toNat
  let line ← writeBars src c role motif bars
  if (bars.length : Int) < count then throw (.noSuchPlace "list")
  return (line.strokes.toList.map (·.note), line.motif)

end Recorded

/-! ## 3. What is recorded -/

/-- What is known of an octave that is asked for: the class has a property, the pitch is the one that
    the composer finds, and if the class is one of the twelve it is the nearest one of this class. -/
structure Call.Sound (c : Composer Int) (K : Int → Prop) (call : Call) : Prop where
  holds : K call.pc
  found : call.pitch = c.nearestOctave call.pc call.last
  nearest : IsClass call.pc → IsNearestOf call.pc call.last call.pitch

section Records

variable {K : Int → Prop} (hK : ∀ pc, IsClass pc → K pc) (htonic : IsClass c.key.tonic)
  (hk : c.key.Sound) (hc : c.Roomy) (hreach : IsReach c.key.classes reach)
  (hfew : c.params.frame.range + reach ≤ 19)
include htonic hfew

theorem records_nextPitch {last : Option Int} (hlast : ∀ p, last = some p → c.Near reach p)
    {pc : Int} (hpc : K pc) :
    Records (Call.Sound c K) (Recorded.nextPitch src c last pc) (c.nextPitch src last pc) := by
  cases last with
  | none => exact .silently _
  | some last =>
    have hnear := hlast last rfl
    unfold Near at hnear
    have hclose : (last - c.centre).natAbs ≤ 19 := by omega
    have hcall : Call.Sound c K ⟨pc, last, c.nearestOctave pc last⟩ :=
      ⟨hpc, rfl, fun hclass => isNearest_nearestOctave htonic hclass hclose⟩
    refine .record_bind hcall (.bind_any (.silently _) fun pitch => ?_)
    exact .bind_any (.ofExcept _) fun _ => .pure _

include hK

theorem records_fill {bar : Bar Int} {step : Nat} {pc : Int} {loudness : Float}
    {line : Line Note Int} (h : line.Contained c reach) :
    Records (Call.Sound c K) (Recorded.fill src c bar step pc loudness line)
      (c.fill src bar step pc loudness line) := by
  refine .ite (fun _ => .pure _) fun _ => .bind_any (.silently _) fun skipped => ?_
  refine .ite (fun _ => .pure _) fun _ => .bind_any (.silently _) fun nudge => ?_
  refine .bind_any ?_ fun pitch => .bind_any (.ofExcept _) fun line => .pure _
  exact records_nextPitch htonic hfew (fun _ => h.near_last) (hK _ (isClass_emod _))

include hk hc hreach

theorem records_fills {bar : Bar Int} {slot : Slot} {pc : Int} {loudness : Float}
    {line : Line Note Int} (h : line.Contained c reach) :
    Records (Call.Sound c K) (Recorded.fills src c bar slot pc loudness line)
      (c.fills src bar slot pc loudness line) := by
  refine .bind_any (.silently _) fun filled => .ite (fun _ => ?_) fun _ => .pure _
  refine .bind (ensures_fill hk hc hreach h) (records_fill hK htonic hfew h) fun line₁ h₁ => ?_
  exact records_fill hK htonic hfew h₁

theorem records_soundSlot {bar : Bar Int} {i : Nat} {slot : Slot} {line : Line Note Int}
    (h : line.Contained c reach) (hmotif : line.motif.Holds K) :
    Records (Call.Sound c K) (Recorded.soundSlot src c bar i slot line)
      (c.soundSlot src bar i slot line) := by
  refine .bind (ensures_aim hk hK hmotif bar i slot) (.silently _) ?_
  rintro ⟨pc, motif⟩ ⟨hpc, -⟩
  have hlast : ∀ last, line.last = some last → c.Near reach last := fun _ => h.near_last
  refine .bind (ensures_nextPitch hk hc hreach hlast pc) (records_nextPitch htonic hfew hlast hpc) ?_
  rintro pitch ⟨hnear, hwithin, hleap⟩
  refine .bind (ensures_approach hk hc line.last hwithin) (.silently _) fun approach happroach => ?_
  refine .bind_any (.silently _) fun length => .bind_any (.silently _) fun loudness => ?_
  refine .bind ensures_leadIn (.silently _) fun line₁ hled => ?_
  refine .bind (.ofExcept fun line' => pushed_of_push) (.ofExcept _) fun line₂ hpushed => ?_
  exact records_fills hK htonic hk hc hreach hfew (h.main hnear hleap happroach hled hpushed)

/-- A line whose last pitch is about the register, and whose motif has classes with a property. -/
def Line.Tracked (c : Composer Int) (reach : Nat) (K : Int → Prop) (line : Line Note Int) : Prop :=
  line.Contained c reach ∧ line.motif.Holds K

omit htonic hfew in
theorem ensures_tracked_soundSlot {bar : Bar Int} {i : Nat} {slot : Slot} {line : Line Note Int}
    (h : line.Tracked c reach K) :
    Ensures (c.soundSlot src bar i slot line) (Line.Tracked c reach K) :=
  (ensures_soundSlot hk hc hreach h.1).and (ensures_holds_soundSlot hk hK h.2)

theorem records_writeSlot {bar : Bar Int} {slot : Slot × Nat} {line : Line Note Int}
    (h : line.Tracked c reach K) :
    Records (Call.Sound c K) (Recorded.writeSlot src c bar line slot)
      (c.writeSlot src bar line slot) := by
  refine .bind_any (.silently _) fun x => .ite (fun _ => .pure _) fun _ => ?_
  refine .bind_any (.silently _) fun y => .ite (fun _ => .pure _) fun _ => ?_
  exact records_soundSlot hK htonic hk hc hreach hfew h.1 h.2

theorem records_writeBar {role : Role} {bar : Option Chord × Int} {line : Line Note Int}
    (h : line.Tracked c reach K) :
    Records (Call.Sound c K) (Recorded.writeBar src c role line bar)
      (c.writeBar src role line bar) := by
  refine .bind_any (.ofExcept _) fun tick => .bind_any (.silently _) fun rhythm => ?_
  refine .bind_any (.silently _) fun syncopated => ?_
  have hslots (bar : Bar Int) (slots : List (Slot × Nat)) :
      Records (Call.Sound c K) (slots.foldlM (Recorded.writeSlot src c bar) line)
        (slots.foldlM (c.writeSlot src bar) line) :=
    .foldlM h
      (fun _ h' _ _ => ensures_writeSlot
        (fun _ _ _ _ => ensures_tracked_soundSlot hK hk hc hreach) h')
      fun _ h' _ _ => records_writeSlot hK htonic hk hc hreach hfew h'
  refine .ite (fun _ => .bind_any (.pure _) fun _ => hslots _ _) fun _ => ?_
  exact .bind_any (.silently _) fun _ => hslots _ _

theorem records_writeBars {role : Role} {motif : Motif} {bars : List (Option Chord × Int)}
    (hmotif : motif.Holds K) :
    Records (Call.Sound c K) (Recorded.writeBars src c role motif bars)
      (c.writeBars src role motif bars) :=
  .foldlM ⟨.start c reach motif, hmotif⟩
    (fun _ h _ _ => ensures_writeBar (fun _ _ _ _ => ensures_tracked_soundSlot hK hk hc hreach) h)
    fun _ h _ _ => records_writeBar hK htonic hk hc hreach hfew h

/-- **A phrase with a record is the phrase**, and every octave in its record is the nearest. -/
theorem records_writePhrase {first count : Int} {role : Role} {motif : Motif}
    (hmotif : motif.Holds K) :
    Records (Call.Sound c K) (Recorded.writePhrase src c first count role motif)
      (c.writePhrase src first count role motif) := by
  refine .bind_any (records_writeBars hK htonic hk hc hreach hfew hmotif) fun line => ?_
  refine .ite (fun _ => .bind_any (.silently (throw _)) fun _ => .pure _) fun _ => .pure _

end Records

end Composer

/-- **A melody asks for the nearest octave and gets it.** Settings that are admitted have a composer
    over every progression. If the register and the reach of the scale are nineteen semitones or less
    to either side, and the register stays clear of the ends of the range of notes, then each phrase
    finds a pitch of the class it asks for, at most six semitones from the previous one, whatever is
    drawn for it. Only a motif given up front may ask for what is no class; no phrase makes such
    a motif. -/
theorem octaves_nearest {r : Registry} (hr : r.Reachable) {p : Params Int} (hp : p.Admitted r)
    (entries : List Entry) :
    ∃ (c : Composer Int) (reach : Nat), (composerFor r p entries).outcome = .ok c
      ∧ c.params = p ∧ IsReach c.key.classes reach
      ∧ (c.Roomy → p.frame.range + reach ≤ 19 → ∀ (σ : Type) (src : Source σ) (role : Role)
          (first count : Int) (motif : Motif) (outcome : Except Fault (List Note × Motif))
          (s s' : σ),
        (c.writePhrase src first count role motif).run s = (outcome, s') →
        ∃ calls : List Composer.Call,
          (Composer.Recorded.writePhrase src c first count role motif).run (s, [])
              = (outcome, (s', calls))
            ∧ (∀ call ∈ calls, call.pitch = c.nearestOctave call.pc call.last
                ∧ (IsClass call.pc → Composer.IsNearestOf call.pc call.last call.pitch))
            ∧ (motif.Holds IsClass → (∀ call ∈ calls, IsClass call.pc)
                ∧ ∀ notes motif', outcome = .ok (notes, motif') → motif'.Holds IsClass)) := by
  obtain ⟨k, hkey, -⟩ := Params.exists_key hr hp (barChords entries)
  obtain ⟨hk, htonic⟩ := Params.rests_of_key hr hkey
  obtain ⟨reach, -, hreach⟩ := exists_isReach hk.ne_nil hk.range
  have hclass : IsClass k.tonic :=
    htonic fun _ chord hchord => isRooted_of_barChords (List.mem_of_head? hchord)
  refine ⟨⟨p, k, barChords entries⟩, reach, composerFor_eq_ok hkey, rfl, hreach, ?_⟩
  intro hroomy hfew σ src role first count motif outcome s s' hrun
  -- a class that is asked for is one of the twelve as long as those of the motif are
  obtain ⟨calls, hrecorded, hcalls⟩ := Composer.records_writePhrase
    (c := ⟨p, k, barChords entries⟩) (K := fun pc => motif.Holds IsClass → IsClass pc)
    (fun pc hpc _ => hpc) hclass hk.toSound hroomy hreach hfew (fun n hn hmotif => hmotif n hn) s []
  rw [hrun] at hrecorded
  have hnearest : ∀ call ∈ calls, call.pitch = Composer.nearestOctave ⟨p, k, barChords entries⟩
      call.pc call.last ∧ (IsClass call.pc → Composer.IsNearestOf call.pc call.last call.pitch) :=
    fun call hcall => ⟨(hcalls call hcall).found, (hcalls call hcall).nearest⟩
  refine ⟨calls, hrecorded, hnearest, fun hmotif =>
    ⟨fun call hcall => (hcalls call hcall).holds hmotif, ?_⟩⟩
  rintro notes motif' rfl
  obtain ⟨line, hline, -, rfl⟩ := Composer.of_writePhrase_eq_ok hrun
  exact Composer.ensures_writeBars
    (fun _ _ _ _ => Composer.ensures_holds_soundSlot hk.toSound fun _ hpc => hpc) hmotif
    s line (congrArg Prod.fst hline)

/-- A phrase of two bars of A minor, with the settings from the start: thirteen times the nearest octave
    is asked for, first that of D from the A at 69. -/
theorem octaves_nearest_start :
    ∃ c : Composer Int,
      (composerFor Registry.builtin Params.start [⟨['A', 'm'], 2, by decide⟩]).outcome = .ok c
        ∧ ∃ (outcome : Except Fault (List Note × Motif)) (calls : List Composer.Call),
          (Composer.Recorded.writePhrase (Source.fixed 0.5) c 0 2 .question {}).run ((), [])
              = (outcome, ((), calls))
            ∧ (∀ call ∈ calls, Composer.IsNearestOf call.pc call.last call.pitch)
            ∧ calls.length = 13 ∧ calls.head? = some ⟨2, 69, 74⟩ := by
  obtain ⟨c, reach, hc, -, hreach, hphrases⟩ := octaves_nearest .builtin
    (Params.admitted_start Registry.builtin) [⟨['A', 'm'], 2, by decide⟩]
  obtain rfl := Except.ok.inj (composerFor_start.symm.trans hc)
  obtain rfl : reach = 1 := hreach.unique isReach_start
  have hparts (result : Except Fault (List Note × Motif) × Unit) : result = (result.1, ()) := rfl
  obtain ⟨calls, hrecorded, hcalls, hclasses⟩ := hphrases ⟨by decide, by decide⟩ (by decide) Unit
    (Source.fixed 0.5) .question 0 2 {} _ () () (hparts _)
  obtain ⟨hclass, -⟩ := hclasses fun n hn => absurd hn List.not_mem_nil
  obtain rfl : _ = calls := congrArg (·.2.2) hrecorded
  exact ⟨_, hc, _, _, hrecorded, fun call hcall => (hcalls call hcall).2 (hclass call hcall),
    by decide +kernel, by decide +kernel⟩

end Cantilena
