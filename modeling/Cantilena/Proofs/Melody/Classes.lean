import Cantilena.Proofs.Melody.Reach

/-!
# The classes that slots aim for

Every class that is chosen for a slot is one of the twelve, and so is every class that is stored in a
motif. Only a motif that a phrase is written from may hold others, and then they may be recalled.

* `Motif.Holds` -- a motif whose classes have a property; storing and recalling keep to it;
* `Composer.ensures_targetClass` -- a class that is chosen is one of the twelve;
* `Composer.ensures_aim_of`, `Composer.ensures_aim` -- what a slot aims for: its class has any property
  that the twelve have and that the classes of the motif have;
* `Composer.ensures_motif_soundSlot`, `Composer.ensures_holds_soundSlot` -- a slot leaves the motif that
  its aim leaves, and so the motif of a line keeps to such classes.
-/

namespace Cantilena

variable {σ : Type} {src : Source σ} {K : Int → Prop}

/-! ## 1. Motifs -/

/-- That a number is a pitch class. -/
def IsClass (pc : Int) : Prop := 0 ≤ pc ∧ pc < 12

theorem isClass_emod (n : Int) : IsClass (n % 12) :=
  ⟨Int.emod_nonneg n (by decide), Int.emod_lt_of_pos n (by decide)⟩

namespace Motif

/-- That all classes of a motif have a property. -/
def Holds (K : Int → Prop) (m : Motif) : Prop := ∀ n ∈ m.notes, K n.2

variable {m : Motif}

theorem Holds.store (hK : ∀ pc, IsClass pc → K pc) (h : m.Holds K) (slot pc : Int) :
    (m.store slot pc).Holds K := by
  intro n hn
  rcases mem_put hn with rfl | hn
  · exact hK _ (isClass_emod pc)
  · exact h n hn

theorem Holds.of_classAt (h : m.Holds K) {slot pc : Int} (hpc : m.classAt slot = .ok (some pc)) :
    K pc := by
  obtain ⟨size, -, hpc⟩ := bind_eq_ok.mp hpc
  have hfound := pure_eq_ok.mp hpc
  split at hfound
  · cases hfound
  · obtain ⟨before, after, hnotes, -⟩ := List.lookup_eq_some_iff.mp hfound
    refine h (slot % size, pc) ?_
    rw [hnotes]
    exact List.mem_append_right _ List.mem_cons_self

theorem ensures_varied (classes : List Int) (pc : Int) :
    Ensures (Motif.varied src classes pc) IsClass :=
  .bind_any fun _ => .pure (isClass_emod _)

end Motif

namespace Composer

variable {c : Composer Int}

/-! ## 2. Targets -/

theorem ensures_anyTone (chord : Chord) : Ensures (anyTone src chord) IsClass := by
  have htones : ∀ pc ∈ chord.pitchClasses, IsClass pc := by
    intro pc hpc
    obtain ⟨i, -, rfl⟩ := List.mem_map.mp hpc
    exact isClass_emod _
  unfold anyTone
  split
  · -- a chord has a third and a fifth at least
    rename_i hnone
    rw [Chord.pitchClasses, List.map_eq_nil_iff, Chord.intervals] at hnone
    obtain ⟨root, triad, seventh⟩ := chord
    cases triad <;> cases seventh <;> cases hnone
  · rename_i first others hsome
    rw [hsome] at htones
    exact ensures_choose.mono htones

section

variable (hk : c.key.Sound)
include hk

/-- Any class of the scale is one. -/
theorem ensures_scaleTone_mem : Ensures (c.scaleTone src) (· ∈ c.key.classes) := by
  unfold scaleTone
  split
  · rename_i hnone
    exact absurd (List.map_eq_nil_iff.mp hnone) hk.ne_nil
  · rename_i first others hsome
    refine ensures_weightedFrom.mono fun pc hpc => ?_
    rw [← hsome, List.map_map] at hpc
    obtain ⟨own, hown, rfl⟩ := List.mem_map.mp hpc
    exact hown

theorem ensures_scaleTone : Ensures (c.scaleTone src) IsClass :=
  (ensures_scaleTone_mem hk).mono hk.range

theorem ensures_chordTone (chord : Chord) (strong : Bool) :
    Ensures (c.chordTone src chord strong) IsClass := by
  unfold chordTone
  simp only
  split
  · split
    · exact .pure (isClass_emod _)
    · rename_i first others hfilter
      refine ensures_choose.mono fun pc hpc => ?_
      rw [← hfilter] at hpc
      exact hk.range pc (of_decide_eq_true (List.mem_filter.mp hpc).2)
  · have hrest (free : Bool) : Ensures (do
        let pc ← anyTone src chord
        return if free then pc else c.key.snap pc % 12) IsClass := by
      refine (ensures_anyTone chord).bind fun pc hpc => .pure ?_
      split
      · exact hpc
      · exact isClass_emod _
    exact .ite (fun _ => .bind_any hrest) fun _ => .bind_any hrest

omit hk in
theorem ensures_cadenceTone (chord : Chord) : Ensures (c.cadenceTone src chord) IsClass :=
  .bind_any fun _ => .pure (isClass_emod _)

omit hk in
/-- The class that is chosen for a slot is that of a cadence, one of the chord or one of the scale. -/
theorem ensures_targetClass_of {chord : Chord} {step : Nat} {role : Role}
    (hcadence : Ensures (c.cadenceTone src chord) K)
    (hchord : Ensures (c.chordTone src chord (isStrong step)) K)
    (hscale : Ensures (c.scaleTone src) K) : Ensures (c.targetClass src chord step role) K := by
  unfold targetClass
  refine .bind_any fun wantsChord => ?_
  have hrest (rests : Bool) : Ensures (if rests then c.cadenceTone src chord
      else if wantsChord then c.chordTone src chord (isStrong step) else c.scaleTone src) K :=
    .ite (fun _ => hcadence) fun _ => .ite (fun _ => hchord) fun _ => hscale
  exact .ite (fun _ => .bind_any hrest) fun _ => .bind_any hrest

/-- **A class that is chosen for a slot is one of the twelve.** -/
theorem ensures_targetClass (chord : Chord) (step : Nat) (role : Role) :
    Ensures (c.targetClass src chord step role) IsClass :=
  ensures_targetClass_of (ensures_cadenceTone chord) (ensures_chordTone hk chord _)
    (ensures_scaleTone hk)

omit hk in
/-- What a slot aims for is chosen, and then stored by a question; or it is recalled from the motif that
    its bar replays, perhaps with a variation, and then the motif stays as it is. -/
theorem ensures_aim_of {P : Int × Motif → Prop} {bar : Bar Int} {i : Nat} {slot : Slot} {motif : Motif}
    (hchosen : Ensures (c.targetClass src bar.chord slot.step bar.role) fun pc =>
      P (pc, if bar.role = .question then motif.store i pc else motif))
    (hrecalled : ∀ pc, bar.replays = true → motif.classAt i = .ok (some pc) →
      P (pc, motif) ∧ ∀ varied, IsClass varied → P (varied, motif)) :
    Ensures (c.aim src bar i slot motif) P := by
  have hstored : Ensures (do
      let pc ← c.targetClass src bar.chord slot.step bar.role
      return (pc, if bar.role = .question then motif.store i pc else motif)) P :=
    hchosen.bind fun pc hpc => .pure hpc
  have hvaries {pc : Int} (hpc : P (pc, motif) ∧ ∀ varied, IsClass varied → P (varied, motif))
      (varies : Bool) : Ensures (do
        if varies then return (← Motif.varied src c.key.classes pc, motif) else return (pc, motif)) P :=
    .ite (fun _ => (Motif.ensures_varied _ _).bind fun varied hvaried => .pure (hpc.2 varied hvaried))
      fun _ => .pure hpc.1
  unfold aim
  refine .ite (fun hreplays => ?_) fun _ => .bind (P := fun found => found = none) (.pure rfl) ?_
  · refine (Ensures.ofExcept (P := fun found => motif.classAt i = .ok found) fun _ h => h).bind ?_
    intro found hfound
    cases found with
    | none => exact hstored
    | some pc =>
      have hpc := hrecalled pc hreplays hfound
      exact .ite (fun _ => .bind_any (hvaries hpc)) fun _ => .bind_any (hvaries hpc)
  · rintro _ rfl
    exact hstored

/-- **The class of a slot is one of the twelve or recalled from the motif**, and no other class is
    stored in the motif. -/
theorem ensures_aim (hK : ∀ pc, IsClass pc → K pc) {motif : Motif} (hmotif : motif.Holds K)
    (bar : Bar Int) (i : Nat) (slot : Slot) :
    Ensures (c.aim src bar i slot motif) fun aimed => K aimed.1 ∧ aimed.2.Holds K := by
  refine ensures_aim_of ?_ fun pc _ hpc => ?_
  · refine (ensures_targetClass hk bar.chord slot.step bar.role).mono fun pc hpc => ⟨hK pc hpc, ?_⟩
    split
    · exact hmotif.store hK i pc
    · exact hmotif
  · exact ⟨⟨hmotif.of_classAt hpc, hmotif⟩, fun varied hvaried => ⟨hK varied hvaried, hmotif⟩⟩

/-! ## 3. Lines -/

omit hk in
theorem ensures_motif_fill {bar : Bar Int} {step : Nat} {pc : Int} {loudness : Float}
    {line : Line Note Int} :
    Ensures (c.fill src bar step pc loudness line) fun line' => line'.motif = line.motif := by
  unfold fill
  refine .ite (fun _ => .pure rfl) fun _ => .bind_any fun skipped => ?_
  refine .ite (fun _ => .pure rfl) fun _ => .bind_any fun nudge => .bind_any fun pitch => ?_
  exact (Ensures.ofExcept fun line' => pushed_of_push).bind fun line₁ h₁ => .pure h₁.motif

omit hk in
theorem ensures_motif_fills {bar : Bar Int} {slot : Slot} {pc : Int} {loudness : Float}
    {line : Line Note Int} :
    Ensures (c.fills src bar slot pc loudness line) fun line' => line'.motif = line.motif := by
  unfold fills
  refine .bind_any fun filled => .ite (fun _ => ?_) fun _ => .pure rfl
  exact ensures_motif_fill.bind fun line₁ h₁ => ensures_motif_fill.mono fun line₂ h₂ => h₂.trans h₁

omit hk in
/-- A slot leaves the motif that its aim leaves: none of its strokes changes it. -/
theorem ensures_motif_soundSlot {P : Motif → Prop} {bar : Bar Int} {i : Nat} {slot : Slot}
    {line : Line Note Int}
    (haim : Ensures (c.aim src bar i slot line.motif) fun aimed => P aimed.2) :
    Ensures (c.soundSlot src bar i slot line) fun line' => P line'.motif := by
  unfold soundSlot
  refine haim.bind ?_
  rintro ⟨pc, motif⟩ hmotif
  refine .bind_any fun pitch => .bind_any fun approach => .bind_any fun length => ?_
  refine .bind_any fun loudness => ensures_leadIn.bind fun line₁ hled => ?_
  refine (Ensures.ofExcept fun line' => pushed_of_push).bind fun line₂ hpushed => ?_
  refine ensures_motif_fills.mono fun line₃ hfills => ?_
  rw [hfills]
  show P line₂.motif
  rw [hpushed.motif, hled.motif]
  exact hmotif

/-- **A slot leaves a motif of classes that it was given or chose itself.** -/
theorem ensures_holds_soundSlot (hK : ∀ pc, IsClass pc → K pc) {bar : Bar Int} {i : Nat}
    {slot : Slot} {line : Line Note Int} (h : line.motif.Holds K) :
    Ensures (c.soundSlot src bar i slot line) fun line' => line'.motif.Holds K :=
  ensures_motif_soundSlot ((ensures_aim hk hK h bar i slot).mono fun _ haimed => haimed.2)

end

end Composer

end Cantilena
