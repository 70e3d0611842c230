import Cantilena.Proofs.Melody.Loudness
import Cantilena.Proofs.Melody.Register
import Cantilena.Proofs.Outcome
import Cantilena.Proofs.Random.Drawing

/-!
# Decisions that cannot fail

Every decision of a melody ends in a value, whatever is drawn. Pitches are spoken of by a property
that placing keeps, so that what holds of placed pitches holds of all that are written.

* `Motif.Sound` -- a motif whose slots can be counted; what is recalled from it never fails;
* `slots_of_rhythms` -- the slots of the rhythms;
* `Composer.yields_targetClass`, `Composer.yields_aim` -- the class a slot aims for;
* `Composer.Keeps` -- a property of pitches that is kept wherever a pitch is placed;
* `Composer.yields_nextPitch`, `Composer.yields_approach` -- the pitches of a slot.
-/

namespace Cantilena

variable {σ : Type}

/-! ## 1. Motifs -/

namespace Motif

/-- A motif whose slots start at zero and can be counted. -/
def Sound (m : Motif) : Prop := ∀ n ∈ m.notes, 0 ≤ n.1 ∧ n.1 + 1 < Source.countLimit

theorem sound_empty : Sound {} := fun _ h => absurd h List.not_mem_nil

theorem mem_put {slot pc : Int} {n : Int × Int} {l : List (Int × Int)} (h : n ∈ put slot pc l) :
    n = (slot, pc) ∨ n ∈ l := by
  induction l with
  | nil => exact Or.inl (List.mem_singleton.mp h)
  | cons old rest ih =>
    obtain ⟨s, p⟩ := old
    unfold put at h
    split at h
    · rcases List.mem_cons.mp h with h | h
      · exact Or.inl h
      · exact Or.inr (List.mem_cons_of_mem _ h)
    · rcases List.mem_cons.mp h with rfl | h
      · exact Or.inr List.mem_cons_self
      · exact (ih h).imp_right (List.mem_cons_of_mem _)

/-- A sound motif stays sound with a class stored under a slot that can be counted. -/
theorem Sound.store {m : Motif} (h : m.Sound) {slot : Int} (hslot : 0 ≤ slot)
    (hlimit : slot + 1 < Source.countLimit) (pc : Int) : (m.store slot pc).Sound := by
  intro n hn
  rcases mem_put hn with rfl | hn
  · exact ⟨hslot, hlimit⟩
  · exact h n hn

theorem foldl_max_range {notes : List (Int × Int)} {top : Int}
    (h : ∀ n ∈ notes, 0 ≤ n.1 ∧ n.1 + 1 < Source.countLimit)
    (htop : 0 ≤ top ∧ top + 1 < Source.countLimit) :
    0 ≤ notes.foldl (fun top n => max top n.1) top
      ∧ notes.foldl (fun top n => max top n.1) top + 1 < Source.countLimit := by
  induction notes generalizing top with
  | nil => exact htop
  | cons n notes ih =>
    have hn := h n List.mem_cons_self
    refine ih (fun n hn => h n (List.mem_cons_of_mem _ hn)) ?_
    show 0 ≤ max top n.1 ∧ max top n.1 + 1 < Source.countLimit
    omega

/-- What is recalled from a sound motif never fails. -/
theorem Sound.exists_classAt {m : Motif} (h : m.Sound) (slot : Int) :
    ∃ pc, m.classAt slot = .ok pc := by
  have hstop : 0 ≤ m.stop ∧ m.stop < Source.countLimit := by
    unfold stop
    split
    · exact ⟨Int.le_refl 0, by decide⟩
    · rename_i first _ rest hnotes
      rw [Sound, hnotes] at h
      have hrange := foldl_max_range (fun n hn => h n (List.mem_cons_of_mem _ hn))
        (h (first, _) List.mem_cons_self)
      exact ⟨Int.le_trans hrange.1 (Int.le_add_one (Int.le_refl _)), hrange.2⟩
  have hsize : m.size = .ok m.stop.toNat := by
    rw [size, if_neg (Int.not_lt.mpr hstop.1), if_neg (Int.not_le.mpr hstop.2)]
  exact ⟨_, bind_eq_ok.mpr ⟨_, hsize, rfl⟩⟩

theorem yields_varied {src : Source σ} (hsrc : src.AlwaysPicks) {classes : List Int} {pc : Int} :
    Yields (Motif.varied src classes pc) fun _ => True :=
  (yields_choose hsrc).bind fun _ _ => .pure trivial

end Motif

/-! ## 2. Rhythms -/

/-- The slots of all rhythms: few in each, and of a length from one step to eight. -/
theorem slots_of_rhythms (g : Genre) : ∀ rhythm ∈ g.rhythms,
    rhythm.length ≤ 9 ∧ ∀ slot ∈ rhythm, 1 ≤ slot.duration ∧ slot.duration ≤ 8 := by
  cases g <;> decide

namespace Composer

variable {src : Source σ} {c : Composer Int}

/-! ## 3. Decisions that cannot fail -/

section Decisions

variable (hsrc : src.AlwaysPicks)
include hsrc

theorem yields_anyTone {chord : Chord} : Yields (anyTone src chord) fun _ => True := by
  unfold anyTone
  split
  · exact .pure trivial
  · exact (yields_choose hsrc).mono fun _ _ => trivial

theorem yields_chordTone {chord : Chord} {strong : Bool} :
    Yields (c.chordTone src chord strong) fun _ => True := by
  unfold chordTone
  simp only
  split
  · split
    · exact .pure trivial
    · exact (yields_choose hsrc).mono fun _ _ => trivial
  · split
    · refine yields_chance.bind fun free _ => ?_
      exact (yields_anyTone hsrc).bind fun pc _ => .pure trivial
    · exact (yields_anyTone hsrc).bind fun pc _ => .pure trivial

omit hsrc in
theorem yields_scaleTone : Yields (c.scaleTone src) fun _ => True := by
  unfold scaleTone
  split
  · exact .pure trivial
  · rename_i first others he
    refine (yields_weightedFrom fun o ho => ?_).mono fun _ _ => trivial
    rw [← he] at ho
    obtain ⟨pc, _, rfl⟩ := List.mem_map.mp ho
    exact ⟨c.colourWeight pc, rfl⟩

omit hsrc in
theorem yields_cadenceTone {chord : Chord} : Yields (c.cadenceTone src chord) fun _ => True := by
  refine Yields.bind (yields_weightedFrom fun o ho => ?_) fun pc _ => .pure trivial
  rcases List.mem_cons.mp ho with rfl | ho
  · exact ⟨0.65, rfl⟩
  · rw [List.mem_singleton.mp ho]
    exact ⟨0.35, rfl⟩

theorem yields_targetClass {chord : Chord} {step : Nat} {role : Role} :
    Yields (c.targetClass src chord step role) fun _ => True := by
  unfold targetClass
  refine yields_chance.bind fun wantsChord _ => ?_
  refine Yields.ite_bind (P := fun _ => True) (fun _ => yields_chance) (fun _ => .pure trivial)
    fun rests _ => ?_
  dsimp only
  split
  · exact yields_cadenceTone
  · split
    · exact yields_chordTone hsrc
    · exact yields_scaleTone

theorem yields_aim {bar : Bar Int} {i : Nat} {slot : Slot} {motif : Motif} (hm : motif.Sound)
    (hi : (i : Int) + 1 < Source.countLimit) :
    Yields (c.aim src bar i slot motif) fun r => r.2.Sound := by
  unfold aim
  dsimp only
  refine Yields.ite_bind (P := fun _ => True) (fun _ => ?_) (fun _ => .pure trivial)
    fun recalled _ => ?_
  · obtain ⟨pc, hpc⟩ := hm.exists_classAt i
    exact .ofExcept hpc trivial
  · split
    · refine Yields.ite_bind (P := fun _ => True) (fun _ => yields_chance)
        (fun _ => .pure trivial) fun varies _ => ?_
      split
      · exact (Motif.yields_varied hsrc).bind fun _ _ => .pure hm
      · exact .pure hm
    · refine (yields_targetClass hsrc).bind fun pc _ => .pure ?_
      split
      · exact hm.store (Int.natCast_nonneg i) hi pc
      · exact hm

theorem yields_lengthOf {duration : Nat} (hd : 1 ≤ duration ∧ duration ≤ 8) :
    Yields (c.lengthOf src duration) fun length => 1 ≤ length ∧ length ≤ longest := by
  have hlongest : longest = 8 := rfl
  unfold lengthOf
  refine yields_chance.bind fun tied _ => ?_
  split
  · refine (yields_choose hsrc).bind fun more _ => .pure ?_
    exact keepBetween_range (by decide) _
  · refine .pure ?_
    omega

omit hsrc in
theorem yields_loudnessOf {accent : Float} :
    Yields (c.loudnessOf src accent) fun x => ∃ y, x = keepBetween 0.2 1.0 y :=
  yields_draw.bind fun _ _ => .pure ⟨_, rfl⟩

end Decisions

/-! ## 4. Pitches -/

/-- A property of pitches of notes that is kept wherever a pitch is placed or led into. -/
structure Keeps (c : Composer Int) (P : Int → Prop) : Prop where
  low : ∀ {pitch}, P pitch → 0 ≤ pitch
  high : ∀ {pitch}, P pitch → pitch ≤ 127
  place : ∀ pitch, P (c.place pitch)
  neighbour : ∀ {last pitch}, P last → P pitch → P (c.neighbour last pitch)

/-- To be the pitch of a note is such a property. -/
theorem keeps_range (c : Composer Int) : c.Keeps fun pitch => 0 ≤ pitch ∧ pitch ≤ 127 where
  low := And.left
  high := And.right
  place _ := keepBetween_range (by decide) _
  neighbour _ _ := keepBetween_range (by decide) _

/-- **To have landed is such a property.** -/
theorem keeps_landed (hk : c.key.Sound) : c.Keeps c.Landed where
  low := Landed.low
  high := Landed.high
  place := landed_place hk
  neighbour := landed_neighbour hk

section Pitches

variable {P : Int → Prop} (hP : c.Keeps P)
include hP

omit hP in
theorem checkRegister_eq (c : Composer Int) : c.checkRegister = .ok () := rfl

omit hP in
theorem yields_maybeLeap {last near : Int} : Yields (c.maybeLeap src last near) fun _ => True := by
  unfold maybeLeap
  refine yields_chance.bind fun prefersStep _ => ?_
  split
  · refine yields_chance.bind fun leaps _ => ?_
    split
    · exact yields_chance.bind fun up _ => .pure trivial
    · exact .pure trivial
  · exact .pure trivial

theorem yields_nextPitch {last : Option Int} {pc : Int} : Yields (c.nextPitch src last pc) P := by
  have hcheck : Yields (σ := σ) (liftM c.checkRegister) fun _ => True :=
    .ofExcept (checkRegister_eq c) trivial
  cases last with
  | none => exact hcheck.bind fun _ _ => .pure (hP.place _)
  | some last =>
    refine yields_maybeLeap.bind fun pitch _ => ?_
    exact hcheck.bind fun _ _ => .pure (hP.place _)

theorem yields_approach {last : Option Int} {pitch : Int} (hlast : ∀ p, last = some p → P p)
    (hpitch : P pitch) : Yields (c.approach src last pitch) fun a => ∀ p, a = some p → P p := by
  cases last with
  | none => exact .pure nofun
  | some last =>
    refine yields_chance.bind fun written _ => ?_
    split
    · refine .pure fun p hp => ?_
      rw [← Option.some.inj hp]
      exact hP.neighbour (hlast last rfl) hpitch
    · exact .pure nofun

end Pitches

end Composer

end Cantilena
