import Cantilena.Melody.Phrase
import Cantilena.Proofs.Melody.Key

/-!
# Pitches that are placed

A pitch is kept within the register, put on the scale, and then kept within the range of all
notes. The last step can take it off the scale again: where the register sticks out of that range,
the pitch of the scale beyond it is cut off.

* `Composer.IsCutOff`, `Composer.Landed` -- the pitches that can be written: those of the scale,
  and the ends of the range that stand for pitches beyond them;
* `landed_place`, `landed_neighbour` -- what is placed has landed, and so has what leads into it;
* `Composer.Fits`, `mem_place_iff_fits` -- a register that fits, and only such a one, keeps every
  placed pitch on the scale.
-/

namespace Cantilena.Composer

variable {c : Composer Int}

/-! ## 1. The bounds of the register -/

theorem keepBetween_range {low high : Int} (h : low ≤ high) (x : Int) :
    low ≤ keepBetween low high x ∧ keepBetween low high x ≤ high := by
  rw [keepBetween_eq]
  omega

theorem keepBetween_of_mem {low high x : Int} (hl : low ≤ x) (hh : x ≤ high) :
    keepBetween low high x = x := by
  rw [keepBetween_eq]
  omega

theorem lowest_le_highest (c : Composer Int) : c.lowest ≤ c.highest := by
  have h : ¬ c.params.frame.range < 0 := c.params.frame.range_ok
  show c.centre - c.params.frame.range ≤ c.centre + c.params.frame.range
  omega

/-! ## 2. What lands -/

/-- An end of the range of notes that stands for a pitch of the scale beyond it. -/
def IsCutOff (c : Composer Int) (pitch : Int) : Prop :=
  (pitch = 127 ∧ 127 < c.key.snap c.highest) ∨ (pitch = 0 ∧ c.key.snap c.lowest < 0)

/-- A pitch of a note, in the scale or cut off. -/
structure Landed (c : Composer Int) (pitch : Int) : Prop where
  low : 0 ≤ pitch
  high : pitch ≤ 127
  mem : pitch % 12 ∈ c.key.classes ∨ c.IsCutOff pitch

/-- A pitch of the scale that is kept within the range of notes has landed, if the end at which it
    may be kept has. -/
theorem landed_keepBetween {near : Int} (hmem : near % 12 ∈ c.key.classes)
    (hhigh : 127 < near → (127 : Int) % 12 ∈ c.key.classes ∨ c.IsCutOff 127)
    (hlow : near < 0 → (0 : Int) % 12 ∈ c.key.classes ∨ c.IsCutOff 0) :
    c.Landed (keepBetween 0 127 near) := by
  obtain ⟨hl, hh⟩ := keepBetween_range (by decide : (0 : Int) ≤ 127) near
  refine ⟨hl, hh, ?_⟩
  rcases Int.lt_or_le 127 near with h | h
  · have he : keepBetween 0 127 near = 127 := by
      rw [keepBetween_eq]
      omega
    rw [he]
    exact hhigh h
  · rcases Int.lt_or_le near 0 with h' | h'
    · have he : keepBetween 0 127 near = 0 := by
        rw [keepBetween_eq]
        omega
      rw [he]
      exact hlow h'
    · rw [keepBetween_of_mem h' h]
      exact Or.inl hmem

section

variable (hk : c.key.Sound)
include hk

/-- What is placed on the scale lies between the ends of the register, placed on the scale. -/
theorem snap_register (pitch : Int) :
    c.key.snap c.lowest ≤ c.key.snap (keepBetween c.lowest c.highest pitch)
      ∧ c.key.snap (keepBetween c.lowest c.highest pitch) ≤ c.key.snap c.highest := by
  obtain ⟨hlow, hhigh⟩ := keepBetween_range c.lowest_le_highest pitch
  exact ⟨(hk.isNearest _).mono (hk.isNearest _) hlow, (hk.isNearest _).mono (hk.isNearest _) hhigh⟩

/-- **What is placed has landed.** -/
theorem landed_place (pitch : Int) : c.Landed (c.place pitch) := by
  obtain ⟨hlow, hhigh⟩ := snap_register hk pitch
  refine landed_keepBetween (hk.isNearest _).mem (fun h => ?_) (fun h => ?_)
  · exact Or.inr (Or.inl ⟨rfl, Int.lt_of_lt_of_le h hhigh⟩)
  · exact Or.inr (Or.inr ⟨rfl, Int.lt_of_le_of_lt hlow h⟩)

/-- What is put on the scale one step beside a pitch that has landed has landed, if it does so beside
    a pitch of the scale. -/
theorem landed_beside {pitch near beside : Int} (hpitch : c.Landed pitch)
    (hnear : IsNearest c.key.classes beside near) (hstep : (beside - pitch).natAbs = 1)
    (hhigh : pitch % 12 ∈ c.key.classes → 127 < near →
      (127 : Int) % 12 ∈ c.key.classes ∨ c.IsCutOff 127)
    (hlow : pitch % 12 ∈ c.key.classes → near < 0 →
      (0 : Int) % 12 ∈ c.key.classes ∨ c.IsCutOff 0) :
    c.Landed (keepBetween 0 127 near) := by
  have hsix : (near - beside).natAbs ≤ 6 := by
    rw [hnear.unique (hk.isNearest beside)]
    exact natAbs_nearestIn_sub hk.ne_nil hk.range beside
  refine landed_keepBetween hnear.mem (fun h => ?_) (fun h => ?_)
  · rcases hpitch.mem with hin | ⟨rfl, hcut⟩ | ⟨rfl, _⟩
    · exact hhigh hin h
    · exact Or.inr (Or.inl ⟨rfl, hcut⟩)
    · omega
  · rcases hpitch.mem with hin | ⟨rfl, _⟩ | ⟨rfl, hcut⟩
    · exact hlow hin h
    · omega
    · exact Or.inr (Or.inr ⟨rfl, hcut⟩)

/-- **A neighbour that leads from a pitch that has landed into another has landed.** -/
theorem landed_neighbour {last pitch : Int} (hlast : c.Landed last) (hpitch : c.Landed pitch) :
    c.Landed (c.neighbour last pitch) := by
  have hlow := hpitch.low
  have hhigh := hpitch.high
  unfold neighbour
  by_cases hup : last ≤ pitch
  · rw [if_pos hup]
    have hnear := hk.isNearest (pitch - 1)
    refine landed_beside hk hpitch hnear (by omega) (fun hin h => ?_) (fun hin h => ?_)
    · have := hnear.nearest pitch hin
      omega
    · -- the pitch itself is as near as the one below zero, and is the upper one
      have h₁ := hnear.nearest pitch hin
      have h₂ := hnear.upper pitch hin
      have hzero : pitch = 0 := by omega
      exact Or.inl (hzero ▸ hin)
  · rw [if_neg hup]
    have hnear := hk.isNearest (pitch + 1)
    refine landed_beside hk hpitch hnear (by omega) (fun hin h => ?_) (fun hin h => ?_)
    · -- only a line that falls from the highest note of all gets here
      have := hnear.nearest pitch hin
      have hlasthigh := hlast.high
      have htop : last = 127 := by omega
      exact htop ▸ hlast.mem
    · have := hnear.nearest pitch hin
      omega

end

/-! ## 3. Registers that fit -/

/-- The register, put on the scale, lies within the range of all notes, or ends where the scale has
    a pitch at the end of that range. -/
def Fits (c : Composer Int) : Prop :=
  (c.key.snap c.highest ≤ 127 ∨ 127 % 12 ∈ c.key.classes)
    ∧ (0 ≤ c.key.snap c.lowest ∨ 0 % 12 ∈ c.key.classes)

instance (c : Composer Int) : Decidable c.Fits :=
  inferInstanceAs (Decidable (_ ∧ _))

/-- Where the register fits, what has landed is in the scale. -/
theorem Landed.mem_of_fits {pitch : Int} (h : c.Landed pitch) (hfits : c.Fits) :
    pitch % 12 ∈ c.key.classes := by
  rcases h.mem with hin | ⟨rfl, hcut⟩ | ⟨rfl, hcut⟩
  · exact hin
  · exact hfits.1.resolve_left (Int.not_le.mpr hcut)
  · exact hfits.2.resolve_left (Int.not_le.mpr hcut)

/-- **Every pitch is placed on the scale exactly where the register fits.** -/
theorem mem_place_iff_fits (hk : c.key.Sound) :
    (∀ pitch, c.place pitch % 12 ∈ c.key.classes) ↔ c.Fits := by
  constructor
  · intro h
    have hends := c.lowest_le_highest
    have hplace (pitch : Int) (hl : c.lowest ≤ pitch) (hh : pitch ≤ c.highest) :
        c.place pitch = keepBetween 0 127 (c.key.snap pitch) := by
      rw [place, keepBetween_of_mem hl hh]
    constructor
    · rcases Int.lt_or_le 127 (c.key.snap c.highest) with hlt | hle
      · have := h c.highest
        rw [hplace _ hends (Int.le_refl _), keepBetween_eq] at this
        have he : max 0 (min 127 (c.key.snap c.highest)) = 127 := by omega
        exact Or.inr (he ▸ this)
      · exact Or.inl hle
    · rcases Int.lt_or_le (c.key.snap c.lowest) 0 with hlt | hle
      · have := h c.lowest
        rw [hplace _ (Int.le_refl _) hends, keepBetween_eq] at this
        have he : max 0 (min 127 (c.key.snap c.lowest)) = 0 := by omega
        exact Or.inr (he ▸ this)
      · exact Or.inl hle
  · exact fun hfits pitch => (landed_place hk pitch).mem_of_fits hfits

end Cantilena.Composer
