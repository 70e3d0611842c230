import Cantilena.Proofs.Scale.Nearest

/-!
# How far a scale is from any pitch

* `IsReach` -- the largest distance from any pitch to the nearest pitch of a scale;
* `exists_isReach` -- a scale of classes has one, of six semitones at most;
* `IsReach.natAbs_nearestIn_sub_le` -- a pitch put on the scale moves by no more;
* `isReach_builtin` -- for the scales known from the start it is one semitone.
-/

namespace Cantilena

/-- The largest distance from any pitch to the nearest pitch of a scale. -/
structure IsReach (classes : List Int) (reach : Nat) : Prop where
  near : ∀ pitch : Int, ∃ q : Int, q % 12 ∈ classes ∧ (q - pitch).natAbs ≤ reach
  far : ∃ pitch : Int, ∀ q : Int, q % 12 ∈ classes → reach ≤ (q - pitch).natAbs

variable {classes : List Int} {reach : Nat}

/-- A scale has one reach only. -/
theorem IsReach.unique {other : Nat} (h : IsReach classes reach) (h' : IsReach classes other) :
    reach = other := by
  obtain ⟨pitch, hpitch⟩ := h.far
  obtain ⟨pitch', hpitch'⟩ := h'.far
  obtain ⟨q, hq, hle⟩ := h'.near pitch
  obtain ⟨q', hq', hle'⟩ := h.near pitch'
  exact Nat.le_antisymm (Nat.le_trans (hpitch q hq) hle) (Nat.le_trans (hpitch' q' hq') hle')

/-- By induction on the bound: if no pitch is that far away, a smaller bound will do. -/
theorem exists_isReach_le (hne : classes ≠ []) (hr : ∀ c ∈ classes, 0 ≤ c ∧ c < 12) {bound : Nat}
    (h : ∀ pitch : Int, (nearestIn classes pitch - pitch).natAbs ≤ bound) :
    ∃ reach ≤ bound, IsReach classes reach := by
  have hnear := isNearest_nearestIn hne hr
  have hreach {reach : Nat} {pitch : Int} (hpitch : (nearestIn classes pitch - pitch).natAbs = reach)
      (hall : ∀ pitch : Int, (nearestIn classes pitch - pitch).natAbs ≤ reach) :
      IsReach classes reach :=
    ⟨fun pitch => ⟨_, (hnear pitch).mem, hall pitch⟩,
      pitch, fun q hq => hpitch ▸ (hnear pitch).nearest q hq⟩
  induction bound with
  | zero => exact ⟨0, Nat.le_refl 0, hreach (Nat.le_zero.mp (h 0)) h⟩
  | succ bound ih =>
    by_cases hfar : ∃ pitch : Int, (nearestIn classes pitch - pitch).natAbs = bound + 1
    · obtain ⟨pitch, hpitch⟩ := hfar
      exact ⟨bound + 1, Nat.le_refl _, hreach hpitch h⟩
    · obtain ⟨reach, hle, his⟩ := ih fun pitch =>
        Nat.lt_succ_iff.mp (Nat.lt_of_le_of_ne (h pitch) fun he => hfar ⟨pitch, he⟩)
      exact ⟨reach, Nat.le_succ_of_le hle, his⟩

/-- **A scale of classes has a reach, of six semitones at most.** -/
theorem exists_isReach (hne : classes ≠ []) (hr : ∀ c ∈ classes, 0 ≤ c ∧ c < 12) :
    ∃ reach ≤ 6, IsReach classes reach :=
  exists_isReach_le hne hr (natAbs_nearestIn_sub hne hr)

/-- A pitch put on a scale moves by no more than the reach of the scale. -/
theorem IsReach.natAbs_nearestIn_sub_le (h : IsReach classes reach) (hne : classes ≠ [])
    (hr : ∀ c ∈ classes, 0 ≤ c ∧ c < 12) (pitch : Int) :
    (nearestIn classes pitch - pitch).natAbs ≤ reach := by
  obtain ⟨q, hq, hle⟩ := h.near pitch
  exact Nat.le_trans ((isNearest_nearestIn hne hr pitch).nearest q hq) hle

/-- **The scales known from the start have a pitch at most one semitone from any other**, on every
    tonic. -/
theorem isReach_builtin {s : Scale} (hs : s ∈ Scale.builtin) (tonic : Int) :
    IsReach (s.pitchClasses tonic) 1 := by
  have hbeside : ∀ s ∈ Scale.builtin, ∀ r ∈ List.range 12, ∃ i ∈ s.intervals,
      ∃ d ∈ [0, 1, -1], i = ((r : Int) + d) % 12 := by decide +kernel
  have hgap : ∀ s ∈ Scale.builtin, ∃ r ∈ List.range 12, ∀ i ∈ s.intervals,
      i % 12 ≠ (r : Int) := by decide +kernel
  constructor
  · intro pitch
    have hr : ((pitch - tonic) % 12).toNat ∈ List.range 12 := List.mem_range.mpr (by omega)
    obtain ⟨i, hi, d, hd, he⟩ := hbeside s hs _ hr
    have hsmall : d.natAbs ≤ 1 := by
      simp only [List.mem_cons, List.not_mem_nil, or_false] at hd
      omega
    refine ⟨pitch + d, List.mem_map.mpr ⟨i, hi, ?_⟩, by omega⟩
    omega
  · obtain ⟨r, hr, hout⟩ := hgap s hs
    refine ⟨tonic + r, fun q hq => ?_⟩
    obtain ⟨i, hi, he⟩ := List.mem_map.mp hq
    have hne := hout i hi
    have hr := List.mem_range.mp hr
    omega

end Cantilena
