import Cantilena.Scale

/-!
# The nearest pitch of a scale

* `IsNearest` -- of the pitches of a scale one is nearest to a given pitch, and the upper one of two;
* `IsNearest.unique`, `IsNearest.mono` -- there is one such pitch, and it rises with the given pitch;
* `isNearest_nearestIn` -- a pitch put on a scale is the nearest one;
* `nearestIn_add` -- a pitch some octaves higher is put as many octaves higher on a scale;
* `nearestIn_projects` -- so putting pitches on a scale is a projection that keeps their order.
-/

namespace Cantilena

/-! ## 1. What is nearest -/

/-- A pitch of a scale that is nearest to a given one, and the upper one if two are. -/
structure IsNearest (classes : List Int) (pitch near : Int) : Prop where
  mem : near % 12 ∈ classes
  nearest : ∀ q : Int, q % 12 ∈ classes → (near - pitch).natAbs ≤ (q - pitch).natAbs
  upper : ∀ q : Int, q % 12 ∈ classes → (q - pitch).natAbs = (near - pitch).natAbs → q ≤ near

namespace IsNearest

variable {classes : List Int} {p q a b : Int}

theorem unique (ha : IsNearest classes p a) (hb : IsNearest classes p b) : a = b := by
  have h : (a - p).natAbs = (b - p).natAbs := Nat.le_antisymm (ha.nearest b hb.mem) (hb.nearest a ha.mem)
  exact Int.le_antisymm (hb.upper a ha.mem h) (ha.upper b hb.mem h.symm)

/-- A pitch of the scale is nearest to itself. -/
theorem self (h : p % 12 ∈ classes) : IsNearest classes p p where
  mem := h
  nearest q _ := by omega
  upper q _ hq := by omega

/-- **The nearest pitch rises with the given one.** -/
theorem mono (ha : IsNearest classes p a) (hb : IsNearest classes q b) (h : p ≤ q) : a ≤ b := by
  have h₁ := ha.nearest b hb.mem
  have h₂ := hb.nearest a ha.mem
  rcases Int.lt_or_le b a with hba | hba
  · -- two pitches the wrong way round are both equally near, so that both are the upper one
    have h₃ := ha.upper b hb.mem
    have h₄ := hb.upper a ha.mem
    omega
  · exact hba

end IsNearest

/-! ## 2. Putting a pitch on a scale -/

section

variable {classes : List Int}

theorem neighbourIn_eq (classes : List Int) (pitch distance : Int) :
    neighbourIn classes pitch distance
      = if (pitch + distance) % 12 ∈ classes then some (pitch + distance)
        else if (pitch - distance) % 12 ∈ classes then some (pitch - distance)
        else none := by
  have hup : (pitch % 12 + distance) % 12 = (pitch + distance) % 12 := Int.emod_add_emod ..
  have hdown : (pitch % 12 - distance) % 12 = (pitch - distance) % 12 := Int.emod_sub_emod ..
  unfold neighbourIn
  simp only [Quantity.isOneOf, decide_eq_true_eq, Int.cast_id]
  rw [hup, hdown]

theorem nearestIn_eq (classes : List Int) (pitch : Int) :
    nearestIn classes pitch
      = if classes = [] ∨ pitch % 12 ∈ classes then pitch
        else ([1, 2, 3, 4, 5, 6].findSome? (neighbourIn classes pitch)).getD pitch := by
  unfold nearestIn
  simp [Quantity.isOneOf, List.isEmpty_iff]

/-! Octaves are all alike to a scale. -/

theorem neighbourIn_add (classes : List Int) (pitch octaves distance : Int) :
    neighbourIn classes (pitch + 12 * octaves) distance
      = (neighbourIn classes pitch distance).map (· + 12 * octaves) := by
  have hup : pitch + 12 * octaves + distance = pitch + distance + 12 * octaves :=
    Int.add_right_comm ..
  have hdown : pitch + 12 * octaves - distance = pitch - distance + 12 * octaves := by omega
  rw [neighbourIn_eq, neighbourIn_eq, hup, hdown, Int.add_mul_emod_self_left,
    Int.add_mul_emod_self_left]
  by_cases h : (pitch + distance) % 12 ∈ classes
  · rw [if_pos h, if_pos h]
    rfl
  · by_cases h' : (pitch - distance) % 12 ∈ classes
    · rw [if_neg h, if_neg h, if_pos h', if_pos h']
      rfl
    · rw [if_neg h, if_neg h, if_neg h', if_neg h']
      rfl

/-- **A pitch some octaves higher is put as many octaves higher on a scale.** -/
theorem nearestIn_add (classes : List Int) (pitch octaves : Int) :
    nearestIn classes (pitch + 12 * octaves) = nearestIn classes pitch + 12 * octaves := by
  have hsearch : [1, 2, 3, 4, 5, 6].findSome? (neighbourIn classes (pitch + 12 * octaves))
      = ([1, 2, 3, 4, 5, 6].findSome? (neighbourIn classes pitch)).map (· + 12 * octaves) := by
    rw [List.map_findSome?]
    exact congrArg ([1, 2, 3, 4, 5, 6].findSome? ·)
      (funext fun distance => neighbourIn_add classes pitch octaves distance)
  rw [nearestIn_eq, nearestIn_eq, Int.add_mul_emod_self_left, hsearch]
  by_cases h : classes = [] ∨ pitch % 12 ∈ classes
  · rw [if_pos h, if_pos h]
  · rw [if_neg h, if_neg h, Option.getD_map]

/-- A scale has a pitch at most six semitones from any other. -/
theorem exists_neighbour (hne : classes ≠ []) (hr : ∀ c ∈ classes, 0 ≤ c ∧ c < 12) {pitch : Int}
    (hout : pitch % 12 ∉ classes) :
    ∃ d ∈ [1, 2, 3, 4, 5, 6], (neighbourIn classes pitch d).isSome = true := by
  obtain ⟨c, hc⟩ := List.exists_mem_of_ne_nil classes hne
  have hrange := hr c hc
  have hdiff : (c - pitch) % 12 ≠ 0 := by
    intro h
    have : pitch % 12 = c := by omega
    exact hout (this ▸ hc)
  by_cases hup : (c - pitch) % 12 ≤ 6
  · refine ⟨(c - pitch) % 12, ?_, ?_⟩
    · simp only [List.mem_cons, List.not_mem_nil, or_false]
      omega
    · have h : (pitch + (c - pitch) % 12) % 12 = c := by omega
      rw [neighbourIn_eq, h, if_pos hc]
      rfl
  · refine ⟨12 - (c - pitch) % 12, ?_, ?_⟩
    · simp only [List.mem_cons, List.not_mem_nil, or_false]
      omega
    · have h : (pitch - (12 - (c - pitch) % 12)) % 12 = c := by omega
      rw [neighbourIn_eq, h, if_pos hc]
      split <;> rfl

/-- What the search finds is at a distance where it has not found anything before. -/
theorem nearestIn_of_not_mem (hne : classes ≠ []) (hr : ∀ c ∈ classes, 0 ≤ c ∧ c < 12)
    {pitch : Int} (hout : pitch % 12 ∉ classes) :
    ∃ d, 0 < d ∧ d ≤ 6 ∧ neighbourIn classes pitch d = some (nearestIn classes pitch)
      ∧ ∀ e, 0 < e → e < d → neighbourIn classes pitch e = none := by
  obtain ⟨d, hd, hsome⟩ := exists_neighbour hne hr hout
  obtain ⟨near, hnear⟩ := Option.isSome_iff_exists.mp (List.findSome?_isSome_iff.mpr ⟨d, hd, hsome⟩)
  have hresult : nearestIn classes pitch = near := by
    rw [nearestIn_eq, if_neg (by simp [hne, hout]), hnear]
    rfl
  obtain ⟨before, found, after, hlist, hfound, hnone⟩ := List.findSome?_eq_some_iff.mp hnear
  have hsorted : ([1, 2, 3, 4, 5, 6] : List Int).Pairwise (· < ·) := by decide
  rw [hlist, List.pairwise_append, List.pairwise_cons] at hsorted
  have hmem : found ∈ ([1, 2, 3, 4, 5, 6] : List Int) := by
    rw [hlist]
    exact List.mem_append_right _ List.mem_cons_self
  simp only [List.mem_cons, List.not_mem_nil, or_false] at hmem
  refine ⟨found, by omega, by omega, hresult ▸ hfound, ?_⟩
  intro e he hlt
  have hmem' : e ∈ ([1, 2, 3, 4, 5, 6] : List Int) := by
    simp only [List.mem_cons, List.not_mem_nil, or_false]
    omega
  rw [hlist] at hmem'
  rcases List.mem_append.mp hmem' with h | h
  · exact hnone e h
  · rcases List.mem_cons.mp h with rfl | h
    · omega
    · have := hsorted.2.1.1 e h
      omega

theorem neighbourIn_eq_none {pitch distance : Int} :
    neighbourIn classes pitch distance = none
      ↔ (pitch + distance) % 12 ∉ classes ∧ (pitch - distance) % 12 ∉ classes := by
  rw [neighbourIn_eq]
  split
  · simp [*]
  · split <;> simp [*]

/-- **A pitch put on a scale is the nearest pitch of the scale**, and the upper one of two. -/
theorem isNearest_nearestIn (hne : classes ≠ []) (hr : ∀ c ∈ classes, 0 ≤ c ∧ c < 12)
    (pitch : Int) : IsNearest classes pitch (nearestIn classes pitch) := by
  by_cases hin : pitch % 12 ∈ classes
  · rw [nearestIn_eq, if_pos (Or.inr hin)]
    exact .self hin
  · obtain ⟨d, hd, -, hfound, hnone⟩ := nearestIn_of_not_mem hne hr hin
    generalize nearestIn classes pitch = near at hfound
    -- no pitch of the scale is nearer than the distance at which one was found
    have hfar (q : Int) (hq : q % 12 ∈ classes) : d ≤ (q - pitch).natAbs := by
      rcases Int.lt_or_le (q - pitch).natAbs d with hlt | hle
      · have hpos : 0 < ((q - pitch).natAbs : Int) := by
          have : q ≠ pitch := fun h => hin (h ▸ hq)
          omega
        obtain ⟨hup, hdown⟩ := neighbourIn_eq_none.mp (hnone _ hpos hlt)
        rcases Int.le_total pitch q with h | h
        · have he : pitch + (q - pitch).natAbs = q := by omega
          rw [he] at hup
          exact absurd hq hup
        · have he : pitch - (q - pitch).natAbs = q := by omega
          rw [he] at hdown
          exact absurd hq hdown
      · exact hle
    rw [neighbourIn_eq] at hfound
    split at hfound
    · rename_i hup
      obtain rfl := Option.some.inj hfound
      refine ⟨hup, fun q hq => ?_, fun q hq he => ?_⟩
      · have := hfar q hq
        omega
      · omega
    · rename_i hup
      split at hfound
      · rename_i hdown
        obtain rfl := Option.some.inj hfound
        refine ⟨hdown, fun q hq => ?_, fun q hq he => ?_⟩
        · have := hfar q hq
          omega
        · rcases Int.le_total q pitch with h | h
          · omega
          · have : q = pitch + d := by omega
            exact absurd (this ▸ hq) hup
      · cases hfound

/-- A pitch put on a scale moves by six semitones at most. -/
theorem natAbs_nearestIn_sub (hne : classes ≠ []) (hr : ∀ c ∈ classes, 0 ≤ c ∧ c < 12)
    (pitch : Int) : (nearestIn classes pitch - pitch).natAbs ≤ 6 := by
  by_cases hin : pitch % 12 ∈ classes
  · rw [nearestIn_eq, if_pos (Or.inr hin)]
    omega
  · obtain ⟨d, hd, hle, hfound, -⟩ := nearestIn_of_not_mem hne hr hin
    generalize nearestIn classes pitch = near at hfound ⊢
    rw [neighbourIn_eq] at hfound
    split at hfound
    · have := Option.some.inj hfound
      omega
    · split at hfound
      · have := Option.some.inj hfound
        omega
      · cases hfound

/-! ## 3. The projection -/

/-- Only the nearest pitch is found. -/
theorem nearestIn_eq_iff (hne : classes ≠ []) (hr : ∀ c ∈ classes, 0 ≤ c ∧ c < 12)
    {pitch near : Int} : nearestIn classes pitch = near ↔ IsNearest classes pitch near := by
  constructor
  · rintro rfl
    exact isNearest_nearestIn hne hr pitch
  · exact (isNearest_nearestIn hne hr pitch).unique

/-- The pitches of a scale, and no others, stay where they are. -/
theorem nearestIn_eq_self_iff (hne : classes ≠ []) (hr : ∀ c ∈ classes, 0 ≤ c ∧ c < 12)
    {pitch : Int} : nearestIn classes pitch = pitch ↔ pitch % 12 ∈ classes := by
  rw [nearestIn_eq_iff hne hr]
  exact ⟨IsNearest.mem, .self⟩

/-- In what order classes are given, and how often, makes no difference. -/
theorem nearestIn_congr {others : List Int} (h : ∀ c, c ∈ others ↔ c ∈ classes) (pitch : Int) :
    nearestIn others pitch = nearestIn classes pitch := by
  have hempty : others = [] ↔ classes = [] := by
    simp only [List.eq_nil_iff_forall_not_mem, h]
  have hsearch : neighbourIn others pitch = neighbourIn classes pitch := by
    funext distance
    simp only [neighbourIn_eq, h]
  simp only [nearestIn_eq, hempty, hsearch, h]

/-- **Putting pitches on a scale is the projection to its nearest pitch.** What is found is of the
    scale, nothing of the scale is nearer, and of two equally near pitches it is the upper one; no
    other pitch is like this. Hence it stays when it is put on the scale once more, moves with
    octaves, never falls where the given pitch rises, and comes from the set of classes alone. -/
theorem nearestIn_projects (hne : classes ≠ []) (hr : ∀ c ∈ classes, 0 ≤ c ∧ c < 12) :
    (∀ pitch near : Int, nearestIn classes pitch = near ↔ IsNearest classes pitch near)
      ∧ (∀ pitch : Int, nearestIn classes pitch = pitch ↔ pitch % 12 ∈ classes)
      ∧ (∀ pitch : Int, nearestIn classes (nearestIn classes pitch) = nearestIn classes pitch)
      ∧ (∀ pitch octaves : Int,
          nearestIn classes (pitch + 12 * octaves) = nearestIn classes pitch + 12 * octaves)
      ∧ (∀ p q : Int, p ≤ q → nearestIn classes p ≤ nearestIn classes q)
      ∧ ∀ others : List Int, (∀ c, c ∈ others ↔ c ∈ classes) →
          ∀ pitch : Int, nearestIn others pitch = nearestIn classes pitch := by
  have hnear := isNearest_nearestIn hne hr
  refine ⟨fun _ _ => nearestIn_eq_iff hne hr, fun _ => nearestIn_eq_self_iff hne hr, fun pitch => ?_,
    nearestIn_add classes, fun p q hpq => ?_, fun _ => nearestIn_congr⟩
  · exact (nearestIn_eq_self_iff hne hr).mpr (hnear pitch).mem
  · exact (hnear p).mono (hnear q) hpq

/-- On the scale of C, E and G the note below the lowest goes up to it, and D, which is as far from
    C as from E, goes up to E. -/
theorem nearestIn_projects_triad :
    IsNearest [0, 4, 7] (-1) 0 ∧ IsNearest [0, 4, 7] 62 64
      ∧ nearestIn [0, 4, 7] (71 : Int) ≤ nearestIn [0, 4, 7] (74 : Int) := by
  have hr : ∀ c ∈ [(0 : Int), 4, 7], 0 ≤ c ∧ c < 12 := by decide
  obtain ⟨hiff, -, -, -, hmono, -⟩ := nearestIn_projects (by decide) hr
  exact ⟨(hiff (-1) 0).mp (by decide), (hiff 62 64).mp (by decide), hmono 71 74 (by decide)⟩

end

end Cantilena
