import Cantilena.Proofs.Outcome
import Cantilena.Scale.Registry

/-!
# Registries that can be reached

* `Scale.WellFormed`, `Scale.make_eq_ok` -- what is checked of the parts of a scale, and what its
  classes inherit;
* `Registry.Reachable` -- the registries that come from the first one by registering scales;
* `Reachable.wellFormed` -- all their scales are well-formed;
* `Reachable.get_builtin` -- the modes known from the start stay known.
-/

namespace Cantilena

/-! ## 1. Scales -/

namespace Scale

/-- The offsets of a scale start at 0, lie in one octave and are distinct; triads are named for
    all degrees or for none. -/
structure WellFormed (s : Scale) : Prop where
  starts : s.intervals.head? = some 0
  range : ∀ i ∈ s.intervals, 0 ≤ i ∧ i ≤ 11
  distinct : s.intervals.Nodup
  triads : s.triads = [] ∨ s.triads.length = s.intervals.length

/-- **A scale is made just of the parts of a well-formed one.** -/
theorem make_eq_ok {name : String} {intervals : List Int} {triads : List String} {s : Scale} :
    make name intervals triads = .ok s ↔ s = ⟨name, intervals, triads⟩ ∧ s.WellFormed := by
  simp only [make, refuse_eq_ok]
  constructor
  · rintro ⟨hstarts, hrange, hdistinct, htriads, hs⟩
    obtain rfl := Except.ok.inj hs
    refine ⟨rfl, Decidable.not_not.mp hstarts, by simpa using hrange, by simpa using hdistinct, ?_⟩
    rw [Bool.and_eq_true, decide_eq_true_iff, not_and, Decidable.not_not] at htriads
    exact (Decidable.em (triads = [])).imp_right fun hne => htriads (by simpa using hne)
  · rintro ⟨rfl, h⟩
    refine ⟨Decidable.not_not.mpr h.starts, by simpa using h.range, by simpa using h.distinct, ?_,
      rfl⟩
    rw [Bool.and_eq_true, decide_eq_true_iff, not_and, Decidable.not_not]
    exact fun hne => h.triads.resolve_left (by simpa using hne)

theorem wellFormed_of_make {name : String} {intervals : List Int} {triads : List String}
    {s : Scale} (h : make name intervals triads = .ok s) : s.WellFormed :=
  (make_eq_ok.mp h).2

theorem wellFormed_builtin {s : Scale} (h : s ∈ builtin) : s.WellFormed := by
  have hall : ∀ s ∈ builtin, s.intervals.head? = some 0 ∧ (∀ i ∈ s.intervals, 0 ≤ i ∧ i ≤ 11)
      ∧ s.intervals.Nodup ∧ s.triads.length = s.intervals.length := by decide
  obtain ⟨hstarts, hrange, hdistinct, htriads⟩ := hall s h
  exact ⟨hstarts, hrange, hdistinct, Or.inr htriads⟩

theorem WellFormed.intervals_ne_nil {s : Scale} (h : s.WellFormed) : s.intervals ≠ [] := by
  intro he
  have := h.starts
  rw [he] at this
  cases this

theorem pitchClasses_ne_nil {s : Scale} (h : s.WellFormed) (tonic : Int) :
    s.pitchClasses tonic ≠ [] :=
  fun he => h.intervals_ne_nil (List.map_eq_nil_iff.mp he)

theorem pitchClasses_range (s : Scale) (tonic : Int) :
    ∀ pc ∈ s.pitchClasses tonic, 0 ≤ pc ∧ pc < 12 := by
  intro pc hpc
  obtain ⟨i, _, rfl⟩ := List.mem_map.mp hpc
  exact ⟨Int.emod_nonneg _ (by decide), Int.emod_lt_of_pos _ (by decide)⟩

end Scale

/-! ## 2. Registries -/

namespace Registry

/-- The registries that come from the one known from the start by registering scales. A call that
    fails leaves no registry behind, so that the old one stays. -/
inductive Reachable : Registry → Prop
  | builtin : Reachable builtin
  | register {r r' : Registry} {name : String} {intervals : List Int} {triads : List String}
      {s : Scale} (h : Reachable r) (hs : r.register name intervals triads = .ok (s, r')) :
      Reachable r'

/-- What a registering call does that does not fail. -/
theorem register_eq_ok {r r' : Registry} {name : String} {intervals : List Int}
    {triads : List String} {s : Scale} :
    r.register name intervals triads = .ok (s, r')
      ↔ Scale.make name intervals triads = .ok s ∧ r' = r.insert s := by
  rw [register, map_eq_ok]
  constructor
  · rintro ⟨a, ha, he⟩
    obtain ⟨rfl, rfl⟩ := Prod.mk.inj he
    exact ⟨ha, rfl⟩
  · rintro ⟨hs, rfl⟩
    exact ⟨s, hs, rfl⟩

theorem find?_insert (r : Registry) (s : Scale) (name : String) :
    (r.insert s).find? name = if s.name = name then some s else r.find? name := by
  unfold find? insert
  rw [List.find?_cons]
  by_cases h : s.name = name
  · rw [if_pos h, beq_iff_eq.mpr h]
  · rw [if_neg h, beq_eq_false_iff_ne.mpr h]

theorem mem_of_find? {r : Registry} {name : String} {s : Scale} (h : r.find? name = some s) :
    s ∈ r.scales :=
  List.mem_of_find?_eq_some h

/-- What a mode that is known is looked up as. -/
theorem get_eq_ok {r : Registry} {mode : String} {s : Scale} :
    r.get mode = .ok s ↔ r.find? (nameOf mode) = some s := by
  unfold get
  split <;> simp [*]

namespace Reachable

/-- **All scales of a registry are well-formed.** -/
theorem wellFormed {r : Registry} (h : r.Reachable) : ∀ s ∈ r.scales, s.WellFormed := by
  induction h with
  | builtin => exact fun s hs => Scale.wellFormed_builtin hs
  | register _ hs ih =>
    obtain ⟨hmake, rfl⟩ := register_eq_ok.mp hs
    intro s' hs'
    rcases List.mem_cons.mp hs' with rfl | hs'
    · exact Scale.wellFormed_of_make hmake
    · exact ih s' hs'

theorem find?_of_builtin {r : Registry} (h : r.Reachable) {name : String}
    (hname : (Registry.builtin.find? name).isSome = true) : ∃ s, r.find? name = some s := by
  induction h with
  | builtin => exact Option.isSome_iff_exists.mp hname
  | @register r r' _ _ _ s _ hs ih =>
    obtain ⟨_, rfl⟩ := register_eq_ok.mp hs
    rw [find?_insert]
    split
    · exact ⟨s, rfl⟩
    · exact ih

/-- **A mode known from the start stays known**, under the scale inserted last. -/
theorem get_builtin {r : Registry} (h : r.Reachable) {mode : String}
    (hmode : (Registry.builtin.find? (nameOf mode)).isSome = true) : ∃ s, r.get mode = .ok s := by
  obtain ⟨s, hs⟩ := h.find?_of_builtin hmode
  exact ⟨s, get_eq_ok.mpr hs⟩

end Reachable

end Registry

end Cantilena
