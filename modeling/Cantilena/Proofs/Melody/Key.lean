import Cantilena.Melody.Params
import Cantilena.Proofs.Scale.Nearest
import Cantilena.Proofs.Scale.Registry

/-!
# Keys that rest on a scale

* `Key.Sound` -- a key with at least one class, all of them classes;
* `sound_of_resolve`, `Registry.sound_of_key` -- the keys of scales chosen up front and of modes;
* `Params.Admitted` -- settings whose names are known in a registry;
* `Params.exists_key` -- such settings have a sound key over every progression.
-/

namespace Cantilena

/-! ## 1. Sound keys -/

/-- A key with at least one class, and with classes from 0 to 11. -/
structure Key.Sound (k : Key) : Prop where
  ne_nil : k.classes ≠ []
  range : ∀ c ∈ k.classes, 0 ≤ c ∧ c < 12

/-- A pitch put on the scale of a sound key is the nearest one. -/
theorem Key.Sound.isNearest {k : Key} (h : k.Sound) (pitch : Int) :
    IsNearest k.classes pitch (k.snap pitch) :=
  isNearest_nearestIn h.ne_nil h.range pitch

namespace Registry

variable {r : Registry}

theorem sound_of_key (hr : r.Reachable) {tonic : Int} {mode : String} {k : Key}
    (h : r.key tonic mode = .ok k) : k.Sound := by
  obtain ⟨s, hs, hk⟩ := bind_eq_ok.mp h
  rw [← pure_eq_ok.mp hk]
  have hwf := hr.wellFormed s (mem_of_find? (get_eq_ok.mp hs))
  exact ⟨Scale.pitchClasses_ne_nil hwf tonic, Scale.pitchClasses_range s tonic⟩

theorem exists_key {mode : String} {s : Scale} (h : r.get mode = .ok s) (tonic : Int) :
    ∃ k, r.key tonic mode = .ok k :=
  ⟨⟨tonic, s.name, s.pitchClasses tonic⟩, bind_eq_ok.mpr ⟨s, h, rfl⟩⟩

end Registry

/-! ## 2. Scales chosen up front -/

namespace Pitch

theorem classNamed_range {name : List Char} {pc : Int} (h : classNamed name = .ok pc) :
    0 ≤ pc ∧ pc < 12 := by
  unfold classNamed at h
  split at h
  · rw [← Except.ok.inj h]
    exact ⟨Int.emod_nonneg _ (by decide), Int.emod_lt_of_pos _ (by decide)⟩
  · cases h

end Pitch

theorem sound_of_resolve {r : Registry} (hr : r.Reachable) {s : PreferredScale} {k : Key}
    (h : s.resolve r = .ok k) : k.Sound := by
  unfold PreferredScale.resolve at h
  split at h
  · obtain ⟨tonic, _, h⟩ := bind_eq_ok.mp h
    exact Registry.sound_of_key hr h
  · rename_i hnotes
    obtain ⟨classes, hclasses, h⟩ := bind_eq_ok.mp h
    obtain ⟨all, hall, hdistinct⟩ := bind_eq_ok.mp hclasses
    obtain rfl := pure_eq_ok.mp hdistinct
    rw [← pure_eq_ok.mp h]
    refine ⟨?_, fun c hc => ?_⟩
    · show all.eraseDups ≠ []
      cases all with
      | nil =>
        have : s.notes = [] := List.length_eq_zero_iff.mp (length_of_mapM hall).symm
        rw [this] at hnotes
        exact absurd rfl hnotes
      | cons pc rest =>
        rw [List.eraseDups_cons]
        exact List.cons_ne_nil _ _
    · obtain ⟨name, -, hname⟩ := exists_of_mem_mapM hall (List.mem_eraseDups.mp hc)
      exact Pitch.classNamed_range hname

/-! ## 3. Settings -/

namespace Params

variable {ν : Type} [Quantity ν] {p : Params ν} {r : Registry}

/-- What is checked against a registry when settings are made: the mode is taken from the first chord
    or known, and a scale chosen up front is a scale. -/
structure Admitted (p : Params ν) (r : Registry) : Prop where
  mode : ∃ mode, modeOf r (.text p.mode) = .ok mode
  preferred : ∀ s, p.preferred = some s → ∃ k, s.resolve r = .ok k

theorem modeOf_automatic (r : Registry) : modeOf r (.text automatic) = .ok automatic := by
  have h : Text.lowerString automatic = automatic := by decide +kernel
  rw [modeOf, if_pos h]

/-- The settings from the start are admitted everywhere. -/
theorem admitted_start (r : Registry) : start.Admitted r where
  mode := ⟨automatic, modeOf_automatic r⟩
  preferred := fun _ h => by cases h

theorem exists_implied (hr : r.Reachable) (chord : Chord) :
    ∃ s, r.get (impliedMode chord) = .ok s := by
  unfold impliedMode
  split
  · exact hr.get_builtin (by decide +kernel)
  · split
    · exact hr.get_builtin (by decide +kernel)
    · exact hr.get_builtin (by decide +kernel)

/-- **Settings that are admitted have a key, and a sound one, whatever the chords are.** -/
theorem exists_key (hr : r.Reachable) (hp : p.Admitted r) (bars : List (Option Chord)) :
    ∃ k, p.key r bars = .ok k ∧ k.Sound := by
  unfold key
  split
  · rename_i s hs
    obtain ⟨k, hk⟩ := hp.preferred s hs
    exact ⟨k, hk, sound_of_resolve hr hk⟩
  · have hget : ∃ s, r.get (if Text.lowerString p.mode == automatic
        then impliedMode ((bars.headD none).getD fallbackChord) else p.mode) = .ok s := by
      split
      · exact exists_implied hr _
      · rename_i hmode
        obtain ⟨mode, h⟩ := hp.mode
        rw [modeOf, if_neg (by simpa using hmode)] at h
        obtain ⟨s, hs, _⟩ := map_eq_ok.mp h
        exact ⟨s, hs⟩
    obtain ⟨s, hs⟩ := hget
    obtain ⟨k, hk⟩ := Registry.exists_key hs ((bars.headD none).getD fallbackChord).root
    exact ⟨k, hk, Registry.sound_of_key hr hk⟩

end Params

end Cantilena
