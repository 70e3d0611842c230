import Cantilena.Progression
import Cantilena.Proofs.Melody.Key
import Cantilena.Proofs.Notation.Modest
import Cantilena.Proofs.Progression.Triads
import Cantilena.Proofs.Scale.History

/-!
# Keys that start on their tonic

Whatever scales have been registered, the classes of a key are distinct and the first of them is
the tonic. Offsets that start at 0 and are distinct within an octave give such classes on every
tonic; classes that are taken from notes are kept once each, and the first one is the tonic.

* `Key.Rests` -- a sound key whose classes are distinct and start on the tonic;
* `rests_of_key`, `rests_of_resolve` -- the keys of modes and of scales chosen up front;
* `Chord.IsRooted`, `isRooted_of_barChords` -- chords on a class, as all chords of progressions are;
* `Params.rests_of_key` -- the key of a melody;
* `keys_rest` -- all of it for a registry after any calls.
-/

namespace Cantilena

/-! ## 1. Distinct classes -/

namespace Scale

/-- Offsets within an octave that differ stay apart on every tonic. -/
theorem pitchClasses_nodup {s : Scale} (h : s.WellFormed) (tonic : Int) :
    (s.pitchClasses tonic).Nodup := by
  refine List.pairwise_map.mpr (h.distinct.imp_of_mem fun {i j} hi hj hne heq => hne ?_)
  have hi := h.range i hi
  have hj := h.range j hj
  omega

theorem head?_pitchClasses {s : Scale} (h : s.WellFormed) (tonic : Int) :
    (s.pitchClasses tonic).head? = some (tonic % 12) := by
  rw [pitchClasses, List.head?_map, h.starts]
  exact congrArg some (congrArg (· % 12) (Int.add_zero tonic))

end Scale

/-- By induction on the length, for the rest is filtered before it is cleared of its repeats. -/
theorem nodup_eraseDups {α : Type} [BEq α] [LawfulBEq α] (l : List α) : l.eraseDups.Nodup := by
  induction hn : l.length using Nat.strongRecOn generalizing l with
  | ind n ih =>
    cases l with
    | nil => exact List.nodup_nil
    | cons a l =>
      rw [List.eraseDups_cons, List.nodup_cons]
      refine ⟨fun hmem => ?_, ih _ ?_ _ rfl⟩
      · have := (List.mem_filter.mp (List.mem_eraseDups.mp hmem)).2
        simp at this
      · rw [← hn, List.length_cons]
        exact Nat.lt_succ_of_le (List.length_filter_le _ _)

/-! ## 2. Keys -/

/-- A sound key whose classes are distinct and start on the class of the tonic. -/
structure Key.Rests (k : Key) : Prop extends k.Sound where
  distinct : k.classes.Nodup
  starts : k.classes.head? = some (k.tonic % 12)

variable {r : Registry} {k : Key}

/-- A tonic that is a class is the first class itself. -/
theorem Key.Rests.head?_eq (h : k.Rests) (htonic : 0 ≤ k.tonic ∧ k.tonic < 12) :
    k.classes.head? = some k.tonic := by
  rw [h.starts, Int.emod_eq_of_lt htonic.1 htonic.2]

theorem Registry.rests_of_key (hr : r.Reachable) {tonic : Int} {mode : String}
    (h : r.key tonic mode = .ok k) : k.Rests ∧ k.tonic = tonic := by
  have hsound := sound_of_key hr h
  obtain ⟨s, hs, hk⟩ := bind_eq_ok.mp h
  obtain rfl := pure_eq_ok.mp hk
  have hwf := hr.wellFormed s (mem_of_find? (get_eq_ok.mp hs))
  exact ⟨{ hsound with
    distinct := Scale.pitchClasses_nodup hwf tonic
    starts := Scale.head?_pitchClasses hwf tonic }, rfl⟩

/-- **A scale chosen up front has a key that starts on its tonic**, which is a class. -/
theorem rests_of_resolve (hr : r.Reachable) {s : PreferredScale} (h : s.resolve r = .ok k) :
    k.Rests ∧ 0 ≤ k.tonic ∧ k.tonic < 12 := by
  have hsound := sound_of_resolve hr h
  unfold PreferredScale.resolve at h
  split at h
  · obtain ⟨tonic, htonic, h⟩ := bind_eq_ok.mp h
    obtain ⟨hrests, rfl⟩ := Registry.rests_of_key hr h
    exact ⟨hrests, Pitch.classNamed_range htonic⟩
  · obtain ⟨classes, hclasses, h⟩ := bind_eq_ok.mp h
    obtain ⟨all, -, hdistinct⟩ := bind_eq_ok.mp hclasses
    obtain rfl := pure_eq_ok.mp hdistinct
    obtain rfl := pure_eq_ok.mp h
    -- some note names the tonic, for a sound key has a class
    obtain ⟨tonic, rest, hcons⟩ := List.exists_cons_of_ne_nil hsound.ne_nil
    have hhead : all.eraseDups.headD 0 = tonic := by
      rw [show all.eraseDups = tonic :: rest from hcons]
      rfl
    have htonic : 0 ≤ tonic ∧ tonic < 12 :=
      hsound.range tonic (hcons ▸ List.mem_cons_self)
    refine ⟨{ hsound with distinct := nodup_eraseDups all, starts := ?_ }, ?_⟩
    · show all.eraseDups.head? = some (all.eraseDups.headD 0 % 12)
      rw [hhead, Int.emod_eq_of_lt htonic.1 htonic.2,
        show all.eraseDups = tonic :: rest from hcons]
      rfl
    · show 0 ≤ all.eraseDups.headD 0 ∧ all.eraseDups.headD 0 < 12
      rw [hhead]
      exact htonic

/-! ## 3. Chords -/

/-- A chord whose root is a class. -/
def Chord.IsRooted (c : Chord) : Prop := 0 ≤ c.root ∧ c.root < 12

theorem Chord.isRooted_of_ofSymbol? {symbol : List Char} {chord : Chord}
    (h : ofSymbol? symbol = some chord) : chord.IsRooted := by
  obtain ⟨root, _, _, _, hroot, _⟩ := of_ofSymbol?_eq_some h
  rw [IsRooted, hroot]
  exact root.pitchClass_range

theorem isRooted_fallbackChord : fallbackChord.IsRooted := ⟨by decide, by decide⟩

/-- All chords of a progression are on a class. -/
theorem isRooted_of_barChords {entries : List Entry} {chord : Chord}
    (h : some chord ∈ barChords entries) : chord.IsRooted := by
  obtain ⟨e, _, he⟩ := List.mem_flatMap.mp h
  exact Chord.isRooted_of_ofSymbol? (List.eq_of_mem_replicate he).symm

/-! ## 4. Melodies -/

section

variable {ν : Type} [Quantity ν] {p : Params ν} {bars : List (Option Chord)}

/-- **The key of a melody starts on its tonic**, which is a class if it is that of a scale chosen up
    front or if the first chord is on one. -/
theorem Params.rests_of_key (hr : r.Reachable) (h : p.key r bars = .ok k) :
    k.Rests ∧ ((p.preferred = none → ∀ chord, bars.head? = some (some chord) → chord.IsRooted) →
      0 ≤ k.tonic ∧ k.tonic < 12) := by
  unfold Params.key at h
  split at h
  · obtain ⟨hrests, htonic⟩ := rests_of_resolve hr h
    exact ⟨hrests, fun _ => htonic⟩
  · rename_i hnone
    obtain ⟨hrests, htonic⟩ := Registry.rests_of_key hr h
    refine ⟨hrests, fun hrooted => ?_⟩
    rw [htonic]
    cases bars with
    | nil => exact isRooted_fallbackChord
    | cons first bars =>
      cases first with
      | none => exact isRooted_fallbackChord
      | some chord => exact hrooted hnone chord rfl

/-- **Every key rests on a well-formed scale, after any calls of `register`.** A call that fails
    changes nothing; every scale is well-formed; and every key of a scale chosen up front and of a
    melody has distinct classes from 0 to 11, the first of which is the tonic. Only where the tonic
    is that of a first chord that is not on a class is it taken modulo an octave; progressions hold
    no such chord. -/
theorem keys_rest (p : Params ν) (calls : List Registry.Call) :
    (∀ c cause, (Registry.after calls).register c.name c.intervals c.triads = .error cause →
        Registry.after (calls ++ [c]) = Registry.after calls)
      ∧ (∀ s ∈ (Registry.after calls).scales, s.WellFormed)
      ∧ (∀ (s : PreferredScale) k, s.resolve (Registry.after calls) = .ok k →
          k.Rests ∧ k.classes.head? = some k.tonic)
      ∧ (∀ bars k, p.key (Registry.after calls) bars = .ok k →
          k.Rests ∧ ((p.preferred = none → ∀ chord, bars.head? = some (some chord) →
            chord.IsRooted) → k.classes.head? = some k.tonic))
      ∧ (∀ entries k, p.key (Registry.after calls) (barChords entries) = .ok k →
          k.Rests ∧ k.classes.head? = some k.tonic) := by
  have hr := Registry.reachable_after calls
  have hmelody (bars : List (Option Chord)) (k : Key)
      (h : p.key (Registry.after calls) bars = .ok k) :
      k.Rests ∧ ((p.preferred = none → ∀ chord, bars.head? = some (some chord) →
        chord.IsRooted) → k.classes.head? = some k.tonic) := by
    obtain ⟨hrests, htonic⟩ := Params.rests_of_key hr h
    exact ⟨hrests, fun hrooted => hrests.head?_eq (htonic hrooted)⟩
  refine ⟨fun c cause h => ?_, hr.wellFormed, fun s k h => ?_, hmelody, fun entries k h => ?_⟩
  · rw [Registry.after_append_singleton, Registry.attempt_of_error h]
  · obtain ⟨hrests, htonic⟩ := rests_of_resolve hr h
    exact ⟨hrests, hrests.head?_eq htonic⟩
  · obtain ⟨hrests, hstarts⟩ := hmelody _ k h
    exact ⟨hrests, hstarts fun _ chord hchord =>
      isRooted_of_barChords (List.mem_of_head? hchord)⟩

/-- A root beyond the classes is taken as the tonic as it is, but the classes of the key start on its
    class: the key of D in the octave above starts on another number than its tonic. -/
theorem key_of_root_beyond_octave : ∃ k,
    Params.start.key (Registry.after []) [some ⟨14, .major, .absent⟩] = .ok k
      ∧ ¬ (⟨14, .major, .absent⟩ : Chord).IsRooted
      ∧ k.tonic = 14 ∧ k.classes = [2, 4, 6, 7, 9, 11, 1] ∧ k.classes.head? ≠ some k.tonic := by
  have hkey : (Params.start.key (Registry.after []) [some ⟨14, .major, .absent⟩]).toOption
      = some ⟨14, "ionian", [2, 4, 6, 7, 9, 11, 1]⟩ := by decide +kernel
  exact ⟨_, toOption_eq_some.mp hkey, fun h => absurd h.2 (by decide), rfl, rfl, by decide⟩

/-- A mode registered behind a call that fails, on the root of the first chord; and classes taken
    from notes two of which are the same. -/
theorem keys_rest_hirajoshi :
    let r := Registry.after [⟨"flat", [1, 2], []⟩, ⟨"hirajoshi", [0, 2, 3, 7, 8], []⟩]
    (∃ k, { Params.start with mode := "hirajoshi" }.key r [some ⟨9, .minor, .absent⟩] = .ok k
        ∧ k.Rests ∧ k.classes.head? = some k.tonic)
      ∧ ∃ k, PreferredScale.resolve { notes := ["D#", "F", "Eb"] } r = .ok k
        ∧ k.Rests ∧ k.classes.head? = some k.tonic := by
  intro r
  obtain ⟨-, -, hresolve, hkey, -⟩ := keys_rest { Params.start with mode := "hirajoshi" }
    [⟨"flat", [1, 2], []⟩, ⟨"hirajoshi", [0, 2, 3, 7, 8], []⟩]
  have hmode : { Params.start with mode := "hirajoshi" }.key r [some ⟨9, .minor, .absent⟩]
      = .ok ⟨9, "hirajoshi", [9, 11, 0, 4, 5]⟩ := rfl
  have hnotes : PreferredScale.resolve { notes := ["D#", "F", "Eb"] } r
      = .ok ⟨3, "custom", [3, 5]⟩ := rfl
  obtain ⟨hrests, hstarts⟩ := hkey _ _ hmode
  refine ⟨⟨_, hmode, hrests, hstarts fun _ chord h => ?_⟩, ⟨_, hnotes, hresolve _ _ hnotes⟩⟩
  obtain rfl := Option.some.inj (Option.some.inj h)
  exact ⟨by decide, by decide⟩

end

end Cantilena
