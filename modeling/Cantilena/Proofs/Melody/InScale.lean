import Cantilena.Proofs.Melody.Shape
import Cantilena.Random.Script

/-!
# Melodies and their scale

Pitches are put on the scale before they are kept within the range of all notes, so that a melody
can leave its scale at the ends of that range, and only there.

* `compose_in_scale` -- a melody stays in its scale where the register fits, and what is off the
  scale anywhere else is cut off;
* `compose_off_scale` -- a melody in a high octave that leaves its scale.
-/

namespace Cantilena

open Composer

/-- **A melody stays in its scale where the register fits**, whatever is drawn; and it is exactly such
    a register that keeps every placed pitch on the scale. Where the register sticks out, a note is
    in the scale or is the end of the range of notes at which the register is cut off. -/
theorem compose_in_scale {σ : Type} {src : Source σ} (hsrc : src.AlwaysPicks) {r : Registry}
    (hr : r.Reachable) {p : Params Int} (hp : p.Admitted r) (entries : List Entry) :
    ∃ c : Composer Int, (composerFor r p entries).outcome = .ok c
      ∧ ((∀ pitch, c.place pitch % 12 ∈ c.key.classes) ↔ c.Fits)
      ∧ Yields (c.compose src) fun notes : List Note =>
          (c.Fits → ∀ n ∈ notes, n.pitch % 12 ∈ c.key.classes)
            ∧ ∀ n ∈ notes, n.pitch % 12 ∈ c.key.classes ∨ c.IsCutOff n.pitch := by
  obtain ⟨k, hc, hk⟩ := exists_composer hr hp entries
  refine ⟨_, hc, mem_place_iff_fits hk, ?_⟩
  refine (yields_compose hsrc (keeps_landed hk)).mono ?_
  rintro notes ⟨-, hshaped⟩
  refine ⟨fun hfits n hn => ?_, fun n hn => ?_⟩
  · obtain ⟨bar, _, _, hn⟩ := hshaped n hn
    exact hn.pitch.mem_of_fits hfits
  · obtain ⟨bar, _, _, hn⟩ := hshaped n hn
    exact hn.pitch.mem

/-- Two bars of A minor with the settings from the start, whose register fits: the note at the start
    of the second bar is in the scale. -/
theorem compose_in_scale_start :
    ∃ c : Composer Int,
      (composerFor Registry.builtin Params.start [⟨['A', 'm'], 2, by decide⟩]).outcome = .ok c
        ∧ c.Fits ∧ ∃ notes : List Note, ((c.compose (Source.fixed 0.5)).run ()).1 = .ok notes
          ∧ (∀ n ∈ notes, n.pitch % 12 ∈ c.key.classes) ∧ ∃ n ∈ notes, n.start = 16 := by
  obtain ⟨c, hc, -, hmelody⟩ := compose_in_scale (Source.alwaysPicks_fixed 0.5) .builtin
    (Params.admitted_start Registry.builtin) [⟨['A', 'm'], 2, by decide⟩]
  obtain rfl := Except.ok.inj (composerFor_start.symm.trans hc)
  have hfits : Composer.start.Fits := by decide +kernel
  obtain ⟨notes, _, hrun, hin, -⟩ := hmelody ()
  have hsecond := exists_note_of_firstTicks (by decide) firstTicks_start hrun 16 (by decide)
  exact ⟨_, hc, hfits, notes, congrArg Prod.fst hrun, hin hfits, hsecond⟩

/-- Settings of a melody in A major in the tenth octave, which no note reaches. -/
def Params.tenthOctave : Params Int where
  frame := { Frame.start with octave := 10 }
  preferred := some { root := "A" }

/-- The composer of one bar with these settings. -/
def Composer.tenthOctave : Composer Int where
  params := .tenthOctave
  key := ⟨9, "ionian", [9, 11, 1, 2, 4, 6, 8]⟩
  bars := [some { root := 9 }]

/-- One bar of A major in the tenth octave, with a source that always gives one half: a note is
    the G at the upper end of the range, since the register lies above it. -/
theorem compose_off_scale :
    Params.tenthOctave.Admitted Registry.builtin
      ∧ (composerFor Registry.builtin .tenthOctave [⟨['A'], 1, by decide⟩]).outcome
        = .ok .tenthOctave
      ∧ ∃ notes : List Note,
        ((Composer.tenthOctave.compose (scriptSource #[0.5])).run 0).1 = .ok notes
          ∧ ∃ n ∈ notes, n.pitch % 12 ∉ Composer.tenthOctave.key.classes := by
  have hkey : Params.tenthOctave.key Registry.builtin [some { root := 9 }]
      = .ok Composer.tenthOctave.key := toOption_eq_some.mp (by decide +kernel)
  refine ⟨⟨⟨automatic, Params.modeOf_automatic _⟩, ?_⟩, composerFor_eq_ok hkey, ?_⟩
  · rintro s ⟨⟩
    exact ⟨_, hkey⟩
  · -- the sorting of the melody does not reduce, so the strokes are run instead
    have hwritten : (((Composer.tenthOctave.strokes (scriptSource #[0.5])).run 0).1 :
        Except Fault (List (Stroke Note))).toOption.any (fun strokes =>
          !strokes.isEmpty && strokes.all fun s => s.note.pitch == 127) = true := by
      unfold strokes
      rw [show Composer.tenthOctave.bars = [some { root := 9 }] from rfl, writePhrases]
      decide +kernel
    obtain ⟨strokes, hstrokes, hall⟩ := (Option.any_eq_true _ _).mp hwritten
    obtain ⟨hsome, hall⟩ := Bool.and_eq_true_iff.mp hall
    have hpitch (n : Note) (hn : n ∈ strokes.map (·.note)) : n.pitch = 127 := by
      obtain ⟨s, hs, rfl⟩ := List.mem_map.mp hn
      exact beq_iff_eq.mp (List.all_eq_true.mp hall s hs)
    cases strokes with
    | nil => cases hsome
    | cons first others =>
      obtain ⟨n, hn, -, -⟩ := exists_mem_loudestPerTick
        (List.mem_map_of_mem List.mem_cons_self : first.note ∈ (first :: others).map (·.note))
      refine ⟨_, congrArg Prod.fst (run_bind_of_ok (Prod.ext (toOption_eq_some.mp hstrokes) rfl)),
        n, hn, ?_⟩
      rw [hpitch n (mem_of_mem_loudestPerTick hn)]
      decide

end Cantilena
