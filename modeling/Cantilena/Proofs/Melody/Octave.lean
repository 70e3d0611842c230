import Cantilena.Proofs.Melody.Raised
import Cantilena.Proofs.Melody.Rating

/-!
# The preferred octave

A melody is rated by its classes, its steps and its span, none of which change when all of it is
raised by octaves. So the preferred octave moves a melody and changes nothing else.

* `Judge.raised`, `Judge.score_raised` -- the same judge some octaves higher, and its ratings;
* `rate_raised` -- the rating of a raised melody;
* `compose_octave` -- melodies and ratings some octaves higher.
-/

namespace Cantilena

/-! ## 1. Ratings -/

namespace Judge

/-- The same judge some octaves higher. -/
def raised (octaves : Int) (j : Judge Int) : Judge Int :=
  { j with params := j.params.raised octaves }

variable (j : Judge Int) {octaves : Int}

/-- A note raised by octaves keeps its class. -/
theorem hasClass_raised {n : Note} (h : n.CanRise (12 * octaves)) (classes : List Int) :
    hasClass (n.raised (12 * octaves)) classes = hasClass n classes := by
  show Quantity.isOneOf ((n.raised (12 * octaves)).pitch % 12) classes
    = Quantity.isOneOf (n.pitch % 12) classes
  rw [h.pitch_raised, Int.add_mul_emod_self_left]

theorem hitsChord_raised {n : Note} (h : n.CanRise (12 * octaves)) :
    (j.raised octaves).hitsChord (n.raised (12 * octaves)) = j.hitsChord n := by
  unfold hitsChord
  show (settled (n.start - j.offset) >>= _) = (settled (n.start - j.offset) >>= _)
  simp only [hasClass_raised h]
  rfl

theorem addEvent_raised {n : Note} (h : n.CanRise (12 * octaves)) (score : Float) :
    (j.raised octaves).addEvent score (n.raised (12 * octaves)) = j.addEvent score n := by
  unfold addEvent
  rw [hitsChord_raised j h, hasClass_raised h]
  rfl

/-- The parts of all notes of a raised melody. -/
theorem events_raised {notes : List Note} (h : ∀ n ∈ notes, n.CanRise (12 * octaves))
    (score : Float) :
    (notes.map (Note.raised (12 * octaves))).foldlM (j.raised octaves).addEvent score
      = notes.foldlM j.addEvent score := by
  induction notes generalizing score with
  | nil => rfl
  | cons n notes ih =>
    rw [List.map_cons, List.foldlM_cons, List.foldlM_cons,
      addEvent_raised j (h n List.mem_cons_self)]
    exact bind_congr fun score => ih (fun m hm => h m (List.mem_cons_of_mem n hm)) score

/-- The last note of a bar is the raised last note. -/
theorem lastEvent_raised (notes : List Note) (bar : Nat) :
    (j.raised octaves).lastEvent (notes.map (Note.raised (12 * octaves))) bar
      = (j.lastEvent notes bar).map (Option.map (Note.raised (12 * octaves))) := by
  rw [lastEvent_eq, lastEvent_eq, List.filter_map, List.getLast?_map]
  rfl

theorem addCadence_raised {notes : List Note} (h : ∀ n ∈ notes, n.CanRise (12 * octaves))
    (size : Nat) (score : Float) (phrase : Nat) :
    (j.raised octaves).addCadence (notes.map (Note.raised (12 * octaves))) size score phrase
      = j.addCadence notes size score phrase := by
  have hlast : (j.raised octaves).lastBar size phrase = j.lastBar size phrase := rfl
  unfold addCadence
  rw [hlast, lastEvent_raised, lastEvent_eq]
  generalize hfound : (notes.filter _).getLast? = found
  cases found with
  | none => rfl
  | some n =>
    have hn : n ∈ notes := (List.mem_filter.mp (List.mem_of_getLast? hfound)).1
    have hclass := hasClass_raised (h n hn) [j.key.tonic]
    show (if _ then Amount.addTo score (if hasClass (n.raised _) [j.key.tonic] then _ else _)
      else Amount.addTo score (if hasClass (n.raised _) [j.key.tonic] then _ else _)) = _
    rw [hclass]
    rfl

/-- **A melody raised by octaves is rated as it was before by a judge that is raised with it.** -/
theorem score_raised {notes : List Note} (h : ∀ n ∈ notes, n.CanRise (12 * octaves)) :
    (j.raised octaves).score (notes.map (Note.raised (12 * octaves))) = j.score notes := by
  have hpitches : (notes.map (Note.raised (12 * octaves))).map Event.pitch
      = (notes.map Event.pitch).map (· + 12 * octaves) := by
    rw [List.map_map, List.map_map]
    exact List.map_congr_left fun n hn => (h n hn).pitch_raised
  have hcadence (size : Nat) : (j.raised octaves).addCadence
        (notes.map (Note.raised (12 * octaves))) size
      = j.addCadence notes size :=
    funext fun score => funext fun phrase => j.addCadence_raised h size score phrase
  have hgaps : frequentGaps (notes.map (Note.raised (12 * octaves))) = frequentGaps notes := by
    unfold frequentGaps
    rw [List.map_map]
    rfl
  unfold score
  simp only [hpitches, events_raised j h, hcadence, hgaps, spanOf_add, contour_add]
  rfl

end Judge

/-- **A raised melody has the same rating** against settings that are raised with it. -/
theorem rate_raised (r : Registry) (p : Params Int) (entries : List Entry) (w : Weights)
    {octaves : Int} {notes : List Note} (h : ∀ n ∈ notes, n.CanRise (12 * octaves)) :
    rate r (notes.map (Note.raised (12 * octaves))) entries (p.raised octaves) w
      = rate r notes entries p w := by
  have hsorted : ∀ n ∈ byStart notes, n.CanRise (12 * octaves) :=
    fun n hn => h n (List.mem_mergeSort.mp hn)
  unfold rate rateOver
  rw [List.length_map, byStart_raised]
  by_cases hfew : notes.length < fewestRated
  · rw [if_pos hfew, if_pos hfew]
  · rw [if_neg hfew, if_neg hfew]
    refine bind_congr fun entries => bind_congr fun _ => bind_congr fun key => ?_
    exact congrArg Logged.ofExcept (Judge.score_raised ⟨barChords entries, key, p, w⟩ hsorted)

/-! ## 2. Everything together -/

/-- **The preferred octave raises a melody and changes nothing else**, as long as the register stays
    clear of the ends of the range of notes in both octaves. Settings that are admitted have a
    composer, and so do the same settings some octaves higher. From the same state of every source
    the second one has the melody of the first, every pitch raised by all of the octaves, and
    leaves the same state; where the first one fails, the second fails with the same cause, which
    happens with no source that always picks. And the raised melody has the same rating, with the
    same reports. -/
theorem compose_octave {r : Registry} (hr : r.Reachable) {p : Params Int} (hp : p.Admitted r)
    (entries : List Entry) (w : Weights) (octaves : Int) :
    ∃ c c' : Composer Int, (composerFor r p entries).outcome = .ok c
      ∧ (composerFor r (p.raised octaves) entries).outcome = .ok c'
      ∧ (c.Roomy → c'.Roomy → ∀ (σ : Type) (src : Source σ) (s : σ),
          ∃ (outcome : Except Fault (List Note)) (s' : σ),
            (c.compose src).run s = (outcome, s')
            ∧ (c'.compose src).run s
              = (outcome.map (List.map (Note.raised (12 * octaves))), s')
            ∧ (src.AlwaysPicks → ∃ melody, outcome = .ok melody)
            ∧ ∀ melody, outcome = .ok melody →
              (∀ n ∈ melody, (n.raised (12 * octaves)).pitch = n.pitch + 12 * octaves)
              ∧ rate r (melody.map (Note.raised (12 * octaves))) entries (p.raised octaves) w
                = rate r melody entries p w) := by
  obtain ⟨k, hkey, hk⟩ := Params.exists_key hr hp (barChords entries)
  refine ⟨_, _, composerFor_eq_ok hkey, composerFor_eq_ok (p := p.raised octaves) hkey, ?_⟩
  intro hc hc' σ src s
  have hraised := Composer.compose_raised src (c := ⟨p, k, barChords entries⟩) hk hc hc'
  refine ⟨_, _, rfl, ?_, fun hsrc => ?_, fun melody hmelody => ?_⟩
  · have hmap := (hraised.mono fun _ _ h => h.1).eq_map
    exact (congrArg (·.run s) hmap).trans (run_map ..)
  · obtain ⟨melody, s', hrun, -⟩ :=
      Composer.yields_compose hsrc (Composer.keeps_range ⟨p, k, barChords entries⟩) s
    exact ⟨melody, congrArg Prod.fst hrun⟩
  · obtain ⟨_, -, -, hrise⟩ := (hraised s).1.exists_of_ok hmelody
    exact ⟨fun n hn => (hrise n hn).pitch_raised, rate_raised r p entries w hrise⟩

/-- Two bars of A minor, and the same one octave higher: a note at the start of the second bar is
    among those that are raised. -/
theorem compose_octave_fifth :
    (Params.start.raised 1).frame.octave = 5 ∧ ∃ c c' : Composer Int,
      (composerFor Registry.builtin Params.start [⟨['A', 'm'], 2, by decide⟩]).outcome = .ok c
        ∧ (composerFor Registry.builtin (Params.start.raised 1)
          [⟨['A', 'm'], 2, by decide⟩]).outcome = .ok c'
        ∧ c.Roomy ∧ c'.Roomy
        ∧ ∃ melody : List Note, ((c.compose (Source.fixed 0.5)).run ()).1 = .ok melody
          ∧ ((c'.compose (Source.fixed 0.5)).run ()).1 = .ok (melody.map (Note.raised 12))
          ∧ (∀ n ∈ melody, (n.raised 12).pitch = n.pitch + 12) ∧ ∃ n ∈ melody, n.start = 16 := by
  obtain ⟨c, c', hc, hc', hmelodies⟩ := compose_octave .builtin
    (Params.admitted_start Registry.builtin) [⟨['A', 'm'], 2, by decide⟩] {} 1
  obtain rfl := Except.ok.inj (composerFor_start.symm.trans hc)
  have hroomy : Composer.start.Roomy := ⟨by decide, by decide⟩
  have hroomy' : c'.Roomy := by
    rw [composerFor_eq_ok (p := Params.start.raised 1) key_start] at hc'
    rw [← Except.ok.inj hc']
    exact ⟨by decide, by decide⟩
  obtain ⟨_, _, hrun, hrun', hexists, hraised⟩ :=
    hmelodies hroomy hroomy' Unit (Source.fixed 0.5) ()
  obtain ⟨melody, rfl⟩ := hexists (Source.alwaysPicks_fixed 0.5)
  have hsecond :=
    Composer.exists_note_of_firstTicks (by decide) firstTicks_start hrun 16 (by decide)
  exact ⟨rfl, _, c', hc, hc', hroomy, hroomy', melody, congrArg Prod.fst hrun,
    congrArg Prod.fst hrun', (hraised melody rfl).1, hsecond⟩

end Cantilena
