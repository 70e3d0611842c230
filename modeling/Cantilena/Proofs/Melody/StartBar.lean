import Cantilena.Proofs.Melody.Later
import Cantilena.Proofs.Melody.Rating
import Cantilena.Proofs.Melody.Search

/-!
# Searches that start later

A melody is rated by where its notes stand in their bars, not by when the first bar starts. So a
search that starts some bars later finds the same melody, moved in time.

* `Judge.later`, `Judge.score_later` -- the same judge some bars later, and its ratings;
* `rate_later` -- the rating of a melody moved in time;
* `buildCandidate_later`, `bestMelody_later` -- a candidate, and the pick of a search;
* `compose_start_bar` -- melodies, ratings and searches that start some bars later.
-/

namespace Cantilena

/-! ## 1. Ratings -/

namespace Judge

/-- The same judge some bars later. -/
def later (bars : Nat) (j : Judge Int) : Judge Int := { j with params := j.params.later bars }

variable (j : Judge Int) (bars : Nat)

theorem offset_later : (j.later bars).offset = j.offset + j.params.frame.ticksOf bars := by
  rw [Frame.ticksOf_eq]
  show (j.params.frame.startBar + bars) * j.stepsPerBar = j.params.frame.startBar * j.stepsPerBar + _
  rw [Int.add_mul]
  rfl

theorem hitsChord_later (n : Note) :
    (j.later bars).hitsChord (n.later (j.params.frame.ticksOf bars)) = j.hitsChord n := by
  have hstep : (n.later (j.params.frame.ticksOf bars)).start - (j.later bars).offset
      = n.start - j.offset := by
    rw [Note.start_later, offset_later]
    omega
  unfold hitsChord
  show (settled ((n.later _).start - (j.later bars).offset) >>= _)
    = (settled (n.start - j.offset) >>= _)
  rw [hstep]
  rfl

theorem addEvent_later (score : Float) (n : Note) :
    (j.later bars).addEvent score (n.later (j.params.frame.ticksOf bars)) = j.addEvent score n := by
  unfold addEvent
  rw [hitsChord_later]
  rfl

theorem lastEvent_later (notes : List Note) (bar : Nat) :
    (j.later bars).lastEvent (notes.map (Note.later (j.params.frame.ticksOf bars))) bar
      = (j.lastEvent notes bar).map (Option.map (Note.later (j.params.frame.ticksOf bars))) := by
  have hfirst : (j.later bars).offset + bar * (j.later bars).stepsPerBar
      = j.offset + bar * j.stepsPerBar + j.params.frame.ticksOf bars := by
    rw [offset_later]
    exact Int.add_right_comm ..
  have hsteps : (j.later bars).stepsPerBar = j.stepsPerBar := rfl
  rw [lastEvent_eq, lastEvent_eq, hfirst, hsteps, List.filter_map, List.getLast?_map]
  refine congrArg (fun l => Except.ok (Option.map _ (List.getLast? l))) ?_
  refine List.filter_congr fun n _ => ?_
  show (decide (_ ≤ n.start + _) && decide (n.start + _ < _)) = _
  rw [Bool.eq_iff_iff, Bool.and_eq_true, Bool.and_eq_true, decide_eq_true_iff, decide_eq_true_iff,
    decide_eq_true_iff, decide_eq_true_iff]
  omega

theorem addCadence_later (notes : List Note) (size : Nat) (score : Float) (phrase : Nat) :
    (j.later bars).addCadence (notes.map (Note.later (j.params.frame.ticksOf bars))) size score
        phrase
      = j.addCadence notes size score phrase := by
  have hlast : (j.later bars).lastBar size phrase = j.lastBar size phrase := rfl
  unfold addCadence
  rw [hlast, lastEvent_later]
  cases j.lastEvent notes (j.lastBar size phrase) with
  | error e => rfl
  | ok last => cases last <;> rfl

theorem frequentGaps_later (ticks : Nat) (notes : List Note) :
    frequentGaps (notes.map (Note.later ticks)) = frequentGaps notes := by
  have hstarts : (notes.map (Note.later ticks)).map Event.start
      = (notes.map Note.start).map (· + (ticks : Int)) := by
    rw [List.map_map, List.map_map]
    rfl
  unfold frequentGaps
  rw [hstarts, differences_add]
  rfl

/-- **A melody moved in time is rated as it was before by a judge that is moved along.** -/
theorem score_later (notes : List Note) :
    (j.later bars).score (notes.map (Note.later (j.params.frame.ticksOf bars))) = j.score notes := by
  have hpitches : (notes.map (Note.later (j.params.frame.ticksOf bars))).map Event.pitch
      = notes.map Event.pitch := by
    rw [List.map_map]
    rfl
  have hevents (score : Float) :
      (notes.map (Note.later (j.params.frame.ticksOf bars))).foldlM (j.later bars).addEvent score
        = notes.foldlM j.addEvent score := by
    rw [List.foldlM_map]
    exact congrArg (fun f => notes.foldlM f score)
      (funext fun score => funext fun n => j.addEvent_later bars score n)
  have hcadence (size : Nat) : (j.later bars).addCadence
        (notes.map (Note.later (j.params.frame.ticksOf bars))) size
      = j.addCadence notes size :=
    funext fun score => funext fun phrase => j.addCadence_later bars notes size score phrase
  unfold score
  simp only [hpitches, hevents, hcadence, frequentGaps_later]
  rfl

end Judge

section

variable (r : Registry) (p : Params Int) (entries : List Entry) (w : Weights) (bars : Nat)

/-- **A melody moved in time has the same rating** against settings that start as much later. -/
theorem rate_later (notes : List Note) :
    rate r (notes.map (Note.later (p.frame.ticksOf bars))) entries (p.later bars) w
      = rate r notes entries p w := by
  unfold rate rateOver
  rw [List.length_map, byStart_later]
  split
  · rfl
  · refine bind_congr fun entries => bind_congr fun _ => bind_congr fun key => ?_
    exact congrArg Logged.ofExcept (Judge.score_later ⟨barChords entries, key, p, w⟩ bars _)

/-! ## 2. Searches -/

/-- The same candidate some ticks later. -/
def Candidate.later (ticks : Nat) (c : Candidate Note) : Candidate Note :=
  { c with events := c.events.map (Note.later ticks) }

theorem Candidate.alike_later (ticks : Nat) : Alike (Candidate.later ticks) where
  seed _ := rfl
  score _ := rfl

/-- The composer of a progression has the key of its bars. -/
theorem composerFor_eq :
    composerFor r p entries = (do
      Logged.tell (unreadSymbols entries)
      let k ← (p.key r (barChords entries) : Except Fault Key)
      return ⟨p, k, barChords entries⟩) := by
  unfold composerFor Composer.make
  refine bind_congr (m := Logged) fun _ => ?_
  cases p.key r (barChords entries) with
  | error e => rfl
  | ok k => rfl

/-- **The candidate of settings that start later is the candidate, moved in time.** -/
theorem buildCandidate_later (spare : Int) :
    buildCandidate r entries (p.later bars) w spare
      = Candidate.later (p.frame.ticksOf bars) <$> buildCandidate r entries p w spare := by
  have hcomposed (k : Key) (twister : Twister) :
      (Composer.compose Twister.source ⟨p.later bars, k, barChords entries⟩ twister
          : Except Fault (List Note) × Twister).1
        = (Composer.compose Twister.source ⟨p, k, barChords entries⟩ twister).1.map
          (List.map (Note.later (p.frame.ticksOf bars))) := by
    have hlater := Composer.compose_later Twister.source ⟨p, k, barChords entries⟩ bars
    refine (congrArg (fun d => (d.run twister).1) hlater).trans ?_
    rw [run_map]
    rfl
  have hkey : (p.later bars).key r (barChords entries) = p.key r (barChords entries) := rfl
  unfold buildCandidate
  rw [composerFor_eq, composerFor_eq, hkey]
  simp only [bind_assoc, pure_bind, map_bind]
  refine bind_congr fun twister => bind_congr fun _ => bind_congr fun k => ?_
  rw [hcomposed, Logged.lift_map_bind]
  refine bind_congr fun notes => ?_
  rw [rate_later]
  exact bind_congr fun score => (map_pure _ _).symm

/-- **A search that starts later picks the same candidate, moved in time**, with the same reports,
    and leaves the same state of chance. -/
theorem bestMelody_later {σ : Type} (src : Source σ) (state : σ)
    (progression : Except Fault (List Entry)) (count keep spare : Int) :
    bestMelody src state r progression (p.later bars) w count keep spare
      = (fun best => (best.1.later (p.frame.ticksOf bars), best.2))
        <$> bestMelody src state r progression p w count keep spare := by
  have hbuild (entries : List Entry) (seed : Seed) (spare : Int) :
      buildCandidate r entries { p.later bars with seed } w spare
        = Candidate.later (p.frame.ticksOf bars)
          <$> buildCandidate r entries { p with seed } w spare :=
    buildCandidate_later r { p with seed } entries w bars spare
  have hseed : (p.later bars).seed = p.seed := rfl
  have hcandidates : candidates r progression (p.later bars) w count spare
      = List.map (Candidate.later (p.frame.ticksOf bars))
        <$> candidates r progression p w count spare :=
    Alike.candidates hseed hbuild count spare
  exact (Candidate.alike_later (p.frame.ticksOf bars)).bestMelody hcandidates src state keep

end

/-! ## 3. Everything together -/

/-- **The first bar moves a melody in time and changes nothing else.** Settings that are admitted
    have a composer, and so do the same settings some bars later. From the same state of every
    source both have a melody, the second one is the first moved by the ticks of these bars, and
    the state that is left is the same. Every melody has the same rating when it is moved along
    with its settings. And a search, whatever becomes of it, picks the same candidate, with the
    same seed, the same rating and its notes moved, makes the same reports and leaves the same
    state of chance. -/
theorem compose_start_bar {r : Registry} (hr : r.Reachable) {p : Params Int} (hp : p.Admitted r)
    (entries : List Entry) (w : Weights) (bars : Nat) :
    ∃ c c' : Composer Int, (composerFor r p entries).outcome = .ok c
      ∧ (composerFor r (p.later bars) entries).outcome = .ok c'
      ∧ (∀ (σ : Type) (src : Source σ), src.AlwaysPicks → ∀ s, ∃ melody s',
          (c.compose src).run s = (.ok melody, s')
          ∧ (c'.compose src).run s
            = (.ok (melody.map (Note.later (bars * p.frame.stepsPerBar.toNat))), s'))
      ∧ (∀ melody : List Note,
          rate r (melody.map (Note.later (bars * p.frame.stepsPerBar.toNat))) entries
            (p.later bars) w = rate r melody entries p w)
      ∧ ∀ (σ : Type) (src : Source σ) (s : σ) (count keep spare : Int),
          bestMelody src s r (.ok entries) (p.later bars) w count keep spare
            = (fun best : Candidate Note × σ =>
                (best.1.later (bars * p.frame.stepsPerBar.toNat), best.2))
              <$> bestMelody src s r (.ok entries) p w count keep spare := by
  obtain ⟨k, hkey, -⟩ := Params.exists_key hr hp (barChords entries)
  refine ⟨_, _, composerFor_eq_ok hkey, composerFor_eq_ok (p := p.later bars) hkey, ?_,
    rate_later r p entries w bars, fun σ src s count keep spare =>
      bestMelody_later r p w bars src s (.ok entries) count keep spare⟩
  intro σ src hsrc s
  obtain ⟨melody, s', hrun, -⟩ :=
    Composer.yields_compose hsrc (Composer.keeps_range ⟨p, k, barChords entries⟩) s
  refine ⟨melody, s', hrun, ?_⟩
  have hlater := Composer.compose_later src ⟨p, k, barChords entries⟩ bars
  refine (congrArg (·.run s) hlater).trans ?_
  rw [run_map, hrun]
  rfl

/-- Two bars of A minor, and the same three bars later: the melody has a note at the start of its
    second bar, which moves to the start of the fifth. -/
theorem compose_start_bar_third :
    (Params.start.later 3).frame.startBar = 3 ∧ ∃ c c' : Composer Int,
      (composerFor Registry.builtin Params.start [⟨['A', 'm'], 2, by decide⟩]).outcome = .ok c
        ∧ (composerFor Registry.builtin (Params.start.later 3)
          [⟨['A', 'm'], 2, by decide⟩]).outcome = .ok c'
        ∧ ∃ melody : List Note, ((c.compose (Source.fixed 0.5)).run ()).1 = .ok melody
          ∧ ((c'.compose (Source.fixed 0.5)).run ()).1 = .ok (melody.map (Note.later 48))
          ∧ rate Registry.builtin (melody.map (Note.later 48)) [⟨['A', 'm'], 2, by decide⟩]
              (Params.start.later 3) {}
            = rate Registry.builtin melody [⟨['A', 'm'], 2, by decide⟩] Params.start {}
          ∧ ∃ n ∈ melody, n.start = 16 ∧ (n.later 48).start = 64 := by
  obtain ⟨c, c', hc, hc', hmelodies, hratings, -⟩ := compose_start_bar .builtin
    (Params.admitted_start Registry.builtin) [⟨['A', 'm'], 2, by decide⟩] {} 3
  obtain rfl := Except.ok.inj (composerFor_start.symm.trans hc)
  obtain ⟨melody, _, hrun, hrun'⟩ := hmelodies Unit (Source.fixed 0.5)
    (Source.alwaysPicks_fixed 0.5) ()
  obtain ⟨n, hn, hstart⟩ :=
    Composer.exists_note_of_firstTicks (by decide) firstTicks_start hrun 16 (by decide)
  have hlater : (n.later 48).start = 64 := by
    rw [Note.start_later, hstart]
    rfl
  exact ⟨rfl, _, c', hc, hc', melody, congrArg Prod.fst hrun, congrArg Prod.fst hrun',
    hratings melody, n, hn, hstart, hlater⟩

end Cantilena
