import Cantilena.Melody.Rating
import Cantilena.Proofs.Note.Order
import Cantilena.Proofs.Outcome
import Mathlib.Data.List.Nodup

/-!
# Ratings of events in any order

A rating sees the pitches and the starts of events and nothing else, and it puts the events in order
by start alone. So the order in which they are given shows only among events that start together.

* `Point`, `point` -- what a rating sees of an event;
* `Judge.score_points`, `rateOver_congr` -- events are rated as their points are;
* `Together`, `points_byStart` -- events with the same pitches in the same order at every tick have
  the same points by start;
* `rate_of_perm` -- the same events in another order;
* `rate_apart` -- events that start together in another order, with another rating.
-/

namespace Cantilena

/-! ## 1. Points -/

/-- What a rating sees of an event. -/
structure Point (ν : Type) where
  pitch : ν
  start : ν
  deriving DecidableEq

instance {ν : Type} [Quantity ν] : Event (Point ν) ν where
  make pitch start _ _ := .ok ⟨pitch, start⟩
  pitch := Point.pitch
  start := Point.start
  length _ := 1
  velocity _ := 0

section

variable {ν ε : Type} [Quantity ν] [Event ε ν]

/-- The point of an event. -/
def point (e : ε) : Point ν := ⟨Event.pitch e, Event.start e⟩

namespace Judge

variable (j : Judge ν)

theorem lastEvent_points (events : List ε) (bar : Nat) :
    j.lastEvent (events.map point) bar = (j.lastEvent events bar).map (Option.map point) := by
  unfold lastEvent
  cases settled (j.offset + ((bar : Int) : ν) * j.stepsPerBar) with
  | error e => rfl
  | ok start =>
    have hlater : (events.map point).filter (fun p : Point ν => start ≤ Event.start p)
        = (events.filter fun e => start ≤ Event.start e).map point := List.filter_map
    show (if ((events.map point).filter fun p : Point ν => start ≤ Event.start p).isEmpty then _
      else _) = Except.map _ (if (events.filter fun e => start ≤ Event.start e).isEmpty then _ else _)
    rw [hlater, List.isEmpty_map]
    generalize events.filter (fun e => start ≤ Event.start e) = later
    cases later.isEmpty with
    | true => rfl
    | false =>
      cases settled (start + j.stepsPerBar) with
      | error e => rfl
      | ok stop =>
        show Except.ok _ = Except.ok _
        rw [List.filter_map, List.getLast?_map]
        rfl

theorem addCadence_points (events : List ε) (bars : Nat) (score : Float) (phrase : Nat) :
    j.addCadence (events.map point) bars score phrase = j.addCadence events bars score phrase := by
  unfold addCadence
  rw [lastEvent_points]
  cases j.lastEvent events (j.lastBar bars phrase) with
  | error e => rfl
  | ok last => cases last <;> rfl

theorem frequentGaps_points (events : List ε) :
    frequentGaps (events.map point) = frequentGaps events := by
  unfold frequentGaps
  rw [List.map_map]
  rfl

/-- **Events are rated as their points are.** -/
theorem score_points (events : List ε) : j.score (events.map point) = j.score events := by
  have hpitches : (events.map point).map Event.pitch = events.map Event.pitch := by
    rw [List.map_map]
    rfl
  have hevents (score : Float) :
      (events.map point).foldlM j.addEvent score = events.foldlM j.addEvent score := by
    rw [List.foldlM_map]
    rfl
  have hcadence (bars : Nat) :
      j.addCadence (events.map point) bars = j.addCadence events bars :=
    funext fun score => funext fun phrase => j.addCadence_points events bars score phrase
  unfold score
  simp only [hpitches, hevents, hcadence, frequentGaps_points]

end Judge

/-- **Events with the same points by start have the same rating.** -/
theorem rateOver_congr {events events' : List ε}
    (h : (byStart events).map point = (byStart events').map point) (r : Registry)
    (progression : Except Fault (List Entry)) (p : Params ν) (w : Weights) :
    rateOver r events progression p w = rateOver r events' progression p w := by
  have hlength : events.length = events'.length := by
    simpa [byStart] using congrArg List.length h
  have hscore (j : Judge ν) : j.score (byStart events) = j.score (byStart events') := by
    rw [← j.score_points, h, j.score_points]
  unfold rateOver
  simp only [hlength, hscore]

end

/-! ## 2. Events that start together -/

theorem startsBy_point_iff {a b : Point Int} : startsBy a b = true ↔ a.start ≤ b.start := by
  show (!decide (b.start < a.start)) = true ↔ _
  simp

theorem order_points : Sorting.Order (startsBy : Point Int → Point Int → Bool) where
  trans a b c hab hbc := by
    rw [startsBy_point_iff] at *
    omega
  total a b := by
    rw [Bool.or_eq_true, startsBy_point_iff, startsBy_point_iff]
    omega

/-- Whether two rows of notes have the same pitches in the same order at every tick. -/
def Together (l l' : List Note) : Prop :=
  ∀ tick, (l.filter (·.start = tick)).map Note.pitch = (l'.filter (·.start = tick)).map Note.pitch

/-- The points that start with a point are those of the notes at its tick. -/
theorem filter_alike_points (l : List Note) (a : Point Int) :
    (l.map point).filter (Sorting.alike startsBy a)
      = ((l.filter (·.start = a.start)).map Note.pitch).map fun pitch => ⟨pitch, a.start⟩ := by
  have htick : (l.map point).filter (Sorting.alike startsBy a)
      = (l.filter (·.start = a.start)).map point := by
    rw [List.filter_map]
    refine congrArg (List.map point) (List.filter_congr fun n _ => ?_)
    rw [Bool.eq_iff_iff, Function.comp_apply, Sorting.alike, Bool.and_eq_true, startsBy_point_iff,
      startsBy_point_iff, decide_eq_true_iff]
    show a.start ≤ n.start ∧ n.start ≤ a.start ↔ _
    omega
  rw [htick, List.map_map]
  refine List.map_congr_left fun n hn => ?_
  have hstart : n.start = a.start := of_decide_eq_true (List.mem_filter.mp hn).2
  rw [Function.comp_apply, ← hstart]
  rfl

/-- **Notes with the same pitches in the same order at every tick have the same points by start.** -/
theorem points_byStart {l l' : List Note} (h : Together l l') :
    (byStart l).map point = (byStart l').map point := by
  have hsorted (l : List Note) :
      (byStart l).map point = ((l.map point).mergeSort startsBy : List (Point Int)) :=
    List.map_mergeSort fun _ _ _ _ => rfl
  rw [hsorted, hsorted]
  refine order_points.mergeSort_eq_mergeSort fun a => ?_
  rw [filter_alike_points, filter_alike_points, h]

/-- Notes put in order by start and pitch stand the same way in whatever order they are given. -/
theorem together_sortNotes {l l' : List Note} (hperm : l.Perm l') :
    Together (sortNotes l) (sortNotes l') := by
  intro tick
  have hsorted (l : List Note) :
      (((sortNotes l).filter (·.start = tick)).map Note.pitch).Pairwise (· ≤ ·) := by
    refine List.pairwise_map.mpr (((order_comesBy.pairwise_mergeSort l).filter _).imp_of_mem ?_)
    intro a b ha hb hab
    have ha := of_decide_eq_true (List.mem_filter.mp ha).2
    have hb := of_decide_eq_true (List.mem_filter.mp hb).2
    rw [comesBy_iff] at hab
    omega
  refine List.Perm.eq_of_pairwise (fun a b _ _ => Int.le_antisymm) (hsorted l) (hsorted l') ?_
  have hsame : (sortNotes l).Perm (sortNotes l') :=
    (List.mergeSort_perm l _).trans (hperm.trans (List.mergeSort_perm l' _).symm)
  exact (hsame.filter _).map _

/-- Notes of which no two start together stand the same way in whatever order they are given. -/
theorem together_of_nodup {l l' : List Note} (hperm : l.Perm l') (h : (l.map Note.start).Nodup) :
    Together l l' := by
  intro tick
  have hfew : (l.filter (·.start = tick)).length ≤ 1 := by
    refine Nat.le_trans (Nat.le_of_eq ?_) (List.nodup_iff_count_le_one.mp h tick)
    rw [List.count, List.countP_map, List.countP_eq_length_filter]
    rfl
  have hsame := hperm.filter (·.start = tick)
  rcases hl : l.filter (·.start = tick) with - | ⟨n, _ | ⟨m, rest⟩⟩
  · rw [hl] at hsame
    rw [hl, ← hsame.nil_eq]
  · rw [hl] at hsame
    rw [hl, ← List.singleton_perm.mp hsame]
  · rw [hl] at hfew
    exact absurd hfew (by simp)

/-! ## 3. Ratings -/

/-- A note as one whose pitch and ticks may be fractions. -/
def Note.fine (n : Note) : FineNote := ⟨.whole n.pitch, .whole n.start, .whole n.length, n.velocity⟩

/-- Whether two rows of notes have the same rating over every progression, by whatever settings, in
    whole numbers or in fractions, and by whatever weights. -/
def RatedAlike (l l' : List Note) : Prop :=
  ∀ (r : Registry) (progression : Except Fault (List Entry)) (w : Weights),
    (∀ p : Params Int, rateOver r l progression p w = rateOver r l' progression p w)
    ∧ ∀ p : Params Amount, rateOver r (l.map Note.fine) progression p w
        = rateOver r (l'.map Note.fine) progression p w

theorem byStart_fine (l : List Note) : byStart (l.map Note.fine) = (byStart l).map Note.fine := by
  refine (List.map_mergeSort fun a _ b _ => ?_).symm
  show (!decide (b.start < a.start)) = !decide (Amount.whole b.start < .whole a.start)
  rw [decide_eq_decide.mpr Amount.whole_lt_whole]

theorem ratedAlike_of_together {l l' : List Note} (h : Together l l') : RatedAlike l l' := by
  have hpoints := points_byStart h
  have hfine (l : List Note) : (byStart (l.map Note.fine)).map point
      = ((byStart l).map point).map fun p : Point Int =>
        (⟨.whole p.pitch, .whole p.start⟩ : Point Amount) := by
    rw [byStart_fine, List.map_map, List.map_map]
    rfl
  refine fun r progression w => ⟨fun p => rateOver_congr hpoints r progression p w, fun p => ?_⟩
  exact rateOver_congr (by rw [hfine, hfine, hpoints]) r progression p w

/-! ## 4. Notes in another order -/

/-- **The order in which notes are given does not show in their rating where no two of them start
    together**, nor where those that start together keep their order, nor where the notes are too
    few to judge, nor where they are put in order by start and pitch first. -/
theorem rate_of_perm {l l' : List Note} (hperm : l.Perm l') :
    ((l.map Note.start).Nodup → RatedAlike l l')
      ∧ (Together l l' → RatedAlike l l')
      ∧ (l.length < fewestRated → RatedAlike l l')
      ∧ RatedAlike (sortNotes l) (sortNotes l') := by
  refine ⟨fun h => ratedAlike_of_together (together_of_nodup hperm h), ratedAlike_of_together,
    fun hfew r progression w => ?_, ratedAlike_of_together (together_sortNotes hperm)⟩
  have hfew' : l'.length < fewestRated := hperm.length_eq ▸ hfew
  refine ⟨fun p => ?_, fun p => ?_⟩
  · rw [rateOver, rateOver, if_pos hfew, if_pos hfew']
  · rw [rateOver, rateOver, List.length_map, List.length_map, if_pos hfew, if_pos hfew']

/-- A broken chord of four notes, the first of them first. -/
def brokenChord : List Note :=
  [⟨60, 0, 1, 100, by decide⟩, ⟨64, 4, 1, 100, by decide⟩, ⟨67, 8, 1, 100, by decide⟩,
    ⟨72, 12, 1, 100, by decide⟩]

/-- A broken chord and its notes from the last to the first. -/
theorem rate_of_perm_reverse : RatedAlike brokenChord brokenChord.reverse :=
  (rate_of_perm brokenChord.reverse_perm.symm).1 (by decide)

/-- Two notes and then two that start together. -/
def twoTogether (third fourth : Int) (hthird : 0 ≤ third ∧ third ≤ 127 := by decide)
    (hfourth : 0 ≤ fourth ∧ fourth ≤ 127 := by decide) : List Note :=
  [⟨60, 0, 1, 100, by decide⟩, ⟨64, 4, 1, 100, by decide⟩, ⟨third, 8, 1, 100, hthird, by decide⟩,
    ⟨fourth, 8, 1, 100, hfourth, by decide⟩]

/-- The rating of notes in the order of their starts, of which there are enough to judge. -/
theorem outcome_rate {r : Registry} {l : List Note} {entries : List Entry} {p : Params Int}
    {w : Weights} {k : Key} {x : Float} (hkey : p.key r (barChords entries) = .ok k)
    (hsorted : byStart l = l) (hmany : ¬ l.length < fewestRated)
    (hx : (⟨barChords entries, k, p, w⟩ : Judge Int).score l = .ok x) :
    (rate r l entries p w).outcome = .ok x := by
  unfold rate rateOver
  rw [if_neg hmany, hsorted]
  refine Logged.bind_outcome_eq_ok.mpr ⟨entries, rfl, ?_⟩
  refine Logged.bind_outcome_eq_ok.mpr ⟨(), rfl, ?_⟩
  exact Logged.bind_outcome_eq_ok.mpr ⟨k, hkey, hx⟩

/-- Notes that start together have another rating when they are given in another order: over C major
    the line leaps up and turns back, or it only rises. -/
theorem rate_apart :
    (twoTogether 72 67).Perm (twoTogether 67 72)
      ∧ (rate Registry.builtin (twoTogether 72 67) [⟨['C'], 1, by decide⟩] Params.start {}).outcome
        = .ok 6.9
      ∧ (rate Registry.builtin (twoTogether 67 72) [⟨['C'], 1, by decide⟩] Params.start {}).outcome
        = .ok 8.200000000000001
      ∧ ¬ RatedAlike (twoTogether 72 67) (twoTogether 67 72) := by
  have hkey : Params.start.key Registry.builtin (barChords [⟨['C'], 1, by decide⟩])
      = .ok ⟨0, "ionian", [0, 2, 4, 5, 7, 9, 11]⟩ := toOption_eq_some.mp (by decide +kernel)
  have hdown : (rate Registry.builtin (twoTogether 72 67) [⟨['C'], 1, by decide⟩] Params.start
      {}).outcome = .ok 6.9 :=
    outcome_rate hkey (List.mergeSort_of_pairwise (by decide)) (by decide)
      (toOption_eq_some.mp (by decide +kernel))
  have hup : (rate Registry.builtin (twoTogether 67 72) [⟨['C'], 1, by decide⟩] Params.start
      {}).outcome = .ok 8.200000000000001 :=
    outcome_rate hkey (List.mergeSort_of_pairwise (by decide)) (by decide)
      (toOption_eq_some.mp (by decide +kernel))
  refine ⟨by decide, hdown, hup, fun hsame => ?_⟩
  have h := congrArg Logged.outcome
    ((hsame Registry.builtin (.ok [⟨['C'], 1, by decide⟩]) {}).1 Params.start)
  rw [← rate, ← rate, hdown, hup] at h
  exact absurd (Except.ok.inj h) (by decide +kernel)

end Cantilena
