import Cantilena.Proofs.Melody.Pick
import Cantilena.Proofs.Number.Order
import Cantilena.Proofs.Sorting.Stable

/-!
# One of the best

A search ranks its candidates by a stable sort and picks one of the first. So what it picks has fewer
candidates above it than are kept; where only one is kept, it is the earliest of the highest.

* `Sorting.Order.countP_lt_of_mem_take`, `Sorting.Order.exists_of_mergeSort_eq_cons` -- the first
  values in order, and the very first one;
* `ranked_eq` -- ranking by numbers is a stable sort;
* `pickBest`, `outcome_pickBest` -- what a search does with its candidates;
* `Candidate.IsAmongBest` -- what is said of a pick;
* `pickBest_isAmongBest` -- the pick of a search, from every source;
* `not_pickBest_unwritable` -- a best candidate whose seed cannot be written.
-/

namespace Cantilena

/-! ## 1. The first values in order -/

namespace Sorting.Order

variable {α : Type} {le : α → α → Bool} (h : Order le)
include h

/-- Fewer values come before one of the first in order than there are of these. -/
theorem countP_lt_of_mem_take {l : List α} {n : Nat} {a : α} (ha : a ∈ (l.mergeSort le).take n) :
    l.countP (fun b => !le a b) < n := by
  obtain ⟨front, back, htake⟩ := List.append_of_mem ha
  have hsplit : l.mergeSort le = front ++ a :: (back ++ (l.mergeSort le).drop n) := by
    rw [← List.cons_append, ← List.append_assoc, ← htake, List.take_append_drop]
  have hfront : front.length < n := by
    have hlength := List.length_take_le n (l.mergeSort le)
    rw [htake, List.length_append, List.length_cons] at hlength
    omega
  -- of a value itself and of those behind it in order, none comes before it
  have hback : (a :: (back ++ (l.mergeSort le).drop n)).countP (fun b => !le a b) = 0 := by
    have hsorted := h.pairwise_mergeSort l
    rw [hsplit] at hsorted
    have hbehind := (List.pairwise_cons.mp (List.pairwise_append.mp hsorted).2.1).1
    rw [List.countP_eq_zero]
    intro b hb
    rw [Bool.not_eq_true']
    rcases List.mem_cons.mp hb with rfl | hb
    · rw [h.refl b]
      decide
    · rw [hbehind b hb]
      decide
  rw [← (List.mergeSort_perm l le).countP_eq, hsplit, List.countP_append, hback]
  exact Nat.lt_of_le_of_lt List.countP_le_length hfront

/-- The first value in order is the earliest of those that no value comes before. -/
theorem exists_of_mergeSort_eq_cons {l rest : List α} {a : α} (hl : l.mergeSort le = a :: rest) :
    ∃ before after, l = before ++ a :: after ∧ (∀ b ∈ before, le b a = false)
      ∧ ∀ b ∈ after, le a b = true := by
  have hsorted := h.pairwise_mergeSort l
  rw [hl] at hsorted
  have hall : ∀ b ∈ l, le a b = true := by
    intro b hb
    have hb : b ∈ l.mergeSort le := List.mem_mergeSort.mpr hb
    rw [hl] at hb
    rcases List.mem_cons.mp hb with rfl | hb
    · exact h.refl b
    · exact (List.pairwise_cons.mp hsorted).1 b hb
  -- sorting leaves the values that are alike in the order they had
  have halike := h.filter_alike_mergeSort l a
  have hself : alike le a a = true := by
    rw [alike, h.refl a, Bool.and_self]
  rw [hl, List.filter_cons_of_pos hself] at halike
  obtain ⟨before, after, rfl, hbefore, -, -⟩ := List.filter_eq_cons_iff.mp halike.symm
  refine ⟨before, after, rfl, fun b hb => ?_, fun b hb => hall b (by simp [hb])⟩
  have hb' := hbefore b hb
  rw [alike, hall b (by simp [hb]), Bool.true_and] at hb'
  exact Bool.eq_false_iff.mpr hb'

end Sorting.Order

/-! ## 2. Ranking by numbers -/

section

variable {α : Type} (score : α → Float)

/-- Whether a value comes no later than another by the places of their scores. -/
def ranksBefore (a b : α) : Bool := decide (Number.place (score b) ≤ Number.place (score a))

theorem order_ranksBefore : Sorting.Order (ranksBefore score) where
  trans a b c hab hbc := by
    rw [ranksBefore, decide_eq_true_iff] at *
    exact le_trans hbc hab
  total a b := by
    rw [Bool.or_eq_true, ranksBefore, ranksBefore, decide_eq_true_iff, decide_eq_true_iff]
    exact le_total _ _

/-- **Values whose scores are numbers are ranked by a stable sort.** -/
theorem ranked_eq {l : List α} (h : ∀ a ∈ l, (score a).isNaN = false) :
    ranked score l = l.mergeSort (ranksBefore score) := by
  have hnan : ¬ l.any (fun a => (score a).isNaN) := by
    rw [List.any_eq_true]
    rintro ⟨a, ha, hscore⟩
    rw [h a ha] at hscore
    cases hscore
  unfold ranked
  rw [if_neg hnan]
  have hsame : (l.mergeSort fun a b => score b ≤ score a).map id
      = (l.map id).mergeSort (ranksBefore score) :=
    List.map_mergeSort fun a ha b hb => decide_eq_decide.mpr (Number.le_iff_place (h b hb) (h a ha))
  rwa [List.map_id, List.map_id] at hsame

end

/-! ## 3. The pick -/

section

variable {σ ν ε : Type} [Quantity ν] [Event ε ν]

/-- What a search does with its candidates: it picks one of the shortlist and reports it. -/
def pickBest (src : Source σ) (state : σ) (keep : Int) (all : List (Candidate ε)) :
    Logged (Candidate ε × σ) :=
  match shortlist keep all with
  | [] => Logged.fault .nothingToPick
  | best :: others => do
    let (pick, state) := src.choose best others state
    let pick ← pick
    Logged.tell [← (pickedEntry pick best : Except Fault LogEntry)]
    return (pick, state)

/-- A search makes its candidates and picks one of them. -/
theorem bestMelody_eq (src : Source σ) (state : σ) (r : Registry)
    (progression : Except Fault (List Entry)) (p : Params ν) (w : Weights) (count keep spare : Int) :
    (bestMelody src state r progression p w count keep spare : Logged (Candidate ε × σ))
      = candidates r progression p w count spare >>= pickBest src state keep := rfl

/-- The outcome of a pick: that of the choice, where the seed of what is chosen can be written. -/
theorem outcome_pickBest {src : Source σ} {state state' : σ} {keep : Int}
    {all others : List (Candidate ε)} {best pick : Candidate ε}
    (hshort : shortlist keep all = best :: others)
    (hchoose : (src.choose best others).run state = (.ok pick, state')) :
    (pickBest src state keep all).outcome = pick.seed.shown.map fun _ => (pick, state') := by
  have hchoose : src.choose best others state = (.ok pick, state') := hchoose
  unfold pickBest
  rw [hshort]
  simp only [hchoose]
  show (Logged.bind (.ofExcept (pickedEntry pick best)) fun entry =>
    (Logged.tell [entry]).bind fun _ => .ok (pick, state')).outcome = _
  cases hseed : pick.seed.shown with
  | error e =>
    have hentry : pickedEntry pick best = .error e := by
      unfold pickedEntry
      rw [hseed]
      rfl
    rw [hentry]
    rfl
  | ok text =>
    have hentry : ∃ entry, pickedEntry pick best = .ok entry := by
      unfold pickedEntry
      rw [hseed]
      exact ⟨_, rfl⟩
    obtain ⟨entry, hentry⟩ := hentry
    rw [hentry]
    rfl

/-- What is said of a pick among candidates of which some are kept. -/
structure Candidate.IsAmongBest (keep : Int) (all : List (Candidate ε)) (pick : Candidate ε) :
    Prop where
  mem : pick ∈ all
  higher_lt : ((all.countP fun c => pick.score < c.score : Nat) : Int)
    < max 1 (min (all.length : Int) keep)
  earliest : keep ≤ 1 → ∃ before after, all = before ++ pick :: after
    ∧ (∀ c ∈ before, c.score < pick.score) ∧ ∀ c ∈ after, c.score ≤ pick.score

/-- **What is on the shortlist is among the best.** -/
theorem Candidate.isAmongBest_of_mem_shortlist {keep : Int} {all : List (Candidate ε)}
    {pick : Candidate ε} (hnumbers : ∀ c ∈ all, c.score.isNaN = false)
    (hpick : pick ∈ shortlist keep all) : pick.IsAmongBest keep all := by
  have hmem := mem_shortlist hpick
  have horder := order_ranksBefore (Candidate.score (ε := ε))
  unfold shortlist at hpick
  rw [ranked_eq _ hnumbers] at hpick
  refine ⟨hmem, ?_, fun hkeep => ?_⟩
  · have hfew := horder.countP_lt_of_mem_take hpick
    have hcount : all.countP (fun c => pick.score < c.score)
        = all.countP fun c => !ranksBefore Candidate.score pick c := by
      refine List.countP_congr fun c hc => ?_
      rw [decide_eq_true_iff, Number.lt_iff_place (hnumbers _ hmem) (hnumbers c hc), ranksBefore,
        Bool.not_eq_true', decide_eq_false_iff_not, not_le]
    omega
  · have hone : (max 1 (min (all.length : Int) keep)).toNat = 1 := by
      omega
    rw [hone] at hpick
    cases hsorted : all.mergeSort (ranksBefore Candidate.score) with
    | nil =>
      rw [hsorted] at hpick
      cases hpick
    | cons first rest =>
      rw [hsorted] at hpick
      obtain rfl : pick = first := List.mem_singleton.mp hpick
      obtain ⟨before, after, hall, hbefore, hafter⟩ := horder.exists_of_mergeSort_eq_cons hsorted
      refine ⟨before, after, hall, fun c hc => ?_, fun c hc => ?_⟩
      · have hnumber := hnumbers c (by simp [hall, hc])
        rw [Number.lt_iff_place hnumber (hnumbers _ hmem), ← not_le]
        exact of_decide_eq_false (hbefore c hc)
      · have hnumber := hnumbers c (by simp [hall, hc])
        rw [Number.le_iff_place hnumber (hnumbers _ hmem)]
        exact of_decide_eq_true (hafter c hc)

/-- A pick has a result only where the choice has one and its seed can be written. -/
theorem exists_of_pickBest {src : Source σ} {state state' : σ} {keep : Int}
    {all : List (Candidate ε)} {pick : Candidate ε}
    (h : (pickBest src state keep all).outcome = .ok (pick, state')) :
    pick ∈ shortlist keep all ∧ ∃ text, pick.seed.shown = .ok text := by
  unfold pickBest at h
  cases hshort : shortlist keep all with
  | nil =>
    rw [hshort] at h
    cases h
  | cons best others =>
    rw [hshort] at h
    obtain ⟨chosen, hchoose, h⟩ := Logged.bind_outcome_eq_ok.mp h
    obtain ⟨entry, hentry, h⟩ := Logged.bind_outcome_eq_ok.mp h
    obtain ⟨_, -, h⟩ := Logged.bind_outcome_eq_ok.mp h
    obtain ⟨rfl, -⟩ := Prod.mk.inj (Except.ok.inj h)
    obtain ⟨text, htext, -⟩ := bind_eq_ok.mp hentry
    exact ⟨Source.mem_of_choose (Prod.ext hchoose rfl), text, htext⟩

/-- A shortlist holds at least one of the candidates. -/
theorem shortlist_ne_nil {keep : Int} {all : List (Candidate ε)} (hall : all ≠ [])
    (hnumbers : ∀ c ∈ all, c.score.isNaN = false) : shortlist keep all ≠ [] := by
  have hlength : 0 < all.length := List.length_pos_iff.mpr hall
  refine List.ne_nil_of_length_pos ?_
  unfold shortlist
  rw [ranked_eq _ hnumbers, List.length_take, List.length_mergeSort]
  omega

/-- A source that picks the thing at a place, or the last one where there are too few. -/
def Source.placed (i : Nat) : Source Unit where
  unit s := (0.5, s)
  pick n s := (some ⟨min i n, Nat.lt_succ_of_le (Nat.min_le_right i n)⟩, s)

theorem Source.alwaysPicks_placed (i : Nat) : (placed i).AlwaysPicks := fun _ _ => rfl

theorem Source.run_choose_placed {α : Type} {first : α} {others : List α}
    (i : Fin (first :: others).length) :
    ((placed i).choose first others).run () = (.ok ((first :: others).get i), ()) := by
  have hmin : min i.val others.length = i := Nat.min_eq_left (Nat.le_of_lt_succ i.isLt)
  have hplace : ⟨min i.val others.length, Nat.lt_succ_of_le (Nat.min_le_right _ _)⟩ = i :=
    Fin.ext hmin
  show (Except.ok ((first :: others).get ⟨min i.val others.length, _⟩), ()) = _
  rw [hplace]

/-- The candidates of a search are as many as were asked for, in the order of their seeds. -/
theorem seeds_of_candidates {r : Registry} {progression : Except Fault (List Entry)} {p : Params ν}
    {w : Weights} {count spare : Int} {all : List (Candidate ε)}
    (h : (candidates r progression p w count spare).outcome = .ok all) :
    1 ≤ count ∧ (all.length : Int) = count
      ∧ candidateSeeds p.seed count = .ok (all.map Candidate.seed) := by
  have hbuild {entries : List Entry} {seeds : List Seed} {spare : Int} {all : List (Candidate ε)}
      (h : (buildCandidates r entries p w spare seeds).outcome = .ok all) :
      all.map Candidate.seed = seeds := by
    induction seeds generalizing spare all with
    | nil =>
      obtain rfl := Except.ok.inj h
      rfl
    | cons seed seeds ih =>
      obtain ⟨first, hfirst, h⟩ := Logged.bind_outcome_eq_ok.mp h
      obtain ⟨rest, hrest, h⟩ := Logged.bind_outcome_eq_ok.mp h
      obtain rfl := Except.ok.inj h
      obtain ⟨_, -, hfirst⟩ := Logged.bind_outcome_eq_ok.mp hfirst
      obtain ⟨_, -, hfirst⟩ := Logged.bind_outcome_eq_ok.mp hfirst
      obtain ⟨_, -, hfirst⟩ := Logged.bind_outcome_eq_ok.mp hfirst
      obtain ⟨_, -, hfirst⟩ := Logged.bind_outcome_eq_ok.mp hfirst
      obtain rfl := Except.ok.inj hfirst
      rw [List.map_cons, ih hrest]
  unfold candidates at h
  split at h
  · cases h
  · obtain ⟨entries, -, h⟩ := Logged.bind_outcome_eq_ok.mp h
    obtain ⟨seeds, hseeds, h⟩ := Logged.bind_outcome_eq_ok.mp h
    obtain rfl := hbuild h
    have hlength := length_of_mapM hseeds
    rw [List.length_map, List.length_range] at hlength
    exact ⟨by omega, by omega, hseeds⟩

/-- **A search picks one of the best**: a candidate that has fewer candidates above it than are kept,
    and where one is kept, the earliest of the highest. A source that always picks leaves it without
    a result only where the seed of its pick cannot be written, and what is on the shortlist is
    picked from some source. -/
theorem pickBest_isAmongBest {all : List (Candidate ε)} (hall : all ≠ [])
    (hnumbers : ∀ c ∈ all, c.score.isNaN = false) (keep : Int) :
    (∀ {σ : Type} (src : Source σ) (state : σ),
      (∀ pick state', (pickBest src state keep all).outcome = .ok (pick, state')
        → pick.IsAmongBest keep all)
      ∧ (src.AlwaysPicks → ∃ (pick : Candidate ε) (state' : σ), pick.IsAmongBest keep all
        ∧ (pickBest src state keep all).outcome = pick.seed.shown.map fun _ => (pick, state')))
    ∧ (∀ pick ∈ shortlist keep all, ∃ src : Source Unit, src.AlwaysPicks
        ∧ (pickBest src () keep all).outcome = pick.seed.shown.map fun _ => (pick, ()))
    ∧ ∀ (r : Registry) (progression : Except Fault (List Entry)) (p : Params ν) (w : Weights)
        (count spare : Int), (candidates r progression p w count spare).outcome = .ok all →
      (1 ≤ count ∧ (all.length : Int) = count
        ∧ candidateSeeds p.seed count = .ok (all.map Candidate.seed))
      ∧ ∀ {σ : Type} (src : Source σ) (state : σ),
        (bestMelody src state r progression p w count keep spare).outcome
          = (pickBest src state keep all).outcome := by
  have hbest {pick : Candidate ε} (hpick : pick ∈ shortlist keep all) :=
    Candidate.isAmongBest_of_mem_shortlist hnumbers hpick
  refine ⟨fun src state => ⟨fun pick state' h => hbest (exists_of_pickBest h).1, fun hsrc => ?_⟩,
    fun pick hpick => ?_, fun r progression p w count spare h => ⟨seeds_of_candidates h, ?_⟩⟩
  · cases hshort : shortlist keep all with
    | nil => exact absurd hshort (shortlist_ne_nil hall hnumbers)
    | cons best others =>
      obtain ⟨pick, state', hchoose, hpick⟩ :=
        (yields_choose hsrc : Yields (src.choose best others) _) state
      exact ⟨pick, state', hbest (hshort ▸ hpick), outcome_pickBest hshort hchoose⟩
  · cases hshort : shortlist keep all with
    | nil =>
      rw [hshort] at hpick
      cases hpick
    | cons best others =>
      rw [hshort] at hpick
      obtain ⟨i, rfl⟩ := List.get_of_mem hpick
      exact ⟨.placed i, Source.alwaysPicks_placed i,
        outcome_pickBest hshort (Source.run_choose_placed i)⟩
  · intro σ src state
    rw [bestMelody_eq]
    refine (Logged.bind_outcome _ _).trans ?_
    rw [h]
    rfl

end

/-- Three candidates without notes, two of which have the highest rating. -/
def twoHighest : List (Candidate Note) := [⟨.whole 1, 1, []⟩, ⟨.whole 2, 2, []⟩, ⟨.whole 3, 2, []⟩]

/-- Of three candidates, one of which is kept, the first of the two highest is picked. -/
theorem pickBest_isAmongBest_twoHighest :
    (pickBest (Source.fixed 0.5) () 1 twoHighest).outcome = .ok (⟨.whole 2, 2, []⟩, ()) := by
  obtain ⟨hpicks, -, -⟩ := pickBest_isAmongBest (ν := Int)
    (show twoHighest ≠ [] by decide) (by decide +kernel) 1
  obtain ⟨pick, _, hbest, houtcome⟩ := (hpicks (Source.fixed 0.5) ()).2
    (Source.alwaysPicks_fixed 0.5)
  obtain ⟨before, after, hsplit, hbefore, hafter⟩ := hbest.earliest (by decide)
  rcases before with - | ⟨first, - | ⟨second, rest⟩⟩
  · -- the first one has another above it
    obtain ⟨rfl, rfl⟩ := List.cons.inj hsplit
    exact absurd (hafter _ List.mem_cons_self) (by decide +kernel)
  · obtain ⟨-, hsplit⟩ := List.cons.inj hsplit
    obtain ⟨rfl, -⟩ := List.cons.inj hsplit
    have htwo : Number.isWritable 2 = true := by decide +kernel
    rw [houtcome, Seed.shown, if_pos htwo]
    rfl
  · -- none has a second one below it
    obtain ⟨-, hsplit⟩ := List.cons.inj hsplit
    obtain ⟨rfl, -⟩ := List.cons.inj hsplit
    have hnone : ∀ c ∈ twoHighest, ¬ (2 : Float) < c.score := by decide +kernel
    exact absurd (hbefore _ (List.mem_cons_of_mem _ List.mem_cons_self)) (hnone pick hbest.mem)

/-- A candidate whose seed has more digits than are written. -/
def unwritable : Candidate Note := ⟨.whole ((10 ^ Number.mostDigits : Nat) : Int), 1, []⟩

/-- The only candidate of a search is not picked from any source where its seed cannot be written. -/
theorem not_pickBest_unwritable :
    unwritable.score.isNaN = false ∧ unwritable ∈ shortlist 1 [unwritable]
      ∧ ∀ (src : Source Unit) (result : Candidate Note × Unit),
        (pickBest src () 1 [unwritable]).outcome ≠ .ok result := by
  have hshort := shortlist_singleton 1 unwritable
  have hlong : ¬ Number.isWritable ((10 ^ Number.mostDigits : Nat) : Int) = true := by
    decide +kernel
  refine ⟨by decide +kernel, ?_, fun src result h => ?_⟩
  · rw [hshort]
    exact List.mem_singleton_self _
  · obtain ⟨hpick, text, htext⟩ := exists_of_pickBest h
    rw [hshort] at hpick
    rw [List.mem_singleton.mp hpick, unwritable, Seed.shown, if_neg hlong] at htext
    cases htext

end Cantilena
