import Cantilena.Proofs.Melody.Rating
import Cantilena.Proofs.Melody.Tonic
import Mathlib.Algebra.BigOperators.Group.List.Lemmas
import Mathlib.Data.List.Dedup
import Mathlib.Data.Prod.Basic

/-!
# Contours

What is counted of a line is counted of neighbours: the steps from pitch to pitch, the changes of
direction from step to step, and the pairs of steps. Neighbours stay neighbours when a row is read
backwards, and so it does not matter from which end a line is read, nor which way up it is.

* `neighbours`, `changes` -- each value of a row with the one behind it, and those that differ;
* `stepsOf`, `directions`, `stepPairs` -- what is counted of a line;
* `turnsAfter_eq`, `repeated_eq` -- turns are changes among the directions, and repeats are what the
  distinct pairs fall short of all pairs;
* `Contour.of_eq`, `Contour.ofSteps_neg`, `Contour.ofSteps_reverse` -- the contour of steps, upside
  down and backwards;
* `Contour.score_of_line` -- the part of a rating that a contour makes.
-/

namespace Cantilena

/-! ## 1. Neighbours -/

section

variable {α β : Type}

/-- Each value of a row with the one behind it. -/
def neighbours (l : List α) : List (α × α) := l.zip l.tail

theorem neighbours_cons_cons (a b : α) (l : List α) :
    neighbours (a :: b :: l) = (a, b) :: neighbours (b :: l) := rfl

theorem length_neighbours (l : List α) : (neighbours l).length = l.length - 1 := by
  simp [neighbours]

theorem neighbours_map (f : α → β) (l : List α) :
    neighbours (l.map f) = (neighbours l).map (Prod.map f f) := by
  unfold neighbours
  rw [← List.map_tail, List.zip_map]

/-- **Neighbours stay neighbours when a row is read backwards.** -/
theorem neighbours_reverse (l : List α) :
    neighbours l.reverse = ((neighbours l).map Prod.swap).reverse := by
  refine List.ext_getElem (by simp [neighbours]) fun i hi hi' => ?_
  simp only [neighbours, List.length_zip, List.length_reverse, List.length_tail] at hi
  simp only [neighbours, List.getElem_zip, List.getElem_tail, List.getElem_reverse,
    List.getElem_map, List.length_map, List.length_zip, List.length_tail, Prod.swap_prod_mk,
    Prod.mk.injEq]
  constructor
  · congr 1
    omega
  · congr 1
    omega

variable [DecidableEq α] [DecidableEq β]

/-- The number of neighbours that differ. -/
def changes (l : List α) : Nat := (neighbours l).countP fun p => p.1 ≠ p.2

theorem changes_cons_cons (a b : α) (l : List α) :
    changes (a :: b :: l) = (if b ≠ a then 1 else 0) + changes (b :: l) := by
  unfold changes
  rw [neighbours_cons_cons, List.countP_cons, Nat.add_comm]
  simp only [decide_eq_true_eq, ne_comm]

theorem changes_reverse (l : List α) : changes l.reverse = changes l := by
  unfold changes
  rw [neighbours_reverse, List.countP_reverse, List.countP_map]
  refine List.countP_congr fun p _ => ?_
  simp only [Function.comp_apply, Prod.fst_swap, Prod.snd_swap, decide_eq_true_eq]
  exact ne_comm

theorem changes_map {f : α → β} (hf : Function.Injective f) (l : List α) :
    changes (l.map f) = changes l := by
  unfold changes
  rw [neighbours_map, List.countP_map]
  refine List.countP_congr fun p _ => ?_
  simp only [Function.comp_apply, Prod.map_fst, Prod.map_snd, decide_eq_true_eq]
  exact hf.ne_iff

/-- What the distinct values of a row fall short of all its values. -/
def shortfall (l : List α) : Nat := l.length - l.dedup.length

theorem shortfall_reverse (l : List α) : shortfall l.reverse = shortfall l := by
  unfold shortfall
  rw [List.length_reverse, (List.reverse_perm l).dedup.length_eq]

theorem shortfall_map {f : α → β} (hf : Function.Injective f) (l : List α) :
    shortfall (l.map f) = shortfall l := by
  unfold shortfall
  rw [List.dedup_map_of_injective hf, List.length_map, List.length_map]

end

/-! ## 2. Turns and repeats -/

/-- The directions of steps, without those in place. -/
def directions (steps : List Int) : List Int := (steps.filter (· ≠ 0)).map Int.sign

namespace Contour

/-- **Turns are changes among the directions**, with the direction from before in front of them if
    there is one. -/
theorem turnsAfter_eq (before : Int) (steps : List Int) :
    turnsAfter before steps
      = if before = 0 then changes (directions steps) else changes (before :: directions steps) := by
  induction steps generalizing before with
  | nil => simp [turnsAfter, directions, changes, neighbours]
  | cons step steps ih =>
    rw [turnsAfter, direction_eq]
    by_cases hstep : step = 0
    · subst hstep
      simpa [directions] using ih before
    · have hsign : step.sign ≠ 0 := mt Int.sign_eq_zero_iff_zero.mp hstep
      have hdirections : directions (step :: steps) = step.sign :: directions steps := by
        simp [directions, hstep]
      simp only [ne_eq, hsign, not_false_eq_true, if_true, true_and]
      rw [ih, if_neg hsign, hdirections, changes_cons_cons]
      by_cases hbefore : before = 0
      · simp [hbefore]
      · simp [hbefore]

/-- One less for each of some counts that are not zero. -/
theorem sum_pred_add_length {α : Type} {f : α → Nat} {l : List α} (h : ∀ a ∈ l, 0 < f a) :
    (l.map fun a => f a - 1).sum + l.length = (l.map f).sum := by
  induction l with
  | nil => rfl
  | cons a l ih =>
    have ha := h a List.mem_cons_self
    have hrest := ih fun b hb => h b (List.mem_cons_of_mem a hb)
    simp only [List.map_cons, List.sum_cons, List.length_cons]
    omega

/-- **Repeats are what the distinct values fall short of all values.** -/
theorem repeated_eq {α : Type} [BEq α] [LawfulBEq α] [DecidableEq α] (l : List α) :
    repeated l = shortfall l := by
  have hperm : l.eraseDups.Perm l.dedup := by
    refine (List.perm_ext_iff_of_nodup (nodup_eraseDups l) (List.nodup_dedup l)).mpr fun a => ?_
    rw [List.mem_eraseDups, List.mem_dedup]
  -- the counts of the distinct values make up the row, whatever equality they are counted by
  have hcounts : (l.eraseDups.map fun a => l.count a).sum = l.length := by
    rw [(hperm.map _).sum_eq, ← List.sum_map_count_dedup_eq_length l]
    refine congrArg List.sum (List.map_congr_left fun a _ => List.countP_congr fun b _ => ?_)
    exact ⟨fun h => decide_eq_true (eq_of_beq h), fun h => beq_iff_eq.mpr (of_decide_eq_true h)⟩
  have hpos : ∀ a ∈ l.eraseDups, 0 < l.count a := fun a ha =>
    List.count_pos_iff.mpr (List.mem_eraseDups.mp ha)
  have hsum := sum_pred_add_length hpos
  have hlength := hperm.length_eq
  unfold repeated shortfall
  omega

end Contour

/-! ## 3. Contours of steps -/

/-- The steps of a line. -/
def stepsOf (pitches : List Int) : List Int := (neighbours pitches).map fun p => p.2 - p.1

/-- A step cut to an octave: its direction and its size. -/
def clipped (step : Int) : Int × Nat := (step.sign, min 12 step.natAbs)

/-- The pairs of neighbouring steps, each of them cut to an octave. -/
def stepPairs (steps : List Int) : List ((Int × Nat) × (Int × Nat)) := neighbours (steps.map clipped)

theorem differences_eq (pitches : List Int) : differences pitches = stepsOf pitches := by
  fun_induction differences pitches with
  | case1 a b rest ih =>
    rw [ih]
    rfl
  | case2 l hl =>
    rcases l with - | ⟨a, - | ⟨b, rest⟩⟩
    · rfl
    · rfl
    · exact absurd rfl (hl a b rest)

namespace Contour

theorem pairs_eq (steps : List Int) : pairs steps = neighbours (steps.map shape) := by
  fun_induction pairs steps with
  | case1 a b rest ih =>
    rw [ih]
    rfl
  | case2 l hl =>
    rcases l with - | ⟨a, - | ⟨b, rest⟩⟩
    · rfl
    · rfl
    · exact absurd rfl (hl a b rest)

/-- A step as it is compared is the step cut to an octave. -/
theorem shape_eq (step : Int) : shape step = Prod.map id Int.ofNat (clipped step) := by
  unfold shape clipped
  rw [direction_eq, magnitude_eq]
  refine Prod.ext rfl ?_
  show (if (step.natAbs : Int) < 12 then (step.natAbs : Int) else 12)
    = ((min 12 step.natAbs : Nat) : Int)
  split <;> omega

theorem repeated_pairs (steps : List Int) :
    repeated (pairs steps) = shortfall (stepPairs steps) := by
  have hshape : (shape : Int → Int × Int) = Prod.map id Int.ofNat ∘ clipped := funext shape_eq
  have hsizes : Function.Injective (Prod.map id Int.ofNat : Int × Nat → Int × Int) :=
    Function.Injective.prodMap Function.injective_id fun _ _ => Int.ofNat.inj
  rw [pairs_eq, hshape, ← List.map_map, neighbours_map]
  exact (repeated_eq _).trans (shortfall_map (hsizes.prodMap hsizes) _)

/-- The contour of steps. -/
def ofSteps (steps : List Int) : Contour where
  leaps := steps.countP fun s => 7 ≤ s.natAbs
  turns := changes (directions steps)
  repeats := shortfall (stepPairs steps)

/-- **The contour of a line is that of its steps.** -/
theorem of_eq (pitches : List Int) : Contour.of pitches = ofSteps (stepsOf pitches) := by
  have hleaps : (stepsOf pitches).countP isLeap
      = (stepsOf pitches).countP fun s => 7 ≤ s.natAbs := by
    refine List.countP_congr fun s _ => ?_
    unfold isLeap
    rw [magnitude_eq, decide_eq_true_iff, decide_eq_true_iff]
    omega
  have hturns := turnsAfter_eq 0 (stepsOf pitches)
  rw [if_pos rfl] at hturns
  unfold Contour.of ofSteps
  rw [differences_eq]
  simp only [hleaps, hturns, repeated_pairs]

/-! ## 4. Lines upside down and backwards -/

theorem stepsOf_add (pitches : List Int) (d : Int) :
    stepsOf (pitches.map (· + d)) = stepsOf pitches := by
  rw [← differences_eq, ← differences_eq, differences_add]

theorem stepsOf_sub (pitches : List Int) (c : Int) :
    stepsOf (pitches.map (c - ·)) = (stepsOf pitches).map (- ·) := by
  unfold stepsOf
  rw [neighbours_map, List.map_map, List.map_map]
  refine List.map_congr_left fun p _ => ?_
  show c - p.2 - (c - p.1) = -(p.2 - p.1)
  omega

theorem stepsOf_reverse (pitches : List Int) :
    stepsOf pitches.reverse = ((stepsOf pitches).map (- ·)).reverse := by
  unfold stepsOf
  rw [neighbours_reverse, List.map_reverse, List.map_map, List.map_map]
  refine congrArg List.reverse (List.map_congr_left fun p _ => ?_)
  show p.1 - p.2 = -(p.2 - p.1)
  omega

theorem directions_neg (steps : List Int) :
    directions (steps.map (- ·)) = (directions steps).map (- ·) := by
  unfold directions
  rw [List.filter_map, List.map_map, List.map_map]
  have hplace : ((fun s : Int => decide (s ≠ 0)) ∘ fun s => -s) = fun s => decide (s ≠ 0) := by
    funext s
    simp
  rw [hplace]
  exact List.map_congr_left fun s _ => Int.sign_neg s

theorem directions_reverse (steps : List Int) :
    directions steps.reverse = (directions steps).reverse := by
  unfold directions
  rw [List.filter_reverse, List.map_reverse]

theorem clipped_neg (step : Int) : clipped (-step) = Prod.map (- ·) id (clipped step) := by
  unfold clipped
  rw [Int.sign_neg, Int.natAbs_neg]
  rfl

theorem stepPairs_neg (steps : List Int) :
    stepPairs (steps.map (- ·))
      = (stepPairs steps).map (Prod.map (Prod.map (- ·) id) (Prod.map (- ·) id)) := by
  unfold stepPairs
  rw [← neighbours_map, List.map_map, List.map_map]
  exact congrArg neighbours (List.map_congr_left fun s _ => clipped_neg s)

/-- **Steps upside down have the same contour.** -/
theorem ofSteps_neg (steps : List Int) : ofSteps (steps.map (- ·)) = ofSteps steps := by
  have hneg : Function.Injective (fun n : Int => -n) := neg_injective
  have hflip := hneg.prodMap (Function.injective_id (α := Nat))
  unfold ofSteps
  rw [directions_neg, changes_map hneg, stepPairs_neg, shortfall_map (hflip.prodMap hflip),
    List.countP_map]
  simp only [Function.comp_def, Int.natAbs_neg]

/-- **Steps backwards have the same contour.** -/
theorem ofSteps_reverse (steps : List Int) : ofSteps steps.reverse = ofSteps steps := by
  unfold ofSteps stepPairs
  rw [directions_reverse, changes_reverse, List.countP_reverse, List.map_reverse,
    neighbours_reverse, shortfall_reverse, shortfall_map Prod.swap_injective]

/-- **The part of a rating that a contour makes looks at the contour only.** It is the same for a
    line moved up or down, turned upside down or read backwards. Leaps are the steps of seven
    semitones or more, turns the changes among the directions of the steps that are not in place,
    and repeats what the distinct pairs of steps, cut to an octave, fall short of all pairs; there
    are two pairs fewer than pitches. From zero on, the leaps and the turns count against the line by
    their weights, in this order, and then the repeats count for it by theirs. -/
theorem score_of_line (pitches : List Int) (w : Weights) :
    (∀ d, (Contour.of (pitches.map (· + d))).score w = (Contour.of pitches).score w)
    ∧ (∀ c, (Contour.of (pitches.map (c - ·))).score w = (Contour.of pitches).score w)
    ∧ (Contour.of pitches.reverse).score w = (Contour.of pitches).score w
    ∧ (Contour.of pitches).leaps = (stepsOf pitches).countP (fun s => 7 ≤ s.natAbs)
    ∧ (Contour.of pitches).turns = changes (directions (stepsOf pitches))
    ∧ (Contour.of pitches).repeats
        = (stepPairs (stepsOf pitches)).length - (stepPairs (stepsOf pitches)).dedup.length
    ∧ (stepPairs (stepsOf pitches)).length = pitches.length - 2
    ∧ (Contour.of pitches).score w = (do
        let afterLeaps ←
          debit 0.0 (.whole ((stepsOf pitches).countP fun s => 7 ≤ s.natAbs : Nat)) w.leaps
        let afterTurns ←
          debit afterLeaps (.whole (changes (directions (stepsOf pitches)) : Nat)) w.turns
        credit afterTurns (.whole ((stepPairs (stepsOf pitches)).length
          - (stepPairs (stepsOf pitches)).dedup.length : Nat)) w.repeats) := by
  refine ⟨fun d => ?_, fun c => ?_, ?_, ?_, ?_, ?_, ?_, ?_⟩
  · rw [of_eq, of_eq, stepsOf_add]
  · rw [of_eq, of_eq, stepsOf_sub, ofSteps_neg]
  · rw [of_eq, of_eq, stepsOf_reverse, ofSteps_reverse, ofSteps_neg]
  · rw [of_eq]
    rfl
  · rw [of_eq]
    rfl
  · rw [of_eq]
    rfl
  · unfold stepPairs stepsOf
    simp only [length_neighbours, List.length_map]
    omega
  · rw [of_eq]
    rfl

end Contour

end Cantilena
