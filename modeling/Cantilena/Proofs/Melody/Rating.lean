import Cantilena.Melody.Rating

/-!
# What a rating looks at

A rating looks at the differences between neighbouring pitches and starts, at the distance of the
highest pitch from the lowest, and at the last note of a bar.

* `differences_add`, `spanOf_add` -- what is added to all of some numbers changes neither;
* `contour_add` -- nor does it change the contour of a line;
* `Judge.lastEvent_eq` -- the last note of a bar is the last one that starts in it.
-/

namespace Cantilena

/-! ## 1. Differences and spans -/

/-- What is added to all of some numbers does not change their differences. -/
theorem differences_add (l : List Int) (d : Int) : differences (l.map (· + d)) = differences l := by
  fun_induction differences l with
  | case1 a b rest ih =>
    have hstep : b + d - (a + d) = b - a := by omega
    show (b + d - (a + d)) :: differences ((b :: rest).map (· + d)) = _
    rw [ih, hstep]
  | case2 l hl =>
    match l with
    | [] => rfl
    | [_] => rfl
    | a :: b :: rest => exact absurd rfl (hl a b rest)

/-- **What is added to all pitches of a line does not change its contour.** -/
theorem contour_add (l : List Int) (d : Int) : Contour.of (l.map (· + d)) = Contour.of l := by
  unfold Contour.of
  rw [differences_add]

/-- A choice of one of two numbers that looks at their order only, made along a row of numbers, is
    the same choice when something is added to all of them. -/
theorem foldl_choice_add {R : Int → Int → Prop} [DecidableRel R] (d : Int)
    (hR : ∀ a b, R (a + d) (b + d) ↔ R a b) (l : List Int) (first : Int) :
    (l.map (· + d)).foldl (fun kept p => if R kept p then p else kept) (first + d)
      = l.foldl (fun kept p => if R kept p then p else kept) first + d := by
  induction l generalizing first with
  | nil => rfl
  | cons p l ih =>
    rw [List.map_cons, List.foldl_cons, List.foldl_cons, ← ih]
    refine congrArg (List.foldl _ · _) ?_
    by_cases h : R first p
    · rw [if_pos h, if_pos ((hR first p).mpr h)]
    · rw [if_neg h, if_neg (mt (hR first p).mp h)]

/-- **What is added to all pitches does not change the distance of the highest from the lowest.** -/
theorem spanOf_add (l : List Int) (d : Int) : Judge.spanOf (l.map (· + d)) = Judge.spanOf l := by
  cases l with
  | nil => rfl
  | cons first rest =>
    have htop := foldl_choice_add (R := fun a b => a < b) d
      (fun a b => Int.add_lt_add_iff_right d) rest first
    have hbottom := foldl_choice_add (R := fun a b => b < a) d
      (fun a b => Int.add_lt_add_iff_right d) rest first
    show (rest.map (· + d)).foldl _ (first + d) - (rest.map (· + d)).foldl _ (first + d)
      = rest.foldl _ first - rest.foldl _ first
    rw [htop, hbottom]
    exact Int.add_sub_add_right ..

/-! ## 2. The last note of a bar -/

/-- The last note of a bar is the last one that starts in it. -/
theorem Judge.lastEvent_eq (j : Judge Int) (notes : List Note) (bar : Nat) :
    j.lastEvent notes bar = .ok (notes.filter fun n =>
      decide (j.offset + bar * j.stepsPerBar ≤ n.start)
        && decide (n.start < j.offset + bar * j.stepsPerBar + j.stepsPerBar)).getLast? := by
  have hfilter : (notes.filter fun n => decide (j.offset + bar * j.stepsPerBar ≤ n.start)
        && decide (n.start < j.offset + bar * j.stepsPerBar + j.stepsPerBar))
      = (notes.filter fun n => j.offset + bar * j.stepsPerBar ≤ n.start).filter fun n =>
          n.start < j.offset + bar * j.stepsPerBar + j.stepsPerBar := by
    rw [List.filter_filter]
    exact List.filter_congr fun n _ => Bool.and_comm _ _
  rw [hfilter]
  show (if (notes.filter fun n => j.offset + bar * j.stepsPerBar ≤ n.start).isEmpty then _ else _) = _
  generalize (notes.filter fun n => j.offset + bar * j.stepsPerBar ≤ n.start) = later
  cases later with
  | nil => rfl
  | cons n later => rfl

end Cantilena
