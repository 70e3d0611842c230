import Cantilena.Note.Event
import Cantilena.Proofs.Sorting.Stable

/-!
# The orders of notes

Notes are sorted by start, and by start and then pitch; both sorts are stable.

* `order_startsBy`, `order_comesBy` -- the two comparisons are orders;
* `byStart_map` -- notes mapped to others in the same order;
* `sortNotes_eq_of_pitches` -- notes by start and pitch are fixed by their order pitch by pitch.
-/

namespace Cantilena

/-- A note ends behind its start. -/
theorem Note.start_lt_stop (n : Note) : n.start < n.stop := by
  have hlength := n.valid.2.2.1
  unfold stop
  omega

/-! ## 1. By start -/

theorem startsBy_iff {a b : Note} : startsBy a b = true ↔ a.start ≤ b.start := by
  show (!decide (b.start < a.start)) = true ↔ _
  simp

theorem order_startsBy : Sorting.Order (startsBy : Note → Note → Bool) where
  trans a b c hab hbc := by
    rw [startsBy_iff] at *
    omega
  total a b := by
    rw [Bool.or_eq_true, startsBy_iff, startsBy_iff]
    omega

/-- Notes that are mapped to others in the same order are sorted as they were before. -/
theorem byStart_map {f : Note → Note} (hf : ∀ a b, startsBy (f a) (f b) = startsBy a b)
    (l : List Note) : byStart (l.map f) = (byStart l).map f :=
  (List.map_mergeSort fun a _ b _ => (hf a b).symm).symm

theorem byStart_byStart (l : List Note) : byStart (byStart l) = byStart l :=
  List.mergeSort_of_pairwise (order_startsBy.pairwise_mergeSort l)

/-! ## 2. By start, then by pitch -/

theorem comesBy_iff {a b : Note} : a.comesBy b = true
    ↔ a.start < b.start ∨ (a.start = b.start ∧ a.pitch ≤ b.pitch) := by
  simp [Note.comesBy]

theorem order_comesBy : Sorting.Order Note.comesBy where
  trans a b c hab hbc := by
    rw [comesBy_iff] at *
    omega
  total a b := by
    rw [Bool.or_eq_true, comesBy_iff, comesBy_iff]
    omega

theorem sortNotes_sortNotes (l : List Note) : sortNotes (sortNotes l) = sortNotes l :=
  List.mergeSort_of_pairwise (order_comesBy.pairwise_mergeSort l)

/-- The notes of a pitch and start, with those of the pitch by start, are as they were. -/
theorem filter_alike_comesBy (l : List Note) (n : Note) :
    l.filter (Sorting.alike Note.comesBy n)
      = (byStart (l.filter (·.pitch = n.pitch))).filter (·.start = n.start) := by
  have hstarts : ((l.filter (·.pitch = n.pitch)).filter (·.start = n.start)).Pairwise
      fun a b => startsBy a b = true := by
    refine List.pairwise_of_forall_mem_list fun a ha b hb => startsBy_iff.mpr (Int.le_of_eq ?_)
    exact (of_decide_eq_true (List.mem_filter.mp ha).2).trans
      (of_decide_eq_true (List.mem_filter.mp hb).2).symm
  unfold byStart
  rw [order_startsBy.filter_mergeSort_of_le hstarts, List.filter_filter]
  refine List.filter_congr fun m _ => ?_
  rw [Bool.eq_iff_iff, Sorting.alike, Bool.and_eq_true, comesBy_iff, comesBy_iff, Bool.and_eq_true,
    decide_eq_true_iff, decide_eq_true_iff]
  omega

/-- **Notes in order are fixed by their order pitch by pitch.** -/
theorem sortNotes_eq_of_pitches {l m : List Note}
    (h : ∀ pitch, byStart (l.filter (·.pitch = pitch)) = byStart (m.filter (·.pitch = pitch))) :
    sortNotes l = sortNotes m := by
  refine order_comesBy.mergeSort_eq_mergeSort fun n => ?_
  rw [filter_alike_comesBy, filter_alike_comesBy, h]

end Cantilena
