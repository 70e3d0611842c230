/-!
# Stable sorts

A stable sort puts values in order and leaves those that are alike in the order they had. Both
together fix the result, and what holds of stable sorts follows from that.

* `Order` -- a comparison by which values can be sorted;
* `filter_mergeSort_of_le` -- values that are in order already keep their order among themselves;
* `mergeSort_eq_of_filter` -- a row in order, with the values of each class as they were, is the
  sorted one;
* `filter_mergeSort` -- sorting and leaving out values commute;
* `mergeSort_append` -- rows one after the other are sorted one by one;
* `mergeSort_interleaved` -- two voices that take turns are sorted as if one came after the other.
-/

namespace Cantilena.Sorting

variable {α : Type} {le : α → α → Bool}

/-- A comparison by which values can be sorted. -/
structure Order (le : α → α → Bool) : Prop where
  trans : ∀ a b c, le a b = true → le b c = true → le a c = true
  total : ∀ a b, (le a b || le b a) = true

/-- Whether each of two values comes no later than the other. -/
def alike (le : α → α → Bool) (a b : α) : Bool := le a b && le b a

namespace Order

variable (h : Order le)
include h

theorem refl (a : α) : le a a = true := by
  simpa using h.total a a

theorem pairwise_mergeSort (l : List α) : (l.mergeSort le).Pairwise fun a b => le a b = true :=
  List.pairwise_mergeSort h.trans h.total l

/-- Values that are in order already keep their order among themselves. -/
theorem filter_mergeSort_of_le {p : α → Bool} {l : List α}
    (hl : (l.filter p).Pairwise fun a b => le a b = true) :
    (l.mergeSort le).filter p = l.filter p := by
  have hsub : (l.filter p).Sublist (l.mergeSort le) :=
    List.sublist_mergeSort h.trans h.total hl List.filter_sublist
  have hsub' : (l.filter p).Sublist ((l.mergeSort le).filter p) := by
    simpa only [List.filter_filter, Bool.and_self] using hsub.filter p
  have hlength := ((List.mergeSort_perm l le).filter p).length_eq
  exact (hsub'.eq_of_length hlength.symm).symm

/-- Sorting leaves the values of a class as they were. -/
theorem filter_alike_mergeSort (l : List α) (a : α) :
    (l.mergeSort le).filter (alike le a) = l.filter (alike le a) := by
  refine h.filter_mergeSort_of_le (List.pairwise_of_forall_mem_list fun b hb c hc => ?_)
  have hb := (List.mem_filter.mp hb).2
  have hc := (List.mem_filter.mp hc).2
  rw [alike, Bool.and_eq_true] at hb hc
  exact h.trans b a c hb.2 hc.1

/-- Two rows in order with the same values in each class are the same. -/
theorem eq_of_filter {l l' : List α} (hl : l.Pairwise fun a b => le a b = true)
    (hl' : l'.Pairwise fun a b => le a b = true)
    (hfilter : ∀ a, l.filter (alike le a) = l'.filter (alike le a)) : l = l' := by
  have hself (a : α) : alike le a a = true := by
    rw [alike, h.refl a, Bool.and_self]
  induction l generalizing l' with
  | nil =>
    cases l' with
    | nil => rfl
    | cons b l' =>
      have := hfilter b
      rw [List.filter_nil, List.filter_cons_of_pos (hself b)] at this
      cases this
  | cons a l ih =>
    cases l' with
    | nil =>
      have := hfilter a
      rw [List.filter_nil, List.filter_cons_of_pos (hself a)] at this
      cases this
    | cons b l' =>
      obtain ⟨hfirst, hrest⟩ := List.pairwise_cons.mp hl
      obtain ⟨hfirst', hrest'⟩ := List.pairwise_cons.mp hl'
      -- each first value is somewhere in the other row, so the two are alike
      have hab : le a b = true := by
        have hmem : b ∈ (a :: l).filter (alike le b) := by
          rw [hfilter b, List.filter_cons_of_pos (hself b)]
          exact List.mem_cons_self
        rcases List.mem_cons.mp (List.mem_filter.mp hmem).1 with rfl | hb
        · exact h.refl b
        · exact hfirst b hb
      have hba : le b a = true := by
        have hmem : a ∈ (b :: l').filter (alike le a) := by
          rw [← hfilter a, List.filter_cons_of_pos (hself a)]
          exact List.mem_cons_self
        rcases List.mem_cons.mp (List.mem_filter.mp hmem).1 with rfl | ha
        · exact h.refl a
        · exact hfirst' a ha
      have halike : alike le a b = true := by
        rw [alike, hab, hba, Bool.and_self]
      have hheads := hfilter a
      rw [List.filter_cons_of_pos (hself a), List.filter_cons_of_pos halike] at hheads
      obtain ⟨rfl, -⟩ := List.cons.inj hheads
      refine congrArg (a :: ·) (ih hrest hrest' fun c => ?_)
      have hc := hfilter c
      rw [List.filter_cons, List.filter_cons] at hc
      split at hc
      · exact (List.cons.inj hc).2
      · exact hc

/-- **A row in order, with the values of each class as they were, is the sorted one.** -/
theorem mergeSort_eq_of_filter {l m : List α} (hm : m.Pairwise fun a b => le a b = true)
    (hfilter : ∀ a, m.filter (alike le a) = l.filter (alike le a)) : l.mergeSort le = m :=
  h.eq_of_filter (h.pairwise_mergeSort l) hm fun a =>
    (h.filter_alike_mergeSort l a).trans (hfilter a).symm

/-- **Sorting and leaving out values commute.** -/
theorem filter_mergeSort (p : α → Bool) (l : List α) :
    (l.mergeSort le).filter p = (l.filter p).mergeSort le := by
  refine (h.mergeSort_eq_of_filter ((h.pairwise_mergeSort l).filter p) fun a => ?_).symm
  rw [List.filter_filter, List.filter_filter]
  have hcomm : (fun b => alike le a b && p b) = fun b => p b && alike le a b :=
    funext fun b => Bool.and_comm _ _
  rw [hcomm, ← List.filter_filter, ← List.filter_filter, h.filter_alike_mergeSort]

/-- **Rows one after the other are sorted one by one.** -/
theorem mergeSort_append {l l' : List α} (hle : ∀ a ∈ l, ∀ b ∈ l', le a b = true) :
    (l ++ l').mergeSort le = l.mergeSort le ++ l'.mergeSort le := by
  refine h.mergeSort_eq_of_filter ?_ fun a => ?_
  · refine List.pairwise_append.mpr ⟨h.pairwise_mergeSort l, h.pairwise_mergeSort l', ?_⟩
    intro a ha b hb
    exact hle a (List.mem_mergeSort.mp ha) b (List.mem_mergeSort.mp hb)
  · rw [List.filter_append, List.filter_append, h.filter_alike_mergeSort,
      h.filter_alike_mergeSort]

/-- Rows with the same values in each class are sorted alike. -/
theorem mergeSort_eq_mergeSort {l l' : List α}
    (hfilter : ∀ a, l.filter (alike le a) = l'.filter (alike le a)) :
    l.mergeSort le = l'.mergeSort le :=
  h.mergeSort_eq_of_filter (h.pairwise_mergeSort l') fun a =>
    (h.filter_alike_mergeSort l' a).trans (hfilter a).symm

/-- **Two voices that take turns are sorted as if one came after the other**, where nothing of the
    second voice in one turn is as late as anything of the first voice in a later turn. -/
theorem mergeSort_interleaved {turns : List (List α × List α)}
    (hturns : turns.Pairwise fun p q => ∀ a ∈ p.2, ∀ b ∈ q.1, le b a = false) :
    (turns.flatMap fun p => p.1 ++ p.2).mergeSort le
      = (turns.flatMap Prod.fst ++ turns.flatMap Prod.snd).mergeSort le := by
  refine h.mergeSort_eq_mergeSort fun c => ?_
  induction turns with
  | nil => rfl
  | cons p turns ih =>
    obtain ⟨hfirst, hrest⟩ := List.pairwise_cons.mp hturns
    -- a class does not hold both of the second voice now and of the first one later
    have hcomm : p.2.filter (alike le c) ++ (turns.flatMap Prod.fst).filter (alike le c)
        = (turns.flatMap Prod.fst).filter (alike le c) ++ p.2.filter (alike le c) := by
      rcases hnow : p.2.filter (alike le c) with - | ⟨a, now⟩
      · rw [List.nil_append, List.append_nil]
      · rcases hlater : (turns.flatMap Prod.fst).filter (alike le c) with - | ⟨b, later⟩
        · rw [List.nil_append, List.append_nil]
        · have ha := List.mem_filter.mp (hnow ▸ List.mem_cons_self : a ∈ p.2.filter (alike le c))
          have hb := List.mem_filter.mp
            (hlater ▸ List.mem_cons_self : b ∈ (turns.flatMap Prod.fst).filter (alike le c))
          obtain ⟨q, hq, hbq⟩ := List.mem_flatMap.mp hb.1
          have hbefore := hfirst q hq a ha.1 b hbq
          rw [alike, Bool.and_eq_true] at ha hb
          rw [h.trans b c a hb.2.2 ha.2.1] at hbefore
          cases hbefore
    have hih := ih hrest
    rw [List.filter_append] at hih
    simp only [List.flatMap_cons, List.filter_append, hih, List.append_assoc]
    rw [← List.append_assoc (p.2.filter _), hcomm, List.append_assoc]

end Order

end Cantilena.Sorting
