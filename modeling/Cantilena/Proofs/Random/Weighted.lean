import Cantilena.Proofs.Number.Product
import Cantilena.Proofs.Random.Unit

/-!
# Choices by weight

The weights are added up from the left until they reach a threshold, a part of their total. A sum
that has not reached the threshold does not reach it with a weight of zero, so a value of weight
zero is chosen in two cases only: as the first one, by a threshold that is not above zero, and as
the last one, where no sum reaches the threshold.

* `Source.Reaches` -- whether the weights added up reach a threshold;
* `exists_reach` -- the value that is chosen from a sum below the threshold on;
* `weighted_positive_iff` -- when a choice is a value of positive weight;
* `not_weighted_positive` -- a draw of zero chooses a first value that weighs nothing.
-/

namespace Cantilena

open Number

variable {σ α : Type} {src : Source σ} {threshold sum : Float} {first : α × Amount}
  {options others : List (α × Amount)}

/-! ## 1. Sums of weights -/

/-- Whether the weights, added to a sum one after another, reach a threshold. -/
def Source.Reaches (threshold : Float) : Float → List (α × Amount) → Prop
  | _, [] => False
  | sum, o :: options =>
    ∃ next, Amount.addTo sum o.2 = .ok next ∧ (threshold ≤ next ∨ Reaches threshold next options)

theorem addTo_eq {a : Amount} {x : Float} (h : a.toFloat = .ok x) :
    Amount.addTo sum a = .ok (sum + x) := by
  rw [Amount.addTo, h]
  rfl

theorem reaches_cons {x : Float} (h : first.2.toFloat = .ok x) :
    Source.Reaches threshold sum (first :: others)
      ↔ threshold ≤ sum + x ∨ Source.Reaches threshold (sum + x) others := by
  constructor
  · intro ⟨next, hnext, hreach⟩
    rw [addTo_eq h] at hnext
    obtain rfl := Except.ok.inj hnext
    exact hreach
  · exact fun hreach => ⟨sum + x, addTo_eq h, hreach⟩

/-- **What reaches a threshold that was not reached before is a positive weight.** -/
theorem pos_of_reached {a : Amount} {x : Float} (ha : 0 ≤ a) (hx : a.toFloat = .ok x)
    (hsum : ¬ threshold ≤ sum) (h : threshold ≤ sum + x) : 0 < a := by
  by_contra hpos
  obtain ⟨z, s, hz, hzero⟩ := toFloat_of_zero ha hpos
  obtain rfl := Except.ok.inj (hx.symm.trans hz)
  exact hsum ((le_add_zero_iff hzero).mp h)

/-- Where the weights have a sum, and that a floating-point number near it, so has each of them. -/
theorem exists_toFloat_of_total {a c : Amount} {x : Float} (ha : FromZero a)
    (hweights : ∀ o ∈ options, 0 ≤ o.2)
    (h : options.foldlM (fun sum o => Amount.plus sum o.2) a = .ok c) (hc : c.toFloat = .ok x) :
    (∃ y, a.toFloat = .ok y) ∧ ∀ o ∈ options, ∃ y, o.2.toFloat = .ok y := by
  induction options generalizing a with
  | nil =>
    obtain rfl := Except.ok.inj h
    exact ⟨⟨x, hc⟩, List.forall_mem_nil _⟩
  | cons o options ih =>
    rw [List.foldlM_cons] at h
    obtain ⟨b, hb, h⟩ := bind_eq_ok.mp h
    have ho := fromZero_of_nonneg (hweights o List.mem_cons_self)
    have hothers : ∀ o ∈ options, 0 ≤ o.2 := fun o' ho' => hweights o' (List.mem_cons_of_mem _ ho')
    have hfrom : FromZero b := fromZero_plus ha ho hb
    obtain ⟨⟨y, hy⟩, hrest⟩ := ih hfrom hothers h
    obtain ⟨hfirst, hsecond⟩ := exists_toFloat_of_plus ha ho hb hy
    exact ⟨hfirst, List.forall_mem_cons.mpr ⟨hsecond, hrest⟩⟩

/-- Once a sum is a floating-point number it is rounded as the sums of the search are, and so a
    threshold that is not above the last one is reached. -/
theorem reaches_of_le {c : Amount} {x : Float}
    (h : options.foldlM (fun sum o => Amount.plus sum o.2) (.real sum) = .ok c)
    (hc : c.toFloat = .ok x) (hle : threshold ≤ x) :
    threshold ≤ sum ∨ Source.Reaches threshold sum options := by
  induction options generalizing sum with
  | nil =>
    obtain rfl := Except.ok.inj h
    obtain rfl := Except.ok.inj hc
    exact .inl hle
  | cons o options ih =>
    rw [List.foldlM_cons] at h
    obtain ⟨b, hb, h⟩ := bind_eq_ok.mp h
    rcases plus_eq_ok hb with ⟨m, n, hm, -, -⟩ | ⟨y, z, hy, hz, rfl⟩
    · cases hm
    · obtain rfl := Except.ok.inj hy
      exact .inr ((reaches_cons hz).mpr (ih h))

/-- **Where the first weight is a floating-point number, a threshold that is not above the total is
    reached.** -/
theorem reaches_of_le_total {c : Amount} {x : Float} (hreal : IsReal first.2)
    (h : Source.total (first :: others) = .ok c) (hc : c.toFloat = .ok x) (hle : threshold ≤ x) :
    Source.Reaches threshold 0.0 (first :: others) := by
  obtain ⟨y, hy⟩ := hreal
  have hzero : Float.ofInt 0 = 0.0 := rfl
  have hfirst : Amount.plus (.whole 0) first.2 = .ok (.real (0.0 + y)) := by
    rw [hy, plus_of_real (.inr ⟨y, rfl⟩), toFloat_zero, hzero]
    rfl
  rw [Source.total, List.foldlM_cons, hfirst] at h
  have hy' : first.2.toFloat = .ok y := by rw [hy, Amount.toFloat]
  exact (reaches_cons hy').mpr (reaches_of_le h hc hle)

/-! ## 2. The value that is chosen -/

theorem reach_cons {second : α × Amount} {x : Float} (h : first.2.toFloat = .ok x) :
    Source.reach threshold sum first (second :: others)
      = if threshold ≤ sum + x then .ok first.1
        else Source.reach threshold (sum + x) second others := by
  rw [Source.reach, addTo_eq h]
  rfl

/-- **The value that is chosen from a sum below the threshold on** has a positive weight, unless no
    sum reaches the threshold and the last weight is zero. -/
theorem exists_reach (hweights : ∀ o ∈ first :: others, 0 ≤ o.2)
    (hfloats : ∀ o ∈ first :: others, ∃ x, o.2.toFloat = .ok x) (hsum : ¬ threshold ≤ sum) :
    ∃ o ∈ first :: others, Source.reach threshold sum first others = .ok o.1
      ∧ (0 < o.2 ↔ Source.Reaches threshold sum (first :: others)
        ∨ 0 < ((first :: others).getLast (List.cons_ne_nil _ _)).2) := by
  obtain ⟨x, hx⟩ := hfloats first List.mem_cons_self
  have hpos := pos_of_reached (hweights first List.mem_cons_self) hx hsum
  induction others generalizing first sum x with
  | nil =>
    refine ⟨first, List.mem_cons_self, ?_, .inr, fun h => h.elim (fun hreach => ?_) id⟩
    · rw [Source.reach, addTo_eq hx]
      rfl
    · exact hpos (((reaches_cons hx).mp hreach).resolve_right id)
  | cons second others ih =>
    rw [reach_cons hx, reaches_cons hx]
    by_cases hreach : threshold ≤ sum + x
    · exact ⟨first, List.mem_cons_self, if_pos hreach, fun _ => .inl (.inl hreach),
        fun _ => hpos hreach⟩
    · -- the first value is passed, and the others are searched from its sum on
      have hweights' := (List.forall_mem_cons.mp hweights).2
      have hfloats' := (List.forall_mem_cons.mp hfloats).2
      obtain ⟨y, hy⟩ := hfloats' second List.mem_cons_self
      obtain ⟨o, ho, hchosen, hiff⟩ := ih hweights' hfloats' hreach y hy
        (pos_of_reached (hweights' second List.mem_cons_self) hy hreach)
      refine ⟨o, List.mem_cons_of_mem _ ho, by rw [if_neg hreach, hchosen], ?_⟩
      rw [hiff, List.getLast_cons (List.cons_ne_nil _ _), or_iff_right hreach]

/-- A threshold that is not above zero chooses the first value. -/
theorem reach_first (others : List (α × Amount)) (hweight : 0 ≤ first.2) {x : Float}
    (hx : first.2.toFloat = .ok x) (hle : threshold ≤ 0.0) :
    Source.reach threshold 0.0 first others = .ok first.1
      ∧ Source.Reaches threshold 0.0 (first :: others) := by
  have hreach : threshold ≤ 0.0 + x :=
    le_of_le_le hle (zero_le_zero_add (zero_le_toFloat hweight hx))
  refine ⟨?_, (reaches_cons hx).mpr (.inl hreach)⟩
  cases others with
  | nil =>
    rw [Source.reach, addTo_eq hx]
    rfl
  | cons second others => rw [reach_cons hx, if_pos hreach]

/-! ## 3. Choices -/

/-- A choice by weight is one draw, and the search for its part of the total. -/
theorem run_weighted {total : Amount} (htotal : Source.total (first :: others) = .ok total)
    (hpos : 0 < total) (s : σ) :
    (src.weighted (first :: others)).run s
      = ((do let t ← total.toFloat
             Source.reach ((src.unit s).1 * t) 0.0 first others), (src.unit s).2) := by
  have hlift : (liftM (Source.total (first :: others)) : Drawing σ Amount).run s
      = (.ok total, s) := by
    rw [htotal]
    rfl
  have hdraw : src.draw.run s = (.ok (src.unit s).1, (src.unit s).2) := rfl
  rw [Source.weighted, run_bind_of_ok hlift, if_neg (not_le_zero_of_pos hpos).2, Source.weightedBy,
    run_bind_of_ok hdraw]
  cases total.toFloat with
  | error cause => rfl
  | ok t => rfl

/-- **When a choice is a value of positive weight.** By weights from 0 on with a positive total, and
    numbers from 0 on and below 1, one of the values is chosen with one draw, unless the total is
    beyond the floating-point numbers. Its weight is positive unless the threshold is not above zero
    and the first weight is zero, or no sum of the weights reaches it and the last one is zero. If
    the first weight is a floating-point number, then a threshold that is a number is reached. -/
theorem weighted_positive_iff (hsrc : src.DrawsUnits)
    (hweights : ∀ o ∈ first :: others, 0 ≤ o.2) {total : Amount}
    (htotal : Source.total (first :: others) = .ok total) (hpos : 0 < total) (s : σ) :
    (∀ cause, total.toFloat = .error cause →
      (src.weighted (first :: others)).run s = (.error cause, (src.unit s).2))
    ∧ ∀ t, total.toFloat = .ok t →
      (∃ o ∈ first :: others,
        (src.weighted (first :: others)).run s = (.ok o.1, (src.unit s).2)
        ∧ (0 < o.2 ↔ ((src.unit s).1 * t ≤ 0.0 → 0 < first.2)
          ∧ (Source.Reaches ((src.unit s).1 * t) 0.0 (first :: others)
            ∨ 0 < ((first :: others).getLast (List.cons_ne_nil _ _)).2)))
      ∧ (IsReal first.2 → ((src.unit s).1 * t).isNaN = false →
        Source.Reaches ((src.unit s).1 * t) 0.0 (first :: others)) := by
  rw [run_weighted htotal hpos s]
  refine ⟨fun cause hcause => by rw [hcause]; rfl, fun t ht => ⟨?_, fun hreal hnan => ?_⟩⟩
  · rw [ht]
    obtain ⟨-, hfloats⟩ := exists_toFloat_of_total (fun n hn => Amount.whole.inj hn ▸ Int.le_refl 0)
      hweights htotal ht
    by_cases hle : (src.unit s).1 * t ≤ 0.0
    · obtain ⟨x, hx⟩ := hfloats first List.mem_cons_self
      obtain ⟨hchosen, hreach⟩ := reach_first others
        (hweights first List.mem_cons_self) hx hle
      exact ⟨first, List.mem_cons_self, congrArg (·, _) hchosen,
        fun h => ⟨fun _ => h, .inl hreach⟩, fun h => h.1 hle⟩
    · obtain ⟨o, ho, hchosen, hiff⟩ := exists_reach hweights hfloats hle
      exact ⟨o, ho, congrArg (·, _) hchosen,
        hiff.trans ⟨fun h => ⟨fun h' => absurd h' hle, h⟩, And.right⟩⟩
  · have hle : (src.unit s).1 * t ≤ t := mul_le_right (hsrc s).1 (hsrc s).2
      (zero_le_toFloat (le_of_pos hpos) ht) hnan
    exact reaches_of_le_total hreal htotal ht hle

theorem total_zero_one :
    Source.total [("rest", .real 0.0), ("note", .real 1.0)] = .ok (.real 1.0) := by
  decide +kernel

theorem nonneg_zero_one : ∀ o ∈ [("rest", Amount.real 0.0), ("note", .real 1.0)], 0 ≤ o.2 := by
  decide +kernel

/-- Half of the total chooses the only value that weighs something. -/
theorem weighted_positive_iff_half :
    ((Source.fixed 0.5).weighted [("rest", .real 0.0), ("note", .real 1.0)]).run ()
      = (.ok "note", ()) := by
  have hunits : (Source.fixed 0.5).DrawsUnits := Source.drawsUnits_fixed ⟨by decide, by decide⟩
  obtain ⟨⟨o, ho, hrun, hiff⟩, -⟩ := (weighted_positive_iff hunits nonneg_zero_one total_zero_one
    (by decide +kernel) ()).2 1.0 rfl
  have hthreshold : ¬ ((Source.fixed 0.5).unit ()).1 * 1.0 ≤ 0.0 := by decide +kernel
  have hlast : 0 < Amount.real 1.0 := by decide +kernel
  have hpos : 0 < o.2 := hiff.mpr ⟨fun h => absurd h hthreshold, .inr hlast⟩
  rw [hrun]
  rw [List.mem_cons, List.mem_singleton] at ho
  rcases ho with rfl | rfl
  · exact absurd hpos (by decide +kernel)
  · rfl

/-- **A draw of zero chooses a first value that weighs nothing**, although another weighs
    something. -/
theorem not_weighted_positive :
    ¬ ∀ (src : Source Unit) (first : String × Amount) (others : List (String × Amount)),
      src.DrawsUnits → (∀ o ∈ first :: others, 0 ≤ o.2) →
      ∀ total, Source.total (first :: others) = .ok total → 0 < total →
        ∃ o ∈ first :: others,
          (src.weighted (first :: others)).run () = (.ok o.1, (src.unit ()).2) ∧ 0 < o.2 := by
  intro hall
  have hunits : (Source.fixed 0.0).DrawsUnits := Source.drawsUnits_fixed ⟨by decide, by decide⟩
  have hpos : 0 < Amount.real 1.0 := by decide +kernel
  obtain ⟨o, ho, hrun, hweight⟩ := hall _ _ _ hunits nonneg_zero_one _ total_zero_one hpos
  rw [run_weighted total_zero_one hpos] at hrun
  have hfirst := reach_first [("note", .real 1.0)]
    (nonneg_zero_one _ List.mem_cons_self) rfl
    (show ((Source.fixed 0.0).unit ()).1 * 1.0 ≤ 0.0 by decide +kernel)
  have hchosen : Except.ok "rest" = Except.ok o.1 :=
    hfirst.1.symm.trans (congrArg Prod.fst hrun)
  rw [List.mem_cons, List.mem_singleton] at ho
  rcases ho with rfl | rfl
  · exact absurd hweight (by decide +kernel)
  · exact absurd (Except.ok.inj hchosen) (by decide)

end Cantilena
