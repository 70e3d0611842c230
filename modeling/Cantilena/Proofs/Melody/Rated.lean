import Cantilena.Proofs.Melody.Key
import Cantilena.Proofs.Melody.Rating
import Cantilena.Proofs.Number.Dyadic

/-!
# Ratings that exist

A rating adds up floating-point numbers and counts. Only a count beyond all floating-point numbers
would leave it without a result, and no count of a rating is larger than the square of the number of
its notes.

* `Amount.exists_toFloat`, `exists_credit`, `exists_debit` -- counts that have a part in a rating;
* `Contour.of_le`, `spanOf_range`, `frequentGaps_le` -- bounds of what is counted;
* `exists_rating` -- with the weights from the start every melody has a rating.
-/

namespace Cantilena

/-! ## 1. Parts of a rating -/

section

variable {α β ε : Type}

/-- One step after another has a result if both have one. -/
theorem exists_bind {x : Except ε α} {f : α → Except ε β} (hx : ∃ a, x = .ok a)
    (hf : ∀ a, ∃ b, f a = .ok b) : ∃ b, x >>= f = .ok b := by
  obtain ⟨a, rfl⟩ := hx
  exact hf a

/-- A walk has a result if all its steps have one. -/
theorem exists_foldlM {f : α → β → Except ε α} (h : ∀ a b, ∃ a', f a b = .ok a') (l : List β)
    (a : α) : ∃ a', l.foldlM f a = .ok a' := by
  induction l generalizing a with
  | nil => exact ⟨a, rfl⟩
  | cons b l ih =>
    rw [List.foldlM_cons]
    exact exists_bind (h a b) ih

end

/-- A whole number of not too many bits is a floating-point number. -/
theorem Amount.exists_toFloat {n : Int} (h : n.natAbs < 2 ^ 100) :
    ∃ x, (Amount.whole n).toFloat = .ok x := by
  refine ⟨Float.ofInt n, ?_⟩
  rw [toFloat, Number.floatOfWhole, Number.nearest_fits h]
  rfl

theorem Amount.exists_times {n : Int} (h : n.natAbs < 2 ^ 100) (weight : Float) :
    ∃ x, (Amount.whole n).times (.real weight) = .ok (.real x) := by
  obtain ⟨y, hy⟩ := exists_toFloat h
  have hweight : (Amount.real weight).toFloat = .ok weight := rfl
  refine ⟨y * weight, ?_⟩
  rw [times, combine, hy, hweight]
  · rfl
  · nofun
  · nofun
  · nofun

theorem exists_credit {n : Int} (h : n.natAbs < 2 ^ 100) (score weight : Float) :
    ∃ x, credit score (.whole n) (.real weight) = .ok x := by
  obtain ⟨y, hy⟩ := Amount.exists_times h weight
  exact ⟨score + y, bind_eq_ok.mpr ⟨.real y, hy, rfl⟩⟩

theorem exists_debit {n : Int} (h : n.natAbs < 2 ^ 100) (score weight : Float) :
    ∃ x, debit score (.whole n) (.real weight) = .ok x := by
  obtain ⟨y, hy⟩ := Amount.exists_times h weight
  exact ⟨score - y, bind_eq_ok.mpr ⟨.real y, hy, rfl⟩⟩

/-! ## 2. Counts -/

theorem length_eraseDups_le {α : Type} [BEq α] (l : List α) : l.eraseDups.length ≤ l.length := by
  induction hl : l.length using Nat.strongRecOn generalizing l with
  | ind n ih =>
    cases l with
    | nil => exact Nat.zero_le _
    | cons a l =>
      have hfilter := List.length_filter_le (fun b => !b == a) l
      rw [List.length_cons] at hl
      rw [List.eraseDups_cons, List.length_cons]
      have := ih _ (by omega) (l.filter fun b => !b == a) rfl
      omega

theorem length_differences_le (l : List Int) : (differences l).length ≤ l.length := by
  fun_induction differences l with
  | case1 a b rest ih => simpa using ih
  | case2 l => exact Nat.zero_le _

namespace Contour

theorem turnsAfter_le (before : Int) (steps : List Int) : turnsAfter before steps ≤ steps.length := by
  induction steps generalizing before with
  | nil => exact Nat.le_refl 0
  | cons step steps ih =>
    have hrest := ih (if direction step ≠ 0 then direction step else before)
    rw [turnsAfter, List.length_cons]
    split <;> omega

theorem length_pairs_le (steps : List Int) : (pairs steps).length ≤ steps.length := by
  fun_induction pairs steps with
  | case1 a b rest ih => simpa using ih
  | case2 l => exact Nat.zero_le _

/-- No pair is repeated more often than there are pairs. -/
theorem repeated_le {α : Type} [BEq α] (l : List α) : repeated l ≤ l.length * l.length := by
  have hsum (distinct : List α) : (distinct.map fun a => l.count a - 1).sum
      ≤ distinct.length * l.length := by
    induction distinct with
    | nil => exact Nat.zero_le _
    | cons a distinct ih =>
      have hcount : l.count a ≤ l.length := List.count_le_length
      rw [List.map_cons, List.sum_cons, List.length_cons, Nat.succ_mul]
      omega
  exact Nat.le_trans (hsum _) (Nat.mul_le_mul_right _ (length_eraseDups_le l))

/-- **What is counted of a line is bounded by the square of its length.** -/
theorem of_le (pitches : List Int) :
    (Contour.of pitches).leaps ≤ pitches.length ∧ (Contour.of pitches).turns ≤ pitches.length
      ∧ (Contour.of pitches).repeats ≤ pitches.length * pitches.length := by
  have hsteps := length_differences_le pitches
  have hpairs := Nat.le_trans (length_pairs_le (differences pitches)) hsteps
  refine ⟨Nat.le_trans List.countP_le_length hsteps, Nat.le_trans (turnsAfter_le 0 _) hsteps, ?_⟩
  exact Nat.le_trans (repeated_le _) (Nat.mul_le_mul hpairs hpairs)

end Contour

/-- A choice of one of two numbers made along a row of numbers ends with one of them. -/
theorem foldl_choice_mem {R : Int → Int → Prop} [DecidableRel R] (l : List Int) (first : Int) :
    l.foldl (fun kept p => if R kept p then p else kept) first ∈ first :: l := by
  induction l generalizing first with
  | nil => exact List.mem_cons_self
  | cons p l ih =>
    rw [List.foldl_cons]
    by_cases h : R first p
    · rw [if_pos h]
      exact List.mem_cons_of_mem _ (ih p)
    · rw [if_neg h]
      rcases List.mem_cons.mp (ih first) with he | hmem
      · rw [he]
        exact List.mem_cons_self
      · exact List.mem_cons_of_mem _ (List.mem_cons_of_mem _ hmem)

namespace Judge

/-- The span of the pitches of notes is that of two notes at most. -/
theorem spanOf_range {pitches : List Int} (h : ∀ p ∈ pitches, 0 ≤ p ∧ p ≤ 127) :
    (spanOf pitches).natAbs ≤ 127 := by
  cases pitches with
  | nil => exact Nat.zero_le _
  | cons p rest =>
    have htop := h _ (foldl_choice_mem (R := fun top p => top < p) rest p)
    have hbottom := h _ (foldl_choice_mem (R := fun bottom p => p < bottom) rest p)
    show (rest.foldl (fun top p => if top < p then p else top) p
      - rest.foldl (fun bottom p => if p < bottom then p else bottom) p).natAbs ≤ 127
    omega

theorem frequentGaps_le (notes : List Note) : frequentGaps notes ≤ notes.length := by
  unfold frequentGaps
  simp only
  refine Nat.le_trans (List.length_filter_le _ _) (Nat.le_trans (length_eraseDups_le _) ?_)
  exact Nat.le_trans (length_differences_le _) (Nat.le_of_eq (List.length_map _))

/-! ## 3. Ratings -/

/-- A note on a step has a chord, or there is none. -/
theorem exists_chordAt (j : Judge Int) (step : Int) : ∃ chord, j.chordAt step = .ok chord := by
  refine exists_bind ⟨_, rfl⟩ fun bar => ?_
  split
  · exact ⟨_, rfl⟩
  · exact ⟨_, rfl⟩

theorem exists_hitsChord (j : Judge Int) (n : Note) : ∃ hits, j.hitsChord n = .ok hits := by
  refine exists_bind ⟨_, rfl⟩ fun step => ?_
  split
  · exact ⟨_, rfl⟩
  · refine exists_bind (j.exists_chordAt step) fun chord => ?_
    cases chord with
    | none => exact ⟨_, rfl⟩
    | some chord => exact ⟨_, rfl⟩

variable {j : Judge Int} (hw : j.weights = {})
include hw

theorem exists_addEvent (score : Float) (n : Note) : ∃ x, j.addEvent score n = .ok x := by
  unfold addEvent
  rw [hw]
  have hhits (score : Float) : ∃ x, (do
      if ← j.hitsChord n then Amount.addTo score (.real 2.2) else return score) = .ok x :=
    exists_bind (j.exists_hitsChord n) fun hits => by
      cases hits with
      | true => exact ⟨_, rfl⟩
      | false => exact ⟨_, rfl⟩
  split
  · exact hhits score
  · exact exists_bind ⟨_, rfl⟩ hhits

theorem exists_addCadence (notes : List Note) (size : Nat) (score : Float) (phrase : Nat) :
    ∃ x, j.addCadence notes size score phrase = .ok x := by
  refine exists_bind ⟨_, j.lastEvent_eq notes _⟩ fun last => ?_
  rw [hw]
  cases last with
  | none => exact ⟨_, rfl⟩
  | some n =>
    show ∃ x, (if Role.ofIndex phrase = .answer
      then Amount.addTo score (if hasClass n [j.key.tonic] then _ else _)
      else Amount.addTo score (if hasClass n [j.key.tonic] then _ else _)) = .ok x
    split
    · split
      · exact ⟨_, rfl⟩
      · exact ⟨_, rfl⟩
    · split
      · exact ⟨_, rfl⟩
      · exact ⟨_, rfl⟩

omit hw in
theorem exists_contourScore {pitches : List Int} (hfew : pitches.length < 2 ^ 50) :
    ∃ x, (Contour.of pitches).score {} = .ok x := by
  obtain ⟨hleaps, hturns, hrepeats⟩ := Contour.of_le pitches
  have hsquare : pitches.length * pitches.length < 2 ^ 50 * 2 ^ 50 := Nat.mul_lt_mul'' hfew hfew
  refine exists_bind (exists_debit (by omega) 0.0 1.8) fun score => ?_
  refine exists_bind (exists_debit (by omega) score 1.1) fun score => ?_
  exact exists_credit (by omega) score 1.6

/-- **With the weights from the start notes have a rating**, unless there are too many to count. -/
theorem exists_score {notes : List Note} (hfew : notes.length < 2 ^ 50) :
    ∃ x, j.score notes = .ok x := by
  have hlength : (notes.map Event.pitch).length = notes.length := List.length_map _
  have hspan : (spanOf (notes.map Event.pitch)).natAbs ≤ 127 := spanOf_range fun p hp => by
    obtain ⟨n, -, rfl⟩ := List.mem_map.mp hp
    exact n.valid.1
  have haddSpan (score : Float) :
      ∃ x, j.addSpan score (spanOf (notes.map Event.pitch)) = .ok x := by
    unfold addSpan
    rw [hw]
    split
    · exact exists_debit (by omega) _ _
    · exact ⟨_, rfl⟩
  have hgaps := frequentGaps_le notes
  refine exists_bind ⟨(), rfl⟩ fun _ => ?_
  refine exists_bind (exists_foldlM (exists_addEvent hw) notes 0.0) fun score => ?_
  refine exists_bind (haddSpan score) fun score => ?_
  rw [hw]
  refine exists_bind (exists_contourScore (hlength ▸ hfew)) fun contour => ?_
  refine exists_bind ⟨_, rfl⟩ fun size => ?_
  refine exists_bind (exists_foldlM (exists_addCadence hw notes size) _ _) fun score => ?_
  exact exists_credit (by omega) score 1.1

end Judge

/-- **With the weights from the start every melody has a rating** against settings that are
    admitted, unless it has too many notes to count. -/
theorem exists_rating {r : Registry} (hr : r.Reachable) {p : Params Int} (hp : p.Admitted r)
    (entries : List Entry) {notes : List Note} (hfew : notes.length < 2 ^ 50) :
    ∃ x, (rate r notes entries p {}).outcome = .ok x := by
  obtain ⟨k, hkey, -⟩ := Params.exists_key hr hp (barChords entries)
  have hsorted : (byStart notes).length < 2 ^ 50 := by
    unfold byStart
    rw [List.length_mergeSort]
    exact hfew
  have hscore : ∃ x, (⟨barChords entries, k, p, {}⟩ : Judge Int).score (byStart notes) = .ok x :=
    Judge.exists_score rfl hsorted
  obtain ⟨x, hx⟩ := hscore
  unfold rate rateOver
  by_cases hshort : notes.length < fewestRated
  · rw [if_pos hshort]
    exact ⟨_, rfl⟩
  · rw [if_neg hshort]
    refine ⟨x, Logged.bind_outcome_eq_ok.mpr ⟨entries, rfl, ?_⟩⟩
    refine Logged.bind_outcome_eq_ok.mpr ⟨(), rfl, ?_⟩
    exact Logged.bind_outcome_eq_ok.mpr ⟨k, hkey, hx⟩

end Cantilena
