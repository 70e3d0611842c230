import Cantilena.Arpeggio.Ordering
import Cantilena.Proofs.Arpeggio.Rows
import Mathlib.Data.Nat.Factorial.Basic

/-!
# Every ordering once

The search for orderings takes elements out of its lists and puts them back. It never takes what is
not there, it leaves its lists as it found them, and it finds every ordering once and in order.

* `picks`, `orderings` -- the orderings of elements without any working lists;
* `mem_orderings`, `length_orderings`, `pairwise_orderings` -- they are the permutations, as many
  as the factorial says, and in lexicographic order;
* `search_eq` -- what a search finds, and that it leaves the rest as it was;
* `getElem?_looped` -- where the tones of a loop come from;
* `orderings_listed` -- both families for a number of tones.
-/

namespace Cantilena

variable {α : Type}

/-! ## 1. Orderings of elements -/

/-- Each element of a list with the others in their order. -/
def picks : List α → List (α × List α)
  | [] => []
  | a :: rest => (a, rest) :: (picks rest).map fun p => (p.1, a :: p.2)

/-- The orderings of as many elements of a list as are asked for. -/
def orderings : (count : Nat) → List α → List (List α)
  | 0, _ => [[]]
  | count + 1, l => (picks l).flatMap fun p => (orderings count p.2).map (p.1 :: ·)

theorem map_fst_picks (l : List α) : (picks l).map Prod.fst = l := by
  induction l with
  | nil => rfl
  | cons a rest ih =>
    rw [picks, List.map_cons, List.map_map]
    exact congrArg (a :: ·) ih

theorem length_picks (l : List α) : (picks l).length = l.length := by
  rw [← List.length_map (f := Prod.fst), map_fst_picks]

theorem exists_pick {l : List α} {a : α} (h : a ∈ l) : ∃ others, (a, others) ∈ picks l := by
  rw [← map_fst_picks l] at h
  obtain ⟨p, hp, rfl⟩ := List.mem_map.mp h
  exact ⟨p.2, hp⟩

/-- A picked element and the others are all there is. -/
theorem perm_of_mem_picks {l : List α} {p : α × List α} (h : p ∈ picks l) :
    (p.1 :: p.2).Perm l := by
  induction l generalizing p with
  | nil => cases h
  | cons a rest ih =>
    rw [picks, List.mem_cons, List.mem_map] at h
    rcases h with rfl | ⟨q, hq, rfl⟩
    · exact .refl _
    · exact (List.Perm.swap a q.1 q.2).trans ((ih hq).cons a)

theorem sublist_of_mem_picks {l : List α} {p : α × List α} (h : p ∈ picks l) :
    p.2.Sublist l := by
  induction l generalizing p with
  | nil => cases h
  | cons a rest ih =>
    rw [picks, List.mem_cons, List.mem_map] at h
    rcases h with rfl | ⟨q, hq, rfl⟩
    · exact List.sublist_cons_self a rest
    · exact (ih hq).cons_cons a

theorem length_of_mem_picks {l : List α} {p : α × List α} {n : Nat} (hl : l.length = n + 1)
    (h : p ∈ picks l) : p.2.length = n := by
  have := (perm_of_mem_picks h).length_eq
  rw [List.length_cons] at this
  omega

/-- **The orderings of all elements are their permutations.** -/
theorem mem_orderings {n : Nat} {l m : List α} (hl : l.length = n) :
    m ∈ orderings n l ↔ m.Perm l := by
  induction n generalizing l m with
  | zero =>
    obtain rfl := List.eq_nil_of_length_eq_zero hl
    rw [orderings, List.mem_singleton, List.perm_nil]
  | succ n ih =>
    rw [orderings, List.mem_flatMap]
    constructor
    · rintro ⟨p, hp, hm⟩
      obtain ⟨m', hm', rfl⟩ := List.mem_map.mp hm
      have hothers : m'.Perm p.2 := (ih (length_of_mem_picks hl hp)).mp hm'
      exact (hothers.cons p.1).trans (perm_of_mem_picks hp)
    · intro h
      cases m with
      | nil =>
        have := h.length_eq
        rw [hl] at this
        cases this
      | cons a m' =>
        obtain ⟨others, hpick⟩ := exists_pick (h.subset List.mem_cons_self)
        have hothers : m'.Perm others := (h.trans (perm_of_mem_picks hpick).symm).cons_inv
        refine ⟨(a, others), hpick, List.mem_map.mpr ⟨m', ?_, rfl⟩⟩
        exact (ih (length_of_mem_picks hl hpick)).mpr hothers

/-- There are as many orderings as the factorial says. -/
theorem length_orderings {n : Nat} {l : List α} (hl : l.length = n) :
    (orderings n l).length = n.factorial := by
  induction n generalizing l with
  | zero => rfl
  | succ n ih =>
    have hturn : ∀ p ∈ picks l, ((orderings n p.2).map (p.1 :: ·)).length = n.factorial := by
      intro p hp
      rw [List.length_map, ih (length_of_mem_picks hl hp)]
    rw [orderings, length_rows hturn, length_picks, hl, Nat.factorial_succ]

/-- **The orderings of elements in order are in lexicographic order.** -/
theorem pairwise_orderings {R : α → α → Prop} {n : Nat} {l : List α} (hl : l.Pairwise R) :
    (orderings n l).Pairwise (List.Lex R) := by
  induction n generalizing l with
  | zero => exact List.pairwise_singleton _ _
  | succ n ih =>
    rw [orderings, List.pairwise_flatMap]
    constructor
    · intro p hp
      rw [List.pairwise_map]
      exact (ih (hl.sublist (sublist_of_mem_picks hp))).imp fun h => .cons h
    · -- the first elements of two turns are in order
      have hfirst : (picks l).Pairwise fun p q => R p.1 q.1 := by
        rw [← List.pairwise_map (f := Prod.fst), map_fst_picks]
        exact hl
      refine hfirst.imp fun {p q} hpq m hm m' hm' => ?_
      obtain ⟨m, -, rfl⟩ := List.mem_map.mp hm
      obtain ⟨m', -, rfl⟩ := List.mem_map.mp hm'
      exact .rel hpq

/-- The turns of a search go through the elements as they are picked. -/
theorem flatMap_picks {β : Type} (g : α × List α → List β) (l : List α) :
    (picks l).flatMap g
      = (List.range l.length).flatMap fun i =>
          (l[i]?.map fun a => g (a, l.eraseIdx i)).getD [] := by
  induction l generalizing g with
  | nil => rfl
  | cons a rest ih =>
    rw [picks, List.flatMap_cons, List.flatMap_map, ih, List.length_cons, List.range_succ_eq_map,
      List.flatMap_cons, List.flatMap_map]
    rfl

/-! ## 2. The search -/

namespace OrderingSearch

/-- A search that has found some more orderings, and is otherwise as it was. -/
def add (s : OrderingSearch α) (more : List (List α)) : OrderingSearch α :=
  { s with found := s.found ++ more.toArray }

@[simp] theorem left_add (s : OrderingSearch α) (more : List (List α)) :
    (s.add more).left = s.left := rfl

@[simp] theorem placed_add (s : OrderingSearch α) (more : List (List α)) :
    (s.add more).placed = s.placed := rfl

@[simp] theorem add_nil (s : OrderingSearch α) : s.add [] = s := by
  simp [add]

theorem add_add (s : OrderingSearch α) (more others : List (List α)) :
    (s.add more).add others = s.add (more ++ others) := by
  simp [add, Array.append_assoc]

theorem record_eq_add (s : OrderingSearch α) : s.record = s.add [s.placed] := by
  simp [record, add]

/-- What a search finds: the orderings of the elements left, behind those that are placed. Without
    any elements left there is no turn that could write one down. -/
def behind (s : OrderingSearch α) : List (List α) :=
  if s.left = [] then [] else (orderings s.left.length s.left).map (s.placed ++ ·)

/-- An element that was placed is put back to where it was. -/
theorem putBack_place (s : OrderingSearch α) {i : Nat} {a : α} (h : s.left[i]? = some a)
    (more : List (List α)) : ((s.place i a).add more).putBack i a = s.add more := by
  obtain ⟨hi, rfl⟩ := List.getElem?_eq_some_iff.mp h
  have hleft : (s.left.eraseIdx i).take i ++ s.left[i] :: (s.left.eraseIdx i).drop i = s.left := by
    rw [List.eraseIdx_eq_take_drop_succ, List.take_left' (by simp; omega),
      List.drop_left' (by simp; omega), List.getElem_cons_drop, List.take_append_drop]
  have hplaced : (s.placed ++ [s.left[i]]).dropLast = s.placed := List.dropLast_concat
  simp only [putBack, place, add, hleft, hplaced]

/-- What the turn of a search at a place finds. -/
def turnFinds (s : OrderingSearch α) (i : Nat) : List (List α) :=
  (s.left[i]?.map fun a =>
    (orderings (s.left.length - 1) (s.left.eraseIdx i)).map (s.placed ++ a :: ·)).getD []

theorem flatMap_turnFinds (s : OrderingSearch α) :
    (List.range s.left.length).flatMap s.turnFinds = s.behind := by
  unfold behind
  split
  · rename_i hnil
    rw [hnil]
    rfl
  · rename_i hne
    obtain ⟨n, hn⟩ := Nat.exists_eq_succ_of_ne_zero (List.length_eq_zero_iff.not.mpr hne)
    rw [hn, orderings, List.map_flatMap, flatMap_picks, hn]
    refine congrArg (List.flatMap · _) (funext fun i => ?_)
    simp only [turnFinds, hn, Nat.succ_eq_add_one, Nat.add_sub_cancel, List.map_map]
    rfl

variable {goOn : OrderingSearch α → Except Fault (OrderingSearch α)}

/-- **What a turn does**, where the search that it goes on with finds what it should: it puts back
    what it takes and adds its findings. -/
theorem turn_eq {s : OrderingSearch α} {i : Nat} (hi : i < s.left.length)
    (hgo : ∀ t : OrderingSearch α, t.left.length + 1 = s.left.length →
      goOn t = .ok (t.add t.behind)) :
    turn goOn s i = .ok (s.add (s.turnFinds i)) := by
  have hget : s.left[i]? = some s.left[i] := List.getElem?_eq_getElem hi
  have hlength : (s.left.eraseIdx i).length = s.left.length - 1 := List.length_eraseIdx_of_lt hi
  have hfinds : s.turnFinds i = (orderings (s.left.length - 1) (s.left.eraseIdx i)).map
      (s.placed ++ s.left[i] :: ·) := by
    rw [turnFinds, hget]
    rfl
  have hnext : (if (s.place i s.left[i]).left.isEmpty then .ok (s.place i s.left[i]).record
      else goOn (s.place i s.left[i])) = .ok ((s.place i s.left[i]).add (s.turnFinds i)) := by
    have hplaced : (s.place i s.left[i]).placed = s.placed ++ [s.left[i]] := rfl
    have hleft : (s.place i s.left[i]).left = s.left.eraseIdx i := rfl
    by_cases hempty : s.left.eraseIdx i = []
    · have hzero : s.left.length - 1 = 0 := by
        rw [← hlength, hempty]
        rfl
      rw [if_pos (by rw [hleft, hempty]; rfl), record_eq_add, hplaced, hfinds, hzero]
      rfl
    · have hbehind : (s.place i s.left[i]).behind = s.turnFinds i := by
        rw [behind, if_neg (hleft ▸ hempty), hleft, hplaced, hlength, hfinds]
        simp only [List.append_assoc, List.singleton_append]
      rw [if_neg (by rw [hleft, List.isEmpty_iff]; exact hempty), hgo _ (by rw [hleft]; omega), hbehind]
  rw [turn, hget]
  exact (congrArg (Except.map fun after => after.putBack i s.left[i]) hnext).trans
    (congrArg Except.ok (s.putBack_place hget _))

/-- By induction on the turns: each finds the lists as the first one did. -/
theorem turns_eq {s : OrderingSearch α} {turns : List Nat} (hturns : ∀ i ∈ turns, i < s.left.length)
    (hgo : ∀ t : OrderingSearch α, t.left.length + 1 = s.left.length →
      goOn t = .ok (t.add t.behind)) :
    turns.foldlM (turn goOn) s = .ok (s.add (turns.flatMap s.turnFinds)) := by
  induction turns generalizing s with
  | nil =>
    rw [List.flatMap_nil, add_nil]
    rfl
  | cons i turns ih =>
    obtain ⟨hi, hrest⟩ := List.forall_mem_cons.mp hturns
    have hafter := ih (s := s.add (s.turnFinds i)) hrest hgo
    rw [List.foldlM_cons, turn_eq hi hgo, List.flatMap_cons, ← add_add]
    exact hafter

/-- A search that goes deep enough. -/
theorem run_eq {depth : Nat} {s : OrderingSearch α} (h : s.left.length ≤ depth) :
    run depth s = .ok (s.add s.behind) := by
  induction depth generalizing s with
  | zero =>
    have hnil : s.left = [] := List.eq_nil_of_length_eq_zero (Nat.le_zero.mp h)
    rw [behind, if_pos hnil, add_nil]
    rfl
  | succ depth ih =>
    have hgo (t : OrderingSearch α) (ht : t.left.length + 1 = s.left.length) :
        run depth t = .ok (t.add t.behind) := ih (by omega)
    rw [run, turns_eq (fun i hi => List.mem_range.mp hi) hgo, flatMap_turnFinds]

/-- **What a search does**: it adds what there is to find, and leaves its lists as they were. -/
theorem search_eq (s : OrderingSearch α) : s.search = .ok (s.add s.behind) :=
  run_eq (Nat.le_refl _)

/-- A search takes its turns and goes on with a search like itself in each of them. -/
theorem search_eq_turns (s : OrderingSearch α) :
    s.search = (List.range s.left.length).foldlM (turn search) s := by
  rw [turns_eq (fun i hi => List.mem_range.mp hi) fun t _ => search_eq t, flatMap_turnFinds,
    search_eq]

end OrderingSearch

/-! ## 3. Loops -/

theorem length_looped (l : List α) : (looped l).length = l.length + (l.length - 2) := by
  simp only [looped, List.length_append, List.length_reverse, List.length_dropLast,
    List.length_tail]
  omega

/-- A loop starts with its ordering, and so determines it. -/
theorem take_looped (l : List α) : (looped l).take l.length = l := List.take_left

/-- **A loop goes up to the last tone of its ordering and down again.** -/
theorem getElem?_looped {l : List α} {k : Nat} (h : k < (looped l).length) :
    (looped l)[k]? = l[if k < l.length then k else 2 * l.length - 2 - k]? := by
  rw [length_looped] at h
  by_cases hk : k < l.length
  · rw [if_pos hk, looped, List.getElem?_append_left hk]
  · have hinside : l.tail.dropLast.length = l.length - 2 := by
      rw [List.length_dropLast, List.length_tail]
      omega
    rw [if_neg hk, looped, List.getElem?_append_right (Nat.le_of_not_lt hk),
      List.getElem?_reverse (by omega), hinside, List.getElem?_dropLast, List.length_tail,
      if_pos (by omega), List.getElem?_tail]
    exact congrArg (l[·]?) (by omega)

/-- No tone of a round is like the next one, which for the last tone is the first. -/
def NeverRepeats (round : List α) : Prop :=
  ∀ k < round.length, round[k]? ≠ round[(k + 1) % round.length]?

theorem neverRepeats_looped {l : List α} (hl : l.Nodup) (htwo : 2 ≤ l.length) :
    NeverRepeats (looped l) := by
  intro k hk
  have hlength := length_looped l
  have hnext : (k + 1) % (looped l).length < (looped l).length := Nat.mod_lt _ (by omega)
  have hwrap : (k + 1) % (looped l).length = if k + 1 = (looped l).length then 0 else k + 1 := by
    split
    · rename_i he
      rw [he, Nat.mod_self]
    · exact Nat.mod_eq_of_lt (by omega)
  rw [getElem?_looped hk, getElem?_looped hnext, hwrap, Ne,
    List.getElem?_inj (by split <;> omega) hl]
  -- one step up, one step down, or the step over the end
  split <;> split <;> split <;> omega

/-! ## 4. Both families -/

theorem Orderings.of_eq {n : Nat} (hn : 1 ≤ n) :
    Orderings.of n = .ok ⟨n, orderings n (List.range n), (orderings n (List.range n)).map looped⟩ := by
  have hne : List.range n ≠ [] := by
    rw [Ne, List.range_eq_nil]
    omega
  have hbehind : OrderingSearch.behind { left := List.range n } = orderings n (List.range n) := by
    rw [OrderingSearch.behind, if_neg hne, List.length_range]
    exact List.map_id _
  rw [Orderings.of, if_neg (by omega), Int.toNat_natCast, OrderingSearch.search_eq, hbehind]
  simp [OrderingSearch.add, Except.map]

/-- **All orderings of some tones are listed, each once, in lexicographic order, and so are their
    loops.** The search takes its turns and goes on with a search like itself in each; whatever it
    starts from, it fails in no turn and leaves its working lists as they were. A loop is its
    ordering with the inside backwards behind it; it starts with the ordering, is two tones short
    of twice as long, and never sounds a tone twice in a row, however often it goes round. -/
theorem orderings_listed {n : Nat} (hn : 1 ≤ n) :
    (∀ s : OrderingSearch Nat,
        s.search = (List.range s.left.length).foldlM (OrderingSearch.turn OrderingSearch.search) s
        ∧ ∃ after, s.search = .ok after ∧ after.left = s.left ∧ after.placed = s.placed)
      ∧ ∃ o : Orderings, Orderings.of n = .ok o ∧ o.size = n
        ∧ o.straight.Pairwise (List.Lex (· < ·))
        ∧ (∀ l, l ∈ o.straight ↔ l.Perm (List.range n))
        ∧ o.straight.length = n.factorial
        ∧ o.loops.length = o.straight.length
        ∧ ∀ (i : Nat) (l : List Nat), o.straight[i]? = some l → ∃ loop, o.loops[i]? = some loop
          ∧ loop = l ++ l.tail.dropLast.reverse
          ∧ loop.length = (if n = 1 then 1 else 2 * n - 2)
          ∧ l = loop.take n
          ∧ (2 ≤ n → NeverRepeats loop) := by
  have hrange : (List.range n).length = n := List.length_range
  refine ⟨fun s => ⟨s.search_eq_turns, _, s.search_eq, rfl, rfl⟩, _, Orderings.of_eq hn, rfl,
    pairwise_orderings List.pairwise_lt_range, fun l => mem_orderings hrange,
    length_orderings hrange, List.length_map _, fun i l hl => ?_⟩
  have hperm : l.Perm (List.range n) := (mem_orderings hrange).mp (List.mem_of_getElem? hl)
  have hlength : l.length = n := hperm.length_eq.trans hrange
  have hnodup : l.Nodup := hperm.nodup_iff.mpr List.nodup_range
  refine ⟨looped l, ?_, rfl, ?_, ?_, fun htwo => neverRepeats_looped hnodup (hlength ▸ htwo)⟩
  · rw [List.getElem?_map, hl]
    rfl
  · rw [length_looped, hlength]
    split <;> omega
  · rw [← hlength, take_looped]

/-- The second of the six orderings of three tones, and its loop. -/
theorem orderings_listed_three :
    ∃ o : Orderings, Orderings.of 3 = .ok o ∧ o.straight[1]? = some [0, 2, 1]
      ∧ o.loops[1]? = some [0, 2, 1, 2] ∧ NeverRepeats [0, 2, 1, 2]
      ∧ o.straight.length = Nat.factorial 3 := by
  have hn : 1 ≤ 3 := by decide
  obtain ⟨-, o, ho, -, -, -, hcount, -, hloops⟩ := orderings_listed hn
  have hsecond : o.straight[1]? = some [0, 2, 1] := by
    obtain rfl := Except.ok.inj ((Orderings.of_eq hn).symm.trans ho)
    rfl
  obtain ⟨loop, hloop, rfl, -, -, hround⟩ := hloops 1 [0, 2, 1] hsecond
  exact ⟨o, ho, hsecond, hloop, hround (by decide), hcount⟩

end Cantilena
