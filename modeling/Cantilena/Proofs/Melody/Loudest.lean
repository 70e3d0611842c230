import Cantilena.Proofs.Melody.Causality

/-!
# The note that is left on a tick

Of the notes on a tick the loudest is left, and of several that are equally loud the one that was
written first. The notes are sorted by start before they are thinned; that sort leaves the notes of a
tick in the order in which they were written, and so the choice is one among the notes as they were
given.

* `IsFirstLoudest` -- that a note is the loudest on its tick, and the first that is so loud;
* `IsFirstLoudest.unique` -- on a tick there is one such note;
* `isFirstLoudest_of_mem_thin`, `mem_loudestPerTick_iff` -- just these notes are left;
* `loudestPerTick_of_pairwise` -- where no two notes share a tick all are left as they are;
* `loudest_left_per_tick` -- all of it, for any list of notes.
-/

namespace Cantilena

/-! ## 1. The first of the loudest notes on a tick -/

/-- That a note is the loudest on its tick, and the first that is so loud: on its tick every note
    before it is softer, and none behind it is louder. -/
def IsFirstLoudest (l : List Note) (n : Note) : Prop :=
  ∃ before after, l = before ++ n :: after
    ∧ (∀ m ∈ before, m.start = n.start → m.velocity < n.velocity)
    ∧ ∀ m ∈ after, m.start = n.start → m.velocity ≤ n.velocity

namespace IsFirstLoudest

variable {l : List Note} {a b n m : Note}

theorem mem (h : IsFirstLoudest l n) : n ∈ l := by
  obtain ⟨before, after, rfl, -, -⟩ := h
  simp

theorem velocity_le (h : IsFirstLoudest l n) (hm : m ∈ l) (hstart : m.start = n.start) :
    m.velocity ≤ n.velocity := by
  obtain ⟨before, after, rfl, hbefore, hafter⟩ := h
  rcases List.mem_append.mp hm with hm | hm
  · exact Int.le_of_lt (hbefore m hm hstart)
  · rcases List.mem_cons.mp hm with rfl | hm
    · exact Int.le_refl _
    · exact hafter m hm hstart

/-- A note in front may be on the tick if it is softer. -/
theorem cons (h : IsFirstLoudest l n) (ha : a.start = n.start → a.velocity < n.velocity) :
    IsFirstLoudest (a :: l) n := by
  obtain ⟨before, after, rfl, hbefore, hafter⟩ := h
  exact ⟨a :: before, after, rfl, List.forall_mem_cons.mpr ⟨ha, hbefore⟩, hafter⟩

/-- A note behind the first one may share its tick if it is not louder. -/
theorem cons_cons (h : IsFirstLoudest (a :: l) n) (hstart : b.start = a.start)
    (hb : b.velocity ≤ a.velocity) : IsFirstLoudest (a :: b :: l) n := by
  obtain ⟨before, after, hl, hbefore, hafter⟩ := h
  cases before with
  | nil =>
    obtain ⟨rfl, rfl⟩ := List.cons.inj hl
    exact ⟨[], b :: l, rfl, List.forall_mem_nil _, List.forall_mem_cons.mpr ⟨fun _ => hb, hafter⟩⟩
  | cons first before =>
    obtain ⟨rfl, rfl⟩ := List.cons.inj hl
    obtain ⟨ha, hbefore⟩ := List.forall_mem_cons.mp hbefore
    refine ⟨a :: b :: before, after, rfl, ?_, hafter⟩
    refine List.forall_mem_cons.mpr ⟨ha, List.forall_mem_cons.mpr ⟨fun hn => ?_, hbefore⟩⟩
    exact Int.lt_of_le_of_lt hb (ha (hstart.symm.trans hn))

/-- **On a tick there is one such note.** -/
theorem unique (h : IsFirstLoudest l n) (h' : IsFirstLoudest l m) (hstart : m.start = n.start) :
    m = n := by
  have hvelocity : m.velocity = n.velocity :=
    Int.le_antisymm (h.velocity_le h'.mem hstart) (h'.velocity_le h.mem hstart.symm)
  obtain ⟨before, after, rfl, hbefore, -⟩ := h
  obtain ⟨before', after', hl, hbefore', -⟩ := h'
  -- one that stood before the other would be softer
  rcases List.append_eq_append_iff.mp hl with ⟨more, rfl, hrest⟩ | ⟨more, rfl, hrest⟩
  · cases more with
    | nil => exact (List.cons.inj hrest).1.symm
    | cons k more =>
      obtain ⟨rfl, -⟩ := List.cons.inj hrest
      have := hbefore' n (by simp) hstart.symm
      omega
  · cases more with
    | nil => exact (List.cons.inj hrest).1
    | cons k more =>
      obtain ⟨rfl, -⟩ := List.cons.inj hrest
      have := hbefore m (by simp) hstart
      omega

end IsFirstLoudest

/-- Only the notes on the tick matter, and the order among them. -/
theorem isFirstLoudest_filter_iff {l : List Note} {n : Note} :
    IsFirstLoudest (l.filter (·.start = n.start)) n ↔ IsFirstLoudest l n := by
  constructor
  · intro h
    obtain ⟨before, after, hl, hbefore, hafter⟩ := h
    obtain ⟨front, back, rfl, rfl, hback⟩ := List.filter_eq_append_iff.mp hl
    obtain ⟨skipped, rest, rfl, hskipped, -, rfl⟩ := List.filter_eq_cons_iff.mp hback
    refine ⟨front ++ skipped, rest, by rw [List.append_assoc], fun m hm hstart => ?_,
      fun m hm hstart => ?_⟩
    · rcases List.mem_append.mp hm with hm | hm
      · exact hbefore m (List.mem_filter.mpr ⟨hm, decide_eq_true hstart⟩) hstart
      · exact absurd (decide_eq_true hstart) (hskipped m hm)
    · exact hafter m (List.mem_filter.mpr ⟨hm, decide_eq_true hstart⟩) hstart
  · intro h
    obtain ⟨before, after, rfl, hbefore, hafter⟩ := h
    refine ⟨before.filter (·.start = n.start), after.filter (·.start = n.start), by simp, ?_, ?_⟩
    · exact fun m hm => hbefore m (List.mem_filter.mp hm).1
    · exact fun m hm => hafter m (List.mem_filter.mp hm).1

/-! ## 2. What is left -/

/-- **Sorting by start leaves the notes of a tick as they were written.** -/
theorem filter_start_byStart (l : List Note) (tick : Int) :
    (byStart l).filter (·.start = tick) = l.filter (·.start = tick) := by
  refine order_startsBy.filter_mergeSort_of_le
    (List.pairwise_of_forall_mem_list fun a ha b hb => startsBy_iff.mpr (Int.le_of_eq ?_))
  have ha := of_decide_eq_true (List.mem_filter.mp ha).2
  have hb := of_decide_eq_true (List.mem_filter.mp hb).2
  exact ha.trans hb.symm

/-- **Of notes by start only the first loudest of a tick is left.** -/
theorem isFirstLoudest_of_mem_thin {l : List Note} (hl : l.Pairwise fun a b => a.start ≤ b.start)
    {n : Note} (h : n ∈ thin l) : IsFirstLoudest l n := by
  fun_induction thin l with
  | case1 => cases h
  | case2 a =>
    obtain rfl := List.mem_singleton.mp h
    exact ⟨[], [], rfl, List.forall_mem_nil _, List.forall_mem_nil _⟩
  | case3 a b rest hstart ih =>
    rw [dite_eq_ite] at ih
    have hab : a.start = b.start := beq_iff_eq.mp hstart
    obtain ⟨hfirst, hrest⟩ := List.pairwise_cons.mp hl
    by_cases hsofter : Event.velocity a < Event.velocity b
    · rw [if_pos hsofter] at ih h
      have hleft := ih hrest h
      refine hleft.cons fun hn => Int.lt_of_lt_of_le hsofter ?_
      exact hleft.velocity_le List.mem_cons_self (hab.symm.trans hn)
    · rw [if_neg hsofter] at ih h
      refine (ih ?_ h).cons_cons hab.symm (Int.not_lt.mp hsofter)
      refine List.pairwise_cons.mpr ⟨fun m hm => hfirst m (List.mem_cons_of_mem _ hm), ?_⟩
      exact (List.pairwise_cons.mp hrest).2
  | case4 a b rest hne ih =>
    obtain ⟨hfirst, hrest⟩ := List.pairwise_cons.mp hl
    -- the first note is alone on its tick
    have halone (m : Note) (hm : m ∈ b :: rest) : m.start ≠ a.start := by
      have hab : a.start ≠ b.start := fun he => hne (beq_iff_eq.mpr he)
      have hb := hfirst b List.mem_cons_self
      rcases List.mem_cons.mp hm with rfl | hm
      · exact hab.symm
      · have := (List.pairwise_cons.mp hrest).1 m hm
        omega
    rcases List.mem_cons.mp h with rfl | h
    · exact ⟨[], b :: rest, rfl, List.forall_mem_nil _, fun m hm hstart => absurd hstart (halone m hm)⟩
    · have hleft := ih hrest h
      exact hleft.cons fun hn => absurd hn.symm (halone n hleft.mem)

/-- **Just the first loudest notes are left.** -/
theorem mem_loudestPerTick_iff {l : List Note} {n : Note} :
    n ∈ loudestPerTick l ↔ IsFirstLoudest l n := by
  have hleft {m : Note} (hm : m ∈ loudestPerTick l) : IsFirstLoudest l m := by
    have hsorted := isFirstLoudest_of_mem_thin (byStart_pairwise l) hm
    rwa [← isFirstLoudest_filter_iff, filter_start_byStart, isFirstLoudest_filter_iff] at hsorted
  constructor
  · exact hleft
  · intro h
    obtain ⟨m, hm, hstart, -⟩ := exists_mem_loudestPerTick h.mem
    obtain rfl := h.unique (hleft hm) hstart
    exact hm

theorem loudestPerTick_pairwise (l : List Note) :
    (loudestPerTick l).Pairwise fun a b => a.start < b.start :=
  thin_pairwise (byStart_pairwise l)

/-- Notes of which no two share a tick are not thinned. -/
theorem thin_of_pairwise {l : List Note} (h : l.Pairwise fun a b => a.start < b.start) :
    thin l = l := by
  fun_induction thin l with
  | case1 => rfl
  | case2 a => rfl
  | case3 a b rest hstart ih =>
    have hab := (List.pairwise_cons.mp h).1 b List.mem_cons_self
    exact absurd (beq_iff_eq.mp hstart) (Int.ne_of_lt hab)
  | case4 a b rest hne ih => rw [ih (List.pairwise_cons.mp h).2]

/-- Notes that start one after the other are all left as they are. -/
theorem loudestPerTick_of_pairwise {l : List Note} (h : l.Pairwise fun a b => a.start < b.start) :
    loudestPerTick l = l := by
  have hsorted : byStart l = l :=
    List.mergeSort_of_pairwise (h.imp fun hab => startsBy_iff.mpr (Int.le_of_lt hab))
  rw [loudestPerTick, hsorted, thin_of_pairwise h]

/-- **One note is left on each tick, the loudest and of those the first.** The notes that are left
    start one after the other, on just the ticks on which some note starts; they are just the notes that
    are the first loudest of their tick, in the order in which they are given. Thinning once more
    changes nothing, and rows of notes of which one ends before the other starts are thinned one by
    one. -/
theorem loudest_left_per_tick (l : List Note) :
    (loudestPerTick l).Pairwise (fun a b => a.start < b.start)
      ∧ (∀ tick, (∃ n ∈ loudestPerTick l, n.start = tick) ↔ ∃ n ∈ l, n.start = tick)
      ∧ (∀ n, n ∈ loudestPerTick l ↔ IsFirstLoudest l n)
      ∧ loudestPerTick (loudestPerTick l) = loudestPerTick l
      ∧ ∀ m : List Note, (∀ a ∈ l, ∀ b ∈ m, a.start < b.start) →
          loudestPerTick (l ++ m) = loudestPerTick l ++ loudestPerTick m := by
  refine ⟨loudestPerTick_pairwise l, fun tick => ⟨?_, ?_⟩, fun n => mem_loudestPerTick_iff,
    loudestPerTick_of_pairwise (loudestPerTick_pairwise l), fun m => loudestPerTick_append⟩
  · intro h
    obtain ⟨n, hn, hstart⟩ := h
    exact ⟨n, mem_of_mem_loudestPerTick hn, hstart⟩
  · intro h
    obtain ⟨n, hn, rfl⟩ := h
    obtain ⟨m, hm, hstart, -⟩ := exists_mem_loudestPerTick hn
    exact ⟨m, hm, hstart⟩

/-- Two notes of one velocity on a tick, the second of them higher, and a later note: the first of the
    two is left, and the later note behind it. -/
theorem loudest_left_per_tick_equal :
    let low : Note := ⟨60, 4, 1, 100, by decide⟩
    let high : Note := ⟨67, 4, 2, 100, by decide⟩
    let later : Note := ⟨64, 8, 1, 20, by decide⟩
    low ∈ loudestPerTick [low, high] ∧ high ∉ loudestPerTick [low, high]
      ∧ loudestPerTick ([low, high] ++ [later])
        = loudestPerTick [low, high] ++ loudestPerTick [later] := by
  intro low high later
  obtain ⟨hpairwise, -, hleft, -, happend⟩ := loudest_left_per_tick [low, high]
  have hlow : low ∈ loudestPerTick [low, high] :=
    (hleft low).mpr ⟨[], [high], rfl, List.forall_mem_nil _, by decide⟩
  refine ⟨hlow, fun hhigh => ?_, happend [later] (by decide)⟩
  have hsame := ((hleft low).mp hlow).unique ((hleft high).mp hhigh) rfl
  exact absurd (congrArg Note.pitch hsame) (by decide)

end Cantilena
