import Cantilena.Sorting.Pending

/-!
# Sorting mapped values

A sort by runs looks at values only by comparing them. So values that are mapped to others with the
same comparisons are sorted as they were before.

* `countFront_map`, `countFromBack_map` -- places in a row;
* `runs_map` -- the runs of a row;
* `joined_map` -- two rows merged;
* `sorted_map` -- a row sorted.
-/

namespace Cantilena.Sorting

variable {α β : Type} {f : α → β}

/-! ## 1. Places -/

theorem holdsAt_map (property : β → Bool) (row : Array α) :
    holdsAt property (row.map f) = holdsAt (fun a => property (f a)) row := by
  funext place
  unfold holdsAt
  rw [Array.getElem?_map]
  cases row[place]? <;> rfl

theorem countFront_map (front : β → Bool) (row : List α) :
    countFront front (row.map f).toArray = countFront (fun a => front (f a)) row.toArray := by
  unfold countFront
  rw [← List.map_toArray, holdsAt_map, Array.size_map]

theorem countFromBack_map (front : β → Bool) (row : List α) :
    countFromBack front (row.map f).toArray = countFromBack (fun a => front (f a)) row.toArray := by
  unfold countFromBack
  rw [← List.map_toArray, holdsAt_map, Array.size_map]

section

variable {below : α → α → Bool} {below' : β → β → Bool}
  (h : ∀ a b, below' (f a) (f b) = below a b)
include h

/-! ## 2. Runs -/

theorem fallingRun_map (l : List α) : fallingRun below' (l.map f) = fallingRun below l := by
  fun_induction fallingRun below l with
  | case1 a b rest hb ih =>
    show fallingRun below' (f a :: f b :: rest.map f) = _
    rw [fallingRun, h, if_pos hb]
    exact congrArg (1 + ·) ih
  | case2 a b rest hb =>
    show fallingRun below' (f a :: f b :: rest.map f) = _
    rw [fallingRun, h, if_neg hb]
  | case3 l hl =>
    match l with
    | [] => rfl
    | [_] => rfl
    | a :: b :: rest => exact absurd rfl (hl a b rest)

theorem risingRun_map (l : List α) : risingRun below' (l.map f) = risingRun below l := by
  fun_induction risingRun below l with
  | case1 a b rest hb =>
    show risingRun below' (f a :: f b :: rest.map f) = _
    rw [risingRun, h, if_pos hb]
  | case2 a b rest hb ih =>
    show risingRun below' (f a :: f b :: rest.map f) = _
    rw [risingRun, h, if_neg hb]
    exact congrArg (1 + ·) ih
  | case3 l hl =>
    match l with
    | [] => rfl
    | [_] => rfl
    | a :: b :: rest => exact absurd rfl (hl a b rest)

theorem firstRun_map (l : List α) :
    firstRun below' (l.map f) = ((firstRun below l).1.map f, (firstRun below l).2.map f) := by
  unfold firstRun
  rw [fallingRun_map h, risingRun_map h]
  dsimp only
  split
  · rw [← List.map_take, ← List.map_drop, List.map_reverse]
  · rw [← List.map_take, ← List.map_drop]

theorem insertInto_map (row : Array α) (a : α) :
    insertInto below' (row.map f) (f a) = (insertInto below row a).map f := by
  have hfront : (fun b => !below' (f a) (f b)) = fun b => !below a b :=
    funext fun b => congrArg (!·) (h a b)
  unfold insertInto
  rw [holdsAt_map, hfront, Array.size_map]
  simp

theorem runAndRest_map (least : Nat) (l : List α) :
    runAndRest below' least (l.map f)
      = ((runAndRest below least l).1.map f, (runAndRest below least l).2.map f) := by
  have hinsert (l : List α) (row : Array α) :
      (l.map f).foldl (insertInto below') (row.map f) = (l.foldl (insertInto below) row).map f := by
    induction l generalizing row with
    | nil => rfl
    | cons a l ih =>
      rw [List.map_cons, List.foldl_cons, insertInto_map h, ih, List.foldl_cons]
  unfold runAndRest
  rw [firstRun_map h]
  dsimp only
  rw [List.length_map, ← List.map_take, ← List.map_drop, ← List.map_toArray, hinsert,
    Array.toList_map]

theorem runs_map (l : List α) : runs below' (l.map f) = (runs below l).map (List.map f) := by
  have hruns (least most : Nat) (l : List α) :
      runsOf below' least most (l.map f) = (runsOf below least most l).map (List.map f) := by
    induction most generalizing l with
    | zero => rfl
    | succ most ih =>
      cases l with
      | nil => rfl
      | cons a l =>
        rw [List.map_cons, runsOf, ← List.map_cons, runAndRest_map h]
        dsimp only
        rw [ih]
        rfl
  unfold runs
  rw [List.length_map, hruns]

end

/-! ## 3. Merges -/

namespace Merge

/-- A merge of mapped values. -/
def map (f : α → β) (m : Merge α) : Merge β :=
  { m with done := m.done.map f, held := m.held.map f, other := m.other.map f }

theorem eagerness_map (m : Merge α) : (m.map f).eagerness = m.eagerness := rfl

theorem isOver_map (m : Merge α) : (m.map f).isOver = m.isOver := by
  unfold isOver map
  rw [List.isEmpty_map, List.length_map]

theorem takeHeld_map (count : Nat) (m : Merge α) :
    (m.map f).takeHeld count = (m.takeHeld count).map f := by
  unfold takeHeld
  rw [isOver_map]
  split
  · rfl
  · simp [map]

theorem takeOther_map (count : Nat) (m : Merge α) :
    (m.map f).takeOther count = (m.takeOther count).map f := by
  unfold takeOther
  rw [isOver_map]
  split
  · rfl
  · simp [map]

theorem goOn_map (eagerness : Nat) (pace : Pace) (m : Merge α) :
    (m.map f).goOn eagerness pace = (m.goOn eagerness pace).map f := by
  unfold goOn
  rw [isOver_map]
  split
  · rfl
  · rfl

theorem result_map (m : Merge α) : (m.map f).result = m.result.map f := by
  simp [result, map]

end Merge

section

variable {below : α → α → Bool} {below' : β → β → Bool}
  (h : ∀ a b, below' (f a) (f b) = below a b)

theorem countAhead_map (side : Side) (ahead : β → Bool) (row : List α) :
    countAhead side ahead (row.map f) = countAhead side (fun a => ahead (f a)) row := by
  cases side with
  | front => exact countFront_map ahead row
  | back =>
    unfold countAhead
    rw [List.length_map, ← List.map_reverse, countFromBack_map]

include h

theorem otherAhead_map (side : Side) (other held : α) :
    otherAhead below' side (f other) (f held) = otherAhead below side other held := by
  cases side with
  | front => exact h other held
  | back => exact h held other

namespace Merge

theorem heldLeap_map (side : Side) (m : Merge α) :
    (m.map f).heldLeap below' side = m.heldLeap below side := by
  unfold heldLeap map
  cases m.other with
  | nil => rfl
  | cons b rest =>
    show countAhead side (fun a => !otherAhead below' side (f b) a) (m.held.map f) = _
    rw [countAhead_map]
    simp only [otherAhead_map h]

theorem otherLeap_map (side : Side) (m : Merge α) :
    (m.map f).otherLeap below' side = m.otherLeap below side := by
  unfold otherLeap map
  cases m.held with
  | nil => rfl
  | cons a rest =>
    show countAhead side (fun b => otherAhead below' side b (f a)) (m.other.map f) = _
    rw [countAhead_map]
    simp only [otherAhead_map h]

theorem leap_map (side : Side) (m : Merge α) :
    (m.map f).leap below' side = (m.leap below side).map f := by
  have hwith (eagerness : Nat) :
      ({ m.map f with eagerness } : Merge β) = ({ m with eagerness } : Merge α).map f := rfl
  unfold leap
  rw [eagerness_map]
  generalize (if 1 < m.eagerness then m.eagerness - 1 else m.eagerness) = eagerness
  dsimp only
  rw [hwith]
  generalize ({ m with eagerness } : Merge α) = m
  cases side with
  | front =>
    simp only [heldLeap_map h, otherLeap_map h, takeHeld_map, takeOther_map, goOn_map]
    split
    · rfl
    · rfl
  | back =>
    simp only [heldLeap_map h, otherLeap_map h, takeHeld_map, takeOther_map, goOn_map]
    split
    · rfl
    · rfl

theorem single_map (side : Side) (fromHeld fromOther : Nat) (m : Merge α) :
    (m.map f).single below' side fromHeld fromOther
      = (m.single below side fromHeld fromOther).map f := by
  unfold single
  cases hheld : m.held with
  | nil =>
    have hheld' : (m.map f).held = [] := congrArg (List.map f) hheld
    rw [hheld']
  | cons a held =>
    have hheld' : (m.map f).held = f a :: held.map f := congrArg (List.map f) hheld
    rw [hheld']
    cases hother : m.other with
    | nil =>
      have hother' : (m.map f).other = [] := congrArg (List.map f) hother
      rw [hother']
    | cons b other =>
      have hother' : (m.map f).other = f b :: other.map f := congrArg (List.map f) hother
      rw [hother']
      dsimp only
      rw [otherAhead_map h, takeOther_map, takeHeld_map]
      cases otherAhead below side b a with
      | true =>
        simp only [if_true, eagerness_map, goOn_map]
        split
        · rfl
        · rfl
      | false =>
        simp only [Bool.false_eq_true, if_false, eagerness_map, goOn_map]
        split
        · rfl
        · rfl

theorem step_map (side : Side) (m : Merge α) :
    (m.map f).step below' side = (m.step below side).map f := by
  obtain ⟨eagerness, pace, done, held, other⟩ := m
  cases pace with
  | single fromHeld fromOther => exact single_map h side fromHeld fromOther _
  | leaping => exact leap_map h side _

theorem run_map (side : Side) (most : Nat) (m : Merge α) :
    (m.map f).run below' side most = (m.run below side most).map f := by
  induction most generalizing m with
  | zero => rfl
  | succ most ih =>
    unfold run
    rw [isOver_map]
    split
    · rfl
    · rw [step_map h, ih]

end Merge

/-- Rows as they are merged, and the eagerness that is left. -/
theorem mergeFrom_map (side : Side) (eagerness : Nat) (held other : List α) :
    mergeFrom below' side eagerness (held.map f) (other.map f)
      = ((mergeFrom below side eagerness held other).1.map f,
        (mergeFrom below side eagerness held other).2) := by
  unfold mergeFrom
  dsimp only
  have hstart : (⟨eagerness, .single 0 0, [], held.map f, other.map f⟩ : Merge β)
      = Merge.map f ⟨eagerness, .single 0 0, [], held, other⟩ := rfl
  rw [hstart, Merge.takeOther_map, List.length_map, List.length_map, Merge.run_map h,
    Merge.result_map]
  rfl

theorem merged_map (eagerness : Nat) (first second : List α) :
    merged below' eagerness (first.map f) (second.map f)
      = ((merged below eagerness first second).1.map f,
        (merged below eagerness first second).2) := by
  unfold merged
  rw [List.length_map, List.length_map]
  split
  · exact mergeFrom_map h .front eagerness first second
  · rw [← List.map_reverse, ← List.map_reverse, mergeFrom_map h]
    dsimp only
    rw [List.map_reverse]

/-- The values of a row that are in their place in front of another row. -/
def ahead (below : α → α → Bool) (first second : List α) : Nat :=
  match second with
  | [] => first.length
  | b :: _ => countFront (fun a => !below b a) first.toArray

/-- The values of a row that are not in their place behind another row. -/
def displaced (below : α → α → Bool) (first second : List α) : Nat :=
  match first.getLast? with
  | none => 0
  | some a => countFromBack (fun b => below b a) second.toArray

omit h in
/-- Two rows are merged where they are not in their place. -/
theorem joined_eq (eagerness : Nat) (first second : List α) :
    joined below eagerness first second
      = (let middle := first.drop (ahead below first second)
        let kept := displaced below middle second
        if kept = 0 then (first ++ second, eagerness)
        else (first.take (ahead below first second)
            ++ (merged below eagerness middle (second.take kept)).1 ++ second.drop kept,
          (merged below eagerness middle (second.take kept)).2)) := rfl

theorem ahead_map (first second : List α) :
    ahead below' (first.map f) (second.map f) = ahead below first second := by
  cases second with
  | nil => exact List.length_map f
  | cons b second =>
    refine (countFront_map _ first).trans ?_
    simp only [h]
    rfl

theorem displaced_map (first second : List α) :
    displaced below' (first.map f) (second.map f) = displaced below first second := by
  unfold displaced
  rw [List.getLast?_map]
  cases first.getLast? with
  | none => rfl
  | some a =>
    refine (countFromBack_map _ second).trans ?_
    simp only [h]

theorem joined_map (eagerness : Nat) (first second : List α) :
    joined below' eagerness (first.map f) (second.map f)
      = ((joined below eagerness first second).1.map f,
        (joined below eagerness first second).2) := by
  rw [joined_eq, joined_eq, ahead_map h]
  dsimp only
  rw [← List.map_drop, displaced_map h]
  split
  · rw [List.map_append]
  · rw [← List.map_take, ← List.map_take, ← List.map_drop, merged_map h, List.map_append,
      List.map_append]

end

/-! ## 4. The stack of runs -/

/-- A run of mapped values. -/
def Pending.map (f : α → β) (p : Pending α) : Pending β := { p with row := p.row.map f }

/-- A stack of runs of mapped values. -/
def Stack.map (f : α → β) (s : Stack α) : Stack β := { s with runs := s.runs.map (Pending.map f) }

/-- The stack with a run behind its runs, and the power of the boundary in front of it. -/
def Stack.put (power start : Nat) (run : List α) (s : Stack α) : Stack α :=
  match s.runs with
  | [] => { s with runs := [⟨start, run, 0⟩] }
  | last :: rest => { s with runs := ⟨start, run, 0⟩ :: { last with power } :: rest }

theorem Stack.put_map (power start : Nat) (run : List α) (s : Stack α) :
    (s.map f).put power start (run.map f) = (s.put power start run).map f := by
  obtain ⟨eagerness, runs⟩ := s
  cases runs <;> rfl

section

variable {below : α → α → Bool} {below' : β → β → Bool}
  (h : ∀ a b, below' (f a) (f b) = below a b)
include h

theorem join_map (eagerness : Nat) (first second : Pending α) :
    (first.map f).join below' eagerness (second.map f)
      = ((first.join below eagerness second).1.map f, (first.join below eagerness second).2) := by
  have hjoin : (first.map f).join below' eagerness (second.map f)
      = (⟨first.start, (joined below' eagerness (first.row.map f) (second.row.map f)).1,
          second.power⟩, (joined below' eagerness (first.row.map f) (second.row.map f)).2) := rfl
  rw [hjoin, joined_map h]
  rfl

theorem settle_map (power eagerness : Nat) (runs : List (Pending α)) :
    settle below' power eagerness (runs.map (Pending.map f))
      = (settle below power eagerness runs).map f := by
  fun_induction settle below power eagerness runs with
  | case1 eagerness last before rest hpower both eagerness' hjoin ih =>
    have hjoin' := join_map h eagerness before last
    rw [hjoin] at hjoin'
    have hpower' : power < (before.map f).power := hpower
    rw [List.map_cons, List.map_cons, settle, if_pos hpower', hjoin']
    exact ih
  | case2 eagerness last before rest hpower =>
    have hpower' : ¬ power < (before.map f).power := hpower
    rw [List.map_cons, List.map_cons, settle, if_neg hpower']
    rfl
  | case3 eagerness runs hruns =>
    match runs with
    | [] =>
      rw [List.map_nil, settle]
      · rfl
      · nofun
    | [only] =>
      rw [List.map_cons, List.map_nil, settle]
      · rfl
      · nofun
    | last :: before :: rest => exact absurd rfl (hruns last before rest)

omit h in
/-- A run behind the runs of a stack that are settled. -/
theorem push_cons (size eagerness : Nat) (last : Pending α) (rest : List (Pending α))
    (run : List α) :
    Stack.push below size ⟨eagerness, last :: rest⟩ run
      = (settle below (power size last.start last.row.length run.length) eagerness
          (last :: rest)).put (power size last.start last.row.length run.length)
            (last.start + last.row.length) run := rfl

theorem push_map (size : Nat) (s : Stack α) (run : List α) :
    (s.map f).push below' size (run.map f) = (s.push below size run).map f := by
  obtain ⟨eagerness, runs⟩ := s
  cases runs with
  | nil => rfl
  | cons last rest =>
    have hlength : (last.map f).row.length = last.row.length := List.length_map f
    show Stack.push below' size ⟨eagerness, last.map f :: rest.map (Pending.map f)⟩ _ = _
    rw [push_cons, push_cons, hlength, List.length_map, ← List.map_cons, settle_map h]
    exact Stack.put_map _ _ _ _

theorem collapse_map (eagerness : Nat) (runs : List (Pending α)) :
    collapse below' eagerness (runs.map (Pending.map f)) = (collapse below eagerness runs).map f := by
  fun_induction collapse below eagerness runs with
  | case1 eagerness =>
    rw [List.map_nil, collapse]
    rfl
  | case2 eagerness only =>
    rw [List.map_cons, List.map_nil, collapse]
    rfl
  | case3 eagerness last before third more hshorter both eagerness' hjoin ih =>
    have hshorter' : (third.map f).row.length < (last.map f).row.length := by
      simpa [Pending.map] using hshorter
    have hjoin' := join_map h eagerness third before
    rw [hjoin] at hjoin'
    rw [List.map_cons, List.map_cons, List.map_cons, collapse, if_pos hshorter', hjoin']
    exact ih
  | case4 eagerness last before third more hshorter both eagerness' hjoin ih =>
    have hshorter' : ¬ (third.map f).row.length < (last.map f).row.length := by
      simpa [Pending.map] using hshorter
    have hjoin' := join_map h eagerness before last
    rw [hjoin] at hjoin'
    rw [List.map_cons, List.map_cons, List.map_cons, collapse, if_neg hshorter', hjoin']
    exact ih
  | case5 eagerness last before =>
    rw [List.map_cons, List.map_cons, List.map_nil, collapse, join_map h]
    rfl

/-- **A row of mapped values is sorted as it was before.** -/
theorem sorted_map (l : List α) : sorted below' (l.map f) = (sorted below l).map f := by
  have hpush (rows : List (List α)) (s : Stack α) :
      (rows.map (List.map f)).foldl (Stack.push below' l.length) (s.map f)
        = (rows.foldl (Stack.push below l.length) s).map f := by
    induction rows generalizing s with
    | nil => rfl
    | cons row rows ih =>
      rw [List.map_cons, List.foldl_cons, push_map h, ih, List.foldl_cons]
  unfold sorted
  dsimp only
  have hstart : ({} : Stack β) = Stack.map f {} := rfl
  rw [List.length_map, runs_map h, hstart, hpush]
  exact collapse_map h _ _

end

end Cantilena.Sorting
