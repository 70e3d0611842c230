import Cantilena.Clip
import Cantilena.Proofs.Note.Order

/-!
# What a clip files

A clip keeps its notes under their first ticks. What it keeps is the row of the notes that it was
given, in the order in which they came, taken apart by their first ticks.

* `clamp?` -- a note as it stands in a clip: cut to end with the clip, and none past its end;
* `Files` -- steps in which a row of notes is filed, each note under its own first tick;
* `Files.file` -- filing one more note adds it to the end of the row;
* `Files.sortNotes_eq` -- the notes of all steps are in order what the row is in order.
-/

namespace Cantilena.Clip

variable {n : Note} {ticks : Int} {steps : List (Int × List Note)} {filed : List Note}

/-! ## 1. Notes in a clip -/

theorem one_le_cut (h : n.start < ticks) : 1 ≤ min n.length (ticks - n.start) := by
  have hlength := n.valid.2.2.1
  omega

/-- A note that starts within a clip of some ticks, no longer than to the end of the clip. -/
def clamp? (ticks : Int) (n : Note) : Option Note :=
  if h : n.start < ticks then some (n.withLength (min n.length (ticks - n.start)) (one_le_cut h))
  else none

theorem fitted?_eq_clamp? (ticks : Int) (n : Note) : fitted? ticks n = clamp? ticks n := by
  unfold fitted? clamp?
  by_cases hstart : n.start < ticks
  · rw [dif_neg (Int.not_le.mpr hstart), dif_pos hstart]
    unfold Note.stop
    split
    · rename_i hstop
      have hmin : min n.length (ticks - n.start) = ticks - n.start := by omega
      simp only [hmin]
    · rename_i hstop
      have hmin : min n.length (ticks - n.start) = n.length := by omega
      simp only [hmin]
      rfl
  · rw [dif_pos (Int.not_lt.mp hstart), dif_neg hstart]

/-- What a note in a clip keeps, and where it ends. -/
theorem of_clamp?_eq_some {m : Note} (h : clamp? ticks n = some m) :
    m.pitch = n.pitch ∧ m.start = n.start ∧ m.velocity = n.velocity
      ∧ m.length = min n.length (ticks - n.start) ∧ m.start < ticks ∧ m.stop ≤ ticks := by
  unfold clamp? at h
  split at h
  · rename_i hstart
    obtain rfl := Option.some.inj h
    refine ⟨rfl, rfl, rfl, rfl, hstart, ?_⟩
    show n.start + min n.length (ticks - n.start) ≤ ticks
    omega
  · cases h

/-! ## 2. Filing -/

/-- Steps in which notes are filed: no tick has two steps, each step holds the notes that start at
    its tick in the order in which they came, and no note is missing. -/
structure Files (steps : List (Int × List Note)) (filed : List Note) : Prop where
  nodup : (steps.map (·.1)).Nodup
  step : ∀ tick notes, (tick, notes) ∈ steps → notes = filed.filter (·.start = tick)
  all : ∀ n ∈ filed, n.start ∈ steps.map (·.1)

theorem files_nil : Files [] [] :=
  ⟨List.nodup_nil, fun _ _ h => absurd h List.not_mem_nil, fun _ h => absurd h List.not_mem_nil⟩

/-- A note is filed in a new step, behind all others, or at the end of the step of its first tick. -/
theorem file_cases (n : Note) (steps : List (Int × List Note)) :
    (n.start ∉ steps.map (·.1) ∧ file n steps = steps ++ [(n.start, [n])])
      ∨ ∃ before notes after, steps = before ++ (n.start, notes) :: after
        ∧ file n steps = before ++ (n.start, notes ++ [n]) :: after := by
  induction steps with
  | nil => exact .inl ⟨List.not_mem_nil, rfl⟩
  | cons step rest ih =>
    obtain ⟨tick, notes⟩ := step
    rw [file]
    by_cases htick : tick = n.start
    · subst htick
      exact .inr ⟨[], notes, rest, rfl, if_pos rfl⟩
    · rw [if_neg htick]
      obtain ⟨hnew, hfile⟩ | ⟨before, old, after, hsteps, hfile⟩ := ih
      · refine .inl ⟨?_, by rw [hfile]; rfl⟩
        rw [List.map_cons, List.mem_cons]
        rintro (he | hmem)
        · exact htick he.symm
        · exact hnew hmem
      · exact .inr ⟨(tick, notes) :: before, old, after, by rw [hsteps]; rfl, by rw [hfile]; rfl⟩

theorem filter_append_of_ne {tick : Int} (h : n.start ≠ tick) :
    (filed ++ [n]).filter (·.start = tick) = filed.filter (·.start = tick) := by
  rw [List.filter_append, List.filter_cons_of_neg (by simpa using h), List.filter_nil,
    List.append_nil]

theorem filter_append_self :
    (filed ++ [n]).filter (·.start = n.start) = filed.filter (·.start = n.start) ++ [n] := by
  rw [List.filter_append, List.filter_cons_of_pos (by simp), List.filter_nil]

/-- A note that starts where none did is filed in a new step. -/
theorem Files.append_step (h : Files steps filed) (hnew : n.start ∉ steps.map (·.1)) :
    Files (steps ++ [(n.start, [n])]) (filed ++ [n]) := by
  refine ⟨?_, fun tick notes hmem => ?_, fun m hm => ?_⟩
  · rw [List.map_append, List.map_singleton]
    refine List.nodup_append.mpr ⟨h.nodup, by simp, fun a ha b hb => ?_⟩
    rw [List.mem_singleton.mp hb]
    rintro rfl
    exact hnew ha
  · rcases List.mem_append.mp hmem with hmem | hmem
    · have hne : n.start ≠ tick := by
        rintro rfl
        exact hnew (List.mem_map_of_mem hmem)
      rw [filter_append_of_ne hne]
      exact h.step tick notes hmem
    · obtain ⟨rfl, rfl⟩ := Prod.mk.inj (List.mem_singleton.mp hmem)
      have hnone : filed.filter (·.start = n.start) = [] := by
        refine List.filter_eq_nil_iff.mpr fun m hm hstart => hnew ?_
        rw [← of_decide_eq_true hstart]
        exact h.all m hm
      rw [filter_append_self, hnone, List.nil_append]
  · rw [List.map_append, List.mem_append]
    rcases List.mem_append.mp hm with hm | hm
    · exact .inl (h.all m hm)
    · rw [List.mem_singleton.mp hm]
      exact .inr (List.mem_singleton_self n.start)

/-- A note that starts where others did is filed at the end of their step. -/
theorem Files.extend_step {before after : List (Int × List Note)} {old : List Note}
    (h : Files (before ++ (n.start, old) :: after) filed) :
    Files (before ++ (n.start, old ++ [n]) :: after) (filed ++ [n]) := by
  have hkeys : (before ++ (n.start, old ++ [n]) :: after).map (·.1)
      = (before ++ (n.start, old) :: after).map (·.1) := by
    rw [List.map_append, List.map_append]
    rfl
  -- no other step has the tick of the note
  have hother {tick : Int} {notes : List Note}
      (hmem : (tick, notes) ∈ before ∨ (tick, notes) ∈ after) : n.start ≠ tick := by
    have hnodup := h.nodup
    rw [List.map_append, List.map_cons] at hnodup
    obtain ⟨-, hback, hfront⟩ := List.nodup_append.mp hnodup
    rcases hmem with hmem | hmem
    · exact (hfront tick (List.mem_map_of_mem hmem) n.start List.mem_cons_self).symm
    · rintro rfl
      exact (List.nodup_cons.mp hback).1 (List.mem_map.mpr ⟨(n.start, notes), hmem, rfl⟩)
  refine ⟨hkeys ▸ h.nodup, fun tick notes hmem => ?_, fun m hm => ?_⟩
  · rcases List.mem_append.mp hmem with hfront | hmem
    · rw [filter_append_of_ne (hother (.inl hfront))]
      exact h.step tick notes (List.mem_append_left _ hfront)
    · rcases List.mem_cons.mp hmem with he | hback
      · obtain ⟨rfl, rfl⟩ := Prod.mk.inj he
        rw [filter_append_self, ← h.step n.start old (List.mem_append_right _ List.mem_cons_self)]
      · rw [filter_append_of_ne (hother (.inr hback))]
        exact h.step tick notes (List.mem_append_right _ (List.mem_cons_of_mem _ hback))
  · rw [hkeys]
    rcases List.mem_append.mp hm with hm | hm
    · exact h.all m hm
    · rw [List.mem_singleton.mp hm]
      simp

/-- **Filing one more note adds it to the end of the row.** -/
theorem Files.file (h : Files steps filed) (n : Note) : Files (file n steps) (filed ++ [n]) := by
  obtain ⟨hnew, hfile⟩ | ⟨before, old, after, hsteps, hfile⟩ := file_cases n steps
  · rw [hfile]
    exact h.append_step hnew
  · rw [hfile]
    exact (hsteps ▸ h).extend_step

/-! ## 3. The notes of all steps -/

/-- Among steps without a tick twice, one step at most is of a tick. -/
theorem flatMap_step (h : (steps.map (·.1)).Nodup) (tick : Int) (l : List Note) :
    (steps.flatMap fun step => if step.1 = tick then l else [])
      = if tick ∈ steps.map (·.1) then l else [] := by
  induction steps with
  | nil => rfl
  | cons step rest ih =>
    rw [List.map_cons] at h
    obtain ⟨hnew, hrest⟩ := List.nodup_cons.mp h
    rw [List.flatMap_cons, ih hrest, List.map_cons]
    by_cases htick : step.1 = tick
    · subst htick
      rw [if_pos rfl, if_neg hnew, if_pos List.mem_cons_self, List.append_nil]
    · rw [if_neg htick, List.nil_append]
      have hiff : tick ∈ step.1 :: rest.map (·.1) ↔ tick ∈ rest.map (·.1) := by
        rw [List.mem_cons]
        exact ⟨fun hm => hm.resolve_left fun he => htick he.symm, .inr⟩
      simp only [hiff]

/-- The notes of one start are in the steps as they are in the row. -/
theorem Files.filter_eq (h : Files steps filed) {p : Note → Bool} (tick : Int)
    (hp : ∀ n, p n = true → n.start = tick) :
    (steps.flatMap (·.2)).filter p = filed.filter p := by
  have hstep : (steps.map fun step => step.2.filter p)
      = steps.map fun step => if step.1 = tick then filed.filter p else [] := by
    refine List.map_congr_left fun step hmem => ?_
    rw [h.step step.1 step.2 hmem, List.filter_filter]
    split
    · rename_i htick
      refine List.filter_congr fun n _ => ?_
      cases hn : p n with
      | false => rfl
      | true => simp [hp n hn, htick]
    · rename_i htick
      refine List.filter_eq_nil_iff.mpr fun n _ hn => ?_
      obtain ⟨hn, hstart⟩ := Bool.and_eq_true_iff.mp hn
      exact htick ((of_decide_eq_true hstart).symm.trans (hp n hn))
  rw [List.filter_flatMap, List.flatMap_def, hstep, ← List.flatMap_def, flatMap_step h.nodup]
  split
  · rfl
  · rename_i htick
    refine (List.filter_eq_nil_iff.mpr fun n hn hpn => htick ?_).symm
    rw [← hp n hpn]
    exact h.all n hn

/-- **The notes of all steps are in order what the row is in order.** -/
theorem Files.sortNotes_eq (h : Files steps filed) :
    sortNotes (steps.flatMap (·.2)) = sortNotes filed := by
  refine order_comesBy.eq_of_filter (order_comesBy.pairwise_mergeSort _)
    (order_comesBy.pairwise_mergeSort _) fun n => ?_
  unfold sortNotes
  rw [order_comesBy.filter_alike_mergeSort, order_comesBy.filter_alike_mergeSort]
  refine h.filter_eq n.start fun m hm => ?_
  rw [Sorting.alike, Bool.and_eq_true, comesBy_iff, comesBy_iff] at hm
  omega

end Cantilena.Clip
