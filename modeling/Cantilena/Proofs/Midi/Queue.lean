import Cantilena.Proofs.Midi.Edges
import Mathlib.Data.List.Induction

/-!
# First come, first served

Of several open notes of one pitch the one opened first is closed first. A queue says the same
without channels, file ticks or faults: a begin that can be heard joins it, and every other edge
serves the note that has waited longest, if any note waits.

* `Queue`, `Queue.run` -- the notes that wait, and those served, each with the tick at which it was;
* `Queue.run_served_notes`, `Queue.run_served_ticks`, `Queue.run_waiting` -- of notes that can be
  heard the notes by start are paired with the ends by tick, and none is left waiting;
* `Queue.start_lt_of_served` -- no note is served before it has sounded;
* `Queue.run_apart` -- where no notes overlap, each note that can be heard is served at its own end.
-/

namespace Cantilena.Midi

/-- Whether a note of that edge waits for its end from then on: a begin of velocity 0 counts as an
    end. -/
def Edge.opens (e : Edge) : Bool := e.isBegin && decide (0 < e.note.velocity)

/-- The notes that wait for an end, the first come first, and the notes served, each with the tick
    of its end. -/
structure Queue where
  waiting : List Note := []
  served : List (Note × Int) := []

namespace Queue

/-- An edge of a note that can be heard either joins the queue or serves its first note. -/
def step (q : Queue) (e : Edge) : Queue :=
  if e.opens then { q with waiting := q.waiting ++ [e.note] }
  else
    match q.waiting with
    | [] => q
    | n :: rest => ⟨rest, q.served ++ [(n, e.tick)]⟩

/-- What some edges make of an empty queue. -/
def run (l : List Edge) : Queue := l.foldl step {}

theorem run_append (l l' : List Edge) : run (l ++ l') = l'.foldl step (run l) :=
  List.foldl_append

theorem step_of_opens {e : Edge} (h : e.opens = true) (q : Queue) :
    q.step e = { q with waiting := q.waiting ++ [e.note] } := if_pos h

theorem step_of_nil {e : Edge} (h : e.opens = false) {q : Queue} (hq : q.waiting = []) :
    q.step e = q := by
  unfold step
  rw [if_neg (Bool.eq_false_iff.mp h), hq]

theorem step_of_cons {e : Edge} (h : e.opens = false) {q : Queue} {n : Note} {rest : List Note}
    (hq : q.waiting = n :: rest) : q.step e = ⟨rest, q.served ++ [(n, e.tick)]⟩ := by
  unfold step
  rw [if_neg (Bool.eq_false_iff.mp h), hq]

/-! ## 1. What becomes of a note -/

/-- **Notes are served in the order in which they came**, and the others wait in that order. -/
theorem served_append_waiting (l : List Edge) :
    (run l).served.map Prod.fst ++ (run l).waiting = (l.filter Edge.opens).map (·.note) := by
  induction l using List.reverseRecOn with
  | nil => rfl
  | append_singleton l e ih =>
    rw [run_append, List.foldl_cons, List.foldl_nil, List.filter_append, List.map_append, ← ih]
    cases he : e.opens with
    | true =>
      rw [step_of_opens he, List.filter_cons_of_pos he]
      exact (List.append_assoc _ _ _).symm
    | false =>
      rw [List.filter_cons_of_neg (by simp [he]), List.filter_nil, List.map_nil, List.append_nil]
      cases hq : (run l).waiting with
      | nil => rw [step_of_nil he hq, hq]
      | cons n rest =>
        rw [step_of_cons he hq, List.map_append, List.append_assoc]
        rfl

/-- A note that waits has begun. -/
theorem exists_of_mem_waiting {l : List Edge} {n : Note} (h : n ∈ (run l).waiting) :
    ⟨true, n⟩ ∈ l := by
  have hmem : n ∈ (l.filter Edge.opens).map (·.note) := by
    rw [← served_append_waiting]
    exact List.mem_append_right _ h
  obtain ⟨⟨isBegin, n⟩, he, rfl⟩ := List.mem_map.mp hmem
  obtain ⟨he, hopens⟩ := List.mem_filter.mp he
  obtain rfl : isBegin = true := (Bool.and_eq_true_iff.mp hopens).1
  exact he

/-! ## 2. Edges that find a note -/

/-- Whether in front of every edge that serves a note more notes have come than were served. -/
def Supplied (l : List Edge) : Prop :=
  ∀ before e after, l = before ++ e :: after → e.opens = false →
    before.countP (!·.opens) < before.countP Edge.opens

theorem Supplied.of_append {l l' : List Edge} (h : Supplied (l ++ l')) : Supplied l := by
  intro before e after hl
  refine h before e (after ++ l') ?_
  rw [hl, List.append_assoc, List.cons_append]

/-- Where more notes have come than were served, one waits. -/
theorem waiting_ne_nil_of_ticks {l : List Edge}
    (hticks : (run l).served.map Prod.snd = (l.filter (!·.opens)).map Edge.tick)
    (hlt : l.countP (!·.opens) < l.countP Edge.opens) : (run l).waiting ≠ [] := by
  intro hq
  have hall := congrArg List.length (served_append_waiting l)
  have hserved := congrArg List.length hticks
  rw [hq] at hall
  simp only [List.length_append, List.length_map, List.length_nil] at hall hserved
  rw [List.countP_eq_length_filter, List.countP_eq_length_filter] at hlt
  omega

/-- **Where every edge finds a note, the notes are served at the ticks of those edges.** -/
theorem served_ticks {l : List Edge} (h : Supplied l) :
    (run l).served.map Prod.snd = (l.filter (!·.opens)).map Edge.tick := by
  induction l using List.reverseRecOn with
  | nil => rfl
  | append_singleton l e ih =>
    have ih := ih h.of_append
    rw [run_append, List.foldl_cons, List.foldl_nil, List.filter_append, List.map_append, ← ih]
    cases he : e.opens with
    | true =>
      rw [step_of_opens he, List.filter_cons_of_neg (by simp [he])]
      exact (List.append_nil _).symm
    | false =>
      rw [List.filter_cons_of_pos (by simp [he])]
      obtain ⟨n, rest, hq⟩ :=
        List.exists_cons_of_ne_nil (waiting_ne_nil_of_ticks ih (h l e [] rfl he))
      rw [step_of_cons he hq, List.map_append]
      rfl

/-- Where every edge finds a note, one waits in front of it. -/
theorem waiting_ne_nil {before after : List Edge} {e : Edge} (h : Supplied (before ++ e :: after))
    (he : e.opens = false) : (run before).waiting ≠ [] :=
  waiting_ne_nil_of_ticks (served_ticks h.of_append) (h before e after rfl he)

/-! ## 3. Notes that can be heard -/

section

variable {notes : List Note} (haudible : ∀ n ∈ notes, 1 ≤ n.velocity)
include haudible

theorem opens_of_audible {e : Edge} (he : e ∈ edges notes) : e.opens = e.isBegin := by
  have hvelocity : 0 < e.note.velocity := Int.lt_of_lt_of_le Int.one_pos (haudible _ (mem_edges.mp he))
  rw [Edge.opens, decide_eq_true hvelocity, Bool.and_true]

theorem supplied_edges : Supplied (edges notes) := by
  intro before e after h he
  have hmem (f : Edge) (hf : f ∈ before) : f.opens = f.isBegin :=
    opens_of_audible haudible (h ▸ List.mem_append_left _ hf)
  have hbegin : e.isBegin = false := by
    rw [← opens_of_audible haudible (h ▸ List.mem_append_right _ List.mem_cons_self), he]
  have hends : before.countP (!·.opens) = before.countP (!·.isBegin) :=
    List.countP_congr fun f hf => by rw [hmem f hf]
  have hbegins : before.countP Edge.opens = before.countP (·.isBegin) :=
    List.countP_congr fun f hf => by rw [hmem f hf]
  rw [hends, hbegins]
  exact ends_lt_begins h hbegin

theorem filter_opens : (edges notes).filter Edge.opens = (edges notes).filter (·.isBegin) :=
  List.filter_congr fun _ he => opens_of_audible haudible he

theorem filter_not_opens :
    (edges notes).filter (!·.opens) = (edges notes).filter (!·.isBegin) :=
  List.filter_congr fun _ he => congrArg not (opens_of_audible haudible he)

/-- **None of the notes is left waiting.** -/
theorem run_waiting : (run (edges notes)).waiting = [] := by
  have hall := congrArg List.length (served_append_waiting (edges notes))
  have hserved := congrArg List.length (served_ticks (supplied_edges haudible))
  rw [filter_opens haudible, begins_edges] at hall
  rw [filter_not_opens haudible, ends_edges] at hserved
  simp only [List.length_append, List.length_map, List.length_mergeSort, byStart] at hall hserved
  exact List.length_eq_zero_iff.mp (by omega)

/-- **The notes are served by start.** -/
theorem run_served_notes : (run (edges notes)).served.map Prod.fst = byStart notes := by
  have hall := served_append_waiting (edges notes)
  rwa [run_waiting haudible, List.append_nil, filter_opens haudible, begins_edges] at hall

/-- **The notes are served at the ends by tick.** -/
theorem run_served_ticks :
    (run (edges notes)).served.map Prod.snd = (notes.map Note.stop).mergeSort := by
  rw [served_ticks (supplied_edges haudible), filter_not_opens haudible, ends_edges]

/-- No note is served before it has sounded. -/
theorem start_lt_of_served {before after : List Edge} (h : edges notes = before ++ after)
    {n : Note} {tick : Int} (hn : (n, tick) ∈ (run before).served) : n.start < tick := by
  induction before using List.reverseRecOn generalizing after with
  | nil => cases hn
  | append_singleton l e ih =>
    rw [List.append_assoc, List.singleton_append] at h
    have he := opens_of_audible haudible (h ▸ List.mem_append_right _ List.mem_cons_self : e ∈ _)
    rw [run_append, List.foldl_cons, List.foldl_nil] at hn
    cases hopens : e.opens with
    | true =>
      rw [step_of_opens hopens] at hn
      exact ih h hn
    | false =>
      cases hq : (run l).waiting with
      | nil =>
        rw [step_of_nil hopens hq] at hn
        exact ih h hn
      | cons m rest =>
        rw [step_of_cons hopens hq] at hn
        rcases List.mem_append.mp hn with hn | hn
        · exact ih h hn
        · obtain ⟨rfl, rfl⟩ := Prod.mk.inj (List.mem_singleton.mp hn)
          -- the note has begun in front of the end that serves it
          have hbegun : ⟨true, n⟩ ∈ l := exists_of_mem_waiting (hq ▸ List.mem_cons_self)
          have hpairwise := edges_pairwise notes
          rw [h] at hpairwise
          have hle := (List.pairwise_append.mp hpairwise).2.2 _ hbegun _ List.mem_cons_self
          exact tick_lt_of_comesBy hle rfl (he ▸ hopens)

end

/-! ## 4. Notes apart -/

theorem step_edgesOf {q : Queue} (hq : q.waiting = []) (n : Note) :
    (edgesOf n).foldl step q
      = ⟨[], q.served ++ (if 0 < n.velocity then [(n, n.stop)] else [])⟩ := by
  obtain ⟨waiting, served⟩ := q
  obtain rfl : waiting = [] := hq
  by_cases h : 0 < n.velocity <;> simp [edgesOf, step, Edge.opens, h]

/-- **Where no notes overlap, each note that can be heard is served at its own end**, and those that
    cannot be heard are not there. -/
theorem run_apart {notes : List Note} (h : notes.Pairwise Apart) :
    run (edges notes)
      = ⟨[], ((byStart notes).filter fun n => 0 < n.velocity).map fun n => (n, n.stop)⟩ := by
  rw [edges_of_apart h]
  induction byStart notes using List.reverseRecOn with
  | nil => rfl
  | append_singleton l n ih =>
    rw [List.flatMap_append, run_append, ih, List.flatMap_singleton, step_edgesOf rfl,
      List.filter_append, List.map_append]
    by_cases h : 0 < n.velocity <;> simp [h]

end Queue

end Cantilena.Midi
