import Cantilena.Midi.Timeline
import Cantilena.Proofs.Note.Order

/-!
# The edges of notes

The moments of a track are the edges of its notes, each a begin or an end. This file says how they
stand in order: the begins by start, the ends by end, and never more ends than begins.

* `Edge`, `edges` -- a begin or an end, and the edges of notes in order;
* `timeline_eq` -- the moments of a track are these edges;
* `edges_filter_pitch` -- the edges of one pitch are those of the notes of that pitch;
* `begins_edges`, `ends_edges` -- the begins and the ends among them;
* `ends_lt_begins` -- in front of every end stand more begins than ends;
* `edges_of_apart` -- where no notes overlap, each end stands right behind its begin.
-/

namespace Cantilena.Midi

/-! ## 1. Edges -/

/-- The begin or the end of a note. -/
structure Edge where
  isBegin : Bool
  note : Note
  deriving DecidableEq

namespace Edge

/-- The tick of the grid at which an edge is. -/
def tick (e : Edge) : Int := if e.isBegin then e.note.start else e.note.stop

/-- Whether an edge comes no later than another: by tick, and ends before begins. -/
def comesBy (a b : Edge) : Bool :=
  a.tick < b.tick || (a.tick == b.tick && (!a.isBegin || b.isBegin))

/-- The moment of an edge in a track on a channel. -/
def moment (channel : Int) (e : Edge) : Moment :=
  if e.isBegin then
    ⟨e.note.start * ticksPerStep, true, .noteOn channel e.note.pitch e.note.velocity⟩
  else ⟨e.note.stop * ticksPerStep, false, .noteOff channel e.note.pitch 0⟩

@[simp] theorem tick_begin (n : Note) : tick ⟨true, n⟩ = n.start := rfl

@[simp] theorem tick_end (n : Note) : tick ⟨false, n⟩ = n.stop := rfl

/-- No edge is before the first tick. -/
theorem tick_nonneg (e : Edge) : 0 ≤ e.tick := by
  have hstart := e.note.valid.2.1
  have hstop := e.note.start_lt_stop
  unfold tick
  split <;> omega

theorem moment_tick (channel : Int) (e : Edge) :
    (e.moment channel).tick = e.tick * ticksPerStep := by
  unfold moment tick
  split <;> rfl

theorem moment_isBegin (channel : Int) (e : Edge) : (e.moment channel).isBegin = e.isBegin := by
  unfold moment
  split <;> simp_all

theorem comesBy_iff {a b : Edge} : a.comesBy b = true
    ↔ a.tick < b.tick ∨ (a.tick = b.tick ∧ (a.isBegin = true → b.isBegin = true)) := by
  unfold comesBy
  cases a.isBegin <;> cases b.isBegin <;> simp

theorem order_comesBy : Sorting.Order comesBy where
  trans a b c hab hbc := by
    rw [comesBy_iff] at *
    rcases hab with hab | ⟨hab, ha⟩ <;> rcases hbc with hbc | ⟨hbc, hb⟩
    · exact .inl (by omega)
    · exact .inl (by omega)
    · exact .inl (by omega)
    · exact .inr ⟨by omega, hb ∘ ha⟩
  total a b := by
    rw [Bool.or_eq_true, comesBy_iff, comesBy_iff]
    rcases Int.lt_trichotomy a.tick b.tick with h | h | h
    · exact .inl (.inl h)
    · cases hb : b.isBegin with
      | true => exact .inl (.inr ⟨h, fun _ => rfl⟩)
      | false => exact .inr (.inr ⟨h.symm, nofun⟩)
    · exact .inr (.inl h)

/-- Moments are ordered as their edges are. -/
theorem comesBy_moment (channel : Int) (a b : Edge) :
    a.comesBy b = Moment.comesBy (a.moment channel) (b.moment channel) := by
  unfold comesBy Moment.comesBy
  rw [moment_tick, moment_tick, moment_isBegin, moment_isBegin]
  have hlt : (a.tick * ticksPerStep < b.tick * ticksPerStep) ↔ a.tick < b.tick := by
    unfold ticksPerStep
    omega
  have heq : (a.tick * ticksPerStep = b.tick * ticksPerStep) ↔ a.tick = b.tick := by
    unfold ticksPerStep
    omega
  rw [decide_eq_decide.mpr hlt]
  congr 2
  rw [Bool.eq_iff_iff, beq_iff_eq, beq_iff_eq]
  exact heq.symm

end Edge

/-! ## 2. The edges of notes in order -/

/-- The begin and the end of a note. -/
def edgesOf (n : Note) : List Edge := [⟨true, n⟩, ⟨false, n⟩]

/-- The edges of notes in order; edges alike in tick and kind keep theirs. -/
def edges (notes : List Note) : List Edge := (notes.flatMap edgesOf).mergeSort Edge.comesBy

theorem edges_pairwise (notes : List Note) :
    (edges notes).Pairwise fun a b => a.comesBy b = true :=
  Edge.order_comesBy.pairwise_mergeSort _

theorem mem_edges {notes : List Note} {e : Edge} : e ∈ edges notes ↔ e.note ∈ notes := by
  unfold edges
  rw [List.mem_mergeSort, List.mem_flatMap]
  obtain ⟨isBegin, note⟩ := e
  constructor
  · rintro ⟨n, hn, he⟩
    simp only [edgesOf, List.mem_cons, Edge.mk.injEq, List.not_mem_nil, or_false] at he
    rcases he with ⟨-, rfl⟩ | ⟨-, rfl⟩ <;> exact hn
  · intro hn
    refine ⟨note, hn, ?_⟩
    cases isBegin <;> simp [edgesOf]

/-- **The moments of a track are the edges of its notes.** -/
theorem timeline_eq (channel : Int) (notes : List Note) :
    timeline channel notes = (edges notes).map (Edge.moment channel) := by
  have hmoments : notes.flatMap (momentsOf channel)
      = (notes.flatMap edgesOf).map (Edge.moment channel) := by
    rw [List.map_flatMap]
    rfl
  unfold timeline edges
  rw [hmoments]
  exact (List.map_mergeSort fun a _ b _ => Edge.comesBy_moment channel a b).symm

/-- The edges of one pitch are those of the notes of that pitch. -/
theorem edges_filter_pitch (notes : List Note) (pitch : Int) :
    (edges notes).filter (·.note.pitch = pitch) = edges (notes.filter (·.pitch = pitch)) := by
  unfold edges
  rw [Edge.order_comesBy.filter_mergeSort]
  refine congrArg (List.mergeSort · _) ?_
  induction notes with
  | nil => rfl
  | cons n notes ih =>
    rw [List.flatMap_cons, List.filter_append, ih]
    by_cases h : n.pitch = pitch <;> simp [edgesOf, h]

/-- **The begins stand by start**, and those that start together as their notes do. -/
theorem begins_edges (notes : List Note) :
    ((edges notes).filter (·.isBegin)).map (·.note) = byStart notes := by
  have hbegins : (notes.flatMap edgesOf).filter (·.isBegin) = notes.map (Edge.mk true) := by
    rw [List.filter_flatMap, List.map_eq_flatMap]
    rfl
  have hsorted : (byStart notes).map (Edge.mk true)
      = (notes.map (Edge.mk true)).mergeSort Edge.comesBy := by
    refine List.map_mergeSort fun a _ b _ => Bool.eq_iff_iff.mpr ?_
    rw [startsBy_iff, Edge.comesBy_iff, Edge.tick_begin, Edge.tick_begin]
    simp only [forall_const, and_true]
    omega
  unfold edges
  rw [Edge.order_comesBy.filter_mergeSort, hbegins, ← hsorted, List.map_map]
  exact List.map_id _

/-- **The ends stand by tick.** -/
theorem ends_edges (notes : List Note) :
    ((edges notes).filter (!·.isBegin)).map Edge.tick = (notes.map Note.stop).mergeSort := by
  have hends : (notes.flatMap edgesOf).filter (!·.isBegin) = notes.map (Edge.mk false) := by
    rw [List.filter_flatMap, List.map_eq_flatMap]
    rfl
  unfold edges
  rw [Edge.order_comesBy.filter_mergeSort, hends]
  have hstops : notes.map Note.stop = (notes.map (Edge.mk false)).map Edge.tick := by
    rw [List.map_map]
    rfl
  rw [hstops]
  refine List.map_mergeSort fun a ha b hb => Bool.eq_iff_iff.mpr ?_
  obtain ⟨m, -, rfl⟩ := List.mem_map.mp ha
  obtain ⟨n, -, rfl⟩ := List.mem_map.mp hb
  rw [Edge.comesBy_iff, decide_eq_true_iff]
  simp only [Edge.tick_end, Bool.false_eq_true, false_implies, and_true]
  omega

/-! ## 3. Ends behind begins -/

/-- Up to a tick no more notes have ended than had begun before. -/
theorem countP_ends_le (notes : List Note) (tick : Int) :
    (edges notes).countP (fun e => !e.isBegin && e.tick ≤ tick)
      ≤ (edges notes).countP fun e => e.isBegin && e.tick < tick := by
  unfold edges
  rw [(List.mergeSort_perm _ _).countP_eq, (List.mergeSort_perm _ _).countP_eq]
  induction notes with
  | nil => exact Nat.le_refl 0
  | cons n notes ih =>
    rw [List.flatMap_cons, List.countP_append, List.countP_append]
    refine Nat.add_le_add ?_ ih
    by_cases h : n.stop ≤ tick
    · have hstart : n.start < tick := Int.lt_of_lt_of_le n.start_lt_stop h
      simp [edgesOf, h, hstart]
    · simp [edgesOf, h]

/-- **In front of every end stand more begins than ends.** -/
theorem ends_lt_begins {notes : List Note} {before after : List Edge} {e : Edge}
    (h : edges notes = before ++ e :: after) (he : e.isBegin = false) :
    before.countP (!·.isBegin) < before.countP (·.isBegin) := by
  have hpairwise := edges_pairwise notes
  rw [h] at hpairwise
  obtain ⟨-, hrest, hcross⟩ := List.pairwise_append.mp hpairwise
  have hcount := countP_ends_le notes e.tick
  rw [h, List.countP_append, List.countP_append, List.countP_cons, List.countP_cons] at hcount
  have hends : before.countP (fun f => !f.isBegin && f.tick ≤ e.tick)
      = before.countP (!·.isBegin) := by
    refine List.countP_congr fun f hf => ?_
    have := Edge.comesBy_iff.mp (hcross f hf e List.mem_cons_self)
    simp only [Bool.and_eq_true, decide_eq_true_iff, and_iff_left_iff_imp]
    omega
  have hbegins : before.countP (fun f => f.isBegin && f.tick < e.tick)
      ≤ before.countP (·.isBegin) := by
    refine List.countP_mono_left fun f _ hf => ?_
    exact (Bool.and_eq_true_iff.mp hf).1
  -- what stands behind an end begins no earlier
  have hafter : after.countP (fun f => f.isBegin && f.tick < e.tick) = 0 := by
    refine List.countP_eq_zero.mpr fun f hf hlt => ?_
    have := Edge.comesBy_iff.mp ((List.pairwise_cons.mp hrest).1 f hf)
    have := of_decide_eq_true (Bool.and_eq_true_iff.mp hlt).2
    omega
  rw [hends, hafter] at hcount
  simp only [he, Bool.not_false, Bool.true_and, Int.le_refl, decide_true, if_true,
    Bool.false_and, Bool.false_eq_true, if_false] at hcount
  omega

/-- What begins in front of an end begins before its tick. -/
theorem tick_lt_of_comesBy {a b : Edge} (h : a.comesBy b = true) (ha : a.isBegin = true)
    (hb : b.isBegin = false) : a.tick < b.tick := by
  rcases Edge.comesBy_iff.mp h with h | ⟨-, h⟩
  · exact h
  · rw [hb] at h
    cases h ha

/-! ## 4. Notes apart -/

/-- Whether of two notes one has ended when the other begins. -/
def Apart (a b : Note) : Prop := a.stop ≤ b.start ∨ b.stop ≤ a.start

instance (a b : Note) : Decidable (Apart a b) :=
  inferInstanceAs (Decidable (a.stop ≤ b.start ∨ b.stop ≤ a.start))

/-- Whether notes of one pitch do not overlap; they may touch. -/
def ApartByPitch (notes : List Note) : Prop :=
  notes.Pairwise fun a b => a.pitch = b.pitch → Apart a b

instance (notes : List Note) : Decidable (ApartByPitch notes) :=
  inferInstanceAs (Decidable (notes.Pairwise fun a b => a.pitch = b.pitch → Apart a b))

theorem Apart.symm {a b : Note} (h : Apart a b) : Apart b a := Or.symm h

theorem ApartByPitch.filter {notes : List Note} (h : ApartByPitch notes) (pitch : Int) :
    (notes.filter (·.pitch = pitch)).Pairwise Apart := by
  refine (List.Pairwise.filter _ h).imp_of_mem fun {a b} ha hb hab => hab ?_
  rw [of_decide_eq_true (List.mem_filter.mp ha).2, of_decide_eq_true (List.mem_filter.mp hb).2]

/-- Notes that do not overlap, by start, end one after the other. -/
theorem byStart_pairwise_of_apart {notes : List Note} (h : notes.Pairwise Apart) :
    (byStart notes).Pairwise fun a b => a.stop ≤ b.start := by
  have hsorted := order_startsBy.pairwise_mergeSort notes
  have hapart : (byStart notes).Pairwise Apart :=
    (List.mergeSort_perm notes startsBy).symm.pairwise h Apart.symm
  refine (hsorted.and hapart).imp fun {a b} hab => ?_
  obtain ⟨hstart, hab⟩ := hab
  rw [startsBy_iff] at hstart
  have hb := b.start_lt_stop
  rcases hab with hab | hba
  · exact hab
  · omega

theorem alike_comesBy {a b : Edge} :
    Sorting.alike Edge.comesBy a b = true ↔ b.tick = a.tick ∧ b.isBegin = a.isBegin := by
  rw [Sorting.alike, Bool.and_eq_true, Edge.comesBy_iff, Edge.comesBy_iff]
  constructor
  · rintro ⟨hab, hba⟩
    refine ⟨by omega, Bool.eq_iff_iff.mpr ⟨?_, ?_⟩⟩
    · rcases hba with hba | ⟨-, hba⟩
      · omega
      · exact hba
    · rcases hab with hab | ⟨-, hab⟩
      · omega
      · exact hab
  · rintro ⟨htick, hkind⟩
    exact ⟨.inr ⟨htick.symm, fun h => hkind ▸ h⟩, .inr ⟨htick, fun h => hkind ▸ h⟩⟩

/-- The edges of a kind at a tick are those of the notes that have such an edge there. -/
theorem filter_alike_edgesOf (notes : List Note) (e : Edge) :
    (notes.flatMap edgesOf).filter (Sorting.alike Edge.comesBy e)
      = (notes.filter fun n => Edge.tick ⟨e.isBegin, n⟩ = e.tick).map (Edge.mk e.isBegin) := by
  induction notes with
  | nil => rfl
  | cons n notes ih =>
    have hn : (edgesOf n).filter (Sorting.alike Edge.comesBy e)
        = ([n].filter fun n => Edge.tick ⟨e.isBegin, n⟩ = e.tick).map (Edge.mk e.isBegin) := by
      have hmem (isBegin : Bool) : Sorting.alike Edge.comesBy e ⟨isBegin, n⟩
          = (decide (Edge.tick ⟨isBegin, n⟩ = e.tick) && (isBegin == e.isBegin)) := by
        rw [Bool.eq_iff_iff, alike_comesBy, Bool.and_eq_true, decide_eq_true_iff, beq_iff_eq]
      simp only [edgesOf, List.filter_cons, List.filter_nil, hmem]
      cases e.isBegin
      · by_cases h : n.stop = e.tick <;> simp [h]
      · by_cases h : n.start = e.tick <;> simp [h]
    rw [List.flatMap_cons, List.filter_append, ih, hn, ← List.map_append, ← List.filter_append]
    rfl

/-- **Where no notes overlap, each end stands right behind its begin.** -/
theorem edges_of_apart {notes : List Note} (h : notes.Pairwise Apart) :
    edges notes = (byStart notes).flatMap edgesOf := by
  refine Edge.order_comesBy.mergeSort_eq_of_filter ?_ fun e => ?_
  · refine List.pairwise_flatMap.mpr ⟨fun n _ => ?_, ?_⟩
    · refine List.pairwise_pair.mpr (Edge.comesBy_iff.mpr (.inl ?_))
      exact n.start_lt_stop
    · refine (byStart_pairwise_of_apart h).imp fun {a b} hab x hx y hy => ?_
      have ha := a.start_lt_stop
      have hb := b.start_lt_stop
      rw [Edge.comesBy_iff]
      simp only [edgesOf, List.mem_cons, List.not_mem_nil, or_false] at hx hy
      rcases hx with rfl | rfl <;> rcases hy with rfl | rfl <;>
        simp only [Edge.tick_begin, Edge.tick_end, Bool.false_eq_true, forall_const, false_implies,
          and_true] <;> omega
  · rw [filter_alike_edgesOf, filter_alike_edgesOf]
    refine congrArg (List.map _) (order_startsBy.filter_mergeSort_of_le ?_)
    refine (List.Pairwise.filter _ h).imp_of_mem fun {a b} ha hb hab => startsBy_iff.mpr ?_
    have ha := of_decide_eq_true (List.mem_filter.mp ha).2
    have hb := of_decide_eq_true (List.mem_filter.mp hb).2
    have hla := a.start_lt_stop
    have hlb := b.start_lt_stop
    -- two notes that end together would overlap
    cases he : e.isBegin <;> rw [he] at ha hb <;> unfold Apart at hab
    · rw [Edge.tick_end] at ha hb
      omega
    · rw [Edge.tick_begin] at ha hb
      omega

end Cantilena.Midi
