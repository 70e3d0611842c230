import Cantilena.Midi
import Cantilena.Proofs.Midi.Reading
import Cantilena.Proofs.Number.Amounts

/-!
# Writing notes and reading them again

What is written as a track and read again is paired pitch by pitch: the notes by start with the
ends by tick, first come, first served. Notes that end in the order in which they start come back as
they were, and only notes of velocity 0 get lost.

* `ReadsAs` -- what a track, and a file that holds it alone, is read as;
* `buildTrack_first_come_first_served` -- no note of those that can be heard is lost, and how begins
  and ends are paired;
* `buildTrack_apart` -- notes that do not overlap on their pitch come back, but for those that
  cannot be heard;
* `buildTrack_silent` -- such a note that does not come back.
-/

namespace Cantilena.Midi

/-! ## 1. What a track is read as -/

/-- What a track is read as, without a note that is left open; and so is every file that is read as
    this track alone. -/
def ReadsAs (track : Track) (notes : List Note) : Prop :=
  loadTrack resolution track = .ok notes
    ∧ ∀ path bytes, readFile bytes = .ok ⟨resolution, [track]⟩ →
      (load path bytes).outcome = .ok notes

/-- A track whose notes are all closed is read as these notes in order. -/
theorem readsAs_of_notesOf {track : Track} {closed : List Note}
    (h : notesOf (sixteenths resolution) track = .ok (closed, 0)) :
    ReadsAs track (sortNotes closed) := by
  have htrack : loadTrack resolution track = .ok (sortNotes closed) := by
    unfold loadTrack
    rw [h]
    rfl
  refine ⟨htrack, fun path bytes hread => ?_⟩
  have htracks : (loadTracks bytes).outcome = .ok [sortNotes closed] := by
    refine Logged.bind_outcome_eq_ok.mpr ⟨_, hread, ?_⟩
    rw [List.mapM_cons, htrack]
    rfl
  refine Logged.bind_outcome_eq_ok.mpr ⟨_, htracks, ?_⟩
  refine Logged.bind_outcome_eq_ok.mpr ⟨(), rfl, ?_⟩
  show Except.ok (sortNotes [sortNotes closed].flatten) = _
  rw [List.flatten_singleton, sortNotes_sortNotes]

/-- What a track is read as is fixed. -/
theorem ReadsAs.unique {track : Track} {notes notes' : List Note} (h : ReadsAs track notes)
    (h' : ReadsAs track notes') : notes = notes' :=
  Except.ok.inj (congrArg Logged.outcome (h.1.symm.trans h'.1))

/-! ## 2. Tracks that can be built -/

/-- **A tempo above zero that fits its bytes can be written on every channel.** -/
theorem buildTrack_eq_ok (notes : List Note) {bpm : Amount} (hbpm : 0 < bpm) {tempo : Int}
    (htempo : microseconds bpm = .ok tempo) {channel : Int} (hchannel : 0 ≤ channel ∧ channel ≤ 15) :
    buildTrack notes bpm channel = .ok (trackOf tempo channel notes) := by
  obtain ⟨hnumber, hpos⟩ := not_le_zero_of_pos hbpm
  refine bind_eq_ok.mpr ⟨tempo, ?_, rfl⟩
  unfold tempoOf
  refine check_eq_ok.mpr ⟨by simp [hnumber], ?_⟩
  refine check_eq_ok.mpr ⟨hpos, ?_⟩
  refine check_eq_ok.mpr ⟨by omega, htempo⟩

theorem defaultTempo_pos : 0 < defaultTempo := by decide +kernel

theorem microseconds_defaultTempo : microseconds defaultTempo = .ok 500000 :=
  toOption_eq_some.mp (by decide +kernel)

/-! ## 3. Notes that can be heard -/

/-- Whether notes come back first come, first served: their begins by start, and the first of them
    with the first end, the second with the second end, and so on. -/
structure FirstComeFirstServed (notes closed : List Note) : Prop where
  begins : closed.map (fun n => (n.pitch, n.start, n.velocity))
    = (byStart notes).map fun n => (n.pitch, n.start, n.velocity)
  ends : closed.map Note.stop = (notes.map Note.stop).mergeSort

/-- A row of notes is fixed by its begins and its ends. -/
theorem eq_of_begins_of_ends {l m : List Note}
    (hbegins : l.map (fun n => (n.pitch, n.start, n.velocity))
      = m.map fun n => (n.pitch, n.start, n.velocity))
    (hends : l.map Note.stop = m.map Note.stop) : l = m := by
  induction l generalizing m with
  | nil => exact (List.map_eq_nil_iff.mp hends.symm).symm
  | cons a l ih =>
    cases m with
    | nil => cases hends
    | cons b m =>
      obtain ⟨hfirst, hrestBegins⟩ := List.cons.inj hbegins
      obtain ⟨hstop, hrestEnds⟩ := List.cons.inj hends
      simp only [Prod.mk.injEq] at hfirst
      obtain ⟨hpitch, hstart, hvelocity⟩ := hfirst
      have hlength : a.length = b.length := by
        unfold Note.stop at hstop
        omega
      obtain rfl : a = b := by
        cases a
        cases b
        simp only at hpitch hstart hvelocity hlength
        subst hpitch hstart hvelocity hlength
        rfl
      rw [ih hrestBegins hrestEnds]

/-- Notes that end in the order in which they start come back as they were, by start. -/
theorem FirstComeFirstServed.eq_byStart {notes closed : List Note}
    (h : FirstComeFirstServed notes closed)
    (hends : ((byStart notes).map Note.stop).Pairwise (· ≤ ·)) : closed = byStart notes := by
  refine eq_of_begins_of_ends h.begins (h.ends.trans ?_)
  have hsorted : (notes.map Note.stop).mergeSort.Pairwise (· ≤ ·) := by
    refine (List.pairwise_mergeSort ?_ ?_ (notes.map Note.stop)).imp of_decide_eq_true
    · intro a b c hab hbc
      exact decide_eq_true (Int.le_trans (of_decide_eq_true hab) (of_decide_eq_true hbc))
    · intro a b
      rw [Bool.or_eq_true, decide_eq_true_iff, decide_eq_true_iff]
      exact Int.le_total a b
  refine List.Perm.eq_of_pairwise (fun a b _ _ => Int.le_antisymm) hsorted hends ?_
  exact (List.mergeSort_perm _ _).trans ((List.mergeSort_perm notes startsBy).map Note.stop).symm

/-- What a queue makes of notes that can be heard. -/
theorem firstComeFirstServed_run {notes : List Note} (haudible : ∀ n ∈ notes, 1 ≤ n.velocity) :
    FirstComeFirstServed notes
      ((Queue.run (edges notes)).served.map fun s => s.1.heldUntil s.2) where
  begins := by
    rw [← Queue.run_served_notes haudible, List.map_map, List.map_map]
    rfl
  ends := by
    rw [← Queue.run_served_ticks haudible, List.map_map]
    refine List.map_congr_left fun s hs => Note.stop_heldUntil ?_
    exact Queue.start_lt_of_served haudible (List.append_nil _).symm hs

/-- Notes that do not overlap end in the order in which they start. -/
theorem ends_of_apart {notes : List Note} (h : notes.Pairwise Apart) :
    ((byStart notes).map Note.stop).Pairwise (· ≤ ·) := by
  refine List.pairwise_map.mpr ((byStart_pairwise_of_apart h).imp fun {a b} hab => ?_)
  exact Int.le_trans hab (Int.le_of_lt b.start_lt_stop)

/-- Nothing is left open where no note of any pitch is. -/
theorem eq_nil_of_pitches {held : List Held} (h : ∀ pitch, held.filter (·.pitch = pitch) = []) :
    held = [] := by
  cases held with
  | nil => rfl
  | cons first rest =>
    exact absurd (decide_eq_true rfl) (List.filter_eq_nil_iff.mp (h first.pitch) first
      List.mem_cons_self)

/-- **Writing notes that can be heard and reading them again loses none of them, and pairs begins
    with ends first come, first served.** No ticks between messages are negative, every end closes
    an open note, and no note is left open. Pitch by pitch the notes that are read are those that
    were written, by start, with their ends by tick. Where they end in the order in which they
    start, and so where no notes of a pitch overlap, they come back as they were. -/
theorem buildTrack_first_come_first_served {notes : List Note}
    (haudible : ∀ n ∈ notes, 1 ≤ n.velocity) {bpm : Amount} (hbpm : 0 < bpm) {tempo : Int}
    (htempo : microseconds bpm = .ok tempo) {channel : Int} (hchannel : 0 ≤ channel ∧ channel ≤ 15)
    (hsize : ∀ n ∈ notes, n.stop * ticksPerStep < 2 ^ 53) :
    ∃ track closed, buildTrack notes bpm channel = .ok track
      ∧ (∀ t ∈ track, 0 ≤ t.delta)
      ∧ EveryEndCloses track
      ∧ notesOf (sixteenths resolution) track = .ok (closed, 0)
      ∧ (∀ pitch, FirstComeFirstServed (notes.filter (·.pitch = pitch))
          (closed.filter (·.pitch = pitch)))
      ∧ ((∀ pitch, ((byStart (notes.filter (·.pitch = pitch))).map Note.stop).Pairwise (· ≤ ·)) →
          ReadsAs track (sortNotes notes))
      ∧ (ApartByPitch notes → ReadsAs track (sortNotes notes)) := by
  have hback (n : Note) (hn : n ∈ notes) : ReadsBackNote n := by
    have hstart := n.valid.2.1
    have hlt := n.start_lt_stop
    have hstop := hsize n hn
    refine ⟨readsBack_of_lt hstart ?_, readsBack_of_lt (by omega) hstop⟩
    unfold ticksPerStep at hstop ⊢
    omega
  have haudible' (pitch : Int) : ∀ n ∈ notes.filter (·.pitch = pitch), 1 ≤ n.velocity :=
    fun n hn => haudible n (List.mem_filter.mp hn).1
  obtain ⟨closed, held, hread, hpitches⟩ := exists_notesOf_trackOf hback tempo channel
  obtain rfl : held = [] := eq_nil_of_pitches fun pitch => by
    rw [(hpitches pitch).2, Queue.run_waiting (haudible' pitch), List.map_nil]
  have hserved (pitch : Int) : FirstComeFirstServed (notes.filter (·.pitch = pitch))
      (closed.filter (·.pitch = pitch)) := by
    rw [(hpitches pitch).1]
    exact firstComeFirstServed_run (haudible' pitch)
  have hsame (hends : ∀ pitch,
      ((byStart (notes.filter (·.pitch = pitch))).map Note.stop).Pairwise (· ≤ ·)) :
      ReadsAs (trackOf tempo channel notes) (sortNotes notes) := by
    have hsorted : sortNotes closed = sortNotes notes := sortNotes_eq_of_pitches fun pitch => by
      rw [(hserved pitch).eq_byStart (hends pitch), byStart_byStart]
    rw [← hsorted]
    exact readsAs_of_notesOf hread
  exact ⟨trackOf tempo channel notes, closed, buildTrack_eq_ok notes hbpm htempo hchannel,
    fun t ht => delta_trackOf_nonneg ht, everyEndCloses_trackOf haudible hback tempo channel,
    hread, hserved, hsame, fun hapart => hsame fun pitch => ends_of_apart (hapart.filter pitch)⟩

/-- A short note within a long one of its pitch, and another pitch that sounds twice in a row. -/
def nested : List Note :=
  [⟨60, 0, 8, 100, by decide⟩, ⟨60, 4, 2, 80, by decide⟩, ⟨64, 0, 4, 1, by decide⟩,
    ⟨64, 4, 4, 127, by decide⟩]

/-- The short note within the long one is closed last, with the end of the long one; without the
    long one all notes come back. -/
theorem buildTrack_first_come_first_served_nested :
    (∃ track closed, buildTrack nested defaultTempo 0 = .ok track
      ∧ notesOf (sixteenths resolution) track = .ok (closed, 0)
      ∧ closed.filter (·.pitch = 60) = [⟨60, 0, 6, 100, by decide⟩, ⟨60, 4, 4, 80, by decide⟩])
    ∧ ∃ track, buildTrack nested.tail defaultTempo 9 = .ok track
      ∧ ReadsAs track (sortNotes nested.tail) := by
  refine ⟨?_, ?_⟩
  · obtain ⟨track, closed, htrack, -, -, hread, hserved, -, -⟩ :=
      buildTrack_first_come_first_served (by decide : ∀ n ∈ nested, 1 ≤ n.velocity)
        defaultTempo_pos microseconds_defaultTempo (by decide : (0 : Int) ≤ 0 ∧ (0 : Int) ≤ 15)
        (by decide)
    have hstarts : byStart (nested.filter (·.pitch = 60)) = nested.filter (·.pitch = 60) :=
      List.mergeSort_of_pairwise (by decide)
    have hends : ((nested.filter (·.pitch = 60)).map Note.stop).mergeSort = [6, 8] := by
      show ([8, 6] : List Int).mergeSort = [6, 8]
      simp [List.mergeSort]
    refine ⟨track, closed, htrack, hread, ?_⟩
    refine eq_of_begins_of_ends ((hserved 60).begins.trans ?_) ((hserved 60).ends.trans hends)
    rw [hstarts]
    decide
  · obtain ⟨track, -, htrack, -, -, -, -, -, hsame⟩ :=
      buildTrack_first_come_first_served (by decide : ∀ n ∈ nested.tail, 1 ≤ n.velocity)
        defaultTempo_pos microseconds_defaultTempo (by decide : (0 : Int) ≤ 9 ∧ (9 : Int) ≤ 15)
        (by decide)
    exact ⟨track, htrack, hsame (by decide)⟩

/-! ## 4. Notes of any velocity -/

/-- What a track of notes that do not overlap on their pitch is read as. -/
theorem readsAs_trackOf_of_apart {notes : List Note} (hapart : ApartByPitch notes)
    (hback : ∀ n ∈ notes, ReadsBackNote n) (tempo channel : Int) :
    ReadsAs (trackOf tempo channel notes) (sortNotes (notes.filter fun n => 0 < n.velocity)) := by
  obtain ⟨closed, held, hread, hpitches⟩ := exists_notesOf_trackOf hback tempo channel
  obtain rfl : held = [] := eq_nil_of_pitches fun pitch => by
    rw [(hpitches pitch).2, Queue.run_apart (hapart.filter pitch), List.map_nil]
  have hsorted : sortNotes closed = sortNotes (notes.filter fun n => 0 < n.velocity) := by
    refine sortNotes_eq_of_pitches fun pitch => ?_
    have hclosed : closed.filter (·.pitch = pitch)
        = byStart ((notes.filter (·.pitch = pitch)).filter fun n => 0 < n.velocity) := by
      rw [(hpitches pitch).1, Queue.run_apart (hapart.filter pitch), List.map_map]
      refine (List.map_congr_left fun n _ => n.heldUntil_stop).trans ?_
      rw [List.map_id']
      exact order_startsBy.filter_mergeSort _ _
    rw [hclosed, byStart_byStart, List.filter_filter, List.filter_filter]
    refine congrArg byStart (List.filter_congr fun n _ => Bool.and_comm _ _)
  rw [← hsorted]
  exact readsAs_of_notesOf hread

/-- **Writing notes that do not overlap on their pitch and reading them again gives the same notes,
    but for those of velocity 0**, whose begins are read as ends. So all of them come back exactly
    where all of them can be heard. -/
theorem buildTrack_apart {notes : List Note} (hapart : ApartByPitch notes)
    (hback : ∀ n ∈ notes, ReadsBackNote n) {bpm : Amount} (hbpm : 0 < bpm) {tempo : Int}
    (htempo : microseconds bpm = .ok tempo) {channel : Int}
    (hchannel : 0 ≤ channel ∧ channel ≤ 15) :
    ∃ track, buildTrack notes bpm channel = .ok track
      ∧ ReadsAs track (sortNotes (notes.filter fun n => 0 < n.velocity))
      ∧ (ReadsAs track (sortNotes notes) ↔ ∀ n ∈ notes, 1 ≤ n.velocity) := by
  have hreads := readsAs_trackOf_of_apart hapart hback tempo channel
  refine ⟨trackOf tempo channel notes, buildTrack_eq_ok notes hbpm htempo hchannel, hreads,
    fun hsame n hn => ?_, fun haudible => ?_⟩
  · have hmem : n ∈ sortNotes (notes.filter fun n => 0 < n.velocity) :=
      hsame.unique hreads ▸ List.mem_mergeSort.mpr hn
    exact of_decide_eq_true (List.mem_filter.mp (List.mem_mergeSort.mp hmem)).2
  · have hall : notes.filter (fun n => 0 < n.velocity) = notes :=
      List.filter_eq_self.mpr fun n hn => decide_eq_true (haudible n hn)
    rwa [hall] at hreads

/-- A note that cannot be heard, and one that follows it on its pitch. -/
def hushed : List Note := [⟨60, 0, 4, 0, by decide⟩, ⟨60, 4, 4, 100, by decide⟩]

theorem readsBack_hushed : ∀ n ∈ hushed, ReadsBackNote n := by
  intro n hn
  have hsize : ∀ n ∈ hushed, (0 ≤ n.start ∧ n.start * ticksPerStep < 2 ^ 53)
      ∧ 0 ≤ n.stop ∧ n.stop * ticksPerStep < 2 ^ 53 := by decide
  obtain ⟨⟨hstart, hstartSize⟩, hstop, hstopSize⟩ := hsize n hn
  exact ⟨readsBack_of_lt hstart hstartSize, readsBack_of_lt hstop hstopSize⟩

/-- Of the two notes the second comes back alone. -/
theorem buildTrack_apart_hushed :
    ∃ track, buildTrack hushed defaultTempo 0 = .ok track
      ∧ loadTrack resolution track = .ok [⟨60, 4, 4, 100, by decide⟩] := by
  obtain ⟨track, htrack, hreads, -⟩ := buildTrack_apart (by decide : ApartByPitch hushed)
    readsBack_hushed defaultTempo_pos microseconds_defaultTempo
    (by decide : (0 : Int) ≤ 0 ∧ (0 : Int) ≤ 15)
  refine ⟨track, htrack, hreads.1.trans (congrArg Logged.ok ?_)⟩
  exact List.mergeSort_of_pairwise (by decide)

/-- **A note that cannot be heard does not come back**, though it overlaps with no other. -/
theorem buildTrack_silent :
    ApartByPitch hushed ∧ (∀ n ∈ hushed, ReadsBackNote n)
      ∧ ∃ track, buildTrack hushed defaultTempo 0 = .ok track
        ∧ loadTrack resolution track ≠ .ok (sortNotes hushed) := by
  refine ⟨by decide, readsBack_hushed, trackOf 500000 0 hushed,
    buildTrack_eq_ok hushed defaultTempo_pos microseconds_defaultTempo (by decide), fun hsame => ?_⟩
  have hreads := readsAs_trackOf_of_apart (by decide : ApartByPitch hushed) readsBack_hushed
    500000 0
  have hnotes : sortNotes (hushed.filter fun n => 0 < n.velocity) = sortNotes hushed :=
    Except.ok.inj (congrArg Logged.outcome (hreads.1.symm.trans hsame))
  have hlength := congrArg List.length hnotes
  unfold sortNotes at hlength
  rw [List.length_mergeSort, List.length_mergeSort] at hlength
  exact absurd hlength (by decide)

end Cantilena.Midi
