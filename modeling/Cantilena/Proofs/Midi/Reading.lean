import Cantilena.Midi.Pairing
import Cantilena.Proofs.Midi.Lanes
import Cantilena.Proofs.Midi.Queue
import Cantilena.Proofs.Number.Dyadic
import Cantilena.Proofs.Outcome

/-!
# Reading what was written

Reading a track that was written serves the notes of every pitch as a queue does.

* `ReadsBack` -- a tick of the grid that is read as it was written; small ones are
  (`readsBack_of_lt`);
* `release_of_filter_cons` -- the first open note of a pitch is closed, and no other is touched;
* `Follows` -- how far a reading has come, said by one queue for each pitch;
* `Follows.step`, `Follows.run` -- a message keeps this, and so does a run of messages;
* `exists_notesOf_trackOf` -- the notes of a track, pitch by pitch.
-/

namespace Cantilena

/-- The same note held until a tick, but for one tick at least. -/
def Note.heldUntil (n : Note) (tick : Int) : Note :=
  n.withLength (max 1 (tick - n.start)) (Int.le_max_left 1 _)

theorem Note.stop_heldUntil {n : Note} {tick : Int} (h : n.start < tick) :
    (n.heldUntil tick).stop = tick := by
  show n.start + max 1 (tick - n.start) = tick
  omega

@[simp] theorem Note.heldUntil_stop (n : Note) : n.heldUntil n.stop = n := by
  have hlength : max 1 (n.stop - n.start) = n.length := by
    have := n.valid.2.2.1
    unfold Note.stop
    omega
  unfold heldUntil withLength
  simp only [hlength]

namespace Midi

/-! ## 1. Ticks that are read as they were written -/

/-- Whether a tick of the grid is read as it was written. -/
def ReadsBack (tick : Int) : Prop := sixteenths resolution (tick * ticksPerStep) = .ok tick

/-- Whether both edges of a note are read as they were written. -/
def ReadsBackNote (n : Note) : Prop := ReadsBack n.start ∧ ReadsBack n.stop

/-- **A tick is read as it was written where its file ticks have at most 53 bits.** -/
theorem readsBack_of_lt {tick : Int} (h : 0 ≤ tick) (hsize : tick * ticksPerStep < 2 ^ 53) :
    ReadsBack tick := by
  obtain ⟨n, rfl⟩ := Int.eq_ofNat_of_zero_le h
  have hn : n * 120 < 2 ^ 53 := by
    unfold ticksPerStep at hsize
    omega
  have hfile := Number.nearest_whole Nat.one_pos hn
  have hfits := Number.nearest_whole_fits Nat.one_pos hn
  have habs : ((n : Int) * ticksPerStep).natAbs = n * 120 * 1 := by
    unfold ticksPerStep
    omega
  generalize hd : Number.Dyadic.nearest (n * 120 * 1) 1 = d at hfile hfits
  have happroximated : approximated (n * ticksPerStep) = .ok d := by
    unfold approximated
    rw [habs, hd]
    simp only [hfits, Bool.false_eq_true, if_false]
  -- the quotient by the ticks of a step is whole again
  have hquotient : d.num * 4 = n * (d.den * resolution.natAbs) := by
    rw [hfile, Nat.mul_assoc, Nat.mul_assoc, Nat.mul_left_comm 120]
    rfl
  have hden : 0 < d.den * resolution.natAbs := Nat.mul_pos d.den_pos (by decide)
  have hsmall : n < 2 ^ 53 := by omega
  unfold ReadsBack sixteenths
  rw [happroximated]
  refine bind_eq_ok.mpr ⟨d, rfl, ?_⟩
  rw [if_neg (by decide), hquotient]
  simp only [Number.nearest_whole_fits hden hsmall, Bool.false_eq_true, if_false]
  rw [Number.nearest_whole hden hsmall, Number.roundQuotient_mul (Number.Dyadic.den_pos _)]
  have hsign : ¬ (n : Int) * ticksPerStep < 0 := by
    unfold ticksPerStep
    omega
  rw [decide_eq_false hsign]
  rfl

/-- File ticks that can be read are below the numbers that overflow. -/
theorem ReadsBack.natAbs_lt {tick : Int} (h : ReadsBack tick) :
    (tick * ticksPerStep).natAbs < 2 ^ 1024 := by
  obtain ⟨d, hd, -⟩ := bind_eq_ok.mp h
  unfold approximated at hd
  simp only at hd
  split at hd
  · cases hd
  · rename_i hfits
    exact Number.lt_of_nearest_fits (Bool.eq_false_iff.mpr hfits)

/-- The ticks between two such places can be written. -/
theorem isWritable_sub {a b : Int} (ha : 0 ≤ a ∧ a.natAbs < 2 ^ 1024)
    (hb : 0 ≤ b ∧ b.natAbs < 2 ^ 1024) : Number.isWritable (a - b) = true := by
  generalize hk : 1024 = k at ha hb
  have hlimit : 2 ^ k ≤ 10 ^ Number.mostDigits :=
    Nat.le_trans (Nat.pow_le_pow_left (by decide) k)
      (Nat.pow_le_pow_right (by decide) (hk ▸ by decide))
  generalize 2 ^ k = bound at ha hb hlimit
  refine decide_eq_true (Nat.lt_of_lt_of_le ?_ hlimit)
  omega

/-! ## 2. Open notes -/

/-- An open note of a track on a channel. -/
def Held.of (channel : Int) (n : Note) : Held :=
  ⟨channel, n.pitch, n.start * ticksPerStep, n.velocity⟩

/-- The note of an open note is held until the tick at which it is closed. -/
theorem note_of {n : Note} {tick : Int} (channel : Int) (hstart : ReadsBack n.start)
    (htick : ReadsBack tick) :
    (Held.of channel n).note (sixteenths resolution) (tick * ticksPerStep)
      = .ok (n.heldUntil tick) := by
  unfold Held.note
  refine bind_eq_ok.mpr ⟨n.start, hstart, bind_eq_ok.mpr ⟨tick, htick, ?_⟩⟩
  exact Note.make_eq_ok (n.heldUntil tick).valid

section Release

variable {channel pitch : Int} {held : List Held} (hchannel : ∀ h ∈ held, h.channel = channel)
include hchannel

/-- On one channel the lanes are the pitches. -/
theorem filter_lane (pitch : Int) :
    held.filter (·.lane = (channel, pitch)) = held.filter (·.pitch = pitch) := by
  refine List.filter_congr fun h hh => decide_eq_decide.mpr ?_
  rw [Held.lane, Prod.mk.injEq]
  exact and_iff_right (hchannel h hh)

theorem release_of_filter_nil (hnone : held.filter (·.pitch = pitch) = []) :
    release channel pitch held = none :=
  release_of_lane_nil ((filter_lane hchannel pitch).trans hnone)

/-- **The first open note of a pitch is closed, and no other is touched.** -/
theorem release_of_filter_cons {first : Held} {rest : List Held}
    (hsome : held.filter (·.pitch = pitch) = first :: rest) :
    ∃ others, release channel pitch held = some (first, others)
      ∧ others.filter (·.pitch = pitch) = rest
      ∧ (∀ q ≠ pitch, others.filter (·.pitch = q) = held.filter (·.pitch = q))
      ∧ ∀ h ∈ others, h ∈ held := by
  obtain ⟨others, hrelease, hsame, hother, hperm⟩ :=
    release_of_lane_cons ((filter_lane hchannel pitch).trans hsome)
  have hmem (h : Held) (hh : h ∈ others) : h ∈ held :=
    hperm.mem_iff.mpr (List.mem_cons_of_mem first hh)
  have hothers : ∀ h ∈ others, h.channel = channel := fun h hh => hchannel h (hmem h hh)
  refine ⟨others, hrelease, ?_, fun q hq => ?_, hmem⟩
  · rw [← filter_lane hothers, hsame]
  · have hne : (channel, q) ≠ (channel, pitch) := fun he => hq (congrArg Prod.snd he)
    rw [← filter_lane hothers, ← filter_lane hchannel, hother _ hne]

end Release

/-! ## 3. A reading and its queues -/

/-- The queue of one pitch. -/
def queueOf (pitch : Int) (done : List Edge) : Queue :=
  Queue.run (done.filter (·.note.pitch = pitch))

theorem queueOf_append_self (done : List Edge) (e : Edge) :
    queueOf e.note.pitch (done ++ [e]) = (queueOf e.note.pitch done).step e := by
  unfold queueOf
  rw [List.filter_append, List.filter_cons_of_pos (by simp), Queue.run_append]
  rfl

theorem queueOf_append_of_ne {pitch : Int} {e : Edge} (h : e.note.pitch ≠ pitch)
    (done : List Edge) : queueOf pitch (done ++ [e]) = queueOf pitch done := by
  unfold queueOf
  rw [List.filter_append, List.filter_cons_of_neg (by simpa using h), List.filter_nil,
    List.append_nil]

/-- A note that waits in the queue of a pitch has begun. -/
theorem mem_of_mem_waiting {pitch : Int} {done : List Edge} {n : Note}
    (h : n ∈ (queueOf pitch done).waiting) : ⟨true, n⟩ ∈ done :=
  (List.mem_filter.mp (Queue.exists_of_mem_waiting h)).1

/-- How far a reading has come after some edges: its open notes wait in the queues of their pitches,
    and its closed notes were served by them. -/
structure Follows (channel : Int) (done : List Edge) (p : Progress) : Prop where
  now : 0 ≤ p.now ∧ p.now.natAbs < 2 ^ 1024
  onChannel : ∀ h ∈ p.held, h.channel = channel
  held : ∀ pitch, p.held.filter (·.pitch = pitch)
    = (queueOf pitch done).waiting.map (Held.of channel)
  closed : ∀ pitch, p.closed.reverse.filter (·.pitch = pitch)
    = (queueOf pitch done).served.map fun s => s.1.heldUntil s.2

/-- A reading starts so. -/
theorem follows_start (channel : Int) : Follows channel [] {} where
  now := ⟨Int.le_refl 0, Nat.two_pow_pos 1024⟩
  onChannel := fun _ h => absurd h List.not_mem_nil
  held _ := rfl
  closed _ := rfl

theorem step_of_opens {e : Edge} (h : e.opens = true) (convert : Int → Except Fault Int)
    (p : Progress) (channel delta : Int) :
    p.step convert ⟨delta, (e.moment channel).message⟩
      = .ok { p with
          now := p.now + delta
          held := p.held ++ [⟨channel, e.note.pitch, p.now + delta, e.note.velocity⟩] } := by
  obtain ⟨hbegin, hvelocity⟩ := Bool.and_eq_true_iff.mp h
  unfold Edge.moment
  rw [if_pos hbegin]
  exact if_pos (of_decide_eq_true hvelocity)

theorem step_of_not_opens {e : Edge} (h : e.opens = false) (convert : Int → Except Fault Int)
    (p : Progress) (channel delta : Int) :
    p.step convert ⟨delta, (e.moment channel).message⟩
      = Progress.close convert { p with now := p.now + delta } channel e.note.pitch delta := by
  unfold Edge.moment
  split
  · rename_i hbegin
    rw [Edge.opens, hbegin, Bool.true_and] at h
    exact if_neg (of_decide_eq_false h)
  · rfl

section Step

variable {channel : Int} {done : List Edge} {p : Progress} {e : Edge}

/-- What an edge does to the open and the closed notes of its pitch, with all others left alone. -/
theorem Follows.advance (h : Follows channel done p) {p' : Progress}
    (hnow : 0 ≤ p'.now ∧ p'.now.natAbs < 2 ^ 1024) (hchannel : ∀ h ∈ p'.held, h.channel = channel)
    (hheld : p'.held.filter (·.pitch = e.note.pitch)
      = ((queueOf e.note.pitch done).step e).waiting.map (Held.of channel))
    (hclosed : p'.closed.reverse.filter (·.pitch = e.note.pitch)
      = ((queueOf e.note.pitch done).step e).served.map fun s => s.1.heldUntil s.2)
    (hother : ∀ q ≠ e.note.pitch, p'.held.filter (·.pitch = q) = p.held.filter (·.pitch = q)
      ∧ p'.closed.reverse.filter (·.pitch = q) = p.closed.reverse.filter (·.pitch = q)) :
    Follows channel (done ++ [e]) p' where
  now := hnow
  onChannel := hchannel
  held q := by
    by_cases hq : q = e.note.pitch
    · rw [hq, queueOf_append_self, hheld]
    · rw [queueOf_append_of_ne (Ne.symm hq), (hother q hq).1, h.held]
  closed q := by
    by_cases hq : q = e.note.pitch
    · rw [hq, queueOf_append_self, hclosed]
    · rw [queueOf_append_of_ne (Ne.symm hq), (hother q hq).2, h.closed]

/-- A note that opens waits behind the others of its pitch. -/
theorem Follows.open (h : Follows channel done p) (he : e.opens = true) {now : Int}
    (hnow : 0 ≤ now ∧ now.natAbs < 2 ^ 1024) (htick : now = e.tick * ticksPerStep) :
    Follows channel (done ++ [e])
      { p with
        now := now
        held := p.held ++ [⟨channel, e.note.pitch, now, e.note.velocity⟩] } := by
  have hbegin : e.isBegin = true := (Bool.and_eq_true_iff.mp he).1
  have hof : (⟨channel, e.note.pitch, now, e.note.velocity⟩ : Held) = Held.of channel e.note := by
    rw [htick, Edge.tick, if_pos hbegin]
    rfl
  rw [hof]
  refine h.advance hnow (fun h' hh => ?_) ?_ ?_ fun q hq => ⟨?_, rfl⟩
  · rcases List.mem_append.mp hh with hh | hh
    · exact h.onChannel h' hh
    · rw [List.mem_singleton.mp hh]
      rfl
  · rw [Queue.step_of_opens he, List.filter_append, List.map_append, h.held,
      List.filter_cons_of_pos (by simp [Held.of])]
    rfl
  · rw [Queue.step_of_opens he, h.closed]
  · have hne : decide ((Held.of channel e.note).pitch = q) = false := decide_eq_false (Ne.symm hq)
    rw [List.filter_append, List.filter_cons_of_neg (by rw [hne]; nofun), List.filter_nil,
      List.append_nil]

/-- An end that finds no open note changes nothing. -/
theorem Follows.stray (h : Follows channel done p) (he : e.opens = false)
    (hnone : (queueOf e.note.pitch done).waiting = []) {now : Int}
    (hnow : 0 ≤ now ∧ now.natAbs < 2 ^ 1024) :
    Follows channel (done ++ [e]) { p with now := now } := by
  refine h.advance hnow h.onChannel ?_ ?_ fun q _ => ⟨rfl, rfl⟩
  · rw [Queue.step_of_nil he hnone, h.held]
  · rw [Queue.step_of_nil he hnone, h.closed]

/-- An end closes the note of its pitch that has waited longest. -/
theorem Follows.close (h : Follows channel done p) (he : e.opens = false) {n : Note}
    {rest : List Note} (hsome : (queueOf e.note.pitch done).waiting = n :: rest) {others : List Held}
    (hothers : others.filter (·.pitch = e.note.pitch) = rest.map (Held.of channel))
    (hsame : ∀ q ≠ e.note.pitch, others.filter (·.pitch = q) = p.held.filter (·.pitch = q))
    (hmem : ∀ h ∈ others, h ∈ p.held) (hpitch : n.pitch = e.note.pitch) {now : Int}
    (hnow : 0 ≤ now ∧ now.natAbs < 2 ^ 1024) :
    Follows channel (done ++ [e])
      { p with now := now, held := others, closed := n.heldUntil e.tick :: p.closed } := by
  refine h.advance hnow (fun h' hh => h.onChannel h' (hmem h' hh)) ?_ ?_ fun q hq =>
    ⟨hsame q hq, ?_⟩
  · rw [Queue.step_of_cons he hsome, hothers]
  · have heq : decide ((n.heldUntil e.tick).pitch = e.note.pitch) = true := decide_eq_true hpitch
    rw [Queue.step_of_cons he hsome, List.reverse_cons, List.filter_append, h.closed,
      List.filter_cons_of_pos (by rw [heq]), List.map_append]
    rfl
  · have hne : decide ((n.heldUntil e.tick).pitch = q) = false :=
      decide_eq_false fun hn => hq (hn.symm.trans hpitch)
    rw [List.reverse_cons, List.filter_append, List.filter_cons_of_neg (by rw [hne]; nofun),
      List.filter_nil, List.append_nil]

/-- **A message of an edge is read, and the reading goes on to follow its queues.** -/
theorem Follows.step (h : Follows channel done p)
    (hback : ∀ f ∈ done ++ [e], ReadsBackNote f.note) :
    ∃ p', p.step (sixteenths resolution)
          ⟨(e.moment channel).tick - p.now, (e.moment channel).message⟩ = .ok p'
      ∧ p'.now = (e.moment channel).tick ∧ Follows channel (done ++ [e]) p' := by
  have hread : ReadsBack e.tick := by
    have := hback e (List.mem_append_right _ List.mem_cons_self)
    unfold Edge.tick
    split
    · exact this.1
    · exact this.2
  have htick : (e.moment channel).tick = e.tick * ticksPerStep := Edge.moment_tick channel e
  have hnow : 0 ≤ (e.moment channel).tick ∧ (e.moment channel).tick.natAbs < 2 ^ 1024 := by
    rw [htick]
    exact ⟨Int.mul_nonneg e.tick_nonneg (by decide), hread.natAbs_lt⟩
  have hadd : p.now + ((e.moment channel).tick - p.now) = (e.moment channel).tick := by omega
  cases he : e.opens with
  | true =>
    rw [step_of_opens he, hadd]
    exact ⟨_, rfl, rfl, h.open he hnow htick⟩
  | false =>
    rw [step_of_not_opens he, hadd, Progress.close]
    have hheld := h.held e.note.pitch
    cases hq : (queueOf e.note.pitch done).waiting with
    | nil =>
      rw [hq] at hheld
      rw [release_of_filter_nil h.onChannel hheld, if_pos (isWritable_sub hnow h.now)]
      exact ⟨_, rfl, rfl, h.stray he hq hnow⟩
    | cons n rest =>
      rw [hq] at hheld
      obtain ⟨others, hrelease, hothers, hsame, hmem⟩ :=
        release_of_filter_cons h.onChannel hheld
      have hn := hback _ (List.mem_append_left _ (mem_of_mem_waiting (hq ▸ List.mem_cons_self)))
      have hpitch : n.pitch = e.note.pitch := by
        have hfirst : Held.of channel n ∈ p.held.filter (·.pitch = e.note.pitch) :=
          hheld ▸ List.mem_cons_self
        exact of_decide_eq_true (List.mem_filter.mp hfirst).2
      rw [hrelease]
      dsimp only
      rw [htick, note_of channel hn.1 hread, ← htick]
      exact ⟨_, rfl, rfl, h.close he hq hothers hsame hmem hpitch hnow⟩

/-- **A run of messages is read, and the reading follows its queues to the end.** -/
theorem Follows.run {l : List Edge} (h : Follows channel done p)
    (hback : ∀ f ∈ done ++ l, ReadsBackNote f.note) :
    ∃ p', (withDeltas p.now (l.map (Edge.moment channel))).foldlM
          (Progress.step (sixteenths resolution)) p = .ok p'
      ∧ Follows channel (done ++ l) p' := by
  induction l generalizing done p with
  | nil =>
    rw [List.append_nil]
    exact ⟨p, rfl, h⟩
  | cons e l ih =>
    rw [List.append_cons] at hback ⊢
    obtain ⟨p₁, hstep, hnow, h₁⟩ := h.step fun f hf => hback f (List.mem_append_left _ hf)
    obtain ⟨p₂, hrun, h₂⟩ := ih h₁ hback
    refine ⟨p₂, ?_, h₂⟩
    rw [List.map_cons, withDeltas, List.foldlM_cons, hstep, ← hnow]
    exact hrun

end Step

/-! ## 4. Tracks -/

/-- Ticks between moments in order are not negative. -/
theorem delta_nonneg {last : Int} {moments : List Moment} (hlast : ∀ m ∈ moments, last ≤ m.tick)
    (h : moments.Pairwise fun a b => a.tick ≤ b.tick) {t : Timed} (ht : t ∈ withDeltas last moments) :
    0 ≤ t.delta := by
  induction moments generalizing last with
  | nil => cases ht
  | cons m moments ih =>
    obtain ⟨hfirst, hrest⟩ := List.pairwise_cons.mp h
    rcases List.mem_cons.mp ht with rfl | ht
    · exact Int.sub_nonneg.mpr (hlast m List.mem_cons_self)
    · exact ih hfirst hrest ht

/-- No ticks of a track are negative. -/
theorem delta_trackOf_nonneg {notes : List Note} {tempo channel : Int} {t : Timed}
    (ht : t ∈ trackOf tempo channel notes) : 0 ≤ t.delta := by
  unfold trackOf at ht
  rw [List.cons_append, List.mem_cons, List.mem_append, List.mem_singleton] at ht
  rcases ht with rfl | ht | rfl
  · exact Int.le_refl 0
  · rw [timeline_eq] at ht
    refine delta_nonneg (fun m hm => ?_) (List.pairwise_map.mpr ?_) ht
    · obtain ⟨e, _, rfl⟩ := List.mem_map.mp hm
      rw [Edge.moment_tick]
      exact Int.mul_nonneg e.tick_nonneg (by decide)
    · refine (edges_pairwise notes).imp fun {a b} hab => ?_
      rw [Edge.moment_tick, Edge.moment_tick]
      refine Int.mul_le_mul_of_nonneg_right ?_ (by decide)
      have := Edge.comesBy_iff.mp hab
      omega
  · exact Int.le_refl 0

/-- The messages in front of one are those of the moments in front of its moment. -/
theorem exists_moment_of_withDeltas {last : Int} {moments : List Moment} {before after : Track}
    {t : Timed} (h : withDeltas last moments = before ++ t :: after) :
    ∃ earlier m later, moments = earlier ++ m :: later ∧ before = withDeltas last earlier
      ∧ t.message = m.message := by
  induction moments generalizing last before with
  | nil => cases before <;> cases h
  | cons m moments ih =>
    cases before with
    | nil =>
      obtain ⟨rfl, -⟩ := List.cons.inj h
      exact ⟨[], m, moments, rfl, rfl, rfl⟩
    | cons first before =>
      obtain ⟨rfl, hrest⟩ := List.cons.inj h
      obtain ⟨earlier, m', later, rfl, rfl, hm⟩ := ih hrest
      exact ⟨m :: earlier, m', later, rfl, rfl, hm⟩

/-- **The notes of a track are read pitch by pitch as queues serve them**, and those that still wait at
    its end are left open. -/
theorem exists_notesOf_trackOf {notes : List Note} (hback : ∀ n ∈ notes, ReadsBackNote n)
    (tempo channel : Int) :
    ∃ (closed : List Note) (held : List Held),
      notesOf (sixteenths resolution) (trackOf tempo channel notes) = .ok (closed, held.length)
      ∧ ∀ pitch,
        closed.filter (·.pitch = pitch)
          = (Queue.run (edges (notes.filter (·.pitch = pitch)))).served.map
              (fun s => s.1.heldUntil s.2)
        ∧ held.filter (·.pitch = pitch)
          = (Queue.run (edges (notes.filter (·.pitch = pitch)))).waiting.map
              (Held.of channel) := by
  obtain ⟨p, hrun, h⟩ := (follows_start channel).run (l := edges notes)
    fun f hf => hback _ (mem_edges.mp hf)
  refine ⟨p.closed.reverse, p.held, ?_, fun pitch => ?_⟩
  · unfold notesOf trackOf
    rw [timeline_eq, List.cons_append, List.foldlM_cons]
    refine map_eq_ok.mpr ⟨{ p with now := p.now + 0 }, bind_eq_ok.mpr ⟨{}, rfl, ?_⟩, rfl⟩
    rw [List.foldlM_append]
    exact bind_eq_ok.mpr ⟨p, hrun, rfl⟩
  · rw [← edges_filter_pitch]
    exact ⟨h.closed pitch, h.held pitch⟩

/-- Whether every end in a track closes an open note. -/
def EveryEndCloses (track : Track) : Prop :=
  ∀ before delta channel pitch velocity after,
    track = before ++ ⟨delta, .noteOff channel pitch velocity⟩ :: after →
    ∃ p, before.foldlM (Progress.step (sixteenths resolution)) {} = .ok p
      ∧ (release channel pitch p.held).isSome = true

/-- **Of notes that can be heard every end closes an open note.** -/
theorem everyEndCloses_trackOf {notes : List Note} (haudible : ∀ n ∈ notes, 1 ≤ n.velocity)
    (hback : ∀ n ∈ notes, ReadsBackNote n) (tempo channel : Int) :
    EveryEndCloses (trackOf tempo channel notes) := by
  intro before delta channel' pitch velocity after h
  cases before with
  | nil => cases h
  | cons first before =>
    obtain ⟨rfl, hrest⟩ := List.cons.inj h
    -- the end of the track is no end of a note
    obtain ⟨after', hsplit⟩ : ∃ after', withDeltas 0 (timeline channel notes)
        = before ++ ⟨delta, .noteOff channel' pitch velocity⟩ :: after' := by
      rcases List.append_eq_append_iff.mp hrest with ⟨rest, -, hlast⟩ | ⟨rest, hfront, hlast⟩
      · cases rest with
        | nil => cases hlast
        | cons _ rest => cases rest <;> cases hlast
      · cases rest with
        | nil => cases hlast
        | cons _ rest =>
          obtain ⟨rfl, -⟩ := List.cons.inj hlast
          exact ⟨rest, hfront⟩
    obtain ⟨earlier, m, later, hmoments, rfl, hm⟩ := exists_moment_of_withDeltas hsplit
    rw [timeline_eq] at hmoments
    obtain ⟨front, others, hedges, rfl, hothers⟩ := List.map_eq_append_iff.mp hmoments
    obtain ⟨e, back, rfl, rfl, -⟩ := List.map_eq_cons_iff.mp hothers
    have hmem (f : Edge) (hf : f ∈ front ++ e :: back) : ReadsBackNote f.note :=
      hback _ (mem_edges.mp (hedges ▸ hf))
    obtain ⟨p, hrun, hfollows⟩ := (follows_start channel).run (l := front)
      fun f hf => hmem f (List.mem_append_left _ hf)
    obtain ⟨hend, rfl, rfl⟩ : e.isBegin = false ∧ channel = channel' ∧ e.note.pitch = pitch := by
      unfold Edge.moment at hm
      split at hm
      · cases hm
      · rename_i hbegin
        obtain ⟨rfl, rfl, -⟩ := Message.noteOff.inj hm
        exact ⟨Bool.eq_false_iff.mpr hbegin, rfl, rfl⟩
    have hopens : e.opens = false := by
      rw [Edge.opens, hend, Bool.false_and]
    have hwaiting : (queueOf e.note.pitch front).waiting ≠ [] := by
      have hpitch : ∀ n ∈ notes.filter (·.pitch = e.note.pitch), 1 ≤ n.velocity :=
        fun n hn => haudible n (List.mem_filter.mp hn).1
      have hsupplied := Queue.supplied_edges hpitch
      rw [← edges_filter_pitch, hedges, List.filter_append,
        List.filter_cons_of_pos (by simp)] at hsupplied
      exact Queue.waiting_ne_nil hsupplied hopens
    obtain ⟨n, rest, hn⟩ := List.exists_cons_of_ne_nil hwaiting
    have hheld := hfollows.held e.note.pitch
    rw [List.nil_append, hn] at hheld
    obtain ⟨others, hrelease, -⟩ := release_of_filter_cons hfollows.onChannel hheld
    refine ⟨p, ?_, ?_⟩
    · rw [List.foldlM_cons]
      exact hrun
    · rw [hrelease]
      rfl

end Midi

end Cantilena
