import Cantilena.Midi.Pairing
import Cantilena.Proofs.Midi.Lanes
import Cantilena.Proofs.Number.Rounded
import Cantilena.Proofs.Outcome

/-!
# Reading a track lane by lane

A reading keeps one row of open notes for all lanes. It reads the pairs of the track all the same,
and keeps every note: one that begins is closed, or it is left open. Only an end that finds no open
note and cannot be reported stops it.

* `rounded`, `exactTicks` -- file ticks as ticks of the grid, divided without an error;
* `Matches`, `Advances` -- how far a reading has come, and what it makes of some cues;
* `Matches.step`, `Matches.run` -- a message, and a track;
* `count_step`, `count_run` -- no note is lost;
* `step_later` -- an end without an open note is left out;
* `notesOf_lanes` -- the notes of a track;
* `not_notesOf_unwritable` -- an end without an open note that cannot be reported.
-/

namespace Cantilena

namespace Midi

/-! ## 1. Ticks and notes -/

/-- File ticks as the closest tick of the grid, whose ticks have some file ticks each. -/
def rounded (perStep : ℚ) (ticks : Int) : Int :=
  Number.roundQuotient (ticks.natAbs * perStep.den) perStep.num.natAbs

theorem rounded_nonneg (perStep : ℚ) (ticks : Int) : 0 ≤ rounded perStep ticks :=
  Int.natCast_nonneg _

theorem isRounded_rounded {perStep : ℚ} (hstep : 0 < perStep) {ticks : Int} (h : 0 ≤ ticks) :
    Number.IsRounded (ticks / perStep) (rounded perStep ticks) := by
  obtain ⟨n, rfl⟩ := Int.eq_ofNat_of_zero_le h
  have hnum : 0 < perStep.num.natAbs := Int.natAbs_pos.mpr (Rat.num_pos.mpr hstep).ne'
  have hquotient : ((n : Int) : ℚ) / perStep
      = ((n * perStep.den : Nat) : ℚ) / (perStep.num.natAbs : Nat) := by
    have hcast : ((perStep.num.natAbs : Nat) : ℚ) = perStep.num := by
      rw [← Int.cast_natCast, Int.natAbs_of_nonneg (Rat.num_nonneg.mpr hstep.le)]
    rw [hcast]
    nth_rewrite 1 [← Rat.num_div_den perStep]
    rw [div_div_eq_mul_div]
    push_cast
    rfl
  rw [hquotient]
  exact Number.isRounded_roundQuotient _ hnum

/-- File ticks as ticks of the grid, divided without an error. -/
def exactTicks (perStep : ℚ) (ticks : Int) : Except Fault Int := .ok (rounded perStep ticks)

end Midi

/-- The four numbers of a note. -/
def Note.numbers (n : Note) : Int × Int × Int × Int := (n.pitch, n.start, n.length, n.velocity)

namespace Midi

/-- The numbers of the note of a pair: its pitch, the tick of its begin, its length and its
    velocity. -/
def Pair.numbers (perStep : ℚ) (p : Pair) : Int × Int × Int × Int :=
  (p.closing.lane.2, rounded perStep p.opening.tick,
    max 1 (rounded perStep p.closing.tick - rounded perStep p.opening.tick), p.opening.velocity)

namespace Held

/-- The open note of a begin. -/
def ofCue (c : Cue) : Held := ⟨c.lane.1, c.lane.2, c.tick, c.velocity⟩

/-- Whether an open note can become a note. -/
def Sound (h : Held) : Prop :=
  (0 ≤ h.pitch ∧ h.pitch ≤ 127) ∧ 0 ≤ h.since ∧ 0 < h.velocity ∧ h.velocity ≤ 127

/-- An open note that is closed becomes a note. -/
theorem Sound.exists_note {h : Held} (hs : h.Sound) (perStep : ℚ) (now : Int) :
    ∃ n, h.note (exactTicks perStep) now = .ok n
      ∧ n.numbers = (h.pitch, rounded perStep h.since,
        max 1 (rounded perStep now - rounded perStep h.since), h.velocity) := by
  obtain ⟨hpitch, -, hvelocity, hloudest⟩ := hs
  exact ⟨_, Note.make_eq_ok ⟨hpitch, rounded_nonneg perStep _, Int.le_max_left _ _,
    hvelocity.le, hloudest⟩, rfl⟩

end Held

/-! ## 2. Messages -/

/-- Whether the fields of a message are those of a message of a file. -/
def Message.Valid : Message → Prop
  | .noteOn channel pitch velocity | .noteOff channel pitch velocity =>
    (0 ≤ channel ∧ channel ≤ 15) ∧ (0 ≤ pitch ∧ pitch ≤ 127) ∧ 0 ≤ velocity ∧ velocity ≤ 127
  | _ => True

instance : DecidablePred Message.Valid
  | .noteOn channel pitch velocity | .noteOff channel pitch velocity =>
    inferInstanceAs (Decidable ((0 ≤ channel ∧ channel ≤ 15) ∧ (0 ≤ pitch ∧ pitch ≤ 127)
      ∧ 0 ≤ velocity ∧ velocity ≤ 127))
  | .tempo _ | .endOfTrack | .other | .unknown => isTrue trivial

/-- Whether a message begins a note. -/
def Message.begins : Message → Bool
  | .noteOn _ _ velocity => 0 < velocity
  | _ => false

/-- The lane on which a message ends a note. -/
def Message.ends? : Message → Option Lane
  | .noteOn channel pitch velocity => if 0 < velocity then none else some (channel, pitch)
  | .noteOff channel pitch _ => some (channel, pitch)
  | _ => none

/-- The note that a message opens at a tick of the file, if it ends none. -/
def Message.opened (now : Int) : Message → List Held
  | .noteOn channel pitch velocity => [⟨channel, pitch, now, velocity⟩]
  | _ => []

section

variable {channel pitch velocity : Int}

/-- A note-on that ends no note is heard. -/
theorem Message.pos_of_not_ends (h : (noteOn channel pitch velocity).ends? = none) :
    0 < velocity := by
  by_contra hv
  rw [ends?, if_neg hv] at h
  cases h

/-- A note-on that ends a note is silent. -/
theorem Message.not_pos_of_ends {lane : Lane}
    (h : (noteOn channel pitch velocity).ends? = some lane) : ¬ 0 < velocity := fun hv => by
  rw [ends?, if_pos hv] at h
  cases h

end

theorem Message.begins_of_ends {m : Message} {lane : Lane} (h : m.ends? = some lane) :
    m.begins = false := by
  cases m with
  | noteOn channel pitch velocity => exact decide_eq_false (not_pos_of_ends h)
  | _ => rfl

theorem Message.length_opened {m : Message} (h : m.ends? = none) (now : Int) :
    (m.opened now).length = if m.begins then 1 else 0 := by
  cases m with
  | noteOn channel pitch velocity => exact (if_pos (decide_eq_true (pos_of_not_ends h))).symm
  | _ => rfl

namespace Timed

/-- Whether a message can stand in a track. -/
def Valid (t : Timed) : Prop := 0 ≤ t.delta ∧ t.message.Valid

instance (t : Timed) : Decidable t.Valid :=
  inferInstanceAs (Decidable (0 ≤ t.delta ∧ t.message.Valid))

/-- The cues of one message. -/
def cues (now : Int) (t : Timed) : List Cue := (t.message.cue? (now + t.delta)).toList

/-- Whether a message ends a note of a lane on which nobody waits. -/
def FindsNone (t : Timed) (w : Waiting) : Prop := ∃ lane, t.message.ends? = some lane ∧ w lane = []

/-- Whether a message ends a note that is not open after the messages before it. -/
def IsStray (t : Timed) (before : Track) : Prop :=
  ∃ lane, t.message.ends? = some lane ∧ openAfter 0 (cuesOf before lane) = 0

/-- The same message some ticks later. -/
def later (t : Timed) (ticks : Int) : Timed := { t with delta := ticks + t.delta }

end Timed

theorem Timed.isStray_iff {t : Timed} {before : Track} :
    t.IsStray before ↔ t.FindsNone (Waiting.run (fun _ => []) (cuesFrom 0 before)) := by
  refine exists_congr fun lane => and_congr_right fun _ => ?_
  rw [← List.length_eq_zero_iff, Waiting.length_run]
  rfl

/-- A message that ends a note of a lane. -/
theorem step_of_ends (convert : Int → Except Fault Int) {t : Timed} {lane : Lane}
    (h : t.message.ends? = some lane) (p : Progress) :
    p.step convert t = Progress.close convert { p with now := p.now + t.delta } lane.1 lane.2 t.delta
      ∧ ∃ c : Cue, (∀ now, t.cues now = [{ c with tick := now + t.delta }])
        ∧ c.lane = lane ∧ c.begins = false := by
  obtain ⟨delta, message⟩ := t
  cases message with
  | noteOn channel pitch velocity =>
    have hvelocity : ¬ 0 < velocity := Message.not_pos_of_ends h
    rw [Message.ends?, if_neg hvelocity] at h
    obtain rfl := Option.some.inj h
    exact ⟨if_neg hvelocity, ⟨(channel, pitch), 0, velocity⟩, fun _ => rfl, rfl,
      decide_eq_false hvelocity⟩
  | noteOff channel pitch velocity =>
    obtain rfl := Option.some.inj h
    exact ⟨rfl, ⟨(channel, pitch), 0, 0⟩, fun _ => rfl, rfl, rfl⟩
  | tempo _ => cases h
  | endOfTrack => cases h
  | other => cases h
  | unknown => cases h

/-- A message that ends no note. -/
theorem step_of_not_ends (convert : Int → Except Fault Int) {t : Timed}
    (h : t.message.ends? = none) (p : Progress) :
    p.step convert t
      = .ok ⟨p.now + t.delta, p.held ++ t.message.opened (p.now + t.delta), p.closed⟩ := by
  obtain ⟨delta, message⟩ := t
  have hsilent : (Except.ok { p with now := p.now + delta } : Except Fault Progress)
      = .ok ⟨p.now + delta, p.held ++ [], p.closed⟩ := by
    rw [List.append_nil]
  cases message with
  | noteOn channel pitch velocity => exact if_pos (Message.pos_of_not_ends h)
  | noteOff channel pitch velocity => cases h
  | tempo _ => exact hsilent
  | endOfTrack => exact hsilent
  | other => exact hsilent
  | unknown => exact hsilent

section

variable {channel pitch now : Int} {held : List Held} {closed : List Note}

theorem close_of_none (convert : Int → Except Fault Int) (h : release channel pitch held = none)
    (delta : Int) :
    Progress.close convert ⟨now, held, closed⟩ channel pitch delta
      = if Number.isWritable delta then .ok ⟨now, held, closed⟩ else .error .tooManyToWrite := by
  rw [Progress.close, h]

theorem close_of_some (convert : Int → Except Fault Int) {first : Held} {others : List Held}
    (h : release channel pitch held = some (first, others)) (delta : Int) :
    Progress.close convert ⟨now, held, closed⟩ channel pitch delta
      = (first.note convert now).map fun n => ⟨now, others, n :: closed⟩ := by
  rw [Progress.close, h]

end

/-! ## 3. Readings -/

/-- How far a reading has come: on every lane those are open who wait, and all can become notes. -/
structure Matches (p : Progress) (w : Waiting) : Prop where
  now : 0 ≤ p.now
  held : ∀ lane, p.held.filter (·.lane = lane) = (w lane).map Held.ofCue
  sound : ∀ h ∈ p.held, h.Sound

/-- What a reading makes of some cues. -/
structure Advances (perStep : ℚ) (p : Progress) (w : Waiting) (cues : List Cue) (p' : Progress) :
    Prop where
  goes : Matches p' (w.run cues)
  closed : p'.closed.map Note.numbers
    = ((pairUp w cues).map (Pair.numbers perStep)).reverse ++ p.closed.map Note.numbers

section

variable {perStep : ℚ} {p p' p'' : Progress} {w : Waiting} {cues cues' : List Cue}

theorem Advances.trans (h : Advances perStep p w cues p')
    (h' : Advances perStep p' (w.run cues) cues' p'') :
    Advances perStep p w (cues ++ cues') p'' where
  goes := by
    rw [Waiting.run_append]
    exact h'.goes
  closed := by
    rw [h'.closed, h.closed, pairUp_append, List.map_append, List.reverse_append, List.append_assoc]

/-- What holds at every place of a row holds at its first one and at all behind it. -/
theorem forall_split_cons {α : Type} {P : List α → α → Prop} {a : α} {l : List α} :
    (∀ before b after, a :: l = before ++ b :: after → P before b)
      ↔ P [] a ∧ ∀ before b after, l = before ++ b :: after → P (a :: before) b := by
  constructor
  · intro h
    exact ⟨h [] a l rfl, fun before b after hl => h (a :: before) b after (congrArg (a :: ·) hl)⟩
  · rintro ⟨hfirst, hrest⟩ before b after hl
    cases before with
    | nil =>
      obtain ⟨rfl, -⟩ := List.cons.inj hl
      exact hfirst
    | cons a' before =>
      obtain ⟨rfl, htail⟩ := List.cons.inj hl
      exact hrest before b after htail

namespace Matches

variable (h : Matches p w)
include h

/-- Time passes. -/
theorem wait {delta : Int} (hdelta : 0 ≤ delta) : Matches { p with now := p.now + delta } w :=
  ⟨Int.add_nonneg h.now hdelta, h.held, h.sound⟩

/-- A begin joins its lane. -/
theorem join (perStep : ℚ) {c : Cue} (hc : c.begins = true) (hsound : (Held.ofCue c).Sound) :
    Advances perStep p w [c] { p with held := p.held ++ [Held.ofCue c] } where
  goes := by
    refine ⟨h.now, fun lane => ?_, fun x hx => ?_⟩
    · show (p.held ++ [Held.ofCue c]).filter (·.lane = lane) = (w.after c lane).map Held.ofCue
      rw [List.filter_append, h.held]
      by_cases hlane : c.lane = lane
      · subst hlane
        have hown : (Held.ofCue c).lane = c.lane := rfl
        rw [Waiting.after_of_begins hc, List.filter_cons_of_pos (by simpa using hown),
          List.map_append]
        rfl
      · have hother : (Held.ofCue c).lane ≠ lane := hlane
        rw [Waiting.after_of_ne hlane, List.filter_cons_of_neg (by simpa using hother),
          List.filter_nil, List.append_nil]
    · rcases List.mem_append.mp hx with hx | hx
      · exact h.sound x hx
      · rw [List.mem_singleton.mp hx]
        exact hsound
  closed := by
    rw [pairUp, if_pos hc]
    rfl

/-- An end without an open note changes nothing. -/
theorem pass (perStep : ℚ) {c : Cue} (hc : c.begins = false) (hnone : w c.lane = []) :
    Advances perStep p w [c] p where
  goes := by
    refine ⟨h.now, fun lane => ?_, h.sound⟩
    show _ = (w.after c lane).map Held.ofCue
    by_cases hlane : c.lane = lane
    · subst hlane
      rw [Waiting.after_of_ends hc, h.held, hnone]
      rfl
    · rw [Waiting.after_of_ne hlane, h.held]
  closed := by
    rw [pairUp, if_neg (Bool.eq_false_iff.mp hc), hnone]
    rfl

/-- An end serves the first who waits on its lane. -/
theorem serve (perStep : ℚ) {c b : Cue} {rest : List Cue} (hc : c.begins = false)
    (hsome : w c.lane = b :: rest) (htick : c.tick = p.now) :
    ∃ others n, release c.lane.1 c.lane.2 p.held = some (Held.ofCue b, others)
      ∧ (Held.ofCue b).note (exactTicks perStep) p.now = .ok n
      ∧ Advances perStep p w [c] { p with held := others, closed := n :: p.closed } := by
  have hheld := h.held c.lane
  rw [hsome] at hheld
  obtain ⟨others, hrelease, hsame, hother, hperm⟩ := release_of_lane_cons hheld
  have hmem : Held.ofCue b ∈ p.held.filter (·.lane = c.lane) := hheld ▸ List.mem_cons_self
  have hlane : (Held.ofCue b).lane = c.lane := of_decide_eq_true (List.mem_filter.mp hmem).2
  obtain ⟨n, hn, hnumbers⟩ := (h.sound _ (List.mem_filter.mp hmem).1).exists_note perStep p.now
  refine ⟨others, n, hrelease, hn, ⟨h.now, fun lane => ?_, fun x hx => ?_⟩, ?_⟩
  · show others.filter (·.lane = lane) = (w.after c lane).map Held.ofCue
    by_cases hl : c.lane = lane
    · subst hl
      rw [Waiting.after_of_ends hc, hsame, hsome]
      rfl
    · rw [Waiting.after_of_ne hl, hother lane (Ne.symm hl), h.held]
  · exact h.sound x (hperm.mem_iff.mpr (List.mem_cons_of_mem _ hx))
  · rw [pairUp, if_neg (Bool.eq_false_iff.mp hc), hsome]
    show n.numbers :: _ = [Pair.numbers perStep ⟨b, c⟩] ++ _
    have hpitch : (Held.ofCue b).pitch = c.lane.2 := congrArg Prod.snd hlane
    rw [hnumbers, hpitch, Pair.numbers, htick]
    rfl

/-- **One message is read**, but for an end without an open note that cannot be reported. -/
theorem step (perStep : ℚ) {t : Timed} (ht : t.Valid) :
    (∀ p', p.step (exactTicks perStep) t = .ok p' →
      p'.now = p.now + t.delta ∧ Advances perStep p w (t.cues p.now) p')
    ∧ ((∃ p', p.step (exactTicks perStep) t = .ok p')
      ↔ (t.FindsNone w → Number.isWritable t.delta = true)) := by
  have hwait := h.wait ht.1
  cases hends : t.message.ends? with
  | some lane =>
    obtain ⟨hstep, c, hcues, hlane, hc⟩ := step_of_ends (exactTicks perStep) hends p
    have hnone : t.FindsNone w ↔ w lane = [] := by
      unfold Timed.FindsNone
      simp [hends]
    rw [hstep, hcues, hnone, ← hlane]
    cases hw : w c.lane with
    | nil =>
      have hrelease := release_of_lane_nil ((h.held c.lane).trans (by rw [hw]; rfl))
      have hpass := hwait.pass perStep
        (show Cue.begins { c with tick := p.now + t.delta } = false from hc) hw
      rw [close_of_none _ hrelease]
      by_cases hwritable : Number.isWritable t.delta = true
      · rw [if_pos hwritable]
        refine ⟨fun p' hp' => ?_, fun _ _ => hwritable, fun _ => ⟨_, rfl⟩⟩
        obtain rfl := Except.ok.inj hp'
        exact ⟨rfl, hpass.goes, hpass.closed⟩
      · rw [if_neg hwritable]
        refine ⟨fun p' hp' => ?_, fun ⟨_, hp'⟩ => ?_, fun hall => absurd (hall rfl) hwritable⟩
        · cases hp'
        · cases hp'
    | cons b rest =>
      obtain ⟨others, n, hrelease, hn, hserve⟩ := hwait.serve perStep
        (show Cue.begins { c with tick := p.now + t.delta } = false from hc) hw rfl
      rw [close_of_some _ hrelease, hn]
      refine ⟨fun p' hp' => ?_, fun _ hno => ?_, fun _ => ⟨_, rfl⟩⟩
      · obtain rfl := Except.ok.inj hp'
        exact ⟨rfl, hserve.goes, hserve.closed⟩
      · cases hno
  | none =>
    have hfinds : ¬ t.FindsNone w := fun ⟨lane, hlane, _⟩ => by
      rw [hends] at hlane
      cases hlane
    suffices hstep : ∃ p', p.step (exactTicks perStep) t = .ok p' ∧ p'.now = p.now + t.delta
        ∧ Advances perStep p w (t.cues p.now) p' by
      obtain ⟨p', hstep, hp'⟩ := hstep
      refine ⟨fun p₁ hp₁ => ?_, fun _ hf => absurd hf hfinds, fun _ => ⟨p', hstep⟩⟩
      rw [hstep] at hp₁
      obtain rfl := Except.ok.inj hp₁
      exact hp'
    obtain ⟨delta, message⟩ := t
    cases message with
    | noteOn channel pitch velocity =>
      have hvelocity : 0 < velocity := Message.pos_of_not_ends hends
      have hjoin := hwait.join perStep (c := ⟨(channel, pitch), p.now + delta, velocity⟩)
        (decide_eq_true hvelocity) ⟨ht.2.2.1, hwait.now, hvelocity, ht.2.2.2.2⟩
      exact ⟨_, if_pos hvelocity, rfl, hjoin.goes, hjoin.closed⟩
    | noteOff channel pitch velocity => cases hends
    | tempo _ => exact ⟨_, rfl, rfl, hwait, rfl⟩
    | endOfTrack => exact ⟨_, rfl, rfl, hwait, rfl⟩
    | other => exact ⟨_, rfl, rfl, hwait, rfl⟩
    | unknown => exact ⟨_, rfl, rfl, hwait, rfl⟩

/-- **A track is read**, but for ends without an open note that cannot be reported. -/
theorem run (perStep : ℚ) {track : Track} (htrack : ∀ t ∈ track, t.Valid) :
    (∀ p', track.foldlM (Progress.step (exactTicks perStep)) p = .ok p' →
      Advances perStep p w (cuesFrom p.now track) p')
    ∧ ((∃ p', track.foldlM (Progress.step (exactTicks perStep)) p = .ok p')
      ↔ ∀ before t after, track = before ++ t :: after →
        t.FindsNone (w.run (cuesFrom p.now before)) → Number.isWritable t.delta = true) := by
  induction track generalizing p w with
  | nil =>
    refine ⟨fun p' hp' => ?_, fun _ before t after ht => ?_, fun _ => ⟨p, rfl⟩⟩
    · obtain rfl := Except.ok.inj hp'
      exact ⟨h, rfl⟩
    · cases before <;> cases ht
  | cons t track ih =>
    obtain ⟨hstep, hexists⟩ := h.step perStep (htrack t List.mem_cons_self)
    have htrack : ∀ t ∈ track, t.Valid := fun t ht => htrack t (List.mem_cons_of_mem _ ht)
    have hrun (before : Track) : w.run (cuesFrom p.now (t :: before))
        = (w.run (t.cues p.now)).run (cuesFrom (p.now + t.delta) before) :=
      Waiting.run_append _ _ _
    rw [List.foldlM_cons, forall_split_cons]
    simp only [hrun]
    refine ⟨fun p' hp' => ?_, fun ⟨p', hp'⟩ => ?_, fun ⟨hfirst, hrest⟩ => ?_⟩
    · obtain ⟨p₁, hp₁, hp'⟩ := bind_eq_ok.mp hp'
      obtain ⟨hnow, hadvances⟩ := hstep p₁ hp₁
      have hothers := (ih hadvances.goes htrack).1 p' hp'
      rw [hnow] at hothers
      exact hadvances.trans hothers
    · obtain ⟨p₁, hp₁, hp'⟩ := bind_eq_ok.mp hp'
      obtain ⟨hnow, hadvances⟩ := hstep p₁ hp₁
      have hothers := (ih hadvances.goes htrack).2.mp ⟨p', hp'⟩
      rw [hnow] at hothers
      exact ⟨hexists.mp ⟨p₁, hp₁⟩, hothers⟩
    · obtain ⟨p₁, hp₁⟩ := hexists.mpr hfirst
      obtain ⟨hnow, hadvances⟩ := hstep p₁ hp₁
      rw [← hnow] at hrest
      obtain ⟨p', hp'⟩ := (ih hadvances.goes htrack).2.mpr hrest
      exact ⟨p', bind_eq_ok.mpr ⟨p₁, hp₁, hp'⟩⟩

end Matches

/-- A reading starts so. -/
theorem matches_start : Matches {} fun _ => [] :=
  ⟨Int.le_refl 0, fun _ => rfl, fun _ h => absurd h List.not_mem_nil⟩

end

/-! ## 4. Notes that are kept -/

section

variable {convert : Int → Except Fault Int} {p p' : Progress}

theorem length_of_release {channel pitch : Int} {held others : List Held} {first : Held}
    (h : release channel pitch held = some (first, others)) : held.length = others.length + 1 := by
  induction held generalizing others with
  | nil => cases h
  | cons x held ih =>
    rw [release] at h
    split at h
    · obtain ⟨-, rfl⟩ := Prod.mk.inj (Option.some.inj h)
      rfl
    · obtain ⟨⟨found, rest⟩, hrest, hfound⟩ := Option.map_eq_some_iff.mp h
      obtain ⟨rfl, rfl⟩ := Prod.mk.inj hfound
      rw [List.length_cons, ih hrest, List.length_cons]

/-- An end takes a note from the open ones to the closed ones, or leaves both as they are. -/
theorem count_close {channel pitch delta : Int} (h : p.close convert channel pitch delta = .ok p') :
    p'.closed.length + p'.held.length = p.closed.length + p.held.length := by
  obtain ⟨now, held, closed⟩ := p
  cases hrelease : release channel pitch held with
  | none =>
    rw [close_of_none convert hrelease] at h
    split at h
    · rw [← Except.ok.inj h]
    · cases h
  | some found =>
    obtain ⟨first, others⟩ := found
    rw [close_of_some convert hrelease] at h
    obtain ⟨n, -, rfl⟩ := map_eq_ok.mp h
    have hlength := length_of_release hrelease
    simp only [List.length_cons]
    omega

/-- **Every message keeps all notes**, and those that begin one add it. -/
theorem count_step {t : Timed} (h : p.step convert t = .ok p') :
    p'.closed.length + p'.held.length
      = p.closed.length + p.held.length + if t.message.begins then 1 else 0 := by
  cases hends : t.message.ends? with
  | some lane =>
    rw [(step_of_ends convert hends p).1] at h
    rw [Message.begins_of_ends hends, if_neg nofun, Nat.add_zero]
    have hkept := count_close h
    exact hkept
  | none =>
    rw [step_of_not_ends convert hends] at h
    obtain rfl := Except.ok.inj h
    rw [List.length_append, Message.length_opened hends, Nat.add_assoc]

/-- **A track keeps all notes that it begins.** -/
theorem count_run {track : Track} (h : track.foldlM (Progress.step convert) p = .ok p') :
    p'.closed.length + p'.held.length
      = p.closed.length + p.held.length + track.countP (·.message.begins) := by
  induction track generalizing p with
  | nil =>
    obtain rfl := Except.ok.inj h
    rfl
  | cons t track ih =>
    rw [List.foldlM_cons] at h
    obtain ⟨p₁, hp₁, h⟩ := bind_eq_ok.mp h
    rw [ih h, count_step hp₁, List.countP_cons]
    omega

/-- An end without an open note can be left out if its ticks are added to the next message. -/
theorem step_later {p₁ p₂ : Progress} {stray next : Timed} {lane : Lane}
    (hstray : stray.message.ends? = some lane) (hnone : release lane.1 lane.2 p.held = none)
    (h₁ : p.step convert stray = .ok p₁) (h₂ : p₁.step convert next = .ok p₂)
    (hwritable : ∀ lane', next.message.ends? = some lane' →
      release lane'.1 lane'.2 p.held = none →
      Number.isWritable (stray.delta + next.delta) = true) :
    p.step convert (next.later stray.delta) = .ok p₂ := by
  have hp₁ : p₁ = ⟨p.now + stray.delta, p.held, p.closed⟩ := by
    rw [(step_of_ends convert hstray p).1, close_of_none convert hnone] at h₁
    split at h₁
    · exact (Except.ok.inj h₁).symm
    · cases h₁
  subst hp₁
  have hdelta : (next.later stray.delta).delta = stray.delta + next.delta := rfl
  cases hends : next.message.ends? with
  | some lane' =>
    have hends' : (next.later stray.delta).message.ends? = some lane' := hends
    rw [(step_of_ends convert hends _).1] at h₂
    rw [(step_of_ends convert hends' _).1, hdelta, ← Int.add_assoc]
    cases hrelease : release lane'.1 lane'.2 p.held with
    | none =>
      rw [close_of_none convert hrelease] at h₂ ⊢
      rw [if_pos (hwritable lane' hends hrelease)]
      split at h₂
      · exact h₂
      · cases h₂
    | some found =>
      obtain ⟨first, others⟩ := found
      rw [close_of_some convert hrelease] at h₂ ⊢
      exact h₂
  | none =>
    have hends' : (next.later stray.delta).message.ends? = none := hends
    rw [step_of_not_ends convert hends] at h₂
    rw [step_of_not_ends convert hends', hdelta, ← Int.add_assoc]
    exact h₂

end

/-! ## 5. Tracks -/

/-- A reading closes a note of a lane where somebody waits on it. -/
theorem Matches.release_eq_none_iff {p : Progress} {w : Waiting} (h : Matches p w) {lane : Lane} :
    release lane.1 lane.2 p.held = none ↔ w lane = [] := by
  have hheld := h.held lane
  cases hw : w lane with
  | nil =>
    rw [hw] at hheld
    exact iff_of_true (release_of_lane_nil hheld) rfl
  | cons b rest =>
    rw [hw] at hheld
    obtain ⟨others, hrelease, -⟩ := release_of_lane_cons hheld
    rw [hrelease]
    exact iff_of_false nofun nofun

/-- **An end without an open note can be left out of a track** if its ticks are added to the next
    message, and that can be reported where it has to be. -/
theorem notesOf_later {perStep : ℚ} {before after : Track} {stray next : Timed}
    (hbefore : ∀ t ∈ before, t.Valid) (hstray : stray.IsStray before)
    (hnext : next.IsStray before → Number.isWritable (stray.delta + next.delta) = true)
    {result : List Note × Nat}
    (h : notesOf (exactTicks perStep) (before ++ stray :: next :: after) = .ok result) :
    notesOf (exactTicks perStep) (before ++ next.later stray.delta :: after) = .ok result := by
  obtain ⟨p', hp', hresult⟩ := map_eq_ok.mp h
  rw [List.foldlM_append] at hp'
  obtain ⟨p, hp, hp'⟩ := bind_eq_ok.mp hp'
  rw [List.foldlM_cons] at hp'
  obtain ⟨p₁, hp₁, hp'⟩ := bind_eq_ok.mp hp'
  rw [List.foldlM_cons] at hp'
  obtain ⟨p₂, hp₂, hp'⟩ := bind_eq_ok.mp hp'
  have hgoes := ((matches_start.run perStep hbefore).1 p hp).goes
  obtain ⟨lane, hends, hwaits⟩ := Timed.isStray_iff.mp hstray
  have hmerged := step_later hends (hgoes.release_eq_none_iff.mpr hwaits) hp₁ hp₂
    fun lane' hends' hrelease => hnext
      (Timed.isStray_iff.mpr ⟨lane', hends', hgoes.release_eq_none_iff.mp hrelease⟩)
  refine map_eq_ok.mpr ⟨p', ?_, hresult⟩
  rw [List.foldlM_append]
  refine bind_eq_ok.mpr ⟨p, hp, ?_⟩
  rw [List.foldlM_cons]
  exact bind_eq_ok.mpr ⟨p₂, hmerged, hp'⟩

/-- **A track is read lane by lane.** It has notes just where every end without an open note can be
    reported. The notes and those left open are as many as it begins. On each lane every end that
    finds an open note makes one, with the velocity and the tick of the begin that came first and
    is left, and with the length up to the end, but for one tick at least; other lanes do not show
    in it. An end without an open note can be left out if its ticks are added to the next message. -/
theorem notesOf_lanes {perStep : ℚ} (hstep : 0 < perStep) {track : Track}
    (htrack : ∀ t ∈ track, t.Valid) :
    ((∃ result, notesOf (exactTicks perStep) track = .ok result)
      ↔ ∀ before t after, track = before ++ t :: after → t.IsStray before →
        Number.isWritable t.delta = true)
    ∧ (∀ notes left, notesOf (exactTicks perStep) track = .ok (notes, left) →
      notes.length + left = track.countP (·.message.begins)
      ∧ notes.map Note.numbers = (pairs track).map (Pair.numbers perStep)
      ∧ ∀ before stray next after, track = before ++ stray :: next :: after →
        stray.IsStray before →
        (next.IsStray before → Number.isWritable (stray.delta + next.delta) = true) →
        notesOf (exactTicks perStep) (before ++ next.later stray.delta :: after) = .ok (notes, left))
    ∧ (∀ lane, (pairs track).filter (·.closing.lane = lane)
      = List.zipWith Pair.mk (begins (cuesOf track lane)) (closings 0 (cuesOf track lane)))
    ∧ (∀ track' lane, cuesOf track' lane = cuesOf track lane →
      (pairs track').filter (·.closing.lane = lane) = (pairs track).filter (·.closing.lane = lane))
    ∧ ∀ ticks : Int, 0 ≤ ticks → Number.IsRounded (ticks / perStep) (rounded perStep ticks) := by
  obtain ⟨hadvances, hexists⟩ := matches_start.run perStep htrack
  have hlanes (track : Track) (lane : Lane) : (pairs track).filter (·.closing.lane = lane)
      = List.zipWith Pair.mk (begins (cuesOf track lane)) (closings 0 (cuesOf track lane)) :=
    filter_pairUp _ _ lane
  refine ⟨?_, fun notes left h => ?_, hlanes track, fun track' lane hcues => ?_,
    fun ticks hticks => isRounded_rounded hstep hticks⟩
  · unfold notesOf
    simp only [Timed.isStray_iff]
    exact exists_map_eq_ok.trans hexists
  · obtain ⟨p, hp, hresult⟩ := map_eq_ok.mp h
    obtain ⟨rfl, rfl⟩ := Prod.mk.inj hresult
    have hcount := count_run hp
    have hclosed := (hadvances p hp).closed
    refine ⟨?_, ?_, fun before stray next after hsplit hstray hnext => ?_⟩
    · rw [List.length_reverse, hcount]
      exact Nat.zero_add _
    · rw [List.map_reverse, hclosed]
      show (List.reverse _ ++ []).reverse = _
      rw [List.append_nil, List.reverse_reverse]
      rfl
    · subst hsplit
      exact notesOf_later (fun t ht => htrack t (List.mem_append_left _ ht)) hstray hnext h
  · rw [hlanes, hlanes, hcues]

/-- Two notes of one lane that sound together, with an end of another lane between their begins and
    their ends. -/
def overlapping : Track :=
  [⟨0, .noteOn 0 60 100⟩, ⟨60, .noteOn 0 60 80⟩, ⟨60, .noteOff 0 64 0⟩, ⟨120, .noteOn 0 60 0⟩,
    ⟨180, .noteOff 0 60 64⟩]

/-- Half a tick after the start of the grid counts as its start, and three ticks and a half count as
    four. -/
theorem notesOf_lanes_overlapping :
    ∃ notes left, notesOf (exactTicks 120) overlapping = .ok (notes, left) ∧ notes.length + left = 2
      ∧ notes.map Note.numbers = [(60, 0, 2, 100), (60, 0, 4, 80)] := by
  have hvalid : ∀ t ∈ overlapping, t.Valid := by decide
  have hwritable : ∀ t ∈ overlapping, Number.isWritable t.delta = true := by decide +kernel
  obtain ⟨hexists, hnotes, -⟩ := notesOf_lanes (show (0 : ℚ) < 120 by decide +kernel) hvalid
  obtain ⟨⟨notes, left⟩, h⟩ := hexists.mpr fun before t after hsplit _ =>
    hwritable t (hsplit ▸ List.mem_append_right _ List.mem_cons_self)
  obtain ⟨hcount, hnumbers, -⟩ := hnotes notes left h
  refine ⟨notes, left, h, hcount, hnumbers.trans ?_⟩
  decide +kernel

/-- An end without an open note cannot be read if its ticks have too many digits to be reported. -/
theorem not_notesOf_unwritable :
    ∃ t : Timed, t.Valid ∧ ∀ result, notesOf (exactTicks 120) [t] ≠ .ok result := by
  have hlong : ¬ Number.isWritable ((10 ^ Number.mostDigits : Nat) : Int) = true := by
    decide +kernel
  refine ⟨⟨((10 ^ Number.mostDigits : Nat) : Int), .noteOff 0 60 0⟩,
    ⟨Int.natCast_nonneg _, by decide, by decide, by decide⟩, fun result h => ?_⟩
  obtain ⟨p, hp, -⟩ := map_eq_ok.mp h
  rw [List.foldlM_cons] at hp
  obtain ⟨p₁, hp₁, -⟩ := bind_eq_ok.mp hp
  rw [(step_of_ends (exactTicks 120) rfl _).1, close_of_none _ rfl, if_neg hlong] at hp₁
  cases hp₁

end Midi

end Cantilena
