import Cantilena.Midi.Pairing
import Mathlib.Logic.Function.Basic

/-!
# Lanes of a track

The notes of a channel and a pitch are a lane of their own. On every lane the note that was opened
first is closed first, whatever the other lanes do.

* `Cue`, `cuesOf` -- the messages that begin or end notes of a lane, with their ticks in the file;
* `begins`, `closings`, `openAfter` -- on a lane the begins, the ends that find an open note, and
  the number of open notes;
* `Waiting`, `Waiting.length_run` -- the begins that wait for their ends;
* `pairUp`, `pairs` -- the begins with their ends;
* `filter_pairUp` -- the pairs of a lane are made of its own cues;
* `release_of_lane_cons` -- the first open note of a lane is closed, and no other is touched.
-/

namespace Cantilena

namespace Midi

/-! ## 1. Cues -/

/-- A channel and a pitch. -/
abbrev Lane := Int × Int

/-- A message that begins or ends a note of a lane, with its tick in the file. Ends have velocity
    0. -/
structure Cue where
  lane : Lane
  tick : Int
  velocity : Int
  deriving DecidableEq, Repr

def Cue.begins (c : Cue) : Bool := 0 < c.velocity

/-- The cue of a message at a tick of the file. -/
def Message.cue? (tick : Int) : Message → Option Cue
  | .noteOn channel pitch velocity => some ⟨(channel, pitch), tick, velocity⟩
  | .noteOff channel pitch _ => some ⟨(channel, pitch), tick, 0⟩
  | _ => none

/-- The cues of a track in order, some ticks of the file having passed before it. -/
def cuesFrom (now : Int) : Track → List Cue
  | [] => []
  | t :: rest => (t.message.cue? (now + t.delta)).toList ++ cuesFrom (now + t.delta) rest

/-- The cues of a lane of a track. -/
def cuesOf (track : Track) (lane : Lane) : List Cue := (cuesFrom 0 track).filter (·.lane = lane)

/-- The begins among cues. -/
def begins (cues : List Cue) : List Cue := cues.filter Cue.begins

/-- The ends among the cues of a lane that find an open note, where some are open before. -/
def closings : Nat → List Cue → List Cue
  | _, [] => []
  | n, c :: rest =>
    if c.begins then closings (n + 1) rest
    else if n = 0 then closings 0 rest else c :: closings (n - 1) rest

section

variable {c : Cue} (rest : List Cue)

theorem begins_of_begins (h : c.begins = true) : begins (c :: rest) = c :: begins rest :=
  List.filter_cons_of_pos h

theorem begins_of_ends (h : c.begins = false) : begins (c :: rest) = begins rest :=
  List.filter_cons_of_neg (Bool.eq_false_iff.mp h)

theorem closings_of_begins (h : c.begins = true) (n : Nat) :
    closings n (c :: rest) = closings (n + 1) rest := if_pos h

theorem closings_of_ends (h : c.begins = false) (n : Nat) :
    closings n (c :: rest) = if n = 0 then closings 0 rest else c :: closings (n - 1) rest :=
  if_neg (Bool.eq_false_iff.mp h)

end

/-- The number of open notes after the cues of a lane, where some are open before. -/
def openAfter (n : Nat) (cues : List Cue) : Nat :=
  cues.foldl (fun n c => if c.begins then n + 1 else n - 1) n

/-! ## 2. Pairs -/

/-- The begins that wait for their ends on each lane, the first come first. -/
abbrev Waiting := Lane → List Cue

namespace Waiting

/-- Who waits after a cue: a begin joins its lane, and an end serves the first of its lane. -/
def after (w : Waiting) (c : Cue) : Waiting :=
  Function.update w c.lane (if c.begins then w c.lane ++ [c] else (w c.lane).tail)

/-- Who waits after some cues. -/
def run (w : Waiting) (cues : List Cue) : Waiting := cues.foldl after w

theorem run_append (w : Waiting) (cues cues' : List Cue) :
    w.run (cues ++ cues') = (w.run cues).run cues' := List.foldl_append

theorem after_of_ne {w : Waiting} {c : Cue} {lane : Lane} (h : c.lane ≠ lane) :
    w.after c lane = w lane := Function.update_of_ne (Ne.symm h) _ _

theorem after_of_begins {w : Waiting} {c : Cue} (h : c.begins = true) :
    w.after c c.lane = w c.lane ++ [c] := by
  rw [after, Function.update_self, if_pos h]

theorem after_of_ends {w : Waiting} {c : Cue} (h : c.begins = false) :
    w.after c c.lane = (w c.lane).tail := by
  rw [after, Function.update_self, if_neg (Bool.eq_false_iff.mp h)]

/-- The number of those who wait on a lane. -/
theorem length_run (w : Waiting) (cues : List Cue) (lane : Lane) :
    (w.run cues lane).length = openAfter (w lane).length (cues.filter (·.lane = lane)) := by
  induction cues generalizing w with
  | nil => rfl
  | cons c cues ih =>
    show ((w.after c).run cues lane).length = _
    rw [ih]
    by_cases hlane : c.lane = lane
    · subst hlane
      rw [List.filter_cons_of_pos (by simp)]
      show _ = openAfter (if c.begins then _ else _) _
      cases hc : c.begins with
      | true => rw [after_of_begins hc, List.length_append, if_pos rfl, List.length_singleton]
      | false => rw [after_of_ends hc, List.length_tail, if_neg nofun]
    · rw [after_of_ne hlane, List.filter_cons_of_neg (by simpa using hlane)]

end Waiting

/-- The begin and the end of a note. -/
structure Pair where
  opening : Cue
  closing : Cue
  deriving DecidableEq, Repr

/-- The pairs that cues make with the begins that wait. -/
def pairUp : Waiting → List Cue → List Pair
  | _, [] => []
  | w, c :: rest =>
    (if c.begins then [] else (w c.lane).head?.toList.map fun b => ⟨b, c⟩) ++ pairUp (w.after c) rest

theorem pairUp_append (w : Waiting) (cues cues' : List Cue) :
    pairUp w (cues ++ cues') = pairUp w cues ++ pairUp (w.run cues) cues' := by
  induction cues generalizing w with
  | nil => rfl
  | cons c cues ih =>
    rw [List.cons_append, pairUp, pairUp, ih, List.append_assoc]
    rfl

/-- **The pairs of a lane are made of its own cues**: the first of those who wait and then of its
    begins, each with the first of its closings that is left. -/
theorem filter_pairUp (w : Waiting) (cues : List Cue) (lane : Lane) :
    (pairUp w cues).filter (·.closing.lane = lane)
      = List.zipWith Pair.mk (w lane ++ begins (cues.filter (·.lane = lane)))
          (closings (w lane).length (cues.filter (·.lane = lane))) := by
  induction cues generalizing w with
  | nil => rw [pairUp, List.filter_nil, List.filter_nil, closings, List.zipWith_nil_right]
  | cons c cues ih =>
    rw [pairUp, List.filter_append, ih]
    by_cases hlane : c.lane = lane
    · subst hlane
      rw [List.filter_cons_of_pos (by simp)]
      cases hc : c.begins with
      | true =>
        rw [if_pos rfl, Waiting.after_of_begins hc, begins_of_begins _ hc, closings_of_begins _ hc,
          List.length_append, List.append_assoc]
        rfl
      | false =>
        rw [if_neg nofun, Waiting.after_of_ends hc, begins_of_ends _ hc, closings_of_ends _ hc]
        cases w c.lane with
        | nil => rfl
        | cons b others =>
          show List.filter _ [(⟨b, c⟩ : Pair)] ++ _ = _
          rw [List.filter_cons_of_pos (by simp)]
          rfl
    · rw [Waiting.after_of_ne hlane, List.filter_cons_of_neg (by simpa using hlane)]
      have hother : (if c.begins then []
          else (w c.lane).head?.toList.map fun b => (⟨b, c⟩ : Pair)).filter
            (·.closing.lane = lane) = [] := by
        rw [List.filter_eq_nil_iff]
        intro p hp
        split at hp
        · cases hp
        · obtain ⟨b, -, rfl⟩ := List.mem_map.mp hp
          simpa using hlane
      rw [hother, List.nil_append]

/-- The pairs of a track in the order of their ends. -/
def pairs (track : Track) : List Pair := pairUp (fun _ => []) (cuesFrom 0 track)

/-! ## 3. Open notes -/

/-- The lane of an open note. -/
def Held.lane (h : Held) : Lane := (h.channel, h.pitch)

section Release

variable {lane : Lane} {held : List Held}

theorem release_of_lane_nil (h : held.filter (·.lane = lane) = []) :
    release lane.1 lane.2 held = none := by
  induction held with
  | nil => rfl
  | cons first held ih =>
    have hlane : first.lane ≠ lane := fun he =>
      List.filter_eq_nil_iff.mp h first List.mem_cons_self (decide_eq_true he)
    rw [List.filter_cons_of_neg (by simpa using hlane)] at h
    rw [release, if_neg fun he => hlane (Prod.ext he.1 he.2), ih h]
    rfl

/-- **The first open note of a lane is closed, and no other is touched.** -/
theorem release_of_lane_cons {first : Held} {rest : List Held}
    (h : held.filter (·.lane = lane) = first :: rest) :
    ∃ others, release lane.1 lane.2 held = some (first, others)
      ∧ others.filter (·.lane = lane) = rest
      ∧ (∀ lane' ≠ lane, others.filter (·.lane = lane') = held.filter (·.lane = lane'))
      ∧ held.Perm (first :: others) := by
  induction held with
  | nil => cases h
  | cons h' held ih =>
    by_cases hlane : h'.lane = lane
    · rw [List.filter_cons_of_pos (by simpa using hlane)] at h
      obtain ⟨rfl, hrest⟩ := List.cons.inj h
      refine ⟨held, ?_, hrest, fun lane' hne => ?_, .refl _⟩
      · rw [release, if_pos ⟨congrArg Prod.fst hlane, congrArg Prod.snd hlane⟩]
      · rw [List.filter_cons_of_neg (by simpa [hlane] using Ne.symm hne)]
    · rw [List.filter_cons_of_neg (by simpa using hlane)] at h
      obtain ⟨others, hothers, hsame, hother, hperm⟩ := ih h
      refine ⟨h' :: others, ?_, ?_, fun lane' hne => ?_, ?_⟩
      · rw [release, if_neg fun he => hlane (Prod.ext he.1 he.2), hothers]
        rfl
      · rw [List.filter_cons_of_neg (by simpa using hlane), hsame]
      · rw [List.filter_cons, List.filter_cons, hother lane' hne]
      · exact (hperm.cons h').trans (.swap first h' others)

end Release

end Midi

end Cantilena
