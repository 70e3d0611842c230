import Cantilena.Proofs.Melody.Phrases
import Cantilena.Proofs.Melody.Raised
import Cantilena.Proofs.Random.Results
import Cantilena.Proofs.Scale.Reach
import Mathlib.Data.List.Chain

/-!
# The register and the leaps of a line

A pitch is kept within the largest leap, then within the register, and is then put on the scale, and
each of these steps can undo the one before. What is left is bounded by the reach of the scale: a
line leaves its register by no more, and leaps further by no more, unless it has to return to the
register.

* `Composer.Near`, `Composer.Leap` -- pitches about the register, and the leaps of a line;
* `near_place`, `leap_place`, `natAbs_neighbour_sub_le` -- where a pitch is placed;
* `Composer.Contained`, `Contained.add` -- strokes within these bounds, and what a slot adds to them;
* `Line.Contained`, `ensures_soundSlot` -- lines within them, and what a slot makes of such a line;
* `ensures_writeBars` -- what every slot keeps is kept by a phrase;
* `phrases_contained` -- the phrases of melodies over progressions.
-/

namespace Cantilena

namespace Composer

variable {σ : Type} {src : Source σ} {c : Composer Int} {reach : Nat}

/-! ## 1. Bounds -/

/-- That a pitch leaves the register by no more than the reach of the scale. -/
def Near (c : Composer Int) (reach : Nat) (pitch : Int) : Prop :=
  ((pitch - c.centre).natAbs : Int) ≤ c.params.frame.range + reach

/-- That two pitches are no further apart than the largest leap and the reach of the scale. Where the
    reach is larger than the largest leap, it counts twice. -/
def Leap (c : Composer Int) (reach : Nat) (last pitch : Int) : Prop :=
  ((pitch - last).natAbs : Int) ≤ max c.params.frame.maxLeap reach + reach

theorem withinLeap_le (c : Composer Int) (last pitch : Int) :
    ((c.withinLeap last pitch - last).natAbs : Int) ≤ c.params.frame.maxLeap := by
  have hmost : ¬ c.params.frame.maxLeap < 1 := c.params.frame.maxLeap_ok
  unfold withinLeap
  simp only
  rw [magnitude_eq]
  split
  · split <;> omega
  · omega

section Placing

variable (hk : c.key.Sound) (hc : c.Roomy) (hreach : IsReach c.key.classes reach)
include hk hc hreach

/-- A pitch is placed in the register, but for the reach of the scale. -/
theorem near_place (pitch : Int) : c.Near reach (c.place pitch) := by
  obtain ⟨hlow, hhigh⟩ := keepBetween_range c.lowest_le_highest pitch
  have hsnap : (c.key.snap (keepBetween c.lowest c.highest pitch)
      - keepBetween c.lowest c.highest pitch).natAbs ≤ reach :=
    hreach.natAbs_nearestIn_sub_le hk.ne_nil hk.range _
  have hlowest : c.lowest = c.centre - c.params.frame.range := rfl
  have hhighest : c.highest = c.centre + c.params.frame.range := rfl
  rw [Near, (place_eq hk hc pitch).1]
  omega

/-- **A pitch is placed within the bounds of a leap**, even where the last one lies beside the
    register. -/
theorem leap_place {last pitch : Int} (hlast : c.Near reach last)
    (hpitch : ((pitch - last).natAbs : Int) ≤ c.params.frame.maxLeap) :
    c.Leap reach last (c.place pitch) := by
  obtain ⟨hlow, hhigh⟩ := keepBetween_range c.lowest_le_highest pitch
  have hsnap : (c.key.snap (keepBetween c.lowest c.highest pitch)
      - keepBetween c.lowest c.highest pitch).natAbs ≤ reach :=
    hreach.natAbs_nearestIn_sub_le hk.ne_nil hk.range _
  have hlowest : c.lowest = c.centre - c.params.frame.range := rfl
  have hhighest : c.highest = c.centre + c.params.frame.range := rfl
  -- the bound of the register lies between, or at most the reach of the scale behind the last pitch
  have hkept : ((keepBetween c.lowest c.highest pitch - last).natAbs : Int)
      ≤ max c.params.frame.maxLeap reach := by
    unfold Near at hlast
    rw [keepBetween_eq] at hlow hhigh ⊢
    omega
  rw [Leap, (place_eq hk hc pitch).1]
  omega

end Placing

/-- A neighbour of a pitch of the scale lies within two semitones of it. -/
theorem natAbs_neighbour_sub_le (hk : c.key.Sound) (last : Int) {pitch : Int}
    (hmem : pitch % 12 ∈ c.key.classes) (hrange : 0 ≤ pitch ∧ pitch ≤ 127) :
    (c.neighbour last pitch - pitch).natAbs ≤ 2 := by
  generalize hbeside : (if last ≤ pitch then pitch - 1 else pitch + 1) = beside
  have hstep : (pitch - beside).natAbs = 1 := by
    split at hbeside <;> omega
  have hnear := (hk.isNearest beside).nearest pitch hmem
  unfold neighbour
  rw [hbeside, keepBetween_eq]
  omega

/-! ## 2. Strokes -/

/-- The pitches of the main notes and the fills among strokes. -/
def sung (strokes : List (Stroke Note)) : List Int :=
  (strokes.filter (·.kind ≠ .approach)).map (·.note.pitch)

/-- Strokes that keep to the register and to the largest leap, but for the reach of the scale: main
    notes and fills are about the register, each of them is a leap from the one before, and a stroke
    that leads into a note has this note behind it, within two semitones. -/
structure Contained (c : Composer Int) (reach : Nat) (strokes : List (Stroke Note)) : Prop where
  register : ∀ s ∈ strokes, s.kind ≠ .approach → c.Near reach s.note.pitch
  leaps : (sung strokes).IsChain (c.Leap reach)
  approaches : ∀ (i : Nat) s, strokes[i]? = some s → s.kind = .approach →
    ∃ main, strokes[i + 1]? = some main ∧ main.kind = .main
      ∧ (s.note.pitch - main.note.pitch).natAbs ≤ 2

theorem contained_nil (c : Composer Int) (reach : Nat) : c.Contained reach [] where
  register _ h := absurd h List.not_mem_nil
  leaps := .nil
  approaches _ _ h := by cases h

theorem Contained.near_of_mem_sung {strokes : List (Stroke Note)} (h : c.Contained reach strokes)
    {pitch : Int} (hpitch : pitch ∈ sung strokes) : c.Near reach pitch := by
  obtain ⟨s, hs, rfl⟩ := List.mem_map.mp hpitch
  obtain ⟨hmem, hkind⟩ := List.mem_filter.mp hs
  exact h.register s hmem (of_decide_eq_true hkind)

/-- What a slot adds to strokes: a main note or a fill, and in front of a main note perhaps one that
    leads into it. -/
structure Adds (lead : Option (Stroke Note)) (s : Stroke Note) : Prop where
  kind : s.kind ≠ .approach
  lead : ∀ a ∈ lead, a.kind = .approach ∧ s.kind = .main
    ∧ (a.note.pitch - s.note.pitch).natAbs ≤ 2

namespace Adds

variable {lead : Option (Stroke Note)} {s : Stroke Note}

theorem sung_append (h : Adds lead s) (strokes : List (Stroke Note)) :
    sung (strokes ++ (lead.toList ++ [s])) = sung strokes ++ [s.note.pitch] := by
  have hlead : lead.toList.filter (·.kind ≠ .approach) = [] := by
    refine List.filter_eq_nil_iff.mpr fun a ha => ?_
    simp [(h.lead a (Option.mem_toList.mp ha)).1]
  have hown : [s].filter (·.kind ≠ .approach) = [s] := List.filter_cons_of_pos (by simp [h.kind])
  rw [sung, List.filter_append, List.filter_append, hlead, hown, List.nil_append, List.map_append]
  rfl

/-- Of what a slot adds only the stroke that leads in leads in, and the main note is behind it. -/
theorem behind (h : Adds lead s) {i : Nat} {a : Stroke Note}
    (ha : (lead.toList ++ [s])[i]? = some a) (hkind : a.kind = .approach) :
    (lead.toList ++ [s])[i + 1]? = some s ∧ s.kind = .main
      ∧ (a.note.pitch - s.note.pitch).natAbs ≤ 2 := by
  cases lead with
  | none =>
    have hs : a ∈ [s] := List.mem_of_getElem? ha
    rw [List.mem_singleton.mp hs] at hkind
    exact absurd hkind h.kind
  | some b =>
    cases i with
    | zero =>
      obtain rfl := Option.some.inj ha
      exact ⟨rfl, (h.lead b rfl).2⟩
    | succ i =>
      have hs : a ∈ [s] := List.mem_of_getElem? (i := i) ha
      rw [List.mem_singleton.mp hs] at hkind
      exact absurd hkind h.kind

end Adds

/-- **What a slot adds keeps strokes within their bounds**, if it is about the register itself and a
    leap from the main note or fill before. -/
theorem Contained.add {strokes : List (Stroke Note)} (h : c.Contained reach strokes)
    {lead : Option (Stroke Note)} {s : Stroke Note} (hadds : Adds lead s)
    (hnear : c.Near reach s.note.pitch)
    (hleap : ∀ last ∈ (sung strokes).getLast?, c.Leap reach last s.note.pitch) :
    c.Contained reach (strokes ++ (lead.toList ++ [s])) where
  register t ht hkind := by
    rcases List.mem_append.mp ht with ht | ht
    · exact h.register t ht hkind
    · rcases List.mem_append.mp ht with ht | ht
      · exact absurd (hadds.lead t (Option.mem_toList.mp ht)).1 hkind
      · rwa [List.mem_singleton.mp ht]
  leaps := by
    rw [hadds.sung_append]
    refine List.isChain_append.mpr ⟨h.leaps, .singleton _, fun last hlast pitch hpitch => ?_⟩
    obtain rfl := Option.some.inj hpitch
    exact hleap last hlast
  approaches i t ht hkind := by
    rcases Nat.lt_or_ge i strokes.length with hi | hi
    · rw [List.getElem?_append_left hi] at ht
      obtain ⟨main, hmain, hbeside⟩ := h.approaches i t ht hkind
      have hi' : i + 1 < strokes.length := (List.getElem?_eq_some_iff.mp hmain).1
      exact ⟨main, by rw [List.getElem?_append_left hi', hmain], hbeside⟩
    · rw [List.getElem?_append_right hi] at ht
      obtain ⟨hmain, hbeside⟩ := hadds.behind ht hkind
      refine ⟨s, ?_, hbeside⟩
      rw [List.getElem?_append_right (Nat.le_succ_of_le hi), Nat.succ_sub hi]
      exact hmain

/-! ## 3. Lines -/

/-- A line whose strokes are contained, with the pitch of its last main note or fill as the last. -/
structure Line.Contained (c : Composer Int) (reach : Nat) (line : Line Note Int) : Prop where
  strokes : c.Contained reach line.strokes.toList
  last : line.last = (sung line.strokes.toList).getLast?

namespace Line.Contained

variable {line line' : Line Note Int}

theorem start (c : Composer Int) (reach : Nat) (motif : Motif) :
    ({ motif } : Line Note Int).Contained c reach :=
  ⟨contained_nil c reach, rfl⟩

theorem near_last (h : line.Contained c reach) {last : Int} (hlast : line.last = some last) :
    c.Near reach last :=
  h.strokes.near_of_mem_sung (List.mem_of_getLast? (h.last ▸ hlast))

/-- A line with one more main note or fill. -/
theorem add (h : line.Contained c reach) {lead : Option (Stroke Note)} {s : Stroke Note}
    (hadds : Adds lead s) (hnear : c.Near reach s.note.pitch)
    (hleap : ∀ last, line.last = some last → c.Leap reach last s.note.pitch)
    (hstrokes : line'.strokes.toList = line.strokes.toList ++ (lead.toList ++ [s]))
    (hlast : line'.last = some s.note.pitch) : line'.Contained c reach where
  strokes := by
    rw [hstrokes]
    exact h.strokes.add hadds hnear fun last hmem => hleap last (h.last.trans hmem)
  last := by
    rw [hstrokes, hadds.sung_append, List.getLast?_concat, hlast]

end Line.Contained

/-! ## 4. Slots -/

/-- One more stroke is of the kind that is asked for, and its note has the pitch and the start. -/
theorem of_push_eq_ok {kind : StrokeKind} {pitch start length : Int} {loudness : Float}
    {line line' : Line Note Int} (h : push kind pitch start length loudness line = .ok line') :
    ∃ n : Note, n.pitch = pitch ∧ n.start = start
      ∧ line' = { line with strokes := line.strokes.push ⟨kind, n⟩ } := by
  obtain ⟨velocity, -, h⟩ := bind_eq_ok.mp h
  obtain ⟨n, hn, h⟩ := bind_eq_ok.mp h
  obtain rfl := pure_eq_ok.mp h
  obtain ⟨hpitch, hstart, -⟩ := Note.of_make_eq_ok hn
  exact ⟨n, hpitch, hstart, rfl⟩

/-- What leads into a pitch is its neighbour as seen from the last pitch, which is there. -/
theorem ensures_neighbour_approach (last : Option Int) (pitch : Int) :
    Ensures (c.approach src last pitch) fun a =>
      ∀ p, a = some p → ∃ q, last = some q ∧ p = c.neighbour q pitch := by
  cases last with
  | none => exact .pure nofun
  | some last =>
    refine .bind_any fun written => .ite (fun _ => .pure fun p hp => ?_) fun _ => .pure nofun
    exact ⟨last, rfl, (Option.some.inj hp).symm⟩

/-- A line with one more stroke: of the kind and the pitch that are asked for, behind all others. -/
structure Line.Pushed (kind : StrokeKind) (pitch : Int) (line line' : Line Note Int) : Prop where
  strokes : ∃ n : Note, n.pitch = pitch ∧ line'.strokes.toList = line.strokes.toList ++ [⟨kind, n⟩]
  motif : line'.motif = line.motif

theorem pushed_of_push {kind : StrokeKind} {pitch start length : Int} {loudness : Float}
    {line line' : Line Note Int} (h : push kind pitch start length loudness line = .ok line') :
    line.Pushed kind pitch line' := by
  obtain ⟨n, hn, -, rfl⟩ := of_push_eq_ok h
  exact ⟨⟨n, hn, Array.toList_push⟩, rfl⟩

/-- A line with perhaps one more stroke, which leads into the note that comes. -/
structure Line.LedIn (approach : Option Int) (line line' : Line Note Int) : Prop where
  strokes : ∃ lead : Option (Stroke Note), line'.strokes.toList = line.strokes.toList ++ lead.toList
    ∧ ∀ a ∈ lead, a.kind = .approach ∧ approach = some a.note.pitch
  motif : line'.motif = line.motif

theorem Line.LedIn.refl (approach : Option Int) (line : Line Note Int) : line.LedIn approach line :=
  ⟨⟨none, (List.append_nil _).symm, nofun⟩, rfl⟩

/-- What leads into a main note is one more stroke, a tick before the slot, or none. -/
theorem ensures_stroke_leadIn {bar : Bar Int} {slot : Slot} {approach : Option Int}
    {loudness : Float} {line : Line Note Int} :
    Ensures (c.leadIn src bar slot approach loudness line) fun line' => line' = line
      ∨ ∃ n : Note, approach = some n.pitch ∧ n.start = bar.tick + slot.step - 1
        ∧ line' = { line with strokes := line.strokes.push ⟨.approach, n⟩ } := by
  unfold leadIn
  split
  · exact .pure (.inl rfl)
  · refine .ite (fun _ => .pure (.inl rfl)) fun _ => .bind_any fun written => ?_
    refine .ite (fun _ => .ofExcept fun line' hpush => ?_) fun _ => .pure (.inl rfl)
    obtain ⟨n, rfl, hstart, hline⟩ := of_push_eq_ok hpush
    exact .inr ⟨n, rfl, hstart, hline⟩

theorem ensures_leadIn {bar : Bar Int} {slot : Slot} {approach : Option Int} {loudness : Float}
    {line : Line Note Int} :
    Ensures (c.leadIn src bar slot approach loudness line) (line.LedIn approach) := by
  refine ensures_stroke_leadIn.mono fun line' h => ?_
  obtain rfl | ⟨n, happroach, -, rfl⟩ := h
  · exact .refl approach _
  · refine ⟨⟨some ⟨.approach, n⟩, Array.toList_push, fun a ha => ?_⟩, rfl⟩
    obtain rfl := Option.some.inj ha
    exact ⟨rfl, happroach⟩

/-- **The main note of a slot keeps a line within its bounds**, with what leads into it. -/
theorem Line.Contained.main {line line₁ line₂ : Line Note Int} (h : line.Contained c reach)
    {pitch : Int} (hnear : c.Near reach pitch)
    (hleap : ∀ last, line.last = some last → c.Leap reach last pitch) {approach : Option Int}
    (happroach : ∀ p, approach = some p → (p - pitch).natAbs ≤ 2) {motif : Motif}
    (hled : ({ line with motif } : Line Note Int).LedIn approach line₁)
    (hpushed : line₁.Pushed .main pitch line₂) :
    ({ line₂ with last := some pitch } : Line Note Int).Contained c reach := by
  obtain ⟨lead, hstrokes₁, hlead⟩ := hled.strokes
  obtain ⟨n, rfl, hstrokes₂⟩ := hpushed.strokes
  have hadds : Adds lead ⟨.main, n⟩ :=
    ⟨nofun, fun a ha => ⟨(hlead a ha).1, rfl, happroach _ (hlead a ha).2⟩⟩
  rw [hstrokes₁, List.append_assoc] at hstrokes₂
  exact h.add hadds hnear hleap hstrokes₂ rfl

section Slots

variable (hk : c.key.Sound) (hc : c.Roomy) (hreach : IsReach c.key.classes reach)
include hk hc hreach

/-- **The pitch of a class is on the scale, about the register and a leap from the last one.** -/
theorem ensures_nextPitch {last : Option Int} (hlast : ∀ p, last = some p → c.Near reach p)
    (pc : Int) : Ensures (c.nextPitch src last pc) fun pitch => c.Near reach pitch
      ∧ c.Within pitch ∧ ∀ p, last = some p → c.Leap reach p pitch := by
  cases last with
  | none =>
    refine .bind_any fun _ => .pure ?_
    exact ⟨near_place hk hc hreach _, (place_eq hk hc _).2, fun p hp => by cases hp⟩
  | some last =>
    refine .bind_any fun pitch => .bind_any fun _ => .pure ?_
    refine ⟨near_place hk hc hreach _, (place_eq hk hc _).2, fun p hp => ?_⟩
    obtain rfl := Option.some.inj hp
    exact leap_place hk hc hreach (hlast last rfl) (c.withinLeap_le last pitch)

omit hreach in
theorem ensures_approach (last : Option Int) {pitch : Int} (hpitch : c.Within pitch) :
    Ensures (c.approach src last pitch) fun a =>
      ∀ p, a = some p → (p - pitch).natAbs ≤ 2 := by
  have hlow := hpitch.low
  have hhigh := hpitch.high
  have hroomlow := hc.low
  have hroomhigh := hc.high
  refine (ensures_neighbour_approach last pitch).mono fun a ha p hp => ?_
  obtain ⟨last, -, rfl⟩ := ha p hp
  exact natAbs_neighbour_sub_le hk last hpitch.mem ⟨by omega, by omega⟩

theorem ensures_fill {bar : Bar Int} {step : Nat} {pc : Int} {loudness : Float}
    {line : Line Note Int} (h : line.Contained c reach) :
    Ensures (c.fill src bar step pc loudness line) fun line' => line'.Contained c reach := by
  unfold fill
  refine .ite (fun _ => .pure h) fun _ => .bind_any fun skipped => ?_
  refine .ite (fun _ => .pure h) fun _ => .bind_any fun nudge => ?_
  refine (ensures_nextPitch hk hc hreach (fun _ => h.near_last) _).bind ?_
  rintro pitch ⟨hnear, -, hleap⟩
  refine (Ensures.ofExcept fun line' => pushed_of_push).bind fun line₁ h₁ => .pure ?_
  obtain ⟨n, rfl, hstrokes⟩ := h₁.strokes
  have hadds : Adds none ⟨.fill, n⟩ := ⟨nofun, nofun⟩
  exact h.add hadds hnear hleap hstrokes rfl

theorem ensures_fills {bar : Bar Int} {slot : Slot} {pc : Int} {loudness : Float}
    {line : Line Note Int} (h : line.Contained c reach) :
    Ensures (c.fills src bar slot pc loudness line) fun line' => line'.Contained c reach := by
  unfold fills
  refine .bind_any fun filled => .ite (fun _ => ?_) fun _ => .pure h
  exact (ensures_fill hk hc hreach h).bind fun line₁ h₁ => ensures_fill hk hc hreach h₁

/-- **A slot that sounds keeps a line within its bounds.** -/
theorem ensures_soundSlot {bar : Bar Int} {i : Nat} {slot : Slot} {line : Line Note Int}
    (h : line.Contained c reach) :
    Ensures (c.soundSlot src bar i slot line) fun line' => line'.Contained c reach := by
  unfold soundSlot
  refine .bind_any ?_
  rintro ⟨pc, motif⟩
  refine (ensures_nextPitch hk hc hreach (fun _ => h.near_last) _).bind ?_
  rintro pitch ⟨hnear, hwithin, hleap⟩
  refine (ensures_approach hk hc line.last hwithin).bind fun approach happroach => ?_
  refine .bind_any fun length => .bind_any fun loudness => ?_
  refine ensures_leadIn.bind fun line₁ hled => ?_
  refine (Ensures.ofExcept fun line' => pushed_of_push).bind fun line₂ hpushed => ?_
  exact ensures_fills hk hc hreach (h.main hnear hleap happroach hled hpushed)

end Slots

/-! ## 5. Phrases -/

section Phrases

variable {P : Line Note Int → Prop} (hslot : ∀ (bar : Bar Int) (i : Nat) (slot : Slot)
  (line : Line Note Int), P line → Ensures (c.soundSlot src bar i slot line) P)
include hslot

theorem ensures_writeSlot {bar : Bar Int} {slot : Slot × Nat} {line : Line Note Int} (h : P line) :
    Ensures (c.writeSlot src bar line slot) P := by
  unfold writeSlot
  refine .bind_any fun x => .ite (fun _ => .pure h) fun _ => ?_
  exact .bind_any fun y => .ite (fun _ => .pure h) fun _ => hslot bar slot.2 slot.1 line h

theorem ensures_writeBar {role : Role} {bar : Option Chord × Int} {line : Line Note Int}
    (h : P line) : Ensures (c.writeBar src role line bar) P := by
  unfold writeBar
  refine .bind_any fun tick => .bind_any fun rhythm => .bind_any fun syncopated => ?_
  have hslots (bar : Bar Int) (slots : List (Slot × Nat)) :
      Ensures (slots.foldlM (c.writeSlot src bar) line) P :=
    .foldlM h fun line' h' slot _ => ensures_writeSlot hslot h'
  exact .ite (fun _ => .bind_any fun _ => hslots _ _) fun _ => .bind_any fun _ => hslots _ _

/-- **What every slot that sounds keeps of a line is kept by a phrase.** -/
theorem ensures_writeBars {role : Role} {motif : Motif} {bars : List (Option Chord × Int)}
    (h : P { motif }) : Ensures (c.writeBars src role motif bars) P :=
  .foldlM h fun _ h _ _ => ensures_writeBar hslot h

end Phrases

/-- The notes of a phrase are those of the strokes that are written for its bars. -/
theorem of_writePhrase_eq_ok {first count : Int} {role : Role} {motif motif' : Motif} {s s' : σ}
    {notes : List Note}
    (h : (c.writePhrase src first count role motif).run s = (.ok (notes, motif'), s')) :
    ∃ line : Line Note Int,
      (c.writeBars src role motif ((c.barsFrom first).take count.toNat)).run s = (.ok line, s')
        ∧ notes = line.strokes.toList.map (·.note) ∧ motif' = line.motif := by
  unfold writePhrase at h
  simp only at h
  rw [run_bind] at h
  generalize hrun : (c.writeBars src role motif ((c.barsFrom first).take count.toNat)
    : Drawing σ (Line Note Int)).run s = result at h
  obtain ⟨outcome, s₁⟩ := result
  cases outcome with
  | error e => cases h
  | ok line =>
    simp only at h
    split at h
    · cases h
    · obtain ⟨hresult, rfl⟩ := Prod.mk.inj h
      obtain ⟨rfl, rfl⟩ := Prod.mk.inj (Except.ok.inj hresult)
      exact ⟨line, rfl, rfl, rfl⟩

/-- A phrase that does not go past the last bar is written, whatever a source picks. -/
theorem exists_writePhrase (hsrc : src.AlwaysPicks) {first count : Nat}
    (hwithin : first + count ≤ c.bars.length) (role : Role) {motif : Motif} (hmotif : motif.Sound)
    (s : σ) : ∃ (written : List Note × Motif) (s' : σ),
      (c.writePhrase src first count role motif).run s = (.ok written, s') := by
  have hbars : ∀ bar ∈ numbered first ((c.bars.drop first).take count), 0 ≤ bar.2 :=
    fun bar hbar => Int.le_trans (Int.natCast_nonneg first) (mem_numbered hbar).1
  have hyields : Yields (c.writePhrase src first count role motif : Drawing σ (List Note × Motif))
      fun _ => True := by
    rw [writePhrase_eq src c hwithin]
    exact (yields_writeBars hsrc c.keeps_range hbars hmotif).bind fun line _ => .pure trivial
  obtain ⟨written, s', hrun, -⟩ := hyields s
  exact ⟨written, s', hrun⟩

end Composer

/-- **A melody stays in its register, and its leaps are bounded.** Settings that are admitted have a
    composer over every progression, and its scale has a reach, of six semitones at most and of one
    in the modes known from the start. If the register stays clear of the ends of the range of notes,
    the strokes of every phrase keep to the register and to the largest leap but for this reach,
    whatever is drawn for them and whatever motif they are written from. A phrase that does not go
    past the last bar is written. -/
theorem phrases_contained {r : Registry} (hr : r.Reachable) {p : Params Int} (hp : p.Admitted r)
    (entries : List Entry) :
    (∀ s ∈ Scale.builtin, ∀ tonic, IsReach (s.pitchClasses tonic) 1)
    ∧ ∃ (c : Composer Int) (reach : Nat), (composerFor r p entries).outcome = .ok c
      ∧ c.params = p ∧ IsReach c.key.classes reach ∧ reach ≤ 6
      ∧ (c.Roomy → ∀ (σ : Type) (src : Source σ) (role : Role) (first count : Int)
          (motif motif' : Motif) (notes : List Note) (s s' : σ),
        (c.writePhrase src first count role motif).run s = (.ok (notes, motif'), s') →
        ∃ line : Composer.Line Note Int,
          (c.writeBars src role motif ((c.barsFrom first).take count.toNat)).run s = (.ok line, s')
            ∧ notes = line.strokes.toList.map (·.note)
            ∧ c.Contained reach line.strokes.toList)
      ∧ ∀ (σ : Type) (src : Source σ), src.AlwaysPicks → ∀ (role : Role) (first count : Nat)
          (motif : Motif) (s : σ), motif.Sound → first + count ≤ (barChords entries).length →
        ∃ (written : List Note × Motif) (s' : σ),
          (c.writePhrase src first count role motif).run s = (.ok written, s') := by
  obtain ⟨k, hc, hk⟩ := exists_composer hr hp entries
  obtain ⟨reach, hsix, hreach⟩ := exists_isReach hk.ne_nil hk.range
  refine ⟨fun s hs tonic => isReach_builtin hs tonic, ⟨p, k, barChords entries⟩, reach, hc, rfl,
    hreach, hsix, ?_, ?_⟩
  · intro hroomy σ src role first count motif motif' notes s s' hrun
    obtain ⟨line, hline, hnotes, -⟩ := Composer.of_writePhrase_eq_ok hrun
    have hcontained := Composer.ensures_writeBars
      (fun _ _ _ _ => Composer.ensures_soundSlot hk hroomy hreach) (.start _ reach motif)
      s line (congrArg Prod.fst hline)
    exact ⟨line, hline, hnotes, hcontained.strokes⟩
  · intro σ src hsrc role first count motif s hmotif hwithin
    exact Composer.exists_writePhrase hsrc hwithin role hmotif s

theorem isReach_start : IsReach Composer.start.key.classes 1 :=
  isReach_builtin (by decide +kernel :
    ⟨"aeolian", [0, 2, 3, 5, 7, 8, 10], Scale.modeTriads 5⟩ ∈ Scale.builtin) 9

/-- A phrase of two bars of A minor, with the settings from the start and a source that does not
    change: its strokes go up and down between A and D, about the A at 69. -/
theorem phrases_contained_start :
    ∃ c : Composer Int,
      (composerFor Registry.builtin Params.start [⟨['A', 'm'], 2, by decide⟩]).outcome = .ok c
        ∧ c.centre = 69 ∧ c.Roomy ∧ ∃ line : Composer.Line Note Int,
          ((c.writeBars (Source.fixed 0.5) .question {} (c.barsFrom 0)).run ()).1 = .ok line
            ∧ c.Contained 1 line.strokes.toList
            ∧ Composer.sung line.strokes.toList
              = [69, 74, 69, 74, 69, 74, 69, 69, 74, 69, 74, 69, 74, 69] := by
  obtain ⟨-, c, reach, hc, -, hreach, -, hphrases, hwritten⟩ := phrases_contained .builtin
    (Params.admitted_start Registry.builtin) [⟨['A', 'm'], 2, by decide⟩]
  obtain rfl := Except.ok.inj (composerFor_start.symm.trans hc)
  obtain rfl : reach = 1 := hreach.unique isReach_start
  obtain ⟨⟨notes, motif⟩, s', hrun⟩ := hwritten Unit (Source.fixed 0.5)
    (Source.alwaysPicks_fixed 0.5) .question 0 2 {} () Motif.sound_empty (by decide +kernel)
  obtain ⟨line, hline, -, hcontained⟩ :=
    hphrases ⟨by decide, by decide⟩ Unit _ _ _ _ _ _ _ _ _ hrun
  have hwritten : ((Composer.start.writeBars (Source.fixed 0.5) .question {}
      (Composer.start.barsFrom 0)).run ()).1 = .ok line := congrArg Prod.fst hline
  have hsung : ((Composer.start.writeBars (Source.fixed 0.5) .question {}
      (Composer.start.barsFrom 0) : Drawing Unit (Composer.Line Note Int)).run ()).1.toOption.map
        (fun line => Composer.sung line.strokes.toList)
      = some [69, 74, 69, 74, 69, 74, 69, 69, 74, 69, 74, 69, 74, 69] := by
    decide +kernel
  rw [hwritten] at hsung
  exact ⟨_, hc, by decide, ⟨by decide, by decide⟩, line, hwritten, hcontained,
    Option.some.inj hsung⟩

end Cantilena
