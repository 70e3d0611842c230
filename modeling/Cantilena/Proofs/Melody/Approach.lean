import Cantilena.Proofs.Melody.Reach

/-!
# Strokes that lead into a main note

A stroke that leads into a main note starts a semitone beside it and is put on the scale. The main
note is on the scale itself, so the stroke goes back to it where no other pitch of the scale is as
near; and of two that are equally near it takes the upper one.

* `HasNeighbour`, `leading` -- where a scale has another pitch to lead in from, and which one it is;
* `Composer.neighbour_eq_leading` -- the pitch that is written is this one;
* `Composer.LeadsInto`, `Composer.Sings` -- a stroke that leads in, and strokes in which each of them
  stands in front of its main note and behind the last pitch;
* `Composer.ensures_sings_soundSlot` -- what a slot adds to such strokes;
* `approaches_lead_in` -- where the strokes of a phrase that lead in have another pitch;
* `approaches_repeat` -- a phrase in which each of them has the pitch of its main note.
-/

namespace Cantilena

/-! ## 1. Neighbours on a scale -/

/-- That a scale has a pitch to lead into another from: a semitone below it, or, where the line
    falls, a semitone or a whole tone above it. -/
def HasNeighbour (classes : List Int) (last pitch : Int) : Prop :=
  if last ≤ pitch then (pitch - 1) % 12 ∈ classes
  else (pitch + 1) % 12 ∈ classes ∨ (pitch + 2) % 12 ∈ classes

instance (classes : List Int) (last pitch : Int) : Decidable (HasNeighbour classes last pitch) :=
  inferInstanceAs (Decidable (if last ≤ pitch then (pitch - 1) % 12 ∈ classes
    else (pitch + 1) % 12 ∈ classes ∨ (pitch + 2) % 12 ∈ classes))

/-- The pitch of a scale that leads into another: the one a semitone below it, or, where the line
    falls, the first one above it up to a whole tone; and the pitch itself where there is none. -/
def leading (classes : List Int) (last pitch : Int) : Int :=
  if last ≤ pitch then
    if (pitch - 1) % 12 ∈ classes then pitch - 1 else pitch
  else if (pitch + 1) % 12 ∈ classes then pitch + 1
  else if (pitch + 2) % 12 ∈ classes then pitch + 2
  else pitch

section

variable {classes : List Int} {last pitch : Int}

/-- **What leads in is another pitch exactly where the scale has a neighbour.** -/
theorem leading_ne_iff : leading classes last pitch ≠ pitch ↔ HasNeighbour classes last pitch := by
  unfold leading HasNeighbour
  by_cases hup : last ≤ pitch
  · rw [if_pos hup, if_pos hup]
    by_cases hbelow : (pitch - 1) % 12 ∈ classes
    · rw [if_pos hbelow]
      exact ⟨fun _ => hbelow, fun _ => by omega⟩
    · simp [hbelow]
  · rw [if_neg hup, if_neg hup]
    by_cases habove : (pitch + 1) % 12 ∈ classes
    · rw [if_pos habove]
      exact ⟨fun _ => .inl habove, fun _ => by omega⟩
    · by_cases htone : (pitch + 2) % 12 ∈ classes
      · rw [if_neg habove, if_pos htone]
        exact ⟨fun _ => .inr htone, fun _ => by omega⟩
      · simp [habove, htone]

/-- Beside a pitch that is off the scale, one of the scale is nearest, if no upper one is as near. -/
theorem isNearest_of_beside {beside near : Int} (hbeside : beside % 12 ∉ classes)
    (hnear : near % 12 ∈ classes) (hstep : (near - beside).natAbs = 1)
    (hupper : near = beside + 1 ∨ (beside + 1) % 12 ∉ classes) : IsNearest classes beside near where
  mem := hnear
  nearest q hq := by
    have hne : q ≠ beside := fun h => hbeside (h ▸ hq)
    omega
  upper q hq hsame := by
    have hne : near = beside + 1 ∨ q ≠ beside + 1 := hupper.imp_right fun h he => h (he ▸ hq)
    omega

/-- **What leads into a pitch of the scale is nearest to the semitone beside it.** -/
theorem isNearest_leading (hmem : pitch % 12 ∈ classes) :
    IsNearest classes (if last ≤ pitch then pitch - 1 else pitch + 1)
      (leading classes last pitch) := by
  unfold leading
  by_cases hup : last ≤ pitch
  · rw [if_pos hup, if_pos hup]
    by_cases hbelow : (pitch - 1) % 12 ∈ classes
    · rw [if_pos hbelow]
      exact .self hbelow
    · -- the pitch itself is the upper one of those that are a semitone away
      rw [if_neg hbelow]
      exact isNearest_of_beside hbelow hmem (by omega) (.inl (by omega))
  · rw [if_neg hup, if_neg hup]
    by_cases habove : (pitch + 1) % 12 ∈ classes
    · rw [if_pos habove]
      exact .self habove
    · rw [if_neg habove]
      have htwo : pitch + 1 + 1 = pitch + 2 := Int.add_assoc ..
      by_cases htone : (pitch + 2) % 12 ∈ classes
      · rw [if_pos htone]
        exact isNearest_of_beside habove htone (by omega) (.inl htwo.symm)
      · rw [if_neg htone]
        exact isNearest_of_beside habove hmem (by omega) (.inr (htwo ▸ htone))

end

namespace Composer

variable {σ : Type} {src : Source σ} {c : Composer Int}

/-- In a roomy register the neighbour of a pitch is what leads into it. -/
theorem neighbour_eq_leading (hk : c.key.Sound) (hc : c.Roomy) (last : Int) {pitch : Int}
    (hpitch : c.Within pitch) :
    c.neighbour last pitch = leading c.key.classes last pitch := by
  rw [(neighbour_eq hk hc last hpitch).1]
  exact (nearestIn_eq_iff hk.ne_nil hk.range).mpr (isNearest_leading hpitch.mem)

/-! ## 2. Strokes -/

/-- A stroke that leads from a last pitch into the main note that starts a tick later. -/
structure LeadsInto (c : Composer Int) (last : Int) (a main : Stroke Note) : Prop where
  kinds : a.kind = .approach ∧ main.kind = .main
  start : main.note.start = a.note.start + 1
  mem : main.note.pitch % 12 ∈ c.key.classes
  pitch : a.note.pitch = leading c.key.classes last main.note.pitch

/-- Strokes from one last pitch to another: each main note and each fill is the last pitch for what
    comes behind it, and a stroke that leads in stands between a last pitch and its main note. -/
inductive Sings (c : Composer Int) : Option Int → List (Stroke Note) → Option Int → Prop
  | nil {last : Option Int} : Sings c last [] last
  | plain {last last' : Option Int} {s : Stroke Note} {rest : List (Stroke Note)}
      (hs : s.kind ≠ .approach) (h : Sings c (some s.note.pitch) rest last') :
      Sings c last (s :: rest) last'
  | led {last : Int} {last' : Option Int} {a main : Stroke Note} {rest : List (Stroke Note)}
      (hlead : c.LeadsInto last a main) (h : Sings c (some main.note.pitch) rest last') :
      Sings c (some last) (a :: main :: rest) last'

namespace Sings

variable {last last' last'' : Option Int} {strokes more : List (Stroke Note)}

theorem append (h : c.Sings last strokes last') (h' : c.Sings last' more last'') :
    c.Sings last (strokes ++ more) last'' := by
  induction h with
  | nil => exact h'
  | plain hs _ ih => exact .plain hs (ih h')
  | led hlead _ ih => exact .led hlead (ih h')

/-- The last pitch is that of the last main note or fill. -/
theorem last_eq (h : c.Sings last strokes last') :
    last' = (last.toList ++ sung strokes).getLast? := by
  induction h with
  | @nil last => cases last <;> rfl
  | @plain last _ s rest hs _ ih =>
    have hsung : sung (s :: rest) = s.note.pitch :: sung rest := by simp [sung, hs]
    rw [ih, hsung, List.getLast?_append_cons]
    rfl
  | @led last _ a main rest hlead _ ih =>
    have hsung : sung (a :: main :: rest) = main.note.pitch :: sung rest := by
      simp [sung, hlead.kinds]
    rw [ih, hsung, List.getLast?_append_cons]
    rfl

/-- **A stroke that leads in has its main note behind it** and a last pitch before it. -/
theorem leadsInto {before after : List (Stroke Note)} {a : Stroke Note}
    (h : c.Sings last (before ++ a :: after) last') (ha : a.kind = .approach) :
    ∃ (q : Int) (main : Stroke Note) (rest : List (Stroke Note)),
      c.Sings last before (some q) ∧ after = main :: rest ∧ c.LeadsInto q a main := by
  generalize hall : before ++ a :: after = strokes at h
  induction h generalizing before with
  | nil => simp at hall
  | plain hs _ ih =>
    cases before with
    | nil =>
      obtain ⟨rfl, -⟩ := List.cons.inj hall
      exact absurd ha hs
    | cons s before =>
      simp only [List.cons_append, List.cons.injEq] at hall
      obtain ⟨rfl, hall⟩ := hall
      obtain ⟨q, main, rest, hbefore, hafter, hlead⟩ := ih hall
      exact ⟨q, main, rest, .plain hs hbefore, hafter, hlead⟩
  | @led q _ b main rest hlead _ ih =>
    cases before with
    | nil =>
      obtain ⟨rfl, rfl⟩ := List.cons.inj hall
      exact ⟨q, main, rest, .nil, rfl, hlead⟩
    | cons s before =>
      simp only [List.cons_append, List.cons.injEq] at hall
      obtain ⟨rfl, hall⟩ := hall
      cases before with
      | nil =>
        -- behind a stroke that leads in there is a main note, which does not lead in itself
        obtain ⟨rfl, -⟩ := List.cons.inj hall
        rw [hlead.kinds.2] at ha
        cases ha
      | cons t before =>
        simp only [List.cons_append, List.cons.injEq] at hall
        obtain ⟨rfl, hall⟩ := hall
        obtain ⟨q', main', rest', hbefore, hafter, hlead'⟩ := ih hall
        exact ⟨q', main', rest', .led hlead hbefore, hafter, hlead'⟩

end Sings

/-! ## 3. Slots -/

/-- A line whose strokes go from no pitch to its last one. -/
def Line.Sings (c : Composer Int) (line : Line Note Int) : Prop :=
  c.Sings none line.strokes.toList line.last

/-- A line with one more fill or main note, which becomes its last pitch. -/
theorem Line.Sings.push {line : Line Note Int} (h : line.Sings c) (kind : StrokeKind)
    (hkind : kind ≠ .approach) (n : Note) :
    ({ line with strokes := line.strokes.push ⟨kind, n⟩, last := some n.pitch } : Line Note Int).Sings
      c := by
  unfold Line.Sings
  simp only [Array.toList_push]
  exact Composer.Sings.append h (.plain hkind .nil)

/-- A line with one more main note and the stroke that leads into it. -/
theorem Line.Sings.push_led {line : Line Note Int} (h : line.Sings c) {last : Int}
    (hlast : line.last = some last) {a main : Note}
    (hlead : c.LeadsInto last ⟨.approach, a⟩ ⟨.main, main⟩) :
    ({ line with
        strokes := (line.strokes.push ⟨.approach, a⟩).push ⟨.main, main⟩
        last := some main.pitch } : Line Note Int).Sings c := by
  unfold Line.Sings at h ⊢
  rw [hlast] at h
  simp only [Array.toList_push, List.append_assoc]
  exact h.append (.led hlead .nil)

/-- A next pitch is a placed one. -/
theorem ensures_placed_nextPitch {P : Int → Prop} (hP : ∀ pitch, P (c.place pitch))
    (last : Option Int) (pc : Int) : Ensures (c.nextPitch src last pc) P := by
  cases last with
  | none => exact .bind_any fun _ => .pure (hP _)
  | some last => exact .bind_any fun pitch => .bind_any fun _ => .pure (hP _)

theorem ensures_sings_fill {bar : Bar Int} {step : Nat} {pc : Int} {loudness : Float}
    {line : Line Note Int} (h : line.Sings c) :
    Ensures (c.fill src bar step pc loudness line) (Line.Sings c) := by
  unfold fill
  refine .ite (fun _ => .pure h) fun _ => .bind_any fun skipped => ?_
  refine .ite (fun _ => .pure h) fun _ => .bind_any fun nudge => .bind_any fun pitch => ?_
  refine (Ensures.ofExcept fun line' => of_push_eq_ok).bind fun line' hline' => .pure ?_
  obtain ⟨n, rfl, -, rfl⟩ := hline'
  exact h.push .fill nofun n

theorem ensures_sings_fills {bar : Bar Int} {slot : Slot} {pc : Int} {loudness : Float}
    {line : Line Note Int} (h : line.Sings c) :
    Ensures (c.fills src bar slot pc loudness line) (Line.Sings c) := by
  unfold fills
  refine .bind_any fun filled => .ite (fun _ => ?_) fun _ => .pure h
  exact (ensures_sings_fill h).bind fun line₁ h₁ => ensures_sings_fill h₁

/-- **A slot that sounds adds a main note and perhaps a stroke that leads into it**, and fills behind
    them. -/
theorem ensures_sings_soundSlot (hk : c.key.Sound) (hc : c.Roomy) {bar : Bar Int} {i : Nat}
    {slot : Slot} {line : Line Note Int} (h : line.Sings c) :
    Ensures (c.soundSlot src bar i slot line) (Line.Sings c) := by
  unfold soundSlot
  refine .bind_any ?_
  intro (pc, motif)
  refine (ensures_placed_nextPitch (fun pitch => (place_eq hk hc pitch).2) _ _).bind ?_
  intro pitch hpitch
  refine (ensures_neighbour_approach line.last pitch).bind fun approach happroach => ?_
  refine .bind_any fun length => .bind_any fun loudness => ?_
  refine ensures_stroke_leadIn.bind fun line₁ hled => ?_
  refine (Ensures.ofExcept fun line' => of_push_eq_ok).bind fun line₂ hmain => ?_
  refine ensures_sings_fills ?_
  obtain ⟨main, rfl, hstart, rfl⟩ := hmain
  have hmotif : ({ line with motif } : Line Note Int).Sings c := h
  rcases hled with rfl | ⟨a, ha, hbefore, rfl⟩
  · exact hmotif.push .main nofun main
  · obtain ⟨last, hlast, hneighbour⟩ := happroach _ ha
    refine hmotif.push_led hlast ⟨⟨rfl, rfl⟩, ?_, hpitch.mem, ?_⟩
    · rw [Int.cast_id] at hstart
      dsimp only
      omega
    · rw [← neighbour_eq_leading hk hc last hpitch]
      exact hneighbour

end Composer

/-! ## 4. Phrases -/

/-- **Where a note that leads in differs from the note it leads into.** Settings that are admitted have
    a composer over every progression. If the register stays clear of the ends of the range of notes,
    then in every phrase, whatever is drawn for it and whatever motif it is written from, a stroke
    that leads in has a main note right behind it, one tick later, and a main note or a fill before
    it. It has another pitch than this main note exactly where the scale has a neighbour: the
    semitone below the main note where the line does not fall, and the semitone or the whole tone
    above it where it falls. A phrase that does not go past the last bar is written. -/
theorem approaches_lead_in {r : Registry} (hr : r.Reachable) {p : Params Int} (hp : p.Admitted r)
    (entries : List Entry) :
    ∃ c : Composer Int, (composerFor r p entries).outcome = .ok c ∧ c.params = p
      ∧ (c.Roomy → ∀ (σ : Type) (src : Source σ) (role : Role) (first count : Int)
          (motif motif' : Motif) (notes : List Note) (s s' : σ),
        (c.writePhrase src first count role motif).run s = (.ok (notes, motif'), s') →
        ∃ line : Composer.Line Note Int,
          (c.writeBars src role motif ((c.barsFrom first).take count.toNat)).run s = (.ok line, s')
            ∧ notes = line.strokes.toList.map (·.note)
            ∧ ∀ before a after, line.strokes.toList = before ++ a :: after → a.kind = .approach →
              ∃ last main rest, (Composer.sung before).getLast? = some last ∧ after = main :: rest
                ∧ c.LeadsInto last a main
                ∧ (a.note.pitch ≠ main.note.pitch
                  ↔ HasNeighbour c.key.classes last main.note.pitch))
      ∧ ∀ (σ : Type) (src : Source σ), src.AlwaysPicks → ∀ (role : Role) (first count : Nat)
          (motif : Motif) (s : σ), motif.Sound → first + count ≤ (barChords entries).length →
        ∃ (written : List Note × Motif) (s' : σ),
          (c.writePhrase src first count role motif).run s = (.ok written, s') := by
  obtain ⟨k, hc, hk⟩ := exists_composer hr hp entries
  refine ⟨⟨p, k, barChords entries⟩, hc, rfl, ?_, ?_⟩
  · intro hroomy σ src role first count motif motif' notes s s' hrun
    obtain ⟨line, hline, hnotes, -⟩ := Composer.of_writePhrase_eq_ok hrun
    have hsings : line.Sings ⟨p, k, barChords entries⟩ := Composer.ensures_writeBars
      (fun _ _ _ _ => Composer.ensures_sings_soundSlot hk hroomy) Composer.Sings.nil
      s line (congrArg Prod.fst hline)
    refine ⟨line, hline, hnotes, fun before a after hstrokes ha => ?_⟩
    unfold Composer.Line.Sings at hsings
    rw [hstrokes] at hsings
    obtain ⟨last, main, rest, hbefore, hafter, hlead⟩ := hsings.leadsInto ha
    refine ⟨last, main, rest, hbefore.last_eq.symm, hafter, hlead, ?_⟩
    rw [hlead.pitch]
    exact leading_ne_iff
  · intro σ src hsrc role first count motif s hmotif hwithin
    exact Composer.exists_writePhrase hsrc hwithin role hmotif s

/-- The kinds, the pitches and the starts of the first three strokes of a line. -/
def Composer.Line.opening (line : Composer.Line Note Int) : List (StrokeKind × Int × Int) :=
  (line.strokes.toList.take 3).map fun s => (s.kind, s.note.pitch, s.note.start)

/-- A bar whose second main note is led into, from a source that always gives the same number. -/
theorem Composer.exists_opening (c : Composer Int) (p q : Int) (hone : 0 + 1 ≤ c.bars.length)
    (hopening : ((c.writeBars (Source.fixed 0.2) .question {}
        ((c.barsFrom 0).take 1)).run ()).1.toOption.map Line.opening
      = some [(.main, p, 0), (.approach, q, 1), (.main, p, 2)]) :
    ∃ (notes : List Note) (motif : Motif) (line : Line Note Int) (first a main : Stroke Note)
      (rest : List (Stroke Note)),
      (c.writePhrase (Source.fixed 0.2) 0 1 .question {}).run () = (.ok (notes, motif), ())
        ∧ (c.writeBars (Source.fixed 0.2) .question {} ((c.barsFrom 0).take 1)).run ()
          = (.ok line, ())
        ∧ notes = line.strokes.toList.map (·.note)
        ∧ line.strokes.toList = first :: a :: main :: rest
        ∧ a.kind = .approach ∧ main.kind = .main ∧ main.note.start = a.note.start + 1
        ∧ a.note.pitch = q ∧ main.note.pitch = p := by
  obtain ⟨⟨notes, motif⟩, s', hrun⟩ := exists_writePhrase (Source.alwaysPicks_fixed 0.2) hone
    .question Motif.sound_empty ()
  obtain ⟨line, hline, hnotes, -⟩ := of_writePhrase_eq_ok hrun
  have hline : (c.writeBars (Source.fixed 0.2) .question {} ((c.barsFrom 0).take 1)).run ()
      = (.ok line, s') := hline
  rw [hline] at hopening
  have hstrokes := Option.some.inj hopening
  unfold Line.opening at hstrokes
  match hlist : line.strokes.toList with
  | [] => simp [hlist] at hstrokes
  | [_] => simp [hlist] at hstrokes
  | [_, _] => simp [hlist] at hstrokes
  | first :: a :: main :: rest =>
    simp only [hlist, List.take_succ_cons, List.take_zero, List.map_cons, List.map_nil,
      List.cons.injEq, Prod.mk.injEq, and_true] at hstrokes
    obtain ⟨-, ⟨hkind, hpitch, hstart⟩, hkind', hpitch', hstart'⟩ := hstrokes
    exact ⟨notes, motif, line, first, a, main, rest, hrun, hline, hnotes, hlist, hkind, hkind',
      by omega, hpitch, hpitch'⟩

/-- A bar of C major, with the settings from the start: the second note is led into from the B
    below it. -/
theorem approaches_lead_in_from_below :
    ∃ c : Composer Int,
      (composerFor Registry.builtin Params.start [⟨['C'], 1, by decide⟩]).outcome = .ok c
        ∧ c.Roomy ∧ ∃ (line : Composer.Line Note Int) (last : Int) (a main : Stroke Note),
          (c.writeBars (Source.fixed 0.2) .question {} ((c.barsFrom 0).take 1)).run ()
              = (.ok line, ())
            ∧ [a, main] <:+: line.strokes.toList ∧ c.LeadsInto last a main
            ∧ a.note.pitch ≠ main.note.pitch
            ∧ HasNeighbour c.key.classes last main.note.pitch := by
  obtain ⟨c, hc, -, hphrases, -⟩ := approaches_lead_in .builtin
    (Params.admitted_start Registry.builtin) [⟨['C'], 1, by decide⟩]
  have hkey : (Params.start.key Registry.builtin (barChords [⟨['C'], 1, by decide⟩])).toOption
      = some ⟨0, "ionian", [0, 2, 4, 5, 7, 9, 11]⟩ := by decide +kernel
  obtain rfl : _ = c :=
    Except.ok.inj ((composerFor_eq_ok (toOption_eq_some.mp hkey)).symm.trans hc)
  obtain ⟨notes, motif, line, first, a, main, rest, hrun, hline, -, hstrokes, hkind, -, -, hbelow,
    habove⟩ := Composer.exists_opening ⟨Params.start, ⟨0, "ionian", [0, 2, 4, 5, 7, 9, 11]⟩,
      barChords [⟨['C'], 1, by decide⟩]⟩ 60 59 (by decide +kernel) (by decide +kernel)
  obtain ⟨line', hline', -, hleads⟩ := hphrases ⟨by decide, by decide⟩ Unit _ _ _ _ _ _ _ _ _ hrun
  obtain rfl := Except.ok.inj (congrArg Prod.fst (hline'.symm.trans hline))
  obtain ⟨last, main', rest', -, hafter, hlead, hne⟩ := hleads [first] a (main :: rest) hstrokes hkind
  obtain ⟨rfl, -⟩ := List.cons.inj hafter
  have hapart : a.note.pitch ≠ main.note.pitch := by omega
  refine ⟨_, hc, ⟨by decide, by decide⟩, line', last, a, main, hline, ?_, hlead, hapart,
    hne.mp hapart⟩
  exact ⟨[first], rest, hstrokes.symm⟩

/-- A bar of D minor, with the settings from the start: the stroke that leads into the second note
    has the pitch of this note, since no pitch of the scale is a semitone below it and of the two a
    semitone away it is the upper one. -/
theorem approaches_repeat :
    Params.start.Admitted Registry.builtin ∧ ∃ c : Composer Int,
      (composerFor Registry.builtin Params.start [⟨['D', 'm'], 1, by decide⟩]).outcome = .ok c
        ∧ c.Roomy ∧ c.key.classes = [2, 4, 5, 7, 9, 10, 0]
        ∧ ∃ (notes : List Note) (motif : Motif) (line : Composer.Line Note Int),
          (c.writePhrase (Source.fixed 0.2) 0 1 .question {}).run () = (.ok (notes, motif), ())
            ∧ (c.writeBars (Source.fixed 0.2) .question {} ((c.barsFrom 0).take 1)).run ()
              = (.ok line, ())
            ∧ notes = line.strokes.toList.map (·.note)
            ∧ ∃ a main, [a, main] <:+: line.strokes.toList ∧ a.kind = .approach ∧ main.kind = .main
              ∧ main.note.start = a.note.start + 1 ∧ a.note.pitch = main.note.pitch := by
  have hkey : (Params.start.key Registry.builtin (barChords [⟨['D', 'm'], 1, by decide⟩])).toOption
      = some ⟨2, "aeolian", [2, 4, 5, 7, 9, 10, 0]⟩ := by decide +kernel
  refine ⟨Params.admitted_start _, _, composerFor_eq_ok (toOption_eq_some.mp hkey),
    ⟨by decide, by decide⟩, rfl, ?_⟩
  obtain ⟨notes, motif, line, first, a, main, rest, hrun, hline, hnotes, hstrokes, hkind, hmain,
    hstart, hpitch, hpitch'⟩ :=
    Composer.exists_opening ⟨Params.start, ⟨2, "aeolian", [2, 4, 5, 7, 9, 10, 0]⟩,
      barChords [⟨['D', 'm'], 1, by decide⟩]⟩ 62 62 (by decide +kernel) (by decide +kernel)
  refine ⟨notes, motif, line, hrun, hline, hnotes, a, main, ?_, hkind, hmain, hstart, ?_⟩
  · exact ⟨[first], rest, hstrokes.symm⟩
  · rw [hpitch, hpitch']

end Cantilena
