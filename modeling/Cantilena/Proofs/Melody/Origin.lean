import Cantilena.Proofs.Melody.Phrases

/-!
# Where the notes of a melody come from

Every note of a melody was written for one of its bars, by a run over this bar.

* `Yields.traced` -- a result together with the run that came to it;
* `Composer.Writes` -- a run over a bar writes a note;
* `Writes.shaped` -- what is written for a bar has the shape of a note of this bar;
* `Composer.yields_written` -- every note of a melody is written for one of its bars.
-/

namespace Cantilena

section

variable {σ α : Type} {d : Drawing σ α} {P : α → Prop}

/-- What holds of all results holds of the result of a run. -/
theorem Yields.of_run (h : Yields d P) {s s' : σ} {a : α} (hrun : d.run s = (.ok a, s')) : P a := by
  obtain ⟨b, s₁, hb, hP⟩ := h s
  obtain rfl : b = a := Except.ok.inj (congrArg Prod.fst (hb.symm.trans hrun))
  exact hP

/-- A result comes with the run that came to it. -/
theorem Yields.traced (h : Yields d P) :
    Yields d fun a => P a ∧ ∃ s s', d.run s = (.ok a, s') := by
  intro s
  obtain ⟨a, s', hrun, ha⟩ := h s
  exact ⟨a, s', hrun, ha, s, s', hrun⟩

end

namespace Composer

variable {σ : Type} {src : Source σ} {c : Composer Int}

/-- That a pitch is one of a note. -/
def InRange (pitch : Int) : Prop := 0 ≤ pitch ∧ pitch ≤ 127

/-- Some run over a bar, behind some line that can be gone on with, writes a note. -/
def Writes (src : Source σ) (c : Composer Int) (bar : Option Chord × Int) (n : Note) : Prop :=
  ∃ (role : Role) (line line' : Line Note Int) (s s' : σ), line.Ready InRange
    ∧ (c.writeBar src role line bar).run s = (.ok line', s')
    ∧ ∃ row, line'.strokes.toList = line.strokes.toList ++ row ∧ ∃ stroke ∈ row, stroke.note = n

/-- **What is written for a bar has the shape of a note of this bar.** -/
theorem Writes.shaped (hsrc : src.AlwaysPicks) {bar : Option Chord × Int} (hbar : 0 ≤ bar.2)
    {n : Note} (h : Writes src c bar n) : c.Shaped InRange bar.2 n := by
  obtain ⟨role, line, line', s, s', hline, hrun, row, hrow, stroke, hstroke, rfl⟩ := h
  have hline' := Yields.of_run (yields_writeBar hsrc c.keeps_range hbar hline) hrun
  obtain ⟨row', hrow', hshaped⟩ := hline'.strokes
  obtain rfl : row = row' := List.append_cancel_left (hrow.symm.trans hrow')
  exact hshaped stroke hstroke

/-- What a walk over bars adds is written for these bars. -/
theorem yields_bars_written (hsrc : src.AlwaysPicks) {role : Role}
    {bars : List (Option Chord × Int)} (hbars : ∀ bar ∈ bars, 0 ≤ bar.2) {line : Line Note Int}
    (hline : line.Ready InRange) :
    Yields (bars.foldlM (c.writeBar src role) line) fun line' => line'.Ready InRange
      ∧ ∃ added, line'.strokes.toList = line.strokes.toList ++ added
        ∧ ∀ stroke ∈ added, ∃ bar ∈ bars, Writes src c bar stroke.note := by
  induction bars generalizing line with
  | nil => exact .pure ⟨hline, [], (List.append_nil _).symm, fun _ h => absurd h List.not_mem_nil⟩
  | cons bar bars ih =>
    rw [List.foldlM_cons]
    have hwritten : Yields (c.writeBar src role line bar) _ :=
      yields_writeBar hsrc c.keeps_range (hbars bar List.mem_cons_self) hline
    refine hwritten.traced.bind fun line₁ ⟨h₁, s, s', hrun⟩ => ?_
    obtain ⟨row, hrow, -⟩ := h₁.strokes
    refine (ih (fun bar hbar => hbars bar (List.mem_cons_of_mem _ hbar)) h₁.toReady).mono ?_
    rintro line₂ ⟨h₂, added, hadded, horigin⟩
    refine ⟨h₂, row ++ added, ?_, fun stroke hstroke => ?_⟩
    · rw [hadded, hrow, List.append_assoc]
    · rcases List.mem_append.mp hstroke with hstroke | hstroke
      · exact ⟨bar, List.mem_cons_self, role, line, line₁, s, s', hline, hrun, row, hrow, stroke,
          hstroke, rfl⟩
      · obtain ⟨bar', hbar', hwrites⟩ := horigin stroke hstroke
        exact ⟨bar', List.mem_cons_of_mem _ hbar', hwrites⟩

/-- The notes of a phrase are written for the bars of the phrase. -/
theorem yields_writePhrase (hsrc : src.AlwaysPicks) {phrase : Phrase}
    (hfirst : phrase.first ≤ phrase.last) (hlast : phrase.last < c.bars.length) {motif : Motif}
    (hmotif : motif.Sound) :
    Yields (c.writePhrase src phrase.first phrase.count phrase.role motif
        : Drawing σ (List Note × Motif)) fun written => written.2.Sound
      ∧ ∀ n ∈ written.1, ∃ bar ∈ phrase.bars, Writes src c (c.bars.getD bar none, (bar : Int)) n := by
  have hwithin : phrase.first + phrase.count ≤ c.bars.length := by
    unfold Phrase.count
    omega
  rw [writePhrase_eq src c hwithin, numbered_eq_map c hwithin]
  refine (yields_bars_written hsrc (fun bar hbar => ?_) (Line.ready_start hmotif)).bind ?_
  · obtain ⟨number, -, rfl⟩ := List.mem_map.mp hbar
    exact Int.natCast_nonneg number
  · rintro line ⟨hline, added, hadded, horigin⟩
    refine .pure ⟨hline.motif, fun n hn => ?_⟩
    obtain ⟨stroke, hstroke, rfl⟩ := List.mem_map.mp hn
    rw [hadded] at hstroke
    obtain ⟨bar, hbar, hwrites⟩ := horigin stroke hstroke
    obtain ⟨number, hnumber, rfl⟩ := List.mem_map.mp hbar
    exact ⟨number, hnumber, hwrites⟩

/-- **Every note of a melody is written for one of its bars.** -/
theorem yields_written (hsrc : src.AlwaysPicks) :
    Yields (c.compose src) fun melody : List Note => ∀ n ∈ melody,
      ∃ bar < c.bars.length, Writes src c (c.bars.getD bar none, (bar : Int)) n := by
  have hphrases (phrases : List Phrase) (motif : Motif) (hmotif : motif.Sound)
      (hwithin : ∀ phrase ∈ phrases, phrase.first ≤ phrase.last ∧ phrase.last < c.bars.length) :
      Yields (c.writeAll src phrases motif) fun notes => ∀ n ∈ notes,
        ∃ bar < c.bars.length, Writes src c (c.bars.getD bar none, (bar : Int)) n := by
    induction phrases generalizing motif with
    | nil => exact .pure fun _ h => absurd h List.not_mem_nil
    | cons phrase phrases ih =>
      obtain ⟨hfirst, hlast⟩ := hwithin phrase List.mem_cons_self
      refine (yields_writePhrase hsrc hfirst hlast hmotif).bind fun ⟨notes, motif'⟩ h => ?_
      obtain ⟨hmotif', horigin⟩ := h
      refine (ih motif' hmotif' fun p hp => hwithin p (List.mem_cons_of_mem _ hp)).bind ?_
      refine fun others hothers => .pure fun n hn => ?_
      rcases List.mem_append.mp hn with hn | hn
      · obtain ⟨bar, hbar, hwrites⟩ := horigin n hn
        have hrange := List.mem_range'_1.mp hbar
        unfold Phrase.count at hrange
        exact ⟨bar, by omega, hwrites⟩
      · exact hothers n hn
  rw [compose_eq_writeAll]
  have hall := hphrases
    (phrasesFrom c.params.frame.barsPerPhrase.toNat 0 0 c.bars.length) {} Motif.sound_empty
    fun phrase h => by
      have := mem_phrasesFrom h
      omega
  rw [← bind_pure_comp]
  refine hall.bind fun notes hnotes => .pure fun n hn => ?_
  exact hnotes n (mem_of_mem_loudestPerTick hn)

end Composer

end Cantilena
