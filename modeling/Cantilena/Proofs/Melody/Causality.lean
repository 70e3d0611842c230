import Cantilena.Proofs.Melody.Shape

/-!
# Bars that follow

What is drawn for the bars of a progression does not depend on the bars behind them, so a melody
over a progression is the beginning of every melody over one that starts the same way.

* `thin_append`, `loudestPerTick_append` -- rows of notes one after the other are thinned one by
  one;
* `GoesOn` -- from every state a drawing has what another has, and more behind it;
* `Composer.goesOn_writePhrases` -- the strokes over more bars go on with those over some;
* `compose_causal` -- a melody goes on with the melody over the first part of its progression.
-/

namespace Cantilena

/-! ## 1. Rows of notes one after the other -/

/-- Rows of notes of which one ends before the other starts are thinned one by one. -/
theorem thin_append {l m : List Note} (h : ∀ a ∈ l, ∀ b ∈ m, a.start < b.start) :
    thin (l ++ m) = thin l ++ thin m := by
  fun_induction thin l with
  | case1 => rfl
  | case2 a =>
    cases m with
    | nil => rw [List.append_nil, thin, thin, List.append_nil]
    | cons b m =>
      have hne : ¬ (Event.start a == Event.start b) = true := fun he =>
        Int.ne_of_lt (h a List.mem_cons_self b List.mem_cons_self) (beq_iff_eq.mp he)
      show thin (a :: b :: m) = a :: thin (b :: m)
      rw [thin, if_neg hne]
  | case3 a b rest heq ih =>
    rw [dite_eq_ite] at ih
    show thin (a :: b :: (rest ++ m)) = _
    rw [thin, if_pos heq]
    refine ih fun n hn => h n ?_
    rcases List.mem_cons.mp hn with rfl | hn
    · split
      · exact List.mem_cons_of_mem _ List.mem_cons_self
      · exact List.mem_cons_self
    · exact List.mem_cons_of_mem _ (List.mem_cons_of_mem _ hn)
  | case4 a b rest hne ih =>
    show thin (a :: b :: (rest ++ m)) = _
    rw [thin, if_neg hne]
    exact congrArg (a :: ·) (ih fun n hn => h n (List.mem_cons_of_mem _ hn))

/-- Of rows of notes of which one ends before the other starts the loudest are found one by one. -/
theorem loudestPerTick_append {l m : List Note} (h : ∀ a ∈ l, ∀ b ∈ m, a.start < b.start) :
    loudestPerTick (l ++ m) = loudestPerTick l ++ loudestPerTick m := by
  unfold loudestPerTick byStart
  rw [order_startsBy.mergeSort_append fun a ha b hb => startsBy_iff.mpr (Int.le_of_lt (h a ha b hb))]
  exact thin_append fun a ha b hb => h a (List.mem_mergeSort.mp ha) b (List.mem_mergeSort.mp hb)

/-! ## 2. Drawings that go on -/

section

variable {σ α β : Type}

/-- From every state of chance a drawing has a result, another drawing has the same and more behind
    it, and the result and what is behind it are related. -/
def GoesOn (d e : Drawing σ (List α)) (R : List α → List α → Prop) : Prop :=
  ∀ s, ∃ l s₁ more s₂, d.run s = (.ok l, s₁) ∧ e.run s = (.ok (l ++ more), s₂) ∧ R l more

namespace GoesOn

variable {R : List α → List α → Prop}

/-- A drawing goes on with a result that is fixed. -/
theorem pure {e : Drawing σ (List α)} {l : List α}
    (h : Yields e fun all => ∃ more, all = l ++ more ∧ R l more) : GoesOn (Pure.pure l) e R := by
  intro s
  obtain ⟨all, s₂, hrun, more, rfl, hmore⟩ := h s
  exact ⟨l, s, more, s₂, rfl, hrun, hmore⟩

/-- **Drawings that start with the same steps go on as they do behind them.** -/
theorem bind {d : Drawing σ β} {f g : β → Drawing σ (List α)} {P : β → Prop} (hd : Yields d P)
    (h : ∀ b, P b → GoesOn (f b) (g b) R) : GoesOn (d >>= f) (d >>= g) R := by
  intro s
  obtain ⟨b, s₀, hrun, hb⟩ := hd s
  obtain ⟨l, s₁, more, s₂, hf, hg, hmore⟩ := h b hb s₀
  refine ⟨l, s₁, more, s₂, ?_, ?_, hmore⟩
  · rw [run_bind_of_ok hrun, hf]
  · rw [run_bind_of_ok hrun, hg]

/-- What is put in front of both results stays in front. -/
theorem prepend {d e : Drawing σ (List α)} {R' : List α → List α → Prop} {first : List α}
    (h : GoesOn d e R) (hR : ∀ l more, R l more → R' (first ++ l) more) :
    GoesOn (d >>= fun l => Pure.pure (first ++ l)) (e >>= fun l => Pure.pure (first ++ l)) R' := by
  intro s
  obtain ⟨l, s₁, more, s₂, hd, he, hmore⟩ := h s
  refine ⟨first ++ l, s₁, more, s₂, ?_, ?_, hR l more hmore⟩
  · rw [run_bind_of_ok hd]
    rfl
  · rw [run_bind_of_ok he, List.append_assoc]
    rfl

end GoesOn

end

/-! ## 3. Phrases -/

namespace Composer

variable {σ : Type} {src : Source σ} {c : Composer Int} {P : Int → Prop}

/-- The strokes of bars do not depend on the bars of the composer. -/
theorem writePhrases_bars (src : Source σ) (p : Params Int) (k : Key)
    (bars bars' : List (Option Chord)) (index first : Nat) (motif : Motif)
    (l : List (Option Chord)) :
    ((⟨p, k, bars⟩ : Composer Int).writePhrases src index first motif l
        : Drawing σ (List (Stroke Note)))
      = (⟨p, k, bars'⟩ : Composer Int).writePhrases src index first motif l := by
  induction hl : l.length using Nat.strongRecOn generalizing index first motif l with
  | ind n ih =>
    cases l with
    | nil => rw [writePhrases, writePhrases]
    | cons bar rest =>
      rw [writePhrases_cons, writePhrases_cons]
      refine bind_congr fun line => ?_
      have hshorter : (rest.drop (moreBars ⟨p, k, bars⟩)).length < n := by
        rw [List.length_drop]
        rw [List.length_cons] at hl
        omega
      rw [ih _ hshorter _ _ _ _ rfl]
      rfl

/-- A phrase over bars and others behind them goes on from the line of the first bars. -/
theorem writeBars_append (src : Source σ) (c : Composer Int) (role : Role) (motif : Motif)
    (bars others : List (Option Chord × Int)) :
    (c.writeBars src role motif (bars ++ others) : Drawing σ (Line Note Int))
      = c.writeBars src role motif bars >>= fun line =>
          others.foldlM (c.writeBar src role) line :=
  List.foldlM_append

/-- **The strokes over more bars go on with those over some**, also where a phrase is cut off, and
    both parts fall into rows, one for each of their bars. -/
theorem goesOn_writePhrases (hsrc : src.AlwaysPicks) (hP : c.Keeps P) {index first : Nat}
    {motif : Motif} {bars : List (Option Chord)} (others : List (Option Chord))
    (hmotif : motif.Sound) :
    GoesOn (c.writePhrases src index first motif bars : Drawing σ (List (Stroke Note)))
      (c.writePhrases src index first motif (bars ++ others)) fun strokes more =>
        c.Rows P (numbered first bars) strokes
          ∧ c.Rows P (numbered (first + bars.length : Nat) others) more := by
  induction hl : bars.length using Nat.strongRecOn generalizing index first motif bars with
  | ind n ih =>
    subst hl
    cases bars with
    | nil =>
      rw [writePhrases, List.nil_append]
      refine .pure ((yields_writePhrases hsrc hP hmotif).mono fun all hall => ?_)
      exact ⟨all, rfl, .nil, hall⟩
    | cons bar rest =>
      rw [List.cons_append, writePhrases_cons, writePhrases_cons]
      dsimp only
      have hbars (start : Nat) (l : List (Option Chord)) : ∀ bar' ∈ numbered start l, 0 ≤ bar'.2 :=
        fun bar' h => Int.le_trans (Int.natCast_nonneg start) (mem_numbered h).1
      have hsplit := numbered_take_drop first (c.moreBars + 1) (bar :: rest)
      rw [List.take_succ_cons, List.drop_succ_cons] at hsplit
      rcases Nat.le_total c.moreBars rest.length with hle | hle
      · -- the first phrase is the same
        rw [List.take_append_of_le_length hle, List.drop_append_of_le_length hle]
        refine .bind (yields_writeBars hsrc hP (hbars first _) hmotif) fun line hline => ?_
        have hshorter : (rest.drop c.moreBars).length < (bar :: rest).length := by
          rw [List.length_drop, List.length_cons]
          omega
        refine (ih _ hshorter hline.1 rfl).prepend fun strokes more hrows => ⟨?_, ?_⟩
        · rw [hsplit]
          exact hline.2.append hrows.1
        · have hlength : first + (numbered first (bar :: rest.take c.moreBars)).length
              + (rest.drop c.moreBars).length = first + (bar :: rest).length := by
            rw [length_numbered, List.length_cons, List.length_take, List.length_drop,
              List.length_cons]
            omega
          rw [← hlength]
          exact hrows.2
      · -- the first phrase is cut off where the first bars end
        rw [List.take_of_length_le hle, List.drop_eq_nil_of_le hle, List.take_append, List.drop_append,
          List.take_of_length_le hle, List.drop_eq_nil_of_le hle, List.nil_append]
        generalize c.moreBars - rest.length = cut
        rw [← List.cons_append, numbered_append, writeBars_append, bind_assoc]
        refine .bind (yields_bars hsrc hP (hbars first _) (Line.ready_start hmotif)) fun line hline => ?_
        obtain ⟨hready, row, hrow, hrows⟩ := hline
        rw [writePhrases, pure_bind, List.append_nil]
        rw [← Int.natCast_add, List.length_append, length_numbered, ← Nat.add_assoc]
        refine .pure ((yields_bars hsrc hP (hbars _ _) hready).bind fun line' hline' => ?_)
        obtain ⟨hready', row', hrow', hrows'⟩ := hline'
        refine (yields_writePhrases hsrc hP hready'.motif).bind fun added hadded => .pure ?_
        refine ⟨row' ++ added, ?_, ?_, ?_⟩
        · rw [hrow', List.append_assoc]
        · rw [hrow]
          exact hrows
        · rw [numbered_take_drop _ cut others]
          exact hrows'.append hadded

/-- **The strokes over more bars go on with those over some.** -/
theorem goesOn_compose (hsrc : src.AlwaysPicks) (hP : c.Keeps P) (others : List (Option Chord)) :
    GoesOn (c.compose src)
      (({ c with bars := c.bars ++ others } : Composer Int).compose src)
      fun (notes more : List Note) => (∀ n ∈ notes, n.start < c.tickOfBar c.bars.length)
          ∧ ∀ n ∈ more, c.tickOfBar c.bars.length ≤ n.start := by
  intro s
  have hgoes : GoesOn (c.writePhrases src 0 0 {} c.bars : Drawing σ (List (Stroke Note))) _ _ :=
    goesOn_writePhrases hsrc hP others Motif.sound_empty
  obtain ⟨strokes, s₁, more, s₂, hrun, hrunMore, hrows, hrowsMore⟩ := hgoes s
  have hends : ∀ n ∈ strokes.map (·.note), n.start < c.tickOfBar c.bars.length := by
    intro n hn
    obtain ⟨stroke, hstroke, rfl⟩ := List.mem_map.mp hn
    obtain ⟨bar, hbar, hshaped⟩ := hrows.exists_bar hstroke
    have hnumber := (mem_numbered hbar).2
    exact Int.lt_of_lt_of_le hshaped.start_lt (c.tickOfBar_mono (by omega))
  have hstarts : ∀ n ∈ more.map (·.note), c.tickOfBar c.bars.length ≤ n.start := by
    intro n hn
    obtain ⟨stroke, hstroke, rfl⟩ := List.mem_map.mp hn
    obtain ⟨bar, hbar, hshaped⟩ := hrowsMore.exists_bar hstroke
    have hnumber := (mem_numbered hbar).1
    exact Int.le_trans (c.tickOfBar_mono (by omega)) hshaped.start_ge
  refine ⟨loudestPerTick (strokes.map (·.note)), s₁, loudestPerTick (more.map (·.note)), s₂,
    ?_, ?_, ?_, ?_⟩
  · exact run_bind_of_ok hrun
  · have hstrokes : (({ c with bars := c.bars ++ others } : Composer Int).strokes src).run s
        = (.ok (strokes ++ more), s₂) := by
      rw [← hrunMore]
      exact congrArg (·.run s) (writePhrases_bars src c.params c.key _ c.bars 0 0 {} _)
    refine (run_bind_of_ok hstrokes).trans ?_
    rw [List.map_append, loudestPerTick_append fun a ha b hb =>
      Int.lt_of_lt_of_le (hends a ha) (hstarts b hb)]
    rfl
  · exact fun n hn => hends n (mem_of_mem_loudestPerTick hn)
  · exact fun n hn => hstarts n (mem_of_mem_loudestPerTick hn)

end Composer

/-! ## 4. Progressions -/

/-- The key depends on the first bar only. -/
theorem Params.key_append {p : Params Int} {r : Registry} {bars : List (Option Chord)}
    (hne : bars ≠ []) (others : List (Option Chord)) : p.key r (bars ++ others) = p.key r bars := by
  obtain ⟨first, rest, rfl⟩ := List.exists_cons_of_ne_nil hne
  rfl

theorem barChords_append (entries more : List Entry) :
    barChords (entries ++ more) = barChords entries ++ barChords more :=
  List.flatMap_append

/-- A progression that is not empty has a bar. -/
theorem barChords_ne_nil {entries : List Entry} (h : entries ≠ []) : barChords entries ≠ [] := by
  obtain ⟨first, rest, rfl⟩ := List.exists_cons_of_ne_nil h
  intro hnil
  have hlength := congrArg List.length hnil
  rw [length_barChords, List.map_cons, List.sum_cons] at hlength
  have hpos := first.bars_pos
  rw [List.length_nil] at hlength
  omega

/-- **A melody depends only on the bars that have gone by.** From the same state of chance a
    progression that is not empty and one that goes on from it both have a melody, and the second
    melody is the first with more notes behind it. The notes of the first start before the bar at
    which its progression ends, and the others not before it. -/
theorem compose_causal {σ : Type} {src : Source σ} (hsrc : src.AlwaysPicks) {r : Registry}
    (hr : r.Reachable) {p : Params Int} (hp : p.Admitted r) {entries : List Entry}
    (hne : entries ≠ []) (more : List Entry) :
    ∃ c c' : Composer Int, (composerFor r p entries).outcome = .ok c
      ∧ (composerFor r p (entries ++ more)).outcome = .ok c'
      ∧ ∀ s, ∃ (melody added : List Note) (s₁ s₂ : σ), (c.compose src).run s = (.ok melody, s₁)
        ∧ (c'.compose src).run s = (.ok (melody ++ added), s₂)
        ∧ (∀ n ∈ melody, n.start
            < (p.frame.startBar + (entries.map Entry.bars).sum) * p.frame.stepsPerBar)
        ∧ ∀ n ∈ added, (p.frame.startBar + (entries.map Entry.bars).sum) * p.frame.stepsPerBar
            ≤ n.start := by
  obtain ⟨k, hkey, -⟩ := Params.exists_key hr hp (barChords entries)
  have hkey' : p.key r (barChords (entries ++ more)) = .ok k := by
    rw [barChords_append, Params.key_append (barChords_ne_nil hne), hkey]
  refine ⟨_, _, composerFor_eq_ok hkey, composerFor_eq_ok hkey', fun s => ?_⟩
  obtain ⟨melody, s₁, added, s₂, hrun, hrun', hends, hstarts⟩ :=
    Composer.goesOn_compose hsrc (c := ⟨p, k, barChords entries⟩) (Composer.keeps_range _)
      (barChords more) s
  have htick : Composer.tickOfBar ⟨p, k, barChords entries⟩ (barChords entries).length
      = (p.frame.startBar + (entries.map Entry.bars).sum) * p.frame.stepsPerBar := by
    rw [length_barChords]
    rfl
  rw [htick] at hends hstarts
  rw [barChords_append]
  exact ⟨melody, added, s₁, s₂, hrun, hrun', hends, hstarts⟩

/-- The composer of a bar of C major behind two of A minor. -/
def Composer.startOn : Composer Int where
  params := .start
  key := Composer.start.key
  bars := Composer.start.bars ++ [some { root := 0 }]

theorem composerFor_startOn :
    (composerFor Registry.builtin Params.start
      [⟨['A', 'm'], 2, by decide⟩, ⟨['C'], 1, by decide⟩]).outcome = .ok Composer.startOn :=
  composerFor_eq_ok (toOption_eq_some.mp (by decide +kernel))

theorem firstTicks_startOn : Composer.startOn.firstTicks (Source.fixed 0.5) ()
    = some [0, 2, 4, 6, 8, 10, 12, 16, 18, 20, 22, 24, 26, 28, 32, 34, 36, 38, 40, 42, 44] := by
  decide +kernel

/-- A third bar behind two of A minor, in the phrase that those leave unfinished: the first two bars
    have a note at the start of the second, and the notes added one at the start of the third. -/
theorem compose_causal_start :
    ∃ c c' : Composer Int,
      (composerFor Registry.builtin Params.start [⟨['A', 'm'], 2, by decide⟩]).outcome = .ok c
        ∧ (composerFor Registry.builtin Params.start
          [⟨['A', 'm'], 2, by decide⟩, ⟨['C'], 1, by decide⟩]).outcome = .ok c'
        ∧ ∃ melody added : List Note, ((c.compose (Source.fixed 0.5)).run ()).1 = .ok melody
          ∧ ((c'.compose (Source.fixed 0.5)).run ()).1 = .ok (melody ++ added)
          ∧ (∀ n ∈ melody, n.start < 32) ∧ (∀ n ∈ added, 32 ≤ n.start)
          ∧ (∃ n ∈ melody, n.start = 16) ∧ ∃ n ∈ added, n.start = 32 := by
  obtain ⟨c, c', hc, hc', hruns⟩ := compose_causal (Source.alwaysPicks_fixed 0.5) .builtin
    (Params.admitted_start Registry.builtin)
    (List.cons_ne_nil (⟨['A', 'm'], 2, by decide⟩ : Entry) []) [⟨['C'], 1, by decide⟩]
  obtain rfl := Except.ok.inj (composerFor_start.symm.trans hc)
  obtain rfl := Except.ok.inj (composerFor_startOn.symm.trans hc')
  obtain ⟨melody, added, _, _, hrun, hrun', hends, hstarts⟩ := hruns ()
  have hsecond :=
    Composer.exists_note_of_firstTicks (by decide) firstTicks_start hrun 16 (by decide)
  obtain ⟨n, hn, hstart⟩ :=
    Composer.exists_note_of_firstTicks (by decide) firstTicks_startOn hrun' 32 (by decide)
  have hadded : n ∈ added := (List.mem_append.mp hn).resolve_left fun hmelody => by
    have hless : n.start < 32 := hends n hmelody
    omega
  exact ⟨_, _, hc, hc', melody, added, congrArg Prod.fst hrun, congrArg Prod.fst hrun', hends,
    hstarts, hsecond, n, hadded, hstart⟩

end Cantilena
