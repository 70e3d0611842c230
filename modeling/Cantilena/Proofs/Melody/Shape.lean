import Cantilena.Melody
import Cantilena.Proofs.Melody.Writing
import Cantilena.Proofs.Note.Order
import Cantilena.Proofs.Random.Results

/-!
# The shape of a melody

* `thin_pairwise`, `mem_of_mem_thin`, `exists_mem_thin` -- of notes by start one is left on each
  tick, none is new, and none is softer than another on its tick;
* `thin_map` -- notes that are mapped to others are thinned as they were;
* `Composer.writePhrases_cons` -- the first phrase of some bars, and the phrases behind it;
* `Composer.yields_strokes` -- the strokes of a melody fall into rows, one for each bar;
* `Composer.exists_note_of_firstTicks` -- where the first phrase strikes, the melody has a note;
* `exists_composer` -- settings that are admitted have a composer for every progression;
* `compose_shape` -- whatever is drawn, a melody has the documented shape.
-/

namespace Cantilena

/-! ## 1. One note per tick -/

/-- Of the notes that are left none is new. -/
theorem mem_of_mem_thin {l : List Note} {n : Note} (h : n ∈ thin l) : n ∈ l := by
  fun_induction thin l with
  | case1 => exact h
  | case2 a => exact h
  | case3 a b rest _ ih =>
    rw [dite_eq_ite] at ih
    have hkept := ih h
    split at hkept
    · exact List.mem_cons_of_mem _ hkept
    · rcases List.mem_cons.mp hkept with rfl | hkept
      · exact List.mem_cons_self
      · exact List.mem_cons_of_mem _ (List.mem_cons_of_mem _ hkept)
  | case4 a b rest _ ih =>
    rcases List.mem_cons.mp h with rfl | h
    · exact List.mem_cons_self
    · exact List.mem_cons_of_mem _ (ih h)

/-- On every tick with a note one is left that is at least as loud. -/
theorem exists_mem_thin {l : List Note} {n : Note} (h : n ∈ l) :
    ∃ m ∈ thin l, m.start = n.start ∧ n.velocity ≤ m.velocity := by
  fun_induction thin l generalizing n with
  | case1 => cases h
  | case2 a => exact ⟨n, h, rfl, Int.le_refl _⟩
  | case3 a b rest hstart ih =>
    rw [dite_eq_ite] at ih
    have hab : a.start = b.start := beq_iff_eq.mp hstart
    -- the note that goes on stands for both
    have hkept : ∃ k ∈ (if Event.velocity a < Event.velocity b then b else a) :: rest,
        k.start = n.start ∧ n.velocity ≤ k.velocity := by
      rcases List.mem_cons.mp h with rfl | h
      · refine ⟨_, List.mem_cons_self, ?_⟩
        split
        · exact ⟨hab.symm, Int.le_of_lt ‹_›⟩
        · exact ⟨rfl, Int.le_refl _⟩
      · rcases List.mem_cons.mp h with rfl | h
        · refine ⟨_, List.mem_cons_self, ?_⟩
          split
          · exact ⟨rfl, Int.le_refl _⟩
          · exact ⟨hab, Int.not_lt.mp ‹_›⟩
        · exact ⟨n, List.mem_cons_of_mem _ h, rfl, Int.le_refl _⟩
    obtain ⟨k, hk, hks, hkv⟩ := hkept
    obtain ⟨m, hm, hms, hmv⟩ := ih hk
    exact ⟨m, hm, hms.trans hks, Int.le_trans hkv hmv⟩
  | case4 a b rest _ ih =>
    rcases List.mem_cons.mp h with rfl | h
    · exact ⟨n, List.mem_cons_self, rfl, Int.le_refl _⟩
    · obtain ⟨m, hm, hs⟩ := ih h
      exact ⟨m, List.mem_cons_of_mem _ hm, hs⟩

/-- **Of notes by start one is left on each tick.** -/
theorem thin_pairwise {l : List Note} (h : l.Pairwise fun a b => a.start ≤ b.start) :
    (thin l).Pairwise fun a b => a.start < b.start := by
  fun_induction thin l with
  | case1 => exact List.Pairwise.nil
  | case2 a => exact List.pairwise_singleton _ _
  | case3 a b rest _ ih =>
    rw [dite_eq_ite] at ih
    obtain ⟨hfirst, hrest⟩ := List.pairwise_cons.mp h
    refine ih ?_
    split
    · exact hrest
    · refine List.pairwise_cons.mpr ⟨fun n hn => hfirst n (List.mem_cons_of_mem _ hn), ?_⟩
      exact (List.pairwise_cons.mp hrest).2
  | case4 a b rest hne ih =>
    obtain ⟨hfirst, hrest⟩ := List.pairwise_cons.mp h
    refine List.pairwise_cons.mpr ⟨fun n hn => ?_, ih hrest⟩
    have hab : a.start ≠ b.start := fun he => hne (beq_iff_eq.mpr he)
    have hb : a.start ≤ b.start := hfirst b List.mem_cons_self
    have hn' : b.start ≤ n.start := by
      rcases List.mem_cons.mp (mem_of_mem_thin hn) with rfl | hn
      · exact Int.le_refl _
      · exact (List.pairwise_cons.mp hrest).1 n hn
    omega

/-- Notes that are mapped to others are thinned as they were before, if the map changes neither
    which of them start together nor which are louder. -/
theorem thin_map {f : Note → Note} (hstart : ∀ a b, (f a).start = (f b).start ↔ a.start = b.start)
    (hvelocity : ∀ n, (f n).velocity = n.velocity) (l : List Note) :
    thin (l.map f) = (thin l).map f := by
  have hstarts (a b : Note) :
      (Event.start (f a) == Event.start (f b)) = (Event.start a == Event.start b) := by
    rw [Bool.eq_iff_iff, beq_iff_eq, beq_iff_eq]
    exact hstart a b
  have hlouder (a b : Note) : (if Event.velocity (f a) < Event.velocity (f b) then f b else f a)
      = f (if Event.velocity a < Event.velocity b then b else a) := by
    rw [apply_ite f]
    show (if (f a).velocity < (f b).velocity then f b else f a)
      = if a.velocity < b.velocity then f b else f a
    rw [hvelocity, hvelocity]
  fun_induction thin l with
  | case1 => rw [List.map_nil, thin]
  | case2 a => rw [List.map_cons, List.map_nil, thin]
  | case3 a b rest heq ih =>
    rw [dite_eq_ite] at ih
    rw [List.map_cons, List.map_cons, thin, hstarts, if_pos heq, hlouder, ← List.map_cons]
    exact ih
  | case4 a b rest hne ih =>
    rw [List.map_cons, List.map_cons, thin, hstarts, if_neg hne, List.map_cons, ← ih, List.map_cons]

theorem byStart_pairwise (l : List Note) :
    (byStart l).Pairwise fun a b => a.start ≤ b.start :=
  (order_startsBy.pairwise_mergeSort l).imp startsBy_iff.mp

/-- Of the notes of a melody none is new. -/
theorem mem_of_mem_loudestPerTick {l : List Note} {n : Note} (h : n ∈ loudestPerTick l) : n ∈ l :=
  List.mem_mergeSort.mp (mem_of_mem_thin h)

/-- On every tick with a note the melody has one that is at least as loud. -/
theorem exists_mem_loudestPerTick {l : List Note} {n : Note} (h : n ∈ l) :
    ∃ m ∈ loudestPerTick l, m.start = n.start ∧ n.velocity ≤ m.velocity :=
  exists_mem_thin (List.mem_mergeSort.mpr h)

/-! ## 2. Phrases -/

namespace Composer

variable {σ : Type} {src : Source σ} {c : Composer Int} {P : Int → Prop}

theorem numbered_append (first : Int) (bars others : List (Option Chord)) :
    numbered first (bars ++ others)
      = numbered first bars ++ numbered (first + bars.length) others := by
  have hshift : others.zipIdx bars.length = others.zipIdx.map (Prod.map id (· + bars.length)) :=
    (List.map_snd_add_zipIdx_eq_zipIdx (n := bars.length) (k := 0)).symm
  unfold numbered
  rw [List.zipIdx_append, List.map_append, Nat.zero_add, hshift, List.map_map]
  refine congrArg _ (List.map_congr_left fun x _ => ?_)
  simp
  omega

theorem length_numbered (first : Int) (bars : List (Option Chord)) :
    (numbered first bars).length = bars.length := by
  simp [numbered]

/-- The numbers of numbered bars. -/
theorem mem_numbered {first : Int} {bars : List (Option Chord)} {bar : Option Chord × Int}
    (h : bar ∈ numbered first bars) : first ≤ bar.2 ∧ bar.2 < first + bars.length := by
  obtain ⟨⟨chord, i⟩, hi, rfl⟩ := List.mem_map.mp h
  have := (List.mem_zipIdx' hi).1
  simp
  omega

/-- The bars of a phrase, and those behind it. -/
theorem numbered_take_drop (first count : Nat) (bars : List (Option Chord)) :
    numbered first bars = numbered first (bars.take count)
      ++ numbered (first + (numbered first (bars.take count)).length : Nat) (bars.drop count) := by
  rw [length_numbered, Int.natCast_add, ← numbered_append, List.take_append_drop]

/-- A phrase has as many bars as are asked for, as far as bars are left. -/
theorem phraseLength_eq (c : Composer Int) (left : Nat) :
    c.phraseLength left = .ok (min left c.params.frame.barsPerPhrase.toNat) := by
  have hpos : ¬ c.params.frame.barsPerPhrase < 1 := c.params.frame.barsPerPhrase_ok
  unfold phraseLength
  simp only
  split
  · rename_i hless
    have hless : (left : Int) < c.params.frame.barsPerPhrase := hless
    rw [Nat.min_eq_left (by omega)]
  · rename_i hless
    have hless : ¬ (left : Int) < c.params.frame.barsPerPhrase := hless
    rw [Nat.min_eq_right (by omega)]
    rfl

/-- The bars of a phrase behind its first one, if there are enough. -/
def moreBars (c : Composer Int) : Nat := c.params.frame.barsPerPhrase.toNat - 1

/-- **The first phrase of some bars, and the phrases behind it.** -/
theorem writePhrases_cons (src : Source σ) (c : Composer Int) (index first : Nat) (motif : Motif)
    (bar : Option Chord) (rest : List (Option Chord)) :
    (c.writePhrases src index first motif (bar :: rest) : Drawing σ (List (Stroke Note)))
      = (do
        let here := numbered first (bar :: rest.take c.moreBars)
        let line : Line Note Int ← c.writeBars src (Role.ofIndex index) motif here
        let others ← c.writePhrases src (index + 1) (first + here.length) line.motif
          (rest.drop c.moreBars)
        return line.strokes.toList ++ others) := by
  have hmore : min (rest.length + 1) c.params.frame.barsPerPhrase.toNat - 1
      = min rest.length c.moreBars := by
    unfold moreBars
    omega
  have htake : rest.take (min rest.length c.moreBars) = rest.take c.moreBars := by
    rw [Nat.min_comm, ← List.take_eq_take_min]
  have hdrop : rest.drop (min rest.length c.moreBars) = rest.drop c.moreBars := by
    rcases Nat.le_total rest.length c.moreBars with hle | hle
    · rw [Nat.min_eq_left hle, List.drop_length, List.drop_eq_nil_of_le hle]
    · rw [Nat.min_eq_right hle]
  rw [writePhrases, phraseLength_eq]
  show (pure _ >>= _) = _
  rw [pure_bind]
  simp only [hmore, htake, hdrop]

/-- **The strokes of the phrases from one on fall into rows, one for each bar that is left.** -/
theorem yields_writePhrases (hsrc : src.AlwaysPicks) (hP : c.Keeps P) {index first : Nat}
    {motif : Motif} {bars : List (Option Chord)} (hmotif : motif.Sound) :
    Yields (c.writePhrases src index first motif bars : Drawing σ (List (Stroke Note)))
      (c.Rows P (numbered first bars)) := by
  induction hl : bars.length using Nat.strongRecOn generalizing index first motif bars with
  | ind k ih =>
    cases bars with
    | nil =>
      rw [writePhrases]
      exact .pure .nil
    | cons bar rest =>
      rw [writePhrases_cons]
      have hbars : ∀ bar' ∈ numbered first (bar :: rest.take c.moreBars), 0 ≤ bar'.2 :=
        fun bar' h => Int.le_trans (Int.natCast_nonneg first) (mem_numbered h).1
      refine (yields_writeBars hsrc hP hbars hmotif).bind fun line hline => ?_
      have hshorter : (rest.drop c.moreBars).length < k := by
        rw [List.length_drop]
        rw [List.length_cons] at hl
        omega
      refine (ih _ hshorter hline.1 rfl).bind fun others hothers => .pure ?_
      have hsplit := numbered_take_drop first (c.moreBars + 1) (bar :: rest)
      rw [List.take_succ_cons, List.drop_succ_cons] at hsplit
      rw [hsplit]
      exact hline.2.append hothers

/-- **The strokes of a melody fall into rows, one for each bar.** -/
theorem yields_strokes (hsrc : src.AlwaysPicks) (hP : c.Keeps P) :
    Yields (c.strokes src) (c.Rows P (numbered 0 c.bars)) :=
  yields_writePhrases hsrc hP Motif.sound_empty

/-- **The notes of a melody start one after the other, and each has the shape of a note of some
    bar.** -/
theorem yields_compose (hsrc : src.AlwaysPicks) (hP : c.Keeps P) :
    Yields (c.compose src) fun notes : List Note =>
      notes.Pairwise (fun a b => a.start < b.start)
        ∧ ∀ n ∈ notes, ∃ bar : Int, 0 ≤ bar ∧ bar < c.bars.length ∧ c.Shaped P bar n := by
  refine (yields_strokes hsrc hP).bind fun strokes hrows => .pure ⟨?_, fun n hn => ?_⟩
  · exact thin_pairwise (byStart_pairwise _)
  · obtain ⟨s, hs, rfl⟩ := List.mem_map.mp (mem_of_mem_loudestPerTick hn)
    obtain ⟨bar, hbar, hshaped⟩ := hrows.exists_bar hs
    have hnumber := mem_numbered hbar
    exact ⟨bar.2, hnumber.1, by omega, hshaped⟩

/-- The ticks at which the first phrase strikes, if it can be written. -/
def firstTicks (c : Composer Int) (src : Source σ) (s : σ) : Option (List Int) :=
  let line : Drawing σ (Line Note Int) :=
    c.writeBars src .question {} (numbered 0 (c.bars.take (c.moreBars + 1)))
  (line.run s).1.toOption.map fun line => line.strokes.toList.map (·.note.start)

/-- **Where the first phrase strikes, the melody has a note.** -/
theorem exists_note_of_firstTicks (hne : c.bars ≠ []) {s s' : σ} {ticks : List Int}
    (hticks : c.firstTicks src s = some ticks) {melody : List Note}
    (hrun : (c.compose src).run s = (.ok melody, s')) :
    ∀ tick ∈ ticks, ∃ n ∈ melody, n.start = tick := by
  obtain ⟨bar, rest, hbars⟩ := List.exists_cons_of_ne_nil hne
  obtain ⟨strokes, _, hstrokes, hmelody⟩ := run_bind_eq_ok.mp hrun
  obtain rfl := Except.ok.inj (congrArg Prod.fst hmelody)
  unfold Composer.strokes at hstrokes
  rw [hbars, writePhrases_cons] at hstrokes
  obtain ⟨line, _, hline, hstrokes⟩ := run_bind_eq_ok.mp hstrokes
  obtain ⟨others, _, -, hothers⟩ := run_bind_eq_ok.mp hstrokes
  obtain rfl := Except.ok.inj (congrArg Prod.fst hothers)
  have hline : c.firstTicks src s = some (line.strokes.toList.map (·.note.start)) := by
    unfold firstTicks
    rw [hbars, List.take_succ_cons]
    exact congrArg (·.1.toOption.map fun line => line.strokes.toList.map (·.note.start)) hline
  obtain rfl := Option.some.inj (hticks.symm.trans hline)
  intro tick htick
  obtain ⟨stroke, hstroke, rfl⟩ := List.mem_map.mp htick
  obtain ⟨n, hn, hstart, -⟩ :=
    exists_mem_loudestPerTick (List.mem_map_of_mem (List.mem_append_left others hstroke))
  exact ⟨n, hn, hstart⟩

/-! ## 3. Melodies over progressions -/

/-- More bars have more steps. -/
theorem ticks_mono (c : Composer Int) {a b : Int} (h : a ≤ b) :
    a * c.stepsPerBar ≤ b * c.stepsPerBar := by
  have hsteps := c.stepsPerBar_pos
  exact Int.mul_le_mul_of_nonneg_right h (by omega)

/-- Bars that follow one another start one after the other. -/
theorem tickOfBar_mono (c : Composer Int) {a b : Int} (h : a ≤ b) :
    c.tickOfBar a ≤ c.tickOfBar b :=
  c.ticks_mono (Int.add_le_add_left h c.params.frame.startBar)

end Composer

theorem length_barChords (entries : List Entry) :
    (barChords entries).length = (entries.map Entry.bars).sum := by
  simp [barChords, List.length_flatMap]

/-- The composer of a progression, where the key is known. -/
theorem composerFor_eq_ok {r : Registry} {p : Params Int} {entries : List Entry} {k : Key}
    (h : p.key r (barChords entries) = .ok k) :
    (composerFor r p entries).outcome = .ok ⟨p, k, barChords entries⟩ :=
  Logged.bind_outcome_eq_ok.mpr ⟨(), rfl, bind_eq_ok.mpr ⟨k, h, rfl⟩⟩

/-- The composer of a progression has its settings and its bars. -/
theorem of_composerFor_eq_ok {r : Registry} {p : Params Int} {entries : List Entry}
    {c : Composer Int} (h : (composerFor r p entries).outcome = .ok c) :
    c.params = p ∧ c.bars = barChords entries := by
  obtain ⟨_, -, h⟩ := Logged.bind_outcome_eq_ok.mp h
  obtain ⟨k, -, h⟩ := bind_eq_ok.mp h
  obtain rfl := Except.ok.inj h
  exact ⟨rfl, rfl⟩

/-- **Settings that are admitted have a composer over every progression**, and its key is sound. -/
theorem exists_composer {r : Registry} (hr : r.Reachable) {p : Params Int} (hp : p.Admitted r)
    (entries : List Entry) :
    ∃ k, (composerFor r p entries).outcome = .ok ⟨p, k, barChords entries⟩ ∧ k.Sound := by
  obtain ⟨k, hkey, hk⟩ := Params.exists_key hr hp (barChords entries)
  exact ⟨k, composerFor_eq_ok hkey, hk⟩

/-- **A melody has the documented shape, whatever is drawn.** Settings that are admitted have a
    composer over every progression, and from every source it has a melody: its notes start one
    after the other, within the bars of the progression; they last from one step to eight, and
    their pitches and velocities are those of notes that can be heard. And every bar that is
    written, whatever line it goes on with, adds only notes that start in that bar. -/
theorem compose_shape {σ : Type} {src : Source σ} (hsrc : src.AlwaysPicks) {r : Registry}
    (hr : r.Reachable) {p : Params Int} (hp : p.Admitted r) (entries : List Entry) :
    ∃ c : Composer Int, (composerFor r p entries).outcome = .ok c
      ∧ Yields (c.compose src) (fun notes : List Note =>
          notes.Pairwise (fun a b => a.start < b.start) ∧ ∀ n ∈ notes,
            p.frame.startBar * p.frame.stepsPerBar ≤ n.start
            ∧ n.start < (p.frame.startBar + (entries.map Entry.bars).sum) * p.frame.stepsPerBar
            ∧ 1 ≤ n.length ∧ n.length ≤ Composer.longest
            ∧ 0 ≤ n.pitch ∧ n.pitch ≤ 127 ∧ 1 ≤ n.velocity ∧ n.velocity ≤ 127)
      ∧ ∀ (role : Role) (line : Composer.Line Note Int) (chord : Option Chord) (bar : Nat),
          line.Ready (fun pitch => 0 ≤ pitch ∧ pitch ≤ 127) →
          Yields (c.writeBar src role line (chord, bar)) fun line' =>
            line'.Ready (fun pitch => 0 ≤ pitch ∧ pitch ≤ 127)
            ∧ ∃ row, line'.strokes.toList = line.strokes.toList ++ row ∧ ∀ s ∈ row,
              (p.frame.startBar + bar) * p.frame.stepsPerBar ≤ s.note.start
              ∧ s.note.start < (p.frame.startBar + (bar + 1)) * p.frame.stepsPerBar := by
  obtain ⟨k, hc, -⟩ := exists_composer hr hp entries
  generalize hcomposer : (⟨p, k, barChords entries⟩ : Composer Int) = c at hc
  have hbars : c.bars = barChords entries := by rw [← hcomposer]
  obtain rfl : c.params = p := by rw [← hcomposer]
  refine ⟨c, hc, ?_, ?_⟩
  · refine (Composer.yields_compose hsrc c.keeps_range).mono ?_
    rintro notes ⟨hpairwise, hshaped⟩
    refine ⟨hpairwise, fun n hn => ?_⟩
    obtain ⟨bar, hfirst, hlast, hn⟩ := hshaped n hn
    have hlow : c.tickOfBar 0 ≤ n.start := Int.le_trans (c.tickOfBar_mono hfirst) hn.start_ge
    have hhigh : n.start < c.tickOfBar c.bars.length :=
      Int.lt_of_lt_of_le hn.start_lt (c.tickOfBar_mono hlast)
    rw [hbars, length_barChords] at hhigh
    rw [Composer.tickOfBar, Int.cast_id, Int.add_zero] at hlow
    exact ⟨hlow, hhigh, hn.length_pos, hn.length_le, hn.pitch.1, hn.pitch.2, hn.velocity_pos,
      n.valid.2.2.2.2⟩
  · intro role line chord bar hline
    refine (Composer.yields_writeBar hsrc c.keeps_range (Int.natCast_nonneg bar) hline).mono ?_
    intro line' hline'
    obtain ⟨row, hrow, hshaped⟩ := hline'.strokes
    exact ⟨hline'.toReady, row, hrow, fun s hs => ⟨(hshaped s hs).start_ge, (hshaped s hs).start_lt⟩⟩

/-- The composer of two bars of A minor with the settings from the start. -/
def Composer.start : Composer Int where
  params := .start
  key := ⟨9, "aeolian", [9, 11, 0, 2, 4, 5, 7]⟩
  bars := [some { root := 9, triad := .minor }, some { root := 9, triad := .minor }]

theorem key_start : Params.start.key Registry.builtin (barChords [⟨['A', 'm'], 2, by decide⟩])
    = .ok Composer.start.key :=
  toOption_eq_some.mp (by decide +kernel)

theorem composerFor_start :
    (composerFor Registry.builtin Params.start [⟨['A', 'm'], 2, by decide⟩]).outcome
      = .ok Composer.start :=
  composerFor_eq_ok key_start

theorem firstTicks_start : Composer.start.firstTicks (Source.fixed 0.5) ()
    = some [0, 2, 4, 6, 8, 10, 12, 16, 18, 20, 22, 24, 26, 28] := by
  decide +kernel

/-- Two bars of A minor with the settings from the start and a source that does not change: both
    bars begin with a note. -/
theorem compose_shape_start :
    ∃ c : Composer Int,
      (composerFor Registry.builtin Params.start [⟨['A', 'm'], 2, by decide⟩]).outcome = .ok c
        ∧ ∃ notes : List Note, ((c.compose (Source.fixed 0.5)).run ()).1 = .ok notes
          ∧ notes.Pairwise (fun a b => a.start < b.start) ∧ (∀ n ∈ notes, n.start < 32)
          ∧ (∃ n ∈ notes, n.start = 0) ∧ ∃ n ∈ notes, n.start = 16 := by
  obtain ⟨c, hc, hmelody, -⟩ := compose_shape (Source.alwaysPicks_fixed 0.5) .builtin
    (Params.admitted_start Registry.builtin)
    [⟨['A', 'm'], 2, by decide⟩]
  obtain rfl := Except.ok.inj (composerFor_start.symm.trans hc)
  obtain ⟨notes, _, hrun, hpairwise, hnotes⟩ := hmelody ()
  have hstruck := Composer.exists_note_of_firstTicks (by decide) firstTicks_start hrun
  exact ⟨_, hc, notes, congrArg Prod.fst hrun, hpairwise, fun n hn => (hnotes n hn).2.1,
    hstruck 0 (by decide), hstruck 16 (by decide)⟩

end Cantilena
