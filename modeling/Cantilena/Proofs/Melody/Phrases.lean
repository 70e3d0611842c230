import Cantilena.Melody.Rating
import Cantilena.Proofs.Melody.Shape

/-!
# The phrases of a melody

A melody is written phrase by phrase, and each phrase goes on from where the one before has ended. A
rating finds the phrases by counting in strides instead, and the bar of a note by dividing its
ticks. Both come to the same phrases and to the same bars.

* `Phrase`, `phrasesFrom` -- the phrases in the order in which they are written;
* `Composer.compose_eq_writeAll` -- a melody is written phrase by phrase;
* `Judge.phrases`, `Judge.phrases_eq` -- the phrases that are judged are those that are written;
* `Judge.chordAt_of_shaped` -- the chord by which a note is judged is the chord of its bar;
* `judged_as_written` -- a melody is judged on the bars and phrases it was written for.
-/

namespace Cantilena

/-! ## 1. Phrases -/

/-- A phrase of a melody: its number, its first and its last bar, and its role. -/
structure Phrase where
  index : Nat
  first : Nat
  last : Nat
  role : Role
  deriving DecidableEq, Repr

namespace Phrase

/-- The number of bars of a phrase. -/
def count (phrase : Phrase) : Nat := phrase.last + 1 - phrase.first

/-- The numbers of the bars of a phrase. -/
def bars (phrase : Phrase) : List Nat := List.range' phrase.first phrase.count

end Phrase

/-- The phrases from one on where some bars are left: each has its full number of bars, and the last
    one has what is left. -/
def phrasesFrom (size index first : Nat) : Nat → List Phrase
  | 0 => []
  | left + 1 =>
    let more := min left (size - 1)
    ⟨index, first, first + more, Role.ofIndex index⟩
      :: phrasesFrom size (index + 1) (first + more + 1) (left - more)
termination_by left => left

/-- **Phrases follow one another without a gap**, and together they have all bars that are left. -/
theorem flatMap_bars_phrasesFrom (size index first left : Nat) :
    (phrasesFrom size index first left).flatMap Phrase.bars = List.range' first left := by
  induction left using Nat.strongRecOn generalizing index first with
  | ind left ih =>
    cases left with
    | zero =>
      rw [phrasesFrom]
      rfl
    | succ left =>
      have hmore : min left (size - 1) ≤ left := Nat.min_le_left ..
      have hcount : first + min left (size - 1) + 1 - first = min left (size - 1) + 1 := by omega
      have hleft : left + 1 = min left (size - 1) + 1 + (left - min left (size - 1)) := by omega
      rw [phrasesFrom, List.flatMap_cons, ih _ (by omega), Phrase.bars, Phrase.count, hcount,
        Nat.add_assoc]
      generalize min left (size - 1) = more at hleft ⊢
      rw [hleft]
      exact List.range'_append_1 ..

/-- Every phrase has a first bar and a last one among the bars that are left. -/
theorem mem_phrasesFrom {size index first left : Nat} {phrase : Phrase}
    (h : phrase ∈ phrasesFrom size index first left) :
    first ≤ phrase.first ∧ phrase.first ≤ phrase.last ∧ phrase.last < first + left := by
  induction left using Nat.strongRecOn generalizing index first with
  | ind left ih =>
    cases left with
    | zero =>
      rw [phrasesFrom] at h
      cases h
    | succ left =>
      have hmore : min left (size - 1) ≤ left := Nat.min_le_left ..
      rw [phrasesFrom] at h
      rcases List.mem_cons.mp h with rfl | h
      · exact ⟨Nat.le_refl _, Nat.le_add_right .., by dsimp only; omega⟩
      · have := ih _ (by omega) h
        omega

/-! ## 2. Writing phrase by phrase -/

namespace Composer

variable {σ : Type} (src : Source σ) (c : Composer Int)

/-- The notes of phrases in turn, each handed the motif of the one before. -/
def writeAll : List Phrase → Motif → Drawing σ (List Note)
  | [], _ => pure []
  | phrase :: others, motif => do
    let (notes, motif) ← c.writePhrase src phrase.first phrase.count phrase.role motif
    return notes ++ (← writeAll others motif)

theorem numbered_take (first : Nat) (bars : List (Option Chord)) (count : Nat)
    (h : count ≤ bars.length) :
    (numbered first bars).take count = numbered first (bars.take count) := by
  have hlength : (numbered first (bars.take count)).length = count := by
    rw [length_numbered, List.length_take, Nat.min_eq_left h]
  rw [numbered_take_drop first count bars, List.take_left' hlength]

/-- The bars of a phrase with their numbers. -/
theorem barsFrom_take {first count : Nat} (h : first + count ≤ c.bars.length) :
    (c.barsFrom first).take count = numbered first ((c.bars.drop first).take count) := by
  have hfrom : c.barsFrom first = numbered first (c.bars.drop first) := by
    unfold barsFrom
    simp only
    rw [if_pos (Int.natCast_nonneg first), Int.toNat_natCast]
  rw [hfrom, numbered_take]
  rw [List.length_drop]
  omega

/-- Numbered bars are the bars under their numbers. -/
theorem numbered_eq_map {first count : Nat} (h : first + count ≤ c.bars.length) :
    numbered first ((c.bars.drop first).take count)
      = (List.range' first count).map fun bar => (c.bars.getD bar none, (bar : Int)) := by
  refine List.ext_getElem ?_ fun i hi hi' => ?_
  · rw [length_numbered, List.length_take, List.length_drop, List.length_map, List.length_range']
    omega
  · have hi : i < count := by
      rw [List.length_map, List.length_range'] at hi'
      exact hi'
    have hbar : first + i < c.bars.length := by omega
    simp [numbered, hbar]

/-- A phrase within the bars is written without asking for a bar that is not there. -/
theorem writePhrase_eq {first count : Nat} (h : first + count ≤ c.bars.length) (role : Role)
    (motif : Motif) :
    (c.writePhrase src first count role motif : Drawing σ (List Note × Motif)) = (do
      let line : Line Note Int ← c.writeBars src role motif
        (numbered first ((c.bars.drop first).take count))
      return (line.strokes.toList.map (·.note), line.motif)) := by
  have hlength : ¬ ((numbered first ((c.bars.drop first).take count)).length : Int) < count := by
    rw [length_numbered, List.length_take, List.length_drop]
    omega
  unfold writePhrase
  simp only
  rw [Int.toNat_natCast, c.barsFrom_take h]
  refine bind_congr fun line => ?_
  rw [if_neg hlength]

/-- The notes of the bars that are left are written phrase by phrase. -/
theorem writePhrases_eq_writeAll (index first : Nat) (motif : Motif) :
    (fun strokes => strokes.map Stroke.note)
        <$> (c.writePhrases src index first motif (c.bars.drop first)
          : Drawing σ (List (Stroke Note)))
      = c.writeAll src (phrasesFrom c.params.frame.barsPerPhrase.toNat index first
          (c.bars.length - first)) motif := by
  have hpos : ¬ c.params.frame.barsPerPhrase < 1 := c.params.frame.barsPerPhrase_ok
  induction hl : c.bars.length - first using Nat.strongRecOn generalizing index first motif with
  | ind left ih =>
    have hlength : (c.bars.drop first).length = left := by rw [List.length_drop, hl]
    cases hbars : c.bars.drop first with
    | nil =>
      rw [hbars] at hlength
      obtain rfl : left = 0 := hlength.symm
      rw [writePhrases, phrasesFrom, writeAll, map_pure]
      rfl
    | cons bar rest =>
      rw [hbars] at hlength
      obtain rfl : left = rest.length + 1 := hlength.symm
      -- the phrase has one bar and as many more as there are, up to its size
      have hmore : c.moreBars = c.params.frame.barsPerPhrase.toNat - 1 := rfl
      generalize hcount : min rest.length c.moreBars = more
      have hphrase : bar :: rest.take c.moreBars = (c.bars.drop first).take (more + 1) := by
        rw [hbars, List.take_succ_cons, ← hcount, List.take_eq_take_min, Nat.min_comm]
      have hrest : rest.drop c.moreBars = c.bars.drop (first + more + 1) := by
        rw [Nat.add_assoc, ← List.drop_drop, hbars, List.drop_succ_cons, ← hcount,
          List.drop_eq_drop_min, Nat.min_comm]
      have hwithin : first + (more + 1) ≤ c.bars.length := by omega
      have hnext : first + (numbered first ((c.bars.drop first).take (more + 1))).length
          = first + more + 1 := by
        rw [length_numbered, List.length_take, List.length_drop]
        omega
      have hphraseCount : first + more + 1 - first = more + 1 := by omega
      rw [writePhrases_cons, phrasesFrom, ← hmore, hcount, writeAll, hphrase]
      simp only [Phrase.count]
      rw [hphraseCount, writePhrase_eq src c hwithin, hnext, hrest]
      simp only [map_bind, bind_assoc, pure_bind, map_pure, List.map_append]
      refine bind_congr fun line => ?_
      have hothers := ih (rest.length - more) (by omega) (index + 1) (first + more + 1) line.motif
        (by omega)
      rw [← hothers, bind_map_left]

/-- **A melody is written phrase by phrase.** -/
theorem compose_eq_writeAll :
    (c.compose src : Drawing σ (List Note)) = loudestPerTick
      <$> c.writeAll src (phrasesFrom c.params.frame.barsPerPhrase.toNat 0 0 c.bars.length) {} := by
  have h := writePhrases_eq_writeAll src c 0 0 {}
  rw [List.drop_zero, Nat.sub_zero] at h
  rw [← h, Functor.map_map]
  exact bind_pure_comp ..

end Composer

/-! ## 3. Judging phrase by phrase -/

namespace Judge

variable (j : Judge Int)

/-- The number of bars of a phrase. -/
def size : Nat := j.params.frame.barsPerPhrase.toNat

theorem size_pos : 0 < j.size := by
  have h : ¬ j.params.frame.barsPerPhrase < 1 := j.params.frame.barsPerPhrase_ok
  unfold size
  omega

/-- The phrases that are judged. They start in strides, and the last one ends with the bars. -/
def phrases : List Phrase :=
  (List.range (j.phraseCount j.size)).map fun index =>
    ⟨index, index * j.size, j.lastBar j.size index, Role.ofIndex index⟩

/-- The rating with the part of the last note of a phrase: an answer should end on the tonic, and a
    question off it. -/
def addPhrase (notes : List Note) (score : Float) (phrase : Phrase) : Except Fault Float := do
  match ← j.lastEvent notes phrase.last with
  | none => return score
  | some n =>
    let onTonic := hasClass n [j.key.tonic]
    if phrase.role = .answer then
      Amount.addTo score (if onTonic then j.weights.answerCadence else .real (-0.8))
    else Amount.addTo score (if onTonic then .real (-0.6) else j.weights.questionCadence)

/-- **Cadences are judged phrase by phrase.** -/
theorem cadences_eq (notes : List Note) (score : Float) :
    (List.range (j.phraseCount j.size)).foldlM (j.addCadence notes j.size) score
      = j.phrases.foldlM (j.addPhrase notes) score := by
  have hphrase (score : Float) (index : Nat) : j.addCadence notes j.size score index
      = j.addPhrase notes score
        ⟨index, index * j.size, j.lastBar j.size index, Role.ofIndex index⟩ := by
    unfold addCadence addPhrase
    refine bind_congr fun last => ?_
    cases last <;> rfl
  rw [phrases, List.foldlM_map]
  exact congrArg (fun f => (List.range (j.phraseCount j.size)).foldlM f score)
    (funext fun score => funext fun index => hphrase score index)

/-- There is a phrase of a number exactly if there is a bar with which it starts. -/
theorem lt_phraseCount_iff (index : Nat) :
    index < j.phraseCount j.size ↔ index * j.size < j.bars.length := by
  have hsize := j.size_pos
  have hstart : (index + 1) * j.size = index * j.size + j.size := Nat.succ_mul ..
  show index + 1 ≤ (j.bars.length + j.size - 1) / j.size ↔ _
  rw [Nat.le_div_iff_mul_le hsize, hstart]
  omega

/-- **The phrases that are judged are those that are written.** -/
theorem phrases_eq : j.phrases = phrasesFrom j.size 0 0 j.bars.length := by
  have hsize := j.size_pos
  suffices hfrom : ∀ left index : Nat, j.bars.length - index * j.size = left →
      (List.range' index (j.phraseCount j.size - index)).map
          (fun index => (⟨index, index * j.size, j.lastBar j.size index, Role.ofIndex index⟩ : Phrase))
        = phrasesFrom j.size index (index * j.size) left by
    have h := hfrom j.bars.length 0 (by omega)
    rw [Nat.zero_mul] at h
    rw [← h, phrases, List.range_eq_range', Nat.sub_zero]
  intro left
  induction left using Nat.strongRecOn with
  | ind left ih =>
    intro index hleft
    have hcount := j.lt_phraseCount_iff index
    cases left with
    | zero =>
      have hnone : j.phraseCount j.size - index = 0 := by omega
      rw [hnone, phrasesFrom]
      rfl
    | succ left =>
      have hsome : j.phraseCount j.size - index = j.phraseCount j.size - (index + 1) + 1 := by
        have := hcount.mpr (by omega)
        omega
      have hlast : j.lastBar j.size index = index * j.size + min left (j.size - 1) := by
        unfold lastBar
        omega
      have hnext : (index + 1) * j.size = index * j.size + j.size := Nat.succ_mul ..
      rw [hsome, List.range'_succ, List.map_cons, phrasesFrom, hlast]
      refine congrArg (_ :: ·) ?_
      by_cases hmore : j.size ≤ left
      · have hstart : index * j.size + min left (j.size - 1) + 1 = (index + 1) * j.size := by omega
        rw [hstart]
        exact ih _ (by omega) (index + 1) (by omega)
      · -- no bar is left behind this phrase
        have hnone : left - min left (j.size - 1) = 0 := by omega
        have hcount' := j.lt_phraseCount_iff (index + 1)
        have hover : j.phraseCount j.size - (index + 1) = 0 := by omega
        rw [hnone, hover, phrasesFrom]
        rfl

/-! ## 4. Judging bar by bar -/

/-- The steps from the first bar to a note. -/
def stepOf (n : Note) : Int := n.start - j.offset

/-- **A note is judged by the chord of the bar it is written for.** -/
theorem chordAt_of_shaped {c : Composer Int} (hparams : j.params = c.params)
    (hbars : j.bars = c.bars) {P : Int → Prop} {bar : Nat} (hbar : bar < c.bars.length) {n : Note}
    (hn : c.Shaped P bar n) :
    0 ≤ j.stepOf n ∧ j.stepOf n / j.stepsPerBar = bar
      ∧ j.chordAt (j.stepOf n) = .ok (c.bars.getD bar none) := by
  have hsteps : j.stepsPerBar = c.stepsPerBar :=
    congrArg (fun p : Params Int => p.frame.stepsPerBar) hparams
  have hoffset : j.offset = c.params.frame.startBar * c.stepsPerBar := by
    unfold offset
    rw [hsteps, hparams]
  have hpos := c.stepsPerBar_pos
  have htick : c.tickOfBar bar = j.offset + bar * c.stepsPerBar := by
    rw [hoffset, ← Int.add_mul]
    rfl
  have hlow : bar * c.stepsPerBar ≤ j.stepOf n := by
    have := hn.start_ge
    unfold stepOf
    omega
  have hhigh : j.stepOf n < bar * c.stepsPerBar + c.stepsPerBar := by
    have := hn.start_lt
    rw [c.tickOfBar_succ] at this
    unfold stepOf
    omega
  have hnonneg : 0 ≤ (bar : Int) * c.stepsPerBar :=
    Int.mul_nonneg (Int.natCast_nonneg bar) (by omega)
  have hdiv : j.stepOf n / j.stepsPerBar = bar := by
    rw [hsteps]
    refine Int.le_antisymm (Int.lt_add_one_iff.mp ?_) ?_
    · rw [Int.ediv_lt_iff_lt_mul (by omega), Int.add_mul, Int.one_mul]
      exact hhigh
    · rw [Int.le_ediv_iff_mul_le (by omega)]
      exact hlow
  refine ⟨by omega, hdiv, ?_⟩
  have hin : ¬ (!decide ((bar : Int) < ((j.bars.length : Int)))) = true := by
    rw [hbars]
    simpa using hbar
  unfold chordAt
  rw [hdiv, settled_int]
  show (if !decide ((bar : Int) < ((j.bars.length : Int))) then _ else _) = _
  rw [if_neg hin, hbars]
  rfl

end Judge

/-! ## 5. Everything together -/

/-- A judge and a composer share their bars: whatever line a bar is written behind, each of its notes
    is judged as a note of this bar, by the chord it was written over. -/
structure SharesBars (j : Judge Int) (c : Composer Int) : Prop where
  judged : ∀ {σ : Type} (src : Source σ), src.AlwaysPicks → ∀ (role : Role)
    (line : Composer.Line Note Int), line.Ready (fun pitch => 0 ≤ pitch ∧ pitch ≤ 127) →
    ∀ bar : Nat, bar < c.bars.length →
      Yields (c.writeBar src role line (c.bars.getD bar none, bar)) fun line' =>
        line'.Ready (fun pitch => 0 ≤ pitch ∧ pitch ≤ 127)
        ∧ ∃ row, line'.strokes.toList = line.strokes.toList ++ row ∧ ∀ s ∈ row,
          0 ≤ j.stepOf s.note ∧ j.stepOf s.note / j.stepsPerBar = bar
            ∧ j.chordAt (j.stepOf s.note) = .ok (c.bars.getD bar none)
  fallback : ∀ {σ : Type} (src : Source σ) (role : Role) (line : Composer.Line Note Int) (bar : Int),
    c.writeBar src role line (none, bar) = c.writeBar src role line (some fallbackChord, bar)

/-- A judge and a composer share their phrases: those that are judged follow one another over all
    bars, they are those that are written one after the other, bar by bar, and writing them comes to
    an end. -/
structure SharesPhrases (j : Judge Int) (c : Composer Int) : Prop where
  size : j.barsPerPhrase = .ok j.size
  judged : ∀ (notes : List Note) (score : Float),
    (List.range (j.phraseCount j.size)).foldlM (j.addCadence notes j.size) score
      = j.phrases.foldlM (j.addPhrase notes) score
  covered : j.phrases.flatMap Phrase.bars = List.range c.bars.length
  nonempty : ∀ phrase ∈ j.phrases, phrase.first ≤ phrase.last
  composed : ∀ {σ : Type} (src : Source σ),
    (c.compose src : Drawing σ (List Note)) = loudestPerTick <$> c.writeAll src j.phrases {}
  written : ∀ {σ : Type} (src : Source σ), ∀ phrase ∈ j.phrases, ∀ motif : Motif,
    c.writePhrase src phrase.first phrase.count phrase.role motif = (do
      let line : Composer.Line Note Int ←
        (phrase.bars.map fun bar => (c.bars.getD bar none, (bar : Int))).foldlM
          (c.writeBar src phrase.role) { motif }
      return (line.strokes.toList.map (·.note), line.motif))
  ends : ∀ {σ : Type} (src : Source σ), src.AlwaysPicks → ∀ s, ∃ (melody : List Note) (s' : σ),
    (c.compose src).run s = (.ok melody, s')

section

variable (p : Params Int) (k : Key) (bars : List (Option Chord)) (w : Weights)

theorem sharesBars : SharesBars ⟨bars, k, p, w⟩ ⟨p, k, bars⟩ where
  judged src hsrc role line hline bar hbar := by
    have hnumber : 0 ≤ ((bars.getD bar none, (bar : Int)) : Option Chord × Int).2 :=
      Int.natCast_nonneg bar
    refine (Composer.yields_writeBar hsrc (Composer.keeps_range ⟨p, k, bars⟩) hnumber hline).mono
      fun line' hline' => ⟨hline'.toReady, ?_⟩
    obtain ⟨row, hrow, hshaped⟩ := hline'.strokes
    exact ⟨row, hrow, fun s hs => Judge.chordAt_of_shaped ⟨bars, k, p, w⟩ rfl rfl hbar (hshaped s hs)⟩
  fallback _ _ _ _ := rfl

theorem sharesPhrases : SharesPhrases ⟨bars, k, p, w⟩ ⟨p, k, bars⟩ := by
  have hphrases : (⟨bars, k, p, w⟩ : Judge Int).phrases
      = phrasesFrom p.frame.barsPerPhrase.toNat 0 0 bars.length := Judge.phrases_eq _
  refine ⟨rfl, Judge.cadences_eq _, ?_, fun phrase h => ?_, fun src => ?_, fun src phrase h motif => ?_,
    fun src hsrc s => ?_⟩
  · rw [hphrases, flatMap_bars_phrasesFrom, List.range_eq_range']
  · rw [hphrases] at h
    exact (mem_phrasesFrom h).2.1
  · rw [hphrases]
    exact Composer.compose_eq_writeAll src ⟨p, k, bars⟩
  · rw [hphrases] at h
    obtain ⟨-, hfirst, hlast⟩ := mem_phrasesFrom h
    have hwithin : phrase.first + phrase.count ≤ (⟨p, k, bars⟩ : Composer Int).bars.length := by
      show phrase.first + (phrase.last + 1 - phrase.first) ≤ bars.length
      omega
    rw [Composer.writePhrase_eq src _ hwithin, Composer.numbered_eq_map _ hwithin]
    rfl
  · obtain ⟨melody, s', hrun, -⟩ :=
      Composer.yields_compose hsrc (Composer.keeps_range ⟨p, k, bars⟩) s
    exact ⟨melody, s', hrun⟩

end

/-- **A melody is judged on the bars and the phrases it was written for.** Settings that are admitted
    have a composer over every progression. The rating of notes, where there are enough of them, is
    that of a judge with the same bars. Each note that is written for a bar is judged as a note of
    this bar and by the chord of this bar; a bar without a chord is written over the fallback chord.
    And the phrases that are judged are those that are written: they follow one another over all
    bars, each bar in one of them, and writing them comes to an end. -/
theorem judged_as_written {r : Registry} (hr : r.Reachable) {p : Params Int} (hp : p.Admitted r)
    (entries : List Entry) (w : Weights) :
    ∃ k : Key, (composerFor r p entries).outcome = .ok ⟨p, k, barChords entries⟩
      ∧ (∀ notes : List Note, fewestRated ≤ notes.length →
          (rate r notes entries p w).outcome
            = (⟨barChords entries, k, p, w⟩ : Judge Int).score (byStart notes))
      ∧ SharesBars ⟨barChords entries, k, p, w⟩ ⟨p, k, barChords entries⟩
      ∧ SharesPhrases ⟨barChords entries, k, p, w⟩ ⟨p, k, barChords entries⟩ := by
  obtain ⟨k, hkey, -⟩ := Params.exists_key hr hp (barChords entries)
  refine ⟨k, composerFor_eq_ok hkey, fun notes hmany => ?_, sharesBars .., sharesPhrases ..⟩
  unfold rate rateOver
  rw [if_neg (Nat.not_lt.mpr hmany)]
  show (Logged.tell (unreadSymbols entries) >>= fun _ =>
    Logged.ofExcept (p.key r (barChords entries)) >>= fun key => Logged.ofExcept
      ((⟨barChords entries, key, p, w⟩ : Judge Int).score (byStart notes))).outcome = _
  rw [hkey]
  rfl

/-- Five bars of A minor: a question of four bars, and an answer of the one that is left. -/
theorem judged_as_written_five :
    ∃ k : Key, (composerFor Registry.builtin Params.start [⟨['A', 'm'], 5, by decide⟩]).outcome
        = .ok ⟨Params.start, k, barChords [⟨['A', 'm'], 5, by decide⟩]⟩
      ∧ SharesPhrases ⟨barChords [⟨['A', 'm'], 5, by decide⟩], k, Params.start, {}⟩
        ⟨Params.start, k, barChords [⟨['A', 'm'], 5, by decide⟩]⟩
      ∧ (⟨barChords [⟨['A', 'm'], 5, by decide⟩], k, Params.start, {}⟩ : Judge Int).phrases
        = [⟨0, 0, 3, .question⟩, ⟨1, 4, 4, .answer⟩] := by
  obtain ⟨k, hc, -, -, hphrases⟩ := judged_as_written .builtin
    (Params.admitted_start Registry.builtin) [⟨['A', 'm'], 5, by decide⟩] {}
  have hlength : (barChords [⟨['A', 'm'], 5, by decide⟩]).length = 5 := length_barChords _
  refine ⟨k, hc, hphrases, ?_⟩
  show (List.range (((barChords _).length + 4 - 1) / 4)).map (fun index => (⟨index, index * 4,
    min ((barChords _).length - 1) (index * 4 + 4 - 1), Role.ofIndex index⟩ : Phrase)) = _
  rw [hlength]
  rfl

end Cantilena
