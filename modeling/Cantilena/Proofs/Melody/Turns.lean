import Cantilena.Proofs.Melody.Captured

/-!
# Questions and answers

The phrases of a melody take turns. Each is given the motif that the one before has left; a question
may add to it, and an answer leaves it as it is. So an answer replays what its question has left, and the
next question goes on from there.

* `phrasesFrom_getElem?` -- the numbers and the roles of phrases;
* `Composer.Turn`, `Composer.TakesTurns` -- phrases that are written, each from the motif the one before
  has left;
* `writeAll_eq_ok_iff` -- the phrases of a melody are written in this way;
* `TakesTurns.handsOn`, `TakesTurns.stored_mem` -- who hands which motif to whom, and the classes in them;
* `HandsMotifsOn`, `motifs_handed_on` -- melodies over progressions.
-/

namespace Cantilena

/-! ## 1. The roles of phrases -/

/-- Phrases are numbered one after the other, and their numbers give their roles. -/
theorem phrasesFrom_getElem? {size index first left i : Nat} {phrase : Phrase}
    (h : (phrasesFrom size index first left)[i]? = some phrase) :
    phrase.role = Role.ofIndex (index + i) := by
  induction left using Nat.strongRecOn generalizing index first i with
  | ind left ih =>
    cases left with
    | zero =>
      rw [phrasesFrom] at h
      cases h
    | succ left =>
      rw [phrasesFrom] at h
      cases i with
      | zero =>
        obtain rfl := Option.some.inj h
        rfl
      | succ i =>
        rw [List.getElem?_cons_succ] at h
        have hmore : left - min left (size - 1) < left + 1 := Nat.lt_succ_of_le (Nat.sub_le ..)
        rw [ih _ hmore h, Nat.add_assoc, Nat.add_comm 1 i]

namespace Composer

variable {σ : Type} {src : Source σ} {c : Composer Int}

/-! ## 2. Taking turns -/

/-- A phrase that is written: its notes, the motif it is given and the motif it leaves. -/
structure Turn where
  phrase : Phrase
  given : Motif
  notes : List Note
  left : Motif

/-- Phrases that are written one after the other, the first from a motif and a state of chance, each
    other one from what the one before has left. -/
inductive TakesTurns (src : Source σ) (c : Composer Int) :
    Motif → σ → List Turn → Motif → σ → Prop
  | done (motif : Motif) (s : σ) : TakesTurns src c motif s [] motif s
  | next {phrase : Phrase} {motif motif₁ motif' : Motif} {notes : List Note} {turns : List Turn}
    {s s₁ s' : σ}
    (written : (c.writePhrase src phrase.first phrase.count phrase.role motif).run s
      = (.ok (notes, motif₁), s₁))
    (others : TakesTurns src c motif₁ s₁ turns motif' s') :
    TakesTurns src c motif s (⟨phrase, motif, notes, motif₁⟩ :: turns) motif' s'

/-- **Phrases are written by taking turns.** -/
theorem writeAll_eq_ok_iff {phrases : List Phrase} {motif : Motif} {notes : List Note} {s s' : σ} :
    (c.writeAll src phrases motif).run s = (.ok notes, s')
      ↔ ∃ turns motif', c.TakesTurns src motif s turns motif' s' ∧ turns.map Turn.phrase = phrases
        ∧ turns.flatMap Turn.notes = notes := by
  induction phrases generalizing motif notes s with
  | nil =>
    constructor
    · intro h
      obtain ⟨hresult, rfl⟩ := Prod.mk.inj h
      obtain rfl := Except.ok.inj hresult
      exact ⟨[], motif, .done motif s, rfl, rfl⟩
    · rintro ⟨turns, motif', hturns, hphrases, rfl⟩
      obtain rfl := List.map_eq_nil_iff.mp hphrases
      cases hturns
      rfl
  | cons phrase phrases ih =>
    constructor
    · intro h
      obtain ⟨⟨own, motif₁⟩, s₁, hwritten, hrest⟩ := run_bind_eq_ok.mp h
      obtain ⟨others, s₂, hothers, hpure⟩ := run_bind_eq_ok.mp hrest
      obtain ⟨hresult, rfl⟩ := Prod.mk.inj hpure
      obtain rfl := Except.ok.inj hresult
      obtain ⟨turns, motif', hturns, rfl, rfl⟩ := ih.mp hothers
      exact ⟨⟨phrase, motif, own, motif₁⟩ :: turns, motif', .next hwritten hturns, rfl, rfl⟩
    · rintro ⟨turns, motif', hturns, hphrases, rfl⟩
      cases hturns with
      | done => cases hphrases
      | next hwritten hothers =>
        obtain ⟨rfl, hrest⟩ := List.cons.inj hphrases
        refine run_bind_eq_ok.mpr ⟨_, _, hwritten, ?_⟩
        exact run_bind_eq_ok.mpr ⟨_, _, ih.mpr ⟨_, motif', hothers, hrest, rfl⟩, rfl⟩

/-! ## 3. Motifs that are handed on -/

/-- Who hands which motif to whom: the first phrase is given an empty one, and every other phrase what the
    one before has left. Questions and answers alternate, and an answer leaves what it is given, which is
    what its question has left and what the next question is given. -/
structure HandsOn (turns : List Turn) : Prop where
  first : ∀ turn, turns[0]? = some turn → turn.given = ⟨[]⟩
  question : ∀ i turn, turns[2 * i]? = some turn → turn.phrase.role = .question
  answer : ∀ i turn, turns[2 * i + 1]? = some turn → turn.phrase.role = .answer
    ∧ ∃ question, turns[2 * i]? = some question ∧ turn.given = question.left
      ∧ turn.left = question.left
  next : ∀ i turn, turns[2 * i + 2]? = some turn →
    ∃ answer, turns[2 * i + 1]? = some answer ∧ turn.given = answer.left
      ∧ ∃ question, turns[2 * i]? = some question ∧ turn.given = question.left

namespace TakesTurns

variable {motif motif' : Motif} {turns : List Turn} {s s' : σ}

theorem given_of_first (h : c.TakesTurns src motif s turns motif' s') {turn : Turn}
    (hturn : turns[0]? = some turn) : turn.given = motif := by
  cases h with
  | done => cases hturn
  | next =>
    obtain rfl := Option.some.inj hturn
    rfl

/-- **Every phrase is given what the one before has left.** -/
theorem given_of_next (h : c.TakesTurns src motif s turns motif' s') {i : Nat} {turn : Turn}
    (hturn : turns[i + 1]? = some turn) : ∃ before, turns[i]? = some before
      ∧ turn.given = before.left := by
  induction h generalizing i with
  | done => cases hturn
  | next hwritten hothers ih =>
    rw [List.getElem?_cons_succ] at hturn
    cases i with
    | zero => exact ⟨_, rfl, hothers.given_of_first hturn⟩
    | succ i =>
      obtain ⟨before, hbefore, hgiven⟩ := ih hturn
      exact ⟨before, by rw [List.getElem?_cons_succ, hbefore], hgiven⟩

/-- Every phrase is written from the motif it is given. -/
theorem exists_written (h : c.TakesTurns src motif s turns motif' s') {turn : Turn}
    (hturn : turn ∈ turns) : ∃ s₁ s₂,
      (c.writePhrase src turn.phrase.first turn.phrase.count turn.phrase.role turn.given).run s₁
        = (.ok (turn.notes, turn.left), s₂) := by
  induction h with
  | done => cases hturn
  | next hwritten hothers ih =>
    rcases List.mem_cons.mp hturn with rfl | hturn
    · exact ⟨_, _, hwritten⟩
    · exact ih hturn

section

variable (hk : c.key.Sound)
include hk

/-- **An answer leaves the motif of its question, and the next question is given it.** -/
theorem handsOn (h : c.TakesTurns src {} s turns motif' s')
    (hroles : ∀ i turn, turns[i]? = some turn → turn.phrase.role = Role.ofIndex i) :
    HandsOn turns := by
  have heven (i : Nat) : Role.ofIndex (2 * i) = .question := if_pos (by omega)
  have hodd (i : Nat) : Role.ofIndex (2 * i + 1) = .answer := if_neg (by omega)
  have hanswer (i : Nat) (turn : Turn) (hturn : turns[2 * i + 1]? = some turn) :
      turn.left = turn.given := by
    have hrole : turn.phrase.role ≠ .question := by
      rw [hroles _ _ hturn, hodd]
      nofun
    obtain ⟨s₁, s₂, hwritten⟩ := h.exists_written (List.mem_of_getElem? hturn)
    exact (grows_of_writePhrase hk hwritten).1 hrole
  refine ⟨fun turn => h.given_of_first, fun i turn hturn => ?_, fun i turn hturn => ?_,
    fun i turn hturn => ?_⟩
  · rw [hroles _ _ hturn, heven]
  · obtain ⟨question, hquestion, hgiven⟩ := h.given_of_next hturn
    refine ⟨by rw [hroles _ _ hturn, hodd], question, hquestion, hgiven, ?_⟩
    rw [hanswer i turn hturn, hgiven]
  · obtain ⟨answer, hanswered, hgiven⟩ := h.given_of_next hturn
    obtain ⟨question, hquestion, hasked⟩ := h.given_of_next hanswered
    refine ⟨answer, hanswered, hgiven, question, hquestion, ?_⟩
    rw [hgiven, hanswer i answer hanswered, hasked]

/-- **All classes of all motifs are of the scale**, where no others are allowed. -/
theorem stored_mem (hscale : c.params.allowChromatic = false)
    (h : c.TakesTurns src motif s turns motif' s')
    (hmotif : ∀ slot pc, motif.stored slot = some pc → pc ∈ c.key.classes) :
    ∀ turn ∈ turns, ∀ slot pc, turn.left.stored slot = some pc → pc ∈ c.key.classes := by
  induction h with
  | done => nofun
  | next hwritten hothers ih =>
    have hleft := (grows_of_writePhrase hk hwritten).2.forall_stored
      (fun pc hpc => hpc.2 hscale) hmotif
    exact List.forall_mem_cons.mpr ⟨hleft, ih hleft⟩

end

end TakesTurns

end Composer

/-! ## 4. Melodies over progressions -/

open Composer (Line Bar Turn HandsOn)

/-- What becomes of motifs. A slot that sounds, for whatever bar and from whatever line, stores nothing
    but a class that it chooses in a question; and a question stores what it chooses, unless a class is
    recalled. A phrase that is no question leaves the motif it is given, and a question adds to it: under
    the numbers of slots that its bars have drawn it may store classes of the twelve, and of the scale
    unless others are allowed. The phrases of a melody hand their motifs on, and all classes of these
    motifs are of the scale unless others are allowed. A phrase that does not go past the last bar is
    written, and so is a melody. -/
structure HandsMotifsOn (c : Composer Int) : Prop where
  slot : ∀ {σ : Type} (src : Source σ) (bar : Bar Int) (i : Nat) (slot : Slot)
    (line line' : Line Note Int) (s s' : σ),
    (c.soundSlot src bar i slot line).run s = (.ok line', s') →
      c.Captures bar.role i line.motif line'.motif
  chosen : ∀ {σ : Type} (src : Source σ) (bar : Bar Int) (i : Nat) (slot : Slot)
    (line line' : Line Note Int) (s s' : σ), bar.role = .question →
    (bar.replays = true → line.motif.classAt i = .ok none) →
    (c.soundSlot src bar i slot line).run s = (.ok line', s') →
      ∃ pc, c.MayChoose pc ∧ line'.motif = line.motif.store i pc
  answer : ∀ {σ : Type} (src : Source σ) (first count : Int) (role : Role), role ≠ .question →
    ∀ (motif motif' : Motif) (notes : List Note) (s s' : σ),
    (c.writePhrase src first count role motif).run s = (.ok (notes, motif'), s') → motif' = motif
  question : ∀ {σ : Type} (src : Source σ) (first count : Int) (motif motif' : Motif)
    (notes : List Note) (s s' : σ),
    (c.writePhrase src first count .question motif).run s = (.ok (notes, motif'), s') →
      motif.Grows (c.IsDrawn src .question { motif } ((c.barsFrom first).take count.toNat) s)
        c.MayChoose motif'
  melody : ∀ {σ : Type} (src : Source σ) (melody : List Note) (s s' : σ),
    (c.compose src).run s = (.ok melody, s') → ∃ turns left,
      c.TakesTurns src {} s turns left s'
        ∧ turns.map Turn.phrase
          = phrasesFrom c.params.frame.barsPerPhrase.toNat 0 0 c.bars.length
        ∧ melody = loudestPerTick (turns.flatMap Turn.notes)
        ∧ HandsOn turns
        ∧ (c.params.allowChromatic = false → ∀ turn ∈ turns, ∀ slot pc,
          turn.left.stored slot = some pc → pc ∈ c.key.classes)
  phraseEnds : ∀ {σ : Type} (src : Source σ), src.AlwaysPicks → ∀ (first count : Nat) (role : Role)
    (motif : Motif) (s : σ), motif.Sound → first + count ≤ c.bars.length →
    ∃ notes motif' s', (c.writePhrase src first count role motif).run s
      = (.ok ((notes : List Note), motif'), s')
  melodyEnds : ∀ {σ : Type} (src : Source σ), src.AlwaysPicks → ∀ s, ∃ (melody : List Note) (s' : σ),
    (c.compose src).run s = (.ok melody, s')

theorem handsMotifsOn {c : Composer Int} (hk : c.key.Sound) : HandsMotifsOn c where
  slot _ _ _ _ _ line' s _ hrun :=
    Composer.ensures_captures_soundSlot hk s line' (congrArg Prod.fst hrun)
  chosen _ _ _ _ _ line' s _ hrole hnone hrun :=
    Composer.ensures_stores_soundSlot hk hrole hnone s line' (congrArg Prod.fst hrun)
  answer _ _ _ _ hrole _ _ _ _ _ hrun := (Composer.grows_of_writePhrase hk hrun).1 hrole
  question _ _ _ _ _ _ _ _ hrun := (Composer.grows_of_writePhrase hk hrun).2
  melody src melody s s' hrun := by
    rw [Composer.compose_eq_writeAll, run_map] at hrun
    generalize hall : (c.writeAll src _ {}).run s = result at hrun
    obtain ⟨outcome, s₁⟩ := result
    obtain ⟨hresult, rfl⟩ := Prod.mk.inj hrun
    obtain ⟨notes, rfl, rfl⟩ := map_eq_ok.mp hresult
    obtain ⟨turns, left, hturns, hphrases, rfl⟩ := Composer.writeAll_eq_ok_iff.mp hall
    have hroles (i : Nat) (turn : Turn) (hturn : turns[i]? = some turn) :
        turn.phrase.role = Role.ofIndex i := by
      have hphrase : (turns.map Turn.phrase)[i]? = some turn.phrase := by
        rw [List.getElem?_map, hturn]
        rfl
      rw [hphrases] at hphrase
      rw [phrasesFrom_getElem? hphrase, Nat.zero_add]
    exact ⟨turns, left, hturns, hphrases, rfl, hturns.handsOn hk hroles,
      fun hscale => hturns.stored_mem hk hscale nofun⟩
  phraseEnds src hsrc first count role motif s hmotif hwithin := by
    obtain ⟨⟨notes, motif'⟩, s', hrun⟩ := Composer.exists_writePhrase hsrc hwithin role hmotif s
    exact ⟨notes, motif', s', hrun⟩
  melodyEnds src hsrc s := by
    obtain ⟨melody, s', hrun, -⟩ := Composer.yields_compose hsrc c.keeps_range s
    exact ⟨melody, s', hrun⟩

/-- The motif that a question leaves which is asked in the first four of five bars of A minor. -/
theorem left_of_firstQuestion {phrase : Phrase} (h : phrase = ⟨0, 0, 3, .question⟩) :
    ((Composer.writePhrase (Source.fixed 0.5)
      ⟨Params.start, Composer.start.key, barChords [⟨['A', 'm'], 5, by decide⟩]⟩ phrase.first phrase.count
        phrase.role {} : Drawing Unit (List Note × Motif)).run ()).1.toOption.map Prod.snd
      = some ⟨[(0, 9), (1, 2), (2, 9), (3, 2), (4, 9), (5, 2), (6, 9)]⟩ := by
  subst h
  decide +kernel

end Cantilena
