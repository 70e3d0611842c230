import Cantilena.Proofs.Notation.Scanning

/-!
# Words

* `IsWord` -- a text that is no gap and has none in it;
* `Spaced` -- how words are spread over a text: gaps between any two, and perhaps at the ends;
* `words_of_spaced` -- a text has the words that are spread over it.
-/

namespace Cantilena.Text

/-- A text of one or more characters that are not blank. -/
structure IsWord (s : List Char) : Prop where
  ne_nil : s ≠ []
  isBlank : ∀ c ∈ s, isBlank c = false

/-- How texts are spread over a text: with a gap between any two of them, whatever its blanks are.
    There may be gaps at both ends as well. -/
inductive Spaced : List (List Char) → List Char → Prop
  | nil {gap : List Char} (hg : IsGap gap) : Spaced [] gap
  | last {before word : List Char} (hb : IsGap before) : Spaced [word] (before ++ word)
  | cons {before word gap more : List Char} {rest : List (List Char)} (hb : IsGap before)
      (hne : gap ≠ []) (hg : IsGap gap) (hr : Spaced rest more) :
      Spaced (word :: rest) (before ++ word ++ gap ++ more)

instance (s : List Char) : Decidable (IsGap s) :=
  List.decidableBAll (fun c => Text.isBlank c = true) s

/-! ## Reading -/

/-- A gap in front of a text gives no word. -/
theorem wordsFrom_gap {gap : List Char} (hg : IsGap gap) (s : List Char) :
    wordsFrom [] (gap ++ s) = wordsFrom [] s := by
  induction gap with
  | nil => rfl
  | cons c gap ih =>
    rw [List.cons_append, wordsFrom, if_pos (hg c List.mem_cons_self)]
    exact ih fun x hx => hg x (List.mem_cons_of_mem _ hx)

/-- A gap ends the word being read. -/
theorem wordsFrom_ended {gap current : List Char} (hg : IsGap gap) (hne : gap ≠ [])
    (hc : current ≠ []) (s : List Char) :
    wordsFrom current (gap ++ s) = current.reverse :: wordsFrom [] s := by
  obtain ⟨c, gap, rfl⟩ := List.exists_cons_of_ne_nil hne
  rw [List.cons_append, wordsFrom, if_pos (hg c List.mem_cons_self), if_neg (by simpa using hc),
    wordsFrom_gap fun x hx => hg x (List.mem_cons_of_mem _ hx)]

/-- Characters that are not blank go to the word being read. -/
theorem wordsFrom_append {word : List Char} (hw : ∀ c ∈ word, isBlank c = false)
    (current s : List Char) :
    wordsFrom current (word ++ s) = wordsFrom (word.reverse ++ current) s := by
  induction word generalizing current with
  | nil => rfl
  | cons c word ih =>
    have hc : ¬ isBlank c = true := by simp [hw c List.mem_cons_self]
    rw [List.cons_append, wordsFrom, if_neg hc, ih fun x hx => hw x (List.mem_cons_of_mem _ hx)]
    simp

/-- **Words that are spread over a text are read back.** -/
theorem words_of_spaced {items : List (List Char)} {text : List Char}
    (hw : ∀ word ∈ items, IsWord word) (h : Spaced items text) : words text = items := by
  rw [words]
  induction h with
  | nil hg =>
    have := wordsFrom_gap hg []
    rwa [List.append_nil] at this
  | @last before word hb =>
    have hword := hw word List.mem_cons_self
    have hread := wordsFrom_append hword.isBlank [] []
    rw [List.append_nil, List.append_nil, wordsFrom,
      if_neg (by simpa using hword.ne_nil), List.reverse_reverse] at hread
    rw [wordsFrom_gap hb, hread]
  | @cons before word gap more rest hb hne hg hr ih =>
    have hword := hw word List.mem_cons_self
    have hend : word.reverse ++ [] ≠ [] := by simpa using hword.ne_nil
    have hrest := ih fun x hx => hw x (List.mem_cons_of_mem _ hx)
    rw [List.append_assoc, List.append_assoc, wordsFrom_gap hb, wordsFrom_append hword.isBlank,
      wordsFrom_ended hg hne hend, hrest]
    simp

end Cantilena.Text
