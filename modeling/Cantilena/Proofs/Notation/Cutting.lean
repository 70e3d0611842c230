import Cantilena.Proofs.Notation.Scanning

/-!
# Lines and their tokens

A line is cut at the blanks that stand outside all parentheses, and nothing else of it is lost.

* `IsUnbroken` -- a text whose blanks all stand in open parentheses; it goes to one token;
* `AreCut`, `areCut_tokensFrom` -- tokens as a scan leaves them: none of them is empty, all are
  unbroken, and all but the last leave nothing open;
* `outsideGaps`, `flatten_tokensFrom` -- what a line holds but for its gaps, which is in its tokens;
* `exists_front` -- a scan can be stopped behind each token but the last, and started anew there;
* `tokenize_joined` -- such tokens with one blank between each two are cut into the same tokens;
* `tokenize_lossless` -- all of it, for any line.
-/

namespace Cantilena.Notation

open Text (isBlank)

/-! ## 1. Texts that are not cut -/

/-- That all blanks of a text stand in open parentheses, with some open in front of it. -/
def IsUnbroken (depth : Nat) (s : List Char) : Prop :=
  ∀ before c after, s = before ++ c :: after → isBlank c = true → 0 < depthOver depth before

theorem isUnbroken_nil (depth : Nat) : IsUnbroken depth [] := by
  intro before c after h
  cases before <;> cases h

theorem isUnbroken_cons {depth : Nat} {c : Char} {s : List Char} :
    IsUnbroken depth (c :: s)
      ↔ (isBlank c = true → 0 < depth) ∧ IsUnbroken (depthAfter depth c) s := by
  constructor
  · intro h
    refine ⟨h [] c s rfl, fun before d after hs => ?_⟩
    exact h (c :: before) d after (by rw [hs, List.cons_append])
  · rintro ⟨hc, hs⟩ before d after h
    cases before with
    | nil =>
      obtain ⟨rfl, -⟩ := List.cons.inj h
      exact hc
    | cons b before =>
      obtain ⟨rfl, htail⟩ := List.cons.inj h
      exact hs before d after htail

theorem isUnbroken_concat {depth : Nat} {s : List Char} {c : Char} (hs : IsUnbroken depth s)
    (hc : isBlank c = true → 0 < depthOver depth s) : IsUnbroken depth (s ++ [c]) := by
  induction s generalizing depth with
  | nil => exact isUnbroken_cons.mpr ⟨hc, isUnbroken_nil _⟩
  | cons d s ih =>
    obtain ⟨hd, hs⟩ := isUnbroken_cons.mp hs
    exact isUnbroken_cons.mpr ⟨hd, ih hs hc⟩

/-- **An unbroken text goes to the token being read.** -/
theorem tokensFrom_unbroken {s : List Char} {depth : Nat} (h : IsUnbroken depth s)
    (current rest : List Char) :
    tokensFrom current depth (s ++ rest)
      = tokensFrom (s.reverse ++ current) (depthOver depth s) rest := by
  induction s generalizing current depth with
  | nil => rfl
  | cons c s ih =>
    obtain ⟨hc, hs⟩ := isUnbroken_cons.mp h
    have hinside : isBlank c = false ∨ 0 < depth := by
      cases hblank : isBlank c with
      | false => exact .inl rfl
      | true => exact .inr (hc hblank)
    rw [List.cons_append, tokensFrom_cons hinside, ih hs, depthOver_cons, List.reverse_cons,
      List.append_assoc, List.singleton_append]

/-! ## 2. Tokens as they are cut -/

/-- Tokens that a line can be cut into. -/
structure AreCut (tokens : List (List Char)) : Prop where
  ne_nil : ∀ t ∈ tokens, t ≠ []
  unbroken : ∀ t ∈ tokens, IsUnbroken 0 t
  settled : ∀ t ∈ tokens.dropLast, depthOver 0 t = 0

namespace AreCut

theorem nil : AreCut [] := ⟨nofun, nofun, nofun⟩

theorem singleton {t : List Char} (hne : t ≠ []) (ht : IsUnbroken 0 t) : AreCut [t] :=
  ⟨List.forall_mem_singleton.mpr hne, List.forall_mem_singleton.mpr ht, nofun⟩

theorem cons {t : List Char} {tokens : List (List Char)} (hne : t ≠ []) (ht : IsUnbroken 0 t)
    (hsettled : depthOver 0 t = 0) (h : AreCut tokens) : AreCut (t :: tokens) := by
  refine ⟨List.forall_mem_cons.mpr ⟨hne, h.ne_nil⟩, List.forall_mem_cons.mpr ⟨ht, h.unbroken⟩, ?_⟩
  cases tokens with
  | nil => exact nofun
  | cons u tokens => exact List.forall_mem_cons.mpr ⟨hsettled, h.settled⟩

theorem tail {t : List Char} {tokens : List (List Char)} (h : AreCut (t :: tokens)) :
    AreCut tokens := by
  refine ⟨fun u hu => h.ne_nil u (List.mem_cons_of_mem t hu),
    fun u hu => h.unbroken u (List.mem_cons_of_mem t hu), fun u hu => ?_⟩
  cases tokens with
  | nil => cases hu
  | cons v tokens => exact h.settled u (List.mem_cons_of_mem t hu)

end AreCut

/-- **A scan cuts a line**, whatever has gone to the token being read, as long as it is unbroken. -/
theorem areCut_tokensFrom {current : List Char} (hcurrent : IsUnbroken 0 current.reverse)
    (line : List Char) : AreCut (tokensFrom current (depthOver 0 current.reverse) line) := by
  induction line generalizing current with
  | nil =>
    rw [tokensFrom]
    by_cases hne : current = []
    · rw [hne]
      exact .nil
    · rw [finished_of_ne_nil hne]
      exact .singleton (fun h => hne (List.reverse_eq_nil_iff.mp h)) hcurrent
  | cons c rest ih =>
    rw [tokensFrom]
    split
    · rename_i hcut
      obtain ⟨-, hsettled⟩ : isBlank c = true ∧ depthOver 0 current.reverse = 0 := by
        simpa using hcut
      have hrest : AreCut (tokensFrom [] 0 rest) := ih (isUnbroken_nil 0)
      by_cases hne : current = []
      · rw [hne]
        exact hrest
      · rw [finished_of_ne_nil hne]
        exact .cons (fun h => hne (List.reverse_eq_nil_iff.mp h)) hcurrent hsettled hrest
    · rename_i hcut
      have hinside : isBlank c = true → 0 < depthOver 0 current.reverse := by
        intro hblank
        simpa [hblank, Nat.pos_iff_ne_zero] using hcut
      have hmore : IsUnbroken 0 (c :: current).reverse := by
        rw [List.reverse_cons]
        exact isUnbroken_concat hcurrent hinside
      have hdepth : depthOver 0 (c :: current).reverse
          = depthAfter (depthOver 0 current.reverse) c := by simp
      rw [← hdepth]
      exact ih hmore

theorem areCut_tokenize (line : List Char) : AreCut (tokenize line) :=
  @areCut_tokensFrom [] (isUnbroken_nil 0) line

/-! ## 3. Nothing is lost -/

/-- A text without its blanks outside all parentheses, with some open in front of it. -/
def outsideGaps (depth : Nat) : List Char → List Char
  | [] => []
  | c :: rest =>
    if isBlank c = true ∧ depth = 0 then outsideGaps depth rest
    else c :: outsideGaps (depthAfter depth c) rest

theorem flatten_finished (current : List Char) : (finished current).flatten = current.reverse := by
  by_cases hne : current = []
  · rw [hne]
    rfl
  · rw [finished_of_ne_nil hne, List.flatten_singleton]

/-- **Only blanks outside all parentheses are lost** in a scan. -/
theorem flatten_tokensFrom (current : List Char) (depth : Nat) (line : List Char) :
    (tokensFrom current depth line).flatten = current.reverse ++ outsideGaps depth line := by
  induction line generalizing current depth with
  | nil => rw [tokensFrom, flatten_finished, outsideGaps, List.append_nil]
  | cons c rest ih =>
    rw [tokensFrom, outsideGaps]
    by_cases hcut : isBlank c = true ∧ depth = 0
    · obtain ⟨hblank, rfl⟩ := hcut
      rw [if_pos (by simp [hblank]), if_pos ⟨hblank, rfl⟩, List.flatten_append, flatten_finished, ih]
      rfl
    · rw [if_neg (by simpa using hcut), if_neg hcut, ih, List.reverse_cons, List.append_assoc]
      rfl

/-- **Behind each token but the last nothing is open**: the scan can be stopped there, and what is
    left is cut as a line of its own. -/
theorem exists_front {current line t : List Char} {depth : Nat} {before after : List (List Char)}
    (h : tokensFrom current depth line = before ++ t :: after) (hafter : after ≠ []) :
    ∃ front back, line = front ++ back ∧ depthOver depth front = 0
      ∧ tokensFrom current depth front = before ++ [t] ∧ tokenize back = after := by
  induction line generalizing current depth before with
  | nil =>
    -- no more than one token is left at the end of the line
    have hlength : (finished current).length ≤ 1 := by
      unfold finished
      split <;> simp
    have hmore := List.length_pos_iff.mpr hafter
    rw [tokensFrom] at h
    rw [h, List.length_append, List.length_cons] at hlength
    omega
  | cons c rest ih =>
    rw [tokensFrom] at h
    split at h
    · rename_i hcut
      obtain ⟨hblank, rfl⟩ : isBlank c = true ∧ depth = 0 := by simpa using hcut
      have hstep (front : List Char) : depthOver 0 (c :: front) = depthOver 0 front := by
        rw [depthOver_cons, depthAfter_of_isBlank hblank]
      by_cases hne : current = []
      · subst hne
        obtain ⟨front, back, rfl, hdepth, hfront, hback⟩ := ih h
        refine ⟨c :: front, back, rfl, (hstep front).trans hdepth, ?_, hback⟩
        rw [tokensFrom_blank hblank, hfront]
        rfl
      · rw [finished_of_ne_nil hne, List.singleton_append] at h
        cases before with
        | nil =>
          obtain ⟨rfl, hrest⟩ := List.cons.inj h
          refine ⟨[], c :: rest, rfl, rfl, finished_of_ne_nil hne, ?_⟩
          rw [tokenize, tokensFrom_blank hblank, ← hrest]
          rfl
        | cons first before =>
          obtain ⟨rfl, hrest⟩ := List.cons.inj h
          obtain ⟨front, back, rfl, hdepth, hfront, hback⟩ := ih hrest
          refine ⟨c :: front, back, rfl, (hstep front).trans hdepth, ?_, hback⟩
          rw [tokensFrom_blank hblank, hfront, finished_of_ne_nil hne]
          rfl
    · rename_i hcut
      obtain ⟨front, back, rfl, hdepth, hfront, hback⟩ := ih h
      refine ⟨c :: front, back, rfl, hdepth, ?_, hback⟩
      rw [tokensFrom, if_neg hcut]
      exact hfront

/-! ## 4. Cutting once more -/

/-- **Tokens with a blank between each two are cut into the same tokens.** -/
theorem tokenize_joined {tokens : List (List Char)} (h : AreCut tokens) :
    tokenize ([' '].intercalate tokens) = tokens := by
  induction tokens with
  | nil => rfl
  | cons t tokens ih =>
    have hne : t.reverse ≠ [] := fun hnil =>
      h.ne_nil t List.mem_cons_self (List.reverse_eq_nil_iff.mp hnil)
    have hread (rest : List Char) : tokenize (t ++ rest)
        = tokensFrom t.reverse (depthOver 0 t) rest := by
      rw [tokenize, tokensFrom_unbroken (h.unbroken t List.mem_cons_self), List.append_nil]
    have hlast : finished t.reverse = [t] := by
      rw [finished_of_ne_nil hne, List.reverse_reverse]
    cases tokens with
    | nil =>
      have hsingle := hread []
      rw [List.append_nil] at hsingle
      rw [List.intercalate_singleton, hsingle, tokensFrom, hlast]
    | cons u tokens =>
      have hsettled : depthOver 0 t = 0 := h.settled t List.mem_cons_self
      rw [List.intercalate_cons_cons, List.append_assoc, hread, hsettled, List.singleton_append,
        tokensFrom_blank (by decide), hlast]
      exact congrArg (t :: ·) (ih h.tail)

/-- **A line is cut without loss.** No token is empty, and together the tokens are the line without
    its blanks outside all parentheses. Behind each token but the last nothing is open, neither in the
    token nor in the line, and the line goes on from there as a line of its own. All blanks in a token
    stand in open parentheses. And the tokens with one blank between each two are cut into the same
    tokens. -/
theorem tokenize_lossless (line : List Char) :
    (∀ t ∈ tokenize line, t ≠ [])
      ∧ (tokenize line).flatten = outsideGaps 0 line
      ∧ (∀ t ∈ (tokenize line).dropLast, depthOver 0 t = 0)
      ∧ (∀ before t after, tokenize line = before ++ t :: after → after ≠ [] →
          ∃ front back, line = front ++ back ∧ depthOver 0 front = 0
            ∧ tokenize front = before ++ [t] ∧ tokenize back = after)
      ∧ (∀ t ∈ tokenize line, IsUnbroken 0 t)
      ∧ tokenize ([' '].intercalate (tokenize line)) = tokenize line := by
  have hcut := areCut_tokenize line
  refine ⟨hcut.ne_nil, ?_, hcut.settled, fun before t after h hafter => exists_front h hafter,
    hcut.unbroken, tokenize_joined hcut⟩
  exact flatten_tokensFrom [] 0 line

example : tokenize ['a', ')', ' ', '2', '(', 'C', ' ', 'D', ')', ' ', ' ', '(', 'E', ' ']
    = [['a', ')'], ['2', '(', 'C', ' ', 'D', ')'], ['(', 'E', ' ']] := by decide

end Cantilena.Notation
