import Cantilena.Notation.Token

/-!
# What a line is cut into

The scan of a line keeps a depth, the number of parentheses open. This file says what it does with
the three kinds of text that lines are made of:

* gaps (`IsGap`) end a token at depth 0 and are kept deeper down;
* plain text (`IsPlain`), without blanks and parentheses, goes to the token being read at any depth;
* balanced text (`Balanced`) in parentheses goes to the token being read, whatever stands in it
  (`tokensFrom_group`).

Hence the blanks at the ends of a balanced text do not matter (`tokenize_strip`), which is what
happens to the body of a group.
-/

namespace Cantilena

/-! ## 1. Blanks at the ends of a text -/

namespace Text

/-- A text of blanks. -/
def IsGap (s : List Char) : Prop := ∀ c ∈ s, isBlank c = true

theorem isGap_nil : IsGap [] := fun _ h => absurd h List.not_mem_nil

theorem isGap_takeWhile (s : List Char) : IsGap (s.takeWhile isBlank) := by
  intro c hc
  exact List.all_eq_true.mp List.all_takeWhile c hc

theorem dropEnd_append_takeWhile (p : Char → Bool) (s : List Char) :
    dropEnd p s ++ (s.reverse.takeWhile p).reverse = s := by
  have h : s.reverse.takeWhile p ++ s.reverse.dropWhile p = s.reverse := List.takeWhile_append_dropWhile
  rw [dropEnd, ← List.reverse_append, h, List.reverse_reverse]

/-- **Stripping takes a gap off either end** and leaves the rest as it is. -/
theorem exists_strip (s : List Char) :
    ∃ before after, IsGap before ∧ IsGap after ∧ s = before ++ strip s ++ after := by
  refine ⟨s.takeWhile isBlank, ((s.dropWhile isBlank).reverse.takeWhile isBlank).reverse,
    isGap_takeWhile s, ?_, ?_⟩
  · intro c hc
    exact isGap_takeWhile _ c (List.mem_reverse.mp hc)
  · rw [strip, List.append_assoc, dropEnd_append_takeWhile]
    exact List.takeWhile_append_dropWhile.symm

/-- A text that starts with a character that is no blank keeps it when it is stripped. -/
theorem strip_cons {c : Char} {s : List Char} (hc : isBlank c = false) :
    ∃ after rest, IsGap after ∧ s = rest ++ after ∧ strip (c :: s) = c :: rest := by
  obtain ⟨before, after, hb, ha, h⟩ := exists_strip (c :: s)
  cases before with
  | cons b tail =>
    have hcb : c = b := by simpa using congrArg List.head? h
    have := hb b List.mem_cons_self
    rw [← hcb, hc] at this
    cases this
  | nil =>
    rw [List.nil_append] at h
    cases hs : strip (c :: s) with
    | nil =>
      rw [hs, List.nil_append] at h
      have := ha c (h ▸ List.mem_cons_self)
      rw [hc] at this
      cases this
    | cons d rest =>
      rw [hs, List.cons_append, List.cons.injEq] at h
      exact ⟨after, rest, ha, h.2, by rw [h.1]⟩

end Text

namespace Notation

open Text (isBlank IsGap)

/-! ## 2. Depth -/

/-- The number of open parentheses after a text. -/
def depthOver (depth : Nat) (s : List Char) : Nat := s.foldl depthAfter depth

@[simp] theorem depthOver_nil (depth : Nat) : depthOver depth [] = depth := rfl

@[simp] theorem depthOver_cons (depth : Nat) (c : Char) (s : List Char) :
    depthOver depth (c :: s) = depthOver (depthAfter depth c) s := rfl

@[simp] theorem depthOver_append (depth : Nat) (s t : List Char) :
    depthOver depth (s ++ t) = depthOver (depthOver depth s) t := by
  simp [depthOver]

@[simp] theorem depthAfter_open (depth : Nat) : depthAfter depth '(' = depth + 1 := rfl

@[simp] theorem depthAfter_close (depth : Nat) : depthAfter depth ')' = depth - 1 := rfl

theorem depthAfter_other {c : Char} (h₁ : c ≠ '(') (h₂ : c ≠ ')') (depth : Nat) :
    depthAfter depth c = depth := by
  simp [depthAfter, h₁, h₂]

theorem ne_of_isBlank {c : Char} (h : isBlank c = true) : c ≠ '(' ∧ c ≠ ')' := by
  constructor <;> rintro rfl <;> revert h <;> decide

theorem depthAfter_of_isBlank {c : Char} (h : isBlank c = true) (depth : Nat) :
    depthAfter depth c = depth :=
  depthAfter_other (ne_of_isBlank h).1 (ne_of_isBlank h).2 depth

theorem depthOver_gap {s : List Char} (h : IsGap s) (depth : Nat) : depthOver depth s = depth := by
  induction s with
  | nil => rfl
  | cons c s ih =>
    rw [depthOver_cons, depthAfter_of_isBlank (h c List.mem_cons_self)]
    exact ih fun x hx => h x (List.mem_cons_of_mem _ hx)

/-! ## 3. Plain and balanced texts -/

/-- A text without blanks and parentheses. -/
def IsPlain (s : List Char) : Prop := ∀ c ∈ s, isBlank c = false ∧ c ≠ '(' ∧ c ≠ ')'

/-- A text whose parentheses pair off: nowhere are more closed than were opened, and in the end as
    many. -/
structure Balanced (s : List Char) : Prop where
  closed_le : ∀ p, p <+: s → p.count ')' ≤ p.count '('
  settled : s.count '(' = s.count ')'

/-- Closing parentheses never outnumber the open ones and `depth` more: what is left of a text
    behind its first character, with the depth there. -/
theorem closed_le_tail {c : Char} {s : List Char} {depth : Nat}
    (h : ∀ p, p <+: c :: s → p.count ')' ≤ depth + p.count '(') :
    ∀ p, p <+: s → p.count ')' ≤ depthAfter depth c + p.count '(' := by
  intro p hp
  have h₁ := h (c :: p) (List.cons_prefix_cons.mpr ⟨rfl, hp⟩)
  by_cases ho : c = '('
  · subst ho
    simp at h₁ ⊢
    omega
  · by_cases hc : c = ')'
    · subst hc
      simp at h₁ ⊢
      omega
    · rw [depthAfter_other ho hc]
      simpa [ho, hc] using h₁

/-- While nothing is closed that was not opened, the depth counts what is open. -/
theorem depthOver_add_count {s : List Char} {depth : Nat}
    (h : ∀ p, p <+: s → p.count ')' ≤ depth + p.count '(') :
    depthOver depth s + s.count ')' = depth + s.count '(' := by
  induction s generalizing depth with
  | nil => rfl
  | cons c s ih =>
    have ih := ih (closed_le_tail h)
    rw [depthOver_cons]
    by_cases ho : c = '('
    · subst ho
      simp at ih ⊢
      omega
    · by_cases hc : c = ')'
      · subst hc
        have h₁ := h [')'] (List.cons_prefix_cons.mpr ⟨rfl, List.nil_prefix⟩)
        simp at h₁ ih ⊢
        omega
      · rw [depthAfter_other ho hc] at ih ⊢
        simpa [ho, hc] using ih

/-- The beginnings of two texts in a row are those of the first, and the first with those of the
    second. -/
theorem prefix_append_cases {p s t : List Char} (h : p <+: s ++ t) :
    p <+: s ∨ ∃ q, p = s ++ q ∧ q <+: t := by
  rcases List.prefix_or_prefix_of_prefix h (List.prefix_append s t) with hp | ⟨q, rfl⟩
  · exact Or.inl hp
  · exact Or.inr ⟨q, rfl, (List.prefix_append_right_inj s).mp h⟩

namespace Balanced

theorem depthOver {s : List Char} (h : Balanced s) (depth : Nat) :
    Notation.depthOver depth s = depth := by
  have hd : ∀ p, p <+: s → p.count ')' ≤ depth + p.count '(' := fun p hp =>
    Nat.le_trans (h.closed_le p hp) (Nat.le_add_left _ _)
  have := depthOver_add_count hd
  have := h.settled
  omega

theorem nil : Balanced [] where
  closed_le p hp := by rw [List.prefix_nil.mp hp]; exact Nat.le_refl _
  settled := rfl

theorem append {s t : List Char} (hs : Balanced s) (ht : Balanced t) : Balanced (s ++ t) where
  closed_le p hp := by
    rcases prefix_append_cases hp with hp | ⟨q, rfl, hq⟩
    · exact hs.closed_le p hp
    · have := ht.closed_le q hq
      have := hs.settled
      simp only [List.count_append]
      omega
  settled := by
    have := hs.settled
    have := ht.settled
    simp only [List.count_append]
    omega

/-- A text without parentheses is balanced. -/
theorem of_not_mem {s : List Char} (ho : '(' ∉ s) (hc : ')' ∉ s) : Balanced s where
  closed_le p hp := by
    rw [List.count_eq_zero_of_not_mem fun h => hc (hp.subset h)]
    exact Nat.zero_le _
  settled := by rw [List.count_eq_zero_of_not_mem ho, List.count_eq_zero_of_not_mem hc]

theorem of_isGap {s : List Char} (h : IsGap s) : Balanced s :=
  of_not_mem (fun hm => (ne_of_isBlank (h _ hm)).1 rfl) (fun hm => (ne_of_isBlank (h _ hm)).2 rfl)

theorem of_isPlain {s : List Char} (h : IsPlain s) : Balanced s :=
  of_not_mem (fun hm => (h _ hm).2.1 rfl) (fun hm => (h _ hm).2.2 rfl)

/-- A balanced text in parentheses is balanced. -/
theorem enclosed {s : List Char} (h : Balanced s) : Balanced ('(' :: s ++ [')']) where
  closed_le p hp := by
    cases p with
    | nil => exact Nat.le_refl _
    | cons c p =>
      rw [List.cons_append] at hp
      obtain ⟨hc, htail⟩ := List.cons_prefix_cons.mp hp
      subst hc
      rcases prefix_append_cases htail with hp | ⟨q, rfl, hq⟩
      · have := h.closed_le p hp
        simp
        omega
      · have := h.settled
        have hq₁ : q.count ')' ≤ 1 := by simpa using hq.sublist.count_le ')'
        have hq₂ : q.count '(' ≤ 0 := by simpa using hq.sublist.count_le '('
        simp
        omega
  settled := by
    have := h.settled
    simp
    omega

end Balanced

/-! ## 4. The scan -/

theorem finished_of_ne_nil {current : List Char} (h : current ≠ []) :
    finished current = [current.reverse] := by
  simp [finished, h]

theorem tokensFrom_blank {c : Char} (h : isBlank c = true) (current rest : List Char) :
    tokensFrom current 0 (c :: rest) = finished current ++ tokensFrom [] 0 rest := by
  simp [tokensFrom, h]

/-- Below a parenthesis, and everywhere but at a blank, a character goes to the token being read. -/
theorem tokensFrom_cons {c : Char} {depth : Nat} (h : isBlank c = false ∨ 0 < depth)
    (current rest : List Char) :
    tokensFrom current depth (c :: rest)
      = tokensFrom (c :: current) (depthAfter depth c) rest := by
  rw [tokensFrom, if_neg]
  rcases h with h | h
  · simp [h]
  · simp [Nat.ne_of_gt h]

/-- Plain text goes to the token being read, at any depth. -/
theorem tokensFrom_plain {s : List Char} (h : IsPlain s) (current rest : List Char) (depth : Nat) :
    tokensFrom current depth (s ++ rest) = tokensFrom (s.reverse ++ current) depth rest := by
  induction s generalizing current with
  | nil => rfl
  | cons c s ih =>
    obtain ⟨hb, ho, hc⟩ := h c List.mem_cons_self
    rw [List.cons_append, tokensFrom_cons (Or.inl hb), depthAfter_other ho hc,
      ih fun x hx => h x (List.mem_cons_of_mem _ hx)]
    simp

/-- Text that never closes the outermost parenthesis goes to the token being read. -/
theorem tokensFrom_within {s : List Char} {depth : Nat}
    (h : ∀ p, p <+: s → p.count ')' < depth + p.count '(') (current rest : List Char) :
    tokensFrom current depth (s ++ rest)
      = tokensFrom (s.reverse ++ current) (depthOver depth s) rest := by
  induction s generalizing current depth with
  | nil => rfl
  | cons c s ih =>
    have hpos : 0 < depth := by simpa using h [] List.nil_prefix
    have hle : ∀ p, p <+: c :: s → p.count ')' ≤ (depth - 1) + p.count '(' := fun p hp => by
      have := h p hp
      omega
    have htail : ∀ p, p <+: s → p.count ')' < depthAfter depth c + p.count '(' := by
      intro p hp
      have h₁ := h [c] (List.cons_prefix_cons.mpr ⟨rfl, List.nil_prefix⟩)
      have h₂ := closed_le_tail hle p hp
      by_cases ho : c = '('
      · subst ho
        simp at h₁ h₂ ⊢
        omega
      · by_cases hc : c = ')'
        · subst hc
          simp at h₁ h₂ ⊢
          omega
        · rw [depthAfter_other ho hc] at h₂ ⊢
          omega
    rw [List.cons_append, tokensFrom_cons (Or.inr hpos), ih htail, depthOver_cons]
    simp

/-- **A balanced text in parentheses goes to the token being read**, blanks and all. -/
theorem tokensFrom_group {s : List Char} (h : Balanced s) (current rest : List Char) :
    tokensFrom current 0 ('(' :: s ++ [')'] ++ rest)
      = tokensFrom (('(' :: s ++ [')']).reverse ++ current) 0 rest := by
  have hs : ∀ p, p <+: s → p.count ')' < 1 + p.count '(' := fun p hp => by
    have := h.closed_le p hp
    omega
  have ho : tokensFrom current 0 ('(' :: (s ++ (')' :: rest)))
      = tokensFrom ('(' :: current) 1 (s ++ (')' :: rest)) :=
    tokensFrom_cons (Or.inl (by decide)) _ _
  have hc : tokensFrom (s.reverse ++ '(' :: current) 1 (')' :: rest)
      = tokensFrom (')' :: (s.reverse ++ '(' :: current)) 0 rest :=
    tokensFrom_cons (Or.inl (by decide)) _ _
  calc tokensFrom current 0 ('(' :: s ++ [')'] ++ rest)
      = tokensFrom ('(' :: current) 1 (s ++ (')' :: rest)) := by rw [← ho]; simp
    _ = tokensFrom (s.reverse ++ '(' :: current) 1 (')' :: rest) := by
        rw [tokensFrom_within hs, h.depthOver]
    _ = tokensFrom (('(' :: s ++ [')']).reverse ++ current) 0 rest := by rw [hc]; simp

/-- A gap at depth 0 ends the token being read. -/
theorem tokensFrom_gap {s : List Char} (h : IsGap s) (current rest : List Char) :
    tokensFrom current 0 (s ++ rest)
      = if s = [] then tokensFrom current 0 rest
        else finished current ++ tokensFrom [] 0 rest := by
  induction s generalizing current with
  | nil => rfl
  | cons c s ih =>
    rw [List.cons_append, tokensFrom_blank (h c List.mem_cons_self),
      ih fun x hx => h x (List.mem_cons_of_mem _ hx)]
    simp [finished]

/-- A gap behind a text that leaves nothing open gives no token. -/
theorem tokensFrom_append_gap {s gap : List Char} (hg : IsGap gap) {current : List Char}
    {depth : Nat} (h : depthOver depth s = 0) :
    tokensFrom current depth (s ++ gap) = tokensFrom current depth s := by
  induction s generalizing current depth with
  | nil =>
    obtain rfl : depth = 0 := h
    have := tokensFrom_gap hg current []
    rw [List.append_nil] at this
    rw [List.nil_append, this]
    split
    · rfl
    · simp [tokensFrom, finished]
  | cons c s ih =>
    rw [List.cons_append, tokensFrom, tokensFrom]
    split
    · rename_i hc
      obtain ⟨hb, hd⟩ : isBlank c = true ∧ depth = 0 := by simpa using hc
      subst hd
      rw [depthOver_cons, depthAfter_of_isBlank hb] at h
      rw [ih h]
    · rw [ih h]

/-- A gap in front of a text gives no token. -/
theorem tokenize_gap_append {gap : List Char} (hg : IsGap gap) (s : List Char) :
    tokenize (gap ++ s) = tokenize s := by
  unfold tokenize
  rw [tokensFrom_gap hg]
  split
  · rfl
  · simp [finished]

/-- **The blanks at its ends do not matter to a text that leaves nothing open.** -/
theorem tokenize_strip {s : List Char} (h : depthOver 0 s = 0) :
    tokenize (Text.strip s) = tokenize s := by
  obtain ⟨before, after, hb, ha, he⟩ := Text.exists_strip s
  have hd : depthOver 0 (Text.strip s) = 0 := by
    rw [he, depthOver_append, depthOver_append, depthOver_gap hb, depthOver_gap ha] at h
    exact h
  calc tokenize (Text.strip s)
      = tokenize (Text.strip s ++ after) := (tokensFrom_append_gap ha hd).symm
    _ = tokenize (before ++ (Text.strip s ++ after)) := (tokenize_gap_append hb _).symm
    _ = tokenize s := by rw [← List.append_assoc, ← he]

end Notation

end Cantilena
