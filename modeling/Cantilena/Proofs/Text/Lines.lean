import Cantilena.Text.Line

/-!
# Lines of a text

* `of_mem_splitLines` -- the lines of a text are cut from it and have no line end in them;
* `splitLines_joined` -- lines that are joined by line feeds are the lines of the joined text, but
  for an empty line at its end.
-/

namespace Cantilena.Text

/-- A text that is no more than one line: no character ends a line in it. -/
def IsLine (s : List Char) : Prop := ∀ c ∈ s, isLineEnd c = false

theorem splitLinesFrom_cons {c : Char} (hc : isLineEnd c = false) (current rest : List Char) :
    splitLinesFrom current (c :: rest) = splitLinesFrom (c :: current) rest := by
  rw [splitLinesFrom, hc]
  · rfl
  · rintro tail rfl -
    cases hc

theorem splitLinesFrom_lineFeed (current rest : List Char) :
    splitLinesFrom current ('\n' :: rest) = current.reverse :: splitLinesFrom [] rest := by
  rw [splitLinesFrom]
  · rfl
  · intro tail he
    cases he

/-- A line goes to the line being read as a whole. -/
theorem splitLinesFrom_append {line : List Char} (h : IsLine line) (current rest : List Char) :
    splitLinesFrom current (line ++ rest) = splitLinesFrom (line.reverse ++ current) rest := by
  induction line generalizing current with
  | nil => rfl
  | cons c line ih =>
    rw [List.cons_append, splitLinesFrom_cons (h c List.mem_cons_self),
      ih fun b hb => h b (List.mem_cons_of_mem c hb)]
    simp

theorem of_mem_splitLinesFrom {current text line : List Char} (hcurrent : IsLine current)
    (h : line ∈ splitLinesFrom current text) :
    line <:+: current.reverse ++ text ∧ IsLine line := by
  have hreverse {current : List Char} (h : IsLine current) : IsLine current.reverse :=
    fun c hc => h c (List.mem_reverse.mp hc)
  induction current, text using splitLinesFrom.induct with
  | case1 current hempty =>
    rw [splitLinesFrom, if_pos hempty] at h
    cases h
  | case2 current hne =>
    rw [splitLinesFrom, if_neg hne] at h
    obtain rfl := List.mem_singleton.mp h
    exact ⟨(List.prefix_append _ _).isInfix, hreverse hcurrent⟩
  | case3 current rest ih =>
    rw [splitLinesFrom] at h
    rcases List.mem_cons.mp h with rfl | h
    · exact ⟨(List.prefix_append _ _).isInfix, hreverse hcurrent⟩
    · obtain ⟨hwithin, hline⟩ := ih (fun c hc => by cases hc) h
      refine ⟨hwithin.trans (List.IsSuffix.isInfix ⟨current.reverse ++ ['\r', '\n'], ?_⟩), hline⟩
      simp
  | case4 current c rest hne hend ih =>
    rw [splitLinesFrom, if_pos hend] at h
    · rcases List.mem_cons.mp h with rfl | h
      · exact ⟨(List.prefix_append _ _).isInfix, hreverse hcurrent⟩
      · obtain ⟨hwithin, hline⟩ := ih (fun c hc => by cases hc) h
        refine ⟨hwithin.trans (List.IsSuffix.isInfix ⟨current.reverse ++ [c], ?_⟩), hline⟩
        simp
    · exact hne
  | case5 current c rest hne hend ih =>
    have hc : isLineEnd c = false := Bool.eq_false_iff.mpr hend
    rw [splitLinesFrom_cons hc] at h
    have hmore : IsLine (c :: current) := by
      intro b hb
      rcases List.mem_cons.mp hb with rfl | hb
      · exact hc
      · exact hcurrent b hb
    obtain ⟨hwithin, hline⟩ := ih hmore h
    refine ⟨?_, hline⟩
    rwa [List.reverse_cons, List.append_assoc, List.singleton_append] at hwithin

/-- **The lines of a text are cut from it, and no line ends in them.** -/
theorem of_mem_splitLines {text line : List Char} (h : line ∈ splitLines text) :
    line <:+: text ∧ IsLine line :=
  of_mem_splitLinesFrom (fun c hc => by cases hc) h

/-- A text without line ends is one line, if it is not empty. -/
theorem splitLines_of_isLine {line : List Char} (h : IsLine line) :
    splitLines line = if line.isEmpty then [] else [line] := by
  have := splitLinesFrom_append h [] []
  rwa [List.append_nil, List.append_nil, splitLinesFrom, List.reverse_reverse,
    List.isEmpty_reverse] at this

/-- Lines joined by line feeds. -/
def joined (lines : List (List Char)) : List Char := List.intercalate ['\n'] lines

/-- **Lines that are joined are the lines of the joined text**, but for an empty line at the end. -/
theorem splitLines_joined {lines : List (List Char)} (h : ∀ line ∈ lines, IsLine line) :
    ∃ last, (last = [] ∨ last = [[]]) ∧ splitLines (joined lines) ++ last = lines := by
  induction lines with
  | nil => exact ⟨[], .inl rfl, rfl⟩
  | cons line rest ih =>
    have hline := h line List.mem_cons_self
    cases rest with
    | nil =>
      have hbare : joined [line] = line := by simp [joined]
      rw [hbare, splitLines_of_isLine hline]
      cases line with
      | nil => exact ⟨[[]], .inr rfl, rfl⟩
      | cons c line => exact ⟨[], .inl rfl, rfl⟩
    | cons next rest =>
      obtain ⟨last, hlast, hrest⟩ := ih fun line hmem => h line (List.mem_cons_of_mem _ hmem)
      have hfirst : splitLines (joined (line :: next :: rest))
          = line :: splitLines (joined (next :: rest)) := by
        have := splitLinesFrom_append hline [] ('\n' :: joined (next :: rest))
        rw [List.append_nil, splitLinesFrom_lineFeed, List.reverse_reverse] at this
        simpa [joined, splitLines] using this
      refine ⟨last, hlast, ?_⟩
      rw [hfirst, List.cons_append, hrest]

end Cantilena.Text
