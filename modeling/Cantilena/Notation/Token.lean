import Cantilena.Text.Blank

/-!
# Tokens of a notation line

A line is cut at the blanks that stand outside all parentheses.

* `tokensFrom` -- the scan: the characters of the token being read, the last first, and the
  number of parentheses open. A closing parenthesis with none open opens and closes nothing;
* `tokenize` -- the tokens of a line.
-/

namespace Cantilena.Notation

open Text (isBlank)

/-- The token that has been read, if it has any character. -/
def finished (current : List Char) : List (List Char) :=
  if current.isEmpty then [] else [current.reverse]

/-- The number of open parentheses after a character. -/
def depthAfter (depth : Nat) (c : Char) : Nat :=
  if c == '(' then depth + 1 else if c == ')' then depth - 1 else depth

/-- The tokens of the rest of a line. -/
def tokensFrom (current : List Char) (depth : Nat) : List Char → List (List Char)
  | [] => finished current
  | c :: rest =>
    if isBlank c && depth == 0 then finished current ++ tokensFrom [] 0 rest
    else tokensFrom (c :: current) (depthAfter depth c) rest

/-- The tokens of a line. -/
def tokenize (line : List Char) : List (List Char) := tokensFrom [] 0 line

theorem length_of_mem_finished {current t : List Char} (h : t ∈ finished current) :
    t.length = current.length := by
  unfold finished at h
  split at h
  · simp at h
  · simp at h; simp [h]

theorem length_of_mem_tokensFrom {current : List Char} {depth : Nat} {line t : List Char}
    (h : t ∈ tokensFrom current depth line) : t.length ≤ current.length + line.length := by
  induction line generalizing current depth with
  | nil => simp [length_of_mem_finished h]
  | cons c rest ih =>
    unfold tokensFrom at h
    split at h
    · rcases List.mem_append.1 h with h | h
      · have := length_of_mem_finished h; simp; omega
      · have := ih h; simp at this ⊢; omega
    · have := ih h; simp at this ⊢; omega

/-- A token is no longer than its line. -/
theorem length_of_mem_tokenize {line t : List Char} (h : t ∈ tokenize line) :
    t.length ≤ line.length := by
  have := length_of_mem_tokensFrom h
  simpa using this

end Cantilena.Notation
