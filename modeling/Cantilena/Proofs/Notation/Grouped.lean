import Cantilena.Proofs.Notation.Numbered

/-!
# The groups of a token

A token can be a group, the tokens of its body can be groups in turn, and so on. What is asked of all
groups of a token at once is asked of it itself and of the tokens of its body.

* `HasGroup` -- the digits and the body of a group at some depth of a token;
* `forall_hasGroup_iff` -- all groups of a token are the token itself and those in its body;
* `exists_gap_of_splitGroup?` -- a group as it is written;
* `unlimited` -- the tokens that tokens stand for where nothing is too large.
-/

namespace Cantilena.Notation

open Text (IsGap)

variable {token digits body : List Char}

/-! ## 1. Groups at any depth -/

/-- A token is a group with some digits and some body, or a token of its body has such a group. -/
inductive HasGroup : List Char → List Char → List Char → Prop
  | self {token digits body : List Char} (h : splitGroup? token = some (digits, body)) :
    HasGroup token digits body
  | inner {token digits body t own text : List Char}
    (h : splitGroup? token = some (digits, body)) (ht : t ∈ tokenize (Text.strip body))
    (hgroup : HasGroup t own text) : HasGroup token own text

theorem not_hasGroup (h : splitGroup? token = none) : ¬ HasGroup token digits body := by
  intro hgroup
  cases hgroup with
  | self hself =>
    rw [h] at hself
    cases hself
  | inner houter _ _ =>
    rw [h] at houter
    cases houter

/-- **All groups of a group** are the group itself and those of the tokens of its body. -/
theorem forall_hasGroup_iff {P : List Char → List Char → Prop}
    (h : splitGroup? token = some (digits, body)) :
    (∀ own text, HasGroup token own text → P own text)
      ↔ P digits body ∧ ∀ t ∈ tokenize (Text.strip body),
        ∀ own text, HasGroup t own text → P own text := by
  constructor
  · intro hall
    refine ⟨hall digits body (.self h), fun t ht own text hgroup => ?_⟩
    exact hall own text (.inner h ht hgroup)
  · rintro ⟨hself, hinner⟩ own text hgroup
    cases hgroup with
    | self hown =>
      obtain ⟨rfl, rfl⟩ := Prod.mk.inj (Option.some.inj (h.symm.trans hown))
      exact hself
    | inner houter ht hdeeper =>
      obtain ⟨rfl, rfl⟩ := Prod.mk.inj (Option.some.inj (h.symm.trans houter))
      exact hinner _ ht own text hdeeper

/-- The digits of a group are cut from its token. -/
theorem HasGroup.digits_infix (h : HasGroup token digits body) : digits <:+: token := by
  induction h with
  | self h => exact (of_splitGroup? h).1.2.2
  | inner h ht _ ih => exact ih.trans (infix_of_mem_body h ht)

/-! ## 2. Groups as they are written -/

/-- The text of a body ends in front of its last parenthesis, behind which a line feed may follow. -/
theorem exists_gap_of_closing? {s : List Char} (h : closing? s = some body) :
    ∃ gap, IsGap gap ∧ s = body ++ [')'] ++ gap := by
  unfold closing? at h
  split at h
  · rename_i front hfront
    obtain rfl := Option.some.inj h
    refine ⟨[], Text.isGap_nil, ?_⟩
    rw [← List.reverse_reverse s, hfront, List.reverse_cons, List.append_nil]
  · rename_i front hfront
    obtain rfl := Option.some.inj h
    refine ⟨['\n'], List.forall_mem_singleton.mpr (by decide), ?_⟩
    rw [← List.reverse_reverse s, hfront, List.reverse_cons, List.reverse_cons]
  · cases h

/-- **A group as it is written**: its digits, and its body in parentheses, with nothing but blanks
    behind them. -/
theorem exists_gap_of_splitGroup? (h : splitGroup? token = some (digits, body)) :
    ∃ gap, IsGap gap ∧ token = digits ++ ('(' :: body ++ [')']) ++ gap := by
  unfold splitGroup? at h
  simp only at h
  split at h
  · rename_i rest hrest
    split at h
    · cases h
    · obtain ⟨text, hclosing, he⟩ := Option.map_eq_some_iff.mp h
      obtain ⟨rfl, rfl⟩ := Prod.mk.inj he
      obtain ⟨gap, hgap, hbody⟩ := exists_gap_of_closing? hclosing
      have htoken : token = token.takeWhile Text.isAsciiDigit ++ '(' :: rest := by
        rw [← hrest, List.takeWhile_append_dropWhile]
      refine ⟨gap, hgap, htoken.trans ?_⟩
      simp only [hbody, List.append_assoc, List.cons_append]
  · cases h

/-! ## 3. What tokens stand for -/

/-- The tokens that tokens stand for where nothing is too large. -/
def unlimited (tokens : List (List Char)) : List (List Char) :=
  flatItems (tokens.map Item.ofToken)

theorem mem_unlimited {tokens : List (List Char)} {t : List Char} :
    t ∈ unlimited tokens ↔ ∃ token ∈ tokens, t ∈ (Item.ofToken token).flat := by
  rw [unlimited, mem_flatItems]
  constructor
  · rintro ⟨item, hitem, ht⟩
    obtain ⟨token, htoken, rfl⟩ := List.mem_map.mp hitem
    exact ⟨token, htoken, ht⟩
  · rintro ⟨token, htoken, ht⟩
    exact ⟨Item.ofToken token, List.mem_map_of_mem htoken, ht⟩

/-- A group stands for as many copies of what its body stands for as its count says. -/
theorem flat_ofToken_group (h : splitGroup? token = some (digits, body)) :
    (Item.ofToken token).flat
      = (List.replicate (copies digits) (unlimited (tokenize (Text.strip body)))).flatten := by
  rw [Item.ofToken_eq_group h, Item.flat]
  rfl

/-- A token that is no group stands for itself. -/
theorem flat_ofToken_literal (h : splitGroup? token = none) : (Item.ofToken token).flat = [token] := by
  rw [Item.ofToken_literal h, Item.flat]

end Cantilena.Notation
