import Cantilena.Notation.Repeat
import Cantilena.Proofs.Notation.Scanning
import Cantilena.Proofs.Number.Decimal
import Cantilena.Proofs.Outcome

/-!
# What items stand for

* `Item.flat`, `flatItems` -- the tokens that items stand for where nothing is too large;
* `Item.Fits`, `ItemsFit` -- every group in an item has a count that can be read, and a body that
  stands for no more tokens than a limit;
* `flat_of_expandItems` -- an expansion that has a result gives the tokens that the items stand for;
* `expandItems_of_fits` -- an expansion has a result where all sizes are within the limit;
* `Item.ofToken_group` -- the item of a group as it is written.
-/

namespace Cantilena.Notation

open Number (IsNumeral wholeNumber)
open Text (isAsciiDigit IsGap)

/-! ## 1. The tokens of items -/

/-- How often the body of a group is copied. -/
def copies (digits : List Char) : Nat :=
  match wholeNumber digits with
  | .ok n => n.toNat
  | .error _ => 0

mutual

/-- The tokens that an item stands for where nothing is too large. -/
def Item.flat : Item → List (List Char)
  | .literal text => [text]
  | .group digits body => (List.replicate (copies digits) (flatItems body)).flatten

/-- The tokens that items stand for where nothing is too large. -/
def flatItems : List Item → List (List Char)
  | [] => []
  | item :: rest => item.flat ++ flatItems rest

end

mutual

/-- Every group in an item has a count, and a body that stands for no more tokens than a limit. -/
def Item.Fits (limit : Int) : Item → Prop
  | .literal _ => True
  | .group digits body =>
    (∃ n : Nat, wholeNumber digits = .ok n) ∧ (flatItems body).length ≤ limit
      ∧ ItemsFit limit body

/-- The same of every item of a list. -/
def ItemsFit (limit : Int) : List Item → Prop
  | [] => True
  | item :: rest => item.Fits limit ∧ ItemsFit limit rest

end

/-! ## 2. Expansion -/

theorem toList_appendCopies (tokens body : Array (List Char)) (n : Nat) :
    (appendCopies tokens body n).toList
      = tokens.toList ++ (List.replicate n body.toList).flatten := by
  induction n generalizing tokens with
  | zero => simp [appendCopies]
  | succ n ih => rw [appendCopies, ih, List.replicate_succ]; simp

/-- Copies are left out where there is nothing to copy; that makes no difference. -/
theorem toList_copied (tokens body : Array (List Char)) (n : Nat) :
    (if body.isEmpty then tokens else appendCopies tokens body n).toList
      = tokens.toList ++ (List.replicate n body.toList).flatten := by
  split
  · rename_i h
    obtain rfl : body = #[] := Array.isEmpty_iff.mp h
    simp
  · exact toList_appendCopies tokens body n

theorem expandItem_group_eq_ok {limit : Int} {tokens out : Array (List Char)} {digits : List Char}
    {body : List Item} :
    expandItem limit tokens (.group digits body) = .ok out ↔
      ∃ count copied, wholeNumber digits = .ok count ∧ expandItems limit #[] body = .ok copied
        ∧ ¬ limit < tokens.size + count * copied.size
        ∧ (if copied.isEmpty then tokens else appendCopies tokens copied count.toNat) = out := by
  rw [expandItem]
  simp only [bind_eq_ok, check_eq_ok, pure_eq_ok]
  constructor
  · rintro ⟨count, hc, copied, hb, hl, ho⟩
    exact ⟨count, copied, hc, hb, hl, ho⟩
  · rintro ⟨count, copied, hc, hb, hl, ho⟩
    exact ⟨count, hc, copied, hb, hl, ho⟩

theorem expandItems_cons_eq_ok {limit : Int} {tokens out : Array (List Char)} {item : Item}
    {rest : List Item} :
    expandItems limit tokens (item :: rest) = .ok out ↔
      ∃ longer, expandItem limit tokens item = .ok longer ∧ ¬ limit < longer.size
        ∧ expandItems limit longer rest = .ok out := by
  rw [expandItems]
  simp only [bind_eq_ok, check_eq_ok]

mutual

theorem flat_of_expandItem {limit : Int} : ∀ {item : Item} {tokens out : Array (List Char)},
    expandItem limit tokens item = .ok out → out.toList = tokens.toList ++ item.flat
  | .literal text, tokens, out, h => by
      rw [expandItem, Except.ok.injEq] at h
      rw [← h, Item.flat, Array.toList_push]
  | .group digits body, tokens, out, h => by
      obtain ⟨count, copied, hc, hb, -, rfl⟩ := expandItem_group_eq_ok.mp h
      have hcopied := flat_of_expandItems hb
      rw [toList_copied, hcopied, Item.flat, copies, hc]
      simp

/-- **An expansion that has a result gives the tokens that the items stand for.** -/
theorem flat_of_expandItems {limit : Int} : ∀ {items : List Item}
    {tokens out : Array (List Char)},
    expandItems limit tokens items = .ok out → out.toList = tokens.toList ++ flatItems items
  | [], tokens, out, h => by
      rw [expandItems, Except.ok.injEq] at h
      rw [← h, flatItems, List.append_nil]
  | item :: rest, tokens, out, h => by
      obtain ⟨longer, hi, -, hr⟩ := expandItems_cons_eq_ok.mp h
      rw [flat_of_expandItems hr, flat_of_expandItem hi, flatItems, List.append_assoc]

end

mutual

theorem expandItem_of_fits {limit : Int} : ∀ {item : Item} (tokens : Array (List Char)),
    item.Fits limit → ((tokens.size + item.flat.length : Nat) : Int) ≤ limit →
    ∃ out, expandItem limit tokens item = .ok out
  | .literal text, tokens, _, _ => ⟨tokens.push text, by rw [expandItem]⟩
  | .group digits body, tokens, hf, hs => by
      rw [Item.Fits] at hf
      obtain ⟨⟨n, hn⟩, hbody, hfits⟩ := hf
      obtain ⟨copied, hb⟩ := expandItems_of_fits #[] hfits (by simpa using hbody)
      have hsize : copied.size = (flatItems body).length := by
        have := congrArg List.length (flat_of_expandItems hb)
        simpa using this
      have hflat : (Item.group digits body).flat.length = n * copied.size := by
        rw [Item.flat, copies, hn, hsize]
        simp
      rw [hflat] at hs
      refine ⟨_, expandItem_group_eq_ok.mpr ⟨n, copied, hn, hb, ?_, rfl⟩⟩
      push_cast at hs
      omega

/-- **An expansion has a result where all sizes are within the limit.** -/
theorem expandItems_of_fits {limit : Int} : ∀ {items : List Item} (tokens : Array (List Char)),
    ItemsFit limit items → ((tokens.size + (flatItems items).length : Nat) : Int) ≤ limit →
    ∃ out, expandItems limit tokens items = .ok out
  | [], tokens, _, _ => ⟨tokens, by rw [expandItems]⟩
  | item :: rest, tokens, hf, hs => by
      rw [ItemsFit] at hf
      rw [flatItems, List.length_append] at hs
      obtain ⟨longer, hi⟩ := expandItem_of_fits tokens hf.1 (by omega)
      have hlonger : longer.size = tokens.size + item.flat.length := by
        have := congrArg List.length (flat_of_expandItem hi)
        simpa using this
      obtain ⟨out, hr⟩ := expandItems_of_fits longer hf.2 (by omega)
      exact ⟨out, expandItems_cons_eq_ok.mpr ⟨longer, hi, by omega, hr⟩⟩

end

/-- Expansion in full, at the level of tokens. -/
theorem expand_of_fits {limit : Int} {tokens : List (List Char)}
    (hf : ItemsFit limit (tokens.map Item.ofToken))
    (hs : (flatItems (tokens.map Item.ofToken)).length ≤ limit) :
    expand tokens limit = .ok (flatItems (tokens.map Item.ofToken)) := by
  obtain ⟨out, h⟩ := expandItems_of_fits #[] hf (by simpa using hs)
  have := flat_of_expandItems h
  rw [expand, map_eq_ok]
  exact ⟨out, h, by simpa using this⟩

theorem flat_of_expand {limit : Int} {tokens out : List (List Char)}
    (h : expand tokens limit = .ok out) : out = flatItems (tokens.map Item.ofToken) := by
  obtain ⟨array, he, rfl⟩ := map_eq_ok.mp h
  simpa using flat_of_expandItems he

/-! ## 3. Groups as they are written -/

theorem isPlain_numeral {digits : List Char} {n : Nat} (h : IsNumeral digits n) :
    IsPlain digits := by
  intro c hc
  have hd := h.isDigit c hc
  exact ⟨Number.isBlank_ascii hd, Number.ne_of_isAsciiDigit hd (by decide),
    Number.ne_of_isAsciiDigit hd (by decide)⟩

theorem closing?_append (body : List Char) : closing? (body ++ [')']) = some body := by
  simp [closing?]

theorem splitGroup?_group {digits : List Char} (hne : digits ≠ [])
    (hd : ∀ c ∈ digits, isAsciiDigit c = true) (body : List Char) :
    splitGroup? (digits ++ '(' :: body ++ [')']) = some (digits, body) := by
  have hopen : ¬ isAsciiDigit '(' = true := by decide
  have ht : (digits ++ '(' :: (body ++ [')'])).takeWhile isAsciiDigit = digits := by
    rw [List.takeWhile_append_of_pos hd, List.takeWhile_cons_of_neg hopen, List.append_nil]
  have hr : (digits ++ '(' :: (body ++ [')'])).dropWhile isAsciiDigit
      = '(' :: (body ++ [')']) := by
    rw [List.dropWhile_append_of_pos hd, List.dropWhile_cons_of_neg hopen]
  rw [List.append_assoc, List.cons_append, splitGroup?, ht, hr]
  simp [hne, closing?_append]

/-- A text without an opening parenthesis is no group. -/
theorem splitGroup?_eq_none {text : List Char} (h : '(' ∉ text) : splitGroup? text = none := by
  unfold splitGroup?
  split
  · rename_i rest hr
    have : '(' ∈ text := (List.dropWhile_suffix _).subset (hr ▸ List.mem_cons_self)
    exact absurd this h
  · rfl

theorem Item.ofToken_literal {text : List Char} (h : splitGroup? text = none) :
    Item.ofToken text = .literal text := by
  rw [Item.ofToken]
  split
  · rfl
  · rename_i hs
    rw [h] at hs
    cases hs

theorem ofToken_plain {text : List Char} (h : IsPlain text) :
    Item.ofToken text = .literal text :=
  Item.ofToken_literal (splitGroup?_eq_none fun hm => (h _ hm).2.1 rfl)

/-- **The item of a group as it is written**: its body is cut into tokens of its own. -/
theorem Item.ofToken_group {digits : List Char} (hne : digits ≠ [])
    (hd : ∀ c ∈ digits, isAsciiDigit c = true) (body : List Char) :
    Item.ofToken (digits ++ '(' :: body ++ [')'])
      = .group digits ((tokenize (Text.strip body)).map Item.ofToken) := by
  have h := splitGroup?_group hne hd body
  rw [Item.ofToken]
  split
  · rename_i hs
    rw [h] at hs
    cases hs
  · rename_i count inner hs
    rw [h] at hs
    cases hs
    congr 1
    exact List.attach_map_val

end Cantilena.Notation
