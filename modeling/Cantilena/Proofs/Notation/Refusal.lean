import Cantilena.Proofs.Notation.Numbered

/-!
# Which expansions are refused

An expansion is refused at the first size beyond the limit: the tokens of a body are counted before
those of the group around it, and the tokens so far after each item.

* `Item.IsCounted`, `areCounted_tokenize` -- items whose groups have counts, which those of numbered
  texts are;
* `refusal?` -- the size at which an expansion is refused, from the sizes of the items alone;
* `expandItems_eq` -- an expansion gives the tokens that the items stand for, or is refused at that
  size;
* `refusal?_eq_none_iff` -- nothing is refused just where all sizes are within the limit.
-/

namespace Cantilena.Notation

open Number (wholeNumber IsNumeral)

/-! ## 1. Items with counts -/

mutual

/-- Every group in an item has a count. -/
def Item.IsCounted : Item → Prop
  | .literal _ => True
  | .group digits body => (∃ n : Nat, wholeNumber digits = .ok n) ∧ AreCounted body

/-- The same of every item of a list. -/
def AreCounted : List Item → Prop
  | [] => True
  | item :: rest => item.IsCounted ∧ AreCounted rest

end

theorem areCounted_of_forall {items : List Item} (h : ∀ item ∈ items, item.IsCounted) :
    AreCounted items := by
  induction items with
  | nil => trivial
  | cons item rest ih =>
    exact ⟨h item List.mem_cons_self, ih fun item hmem => h item (List.mem_cons_of_mem _ hmem)⟩

/-- The groups of numbered tokens have counts. -/
theorem isCounted_ofToken {token : List Char} (h : Text.IsNumbered token) :
    (Item.ofToken token).IsCounted := by
  induction token using Item.ofToken.induct with
  | case1 token hliteral =>
    rw [Item.ofToken_literal hliteral]
    trivial
  | case2 token digits body hgroup ih =>
    obtain ⟨⟨hne, hascii, hdigits⟩, -⟩ := of_splitGroup? hgroup
    have hreadable := h.isReadable hdigits fun c hc => Text.isDigit_of_isAsciiDigit (hascii c hc)
    have hnumeral : IsNumeral digits (Nat.ofDigitChars 10 digits 0) := ⟨hne, hascii, rfl⟩
    rw [Item.ofToken_eq_group hgroup]
    refine ⟨⟨Nat.ofDigitChars 10 digits 0, ?_⟩, areCounted_of_forall fun item hitem => ?_⟩
    · rw [Number.wholeNumber_numeral hnumeral, if_neg (Nat.not_lt.mpr hreadable.length_le)]
    · obtain ⟨inner, hinner, rfl⟩ := List.mem_map.mp hitem
      exact ih ⟨inner, hinner⟩ (h.of_part (infix_of_mem_body hgroup hinner))

theorem areCounted_tokenize {line : List Char} (h : Text.IsNumbered line) :
    AreCounted ((tokenize line).map Item.ofToken) := by
  refine areCounted_of_forall fun item hitem => ?_
  obtain ⟨token, htoken, rfl⟩ := List.mem_map.mp hitem
  exact isCounted_ofToken (h.of_part (infix_of_mem_tokenize htoken))

/-! ## 2. The size at which an expansion is refused -/

/-- A size that is beyond a limit. -/
def beyond? (limit : Int) (size : Nat) : Option Int := if limit < size then some size else none

mutual

/-- The size at which the body of an item is refused, if it is. -/
def Item.refusal? (limit : Int) : Item → Option Int
  | .literal _ => none
  | .group _ body => refusal? limit 0 body

/-- The size at which items behind some tokens are refused, if they are. -/
def refusal? (limit : Int) (size : Nat) : List Item → Option Int
  | [] => none
  | item :: rest =>
    ((item.refusal? limit).or (beyond? limit (size + item.flat.length))).or
      (refusal? limit (size + item.flat.length) rest)

end

/-- What an expansion gives: tokens with more behind them, unless it is refused at a size. -/
def granted (limit : Int) (tokens : Array (List Char)) (more : List (List Char)) :
    Option Int → Except Fault (Array (List Char))
  | none => .ok (tokens ++ more.toArray)
  | some requested => .error (refused limit requested)

/-- An item is expanded, and the tokens are counted. -/
def expandCounted (limit : Int) (tokens : Array (List Char)) (item : Item) :
    Except Fault (Array (List Char)) :=
  expandItem limit tokens item >>= fun longer =>
    if limit < longer.size then .error (refused limit longer.size) else .ok longer

theorem expandItems_cons (limit : Int) (tokens : Array (List Char)) (item : Item)
    (rest : List Item) : expandItems limit tokens (item :: rest)
      = expandCounted limit tokens item >>= fun longer => expandItems limit longer rest := by
  rw [expandItems, expandCounted]
  cases expandItem limit tokens item with
  | error cause => rfl
  | ok longer =>
    show (if limit < (longer.size : Int) then _ else _) = (if _ then _ else _ : Except _ _) >>= _
    by_cases h : limit < (longer.size : Int)
    · rw [if_pos h, if_pos h]
      rfl
    · rw [if_neg h, if_neg h]
      rfl

/-- Tokens that have been made are counted once. -/
theorem counted_eq (limit : Int) {tokens longer : Array (List Char)} {more : List (List Char)}
    (h : longer = tokens ++ more.toArray) :
    (if limit < longer.size then .error (refused limit longer.size) else .ok longer)
      = granted limit tokens more (beyond? limit (tokens.size + more.length)) := by
  have hsize : longer.size = tokens.size + more.length := by
    rw [h]
    simp
  unfold beyond?
  rw [hsize]
  split
  · rfl
  · rw [h]
    rfl

/-- A group is refused before its copies are made. -/
theorem expandItem_group {limit : Int} {tokens copied : Array (List Char)} {digits : List Char}
    {body : List Item} {n : Nat} (hn : wholeNumber digits = .ok n)
    (hbody : expandItems limit #[] body = .ok copied) :
    expandItem limit tokens (.group digits body)
      = if limit < (tokens.size + n * copied.size : Nat) then
          .error (refused limit (tokens.size + n * copied.size : Nat))
        else .ok (if copied.isEmpty then tokens else appendCopies tokens copied n) := by
  have hsize : ((tokens.size + n * copied.size : Nat) : Int)
      = (tokens.size : Int) + (n : Int) * copied.size := by
    rw [Int.natCast_add, Int.natCast_mul]
  rw [expandItem, hn, hbody, hsize]
  show (if limit < (tokens.size : Int) + (n : Int) * copied.size then throw _ >>= _ else pure _) = _
  split <;> rfl

mutual

theorem expandCounted_eq (limit : Int) : ∀ {item : Item} (tokens : Array (List Char)),
    item.IsCounted → expandCounted limit tokens item
      = granted limit tokens item.flat
        ((item.refusal? limit).or (beyond? limit (tokens.size + item.flat.length)))
  | .literal text, tokens, _ => by
      rw [expandCounted, expandItem, Item.refusal?, Option.none_or]
      exact counted_eq limit (by rw [Item.flat]; simp)
  | .group digits body, tokens, hcounted => by
      rw [Item.IsCounted] at hcounted
      obtain ⟨⟨n, hn⟩, hbody⟩ := hcounted
      have hcopied := expandItems_eq limit #[] hbody
      rw [expandCounted, Item.refusal?]
      cases hrefused : refusal? limit 0 body with
      | some requested =>
        rw [Array.size_empty, hrefused] at hcopied
        rw [expandItem, hn, hcopied]
        rfl
      | none =>
        rw [Array.size_empty, hrefused, granted, Array.empty_append] at hcopied
        have hflat : (Item.group digits body).flat
            = (List.replicate n (flatItems body)).flatten := by
          rw [Item.flat, copies, hn]
          rfl
        have hlength : (Item.group digits body).flat.length = n * (flatItems body).length := by
          rw [hflat]
          simp
        have hsize : (flatItems body).toArray.size = (flatItems body).length := List.size_toArray
        rw [expandItem_group hn hcopied, hsize, ← hlength, Option.none_or]
        by_cases hlimit : limit < (tokens.size + (Item.group digits body).flat.length : Nat)
        · rw [if_pos hlimit, beyond?, if_pos hlimit]
          rfl
        · rw [if_neg hlimit]
          refine counted_eq limit (Array.ext' ?_)
          rw [toList_copied, hflat, Array.toList_append]

/-- **An expansion gives the tokens that the items stand for**, unless a size is refused. -/
theorem expandItems_eq (limit : Int) : ∀ {items : List Item} (tokens : Array (List Char)),
    AreCounted items → expandItems limit tokens items
      = granted limit tokens (flatItems items) (refusal? limit tokens.size items)
  | [], tokens, _ => by
      rw [expandItems, flatItems, refusal?, granted]
      simp
  | item :: rest, tokens, hcounted => by
      rw [AreCounted] at hcounted
      rw [expandItems_cons, expandCounted_eq limit tokens hcounted.1, refusal?]
      cases (item.refusal? limit).or (beyond? limit (tokens.size + item.flat.length)) with
      | some requested => rfl
      | none =>
        have hrest := expandItems_eq limit (tokens ++ item.flat.toArray) hcounted.2
        rw [Array.size_append, List.size_toArray] at hrest
        rw [Option.none_or, flatItems]
        refine Eq.trans hrest ?_
        cases refusal? limit (tokens.size + item.flat.length) rest with
        | some requested => rfl
        | none => simp [granted]

end

/-- A row of numbered tokens is expanded to the tokens it stands for, unless a size is refused. -/
theorem expand_eq {tokens : List (List Char)} {limit : Int}
    (h : AreCounted (tokens.map Item.ofToken)) :
    expand tokens limit
      = (refusal? limit 0 (tokens.map Item.ofToken)).elim
        (.ok (flatItems (tokens.map Item.ofToken)))
        fun requested => .error (refused limit requested) := by
  rw [expand, expandItems_eq limit #[] h, Array.size_empty]
  cases refusal? limit 0 (tokens.map Item.ofToken) with
  | none => simp [granted, Except.map]
  | some requested => rfl

/-! ## 3. Sizes within the limit -/

theorem beyond?_eq_none {limit : Int} {size : Nat} :
    beyond? limit size = none ↔ (size : Int) ≤ limit := by
  unfold beyond?
  split
  · rename_i h
    exact iff_of_false (fun he => by cases he) (Int.not_le.mpr h)
  · rename_i h
    exact iff_of_true rfl (Int.not_lt.mp h)

mutual

theorem Item.refusal?_eq_none {limit : Int} (hlimit : 0 ≤ limit) : ∀ {item : Item},
    item.IsCounted → (item.refusal? limit = none ↔ item.Fits limit)
  | .literal _, _ => by
      rw [Item.refusal?, Item.Fits]
      exact iff_of_true rfl trivial
  | .group digits body, hcounted => by
      rw [Item.IsCounted] at hcounted
      have hbody := refusal?_eq_none hlimit 0 hcounted.2
      rw [Nat.zero_add] at hbody
      rw [Item.refusal?, hbody, Item.Fits]
      constructor
      · rintro ⟨hfits, hsize⟩
        refine ⟨hcounted.1, ?_, hfits⟩
        rcases hsize with rfl | hsize
        · exact hlimit
        · exact hsize
      · rintro ⟨-, hsize, hfits⟩
        exact ⟨hfits, .inr hsize⟩

theorem refusal?_eq_none {limit : Int} (hlimit : 0 ≤ limit) : ∀ {items : List Item} (size : Nat),
    AreCounted items → (refusal? limit size items = none
      ↔ ItemsFit limit items ∧ (items = [] ∨ ((size + (flatItems items).length : Nat) : Int) ≤ limit))
  | [], size, _ => by
      rw [refusal?, ItemsFit]
      exact iff_of_true rfl ⟨trivial, .inl rfl⟩
  | item :: rest, size, hcounted => by
      rw [AreCounted] at hcounted
      have hitem := Item.refusal?_eq_none hlimit hcounted.1
      have hrest := refusal?_eq_none hlimit (size + item.flat.length) hcounted.2
      rw [refusal?, Option.or_eq_none_iff, Option.or_eq_none_iff, hitem, hrest, beyond?_eq_none,
        ItemsFit, flatItems, List.length_append]
      constructor
      · rintro ⟨⟨hfits, hsize⟩, hfits', hsize'⟩
        refine ⟨⟨hfits, hfits'⟩, .inr ?_⟩
        rcases hsize' with rfl | hsize'
        · rw [flatItems]
          exact hsize
        · rwa [← Nat.add_assoc]
      · rintro ⟨⟨hfits, hfits'⟩, he | hsize⟩
        · cases he
        · exact ⟨⟨hfits, by omega⟩, hfits', .inr (by omega)⟩

end

/-- **Nothing is refused just where all sizes are within the limit**: the tokens of all items, and
    those of the body of each group. -/
theorem refusal?_eq_none_iff {limit : Int} {items : List Item} (hcounted : AreCounted items)
    (hne : items ≠ []) : refusal? limit 0 items = none
      ↔ ItemsFit limit items ∧ (flatItems items).length ≤ limit := by
  by_cases hlimit : 0 ≤ limit
  · rw [refusal?_eq_none hlimit 0 hcounted, Nat.zero_add]
    exact ⟨fun ⟨hfits, hsize⟩ => ⟨hfits, hsize.resolve_left hne⟩,
      fun ⟨hfits, hsize⟩ => ⟨hfits, .inr hsize⟩⟩
  · refine iff_of_false (fun h => ?_) fun ⟨_, hsize⟩ => ?_
    · obtain ⟨item, rest, rfl⟩ := List.exists_cons_of_ne_nil hne
      rw [refusal?, Option.or_eq_none_iff, Option.or_eq_none_iff, beyond?_eq_none] at h
      omega
    · omega

end Cantilena.Notation
