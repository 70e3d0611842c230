import Cantilena.Notation.Token
import Cantilena.Number.Numeral

/-!
# Repeat groups

A token of digits followed by a parenthesised body repeats the tokens of the body; groups nest.

* `splitGroup?` -- the digits and the body of a group;
* `Item` -- what a token means: itself, or a group of items;
* `expandItems` -- the tokens that items stand for, at most `limit` at any level;
* `expand` -- the tokens that tokens stand for.
-/

namespace Cantilena.Notation

/-! ## 1. Groups and items -/

/-- The body of a group: what stands before its last parenthesis. A line feed may follow it. -/
def closing? (s : List Char) : Option (List Char) :=
  match s.reverse with
  | ')' :: body => some body.reverse
  | '\n' :: ')' :: body => some body.reverse
  | _ => none

/-- The digits and the body of a group. -/
def splitGroup? (token : List Char) : Option (List Char × List Char) :=
  let digits := token.takeWhile Text.isAsciiDigit
  match token.dropWhile Text.isAsciiDigit with
  | '(' :: rest => if digits.isEmpty then none else (closing? rest).map fun body => (digits, body)
  | _ => none

theorem length_of_closing? {s body : List Char} (h : closing? s = some body) :
    body.length ≤ s.length := by
  have hs : s.reverse.length = s.length := List.length_reverse
  unfold closing? at h
  split at h
  · rename_i rest hr
    obtain rfl : rest.reverse = body := Option.some.inj h
    rw [hr, List.length_cons] at hs
    rw [List.length_reverse]
    omega
  · rename_i rest hr
    obtain rfl : rest.reverse = body := Option.some.inj h
    rw [hr, List.length_cons, List.length_cons] at hs
    rw [List.length_reverse]
    omega
  · simp at h

/-- The body of a group is shorter than its token. -/
theorem length_of_splitGroup? {token digits body : List Char}
    (h : splitGroup? token = some (digits, body)) : body.length < token.length := by
  have hd := Text.length_dropWhile_le Text.isAsciiDigit token
  unfold splitGroup? at h
  simp only at h
  split at h
  · rename_i rest hrest
    split at h
    · simp at h
    · obtain ⟨b, hb, he⟩ := Option.map_eq_some_iff.1 h
      simp only [Prod.mk.injEq] at he
      have := length_of_closing? hb
      rw [hrest] at hd
      simp only [List.length_cons] at hd
      rw [← he.2]
      omega
  · simp at h

/-- What a token means. A group holds the digits of its count as they are written. -/
inductive Item
  | literal (text : List Char)
  | group (count : List Char) (body : List Item)
  deriving Repr, Inhabited

theorem length_of_mem_body {token digits body t : List Char}
    (h : splitGroup? token = some (digits, body)) (ht : t ∈ tokenize (Text.strip body)) :
    t.length < token.length := by
  have h1 := length_of_mem_tokenize ht
  have h2 := Text.length_strip_le body
  have h3 := length_of_splitGroup? h
  omega

/-- The item that a token writes. -/
def Item.ofToken (token : List Char) : Item :=
  match h : splitGroup? token with
  | none => .literal token
  | some (count, body) =>
    .group count ((tokenize (Text.strip body)).attach.map fun t =>
      have := length_of_mem_body h t.2
      Item.ofToken t.1)
termination_by token.length

/-! ## 2. Expansion -/

/-- Tokens with a number of copies of others behind them. -/
def appendCopies (tokens body : Array (List Char)) : Nat → Array (List Char)
  | 0 => tokens
  | n + 1 => appendCopies (tokens ++ body) body n

/-- The fault of tokens that grow beyond a limit. -/
def refused (limit requested : Int) : Fault :=
  Number.shows requested (Number.shows limit (.tooLarge limit requested))

mutual

/-- Tokens with those of an item behind them. A group is refused before its copies are made. -/
def expandItem (limit : Int) (tokens : Array (List Char)) :
    Item → Except Fault (Array (List Char))
  | .literal text => .ok (tokens.push text)
  | .group digits body => do
    let count ← Number.wholeNumber digits
    let copied ← expandItems limit #[] body
    let requested := (tokens.size : Int) + count * copied.size
    if limit < requested then throw (refused limit requested)
    return if copied.isEmpty then tokens else appendCopies tokens copied count.toNat

/-- Tokens with those of a list of items behind them, at most `limit` after each item. -/
def expandItems (limit : Int) (tokens : Array (List Char)) :
    List Item → Except Fault (Array (List Char))
  | [] => .ok tokens
  | item :: rest => do
    let longer ← expandItem limit tokens item
    if limit < longer.size then throw (refused limit longer.size)
    expandItems limit longer rest

end

/-- The most tokens of a line where no other limit is set. -/
def defaultLimit : Int := 100000

/-- The tokens that tokens stand for. -/
def expand (tokens : List (List Char)) (limit : Int) :
    Except Fault (List (List Char)) :=
  (expandItems limit #[] (tokens.map Item.ofToken)).map Array.toList

end Cantilena.Notation
