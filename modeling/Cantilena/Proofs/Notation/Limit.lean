import Cantilena.Proofs.Notation.Grouped
import Cantilena.Proofs.Notation.Modest

/-!
# The limit of an expansion

An expansion has a result just where the tokens themselves, and the body of every group in them,
stand for no more tokens than the limit; groups that are copied not even once count as well. Nothing
larger is made on the way: a group is refused before its copies are made, and a token that is too many
is noticed as soon as it is there.

* `isCounted_of_short`, `fits_ofToken_iff` -- groups with counts, and groups within the limit;
* `exists_expand_iff`, `expand_mono` -- where an expansion has a result;
* `of_expand_eq_error` -- what it is refused with;
* `Watched`, `watchExpand` -- an expansion beside the lists that are held on its way;
* `tells_watchExpand` -- it does as the expansion does, and no list outgrows the limit by two;
* `expand_limited` -- all of it.
-/

namespace Cantilena.Notation

open Number (wholeNumber mostDigits isWritable IsNumeral isNumeral_nines)

/-! ## 1. Where an expansion has a result -/

/-- That the counts of all groups in a token have no more digits than are read. -/
def HasShortCounts (token : List Char) : Prop :=
  ∀ digits body, HasGroup token digits body → digits.length ≤ mostDigits

theorem exists_count {token digits body : List Char} (h : splitGroup? token = some (digits, body))
    (hshort : digits.length ≤ mostDigits) : ∃ n : Nat, wholeNumber digits = .ok n := by
  obtain ⟨⟨hne, hascii, -⟩, -⟩ := of_splitGroup? h
  have hnumeral : IsNumeral digits (Nat.ofDigitChars 10 digits 0) := ⟨hne, hascii, rfl⟩
  exact ⟨_, by rw [Number.wholeNumber_numeral hnumeral, if_neg (Nat.not_lt.mpr hshort)]⟩

theorem isCounted_of_short {token : List Char} (h : HasShortCounts token) :
    (Item.ofToken token).IsCounted := by
  induction token using Item.ofToken.induct with
  | case1 token hliteral =>
    rw [Item.ofToken_literal hliteral]
    trivial
  | case2 token digits body hgroup ih =>
    obtain ⟨hself, hinner⟩ := (forall_hasGroup_iff hgroup).mp h
    rw [Item.ofToken_eq_group hgroup]
    refine ⟨exists_count hgroup hself, areCounted_of_forall fun item hitem => ?_⟩
    obtain ⟨t, ht, rfl⟩ := List.mem_map.mp hitem
    exact ih ⟨t, ht⟩ (hinner t ht)

theorem areCounted_of_short {tokens : List (List Char)} (h : ∀ t ∈ tokens, HasShortCounts t) :
    AreCounted (tokens.map Item.ofToken) := by
  refine areCounted_of_forall fun item hitem => ?_
  obtain ⟨t, ht, rfl⟩ := List.mem_map.mp hitem
  exact isCounted_of_short (h t ht)

/-- A token that is short enough itself has no group with more digits. -/
theorem hasShortCounts_of_length {token : List Char} (h : token.length ≤ mostDigits) :
    HasShortCounts token :=
  fun _ _ hgroup => Nat.le_trans hgroup.digits_infix.length_le h

/-- That the bodies of all groups in a token stand for no more tokens than a limit. -/
def HasSmallBodies (limit : Int) (token : List Char) : Prop :=
  ∀ digits body, HasGroup token digits body →
    ((unlimited (tokenize (Text.strip body))).length : Int) ≤ limit

theorem itemsFit_iff {limit : Int} {items : List Item} :
    ItemsFit limit items ↔ ∀ item ∈ items, item.Fits limit := by
  induction items with
  | nil => exact iff_of_true trivial nofun
  | cons item rest ih => rw [ItemsFit, ih, List.forall_mem_cons]

theorem fits_ofToken_iff {limit : Int} {token : List Char} (h : HasShortCounts token) :
    (Item.ofToken token).Fits limit ↔ HasSmallBodies limit token := by
  induction token using Item.ofToken.induct with
  | case1 token hliteral =>
    rw [Item.ofToken_literal hliteral, Item.Fits]
    exact iff_of_true trivial fun _ _ hgroup => absurd hgroup (not_hasGroup hliteral)
  | case2 token digits body hgroup ih =>
    obtain ⟨hself, hinner⟩ := (forall_hasGroup_iff hgroup).mp h
    rw [Item.ofToken_eq_group hgroup, Item.Fits, itemsFit_iff, List.forall_mem_map, HasSmallBodies,
      forall_hasGroup_iff hgroup]
    constructor
    · rintro ⟨-, hbody, hfits⟩
      exact ⟨hbody, fun t ht => (ih ⟨t, ht⟩ (hinner t ht)).mp (hfits t ht)⟩
    · rintro ⟨hbody, hsmall⟩
      exact ⟨exists_count hgroup hself, hbody,
        fun t ht => (ih ⟨t, ht⟩ (hinner t ht)).mpr (hsmall t ht)⟩

theorem lt_of_beyond? {limit requested : Int} {size : Nat} (h : beyond? limit size = some requested) :
    limit < requested := by
  unfold beyond? at h
  split at h
  · rename_i hbeyond
    exact Option.some.inj h ▸ hbeyond
  · cases h

mutual

theorem Item.lt_of_refusal? {limit requested : Int} : ∀ {item : Item},
    item.refusal? limit = some requested → limit < requested
  | .literal _, h => by
      rw [Item.refusal?] at h
      cases h
  | .group _ body, h => by
      rw [Item.refusal?] at h
      exact Notation.lt_of_refusal? h

/-- What is refused is refused at a size beyond the limit. -/
theorem lt_of_refusal? {limit requested : Int} : ∀ {items : List Item} {size : Nat},
    refusal? limit size items = some requested → limit < requested
  | [], _, h => by
      rw [refusal?] at h
      cases h
  | item :: rest, _, h => by
      rw [refusal?, Option.or_eq_some_iff, Option.or_eq_some_iff] at h
      rcases h with (hitem | ⟨-, hsize⟩) | ⟨-, hrest⟩
      · exact Item.lt_of_refusal? hitem
      · exact lt_of_beyond? hsize
      · exact lt_of_refusal? hrest

end

/-- A size beyond a limit is what the refusal tells, unless it has more digits than are written. -/
theorem refused_eq {limit requested : Int} (hlimit : 0 ≤ limit) (h : limit < requested) :
    refused limit requested
      = if isWritable requested then .tooLarge limit requested else .tooManyToWrite := by
  unfold refused Number.shows
  split
  · rename_i hwritable
    rw [if_pos (Number.isWritable_of_le hwritable (by omega))]
  · rfl

section

variable {limit : Int} {tokens : List (List Char)} (hlimit : 0 ≤ limit)
  (hshort : ∀ t ∈ tokens, HasShortCounts t)
include hlimit hshort

theorem refusal?_eq_none_iff_small : refusal? limit 0 (tokens.map Item.ofToken) = none
    ↔ ((unlimited tokens).length : Int) ≤ limit ∧ ∀ t ∈ tokens, HasSmallBodies limit t := by
  have hfits : ItemsFit limit (tokens.map Item.ofToken) ↔ ∀ t ∈ tokens, HasSmallBodies limit t := by
    rw [itemsFit_iff, List.forall_mem_map]
    exact forall₂_congr fun t ht => fits_ofToken_iff (hshort t ht)
  rw [refusal?_eq_none hlimit 0 (areCounted_of_short hshort), Nat.zero_add, hfits]
  constructor
  · rintro ⟨hsmall, hnil | hsize⟩
    · rw [unlimited, hnil]
      exact ⟨hlimit, hsmall⟩
    · exact ⟨hsize, hsmall⟩
  · rintro ⟨hsize, hsmall⟩
    exact ⟨hsmall, .inr hsize⟩

/-- **An expansion has a result just where no size is beyond the limit**: that of the tokens, and
    those of the bodies of all groups in them. -/
theorem exists_expand_iff : (∃ out, expand tokens limit = .ok out)
    ↔ ((unlimited tokens).length : Int) ≤ limit ∧ ∀ t ∈ tokens, HasSmallBodies limit t := by
  rw [← refusal?_eq_none_iff_small hlimit hshort, expand_eq (areCounted_of_short hshort)]
  cases refusal? limit 0 (tokens.map Item.ofToken) with
  | none => exact iff_of_true ⟨_, rfl⟩ rfl
  | some requested =>
    refine iff_of_false ?_ nofun
    rintro ⟨out, hout⟩
    cases hout

omit hlimit in
/-- **An expansion that has no result is refused** at a size beyond the limit. -/
theorem of_expand_eq_error {cause : Fault} (h : expand tokens limit = .error cause) :
    ∃ requested, limit < requested ∧ cause = refused limit requested := by
  rw [expand_eq (areCounted_of_short hshort)] at h
  cases hrefused : refusal? limit 0 (tokens.map Item.ofToken) with
  | none =>
    rw [hrefused] at h
    cases h
  | some requested =>
    rw [hrefused] at h
    exact ⟨requested, lt_of_refusal? hrefused, (Except.error.inj h).symm⟩

/-- A result is the same under every larger limit. -/
theorem expand_mono {larger : Int} (hlarger : limit ≤ larger) {out : List (List Char)}
    (h : expand tokens limit = .ok out) : expand tokens larger = .ok out := by
  obtain ⟨hsize, hsmall⟩ := (exists_expand_iff hlimit hshort).mp ⟨out, h⟩
  obtain ⟨out', hout'⟩ := (exists_expand_iff (Int.le_trans hlimit hlarger) hshort).mpr
    ⟨Int.le_trans hsize hlarger, fun t ht digits body hgroup =>
      Int.le_trans (hsmall t ht digits body hgroup) hlarger⟩
  rw [hout', flat_of_expand hout', flat_of_expand h]

end

/-! ## 2. The lists that are held on the way -/

/-- An outcome beside the lists that were held on the way to it, each as it was whenever it had
    grown. -/
structure Watched (α : Type) where
  held : List (Array (List Char))
  outcome : Except Fault α

namespace Watched

variable {α β : Type}

/-- Goes on with a result; what was held stays on record. -/
def bind (x : Watched α) (f : α → Watched β) : Watched β :=
  match x.outcome with
  | .ok a => ⟨x.held ++ (f a).held, (f a).outcome⟩
  | .error cause => ⟨x.held, .error cause⟩

instance : Monad Watched where
  pure a := ⟨[], .ok a⟩
  bind := bind

instance : MonadLift (Except Fault) Watched where
  monadLift x := ⟨[], x⟩

/-- A list that has grown. -/
def grown (tokens : Array (List Char)) : Watched (Array (List Char)) := ⟨[tokens], .ok tokens⟩

/-- A watched run comes to the outcome of another one, and all lists it holds have a property. -/
structure Tells (P : Array (List Char) → Prop) (x : Watched α) (y : Except Fault α) : Prop where
  outcome : x.outcome = y
  held : ∀ tokens ∈ x.held, P tokens

namespace Tells

variable {P : Array (List Char) → Prop}

theorem ofExcept (y : Except Fault α) : Tells P (liftM y) y := ⟨rfl, nofun⟩

theorem pure (a : α) : Tells P (Pure.pure a) (Pure.pure a) := ⟨rfl, nofun⟩

theorem grown {tokens : Array (List Char)} (h : P tokens) : Tells P (grown tokens) (.ok tokens) :=
  ⟨rfl, List.forall_mem_singleton.mpr h⟩

/-- **One step after another.** -/
theorem bind {x : Watched α} {y : Except Fault α} {f : α → Watched β} {g : α → Except Fault β}
    (hxy : Tells P x y) (hfg : ∀ a, y = .ok a → Tells P (f a) (g a)) :
    Tells P (x >>= f) (y >>= g) := by
  obtain ⟨held, outcome⟩ := x
  obtain ⟨rfl, hheld⟩ := hxy
  cases outcome with
  | error cause => exact ⟨rfl, hheld⟩
  | ok a =>
    obtain ⟨hfirst, hlater⟩ := hfg a rfl
    exact ⟨hfirst, fun tokens htokens =>
      (List.mem_append.mp htokens).elim (hheld tokens) (hlater tokens)⟩

/-- Where a check refuses, nothing more is held. -/
theorem check {γ : Type} {c : Prop} [Decidable c] {cause : Fault} {f : γ → Watched α}
    {g : γ → Except Fault α} {x : Watched α} {y : Except Fault α} (h : ¬ c → Tells P x y) :
    Tells P (if c then liftM (throw cause : Except Fault γ) >>= f else x)
      (if c then throw cause >>= g else y) := by
  by_cases hc : c
  · rw [if_pos hc, if_pos hc]
    exact ⟨rfl, nofun⟩
  · rw [if_neg hc, if_neg hc]
    exact h hc

end Tells

end Watched

open Watched (grown Tells)

/-- Tokens with a number of copies of others behind them, one copy after another. -/
def watchCopies (tokens body : Array (List Char)) : Nat → Watched (Array (List Char))
  | 0 => pure tokens
  | n + 1 => do
    let longer ← grown (tokens ++ body)
    watchCopies longer body n

mutual

/-- Tokens with those of an item behind them. -/
def watchItem (limit : Int) (tokens : Array (List Char)) : Item → Watched (Array (List Char))
  | .literal text => grown (tokens.push text)
  | .group digits body => do
    let count ← wholeNumber digits
    let copied ← watchItems limit #[] body
    let requested := (tokens.size : Int) + count * copied.size
    if limit < requested then
      liftM (throw (refused limit requested) : Except Fault Unit)
    if copied.isEmpty then return tokens else watchCopies tokens copied count.toNat

/-- Tokens with those of a list of items behind them. -/
def watchItems (limit : Int) (tokens : Array (List Char)) :
    List Item → Watched (Array (List Char))
  | [] => return tokens
  | item :: rest => do
    let longer ← watchItem limit tokens item
    if limit < longer.size then
      liftM (throw (refused limit longer.size) : Except Fault Unit)
    watchItems limit longer rest

end

/-- The tokens that tokens stand for, beside the lists that are held at any depth of groups. -/
def watchExpand (tokens : List (List Char)) (limit : Int) : Watched (List (List Char)) := do
  return (← watchItems limit #[] (tokens.map Item.ofToken)).toList

/-- That a list holds no more tokens than a limit and one. -/
def Reaches (limit : Int) (tokens : Array (List Char)) : Prop := (tokens.size : Int) ≤ limit + 1

theorem tells_watchCopies {limit : Int} {body : Array (List Char)} (n : Nat)
    (tokens : Array (List Char)) (h : (tokens.size : Int) + n * body.size ≤ limit) :
    Tells (Reaches limit) (watchCopies tokens body n) (.ok (appendCopies tokens body n)) := by
  induction n generalizing tokens with
  | zero => exact .pure tokens
  | succ n ih =>
    have hsize : ((tokens ++ body).size : Int) = tokens.size + body.size := by
      rw [Array.size_append, Int.natCast_add]
    have hsteps : ((n + 1 : Nat) : Int) * body.size = n * body.size + body.size := by
      rw [Int.natCast_add, Int.add_mul, Int.natCast_one, Int.one_mul]
    have hcopies : 0 ≤ (n : Int) * body.size :=
      Int.mul_nonneg (Int.natCast_nonneg n) (Int.natCast_nonneg _)
    have hgrown : Reaches limit (tokens ++ body) := by
      unfold Reaches
      omega
    have hstep : Tells (Reaches limit) (watchCopies tokens body (n + 1))
        ((.ok (tokens ++ body) : Except Fault _) >>= fun longer =>
          .ok (appendCopies longer body n)) := by
      refine (Tells.grown hgrown).bind fun longer hlonger => ?_
      obtain rfl := Except.ok.inj hlonger
      exact ih (tokens ++ body) (by omega)
    exact hstep

mutual

theorem tells_watchItem {limit : Int} : ∀ {item : Item} {tokens : Array (List Char)},
    (tokens.size : Int) ≤ limit →
    Tells (Reaches limit) (watchItem limit tokens item) (expandItem limit tokens item)
  | .literal text, tokens, h => by
      rw [watchItem, expandItem]
      refine .grown ?_
      rw [Reaches, Array.size_push]
      omega
  | .group digits body, tokens, h => by
      have hempty : ((#[] : Array (List Char)).size : Int) ≤ limit := by
        rw [Array.size_empty]
        omega
      rw [watchItem, expandItem]
      refine (Tells.ofExcept (wholeNumber digits)).bind fun count _ => ?_
      refine (tells_watchItems hempty).bind fun copied _ => .check fun hfits => ?_
      split
      · exact .pure tokens
      · refine tells_watchCopies count.toNat tokens ?_
        -- a count below zero makes no copies
        rcases Int.le_total 0 count with hcount | hcount
        · rw [Int.toNat_of_nonneg hcount]
          exact Int.not_lt.mp hfits
        · rw [Int.toNat_of_nonpos hcount, Int.natCast_zero, Int.zero_mul, Int.add_zero]
          exact h

/-- **No list outgrows the limit by two** while items are expanded. -/
theorem tells_watchItems {limit : Int} : ∀ {items : List Item} {tokens : Array (List Char)},
    (tokens.size : Int) ≤ limit →
    Tells (Reaches limit) (watchItems limit tokens items) (expandItems limit tokens items)
  | [], tokens, _ => by
      rw [watchItems, expandItems]
      exact .pure tokens
  | item :: rest, tokens, h => by
      rw [watchItems, expandItems]
      refine (tells_watchItem h).bind fun longer _ => .check fun hfits => ?_
      exact tells_watchItems (Int.not_lt.mp hfits)

end

theorem tells_watchExpand {limit : Int} (hlimit : 0 ≤ limit) (tokens : List (List Char)) :
    Tells (Reaches limit) (watchExpand tokens limit) (expand tokens limit) := by
  have hexpand : expand tokens limit
      = expandItems limit #[] (tokens.map Item.ofToken) >>= fun array => pure array.toList := by
    rw [expand]
    cases expandItems limit #[] (tokens.map Item.ofToken) <;> rfl
  rw [hexpand]
  exact (tells_watchItems hlimit).bind fun array _ => .pure array.toList

/-! ## 3. All of it -/

/-- **The limit of an expansion is exact, and nothing outgrows it.** Where the counts of all groups can
    be read, tokens are expanded just where they themselves, and the bodies of all groups in them,
    stand for no more tokens than the limit; then the result is what they stand for, under every larger
    limit too. Otherwise they are refused at a size beyond the limit, which is told with the limit
    unless it has more digits than are written. And no list that is held on the way, at any depth of
    groups, has more tokens than the limit and one. -/
theorem expand_limited {limit : Int} (hlimit : 0 ≤ limit) {tokens : List (List Char)}
    (hshort : ∀ t ∈ tokens, HasShortCounts t) :
    ((∃ out, expand tokens limit = .ok out)
        ↔ ((unlimited tokens).length : Int) ≤ limit ∧ ∀ t ∈ tokens, HasSmallBodies limit t)
      ∧ (∀ out, expand tokens limit = .ok out → out = unlimited tokens
          ∧ ∀ larger, limit ≤ larger → expand tokens larger = .ok out)
      ∧ (∀ cause, expand tokens limit = .error cause → ∃ requested, limit < requested
          ∧ cause = if isWritable requested then .tooLarge limit requested else .tooManyToWrite)
      ∧ (watchExpand tokens limit).outcome = expand tokens limit
      ∧ ∀ held ∈ (watchExpand tokens limit).held, (held.size : Int) ≤ limit + 1 := by
  obtain ⟨houtcome, hheld⟩ := tells_watchExpand hlimit tokens
  refine ⟨exists_expand_iff hlimit hshort, fun out hout => ?_, fun cause hcause => ?_, houtcome, hheld⟩
  · exact ⟨flat_of_expand hout, fun larger hlarger => expand_mono hlimit hshort hlarger hout⟩
  · obtain ⟨requested, hbeyond, hrefused⟩ := of_expand_eq_error hshort hcause
    exact ⟨requested, hbeyond, hrefused.trans (refused_eq hlimit hbeyond)⟩

/-- A group that is copied not even once counts all the same: its body of three tokens is refused under
    a limit of two, though nothing of it would be in the result. -/
theorem expand_limited_no_copies :
    let tokens := [['C'], ['0', '(', 'D', ' ', 'D', ' ', 'D', ')']]
    (∀ t ∈ tokens, HasShortCounts t) ∧ unlimited tokens = [['C']]
      ∧ (¬ ∃ out, expand tokens 2 = .ok out) ∧ expand tokens 3 = .ok [['C']]
      ∧ ∀ held ∈ (watchExpand tokens 3).held, (held.size : Int) ≤ 4 := by
  intro tokens
  have hshort : ∀ t ∈ tokens, HasShortCounts t := by
    have hlength : ∀ t ∈ tokens, t.length ≤ 8 := by decide
    have hmost : 8 ≤ mostDigits := Nat.le_of_ble_eq_true rfl
    exact fun t ht => hasShortCounts_of_length (Nat.le_trans (hlength t ht) hmost)
  have hunlimited : unlimited tokens = [['C']] := by decide +kernel
  have hbody : (unlimited (tokenize (Text.strip ['D', ' ', 'D', ' ', 'D']))).length = 3 := by
    decide +kernel
  have hgroup : splitGroup? ['0', '(', 'D', ' ', 'D', ' ', 'D', ')']
      = some (['0'], ['D', ' ', 'D', ' ', 'D']) := by decide
  obtain ⟨htwo, -⟩ := expand_limited (by decide : (0 : Int) ≤ 2) hshort
  obtain ⟨hthree, hresult, -, -, hheld⟩ := expand_limited (by decide : (0 : Int) ≤ 3) hshort
  have hsmall : ∀ t ∈ tokens, HasSmallBodies 3 t := by
    refine List.forall_mem_cons.mpr ⟨?_, List.forall_mem_singleton.mpr ?_⟩
    · exact fun _ _ hin => absurd hin (not_hasGroup (by decide))
    · refine (forall_hasGroup_iff hgroup).mpr ⟨by rw [hbody]; decide, fun t ht _ _ hin => ?_⟩
      have hliteral : ∀ t ∈ tokenize (Text.strip ['D', ' ', 'D', ' ', 'D']), splitGroup? t = none := by
        decide
      exact absurd hin (not_hasGroup (hliteral t ht))
  obtain ⟨out, hout⟩ := hthree.mpr ⟨by rw [hunlimited]; decide, hsmall⟩
  refine ⟨hshort, hunlimited, fun hexpands => ?_, ?_, hheld⟩
  · have hbodies := (htwo.mp hexpands).2 _ (List.mem_cons_of_mem _ List.mem_cons_self) _ _ (.self hgroup)
    rw [hbody] at hbodies
    exact absurd hbodies (by decide)
  · rw [hout, (hresult out hout).1, hunlimited]

/-- A group of so many copies that the number of their tokens has more digits than are written: it is
    refused, but the size cannot be told. -/
theorem not_expand_told :
    let token := List.replicate mostDigits '9' ++ '(' :: ['C', ' ', 'C'] ++ [')']
    HasShortCounts token ∧ expand [token] defaultLimit = .error .tooManyToWrite := by
  intro token
  have hmost : 100000 < 10 ^ mostDigits := by decide +kernel
  obtain ⟨n, hn, hlarge⟩ :
      ∃ n, IsNumeral (List.replicate mostDigits '9') n ∧ 10 ^ mostDigits ≤ n * 2 :=
    ⟨_, isNumeral_nines mostDigits (by decide), by omega⟩
  have hlength : (List.replicate mostDigits '9').length = mostDigits := List.length_replicate
  have hgroup : splitGroup? token = some (List.replicate mostDigits '9', ['C', ' ', 'C']) :=
    splitGroup?_group hn.ne_nil hn.isDigit _
  have hliteral : ∀ t ∈ tokenize (Text.strip ['C', ' ', 'C']), splitGroup? t = none := by decide
  have hshort : HasShortCounts token := (forall_hasGroup_iff hgroup).mpr
    ⟨Nat.le_of_eq hlength, fun t ht _ _ hin => absurd hin (not_hasGroup (hliteral t ht))⟩
  -- the body of the group is within the limit, but not its copies
  have hcopies : copies (List.replicate mostDigits '9') = n := by
    rw [copies, Number.wholeNumber_numeral hn, hlength, if_neg (Nat.lt_irrefl _)]
    rfl
  have hbody : (unlimited (tokenize (Text.strip ['C', ' ', 'C']))).length = 2 := by decide +kernel
  have hflat : (Item.ofToken token).flat.length = n * 2 := by
    rw [flat_ofToken_group hgroup, hcopies, List.length_flatten, List.map_replicate,
      List.sum_replicate_nat, hbody]
  have hinner : refusal? defaultLimit 0 ((tokenize (Text.strip ['C', ' ', 'C'])).map Item.ofToken)
      = none := by decide +kernel
  have hlimit : defaultLimit < (n * 2 : Nat) := by
    rw [defaultLimit]
    omega
  have hrefused : refusal? defaultLimit 0 ([token].map Item.ofToken) = some ((n * 2 : Nat) : Int) := by
    rw [List.map_singleton, refusal?, hflat, Nat.zero_add, Item.ofToken_eq_group hgroup, Item.refusal?,
      hinner, Option.none_or, beyond?, if_pos hlimit]
    rfl
  have hunwritable : ¬ isWritable ((n * 2 : Nat) : Int) = true := by
    rw [Number.isWritable_iff]
    omega
  refine ⟨hshort, ?_⟩
  rw [expand_eq (areCounted_of_short (List.forall_mem_singleton.mpr hshort)), hrefused, Option.elim_some,
    refused_eq (by decide) hlimit, if_neg hunwritable]

end Cantilena.Notation
