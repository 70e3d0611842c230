import Cantilena.Proofs.Notation.Expansion

/-!
# The meaning of repeats

A passage is a tree of literals and repeats. It is written as a text (`Passage.Written`) in which
blanks may stand almost everywhere, and it means a row of tokens (`Passage.tokens`): a repeat means
the tokens of its body over and over.

* `tokenize_writtenAll` -- the tokens of a text that writes passages are the texts of the passages;
* `ofToken_written` -- the item of such a token stands for the tokens that the passage means;
* `expand_tokenize` -- hence cutting a text into tokens and expanding them gives what it means.
-/

namespace Cantilena.Notation

open Number (IsNumeral mostDigits wholeNumber wholeNumber_numeral)
open Text (IsGap isAsciiDigit)

/-! ## 1. Passages -/

/-- A tree of literals and repeats. -/
inductive Passage
  | literal (text : List Char)
  | repeated (times : Nat) (body : List Passage)

mutual

/-- The tokens that a passage means. -/
def Passage.tokens : Passage → List (List Char)
  | .literal text => [text]
  | .repeated times body => (List.replicate times (tokensOf body)).flatten

/-- The tokens that passages mean, one after the other. -/
def tokensOf : List Passage → List (List Char)
  | [] => []
  | p :: rest => p.tokens ++ tokensOf rest

end

mutual

/-- The body of every repeat in a passage means no more tokens than a limit. -/
def Passage.Within (limit : Int) : Passage → Prop
  | .literal _ => True
  | .repeated _ body => (tokensOf body).length ≤ limit ∧ AllWithin limit body

/-- The same of every passage of a list. -/
def AllWithin (limit : Int) : List Passage → Prop
  | [] => True
  | p :: rest => p.Within limit ∧ AllWithin limit rest

end

mutual

/-- How a passage is written. A count has at most as many digits as are read. -/
inductive Passage.Written : Passage → List Char → Prop
  | literal {text : List Char} (hne : text ≠ []) (hp : IsPlain text) :
      Passage.Written (.literal text) text
  | repeated {times : Nat} {body : List Passage} {digits before inner after : List Char}
      (hn : IsNumeral digits times) (hl : digits.length ≤ mostDigits)
      (hb : IsGap before) (ha : IsGap after) (hi : WrittenAll body inner) :
      Passage.Written (.repeated times body)
        (digits ++ '(' :: (before ++ inner ++ after) ++ [')'])

/-- How passages are written one after the other: with a gap between any two. -/
inductive WrittenAll : List Passage → List Char → Prop
  | nil : WrittenAll [] []
  | single {p : Passage} {text : List Char} (h : p.Written text) : WrittenAll [p] text
  | cons {p q : Passage} {rest : List Passage} {text gap more : List Char}
      (h : p.Written text) (hne : gap ≠ []) (hg : IsGap gap) (hr : WrittenAll (q :: rest) more) :
      WrittenAll (p :: q :: rest) (text ++ gap ++ more)

end

/-! ## 2. One token each -/

mutual

theorem Passage.Written.balanced : ∀ {p : Passage} {text : List Char}, p.Written text →
    Balanced text
  | _, _, .literal _ hp => .of_isPlain hp
  | _, _, .repeated hn _ hb ha hi => by
      have hbody := ((Balanced.of_isGap hb).append hi.balanced).append (.of_isGap ha)
      have := (Balanced.of_isPlain (isPlain_numeral hn)).append hbody.enclosed
      simpa using this

theorem WrittenAll.balanced : ∀ {ps : List Passage} {text : List Char}, WrittenAll ps text →
    Balanced text
  | _, _, .nil => .nil
  | _, _, .single h => h.balanced
  | _, _, .cons h _ hg hr => (h.balanced.append (.of_isGap hg)).append hr.balanced

end

theorem Passage.Written.ne_nil {p : Passage} {text : List Char} (h : p.Written text) :
    text ≠ [] := by
  cases h with
  | literal hne _ => exact hne
  | repeated hn _ _ _ _ => simp

/-- The text of a passage goes to the token being read as a whole. -/
theorem tokensFrom_written {p : Passage} {text : List Char} (h : p.Written text)
    (current rest : List Char) :
    tokensFrom current 0 (text ++ rest) = tokensFrom (text.reverse ++ current) 0 rest := by
  cases h with
  | literal _ hp => exact tokensFrom_plain hp current rest 0
  | repeated hn _ hb ha hi =>
    have hbody := ((Balanced.of_isGap hb).append hi.balanced).append (.of_isGap ha)
    rw [List.append_assoc, List.append_assoc, tokensFrom_plain (isPlain_numeral hn),
      ← List.append_assoc, tokensFrom_group hbody]
    simp

/-- The text of a passage is one token. -/
theorem tokenize_written {p : Passage} {text : List Char} (h : p.Written text) :
    tokenize text = [text] := by
  have hs := tokensFrom_written h [] []
  have hr : text.reverse ≠ [] := List.reverse_ne_nil_iff.mpr h.ne_nil
  rw [List.append_nil, List.append_nil, tokensFrom, finished_of_ne_nil hr,
    List.reverse_reverse] at hs
  exact hs

/-- The text of a passage with a gap behind it is the first token of what follows. -/
theorem tokenize_written_append {p : Passage} {text gap : List Char} (h : p.Written text)
    (hne : gap ≠ []) (hg : IsGap gap) (more : List Char) :
    tokenize (text ++ gap ++ more) = text :: tokenize more := by
  have hr : text.reverse ≠ [] := List.reverse_ne_nil_iff.mpr h.ne_nil
  rw [tokenize, List.append_assoc, tokensFrom_written h, List.append_nil, tokensFrom_gap hg,
    if_neg hne, finished_of_ne_nil hr, List.reverse_reverse]
  rfl

/-! ## 3. Meaning -/

/-- The body of a repeat is cut into tokens like the passages in it alone. -/
theorem tokenize_body {ps : List Passage} {before inner after : List Char} (hb : IsGap before)
    (ha : IsGap after) (hi : WrittenAll ps inner) :
    tokenize (Text.strip (before ++ inner ++ after)) = tokenize inner := by
  have hbody := ((Balanced.of_isGap hb).append hi.balanced).append (.of_isGap ha)
  rw [tokenize_strip (hbody.depthOver 0), List.append_assoc, tokenize_gap_append hb]
  exact tokensFrom_append_gap ha (hi.balanced.depthOver 0)

theorem wholeNumber_count {digits : List Char} {n : Nat} (hn : IsNumeral digits n)
    (hl : digits.length ≤ mostDigits) : wholeNumber digits = .ok n := by
  rw [wholeNumber_numeral hn, if_neg (Nat.not_lt.mpr hl)]

mutual

/-- **The item of a written passage stands for the tokens that the passage means.** -/
theorem flat_ofToken : ∀ {p : Passage} {text : List Char}, p.Written text →
    (Item.ofToken text).flat = p.tokens
  | _, _, .literal _ hp => by rw [ofToken_plain hp, Item.flat, Passage.tokens]
  | _, _, .repeated hn hl hb ha hi => by
      rw [Item.ofToken_group hn.ne_nil hn.isDigit, Item.flat, Passage.tokens, copies,
        wholeNumber_count hn hl, tokenize_body hb ha hi, flat_tokenize hi]
      rfl

theorem flat_tokenize : ∀ {ps : List Passage} {text : List Char}, WrittenAll ps text →
    flatItems ((tokenize text).map Item.ofToken) = tokensOf ps
  | _, _, .nil => rfl
  | _, _, .single h => by
      rw [tokenize_written h, List.map_singleton, flatItems, flatItems, flat_ofToken h, tokensOf,
        tokensOf]
  | _, _, .cons h hne hg hr => by
      rw [tokenize_written_append h hne hg, List.map_cons, flatItems, flat_ofToken h,
        flat_tokenize hr]
      rfl

end

mutual

/-- **Where the bodies of a passage are within a limit, so are those of its item.** -/
theorem fits_ofToken {limit : Int} : ∀ {p : Passage} {text : List Char}, p.Written text →
    p.Within limit → (Item.ofToken text).Fits limit
  | _, _, .literal _ hp, _ => by
      rw [ofToken_plain hp, Item.Fits]
      trivial
  | _, _, .repeated hn hl hb ha hi, hw => by
      rw [Passage.Within] at hw
      rw [Item.ofToken_group hn.ne_nil hn.isDigit, Item.Fits, tokenize_body hb ha hi,
        flat_tokenize hi]
      exact ⟨⟨_, wholeNumber_count hn hl⟩, hw.1, fits_tokenize hi hw.2⟩

theorem fits_tokenize {limit : Int} : ∀ {ps : List Passage} {text : List Char},
    WrittenAll ps text → AllWithin limit ps → ItemsFit limit ((tokenize text).map Item.ofToken)
  | _, _, .nil, _ => by
      rw [tokenize, tokensFrom, finished]
      simp [ItemsFit]
  | _, _, .single h, hw => by
      rw [AllWithin] at hw
      rw [tokenize_written h, List.map_singleton, ItemsFit, ItemsFit]
      exact ⟨fits_ofToken h hw.1, trivial⟩
  | _, _, .cons h hne hg hr, hw => by
      rw [AllWithin] at hw
      rw [tokenize_written_append h hne hg, List.map_cons, ItemsFit]
      exact ⟨fits_ofToken h hw.1, fits_tokenize hr hw.2⟩

end

/-- **Cutting a text into tokens and expanding them gives what it means**: the literals in order,
    and the body of every repeat as often as it is repeated. -/
theorem expand_tokenize {ps : List Passage} {text : List Char} {limit : Int}
    (h : WrittenAll ps text) (hsize : (tokensOf ps).length ≤ limit)
    (hbodies : AllWithin limit ps) : expand (tokenize text) limit = .ok (tokensOf ps) := by
  have hflat := flat_tokenize h
  rw [← hflat]
  refine expand_of_fits (fits_tokenize h hbodies) ?_
  rw [hflat]
  exact hsize

/-- `2(C 0(E) 3(12 ))` within eight tokens: a count of zero, a literal of digits, and a blank in
    front of a closing parenthesis. -/
theorem expand_tokenize_nested :
    let body : List Passage :=
      [.literal ['C'], .repeated 0 [.literal ['E']], .repeated 3 [.literal ['1', '2']]]
    let inner := ['C', ' ', '0', '(', 'E', ')', ' ', '3', '(', '1', '2', ' ', ')']
    WrittenAll [.repeated 2 body] (['2', '('] ++ inner ++ [')'])
      ∧ (tokensOf [.repeated 2 body]).length ≤ (8 : Int) ∧ AllWithin 8 [.repeated 2 body]
      ∧ expand (tokenize (['2', '('] ++ inner ++ [')'])) 8
        = .ok [['C'], ['1', '2'], ['1', '2'], ['1', '2'], ['C'], ['1', '2'], ['1', '2'], ['1', '2']]
      := by
  intro body inner
  have hplain : ∀ {text : List Char}, text ≠ [] →
      (text.all fun c => !Text.isBlank c && c != '(' && c != ')') = true →
      (Passage.literal text).Written text := by
    intro text hne h
    refine .literal hne fun c hc => ?_
    simpa [and_assoc] using List.all_eq_true.mp h c hc
  have hgap : IsGap [' '] := by
    intro c hc
    rw [List.mem_singleton.mp hc]
    decide
  have hzero : (Passage.repeated 0 [.literal ['E']]).Written ['0', '(', 'E', ')'] :=
    have hn : IsNumeral ['0'] 0 := Number.isNumeral_toDigits 0
    have he : (Passage.literal ['E']).Written ['E'] := hplain (by decide) (by decide)
    .repeated hn (by decide) Text.isGap_nil Text.isGap_nil (.single he)
  have hthree : (Passage.repeated 3 [.literal ['1', '2']]).Written
      ['3', '(', '1', '2', ' ', ')'] :=
    have hn : IsNumeral ['3'] 3 := Number.isNumeral_toDigits 3
    have ht : (Passage.literal ['1', '2']).Written ['1', '2'] := hplain (by decide) (by decide)
    .repeated hn (by decide) Text.isGap_nil hgap (.single ht)
  have hbody : WrittenAll body inner :=
    .cons (hplain (by decide) (by decide)) (by decide) hgap
      (.cons hzero (by decide) hgap (.single hthree))
  have hall : WrittenAll [.repeated 2 body] (['2', '('] ++ inner ++ [')']) :=
    have hn : IsNumeral ['2'] 2 := Number.isNumeral_toDigits 2
    have hr : (Passage.repeated 2 body).Written (['2'] ++ '(' :: ([] ++ inner ++ []) ++ [')']) :=
      .repeated hn (by decide) Text.isGap_nil Text.isGap_nil hbody
    .single hr
  have hsize : (tokensOf [.repeated 2 body]).length ≤ (8 : Int) := by decide
  have hwithin : AllWithin 8 [.repeated 2 body] := by
    simp [AllWithin, Passage.Within, tokensOf, Passage.tokens, body]
  exact ⟨hall, hsize, hwithin, expand_tokenize hall hsize hwithin⟩

end Cantilena.Notation
