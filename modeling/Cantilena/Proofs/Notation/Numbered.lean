import Cantilena.Proofs.Notation.Expansion
import Cantilena.Proofs.Notation.Resolved
import Cantilena.Proofs.Text.Lines

/-!
# Texts whose digits are read

In a text whose digits are those of ASCII, in rows that are not too long, every number is read,
wherever it stands. The same holds of all that is cut from the text.

* `Text.IsNumbered` -- such texts;
* `infix_of_mem_tokenize`, `infix_of_mem_flat` -- tokens are cut from their line, and so are the
  tokens in groups;
* `NoteToken.isLegible_of_isNumbered`, `ChordSlot.isLegible_of_isNumbered`, `exists_readHeader` --
  the tokens and the headers of such texts are read.
-/

namespace Cantilena

open Number (IsReadable mostDigits)
open Text (isDigit isDigits isAsciiDigit)

/-! ## 1. Numbered texts -/

namespace Text

/-- A text whose digits are those of ASCII, in rows of no more digits than are read. -/
structure IsNumbered (s : List Char) : Prop where
  ascii : ∀ c ∈ s, isDigit c = true → isAsciiDigit c = true
  rows : ∀ row, row <:+: s → (∀ c ∈ row, isDigit c = true) → row.length ≤ mostDigits

variable {s t : List Char}

theorem IsNumbered.of_part (h : IsNumbered s) (ht : t <:+: s) : IsNumbered t where
  ascii c hc := h.ascii c (ht.subset hc)
  rows row hrow := h.rows row (hrow.trans ht)

/-- A text with few digits is numbered if they are those of ASCII. -/
theorem isNumbered_of_countP (h : s.countP isDigit ≤ mostDigits)
    (hascii : ∀ c ∈ s, isDigit c = true → isAsciiDigit c = true) : IsNumbered s where
  ascii := hascii
  rows row hrow hdigit := by
    rw [← List.countP_eq_length.mpr hdigit]
    exact Nat.le_trans hrow.sublist.countP_le h

/-- Digits that stand together in a numbered text are read. -/
theorem IsNumbered.isReadable (h : IsNumbered s) (ht : t <:+: s)
    (hdigit : ∀ c ∈ t, isDigit c = true) : IsReadable t where
  decimal c hc := by
    rw [Number.decimalValue_ascii (h.ascii c (ht.subset hc) (hdigit c hc))]
    rfl
  length_le := h.rows t ht hdigit

theorem infix_strip (s : List Char) : strip s <:+: s := by
  obtain ⟨before, after, -, -, h⟩ := exists_strip s
  exact ⟨before, after, h.symm⟩

theorem infix_singleton {c : Char} (h : c ∈ s) : [c] <:+: s := by
  obtain ⟨before, after, h⟩ := List.append_of_mem h
  exact ⟨before, after, by rw [h]; simp⟩

/-- The signs of accidentals are no digits. -/
theorem IsNumbered.plainAccidentals (h : IsNumbered s) : IsNumbered (plainAccidentals s) := by
  have hkeeps {row : List Char} (hrow : ∀ c ∈ row, isDigit c = true) :
      row <:+: Cantilena.plainAccidentals s ↔ row <:+: s := by
    refine infix_map_iff fun a ha c => ?_
    have hne {b : Char} (hb : isDigit b = false) : a ≠ b := Number.ne_of_isDigit (hrow a ha) hb
    have hplain : a ≠ '♯' ∧ a ≠ '♭' ∧ a ≠ '#' ∧ a ≠ 'b' :=
      ⟨hne (by decide), hne (by decide), hne (by decide), hne (by decide)⟩
    obtain ⟨hsharp, hflat, hhash, hb⟩ := hplain
    constructor
    · intro he
      split at he
      · exact absurd he.symm hhash
      · split at he
        · exact absurd he.symm hb
        · exact he
    · rintro rfl
      simp [hsharp, hflat]
  refine ⟨fun c hc hdigit => ?_, fun row hrow hdigit => h.rows row ((hkeeps hdigit).mp hrow) hdigit⟩
  have hall : ∀ b ∈ [c], isDigit b = true := List.forall_mem_singleton.mpr hdigit
  exact h.ascii c (((hkeeps hall).mp (infix_singleton hc)).subset List.mem_cons_self) hdigit

end Text

namespace ChordToken

/-- What stands in front of the operator of a text, and behind it, is cut from the text. -/
theorem of_splitOperator (s : List Char) : (splitOperator s).1 <+: s
    ∧ ∀ op digits, (splitOperator s).2 = some (op, digits) → digits <:+ s := by
  induction s with
  | nil => exact ⟨List.prefix_refl _, fun op digits h => by cases h⟩
  | cons c s ih =>
    obtain ⟨hbefore, hafter⟩ := ih
    rw [splitOperator]
    split
    · refine ⟨List.nil_prefix, fun op digits h => ?_⟩
      obtain ⟨-, rfl⟩ := Prod.mk.inj (Option.some.inj h)
      exact List.suffix_cons c s
    · exact ⟨List.cons_prefix_cons.mpr ⟨rfl, hbefore⟩,
        fun op digits h => (hafter op digits h).trans (List.suffix_cons c s)⟩

theorem suffix_behindSign (text : List Char) :
    behindSign text <:+ Cantilena.plainAccidentals text := by
  unfold behindSign
  cases h : Sign.leading? (Cantilena.plainAccidentals text) with
  | none => exact List.suffix_refl _
  | some leading =>
    exact ⟨leading.1.toChars, Sign.toChars_append_of_leading? h⟩

/-- **Chord tokens that are numbered are legible.** -/
theorem isLegible_of_isNumbered {text : List Char} (h : Text.IsNumbered text) :
    IsLegible text := by
  have hbehind : Text.IsNumbered (behindSign text) :=
    h.plainAccidentals.of_part (suffix_behindSign text).isInfix
  obtain ⟨hbefore, hafter⟩ := of_splitOperator (behindSign text)
  constructor
  · intro _ c after hfront hdigit _
    have hmem : c ∈ behindSign text := hbefore.subset (hfront ▸ List.mem_cons_self)
    exact (hbehind.isReadable (Text.infix_singleton hmem)
      (List.forall_mem_singleton.mpr hdigit)).decimal c List.mem_cons_self
  · intro op digits hd hdigits
    exact hbehind.isReadable (hafter op digits hd).isInfix
      (List.all_eq_true.mp (Bool.and_eq_true_iff.mp hdigits).2)

end ChordToken

namespace Notation

open Text (IsNumbered)

/-! ## 2. What is cut from a line -/

theorem infix_of_mem_tokensFrom {current line t : List Char} {depth : Nat}
    (h : t ∈ tokensFrom current depth line) : t <:+: current.reverse ++ line := by
  have hfinished {current rest : List Char} (h : t ∈ finished current) :
      t <:+: current.reverse ++ rest := by
    unfold finished at h
    split at h
    · cases h
    · rw [List.mem_singleton.mp h]
      exact (List.prefix_append _ _).isInfix
  induction line generalizing current depth with
  | nil => exact hfinished h
  | cons c rest ih =>
    have hmore : current.reverse ++ c :: rest = (c :: current).reverse ++ rest := by simp
    unfold tokensFrom at h
    split at h
    · rcases List.mem_append.mp h with h | h
      · exact hfinished h
      · rw [hmore]
        exact (ih h).trans (List.suffix_append _ _).isInfix
    · rw [hmore]
      exact ih h

/-- A token is cut from its line. -/
theorem infix_of_mem_tokenize {line t : List Char} (h : t ∈ tokenize line) : t <:+: line :=
  infix_of_mem_tokensFrom h

theorem prefix_of_closing? {s body : List Char} (h : closing? s = some body) : body <+: s := by
  unfold closing? at h
  split at h
  · rename_i rest hs
    obtain rfl := Option.some.inj h
    exact ⟨[')'], by rw [← List.reverse_cons, ← hs, List.reverse_reverse]⟩
  · rename_i rest hs
    obtain rfl := Option.some.inj h
    exact ⟨[')', '\n'], by simpa using (congrArg List.reverse hs).symm⟩
  · cases h

/-- The digits and the body of a group are cut from its token. -/
theorem of_splitGroup? {token digits body : List Char}
    (h : splitGroup? token = some (digits, body)) :
    (digits ≠ [] ∧ (∀ c ∈ digits, isAsciiDigit c = true) ∧ digits <:+: token)
      ∧ body <:+: token := by
  unfold splitGroup? at h
  simp only at h
  split at h
  · rename_i rest hrest
    split at h
    · cases h
    · rename_i hne
      obtain ⟨body', hbody, he⟩ := Option.map_eq_some_iff.mp h
      obtain ⟨rfl, rfl⟩ := Prod.mk.inj he
      refine ⟨⟨fun he => hne (by rw [he]; rfl), List.all_eq_true.mp List.all_takeWhile,
        (List.takeWhile_prefix isAsciiDigit).isInfix⟩, ?_⟩
      have hsuffix : '(' :: rest <:+ token := hrest ▸ List.dropWhile_suffix isAsciiDigit
      exact (prefix_of_closing? hbody).isInfix.trans
        ((List.suffix_cons '(' rest).trans hsuffix).isInfix
  · cases h

/-- The tokens of the body of a group are cut from its token. -/
theorem infix_of_mem_body {token digits body t : List Char}
    (h : splitGroup? token = some (digits, body)) (ht : t ∈ tokenize (Text.strip body)) :
    t <:+: token :=
  ((infix_of_mem_tokenize ht).trans (Text.infix_strip body)).trans (of_splitGroup? h).2

/-- The items of a group are those of the tokens of its body. -/
theorem Item.ofToken_eq_group {token digits body : List Char}
    (h : splitGroup? token = some (digits, body)) :
    Item.ofToken token = .group digits ((tokenize (Text.strip body)).map Item.ofToken) := by
  rw [Item.ofToken]
  split
  · rename_i hs
    rw [h] at hs
    cases hs
  · rename_i count inner hs
    rw [h] at hs
    obtain ⟨rfl, rfl⟩ := Prod.mk.inj (Option.some.inj hs)
    congr 1
    exact List.attach_map_val

theorem mem_flatItems {items : List Item} {t : List Char} :
    t ∈ flatItems items ↔ ∃ item ∈ items, t ∈ item.flat := by
  induction items with
  | nil => simp [flatItems]
  | cons item rest ih => simp [flatItems, ih]

/-- **The tokens that a token stands for are cut from it.** -/
theorem infix_of_mem_flat {token t : List Char} (h : t ∈ (Item.ofToken token).flat) :
    t <:+: token := by
  induction token using Item.ofToken.induct with
  | case1 token hliteral =>
    rw [Item.ofToken_literal hliteral, Item.flat] at h
    exact List.mem_singleton.mp h ▸ List.infix_refl t
  | case2 token digits body hgroup ih =>
    rw [Item.ofToken_eq_group hgroup, Item.flat] at h
    obtain ⟨copy, hcopy, h⟩ := List.mem_flatten.mp h
    obtain ⟨item, hitem, h⟩ := mem_flatItems.mp (List.eq_of_mem_replicate hcopy ▸ h)
    obtain ⟨inner, hinner, rfl⟩ := List.mem_map.mp hitem
    exact (ih ⟨inner, hinner⟩ h).trans (infix_of_mem_body hgroup hinner)

/-! ## 3. Tokens of numbered texts -/

/-- A note in a token is cut from it. -/
theorem infix_of_note_mem_pieces {text : List Char} {n : WrittenNote} (h : .note n ∈ pieces text) :
    n.toChars <:+: text := by
  obtain ⟨before, after, hsplit⟩ := List.append_of_mem h
  have hlost := flatMap_toChars_pieces text
  rw [hsplit, List.flatMap_append, List.flatMap_cons] at hlost
  exact ⟨_, _, by rw [← hlost, List.append_assoc]; rfl⟩

variable {token : List Char}

/-- **The note tokens of numbered texts are legible.** -/
theorem NoteToken.isLegible_of_isNumbered (h : IsNumbered token) : NoteToken.IsLegible token := by
  intro piece hpiece
  cases piece with
  | comma => trivial
  | stray c => trivial
  | note n =>
    have hdigits := hasDigits_of_mem_pieces hpiece
    have hnumbered : IsNumbered n.toChars :=
      h.plainAccidentals.of_part (infix_of_note_mem_pieces hpiece)
    rw [WrittenNote.toChars_eq] at hnumbered
    refine ⟨fun c hc => ?_, fun op digits hd => ?_⟩
    · refine (hnumbered.isReadable (t := [c]) ?_ ?_).decimal c List.mem_cons_self
      · rw [hc]
        exact List.infix_append _ _ _
      · exact List.forall_mem_singleton.mpr (hdigits.octave c hc)
    · refine hnumbered.isReadable ?_ (hdigits.operand op digits hd)
      rw [hd]
      exact ((List.suffix_cons op.toChar digits).trans (List.suffix_append _ _)).isInfix

theorem prefix_chordText (token : List Char) : chordText token <+: token :=
  ⟨_, Text.dropEnd_append_takeWhile (· == ',') token⟩

/-- **The tokens of the chord lines of numbered texts are legible.** -/
theorem ChordSlot.isLegible_of_isNumbered (h : IsNumbered token) : ChordSlot.IsLegible token := by
  intro _
  exact ChordToken.isLegible_of_isNumbered (h.of_part (prefix_chordText token).isInfix)

theorem exists_digitOr (h : IsNumbered token) (default : Int) :
    ∃ n, digitOr default token = .ok n := by
  cases token with
  | nil => exact ⟨_, rfl⟩
  | cons c rest =>
    rw [digitOr]
    split
    · rename_i hdigit
      have hreadable := h.isReadable (t := [c]) (Text.infix_singleton List.mem_cons_self)
        (List.forall_mem_singleton.mpr hdigit)
      exact (Number.exists_wholeNumber_singleton_iff hdigit).mpr
        (hreadable.decimal c List.mem_cons_self)
    · exact ⟨_, rfl⟩

/-- **The headers of numbered texts are read.** -/
theorem exists_readHeader {octave length : Int} (h : IsNumbered token) :
    ∃ o, readHeader token octave length = .ok o := by
  have hdrop (n : Nat) : IsNumbered (token.drop n) :=
    h.of_part (List.drop_suffix n token).isInfix
  obtain ⟨own, hown⟩ := exists_digitOr (hdrop 1) octave
  obtain ⟨ticks, hticks⟩ := exists_digitOr (hdrop 2) length
  exact ⟨_, bind_eq_ok.mpr ⟨own, hown, bind_eq_ok.mpr ⟨ticks, hticks, rfl⟩⟩⟩

end Notation

end Cantilena
