import Cantilena.Progression
import Cantilena.Proofs.Notation.Passage
import Cantilena.Proofs.Text.Words

/-!
# Progressions as they are written

The length of an entry is written behind its symbol, or in front of it as a number of beats. Such a
number lasts: it need not be written again in front of a symbol that is to have the same length,
whatever lengths of their own the entries between them have.

* `Entry.WrittenAs` -- the items that write a list of entries, with the length that lasts so far;
* `readItems_count`, `readItems_own`, `readItems_bare` -- what the reader does with an item;
* `readItems_written` -- items read as the entries that they write;
* `readProgression_written` -- so does a text that the items are spread over.
-/

namespace Cantilena

open Number (IsNumeral mostDigits wholeNumber)
open Notation (wholeNumber_count)
open Text (isBlank isDigits IsGap IsWord Spaced)

/-! ## 1. Items -/

/-- A text that can be the symbol of an entry: without blanks and colons. -/
def IsSymbol (s : List Char) : Prop := ∀ c ∈ s, isBlank c = false ∧ c ≠ ':'

instance (s : List Char) : Decidable (IsSymbol s) :=
  List.decidableBAll (fun c => isBlank c = false ∧ c ≠ ':') s

/-- A symbol that stands by itself: it is there, and it is no number. -/
structure IsBareSymbol (s : List Char) : Prop where
  isSymbol : IsSymbol s
  ne_nil : s ≠ []
  isDigits : isDigits s = false

/-- The items that write entries, where the number in front of the next symbol may be left out if
    its entry lasts `bars` bars. No number has more digits than are read. -/
inductive Entry.WrittenAs (beatsPerBar : Int) : Nat → List Entry → List (List Char) → Prop
  | nil {bars : Nat} : WrittenAs beatsPerBar bars [] []
  | own {bars : Nat} {e : Entry} {digits : List Char} {rest : List Entry}
      {items : List (List Char)} (hs : IsSymbol e.chord) (hn : IsNumeral digits e.bars)
      (hl : digits.length ≤ mostDigits) (hr : WrittenAs beatsPerBar bars rest items) :
      WrittenAs beatsPerBar bars (e :: rest) ((e.chord ++ ':' :: digits) :: items)
  | beats {bars n : Nat} {e : Entry} {digits : List Char} {rest : List Entry}
      {items : List (List Char)} (hs : IsBareSymbol e.chord) (hn : IsNumeral digits n)
      (hbeats : (n : Int) = e.bars * beatsPerBar) (hl : digits.length ≤ mostDigits)
      (hr : WrittenAs beatsPerBar e.bars rest items) :
      WrittenAs beatsPerBar bars (e :: rest) (digits :: e.chord :: items)
  | bare {bars : Nat} {e : Entry} {rest : List Entry} {items : List (List Char)}
      (hs : IsBareSymbol e.chord) (hlast : e.bars = bars)
      (hr : WrittenAs beatsPerBar bars rest items) :
      WrittenAs beatsPerBar bars (e :: rest) (e.chord :: items)

theorem IsSymbol.colon_not_mem {s : List Char} (h : IsSymbol s) : ':' ∉ s :=
  fun hm => (h _ hm).2 rfl

theorem IsBareSymbol.isWord {s : List Char} (h : IsBareSymbol s) : IsWord s :=
  ⟨h.ne_nil, fun c hc => (h.isSymbol c hc).1⟩

theorem Number.IsNumeral.isWord {digits : List Char} {n : Nat} (h : IsNumeral digits n) :
    IsWord digits :=
  ⟨h.ne_nil, fun c hc => isBlank_ascii (h.isDigit c hc)⟩

theorem Number.IsNumeral.isDigits {digits : List Char} {n : Nat} (h : IsNumeral digits n) :
    Text.isDigits digits = true := by
  have hall : digits.all Text.isDigit = true :=
    List.all_eq_true.mpr fun c hc => Text.isDigit_of_isAsciiDigit (h.isDigit c hc)
  simp [Text.isDigits, h.ne_nil, hall]

/-- The items of entries are words. -/
theorem Entry.WrittenAs.isWord {beatsPerBar : Int} {bars : Nat} {entries : List Entry}
    {items : List (List Char)} (h : Entry.WrittenAs beatsPerBar bars entries items) :
    ∀ word ∈ items, IsWord word := by
  induction h with
  | nil => simp
  | own hs hn hl hr ih =>
    intro word hword
    rcases List.mem_cons.mp hword with rfl | hword
    · refine ⟨by simp, fun c hc => ?_⟩
      rcases List.mem_append.mp hc with hc | hc
      · exact (hs c hc).1
      · rcases List.mem_cons.mp hc with rfl | hc
        · decide
        · exact hn.isWord.isBlank c hc
    · exact ih word hword
  | beats hs hn hbeats hl hr ih =>
    intro word hword
    rcases List.mem_cons.mp hword with rfl | hword
    · exact hn.isWord
    · rcases List.mem_cons.mp hword with rfl | hword
      · exact hs.isWord
      · exact ih word hword
  | bare hs hlast hr ih =>
    intro word hword
    rcases List.mem_cons.mp hword with rfl | hword
    · exact hs.isWord
    · exact ih word hword

/-! ## 2. Reading an item -/

section

variable {symbol : List Char}

/-- An item is cut at its first colon. -/
theorem splitColon_append (h : ':' ∉ symbol) (count : List Char) :
    splitColon (symbol ++ ':' :: count) = (symbol, count) := by
  have hne : ∀ c ∈ symbol, (c != ':') = true := fun c hc => by
    simpa using fun he : c = ':' => h (he ▸ hc)
  rw [splitColon, List.takeWhile_append_of_pos hne, List.dropWhile_append_of_pos hne]
  simp

/-- Without a colon the item is all symbol. -/
theorem splitColon_of_not_mem (h : ':' ∉ symbol) : splitColon symbol = (symbol, []) := by
  have hne : ∀ c ∈ symbol, (c != ':') = true := fun c hc => by
    simpa using fun he : c = ':' => h (he ▸ hc)
  rw [splitColon, ← List.append_nil symbol, List.takeWhile_append_of_pos hne,
    List.dropWhile_append_of_pos hne]
  simp

theorem isDigits_colon (count : List Char) : isDigits (symbol ++ ':' :: count) = false := by
  have hcolon : Text.isDigit ':' = false := by decide
  simp [isDigits, hcolon]

variable {beatsPerBar : Int} {bars n : Nat} {digits : List Char} {rest : List (List Char)}

theorem Entry.make_of_pos (chord : List Char) (h : 0 < n) :
    Entry.make chord (n : Int) = .ok ⟨chord, n, h⟩ := by
  rw [make, dif_pos (by omega)]
  rfl

/-- A number of beats sets the length that lasts. -/
theorem readItems_count (hn : IsNumeral digits n) (hl : digits.length ≤ mostDigits) :
    readItems beatsPerBar bars (digits :: rest)
      = readItems beatsPerBar (max 1 ((n : Int) / beatsPerBar)).toNat rest := by
  rw [readItems, if_pos hn.isDigits, wholeNumber_count hn hl]
  rfl

/-- A symbol with a length of its own leaves the one that lasts alone. -/
theorem readItems_own (h : ':' ∉ symbol) (hn : IsNumeral digits n) (hl : digits.length ≤ mostDigits)
    (hpos : 0 < n) :
    readItems beatsPerBar bars ((symbol ++ ':' :: digits) :: rest)
      = (readItems beatsPerBar bars rest).map (⟨symbol, n, hpos⟩ :: ·) := by
  have hlong : ¬ (n : Int) < 1 := by omega
  rw [readItems, if_neg (by simp [isDigits_colon]), splitColon_append h]
  simp only [List.isEmpty_eq_false_iff.mpr hn.ne_nil, hn.isDigits, wholeNumber_count hn hl,
    Bool.not_true, Bool.false_eq_true, if_false, bind, Except.bind, hlong,
    Entry.make_of_pos symbol hpos]
  cases readItems beatsPerBar bars rest <;> rfl

/-- A symbol by itself lasts as long as the last number said. -/
theorem readItems_bare (hs : IsBareSymbol symbol) (hpos : 0 < bars) :
    readItems beatsPerBar bars (symbol :: rest)
      = (readItems beatsPerBar bars rest).map (⟨symbol, bars, hpos⟩ :: ·) := by
  rw [readItems, if_neg (by simp [hs.isDigits]), splitColon_of_not_mem hs.isSymbol.colon_not_mem]
  simp only [List.isEmpty_nil, if_true, Entry.make_of_pos symbol hpos, bind, Except.bind]
  cases readItems beatsPerBar bars rest <;> rfl

end

/-! ## 3. Reading entries -/

/-- A number of beats that a whole number of bars lasts gives these bars. -/
theorem bars_of_beats {beatsPerBar : Int} {bars : Nat} (hb : 1 ≤ beatsPerBar) (hpos : 0 < bars) :
    (max 1 ((bars : Int) * beatsPerBar / beatsPerBar)).toNat = bars := by
  rw [Int.mul_ediv_cancel _ (by omega)]
  omega

/-- **Items read as the entries that they write.** The induction carries the length that lasts: a
    number sets it to that of its own entry, and a length behind a symbol does not change it. -/
theorem readItems_written {beatsPerBar : Int} (hb : 1 ≤ beatsPerBar) {bars : Nat}
    {entries : List Entry} {items : List (List Char)}
    (h : Entry.WrittenAs beatsPerBar bars entries items) :
    readItems beatsPerBar bars items = .ok entries := by
  induction h with
  | nil => rfl
  | @own bars e digits rest items hs hn hl hr ih =>
    rw [readItems_own hs.colon_not_mem hn hl e.bars_pos, ih]
    rfl
  | @beats bars n e digits rest items hs hn hbeats hl hr ih =>
    rw [readItems_count hn hl, hbeats, bars_of_beats hb e.bars_pos, readItems_bare hs e.bars_pos,
      ih]
    rfl
  | @bare bars e rest items hs hlast hr ih =>
    subst hlast
    rw [readItems_bare hs e.bars_pos, ih]
    rfl

/-- **Every progression that is written is read back.** The length that lasts is one bar at first. -/
theorem readProgression_written {beatsPerBar : Int} (hb : 1 ≤ beatsPerBar) {entries : List Entry}
    {items : List (List Char)} (hw : Entry.WrittenAs beatsPerBar 1 entries items)
    {text : List Char} (ht : Spaced items text) :
    readProgression text beatsPerBar = .ok entries := by
  rw [readProgression, if_neg (by omega), Text.words_of_spaced hw.isWord ht]
  exact readItems_written hb hw

/-- Two bars by a number of beats, twelve by a length of its own, two again by the number that lasts,
    and one. -/
def mixedLengths : List Entry :=
  [⟨['G', '7'], 2, by decide⟩, ⟨['9'], 12, by decide⟩, ⟨['C', '6'], 2, by decide⟩,
    ⟨['F'], 1, by decide⟩]

/-- A length behind a symbol does not disturb the one that lasts, and symbols may end in digits. -/
theorem readProgression_written_mixed :
    readProgression "8 G7\t9:12  C6 4 F".toList 4 = .ok mixedLengths := by
  have hgap : IsGap [' '] := by decide +kernel
  have htab : IsGap ['\t'] := by decide +kernel
  have hwide : IsGap [' ', ' '] := by decide +kernel
  have hseventh : IsBareSymbol ['G', '7'] := ⟨by decide +kernel, by decide, by decide +kernel⟩
  have hsixth : IsBareSymbol ['C', '6'] := ⟨by decide +kernel, by decide, by decide +kernel⟩
  have hplain : IsBareSymbol ['F'] := ⟨by decide +kernel, by decide, by decide +kernel⟩
  have hnine : IsSymbol ['9'] := by decide +kernel
  have hwritten : Entry.WrittenAs 4 1 mixedLengths
      [['8'], ['G', '7'], ['9', ':', '1', '2'], ['C', '6'], ['4'], ['F']] :=
    .beats hseventh (Number.isNumeral_toDigits 8) rfl (by decide)
      (.own hnine (Number.isNumeral_toDigits 12) (by decide)
        (.bare hsixth rfl
          (.beats hplain (Number.isNumeral_toDigits 4) rfl (by decide) .nil)))
  have hspaced : Spaced [['8'], ['G', '7'], ['9', ':', '1', '2'], ['C', '6'], ['4'], ['F']]
      "8 G7\t9:12  C6 4 F".toList :=
    .cons Text.isGap_nil (List.cons_ne_nil _ _) hgap
      (.cons Text.isGap_nil (List.cons_ne_nil _ _) htab
        (.cons Text.isGap_nil (List.cons_ne_nil _ _) hwide
          (.cons Text.isGap_nil (List.cons_ne_nil _ _) hgap
            (.cons Text.isGap_nil (List.cons_ne_nil _ _) hgap (.last Text.isGap_nil)))))
  exact readProgression_written (by decide) hwritten hspaced

end Cantilena
