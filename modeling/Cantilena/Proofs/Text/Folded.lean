import Cantilena.Chord
import Cantilena.Proofs.Notation.Scanning
import Cantilena.Text.Digit

/-!
# Words in lower-case texts

A text in lower case is not put together from its parts in lower case, because the form of a sigma
depends on its neighbours. But a word without sigma is found in it just where it is found in the
text with all sigmas alike, and that one is put together from its parts.

* `occursIn_iff`, `prefix_map_iff`, `infix_map_iff` -- words in texts, and in mapped texts;
* `folded`, `infix_lower_iff`, `mentions_lower` -- texts with all sigmas alike, and words in
  lower-case texts;
* `folded_gap`, `foldedChar_of_isDigit` -- blanks and digits have no case.
-/

namespace Cantilena

/-! ## 1. Words -/

theorem occursIn_iff {word text : List Char} : occursIn word text = true ↔ word <:+: text := by
  induction text with
  | nil => rw [occursIn, List.isEmpty_iff, List.infix_nil]
  | cons c text ih =>
    rw [occursIn, Bool.or_eq_true, List.isPrefixOf_iff_prefix, ih, List.infix_cons_iff]

theorem mentions_iff {text : List Char} {word : String} :
    mentions text word = true ↔ word.toList <:+: text := occursIn_iff

theorem startsWith_iff {text : List Char} {word : String} :
    startsWith text word = true ↔ word.toList <+: text := List.isPrefixOf_iff_prefix

namespace Text

/-- Whether a map of characters gives those of a word for themselves only. -/
def Keeps (f : Char → Char) (word : List Char) : Prop := ∀ a ∈ word, ∀ c, f c = a ↔ c = a

section

variable {f : Char → Char} {word text : List Char} (hf : Keeps f word)
include hf

theorem prefix_map_iff : word <+: text.map f ↔ word <+: text := by
  induction word generalizing text with
  | nil => exact ⟨fun _ => List.nil_prefix, fun _ => List.nil_prefix⟩
  | cons a word ih =>
    have hrest (text : List Char) : word <+: text.map f ↔ word <+: text :=
      ih fun b hb => hf b (List.mem_cons_of_mem a hb)
    cases text with
    | nil => rw [List.map_nil]
    | cons c text =>
      rw [List.map_cons, List.cons_prefix_cons, List.cons_prefix_cons, hrest, eq_comm,
        hf a List.mem_cons_self c, eq_comm]

theorem infix_map_iff : word <:+: text.map f ↔ word <:+: text := by
  induction text with
  | nil => rw [List.map_nil]
  | cons c text ih =>
    rw [List.map_cons, List.infix_cons_iff, List.infix_cons_iff, ih, ← List.map_cons,
      prefix_map_iff hf]

theorem map_eq_iff : text.map f = word ↔ text = word := by
  induction word generalizing text with
  | nil => exact List.map_eq_nil_iff
  | cons a word ih =>
    have hrest (text : List Char) : text.map f = word ↔ text = word :=
      ih fun b hb => hf b (List.mem_cons_of_mem a hb)
    cases text with
    | nil => rw [List.map_nil]
    | cons c text =>
      rw [List.map_cons, List.cons.injEq, List.cons.injEq, hrest, hf a List.mem_cons_self c]

end

/-- A word at the front of a text and more does without what it has no character of. -/
theorem prefix_of_prefix_append {word text more : List Char} (h : word <+: text ++ more)
    (hmore : ∀ c ∈ more, c ∉ word) : word <+: text := by
  induction word generalizing text with
  | nil => exact List.nil_prefix
  | cons a word ih =>
    cases text with
    | nil =>
      cases more with
      | nil => exact h
      | cons c more =>
        obtain ⟨rfl, -⟩ := List.cons_prefix_cons.mp h
        exact absurd List.mem_cons_self (hmore a List.mem_cons_self)
    | cons c text =>
      obtain ⟨rfl, hrest⟩ := List.cons_prefix_cons.mp h
      exact List.cons_prefix_cons.mpr
        ⟨rfl, ih hrest fun b hb hmem => hmore b hb (List.mem_cons_of_mem a hmem)⟩

/-! ## 2. Texts with all sigmas alike -/

/-- The sigma inside a word for the one at its end. -/
def plainSigma (c : Char) : Char := if c = '\u03c2' then '\u03c3' else c

/-- A character in lower case, with all sigmas alike. -/
def foldedChar (c : Char) : List Char := (lowerChar c).map plainSigma

/-- A text in lower case with all sigmas alike. -/
def folded (s : List Char) : List Char := s.flatMap foldedChar

theorem folded_append (s t : List Char) : folded (s ++ t) = folded s ++ folded t :=
  List.flatMap_append

theorem folded_cons (c : Char) (s : List Char) : folded (c :: s) = foldedChar c ++ folded s :=
  List.flatMap_cons

theorem map_lower (s : List Char) : (lower s).map plainSigma = folded s := by
  have hafter (before s : List Char) : (lowerAfter before s).map plainSigma = folded s := by
    induction s generalizing before with
    | nil => rfl
    | cons c s ih =>
      rw [lowerAfter, List.map_append, ih, folded_cons]
      refine congrArg (· ++ folded s) ?_
      by_cases hc : c = '\u03a3'
      · rw [if_pos hc, hc]
        split
        · decide
        · decide
      · rw [if_neg hc]
        rfl
  exact hafter [] s

/-- A word without sigma. -/
def NoSigma (word : List Char) : Prop := '\u03c2' ∉ word ∧ '\u03c3' ∉ word

instance (word : List Char) : Decidable (NoSigma word) := by
  unfold NoSigma
  exact inferInstance

theorem NoSigma.keeps {word : List Char} (h : NoSigma word) : Keeps plainSigma word := by
  intro a ha c
  have hfinal : a ≠ '\u03c2' := fun he => h.1 (he ▸ ha)
  have hinner : a ≠ '\u03c3' := fun he => h.2 (he ▸ ha)
  unfold plainSigma
  by_cases hc : c = '\u03c2'
  · rw [if_pos hc, hc]
    exact ⟨fun he => absurd he.symm hinner, fun he => absurd he.symm hfinal⟩
  · rw [if_neg hc]

section

variable {word s : List Char} (h : NoSigma word)
include h

/-- **A word without sigma is found in lower case just where it is found with all sigmas alike.** -/
theorem infix_lower_iff : word <:+: lower s ↔ word <:+: folded s := by
  rw [← map_lower, infix_map_iff h.keeps]

theorem prefix_lower_iff : word <+: lower s ↔ word <+: folded s := by
  rw [← map_lower, prefix_map_iff h.keeps]

theorem lower_eq_iff : lower s = word ↔ folded s = word := by
  rw [← map_lower, map_eq_iff h.keeps]

end

/-- **A word without sigma is looked for in lower case as with all sigmas alike.** -/
theorem mentions_lower {word : String} (h : NoSigma word.toList) (s : List Char) :
    mentions (lower s) word = mentions (folded s) word := by
  rw [Bool.eq_iff_iff, mentions_iff, mentions_iff, infix_lower_iff h]

theorem startsWith_lower {word : String} (h : NoSigma word.toList) (s : List Char) :
    startsWith (lower s) word = startsWith (folded s) word := by
  rw [Bool.eq_iff_iff, startsWith_iff, startsWith_iff, prefix_lower_iff h]

theorem beq_lower {word : List Char} (h : NoSigma word) (s : List Char) :
    (lower s == word) = (folded s == word) := by
  rw [Bool.eq_iff_iff, beq_iff_eq, beq_iff_eq, lower_eq_iff h]

/-! ## 3. Characters without case -/

/-- Whether no range of a table meets one of another table. -/
def areApart (table other : List CodeRange) : Bool :=
  table.all fun r => other.all fun s => Nat.blt r.2 s.1 || Nat.blt s.2 r.1

theorem not_inRanges_of_areApart {table other : List CodeRange} (h : areApart table other = true)
    {n : Nat} (hn : inRanges table n = true) : inRanges other n = false := by
  obtain ⟨r, hr, hfirst, hlast⟩ := (inRanges_iff table n).mp hn
  refine Bool.eq_false_iff.mpr fun hother => ?_
  obtain ⟨s, hs, hfirst', hlast'⟩ := (inRanges_iff other n).mp hother
  have hmeet := List.all_eq_true.mp (List.all_eq_true.mp h r hr) s hs
  rw [Bool.or_eq_true, Nat.blt_eq, Nat.blt_eq] at hmeet
  omega

/-- All that lower case or the one form of a sigma changes, as ranges. -/
def changedRanges : List CodeRange :=
  (0x41, 0x5a) :: (0x130, 0x130) :: (0x3c2, 0x3c2) :: lowerShifts.map fun s => (s.1, s.2.1)

theorem lowerCode_of_not_inRanges {n : Nat} (h : inRanges changedRanges n = false) :
    lowerCode n = n := by
  unfold lowerCode
  split
  · rename_i first last step shift hfound
    have hwithin := List.find?_some hfound
    simp at hwithin
    have hshift : (first, last) ∈ lowerShifts.map fun s => (s.1, s.2.1) :=
      List.mem_map.mpr ⟨_, List.mem_of_find?_eq_some hfound, rfl⟩
    have hmem : (first, last) ∈ changedRanges :=
      List.mem_cons_of_mem _ (List.mem_cons_of_mem _ (List.mem_cons_of_mem _ hshift))
    have hn := (inRanges_iff changedRanges n).mpr ⟨_, hmem, hwithin.1.1, hwithin.1.2⟩
    rw [h] at hn
    cases hn
  · rfl

/-- **A character that is in no range of changes is in lower case.** -/
theorem foldedChar_of_not_inRanges {c : Char} (h : inRanges changedRanges c.toNat = false) :
    foldedChar c = [c] := by
  have hout (r : CodeRange) (hr : r ∈ changedRanges) : c.toNat < r.1 ∨ r.2 < c.toNat := by
    have hn : ¬ (r.1 ≤ c.toNat ∧ c.toNat ≤ r.2) := fun hwithin => by
      rw [(inRanges_iff changedRanges c.toNat).mpr ⟨r, hr, hwithin⟩] at h
      cases h
    omega
  have hcapital : c.toNat < 0x41 ∨ 0x5a < c.toNat := hout (0x41, 0x5a) List.mem_cons_self
  have hdotted : c.toNat < 0x130 ∨ 0x130 < c.toNat :=
    hout (0x130, 0x130) (List.mem_cons_of_mem _ List.mem_cons_self)
  have hsigma : c.toNat < 0x3c2 ∨ 0x3c2 < c.toNat :=
    hout (0x3c2, 0x3c2) (List.mem_cons_of_mem _ (List.mem_cons_of_mem _ List.mem_cons_self))
  have hlower : lowerChar c = [c] := by
    unfold lowerChar
    by_cases hascii : c.toNat < 128
    · have hsame : c.toLower = c := by
        refine dif_neg fun hletter => ?_
        have hA : 0x41 ≤ c.toNat := UInt32.le_iff_toNat_le.mp hletter.1
        have hZ : c.toNat ≤ 0x5a := UInt32.le_iff_toNat_le.mp hletter.2
        omega
      rw [if_pos hascii, hsame]
    · rw [if_neg hascii, if_neg (by omega), lowerCode_of_not_inRanges h, Char.ofNat_toNat]
  have hne : c ≠ '\u03c2' := fun he => by
    have : c.toNat = 0x3c2 := he ▸ rfl
    omega
  rw [foldedChar, hlower, List.map_singleton, plainSigma, if_neg hne]

/-- Blanks have no case. -/
theorem folded_gap {s : List Char} (h : IsGap s) : folded s = s := by
  have hapart : areApart blankRanges changedRanges = true := by decide +kernel
  induction s with
  | nil => rfl
  | cons c s ih =>
    have hblank := not_inRanges_of_areApart hapart (h c List.mem_cons_self)
    rw [folded_cons, foldedChar_of_not_inRanges hblank,
      ih fun b hb => h b (List.mem_cons_of_mem c hb)]
    rfl

/-- The digits of all scripts, as ranges. -/
def digitRanges : List CodeRange :=
  (0x30, 0x39) :: (decimalZeros.map fun first => (first, first + 9)) ++ figureRanges

theorem inRanges_of_isDigit {c : Char} (h : isDigit c = true) :
    inRanges digitRanges c.toNat = true := by
  refine (inRanges_iff _ _).mpr ?_
  unfold isDigit at h
  split at h
  · obtain ⟨hfirst, hlast⟩ := isAsciiDigit_toNat h
    exact ⟨(0x30, 0x39), List.mem_cons_self, hfirst, hlast⟩
  · rename_i hascii
    rcases Bool.or_eq_true_iff.mp h with h | h
    · have hplain : isAsciiDigit c = false := by
        refine Bool.eq_false_iff.mpr fun hdigit => hascii ?_
        have := isAsciiDigit_toNat hdigit
        omega
      rw [decimalValue, hplain, if_neg Bool.false_ne_true, if_neg hascii, Option.isSome_map,
        List.find?_isSome] at h
      obtain ⟨first, hmem, hwithin⟩ := h
      rw [Bool.and_eq_true, decide_eq_true_iff, decide_eq_true_iff] at hwithin
      refine ⟨(first, first + 9), ?_, hwithin.1, by omega⟩
      exact List.mem_append_left _ (List.mem_cons_of_mem _ (List.mem_map_of_mem hmem))
    · obtain ⟨r, hr, hwithin⟩ := (inRanges_iff _ _).mp h
      exact ⟨r, List.mem_append_right _ hr, hwithin⟩

/-- Digits have no case. -/
theorem foldedChar_of_isDigit {c : Char} (h : isDigit c = true) : foldedChar c = [c] := by
  have hapart : areApart digitRanges changedRanges = true := by decide +kernel
  exact foldedChar_of_not_inRanges (not_inRanges_of_areApart hapart (inRanges_of_isDigit h))

theorem isBlank_of_isDigit {c : Char} (h : isDigit c = true) : isBlank c = false := by
  have hapart : areApart digitRanges blankRanges = true := by decide +kernel
  exact not_inRanges_of_areApart hapart (inRanges_of_isDigit h)

end Text

end Cantilena
