import Cantilena.Number.Numeral

/-!
# Numbers written in decimal

* `IsNumeral` -- ASCII digits that write a number; leading zeros are allowed;
* `isNumeral_toDigits`, `isNumeral_nines` -- the usual way to write a number is one, and so is a row
  of nines;
* `wholeNumber_numeral` -- a numeral reads as its number, unless it has more digits than are read.
-/

namespace Cantilena.Number

open Text (decimalValue isAsciiDigit isBlank)

/-- One or more ASCII digits that write a number. -/
structure IsNumeral (digits : List Char) (n : Nat) : Prop where
  ne_nil : digits ≠ []
  isDigit : ∀ c ∈ digits, isAsciiDigit c = true
  value : Nat.ofDigitChars 10 digits 0 = n

theorem isAsciiDigit_of_isDigit {c : Char} (h : c.isDigit = true) : isAsciiDigit c = true := by
  obtain ⟨h₁, h₂⟩ := Char.isDigit_iff_toNat.mp h
  have hz : '0'.toNat ≤ c.toNat := h₁
  have hn : c.toNat ≤ '9'.toNat := h₂
  simp only [isAsciiDigit, Bool.and_eq_true, decide_eq_true_eq]
  exact ⟨hz, hn⟩

/-- The digits of a number write it. -/
theorem isNumeral_toDigits (n : Nat) : IsNumeral (Nat.toDigits 10 n) n where
  ne_nil := Nat.toDigits_ne_nil
  isDigit c hc := isAsciiDigit_of_isDigit
    (Nat.isDigit_of_mem_toDigits (by decide) (Nat.le_refl 10) hc)
  value := Nat.ofDigitChars_ten_toDigits

/-- The number that a row of nines writes. -/
theorem isNumeral_nines (k : Nat) (hk : 0 < k) :
    IsNumeral (List.replicate k '9') (10 ^ k - 1) where
  ne_nil := List.ne_nil_of_length_pos (by rwa [List.length_replicate])
  isDigit c hc := by
    rw [List.eq_of_mem_replicate hc]
    decide
  value := by
    have hvalue (k : Nat) : Nat.ofDigitChars 10 (List.replicate k '9') 0 + 1 = 10 ^ k := by
      induction k with
      | zero => rfl
      | succ k ih =>
        have hstep : Nat.ofDigitChars 10 (List.replicate (k + 1) '9') 0
            = 10 * Nat.ofDigitChars 10 (List.replicate k '9') 0 + 9 := by
          rw [List.replicate_succ', Nat.ofDigitChars, List.foldl_append]
          rfl
        rw [hstep, Nat.pow_succ]
        omega
    have := hvalue k
    omega

/-! ## Reading -/

theorem decimalValue_ascii {c : Char} (h : isAsciiDigit c = true) :
    decimalValue c = some (c.toNat - 48) := by
  simp [decimalValue, h]

theorem ne_of_isAsciiDigit {c d : Char} (h : isAsciiDigit c = true) (hd : isAsciiDigit d = false) :
    c ≠ d := by
  rintro rfl
  rw [h] at hd
  cases hd

theorem isBlank_ascii {c : Char} (h : isAsciiDigit c = true) : isBlank c = false := by
  have hn := Text.isAsciiDigit_toNat h
  rw [Bool.eq_false_iff]
  intro hb
  obtain ⟨r, hr, hlo, hhi⟩ := (Text.inRanges_iff _ _).mp hb
  have hout : ∀ r ∈ Text.blankRanges, r.2 < 48 ∨ 57 < r.1 := by decide
  have := hout r hr
  omega

theorem isMargin_ascii {c : Char} (h : isAsciiDigit c = true) : isMargin c = false := by
  simp [isMargin, isBlank_ascii h]

/-- Digits are read to their end. -/
theorem moreDigits_ascii {cs : List Char} (h : ∀ c ∈ cs, isAsciiDigit c = true) (read : List Nat) :
    moreDigits read cs = some ((cs.map fun c => c.toNat - 48).reverse ++ read, []) := by
  induction cs generalizing read with
  | nil => simp [moreDigits]
  | cons c cs ih =>
    have hc := h c List.mem_cons_self
    have hu : c ≠ '_' := ne_of_isAsciiDigit hc (by decide)
    rw [moreDigits, decimalValue_ascii hc]
    · simp only
      rw [ih fun x hx => h x (List.mem_cons_of_mem _ hx)]
      simp
    · rintro rfl
      exact absurd rfl hu
    · rintro _ _ rfl
      exact absurd rfl hu

theorem ofDigits_map (cs : List Char) :
    ofDigits (cs.map fun c => c.toNat - 48) = Nat.ofDigitChars 10 cs 0 := by
  rw [ofDigits, List.foldl_map, Nat.ofDigitChars_eq_foldl]
  rfl

/-- **A numeral reads as its number**, unless it has more digits than are read. -/
theorem wholeNumber_numeral {digits : List Char} {n : Nat} (h : IsNumeral digits n) :
    wholeNumber digits
      = if mostDigits < digits.length then .error (.tooManyDigits digits.length) else .ok n := by
  obtain ⟨hne, hd, hv⟩ := h
  cases digits with
  | nil => exact absurd rfl hne
  | cons c cs =>
    have hc := hd c List.mem_cons_self
    have hsign : leadingSign (c :: cs) = (false, c :: cs) := by
      have hm : c ≠ '-' := ne_of_isAsciiDigit hc (by decide)
      have hp : c ≠ '+' := ne_of_isAsciiDigit hc (by decide)
      unfold leadingSign
      split
      · rename_i he
        exact absurd (List.cons.inj he).1 hm
      · rename_i he
        exact absurd (List.cons.inj he).1 hp
      · rfl
    have hread : leadingDigits (c :: cs)
        = some ((((c :: cs).map fun c => c.toNat - 48)).reverse, []) := by
      rw [leadingDigits, decimalValue_ascii hc, Option.bind_some,
        moreDigits_ascii fun x hx => hd x (List.mem_cons_of_mem _ hx)]
      simp
    unfold wholeNumber
    rw [List.dropWhile_cons_of_neg (by simp [isMargin_ascii hc]), hsign]
    simp only [hread, List.length_reverse, List.length_map, List.reverse_reverse, List.all_nil,
      if_true, ofDigits_map, hv, signed]
    split <;> rfl

end Cantilena.Number
