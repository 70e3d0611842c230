import Cantilena.Proofs.Number.Decimal
import Cantilena.Proofs.Text.Folded

/-!
# Which digits are read

Not every digit has a decimal value, and not every row of digits is short enough to be read.

* `IsReadable` -- decimal digits, and no more of them than are read;
* `exists_wholeNumber_iff` -- digits are read as a whole number just where they are readable.
-/

namespace Cantilena.Number

open Text (decimalValue isDigit isDigits isAsciiDigit)

/-! ## 1. Digits that are read -/

/-- Digits that are read as a whole number: each has a decimal value, and they are not too many. -/
structure IsReadable (digits : List Char) : Prop where
  decimal : ∀ c ∈ digits, (decimalValue c).isSome = true
  length_le : digits.length ≤ mostDigits

theorem ne_of_isDigit {c d : Char} (h : isDigit c = true) (hd : isDigit d = false) : c ≠ d := by
  rintro rfl
  rw [h] at hd
  cases hd

theorem isMargin_of_isDigit {c : Char} (h : isDigit c = true) : isMargin c = false := by
  rw [isMargin, Text.isBlank_of_isDigit h, Bool.false_and]

/-- Of a character that is no underscore only its value counts. -/
theorem moreDigits_cons {c : Char} (hc : c ≠ '_') (read : List Nat) (cs : List Char) :
    moreDigits read (c :: cs)
      = (decimalValue c).elim (some (read, c :: cs)) fun d => moreDigits (d :: read) cs := by
  rw [moreDigits]
  · cases decimalValue c <;> rfl
  · intro he
    exact absurd he hc
  · intro _ _ he
    exact absurd he hc

/-- Text without underscores is read up to the first character that is no decimal digit. -/
theorem exists_moreDigits {cs : List Char} (h : '_' ∉ cs) (read : List Nat) :
    ∃ more, moreDigits read cs = some (more ++ read, cs.dropWhile fun c => (decimalValue c).isSome)
      ∧ more.length = (cs.takeWhile fun c => (decimalValue c).isSome).length := by
  induction cs generalizing read with
  | nil => exact ⟨[], by rw [moreDigits]; rfl, rfl⟩
  | cons c cs ih =>
    have hc : c ≠ '_' := fun he => h (he ▸ List.mem_cons_self)
    have hcs : '_' ∉ cs := fun hm => h (List.mem_cons_of_mem c hm)
    rw [moreDigits_cons hc]
    cases hvalue : decimalValue c with
    | none =>
      rw [List.dropWhile_cons_of_neg (by simp [hvalue]), List.takeWhile_cons_of_neg (by simp [hvalue])]
      exact ⟨[], rfl, rfl⟩
    | some d =>
      obtain ⟨more, hmore, hlength⟩ := ih hcs (d :: read)
      rw [List.dropWhile_cons_of_pos (by simp [hvalue]), List.takeWhile_cons_of_pos (by simp [hvalue])]
      refine ⟨more ++ [d], ?_, ?_⟩
      · rw [Option.elim_some, hmore, List.append_assoc, List.singleton_append]
      · rw [List.length_cons, ← hlength, List.length_append, List.length_singleton]

/-- A decimal digit and the decimal digits behind it are read, up to what follows them. -/
theorem exists_leadingDigits {c : Char} {cs : List Char} (hc : (decimalValue c).isSome = true)
    (hcs : '_' ∉ cs) : ∃ read, leadingDigits (c :: cs)
        = some (read, (c :: cs).dropWhile fun c => (decimalValue c).isSome)
      ∧ read.length = ((c :: cs).takeWhile fun c => (decimalValue c).isSome).length := by
  obtain ⟨d, hd⟩ := Option.isSome_iff_exists.mp hc
  obtain ⟨more, hmore, hlength⟩ := exists_moreDigits hcs [d]
  refine ⟨more ++ [d], ?_, ?_⟩
  · rw [List.dropWhile_cons_of_pos (by exact hc), leadingDigits, hd, Option.bind_some, hmore]
  · rw [List.takeWhile_cons_of_pos (by exact hc), List.length_append, List.length_singleton, hlength,
      List.length_cons]

theorem leadingSign_of_isDigit {c : Char} (hc : isDigit c = true) (cs : List Char) :
    leadingSign (c :: cs) = (false, c :: cs) := by
  unfold leadingSign
  split
  · rename_i he
    exact absurd (List.cons.inj he).1 (ne_of_isDigit hc (by decide))
  · rename_i he
    exact absurd (List.cons.inj he).1 (ne_of_isDigit hc (by decide))
  · rfl

/-- **Digits are read as a whole number just where they are readable.** -/
theorem exists_wholeNumber_iff {digits : List Char} (h : isDigits digits = true) :
    (∃ n, wholeNumber digits = .ok n) ↔ IsReadable digits := by
  obtain ⟨hne, hall⟩ := Bool.and_eq_true_iff.mp h
  have hdigit : ∀ c ∈ digits, isDigit c = true := List.all_eq_true.mp hall
  cases digits with
  | nil => cases hne
  | cons c cs =>
    have hc := hdigit c List.mem_cons_self
    have hunderscore : '_' ∉ cs := fun hm =>
      ne_of_isDigit (hdigit '_' (List.mem_cons_of_mem c hm)) (by decide) rfl
    unfold wholeNumber
    rw [List.dropWhile_cons_of_neg (by simp [isMargin_of_isDigit hc]), leadingSign_of_isDigit hc]
    cases hvalue : decimalValue c with
    | none =>
      refine iff_of_false ?_ fun hreadable => ?_
      · rintro ⟨n, hn⟩
        simp only [leadingDigits, hvalue, Option.bind_none] at hn
        cases hn
      · have := hreadable.decimal c List.mem_cons_self
        rw [hvalue] at this
        cases this
    | some d =>
      have hfirst : (decimalValue c).isSome = true := by rw [hvalue]; rfl
      obtain ⟨read, hread, hlength⟩ := exists_leadingDigits hfirst hunderscore
      simp only [hread]
      have hsplit : (c :: cs).takeWhile (fun c => (decimalValue c).isSome)
          ++ (c :: cs).dropWhile (fun c => (decimalValue c).isSome) = c :: cs :=
        List.takeWhile_append_dropWhile
      cases hrest : (c :: cs).dropWhile fun c => (decimalValue c).isSome with
      | nil =>
        -- all digits are decimal, so that only their number matters
        rw [hrest, List.append_nil] at hsplit
        have hdecimal : ∀ b ∈ c :: cs, (decimalValue b).isSome = true :=
          List.all_eq_true.mp (hsplit ▸ List.all_takeWhile)
        rw [hsplit] at hlength
        rw [hlength]
        by_cases hmost : mostDigits < (c :: cs).length
        · rw [if_pos hmost]
          refine iff_of_false ?_ fun hreadable =>
            absurd hreadable.length_le (Nat.not_le_of_lt hmost)
          rintro ⟨n, hn⟩
          cases hn
        · rw [if_neg hmost]
          exact iff_of_true ⟨_, rfl⟩ ⟨hdecimal, Nat.le_of_not_lt hmost⟩
      | cons b rest =>
        have hb : b ∈ c :: cs := hsplit ▸ List.mem_append_right _ (hrest ▸ List.mem_cons_self)
        have hstops : (decimalValue b).isSome = false := by
          have := List.head?_dropWhile_not (fun c => (decimalValue c).isSome) (c :: cs)
          rw [hrest] at this
          simpa using this
        have hmargin : (b :: rest).all isMargin = false := by
          rw [List.all_cons, isMargin_of_isDigit (hdigit b hb), Bool.false_and]
        refine iff_of_false ?_ fun hreadable => ?_
        · rintro ⟨n, hn⟩
          simp only [hmargin, Bool.false_eq_true, if_false] at hn
          split at hn <;> cases hn
        · rw [hreadable.decimal b hb] at hstops
          cases hstops

/-- One digit is read just where it has a decimal value. -/
theorem exists_wholeNumber_singleton_iff {c : Char} (h : isDigit c = true) :
    (∃ n, wholeNumber [c] = .ok n) ↔ (decimalValue c).isSome = true := by
  have hdigits : isDigits [c] = true := by simp [isDigits, h]
  rw [exists_wholeNumber_iff hdigits]
  constructor
  · intro hreadable
    exact hreadable.decimal c List.mem_cons_self
  · intro hdecimal
    have hlength : [c].length ≤ mostDigits := Nat.le_of_ble_eq_true rfl
    refine ⟨fun b hb => ?_, hlength⟩
    rw [List.mem_singleton.mp hb]
    exact hdecimal

end Cantilena.Number
