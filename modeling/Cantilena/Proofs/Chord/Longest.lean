import Cantilena.Proofs.Chord.Reading

/-!
# The longest formula of a quality

A quality has the first formula of the table whose name it starts with. No name of the table starts
with one that stands before it, so the first formula is the one with the longest name.

* `Formula.Graded` -- tables in which no name starts with one that stands before it;
* `Formula.IsLongest` -- that a formula has the longest of the names that a text starts with;
* `Formula.find?_eq_some_iff_isLongest` -- in a graded table the first formula is the longest;
* `Formula.longest_found` -- the formula of a quality, and of a quality with more text behind it.
-/

namespace Cantilena.Formula

/-! ## 1. Graded tables -/

/-- A table in which no name starts with one that stands before it. -/
def Graded (formulas : List Formula) : Prop :=
  formulas.Pairwise fun f g => ¬ f.name.toList <+: g.name.toList

instance (formulas : List Formula) : Decidable (Graded formulas) :=
  inferInstanceAs (Decidable (List.Pairwise _ _))

/-- The formulas are tried in such an order. -/
theorem graded_table : Graded table := by decide +kernel

/-- Of the formulas of a table whose names a text starts with, the one with the longest name. -/
structure IsLongest (formulas : List Formula) (text : List Char) (f : Formula) : Prop where
  mem : f ∈ formulas
  opens : f.name.toList <+: text
  longest : ∀ g ∈ formulas, g.name.toList <+: text → g ≠ f → g.name.length < f.name.length

section

variable {formulas : List Formula} {text : List Char} {f g : Formula}

theorem IsLongest.unique (hf : IsLongest formulas text f) (hg : IsLongest formulas text g) :
    f = g := by
  refine Classical.byContradiction fun hne => ?_
  have h₁ := hf.longest g hg.mem hg.opens fun h => hne h.symm
  have h₂ := hg.longest f hf.mem hf.opens hne
  omega

/-- No formula is found where the text starts with none of the names. -/
theorem find?_starts_eq_none_iff :
    formulas.find? (·.starts text) = none ↔ ∀ f ∈ formulas, ¬ f.name.toList <+: text := by
  simp [List.find?_eq_none, starts]

/-- In a graded table the first formula is the longest. -/
theorem isLongest_of_find? (hgraded : Graded formulas)
    (hfind : formulas.find? (·.starts text) = some f) : IsLongest formulas text f := by
  obtain ⟨hstarts, before, after, rfl, hbefore⟩ := List.find?_eq_some_iff_append.mp hfind
  have hopens : f.name.toList <+: text := List.isPrefixOf_iff_prefix.mp hstarts
  refine ⟨by simp, hopens, fun g hg hgopens hne => ?_⟩
  have hafter : g ∈ after := by
    rcases List.mem_append.mp hg with hg | hg
    · -- what stands before the first formula is not in front of the text
      have hnot := hbefore g hg
      rw [show g.starts text = true from List.isPrefixOf_iff_prefix.mpr hgopens] at hnot
      cases hnot
    · exact (List.mem_cons.mp hg).resolve_left hne
  have hapart : ¬ f.name.toList <+: g.name.toList :=
    List.rel_of_pairwise_cons (List.pairwise_append.mp hgraded).2.1 hafter
  refine Nat.lt_of_not_le fun hle => hapart ?_
  exact List.prefix_of_prefix_length_le hopens hgopens hle

/-- **In a graded table the first formula that a text starts with is the longest one**, and there is
    a first one where there is a longest one. -/
theorem find?_eq_some_iff_isLongest (hgraded : Graded formulas) :
    formulas.find? (·.starts text) = some f ↔ IsLongest formulas text f := by
  constructor
  · exact isLongest_of_find? hgraded
  · intro hf
    cases hfind : formulas.find? (·.starts text) with
    | none => exact absurd hf.opens (find?_starts_eq_none_iff.mp hfind f hf.mem)
    | some g => rw [(isLongest_of_find? hgraded hfind).unique hf]

end

/-! ## 2. The formula of a quality -/

/-- A quality is looked for in lower case. -/
theorem find?_of_ne_nil {quality : List Char} (hne : quality ≠ []) :
    find? quality = table.find? (·.starts (Text.lower quality)) := by
  unfold find?
  simp [hne]

/-- More text behind a quality keeps the names that it starts with. A sigma at the end of the quality
    may change its form, but no name holds one. -/
theorem opens_append {quality : List Char} {f : Formula} (hf : f ∈ table)
    (hopens : f.name.toList <+: Text.lower quality) (more : List Char) :
    f.name.toList <+: Text.lower (quality ++ more) := by
  have hsigma := (name_plain hf).1
  rw [Text.prefix_lower_iff hsigma] at hopens ⊢
  rw [Text.folded_append]
  exact hopens.trans (List.prefix_append _ _)

/-- **The formula of a quality is the longest.** A quality that is not empty has the formula with the
    longest of the names that it starts with in lower case, and none where it starts with no name. So
    with more text behind it, it has the same formula, or one whose name goes on from there. -/
theorem longest_found {quality : List Char} (hne : quality ≠ []) :
    (∀ f, find? quality = some f ↔ IsLongest table (Text.lower quality) f)
      ∧ (find? quality = none ↔ ∀ f ∈ table, ¬ f.name.toList <+: Text.lower quality)
      ∧ ∀ (more : List Char) (f : Formula), find? quality = some f →
          ∃ g, find? (quality ++ more) = some g ∧ f.name.toList <+: g.name.toList
            ∧ f.name.length ≤ g.name.length := by
  have hlongest (quality : List Char) (hne : quality ≠ []) (f : Formula) :
      find? quality = some f ↔ IsLongest table (Text.lower quality) f := by
    rw [find?_of_ne_nil hne, find?_eq_some_iff_isLongest graded_table]
  refine ⟨hlongest quality hne, ?_, fun more f hf => ?_⟩
  · rw [find?_of_ne_nil hne, find?_starts_eq_none_iff]
  · have hf := (hlongest quality hne f).mp hf
    have hopens := opens_append hf.mem hf.opens more
    have hmore : quality ++ more ≠ [] := by simp [hne]
    cases hfind : find? (quality ++ more) with
    | none =>
      rw [find?_of_ne_nil hmore, find?_starts_eq_none_iff] at hfind
      exact absurd hopens (hfind f hf.mem)
    | some g =>
      have hg := (hlongest (quality ++ more) hmore g).mp hfind
      have hle : f.name.length ≤ g.name.length := by
        by_cases he : f = g
        · exact Nat.le_of_eq (by rw [he])
        · exact Nat.le_of_lt (hg.longest f hf.mem hopens he)
      exact ⟨g, rfl, List.prefix_of_prefix_length_le hopens hg.opens hle, hle⟩

/-- A minor seventh in capitals, which a flat fifth behind it makes half-diminished. -/
theorem longest_found_flat_fifth :
    IsLongest table (Text.lower "M7".toList) ⟨"m7", [0, 3, 7, 10]⟩
      ∧ find? "M7B5".toList = some ⟨"m7b5", [0, 3, 6, 10]⟩
      ∧ ∃ g, find? ("M7".toList ++ "B5".toList) = some g ∧ "m7".toList <+: g.name.toList := by
  obtain ⟨hlongest, -, hmore⟩ := longest_found (by decide : "M7".toList ≠ [])
  have hfind : find? "M7".toList = some ⟨"m7", [0, 3, 7, 10]⟩ := by decide +kernel
  obtain ⟨g, hg, hname, -⟩ := hmore "B5".toList _ hfind
  exact ⟨(hlongest _).mp hfind, by decide +kernel, g, hg, hname⟩

/-- No quality at all is not looked for: it is a major triad, which more text may well shorten. -/
example : (find? []).map (·.name) = some "maj" ∧ (find? ['m', '7']).map (·.name) = some "m7" := by
  decide +kernel

end Cantilena.Formula
