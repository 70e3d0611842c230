import Cantilena.Chord.Token
import Cantilena.Proofs.Text.Folded

/-!
# The triads that symbols and formulas mean

A chord symbol is read for the marks of triads, wherever they stand in it, and a formula is found by
the front of a text alone. So the two agree unless a mark stands behind the formula.

* `Formula.triad?` -- the triad of a formula;
* `Triad.marks`, `Triad.Stands` -- the words that mean a triad, and whether none of them overrules
  a triad;
* `Formula.Opens` -- a text that is read for a formula: its name stands in front, behind an octave
  digit at most, or nothing does;
* `triadOf_eq_iff` -- the text after a root means the triad of the formula that is found in it just
  where this triad stands;
* `Triad.stands_lower`, `Chord.triadOf_lower` -- how lower case writes a sigma does not matter.
-/

namespace Cantilena

/-! ## 1. Triads -/

namespace Triad

/-- The words that mean a triad wherever they stand in a symbol. -/
def marks : Triad → List String
  | .major => []
  | .minor => ["min"]
  | .diminished => ["dim", "m7b5", "ø"]
  | .augmented => ["aug", "+"]

/-- The triads whose marks overrule a triad. -/
def overruling : Triad → List Triad
  | .major => [.minor, .diminished, .augmented]
  | .minor => [.diminished, .augmented]
  | .diminished => [.augmented]
  | .augmented => []

/-- Whether lower-case text holds a mark of a triad. -/
def isMarked (t : Triad) (text : List Char) : Bool := t.marks.any (mentions text)

/-- Whether a triad stands in a lower-case text: no mark of another triad overrules it. A minor
    triad is found only at the front of the text or by its own mark. -/
structure Stands (t : Triad) (text : List Char) : Prop where
  unmarked : ∀ other ∈ t.overruling, other.isMarked text = false
  found : t = .minor → startsWith text "m" = true ∨ t.isMarked text = true

theorem stands_iff {t : Triad} {text : List Char} : t.Stands text ↔
    (∀ other ∈ t.overruling, other.isMarked text = false)
      ∧ (t = .minor → startsWith text "m" = true ∨ t.isMarked text = true) :=
  ⟨fun h => ⟨h.unmarked, h.found⟩, fun h => ⟨h.1, h.2⟩⟩

end Triad

namespace Formula

/-- The triad whose tones a formula starts with. -/
def triad? (f : Formula) : Option Triad :=
  (Triad.names.map Prod.snd).find? fun t => t.intervals = f.intervals.take 3

/-- **A formula holds the tones of its own triad and of no other.** -/
theorem triad?_eq_some_iff {f : Formula} (hf : f ∈ table) (t : Triad) :
    f.triad? = some t ↔ ∀ k ∈ t.intervals, ∃ l ∈ f.intervals, k % 12 = l % 12 := by
  revert f
  cases t <;> decide +kernel

/-! ## 2. Texts that are read for a formula -/

/-- A lower-case text that starts with the name of a formula, or with nothing that could be one and
    so means the major triad. -/
def Opens (f : Formula) (text : List Char) : Prop :=
  f.name.toList <+: text
    ∨ (f.name = "maj" ∧ ∀ c rest, text = c :: rest → (LengthOperator.ofChar? c).isSome = true)

/-- The same behind an octave digit or none. -/
def IsRead (f : Formula) (text : List Char) : Prop :=
  f.Opens text ∨ ∃ digit rest, Text.isDigit digit = true ∧ text = digit :: rest ∧ f.Opens rest

/-- A text that starts with a word starts with no other that is neither longer nor shorter than
    it. -/
theorem startsWith_of_prefix {name : List Char} {text : List Char} (h : name <+: text)
    {word : String} (hlonger : ¬ name <+: word.toList) (hshorter : ¬ word.toList <+: name) :
    startsWith text word = false := by
  refine Bool.eq_false_iff.mpr fun hstart => ?_
  rcases List.prefix_or_prefix_of_prefix h (startsWith_iff.mp hstart) with hword | hword
  · exact hlonger hword
  · exact hshorter hword

theorem startsWith_cons_of_ne {a c : Char} {rest : List Char} {word : String}
    (h : a ∈ word.toList.head?) (hne : a ≠ c) : startsWith (c :: rest) word = false := by
  refine Bool.eq_false_iff.mpr fun hstart => ?_
  have hword := startsWith_iff.mp hstart
  cases hlist : word.toList with
  | nil =>
    rw [hlist] at h
    cases h
  | cons b tail =>
    rw [hlist] at h hword
    exact hne ((Option.some.inj h).symm.trans (List.cons_prefix_cons.mp hword).1)

/-- A word that starts with no digit and no operator. -/
def IsWord (word : String) : Prop :=
  ∃ a ∈ word.toList.head?, Text.isDigit a = false ∧ LengthOperator.ofChar? a = none

theorem isWord_of_head {word : String} {a : Char} (h : word.toList.head? = some a)
    (hdigit : Text.isDigit a = false) (hoperator : LengthOperator.ofChar? a = none) : IsWord word :=
  ⟨a, h, hdigit, hoperator⟩

/-- A text that is read for a formula starts with its name, or with no word at all. -/
theorem IsRead.front {f : Formula} {text : List Char} (h : f.IsRead text) :
    f.name.toList <+: text ∨ ∀ word, IsWord word → startsWith text word = false := by
  rcases h with (hname | ⟨-, hbare⟩) | ⟨digit, rest, hd, rfl, -⟩
  · exact .inl hname
  · refine .inr fun word ⟨a, ha, _, hoperator⟩ => ?_
    cases text with
    | nil =>
      refine Bool.eq_false_iff.mpr fun hstart => ?_
      rw [List.prefix_nil.mp (startsWith_iff.mp hstart)] at ha
      cases ha
    | cons c rest =>
      refine startsWith_cons_of_ne ha fun hac => ?_
      have hc := hbare c rest rfl
      rw [← hac, hoperator] at hc
      cases hc
  · refine .inr fun word ⟨a, ha, hdigit, _⟩ => startsWith_cons_of_ne ha fun hac => ?_
    rw [← hac, hdigit] at hd
    cases hd

/-- A text that is read for a formula starts with no word that is neither shorter nor longer than
    the name of the formula. -/
theorem IsRead.startsWith_eq_false {f : Formula} {text : List Char} (h : f.IsRead text)
    {word : String} (hword : IsWord word) (hlonger : ¬ f.name.toList <+: word.toList)
    (hshorter : ¬ word.toList <+: f.name.toList) : startsWith text word = false := by
  rcases h.front with hname | hnone
  · exact startsWith_of_prefix hname hlonger hshorter
  · exact hnone word hword

/-- A name that stands in a text that is read for a formula. -/
theorem IsRead.mentions_of_prefix {f : Formula} {text : List Char} (h : f.IsRead text)
    (hname : f.name ≠ "maj") {word : String} (hword : word.toList <+: f.name.toList) : mentions text word = true := by
  have hopens {text : List Char} (h : f.Opens text) : word.toList <:+: text := by
    rcases h with h | ⟨hmaj, -⟩
    · exact (hword.trans h).isInfix
    · exact absurd hmaj hname
  refine mentions_iff.mpr ?_
  rcases h with h | ⟨digit, rest, -, rfl, h⟩
  · exact hopens h
  · exact (hopens h).trans (List.suffix_cons digit rest).isInfix

/-! ## 3. The triad of a text -/

section

variable {f : Formula} (hf : f ∈ table) {text : List Char} (h : f.IsRead text)
include hf h

theorem IsRead.not_round : startsWith text "o" = false ∧ startsWith text "°" = false := by
  have hnames : ∀ f ∈ table, ∀ word ∈ ["o", "°"], ¬ f.name.toList <+: word.toList
      ∧ ¬ word.toList <+: f.name.toList := by decide +kernel
  obtain ⟨hlonger, hshorter⟩ := hnames f hf "o" (by decide)
  obtain ⟨hlonger', hshorter'⟩ := hnames f hf "°" (by decide)
  exact ⟨h.startsWith_eq_false (isWord_of_head (a := 'o') rfl rfl rfl) hlonger hshorter,
    h.startsWith_eq_false (isWord_of_head (a := '°') rfl rfl rfl) hlonger' hshorter'⟩

/-- A text that is read for a major triad does not start with the short mark of a minor one. -/
theorem IsRead.major (hmajor : f.triad? = some .major) (hm : startsWith text "m" = true) :
    startsWith text "maj" = true := by
  have hnames : ∀ f ∈ table, f.triad? = some .major →
      "maj".toList <+: f.name.toList ∨ (¬ f.name.toList <+: "m".toList
        ∧ ¬ "m".toList <+: f.name.toList) := by decide +kernel
  have hword : IsWord "m" := isWord_of_head (a := 'm') rfl rfl rfl
  rcases hnames f hf hmajor with hmaj | ⟨hlonger, hshorter⟩
  · rcases h.front with hname | hnone
    · exact startsWith_iff.mpr (hmaj.trans hname)
    · rw [hnone "m" hword] at hm
      cases hm
  · rw [h.startsWith_eq_false hword hlonger hshorter] at hm
    cases hm

theorem IsRead.minor (hminor : f.triad? = some .minor) : startsWith text "maj" = false := by
  have hnames : ∀ f ∈ table, f.triad? = some .minor →
      ¬ f.name.toList <+: "maj".toList ∧ ¬ "maj".toList <+: f.name.toList := by decide +kernel
  obtain ⟨hlonger, hshorter⟩ := hnames f hf hminor
  exact h.startsWith_eq_false (isWord_of_head (a := 'm') rfl rfl rfl) hlonger hshorter

/-- A text that is read for a diminished or an augmented triad holds a mark of it. -/
theorem IsRead.marked {t : Triad} (ht : f.triad? = some t)
    (hmarked : t = .diminished ∨ t = .augmented) :
    ∃ mark ∈ t.marks, mentions text mark = true := by
  have hnames : ∀ f ∈ table, ∀ t, f.triad? = some t → t = .diminished ∨ t = .augmented →
      f.name ≠ "maj" ∧ ∃ mark ∈ t.marks, mark.toList <+: f.name.toList := by
    intro f hf t
    revert f
    cases t <;> decide +kernel
  obtain ⟨hname, mark, hmark, hprefix⟩ := hnames f hf t ht hmarked
  exact ⟨mark, hmark, h.mentions_of_prefix hname hprefix⟩

end

end Formula

/-- **The text after a root means the triad of the formula that it is read for just where this triad
    stands in it**, unless the text holds the mark of a suspension. -/
theorem triadOf_eq_iff {f : Formula} (hf : f ∈ Formula.table) {text : List Char}
    (h : f.IsRead text) (hsus : mentions text "sus" = false) {t : Triad} (ht : f.triad? = some t) :
    Chord.triadOf text = t ↔ t.Stands text := by
  obtain ⟨hsmall, hdegree⟩ := h.not_round hf
  have hround : (text == ['o']) = false ∧ (text == ['o', '7']) = false := by
    constructor
    all_goals
      refine beq_eq_false_iff_ne.mpr fun he => ?_
      rw [he] at hsmall
      cases hsmall
  have htriad : Chord.triadOf text
      = if Triad.augmented.isMarked text then .augmented
        else if Triad.diminished.isMarked text then .diminished
        else if (startsWith text "m" && !startsWith text "maj") || Triad.minor.isMarked text
          then .minor
        else .major := by
    simp only [Chord.triadOf, Chord.halfDiminished, hsus, hround.1, hround.2, hdegree,
      Triad.isMarked, Triad.marks, List.any_cons, List.any_nil, Bool.or_false,
      Bool.false_eq_true, if_false]
  rw [htriad, Triad.stands_iff]
  cases t with
  | major =>
    have hm : (startsWith text "m" && !startsWith text "maj") = false := by
      cases hstart : startsWith text "m" with
      | false => rfl
      | true => rw [h.major hf ht hstart]; rfl
    rw [hm, Bool.false_or]
    cases haug : Triad.augmented.isMarked text <;> cases hdim : Triad.diminished.isMarked text
      <;> cases hmin : Triad.minor.isMarked text <;> simp [Triad.overruling, haug, hdim, hmin]
  | minor =>
    rw [h.minor hf ht, Bool.not_false, Bool.and_true]
    cases haug : Triad.augmented.isMarked text <;> cases hdim : Triad.diminished.isMarked text
      <;> cases hstart : startsWith text "m" <;> simp [Triad.overruling, haug, hdim]
  | diminished =>
    have hdim : Triad.diminished.isMarked text = true :=
      List.any_eq_true.mpr (h.marked hf ht (.inl rfl))
    rw [hdim]
    cases haug : Triad.augmented.isMarked text <;> simp [Triad.overruling, haug]
  | augmented =>
    have haug : Triad.augmented.isMarked text = true :=
      List.any_eq_true.mpr (h.marked hf ht (.inr rfl))
    simp [Triad.overruling, haug]

/-! ## 4. Lower case -/

theorem Triad.isMarked_lower (t : Triad) (s : List Char) :
    t.isMarked (Text.lower s) = t.isMarked (Text.folded s) := by
  have hmarks : ∀ mark ∈ t.marks, Text.NoSigma mark.toList := by
    cases t <;> decide +kernel
  rw [Bool.eq_iff_iff, isMarked, isMarked, List.any_eq_true, List.any_eq_true]
  refine exists_congr fun mark => and_congr_right fun hmark => ?_
  rw [Text.mentions_lower (hmarks mark hmark)]

theorem Triad.stands_lower {t : Triad} {s : List Char} :
    t.Stands (Text.lower s) ↔ t.Stands (Text.folded s) := by
  have hm : Text.NoSigma "m".toList := by decide
  rw [stands_iff, stands_iff, isMarked_lower, Text.startsWith_lower hm]
  simp only [isMarked_lower]

theorem Chord.triadOf_lower (s : List Char) :
    triadOf (Text.lower s) = triadOf (Text.folded s) := by
  have hmentions (word : String) (h : Text.NoSigma word.toList) :
      mentions (Text.lower s) word = mentions (Text.folded s) word := Text.mentions_lower h s
  have hstarts (word : String) (h : Text.NoSigma word.toList) :
      startsWith (Text.lower s) word = startsWith (Text.folded s) word := Text.startsWith_lower h s
  unfold triadOf halfDiminished
  rw [hmentions "sus" (by decide), hmentions "aug" (by decide), hmentions "+" (by decide),
    hmentions "dim" (by decide), hmentions "m7b5" (by decide), hmentions "ø" (by decide),
    hmentions "min" (by decide), hstarts "°" (by decide), hstarts "m" (by decide),
    hstarts "maj" (by decide), Text.beq_lower (by decide), Text.beq_lower (by decide)]

end Cantilena
