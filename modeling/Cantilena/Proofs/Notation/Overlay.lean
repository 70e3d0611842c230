import Cantilena.Proofs.Note.Order
import Cantilena.Proofs.Notation.Modest

/-!
# A block is the overlay of its lines

The lines of a block are read one by one, and all of them start at tick 0.

* `Reading.IsOverlay` -- a block as the overlay of what its lines read as;
* `readBlock_eq_ok_iff` -- a block is read where each of its lines is, and is their overlay;
* `readBlock_overlay` -- which numbered texts are read as blocks, what the blocks hold, and that the
  order of the lines changes neither the notes of a block nor its end.
-/

namespace Cantilena.Notation

open Number (isWritable IsNumeral mostDigits isNumeral_nines)
open Text (splitLines joined)

/-! ## 1. Overlays -/

/-- A block that is the overlay of readings: it has their notes in order, ends with the last of them,
    and has their failures and faults one after the other. -/
structure Reading.IsOverlay (block : Reading) (readings : List Reading) : Prop where
  notes : block.notes.Perm (readings.flatMap (·.notes))
  inOrder : block.notes.Pairwise fun a b =>
    a.start < b.start ∨ (a.start = b.start ∧ a.pitch ≤ b.pitch)
  stop : block.stop = (readings.map (·.stop)).foldr max 0
  failures : block.failures = readings.flatMap (·.failures)
  faults : block.faults = readings.flatMap (·.faults)

/-- Readings over one another, their notes line by line. -/
def overlaid (readings : List Reading) : Reading where
  notes := readings.flatMap (·.notes)
  failures := readings.flatMap (·.failures)
  faults := readings.flatMap (·.faults)
  stop := (readings.map (·.stop)).foldr max 0

/-- What a line reads as, and nothing where it is not read. -/
def readingOf (octave length limit : Int) (line : List Char) : Reading :=
  (readLine line octave length limit).outcome.toOption.getD {}

section

variable {octave length limit : Int} {lines : List (List Char)} {text line : List Char}
  {block : Reading}

/-- Whether a line is read. -/
def IsRead (octave length limit : Int) (line : List Char) : Prop :=
  ∃ own, (readLine line octave length limit).outcome = .ok own

theorem IsRead.readingOf (h : IsRead octave length limit line) :
    (readLine line octave length limit).outcome = .ok (readingOf octave length limit line) := by
  obtain ⟨own, hown⟩ := h
  rw [Notation.readingOf, hown]
  rfl

/-- **Lines are read where each of them is**, and they are laid over one another. -/
theorem readLines_eq_ok_iff {all : Reading} :
    (readLines octave length limit lines).outcome = .ok all
      ↔ (∀ line ∈ lines, IsRead octave length limit line)
        ∧ overlaid (lines.map (readingOf octave length limit)) = all := by
  induction lines generalizing all with
  | nil => exact ⟨fun h => ⟨fun _ h => absurd h List.not_mem_nil, Except.ok.inj h⟩,
      fun h => congrArg Except.ok h.2⟩
  | cons line rest ih =>
    rw [List.forall_mem_cons]
    constructor
    · intro h
      obtain ⟨first, hfirst, h⟩ := Logged.bind_outcome_eq_ok.mp h
      obtain ⟨others, hothers, h⟩ := Logged.bind_outcome_eq_ok.mp h
      obtain ⟨hrest, rfl⟩ := ih.mp hothers
      have hline : IsRead octave length limit line := ⟨first, hfirst⟩
      refine ⟨⟨hline, hrest⟩, ?_⟩
      obtain rfl := Except.ok.inj (hline.readingOf.symm.trans hfirst)
      exact Except.ok.inj h
    · rintro ⟨⟨hline, hrest⟩, rfl⟩
      refine Logged.bind_outcome_eq_ok.mpr ⟨_, hline.readingOf, ?_⟩
      exact Logged.bind_outcome_eq_ok.mpr ⟨_, ih.mpr ⟨hrest, rfl⟩, rfl⟩

/-- What a block reads as is what its lines read as, with the notes in order. -/
theorem readBlock_outcome (text : List Char) (octave length limit : Int) :
    (readBlock text octave length limit).outcome
      = (readLines octave length limit (splitLines text)).outcome.map fun all =>
          { all with notes := sortNotes all.notes } := by
  have h := Logged.bind_outcome (readLines octave length limit (splitLines text)) fun all =>
    (Logged.tell (failureCount all.failures)).bind fun _ =>
      Logged.ok { all with notes := sortNotes all.notes }
  refine Eq.trans h ?_
  cases (readLines octave length limit (splitLines text)).outcome <;> rfl

/-- A block with the notes of its lines in order. -/
def inOrder (readings : List Reading) : Reading :=
  { overlaid readings with notes := sortNotes (overlaid readings).notes }

theorem isOverlay_inOrder (readings : List Reading) : (inOrder readings).IsOverlay readings where
  notes := List.mergeSort_perm _ _
  inOrder := (order_comesBy.pairwise_mergeSort _).imp fun h => comesBy_iff.mp h
  stop := rfl
  failures := rfl
  faults := rfl

/-- **A block is read just where each of its lines is**, as what the lines read as in order. -/
theorem readBlock_eq_ok_iff : (readBlock text octave length limit).outcome = .ok block
    ↔ (∀ line ∈ splitLines text, IsRead octave length limit line)
      ∧ inOrder ((splitLines text).map (readingOf octave length limit)) = block := by
  rw [readBlock_outcome, map_eq_ok]
  constructor
  · rintro ⟨all, hall, rfl⟩
    obtain ⟨hlines, rfl⟩ := readLines_eq_ok_iff.mp hall
    exact ⟨hlines, rfl⟩
  · rintro ⟨hlines, rfl⟩
    exact ⟨_, readLines_eq_ok_iff.mpr ⟨hlines, rfl⟩, rfl⟩

/-! ## 2. Lines in another order -/

theorem foldr_max_perm {l m : List Int} (h : l.Perm m) : l.foldr max 0 = m.foldr max 0 := by
  induction h with
  | nil => rfl
  | cons a _ ih => rw [List.foldr_cons, List.foldr_cons, ih]
  | swap a b l =>
    simp only [List.foldr_cons]
    omega
  | trans _ _ ih ih' => exact ih.trans ih'

theorem le_foldr_max {l : List Int} {a : Int} (h : a ∈ l) : a ≤ l.foldr max 0 := by
  induction l with
  | nil => cases h
  | cons b l ih =>
    rw [List.foldr_cons]
    rcases List.mem_cons.mp h with rfl | h
    · exact Int.le_max_left _ _
    · exact Int.le_trans (ih h) (Int.le_max_right _ _)

/-- An empty line at the end adds nothing. -/
theorem overlaid_append {kept last : List (List Char)} (hlast : last = [] ∨ last = [[]])
    (h : kept ++ last = lines) : overlaid (lines.map (readingOf octave length limit))
      = overlaid (kept.map (readingOf octave length limit)) := by
  have hempty : readingOf octave length limit [] = {} := rfl
  subst h
  rcases hlast with rfl | rfl
  · rw [List.append_nil]
  · simp [overlaid, hempty]

/-- **The order of the lines changes neither the notes of a block nor its end.** -/
theorem readBlock_joined (h : (readBlock text octave length limit).outcome = .ok block)
    (hlines : lines.Perm (splitLines text)) :
    ∃ other, (readBlock (joined lines) octave length limit).outcome = .ok other
      ∧ other.notes.Perm block.notes ∧ other.stop = block.stop := by
  obtain ⟨hread, rfl⟩ := readBlock_eq_ok_iff.mp h
  obtain ⟨last, hlast, hsplit⟩ := Text.splitLines_joined fun line hmem =>
    (Text.of_mem_splitLines (hlines.mem_iff.mp hmem)).2
  have hread' : ∀ line ∈ splitLines (joined lines), IsRead octave length limit line := by
    intro line hmem
    exact hread line (hlines.mem_iff.mp (hsplit ▸ List.mem_append_left last hmem))
  have hover : overlaid (lines.map (readingOf octave length limit))
      = overlaid ((splitLines (joined lines)).map (readingOf octave length limit)) :=
    overlaid_append hlast hsplit
  have hreadings := hlines.map (readingOf octave length limit)
  refine ⟨_, readBlock_eq_ok_iff.mpr ⟨hread', rfl⟩, ?_, ?_⟩
  · have hperm := hreadings.flatMap_right (·.notes)
    have hother : (inOrder ((splitLines (joined lines)).map (readingOf octave length limit))).notes.Perm
        (overlaid (lines.map (readingOf octave length limit))).notes :=
      hover ▸ (isOverlay_inOrder _).notes
    exact (hother.trans hperm).trans (isOverlay_inOrder _).notes.symm
  · have hstop := foldr_max_perm (hreadings.map (·.stop))
    exact (congrArg Reading.stop hover).symm.trans hstop

/-! ## 3. Blocks of numbered texts -/

/-- **A block is the overlay of its lines.** A numbered text is read as a block just where all that
    is told of its lines can be written; with a modest octave and a limit that can be written, just
    where no line is refused at a size that cannot. Then the block is the overlay of what its lines
    read as; its notes are in range and end before it does; a line that is too large reads as its
    fault and nothing else, and no other line has a fault; and with the lines in any other order the
    block has the same notes and the same end. -/
theorem readBlock_overlay {text : List Char} (h : Text.IsNumbered text)
    (octave length limit : Int) :
    ((∃ block, (readBlock text octave length limit).outcome = .ok block)
        ↔ ∀ line ∈ splitLines text, IsTold octave limit line)
    ∧ (IsModest octave → isWritable limit = true →
      ((∃ block, (readBlock text octave length limit).outcome = .ok block)
        ↔ ∀ line ∈ splitLines text, ∀ requested, refusalOf? limit line = some requested →
          isWritable requested = true))
    ∧ ∀ block, (readBlock text octave length limit).outcome = .ok block →
      ∃ own : List Char → Reading,
        (∀ line ∈ splitLines text, (readLine line octave length limit).outcome = .ok (own line)
          ∧ (IsTooLarge limit line → ∃ requested, refusalOf? limit line = some requested
            ∧ own line = { faults := [.tooLarge limit requested] })
          ∧ (¬ IsTooLarge limit line → (own line).faults = []))
        ∧ block.IsOverlay ((splitLines text).map own)
        ∧ (∀ n ∈ block.notes, (0 ≤ n.pitch ∧ n.pitch ≤ 127) ∧ 1 ≤ n.length ∧ n.stop ≤ block.stop)
        ∧ ∀ lines : List (List Char), lines.Perm (splitLines text) →
          ∃ other, (readBlock (joined lines) octave length limit).outcome = .ok other
            ∧ other.notes.Perm block.notes ∧ other.stop = block.stop := by
  have hnumbered {line : List Char} (hline : line ∈ splitLines text) : Text.IsNumbered line :=
    h.of_part (Text.of_mem_splitLines hline).1
  have hblock : (∃ block, (readBlock text octave length limit).outcome = .ok block)
      ↔ ∀ line ∈ splitLines text, IsTold octave limit line := by
    constructor
    · rintro ⟨block, hblock⟩ line hline
      exact (exists_readLine_iff (hnumbered hline)).mp ((readBlock_eq_ok_iff.mp hblock).1 line hline)
    · intro htold
      exact ⟨_, readBlock_eq_ok_iff.mpr ⟨fun line hline =>
        (exists_readLine_iff (hnumbered hline)).mpr (htold line hline), rfl⟩⟩
  refine ⟨hblock, fun hoctave hlimit => ?_, fun block hread => ?_⟩
  · rw [hblock]
    exact forall₂_congr fun line hline => isTold_iff (hnumbered hline) hoctave hlimit
  · obtain ⟨hlines, rfl⟩ := readBlock_eq_ok_iff.mp hread
    have hown (line : List Char) (hline : line ∈ splitLines text) :=
      of_readLine (hnumbered hline) (hlines line hline).readingOf
    refine ⟨readingOf octave length limit, fun line hline => ?_, isOverlay_inOrder _, ?_,
      fun lines hperm => readBlock_joined hread hperm⟩
    · have hlarge : refusalOf? limit line = none ↔ ¬ IsTooLarge limit line :=
        refusalOf?_eq_none_iff (hnumbered hline)
      obtain ⟨hrefused, hfaults, -⟩ := hown line hline
      refine ⟨(hlines line hline).readingOf, fun htoo => ?_,
        fun hsmall => hfaults (hlarge.mpr hsmall)⟩
      obtain ⟨requested, hrequested⟩ := Option.ne_none_iff_exists'.mp fun he => hlarge.mp he htoo
      exact ⟨requested, hrequested, hrefused requested hrequested⟩
    · intro n hn
      refine ⟨n.valid.1, n.valid.2.2.1, ?_⟩
      obtain ⟨reading, hreading, hn⟩ :=
        List.mem_flatMap.mp ((isOverlay_inOrder _).notes.mem_iff.mp hn)
      obtain ⟨line, hline, rfl⟩ := List.mem_map.mp hreading
      obtain ⟨-, -, -, hstop⟩ := hown line hline
      exact Int.le_trans (hstop n hn)
        (le_foldr_max (List.mem_map_of_mem (List.mem_map_of_mem hline)))

end

/-- A note line over a chord line, and the two the other way round. -/
theorem readBlock_overlay_two_lines :
    let first := ['#', '4', ' ', 'C', ' ', 'E']
    let second := ['&', ' ', 'C', '*', '3']
    let text := first ++ '\n' :: second
    Text.IsNumbered text
      ∧ ∃ block other, (readBlock text 5 1 100).outcome = .ok block
        ∧ (readBlock (joined [second, first]) 5 1 100).outcome = .ok other
        ∧ other.notes.Perm block.notes ∧ other.stop = block.stop
        ∧ ∀ n ∈ block.notes, n.stop ≤ block.stop := by
  intro first second text
  have hascii : ∀ c ∈ text.filter Text.isDigit, Text.isAsciiDigit c = true :=
    List.all_eq_true.mp (by decide +kernel)
  have h : Text.IsNumbered text := Text.isNumbered_of_countP (by decide +kernel)
    fun c hc hdigit => hascii c (List.mem_filter.mpr ⟨hc, hdigit⟩)
  have hlines : splitLines text = [first, second] := by decide +kernel
  have hgranted : ∀ line ∈ [first, second], refusalOf? 100 line = none := by decide +kernel
  obtain ⟨-, hblock, hoverlay⟩ := readBlock_overlay h 5 1 100
  have hoctave : IsModest 5 := isModest_of_digit (by decide)
  obtain ⟨block, hread⟩ := (hblock hoctave (by decide +kernel)).mpr fun line hline requested he => by
    rw [hgranted line (hlines ▸ hline)] at he
    cases he
  obtain ⟨own, -, -, hnotes, hjoined⟩ := hoverlay block hread
  obtain ⟨other, hother, hperm, hstop⟩ := hjoined [second, first] (hlines ▸ List.Perm.swap _ _ _)
  exact ⟨h, block, other, hread, hother, hperm, hstop, fun n hn => (hnotes n hn).2.2⟩

/-- A group of so many copies that the number of their tokens has more digits than are written: its
    line is refused, but the refusal cannot be told, and there is no block. -/
theorem not_readBlock_untold :
    let digits := List.replicate mostDigits '9'
    let text := ['#'] ++ ' ' :: (digits ++ '(' :: ['C', ' ', 'C'] ++ [')'])
    Text.IsNumbered text ∧ ¬ ∃ block, (readBlock text 5 1 defaultLimit).outcome = .ok block := by
  intro digits text
  obtain ⟨n, hn, hlarge⟩ : ∃ n, IsNumeral digits n ∧ 10 ^ mostDigits ≤ 1 + n * 2 :=
    ⟨_, isNumeral_nines mostDigits (by decide), by omega⟩
  have hlength : digits.length = mostDigits := List.length_replicate
  have hbody : Balanced ['C', ' ', 'C'] := .of_not_mem (by decide) (by decide)
  have hheader : IsPlain ['#'] := by
    intro c hc
    rw [List.mem_singleton.mp hc]
    decide
  have hsplit : text = ['#', ' '] ++ (digits ++ ['(', 'C', ' ', 'C', ')']) := by
    simp [text]
  have hchars : ∀ c ∈ text, c = '9' ∨ c ∈ ['#', ' ', '(', 'C', ')'] := by
    intro c hc
    simp only [hsplit, List.mem_append] at hc
    rcases hc with hc | hc | hc
    · exact .inr (List.mem_append_left ['(', 'C', ')'] hc)
    · exact .inl (List.eq_of_mem_replicate hc)
    · exact .inr (List.mem_cons_of_mem '#' (by grind))
  have hnumbered : Text.IsNumbered text := by
    refine Text.isNumbered_of_countP ?_ fun c hc hdigit => ?_
    · have hfront : ['#', ' '].countP Text.isDigit = 0 := by decide
      have hback : ['(', 'C', ' ', 'C', ')'].countP Text.isDigit = 0 := by decide
      rw [hsplit, List.countP_append, List.countP_append, hfront, hback, Nat.zero_add, Nat.add_zero,
        ← hlength]
      exact List.countP_le_length
    · rcases hchars c hc with rfl | hc
      · decide
      · have hall : (['#', ' ', '(', 'C', ')'].all fun c => !Text.isDigit c) = true := by decide
        have := List.all_eq_true.mp hall c hc
        rw [hdigit] at this
        cases this
  have hlines : text ∈ splitLines text := by
    have hline : Text.IsLine text := by
      have hall : (['9', '#', ' ', '(', 'C', ')'].all fun c => !Text.isLineEnd c) = true := by decide
      intro c hc
      exact (Bool.not_eq_true' _).mp (List.all_eq_true.mp hall c (List.mem_cons.mpr (hchars c hc)))
    have hne : text.isEmpty = false := rfl
    rw [Text.splitLines_of_isLine hline, hne]
    exact List.mem_singleton_self text
  -- the body of the group is within the limit, but not its copies
  have hrefused : refusalOf? defaultLimit text = some ((1 + n * 2 : Nat) : Int) := by
    have hinner : refusal? defaultLimit 0 ((tokenize ['C', ' ', 'C']).map Item.ofToken) = none := by
      decide +kernel
    have htwo : (flatItems ((tokenize ['C', ' ', 'C']).map Item.ofToken)).length = 2 := by
      decide +kernel
    have hlimit : defaultLimit < (1 + n * 2 : Nat) := by
      have hmost : 100000 ≤ 10 ^ mostDigits := by decide +kernel
      rw [defaultLimit]
      omega
    have hrefused := refusalOf?_group (.inl rfl) hheader hn (Nat.le_of_eq hlength) hbody hinner
      (by decide) (htwo ▸ hlimit)
    rwa [htwo] at hrefused
  have hunwritable : ¬ isWritable ((1 + n * 2 : Nat) : Int) = true := by
    rw [Number.isWritable_iff]
    omega
  refine ⟨hnumbered, ?_⟩
  rintro ⟨block, hblock⟩
  obtain ⟨own, hown⟩ := (readBlock_eq_ok_iff.mp hblock).1 text hlines
  rw [readLine_refused hnumbered hrefused, if_neg fun h => hunwritable h.1] at hown
  cases hown

end Cantilena.Notation
