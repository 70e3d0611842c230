import Cantilena.Proofs.Notation.RepeatedLine
import Cantilena.Proofs.Notation.Refusal

/-!
# What is told of a line

A numbered line that is too large to be expanded is refused, and that is all it is told for. Any
other line is told token by token. There is no reading of a line where what is told of it holds a
number that cannot be written.

* `refusalOf?`, `IsTold` -- the size at which a line is refused, and whether all that is told of a
  line can be written;
* `exists_readLine_iff` -- a numbered line has a reading just where it is told;
* `of_readLine` -- what a refused line reads as, and where the notes of a line end;
* `refusalOf?_group` -- the size at which a line of one group is refused.
-/

namespace Cantilena.Notation

open Number (isWritable IsNumeral mostDigits)

/-! ## 1. Where notes end -/

/-- The notes of a token start at its place and last no longer than the token. -/
def Resolved.KeepsTo (p : Place) (r : Resolved) : Prop :=
  ∀ n ∈ r.notes, n.start = p.cursor ∧ n.length ≤ r.length

section

variable {p : Place} {token : List Char} {r : Resolved}

theorem Resolved.keepsTo_of_silent (h : r.notes = []) : r.KeepsTo p := by
  intro n hn
  rw [h] at hn
  cases hn

theorem keepsTo_writtenNote {n : WrittenNote} (h : n.resolve p token = .ok r) : r.KeepsTo p := by
  obtain ⟨octave, length, failures, -, -, hr⟩ := WrittenNote.resolve_eq_ok.mp h
  rcases hr with ⟨-, rfl⟩ | ⟨name, note, -, -, hnote, rfl⟩ | ⟨name, -, -, -, -, rfl⟩
  · exact Resolved.keepsTo_of_silent rfl
  · intro m hm
    rw [List.mem_singleton.mp hm]
    obtain ⟨-, hstart, hlength, -⟩ := Note.of_make_eq_ok hnote
    exact ⟨hstart, Int.le_of_eq hlength⟩
  · exact Resolved.keepsTo_of_silent rfl

theorem Resolved.KeepsTo.beside {a b : Resolved} (ha : a.KeepsTo p) (hb : b.KeepsTo p) :
    (a.beside b).KeepsTo p := by
  intro n hn
  rcases List.mem_append.mp hn with hn | hn
  · exact ⟨(ha n hn).1, Int.le_trans (ha n hn).2 (Int.le_max_left a.length b.length)⟩
  · exact ⟨(hb n hn).1, Int.le_trans (hb n hn).2 (Int.le_max_right a.length b.length)⟩

theorem keepsTo_pieces {ps : List Piece} (h : resolvePieces p token ps = .ok r) :
    r.KeepsTo p := by
  induction ps generalizing r with
  | nil =>
    obtain rfl := Except.ok.inj h
    exact Resolved.keepsTo_of_silent rfl
  | cons piece rest ih =>
    obtain ⟨own, hown, h⟩ := bind_eq_ok.mp h
    obtain ⟨others, hothers, h⟩ := bind_eq_ok.mp h
    obtain rfl := pure_eq_ok.mp h
    refine Resolved.KeepsTo.beside ?_ (ih hothers)
    cases piece with
    | comma =>
      obtain rfl := Except.ok.inj hown
      exact Resolved.keepsTo_of_silent rfl
    | stray c =>
      obtain ⟨failure, -, hown⟩ := bind_eq_ok.mp hown
      obtain rfl := pure_eq_ok.mp hown
      exact Resolved.keepsTo_of_silent rfl
    | note n => exact keepsTo_writtenNote hown

/-- The notes of a note token keep to it. -/
theorem keepsTo_noteToken (h : NoteToken.resolve token p = .ok r) : r.KeepsTo p := by
  obtain ⟨bare, hbare, rfl⟩ := map_eq_ok.mp h
  have hkeeps := keepsTo_pieces hbare
  unfold Resolved.settled
  split
  · rename_i hzero
    intro n hn
    -- a token of no length has no notes
    have hlength := (hkeeps n hn).2
    have hpos := n.valid.2.2.1
    rw [hzero.1] at hlength
    omega
  · exact hkeeps

theorem keepsTo_chordTones {length : Int} {pitches : List Int}
    (h : chordTones p length token pitches = .ok r) : r.KeepsTo p := by
  induction pitches generalizing r with
  | nil =>
    obtain rfl := Except.ok.inj h
    exact Resolved.keepsTo_of_silent rfl
  | cons pitch rest ih =>
    unfold chordTones at h
    split at h
    · obtain ⟨note, hnote, h⟩ := bind_eq_ok.mp h
      obtain ⟨others, hothers, h⟩ := bind_eq_ok.mp h
      obtain rfl := pure_eq_ok.mp h
      obtain ⟨-, hstart, hlength, -⟩ := Note.of_make_eq_ok hnote
      have hothers' := chordTones_length hothers
      intro n hn
      rcases List.mem_cons.mp hn with rfl | hn
      · refine ⟨hstart, ?_⟩
        show n.length ≤ max 0 others.length
        omega
      · exact ⟨(ih hothers n hn).1,
          Int.le_trans (ih hothers n hn).2 (Int.le_max_right 0 others.length)⟩
    · obtain ⟨failure, -, h⟩ := bind_eq_ok.mp h
      obtain ⟨others, hothers, h⟩ := bind_eq_ok.mp h
      obtain rfl := pure_eq_ok.mp h
      intro n hn
      exact ⟨(ih hothers n hn).1,
        Int.le_trans (ih hothers n hn).2 (Int.le_max_right 0 others.length)⟩

/-- The notes of a token of a chord line keep to it. -/
theorem keepsTo_chordSlot (h : chordSlot p token = .ok r) : r.KeepsTo p := by
  unfold chordSlot at h
  split at h
  · obtain rfl := Except.ok.inj h
    exact Resolved.keepsTo_of_silent rfl
  · rw [ChordSlot.chordToken_eq] at h
    obtain ⟨chord, -, h⟩ := bind_eq_ok.mp h
    unfold ChordSlot.sounding at h
    split at h
    · obtain ⟨failure, -, h⟩ := bind_eq_ok.mp h
      obtain rfl := pure_eq_ok.mp h
      exact Resolved.keepsTo_of_silent rfl
    · obtain rfl := Except.ok.inj h
      exact Resolved.keepsTo_of_silent rfl
    · exact keepsTo_chordTones h

end

/-- **Where notes keep to their tokens, they end before the walk over the tokens does.** -/
theorem stop_le_cursor {f : Place → List Char → Except Fault Resolved} {d : Defaults}
    (hf : Steady f) (hd : 1 ≤ d.length)
    (hkeeps : ∀ {p : Place} {token r}, f p token = .ok r → r.KeepsTo p)
    {tokens : List (List Char)} {w w' : Walk} (h : tokens.foldlM (stepWith f d) w = .ok w')
    (hw : ∀ n ∈ w.notes.toList, n.stop ≤ w.cursor) :
    w.cursor ≤ w'.cursor ∧ ∀ n ∈ w'.notes.toList, n.stop ≤ w'.cursor := by
  induction tokens generalizing w with
  | nil =>
    obtain rfl := pure_eq_ok.mp h
    exact ⟨Int.le_refl _, hw⟩
  | cons token rest ih =>
    rw [List.foldlM_cons] at h
    obtain ⟨w₁, h₁, h⟩ := bind_eq_ok.mp h
    obtain ⟨r, hr, rfl⟩ := map_eq_ok.mp h₁
    have hlength : 0 ≤ r.length := hf.length_nonneg (p := w.place d) hd hr
    have hcursor : (w.add r).cursor = w.cursor + r.length := rfl
    obtain ⟨hle, hstop⟩ := ih h fun n hn => by
      have hnotes : (w.add r).notes.toList = w.notes.toList ++ r.notes := by simp [Walk.add]
      rcases List.mem_append.mp (hnotes ▸ hn) with hn | hn
      · have := hw n hn
        omega
      · obtain ⟨hstart, hlast⟩ := hkeeps hr n hn
        have hstart : n.start = w.cursor := hstart
        rw [hcursor, Note.stop, hstart]
        omega
    exact ⟨by omega, hstop⟩

/-! ## 2. The tokens of a line -/

/-- Whether the numbers in the failures of a token can be written, by the sign of its line. -/
def IsWordedIn (kind : Char) (octave index : Int) (token : List Char) : Prop :=
  if kind = noteSign then NoteToken.IsWorded octave index token
  else ChordSlot.IsWorded octave index token

section

variable {kind : Char} {d : Defaults} {tokens : List (List Char)} {own : Reading}

theorem readTokens_note (d : Defaults) (tokens : List (List Char)) :
    (readTokens noteSign d tokens).outcome = (noteLine d tokens).map LineResult.reading := rfl

theorem readTokens_chord (hkind : kind ≠ noteSign) (d : Defaults) (tokens : List (List Char)) :
    (readTokens kind d tokens).outcome
      = (chordLine { d with velocity := Note.chordVelocity } tokens).map LineResult.reading := by
  rw [readTokens, if_neg fun h => hkind (eq_of_beq h)]

/-- Numbered tokens are read where the numbers in their failures can be written. -/
theorem exists_readTokens_iff (kind : Char) (hd : 1 ≤ d.length) (hv : 0 ≤ d.velocity ∧ d.velocity ≤ 127)
    (htokens : ∀ token ∈ tokens, Text.IsNumbered token) :
    (∃ own, (readTokens kind d tokens).outcome = .ok own)
      ↔ ∀ (i : Nat) token, tokens[i]? = some token → IsWordedIn kind d.octave i token := by
  have hnumbered {i : Nat} {token : List Char} (hi : tokens[i]? = some token) :
      Text.IsNumbered token := htokens token (List.mem_of_getElem? hi)
  by_cases hkind : kind = noteSign
  · subst hkind
    rw [readTokens_note, exists_map_eq_ok, exists_noteLine_iff hd hv]
    exact forall₃_congr fun i token hi =>
      ⟨fun h => h.2, fun h => ⟨NoteToken.isLegible_of_isNumbered (hnumbered hi), h⟩⟩
  · have hchord : (0 : Int) ≤ Note.chordVelocity ∧ Note.chordVelocity ≤ 127 := by decide
    rw [readTokens_chord hkind, exists_map_eq_ok,
      exists_chordLine_iff (d := { d with velocity := Note.chordVelocity }) hd hchord]
    refine forall₃_congr fun i token hi => ?_
    rw [IsWordedIn, if_neg hkind]
    exact ⟨fun h => h.2, fun h => ⟨ChordSlot.isLegible_of_isNumbered (hnumbered hi), h⟩⟩

/-- The notes of tokens end before their line does, and nothing among tokens is refused. -/
theorem of_readTokens (hd : 1 ≤ d.length) (h : (readTokens kind d tokens).outcome = .ok own) :
    own.faults = [] ∧ 0 ≤ own.stop ∧ ∀ n ∈ own.notes, n.stop ≤ own.stop := by
  have hstart : ∀ n ∈ ({} : Walk).notes.toList, n.stop ≤ ({} : Walk).cursor :=
    fun n hn => absurd hn List.not_mem_nil
  by_cases hkind : kind = noteSign
  · subst hkind
    rw [readTokens_note] at h
    obtain ⟨r, hr, rfl⟩ := map_eq_ok.mp h
    rw [noteLine, noteStep_eq_stepWith] at hr
    obtain ⟨w, hw, rfl⟩ := map_eq_ok.mp hr
    exact ⟨rfl, stop_le_cursor steady_noteToken hd keepsTo_noteToken hw hstart⟩
  · rw [readTokens_chord hkind] at h
    obtain ⟨r, hr, rfl⟩ := map_eq_ok.mp h
    rw [chordLine, chordStep_eq_stepWith] at hr
    obtain ⟨w, hw, rfl⟩ := map_eq_ok.mp hr
    exact ⟨rfl, stop_le_cursor steady_chordSlot
      (d := { d with velocity := Note.chordVelocity }) hd keepsTo_chordSlot hw hstart⟩

end

/-! ## 3. Lines -/

/-- Whether a line starts with a sign, and not with anything else. -/
def isSigned (line : List Char) : Bool :=
  (Text.strip line).head?.any fun kind => kind == noteSign || kind == chordSign

/-- The items that a line writes. -/
def lineItems (line : List Char) : List Item := (tokenize (Text.strip line)).map Item.ofToken

/-- The tokens that a line stands for, its header first. -/
def lineTokens (line : List Char) : List (List Char) := flatItems (lineItems line)

/-- The size at which a line is refused, if it is. -/
def refusalOf? (limit : Int) (line : List Char) : Option Int :=
  if isSigned line then refusal? limit 0 (lineItems line) else none

/-- Whether all that is told of a line can be written: the size at which it is refused, or the
    numbers in the failures of its tokens, which have the octave of its header. -/
structure IsTold (octave limit : Int) (line : List Char) : Prop where
  refused : ∀ requested, refusalOf? limit line = some requested →
    isWritable requested = true ∧ isWritable limit = true
  worded : refusalOf? limit line = none → ∀ kind rest, Text.strip line = kind :: rest →
    IsSign kind → ∀ own, digitOr octave (((lineTokens line).headD []).drop 1) = .ok own →
    ∀ (i : Nat) token, (lineTokens line).tail[i]? = some token → IsWordedIn kind own i token

section

variable {line : List Char} {octave length limit : Int} {own : Reading}

theorem isSigned_iff : isSigned line = true ↔ ∃ kind rest, Text.strip line = kind :: rest
    ∧ IsSign kind := by
  unfold isSigned
  cases Text.strip line with
  | nil => exact iff_of_false Bool.false_ne_true fun ⟨_, _, h, _⟩ => by cases h
  | cons kind rest =>
    rw [List.head?_cons, Option.any_some, Bool.or_eq_true, beq_iff_eq, beq_iff_eq]
    constructor
    · intro h
      exact ⟨kind, rest, rfl, h⟩
    · rintro ⟨_, _, he, h⟩
      obtain ⟨rfl, -⟩ := List.cons.inj he
      exact h

/-- A line without a sign is empty. -/
theorem readLine_unsigned (h : isSigned line = false) :
    (readLine line octave length limit).outcome = .ok {} := by
  unfold isSigned at h
  unfold readLine
  cases hbare : Text.strip line with
  | nil => rfl
  | cons kind rest =>
    rw [hbare, List.head?_cons, Option.any_some] at h
    simp only [h]
    rfl

theorem areCounted_lineItems (h : Text.IsNumbered line) : AreCounted (lineItems line) :=
  areCounted_tokenize (h.of_part (Text.infix_strip line))

/-- Whether a line is too large to be expanded: its tokens, or those of the body of a group in it,
    are more than the limit. -/
def IsTooLarge (limit : Int) (line : List Char) : Prop :=
  isSigned line = true
    ∧ ¬ (ItemsFit limit (lineItems line) ∧ ((lineTokens line).length : Int) ≤ limit)

theorem tokensFrom_ne_nil {current s : List Char} {depth : Nat} (h : current ≠ []) :
    tokensFrom current depth s ≠ [] := by
  induction s generalizing current depth with
  | nil =>
    rw [tokensFrom, finished_of_ne_nil h]
    exact List.cons_ne_nil _ _
  | cons c s ih =>
    rw [tokensFrom]
    split
    · rw [finished_of_ne_nil h]
      exact List.cons_ne_nil _ _
    · exact ih (List.cons_ne_nil c current)

/-- A line with a sign has a header. -/
theorem lineItems_ne_nil (h : isSigned line = true) : lineItems line ≠ [] := by
  obtain ⟨kind, rest, hbare, hkind⟩ := isSigned_iff.mp h
  rw [lineItems, hbare, tokenize, tokensFrom_cons (.inl (not_blank_of_isSign hkind))]
  exact fun he => tokensFrom_ne_nil (List.cons_ne_nil kind []) (List.map_eq_nil_iff.mp he)

theorem refusalOf?_eq_none_iff (h : Text.IsNumbered line) :
    refusalOf? limit line = none ↔ ¬ IsTooLarge limit line := by
  unfold refusalOf? IsTooLarge
  by_cases hsigned : isSigned line = true
  · rw [if_pos hsigned, refusal?_eq_none_iff (areCounted_lineItems h) (lineItems_ne_nil hsigned)]
    exact ⟨fun hfits hlarge => hlarge.2 hfits,
      fun hlarge => Classical.byContradiction fun hn => hlarge ⟨hsigned, hn⟩⟩
  · rw [if_neg hsigned]
    exact iff_of_true rfl fun hlarge => hsigned hlarge.1

theorem isSigned_of_refusalOf? {requested : Int} (h : refusalOf? limit line = some requested) :
    isSigned line = true := by
  unfold refusalOf? at h
  split at h
  · assumption
  · cases h

/-- How a line with a sign is read from its expansion. -/
def readExpanded (kind : Char) (octave length : Int) :
    Except Fault (List (List Char)) → Except Fault Reading
  | .error (.tooLarge most requested) => .ok { faults := [.tooLarge most requested] }
  | .error cause => .error cause
  | .ok tokens => readHeader (tokens.headD []) octave length >>= fun o =>
    (readTokens kind { octave := o.1, length := o.2 } tokens.tail).outcome

theorem readLine_signed {kind : Char} {rest : List Char} (hbare : Text.strip line = kind :: rest)
    (hkind : IsSign kind) : (readLine line octave length limit).outcome
      = readExpanded kind octave length (expand (tokenize (Text.strip line)) limit) := by
  have hsign : (kind == noteSign || kind == chordSign) = true := by
    rcases hkind with rfl | rfl <;> decide
  unfold readLine
  rw [hbare]
  simp only [hsign, if_true]
  split
  · rename_i he
    rw [he]
    rfl
  · rename_i cause hne he
    rw [he, readExpanded]
    · rfl
    · exact hne
  · rename_i tokens he
    rw [he]
    exact Logged.bind_outcome _ _

/-- A line that is refused is told for nothing else. -/
theorem readLine_refused {requested : Int} (h : Text.IsNumbered line)
    (hrefused : refusalOf? limit line = some requested) :
    (readLine line octave length limit).outcome
      = if isWritable requested = true ∧ isWritable limit = true then
          .ok { faults := [.tooLarge limit requested] }
        else .error .tooManyToWrite := by
  have hsigned := isSigned_of_refusalOf? hrefused
  obtain ⟨kind, rest, hbare, hkind⟩ := isSigned_iff.mp hsigned
  have hitems : refusal? limit 0 ((tokenize (Text.strip line)).map Item.ofToken) = some requested := by
    rwa [refusalOf?, if_pos hsigned] at hrefused
  rw [readLine_signed hbare hkind, expand_eq (areCounted_lineItems h), hitems, Option.elim_some,
    refused, Number.shows, Number.shows]
  by_cases hrequested : isWritable requested = true
  · by_cases hlimit : isWritable limit = true
    · rw [if_pos hrequested, if_pos hlimit, if_pos ⟨hrequested, hlimit⟩]
      rfl
    · rw [if_pos hrequested, if_neg hlimit, if_neg fun hw => hlimit hw.2]
      rfl
  · rw [if_neg hrequested, if_neg fun hw => hrequested hw.1]
    rfl

/-- A line that is not refused is its header and its tokens. -/
theorem readLine_granted {kind : Char} {rest : List Char} (h : Text.IsNumbered line)
    (hbare : Text.strip line = kind :: rest) (hkind : IsSign kind)
    (hgranted : refusalOf? limit line = none) :
    (readLine line octave length limit).outcome
      = readHeader ((lineTokens line).headD []) octave length >>= fun o =>
          (readTokens kind { octave := o.1, length := o.2 } (lineTokens line).tail).outcome := by
  have hsigned := isSigned_iff.mpr ⟨kind, rest, hbare, hkind⟩
  have hitems : refusal? limit 0 ((tokenize (Text.strip line)).map Item.ofToken) = none := by
    rwa [refusalOf?, if_pos hsigned] at hgranted
  rw [readLine_signed hbare hkind, expand_eq (areCounted_lineItems h), hitems, Option.elim_none]
  rfl

/-- The tokens of a line are cut from it. -/
theorem isNumbered_of_mem_lineTokens {token : List Char} (h : Text.IsNumbered line)
    (htoken : token ∈ lineTokens line) : Text.IsNumbered token := by
  obtain ⟨item, hitem, htoken⟩ := mem_flatItems.mp htoken
  obtain ⟨written, hwritten, rfl⟩ := List.mem_map.mp hitem
  exact h.of_part (((infix_of_mem_flat htoken).trans (infix_of_mem_tokenize hwritten)).trans
    (Text.infix_strip line))

theorem readHeader_octave {token : List Char} {o : Int × Int}
    (h : readHeader token octave length = .ok o) : digitOr octave (token.drop 1) = .ok o.1 := by
  obtain ⟨own, hown, h⟩ := bind_eq_ok.mp h
  obtain ⟨ticks, -, h⟩ := bind_eq_ok.mp h
  rw [hown, ← pure_eq_ok.mp h]

/-- The header of a numbered line is read. -/
theorem exists_header (h : Text.IsNumbered line) (octave length : Int) :
    ∃ o, readHeader ((lineTokens line).headD []) octave length = .ok o := by
  cases htokens : lineTokens line with
  | nil => exact ⟨_, rfl⟩
  | cons token rest =>
    have htoken : token ∈ lineTokens line := htokens ▸ List.mem_cons_self
    exact exists_readHeader (isNumbered_of_mem_lineTokens h htoken)

/-- **A numbered line has a reading just where all that is told of it can be written.** -/
theorem exists_readLine_iff (h : Text.IsNumbered line) :
    (∃ own, (readLine line octave length limit).outcome = .ok own) ↔ IsTold octave limit line := by
  cases hrefused : refusalOf? limit line with
  | some requested =>
    rw [readLine_refused h hrefused]
    constructor
    · rintro ⟨own, hown⟩
      split at hown
      · rename_i hwritable
        refine ⟨fun requested' he => ?_, fun he => ?_⟩
        · obtain rfl := Option.some.inj (hrefused.symm.trans he)
          exact hwritable
        · rw [hrefused] at he
          cases he
      · cases hown
    · intro htold
      exact ⟨_, if_pos (htold.refused requested hrefused)⟩
  | none =>
    by_cases hsigned : isSigned line = true
    · obtain ⟨kind, rest, hbare, hkind⟩ := isSigned_iff.mp hsigned
      obtain ⟨o, ho⟩ := exists_header h octave length
      have hvelocity : 0 ≤ Note.defaultVelocity ∧ Note.defaultVelocity ≤ 127 := by decide
      rw [readLine_granted h hbare hkind hrefused, ho]
      have hread := exists_readTokens_iff kind (d := { octave := o.1, length := o.2 })
        (readHeader_length ho) hvelocity fun token htoken =>
          isNumbered_of_mem_lineTokens h (List.mem_of_mem_tail htoken)
      refine Iff.trans hread ⟨fun hworded => ?_, fun htold => ?_⟩
      · refine ⟨fun requested he => ?_, fun _ kind' rest' hbare' _ own hown => ?_⟩
        · rw [hrefused] at he
          cases he
        · obtain ⟨rfl, -⟩ := List.cons.inj (hbare.symm.trans hbare')
          obtain rfl := Except.ok.inj ((readHeader_octave ho).symm.trans hown)
          exact hworded
      · exact htold.worded hrefused kind rest hbare hkind o.1 (readHeader_octave ho)
    · rw [Bool.not_eq_true] at hsigned
      refine iff_of_true ⟨_, readLine_unsigned hsigned⟩ ⟨fun requested he => ?_,
        fun _ kind rest hbare hkind => ?_⟩
      · rw [hrefused] at he
        cases he
      · rw [isSigned_iff.mpr ⟨kind, rest, hbare, hkind⟩] at hsigned
        cases hsigned

/-- **What a line reads as**: a refused line as its fault and nothing else, and any other line
    without a fault. The notes of a line end before it does. -/
theorem of_readLine (h : Text.IsNumbered line)
    (hown : (readLine line octave length limit).outcome = .ok own) :
    (∀ requested, refusalOf? limit line = some requested →
      own = { faults := [.tooLarge limit requested] })
      ∧ (refusalOf? limit line = none → own.faults = [])
      ∧ 0 ≤ own.stop ∧ ∀ n ∈ own.notes, n.stop ≤ own.stop := by
  cases hrefused : refusalOf? limit line with
  | some requested =>
    rw [readLine_refused h hrefused] at hown
    split at hown
    · obtain rfl := Except.ok.inj hown
      refine ⟨fun requested' he => ?_, fun he => (by cases he), Int.le_refl 0, fun n hn => ?_⟩
      · rw [Option.some.inj he]
      · cases hn
    · cases hown
  | none =>
    refine ⟨fun requested he => (by cases he), ?_⟩
    by_cases hsigned : isSigned line = true
    · obtain ⟨kind, rest, hbare, hkind⟩ := isSigned_iff.mp hsigned
      rw [readLine_granted h hbare hkind hrefused] at hown
      obtain ⟨o, ho, hown⟩ := bind_eq_ok.mp hown
      obtain ⟨hfaults, hstop⟩ := of_readTokens (readHeader_length ho) hown
      exact ⟨fun _ => hfaults, hstop⟩
    · rw [Bool.not_eq_true] at hsigned
      obtain rfl := Except.ok.inj ((readLine_unsigned hsigned).symm.trans hown)
      exact ⟨fun _ => rfl, Int.le_refl 0, fun n hn => by cases hn⟩

end

/-! ## 4. Lines of one group -/

section

variable {kind : Char} {name digits body : List Char} {n : Nat} {limit : Int}

/-- The items of a header and of one group behind it. -/
theorem lineItems_group {header : List Char} (hheader : IsPlain header) (hne : header ≠ [])
    (hn : IsNumeral digits n) (hbody : Balanced body) :
    lineItems (header ++ ' ' :: (digits ++ '(' :: body ++ [')']))
      = [.literal header, .group digits ((tokenize body).map Item.ofToken)] := by
  have hgroup := ((Balanced.of_isPlain (isPlain_numeral hn)).append hbody.enclosed).depthOver 0
  have hclosed : depthOver 0 (header ++ ' ' :: (digits ++ '(' :: body ++ [')'])) = 0 := by
    rw [depthOver_append, (Balanced.of_isPlain hheader).depthOver, depthOver_cons, List.append_assoc]
    exact hgroup
  rw [lineItems, tokenize_strip hclosed, tokenize_header hheader hne, tokenize_group hn hbody,
    List.map_cons, List.map_singleton, ofToken_plain hheader,
    Item.ofToken_group hn.ne_nil hn.isDigit, tokenize_strip (hbody.depthOver 0)]

/-- **A group whose body is within the limit is refused for all its copies.** -/
theorem refusalOf?_group (hkind : IsSign kind) (hheader : IsPlain (kind :: name))
    (hn : IsNumeral digits n) (hshort : digits.length ≤ mostDigits) (hbody : Balanced body)
    (hinner : refusal? limit 0 ((tokenize body).map Item.ofToken) = none) (hlimit : 1 ≤ limit)
    (hlarge : limit < (1 + n * (flatItems ((tokenize body).map Item.ofToken)).length : Nat)) :
    refusalOf? limit (kind :: name ++ ' ' :: (digits ++ '(' :: body ++ [')']))
      = some ((1 + n * (flatItems ((tokenize body).map Item.ofToken)).length : Nat) : Int) := by
  have hsigned : isSigned (kind :: name ++ ' ' :: (digits ++ '(' :: body ++ [')'])) = true := by
    obtain ⟨-, rest, -, -, hstrip⟩ := Text.strip_cons
      (s := name ++ ' ' :: (digits ++ '(' :: body ++ [')'])) (not_blank_of_isSign hkind)
    exact isSigned_iff.mpr ⟨kind, rest, hstrip, hkind⟩
  have hcopies : copies digits = n := by
    rw [copies, Number.wholeNumber_numeral hn, if_neg (Nat.not_lt.mpr hshort)]
    rfl
  have hflat : (Item.group digits ((tokenize body).map Item.ofToken)).flat.length
      = n * (flatItems ((tokenize body).map Item.ofToken)).length := by
    rw [Item.flat, hcopies]
    simp
  have hfirst : beyond? limit (0 + (Item.literal (kind :: name)).flat.length) = none := by
    rw [beyond?_eq_none, Item.flat]
    exact hlimit
  rw [refusalOf?, if_pos hsigned, lineItems_group hheader (List.cons_ne_nil kind name) hn hbody,
    refusal?, Item.refusal?, hfirst, Option.none_or, Option.none_or, refusal?, Item.refusal?, hinner,
    Option.none_or, hflat]
  show (beyond? limit (1 + n * _)).or _ = _
  rw [beyond?, if_pos hlarge]
  rfl

end

end Cantilena.Notation
