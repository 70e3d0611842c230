import Cantilena.Proofs.Notation.Expansion
import Cantilena.Proofs.Notation.Walking

/-!
# A line whose body is repeated

To repeat the body of a line is to play the line that often, one time after the other.

* `Resolved.copies` -- what some tokens give when they are walked several times;
* `covers_replicate`, `readTokens_replicate` -- a walk over several copies of the tokens of a line;
* `opened_of_readLine` -- the tokens of a line that was compiled without a refused expansion;
* `expand_repeated` -- the tokens of the line with a repeated body;
* `readLine_repeated` -- the events, the end and the failures of the repeated line.
-/

namespace Cantilena.Notation

open Number (IsNumeral wholeNumber wholeNumber_numeral mostDigits)
open Text (isBlank isAsciiDigit strip_cons)

/-! ## 1. Walks over copies -/

/-- What tokens give when they are walked `n` times, with `tokens` of them in each turn. -/
def Resolved.copies (r : Resolved) (tokens n : Nat) : Resolved where
  notes := (List.range n).flatMap fun k => r.notes.map (Note.later (k * r.length.toNat))
  failures := (List.range n).flatMap fun k => r.failures.map (Failure.behind (k * tokens))
  length := n * r.length

theorem Resolved.copies_succ (r : Resolved) (tokens n : Nat) :
    r.copies tokens (n + 1)
      = (r.copies tokens n).andThen (r.moved (n * r.length.toNat) (n * tokens)) := by
  have hlength : ((n + 1 : Nat) : Int) * r.length = n * r.length + r.length := by
    rw [Int.natCast_add, Int.add_mul, Int.natCast_one, Int.one_mul]
  simp only [Resolved.copies, hlength]
  simp [Resolved.andThen, Resolved.moved, List.range_succ]

/-- But for the places of the tokens, each turn gives the same failures. -/
theorem Resolved.bare_copies (r : Resolved) (tokens n : Nat) :
    (r.copies tokens n).failures.map Failure.bare
      = (List.replicate n (r.failures.map Failure.bare)).flatten := by
  induction n with
  | zero => rfl
  | succ n ih =>
    rw [copies_succ, List.replicate_succ', List.flatten_append, ← ih]
    simp [andThen, moved, Function.comp_def]

section Copies

variable {f : Place → List Char → Except Fault Resolved} {d : Defaults}

/-- **A walk over `n` copies of the tokens of a line covers `n` copies of what they give.** -/
theorem covers_replicate (hf : Steady f) (hd : 1 ≤ d.length) {ts : List (List Char)} {w : Walk}
    (h : ts.foldlM (stepWith f d) {} = .ok w) :
    ∃ r, 0 ≤ r.length ∧ ({} : Walk).Covers w r ts.length ∧
      ∀ {n : Nat} {v : Walk}, (List.replicate n ts).flatten.foldlM (stepWith f d) {} = .ok v →
        ({} : Walk).Covers v (r.copies ts.length n) (n * ts.length) := by
  obtain ⟨r, hr, hcover, hmoved⟩ := covers_foldlM hf hd h
  refine ⟨r, hr, hcover, ?_⟩
  intro n
  induction n with
  | zero =>
    intro v hv
    obtain rfl := pure_eq_ok.mp hv
    have h0 : r.copies ts.length 0 = {} := by simp [Resolved.copies]
    rw [h0, Nat.zero_mul]
    exact .refl {}
  | succ n ih =>
    intro v hv
    -- the last copy starts where the first `n` of them end
    rw [List.replicate_succ', List.flatten_append, List.foldlM_append] at hv
    obtain ⟨u, hu, hv⟩ := bind_eq_ok.mp hv
    rw [List.flatten_singleton] at hv
    have hfirst := ih hu
    have hcursor : u.cursor = ({} : Walk).cursor + (n * r.length.toNat : Nat) := by
      rw [hfirst.cursor, Int.natCast_mul, Int.toNat_of_nonneg hr]
      rfl
    have hlast := hmoved hcursor hfirst.index hv
    have := hfirst.trans hlast
    rwa [← Resolved.copies_succ, ← Nat.succ_mul] at this

end Copies

/-- Both kinds of lines walk their tokens with a steady way to resolve them. -/
theorem readTokens_eq_walk (kind : Char) (d : Defaults) :
    ∃ f d', Steady f ∧ d'.length = d.length ∧ ∀ tokens, (readTokens kind d tokens).outcome
      = (tokens.foldlM (stepWith f d') {}).map fun w => w.result.reading := by
  have hmap (x : Except Fault Walk) :
      (x.map Walk.result).map LineResult.reading = x.map fun w => w.result.reading := by
    cases x <;> rfl
  by_cases h : kind == noteSign
  · refine ⟨_, d, steady_noteToken, rfl, fun tokens => ?_⟩
    rw [readTokens, if_pos h, ← noteStep_eq_stepWith, ← hmap]
    rfl
  · refine ⟨_, { d with velocity := Note.chordVelocity }, steady_chordSlot, rfl, fun tokens => ?_⟩
    rw [readTokens, if_neg h, ← chordStep_eq_stepWith, ← hmap]
    rfl

/-- **Copies of the tokens of a line play what the line plays, one copy after the other.** -/
theorem readTokens_replicate {kind : Char} {d : Defaults} (hd : 1 ≤ d.length)
    {ts : List (List Char)} {n : Nat} {once again : Reading}
    (honce : (readTokens kind d ts).outcome = .ok once)
    (hagain : (readTokens kind d (List.replicate n ts).flatten).outcome = .ok again) :
    0 ≤ once.stop
      ∧ again.notes
        = (List.range n).flatMap (fun k => once.notes.map (Note.later (k * once.stop.toNat)))
      ∧ again.stop = n * once.stop
      ∧ again.failures.map Failure.bare
        = (List.replicate n (once.failures.map Failure.bare)).flatten := by
  obtain ⟨f, d', hf, hd', hwalk⟩ := readTokens_eq_walk kind d
  rw [hwalk] at honce hagain
  obtain ⟨w, hw, rfl⟩ := map_eq_ok.mp honce
  obtain ⟨v, hv, rfl⟩ := map_eq_ok.mp hagain
  obtain ⟨r, hr, hcover, hcopies⟩ := covers_replicate hf (hd'.symm ▸ hd) hw
  have hcopied := hcopies hv
  have hstop : w.cursor = r.length := by rw [hcover.cursor, Int.zero_add]
  have hnotes : w.notes.toList = r.notes := hcover.notes
  have hfailures : w.failures.toList = r.failures := hcover.failures
  refine ⟨?_, ?_, ?_, ?_⟩
  · show 0 ≤ w.cursor
    rw [hstop]
    exact hr
  · show v.notes.toList = (List.range n).flatMap fun k =>
      w.notes.toList.map (Note.later (k * w.cursor.toNat))
    rw [hcopied.notes, hnotes, hstop]
    rfl
  · show v.cursor = n * w.cursor
    rw [hcopied.cursor, hstop]
    exact Int.zero_add _
  · show v.failures.toList.map Failure.bare
      = (List.replicate n (w.failures.toList.map Failure.bare)).flatten
    rw [hcopied.failures, hfailures]
    exact r.bare_copies _ n

/-! ## 2. Opening a line -/

/-- Whether a character is one of the two signs of a line. -/
def IsSign (c : Char) : Prop := c = noteSign ∨ c = chordSign

theorem not_blank_of_isSign {c : Char} (h : IsSign c) : isBlank c = false := by
  rcases h with rfl | rfl <;> decide

theorem readHeader_length {token : List Char} {octave length : Int} {o : Int × Int}
    (h : readHeader token octave length = .ok o) : 1 ≤ o.2 := by
  obtain ⟨octave', _, h⟩ := bind_eq_ok.mp h
  obtain ⟨length', _, h⟩ := bind_eq_ok.mp h
  rw [← pure_eq_ok.mp h]
  exact Int.le_max_left 1 length'

/-- A line that compiles with no refused expansion has tokens, the first of them its header. -/
theorem opened_of_readLine {kind : Char} {line : List Char} {octave length limit : Int}
    {reading : Reading} (hk : IsSign kind) (hclosed : depthOver 0 (kind :: line) = 0)
    (h : (readLine (kind :: line) octave length limit).outcome = .ok reading)
    (hfaults : reading.faults = []) :
    ∃ tokens o, expand (tokenize (kind :: line)) limit = .ok tokens
      ∧ readHeader (tokens.headD []) octave length = .ok o
      ∧ (readTokens kind { octave := o.1, length := o.2 } tokens.tail).outcome = .ok reading := by
  obtain ⟨after, bare, _, _, hstrip⟩ := strip_cons (s := line) (not_blank_of_isSign hk)
  have htokenize := tokenize_strip hclosed
  have hsign : (kind == noteSign || kind == chordSign) = true := by
    rcases hk with rfl | rfl <;> decide
  unfold readLine at h
  rw [hstrip] at h htokenize
  simp only [hsign, if_true] at h
  rw [htokenize] at h
  split at h
  · -- a refused expansion would have left its fault
    obtain rfl := Except.ok.inj h
    cases hfaults
  · cases h
  · rename_i tokens he
    obtain ⟨o, hh, h⟩ := Logged.bind_outcome_eq_ok.mp h
    exact ⟨tokens, o, he, hh, h⟩

/-! ## 3. The two lines -/

section Lines

variable {header body digits : List Char} {n : Nat}

theorem tokenize_header (hh : IsPlain header) (hne : header ≠ []) (rest : List Char) :
    tokenize (header ++ ' ' :: rest) = header :: tokenize rest := by
  rw [tokenize, tokensFrom_plain hh, List.append_nil, tokensFrom_blank (by decide),
    finished_of_ne_nil (by simpa using hne), List.reverse_reverse]
  rfl

theorem tokenize_group (hd : IsNumeral digits n) (hb : Balanced body) :
    tokenize (digits ++ '(' :: body ++ [')']) = [digits ++ '(' :: body ++ [')']] := by
  rw [tokenize, List.append_assoc, tokensFrom_plain (isPlain_numeral hd), List.append_nil]
  have h := tokensFrom_group hb digits.reverse []
  rw [List.append_nil] at h
  rw [h, tokensFrom, finished_of_ne_nil (by simp)]
  simp

/-- The tokens of a header and of what follows. -/
theorem flat_header (hh : IsPlain header) (hne : header ≠ []) (rest : List Char) :
    flatItems ((tokenize (header ++ ' ' :: rest)).map Item.ofToken)
      = header :: flatItems ((tokenize rest).map Item.ofToken) := by
  rw [tokenize_header hh hne, List.map_cons, flatItems, ofToken_plain hh, Item.flat]
  rfl

/-- The tokens of a group, if it can be expanded at all. -/
theorem flat_group (hd : IsNumeral digits n) (hb : Balanced body) {limit : Int}
    {tokens out : Array (List Char)}
    (h : expandItems limit tokens ((tokenize (digits ++ '(' :: body ++ [')'])).map Item.ofToken)
      = .ok out) :
    flatItems ((tokenize (digits ++ '(' :: body ++ [')'])).map Item.ofToken)
      = (List.replicate n (flatItems ((tokenize body).map Item.ofToken))).flatten := by
  have hstrip : tokenize (Text.strip body) = tokenize body := tokenize_strip (hb.depthOver 0)
  rw [tokenize_group hd hb, List.map_singleton, Item.ofToken_group hd.ne_nil hd.isDigit,
    hstrip] at h ⊢
  obtain ⟨_, hi, _, _⟩ := expandItems_cons_eq_ok.mp h
  obtain ⟨count, _, hcount, _⟩ := expandItem_group_eq_ok.mp hi
  have hn : copies digits = n := by
    rw [wholeNumber_numeral hd] at hcount
    split at hcount
    · cases hcount
    · rename_i hl
      rw [copies, wholeNumber_numeral hd, if_neg hl]
      rfl
  rw [flatItems, flatItems, Item.flat, hn, List.append_nil]

/-- **Behind the same header the repeated body has the tokens of the bare one, once for each
    copy.** -/
theorem expand_repeated (hh : IsPlain header) (hne : header ≠ []) (hd : IsNumeral digits n)
    (hb : Balanced body) {limit : Int} {tokens tokens' : List (List Char)}
    (h : expand (tokenize (header ++ ' ' :: body)) limit = .ok tokens)
    (h' : expand (tokenize (header ++ ' ' :: (digits ++ '(' :: body ++ [')']))) limit
      = .ok tokens') :
    ∃ ts, tokens = header :: ts ∧ tokens' = header :: (List.replicate n ts).flatten := by
  have hgroup : flatItems ((tokenize (digits ++ '(' :: body ++ [')'])).map Item.ofToken)
      = (List.replicate n (flatItems ((tokenize body).map Item.ofToken))).flatten := by
    obtain ⟨array, harray, _⟩ := map_eq_ok.mp h'
    rw [tokenize_header hh hne, List.map_cons] at harray
    obtain ⟨_, _, _, hrest⟩ := expandItems_cons_eq_ok.mp harray
    exact flat_group hd hb hrest
  refine ⟨flatItems ((tokenize body).map Item.ofToken), ?_, ?_⟩
  · rw [flat_of_expand h, flat_header hh hne]
  · rw [flat_of_expand h', flat_header hh hne, hgroup]

end Lines

/-! ## 4. The repeated line -/

/-- **A line whose body stands in a repeat group plays the line as often as the group says.** With
    `once` the outcome of the line with the bare body: the notes are the copies of its notes, each
    copy later by as many ticks as the line lasts; the line ends after all copies; and but for the
    places of the tokens the failures are those of the line, once for each copy. -/
theorem readLine_repeated {kind : Char} {name body digits : List Char} {n : Nat}
    {octave length limit : Int} {once again : Reading}
    (hk : IsSign kind) (hname : IsPlain name) (hbody : Balanced body) (hn : IsNumeral digits n)
    (honce : (readLine (kind :: name ++ ' ' :: body) octave length limit).outcome = .ok once)
    (hagain : (readLine (kind :: name ++ ' ' :: (digits ++ '(' :: body ++ [')'])) octave length
      limit).outcome = .ok again)
    (hfit : once.faults = []) (hfits : again.faults = []) :
    0 ≤ once.stop
      ∧ again.notes
        = (List.range n).flatMap (fun k => once.notes.map (Note.later (k * once.stop.toNat)))
      ∧ again.stop = n * once.stop
      ∧ again.failures.map Failure.bare
        = (List.replicate n (once.failures.map Failure.bare)).flatten := by
  have hheader : IsPlain (kind :: name) := by
    intro c hc
    rcases List.mem_cons.mp hc with rfl | hc
    · exact ⟨not_blank_of_isSign hk, by rcases hk with rfl | rfl <;> decide,
        by rcases hk with rfl | rfl <;> decide⟩
    · exact hname c hc
  have hclosed {rest : List Char} (hr : depthOver 0 rest = 0) :
      depthOver 0 (kind :: name ++ ' ' :: rest) = 0 := by
    rw [depthOver_append, (Balanced.of_isPlain hheader).depthOver, depthOver_cons]
    exact hr
  have hgroup : Balanced (digits ++ '(' :: body ++ [')']) := by
    rw [List.append_assoc]
    exact (Balanced.of_isPlain (isPlain_numeral hn)).append hbody.enclosed
  obtain ⟨tokens, o, hexpand, hread, honce⟩ :=
    opened_of_readLine hk (hclosed (hbody.depthOver 0)) honce hfit
  obtain ⟨tokens', o', hexpand', hread', hagain⟩ :=
    opened_of_readLine hk (hclosed (hgroup.depthOver 0)) hagain hfits
  obtain ⟨ts, rfl, rfl⟩ :=
    expand_repeated hheader (List.cons_ne_nil _ _) hn hbody hexpand hexpand'
  -- both lines begin with one header, so that they are read with the same defaults
  rw [List.headD_cons] at hread hread'
  rw [hread] at hread'
  obtain rfl := Except.ok.inj hread'
  exact readTokens_replicate (readHeader_length hread) honce hagain

/-- `#42 2(C Zx)` beside `#42 C Zx`: a note, a rest and a stray character, twice. -/
theorem readLine_repeated_twice :
    ∃ once again : Reading,
      (readLine ['#', '4', '2', ' ', 'C', ' ', 'Z', 'x'] 5 1 100).outcome = .ok once
        ∧ (readLine ['#', '4', '2', ' ', '2', '(', 'C', ' ', 'Z', 'x', ')'] 5 1 100).outcome
          = .ok again
        ∧ once.stop = 4 ∧ again.stop = 8
        ∧ again.notes = once.notes ++ once.notes.map (Note.later 4)
        ∧ again.failures.map Failure.bare
          = once.failures.map Failure.bare ++ once.failures.map Failure.bare := by
  have honce : ((readLine ['#', '4', '2', ' ', 'C', ' ', 'Z', 'x'] 5 1 100).outcome.toOption.any
      fun r => r.faults == [] && r.stop == 4) = true := by decide +kernel
  have hagain : ((readLine ['#', '4', '2', ' ', '2', '(', 'C', ' ', 'Z', 'x', ')'] 5 1
      100).outcome.toOption.any fun r => r.faults == []) = true := by decide +kernel
  obtain ⟨once, ho, hp⟩ := (Option.any_eq_true _ _).mp honce
  obtain ⟨again, ha, hq⟩ := (Option.any_eq_true _ _).mp hagain
  rw [Bool.and_eq_true, beq_iff_eq, beq_iff_eq] at hp
  rw [beq_iff_eq] at hq
  rw [toOption_eq_some] at ho ha
  have hbody : Balanced ['C', ' ', 'Z', 'x'] := .of_not_mem (by decide) (by decide)
  have hname : IsPlain ['4', '2'] := isPlain_numeral (Number.isNumeral_toDigits 42)
  obtain ⟨_, hnotes, hstop, hfailures⟩ :=
    readLine_repeated (Or.inl rfl) hname hbody (Number.isNumeral_toDigits 2) ho ha hp.1 hq
  rw [hp.2] at hnotes hstop
  refine ⟨once, again, ho, ha, hp.2, hstop, ?_, ?_⟩
  · have hzero : Note.later 0 = id := funext Note.later_zero
    rw [hnotes]
    simp [List.range_succ, hzero]
  · rw [hfailures]
    simp [List.replicate]

end Cantilena.Notation
