import Cantilena.Proofs.Notation.Modest

/-!
# Lines one behind the other

A line takes up time token by token. Every token starts where the one before it ends, and what it
gives does not depend on what stands in front of it. So a line behind another plays what it plays by
itself, later by the other one.

* `Resolved.Names` -- the failures of a token name its place, which can be written;
* `Paced` -- a way to resolve tokens that is steady, keeps notes to their tokens, and gives each
  token its time; both kinds of lines resolve their tokens in such a way (`paced_noteToken`,
  `paced_chordSlot`);
* `carried_foldlM`, `exists_rows_foldlM` -- a walk that starts later, and a walk cut into tokens;
* `lines_in_time` -- both kinds of lines are compositional in time.
-/

namespace Cantilena.Notation

open Number (isWritable isWritable_of_le)

/-! ## 1. Failures name their token -/

/-- The failures of a token name its place, which can be written if there are any. -/
def Resolved.Names (p : Place) (r : Resolved) : Prop :=
  ∀ x ∈ r.failures, x.token = p.index ∧ isWritable p.index = true

section

variable {p : Place} {token : List Char} {r : Resolved}

theorem Resolved.names_of_understood (h : r.failures = []) : r.Names p := by
  intro x hx
  rw [h] at hx
  cases hx

theorem Resolved.names_of_make {text : List Char} {reason : Reason} {x : Failure}
    (hx : Failure.make text reason p.index = .ok x) (h : r.failures = [x]) : r.Names p := by
  obtain ⟨-, hindex, rfl⟩ := Failure.make_eq_ok.mp hx
  intro y hy
  rw [h, List.mem_singleton] at hy
  subst hy
  exact ⟨rfl, hindex⟩

theorem Resolved.Names.beside {a b : Resolved} (ha : a.Names p) (hb : b.Names p) :
    (a.beside b).Names p := fun x hx =>
  (List.mem_append.mp hx).elim (ha x) (hb x)

theorem WrittenNote.names_lengthAt {n : WrittenNote} {length : Int} {failures : List Failure}
    (h : n.lengthAt p token = .ok (length, failures)) :
    ∀ x ∈ failures, x.token = p.index ∧ isWritable p.index = true := by
  unfold lengthAt at h
  split at h
  · obtain ⟨-, rfl⟩ := Prod.mk.inj (Except.ok.inj h)
    exact fun x hx => absurd hx List.not_mem_nil
  · obtain ⟨failure, hfailure, h⟩ := bind_eq_ok.mp h
    obtain ⟨-, rfl⟩ := Prod.mk.inj (pure_eq_ok.mp h)
    exact Resolved.names_of_make (r := ⟨[], [failure], length⟩) hfailure rfl
  · obtain ⟨operand, -, h⟩ := map_eq_ok.mp h
    obtain ⟨-, rfl⟩ := Prod.mk.inj h
    exact fun x hx => absurd hx List.not_mem_nil

theorem names_writtenNote {n : WrittenNote} (h : n.resolve p token = .ok r) : r.Names p := by
  obtain ⟨octave, length, failures, -, hlength, hr⟩ := WrittenNote.resolve_eq_ok.mp h
  have hfailures := WrittenNote.names_lengthAt hlength
  rcases hr with ⟨-, rfl⟩ | ⟨name, note, -, -, -, rfl⟩ | ⟨name, -, -, -, hindex, rfl⟩
  · exact hfailures
  · exact hfailures
  · intro x hx
    rcases List.mem_append.mp hx with hx | hx
    · exact hfailures x hx
    · rw [List.mem_singleton.mp hx]
      exact ⟨rfl, hindex⟩

theorem names_pieces {ps : List Piece} (h : resolvePieces p token ps = .ok r) : r.Names p := by
  induction ps generalizing r with
  | nil =>
    obtain rfl := Except.ok.inj h
    exact Resolved.names_of_understood rfl
  | cons piece rest ih =>
    obtain ⟨own, hown, h⟩ := bind_eq_ok.mp h
    obtain ⟨others, hothers, h⟩ := bind_eq_ok.mp h
    obtain rfl := pure_eq_ok.mp h
    refine Resolved.Names.beside ?_ (ih hothers)
    cases piece with
    | comma =>
      obtain rfl := Except.ok.inj hown
      exact Resolved.names_of_understood rfl
    | stray c =>
      obtain ⟨failure, hfailure, hown⟩ := bind_eq_ok.mp hown
      obtain rfl := pure_eq_ok.mp hown
      exact Resolved.names_of_make hfailure rfl
    | note n => exact names_writtenNote hown

theorem names_noteToken (h : NoteToken.resolve token p = .ok r) : r.Names p := by
  obtain ⟨bare, hbare, rfl⟩ := map_eq_ok.mp h
  have hnames := names_pieces hbare
  unfold Resolved.settled
  split
  · exact hnames
  · exact hnames

theorem names_chordTones {length : Int} {pitches : List Int}
    (h : chordTones p length token pitches = .ok r) : r.Names p := by
  induction pitches generalizing r with
  | nil =>
    obtain rfl := Except.ok.inj h
    exact Resolved.names_of_understood rfl
  | cons pitch rest ih =>
    unfold chordTones at h
    split at h
    · obtain ⟨note, -, h⟩ := bind_eq_ok.mp h
      obtain ⟨others, hothers, h⟩ := bind_eq_ok.mp h
      obtain rfl := pure_eq_ok.mp h
      exact (Resolved.names_of_understood rfl).beside (ih hothers)
    · obtain ⟨failure, hfailure, h⟩ := bind_eq_ok.mp h
      obtain ⟨others, hothers, h⟩ := bind_eq_ok.mp h
      obtain rfl := pure_eq_ok.mp h
      exact (Resolved.names_of_make hfailure rfl).beside (ih hothers)

theorem names_chordSlot (h : chordSlot p token = .ok r) : r.Names p := by
  unfold chordSlot at h
  split at h
  · obtain rfl := Except.ok.inj h
    exact Resolved.names_of_understood rfl
  · rw [ChordSlot.chordToken_eq] at h
    obtain ⟨chord, -, h⟩ := bind_eq_ok.mp h
    unfold ChordSlot.sounding at h
    split at h
    · obtain ⟨failure, hfailure, h⟩ := bind_eq_ok.mp h
      obtain rfl := pure_eq_ok.mp h
      exact Resolved.names_of_make hfailure rfl
    · obtain rfl := Except.ok.inj h
      exact Resolved.names_of_understood rfl
    · exact names_chordTones h

end

/-! ## 2. Tokens without failures, and tokens that are named elsewhere -/

section

variable {octave i j : Int} {token : List Char} {notes : List Note}

/-- The numbers in the failures of a piece can be written at another place that can be written. -/
theorem Piece.IsWorded.elsewhere {piece : Piece} (h : piece.IsWorded octave i)
    (hj : isWritable j = true) : piece.IsWorded octave j := by
  cases piece with
  | comma => trivial
  | stray c => exact hj
  | note n =>
    exact ⟨fun _ _ => hj, fun name own hsign hown hplay => ⟨(h.range name own hsign hown hplay).1, hj⟩⟩

/-- A piece without failures has none at any place. -/
theorem Piece.IsShown.isWorded {piece : Piece} (h : piece.IsShown octave i token notes []) :
    piece.IsWorded octave j := by
  cases piece with
  | comma => trivial
  | stray c => exact absurd h List.not_mem_nil
  | note n =>
    exact ⟨fun op hop => absurd (h.alone op hop) List.not_mem_nil,
      fun name own hsign hown hplay =>
        absurd (h.range name own hsign hown hplay) List.not_mem_nil⟩

theorem ChordSlot.IsWorded.elsewhere (h : IsWorded octave i token) (hj : isWritable j = true) :
    IsWorded octave j token := fun hne chord hchord =>
  ⟨fun _ => hj, fun pitch hpitch hplay => ⟨((h hne chord hchord).2 pitch hpitch hplay).1, hj⟩⟩

theorem ChordSlot.IsShown.isWorded (h : IsShown octave i token notes []) :
    IsWorded octave j token := by
  intro hne chord hchord
  obtain ⟨hfault, htones⟩ := h hne chord hchord
  refine ⟨fun hok => ?_, fun pitch hpitch hplay => ?_⟩
  · unfold ChordToken.ok at hok
    split at hok
    · rename_i cause hcause
      exact absurd (hfault cause hcause) List.not_mem_nil
    · cases hok
  · exact absurd ((htones pitch hpitch).range hplay) List.not_mem_nil

end

/-! ## 3. Tokens take time -/

/-- Whether something other than commas is written. -/
def Speaks (token : List Char) : Prop := ∃ c ∈ token, c ≠ ','

section

variable {p : Place} {token : List Char} {r : Resolved}

/-- A text in which something other than commas is written has a piece that is none. -/
theorem exists_piece_of_speaks {text : List Char} (h : Speaks text) :
    ∃ piece ∈ pieces text, piece ≠ .comma := by
  refine Classical.byContradiction fun hnone => ?_
  obtain ⟨c, hc, hne⟩ := h
  rw [← flatMap_toChars_pieces text] at hc
  obtain ⟨piece, hpiece, hc⟩ := List.mem_flatMap.mp hc
  have hcomma : piece = .comma := Classical.byContradiction fun hp => hnone ⟨piece, hpiece, hp⟩
  rw [hcomma] at hc
  exact hne (List.mem_singleton.mp hc)

theorem speaks_plainAccidentals (h : Speaks token) : Speaks (plainAccidentals token) := by
  obtain ⟨c, hc, hne⟩ := h
  refine ⟨_, List.mem_map_of_mem hc, ?_⟩
  split
  · decide
  · split
    · decide
    · exact hne

/-- Pieces that are not all commas give a failure or take time. -/
theorem length_pos_of_piece {ps : List Piece} {piece : Piece} (hp : 1 ≤ p.length)
    (hpiece : piece ∈ ps) (hcomma : piece ≠ .comma) (h : resolvePieces p token ps = .ok r) :
    1 ≤ r.length ∨ r.failures ≠ [] := by
  induction ps generalizing r with
  | nil => cases hpiece
  | cons first rest ih =>
    obtain ⟨own, hown, h⟩ := bind_eq_ok.mp h
    obtain ⟨others, hothers, h⟩ := bind_eq_ok.mp h
    obtain rfl := pure_eq_ok.mp h
    rcases List.mem_cons.mp hpiece with rfl | hpiece
    · cases piece with
      | comma => exact absurd rfl hcomma
      | stray c =>
        obtain ⟨failure, -, hown⟩ := bind_eq_ok.mp hown
        obtain rfl := pure_eq_ok.mp hown
        exact .inr (List.cons_ne_nil _ _)
      | note n =>
        obtain ⟨octave, length, failures, -, hlength, hr⟩ := WrittenNote.resolve_eq_ok.mp hown
        have hpos : 1 ≤ length := (WrittenNote.of_lengthAt_eq_ok hp hlength).1
        have hown : own.length = length := by
          rcases hr with ⟨-, rfl⟩ | ⟨_, _, -, -, -, rfl⟩ | ⟨_, -, -, -, -, rfl⟩ <;> rfl
        exact .inl (Int.le_trans (hown ▸ hpos) (Int.le_max_left own.length others.length))
    · rcases ih hpiece hothers with hpos | hfailures
      · exact .inl (Int.le_trans hpos (Int.le_max_right own.length others.length))
      · exact .inr fun he => hfailures (List.append_eq_nil_iff.mp he).2

theorem length_pos_noteToken (hp : 1 ≤ p.length) (hspeaks : Speaks token)
    (h : NoteToken.resolve token p = .ok r) : 1 ≤ r.length := by
  obtain ⟨bare, hbare, rfl⟩ := map_eq_ok.mp h
  obtain ⟨piece, hpiece, hcomma⟩ := exists_piece_of_speaks (speaks_plainAccidentals hspeaks)
  have hnonneg := resolvePieces_length_nonneg hbare
  unfold Resolved.settled
  split
  · exact hp
  · rename_i hsettled
    rcases length_pos_of_piece hp hpiece hcomma hbare with hpos | hfailures
    · exact hpos
    · have hne : bare.length ≠ 0 := fun hzero => hsettled ⟨hzero, hfailures⟩
      omega

theorem length_pos_chordSlot (hspeaks : Speaks token) (h : chordSlot p token = .ok r) :
    1 ≤ r.length := by
  have hne : ¬ (chordText token).isEmpty = true := by
    intro he
    obtain ⟨c, hc, hcomma⟩ := hspeaks
    rw [← Text.dropEnd_append_takeWhile (· == ',') token] at hc
    rcases List.mem_append.mp hc with hc | hc
    · rw [show Text.dropEnd (· == ',') token = [] from List.isEmpty_iff.mp he] at hc
      cases hc
    · have hc := List.all_eq_true.mp List.all_takeWhile c (List.mem_reverse.mp hc)
      exact hcomma (eq_of_beq hc)
  rw [chordSlot, if_neg hne] at h
  exact chordToken_length_pos h

end

/-! ## 4. Walks that go on in time -/

/-- A steady way to resolve tokens that keeps notes to their tokens, names tokens in their failures,
    gives time to those that speak, and resolves a token wherever its failures can be written. -/
structure Paced (f : Place → List Char → Except Fault Resolved) : Prop extends Steady f where
  keepsTo : ∀ {p token r}, f p token = .ok r → r.KeepsTo p
  names : ∀ {p token r}, f p token = .ok r → r.Names p
  length_pos : ∀ {p token r}, 1 ≤ p.length → Speaks token → f p token = .ok r → 1 ≤ r.length
  elsewhere : ∀ {p q : Place} {token r}, p.IsSound → q.IsSound → q.octave = p.octave →
    f p token = .ok r → (r.failures = [] ∨ isWritable q.index = true) → ∃ r', f q token = .ok r'

/-- The tokens of a note line are resolved in such a way. -/
theorem paced_noteToken : Paced fun p token => NoteToken.resolve token p where
  toSteady := steady_noteToken
  keepsTo := keepsTo_noteToken
  names := names_noteToken
  length_pos := length_pos_noteToken
  elsewhere := by
    intro p q token r hp hq hoctave h hfailures
    obtain ⟨hlegible, hworded⟩ := (NoteToken.exists_resolve_iff hp).mp ⟨r, h⟩
    refine (NoteToken.exists_resolve_iff hq).mpr ⟨hlegible, fun piece hpiece => ?_⟩
    rw [hoctave]
    rcases hfailures with hnone | hindex
    · have hshown := NoteToken.isShown_of_resolve hp.length_pos h piece hpiece
      rw [hnone] at hshown
      exact hshown.isWorded
    · exact (hworded piece hpiece).elsewhere hindex

/-- The tokens of a chord line are resolved in such a way. -/
theorem paced_chordSlot : Paced chordSlot where
  toSteady := steady_chordSlot
  keepsTo := keepsTo_chordSlot
  names := names_chordSlot
  length_pos := fun _ => length_pos_chordSlot
  elsewhere := by
    intro p q token r hp hq hoctave h hfailures
    obtain ⟨hlegible, hworded⟩ := (ChordSlot.exists_chordSlot_iff hp).mp ⟨r, h⟩
    refine (ChordSlot.exists_chordSlot_iff hq).mpr ⟨hlegible, ?_⟩
    rw [hoctave]
    rcases hfailures with hnone | hindex
    · have hshown := ChordSlot.isShown_of_chordSlot h
      rw [hnone] at hshown
      exact hshown.isWorded
    · exact hworded.elsewhere hindex

section Walks

variable {f : Place → List Char → Except Fault Resolved} {d : Defaults} {ts : List (List Char)}
  {w w' : Walk}

/-- A token that is resolved is resolved further on just where its failures can be written there. -/
theorem Paced.exists_moved_iff (hf : Paced f) {p : Place} (hp : p.IsSound) {token : List Char}
    {r : Resolved} (h : f p token = .ok r) (ticks tokens : Nat) :
    (∃ r', f (p.moved ticks tokens) token = .ok r')
      ↔ ∀ x ∈ r.failures, isWritable (x.token + tokens) = true := by
  constructor
  · rintro ⟨r', h'⟩ x hx
    obtain rfl := hf.moved h h'
    have hmoved := hf.names h' (x.behind tokens) (List.mem_map_of_mem hx)
    rw [← hmoved.1] at hmoved
    exact hmoved.2
  · intro hwritable
    have hsound : (p.moved ticks tokens).IsSound :=
      ⟨Int.add_nonneg hp.cursor_nonneg (Int.natCast_nonneg ticks), hp.length_pos, hp.velocity_range⟩
    refine hf.elsewhere hp hsound rfl h ?_
    cases hfailures : r.failures with
    | nil => exact .inl rfl
    | cons x rest =>
      have hx : x ∈ r.failures := hfailures ▸ List.mem_cons_self
      have hplace : (p.moved ticks tokens).index = x.token + tokens := by
        rw [(hf.names h x hx).1]
        rfl
      exact .inr (hplace ▸ hwritable x hx)

/-- **A walk that comes to its end does so from further on as well**, just where the failures on the
    way can be written there. -/
theorem carried_foldlM (hf : Paced f) (hd : 1 ≤ d.length)
    (hv : 0 ≤ d.velocity ∧ d.velocity ≤ 127) (hw : 0 ≤ w.cursor)
    (h : ts.foldlM (stepWith f d) w = .ok w') :
    ∃ failures, w'.failures.toList = w.failures.toList ++ failures
      ∧ ∀ {v : Walk} {ticks tokens : Nat},
        v.cursor = w.cursor + ticks → v.index = w.index + tokens →
        ((∃ v', ts.foldlM (stepWith f d) v = .ok v')
          ↔ ∀ x ∈ failures, isWritable (x.token + tokens) = true) := by
  induction ts generalizing w with
  | nil =>
    obtain rfl := pure_eq_ok.mp h
    refine ⟨[], (List.append_nil _).symm, fun _ _ => ?_⟩
    exact iff_of_true ⟨_, rfl⟩ fun _ hx => absurd hx List.not_mem_nil
  | cons token rest ih =>
    rw [List.foldlM_cons] at h
    obtain ⟨w₁, h₁, h⟩ := bind_eq_ok.mp h
    obtain ⟨a, ha, rfl⟩ := map_eq_ok.mp h₁
    have hsound : (w.place d).IsSound := Walk.isSound_place hd hv hw
    have hcursor : 0 ≤ (w.add a).cursor :=
      Int.add_nonneg hw (hf.length_nonneg (p := w.place d) hd ha)
    obtain ⟨failures, hfailures, hrest⟩ := ih hcursor h
    refine ⟨a.failures ++ failures, ?_, ?_⟩
    · rw [hfailures, (Walk.Covers.add w a).failures, List.append_assoc]
    · intro v ticks tokens hcursor hindex
      have hplace : v.place d = (w.place d).moved ticks tokens := by
        simp [Walk.place, Place.moved, hcursor, hindex]
      have hfirst := hf.exists_moved_iff hsound ha ticks tokens
      rw [List.forall_mem_append, ← hfirst, List.foldlM_cons]
      have hbehind {b : Resolved} (hb : f ((w.place d).moved ticks tokens) token = .ok b) :
          (∃ v', rest.foldlM (stepWith f d) (v.add b) = .ok v')
            ↔ ∀ x ∈ failures, isWritable (x.token + tokens) = true := by
        obtain rfl := hf.moved ha hb
        have hc : (v.add (a.moved ticks tokens)).cursor = (w.add a).cursor + ticks := by
          show v.cursor + a.length = w.cursor + a.length + ticks
          rw [hcursor, Int.add_right_comm]
        have hi : (v.add (a.moved ticks tokens)).index = (w.add a).index + tokens := by
          show v.index + 1 = w.index + 1 + tokens
          rw [hindex, Nat.add_right_comm]
        exact hrest hc hi
      constructor
      · rintro ⟨v', hv'⟩
        obtain ⟨v₁, hv₁, hv'⟩ := bind_eq_ok.mp hv'
        obtain ⟨b, hb, rfl⟩ := map_eq_ok.mp hv₁
        rw [hplace] at hb
        exact ⟨⟨b, hb⟩, (hbehind hb).mp ⟨v', hv'⟩⟩
      · rintro ⟨⟨b, hb⟩, hwritable⟩
        obtain ⟨v', hv'⟩ := (hbehind hb).mpr hwritable
        rw [← hplace] at hb
        exact ⟨v', bind_eq_ok.mpr ⟨v.add b, map_eq_ok.mpr ⟨b, hb, rfl⟩, hv'⟩⟩

/-- The part of a walk that a token takes: its notes start where the part starts and end by where it
    ends, and a token that speaks takes time. -/
structure Walk.Passes (before after : Walk) (token : List Char) (row : List Note) : Prop where
  notes : after.notes.toList = before.notes.toList ++ row
  within : ∀ n ∈ row, n.start = before.cursor ∧ n.stop ≤ after.cursor
  cursor : before.cursor ≤ after.cursor
  speaks : Speaks token → before.cursor < after.cursor

/-- A step of a walk passes its token. -/
theorem Paced.passes (hf : Paced f) (hd : 1 ≤ d.length) {token : List Char} {r : Resolved}
    (h : f (w.place d) token = .ok r) : w.Passes (w.add r) token r.notes where
  notes := (Walk.Covers.add w r).notes
  within n hn := by
    obtain ⟨hstart, hlength⟩ := hf.keepsTo h n hn
    have hstart : n.start = w.cursor := hstart
    refine ⟨hstart, ?_⟩
    show n.start + n.length ≤ w.cursor + r.length
    rw [hstart]
    exact Int.add_le_add_left hlength w.cursor
  cursor := Int.le_add_of_nonneg_right (hf.length_nonneg (p := w.place d) hd h)
  speaks hspeaks := by
    have hlength := hf.length_pos (p := w.place d) hd hspeaks h
    show w.cursor < w.cursor + r.length
    omega

/-- **A walk is cut into one part for each token**, and no note of a part is still to be heard when a
    note of a later part starts. -/
theorem exists_rows_foldlM (hf : Paced f) (hd : 1 ≤ d.length)
    (h : ts.foldlM (stepWith f d) w = .ok w') :
    ∃ rows : List (List Note), rows.length = ts.length
      ∧ w'.notes.toList = w.notes.toList ++ rows.flatten
      ∧ (∀ row ∈ rows, ∀ n ∈ row, w.cursor ≤ n.start)
      ∧ (∀ (k : Nat) token row, ts[k]? = some token → rows[k]? = some row → ∃ before after,
        (ts.take k).foldlM (stepWith f d) w = .ok before
          ∧ (ts.take (k + 1)).foldlM (stepWith f d) w = .ok after
          ∧ before.Passes after token row)
      ∧ rows.Pairwise fun earlier later => ∀ m ∈ earlier, ∀ n ∈ later, m.stop ≤ n.start := by
  induction ts generalizing w with
  | nil =>
    obtain rfl := pure_eq_ok.mp h
    refine ⟨[], rfl, (List.append_nil _).symm, fun _ hrow => absurd hrow List.not_mem_nil, ?_,
      List.Pairwise.nil⟩
    intro k token row htoken
    cases htoken
  | cons token rest ih =>
    rw [List.foldlM_cons] at h
    obtain ⟨w₁, h₁, h⟩ := bind_eq_ok.mp h
    obtain ⟨r, hr, rfl⟩ := map_eq_ok.mp h₁
    have hpasses := hf.passes hd hr
    obtain ⟨rows, hcount, hnotes, hstarts, htokens, hapart⟩ := ih h
    refine ⟨r.notes :: rows, congrArg (· + 1) hcount, ?_, ?_, ?_, ?_⟩
    · rw [hnotes, hpasses.notes, List.flatten_cons, List.append_assoc]
    · intro row hrow n hn
      rcases List.mem_cons.mp hrow with rfl | hrow
      · exact Int.le_of_eq (hpasses.within n hn).1.symm
      · exact Int.le_trans hpasses.cursor (hstarts row hrow n hn)
    · intro k token' row htoken hrow
      cases k with
      | zero =>
        obtain rfl := Option.some.inj htoken
        obtain rfl := Option.some.inj hrow
        exact ⟨w, w.add r, rfl, bind_eq_ok.mpr ⟨w.add r, h₁, rfl⟩, hpasses⟩
      | succ k =>
        obtain ⟨before, after, hbefore, hafter, hpart⟩ := htokens k token' row htoken hrow
        refine ⟨before, after, ?_, ?_, hpart⟩
        · exact bind_eq_ok.mpr ⟨w.add r, h₁, hbefore⟩
        · exact bind_eq_ok.mpr ⟨w.add r, h₁, hafter⟩
    · refine List.pairwise_cons.mpr ⟨fun row hrow m hm n hn => ?_, hapart⟩
      exact Int.le_trans (hpasses.within m hm).2 (hstarts row hrow n hn)

/-- The failures of a walk name tokens that it has passed. -/
theorem token_of_foldlM (hf : Paced f) (h : ts.foldlM (stepWith f d) w = .ok w') :
    w'.index = w.index + ts.length ∧ ∀ x ∈ w'.failures.toList,
      x ∈ w.failures.toList ∨ (w.index ≤ x.token ∧ x.token < w'.index) := by
  induction ts generalizing w with
  | nil =>
    obtain rfl := pure_eq_ok.mp h
    exact ⟨rfl, fun x hx => .inl hx⟩
  | cons token rest ih =>
    rw [List.foldlM_cons] at h
    obtain ⟨w₁, h₁, h⟩ := bind_eq_ok.mp h
    obtain ⟨r, hr, rfl⟩ := map_eq_ok.mp h₁
    have hadd := Walk.Covers.add w r
    obtain ⟨hindex, hfailures⟩ := ih h
    rw [hadd.index] at hindex hfailures
    refine ⟨by rw [hindex, List.length_cons]; omega, fun x hx => ?_⟩
    rcases hfailures x hx with hx | hx
    · rw [hadd.failures] at hx
      rcases List.mem_append.mp hx with hx | hx
      · exact .inl hx
      · have hplace : x.token = w.index := (hf.names hr x hx).1
        exact .inr (by omega)
    · exact .inr (by omega)

end Walks

/-! ## 5. Lines -/

/-- A line behind another one of some tokens: what it gives comes later by the other one. -/
def LineResult.andThen (a : LineResult) (tokens : Nat) (b : LineResult) : LineResult :=
  ⟨a.notes ++ b.notes.map (Note.later a.stop.toNat),
    a.failures ++ b.failures.map (Failure.behind tokens), a.stop + b.stop⟩

/-- The notes of a line in rows, one for each token. The cursor that is reached in front of a token
    is the end of the line of the tokens before it. -/
structure IsInRows (line : List (List Char) → Except Fault LineResult) (tokens : List (List Char))
    (rows : List (List Note)) : Prop where
  count : rows.length = tokens.length
  /-- The notes of a token start at the cursor in front of it and end by the cursor behind it, and
      whatever is not all commas moves the cursor, be it understood or not. -/
  token : ∀ (k : Nat) token row, tokens[k]? = some token → rows[k]? = some row →
    ∃ before after, line (tokens.take k) = .ok before ∧ line (tokens.take (k + 1)) = .ok after
      ∧ after.notes = before.notes ++ row
      ∧ (∀ n ∈ row, n.start = before.stop ∧ n.stop ≤ after.stop)
      ∧ before.stop ≤ after.stop ∧ ((∃ c ∈ token, c ≠ ',') → before.stop < after.stop)
  /-- Notes of different tokens do not overlap. -/
  apart : rows.Pairwise fun earlier later => ∀ m ∈ earlier, ∀ n ∈ later, m.stop ≤ n.start

/-- A kind of lines in which the parts of a line do not depend on each other but for the time and the
    place at which they stand. -/
structure IsCompositional (line : List (List Char) → Except Fault LineResult) : Prop where
  /-- Two lines that have results have one together. The only exception is a failure of the second
      whose place in both has too many digits to be written. -/
  exists_joined : ∀ {a b ra rb}, line a = .ok ra → line b = .ok rb →
    ((∃ r, line (a ++ b) = .ok r) ↔ ∀ x ∈ rb.failures, isWritable (x.token + a.length) = true)
  /-- It is that of the first and behind it that of the second. -/
  joined : ∀ {a b ra rb r}, line a = .ok ra → line b = .ok rb → line (a ++ b) = .ok r →
    r = ra.andThen a.length rb
  /-- The tokens of lines that can be counted in so many digits have places that can be written. -/
  countable : ∀ {a b ra rb}, line a = .ok ra → line b = .ok rb →
    isWritable (a.length + b.length) = true → line (a ++ b) = .ok (ra.andThen a.length rb)
  inRows : ∀ {tokens r}, line tokens = .ok r →
    ∃ rows, r.notes = rows.flatten ∧ IsInRows line tokens rows

section Lines

variable {f : Place → List Char → Except Fault Resolved} {d : Defaults}
  {line : List (List Char) → Except Fault LineResult}

/-- **Lines are compositional where their tokens are resolved in a paced way.** -/
theorem Paced.isCompositional (hf : Paced f) (hd : 1 ≤ d.length)
    (hv : 0 ≤ d.velocity ∧ d.velocity ≤ 127)
    (hline : ∀ tokens, line tokens = (tokens.foldlM (stepWith f d) {}).map Walk.result) :
    IsCompositional line := by
  have hexists {a b : List (List Char)} {ra rb : LineResult} (ha : line a = .ok ra)
      (hb : line b = .ok rb) : (∃ r, line (a ++ b) = .ok r)
        ↔ ∀ x ∈ rb.failures, isWritable (x.token + a.length) = true := by
    rw [hline] at ha hb
    obtain ⟨wa, hwa, rfl⟩ := map_eq_ok.mp ha
    obtain ⟨wb, hwb, rfl⟩ := map_eq_ok.mp hb
    obtain ⟨own, hown, hcover, -⟩ := covers_foldlM hf.toSteady hd hwa
    obtain ⟨failures, hfailures, hcarried⟩ := carried_foldlM hf hd hv (Int.le_refl 0) hwb
    rw [hline, exists_map_eq_ok, List.foldlM_append, hwa]
    have hcursor : wa.cursor = ({} : Walk).cursor + (own.length.toNat : Int) := by
      rw [hcover.cursor, Int.toNat_of_nonneg hown]
    have hb : wb.result.failures = failures := hfailures
    rw [hb]
    exact hcarried hcursor hcover.index
  have hjoined {a b : List (List Char)} {ra rb r : LineResult} (ha : line a = .ok ra)
      (hb : line b = .ok rb) (h : line (a ++ b) = .ok r) : r = ra.andThen a.length rb := by
    rw [hline] at ha hb h
    obtain ⟨wa, hwa, rfl⟩ := map_eq_ok.mp ha
    obtain ⟨wb, hwb, rfl⟩ := map_eq_ok.mp hb
    obtain ⟨w, hw, rfl⟩ := map_eq_ok.mp h
    rw [List.foldlM_append, hwa] at hw
    obtain ⟨own, hown, hcover, -⟩ := covers_foldlM hf.toSteady hd hwa
    obtain ⟨behind, -, hbehind, hmoved⟩ := covers_foldlM hf.toSteady hd hwb
    have hstop : wa.cursor = own.length := by rw [hcover.cursor, Int.zero_add]
    have hcursor : wa.cursor = ({} : Walk).cursor + (own.length.toNat : Int) := by
      rw [hcover.cursor, Int.toNat_of_nonneg hown]
    have hboth := hmoved hcursor hcover.index hw
    have hnotes : wb.notes.toList = behind.notes := hbehind.notes
    have hfailures : wb.failures.toList = behind.failures := hbehind.failures
    have hlength : wb.cursor = behind.length := by rw [hbehind.cursor, Int.zero_add]
    simp only [Walk.result, LineResult.andThen, LineResult.mk.injEq]
    refine ⟨?_, ?_, ?_⟩
    · rw [hboth.notes, hnotes, hstop]
      rfl
    · rw [hboth.failures, hfailures]
      rfl
    · rw [hboth.cursor, hlength]
      rfl
  refine ⟨hexists, hjoined, fun {a b ra rb} ha hb hcount => ?_, fun {tokens r} h => ?_⟩
  · obtain ⟨r, hr⟩ := (hexists ha hb).mpr fun x hx => by
      rw [hline] at hb
      obtain ⟨wb, hwb, rfl⟩ := map_eq_ok.mp hb
      obtain ⟨hindex, hfailures⟩ := token_of_foldlM hf hwb
      have hlength : wb.index = b.length := by rw [hindex]; exact Nat.zero_add _
      have hfirst : (({} : Walk).index : Int) = 0 := rfl
      refine isWritable_of_le hcount ?_
      rcases hfailures x hx with hx | ⟨hlow, hhigh⟩
      · cases hx
      · omega
    rw [hr, hjoined ha hb hr]
  · rw [hline] at h
    obtain ⟨w, hw, rfl⟩ := map_eq_ok.mp h
    obtain ⟨rows, hcount, hnotes, -, htokens, hapart⟩ := exists_rows_foldlM hf hd hw
    refine ⟨rows, hnotes, hcount, fun k token row htoken hrow => ?_, hapart⟩
    obtain ⟨before, after, hbefore, hafter, hpasses⟩ := htokens k token row htoken hrow
    refine ⟨before.result, after.result, ?_, ?_, hpasses.notes, hpasses.within, hpasses.cursor,
      hpasses.speaks⟩
    · rw [hline, hbefore]
      rfl
    · rw [hline, hafter]
      rfl

end Lines

/-- **Lines are compositional in time.** Of both kinds a line behind another has the notes of the one
    and then those of the other, later by the end of the first; its failures name their tokens
    behind those of the first; and its end is that of both. Every token plays between the cursor
    in front of it and the cursor behind it, so that notes of different tokens never overlap, and
    whatever is not all commas takes at least one tick. -/
theorem lines_in_time {d : Defaults} (hd : 1 ≤ d.length)
    (hv : 0 ≤ d.velocity ∧ d.velocity ≤ 127) :
    IsCompositional (noteLine d) ∧ IsCompositional (chordLine d) := by
  refine ⟨paced_noteToken.isCompositional hd hv fun tokens => ?_,
    paced_chordSlot.isCompositional hd hv fun tokens => ?_⟩
  · rw [noteLine, noteStep_eq_stepWith]
  · rw [chordLine, chordStep_eq_stepWith]

/-- Three notes of which the second lasts longest, and behind them a rest, a stray character and a
    note: the last note starts seven lengths later. -/
theorem lines_in_time_rest :
    let d : Defaults := { octave := 4, length := 4 }
    let chord : LineResult := ⟨[⟨60, 0, 4, 100, by decide⟩, ⟨64, 0, 8, 100, by decide⟩,
      ⟨67, 0, 4, 100, by decide⟩], [], 8⟩
    let tail : LineResult := ⟨[⟨60, 20, 4, 100, by decide⟩], [⟨['?'], .strayCharacter ['?'], 1⟩], 24⟩
    (1 ≤ d.length ∧ 0 ≤ d.velocity ∧ d.velocity ≤ 127)
      ∧ noteLine d [['C', 'E', '*', '2', 'G']] = .ok chord
      ∧ noteLine d [['Z', '*', '4'], ['?'], ['C']] = .ok tail
      ∧ noteLine d [['C', 'E', '*', '2', 'G'], ['Z', '*', '4'], ['?'], ['C']]
        = .ok ⟨chord.notes ++ [⟨60, 28, 4, 100, by decide⟩], [⟨['?'], .strayCharacter ['?'], 2⟩], 32⟩ := by
  intro d chord tail
  have hd : 1 ≤ d.length := by decide
  have hv : 0 ≤ d.velocity ∧ d.velocity ≤ 127 := by decide
  have hchord : noteLine d [['C', 'E', '*', '2', 'G']] = .ok chord :=
    toOption_eq_some.mp (by decide +kernel)
  have htail : noteLine d [['Z', '*', '4'], ['?'], ['C']] = .ok tail :=
    toOption_eq_some.mp (by decide +kernel)
  exact ⟨⟨hd, hv⟩, hchord, htail,
    (lines_in_time hd hv).1.countable hchord htail (by decide +kernel)⟩

end Cantilena.Notation
