import Cantilena.Notation.Line
import Cantilena.Proofs.Note.Moved
import Cantilena.Proofs.Outcome

/-!
# Walking a line

What a token gives does not depend on where it stands, except that its notes start there and its
failures name its place. A line is a walk over its tokens, so the same holds of any part of a line.

* `Failure.behind`, `Resolved.moved`, `Place.moved` -- moved in time and in the row of tokens;
* `Steady` -- a way to resolve tokens that moves with the place of a token; both kinds of lines
  resolve their tokens in a steady way (`steady_noteToken`, `steady_chordSlot`);
* `Walk.Covers` -- what a walk adds on the way from one point to another;
* `covers_foldlM` -- two walks over the same tokens add the same, each from where it starts.
-/

namespace Cantilena.Notation

/-! ## 1. Moving failures and what tokens give -/

/-- A failure of a token that stands some tokens further on. -/
def Failure.behind (tokens : Nat) (f : Failure) : Failure := { f with token := f.token + tokens }

/-- A failure without the place of its token. -/
def Failure.bare (f : Failure) : List Char × Reason := (f.text, f.reason)

@[simp] theorem Failure.bare_behind (tokens : Nat) (f : Failure) :
    (f.behind tokens).bare = f.bare := rfl

theorem Failure.make_behind {text : List Char} {reason : Reason} {index : Int} {tokens : Nat}
    {f f' : Failure} (h : Failure.make text reason index = .ok f)
    (h' : Failure.make text reason (index + tokens) = .ok f') : f' = f.behind tokens := by
  unfold Failure.make at h h'
  split at h
  · split at h'
    · rw [← Except.ok.inj h, ← Except.ok.inj h']
      rfl
    · cases h'
  · cases h

/-- What a part of a token gives when it stands later and further on. -/
def Resolved.moved (ticks tokens : Nat) (r : Resolved) : Resolved :=
  ⟨r.notes.map (Note.later ticks), r.failures.map (Failure.behind tokens), r.length⟩

/-- A place later and further on. -/
def Place.moved (ticks tokens : Nat) (p : Place) : Place :=
  { p with cursor := p.cursor + ticks, index := p.index + tokens }

theorem Resolved.moved_beside (ticks tokens : Nat) (a b : Resolved) :
    (a.beside b).moved ticks tokens
      = (a.moved ticks tokens).beside (b.moved ticks tokens) := by
  simp [Resolved.moved, Resolved.beside]

theorem Resolved.moved_settled (ticks tokens : Nat) (r : Resolved) (p : Place) :
    (r.settled p).moved ticks tokens
      = (r.moved ticks tokens).settled (p.moved ticks tokens) := by
  unfold Resolved.settled
  by_cases h : r.length = 0 ∧ r.failures ≠ []
  · have h' : (r.moved ticks tokens).length = 0 ∧ (r.moved ticks tokens).failures ≠ [] :=
      ⟨h.1, fun e => h.2 (List.map_eq_nil_iff.mp e)⟩
    rw [if_pos h, if_pos h']
    rfl
  · have h' : ¬ ((r.moved ticks tokens).length = 0 ∧ (r.moved ticks tokens).failures ≠ []) :=
      fun e => h ⟨e.1, fun e' => e.2 (List.map_eq_nil_iff.mpr e')⟩
    rw [if_neg h, if_neg h']

/-! ## 2. Moving tokens -/

section Moving

variable {p : Place} {token : List Char} {ticks tokens : Nat}

theorem WrittenNote.lengthAt_moved {n : WrittenNote} {l l' : Int × List Failure}
    (h : n.lengthAt p token = .ok l) (h' : n.lengthAt (p.moved ticks tokens) token = .ok l') :
    l' = (l.1, l.2.map (Failure.behind tokens)) := by
  unfold WrittenNote.lengthAt at h h'
  split at h
  · rename_i hn
    rw [hn] at h'
    rw [← Except.ok.inj h, ← Except.ok.inj h']
    rfl
  · rename_i op hn
    rw [hn] at h'
    obtain ⟨f, hf, hl⟩ := bind_eq_ok.mp h
    obtain ⟨f', hf', hl'⟩ := bind_eq_ok.mp h'
    rw [← pure_eq_ok.mp hl, ← pure_eq_ok.mp hl', Failure.make_behind hf hf']
    rfl
  · rename_i op digits hd hn
    obtain ⟨c, rest, rfl⟩ := List.exists_cons_of_ne_nil hd
    rw [hn] at h'
    obtain ⟨operand, ho, hl⟩ := map_eq_ok.mp h
    obtain ⟨operand', ho', hl'⟩ := map_eq_ok.mp h'
    rw [ho] at ho'
    rw [← hl, ← hl', Except.ok.inj ho']
    rfl

theorem WrittenNote.resolve_moved {n : WrittenNote} {r r' : Resolved}
    (h : n.resolve p token = .ok r) (h' : n.resolve (p.moved ticks tokens) token = .ok r') :
    r' = r.moved ticks tokens := by
  obtain ⟨octave, ho, h⟩ := bind_eq_ok.mp h
  obtain ⟨octave', ho', h'⟩ := bind_eq_ok.mp h'
  have he : n.octaveAt (p.moved ticks tokens) = n.octaveAt p := rfl
  rw [he, ho] at ho'
  obtain rfl := Except.ok.inj ho'
  obtain ⟨⟨length, failures⟩, hl, h⟩ := bind_eq_ok.mp h
  obtain ⟨l', hl', h'⟩ := bind_eq_ok.mp h'
  obtain rfl := lengthAt_moved hl hl'
  cases hs : n.sign with
  | silence =>
    rw [hs] at h h'
    rw [← pure_eq_ok.mp h, ← pure_eq_ok.mp h']
    rfl
  | note name =>
    rw [hs] at h h'
    simp only at h h'
    split at h
    · rename_i hp
      rw [if_pos hp] at h'
      obtain ⟨note, hn, h⟩ := bind_eq_ok.mp h
      obtain ⟨note', hn', h'⟩ := bind_eq_ok.mp h'
      have hm : Note.make (Pitch.ofClass name.pitchClass octave) (p.cursor + ticks) length
          p.velocity = .ok (note.later ticks) := Note.make_later ticks hn
      have hn' : Note.make (Pitch.ofClass name.pitchClass octave) (p.cursor + ticks) length
          p.velocity = .ok note' := hn'
      rw [hm] at hn'
      rw [← pure_eq_ok.mp h, ← pure_eq_ok.mp h', ← Except.ok.inj hn']
      rfl
    · rename_i hp
      rw [if_neg hp] at h'
      obtain ⟨text, ht, h⟩ := bind_eq_ok.mp h
      obtain ⟨text', ht', h'⟩ := bind_eq_ok.mp h'
      rw [ht] at ht'
      obtain rfl := Except.ok.inj ht'
      obtain ⟨f, hf, h⟩ := bind_eq_ok.mp h
      obtain ⟨f', hf', h'⟩ := bind_eq_ok.mp h'
      rw [← pure_eq_ok.mp h, ← pure_eq_ok.mp h', Failure.make_behind hf hf']
      simp [Resolved.moved]

theorem Piece.resolve_moved {piece : Piece} {r r' : Resolved}
    (h : piece.resolve p token = .ok r)
    (h' : piece.resolve (p.moved ticks tokens) token = .ok r') : r' = r.moved ticks tokens := by
  cases piece with
  | comma =>
    rw [← Except.ok.inj h, ← Except.ok.inj h']
    rfl
  | stray c =>
    obtain ⟨f, hf, h⟩ := bind_eq_ok.mp h
    obtain ⟨f', hf', h'⟩ := bind_eq_ok.mp h'
    rw [← pure_eq_ok.mp h, ← pure_eq_ok.mp h', Failure.make_behind hf hf']
    rfl
  | note n => exact WrittenNote.resolve_moved h h'

theorem resolvePieces_moved {ps : List Piece} {r r' : Resolved}
    (h : resolvePieces p token ps = .ok r)
    (h' : resolvePieces (p.moved ticks tokens) token ps = .ok r') :
    r' = r.moved ticks tokens := by
  induction ps generalizing r r' with
  | nil =>
    rw [← Except.ok.inj h, ← Except.ok.inj h']
    rfl
  | cons piece rest ih =>
    obtain ⟨a, ha, h⟩ := bind_eq_ok.mp h
    obtain ⟨a', ha', h'⟩ := bind_eq_ok.mp h'
    obtain ⟨b, hb, h⟩ := bind_eq_ok.mp h
    obtain ⟨b', hb', h'⟩ := bind_eq_ok.mp h'
    rw [← pure_eq_ok.mp h, ← pure_eq_ok.mp h', Piece.resolve_moved ha ha', ih hb hb',
      Resolved.moved_beside]

theorem chordTones_moved {length : Int} {pitches : List Int} {r r' : Resolved}
    (h : chordTones p length token pitches = .ok r)
    (h' : chordTones (p.moved ticks tokens) length token pitches = .ok r') :
    r' = r.moved ticks tokens := by
  induction pitches generalizing r r' with
  | nil =>
    rw [← Except.ok.inj h, ← Except.ok.inj h']
    rfl
  | cons pitch rest ih =>
    unfold chordTones at h h'
    split at h
    · rename_i hp
      rw [if_pos hp] at h'
      obtain ⟨note, hn, h⟩ := bind_eq_ok.mp h
      obtain ⟨note', hn', h'⟩ := bind_eq_ok.mp h'
      have hm : Note.make pitch (p.cursor + ticks) length p.velocity = .ok (note.later ticks) :=
        Note.make_later ticks hn
      have hn' : Note.make pitch (p.cursor + ticks) length p.velocity = .ok note' := hn'
      rw [hm] at hn'
      obtain ⟨b, hb, h⟩ := bind_eq_ok.mp h
      obtain ⟨b', hb', h'⟩ := bind_eq_ok.mp h'
      rw [← pure_eq_ok.mp h, ← pure_eq_ok.mp h', ih hb hb', ← Except.ok.inj hn',
        Resolved.moved_beside]
      rfl
    · rename_i hp
      rw [if_neg hp] at h'
      obtain ⟨f, hf, h⟩ := bind_eq_ok.mp h
      obtain ⟨f', hf', h'⟩ := bind_eq_ok.mp h'
      obtain ⟨b, hb, h⟩ := bind_eq_ok.mp h
      obtain ⟨b', hb', h'⟩ := bind_eq_ok.mp h'
      rw [← pure_eq_ok.mp h, ← pure_eq_ok.mp h', ih hb hb', Failure.make_behind hf hf',
        Resolved.moved_beside]
      rfl

theorem chordToken_moved {r r' : Resolved} (h : chordToken p token = .ok r)
    (h' : chordToken (p.moved ticks tokens) token = .ok r') : r' = r.moved ticks tokens := by
  obtain ⟨chord, hc, h⟩ := bind_eq_ok.mp h
  obtain ⟨chord', hc', h'⟩ := bind_eq_ok.mp h'
  have he : ChordToken.read (chordText token) (p.moved ticks tokens).octave
      = ChordToken.read (chordText token) p.octave := rfl
  rw [he, hc] at hc'
  obtain rfl := Except.ok.inj hc'
  cases hs : chord.sense with
  | fault cause =>
    rw [hs] at h h'
    obtain ⟨f, hf, h⟩ := bind_eq_ok.mp h
    obtain ⟨f', hf', h'⟩ := bind_eq_ok.mp h'
    rw [← pure_eq_ok.mp h, ← pure_eq_ok.mp h', Failure.make_behind hf hf']
    rfl
  | silence =>
    rw [hs] at h h'
    rw [← pure_eq_ok.mp h, ← pure_eq_ok.mp h']
    rfl
  | sounds formula pitches =>
    rw [hs] at h h'
    exact chordTones_moved h h'

end Moving

/-! ## 3. Steady ways to resolve tokens -/

/-- A way to resolve tokens that moves with the place of a token and never goes back in time. -/
structure Steady (f : Place → List Char → Except Fault Resolved) : Prop where
  moved : ∀ {p token ticks tokens r r'}, f p token = .ok r →
    f (p.moved ticks tokens) token = .ok r' → r' = r.moved ticks tokens
  length_nonneg : ∀ {p token r}, 1 ≤ p.length → f p token = .ok r → 0 ≤ r.length

/-- What a token of a chord line gives, a token of commas alone included. -/
def chordSlot (p : Place) (token : List Char) : Except Fault Resolved :=
  if (chordText token).isEmpty then .ok {} else chordToken p token

theorem lengthWith_pos (length : Int) (op : Option (LengthOperator × Int)) :
    1 ≤ lengthWith length op := by
  unfold lengthWith
  split <;> exact Int.le_max_left 1 _

theorem resolvePieces_length_nonneg {p : Place} {token : List Char} {ps : List Piece}
    {r : Resolved} (h : resolvePieces p token ps = .ok r) : 0 ≤ r.length := by
  induction ps generalizing r with
  | nil =>
    obtain rfl := Except.ok.inj h
    exact Int.le_refl 0
  | cons piece rest ih =>
    obtain ⟨a, _, h⟩ := bind_eq_ok.mp h
    obtain ⟨b, hb, h⟩ := bind_eq_ok.mp h
    rw [← pure_eq_ok.mp h]
    exact Int.le_trans (ih hb) (Int.le_max_right a.length b.length)

theorem chordTones_length {p : Place} {length : Int} {token : List Char} {pitches : List Int}
    {r : Resolved} (h : chordTones p length token pitches = .ok r) : length ≤ r.length := by
  induction pitches generalizing r with
  | nil =>
    obtain rfl := Except.ok.inj h
    exact Int.le_refl length
  | cons pitch rest ih =>
    unfold chordTones at h
    split at h
    · obtain ⟨note, _, h⟩ := bind_eq_ok.mp h
      obtain ⟨b, hb, h⟩ := bind_eq_ok.mp h
      rw [← pure_eq_ok.mp h]
      exact Int.le_trans (ih hb) (Int.le_max_right 0 b.length)
    · obtain ⟨f, _, h⟩ := bind_eq_ok.mp h
      obtain ⟨b, hb, h⟩ := bind_eq_ok.mp h
      rw [← pure_eq_ok.mp h]
      exact Int.le_trans (ih hb) (Int.le_max_right 0 b.length)

theorem chordToken_length_pos {p : Place} {token : List Char} {r : Resolved}
    (h : chordToken p token = .ok r) : 1 ≤ r.length := by
  obtain ⟨chord, _, h⟩ := bind_eq_ok.mp h
  have hl := lengthWith_pos p.length chord.length
  cases hs : chord.sense with
  | fault cause =>
    rw [hs] at h
    obtain ⟨f, _, h⟩ := bind_eq_ok.mp h
    rw [← pure_eq_ok.mp h]
    exact hl
  | silence =>
    rw [hs] at h
    rw [← pure_eq_ok.mp h]
    exact hl
  | sounds formula pitches =>
    rw [hs] at h
    exact Int.le_trans hl (chordTones_length h)

/-- The tokens of a note line are resolved in a steady way. -/
theorem steady_noteToken : Steady fun p token => NoteToken.resolve token p where
  moved := by
    intro p token ticks tokens r r' h h'
    obtain ⟨a, ha, rfl⟩ := map_eq_ok.mp h
    obtain ⟨a', ha', rfl⟩ := map_eq_ok.mp h'
    rw [resolvePieces_moved ha ha', Resolved.moved_settled]
  length_nonneg := by
    intro p token r hp h
    obtain ⟨a, ha, rfl⟩ := map_eq_ok.mp h
    unfold Resolved.settled
    split
    · exact Int.le_trans Int.one_nonneg hp
    · exact resolvePieces_length_nonneg ha

/-- The tokens of a chord line are resolved in a steady way. -/
theorem steady_chordSlot : Steady chordSlot where
  moved := by
    intro p token ticks tokens r r' h h'
    unfold chordSlot at h h'
    by_cases hc : (chordText token).isEmpty = true
    · rw [if_pos hc] at h h'
      rw [← Except.ok.inj h, ← Except.ok.inj h']
      rfl
    · rw [if_neg hc] at h h'
      exact chordToken_moved h h'
  length_nonneg := by
    intro p token r hp h
    unfold chordSlot at h
    split at h
    · obtain rfl := Except.ok.inj h
      exact Int.le_refl 0
    · exact Int.le_trans Int.one_nonneg (chordToken_length_pos h)

/-! ## 4. Walks -/

/-- Places one token that is resolved by `f`. -/
def stepWith (f : Place → List Char → Except Fault Resolved) (d : Defaults) (w : Walk)
    (token : List Char) : Except Fault Walk :=
  (f (w.place d) token).map w.add

theorem noteStep_eq_stepWith : noteStep = stepWith fun p token => NoteToken.resolve token p := rfl

theorem chordStep_eq_stepWith : chordStep = stepWith chordSlot := by
  funext d w token
  unfold chordStep stepWith chordSlot
  split
  · simp [Except.map, Walk.add]
  · rfl

/-- What the parts of a walk give, one after the other. -/
def Resolved.andThen (a b : Resolved) : Resolved :=
  ⟨a.notes ++ b.notes, a.failures ++ b.failures, a.length + b.length⟩

theorem Resolved.moved_andThen (ticks tokens : Nat) (a b : Resolved) :
    (a.andThen b).moved ticks tokens
      = (a.moved ticks tokens).andThen (b.moved ticks tokens) := by
  simp [Resolved.moved, Resolved.andThen]

/-- A walk comes from `w` to `w'` past some tokens, and they give `r`. -/
structure Walk.Covers (w w' : Walk) (r : Resolved) (tokens : Nat) : Prop where
  cursor : w'.cursor = w.cursor + r.length
  index : w'.index = w.index + tokens
  notes : w'.notes.toList = w.notes.toList ++ r.notes
  failures : w'.failures.toList = w.failures.toList ++ r.failures

namespace Walk.Covers

theorem refl (w : Walk) : w.Covers w {} 0 where
  cursor := (Int.add_zero w.cursor).symm
  index := rfl
  notes := (List.append_nil _).symm
  failures := (List.append_nil _).symm

theorem add (w : Walk) (r : Resolved) : w.Covers (w.add r) r 1 where
  cursor := rfl
  index := rfl
  notes := by simp [Walk.add]
  failures := by simp [Walk.add]

theorem trans {u v w : Walk} {a b : Resolved} {m n : Nat} (h : u.Covers v a m)
    (h' : v.Covers w b n) : u.Covers w (a.andThen b) (m + n) where
  cursor := by rw [h'.cursor, h.cursor, Int.add_assoc]; rfl
  index := by rw [h'.index, h.index, Nat.add_assoc]
  notes := by rw [h'.notes, h.notes, List.append_assoc]; rfl
  failures := by rw [h'.failures, h.failures, List.append_assoc]; rfl

end Walk.Covers

section Walks

variable {f : Place → List Char → Except Fault Resolved} {d : Defaults}

/-- **A walk over tokens covers what they give, and a walk over the same tokens from a later
    start, with more tokens behind it, covers the same moved by the difference.** -/
theorem covers_foldlM (hf : Steady f) (hd : 1 ≤ d.length) {ts : List (List Char)} {w w' : Walk}
    (h : ts.foldlM (stepWith f d) w = .ok w') :
    ∃ r, 0 ≤ r.length ∧ w.Covers w' r ts.length ∧
      ∀ {v v' : Walk} {ticks tokens : Nat},
        v.cursor = w.cursor + ticks → v.index = w.index + tokens →
        ts.foldlM (stepWith f d) v = .ok v' →
        v.Covers v' (r.moved ticks tokens) ts.length := by
  induction ts generalizing w w' with
  | nil =>
    obtain rfl := pure_eq_ok.mp h
    refine ⟨{}, Int.le_refl 0, .refl w, ?_⟩
    intro v v' ticks tokens _ _ hv
    obtain rfl := pure_eq_ok.mp hv
    exact .refl v
  | cons token rest ih =>
    rw [List.foldlM_cons] at h
    obtain ⟨w₁, h₁, h⟩ := bind_eq_ok.mp h
    obtain ⟨a, ha, rfl⟩ := map_eq_ok.mp h₁
    obtain ⟨b, hb, hcover, hmoved⟩ := ih h
    have hpos : 0 ≤ a.length := hf.length_nonneg hd ha
    refine ⟨a.andThen b, Int.add_nonneg hpos hb, ?_, ?_⟩
    · have := (Walk.Covers.add w a).trans hcover
      rwa [Nat.add_comm] at this
    · intro v v' ticks tokens hcursor hindex hv
      rw [List.foldlM_cons] at hv
      obtain ⟨v₁, hv₁, hv⟩ := bind_eq_ok.mp hv
      obtain ⟨a', ha', rfl⟩ := map_eq_ok.mp hv₁
      have hplace : v.place d = (w.place d).moved ticks tokens := by
        simp [Walk.place, Place.moved, hcursor, hindex]
      rw [hplace] at ha'
      obtain rfl := hf.moved ha ha'
      have hc : (v.add (a.moved ticks tokens)).cursor = (w.add a).cursor + ticks := by
        show v.cursor + a.length = w.cursor + a.length + ticks
        rw [hcursor, Int.add_right_comm]
      have hi : (v.add (a.moved ticks tokens)).index = (w.add a).index + tokens := by
        show v.index + 1 = w.index + 1 + tokens
        rw [hindex, Nat.add_right_comm]
      have := (Walk.Covers.add v (a.moved ticks tokens)).trans (hmoved hc hi hv)
      rwa [Nat.add_comm, ← Resolved.moved_andThen] at this

end Walks

end Cantilena.Notation
