import Cantilena.Proofs.Notation.Legible

/-!
# Lines that are resolved

A line is walked token by token, and it has a result where each of its tokens is resolved at its
place in the line.

* `ChordSlot.IsLegible`, `ChordSlot.IsWorded`, `ChordSlot.IsShown` -- a token of a chord line: its
  digits, the numbers in its failures, and what is found of it in a result;
* `exists_foldlM_stepWith_iff`, `of_foldlM_stepWith` -- which walks come to an end, and what they
  keep of each token;
* `resolved_where_legible` -- chord tokens are read just where they are legible, and lines have a
  result just where all their tokens are legible and worded. What a token holds is then found in the
  result, as a note or as a failure.
-/

namespace Cantilena.Notation

open Number (isWritable)
open Text (decimalValue)

/-! ## 1. Tokens of a chord line -/

/-- The failure of a tone out of range. -/
def toneFailure (token : List Char) (index pitch : Int) : Failure :=
  ⟨token, .toneOutOfRange pitch, index⟩

/-- Whether a tone is found among notes and failures. -/
structure IsToneShown (index : Int) (token : List Char) (notes : List Note)
    (failures : List Failure) (pitch : Int) : Prop where
  sounds : Pitch.playable pitch = true → ∃ note ∈ notes, note.pitch = pitch
  range : Pitch.playable pitch = false → toneFailure token index pitch ∈ failures

theorem IsToneShown.mono {index pitch : Int} {token : List Char} {notes notes' : List Note}
    {failures failures' : List Failure} (hn : notes ⊆ notes') (hf : failures ⊆ failures')
    (h : IsToneShown index token notes failures pitch) :
    IsToneShown index token notes' failures' pitch where
  sounds hplay := by
    obtain ⟨note, hnote, hpitch⟩ := h.sounds hplay
    exact ⟨note, hn hnote, hpitch⟩
  range hplay := hf (h.range hplay)

section

variable {p : Place} {length : Int} {token : List Char} {pitches : List Int} {r : Resolved}

/-- The tones of a chord are resolved where the failures of those out of range can be written. -/
theorem exists_chordTones_iff (hp : p.IsSound) (hlength : 1 ≤ length) :
    (∃ r, chordTones p length token pitches = .ok r)
      ↔ ∀ pitch ∈ pitches, Pitch.playable pitch = false →
        isWritable pitch = true ∧ isWritable p.index = true := by
  induction pitches with
  | nil => exact iff_of_true ⟨_, rfl⟩ fun _ h => absurd h List.not_mem_nil
  | cons pitch rest ih =>
    rw [List.forall_mem_cons, ← ih, chordTones]
    cases hplay : Pitch.playable pitch with
    | true =>
      obtain ⟨note, hnote⟩ := hp.exists_note hplay hlength
      constructor
      · rintro ⟨r, h⟩
        obtain ⟨note', hnote', h⟩ := bind_eq_ok.mp h
        obtain ⟨others, hothers, -⟩ := bind_eq_ok.mp h
        exact ⟨fun hf => (by cases hf), others, hothers⟩
      · rintro ⟨-, others, hothers⟩
        exact ⟨_, bind_eq_ok.mpr ⟨note, hnote, bind_eq_ok.mpr ⟨others, hothers, rfl⟩⟩⟩
    | false =>
      constructor
      · rintro ⟨r, h⟩
        obtain ⟨failure, hfailure, h⟩ := bind_eq_ok.mp h
        obtain ⟨others, hothers, -⟩ := bind_eq_ok.mp h
        obtain ⟨hpitch, hindex, -⟩ := Failure.make_eq_ok.mp hfailure
        exact ⟨fun _ => ⟨hpitch, hindex⟩, others, hothers⟩
      · rintro ⟨hwritable, others, hothers⟩
        obtain ⟨hpitch, hindex⟩ := hwritable rfl
        exact ⟨_, bind_eq_ok.mpr ⟨_, Failure.make_eq_ok.mpr ⟨hpitch, hindex, rfl⟩,
          bind_eq_ok.mpr ⟨others, hothers, rfl⟩⟩⟩

theorem isToneShown_of_chordTones (h : chordTones p length token pitches = .ok r) :
    ∀ pitch ∈ pitches, IsToneShown p.index token r.notes r.failures pitch := by
  induction pitches generalizing r with
  | nil => exact fun _ h => absurd h List.not_mem_nil
  | cons pitch rest ih =>
    rw [List.forall_mem_cons]
    rw [chordTones] at h
    cases hplay : Pitch.playable pitch with
    | true =>
      simp only [hplay, if_true] at h
      obtain ⟨note, hnote, h⟩ := bind_eq_ok.mp h
      obtain ⟨others, hothers, h⟩ := bind_eq_ok.mp h
      obtain rfl := pure_eq_ok.mp h
      refine ⟨⟨fun _ => ⟨note, List.mem_cons_self, (Note.of_make_eq_ok hnote).1⟩,
        fun hf => (Bool.false_ne_true (hf.symm.trans hplay)).elim⟩, fun pitch' hmem => ?_⟩
      exact (ih hothers pitch' hmem).mono (List.subset_append_right _ _)
        (List.subset_append_right _ _)
    | false =>
      simp only [hplay, Bool.false_eq_true, if_false] at h
      obtain ⟨failure, hfailure, h⟩ := bind_eq_ok.mp h
      obtain ⟨others, hothers, h⟩ := bind_eq_ok.mp h
      obtain rfl := pure_eq_ok.mp h
      obtain ⟨-, -, rfl⟩ := Failure.make_eq_ok.mp hfailure
      refine ⟨⟨fun ht => (Bool.false_ne_true (hplay.symm.trans ht)).elim, fun _ => List.mem_cons_self⟩,
        fun pitch' hmem => ?_⟩
      exact (ih hothers pitch' hmem).mono (List.subset_append_right _ _)
        (List.subset_append_right _ _)

end

namespace ChordSlot

/-- Whether the digits of a token of a chord line are read. Commas alone are passed over. -/
def IsLegible (token : List Char) : Prop :=
  chordText token ≠ [] → ChordToken.IsLegible (chordText token)

/-- Whether the numbers in the failures of a token of a chord line can be written: its place, and
    the pitches of tones out of range. -/
def IsWorded (octave index : Int) (token : List Char) : Prop :=
  chordText token ≠ [] → ∀ chord, ChordToken.read (chordText token) octave = .ok chord →
    (chord.ok = false → isWritable index = true)
      ∧ ∀ pitch ∈ chord.pitches, Pitch.playable pitch = false →
        isWritable pitch = true ∧ isWritable index = true

/-- Whether a token of a chord line is found among notes and failures: the fault of the chord is a
    failure, and its tones are shown. -/
def IsShown (octave index : Int) (token : List Char) (notes : List Note)
    (failures : List Failure) : Prop :=
  chordText token ≠ [] → ∀ chord, ChordToken.read (chordText token) octave = .ok chord →
    (∀ cause, chord.sense = .fault cause → ⟨token, .chord cause, index⟩ ∈ failures)
      ∧ ∀ pitch ∈ chord.pitches, IsToneShown index token notes failures pitch

variable {p : Place} {token : List Char} {r : Resolved}

theorem IsShown.mono {octave index : Int} {notes notes' : List Note}
    {failures failures' : List Failure} (hn : notes ⊆ notes') (hf : failures ⊆ failures')
    (h : IsShown octave index token notes failures) :
    IsShown octave index token notes' failures' := by
  intro hne chord hchord
  obtain ⟨hfault, htones⟩ := h hne chord hchord
  exact ⟨fun cause hcause => hf (hfault cause hcause),
    fun pitch hpitch => (htones pitch hpitch).mono hn hf⟩

/-- What a chord that has been read gives at a place. -/
def sounding (p : Place) (token : List Char) (chord : ChordToken) : Except Fault Resolved :=
  match chord.sense with
  | .fault cause => do
    let failure ← Failure.make token (.chord cause) p.index
    return ⟨[], [failure], lengthWith p.length chord.length⟩
  | .silence => .ok { length := lengthWith p.length chord.length }
  | .sounds _ pitches => chordTones p (lengthWith p.length chord.length) token pitches

theorem chordToken_eq (p : Place) (token : List Char) :
    chordToken p token = ChordToken.read (chordText token) p.octave >>= sounding p token := rfl

theorem exists_sounding_iff {chord : ChordToken} (hp : p.IsSound) :
    (∃ r, sounding p token chord = .ok r) ↔ (chord.ok = false → isWritable p.index = true)
      ∧ ∀ pitch ∈ chord.pitches, Pitch.playable pitch = false →
        isWritable pitch = true ∧ isWritable p.index = true := by
  unfold sounding ChordToken.ok ChordToken.pitches
  cases chord.sense with
  | fault cause =>
    constructor
    · rintro ⟨r, h⟩
      obtain ⟨failure, hfailure, -⟩ := bind_eq_ok.mp h
      exact ⟨fun _ => (Failure.make_eq_ok.mp hfailure).2.1, fun _ h => absurd h List.not_mem_nil⟩
    · rintro ⟨hindex, -⟩
      exact ⟨_, bind_eq_ok.mpr ⟨_, Failure.make_eq_ok.mpr ⟨rfl, hindex rfl, rfl⟩, rfl⟩⟩
  | silence =>
    exact iff_of_true ⟨_, rfl⟩ ⟨fun h => (by cases h), fun _ h => absurd h List.not_mem_nil⟩
  | sounds formula pitches =>
    simp only [exists_chordTones_iff hp (lengthWith_pos p.length chord.length)]
    exact ⟨fun h => ⟨fun hok => (by cases hok), h⟩, fun h => h.2⟩

/-- **A token of a chord line is resolved just where it is legible and worded.** -/
theorem exists_chordSlot_iff (hp : p.IsSound) :
    (∃ r, chordSlot p token = .ok r) ↔ IsLegible token ∧ IsWorded p.octave p.index token := by
  unfold chordSlot
  by_cases hne : chordText token = []
  · rw [hne]
    exact iff_of_true ⟨_, rfl⟩ ⟨fun h => absurd hne h, fun h => absurd hne h⟩
  rw [if_neg fun he => hne (List.isEmpty_iff.mp he), chordToken_eq]
  constructor
  · rintro ⟨r, h⟩
    obtain ⟨chord, hchord, h⟩ := bind_eq_ok.mp h
    refine ⟨fun _ => ChordToken.exists_read_iff.mp ⟨chord, hchord⟩, fun _ chord' hchord' => ?_⟩
    obtain rfl := Except.ok.inj (hchord.symm.trans hchord')
    exact (exists_sounding_iff hp).mp ⟨r, h⟩
  · rintro ⟨hlegible, hworded⟩
    obtain ⟨chord, hchord⟩ := ChordToken.exists_read_iff.mpr (hlegible hne)
    obtain ⟨r, h⟩ := (exists_sounding_iff hp).mpr (hworded hne chord hchord)
    exact ⟨r, bind_eq_ok.mpr ⟨chord, hchord, h⟩⟩

theorem isShown_of_chordSlot (h : chordSlot p token = .ok r) :
    IsShown p.octave p.index token r.notes r.failures := by
  intro hne chord hchord
  rw [chordSlot, if_neg fun he => hne (List.isEmpty_iff.mp he), chordToken_eq, hchord] at h
  have h : sounding p token chord = .ok r := h
  unfold sounding at h
  unfold ChordToken.pitches
  cases hsense : chord.sense with
  | fault cause =>
    rw [hsense] at h
    obtain ⟨failure, hfailure, h⟩ := bind_eq_ok.mp h
    obtain rfl := pure_eq_ok.mp h
    refine ⟨fun cause' hcause => ?_, fun _ h => absurd h List.not_mem_nil⟩
    obtain rfl := ChordSense.fault.inj hcause
    exact List.mem_singleton.mpr (Failure.make_eq_ok.mp hfailure).2.2
  | silence => exact ⟨fun _ hcause => (by cases hcause), fun _ h => absurd h List.not_mem_nil⟩
  | sounds formula pitches =>
    rw [hsense] at h
    exact ⟨fun _ hcause => (by cases hcause), isToneShown_of_chordTones h⟩

end ChordSlot

/-! ## 2. Walks over tokens -/

section Walks

variable {f : Place → List Char → Except Fault Resolved} {d : Defaults} {tokens : List (List Char)}

theorem Walk.isSound_place {w : Walk} (hd : 1 ≤ d.length)
    (hv : 0 ≤ d.velocity ∧ d.velocity ≤ 127) (hw : 0 ≤ w.cursor) : (w.place d).IsSound :=
  ⟨hw, hd, hv⟩

/-- **A walk comes to its end where each token is resolved at its place in the line.** The condition
    for one token may depend on its place in the line, but not on the cursor. -/
theorem exists_foldlM_stepWith_iff (hf : Steady f) (hd : 1 ≤ d.length)
    (hv : 0 ≤ d.velocity ∧ d.velocity ≤ 127) (resolvable : Int → List Char → Prop)
    (htoken : ∀ {p : Place} {token}, p.IsSound → p.octave = d.octave →
      ((∃ r, f p token = .ok r) ↔ resolvable p.index token)) {w : Walk} (hw : 0 ≤ w.cursor) :
    (∃ w', tokens.foldlM (stepWith f d) w = .ok w')
      ↔ ∀ (i : Nat) token, tokens[i]? = some token → resolvable (w.index + i : Nat) token := by
  induction tokens generalizing w with
  | nil => exact iff_of_true ⟨w, rfl⟩ fun i token h => by cases h
  | cons first rest ih =>
    have hfirst : (∃ r, f (w.place d) first = .ok r) ↔ resolvable w.index first :=
      htoken (Walk.isSound_place hd hv hw) rfl
    simp only [List.foldlM_cons]
    constructor
    · rintro ⟨w', h⟩
      obtain ⟨w₁, h₁, h⟩ := bind_eq_ok.mp h
      obtain ⟨r, hr, rfl⟩ := map_eq_ok.mp h₁
      have hcursor : 0 ≤ (w.add r).cursor :=
        Int.add_nonneg hw (hf.length_nonneg (p := w.place d) hd hr)
      have hrest := (ih hcursor).mp ⟨w', h⟩
      intro i token hi
      cases i with
      | zero =>
        obtain rfl := Option.some.inj hi
        exact hfirst.mp ⟨r, hr⟩
      | succ i =>
        have := hrest i token hi
        rwa [show (w.add r).index + i = w.index + (i + 1) from Nat.add_right_comm _ _ _] at this
    · intro h
      obtain ⟨r, hr⟩ := hfirst.mpr (h 0 first rfl)
      have hcursor : 0 ≤ (w.add r).cursor :=
        Int.add_nonneg hw (hf.length_nonneg (p := w.place d) hd hr)
      obtain ⟨w', hw'⟩ := (ih hcursor).mpr fun i token hi => by
        have := h (i + 1) token hi
        rwa [show w.index + (i + 1) = (w.add r).index + i from Nat.add_right_comm w.index i 1]
          at this
      exact ⟨w', bind_eq_ok.mpr ⟨_, map_eq_ok.mpr ⟨r, hr, rfl⟩, hw'⟩⟩

/-- What a walk keeps of each token: what the token gives at its place in the line. -/
theorem of_foldlM_stepWith {w w' : Walk} (h : tokens.foldlM (stepWith f d) w = .ok w') :
    (w.notes.toList ⊆ w'.notes.toList ∧ w.failures.toList ⊆ w'.failures.toList)
      ∧ ∀ (i : Nat) token, tokens[i]? = some token → ∃ cursor r,
        f ⟨cursor, d.octave, d.length, d.velocity, (w.index + i : Nat)⟩ token = .ok r
          ∧ r.notes ⊆ w'.notes.toList ∧ r.failures ⊆ w'.failures.toList := by
  induction tokens generalizing w with
  | nil =>
    obtain rfl := pure_eq_ok.mp h
    exact ⟨⟨List.Subset.refl _, List.Subset.refl _⟩, fun i token h => by cases h⟩
  | cons first rest ih =>
    rw [List.foldlM_cons] at h
    obtain ⟨w₁, h₁, h⟩ := bind_eq_ok.mp h
    obtain ⟨r, hr, rfl⟩ := map_eq_ok.mp h₁
    obtain ⟨⟨hnotes, hfailures⟩, hrest⟩ := ih h
    have hn : (w.add r).notes.toList = w.notes.toList ++ r.notes := by simp [Walk.add]
    have hf : (w.add r).failures.toList = w.failures.toList ++ r.failures := by simp [Walk.add]
    rw [hn] at hnotes
    rw [hf] at hfailures
    obtain ⟨hnotes₁, hnotes₂⟩ := List.append_subset.mp hnotes
    obtain ⟨hfailures₁, hfailures₂⟩ := List.append_subset.mp hfailures
    refine ⟨⟨hnotes₁, hfailures₁⟩, fun i token hi => ?_⟩
    cases i with
    | zero =>
      obtain rfl := Option.some.inj hi
      exact ⟨w.cursor, r, hr, hnotes₂, hfailures₂⟩
    | succ i =>
      have := hrest i token hi
      rwa [show (w.add r).index + i = w.index + (i + 1) from Nat.add_right_comm _ _ _] at this

end Walks

/-! ## 3. Lines -/

section Lines

variable {d : Defaults} {tokens : List (List Char)} {r : LineResult}

/-- **A note line has a result just where its tokens are legible and worded.** -/
theorem exists_noteLine_iff (hd : 1 ≤ d.length) (hv : 0 ≤ d.velocity ∧ d.velocity ≤ 127) :
    (∃ r, noteLine d tokens = .ok r) ↔ ∀ (i : Nat) token, tokens[i]? = some token →
      NoteToken.IsLegible token ∧ NoteToken.IsWorded d.octave i token := by
  rw [noteLine, exists_map_eq_ok, noteStep_eq_stepWith,
    exists_foldlM_stepWith_iff steady_noteToken hd hv
      (fun i token => NoteToken.IsLegible token ∧ NoteToken.IsWorded d.octave i token)
      (fun hp ho => by rw [NoteToken.exists_resolve_iff hp, ho]) (Int.le_refl 0)]
  simp only [Nat.zero_add]

/-- **A chord line has a result just where its tokens are legible and worded.** -/
theorem exists_chordLine_iff (hd : 1 ≤ d.length) (hv : 0 ≤ d.velocity ∧ d.velocity ≤ 127) :
    (∃ r, chordLine d tokens = .ok r) ↔ ∀ (i : Nat) token, tokens[i]? = some token →
      ChordSlot.IsLegible token ∧ ChordSlot.IsWorded d.octave i token := by
  rw [chordLine, exists_map_eq_ok, chordStep_eq_stepWith,
    exists_foldlM_stepWith_iff steady_chordSlot hd hv
      (fun i token => ChordSlot.IsLegible token ∧ ChordSlot.IsWorded d.octave i token)
      (fun hp ho => by rw [ChordSlot.exists_chordSlot_iff hp, ho]) (Int.le_refl 0)]
  simp only [Nat.zero_add]

theorem isShown_of_noteLine (hd : 1 ≤ d.length) (h : noteLine d tokens = .ok r) (i : Nat)
    (token : List Char) (hi : tokens[i]? = some token) :
    NoteToken.IsShown d.octave i token r.notes r.failures := by
  rw [noteLine, noteStep_eq_stepWith] at h
  obtain ⟨w, hw, rfl⟩ := map_eq_ok.mp h
  obtain ⟨cursor, own, hown, hnotes, hfailures⟩ := (of_foldlM_stepWith hw).2 i token hi
  rw [Nat.zero_add] at hown
  intro piece hpiece
  exact (NoteToken.isShown_of_resolve hd hown piece hpiece).mono hnotes hfailures

theorem isShown_of_chordLine (h : chordLine d tokens = .ok r) (i : Nat) (token : List Char)
    (hi : tokens[i]? = some token) : ChordSlot.IsShown d.octave i token r.notes r.failures := by
  rw [chordLine, chordStep_eq_stepWith] at h
  obtain ⟨w, hw, rfl⟩ := map_eq_ok.mp h
  obtain ⟨cursor, own, hown, hnotes, hfailures⟩ := (of_foldlM_stepWith hw).2 i token hi
  rw [Nat.zero_add] at hown
  exact (ChordSlot.isShown_of_chordSlot hown).mono hnotes hfailures

end Lines

/-- **Texts are resolved just where they are legible, and nothing in them is passed over.** A chord
    token is read where it is legible, and one that is not at fault is understood in all its parts.
    A note line and a chord line have a result where each token is legible and worded at its place;
    then each piece and each tone is found in the result, as a note or as a failure. -/
theorem resolved_where_legible {d : Defaults} (hd : 1 ≤ d.length)
    (hv : 0 ≤ d.velocity ∧ d.velocity ≤ 127) :
    (∀ text octave,
      ((∃ token, ChordToken.read text octave = .ok token) ↔ ChordToken.IsLegible text)
        ∧ ∀ token, ChordToken.read text octave = .ok token → token.ok = true →
          ChordToken.Understands text octave token)
    ∧ (∀ tokens,
      ((∃ r, noteLine d tokens = .ok r) ↔ ∀ (i : Nat) token, tokens[i]? = some token →
        NoteToken.IsLegible token ∧ NoteToken.IsWorded d.octave i token)
        ∧ ∀ r, noteLine d tokens = .ok r → ∀ (i : Nat) token, tokens[i]? = some token →
          NoteToken.IsShown d.octave i token r.notes r.failures)
    ∧ ∀ tokens,
      ((∃ r, chordLine d tokens = .ok r) ↔ ∀ (i : Nat) token, tokens[i]? = some token →
        ChordSlot.IsLegible token ∧ ChordSlot.IsWorded d.octave i token)
        ∧ ∀ r, chordLine d tokens = .ok r → ∀ (i : Nat) token, tokens[i]? = some token →
          ChordSlot.IsShown d.octave i token r.notes r.failures := by
  refine ⟨fun text octave => ?_, fun tokens => ?_, fun tokens => ?_⟩
  · exact ⟨ChordToken.exists_read_iff, fun token h hok => ChordToken.understands_of_ok h hok⟩
  · exact ⟨exists_noteLine_iff hd hv, fun r h => isShown_of_noteLine hd h⟩
  · exact ⟨exists_chordLine_iff hd hv, fun r h => isShown_of_chordLine h⟩

/-- A note line of a note and a stray character: the one is played, and the other reported. -/
theorem resolved_where_legible_stray :
    let d : Defaults := {}
    (1 ≤ d.length ∧ 0 ≤ d.velocity ∧ d.velocity ≤ 127)
      ∧ ∃ r, noteLine d [['C', '4'], ['?']] = .ok r ∧ (∃ note ∈ r.notes, note.pitch = 60)
        ∧ ⟨['?'], .strayCharacter ['?'], 1⟩ ∈ r.failures := by
  intro d
  have hd : 1 ≤ d.length := Int.le_refl 1
  have hv : 0 ≤ d.velocity ∧ d.velocity ≤ 127 := by decide
  let n : WrittenNote := ⟨.note ⟨.c, .natural⟩, some '4', none⟩
  have hnote : pieces (plainAccidentals ['C', '4']) = [.note n] := by decide +kernel
  have hstray : pieces (plainAccidentals ['?']) = [.stray '?'] := by decide +kernel
  have hoctave : n.octaveIn d.octave = .ok 4 := by rfl
  have hlegible : n.IsLegible := by
    refine ⟨fun c hc => ?_, fun _ _ hd => by cases hd⟩
    obtain rfl := Option.some.inj hc
    decide
  have hworded : n.IsWorded d.octave 0 := by
    refine ⟨fun _ hop => (by cases hop), fun name own hname hown hplay => ?_⟩
    obtain rfl := Sign.note.inj hname
    obtain rfl := Except.ok.inj (hoctave.symm.trans hown)
    cases hplay
  have hindex : isWritable 1 = true := by decide +kernel
  have htokens : ∀ (i : Nat) token, [['C', '4'], ['?']][i]? = some token →
      NoteToken.IsLegible token ∧ NoteToken.IsWorded d.octave i token := by
    intro i token hi
    match i, hi with
    | 0, rfl =>
      rw [NoteToken.IsLegible, NoteToken.IsWorded, hnote]
      exact ⟨List.forall_mem_singleton.mpr hlegible, List.forall_mem_singleton.mpr hworded⟩
    | 1, rfl =>
      rw [NoteToken.IsLegible, NoteToken.IsWorded, hstray]
      exact ⟨List.forall_mem_singleton.mpr trivial, List.forall_mem_singleton.mpr hindex⟩
  obtain ⟨-, hlines, -⟩ := resolved_where_legible hd hv
  obtain ⟨hresult, hshown⟩ := hlines [['C', '4'], ['?']]
  obtain ⟨r, hr⟩ := hresult.mpr htokens
  refine ⟨⟨hd, hv⟩, r, hr, ?_, ?_⟩
  · have := hshown r hr 0 ['C', '4'] rfl _ (hnote ▸ List.mem_singleton_self _)
    exact this.sounds ⟨.c, .natural⟩ 4 rfl hoctave (by decide)
  · exact hshown r hr 1 ['?'] rfl _ (hstray ▸ List.mem_singleton_self _)

/-- A raised digit is a digit without a value, and a token with it as its octave is not resolved. -/
theorem not_resolved_raised_digit :
    (¬ ∃ token, ChordToken.read ['C', '²'] Pitch.defaultOctave = .ok token)
      ∧ (¬ ∃ r, noteLine {} [['C', '²']] = .ok r) ∧ ¬ ∃ r, chordLine {} [['C', '²']] = .ok r := by
  have hvalue : ¬ (decimalValue '²').isSome = true := by decide
  have hnote : pieces (plainAccidentals ['C', '²'])
      = [.note ⟨.note ⟨.c, .natural⟩, some '²', none⟩] := by
    decide +kernel
  have hchord : ¬ ChordToken.IsLegible ['C', '²'] := by
    intro h
    exact hvalue (h.octave (by decide) '²' [] (by decide +kernel) (by decide) (by decide +kernel))
  refine ⟨fun h => hchord (ChordToken.exists_read_iff.mp h), fun h => ?_, fun h => ?_⟩
  · have := ((exists_noteLine_iff (by decide) (by decide)).mp h 0 ['C', '²'] rfl).1
    rw [NoteToken.IsLegible, hnote] at this
    exact hvalue ((this _ (List.mem_singleton_self _)).octave '²' rfl)
  · have := ((exists_chordLine_iff (by decide) (by decide)).mp h 0 ['C', '²'] rfl).1
    exact hchord (this (by decide))

end Cantilena.Notation
