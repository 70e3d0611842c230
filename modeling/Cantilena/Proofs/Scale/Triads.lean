import Cantilena.Proofs.Scale.Registry
import Cantilena.Scale.Degree

/-!
# Triads on scale degrees

The degrees of a scale go on through all octaves. The triad on a degree takes its tones from the
name that the scale has for it, and its root from the pitch of the degree.

* `degreePitch_add_size`, `degreePitch_add_tonic` -- degrees one round further and tonics some
  semitones higher move a pitch by as much;
* `Harmonizes` -- the triads that a scale names for its degrees;
* `degrees_eq_ok`, `chords_eq`, `triadAt_eq` -- the degrees of a key, their chords, and the triad on a
  degree;
* `stacked_thirds` -- the triads of the scales known from the start are stacked thirds of the scale;
* `triads_on_degrees` -- all of this for the modes of a registry.
-/

namespace Cantilena

/-! ## 1. Triads by name -/

namespace Triad

/-- A triad is its root, its third and its fifth, within an octave. -/
theorem intervals_eq (t : Triad) : ∃ third fifth : Int,
    t.intervals = [0, third, fifth] ∧ 0 < third ∧ third < fifth ∧ fifth < 12 := by
  cases t <;> exact ⟨_, _, rfl, by decide, by decide, by decide⟩

theorem ofName_name (t : Triad) : ofName t.name = .ok t := by
  cases t <;> rfl

theorem exists_name {name : String} (h : name ∈ names.map (·.1)) : ∃ t : Triad, t.name = name := by
  have hall : ∀ name ∈ names.map (·.1), name ∈ [major, minor, diminished, augmented].map Triad.name := by
    decide
  obtain ⟨t, -, ht⟩ := List.mem_map.mp (hall name h)
  exact ⟨t, ht⟩

theorem exists_names {l : List String} (h : ∀ name ∈ l, name ∈ names.map (·.1)) :
    ∃ triads : List Triad, l = triads.map name := by
  induction l with
  | nil => exact ⟨[], rfl⟩
  | cons name l ih =>
    obtain ⟨hname, hrest⟩ := List.forall_mem_cons.mp h
    obtain ⟨t, rfl⟩ := exists_name hname
    obtain ⟨triads, rfl⟩ := ih hrest
    exact ⟨t :: triads, rfl⟩

end Triad

/-- The chord on a degree is the triad of its name. -/
theorem Degree.chord_name (root : Int) (t : Triad) :
    (⟨root, t.name⟩ : Degree).chord = .ok ⟨root, t, .absent⟩ := by
  unfold Degree.chord Chord.make
  rw [Triad.ofName_name]
  rfl

/-- Degrees that are named after triads have these triads for chords. -/
theorem Degree.mapM_chord (classes : List Int) (triads : List Triad) :
    (classes.zipWith (fun pc t => (⟨pc, t.name⟩ : Degree)) triads).mapM Degree.chord
      = .ok (classes.zipWith (fun pc t => ⟨pc, t, .absent⟩) triads) := by
  refine mapM_eq_ok.mpr ?_
  rw [List.map_zipWith, List.map_zipWith]
  simp only [Degree.chord_name]

theorem Degree.of_chord_eq_ok {d : Degree} {c : Chord} (h : d.chord = .ok c) :
    ∃ t, c = ⟨d.root, t, .absent⟩ := by
  obtain ⟨t, -, h⟩ := bind_eq_ok.mp h
  obtain ⟨seventh, hseventh, h⟩ := bind_eq_ok.mp h
  obtain rfl : Seventh.absent = seventh := Except.ok.inj hseventh
  exact ⟨t, (pure_eq_ok.mp h).symm⟩

theorem Chord.intervals_of_absent (root : Int) (t : Triad) :
    (⟨root, t, .absent⟩ : Chord).intervals = t.intervals :=
  List.append_nil _

/-! ## 2. Degrees of a scale -/

namespace Scale

variable {s : Scale} {triads : List Triad} {t : Triad}

theorem length_intervals_pos (hs : s.intervals ≠ []) : 0 < (s.intervals.length : Int) :=
  Int.natCast_pos.mpr (Nat.pos_of_ne_zero (mt List.length_eq_zero_iff.mp hs))

/-- **The degrees some rounds further are as many octaves higher.** -/
theorem degreePitch_add_size (hs : s.intervals ≠ []) (tonic degree rounds : Int) :
    s.degreePitch tonic (degree + s.intervals.length * rounds)
      = s.degreePitch tonic degree + 12 * rounds := by
  have hsize := Int.ne_of_gt (length_intervals_pos hs)
  simp only [degreePitch, Int.add_mul_emod_self_left, Int.add_mul_ediv_left _ _ hsize]
  omega

theorem degreePitch_add_tonic (tonic semitones degree : Int) :
    s.degreePitch (tonic + semitones) degree = s.degreePitch tonic degree + semitones := by
  simp only [degreePitch]
  omega

/-- The place of a degree among those of one round. -/
def place (s : Scale) (degree : Int) : Nat := (degree % s.intervals.length).toNat

theorem place_lt (hs : s.intervals ≠ []) (degree : Int) : s.place degree < s.intervals.length := by
  have hsize := length_intervals_pos hs
  have hrange := Int.emod_lt_of_pos degree hsize
  unfold place
  omega

/-- A degree is its place some rounds further. -/
theorem degree_eq (hs : s.intervals ≠ []) (degree : Int) :
    degree = s.place degree + s.intervals.length * (degree / s.intervals.length) := by
  have hnonneg : 0 ≤ degree % (s.intervals.length : Int) :=
    Int.emod_nonneg _ (Int.ne_of_gt (length_intervals_pos hs))
  rw [place, Int.toNat_of_nonneg hnonneg]
  exact (Int.emod_add_mul_ediv degree _).symm

/-- The triads that a scale names, one for each of its degrees. -/
structure Harmonizes (triads : List Triad) (s : Scale) : Prop where
  names : s.triads = triads.map Triad.name
  length_eq : triads.length = s.intervals.length
  intervals_ne_nil : s.intervals ≠ []

theorem WellFormed.exists_harmonizes (h : s.WellFormed) (hne : s.triads ≠ [])
    (hknown : ∀ name ∈ s.triads, name ∈ Triad.names.map (·.1)) :
    ∃ triads, Harmonizes triads s := by
  obtain ⟨triads, htriads⟩ := Triad.exists_names hknown
  refine ⟨triads, htriads, ?_, h.intervals_ne_nil⟩
  rw [← h.triads.resolve_left hne, htriads, List.length_map]

namespace Harmonizes

variable (h : Harmonizes triads s)
include h

theorem triads_ne_nil : s.triads ≠ [] := by
  intro he
  have hlength := congrArg List.length h.names
  rw [he, List.length_map, h.length_eq] at hlength
  exact h.intervals_ne_nil (List.length_eq_zero_iff.mp hlength.symm)

theorem exists_triad (degree : Int) : ∃ t, triads[s.place degree]? = some t :=
  ⟨_, List.getElem?_eq_getElem (h.length_eq ▸ place_lt h.intervals_ne_nil degree)⟩

/-- What a class and a triad make together stands in the place of the degree. -/
theorem getElem?_zipWith {β : Type} (f : Int → Triad → β) (tonic degree : Int)
    (ht : triads[s.place degree]? = some t) :
    ((s.pitchClasses tonic).zipWith f triads)[s.place degree]?
      = some (f ((tonic + s.intervals.getD (s.place degree) 0) % 12) t) := by
  have hplace := place_lt h.intervals_ne_nil degree
  rw [List.getElem?_zipWith, ht, pitchClasses, List.getElem?_map, List.getD_eq_getElem?_getD,
    List.getElem?_eq_getElem hplace]
  rfl

theorem length_zipWith {β : Type} (f : Int → Triad → β) (tonic : Int) :
    ((s.pitchClasses tonic).zipWith f triads).length = s.intervals.length := by
  rw [List.length_zipWith, h.length_eq, pitchClasses, List.length_map, Nat.min_self]

end Harmonizes

/-- The tones of a triad on a degree have the classes of the chord on the class of the degree. -/
theorem classes_tones (tonic octave degree : Int) (t : Triad) :
    (t.intervals.map (s.degreePitch (Pitch.ofClass tonic octave) degree + ·)).map Pitch.classOf
      = (⟨(tonic + s.intervals.getD (s.place degree) 0) % 12, t, .absent⟩ : Chord).pitchClasses := by
  rw [List.map_map, Chord.pitchClasses, Chord.intervals_of_absent]
  refine List.map_congr_left fun interval _ => ?_
  simp only [Function.comp_apply, Pitch.classOf, Pitch.ofClass, degreePitch, place]
  omega

/-- **The triads of the scales known from the start are stacked thirds of the scale**: each third
    and each fifth is the degree two or four steps on. It is enough to look at one round. -/
theorem stacked_thirds (hs : s ∈ builtin) (h : Harmonizes triads s) {degree : Int}
    (ht : triads[s.place degree]? = some t) (tonic : Int) :
    t.intervals.map (s.degreePitch tonic degree + ·)
      = [degree, degree + 2, degree + 4].map (s.degreePitch tonic) := by
  have hround : ∀ s ∈ builtin, ∀ i ∈ List.range s.intervals.length,
      ∀ t ∈ [Triad.major, .minor, .diminished, .augmented], s.triads[i]? = some t.name →
        t.intervals.map (s.degreePitch 0 i + ·)
          = [(i : Int), i + 2, i + 4].map (s.degreePitch 0) := by
    decide +kernel
  have hmem : t ∈ [Triad.major, .minor, .diminished, .augmented] := by cases t <;> decide
  have hname : s.triads[s.place degree]? = some t.name := by
    rw [h.names, List.getElem?_map, ht]
    rfl
  have hplace := List.mem_range.mpr (place_lt h.intervals_ne_nil degree)
  have hfirst := hround s hs _ hplace t hmem hname
  -- all three degrees lie as many rounds further, and the tonic as much higher
  have hfurther (steps : Int) : s.degreePitch tonic (degree + steps)
      = s.degreePitch 0 (s.place degree + steps)
        + (12 * (degree / s.intervals.length) + tonic) := by
    have hdegree : degree + steps
        = s.place degree + steps + s.intervals.length * (degree / s.intervals.length) := by
      have := degree_eq h.intervals_ne_nil degree
      omega
    have htonic := degreePitch_add_tonic (s := s) 0 tonic
    rw [Int.zero_add] at htonic
    rw [htonic, hdegree, degreePitch_add_size h.intervals_ne_nil, Int.add_assoc]
  have hroot := hfurther 0
  have hthird := hfurther 2
  have hfifth := hfurther 4
  rw [Int.add_zero, Int.add_zero] at hroot
  obtain ⟨third, fifth, htones, -⟩ := t.intervals_eq
  simp only [htones, List.map_cons, List.map_nil, List.cons.injEq, and_true] at hfirst ⊢
  omega

end Scale

/-! ## 3. Triads and chords of a key -/

/-- Tones above a higher root are as much higher. -/
theorem map_raised (root semitones : Int) (intervals : List Int) :
    intervals.map (root + semitones + ·) = (intervals.map (root + ·)).map (· + semitones) := by
  rw [List.map_map]
  exact List.map_congr_left fun _ _ => Int.add_right_comm ..

namespace Registry

/-- Whatever a registry holds, the tones on a degree are those of a triad above a root. -/
theorem of_triadAt_eq_ok {r : Registry} {key : List Char} {mode : String} {degree octave : Int}
    {tones : List Int} (h : r.triadAt key mode degree octave = .ok tones) :
    ∃ (root : Int) (t : Triad), tones = t.intervals.map (root + ·) := by
  obtain ⟨degrees, -, h⟩ := bind_eq_ok.mp h
  obtain ⟨root, -, h⟩ := bind_eq_ok.mp h
  obtain ⟨chord, hchord, h⟩ := bind_eq_ok.mp h
  obtain ⟨t, rfl⟩ := Degree.of_chord_eq_ok hchord
  refine ⟨root, t, ?_⟩
  rw [← pure_eq_ok.mp h, Chord.intervals_of_absent]

variable {r : Registry} {s : Scale} {triads : List Triad} {t : Triad} {key : List Char}
  {mode : String} {tonic : Int} (hs : r.get mode = .ok s) (hkey : Pitch.classNamed key = .ok tonic)
include hs hkey

theorem degreePitch_eq (degree octave : Int) : r.degreePitch key mode degree octave
    = .ok (s.degreePitch (Pitch.ofClass tonic octave) degree) := by
  unfold degreePitch
  rw [hs, hkey]
  rfl

/-- **The degrees of a key are named as its scale names them**, whether the names are known or not. -/
theorem degrees_eq_ok (hne : s.triads ≠ []) : r.degrees key mode
    = .ok ((s.pitchClasses tonic).zipWith Degree.mk s.triads) := by
  have hnamed : ¬ s.triads.isEmpty = true := mt List.isEmpty_iff.mp hne
  exact bind_eq_ok.mpr ⟨s, hs, check_eq_ok.mpr ⟨hnamed, bind_eq_ok.mpr ⟨tonic, hkey, rfl⟩⟩⟩

variable (h : Scale.Harmonizes triads s)
include h

theorem degrees_eq : r.degrees key mode
    = .ok ((s.pitchClasses tonic).zipWith (fun pc t => ⟨pc, t.name⟩) triads) := by
  rw [degrees_eq_ok hs hkey h.triads_ne_nil, h.names, List.zipWith_map_right]

/-- The chords of a key are the triads of its scale on the classes of its scale. -/
theorem chords_eq : r.chords key mode
    = .ok ((s.pitchClasses tonic).zipWith (fun pc t => ⟨pc, t, .absent⟩) triads) :=
  bind_eq_ok.mpr ⟨_, degrees_eq hs hkey h, Degree.mapM_chord _ triads⟩

/-- **The triad on a degree** has the tones of the triad in its place above the pitch of the
    degree. -/
theorem triadAt_eq {degree : Int} (ht : triads[s.place degree]? = some t) (octave : Int) :
    r.triadAt key mode degree octave
      = .ok (t.intervals.map (s.degreePitch (Pitch.ofClass tonic octave) degree + ·)) := by
  have hhere (degrees : List Degree)
      (hdegrees : (s.pitchClasses tonic).zipWith (fun pc t => ⟨pc, t.name⟩) triads = degrees) :
      (degrees.getD (degree % degrees.length).toNat default).chord
        = .ok ⟨(tonic + s.intervals.getD (s.place degree) 0) % 12, t, .absent⟩ := by
    rw [← hdegrees, h.length_zipWith, List.getD_eq_getElem?_getD, ← Scale.place,
      h.getElem?_zipWith _ tonic degree ht]
    exact Degree.chord_name _ t
  unfold triadAt
  refine bind_eq_ok.mpr ⟨_, degrees_eq hs hkey h, bind_eq_ok.mpr
    ⟨_, degreePitch_eq hs hkey degree octave, bind_eq_ok.mpr ⟨_, hhere _ rfl, ?_⟩⟩⟩
  rw [Chord.intervals_of_absent]
  rfl

theorem triadAt_add_size {degree : Int} (ht : triads[s.place degree]? = some t) (octave : Int) :
    r.triadAt key mode (degree + s.intervals.length) octave
      = .ok ((t.intervals.map (s.degreePitch (Pitch.ofClass tonic octave) degree + ·)).map
          (· + 12)) := by
  have hplace : s.place (degree + s.intervals.length) = s.place degree := by
    rw [Scale.place, Int.add_emod_right, Scale.place]
  have hpitch := Scale.degreePitch_add_size h.intervals_ne_nil (Pitch.ofClass tonic octave) degree 1
  rw [Int.mul_one, Int.mul_one] at hpitch
  rw [triadAt_eq hs hkey h (hplace.symm ▸ ht), hpitch, map_raised]

theorem triadAt_add_octave {degree : Int} (ht : triads[s.place degree]? = some t) (octave : Int) :
    r.triadAt key mode degree (octave + 1)
      = .ok ((t.intervals.map (s.degreePitch (Pitch.ofClass tonic octave) degree + ·)).map
          (· + 12)) := by
  have htonic : Pitch.ofClass tonic (octave + 1) = Pitch.ofClass tonic octave + 12 := by
    simp only [Pitch.ofClass]
    omega
  rw [triadAt_eq hs hkey h ht, htonic, Scale.degreePitch_add_tonic, map_raised]

end Registry

/-! ## 4. All modes of a registry -/

/-- The triads of the scales known from the start are all known. -/
theorem Scale.exists_harmonizes_builtin {s : Scale} (hs : s ∈ Scale.builtin) :
    ∃ triads, Harmonizes triads s := by
  have hall : ∀ s ∈ Scale.builtin,
      s.triads ≠ [] ∧ ∀ name ∈ s.triads, name ∈ Triad.names.map (·.1) := by decide
  exact (wellFormed_builtin hs).exists_harmonizes (hall s hs).1 (hall s hs).2

/-- **Triads on the degrees of a scale.** In a mode whose scale was known from the start the triad on
    a degree, in any octave and however far from the tonic, is the degree itself and the degrees two
    and four steps on. In a mode whose scale has triads the degrees of a key are named as the scale
    names them, known or not. Where the names are known they have chords, and the triad on a degree
    has the classes of the chord in its place; the degrees one round further and the octave above
    have the same triad twelve semitones higher. -/
theorem triads_on_degrees {r : Registry} (hr : r.Reachable) {mode : String} {s : Scale}
    (hs : r.get mode = .ok s) {key : List Char} {tonic : Int}
    (hkey : Pitch.classNamed key = .ok tonic) :
    (s ∈ Scale.builtin → ∀ degree octave, ∃ root third fifth,
        r.degreePitch key mode degree octave = .ok root
        ∧ r.degreePitch key mode (degree + 2) octave = .ok third
        ∧ r.degreePitch key mode (degree + 4) octave = .ok fifth
        ∧ r.triadAt key mode degree octave = .ok [root, third, fifth])
      ∧ (s.triads ≠ [] →
        r.degrees key mode = .ok ((s.pitchClasses tonic).zipWith Degree.mk s.triads))
      ∧ (s.triads ≠ [] → (∀ name ∈ s.triads, name ∈ Triad.names.map (·.1)) →
        ∃ chords, ((s.pitchClasses tonic).zipWith Degree.mk s.triads).mapM Degree.chord = .ok chords
          ∧ r.chords key mode = .ok chords ∧ chords.length = s.intervals.length
          ∧ ∀ degree octave, ∃ triad chord,
            r.triadAt key mode degree octave = .ok triad ∧ triad.length = 3
            ∧ chords[(degree % s.intervals.length).toNat]? = some chord
            ∧ triad.map Pitch.classOf = chord.pitchClasses
            ∧ r.triadAt key mode (degree + s.intervals.length) octave = .ok (triad.map (· + 12))
            ∧ r.triadAt key mode degree (octave + 1) = .ok (triad.map (· + 12))) := by
  refine ⟨fun hbuiltin degree octave => ?_, Registry.degrees_eq_ok hs hkey, fun hne hknown => ?_⟩
  · obtain ⟨triads, h⟩ := Scale.exists_harmonizes_builtin hbuiltin
    obtain ⟨t, ht⟩ := h.exists_triad degree
    have htriad := Registry.triadAt_eq hs hkey h ht octave
    rw [Scale.stacked_thirds hbuiltin h ht] at htriad
    exact ⟨_, _, _, Registry.degreePitch_eq hs hkey _ _, Registry.degreePitch_eq hs hkey _ _,
      Registry.degreePitch_eq hs hkey _ _, htriad⟩
  · have hmem : s ∈ r.scales := Registry.mem_of_find? (Registry.get_eq_ok.mp hs)
    obtain ⟨triads, h⟩ := (hr.wellFormed s hmem).exists_harmonizes hne hknown
    have hchords : ((s.pitchClasses tonic).zipWith Degree.mk s.triads).mapM Degree.chord
        = .ok ((s.pitchClasses tonic).zipWith (fun pc t => ⟨pc, t, .absent⟩) triads) := by
      rw [h.names, List.zipWith_map_right]
      exact Degree.mapM_chord _ triads
    refine ⟨_, hchords, Registry.chords_eq hs hkey h, h.length_zipWith _ tonic,
      fun degree octave => ?_⟩
    obtain ⟨t, ht⟩ := h.exists_triad degree
    obtain ⟨third, fifth, htones, -⟩ := t.intervals_eq
    refine ⟨_, _, Registry.triadAt_eq hs hkey h ht octave, ?_, h.getElem?_zipWith _ tonic degree ht,
      Scale.classes_tones tonic octave degree t, Registry.triadAt_add_size hs hkey h ht octave,
      Registry.triadAt_add_octave hs hkey h ht octave⟩
    rw [List.length_map, htones]
    rfl

/-- A scale that was not known from the start. -/
def Scale.wholeTones : Scale := ⟨"whole", [0, 2, 4, 6, 8, 10], List.replicate 6 "augmented"⟩

/-- Three degrees below E flat in the dorian mode, and whole tones on F sharp one round apart. -/
theorem triads_on_degrees_whole_tones :
    (Registry.builtin.insert Scale.wholeTones).Reachable
      ∧ (Registry.builtin.insert Scale.wholeTones).triadAt ['E', '♭'] "Dorian" (-3) 4
        = .ok [58, 61, 65]
      ∧ ∃ triad,
        (Registry.builtin.insert Scale.wholeTones).triadAt ['F', '♯'] "whole" 7 3 = .ok triad
        ∧ (Registry.builtin.insert Scale.wholeTones).triadAt ['F', '♯'] "whole" 13 3
          = .ok (triad.map (· + 12)) := by
  have hr : (Registry.builtin.insert Scale.wholeTones).Reachable :=
    .register .builtin (Registry.register_eq_ok.mpr ⟨Scale.make_eq_ok.mpr ⟨rfl, by decide, by decide,
      by decide, .inr (by decide)⟩, rfl⟩)
  have hflat : Pitch.classNamed ['E', '♭'] = .ok 3 := rfl
  have hsharp : Pitch.classNamed ['F', '♯'] = .ok 6 := rfl
  have hdorian : (Registry.builtin.insert Scale.wholeTones).get "Dorian"
      = .ok ⟨"dorian", [0, 2, 3, 5, 7, 9, 10], Scale.modeTriads 1⟩ := rfl
  have hwhole : (Registry.builtin.insert Scale.wholeTones).get "whole" = .ok Scale.wholeTones := rfl
  refine ⟨hr, ?_, ?_⟩
  · obtain ⟨root, third, fifth, hroot, hthird, hfifth, htriad⟩ :=
      (triads_on_degrees hr hdorian hflat).1 (by decide) (-3) 4
    obtain rfl : 58 = root := Except.ok.inj hroot
    obtain rfl : 61 = third := Except.ok.inj hthird
    obtain rfl : 65 = fifth := Except.ok.inj hfifth
    exact htriad
  · obtain ⟨chords, -, -, -, htriads⟩ :=
      (triads_on_degrees hr hwhole hsharp).2.2 (by decide) (by decide)
    obtain ⟨triad, -, htriad, -, -, -, hround, -⟩ := htriads 7 3
    exact ⟨triad, htriad, hround⟩

end Cantilena
