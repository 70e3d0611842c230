import Cantilena.Proofs.Scale.Registry

/-!
# What registering scales leaves behind

A registry keeps what it is told, and a call that fails leaves no mark on it. It files a scale
under the name as it is written, but reads a mode in lower case and through the names that stand
for others. So a scale can be used under its name just where that name reads as itself.

* `Call`, `attempt`, `after` -- registering, whatever it ends with, once and many times;
* `attempt_eq`, `scales_after` -- all that a call can do, and what a registry holds after many;
* `IsPlain`, `nameOf_eq_self_iff` -- the names that read as themselves;
* `mem_available_iff`, `accepts_listed_iff` -- the listed names, and when all are accepted;
* `use_of_registered` -- under which names a scale that was registered can be used;
* `registered_unused` -- two names it cannot be used under.
-/

namespace Cantilena.Registry

/-! ## 1. Calls -/

/-- What `register` is called with. -/
structure Call where
  name : String
  intervals : List Int
  triads : List String := []

/-- The scale a call makes, if it makes one. -/
def Call.scale? (c : Call) : Option Scale := (Scale.make c.name c.intervals c.triads).toOption

/-- A registry after a call, which stays as it was if the call fails. -/
def attempt (r : Registry) (c : Call) : Registry :=
  match r.register c.name c.intervals c.triads with
  | .ok (_, after) => after
  | .error _ => r

/-- The registry that the first one has become by several calls, whatever they ended with. -/
def after (calls : List Call) : Registry := calls.foldl attempt builtin

/-- The scales that several calls registered, in the order of the calls. -/
def entered (calls : List Call) : List Scale := calls.filterMap Call.scale?

variable {r : Registry} {s : Scale} {c : Call} {calls : List Call} {mode name : String}

theorem scale?_eq_some : c.scale? = some s ↔ Scale.make c.name c.intervals c.triads = .ok s :=
  toOption_eq_some

/-- **All that a call can do**: it puts the scale it makes in front, or nothing happens. -/
theorem attempt_eq (r : Registry) (c : Call) :
    r.attempt c = (c.scale?.map r.insert).getD r := by
  unfold attempt register Call.scale?
  cases Scale.make c.name c.intervals c.triads <;> rfl

theorem attempt_of_error {cause : Fault}
    (h : r.register c.name c.intervals c.triads = .error cause) : r.attempt c = r := by
  unfold attempt
  rw [h]

theorem attempt_of_ok {r' : Registry} (h : r.register c.name c.intervals c.triads = .ok (s, r')) :
    r.attempt c = r' := by
  unfold attempt
  rw [h]

theorem after_append_singleton (calls : List Call) (c : Call) :
    after (calls ++ [c]) = (after calls).attempt c := by
  rw [after, List.foldl_append]
  rfl

theorem Reachable.attempt (h : r.Reachable) (c : Call) : (r.attempt c).Reachable := by
  rw [attempt_eq]
  cases hs : c.scale? with
  | none => exact h
  | some s => exact .register h (register_eq_ok.mpr ⟨scale?_eq_some.mp hs, rfl⟩)

theorem scales_foldl (calls : List Call) (r : Registry) :
    (calls.foldl attempt r).scales = (entered calls).reverse ++ r.scales := by
  induction calls generalizing r with
  | nil => rfl
  | cons c calls ih =>
    rw [List.foldl_cons, ih, attempt_eq]
    cases hs : c.scale? with
    | none => simp [entered, hs]
    | some s => simp [entered, hs, insert]

/-- **What a registry holds after any calls**: the scales they made, the last one in front, and
    behind them those known from the start. -/
theorem scales_after (calls : List Call) :
    (after calls).scales = (entered calls).reverse ++ Scale.builtin :=
  scales_foldl calls builtin

theorem Reachable.foldl (h : r.Reachable) (calls : List Call) :
    (calls.foldl Registry.attempt r).Reachable := by
  induction calls generalizing r with
  | nil => exact h
  | cons c calls ih => exact ih (h.attempt c)

theorem reachable_after (calls : List Call) : (after calls).Reachable :=
  Reachable.builtin.foldl calls

/-! ## 2. Names -/

/-- A name that reads as itself: it is in lower case and stands for no other name. -/
def IsPlain (name : String) : Prop :=
  Text.lowerString name = name ∧ name ∉ aliases.map (·.1)

instance : DecidablePred IsPlain := fun name =>
  inferInstanceAs (Decidable (Text.lowerString name = name ∧ name ∉ aliases.map (·.1)))

theorem nameOf_of_lookup {original : String}
    (h : aliases.lookup (Text.lowerString mode) = some original) : nameOf mode = original := by
  simp only [nameOf, h, Option.getD_some]

theorem nameOf_of_not_mem (h : Text.lowerString mode ∉ aliases.map (·.1)) :
    nameOf mode = Text.lowerString mode := by
  have hnone : aliases.lookup (Text.lowerString mode) = none := by
    rw [List.lookup_eq_none_iff]
    intro p hp
    rw [bne_iff_ne]
    exact fun he => h (he ▸ List.mem_map_of_mem hp)
  simp only [nameOf, hnone, Option.getD_none]

/-- No name stands for one that stands for another. -/
theorem original_of_lookup {short original : String}
    (h : aliases.lookup short = some original) :
    original ∉ aliases.map (·.1) ∧ Text.lowerString original = original := by
  have hall : ∀ p ∈ aliases, p.2 ∉ aliases.map (·.1) ∧ Text.lowerString p.2 = p.2 := by
    decide +kernel
  obtain ⟨before, behind, he, -⟩ := List.lookup_eq_some_iff.mp h
  exact hall (short, original) (by rw [he]; simp)

/-- **The names that read as themselves.** -/
theorem nameOf_eq_self_iff : nameOf name = name ↔ IsPlain name := by
  constructor
  · intro h
    cases hlookup : aliases.lookup (Text.lowerString name) with
    | some original =>
      obtain ⟨hfresh, hlower⟩ := original_of_lookup hlookup
      obtain rfl : original = name := (nameOf_of_lookup hlookup).symm.trans h
      exact ⟨hlower, hfresh⟩
    | none =>
      have hlower : Text.lowerString name = name := by
        simpa only [nameOf, hlookup, Option.getD_none] using h
      refine ⟨hlower, fun hmem => ?_⟩
      obtain ⟨p, hp, he⟩ := List.mem_map.mp hmem
      rw [hlower, List.lookup_eq_none_iff] at hlookup
      exact bne_iff_ne.mp (hlookup p hp) he.symm
  · rintro ⟨hlower, hfresh⟩
    rw [nameOf_of_not_mem (hlower.symm ▸ hfresh), hlower]

/-! ## 3. Modes that are accepted -/

/-- Whether a mode is known. -/
def Accepts (r : Registry) (mode : String) : Prop := ∃ s, r.get mode = .ok s

/-- A mode is known where a scale has the name it is looked up as. -/
theorem accepts_iff : r.Accepts mode ↔ nameOf mode ∈ r.scales.map (·.name) := by
  unfold Accepts
  simp only [get_eq_ok, find?, ← Option.isSome_iff_exists, List.find?_isSome, List.mem_map,
    beq_iff_eq]

/-- The names that are listed: those of scales, and those that stand for others. -/
theorem mem_available_iff :
    name ∈ r.available ↔ name ∈ r.scales.map (·.name) ∨ name ∈ aliases.map (·.1) := by
  rw [available, List.mem_mergeSort, List.mem_eraseDups, List.mem_append]

theorem accepts_builtin (hr : r.Reachable) (h : mode ∈ builtin.available) : r.Accepts mode := by
  have hall : ∀ name ∈ Scale.builtin.map (·.name) ++ aliases.map (·.1),
      (builtin.find? (nameOf name)).isSome = true := by
    decide +kernel
  exact hr.get_builtin (hall mode (List.mem_append.mpr (mem_available_iff.mp h)))

/-- **When every listed name is accepted**: each registered name reads as one that is known. -/
theorem accepts_listed_iff (calls : List Call) :
    (∀ name ∈ (after calls).available, (after calls).Accepts name)
      ↔ ∀ s ∈ entered calls, nameOf s.name ∈ (after calls).scales.map (·.name) := by
  constructor
  · intro h s hs
    refine accepts_iff.mp (h s.name (mem_available_iff.mpr (.inl ?_)))
    rw [scales_after]
    exact List.mem_map_of_mem (List.mem_append_left _ (List.mem_reverse.mpr hs))
  · intro h name hname
    rcases mem_available_iff.mp hname with hmem | hshort
    · obtain ⟨s, hs, rfl⟩ := List.mem_map.mp hmem
      rw [scales_after, List.mem_append, List.mem_reverse] at hs
      rcases hs with hs | hs
      · exact accepts_iff.mpr (h s hs)
      · exact accepts_builtin (reachable_after calls)
          (mem_available_iff.mpr (.inl (List.mem_map_of_mem hs)))
    · exact accepts_builtin (reachable_after calls) (mem_available_iff.mpr (.inr hshort))

/-- Where only plain names are registered every listed name is accepted. -/
theorem accepts_listed (h : ∀ s ∈ entered calls, IsPlain s.name) :
    ∀ name ∈ (after calls).available, (after calls).Accepts name := by
  refine (accepts_listed_iff calls).mpr fun s hs => ?_
  rw [nameOf_eq_self_iff.mpr (h s hs), scales_after]
  exact List.mem_map_of_mem (List.mem_append_left _ (List.mem_reverse.mpr hs))

/-- A scale is found just under the modes that are looked up as its name, and all other modes
    mean what they meant. -/
theorem get_insert (r : Registry) (s : Scale) (mode : String) :
    ((r.insert s).get mode = .ok s ↔ nameOf mode = s.name)
      ∧ (nameOf mode ≠ s.name → ((r.insert s).get mode).toOption = (r.get mode).toOption) := by
  have hget (q : Registry) : (q.get mode).toOption = q.find? (nameOf mode) := by
    unfold get
    split <;> simp [Except.toOption, *]
  constructor
  · rw [get_eq_ok, find?_insert]
    constructor
    · intro h
      split at h
      · rename_i heq
        exact heq.symm
      · have := List.find?_some h
        exact (beq_iff_eq.mp this).symm
    · intro h
      rw [if_pos h.symm]
  · intro h
    rw [hget, hget, find?_insert, if_neg (Ne.symm h)]

/-- **Where a registered scale can be used, after any calls.** A call that does not fail puts its
    scale under all modes that are looked up as its name and under no others, so it can be used
    under that name just if the name is plain; every other mode means what it meant. And every
    listed name is accepted just if each registered name reads as one that is known, as it does
    where all of them are plain. -/
theorem use_of_registered (calls : List Call) :
    (∀ (c : Call) (s : Scale) (r : Registry),
      (after calls).register c.name c.intervals c.triads = .ok (s, r) →
        s = ⟨c.name, c.intervals, c.triads⟩
        ∧ r = after (calls ++ [c])
        ∧ (∀ mode, r.get mode = .ok s ↔ nameOf mode = c.name)
        ∧ (∀ mode, nameOf mode ≠ c.name →
            (r.get mode).toOption = ((after calls).get mode).toOption)
        ∧ (r.get c.name = .ok s ↔ IsPlain c.name))
      ∧ ((∀ name ∈ (after calls).available, (after calls).Accepts name)
          ↔ ∀ s ∈ entered calls, nameOf s.name ∈ (after calls).scales.map (·.name))
      ∧ ((∀ s ∈ entered calls, IsPlain s.name) →
          ∀ name ∈ (after calls).available, (after calls).Accepts name) := by
  refine ⟨fun c s r h => ?_, accepts_listed_iff calls, accepts_listed⟩
  have hafter : r = after (calls ++ [c]) :=
    (attempt_of_ok h).symm.trans (after_append_singleton calls c).symm
  obtain ⟨hmake, rfl⟩ := register_eq_ok.mp h
  have hs := (Scale.make_eq_ok.mp hmake).1
  have hname : s.name = c.name := by rw [hs]
  have hfound (mode : String) := (get_insert (after calls) s mode).1
  have hkept (mode : String) := (get_insert (after calls) s mode).2
  rw [hname] at hfound hkept
  exact ⟨hs, hafter, hfound, hkept, (hfound c.name).trans nameOf_eq_self_iff⟩

/-- A plain name, registered behind one that is not, is used in either case. -/
theorem use_of_registered_hirajoshi :
    ∃ s r, (after [⟨"Foo", [0, 4, 7], []⟩]).register "hirajoshi" [0, 2, 3, 7, 8] [] = .ok (s, r)
      ∧ r.get "hirajoshi" = .ok s ∧ r.get "HiraJoshi" = .ok s := by
  obtain ⟨-, -, hfound, -, hplain⟩ := (use_of_registered [⟨"Foo", [0, 4, 7], []⟩]).1
    ⟨"hirajoshi", [0, 2, 3, 7, 8], []⟩ ⟨"hirajoshi", [0, 2, 3, 7, 8], []⟩ _ rfl
  exact ⟨_, _, rfl, hplain.mpr (by decide +kernel), (hfound "HiraJoshi").mpr (by decide +kernel)⟩

/-- A scale registered under a name with a capital letter is listed and found under no mode, and
    one registered under a name that stands for another is not found either. -/
theorem registered_unused :
    (∃ s r, builtin.register "Foo" [0, 4, 7] [] = .ok (s, r)
      ∧ "Foo" ∈ r.available ∧ ¬ r.Accepts "Foo")
      ∧ ∃ s r, builtin.register "minor" [0, 4, 7] [] = .ok (s, r) ∧ r.get "minor" ≠ .ok s := by
  refine ⟨⟨_, _, rfl, ?_, ?_⟩, ⟨_, _, rfl, ?_⟩⟩
  · exact mem_available_iff.mpr (.inl (by decide +kernel))
  · rw [accepts_iff]
    decide +kernel
  · rw [Ne, get_eq_ok]
    decide +kernel

end Cantilena.Registry
