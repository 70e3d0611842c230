import Cantilena.Log

/-!
# Outcomes

What runs in several steps has a result exactly where every step has one. The lemmas of this file
take a result apart into the results of the steps, for `Except` and for `Logged`, and for the same
step along a list (`mapM_eq_ok` and what follows from it).
-/

namespace Cantilena

variable {ε α β : Type}

theorem bind_eq_ok {x : Except ε α} {f : α → Except ε β} {b : β} :
    x >>= f = .ok b ↔ ∃ a, x = .ok a ∧ f a = .ok b := by
  cases x with
  | error e =>
    constructor
    · intro h
      cases h
    · rintro ⟨a, h, _⟩
      cases h
  | ok a =>
    constructor
    · intro h
      exact ⟨a, rfl, h⟩
    · rintro ⟨_, h, hf⟩
      cases h
      exact hf

theorem map_eq_ok {x : Except ε α} {f : α → β} {b : β} :
    x.map f = .ok b ↔ ∃ a, x = .ok a ∧ f a = b := by
  cases x <;> simp [Except.map]

/-- A mapped outcome is a result where the outcome is. -/
theorem exists_map_eq_ok {x : Except ε α} {f : α → β} : (∃ b, x.map f = .ok b) ↔ ∃ a, x = .ok a := by
  constructor
  · rintro ⟨b, h⟩
    obtain ⟨a, ha, -⟩ := map_eq_ok.mp h
    exact ⟨a, ha⟩
  · rintro ⟨a, h⟩
    exact ⟨f a, map_eq_ok.mpr ⟨a, h, rfl⟩⟩

@[simp] theorem pure_eq_ok {a b : α} : (pure a : Except ε α) = .ok b ↔ a = b := by
  simp [pure, Except.pure]

theorem toOption_eq_some {x : Except ε α} {a : α} : x.toOption = some a ↔ x = .ok a := by
  cases x <;> simp [Except.toOption]

/-- What comes behind a test that refuses is a result where the test lets it pass. -/
theorem refuse_eq_ok {c : Prop} [Decidable c] {e : ε} {x : Except ε α} {a : α} :
    (if c then .error e else x) = .ok a ↔ ¬ c ∧ x = .ok a := by
  by_cases h : c <;> simp [h]

/-- What runs behind a check has a result where the check does not fail. -/
theorem check_eq_ok {γ : Type} {c : Prop} [Decidable c] {e : ε} {f : γ → Except ε α}
    {x : Except ε α} {a : α} :
    (if c then throw e >>= f else x) = .ok a ↔ ¬ c ∧ x = .ok a := by
  by_cases h : c
  · rw [if_pos h]
    constructor
    · intro he
      cases he
    · rintro ⟨hn, _⟩
      exact absurd h hn
  · rw [if_neg h]
    exact ⟨fun hx => ⟨h, hx⟩, fun hx => hx.2⟩

/-- Steps taken for each element of a list have results where each of them has one. -/
theorem mapM_eq_ok {f : α → Except ε β} {l : List α} {results : List β} :
    l.mapM f = .ok results ↔ l.map f = results.map .ok := by
  induction l generalizing results with
  | nil =>
    rw [List.mapM_nil, pure_eq_ok, List.map_nil]
    exact ⟨fun h => h ▸ rfl, fun h => (List.map_eq_nil_iff.mp h.symm).symm⟩
  | cons a l ih =>
    rw [List.mapM_cons, bind_eq_ok]
    constructor
    · rintro ⟨b, hb, h⟩
      obtain ⟨rest, hrest, h⟩ := bind_eq_ok.mp h
      obtain rfl := pure_eq_ok.mp h
      rw [List.map_cons, List.map_cons, hb, ih.mp hrest]
    · intro h
      cases results with
      | nil => cases h
      | cons b rest =>
        obtain ⟨hb, hrest⟩ := List.cons.inj h
        exact ⟨b, hb, bind_eq_ok.mpr ⟨rest, ih.mpr hrest, rfl⟩⟩

theorem length_of_mapM {f : α → Except ε β} {l : List α} {results : List β}
    (h : l.mapM f = .ok results) : results.length = l.length := by
  simpa using (congrArg List.length (mapM_eq_ok.mp h)).symm

/-- The result that stands in a place is that of the element in the same place. -/
theorem getElem?_of_mapM {f : α → Except ε β} {l : List α} {results : List β}
    (h : l.mapM f = .ok results) (i : Nat) : l[i]?.map f = results[i]?.map .ok := by
  simpa using congrArg (·[i]?) (mapM_eq_ok.mp h)

/-- Each result is that of some element. -/
theorem exists_of_mem_mapM {f : α → Except ε β} {l : List α} {results : List β}
    (h : l.mapM f = .ok results) {b : β} (hb : b ∈ results) : ∃ a ∈ l, f a = .ok b := by
  have hmem : Except.ok b ∈ l.map f := mapM_eq_ok.mp h ▸ List.mem_map_of_mem hb
  exact List.mem_map.mp hmem

/-- Where a result shows what it was made of, the results show the elements. -/
theorem map_of_mapM {f : α → Except ε β} {g : β → α} (hg : ∀ a b, f a = .ok b → g b = a)
    {l : List α} {results : List β} (h : l.mapM f = .ok results) : results.map g = l := by
  refine List.ext_getElem? fun i => ?_
  have hplace := getElem?_of_mapM h i
  rw [List.getElem?_map]
  cases hresult : results[i]? with
  | none =>
    rw [hresult] at hplace
    exact (Option.map_eq_none_iff.mp hplace).symm
  | some b =>
    rw [hresult] at hplace
    obtain ⟨a, ha, hb⟩ := Option.map_eq_some_iff.mp hplace
    rw [ha, Option.map_some, hg a b hb]

theorem exists_mapM {f : α → Except ε β} {l : List α} (h : ∀ a ∈ l, ∃ b, f a = .ok b) :
    ∃ results, l.mapM f = .ok results := by
  induction l with
  | nil => exact ⟨[], rfl⟩
  | cons a l ih =>
    obtain ⟨⟨b, hb⟩, hrest⟩ := List.forall_mem_cons.mp h
    obtain ⟨rest, hl⟩ := ih hrest
    refine ⟨b :: rest, ?_⟩
    rw [List.mapM_cons]
    exact bind_eq_ok.mpr ⟨b, hb, bind_eq_ok.mpr ⟨rest, hl, rfl⟩⟩

namespace Logged

theorem bind_outcome_eq_ok {x : Logged α} {f : α → Logged β} {b : β} :
    (x >>= f).outcome = .ok b ↔ ∃ a, x.outcome = .ok a ∧ (f a).outcome = .ok b := by
  have h : (x >>= f).outcome = x.outcome >>= fun a => (f a).outcome := bind_outcome x f
  rw [h, bind_eq_ok]

theorem pure_bind (a : α) (f : α → Logged β) : (ok a).bind f = f a := rfl

theorem bind_ok (x : Logged α) (f : α → β) :
    (x.bind fun a => ok (f a)) = ⟨x.log, x.outcome.map f⟩ := by
  obtain ⟨log, outcome⟩ := x
  cases outcome with
  | ok a => exact congrArg (Logged.mk · _) (List.append_nil log)
  | error e => rfl

theorem bind_assoc {γ : Type} (x : Logged α) (f : α → Logged β) (g : β → Logged γ) :
    (x.bind f).bind g = x.bind fun a => (f a).bind g := by
  obtain ⟨log, outcome⟩ := x
  cases outcome with
  | error e => rfl
  | ok a =>
    show Logged.bind ⟨log ++ (f a).log, (f a).outcome⟩ g = ⟨log ++ ((f a).bind g).log, _⟩
    cases hf : (f a).outcome with
    | error e => simp [bind, hf]
    | ok b => simp [bind, hf, List.append_assoc]

theorem id_map (x : Logged α) : id <$> x = x := by
  obtain ⟨log, outcome⟩ := x
  refine (bind_ok ⟨log, outcome⟩ id).trans ?_
  cases outcome <;> rfl

/-- What goes on from a mapped result. -/
theorem lift_map_bind {γ : Type} (x : Except Fault α) (f : α → β) (g : β → Logged γ) :
    (liftM (x.map f) >>= g : Logged γ) = liftM x >>= fun a => g (f a) := by
  cases x <;> rfl

/-- Reports follow one another however steps are put together. -/
instance : LawfulMonad Logged := LawfulMonad.mk' Logged id_map pure_bind bind_assoc

end Logged

end Cantilena
