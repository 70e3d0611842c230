import Cantilena.Proofs.Random.Drawing

/-!
# Two drawings side by side

Two drawings that ask for the same draws go on side by side: from every state they leave the same
state, and their results are related, or they end with the same fault. The rules of this file take
both apart step by step.

* `Matched` -- related results, or the same fault;
* `Coupled` -- drawings that go on side by side;
* `Coupled.bind`, `Coupled.foldlM` -- one step after another, and two walks with an invariant;
* `Coupled.eq_map` -- a drawing beside one whose results are mapped to its own.
-/

namespace Cantilena

variable {σ α β γ δ : Type}

/-! ## 1. Outcomes -/

/-- Two outcomes of which both are results that are related, or both the same fault. -/
inductive Matched (R : α → β → Prop) : Except Fault α → Except Fault β → Prop
  | ok {a : α} {b : β} (h : R a b) : Matched R (.ok a) (.ok b)
  | error (e : Fault) : Matched R (.error e) (.error e)

theorem Matched.mono {R R' : α → β → Prop} (h : ∀ a b, R a b → R' a b) {x : Except Fault α}
    {y : Except Fault β} (hxy : Matched R x y) : Matched R' x y := by
  cases hxy with
  | ok hab => exact .ok (h _ _ hab)
  | error e => exact .error e

/-- The results of matched outcomes are related. -/
theorem Matched.exists_of_ok {R : α → β → Prop} {x : Except Fault α} {y : Except Fault β}
    (hxy : Matched R x y) {a : α} (hx : x = .ok a) : ∃ b, y = .ok b ∧ R a b := by
  cases hxy with
  | ok h =>
    obtain rfl := Except.ok.inj hx
    exact ⟨_, rfl, h⟩
  | error e => cases hx

theorem Matched.bind {R : α → β → Prop} {S : γ → δ → Prop} {x : Except Fault α}
    {y : Except Fault β} {f : α → Except Fault γ} {g : β → Except Fault δ} (hxy : Matched R x y)
    (h : ∀ a b, R a b → Matched S (f a) (g b)) : Matched S (x >>= f) (y >>= g) := by
  cases hxy with
  | ok hab => exact h _ _ hab
  | error e => exact .error e

/-- An outcome that matches one by mapping its result is that outcome, mapped. -/
theorem matched_map_iff {f : α → β} {x : Except Fault α} {y : Except Fault β} :
    Matched (fun a b => b = f a) x y ↔ y = x.map f := by
  constructor
  · intro h
    cases h with
    | ok hab => exact congrArg Except.ok hab
    | error e => rfl
  · rintro rfl
    cases x with
    | ok a => exact .ok rfl
    | error e => exact .error e

/-! ## 2. Drawings -/

/-- From every state of chance two drawings leave the same state, and their outcomes match. -/
def Coupled (R : α → β → Prop) (d : Drawing σ α) (e : Drawing σ β) : Prop :=
  ∀ s, Matched R (d.run s).1 (e.run s).1 ∧ (e.run s).2 = (d.run s).2

/-- What a drawing does with a step behind it. -/
theorem run_bind (d : Drawing σ α) (f : α → Drawing σ γ) (s : σ) :
    (d >>= f).run s = match (d.run s).1 with
      | .ok a => (f a).run (d.run s).2
      | .error e => (.error e, (d.run s).2) := by
  unfold ExceptT.run
  show StateT.bind d (ExceptT.bindCont f) s = _
  unfold StateT.bind
  show (match d s with | (x, s') => ExceptT.bindCont f x s') = _
  rcases d s with ⟨x, s'⟩
  cases x <;> rfl

/-- What a drawing does whose results are mapped. -/
theorem run_map (f : α → β) (d : Drawing σ α) (s : σ) :
    (f <$> d).run s = ((d.run s).1.map f, (d.run s).2) := by
  have hmap : f <$> d = d >>= fun a => Pure.pure (f a) := (bind_pure_comp f d).symm
  rw [hmap, run_bind]
  cases (d.run s).1 <;> rfl

namespace Coupled

variable {R : α → β → Prop} {S : γ → δ → Prop}

theorem pure {a : α} {b : β} (h : R a b) :
    Coupled (σ := σ) R (Pure.pure a) (Pure.pure b) :=
  fun _ => ⟨.ok h, rfl⟩

/-- What needs nothing drawn goes on side by side where the outcomes match. -/
theorem ofExcept {x : Except Fault α} {y : Except Fault β} (h : Matched R x y) :
    Coupled (σ := σ) R (liftM x) (liftM y) := by
  cases h with
  | ok hab => exact pure hab
  | error e => exact fun _ => ⟨.error e, rfl⟩

theorem refl (d : Drawing σ α) : Coupled Eq d d := by
  intro s
  refine ⟨?_, rfl⟩
  cases (d.run s).1 with
  | ok a => exact .ok rfl
  | error e => exact .error e

theorem mono {R' : α → β → Prop} {d : Drawing σ α} {e : Drawing σ β} (hde : Coupled R d e)
    (h : ∀ a b, R a b → R' a b) : Coupled R' d e :=
  fun s => ⟨(hde s).1.mono h, (hde s).2⟩

/-- **One step after another.** -/
theorem bind {d : Drawing σ α} {e : Drawing σ β} {f : α → Drawing σ γ} {g : β → Drawing σ δ}
    (hde : Coupled R d e) (h : ∀ a b, R a b → Coupled S (f a) (g b)) :
    Coupled S (d >>= f) (e >>= g) := by
  intro s
  obtain ⟨hmatched, hstate⟩ := hde s
  rw [run_bind, run_bind, hstate]
  generalize (d.run s).1 = x at hmatched
  generalize (e.run s).1 = y at hmatched
  cases hmatched with
  | ok hab => exact h _ _ hab _
  | error cause => exact ⟨.error cause, rfl⟩

/-- The same step, and what follows it. -/
theorem bind_same (d : Drawing σ α) {f : α → Drawing σ γ} {g : α → Drawing σ δ}
    (h : ∀ a, Coupled S (f a) (g a)) : Coupled S (d >>= f) (d >>= g) := by
  refine (refl d).bind ?_
  rintro a _ rfl
  exact h a

/-- The same choice of a way to go on. -/
theorem ite {p : Prop} [Decidable p] {d d' : Drawing σ α} {e e' : Drawing σ β}
    (h : p → Coupled R d e) (h' : ¬ p → Coupled R d' e') :
    Coupled R (if p then d else d') (if p then e else e') := by
  split
  · rename_i hp
    exact h hp
  · rename_i hp
    exact h' hp

/-- **Two walks over the same values keep what each of their steps keeps.** -/
theorem foldlM {f : α → γ → Drawing σ α} {g : β → γ → Drawing σ β} {l : List γ} {a : α} {b : β}
    (hab : R a b) (h : ∀ a b, R a b → ∀ c ∈ l, Coupled R (f a c) (g b c)) :
    Coupled R (l.foldlM f a) (l.foldlM g b) := by
  induction l generalizing a b with
  | nil => exact pure hab
  | cons c l ih =>
    rw [List.foldlM_cons, List.foldlM_cons]
    refine (h a b hab c List.mem_cons_self).bind fun a' b' hab' => ?_
    exact ih hab' fun a b hab c hc => h a b hab c (List.mem_cons_of_mem _ hc)

/-- **A drawing beside one whose results are mapped to its own is that drawing, mapped.** -/
theorem eq_map {f : α → β} {d : Drawing σ α} {e : Drawing σ β}
    (h : Coupled (fun a b => b = f a) d e) : e = f <$> d := by
  refine ExceptT.ext (StateT.ext fun s => ?_)
  obtain ⟨hmatched, hstate⟩ := h s
  exact (Prod.ext (matched_map_iff.mp hmatched) hstate).trans (run_map f d s).symm

end Coupled

end Cantilena
