import Cantilena.Proofs.Outcome
import Cantilena.Proofs.Random.Coupled

/-!
# The results of drawings

A drawing may end with a fault, and from a source that picks nothing it often will. What holds of its
results, whenever there is one, is said by `Ensures`.

* `run_bind_eq_ok` -- the results of one step after another;
* `Ensures` -- every result of a drawing has a property;
* `Ensures.bind`, `Ensures.foldlM` -- one step after another, and a walk with an invariant;
* `ensures_choose`, `ensures_weightedFrom` -- what is chosen is one of the values.
-/

namespace Cantilena

variable {σ α β : Type}

/-- A drawing with a step behind it has a result where it has one itself, and the step has one from the
    state it leaves. -/
theorem run_bind_eq_ok {d : Drawing σ α} {f : α → Drawing σ β} {s s' : σ} {b : β} :
    (d >>= f).run s = (.ok b, s')
      ↔ ∃ a s₁, d.run s = (.ok a, s₁) ∧ (f a).run s₁ = (.ok b, s') := by
  constructor
  · intro h
    rw [run_bind] at h
    generalize hrun : d.run s = result at h
    obtain ⟨outcome, s₁⟩ := result
    cases outcome with
    | ok a => exact ⟨a, s₁, rfl, h⟩
    | error e => cases h
  · rintro ⟨a, s₁, hd, hf⟩
    rw [run_bind_of_ok hd, hf]

/-- Every result of a drawing has a property, from whatever state it is drawn. -/
def Ensures (d : Drawing σ α) (P : α → Prop) : Prop := ∀ s a, (d.run s).1 = .ok a → P a

namespace Ensures

variable {P Q : α → Prop} {R : β → Prop}

theorem any (d : Drawing σ α) : Ensures d fun _ => True := fun _ _ _ => trivial

theorem pure {a : α} (h : P a) : Ensures (σ := σ) (Pure.pure a) P :=
  fun _ _ hrun => Except.ok.inj hrun ▸ h

theorem ofExcept {x : Except Fault α} (h : ∀ a, x = .ok a → P a) :
    Ensures (σ := σ) (liftM x) P := by
  cases x with
  | ok a => exact pure (h a rfl)
  | error e => exact fun _ _ hrun => by cases hrun

theorem mono {d : Drawing σ α} (hd : Ensures d P) (h : ∀ a, P a → Q a) : Ensures d Q :=
  fun s a hrun => h a (hd s a hrun)

theorem and {d : Drawing σ α} (hd : Ensures d P) (he : Ensures d Q) :
    Ensures d fun a => P a ∧ Q a :=
  fun s a hrun => ⟨hd s a hrun, he s a hrun⟩

/-- **One step after another.** -/
theorem bind {d : Drawing σ α} {f : α → Drawing σ β} (hd : Ensures d P)
    (hf : ∀ a, P a → Ensures (f a) R) : Ensures (d >>= f) R := by
  intro s b hrun
  rw [run_bind] at hrun
  cases hresult : (d.run s).1 with
  | ok a =>
    rw [hresult] at hrun
    exact hf a (hd s a hresult) _ b hrun
  | error e =>
    rw [hresult] at hrun
    cases hrun

/-- What follows a step of which nothing needs to be known. -/
theorem bind_any {d : Drawing σ α} {f : α → Drawing σ β} (hf : ∀ a, Ensures (f a) R) :
    Ensures (d >>= f) R :=
  (any d).bind fun a _ => hf a

theorem ite {p : Prop} [Decidable p] {d e : Drawing σ α} (hd : p → Ensures d P)
    (he : ¬ p → Ensures e P) : Ensures (if p then d else e) P := by
  split
  · rename_i h
    exact hd h
  · rename_i h
    exact he h

/-- A walk over values keeps what each of its steps keeps. -/
theorem foldlM {f : β → α → Drawing σ β} {l : List α} {b : β} (hb : R b)
    (hf : ∀ b, R b → ∀ a ∈ l, Ensures (f b a) R) : Ensures (l.foldlM f b) R := by
  induction l generalizing b with
  | nil => exact pure hb
  | cons a l ih =>
    rw [List.foldlM_cons]
    refine bind (hf b hb a List.mem_cons_self) fun b' hb' => ?_
    exact ih hb' fun b hb a ha => hf b hb a (List.mem_cons_of_mem _ ha)

end Ensures

section

variable {src : Source σ}

theorem ensures_chooseFrom {kind : String} {first : α} {others : List α} :
    Ensures (src.chooseFrom kind first others) fun a => a ∈ first :: others :=
  .bind_any fun i => .pure (List.get_mem (first :: others) i)

theorem ensures_choose {first : α} {others : List α} :
    Ensures (src.choose first others) fun a => a ∈ first :: others :=
  ensures_chooseFrom

theorem mem_of_reach_eq_ok {threshold sum : Float} {first : α × Amount}
    {others : List (α × Amount)} {a : α} (h : Source.reach threshold sum first others = .ok a) :
    a ∈ (first :: others).map (·.1) := by
  induction others generalizing first sum with
  | nil =>
    obtain ⟨_, -, rfl⟩ := map_eq_ok.mp h
    exact List.mem_cons_self
  | cons second others ih =>
    obtain ⟨more, -, h⟩ := bind_eq_ok.mp h
    split at h
    · obtain rfl := pure_eq_ok.mp h
      exact List.mem_cons_self
    · exact List.mem_cons_of_mem _ (ih h)

theorem ensures_weightedFrom {first : α × Amount} {others : List (α × Amount)} :
    Ensures (src.weightedFrom first others) fun a => a ∈ (first :: others).map (·.1) :=
  .bind_any fun _ => .bind_any fun _ => .bind_any fun _ => .ofExcept fun _ h =>
    mem_of_reach_eq_ok h

end

end Cantilena
