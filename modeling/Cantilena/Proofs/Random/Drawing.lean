import Cantilena.Proofs.Number.Amounts
import Cantilena.Random.Source

/-!
# What is drawn

A drawing that ends in no fault, whatever is drawn, yields values; what holds of all of them is
said by `Yields`. The rules of this file take a drawing apart into its steps.

* `Yields` -- from every state a drawing has a result, and every result has a property;
* `Source.AlwaysPicks` -- a source that picks one of several things whenever it is asked to;
* `Yields.bind`, `Yields.foldlM` -- one step after another, and a walk with an invariant;
* `yields_draw`, `yields_choose`, `yields_weightedFrom` -- the draws themselves.
-/

namespace Cantilena

variable {σ α β : Type}

/-! ## 1. Steps -/

/-- A drawing that has a result goes on from it and from the state it leaves. -/
theorem run_bind_of_ok {d : Drawing σ α} {f : α → Drawing σ β} {s s' : σ} {a : α}
    (h : d.run s = (.ok a, s')) : (d >>= f).run s = (f a).run s' := by
  unfold ExceptT.run at *
  show StateT.bind d (ExceptT.bindCont f) s = _
  unfold StateT.bind
  show (d s >>= _) = _
  rw [h]
  rfl

/-- From every state of chance a drawing has a result, and every result has a property. -/
def Yields (d : Drawing σ α) (P : α → Prop) : Prop :=
  ∀ s, ∃ a s', d.run s = (.ok a, s') ∧ P a

namespace Yields

variable {P Q : α → Prop} {R : β → Prop}

theorem pure {a : α} (h : P a) : Yields (σ := σ) (Pure.pure a) P :=
  fun s => ⟨a, s, rfl, h⟩

/-- What needs nothing drawn and has a result yields it. -/
theorem ofExcept {x : Except Fault α} {a : α} (hx : x = .ok a) (h : P a) :
    Yields (σ := σ) (liftM x) P := by
  subst hx
  exact pure h

theorem mono {d : Drawing σ α} (hd : Yields d P) (h : ∀ a, P a → Q a) : Yields d Q := by
  intro s
  obtain ⟨a, s', hs, ha⟩ := hd s
  exact ⟨a, s', hs, h a ha⟩

/-- **One step after another.** -/
theorem bind {d : Drawing σ α} {f : α → Drawing σ β} (hd : Yields d P)
    (hf : ∀ a, P a → Yields (f a) R) : Yields (d >>= f) R := by
  intro s
  obtain ⟨a, s₁, hs, ha⟩ := hd s
  obtain ⟨b, s₂, hs', hb⟩ := hf a ha s₁
  refine ⟨b, s₂, ?_, hb⟩
  rw [run_bind_of_ok hs, hs']

/-- **One of two steps, and what follows either.** -/
theorem ite_bind {p : Prop} [Decidable p] {d e : Drawing σ α} {f : α → Drawing σ β}
    (hd : p → Yields d P) (he : ¬ p → Yields e P) (hf : ∀ a, P a → Yields (f a) R) :
    Yields (if p then d >>= f else e >>= f) R := by
  split
  · rename_i h
    exact (hd h).bind hf
  · rename_i h
    exact (he h).bind hf

/-- A walk over values keeps what each of its steps keeps. -/
theorem foldlM {f : β → α → Drawing σ β} {l : List α} {b : β} (hb : R b)
    (hf : ∀ b, R b → ∀ a ∈ l, Yields (f b a) R) : Yields (l.foldlM f b) R := by
  induction l generalizing b with
  | nil => exact pure hb
  | cons a l ih =>
    rw [List.foldlM_cons]
    refine bind (hf b hb a List.mem_cons_self) fun b' hb' => ?_
    exact ih hb' fun b hb a ha => hf b hb a (List.mem_cons_of_mem _ ha)

end Yields

/-! ## 2. Draws -/

/-- A source that always picks one of the things it is offered. -/
def Source.AlwaysPicks (src : Source σ) : Prop := ∀ n s, (src.pick n s).1.isSome = true

/-- A source that gives the same number every time and always picks the first thing. -/
def Source.fixed (x : Float) : Source Unit := ⟨fun s => (x, s), fun _ s => (some 0, s)⟩

theorem Source.alwaysPicks_fixed (x : Float) : (fixed x).AlwaysPicks := fun _ _ => rfl

section

variable {src : Source σ}

theorem yields_draw : Yields src.draw fun _ => True :=
  fun s => ⟨(src.unit s).1, (src.unit s).2, rfl, trivial⟩

theorem yields_chance {probability : Float} : Yields (src.chance probability) fun _ => True :=
  yields_draw.bind fun _ _ => .pure trivial

theorem yields_place (h : src.AlwaysPicks) {kind : String} {n : Nat} :
    Yields (src.place kind n) fun _ => True := by
  intro s
  obtain ⟨i, hi⟩ := Option.isSome_iff_exists.mp (h n s)
  have hpick : (ExceptT.lift (src.pick n) : Drawing σ _).run s
      = (.ok (some i), (src.pick n s).2) := by
    rw [← hi]
    rfl
  exact ⟨i, (src.pick n s).2, run_bind_of_ok hpick, trivial⟩

theorem yields_chooseFrom (h : src.AlwaysPicks) {kind : String} {first : α} {others : List α} :
    Yields (src.chooseFrom kind first others) fun a => a ∈ first :: others :=
  (yields_place h).bind fun i _ => .pure (List.get_mem (first :: others) i)

theorem yields_choose (h : src.AlwaysPicks) {first : α} {others : List α} :
    Yields (src.choose first others) fun a => a ∈ first :: others :=
  yields_chooseFrom h

end

/-! ## 3. Choices by weight -/

/-- Whether a weight is a binary floating-point number. Such weights always add up. -/
def IsReal (a : Amount) : Prop := ∃ x, a = .real x

theorem plus_real {sum : Amount} (h : IsReal sum ∨ sum = .whole 0) (x : Float) :
    ∃ y, sum.plus (.real x) = .ok (.real y) := by
  rw [plus_of_real (.inr ⟨x, rfl⟩)]
  rcases h with ⟨y, rfl⟩ | rfl
  · exact ⟨y + x, rfl⟩
  · rw [toFloat_zero]
    exact ⟨Float.ofInt 0 + x, rfl⟩

/-- Weights that are floating-point numbers add up to one. -/
theorem total_real {options : List (α × Amount)} (h : ∀ o ∈ options, IsReal o.2)
    (hne : options ≠ []) : ∃ x, Source.total options = .ok (.real x) := by
  have hsums {sum : Amount} (hs : IsReal sum) : ∀ {options : List (α × Amount)},
      (∀ o ∈ options, IsReal o.2) →
      ∃ x, options.foldlM (fun sum o => Amount.plus sum o.2) sum = .ok (.real x) := by
    intro options h
    induction options generalizing sum with
    | nil =>
      obtain ⟨x, rfl⟩ := hs
      exact ⟨x, rfl⟩
    | cons o options ih =>
      obtain ⟨x, hx⟩ := h o List.mem_cons_self
      obtain ⟨y, hy⟩ := plus_real (Or.inl hs) x
      rw [List.foldlM_cons, hx, hy]
      exact ih ⟨y, rfl⟩ fun o ho => h o (List.mem_cons_of_mem _ ho)
  obtain ⟨o, options, rfl⟩ := List.exists_cons_of_ne_nil hne
  obtain ⟨x, hx⟩ := h o List.mem_cons_self
  obtain ⟨y, hy⟩ := plus_real (Or.inr rfl) x
  rw [Source.total, List.foldlM_cons, hx, hy]
  exact hsums ⟨y, rfl⟩ fun o ho => h o (List.mem_cons_of_mem _ ho)

theorem reach_real (threshold sum : Float) {first : α × Amount} {others : List (α × Amount)}
    (h : ∀ o ∈ first :: others, IsReal o.2) :
    ∃ a ∈ (first :: others).map (·.1), Source.reach threshold sum first others = .ok a := by
  induction others generalizing first sum with
  | nil =>
    obtain ⟨x, hx⟩ := h first List.mem_cons_self
    refine ⟨first.1, List.mem_cons_self, ?_⟩
    rw [Source.reach, hx]
    rfl
  | cons second others ih =>
    obtain ⟨x, hx⟩ := h first List.mem_cons_self
    have hsum : Amount.addTo sum first.2 = .ok (sum + x) := by
      rw [hx]
      rfl
    obtain ⟨a, ha, hr⟩ := ih (sum + x) fun o ho => h o (List.mem_cons_of_mem _ ho)
    by_cases hs : sum + x ≥ threshold
    · refine ⟨first.1, List.mem_cons_self, ?_⟩
      rw [Source.reach, hsum]
      show (if sum + x ≥ threshold then Except.ok first.1 else _) = _
      rw [if_pos hs]
    · refine ⟨a, List.mem_cons_of_mem _ ha, ?_⟩
      rw [Source.reach, hsum, ← hr]
      show (if sum + x ≥ threshold then Except.ok first.1 else _) = _
      rw [if_neg hs]

/-- A choice by weights that are floating-point numbers yields one of the values. -/
theorem yields_weightedFrom {src : Source σ} {first : α × Amount} {others : List (α × Amount)}
    (h : ∀ o ∈ first :: others, IsReal o.2) :
    Yields (src.weightedFrom first others) fun a => a ∈ (first :: others).map (·.1) := by
  obtain ⟨sum, hsum⟩ := total_real h (List.cons_ne_nil _ _)
  refine (Yields.ofExcept hsum (P := fun t => t = .real sum) rfl).bind ?_
  rintro _ rfl
  refine yields_draw.bind fun x _ => ?_
  have hthreshold : (Amount.real sum).toFloat.map (x * ·) = .ok (x * sum) := rfl
  refine (Yields.ofExcept hthreshold (P := fun _ => True) trivial).bind fun threshold _ => ?_
  obtain ⟨a, ha, hr⟩ := reach_real threshold 0.0 h
  exact .ofExcept hr ha

end Cantilena
