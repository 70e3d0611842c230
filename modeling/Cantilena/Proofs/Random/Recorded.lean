import Cantilena.Proofs.Random.Results

/-!
# Drawings beside a record

What a drawing does on its way cannot be seen from its result. A second drawing can do the same and
keep a record of it, next to the state of chance. It stands for the first one if it comes to the same
outcome and leaves the same state, whatever the record holds.

* `silently`, `record` -- a drawing that leaves the record alone, and one more entry;
* `Records` -- a drawing that does as another one does, and records what has a property;
* `Records.bind`, `Records.foldlM` -- one step after another, and a walk with an invariant;
* `YieldsBeside` -- the same of a drawing that has a result, with what holds of the result and of all
  the entries that were made on the way.
-/

namespace Cantilena

variable {σ κ α β : Type}

/-- A drawing beside a record that it leaves alone. -/
def silently (d : Drawing σ α) : Drawing (σ × List κ) α :=
  ExceptT.mk fun beside => ((d.run beside.1).1, ((d.run beside.1).2, beside.2))

/-- One more entry in a record. -/
def record (entry : κ) : Drawing (σ × List κ) Unit :=
  ExceptT.mk fun beside => (.ok (), (beside.1, beside.2 ++ [entry]))

/-- From every state the first drawing has the outcome of the second one and leaves the state that
    the second one leaves, and it adds entries with a property to the record. -/
def Records (P : κ → Prop) (e : Drawing (σ × List κ) α) (d : Drawing σ α) : Prop :=
  ∀ s entries, ∃ more, e.run (s, entries) = ((d.run s).1, ((d.run s).2, entries ++ more))
    ∧ ∀ entry ∈ more, P entry

namespace Records

variable {P : κ → Prop} {R : β → Prop}

theorem silently (d : Drawing σ α) : Records P (silently d) d :=
  fun s entries => ⟨[], by rw [List.append_nil]; rfl, nofun⟩

theorem pure (a : α) : Records (σ := σ) P (Pure.pure a) (Pure.pure a) := silently (Pure.pure a)

theorem ofExcept (x : Except Fault α) : Records (σ := σ) P (liftM x) (liftM x) := by
  cases x with
  | ok a => exact pure a
  | error e => exact silently (throw e)

/-- **One step after another**, the second one after each result that the first one can have. -/
theorem bind {e : Drawing (σ × List κ) α} {d : Drawing σ α} {g : α → Drawing (σ × List κ) β}
    {f : α → Drawing σ β} {Q : α → Prop} (hd : Ensures d Q) (he : Records P e d)
    (hfg : ∀ a, Q a → Records P (g a) (f a)) : Records P (e >>= g) (d >>= f) := by
  intro s entries
  obtain ⟨more, hrun, hmore⟩ := he s entries
  rw [run_bind, run_bind, hrun]
  cases hresult : (d.run s).1 with
  | error cause => exact ⟨more, rfl, hmore⟩
  | ok a =>
    obtain ⟨others, hothers, hall⟩ := hfg a (hd s a hresult) (d.run s).2 (entries ++ more)
    refine ⟨more ++ others, ?_, fun entry hentry => ?_⟩
    · simp only
      rw [hothers, List.append_assoc]
    · exact (List.mem_append.mp hentry).elim (hmore entry) (hall entry)

theorem bind_any {e : Drawing (σ × List κ) α} {d : Drawing σ α} {g : α → Drawing (σ × List κ) β}
    {f : α → Drawing σ β} (he : Records P e d) (hfg : ∀ a, Records P (g a) (f a)) :
    Records P (e >>= g) (d >>= f) :=
  bind (.any d) he fun a _ => hfg a

/-- **An entry with the property may be made at any point.** -/
theorem record_bind {entry : κ} (hentry : P entry) {e : Drawing (σ × List κ) α} {d : Drawing σ α}
    (he : Records P e d) : Records P (record entry >>= fun _ => e) d := by
  intro s entries
  obtain ⟨more, hrun, hmore⟩ := he s (entries ++ [entry])
  refine ⟨entry :: more, ?_, List.forall_mem_cons.mpr ⟨hentry, hmore⟩⟩
  rw [run_bind]
  show e.run (s, entries ++ [entry]) = _
  rw [hrun, List.append_assoc]
  rfl

theorem ite {p : Prop} [Decidable p] {e e' : Drawing (σ × List κ) α} {d d' : Drawing σ α}
    (h : p → Records P e d) (h' : ¬ p → Records P e' d') :
    Records P (if p then e else e') (if p then d else d') := by
  split
  · rename_i hp
    exact h hp
  · rename_i hp
    exact h' hp

/-- A walk over values records what each of its steps does. -/
theorem foldlM {f : β → α → Drawing σ β} {g : β → α → Drawing (σ × List κ) β} {l : List α} {b : β}
    (hb : R b) (hf : ∀ b, R b → ∀ a ∈ l, Ensures (f b a) R)
    (hfg : ∀ b, R b → ∀ a ∈ l, Records P (g b a) (f b a)) :
    Records P (l.foldlM g b) (l.foldlM f b) := by
  induction l generalizing b with
  | nil => exact pure b
  | cons a l ih =>
    rw [List.foldlM_cons, List.foldlM_cons]
    refine bind (hf b hb a List.mem_cons_self) (hfg b hb a List.mem_cons_self) fun b' hb' => ?_
    exact ih hb' (fun b hb a ha => hf b hb a (List.mem_cons_of_mem _ ha))
      fun b hb a ha => hfg b hb a (List.mem_cons_of_mem _ ha)

end Records

/-! ## Results and entries -/

/-- Whatever is drawn, a drawing has a result, and another one beside a record has the same and leaves
    the same state; the entries it adds are the same whatever the record holds. This is what holds of
    the result and of these entries. -/
def YieldsBeside (e : Drawing (σ × List κ) α) (d : Drawing σ α) (R : α → List κ → Prop) : Prop :=
  ∀ s, ∃ a s' more, d.run s = (.ok a, s')
    ∧ (∀ entries, e.run (s, entries) = (.ok a, (s', entries ++ more))) ∧ R a more

namespace YieldsBeside

variable {P : α → Prop} {Q : α → List κ → Prop} {R : β → List κ → Prop}

theorem pure {a : α} (h : Q a []) :
    YieldsBeside (σ := σ) (Pure.pure a) (Pure.pure a) Q :=
  fun s => ⟨a, s, [], rfl, fun entries => by rw [List.append_nil]; rfl, h⟩

/-- What yields a result yields it beside a record as well. -/
theorem silently {d : Drawing σ α} (hd : Yields d fun a => Q a []) :
    YieldsBeside (Cantilena.silently d) d Q := by
  intro s
  obtain ⟨a, s', hrun, ha⟩ := hd s
  refine ⟨a, s', [], hrun, fun entries => ?_, ha⟩
  rw [List.append_nil]
  show ((d.run s).1, ((d.run s).2, entries)) = _
  rw [hrun]

theorem mono {e : Drawing (σ × List κ) α} {d : Drawing σ α} {Q' : α → List κ → Prop}
    (hd : YieldsBeside e d Q) (h : ∀ a more, Q a more → Q' a more) : YieldsBeside e d Q' := by
  intro s
  obtain ⟨a, s', more, hrun, hrecord, ha⟩ := hd s
  exact ⟨a, s', more, hrun, hrecord, h a more ha⟩

/-- **One step after another**: the entries of the second one come behind those of the first. -/
theorem bind {e : Drawing (σ × List κ) α} {d : Drawing σ α} {g : α → Drawing (σ × List κ) β}
    {f : α → Drawing σ β} (hd : YieldsBeside e d Q)
    (hf : ∀ a more, Q a more → YieldsBeside (g a) (f a) fun b others => R b (more ++ others)) :
    YieldsBeside (e >>= g) (d >>= f) R := by
  intro s
  obtain ⟨a, s₁, more, hrun, hrecord, ha⟩ := hd s
  obtain ⟨b, s₂, others, hrun', hrecord', hb⟩ := hf a more ha s₁
  refine ⟨b, s₂, more ++ others, ?_, fun entries => ?_, hb⟩
  · rw [run_bind_of_ok hrun, hrun']
  · rw [run_bind_of_ok (hrecord entries), hrecord', List.append_assoc]

/-- A step that makes no entry, and what follows it. -/
theorem silently_bind {d : Drawing σ α} {g : α → Drawing (σ × List κ) β} {f : α → Drawing σ β}
    (hd : Yields d P) (hf : ∀ a, P a → YieldsBeside (g a) (f a) R) :
    YieldsBeside (Cantilena.silently d >>= g) (d >>= f) R :=
  bind (Q := fun a more => P a ∧ more = []) (silently (hd.mono fun _ ha => ⟨ha, rfl⟩))
    fun a more h => by
      rw [h.2]
      exact hf a h.1

theorem ite {p : Prop} [Decidable p] {e e' : Drawing (σ × List κ) α} {d d' : Drawing σ α}
    (h : p → YieldsBeside e d Q) (h' : ¬ p → YieldsBeside e' d' Q) :
    YieldsBeside (if p then e else e') (if p then d else d') Q := by
  split
  · rename_i hp
    exact h hp
  · rename_i hp
    exact h' hp

/-- What needs nothing drawn, and what follows its result. -/
theorem ofExcept_bind {x : Except Fault α} {a : α} (hx : x = .ok a)
    {g : α → Drawing (σ × List κ) β} {f : α → Drawing σ β} (hf : YieldsBeside (g a) (f a) R) :
    YieldsBeside ((liftM x : Drawing (σ × List κ) α) >>= g) ((liftM x : Drawing σ α) >>= f) R := by
  subst hx
  exact hf

/-- An entry that is made in front of what follows. -/
theorem record_bind {entry : κ} {e : Drawing (σ × List κ) α} {d : Drawing σ α}
    (hd : YieldsBeside e d fun a more => Q a (entry :: more)) :
    YieldsBeside (record entry >>= fun _ => e) d Q := by
  intro s
  obtain ⟨a, s', more, hrun, hrecord, ha⟩ := hd s
  refine ⟨a, s', entry :: more, hrun, fun entries => ?_, ha⟩
  have hentry : (record entry).run (s, entries) = (.ok (), (s, entries ++ [entry])) := rfl
  rw [run_bind_of_ok hentry, hrecord, List.append_assoc]
  rfl

end YieldsBeside

end Cantilena
