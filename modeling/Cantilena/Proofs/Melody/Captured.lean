import Cantilena.Proofs.Melody.Classes

/-!
# What a phrase does to its motif

A motif is written in one place only: where a question chooses a class for a slot anew, it stores this
class under the number of the slot. Every other slot hands the motif on as it is.

* `Motif.stored`, `Motif.Grows` -- the class under a slot, and motifs that hold all slots of another one
  and are new or changed under some slots only, with some classes only;
* `Composer.MayChoose`, `ensures_mayChoose` -- the classes that are chosen: those of the scale, unless
  others are allowed;
* `Composer.Captures`, `ensures_captures_soundSlot`, `ensures_stores_soundSlot` -- what one slot does to a
  motif;
* `Composer.drawSlots`, `grows_of_writeBar` -- the slots of a bar, and what they do;
* `Composer.IsDrawn`, `grows_of_writePhrase` -- what a phrase does.
-/

namespace Cantilena

variable {σ : Type} {src : Source σ}

/-! ## 1. What a motif holds -/

namespace Motif

/-- The class that is stored under a slot. -/
def stored (m : Motif) (slot : Int) : Option Int := m.notes.lookup slot

theorem lookup_cons_eq (other : Int) (n : Int × Int) (rest : List (Int × Int)) :
    (n :: rest).lookup other = if other = n.1 then some n.2 else rest.lookup other := by
  rw [List.lookup_cons]
  by_cases h : other = n.1
  · rw [if_pos h, beq_iff_eq.mpr h]
  · rw [if_neg h, beq_false_of_ne h]

theorem lookup_put (slot pc other : Int) (l : List (Int × Int)) :
    (put slot pc l).lookup other = if other = slot then some pc else l.lookup other := by
  induction l with
  | nil => exact lookup_cons_eq ..
  | cons n rest ih =>
    obtain ⟨own, old⟩ := n
    rw [put, lookup_cons_eq]
    by_cases hown : own = slot
    · rw [if_pos hown, lookup_cons_eq, hown]
      by_cases h : other = slot
      · rw [if_pos h, if_pos h]
      · rw [if_neg h, if_neg h, if_neg h]
    · rw [if_neg hown, lookup_cons_eq, ih]
      by_cases h : other = own
      · rw [if_pos h, if_pos h, if_neg (h.trans_ne hown)]
      · rw [if_neg h, if_neg h]

/-- **Storing changes one slot only.** -/
theorem stored_store (m : Motif) (slot pc other : Int) :
    (m.store slot pc).stored other = if other = slot then some (pc % 12) else m.stored other :=
  lookup_put ..

/-- That a motif holds every slot of another one, and that each slot it does not share with this one, or
    not with the same class, is one of some slots and has one of some classes. -/
structure Grows (slots classes : Int → Prop) (m m' : Motif) : Prop where
  kept : ∀ slot, (m.stored slot).isSome = true → (m'.stored slot).isSome = true
  fresh : ∀ slot pc, m'.stored slot = some pc → m.stored slot ≠ some pc → slots slot ∧ classes pc

namespace Grows

variable {slots slots' classes : Int → Prop} {m m₁ m₂ : Motif}

theorem refl (slots classes : Int → Prop) (m : Motif) : m.Grows slots classes m :=
  ⟨fun _ h => h, fun _ _ h hne => absurd h hne⟩

theorem mono (h : m.Grows slots classes m₁) (hslots : ∀ slot, slots slot → slots' slot) :
    m.Grows slots' classes m₁ :=
  ⟨h.kept, fun slot pc hpc hne => (h.fresh slot pc hpc hne).imp_left (hslots slot)⟩

/-- **One growth after another.** -/
theorem trans (h : m.Grows slots classes m₁) (h' : m₁.Grows slots classes m₂) :
    m.Grows slots classes m₂ := by
  refine ⟨fun slot hslot => h'.kept slot (h.kept slot hslot), fun slot pc hpc hne => ?_⟩
  by_cases hbetween : m₁.stored slot = some pc
  · exact h.fresh slot pc hbetween hne
  · exact h'.fresh slot pc hpc hbetween

theorem store {slot pc : Int} (hslot : slots slot) (hpc : classes (pc % 12)) :
    m.Grows slots classes (m.store slot pc) := by
  constructor
  · intro other hother
    rw [stored_store]
    split
    · rfl
    · exact hother
  · intro other found hfound hne
    rw [stored_store] at hfound
    split at hfound
    · rename_i hown
      obtain rfl := Option.some.inj hfound
      exact ⟨hown ▸ hslot, hpc⟩
    · exact absurd hfound hne

/-- A property of all classes of a motif is one of the grown motif too, if all new classes have it. -/
theorem forall_stored (h : m.Grows slots classes m₁) {K : Int → Prop} (hK : ∀ pc, classes pc → K pc)
    (hm : ∀ slot pc, m.stored slot = some pc → K pc) : ∀ slot pc, m₁.stored slot = some pc → K pc := by
  intro slot pc hpc
  by_cases hold : m.stored slot = some pc
  · exact hm slot pc hold
  · exact hK pc (h.fresh slot pc hpc hold).2

end Grows

end Motif

namespace Composer

variable {c : Composer Int}

/-! ## 2. The classes that are chosen -/

/-- That a class may be chosen for a slot: it is one of the twelve, and one of the scale unless others
    are allowed. -/
def MayChoose (c : Composer Int) (pc : Int) : Prop :=
  IsClass pc ∧ (c.params.allowChromatic = false → pc ∈ c.key.classes)

theorem snap_mem (hk : c.key.Sound) (pitch : Int) : c.key.snap pitch % 12 ∈ c.key.classes :=
  (hk.isNearest pitch).mem

section

variable (hk : c.key.Sound) (hscale : c.params.allowChromatic = false)
include hk

theorem ensures_cadenceTone_mem (chord : Chord) :
    Ensures (c.cadenceTone src chord) (· ∈ c.key.classes) :=
  .bind_any fun _ => .pure (snap_mem hk _)

include hscale

theorem ensures_chordTone_mem (chord : Chord) (strong : Bool) :
    Ensures (c.chordTone src chord strong) (· ∈ c.key.classes) := by
  unfold chordTone
  simp only
  split
  · split
    · exact .pure (snap_mem hk _)
    · rename_i first others hfilter
      refine ensures_choose.mono fun pc hpc => ?_
      rw [← hfilter] at hpc
      exact of_decide_eq_true (List.mem_filter.mp hpc).2
  · -- a tone of the chord stays as it is only where classes beside the scale are allowed
    rw [hscale, Bool.false_and, if_neg Bool.false_ne_true]
    refine .bind (P := fun free => free = false) (.pure rfl) ?_
    rintro _ rfl
    exact .bind_any fun pc => .pure (snap_mem hk pc)

/-- **Every class that is chosen is one of the scale**, where no others are allowed: a tone of the chord
    in the scale, one that is put on the scale, the root or the tonic put on it, or a tone of the
    scale. -/
theorem ensures_targetClass_mem (chord : Chord) (step : Nat) (role : Role) :
    Ensures (c.targetClass src chord step role) (· ∈ c.key.classes) :=
  ensures_targetClass_of (ensures_cadenceTone_mem hk chord) (ensures_chordTone_mem hk hscale chord _)
    (ensures_scaleTone_mem hk)

end

/-! ## 3. Slots -/

/-- What a slot may do to a motif: leave it as it is or, in a question, store a class that may be
    chosen. -/
def Captures (c : Composer Int) (role : Role) (slot : Int) (m m' : Motif) : Prop :=
  m' = m ∨ role = .question ∧ ∃ pc, c.MayChoose pc ∧ m' = m.store slot pc

namespace Captures

variable {role : Role} {slot : Int} {m m' : Motif}

theorem eq_of_ne (h : c.Captures role slot m m') (hrole : role ≠ .question) : m' = m :=
  h.resolve_right fun hquestion => hrole hquestion.1

theorem grows (h : c.Captures role slot m m') {slots : Int → Prop} (hslot : slots slot) :
    m.Grows slots c.MayChoose m' := by
  rcases h with rfl | ⟨-, pc, hpc, rfl⟩
  · exact .refl slots c.MayChoose m'
  · refine .store hslot ?_
    rwa [Int.emod_eq_of_lt hpc.1.1 hpc.1.2]

end Captures

section

variable (hk : c.key.Sound)
include hk

/-- **A class that is chosen for a slot may be.** -/
theorem ensures_mayChoose (chord : Chord) (step : Nat) (role : Role) :
    Ensures (c.targetClass src chord step role) c.MayChoose := by
  cases hscale : c.params.allowChromatic with
  | true =>
    refine (ensures_targetClass hk chord step role).mono fun pc hpc => ⟨hpc, fun hnot => ?_⟩
    rw [hscale] at hnot
    cases hnot
  | false =>
    refine ((ensures_targetClass hk chord step role).and
      (ensures_targetClass_mem hk hscale chord step role)).mono fun pc hpc => ?_
    exact ⟨hpc.1, fun _ => hpc.2⟩

/-- **A slot stores nothing but what it chooses in a question.** -/
theorem ensures_captures_aim (bar : Bar Int) (i : Nat) (slot : Slot) (motif : Motif) :
    Ensures (c.aim src bar i slot motif) fun aimed => c.Captures bar.role i motif aimed.2 := by
  refine ensures_aim_of ?_ fun _ _ _ => ⟨.inl rfl, fun _ _ => .inl rfl⟩
  refine (ensures_mayChoose hk bar.chord slot.step bar.role).mono fun pc hpc => ?_
  by_cases hrole : bar.role = .question
  · rw [if_pos hrole]
    exact .inr ⟨hrole, pc, hpc, rfl⟩
  · rw [if_neg hrole]
    exact .inl rfl

/-- **What a slot that sounds does to the motif of a line.** -/
theorem ensures_captures_soundSlot {bar : Bar Int} {i : Nat} {slot : Slot} {line : Line Note Int} :
    Ensures (c.soundSlot src bar i slot line) fun line' =>
      c.Captures bar.role i line.motif line'.motif :=
  ensures_motif_soundSlot (ensures_captures_aim hk bar i slot line.motif)

/-- **A question stores what it chooses**: every slot that sounds does, unless the motif is replayed and
    holds a class for it. -/
theorem ensures_stores_soundSlot {bar : Bar Int} {i : Nat} {slot : Slot} {line : Line Note Int}
    (hrole : bar.role = .question)
    (hnone : bar.replays = true → line.motif.classAt i = .ok none) :
    Ensures (c.soundSlot src bar i slot line) fun line' =>
      ∃ pc, c.MayChoose pc ∧ line'.motif = line.motif.store i pc := by
  refine ensures_motif_soundSlot
    (P := fun motif => ∃ pc, c.MayChoose pc ∧ motif = line.motif.store i pc) ?_
  refine ensures_aim_of ?_ fun pc hreplays hpc => ?_
  · refine (ensures_mayChoose hk bar.chord slot.step bar.role).mono fun pc hpc => ⟨pc, hpc, ?_⟩
    rw [if_pos hrole]
  · rw [hnone hreplays] at hpc
    cases hpc

theorem ensures_captures_writeSlot {bar : Bar Int} {slot : Slot × Nat} {line : Line Note Int} :
    Ensures (c.writeSlot src bar line slot) fun line' =>
      c.Captures bar.role slot.2 line.motif line'.motif := by
  unfold writeSlot
  refine .bind_any fun x => .ite (fun _ => .pure (.inl rfl)) fun _ => ?_
  exact .bind_any fun y => .ite (fun _ => .pure (.inl rfl)) fun _ => ensures_captures_soundSlot hk

/-- What the slots of a bar do to the motif of a line, one after the other. -/
theorem ensures_grows_slots (bar : Bar Int) (slots : List Slot) (line : Line Note Int) :
    Ensures (slots.zipIdx.foldlM (c.writeSlot src bar) line) fun line' =>
      (bar.role ≠ .question → line'.motif = line.motif)
        ∧ line.motif.Grows (fun slot => 0 ≤ slot ∧ slot < slots.length) c.MayChoose line'.motif := by
  refine .foldlM ⟨fun _ => rfl, .refl _ c.MayChoose line.motif⟩ ?_
  rintro line₁ ⟨hsame, hgrows⟩ ⟨slot, i⟩ hslot
  refine (ensures_captures_writeSlot hk).mono fun line₂ hcaptures => ⟨fun hrole => ?_, ?_⟩
  · exact (hcaptures.eq_of_ne hrole).trans (hsame hrole)
  · have hi : i < slots.length := (List.mem_zipIdx' hslot).1
    exact hgrows.trans (hcaptures.grows ⟨Int.natCast_nonneg i, Int.ofNat_lt.mpr hi⟩)

end

/-! ## 4. Bars -/

/-- The slots of a bar, which are drawn before anything else: those of a rhythm of the genre, without
    syncopation only those on even steps, as far as they fall in the bar. -/
def drawSlots (src : Source σ) (c : Composer Int) : Drawing σ (List Slot) := do
  let rhythm ← src.chooseFrom "tuple" c.params.genre.firstRhythm c.params.genre.otherRhythms
  let syncopated ← src.chance c.params.tendencies.syncopation.value
  return c.slotsOf rhythm syncopated

/-- A bar is written by drawing its slots first. -/
theorem writeBar_eq (role : Role) (line : Line Note Int) (bar : Option Chord × Int) :
    c.writeBar src role line bar = (do
      let slots ← c.drawSlots src
      let replays ← (if line.motif.isEmpty then pure false
        else src.chance c.params.tendencies.motifReuse.value : Drawing σ Bool)
      slots.zipIdx.foldlM
        (c.writeSlot src ⟨c.tickOfBar bar.2, bar.1.getD fallbackChord, role, replays⟩) line) := by
  have htick : (liftM (settled (c.tickOfBar bar.2)) : Drawing σ Int) = pure (c.tickOfBar bar.2) := rfl
  unfold writeBar drawSlots
  simp only [htick, bind_assoc, pure_bind]
  refine bind_congr fun rhythm => bind_congr fun syncopated => ?_
  split
  · rw [pure_bind]
  · rfl

/-- **What a bar does to the motif of a line**: a question may store classes that may be chosen under the
    numbers of the slots that the bar has drawn, and nothing else is changed. -/
theorem grows_of_writeBar (hk : c.key.Sound) {role : Role} {line line' : Line Note Int}
    {bar : Option Chord × Int} {s s' : σ}
    (h : (c.writeBar src role line bar).run s = (.ok line', s')) :
    ∃ slots s₁, (c.drawSlots src).run s = (.ok slots, s₁)
      ∧ (role ≠ .question → line'.motif = line.motif)
      ∧ line.motif.Grows (fun slot => 0 ≤ slot ∧ slot < slots.length) c.MayChoose line'.motif := by
  rw [writeBar_eq] at h
  obtain ⟨slots, s₁, hslots, hrest⟩ := run_bind_eq_ok.mp h
  refine ⟨slots, s₁, hslots, ?_⟩
  obtain ⟨replays, s₂, -, hwritten⟩ := run_bind_eq_ok.mp hrest
  exact ensures_grows_slots hk _ slots line s₂ line' (congrArg Prod.fst hwritten)

/-! ## 5. Phrases -/

/-- That a number is one of a slot that is drawn for one of some bars, which are written one after the
    other from a line and a state of chance on. -/
def IsDrawn (src : Source σ) (c : Composer Int) (role : Role) (line : Line Note Int)
    (bars : List (Option Chord × Int)) (s : σ) (slot : Int) : Prop :=
  ∃ before bar after, bars = before ++ bar :: after
    ∧ ∃ line₁ s₁, (before.foldlM (c.writeBar src role) line).run s = (.ok line₁, s₁)
    ∧ ∃ slots s₂, (c.drawSlots src).run s₁ = (.ok slots, s₂) ∧ 0 ≤ slot ∧ slot < slots.length

theorem IsDrawn.cons {role : Role} {line line₁ : Line Note Int} {bar : Option Chord × Int}
    {bars : List (Option Chord × Int)} {s s₁ : σ} {slot : Int}
    (hbar : (c.writeBar src role line bar).run s = (.ok line₁, s₁))
    (h : c.IsDrawn src role line₁ bars s₁ slot) : c.IsDrawn src role line (bar :: bars) s slot := by
  obtain ⟨before, own, after, rfl, line₂, s₂, hbefore, hslots⟩ := h
  refine ⟨bar :: before, own, after, rfl, line₂, s₂, ?_, hslots⟩
  rw [List.foldlM_cons, run_bind_of_ok hbar, hbefore]

section

variable (hk : c.key.Sound)
include hk

/-- What some bars do to the motif of a line, one after the other. -/
theorem grows_of_writeBars {role : Role} {bars : List (Option Chord × Int)}
    {line line' : Line Note Int} {s s' : σ}
    (h : (bars.foldlM (c.writeBar src role) line).run s = (.ok line', s')) :
    (role ≠ .question → line'.motif = line.motif)
      ∧ line.motif.Grows (c.IsDrawn src role line bars s) c.MayChoose line'.motif := by
  induction bars generalizing line s with
  | nil =>
    obtain ⟨hresult, -⟩ := Prod.mk.inj h
    obtain rfl := Except.ok.inj hresult
    exact ⟨fun _ => rfl, .refl _ c.MayChoose _⟩
  | cons bar bars ih =>
    rw [List.foldlM_cons] at h
    obtain ⟨line₁, s₁, hbar, hrest⟩ := run_bind_eq_ok.mp h
    obtain ⟨slots, s₂, hslots, hsame, hgrows⟩ := grows_of_writeBar hk hbar
    obtain ⟨hsames, hgrowss⟩ := ih hrest
    refine ⟨fun hrole => (hsames hrole).trans (hsame hrole), ?_⟩
    have hfirst : ∀ slot : Int, 0 ≤ slot ∧ slot < slots.length →
        c.IsDrawn src role line (bar :: bars) s slot :=
      fun slot hslot => ⟨[], bar, bars, rfl, line, s, rfl, slots, s₂, hslots, hslot⟩
    exact (hgrows.mono hfirst).trans (hgrowss.mono fun slot => .cons hbar)

/-- **What a phrase does to the motif it is given**: a question may store classes that may be chosen under
    the numbers of slots that its bars have drawn, and no other phrase changes it. -/
theorem grows_of_writePhrase {first count : Int} {role : Role} {motif motif' : Motif}
    {notes : List Note} {s s' : σ}
    (h : (c.writePhrase src first count role motif).run s = (.ok (notes, motif'), s')) :
    (role ≠ .question → motif' = motif)
      ∧ motif.Grows (c.IsDrawn src role { motif } ((c.barsFrom first).take count.toNat) s)
        c.MayChoose motif' := by
  obtain ⟨line, hline, -, rfl⟩ := of_writePhrase_eq_ok h
  exact grows_of_writeBars hk hline

end

end Composer

end Cantilena
