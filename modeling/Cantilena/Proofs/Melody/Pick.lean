import Cantilena.Proofs.Melody.Rated
import Cantilena.Proofs.Melody.Search
import Cantilena.Proofs.Melody.Shape

/-!
# What a search picks

A search picks one of its candidates, and every candidate is composed for its seed.

* `mem_ranked`, `mem_shortlist`, `Source.mem_of_choose` -- ranking, keeping and choosing add nothing;
* `Candidate.IsComposed` -- a candidate that some composer has composed;
* `isComposed_bestMelody` -- the pick of a search is such a candidate;
* `exists_buildCandidate`, `exists_bestMelody` -- a seed has a candidate, and a search for one
  candidate a pick, where the progression is not too long.
-/

namespace Cantilena

/-! ## 1. Ranking and choosing -/

section

variable {σ α ε : Type}

/-- Ranking adds no values. -/
theorem mem_ranked {score : α → Float} {l : List α} {a : α} (h : a ∈ ranked score l) : a ∈ l := by
  -- ranked with the proofs that they are among them, values keep these proofs
  have hattach : ranked score l = (ranked (fun b : { b // b ∈ l } => score b.1) l.attach).map (·.1) := by
    rw [← ranked_map (f := fun b : { b // b ∈ l } => b.1) (fun _ => rfl), List.attach_map_subtype_val]
  rw [hattach] at h
  obtain ⟨⟨b, hb⟩, -, rfl⟩ := List.mem_map.mp h
  exact hb

theorem mem_shortlist {keep : Int} {all : List (Candidate ε)} {c : Candidate ε}
    (h : c ∈ shortlist keep all) : c ∈ all :=
  mem_ranked (List.mem_of_mem_take h)

theorem Sorting.sorted_singleton (below : α → α → Bool) (a : α) : sorted below [a] = [a] := by
  have hruns : runs below [a] = [[a]] := by
    show [((([] : List α).take _).foldl (insertInto below) [a].toArray).toList] = [[a]]
    rw [List.take_nil]
    rfl
  unfold sorted
  rw [hruns]
  show collapse below _ [⟨0, [a], 0⟩] = [a]
  rw [collapse]

theorem ranked_singleton (score : α → Float) (a : α) : ranked score [a] = [a] := by
  unfold ranked
  rw [List.reverse_singleton, Sorting.sorted_singleton, List.reverse_singleton,
    List.mergeSort_singleton, ite_self]

theorem shortlist_singleton (keep : Int) (c : Candidate ε) : shortlist keep [c] = [c] := by
  have hone : (max 1 (min ([c].length : Int) keep)).toNat = 1 := by
    rw [List.length_singleton]
    omega
  unfold shortlist
  rw [ranked_singleton, hone]
  rfl

theorem Twister.alwaysPicks_source : Twister.source.AlwaysPicks := fun _ _ => rfl

/-- What is chosen of some values is one of them. -/
theorem Source.mem_of_choose {src : Source σ} {first a : α} {others : List α} {s s' : σ}
    (h : (src.choose first others).run s = (.ok a, s')) : a ∈ first :: others := by
  have hrun := run_bind (src.place "list" others.length)
    (fun i => Pure.pure ((first :: others).get i)) s
  have hchosen := congrArg Prod.fst (hrun.symm.trans h)
  cases hplace : ((src.place "list" others.length).run s).1 with
  | error e =>
    rw [hplace] at hchosen
    cases hchosen
  | ok i =>
    rw [hplace] at hchosen
    obtain rfl := Except.ok.inj hchosen
    exact List.get_mem (first :: others) i

end

/-! ## 2. Candidates -/

section

variable {r : Registry} {p : Params Int} {entries : List Entry} {w : Weights}

/-- A candidate of the settings whose notes some composer has composed, drawing from a generator. -/
def Candidate.IsComposed (r : Registry) (p : Params Int) (entries : List Entry)
    (best : Candidate Note) : Prop :=
  ∃ (c : Composer Int) (twister : Twister),
    (composerFor r { p with seed := best.seed } entries).outcome = .ok c
      ∧ ((c.compose Twister.source).run twister).1 = .ok best.events

theorem isComposed_buildCandidate {seed : Seed} {spare : Int} {best : Candidate Note}
    (h : (buildCandidate r entries { p with seed } w spare).outcome = .ok best) :
    best.seed = seed ∧ best.IsComposed r p entries := by
  obtain ⟨twister, -, h⟩ := Logged.bind_outcome_eq_ok.mp h
  obtain ⟨c, hc, h⟩ := Logged.bind_outcome_eq_ok.mp h
  obtain ⟨events, hevents, h⟩ := Logged.bind_outcome_eq_ok.mp h
  obtain ⟨score, -, h⟩ := Logged.bind_outcome_eq_ok.mp h
  obtain rfl := Except.ok.inj h
  exact ⟨rfl, c, twister, hc, hevents⟩

theorem isComposed_buildCandidates {seeds : List Seed} {spare : Int} {all : List (Candidate Note)}
    (h : (buildCandidates r entries p w spare seeds).outcome = .ok all) :
    ∀ best ∈ all, best.seed ∈ seeds ∧ best.IsComposed r p entries := by
  induction seeds generalizing spare all with
  | nil =>
    obtain rfl := Except.ok.inj h
    exact fun _ hbest => absurd hbest List.not_mem_nil
  | cons seed seeds ih =>
    obtain ⟨first, hfirst, h⟩ := Logged.bind_outcome_eq_ok.mp h
    obtain ⟨others, hothers, h⟩ := Logged.bind_outcome_eq_ok.mp h
    obtain rfl := Except.ok.inj h
    obtain ⟨hseed, hcomposed⟩ := isComposed_buildCandidate hfirst
    intro best hbest
    rcases List.mem_cons.mp hbest with rfl | hbest
    · exact ⟨hseed ▸ List.mem_cons_self, hcomposed⟩
    · obtain ⟨hmem, hcomposed⟩ := ih hothers best hbest
      exact ⟨List.mem_cons_of_mem _ hmem, hcomposed⟩

/-- **The pick of a search is one of its candidates**, and a composer has composed it. -/
theorem isComposed_bestMelody {σ : Type} {src : Source σ} {state state' : σ}
    {count keep spare : Int} {best : Candidate Note}
    (h : (bestMelody src state r (.ok entries) p w count keep spare).outcome = .ok (best, state')) :
    best.IsComposed r p entries := by
  obtain ⟨all, hall, h⟩ := Logged.bind_outcome_eq_ok.mp h
  have hcandidates : ∀ best ∈ all, best.IsComposed r p entries := by
    unfold candidates at hall
    split at hall
    · cases hall
    · obtain ⟨_, hentries, hall⟩ := Logged.bind_outcome_eq_ok.mp hall
      obtain rfl := Except.ok.inj hentries
      obtain ⟨seeds, -, hall⟩ := Logged.bind_outcome_eq_ok.mp hall
      exact fun best hbest => (isComposed_buildCandidates hall best hbest).2
  cases hshort : shortlist keep all with
  | nil =>
    rw [hshort] at h
    cases h
  | cons first others =>
    rw [hshort] at h
    obtain ⟨pick, hpick, h⟩ := Logged.bind_outcome_eq_ok.mp h
    obtain ⟨entry, -, h⟩ := Logged.bind_outcome_eq_ok.mp h
    obtain ⟨_, -, h⟩ := Logged.bind_outcome_eq_ok.mp h
    obtain ⟨rfl, -⟩ := Prod.mk.inj (Except.ok.inj h)
    have hmem : pick ∈ first :: others := Source.mem_of_choose (Prod.ext hpick rfl)
    rw [← hshort] at hmem
    exact hcandidates pick (mem_shortlist hmem)

end

/-! ## 3. Picks that exist -/

/-- Notes that start one after the other are no more than there are ticks for them. -/
theorem length_le_of_pairwise {first last : Int} {notes : List Note}
    (h : notes.Pairwise fun a b => a.start < b.start)
    (hwithin : ∀ n ∈ notes, first ≤ n.start ∧ n.start < last) :
    notes.length ≤ (last - first).toNat := by
  induction notes generalizing first with
  | nil => exact Nat.zero_le _
  | cons n notes ih =>
    obtain ⟨hn, hnotes⟩ := List.pairwise_cons.mp h
    have hfirst := hwithin n List.mem_cons_self
    have hrest : notes.length ≤ (last - (n.start + 1)).toNat := ih hnotes fun m hm =>
      ⟨hn m hm, (hwithin m (List.mem_cons_of_mem _ hm)).2⟩
    rw [List.length_cons]
    omega

section

variable {r : Registry} (hr : r.Reachable) {p : Params Int} (hp : p.Admitted r)
  {entries : List Entry}
  (hfew : ((entries.map Entry.bars).sum : Int) * p.frame.stepsPerBar < 2 ^ 50)
include hr hp hfew

/-- **Settings that are admitted have a candidate for every seed that starts a generator**, unless
    the progression is too long for the notes to be counted. -/
theorem exists_buildCandidate {spare : Int} {twister : Twister}
    (hseed : p.seed.twister spare = .ok twister) :
    ∃ best : Candidate Note,
      (buildCandidate r entries p {} spare).outcome = .ok best ∧ best.seed = p.seed := by
  obtain ⟨k, hc, -⟩ := exists_composer hr hp entries
  generalize (⟨p, k, barChords entries⟩ : Composer Int) = c at hc
  obtain ⟨hparams, hbars⟩ := of_composerFor_eq_ok hc
  obtain ⟨notes, twister', hrun, hstarts, hshaped⟩ :=
    Composer.yields_compose Twister.alwaysPicks_source c.keeps_range twister
  have hlength : notes.length
      ≤ (c.tickOfBar c.bars.length - c.tickOfBar 0).toNat := by
    refine length_le_of_pairwise hstarts fun n hn => ?_
    obtain ⟨bar, hfirst, hlast, hn⟩ := hshaped n hn
    exact ⟨Int.le_trans (c.tickOfBar_mono hfirst) hn.start_ge,
      Int.lt_of_lt_of_le hn.start_lt (c.tickOfBar_mono hlast)⟩
  have hspan : c.tickOfBar c.bars.length - c.tickOfBar 0
      = ((entries.map Entry.bars).sum : Int) * p.frame.stepsPerBar := by
    rw [← length_barChords, ← hbars, ← hparams]
    show (c.params.frame.startBar + (c.bars.length : Int)) * c.params.frame.stepsPerBar
      - (c.params.frame.startBar + 0) * c.params.frame.stepsPerBar = _
    rw [Int.add_mul, Int.add_mul]
    omega
  rw [hspan] at hlength
  have hmany : notes.length < 2 ^ 50 := by omega
  obtain ⟨score, hscore⟩ := exists_rating hr hp entries hmany
  refine ⟨⟨p.seed, score, notes⟩, Logged.bind_outcome_eq_ok.mpr ⟨twister, hseed, ?_⟩, rfl⟩
  refine Logged.bind_outcome_eq_ok.mpr ⟨c, hc, ?_⟩
  refine Logged.bind_outcome_eq_ok.mpr ⟨notes, congrArg Prod.fst hrun, ?_⟩
  exact Logged.bind_outcome_eq_ok.mpr ⟨score, hscore, rfl⟩

/-- **A search for one candidate has a pick** where its seed is a number that can be written. -/
theorem exists_bestMelody {σ : Type} {src : Source σ} (hsrc : src.AlwaysPicks) {n : Int}
    (hseed : p.seed = .whole n) (hn : Number.isWritable n = true) (state : σ) (keep spare : Int) :
    ∃ picked : Candidate Note × σ,
      (bestMelody src state r (.ok entries) p {} 1 keep spare).outcome = .ok picked := by
  have htwister : p.seed.twister spare = .ok (Twister.ofSeed n) := by rw [hseed]; rfl
  obtain ⟨best, hbest, hsame⟩ := exists_buildCandidate hr hp hfew htwister
  have hseeds : candidateSeeds p.seed 1 = .ok [p.seed] := by
    have hbase : p.seed.plus (((0 : Nat) : Int) * seedStride) = .ok p.seed := by
      rw [hseed, Seed.plus, Int.natCast_zero, Int.zero_mul, Int.add_zero]
    show [0].mapM (fun (i : Nat) => p.seed.plus ((i : Int) * seedStride)) = _
    rw [List.mapM_cons, hbase]
    rfl
  have hall : (candidates r (.ok entries) p {} 1 spare).outcome = .ok [best] := by
    refine Logged.bind_outcome_eq_ok.mpr ⟨entries, rfl, ?_⟩
    refine Logged.bind_outcome_eq_ok.mpr ⟨[p.seed], hseeds, ?_⟩
    refine Logged.bind_outcome_eq_ok.mpr ⟨best, hbest, ?_⟩
    exact Logged.bind_outcome_eq_ok.mpr ⟨[], rfl, rfl⟩
  have hshown : best.seed.shown = .ok (toString n) := by
    rw [hsame, hseed, Seed.shown, if_pos hn]
  have hchoice : Yields (src.choose best []) fun pick => pick ∈ [best] := yields_choose hsrc
  obtain ⟨pick, state', hpick, hmem⟩ := hchoice state
  obtain rfl := List.mem_singleton.mp hmem
  refine ⟨⟨pick, state'⟩, Logged.bind_outcome_eq_ok.mpr ⟨[pick], hall, ?_⟩⟩
  rw [shortlist_singleton]
  have hpicked : src.choose pick [] state = (.ok pick, state') := hpick
  simp only [hpicked]
  refine Logged.bind_outcome_eq_ok.mpr ⟨pick, rfl, ?_⟩
  refine Logged.bind_outcome_eq_ok.mpr ⟨_, bind_eq_ok.mpr ⟨_, hshown, rfl⟩, rfl⟩

end

end Cantilena
