import Cantilena.Melody.Search
import Cantilena.Proofs.Outcome
import Cantilena.Proofs.Random.Coupled
import Cantilena.Proofs.Sorting.Mapped

/-!
# Searches side by side

A search looks at its candidates only by their ratings, and reports only their seeds. So a search
whose candidates are mapped to others with the same seeds and ratings picks the same one, mapped.

* `ranked_map` -- the order by score;
* `Source.choose_map` -- a choice among mapped values;
* `Alike` -- a map of candidates that leaves their seeds and ratings alone;
* `Alike.candidates`, `Alike.bestMelody` -- the candidates of a search, and its pick.
-/

namespace Cantilena

/-! ## 1. Ranking and choosing -/

section

variable {σ α β : Type} {f : α → β}

/-- Values that are mapped to others with the same scores are ranked as they were before. -/
theorem ranked_map {score : α → Float} {score' : β → Float} (h : ∀ a, score' (f a) = score a)
    (l : List α) : ranked score' (l.map f) = (ranked score l).map f := by
  have hbelow (a b : α) : scoresBelow score' (f a) (f b) = scoresBelow score a b := by
    unfold scoresBelow
    rw [h, h]
  have hnan : (l.map f).any (fun b => (score' b).isNaN) = l.any fun a => (score a).isNaN := by
    rw [List.any_map]
    exact congrArg l.any (funext fun a => congrArg Float.isNaN (h a))
  unfold ranked
  rw [hnan]
  split
  · rw [← List.map_reverse, Sorting.sorted_map hbelow, List.map_reverse]
  · refine (List.map_mergeSort fun a _ b _ => ?_).symm
    rw [h, h]

/-- A choice among mapped values is the choice among the values, mapped. -/
theorem Source.choose_map (src : Source σ) (f : α → β) (first : α) (others : List α) :
    src.choose (f first) (others.map f) = f <$> src.choose first others := by
  have hplaces (n : Nat) (hn : n = others.length) :
      (src.place "list" n >>= fun i => Pure.pure (f ((first :: others).get (i.cast (by simp [hn])))))
        = f <$> src.choose first others := by
    subst hn
    unfold choose chooseFrom
    rw [map_bind]
    rfl
  rw [← hplaces (others.map f).length (List.length_map f)]
  refine bind_congr fun i => congrArg Pure.pure ?_
  show (List.map f (first :: others)).get i = _
  rw [List.get_eq_getElem, List.getElem_map]
  rfl

end

/-! ## 2. Searching -/

/-- Whether a map of candidates leaves their seeds and ratings alone. -/
structure Alike {ε : Type} (f : Candidate ε → Candidate ε) : Prop where
  seed : ∀ c, (f c).seed = c.seed
  score : ∀ c, (f c).score = c.score

namespace Alike

variable {σ ν ε : Type} [Quantity ν] [Event ε ν] {f : Candidate ε → Candidate ε} (hf : Alike f)
  {r : Registry} {p p' : Params ν} {w : Weights}

theorem candidates {progression : Except Fault (List Entry)} (hseed : p'.seed = p.seed)
    (h : ∀ entries seed spare, (buildCandidate r entries { p' with seed } w spare
      : Logged (Candidate ε)) = f <$> buildCandidate r entries { p with seed } w spare)
    (count spare : Int) : candidates r progression p' w count spare
      = List.map f <$> Cantilena.candidates r progression p w count spare := by
  have hbuild (entries : List Entry) (seeds : List Seed) (spare : Int) :
      buildCandidates r entries p' w spare seeds
        = List.map f <$> buildCandidates r entries p w spare seeds := by
    induction seeds generalizing spare with
    | nil => rfl
    | cons seed rest ih =>
      rw [buildCandidates, buildCandidates, h, ih]
      simp only [map_bind, bind_map_left, map_pure, List.map_cons]
  unfold Cantilena.candidates
  rw [hseed]
  split
  · rfl
  · rw [map_bind]
    refine bind_congr fun entries => ?_
    rw [map_bind]
    exact bind_congr fun seeds => hbuild entries seeds spare

include hf

theorem shortlist (keep : Int) (all : List (Candidate ε)) :
    shortlist keep (all.map f) = (Cantilena.shortlist keep all).map f := by
  unfold Cantilena.shortlist
  rw [ranked_map hf.score, List.length_map, List.map_take]

/-- **A search whose candidates are mapped picks the same one, mapped**, and leaves the same state
    of chance and the same reports. -/
theorem bestMelody {progression : Except Fault (List Entry)} {count spare : Int}
    (h : Cantilena.candidates r progression p' w count spare
      = List.map f <$> Cantilena.candidates r progression p w count spare)
    (src : Source σ) (state : σ) (keep : Int) :
    bestMelody src state r progression p' w count keep spare
      = (fun best => (f best.1, best.2))
        <$> Cantilena.bestMelody src state r progression p w count keep spare := by
  unfold Cantilena.bestMelody
  rw [h, bind_map_left, map_bind]
  refine bind_congr fun all => ?_
  rw [hf.shortlist]
  cases Cantilena.shortlist keep all with
  | nil => rfl
  | cons best others =>
    have hchoose : src.choose (f best) (others.map f) state
        = ((src.choose best others state).1.map f, (src.choose best others state).2) := by
      rw [src.choose_map]
      exact run_map f (src.choose best others) state
    have hreport (pick : Candidate ε) : pickedEntry (f pick) (f best) = pickedEntry pick best := by
      unfold pickedEntry
      rw [hf.seed, hf.score, hf.score]
    simp only [List.map_cons, hchoose]
    rcases src.choose best others state with ⟨pick, state'⟩
    cases pick with
    | error e => rfl
    | ok pick =>
      show (Logged.ofExcept (pickedEntry (f pick) (f best))).bind _
        = _ <$> (Logged.ofExcept (pickedEntry pick best)).bind _
      rw [hreport]
      cases pickedEntry pick best with
      | error e => rfl
      | ok entry => rfl

end Alike

end Cantilena
