import Cantilena.Melody.Ranking
import Cantilena.Melody.Rating

/-!
# Searching for a melody

A search writes melodies from seeds that lie a fixed stride apart, rates them, and picks one of the
best.

* `candidateSeeds` -- the seeds;
* `candidates` -- the rated melodies in the order of their seeds;
* `shortlist` -- the candidates by rating, the best first, as many of them as are kept;
* `bestMelody` -- one of the shortlist, drawn from a source.
-/

namespace Cantilena

/-- A melody with its rating and the seed it was written from. -/
structure Candidate (ε : Type) where
  seed : Seed
  score : Float
  events : List ε
  deriving DecidableEq, Repr

/-- The distance between two seeds, a prime. -/
def seedStride : Int := 9973

/-- The seeds of candidates from a base seed on; none of them has one without it. -/
def candidateSeeds (base : Seed) (count : Int) : Except Fault (List Seed) :=
  (List.range count.toNat).mapM fun (i : Nat) => base.plus ((i : Int) * seedStride)

section

variable {σ ν ε : Type} [Quantity ν] [Event ε ν]

/-- The candidate of one seed. Without a seed `spare` takes its place. -/
def buildCandidate (r : Registry) (entries : List Entry) (params : Params ν) (weights : Weights)
    (spare : Int) : Logged (Candidate ε) := do
  let twister ← (params.seed.twister spare : Except Fault Twister)
  let composer ← composerFor r params entries
  let events ← (composer.compose Twister.source twister).1
  let score ← rate r events entries params weights
  return ⟨params.seed, score, events⟩

/-- The candidates of seeds, with the spare seeds from one on. -/
def buildCandidates (r : Registry) (entries : List Entry) (params : Params ν) (weights : Weights)
    (spare : Int) : List Seed → Logged (List (Candidate ε))
  | [] => .ok []
  | seed :: rest => do
    let first ← buildCandidate r entries { params with seed } weights spare
    return first :: (← buildCandidates r entries params weights (spare + 1) rest)

/-- The rated melodies of some seeds over a progression that is still to be read. -/
def candidates (r : Registry) (progression : Except Fault (List Entry)) (params : Params ν)
    (weights : Weights) (count spare : Int) : Logged (List (Candidate ε)) :=
  if count < 1 then .fault .candidateCount
  else do
    let entries ← progression
    let seeds ← (candidateSeeds params.seed count : Except Fault (List Seed))
    buildCandidates r entries params weights spare seeds

/-- The best candidates, as many as are kept: at least one, and no more than there are. -/
def shortlist (keep : Int) (all : List (Candidate ε)) : List (Candidate ε) :=
  (ranked Candidate.score all).take (max 1 (min (all.length : Int) keep)).toNat

/-- The report of a pick, if its seed can be written. -/
def pickedEntry (pick best : Candidate ε) : Except Fault LogEntry := do
  return ⟨.debug, "Picked candidate seed=" ++ (← pick.seed.shown) ++ " score="
    ++ Number.fixedText 2 pick.score ++ " (best " ++ Number.fixedText 2 best.score ++ ")"⟩

/-- One of the best candidates, and the state of the source after the pick. -/
def bestMelody (src : Source σ) (state : σ) (r : Registry)
    (progression : Except Fault (List Entry)) (params : Params ν) (weights : Weights)
    (count keep spare : Int) : Logged (Candidate ε × σ) := do
  let all : List (Candidate ε) ← candidates r progression params weights count spare
  match shortlist keep all with
  | [] => Logged.fault .nothingToPick
  | best :: others =>
    let (pick, state) := src.choose best others state
    let pick ← pick
    Logged.tell [← (pickedEntry pick best : Except Fault LogEntry)]
    return (pick, state)

end

end Cantilena
