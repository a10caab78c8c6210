import Mathlib.Data.List.Sort
import Mathlib.Data.Prod.Lex
import Mathlib.Data.String.Basic
import Mathlib.Data.Sym.Sym2
import Mathlib.Algebra.Order.Ring.Unbundled.Rat
import Zicato.Dict
import Zicato.Grouping

/-! # Ratings

`zicato/index/elo.py`: the duels and rung groups that the rows of the index
describe become observations, one fit rates every generation that took part in
one, and the ratings are written to the generations.  The numbers of the fit are
parameters; which generations it rates, from which observations, is not. -/
namespace Zicato.Elo

/-! ## Rows of the index -/

/-- A match of a bracket in `rounds_json`; a side that is not a list is absent. -/
structure BracketMatch where
  matchId : String := ""
  competitors : List String := []
  winner : String := ""
  deltaScalar : Option ℚ := none
  bye : Bool := false
  pending : Bool := false
  survivors : Option (List String) := none
  cut : Option (List String) := none
  deriving DecidableEq

/-- An item of `rounds_json`: a challenger's audit of a match, or a round of the bracket. -/
structure RoundItem where
  matchId : String := ""
  opponent : String := ""
  won : Bool := false
  deltaScalar : Option ℚ := none
  contents : List BracketMatch := []
  deriving DecidableEq

/-- A row of `tournaments`. -/
structure TournamentRow where
  tournamentId : String
  epochId : String
  parentGenerationId : String := ""
  childGenerationId : String := ""
  decision : String := ""
  deltaScalar : Option ℚ := none
  rounds : List RoundItem := []
  ranAt : String := ""
  deriving DecidableEq

/-- A row of `generations`. -/
structure GenerationRow (R : Type) where
  epochId : String
  generationId : String
  parentGenerationId : Option String := none
  createdAt : String := ""
  elo : Option R := none
  eloSe : Option R := none
  eloGames : Option Nat := none

/-! ## Games -/

/-- `EloGame`. -/
structure EloGame where
  epochId : String
  tournamentId : String
  matchId : String
  winner : String
  loser : String
  margin : ℚ := 0
  ranAt : String := ""
  deriving DecidableEq

/-- `EloGame.dedup_key`. -/
def EloGame.dedupKey (g : EloGame) : String × String × Sym2 String :=
  (g.tournamentId, g.matchId, s(g.winner, g.loser))

/-- `RungEvent`. -/
structure RungEvent where
  epochId : String
  tournamentId : String
  rungId : String
  survivors : List String
  cut : List String
  ranAt : String := ""
  deriving DecidableEq

/-- `RungEvent.dedup_key`. -/
def RungEvent.dedupKey (r : RungEvent) : String × String := (r.tournamentId, r.rungId)

/-- `_abs_float`. -/
def absFloat (value : Option ℚ) : ℚ := |value.getD 0|

/-- A game of a crowning row, won by the child or not. -/
def crowningGame (row : TournamentRow) (matchId opponent : String) (won : Bool)
    (deltaScalar : Option ℚ) : EloGame where
  epochId := row.epochId
  tournamentId := row.tournamentId
  matchId := matchId
  winner := if won then row.childGenerationId else opponent
  loser := if won then opponent else row.childGenerationId
  margin := absFloat deltaScalar
  ranAt := row.ranAt

/-- `_games_from_crowning_row`. -/
def gamesFromCrowningRow (row : TournamentRow) : List EloGame :=
  if row.parentGenerationId = "" ∨ row.childGenerationId = "" then []
  else if row.rounds ≠ [] then
    (row.rounds.filter fun item => item.opponent ≠ "").map fun item =>
      crowningGame row item.matchId item.opponent item.won item.deltaScalar
  else
    let won :=
      if row.decision = "promoted" then true
      else if row.decision = "rejected" ∨ row.decision = "deferred" then false
      else decide (row.deltaScalar.getD 0 < 0)
    [crowningGame row "" row.parentGenerationId won row.deltaScalar]

/-- The game of a match of the bracket, if two sides settled it. -/
def bracketGame (row : TournamentRow) (m : BracketMatch) : Option EloGame :=
  let competitors := m.competitors.filter (· ≠ "")
  let loser := (competitors.find? (· ≠ m.winner)).getD ""
  if m.bye = true ∨ m.pending = true ∨ m.winner = "" ∨ competitors.length ≠ 2 ∨ loser = "" then none
  else some {
    epochId := row.epochId
    tournamentId := row.tournamentId
    matchId := m.matchId
    winner := m.winner
    loser := loser
    margin := absFloat m.deltaScalar
    ranAt := row.ranAt }

/-- `_games_from_field_row`. -/
def gamesFromFieldRow (row : TournamentRow) : List EloGame :=
  if row.parentGenerationId ≠ "" ∨ row.childGenerationId ≠ "" then []
  else (row.rounds.flatMap RoundItem.contents).filterMap (bracketGame row)

/-- The rung groups among matches, after so many. -/
def rungsFromMatches (row : TournamentRow) : Nat → List BracketMatch → List RungEvent
  | _, [] => []
  | n, m :: rest =>
      let survivors := (m.survivors.getD []).filter (· ≠ "") |>.eraseDups
      let cut := (m.cut.getD []).filter (· ≠ "") |>.eraseDups
      if survivors = [] ∨ cut = [] then rungsFromMatches row n rest
      else
        { epochId := row.epochId
          tournamentId := row.tournamentId
          rungId := if m.matchId = "" then s!"rung@{n}" else m.matchId
          survivors := survivors
          cut := cut
          ranAt := row.ranAt } :: rungsFromMatches row (n + 1) rest

/-- `_rungs_from_row`. -/
def rungsFromRow (row : TournamentRow) : List RungEvent :=
  rungsFromMatches row 0 (row.rounds.flatMap RoundItem.contents)

/-- The games of one row. -/
def gamesFromRow (row : TournamentRow) : List EloGame :=
  gamesFromCrowningRow row ++ gamesFromFieldRow row

/-- `games_from_tournament_rows`. -/
def gamesFromTournamentRows (rows : List TournamentRow) : List EloGame :=
  rows.flatMap gamesFromRow

/-- `rungs_from_tournament_rows`. -/
def rungsFromTournamentRows (rows : List TournamentRow) : List RungEvent :=
  rows.flatMap rungsFromRow

/-- `_dedup_games`. -/
def dedupGames (games : List EloGame) : List EloGame := dedupFrom EloGame.dedupKey [] games

/-- `_dedup_rungs`. -/
def dedupRungs (rungs : List RungEvent) : List RungEvent := dedupFrom RungEvent.dedupKey [] rungs

/-! ## The fit -/

/-- `RankGroup`: survivors above cut. -/
abbrev RankGroup := List String × List String

/-- `PL_MAX_SURVIVORS`. -/
def plMaxSurvivors : Nat := 8

/-- What the fit keeps of an observation. -/
def normalised (group : RankGroup) : Option RankGroup :=
  let survivors := group.1.eraseDups
  let cut := group.2.eraseDups
  if survivors = [] ∨ cut = [] ∨ (survivors.any (cut.contains ·)) = true ∨
      plMaxSurvivors < survivors.length then none
  else some (survivors.insertionSort (· ≤ ·), cut.insertionSort (· ≤ ·))

/-- The observations in the order in which the fit sums them. -/
def canonical (groups : List RankGroup) : List RankGroup :=
  (groups.filterMap normalised).insertionSort fun a b => toLex a ≤ toLex b

/-- Everyone in an observation. -/
def pool (group : RankGroup) : List String := group.1 ++ group.2

/-- The numbers of the fit and its scale. -/
structure RatingNumerics (R : Type) where
  /-- The strength of a generation and its standard error, fitted to canonical observations. -/
  estimate : List RankGroup → String → R × R
  /-- `DEFAULT_RATING + theta * ELO_PER_THETA`. -/
  onEloScale : R → R
  /-- `se * ELO_PER_THETA`. -/
  seOnEloScale : R → R

variable {R : Type}

/-- `fit_plackett_luce`. -/
def fitPlackettLuce (numerics : RatingNumerics R) (groups : List RankGroup) : Dict String (R × R) :=
  let kept := canonical groups
  (((kept.flatMap pool).eraseDups).insertionSort (· ≤ ·)).map fun gid =>
    (gid, numerics.estimate kept gid)

/-! ## Ratings -/

/-- `EloRating`. -/
structure EloRating (R : Type) where
  generationId : String
  epochId : String
  rating : R
  se : R
  games : Nat

/-- `LineageNode`. -/
structure LineageNode where
  epochId : String
  generationId : String
  parentGenerationId : Option String
  createdAt : String := ""

/-- A game that has two sides. -/
def twoSided (g : EloGame) : Bool := g.winner != "" && g.loser != "" && g.winner != g.loser

/-- The group of a rung, if it compares anything. -/
def rungGroup (rung : RungEvent) : Option RankGroup :=
  let survivors := rung.survivors.filter (· ≠ "")
  let cut := rung.cut.filter (· ≠ "")
  if survivors = [] ∨ cut = [] ∨ (survivors.any (cut.contains ·)) = true then none
  else some (survivors, cut)

/-- The games that are observed. -/
def observedGames (games : List EloGame) : List EloGame := (dedupGames games).filter twoSided

/-- The rungs that are observed, with their groups. -/
def observedRungs (rungs : List RungEvent) : List (RungEvent × RankGroup) :=
  (dedupRungs rungs).filterMap fun rung => (rungGroup rung).map fun group => (rung, group)

/-- `observations` of `compute_elo`. -/
def observations (games : List EloGame) (rungs : List RungEvent) : List RankGroup :=
  ((observedGames games).map fun g => ([g.winner], [g.loser])) ++ (observedRungs rungs).map Prod.snd

/-- Who is counted, once for each observation, with the epoch of the observation. -/
def appearances (games : List EloGame) (rungs : List RungEvent) : List (String × String) :=
  ((observedGames games).flatMap fun g => [(g.winner, g.epochId), (g.loser, g.epochId)]) ++
    (observedRungs rungs).flatMap fun item =>
      if item.2.1.length ≤ plMaxSurvivors then (pool item.2).map fun gid => (gid, item.1.epochId)
      else []

/-- `game_count`. -/
def gameCount (appeared : List (String × String)) : Dict String Nat :=
  appeared.foldl (fun acc entry => Dict.set acc entry.1 (Dict.getD acc entry.1 0 + 1)) []

/-- `epoch_of`. -/
def epochOf (lineage : Dict String LineageNode) (appeared : List (String × String)) :
    Dict String String :=
  appeared.foldl (fun acc entry => Dict.setdefault acc entry.1 entry.2)
    (lineage.map fun item => (item.1, item.2.epochId))

/-- `compute_elo`. -/
def computeElo (numerics : RatingNumerics R) (games : List EloGame)
    (lineage : Dict String LineageNode) (rungs : List RungEvent) : Dict String (EloRating R) :=
  let appeared := appearances games rungs
  (fitPlackettLuce numerics (observations games rungs)).map fun item =>
    (item.1,
      { generationId := item.1
        epochId := Dict.getD (epochOf lineage appeared) item.1 ""
        rating := numerics.onEloScale item.2.1
        se := numerics.seOnEloScale item.2.2
        games := Dict.getD (gameCount appeared) item.1 0 })

/-! ## The index -/

/-- The index, as far as the fold reads and writes it. -/
structure Index (R : Type) where
  generations : List (GenerationRow R)
  tournaments : List TournamentRow

/-- `_read_lineage`: a later row with the same id replaces an earlier one. -/
def readLineage (generations : List (GenerationRow R)) : Dict String LineageNode :=
  generations.foldl (fun acc row =>
    if row.generationId = "" then acc
    else Dict.set acc row.generationId {
      epochId := row.epochId
      generationId := row.generationId
      parentGenerationId := row.parentGenerationId
      createdAt := row.createdAt }) []

/-- The ratings of the index. -/
def ratings (numerics : RatingNumerics R) (index : Index R) : Dict String (EloRating R) :=
  computeElo numerics (gamesFromTournamentRows index.tournaments) (readLineage index.generations)
    (rungsFromTournamentRows index.tournaments)

/-- What the fold writes, and to which generation. -/
def writes (numerics : RatingNumerics R) (index : Index R) : Dict (String × String) (R × Nat) :=
  (ratings numerics index).map fun item =>
    let epochId := match Dict.get? (readLineage index.generations) item.1 with
      | some node => node.epochId
      | none => item.2.epochId
    ((epochId, item.1), (item.2.rating, item.2.games))

/-- `fold_elo_into_index`: only rows that exist are updated. -/
def foldEloIntoIndex (numerics : RatingNumerics R) (index : Index R) : Index R :=
  let written := writes numerics index
  { index with
    generations := index.generations.map fun row =>
      match Dict.get? written (row.epochId, row.generationId) with
      | some value => { row with elo := some value.1, eloSe := none, eloGames := some value.2 }
      | none => { row with eloSe := none } }

end Zicato.Elo
