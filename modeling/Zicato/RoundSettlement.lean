import Zicato.FieldVerdict
import Zicato.PySort

/-! # The outcomes of a field round

`evolve/settlement.py`: `_build_field_settlement` turns the verdict of a field round
into one terminal outcome for each applied challenger. -/
namespace Zicato.Field

open Ladder (HoldoutRecord)

/-! ## What a round hands to its settlement -/

/-- An aggregate of a duel with the drift loss that settlement reads of it. -/
structure RawAggregate (F : Type) extends Aggregate F where
  /-- `drift_loss_mean`. -/
  driftLossMean : Option F := none
  deriving DecidableEq

/-- `TournamentResult`: what the runner reports of one duel. -/
structure TournamentResult (F : Type) where
  parentGenerationId : String
  childGenerationId : String
  parentAgg : RawAggregate F
  childAgg : RawAggregate F
  outcome : GateOutcome F
  deriving DecidableEq

/-- `FieldExecution`. -/
structure FieldExecution (F : Type) where
  decision : SelectionDecision F
  gateEvidence : Option (Dict String (PyValue F))
  /-- The results by matchup id. -/
  rawResults : Dict String (TournamentResult F)
  championEvalMode : String

/-- An applied challenger. -/
structure Challenger where
  generationId : String
  experimentId : String
  createdAt : String
  deriving DecidableEq, Repr

/-- What is fixed before the tournament of a round. -/
structure Entrants where
  parentId : String
  structure_ : String
  challengers : List Challenger
  deriving DecidableEq, Repr

/-! ## Outcomes -/

/-- One duel of a challenger, seen from its side. -/
structure MatchOutcome (F : Type) where
  matchId : String
  opponent : String
  won : Bool
  deltaScalar : F
  deriving DecidableEq

/-- `OutcomeRecord`; a settlement records no metric movements and no elimination
round. -/
structure OutcomeRecord (F : Type) where
  ranAt : String
  passRateDelta : F
  driftLossDelta : F
  scalarScoreDelta : F
  tournamentDecision : TournamentDecision
  rejectionReason : String
  structure_ : String
  finalRank : Option Nat
  matchRecord : List (MatchOutcome F)
  championEvalMode : String
  holdout : Option (HoldoutRecord F)
  trainLoss : Option F
  holdoutLoss : Option F
  generalizationGap : Option F
  operatorOverride : Bool
  operatorOverrideReason : String
  evidence : Option (Dict String (PyValue F))

variable {F : Type} [PyArith F]

/-- `_match_records` of one generation. -/
def matchRecords (decision : SelectionDecision F) (gid : String) : List (MatchOutcome F) :=
  decision.matchups.flatMap fun mr =>
    (if mr.leftId = gid then
      [{ matchId := mr.matchupId, opponent := mr.rightId, won := mr.lowerScalarId = mr.leftId
         deltaScalar := PyArith.neg mr.outcome.deltaScalar }]
    else []) ++
    (if mr.rightId = gid then
      [{ matchId := mr.matchupId, opponent := mr.leftId, won := mr.lowerScalarId = mr.rightId
         deltaScalar := mr.outcome.deltaScalar }]
    else [])

omit [PyArith F] in
/-- `rank_by_id.get(gid)`: the last standing of a generation counts. -/
def rankOf (decision : SelectionDecision F) (gid : String) : Option Nat :=
  (decision.standings.reverse.find? (·.generationId = gid)).map (·.rank)

/-- `_crowning_duel_deltas`. -/
def crowningDuelDeltas (raw : Option (TournamentResult F)) (parentId : String) : F × F :=
  match raw with
  | none => (PyFloat.zero, PyFloat.zero)
  | some raw =>
      let drift := fun (agg : RawAggregate F) => agg.driftLossMean.getD PyFloat.zero
      if raw.parentGenerationId = parentId then
        (PyArith.mul raw.outcome.deltaPassRate (PyArith.lit 1),
          PyFloat.sub (drift raw.childAgg) (drift raw.parentAgg))
      else
        (PyArith.mul raw.outcome.deltaPassRate (PyArith.lit (-1)),
          PyFloat.sub (drift raw.parentAgg) (drift raw.childAgg))

/-- `_generalization_fields_from_scalars`: the holdout loss and the gap. -/
def generalizationFields (trainScalar : F) (holdoutScalar : Option F) : Option F × Option F :=
  (holdoutScalar, holdoutScalar.map fun holdout => PyFloat.sub holdout trainScalar)

section Build
variable (entrants : Entrants) (execution : FieldExecution F) (verdict : FieldVerdict F)

/-- The terminal decision of a challenger. -/
def genDecision (gid : String) : TournamentDecision :=
  if gid ∈ verdict.promotedIds then .promoted
  else if verdict.crowningChallengerId = some gid ∧
      verdict.effectiveDecision.decision = .deferred then .deferred
  else .rejected

/-- The reason of a challenger that was not overridden. -/
def ownReason (gid : String) : String :=
  if gid ∈ verdict.promotedIds then ""
  else if verdict.crowningChallengerId = some gid then
    -- an empty reason of the confirmation is no reason
    match verdict.reasonOverride with
    | some reason => if reason ≠ "" then reason else execution.decision.reason
    | none => execution.decision.reason
  else execution.decision.reason

/-- `rejection_reason`. -/
def rejectionReason (gid : String) : String :=
  match verdict.overrides.get? gid with
  | some ov => if gid ∈ verdict.promotedIds then "" else overrideNote ov.reason
  | none => ownReason execution verdict gid

/-- The outcome of one challenger. -/
def candidateOutcome (now gid : String) : OutcomeRecord F :=
  let matchups := execution.decision.matchups
  let genScalar := firstScalar gid matchups
  let isCrowningChallenger := verdict.crowningChallengerId = some gid
  let trainScalar :=
    if isCrowningChallenger then verdict.crowningChallengerTrainScalar.getD genScalar
    else genScalar
  let holdoutScalar := if isCrowningChallenger then verdict.holdoutChildScalar else none
  let deltas :=
    if isCrowningChallenger then
      crowningDuelDeltas (execution.rawResults.get? execution.decision.crowningMatchupId)
        entrants.parentId
    else (PyFloat.zero, PyFloat.zero)
  { ranAt := now
    passRateDelta := deltas.1
    driftLossDelta := deltas.2
    scalarScoreDelta := PyFloat.sub genScalar (firstScalar entrants.parentId matchups)
    tournamentDecision := genDecision verdict gid
    rejectionReason := rejectionReason execution verdict gid
    structure_ := entrants.structure_
    finalRank := rankOf execution.decision gid
    matchRecord := matchRecords execution.decision gid
    championEvalMode := execution.championEvalMode
    holdout := if isCrowningChallenger then verdict.holdoutBlock else none
    trainLoss := some trainScalar
    holdoutLoss := (generalizationFields trainScalar holdoutScalar).1
    generalizationGap := (generalizationFields trainScalar holdoutScalar).2
    operatorOverride := (verdict.overrides.get? gid).isSome
    operatorOverrideReason := ((verdict.overrides.get? gid).map (·.reason)).getD ""
    evidence := if isCrowningChallenger then execution.gateEvidence else none }

/-- `RoundSettlement`. -/
structure RoundSettlement (F : Type) where
  decision : SelectionDecision F
  primaryPromotedGenerationId : Option String
  promotedGenerationIds : List String
  candidates : List (Challenger × OutcomeRecord F)
  championScalar : F
  crownedScalar : F

/-- `ordered_promotions`. -/
def orderedPromotions (primary : Option String) (promoted : List String) : List String :=
  match primary with
  | none => sorted (fun a b => decide (a < b)) promoted
  | some head => head :: sorted (fun a b => decide (a < b)) (promoted.filter (· ≠ head))

/-- `_build_field_settlement`. -/
def buildFieldSettlement (now : String) : RoundSettlement F where
  decision := verdict.effectiveDecision
  primaryPromotedGenerationId := verdict.promotedId
  promotedGenerationIds := orderedPromotions verdict.promotedId verdict.promotedIds
  candidates := entrants.challengers.map fun c =>
    (c, candidateOutcome entrants execution verdict now c.generationId)
  championScalar := firstScalar entrants.parentId execution.decision.matchups
  crownedScalar :=
    match verdict.promotedId.filter (· ∈ entrants.challengers.map (·.generationId)) with
    | some gid => firstScalar gid execution.decision.matchups
    | none => firstScalar entrants.parentId execution.decision.matchups

end Build

end Zicato.Field
