import Zicato.PromotionGate
import Zicato.Skyline

/-! # The Pareto frontier record

`zicato/epoch/pareto.py`: the candidates of an epoch that beat the champion on some
axis and that no other on the record dominates.  Dominance has a margin: a
difference below it is a tie, so dominance is not transitive. -/
namespace Zicato.Pareto

open PyFloat

variable {F : Type} [PyArith F]

/-! ## Axes and dominance -/

/-- `frontier_axes`. -/
def frontierAxes (weights : Gate.Weights F) : List String :=
  Gate.sortIds ((weights.namespaceWeights.filter fun w => !eq w.2 zero).map Prod.fst)

/-- What an aggregate says on each axis. -/
abbrev Values (F : Type) := Dict String F

/-- `axis_values`. -/
def axisValues (aggregate : Gate.Agg F) (axes : List String) : Values F :=
  let raw := aggregate.namespaceAggregates.getD []
  axes.foldl (fun out ns =>
    match Dict.get? raw ns with
    | none => out
    | some value => if isfinite value then Dict.set out ns value else out) []

/-- `reference - value >= margin and value < reference`. -/
def better (margin value reference : F) : Bool :=
  le margin (sub reference value) && lt value reference

/-- `beats_on`. -/
def beatsOn (candidate reference : Values F) (margin : F) : List String :=
  Gate.sortIds ((candidate.filter fun item =>
    match Dict.get? reference item.1 with
    | none => false
    | some other => better margin item.2 other).map Prod.fst)

/-- The loop of `dominates`, with `better_any` so far. -/
def dominatesFrom (right : Values F) (margin : F) : Values F → Bool → Bool
  | [], betterAny => betterAny
  | (ns, value) :: rest, betterAny =>
      match Dict.get? right ns with
      | none => dominatesFrom right margin rest betterAny
      | some other =>
          if better margin value other then dominatesFrom right margin rest true
          else if better margin other value then false
          else dominatesFrom right margin rest betterAny

/-- `dominates`. -/
def dominates (margin : F) (left right : Values F) : Bool :=
  dominatesFrom right margin left false

/-! ## The record -/

/-- `FrontierMember`. -/
structure FrontierMember (F : Type) where
  generationId : String
  roundAdmitted : Int
  championGenerationId : String
  axisValues : Values F := []
  beatsChampionOn : List String := []
  scalar : Option F := none
  deriving DecidableEq

/-- `RetiredMember`. -/
structure RetiredMember (F : Type) where
  member : FrontierMember F
  roundRetired : Int
  reason : String
  deriving DecidableEq

/-- `ParetoFrontier`. -/
structure ParetoFrontier (F : Type) where
  epochId : String
  axes : List String := []
  margin : F
  championGenerationId : String := ""
  updatedRound : Int := 0
  members : List (FrontierMember F) := []
  retired : List (RetiredMember F) := []
  deriving DecidableEq

/-- `ParetoFrontier(epoch_id=epoch_id)`. -/
def emptyFrontier (epochId : String) : ParetoFrontier F where
  epochId := epochId
  margin := zero

/-- `FrontierCandidate`. -/
structure FrontierCandidate (F : Type) where
  generationId : String
  aggregate : Gate.Agg F
  isPlacebo : Bool := false

/-- `FrontierUpdate`. -/
structure FrontierUpdate (F : Type) where
  frontier : ParetoFrontier F
  admitted : List String := []
  retired : List String := []

/-! ## Settling a round -/

/-- `RETIRED_PROMOTED`. -/
def retiredPromoted : String := "promoted"

/-- `RETIRED_DOMINATED_BY_CHAMPION`. -/
def retiredDominatedByChampion : String := "dominated_by_champion"

/-- `RETIRED_MONOTONICITY`. -/
def retiredMonotonicity : String := "monotonicity_regression"

/-- What precedes the dominating generation in a reason. -/
def dominatedByPrefix : String := "dominated_by:"

/-- `_as_agg`; the rule it is for reads nothing else. -/
def asAgg (member : FrontierMember F) : Gate.Agg F where
  scalar := zero
  namespaceAggregates := some member.axisValues

section Round
variable (champion : FrontierCandidate F) (weights : Gate.Weights F) (roundIndex : Int)

/-- `champion_values`. -/
def championValues : Values F := axisValues champion.aggregate (frontierAxes weights)

/-- `_member_from`. -/
def memberFrom (candidate : FrontierCandidate F) (values : Values F) (beats : List String) :
    FrontierMember F where
  generationId := candidate.generationId
  roundAdmitted := roundIndex
  championGenerationId := champion.generationId
  axisValues := values
  beatsChampionOn := beats
  scalar := if isfinite candidate.aggregate.scalar then some candidate.aggregate.scalar else none

/-- Why the retire pass drops a member; none when it survives. -/
def retireReason (member : FrontierMember F) : Option String :=
  if member.generationId = champion.generationId then some retiredPromoted
  else if Gate.regressedNamespaces champion.aggregate (asAgg member) weights ≠ [] then
    some retiredMonotonicity
  else if dominates weights.promoteMargin (championValues champion weights) member.axisValues then
    some retiredDominatedByChampion
  else none

/-- What the two passes write. -/
structure Pass (F : Type) where
  surviving : List (FrontierMember F) := []
  retired : List (RetiredMember F)
  retiredIds : List String := []
  known : List String := []
  admittedIds : List String := []

/-- `_retire`. -/
def Pass.retire (p : Pass F) (member : FrontierMember F) (reason : String) : Pass F :=
  { p with
    retired := p.retired ++ [⟨member, roundIndex, reason⟩]
    retiredIds := p.retiredIds ++ [member.generationId] }

/-- The first pass: who has to leave. -/
def retirePass (frontier : ParetoFrontier F) : Pass F :=
  frontier.members.foldl (fun p member =>
    match retireReason champion weights member with
    | some reason => p.retire roundIndex member reason
    | none => { p with surviving := p.surviving ++ [member] }) { retired := frontier.retired }

/-- One turn of the admit pass. -/
def admitOne [DecidableEq F] (p : Pass F) (candidate : FrontierCandidate F) : Pass F :=
  if candidate.generationId ∈ p.known ∨ candidate.isPlacebo = true then p
  else
    let values := axisValues candidate.aggregate (frontierAxes weights)
    if values = [] then p
    else if Gate.regressedNamespaces champion.aggregate candidate.aggregate weights ≠ [] then p
    else
      let beats := beatsOn values (championValues champion weights) weights.promoteMargin
      if beats = [] then p
      else if p.surviving.any fun m => dominates weights.promoteMargin m.axisValues values then p
      else
        let member := memberFrom champion roundIndex candidate values beats
        let displaced := p.surviving.filter fun m =>
          dominates weights.promoteMargin values m.axisValues
        let p := displaced.foldl (fun p old =>
          p.retire roundIndex old (dominatedByPrefix ++ candidate.generationId)) p
        { p with
          surviving := (p.surviving.filter fun m => m ∉ displaced) ++ [member]
          known := p.known ++ [candidate.generationId]
          admittedIds := p.admittedIds ++ [candidate.generationId] }

/-- The order of the members. -/
def byGenerationId (a b : FrontierMember F) : Bool := decide (a.generationId < b.generationId)

/-- `<` on the key `(round_retired, generation_id)`. -/
def byRoundRetired (a b : RetiredMember F) : Bool :=
  thenLt (decide (a.roundRetired = b.roundRetired)) (decide (a.roundRetired < b.roundRetired))
    (byGenerationId a.member b.member)

/-- The candidates in the order the admit pass takes them. -/
def inTurn (candidates : List (FrontierCandidate F)) : List (FrontierCandidate F) :=
  sorted (fun a b => decide (a.generationId < b.generationId)) candidates

/-- The two passes. -/
def settle [DecidableEq F] (frontier : ParetoFrontier F)
    (candidates : List (FrontierCandidate F)) : Pass F :=
  let p := retirePass champion weights roundIndex frontier
  (inTurn candidates).foldl (admitOne champion weights roundIndex)
    { p with known := p.surviving.map (·.generationId) ++ [champion.generationId] }

/-- `update_frontier`. -/
def updateFrontier [DecidableEq F] (frontier : ParetoFrontier F)
    (candidates : List (FrontierCandidate F)) : FrontierUpdate F :=
  if champion.isPlacebo then { frontier := frontier }
  else
    let p := settle champion weights roundIndex frontier candidates
    { frontier :=
        { epochId := frontier.epochId
          axes := frontierAxes weights
          margin := weights.promoteMargin
          championGenerationId := champion.generationId
          updatedRound := roundIndex
          members := sorted byGenerationId p.surviving
          retired := sorted byRoundRetired p.retired }
      admitted := p.admittedIds
      retired := p.retiredIds }

end Round

end Zicato.Pareto
