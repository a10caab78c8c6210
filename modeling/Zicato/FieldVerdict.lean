import Zicato.LadderMediation

/-! # The verdict of a field round

`evolve/gate.py`: the decision of the structure is confirmed on the holdout, may be
blocked by an integrity check, and may be overridden by the operator, candidate by
candidate.  Confirmation and integrity check are parameters. -/
namespace Zicato.Field

open Ladder (HoldoutRecord)

variable {F : Type} [PyArith F]

omit [PyArith F] in
/-- `_first_aggregate_for`. -/
def firstAggregateFor (gid : String) (matchups : List (MatchupResult F)) : Option (Aggregate F) :=
  match matchups with
  | [] => none
  | m :: rest =>
      if m.leftId = gid then some m.leftAgg
      else if m.rightId = gid then some m.rightAgg
      else firstAggregateFor gid rest

/-- `float((_first_aggregate_for(gid, decision) or {}).get("scalar", 0.0))`. -/
def firstScalar (gid : String) (matchups : List (MatchupResult F)) : F :=
  match firstAggregateFor gid matchups with
  | none => PyFloat.zero
  | some agg => agg.scalar.getD PyFloat.zero

/-! ## Holdout confirmation -/

/-- `_CrowningHoldout`. -/
structure CrowningHoldout (F : Type) where
  promotedId : Option String
  reasonOverride : Option String := none
  decisionOverride : Option TournamentDecision := none
  holdoutBlock : Option (HoldoutRecord F) := none
  holdoutChildScalar : Option F := none
  challengerId : Option String := none
  challengerTrainScalar : Option F := none
  crowningDeltaScalar : Option F := none

/-- What `confirm_crowning_holdout` returns. -/
structure Confirmed (F : Type) where
  outcome : GateOutcome F
  holdoutBlock : Option (HoldoutRecord F)
  holdoutChildScalar : Option F

/-- `confirm_crowning_holdout` of the training outcome and the aggregates of the
champion and of the challenger. -/
abbrev ConfirmFn (F : Type) := GateOutcome F → Aggregate F → Aggregate F → Confirmed F

omit [PyArith F] in
/-- The crowning duel of a decision, if it names one. -/
def crowningResult (decision : SelectionDecision F) : Option (MatchupResult F) :=
  if decision.crowningMatchupId = "" then none
  else decision.matchups.find? (·.matchupId = decision.crowningMatchupId)

omit [PyArith F] in
/-- The side of a duel that is not `parentId`, and the aggregates of the champion
and of that side. -/
def challengerSide (parentId : String) (m : MatchupResult F) :
    String × Aggregate F × Aggregate F :=
  if m.leftId = parentId then (m.rightId, m.leftAgg, m.rightAgg)
  else (m.leftId, m.rightAgg, m.leftAgg)

/-- The delta of a duel with the champion as parent. -/
def crowningDelta (parentId : String) (m : MatchupResult F) : F :=
  if m.leftId = parentId then m.outcome.deltaScalar
  else PyArith.neg m.outcome.deltaScalar

/-- `_confirm_crowning_on_holdout`. -/
def confirmCrowningOnHoldout (confirmFn : ConfirmFn F) (parentId : String)
    (decision : SelectionDecision F) : CrowningHoldout F :=
  match crowningResult decision with
  | none => { promotedId := decision.promotedGenerationId }
  | some m =>
      if decision.decision = .rejected then { promotedId := decision.promotedGenerationId }
      else
        let (challengerId, championAgg, challengerAgg) := challengerSide parentId m
        let trainScalar := challengerAgg.scalar.getD PyFloat.zero
        if decision.decision ≠ .promoted ∨ decision.promotedGenerationId = none then
          { promotedId := decision.promotedGenerationId
            challengerId := some challengerId
            challengerTrainScalar := some trainScalar
            crowningDeltaScalar := some (crowningDelta parentId m) }
        else
          let confirmed := confirmFn m.outcome championAgg challengerAgg
          let kept := confirmed.outcome.decision = .promoted
          { promotedId := if kept then decision.promotedGenerationId else none
            reasonOverride := if kept then none else some confirmed.outcome.reason
            decisionOverride := if kept then none else some confirmed.outcome.decision
            holdoutBlock := confirmed.holdoutBlock
            holdoutChildScalar := confirmed.holdoutChildScalar
            challengerId := some challengerId
            challengerTrainScalar := some trainScalar
            crowningDeltaScalar := some (crowningDelta parentId m) }

/-! ## Operator overrides -/

/-- The verdict an operator forces. -/
inductive Forced
  | promoted
  | rejected
  deriving DecidableEq, Repr

/-- `GateOverride` of one generation. -/
structure GateOverride where
  decision : Forced
  reason : String
  deriving DecidableEq, Repr

/-- The claimed overrides by generation. -/
abbrev Overrides := Dict String GateOverride

/-- `_field_override_provenance`. -/
structure OverrideProvenance where
  action : String
  ts : String
  reason : String
  state : String := "applied"
  deriving DecidableEq, Repr

/-- The provenance an override leaves. -/
def fieldOverrideProvenance (now : String) (ov : GateOverride) : OverrideProvenance where
  action := match ov.decision with
    | .promoted => "promote"
    | .rejected => "reject"
  ts := now
  reason := ov.reason

/-- The members of a Python `set` in the order they were added. -/
def add (members : List String) (gid : String) : List String :=
  if gid ∈ members then members else members ++ [gid]

/-- A set without one member. -/
def discard (members : List String) (gid : String) : List String := members.filter (· ≠ gid)

/-- One turn of the loop over the overrides. -/
def applyOverride (members : List String) (override : String × GateOverride) : List String :=
  match override.2.decision with
  | .promoted => add members override.1
  | .rejected => discard members override.1

/-- Who is promoted once the overrides are applied. -/
def promotedSet (promotedId : Option String) (overrides : Overrides) : List String :=
  overrides.foldl applyOverride promotedId.toList

/-- `<` of two keys `(scalar, gid)`. -/
def keyLt (a b : F × String) : Bool :=
  if PyFloat.eq a.1 b.1 then a.2 < b.2 else PyFloat.lt a.1 b.1

/-- `min(members, key=...)` of the members as they are iterated. -/
def minByKey (key : String → F × String) : List String → Option String
  | [] => none
  | gid :: rest =>
      some (rest.foldl (fun best gid => if keyLt (key gid) (key best) then gid else best) gid)

/-- The primary head after the overrides. -/
def primaryHead (order : List String → List String) (matchups : List (MatchupResult F))
    (promotedId : Option String) (overrides : Overrides) : Option String :=
  if overrides.isEmpty then promotedId
  else
    let members := promotedSet promotedId overrides
    match promotedId.filter (· ∈ members) with
    | some leader => some leader
    | none => minByKey (fun gid => (firstScalar gid matchups, gid)) (order members)

/-- The note an override leaves on the decision. -/
def overrideNote (reason : String) : String := "operator override: " ++ reason

/-- `override_decision_reason` for the primary head. -/
def overrideDecisionReason (overrides : Overrides) (head : Option String) : Option String :=
  match head with
  | some gid =>
      match overrides.get? gid with
      | some ov => if ov.decision = .promoted then some (overrideNote ov.reason) else none
      | none => none
  | none =>
      (overrides.find? (·.2.decision = .rejected)).map fun rejection =>
        overrideNote rejection.2.reason

/-- What the overrides resolve a round to. -/
structure Resolution (F : Type) where
  promotedId : Option String
  promotedIds : List String
  overrideProvenance : Dict String OverrideProvenance
  effectiveDecision : SelectionDecision F

/-- `_decision_reason`. -/
def decisionReason (own : String) (overrideReason crowningReason : Option String) : String :=
  match overrideReason with
  | some reason => reason
  | none => crowningReason.getD own

omit [PyArith F] in
/-- The decision every store describes. -/
def effectiveDecision (decision : SelectionDecision F) (head : Option String)
    (overrideReason crowningReason : Option String)
    (crowningDecision : Option TournamentDecision) : SelectionDecision F :=
  let reason := decisionReason decision.reason overrideReason crowningReason
  if head ≠ decision.promotedGenerationId ∨ reason ≠ decision.reason then
    { decision with
      promotedGenerationId := head
      decision :=
        if head.isSome then .promoted
        else if overrideReason.isNone then crowningDecision.getD .rejected
        else .rejected
      reason := reason }
  else decision

/-- `_apply_field_overrides`; `order` is how Python iterates a set with the given
members. -/
def applyFieldOverrides (order : List String → List String) (now : String)
    (decision : SelectionDecision F) (promotedId : Option String)
    (crowningReason : Option String) (crowningDecision : Option TournamentDecision)
    (overrides : Overrides) : Resolution F :=
  let head := primaryHead order decision.matchups promotedId overrides
  { promotedId := head
    promotedIds := promotedSet promotedId overrides
    overrideProvenance := overrides.map fun (gid, ov) => (gid, fieldOverrideProvenance now ov)
    effectiveDecision :=
      effectiveDecision decision head (overrideDecisionReason overrides head) crowningReason
        crowningDecision }

/-! ## The verdict -/

/-- `FieldVerdict`. -/
structure FieldVerdict (F : Type) where
  promotedId : Option String
  promotedIds : List String
  overrideProvenance : Dict String OverrideProvenance
  effectiveDecision : SelectionDecision F
  overrides : Overrides
  reasonOverride : Option String
  holdoutBlock : Option (HoldoutRecord F)
  holdoutChildScalar : Option F
  crowningChallengerId : Option String
  crowningChallengerTrainScalar : Option F

/-- What a round asks of the rest of the program to reach its verdict. -/
structure Checks (F : Type) where
  confirmFn : ConfirmFn F
  /-- `_integrity_block_reason` of a generation and the crowning delta. -/
  blockReason : String → Option F → Option String
  order : List String → List String
  now : String

/-- The crowned generation after confirmation and integrity check, with the reason
that unseated it. -/
def crowned (checks : Checks F) (crowning : CrowningHoldout F) : Option String × Option String :=
  match crowning.promotedId with
  | none => (none, crowning.reasonOverride)
  | some gid =>
      match checks.blockReason gid crowning.crowningDeltaScalar with
      | none => (some gid, crowning.reasonOverride)
      | some reason => (none, some reason)

/-- `resolve_field_verdict`. -/
def resolveFieldVerdict (checks : Checks F) (parentId : String) (decision : SelectionDecision F)
    (overrides : Overrides) : FieldVerdict F :=
  let crowning := confirmCrowningOnHoldout checks.confirmFn parentId decision
  let (promotedId, reasonOverride) := crowned checks crowning
  let resolution := applyFieldOverrides checks.order checks.now decision promotedId reasonOverride
    crowning.decisionOverride overrides
  { promotedId := resolution.promotedId
    promotedIds := resolution.promotedIds
    overrideProvenance := resolution.overrideProvenance
    effectiveDecision := resolution.effectiveDecision
    overrides := overrides
    reasonOverride := reasonOverride
    holdoutBlock := crowning.holdoutBlock
    holdoutChildScalar := crowning.holdoutChildScalar
    crowningChallengerId := crowning.challengerId
    crowningChallengerTrainScalar := crowning.challengerTrainScalar }

end Zicato.Field
