import Zicato.Tournament

/-! # Confirming a promotion on fresh evidence

`selection/evidence_gate.py` judges the duels admitted so far;
`selection/driver.py` asks a callback for further duels of the crowning pair
until the verdict is satisfied or the budget is spent.  The callback is any
stream of results and failures.

`Inference` is the numeric part, the Bradley--Terry fit and its strength
difference with the texts of their numbers.  Nothing here depends on what it
computes. -/
namespace Zicato.Evidence

/-- `MIN_CREDIBLE_DUELS`. -/
def minCredibleDuels : Nat := 3

/-- `RatingCI`. -/
structure RatingCI (F : Type) where
  generationId : String
  theta : F
  se : F
  ciLo : F
  ciHi : F
  deriving DecidableEq

/-- `StrengthDifference`. -/
structure StrengthDifference (F : Type) where
  mean : F
  se : F
  ciLo : F
  ciHi : F
  confidenceLevel : F
  comparisonCount : Nat
  deriving DecidableEq

/-- A pairwise outcome: the winner and the loser. -/
abbrev DuelOutcome := String × String

/-- What the evidence loop asks of the rating fit. -/
structure Inference (F : Type) where
  /-- `_rating_ci(fit_bradley_terry(duels), gid)`. -/
  ratingCi : List DuelOutcome → String → Option (RatingCI F)
  /-- `strength_difference` of the same fit. -/
  strengthDifference : List DuelOutcome → String → String → F → Nat → StrengthDifference F
  pStronger : StrengthDifference F → F
  /-- `f"{x:.nf}"`. -/
  fixed : Nat → F → String
  /-- `f"{x:.n%}"`. -/
  percent : Nat → F → String

/-- Why a result may or may not enter the fit. -/
inductive Eligibility
  | selectionOnly
  | duplicate
  | unexpectedPair
  | incomplete
  | nonfinite
  | selfComparison
  | missingProvenance
  | wrongPurpose
  | repeatedMeasurement
  | tie
  | eligible
  | error
  deriving DecidableEq, Repr

/-- One returned or failed draw. -/
structure EvidenceAttempt (F : Type) where
  matchupId : String
  leftId : String
  rightId : String
  eligibility : Eligibility
  budgetSpent : Nat
  deltaScalar : Option F := none
  reason : String := ""
  measurementDraw : Option MeasurementDraw := none
  deriving DecidableEq

/-- The decision of an `EvidenceVerdict`. -/
inductive EvidenceDecision
  | promoted
  | deferred
  | rejected
  | inconclusive
  deriving DecidableEq, Repr

/-- `EvidenceVerdict`. -/
structure EvidenceVerdict (F : Type) where
  decision : EvidenceDecision
  reason : String
  credible : Bool
  champion : Option (RatingCI F)
  challenger : Option (RatingCI F)
  pStronger : Option F
  threshold : F
  ciOverlap : Bool
  replicatesSpent : Nat := 0
  nDuels : Nat := 0
  difference : Option (StrengthDifference F) := none
  confirmationStatus : ConfirmationStatus := .incomplete
  championId : String := ""
  challengerId : String := ""
  attempts : List (EvidenceAttempt F) := []
  deriving DecidableEq

variable {F : Type} [PyFloat F]

/-- `{left, right} == {parent, child}`. -/
def samePair (r : MatchupResult F) (parentId childId : String) : Bool :=
  (r.leftId = parentId || r.leftId = childId) && (r.rightId = parentId || r.rightId = childId) &&
    (parentId = r.leftId || parentId = r.rightId) && (childId = r.leftId || childId = r.rightId)

/-- A measured difference other than zero. -/
def decisive (r : MatchupResult F) : Bool := !PyFloat.eq r.outcome.deltaScalar PyFloat.zero

/-- `audit_duels`: the outcomes of the fit. -/
def auditDuels (audit : List (MatchupResult F)) : List DuelOutcome :=
  audit.filterMap fun r =>
    if r.leftId = r.rightId ∨ r.executionComplete = false then none
    else if PyFloat.lt r.outcome.deltaScalar PyFloat.zero then some (r.rightId, r.leftId)
    else if PyFloat.lt PyFloat.zero r.outcome.deltaScalar then some (r.leftId, r.rightId)
    else none

/-- A resolved duel between exactly the two. -/
def pairDuel (parentId childId : String) (r : MatchupResult F) : Bool :=
  samePair r parentId childId && r.executionComplete && decisive r

/-- `_count_pair_duels`. -/
def countPairDuels (audit : List (MatchupResult F)) (parentId childId : String) : Nat :=
  (audit.filter (pairDuel parentId childId)).length

/-- `_ci_overlap`. -/
def ciOverlap (a b : RatingCI F) : Bool := PyFloat.le a.ciLo b.ciHi && PyFloat.le b.ciLo a.ciHi

/-- `EvidencePreGate`. -/
structure EvidencePreGate (F : Type) where
  threshold : F
  replicateBudget : Nat

variable (inference : Inference F)

/-- `StrengthDifference.clears`. -/
def clears (difference : StrengthDifference F) (threshold : F) : Bool :=
  PyFloat.lt PyFloat.zero difference.ciLo &&
    PyFloat.le threshold (inference.pStronger difference)

/-- `evidence_verdict`: it may hold a promotion of the gate, and never makes one. -/
def evidenceVerdict (gateDecision : EvidenceDecision) (gateReason : String)
    (audit : List (MatchupResult F)) (parentId childId : String) (threshold : F)
    (replicateBudget replicatesSpent plannedCandidates : Nat) : EvidenceVerdict F :=
  let duels := auditDuels audit
  let nPair := countPairDuels audit parentId childId
  let base : EvidenceVerdict F :=
    { decision := gateDecision
      reason := gateReason
      credible := false
      champion := none
      challenger := none
      pStronger := none
      threshold := threshold
      ciOverlap := false
      replicatesSpent := replicatesSpent
      nDuels := nPair
      championId := parentId
      challengerId := childId }
  let pending : EvidenceDecision :=
    if replicatesSpent < replicateBudget then .deferred else .inconclusive
  if gateDecision ≠ .promoted then base
  else if duels.isEmpty ∨ nPair < minCredibleDuels then
    { base with
      decision := pending
      reason := s!"confirmation incomplete: {nPair} resolved pair duels; at least {minCredibleDuels} required" }
  else
    match inference.ratingCi duels parentId, inference.ratingCi duels childId with
    | some champion, some challenger =>
        let difference := inference.strengthDifference duels childId parentId threshold
          (plannedCandidates * (replicateBudget + 1))
        let p := inference.pStronger difference
        let cleared := clears inference difference threshold
        { base with
          decision := if cleared then .promoted else pending
          reason :=
            if cleared then gateReason
            else if replicatesSpent < replicateBudget then
              "deferred: crowning win not yet decisive — P(theta_child > theta_champion)=" ++
                inference.fixed 3 p ++ " vs threshold " ++ inference.fixed 2 threshold ++
                "; strength difference " ++ inference.percent 3 difference.confidenceLevel ++
                " interval [" ++ inference.fixed 3 difference.ciLo ++ ", " ++
                inference.fixed 3 difference.ciHi ++
                s!"]; repeat the selected candidate against the champion ({replicatesSpent}/{replicateBudget} spent)"
            else
              "inconclusive: strength difference remains unconfirmed after exhausting the " ++
                s!"{replicateBudget}-replicate budget — P(theta_child > theta_champion)=" ++
                inference.fixed 3 p ++ "; recorded to the dead-letter queue, champion stands"
          credible := true
          champion := some champion
          challenger := some challenger
          pStronger := some p
          ciOverlap := ciOverlap champion challenger
          difference := some difference
          confirmationStatus := if cleared then .satisfied else .incomplete }
    | champion, challenger =>
        { base with
          decision := pending
          reason := "confirmation incomplete: the fit could not place both contestants"
          champion := champion
          challenger := challenger }

end Zicato.Evidence
