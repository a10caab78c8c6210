import Zicato.PySort
import Zicato.Tournament

/-! # The promotion gate

`tournament/gate.py`: the rules that decide whether a challenger supersedes the
champion, each written as a rejection condition, and the explanation the gate keeps
of them.  The numbers are a parameter: the doubles with `nan` and the infinities, or
exact ones. -/
namespace Zicato.Gate

/-- The numbers of the gate. -/
class GateNum (F : Type) where
  lt : F → F → Bool
  le : F → F → Bool
  eq : F → F → Bool
  isfinite : F → Bool
  add : F → F → F
  sub : F → F → F
  mul : F → F → F
  neg : F → F
  /-- The number nearest to a literal of the source or to a quotient of integers. -/
  lit : Rat → F
  /-- `float(n)`; none when it raises. -/
  ofInt : Int → Option F
  /-- `int(x)` of a finite `x`. -/
  trunc : F → Int
  /-- `format(x, spec)`. -/
  format : String → F → String

open GateNum

instance {F : Type} [PyArith F] : GateNum F where
  lt := PyFloat.lt
  le := PyFloat.le
  eq := PyFloat.eq
  isfinite := PyFloat.isfinite
  add := PyFloat.add
  sub := PyFloat.sub
  mul := PyArith.mul
  neg := PyArith.neg
  lit := PyArith.lit
  ofInt := PyFloat.ofInt
  trunc := PyArith.trunc
  format := PyArith.format

/-- A number of a JSON document. -/
inductive Num (F : Type)
  | int (n : Int)
  | float (x : F)
  deriving DecidableEq

/-- One row of `per_entry`. -/
structure Row (F : Type) where
  score : Option F := none
  passFail : Option Bool := none
  driftLoss : Option F := none
  deriving DecidableEq

/-- `diff_size`; an absent count is 0. -/
structure DiffSize (F : Type) where
  added : Option (Num F) := none
  removed : Option (Num F) := none
  patches : Option (Num F) := none
  deriving DecidableEq

/-- What the gate reads of an aggregate. -/
structure Agg (F : Type) where
  scalar : F
  passRate : Option F := none
  meanScore : Option F := none
  incompleteEntries : List String := []
  perEntry : Dict String (Row F) := []
  namespaceAggregates : Option (Dict String F) := none
  diffSize : Option (DiffSize F) := none
  /-- `scalar_components["diff_complexity"]`. -/
  diffComponent : Option F := none
  deriving DecidableEq

/-- The scope of a monotonicity rule. -/
inductive Scope
  | perEntry
  | aggregate
  deriving DecidableEq, Repr

/-- What the gate reads of `ScoringWeights`. -/
structure Weights (F : Type) where
  promoteMargin : F
  holdoutMargin : Option F := none
  holdoutEntryRegressionBudget : Nat := 0
  passRateMonotonicity : Bool := true
  passRateMonotonicityScope : Scope := .perEntry
  namespaceMonotonicity : Dict String Bool := []
  namespaceWeights : Dict String F := []
  regressionGateEnabled : Bool := false
  diffComplexityCeiling : F

variable {F : Type} [GateNum F]

/-- The number 0. -/
def zero : F := lit 0

/-- The number 1. -/
def one : F := lit 1

/-- `PER_ENTRY_SCORE_MONOTONICITY_TOLERANCE`. -/
def perEntryTolerance : F := lit (2 / 100)

/-- `PASS_RATE_MONOTONICITY_TOLERANCE`. -/
def passRateTolerance : F := lit (1 / 10 ^ 9)

/-- `NAMESPACE_MONOTONICITY_TOLERANCE`. -/
def namespaceTolerance : F := lit 0

/-- `ATTRIBUTABLE_DRIFT_RATIO`. -/
def driftRatio : F := lit 2

/-- `ATTRIBUTABLE_DRIFT_ABSOLUTE`. -/
def driftAbsolute : F := lit (5 / 100)

/-- Six decimals. -/
def fixed6 (x : F) : String := format ".6f" x

/-- Two decimals. -/
def fixed2 (x : F) : String := format ".2f" x

/-- Two decimals and a sign. -/
def signed2 (x : F) : String := format "+.2f" x

/-- `sorted` of ids. -/
def sortIds (ids : List String) : List String := sorted (fun a b => decide (a < b)) ids

/-! ## Readers -/

/-- `effective_holdout_margin`. -/
def effectiveHoldoutMargin (w : Weights F) : F := w.holdoutMargin.getD w.promoteMargin

/-- A score clamped to `[0, 1]`; one that is not finite is a miss. -/
def clampScore (value : F) : F :=
  if isfinite value = false then zero
  else if lt value zero then zero
  else if lt one value then one
  else value

/-- `_row_score` of a row that is there. -/
def Row.outcome (row : Row F) : Option F :=
  match row.score with
  | some value => some (clampScore value)
  | none => row.passFail.map fun passed => if passed then one else zero

/-- `_row_score`. -/
def rowScore (row : Option (Row F)) : Option F := row.bind Row.outcome

/-- The score of an entry of the challenger, a vanished one being a miss. -/
def effectiveScore (agg : Agg F) (entryId : String) : F :=
  (rowScore (agg.perEntry.get? entryId)).getD zero

/-- The entry with the champion's row `row` regressed. -/
def entryRegressed (child : Agg F) (entry : String × Row F) : Bool :=
  match rowScore (some entry.2) with
  | none => false
  | some parentScore => lt (effectiveScore child entry.1) (sub parentScore perEntryTolerance)

/-- `_regressed_entries`. -/
def regressedEntries (parent child : Agg F) : List String :=
  sortIds ((parent.perEntry.filter (entryRegressed child)).map Prod.fst)

/-- `_row_drift`: a `nan` is no measurement. -/
def rowDrift (row : Option (Row F)) : Option F :=
  row.bind fun row => row.driftLoss.filter fun drift => eq drift drift

/-- `max(a, b)`. -/
def maxOf (a b : F) : F := if lt a b then b else a

/-- Whether drift rose beyond its allowance on an entry. -/
def driftRegressed (child : Agg F) (entry : String × Row F) : Bool :=
  match rowDrift (some entry.2), rowDrift (child.perEntry.get? entry.1) with
  | some parentDrift, some childDrift =>
      lt (maxOf (mul driftRatio parentDrift) (add parentDrift driftAbsolute)) childDrift
  | _, _ => false

/-- `_drift_regressed_entries`. -/
def driftRegressedEntries (parent child : Agg F) : List String :=
  sortIds ((parent.perEntry.filter (driftRegressed child)).map Prod.fst)

/-- `attributable_entry_regressions`. -/
def attributableEntryRegressions (parent child : Agg F) : List String :=
  sortIds (regressedEntries parent child ++ driftRegressedEntries parent child).dedup

/-- `_mean_score`. -/
def meanScore (agg : Agg F) : F :=
  match agg.meanScore with
  | some mean => mean
  | none => agg.passRate.getD one

/-- `weights.namespace_weights.get(ns, 0.0) != 0.0` of an enabled namespace. -/
def monitored (w : Weights F) (flag : String × Bool) : Bool :=
  flag.2 && !eq (w.namespaceWeights.getD flag.1 zero) zero

/-- The namespace regressed, or one of its aggregates is not finite. -/
def namespaceRegressed (parent child : Agg F) (ns : String) : Bool :=
  match (parent.namespaceAggregates.getD []).get? ns,
    (child.namespaceAggregates.getD []).get? ns with
  | some parentVal, some childVal =>
      !isfinite parentVal || !isfinite childVal ||
        lt (add parentVal namespaceTolerance) childVal
  | _, _ => false

/-- `regressed_namespaces`. -/
def regressedNamespaces (parent child : Agg F) (w : Weights F) : List String :=
  sortIds ((w.namespaceMonotonicity.filter fun flag =>
    monitored w flag && namespaceRegressed parent child flag.1).map Prod.fst)

/-! ## Reasons

A rule's reason is empty when the rule lets the duel pass. -/

/-- The reason for a namespace that regressed. -/
def namespaceRegressionReason (parent child : Agg F) (regressed : List String) : String :=
  let part := fun ns =>
    ns ++ " (champion " ++
      fixed6 (((parent.namespaceAggregates.getD []).get? ns).getD zero) ++ " -> challenger " ++
      fixed6 (((child.namespaceAggregates.getD []).get? ns).getD zero) ++ ")"
  "monotonicity_regression on namespace=" ++ ", ".intercalate (regressed.map part) ++
    "; a promotion needs each flagged namespace to stay at or below the " ++
    "champion's weighted aggregate (tolerance " ++ format "g" (namespaceTolerance : F) ++ ")"

/-- `_nonfinite_evidence`. -/
def nonfiniteEvidence (named : List (String × F)) : String :=
  match (named.filter fun item => !isfinite item.2).map Prod.fst with
  | [] => ""
  | bad => "invalid evidence: " ++ ", ".intercalate bad ++ " must be finite"

/-- The rows that carry a score. -/
def scoredCount (agg : Agg F) : Nat :=
  (agg.perEntry.filter fun entry => (rowScore (some entry.2)).isSome).length

/-- The mean-score movement of a budget of entries. -/
def budgetBand (parent : Agg F) (entryBudget : Nat) : F :=
  if entryBudget > 0 ∧ scoredCount parent > 0 then
    lit ((entryBudget : Rat) / (scoredCount parent : Rat))
  else zero

/-- The overall outcome fell beyond the tolerance. -/
def meanRegressed (parent child : Agg F) (entryBudget : Nat) : Bool :=
  lt (sub (meanScore child) (meanScore parent))
    (neg (add passRateTolerance (budgetBand parent entryBudget)))

/-- `_pass_rate_regression_reason`. -/
def passRateRegressionReason (parent child : Agg F) (w : Weights F) (lead : String)
    (entryBudget : Nat) : String :=
  match w.passRateMonotonicityScope with
  | .aggregate =>
      if meanRegressed parent child entryBudget then
        lead ++ "pass-rate regression: overall pass-rate fell by " ++
          fixed6 (neg (sub (meanScore child) (meanScore parent))) ++ " (champion " ++
          fixed6 (meanScore parent) ++ " -> challenger " ++ fixed6 (meanScore child) ++ ")"
      else ""
  | .perEntry =>
      let regressed := regressedEntries parent child
      if regressed.length ≤ entryBudget then ""
      else lead ++ "pass-rate regression on entries: " ++ ", ".intercalate regressed

/-- `_holdout_confirms`. -/
def holdoutConfirms (parent child : Agg F) (w : Weights F) : String :=
  if !parent.incompleteEntries.isEmpty || !child.incompleteEntries.isEmpty then
    "holdout_not_confirmed: incomplete execution of requested board units"
  else
    let invalid := nonfiniteEvidence
      [("holdout champion scalar", parent.scalar), ("holdout challenger scalar", child.scalar),
        ("holdout champion mean_score", meanScore parent),
        ("holdout challenger mean_score", meanScore child)]
    if invalid ≠ "" then "holdout_not_confirmed: " ++ invalid
    else if lt (effectiveHoldoutMargin w) (sub child.scalar parent.scalar) then
      "holdout_not_confirmed: holdout loss rose by " ++
        fixed6 (sub child.scalar parent.scalar) ++ " (champion " ++ fixed6 parent.scalar ++
        " -> challenger " ++ fixed6 child.scalar ++
        "); a train-measured win must hold within " ++ fixed6 (effectiveHoldoutMargin w) ++
        " on the holdout slice"
    else if w.passRateMonotonicity then
      passRateRegressionReason parent child w "holdout_not_confirmed: holdout "
        w.holdoutEntryRegressionBudget
    else ""

/-- `int(value)`, which raises on a `nan` and on the infinities. -/
def Num.toInt : Num F → Except String Int
  | .int n => .ok n
  | .float x =>
      if isfinite x then .ok (trunc x)
      else .error ("cannot convert float " ++ format "" x ++ " to integer")

/-- The three counts of a diff. -/
def DiffSize.counts (size : DiffSize F) : Except String (Int × Int × Int) := do
  let added ← (size.added.getD (.int 0)).toInt
  let removed ← (size.removed.getD (.int 0)).toInt
  let patches ← (size.patches.getD (.int 0)).toInt
  .ok (added, removed, patches)

/-- `diff_complexity`. -/
def diffComplexity (size : DiffSize F) : Except String F := do
  let (added, removed, patches) ← size.counts
  match ofInt (added + removed + patches) with
  | some complexity => .ok complexity
  | none => .error "int too large to convert to float"

/-- One line of `diff_size_evidence`. -/
def diffSizeLine (side : String) (agg : Agg F) : Except String (List String) :=
  match agg.diffSize with
  | none => .ok []
  | some size => do
      let (added, removed, patches) ← size.counts
      .ok [s!"diff_size:{side}:added={added},removed={removed},patches={patches}"]

/-- `diff_size_evidence`. -/
def diffSizeEvidence (parent child : Agg F) : Except String (List String) := do
  let champion ← diffSizeLine "champion" parent
  let challenger ← diffSizeLine "challenger" child
  .ok (champion ++ challenger)

/-- `_component(agg, "diff_complexity")`. -/
def component (agg : Agg F) : F := agg.diffComponent.getD zero

/-- `_parsimony_decomposition`. -/
def parsimonyDecomposition (parent child : Agg F) (w : Weights F) (deltaScalar : F) :
    Except String String :=
  let tollDelta := sub (component child) (component parent)
  if le tollDelta zero then .ok ""
  else do
    let rawDelta := sub deltaScalar tollDelta
    let split := "diff_complexity: raw quality delta " ++ format "+.6f" rawDelta ++ ", toll " ++
      format "+.6f" tollDelta
    let cleared := if le rawDelta (neg w.promoteMargin) then
        ["the raw delta alone would have cleared the promote margin"]
      else []
    let evidence ← diffSizeEvidence parent child
    .ok (" [" ++ "; ".intercalate (split :: cleared ++ evidence) ++ "]")

/-- Rule 0's reason. -/
def ceilingReason (child : Agg F) (w : Weights F) : Except String String :=
  if lt zero w.diffComplexityCeiling then
    match child.diffSize with
    | none => .ok ""
    | some size => do
        let complexity ← diffComplexity size
        if lt w.diffComplexityCeiling complexity then
          .ok ("diff_complexity_ceiling: diff complexity " ++ format "g" complexity ++
            " exceeds ceiling " ++ format "g" w.diffComplexityCeiling)
        else .ok ""
  else .ok ""

/-- Rule 1 rejects. -/
def marginMissed (parent child : Agg F) (w : Weights F) : Bool :=
  lt (sub parent.scalar w.promoteMargin) child.scalar

/-- Rule 1's reason. -/
def scalarReason (parent child : Agg F) (w : Weights F) : Except String String :=
  if marginMissed parent child w then do
    let delta := sub child.scalar parent.scalar
    let verdict :=
      if lt zero delta then
        "challenger regressed: loss rose by " ++ fixed6 delta ++ " (champion " ++
          fixed6 parent.scalar ++ " -> challenger " ++ fixed6 child.scalar ++
          "); a promotion needs the loss to drop by at least " ++ fixed6 w.promoteMargin
      else
        "insufficient improvement: loss fell by only " ++ fixed6 (neg delta) ++ " (champion " ++
          fixed6 parent.scalar ++ " -> challenger " ++ fixed6 child.scalar ++
          "); a promotion needs a drop of at least " ++ fixed6 w.promoteMargin
    let toll ← parsimonyDecomposition parent child w delta
    .ok (verdict ++ toll)
  else .ok ""

/-- Rule 2's reason. -/
def passReason (parent child : Agg F) (w : Weights F) : String :=
  if w.passRateMonotonicity then passRateRegressionReason parent child w "" 0 else ""

/-- Rule 3's reason. -/
def namespaceReason (parent child : Agg F) (w : Weights F) : String :=
  match regressedNamespaces parent child w with
  | [] => ""
  | regressed => namespaceRegressionReason parent child regressed

/-- The reason of the holdout step, which runs when both sides are given. -/
def holdoutReason (w : Weights F) (holdoutParent holdoutChild : Option (Agg F)) : String :=
  match holdoutParent, holdoutChild with
  | some parent, some child => holdoutConfirms parent child w
  | _, _ => ""

/-- The first side with unstarted board units. -/
def incompleteSide (parent child : Agg F) (holdoutParent holdoutChild : Option (Agg F)) :
    Option String :=
  ([("champion", some parent), ("challenger", some child), ("holdout champion", holdoutParent),
      ("holdout challenger", holdoutChild)].find? fun side =>
    side.2.any fun agg => !agg.incompleteEntries.isEmpty).map Prod.fst

/-- The finite-evidence check of the training side. -/
def evidenceReason (parent child : Agg F) : String :=
  nonfiniteEvidence
    [("champion scalar", parent.scalar), ("challenger scalar", child.scalar),
      ("champion mean_score", meanScore parent), ("challenger mean_score", meanScore child)]

/-! ## The explanation -/

/-- The rules of the gate. -/
inductive RuleId
  | regressionSuite
  | completeExecution
  | finiteEvidence
  | diffComplexityCeiling
  | scalarMargin
  | passRateMonotonicity
  | namespaceMonotonicity
  | holdoutConfirmation
  deriving DecidableEq, Repr

namespace RuleId

/-- The id of a rule. -/
def asStr : RuleId → String
  | regressionSuite => "regression_suite"
  | completeExecution => "complete_execution"
  | finiteEvidence => "finite_evidence"
  | diffComplexityCeiling => "diff_complexity_ceiling"
  | scalarMargin => "scalar_margin"
  | passRateMonotonicity => "pass_rate_monotonicity"
  | namespaceMonotonicity => "namespace_monotonicity"
  | holdoutConfirmation => "holdout_confirmation"

/-- The label of a rule. -/
def label : RuleId → String
  | regressionSuite => "Regression suite"
  | completeExecution => "Complete execution"
  | finiteEvidence => "Finite scores"
  | diffComplexityCeiling => "Edit complexity limit"
  | scalarMargin => "Scalar margin"
  | passRateMonotonicity => "Pass-rate monotonicity"
  | namespaceMonotonicity => "Namespace monotonicity"
  | holdoutConfirmation => "Holdout confirmation"

end RuleId

/-- How a rule ended. -/
inductive RuleStatus
  | notReached
  | disabled
  | skipped
  | unknown
  | pass
  | fail
  deriving DecidableEq, Repr

/-- The status as recorded. -/
def RuleStatus.asStr : RuleStatus → String
  | notReached => "not_reached"
  | disabled => "disabled"
  | skipped => "skipped"
  | unknown => "unknown"
  | pass => "pass"
  | fail => "fail"

/-- A line of the audit. -/
structure Rule where
  id : RuleId
  status : RuleStatus := .notReached
  detail : String := ""
  fired : Bool := false
  deriving DecidableEq, Repr

/-- `rule(name, label, enabled)`. -/
def rule (id : RuleId) (enabled : Bool := true) : Rule :=
  if enabled then { id := id } else { id := id, status := .disabled, detail := "disabled" }

/-- Some namespace is monitored. -/
def namespacesEnabled (w : Weights F) : Bool := w.namespaceMonotonicity.any (monitored w)

/-- The rules as the gate starts with them. -/
def openRules (w : Weights F) : List Rule :=
  [if w.regressionGateEnabled then
      { id := .regressionSuite, status := .unknown, detail := "regression suite has not been run" }
    else { id := .regressionSuite, status := .skipped, detail := "disabled" },
    rule .scalarMargin, rule .passRateMonotonicity w.passRateMonotonicity,
    rule .namespaceMonotonicity (namespacesEnabled w)]

/-- The list with a rule updated in place. -/
def put (rules : List Rule) (updated : Rule) : List Rule :=
  rules.map fun r => if r.id = updated.id then updated else r

/-- Rule 0 while it is checked is the first of the list. -/
def ceilingRules (w : Weights F) : List Rule :=
  if lt zero w.diffComplexityCeiling then rule .diffComplexityCeiling :: openRules w
  else openRules w

/-- The audit after the diff ceiling. -/
def afterCeiling (child : Agg F) (w : Weights F) : List Rule :=
  put (ceilingRules w)
    (if child.diffSize.isSome then
      { id := .diffComplexityCeiling, status := .pass, detail := "within limit" }
    else { id := .diffComplexityCeiling, status := .unknown, detail := "edit complexity not recorded" })

/-- Rule 1 is entered as passed before it is checked. -/
def scalarRule (parent child : Agg F) (w : Weights F) : Rule where
  id := .scalarMargin
  status := .pass
  detail := fixed2 parent.scalar ++ " → " ++ fixed2 child.scalar ++ " (" ++
    signed2 (sub child.scalar parent.scalar) ++ "; needs ≤ " ++ fixed2 (neg w.promoteMargin) ++ ")"

/-- The audit after the scalar. -/
def scalarRules (parent child : Agg F) (w : Weights F) : List Rule :=
  put (afterCeiling child w) (scalarRule parent child w)

/-- Rule 2 while it is checked. -/
def passRule (parent child : Agg F) (w : Weights F) : Rule :=
  match w.passRateMonotonicityScope with
  | .perEntry => rule .passRateMonotonicity
  | .aggregate =>
      { rule .passRateMonotonicity with
        detail := "overall " ++ fixed2 (meanScore parent) ++ " → " ++ fixed2 (meanScore child) ++
          " (" ++ signed2 (sub (meanScore child) (meanScore parent)) ++ "; aggregate scope)" }

/-- `detail or fallback`. -/
def orElse (detail fallback : String) : String := if detail ≠ "" then detail else fallback

/-- The audit after the pass rate. -/
def afterPass (parent child : Agg F) (w : Weights F) : List Rule :=
  if w.passRateMonotonicity then
    put (scalarRules parent child w)
      { id := .passRateMonotonicity, status := .pass
        detail := orElse (passRule parent child w).detail "all preserved" }
  else scalarRules parent child w

/-- The audit after the namespaces. -/
def afterNamespaces (parent child : Agg F) (w : Weights F) : List Rule :=
  if namespacesEnabled w then
    put (afterPass parent child w)
      (if child.namespaceAggregates.isSome then
        { id := .namespaceMonotonicity, status := .pass, detail := "all within bounds" }
      else
        { id := .namespaceMonotonicity, status := .unknown
          detail := "namespace aggregates not recorded" })
  else afterPass parent child w

/-- `active_rule.update(status="fail", ...)` in the list, where a rule that is not
there is put first. -/
def fire (rules : List Rule) (active : Rule) (reason : String) : List Rule :=
  let fired : Rule :=
    { id := active.id, status := .fail, detail := orElse active.detail reason, fired := true }
  if rules.any (·.id = active.id) then put rules fired else fired :: rules

/-- What was not reached is said to be so. -/
def closeRules (rules : List Rule) : List Rule :=
  rules.map fun r =>
    if r.status = .notReached then { r with detail := "not reached (an earlier rule fired)" } else r

/-- The decision of the gate with its audit. -/
structure Explanation (F : Type) where
  decision : TournamentDecision
  reason : String
  decidingRule : Option RuleId
  rules : List Rule
  margin : F
  championScalar : F
  challengerScalar : F
  deltaScalar : F
  deltaPassRate : F
  regressedPredicate : Option String
  regressedNamespace : Option String
  deriving DecidableEq

/-- `GateOutcome`. -/
structure Verdict (F : Type) where
  outcome : GateOutcome F
  attributableRegressions : List String
  explanation : Explanation F
  deriving DecidableEq

section Evaluate
variable (parent child : Agg F) (w : Weights F)

/-- What every verdict of a duel has in common. -/
def conclude (decision : TournamentDecision) (reason : String) (deciding : Option RuleId)
    (rules : List Rule) (attributable : List String) : Verdict F :=
  let deltaScalar := sub child.scalar parent.scalar
  let deltaPassRate := sub (child.passRate.getD one) (parent.passRate.getD one)
  { outcome :=
      { decision := decision, reason := reason, deltaScalar := deltaScalar
        deltaPassRate := deltaPassRate }
    attributableRegressions := attributable
    explanation :=
      { decision := decision
        reason := reason
        decidingRule := deciding
        rules := closeRules rules
        margin := w.promoteMargin
        championScalar := parent.scalar
        challengerScalar := child.scalar
        deltaScalar := deltaScalar
        deltaPassRate := deltaPassRate
        regressedPredicate :=
          if deciding = some .passRateMonotonicity then (regressedEntries parent child).head?
          else none
        regressedNamespace :=
          if deciding = some .namespaceMonotonicity then (regressedNamespaces parent child w).head?
          else none } }

/-- `finish` of a duel that a rule stops. -/
def stopped (decision : TournamentDecision) (reason : String) (active : Rule) (rules : List Rule)
    (attributable : List String) : Verdict F :=
  conclude parent child w decision reason (some active.id) (fire rules active reason) attributable

/-- A rejection by `active`. -/
def rejectedBy (reason : String) (active : Rule) (rules : List Rule) : Verdict F :=
  stopped parent child w .rejected reason active rules (attributableEntryRegressions parent child)

/-- The rules when nothing stopped the duel. -/
def finalRules (holdoutParent holdoutChild : Option (Agg F)) : List Rule :=
  if holdoutParent.isSome && holdoutChild.isSome then
    afterNamespaces parent child w ++
      [{ id := .holdoutConfirmation, status := .pass, detail := "confirmed" }]
  else afterNamespaces parent child w

/-- The rules after Rule 1. -/
def evaluateRest (holdoutParent holdoutChild : Option (Agg F)) : Verdict F :=
  if passReason parent child w ≠ "" then
    rejectedBy parent child w (passReason parent child w) (passRule parent child w)
      (scalarRules parent child w)
  else if namespaceReason parent child w ≠ "" then
    rejectedBy parent child w (namespaceReason parent child w)
      (rule .namespaceMonotonicity (namespacesEnabled w)) (afterPass parent child w)
  else if holdoutReason w holdoutParent holdoutChild ≠ "" then
    rejectedBy parent child w (holdoutReason w holdoutParent holdoutChild)
      (rule .holdoutConfirmation)
      (afterNamespaces parent child w ++ [rule .holdoutConfirmation])
  else
    conclude parent child w .promoted "" none
      (finalRules parent child w holdoutParent holdoutChild)
      (attributableEntryRegressions parent child)

/-- `evaluate_gate`. -/
def evaluateGate (holdoutParent holdoutChild : Option (Agg F)) : Except String (Verdict F) :=
  match incompleteSide parent child holdoutParent holdoutChild with
  | some side =>
      .ok (stopped parent child w .deferred
        ("incomplete execution: " ++ side ++ " has unstarted board units")
        (rule .completeExecution) (openRules w) [])
  | none =>
      if evidenceReason parent child ≠ "" then
        .ok (rejectedBy parent child w (evidenceReason parent child) (rule .finiteEvidence)
          (openRules w))
      else do
        let ceiling ← ceilingReason child w
        if ceiling ≠ "" then
          .ok (rejectedBy parent child w ceiling (rule .diffComplexityCeiling) (ceilingRules w))
        else do
          let margin ← scalarReason parent child w
          if margin ≠ "" then
            .ok (rejectedBy parent child w margin (scalarRule parent child w)
              (scalarRules parent child w))
          else .ok (evaluateRest parent child w holdoutParent holdoutChild)

end Evaluate

end Zicato.Gate
