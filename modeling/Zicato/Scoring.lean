import Mathlib.Data.List.Sort
import Mathlib.Data.Rat.Floor
import Mathlib.Data.String.Basic
import Zicato.DictWrites
import Zicato.PyExcept

/-! # Scores

`zicato/core/loss.py`, `zicato/core/scoring_config.py`, `zicato/scoring` and
`zicato/tournament/scoring.py`: what a run measured, what a contract weighs, and
the scalar of a generation.  The arithmetic is exact, so a number is a rational
and `math.fsum` is the sum. -/
namespace Zicato.Scoring

/-! ## Loss profiles -/

/-- `MetricSeverity`. -/
inductive MetricSeverity
  | info
  | warning
  | critical
  | none
  deriving DecidableEq, Repr

/-- `MetricCount`. -/
structure MetricCount where
  name : String
  severity : MetricSeverity := .none
  count : ℚ := 0
  deriving DecidableEq

/-- `JudgeLoss`. -/
structure JudgeLoss where
  judgeName : String
  rawLoss : ℚ
  weight : ℚ
  weightedLoss : ℚ
  deriving DecidableEq

/-- `JudgeError`. -/
structure JudgeError where
  judgeName : String
  invocations : Int
  errors : Int
  lastErrorType : String := ""
  deriving DecidableEq

/-- `MeasurementDraw`; the base seed may be null. -/
structure MeasurementDraw where
  purpose : String
  draw : Nat
  baseSeed : Option Int := .none
  deriving DecidableEq

/-- `LossProfile`; `rest` is what neither the scalar nor the gate reads. -/
structure LossProfile (β : Type) where
  entryId : String
  taskFailureRatio : ℚ
  runtimeMs : Int
  driftLoss : ℚ
  passFail : Option Bool
  score : Option ℚ := .none
  metrics : Option (Dict String ℚ) := .none
  metricCounts : List MetricCount := []
  tokensSpent : Int := 0
  outputChars : Int := 0
  schemaFailures : Int := 0
  perJudgeLoss : List JudgeLoss := []
  judgeErrors : List JudgeError := []
  notCompleted : Bool := false
  executionStarted : Option Bool := .none
  measurement : Option MeasurementDraw := .none
  sourceMeasurements : List (Option MeasurementDraw) := []
  rest : β

variable {β : Type}

/-- The channels that are derived from outcomes. -/
def derivedMetrics (loss : LossProfile β) : List MetricCount :=
  (loss.perJudgeLoss.map fun jl =>
      { name := "judge:" ++ jl.judgeName, count := jl.weightedLoss : MetricCount }) ++
    [{ name := "failure:tasks", count := loss.taskFailureRatio },
      { name := "failure:not_completed", count := if loss.notCompleted then 1 else 0 },
      { name := "runtime:seconds", count := loss.runtimeMs / 1000 }]

/-- A derived metric is added unless its name is taken. -/
@[grind =] def addDerived (out : List MetricCount) : List MetricCount → List MetricCount
  | [] => out
  | mc :: rest =>
      if (out.map MetricCount.name).contains mc.name = true then addDerived out rest
      else addDerived (out ++ [mc]) rest

/-- `LossProfile.scoring_metrics`. -/
def scoringMetrics (loss : LossProfile β) : List MetricCount :=
  addDerived loss.metricCounts (derivedMetrics loss)

/-! ## The contract -/

/-- A declarative transform, `{"op": ..., ...params}`. -/
structure TransformSpec where
  op : String
  params : Dict String ℚ := []
  deriving DecidableEq

/-- The parameters of each registered shape. -/
def requiredParams : Dict String (List String) :=
  [("linear", []), ("pow", ["exponent"]), ("harmonic", []), ("cap", ["max"]),
    ("clip", ["lo", "hi"]), ("log1p", [])]

/-- `validate_transform_spec`; every rational is finite. -/
def validateTransformSpec (spec : TransformSpec) : Except String Unit :=
  match Dict.get? requiredParams spec.op with
  | none => .error s!"unknown transform op {spec.op}"
  | some required => do
      require (spec.params.keys.all (required.contains ·))
        s!"transform op {spec.op} got unexpected param(s)"
      require (required.all (spec.params.keys.contains ·))
        s!"transform op {spec.op} requires its params"
      require (spec.op != "clip" ||
          decide (Dict.getD spec.params "lo" 0 ≤ Dict.getD spec.params "hi" 0))
        "transform op 'clip' requires lo <= hi"

/-- `is_neutral`. -/
def isNeutral : Option TransformSpec → Bool
  | none => true
  | some spec => spec.op == "linear"

/-- `ScoringWeights`: what the contract says about scoring and promotion. -/
structure ScoringWeights where
  passWeight : ℚ := 1
  perKindWeights : Dict String ℚ := []
  taskFailureWeight : ℚ := 10
  notCompletedWeight : ℚ := 50
  promoteMargin : ℚ := 1 / 100
  holdoutMargin : Option ℚ := none
  holdoutEntryRegressionBudget : Int := 0
  passRateMonotonicityScope : String := "per_entry"
  regressionTimeoutS : Int := 600
  namespaceWeights : Dict String ℚ
  telemetryDialect : String := "goldfive"
  passTransform : Option TransformSpec := none
  driftKindAggregation : Dict String TransformSpec := []
  scalarFn : String := ""
  tournamentStructure : String := "gauntlet"
  tournamentParams : List String := []
  /-- `experimental.tournament_structures`. -/
  tournamentStructures : Bool := false
  /-- `experimental.diff_complexity_weight`. -/
  diffComplexityWeight : ℚ := 0
  /-- `experimental.diff_complexity_ceiling`. -/
  diffComplexityCeiling : ℚ := 0

/-- A knob with an inclusive lower bound. -/
def checkMinimum (name : String) (minimum value : ℚ) : Except String Unit :=
  require (decide (minimum ≤ value)) s!"{name} must be >= {minimum}"

/-- A knob with a closed vocabulary. -/
def checkChoice (name : String) (choices : List String) (value : String) : Except String Unit :=
  require (choices.contains value) s!"{name} must be one of {choices}"

/-- `ScoringWeights.__post_init__`; the other knobs admit every finite number. -/
def ScoringWeights.postInit (w : ScoringWeights) : Except String Unit := do
  checkMinimum "promote_margin" 0 w.promoteMargin
  checkMinimum "holdout_margin" 0 (w.holdoutMargin.getD 0)
  checkMinimum "holdout_entry_regression_budget" 0 w.holdoutEntryRegressionBudget
  checkChoice "pass_rate_monotonicity_scope" ["per_entry", "aggregate"] w.passRateMonotonicityScope
  checkMinimum "regression_timeout_s" 1 w.regressionTimeoutS
  checkChoice "telemetry_dialect" ["adk_events", "goldfive", "transcript"] w.telemetryDialect
  require (decide (0 < Dict.getD w.namespaceWeights "failure:" 0))
    "namespace_weights[\"failure:\"] must be present and > 0"
  require (!w.perKindWeights.keys.contains "custom") "per_kind_weights[\"custom\"] is inert"
  match w.passTransform with
  | none => pure ()
  | some spec => validateTransformSpec spec
  w.driftKindAggregation.forM fun item => validateTransformSpec item.2
  require (!w.tournamentParams.contains "rating")
    "move tournament.params.rating to experimental.standing_rating"
  require (!w.tournamentParams.contains "resolver")
    "move tournament.params.resolver to experimental.resolver"
  require (!(["single_elim", "double_elim", "swiss"].contains w.tournamentStructure) ||
    w.tournamentStructures) s!"tournament structure {w.tournamentStructure} is experimental"

/-! ## One run -/

/-- `entry_score`; every rational is finite. -/
def entryScore (loss : LossProfile β) : Option ℚ :=
  match loss.score with
  | some value => some (if value < 0 then 0 else if 1 < value then 1 else value)
  | none =>
      match loss.passFail with
      | none => none
      | some passed => some (if passed then 1 else 0)

/-- The text up to and including the first colon. -/
@[grind =] def upToColon : List Char → List Char
  | [] => []
  | c :: rest => if c = ':' then [c] else c :: upToColon rest

/-- `_namespace_of`. -/
def namespaceOf (metricName : String) : String :=
  if metricName.toList.contains ':' then String.ofList (upToColon metricName.toList) else ""

/-- `_within_channel_weight`. -/
def withinChannelWeight (metricName : String) (weights : ScoringWeights) : ℚ :=
  if metricName = "failure:tasks" then weights.taskFailureWeight
  else if metricName = "failure:not_completed" then weights.notCompletedWeight
  else 1

/-- `_failure_channel_total`. -/
def failureChannelTotal (loss : LossProfile β) (weights : ScoringWeights) : ℚ :=
  weights.taskFailureWeight * loss.taskFailureRatio +
    (if loss.notCompleted then weights.notCompletedWeight else 0)

/-! ## Channels -/

/-- `d.setdefault(key, []).append(value)`. -/
def appendAt (d : Dict String (List ℚ)) (key : String) (value : ℚ) : Dict String (List ℚ) :=
  Dict.set d key (Dict.getD d key [] ++ [value])

/-- The weighted metrics of one run by namespace. -/
def perLoss (weights : ScoringWeights) (loss : LossProfile β) : Dict String (List ℚ) :=
  (scoringMetrics loss).foldl (fun acc mc =>
    if namespaceOf mc.name = "" ∨ namespaceOf mc.name = "drift:" then acc
    else appendAt acc (namespaceOf mc.name) (mc.count * withinChannelWeight mc.name weights)) []

/-- The terms of every run by namespace. -/
def channelTerms (weights : ScoringWeights) (losses : List (LossProfile β)) :
    Dict String (List ℚ) :=
  losses.foldl (fun acc loss =>
    (perLoss weights loss).foldl (fun acc item => appendAt acc item.1 item.2.sum) acc) []

/-- The mean of a total over a number of runs. -/
def meanOver (total : ℚ) (n : Nat) : ℚ := if 0 < n then total / n else 0

/-- `aggregate_namespaced_metrics`. -/
def aggregateNamespacedMetrics (losses : List (LossProfile β)) (weights : ScoringWeights) :
    Dict String ℚ :=
  let drift := Dict.getD weights.namespaceWeights "drift:" 0 *
    meanOver (losses.map LossProfile.driftLoss).sum losses.length
  let sums : Dict String ℚ :=
    (channelTerms weights losses).map fun item => (item.1, item.2.sum)
  let observed := (sums.keys ++ weights.namespaceWeights.keys).dedup
  observed.foldl (fun acc ns =>
    if ns = "drift:" then acc
    else Dict.set acc ns (Dict.getD weights.namespaceWeights ns 0 *
      meanOver (Dict.getD sums ns 0) losses.length)) [("drift:", drift)]

/-- `_per_judge_loss_aggregate`. -/
def perJudgeLossAggregate (losses : List (LossProfile β)) : Dict String ℚ :=
  let terms := losses.foldl (fun acc loss =>
    loss.perJudgeLoss.foldl (fun acc jl => appendAt acc jl.judgeName jl.weightedLoss) acc) []
  terms.map fun item => (item.1, meanOver item.2.sum losses.length)

/-! ## The scalar -/

/-- The size of a diff, as `diff_complexity` reads it. -/
structure DiffSize where
  added : Int := 0
  removed : Int := 0
  patches : Int := 0
  deriving DecidableEq

/-- `diff_complexity_component`. -/
def diffComplexityComponent (weights : ScoringWeights) (diffSize : Option DiffSize) : Option ℚ :=
  match diffSize with
  | none => none
  | some size =>
      if weights.diffComplexityWeight ≤ 0 then none
      else some (weights.diffComplexityWeight * (size.added + size.removed + size.patches : Int))

/-- The namespace without its trailing colon. -/
def componentName (ns : String) : String :=
  if ns.toList.getLast? = some ':' then String.ofList ns.toList.dropLast else ns

/-- The namespaces of an aggregate in order. -/
def sortedNamespaces (namespaceAggregates : Dict String ℚ) : List String :=
  namespaceAggregates.keys.insertionSort (· ≤ ·)

/-- The components of a scalar by name. -/
def scalarComponents (meanScore : ℚ) (namespaceAggregates : Dict String ℚ)
    (weights : ScoringWeights) (diffSize : Option DiffSize) : Dict String ℚ :=
  let components := (sortedNamespaces namespaceAggregates).foldl
    (fun acc ns => Dict.set acc (componentName ns) (Dict.getD namespaceAggregates ns 0))
    [("pass", weights.passWeight * (1 - meanScore))]
  match diffComplexityComponent weights diffSize with
  | none => components
  | some value => Dict.set components "diff_complexity" value

/-- `builtin_scalar`. -/
def builtinScalar (meanScore : ℚ) (namespaceAggregates : Dict String ℚ)
    (weights : ScoringWeights) (diffSize : Option DiffSize) : ℚ :=
  Dict.total (scalarComponents meanScore namespaceAggregates weights diffSize)

/-- `ScalarContext`. -/
structure ScalarContext where
  passRate : ℚ
  meanScore : ℚ
  driftLossMean : ℚ
  namespaceAggregates : Dict String ℚ
  perJudgeLoss : Dict String ℚ
  builtinScalar : ℚ
  diffSize : Option DiffSize

/-- The shapes of the registry, whose values need not be rational, and the plugins, which fail
open. -/
structure ScoringRuntime where
  applyTransform : TransformSpec → ℚ → ℚ
  applyScalarFn : String → ScalarContext → Option ℚ

/-- `resolve_scalar`, with its provenance. -/
def resolveScalar (rt : ScoringRuntime) (weights : ScoringWeights) (ctx : ScalarContext) :
    ℚ × String :=
  let pre : ℚ × String :=
    match weights.passTransform with
    | none => (ctx.builtinScalar, "builtin")
    | some spec =>
        if isNeutral (some spec) then (ctx.builtinScalar, "builtin")
        else
          (ctx.builtinScalar - weights.passWeight * (1 - ctx.meanScore) +
            weights.passWeight * rt.applyTransform spec (1 - ctx.meanScore),
            s!"transform:pass={spec.op}")
  if weights.scalarFn = "" then pre
  else
    match rt.applyScalarFn weights.scalarFn { ctx with builtinScalar := pre.1 } with
    | some value => (value, s!"plugin:scalar_fn={weights.scalarFn}")
    | none => (pre.1, s!"{pre.2} (fallback)")

/-- A row of `per_entry`. -/
structure EntryRow where
  driftLoss : ℚ
  failure : ℚ
  passFail : Option Bool
  score : Option ℚ
  deriving DecidableEq

/-- What `aggregate_generation_score` returns. -/
structure Aggregate where
  driftLossMean : ℚ
  passRate : ℚ
  meanScore : ℚ
  expectationCount : Nat
  entryCount : Nat
  scalar : ℚ
  perEntry : Dict String EntryRow
  namespaceAggregates : Dict String ℚ
  scalarComponents : Dict String ℚ
  scalarProvenance : String
  incompleteEntries : List String
  baseSeed : Option (Option Int)
  diffSize : Option DiffSize

/-- The run started, as far as it says. -/
def started (loss : LossProfile β) : Bool := loss.executionStarted != some false

/-- The draws behind a profile; none marks one without identity. -/
def draws (loss : LossProfile β) : List (Option MeasurementDraw) :=
  match loss.measurement with
  | some draw => [some draw]
  | none => if loss.sourceMeasurements = [] then [none] else loss.sourceMeasurements

/-- The one known base seed of the runs. -/
def commonSeed (losses : List (LossProfile β)) : Option (Option Int) :=
  match ((losses.flatMap draws).map (Option.map MeasurementDraw.baseSeed)).dedup with
  | [some seed] => some seed
  | _ => none

/-- The row of one run. -/
def entryRow (weights : ScoringWeights) (loss : LossProfile β) : EntryRow where
  driftLoss := loss.driftLoss
  failure := failureChannelTotal loss weights
  passFail := loss.passFail
  score := entryScore loss

/-- A mean that is one when nothing was counted. -/
def rate (total : ℚ) (n : Nat) : ℚ := if 0 < n then total / n else 1

/-- `aggregate_generation_score`. -/
def aggregateGenerationScore (rt : ScoringRuntime) (allLosses : List (LossProfile β))
    (weights : ScoringWeights) (diffSize : Option DiffSize) : Aggregate :=
  let losses := allLosses.filter started
  let votes := losses.filterMap LossProfile.passFail
  let scores := losses.filterMap entryScore
  let passRate := rate (votes.count true) votes.length
  let meanScore := rate scores.sum scores.length
  let driftLossMean := meanOver (losses.map LossProfile.driftLoss).sum losses.length
  let namespaceAggregates := aggregateNamespacedMetrics losses weights
  let resolved := resolveScalar rt weights
    { passRate := passRate, meanScore := meanScore, driftLossMean := driftLossMean
      namespaceAggregates := namespaceAggregates
      perJudgeLoss := perJudgeLossAggregate losses
      builtinScalar := builtinScalar meanScore namespaceAggregates weights diffSize
      diffSize := diffSize }
  let parsimony := (diffComplexityComponent weights diffSize).isSome ||
    decide (0 < weights.diffComplexityCeiling)
  { driftLossMean := driftLossMean
    passRate := passRate
    meanScore := meanScore
    expectationCount := votes.length
    entryCount := losses.length
    scalar := resolved.1
    perEntry := losses.foldl (fun acc loss => Dict.set acc loss.entryId (entryRow weights loss)) []
    namespaceAggregates := namespaceAggregates
    scalarComponents := scalarComponents meanScore namespaceAggregates weights diffSize
    scalarProvenance := resolved.2
    incompleteEntries :=
      (((allLosses.filter fun loss => !started loss).map LossProfile.entryId).dedup).insertionSort
        (· ≤ ·)
    baseSeed := commonSeed losses
    diffSize := if parsimony then diffSize else none }

end Zicato.Scoring
