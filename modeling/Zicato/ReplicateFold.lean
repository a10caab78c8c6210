import Zicato.Grouping
import Zicato.Scoring

/-! # Folding replicates

`average_replicate_losses` of `zicato/tournament/scoring.py`: the replicate runs
of a board become one profile an entry.  Every field that the scalar or the gate
reads has a fold of its own; the other fields are those of the first replicate. -/
namespace Zicato.Scoring

variable {β : Type}

/-! ## Folds -/

/-- `round`: to the nearest integer, ties to the even one. -/
def pyRound (x : ℚ) : Int :=
  let whole := x.floor
  if x - whole < 1 / 2 then whole
  else if 1 / 2 < x - whole then whole + 1
  else if whole % 2 = 0 then whole
  else whole + 1

/-- `sum(...) / n`. -/
def mean (values : List ℚ) : ℚ := values.sum / values.length

/-- `_mean_over_present`. -/
def meanOverPresent (values : List (Option ℚ)) : Option ℚ :=
  let present := values.filterMap id
  if present = [] then none else some (mean present)

/-- `_mean_outcome`. -/
def meanOutcome (profiles : List (LossProfile β)) : Option ℚ :=
  meanOverPresent (profiles.map entryScore)

/-- `p.metrics or {}`. -/
def LossProfile.metricsOr (p : LossProfile β) : Dict String ℚ := p.metrics.getD []

/-- `_mean_metrics`. -/
def meanMetrics (profiles : List (LossProfile β)) : Option (Dict String ℚ) :=
  let keys := (profiles.flatMap fun p => p.metricsOr.keys).eraseDups
  if keys = [] then none
  else some (keys.filterMap fun key =>
    (meanOverPresent (profiles.map fun p => p.metricsOr.get? key)).map fun value => (key, value))

/-- The bucket of a metric. -/
def MetricCount.bucket (mc : MetricCount) : String × MetricSeverity := (mc.name, mc.severity)

/-- `_mean_metric_counts`. -/
def meanMetricCounts (profiles : List (LossProfile β)) : List MetricCount :=
  let counts := profiles.flatMap LossProfile.metricCounts
  (counts.map MetricCount.bucket).eraseDups.map fun key =>
    { name := key.1
      severity := key.2
      count := sumUnder MetricCount.bucket MetricCount.count counts key / profiles.length }

/-- `_mean_per_judge_loss`; the weight is the first one reported. -/
def meanPerJudgeLoss (profiles : List (LossProfile β)) : List JudgeLoss :=
  let losses := profiles.flatMap LossProfile.perJudgeLoss
  (losses.map JudgeLoss.judgeName).eraseDups.map fun name =>
    { judgeName := name
      rawLoss := sumUnder JudgeLoss.judgeName JudgeLoss.rawLoss losses name / profiles.length
      weight := ((losses.find? fun jl => decide (jl.judgeName = name)).map JudgeLoss.weight).getD 0
      weightedLoss :=
        sumUnder JudgeLoss.judgeName JudgeLoss.weightedLoss losses name / profiles.length }

/-- The last error type that a judge reports. -/
def lastErrorType (errors : List JudgeError) (name : String) : String :=
  errors.foldl (fun last je =>
    if je.judgeName = name ∧ je.lastErrorType ≠ "" then je.lastErrorType else last) ""

/-- `_sum_judge_errors`. -/
def sumJudgeErrors (profiles : List (LossProfile β)) : List JudgeError :=
  let errors := profiles.flatMap LossProfile.judgeErrors
  (errors.map JudgeError.judgeName).eraseDups.map fun name =>
    { judgeName := name
      invocations := sumUnder JudgeError.judgeName JudgeError.invocations errors name
      errors := sumUnder JudgeError.judgeName JudgeError.errors errors name
      lastErrorType := lastErrorType errors name }

/-- The strict majority of the votes. -/
def majorityPass (profiles : List (LossProfile β)) : Option Bool :=
  let votes := profiles.filterMap LossProfile.passFail
  if votes = [] then none else some (decide (votes.length < votes.count true * 2))

/-- `round` of the mean of an integer field. -/
def roundedMean (field : LossProfile β → Int) (profiles : List (LossProfile β)) : Int :=
  pyRound (mean (profiles.map fun p => (field p : ℚ)))

/-- The profile of one entry over its replicates. -/
def foldProfiles (first : LossProfile β) (rest : List (LossProfile β)) : LossProfile β :=
  let profiles := first :: rest
  { first with
    measurement := if rest = [] then first.measurement else none
    sourceMeasurements :=
      if rest = [] then first.sourceMeasurements else profiles.flatMap draws
    executionStarted :=
      if profiles.any (fun p => !started p) then some false else first.executionStarted
    driftLoss := mean (profiles.map LossProfile.driftLoss)
    taskFailureRatio := mean (profiles.map LossProfile.taskFailureRatio)
    notCompleted := profiles.any LossProfile.notCompleted
    runtimeMs := roundedMean LossProfile.runtimeMs profiles
    passFail := majorityPass profiles
    score := meanOutcome profiles
    metrics := meanMetrics profiles
    metricCounts := meanMetricCounts profiles
    tokensSpent := roundedMean LossProfile.tokensSpent profiles
    outputChars := roundedMean LossProfile.outputChars profiles
    schemaFailures := roundedMean LossProfile.schemaFailures profiles
    perJudgeLoss := meanPerJudgeLoss profiles
    judgeErrors := sumJudgeErrors profiles }

/-- The fold of the profiles of one entry; an entry that no replicate has is skipped. -/
def foldOf : List (LossProfile β) → Option (LossProfile β)
  | [] => none
  | first :: rest => some (foldProfiles first rest)

/-- The profiles of an entry, replicate by replicate. -/
def profilesOf (runs : List (Dict String (LossProfile β))) (entryId : String) :
    List (LossProfile β) :=
  runs.filterMap fun run => run.get? entryId

/-- `average_replicate_losses`. -/
def averageReplicateLosses (runs : List (Dict String (LossProfile β))) :
    Dict String (LossProfile β) :=
  match runs with
  | [] => []
  | first :: _ => first.keys.filterMap fun entryId =>
      (foldOf (profilesOf runs entryId)).map fun profile => (entryId, profile)

end Zicato.Scoring
