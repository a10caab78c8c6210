import Zicato.ReplicateRuns

/-! # Replicates in another order

Means, totals and votes do not depend on the order of the replicates; the lists
of a fold come out in another order.  What one replicate stands for follows the
replicate: the first one for the fields that are passed through and for the
weight of a judge, the last one that reports it for the type of a judge's error. -/
open List
namespace Zicato.Scoring

variable {β : Type} {weights : ScoringWeights}

/-- The loss of a judge without its weight, which is the contract's. -/
def JudgeLoss.unweighted (jl : JudgeLoss) : JudgeLoss := { jl with weight := 0 }

/-- The errors of a judge without the type of the last one. -/
def JudgeError.untyped (je : JudgeError) : JudgeError := { je with lastErrorType := "" }

/-- Folds of the same replicates in different orders. -/
structure Reordered (p p' : LossProfile β) : Prop where
  taskFailureRatio : p.taskFailureRatio = p'.taskFailureRatio
  runtimeMs : p.runtimeMs = p'.runtimeMs
  driftLoss : p.driftLoss = p'.driftLoss
  passFail : p.passFail = p'.passFail
  score : p.score = p'.score
  metrics : Option.Rel List.Perm p.metrics p'.metrics
  metricCounts : p.metricCounts.Perm p'.metricCounts
  tokensSpent : p.tokensSpent = p'.tokensSpent
  outputChars : p.outputChars = p'.outputChars
  schemaFailures : p.schemaFailures = p'.schemaFailures
  perJudgeLoss : (p.perJudgeLoss.map JudgeLoss.unweighted).Perm
    (p'.perJudgeLoss.map JudgeLoss.unweighted)
  judgeErrors : (p.judgeErrors.map JudgeError.untyped).Perm (p'.judgeErrors.map JudgeError.untyped)
  notCompleted : p.notCompleted = p'.notCompleted
  measurement : p.measurement = p'.measurement
  sourceMeasurements : p.sourceMeasurements.Perm p'.sourceMeasurements

/-! ## Folds of a permuted list -/

theorem mean_perm {l l' : List ℚ} (h : l.Perm l') : mean l = mean l' := by
  rw [mean, mean, h.sum_eq, h.length_eq]

theorem meanOverPresent_perm {l l' : List (Option ℚ)} (h : l.Perm l') :
    meanOverPresent l = meanOverPresent l' := by
  have hpresent : (l.filterMap id).Perm (l'.filterMap id) := h.filterMap id
  have hnil : l.filterMap id = [] ↔ l'.filterMap id = [] :=
    ⟨fun heq => (heq ▸ hpresent).nil_eq.symm, fun heq => (heq ▸ hpresent).eq_nil⟩
  rw [meanOverPresent, meanOverPresent, mean_perm hpresent]
  exact if_congr hnil rfl rfl

/-- Groups of a permuted list, with values that do not depend on the order. -/
theorem groups_perm {α κ δ : Type} [BEq κ] [LawfulBEq κ] {key : α → κ} {items items' : List α}
    {f f' : κ → δ} (h : items.Perm items') (hf : ∀ k, f k = f' k) :
    ((items.map key).eraseDups.map f).Perm ((items'.map key).eraseDups.map f') := by
  rw [funext hf]
  exact (eraseDups_perm fun k => (h.map key).mem_iff).map f'

section Folds
variable {l l' : List (LossProfile β)} (h : l.Perm l')
include h

theorem roundedMean_perm (field : LossProfile β → Int) :
    roundedMean field l = roundedMean field l' := by
  rw [roundedMean, roundedMean, mean_perm (h.map _)]

theorem majorityPass_perm : majorityPass l = majorityPass l' := by
  have hvotes : (l.filterMap LossProfile.passFail).Perm (l'.filterMap LossProfile.passFail) :=
    h.filterMap _
  have hnil : l.filterMap LossProfile.passFail = [] ↔ l'.filterMap LossProfile.passFail = [] :=
    ⟨fun heq => (heq ▸ hvotes).nil_eq.symm, fun heq => (heq ▸ hvotes).eq_nil⟩
  rw [majorityPass, majorityPass, hvotes.length_eq, hvotes.count_eq]
  exact if_congr hnil rfl rfl

/-- The means of metrics do not depend on the order of draws. -/
theorem meanMetrics_perm : Option.Rel List.Perm (meanMetrics l) (meanMetrics l') := by
  have hkeys : ((l.flatMap fun p => p.metricsOr.keys).eraseDups).Perm
      ((l'.flatMap fun p => p.metricsOr.keys).eraseDups) :=
    eraseDups_perm fun k => (h.flatMap_right _).mem_iff
  have hvalue : ∀ key, meanOverPresent (l.map fun p => p.metricsOr.get? key) =
      meanOverPresent (l'.map fun p => p.metricsOr.get? key) := fun key =>
    meanOverPresent_perm (h.map _)
  rw [meanMetrics, meanMetrics]
  simp only [hvalue]
  by_cases hnil : (l.flatMap fun p => p.metricsOr.keys).eraseDups = []
  · rw [if_pos hnil, if_pos (hnil ▸ hkeys).nil_eq.symm]
    exact .none
  · rw [if_neg hnil, if_neg fun heq => hnil (heq ▸ hkeys).eq_nil]
    exact .some (hkeys.filterMap _)

theorem meanMetricCounts_perm : (meanMetricCounts l).Perm (meanMetricCounts l') := by
  have hcounts := h.flatMap_right LossProfile.metricCounts
  refine groups_perm hcounts fun key => ?_
  rw [sumUnder_perm hcounts, h.length_eq]

theorem meanPerJudgeLoss_perm : ((meanPerJudgeLoss l).map JudgeLoss.unweighted).Perm
    ((meanPerJudgeLoss l').map JudgeLoss.unweighted) := by
  have hlosses := h.flatMap_right LossProfile.perJudgeLoss
  rw [meanPerJudgeLoss, meanPerJudgeLoss, map_map, map_map]
  refine groups_perm hlosses fun name => ?_
  simp only [Function.comp_apply, JudgeLoss.unweighted, sumUnder_perm hlosses, h.length_eq]

theorem sumJudgeErrors_perm : ((sumJudgeErrors l).map JudgeError.untyped).Perm
    ((sumJudgeErrors l').map JudgeError.untyped) := by
  have herrors := h.flatMap_right LossProfile.judgeErrors
  rw [sumJudgeErrors, sumJudgeErrors, map_map, map_map]
  refine groups_perm herrors fun name => ?_
  simp only [Function.comp_apply, JudgeError.untyped, sumUnder_perm herrors]

end Folds

/-- Nor does the profile, up to the order of its lists. -/
theorem foldProfiles_reordered {first first' : LossProfile β} {rest rest' : List (LossProfile β)}
    (h : (first :: rest).Perm (first' :: rest')) :
    Reordered (foldProfiles first rest) (foldProfiles first' rest') where
  taskFailureRatio := mean_perm (h.map _)
  runtimeMs := roundedMean_perm h _
  driftLoss := mean_perm (h.map _)
  passFail := majorityPass_perm h
  score := meanOverPresent_perm (h.map _)
  metrics := meanMetrics_perm h
  metricCounts := meanMetricCounts_perm h
  tokensSpent := roundedMean_perm h _
  outputChars := roundedMean_perm h _
  schemaFailures := roundedMean_perm h _
  perJudgeLoss := meanPerJudgeLoss_perm h
  judgeErrors := sumJudgeErrors_perm h
  notCompleted := h.any_eq
  measurement := by
    have hlength := Nat.succ.inj h.length_eq
    cases rest with
    | nil =>
      obtain rfl := length_eq_zero_iff.mp hlength.symm
      obtain rfl := List.cons.inj (perm_singleton.mp h) |>.1
      rfl
    | cons p ps =>
      cases rest' with
      | nil => cases hlength
      | cons p' ps' => rfl
  sourceMeasurements := by
    have hlength := Nat.succ.inj h.length_eq
    cases rest with
    | nil =>
      obtain rfl := length_eq_zero_iff.mp hlength.symm
      obtain rfl := List.cons.inj (perm_singleton.mp h) |>.1
      exact Perm.refl _
    | cons p ps =>
      cases rest' with
      | nil => cases hlength
      | cons p' ps' => exact h.flatMap_right draws

/-! ## The fold of a board -/

/-- The averages are of the same entries. -/
theorem keys_averageReplicateLosses {first : Dict String (LossProfile β)}
    {rest : List (Dict String (LossProfile β))} (hentries : SameEntries (first :: rest)) :
    (averageReplicateLosses (first :: rest)).keys = first.keys := by
  have hsome : ∀ k ∈ first.keys, (foldOf (profilesOf (first :: rest) k)).isSome :=
    fun _ hk => foldOf_profilesOf hentries hk
  rw [averageReplicateLosses_cons]
  generalize first.keys = keys at hsome
  clear hentries
  induction keys with
  | nil => rfl
  | cons k ks ih =>
    obtain ⟨hk, hks⟩ := forall_mem_cons.mp hsome
    obtain ⟨p, hp⟩ := Option.isSome_iff_exists.mp hk
    rw [comprehension, filterMap_cons, hp, Option.map_some, Dict.keys, map_cons]
    exact congrArg (k :: ·) (ih hks)

/-- The fold of a board, entry by entry and as a whole. -/
theorem averageReplicateLosses_keeps_scores (weights : ScoringWeights)
    (runs : List (Dict String (LossProfile β))) (hne : runs ≠ []) (hentries : SameEntries runs)
    (hnames : PlainNames (individualRuns runs)) :
    (∀ run ∈ runs, (averageReplicateLosses runs).keys.Perm run.keys) ∧
      (∀ entryId p, (averageReplicateLosses runs).get? entryId = some p →
        entryScore p = (if (profilesOf runs entryId).filterMap entryScore = [] then none
          else some (mean ((profilesOf runs entryId).filterMap entryScore))) ∧
        p.driftLoss = mean ((profilesOf runs entryId).map LossProfile.driftLoss) ∧
        ∃ first, (profilesOf runs entryId).head? = some first ∧ p.entryId = first.entryId ∧
          p.rest = first.rest ∧ ((∀ q ∈ individualRuns runs, started q = true) →
            p.executionStarted = first.executionStarted)) ∧
      (∀ ns, ns ≠ "failure:" → ns ≠ "runtime:" →
        Dict.get? (aggregateNamespacedMetrics (foldedProfiles runs) weights) ns =
          Dict.get? (aggregateNamespacedMetrics (individualRuns runs) weights) ns) ∧
      (0 ≤ Dict.getD weights.namespaceWeights "failure:" 0 → 0 ≤ weights.notCompletedWeight →
        Dict.getD (aggregateNamespacedMetrics (individualRuns runs) weights) "failure:" 0 ≤
          Dict.getD (aggregateNamespacedMetrics (foldedProfiles runs) weights) "failure:" 0) ∧
      ∀ runs', runs.Perm runs' →
        (averageReplicateLosses runs).keys.Perm (averageReplicateLosses runs').keys ∧
        ∀ entryId p p', (averageReplicateLosses runs).get? entryId = some p →
          (averageReplicateLosses runs').get? entryId = some p' → Reordered p p' := by
  obtain ⟨first, rest, rfl⟩ := List.exists_cons_of_ne_nil hne
  have hlookup : ∀ (first : Dict String (LossProfile β)) rest, SameEntries (first :: rest) →
      ∀ entryId p, (averageReplicateLosses (first :: rest)).get? entryId = some p →
        ∃ q qs, profilesOf (first :: rest) entryId = q :: qs ∧ p = foldProfiles q qs := by
    intro first rest hentries entryId p hget
    have hmem : entryId ∈ first.keys := by
      rw [← keys_averageReplicateLosses hentries]
      by_contra habsent
      rw [(Dict.get?_eq_none_iff _ _).mpr habsent] at hget
      cases hget
    obtain ⟨q, qs, hprofiles, -, hfold⟩ := fold_of_entry hentries hmem
    exact ⟨q, qs, hprofiles, Option.some.inj (hget.symm.trans hfold)⟩
  refine ⟨?_, ?_, ?_, ?_, ?_⟩
  · intro run hrun
    rw [keys_averageReplicateLosses hentries]
    exact hentries.same first List.mem_cons_self run hrun
  · intro entryId p hget
    obtain ⟨q, qs, hprofiles, rfl⟩ := hlookup first rest hentries entryId p hget
    rw [hprofiles]
    refine ⟨entryScore_foldProfiles q qs, rfl, q, rfl, rfl, rfl, fun hstarted => ?_⟩
    refine if_neg fun hany => ?_
    obtain ⟨r, hr, hstopped⟩ := List.any_eq_true.mp hany
    rw [← hprofiles, mem_profilesOf_iff hentries.nodup] at hr
    obtain ⟨run, hrun, hitem⟩ := hr
    rw [hstarted r (mem_individualRuns_iff.mpr ⟨run, hrun, entryId, hitem⟩)] at hstopped
    cases hstopped
  · intro ns hfailure hruntime
    by_cases hns : Namespace (individualRuns (first :: rest)) weights ns
    · rw [get?_aggregateNamespacedMetrics hns,
        get?_aggregateNamespacedMetrics ((namespace_foldedProfiles hentries hnames).mpr hns),
        aggregateOf_foldedProfiles hentries hnames hfailure hruntime]
    · have hnone := mt (namespace_foldedProfiles hentries hnames).mp hns
      rw [get?_aggregateNamespacedMetrics_of_not hns, get?_aggregateNamespacedMetrics_of_not hnone]
  · intro hweight hcharge
    rw [Dict.getD, Dict.getD]
    by_cases hns : Namespace (individualRuns (first :: rest)) weights "failure:"
    · rw [get?_aggregateNamespacedMetrics hns,
        get?_aggregateNamespacedMetrics ((namespace_foldedProfiles hentries hnames).mpr hns)]
      exact aggregateOf_failure_le hentries hnames hweight hcharge
    · have hnone := mt (namespace_foldedProfiles hentries hnames).mp hns
      rw [get?_aggregateNamespacedMetrics_of_not hns, get?_aggregateNamespacedMetrics_of_not hnone]
  · intro runs' hperm
    have hne' : runs' ≠ [] := by
      rintro rfl
      exact hne hperm.eq_nil
    obtain ⟨first', rest', rfl⟩ := List.exists_cons_of_ne_nil hne'
    have hentries' : SameEntries (first' :: rest') :=
      ⟨fun run hrun => hentries.nodup run (hperm.mem_iff.mpr hrun), fun run hrun run' hrun' =>
        hentries.same run (hperm.mem_iff.mpr hrun) run' (hperm.mem_iff.mpr hrun')⟩
    refine ⟨?_, ?_⟩
    · rw [keys_averageReplicateLosses hentries, keys_averageReplicateLosses hentries']
      exact hentries.same first List.mem_cons_self first' (hperm.mem_iff.mpr List.mem_cons_self)
    · intro entryId p p' hget hget'
      obtain ⟨q, qs, hprofiles, rfl⟩ := hlookup first rest hentries entryId p hget
      obtain ⟨q', qs', hprofiles', rfl⟩ := hlookup first' rest' hentries' entryId p' hget'
      refine foldProfiles_reordered ?_
      rw [← hprofiles, ← hprofiles']
      exact hperm.filterMap _

/-- A run whose judge failed in some way. -/
def judgedRun (errorType : String) : Dict String (LossProfile Unit) :=
  [("e1", { pricedRun with
    judgeErrors := [⟨"tone", 1, 1, errorType⟩] })]

theorem averageReplicateLosses_keeps_scores_judgedRun :
    (averageReplicateLosses [judgedRun "timeout", judgedRun "refusal"]).keys.Perm
      (judgedRun "timeout").keys :=
  (averageReplicateLosses_keeps_scores doubledWeights
    [judgedRun "timeout", judgedRun "refusal"] (by decide)
    ⟨by decide, by decide⟩ ⟨by decide, by decide⟩).1 _
    List.mem_cons_self

/-- The order of two replicates decides the error type of the fold. -/
theorem error_type_follows_the_order :
    SameEntries [judgedRun "timeout", judgedRun "refusal"] ∧
      PlainNames (individualRuns [judgedRun "timeout", judgedRun "refusal"]) ∧
      (∀ p ∈ individualRuns [judgedRun "timeout", judgedRun "refusal"], started p = true) ∧
      ((averageReplicateLosses [judgedRun "timeout", judgedRun "refusal"]).get? "e1").map
          (fun p => p.judgeErrors) = some [⟨"tone", 2, 2, "refusal"⟩] ∧
      ((averageReplicateLosses [judgedRun "refusal", judgedRun "timeout"]).get? "e1").map
          (fun p => p.judgeErrors) = some [⟨"tone", 2, 2, "timeout"⟩] := by
  refine ⟨⟨?_, ?_⟩, ⟨?_, ?_⟩, ?_, ?_, ?_⟩ <;> decide

end Zicato.Scoring
