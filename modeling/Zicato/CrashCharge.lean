import Zicato.ScalarSum

/-! # What a crash costs

Two lists of runs that differ in whether one run completed differ in one derived
metric of that run.  The difference passes through the magnitude of the metric,
the coefficient of the failure channel and the mean to one component of the
scalar, unless a measured metric has taken the derived one's name. -/
open List Zicato.Dict
namespace Zicato.Scoring

variable {β : Type} {weights : ScoringWeights}

/-! ## One derived metric -/

/-- The names of the derived metrics depend on names only. -/
theorem names_addDerived_congr {l l' out out' : List MetricCount}
    (hout : out.map MetricCount.name = out'.map MetricCount.name)
    (hl : l.map MetricCount.name = l'.map MetricCount.name) :
    (addDerived out l).map MetricCount.name = (addDerived out' l').map MetricCount.name := by
  induction l generalizing l' out out' with
  | nil =>
    cases l' with
    | nil => exact hout
    | cons mc' rest' => cases hl
  | cons mc rest ih =>
    cases l' with
    | nil => cases hl
    | cons mc' rest' =>
      obtain ⟨hname, hrest⟩ := List.cons.inj hl
      rw [addDerived, addDerived, hout, hname]
      split
      · exact ih hout hrest
      · refine ih ?_ hrest
        rw [map_append, map_append, hout, map_singleton, map_singleton, hname]

/-- Which derived metrics are added depends on the names there are. -/
theorem channelSum_addDerived_sub {ns : String} {l out out' : List MetricCount}
    (hout : out.map MetricCount.name = out'.map MetricCount.name) :
    channelSum weights ns (addDerived out' l) - channelSum weights ns (addDerived out l) =
      channelSum weights ns out' - channelSum weights ns out := by
  induction l generalizing out out' with
  | nil => rfl
  | cons mc rest ih =>
    rw [addDerived, addDerived, hout]
    split
    · exact ih hout
    · have happend : (out ++ [mc]).map MetricCount.name = (out' ++ [mc]).map MetricCount.name := by
        rw [map_append, map_append, hout]
      rw [ih happend, channelSum_append, channelSum_append]
      ring

/-- One derived metric that changes its count. -/
theorem channelSum_addDerived_changed {ns : String} {mc mc' : MetricCount}
    (hname : mc.name = mc'.name) (pre post out : List MetricCount)
    (hpre : mc.name ∉ pre.map MetricCount.name) :
    channelSum weights ns (addDerived out (pre ++ mc' :: post)) -
        channelSum weights ns (addDerived out (pre ++ mc :: post)) =
      if mc.name ∈ out.map MetricCount.name then 0
      else channelSum weights ns [mc'] - channelSum weights ns [mc] := by
  induction pre generalizing out with
  | nil =>
    rw [nil_append, nil_append, addDerived, addDerived, ← hname]
    split
    · rename_i htaken
      rw [if_pos (contains_iff_mem.mp htaken), sub_self]
    · rename_i hfree
      have happend : (out ++ [mc]).map MetricCount.name = (out ++ [mc']).map MetricCount.name := by
        rw [map_append, map_append, map_singleton, map_singleton, hname]
      rw [if_neg fun hmem => hfree (contains_iff_mem.mpr hmem),
        channelSum_addDerived_sub happend, channelSum_append, channelSum_append]
      ring
  | cons p pre ih =>
    rw [map_cons, mem_cons, not_or] at hpre
    rw [cons_append, cons_append, addDerived, addDerived]
    split
    · exact ih out hpre.2
    · have hmem : mc.name ∈ (out ++ [p]).map MetricCount.name ↔
          mc.name ∈ out.map MetricCount.name := by
        rw [map_append, mem_append, map_singleton, mem_singleton,
          or_iff_left hpre.1]
      rw [ih _ hpre.2]
      exact if_congr hmem rfl rfl

/-! ## One run -/

/-- The run, completed or not. -/
def LossProfile.completing (run : LossProfile β) (notCompleted : Bool) : LossProfile β :=
  { run with notCompleted := notCompleted }

/-- A metric is measured under the name of the charge. -/
def MeasuresCompletion (run : LossProfile β) : Prop :=
  "failure:not_completed" ∈ run.metricCounts.map MetricCount.name

instance (run : LossProfile β) : Decidable (MeasuresCompletion run) :=
  inferInstanceAs (Decidable (_ ∈ _))

/-- The derived metric of a run that did or did not complete. -/
def charge (notCompleted : Bool) : MetricCount where
  name := "failure:not_completed"
  count := if notCompleted then 1 else 0

@[simp] theorem charge_name (notCompleted : Bool) :
    (charge notCompleted).name = "failure:not_completed" := rfl

/-- The derived metrics before the charge. -/
def beforeCharge (run : LossProfile β) : List MetricCount :=
  (run.perJudgeLoss.map fun jl =>
      { name := "judge:" ++ jl.judgeName, count := jl.weightedLoss : MetricCount }) ++
    [{ name := "failure:tasks", count := run.taskFailureRatio }]

theorem derivedMetrics_completing (run : LossProfile β) (notCompleted : Bool) :
    derivedMetrics (run.completing notCompleted) = beforeCharge run ++ charge notCompleted ::
      [{ name := "runtime:seconds", count := run.runtimeMs / 1000 }] := by
  rw [beforeCharge, List.append_assoc]
  rfl

theorem charge_notMem_beforeCharge (run : LossProfile β) (notCompleted : Bool) :
    (charge notCompleted).name ∉ (beforeCharge run).map MetricCount.name := by
  intro hmem
  rw [beforeCharge, map_append, mem_append, map_map] at hmem
  rcases hmem with hjudge | htasks
  · obtain ⟨jl, -, hname⟩ := mem_map.mp hjudge
    have hhead := congrArg (fun s => s.toList.head?) hname
    simp [String.toList_append] at hhead
  · have htasks' : "failure:not_completed" = "failure:tasks" := mem_singleton.mp htasks
    exact absurd htasks' (by decide)

theorem names_scoringMetrics_completing (run : LossProfile β) :
    (scoringMetrics (run.completing true)).map MetricCount.name =
      (scoringMetrics (run.completing false)).map MetricCount.name := by
  refine names_addDerived_congr rfl ?_
  rw [derivedMetrics_completing, derivedMetrics_completing]
  simp

/-- What the charge adds to a channel of the run. -/
theorem channel_completing (run : LossProfile β) (ns : String) :
    channel weights ns (run.completing true) - channel weights ns (run.completing false) =
      if ns = "failure:" ∧ ¬ MeasuresCompletion run then weights.notCompletedWeight else 0 := by
  have hsum : channelSum weights ns (scoringMetrics (run.completing true)) -
      channelSum weights ns (scoringMetrics (run.completing false)) =
        if ns = "failure:" ∧ ¬ MeasuresCompletion run then weights.notCompletedWeight else 0 := by
    have hname : (charge false).name = (charge true).name := rfl
    have hns : ∀ notCompleted, namespaceOf (charge notCompleted).name = "failure:" := by
      decide
    have hweight : ∀ notCompleted, withinChannelWeight (charge notCompleted).name weights =
        weights.notCompletedWeight := fun _ => rfl
    rw [scoringMetrics, scoringMetrics, derivedMetrics_completing, derivedMetrics_completing]
    refine (channelSum_addDerived_changed hname _ _ _ (charge_notMem_beforeCharge run _)).trans ?_
    by_cases hmeasured : MeasuresCompletion run
    · have hright : ¬ (ns = "failure:" ∧ ¬ MeasuresCompletion run) := fun h => h.2 hmeasured
      rw [if_neg hright]
      exact if_pos hmeasured
    · refine (if_neg hmeasured).trans ?_
      rw [channelSum_cons, channelSum_cons, hns, hns, hweight, hweight]
      by_cases hfailure : ns = "failure:"
      · rw [if_pos hfailure.symm, if_pos hfailure.symm, if_pos ⟨hfailure, hmeasured⟩]
        simp [channelSum, charge]
      · rw [if_neg (Ne.symm hfailure), if_neg (Ne.symm hfailure), if_neg fun h => hfailure h.1]
        simp [channelSum]
  rw [channel, channel]
  split
  · rename_i hempty
    rw [if_neg fun h => absurd (hempty.symm.trans h.1) (by decide), sub_self]
  · split
    · rename_i hdrift
      rw [if_neg fun h => absurd (hdrift.symm.trans h.1) (by decide)]
      exact sub_self _
    · exact hsum

/-! ## The channels -/

section Lists
variable {before after : List (LossProfile β)} {run : LossProfile β}

/-- A completion adds no namespace. -/
theorem namespace_completing {ns : String} :
    Namespace (before ++ run.completing true :: after) weights ns ↔
      Namespace (before ++ run.completing false :: after) weights ns := by
  have hrun : (∃ mc ∈ scoringMetrics (run.completing true), namespaceOf mc.name = ns) ↔
      ∃ mc ∈ scoringMetrics (run.completing false), namespaceOf mc.name = ns := by
    have hmap : ∀ l : List MetricCount, (∃ mc ∈ l, namespaceOf mc.name = ns) ↔
        ∃ name ∈ l.map MetricCount.name, namespaceOf name = ns := fun l => by simp
    rw [hmap, hmap, names_scoringMetrics_completing]
  have hlosses : ∀ (loss : LossProfile β) (P : LossProfile β → Prop),
      (∃ x ∈ before ++ loss :: after, P x) ↔
        (∃ x ∈ before, P x) ∨ P loss ∨ ∃ x ∈ after, P x := fun loss P => by
    simp only [mem_append, mem_cons, or_and_right, exists_or, exists_eq_left]
  rw [Namespace, Namespace, hlosses, hlosses, hrun]

/-- What a completion takes off an aggregate. -/
theorem aggregateOf_completing (ns : String) :
    aggregateOf (before ++ run.completing true :: after) weights ns -
        aggregateOf (before ++ run.completing false :: after) weights ns =
      if ns = "failure:" ∧ ¬ MeasuresCompletion run then
        Dict.getD weights.namespaceWeights "failure:" 0 * (weights.notCompletedWeight /
          (before.length + after.length + 1 : ℕ))
      else 0 := by
  have hlength : ∀ notCompleted, (before ++ run.completing notCompleted :: after).length =
      before.length + after.length + 1 := fun _ => by
    rw [length_append, length_cons, Nat.add_assoc]
  have hsum : ((before ++ run.completing true :: after).map (channel weights ns)).sum =
      ((before ++ run.completing false :: after).map (channel weights ns)).sum +
        (channel weights ns (run.completing true) - channel weights ns (run.completing false)) := by
    simp only [map_append, map_cons, sum_append, sum_cons]
    ring
  rw [aggregateOf, aggregateOf, meanOver, meanOver, hlength, hlength, if_pos (Nat.succ_pos _),
    if_pos (Nat.succ_pos _), hsum, channel_completing]
  split
  · rename_i h
    rw [h.1]
    ring
  · rw [add_zero, sub_self]

theorem keys_aggregate_completing :
    sortedNamespaces (aggregateNamespacedMetrics (before ++ run.completing true :: after) weights) =
      sortedNamespaces
        (aggregateNamespacedMetrics (before ++ run.completing false :: after) weights) := by
  refine Perm.eq_of_pairwise' (r := (· ≤ ·)) (pairwise_insertionSort _ _)
    (pairwise_insertionSort _ _) ?_
  refine (perm_insertionSort _ _).trans (.trans ?_ (perm_insertionSort _ _).symm)
  refine (perm_ext_iff_of_nodup (nodup_keys_aggregateNamespacedMetrics _)
    (nodup_keys_aggregateNamespacedMetrics _)).mpr fun ns => ?_
  rw [mem_keys_aggregateNamespacedMetrics, mem_keys_aggregateNamespacedMetrics,
    namespace_completing]

end Lists

/-! ## The scalar -/

/-- Aggregates that differ in the failure channel make scalars that differ by as much. -/
theorem total_scalarComponents_sub {aggregates aggregates' : Dict String ℚ} (meanScore : ℚ)
    (diffSize : Option DiffSize) (hnodup : aggregates.keys.Nodup) (hnodup' : aggregates'.keys.Nodup)
    (hsorted : sortedNamespaces aggregates' = sortedNamespaces aggregates)
    (hfailure : "failure:" ∈ aggregates.keys)
    (hrest : ∀ ns, ns ≠ "failure:" → Dict.getD aggregates ns 0 = Dict.getD aggregates' ns 0) :
    Dict.total (scalarComponents meanScore aggregates' weights diffSize) -
        Dict.total (scalarComponents meanScore aggregates weights diffSize) =
      Dict.getD aggregates' "failure:" 0 - Dict.getD aggregates "failure:" 0 := by
  have hcolon : HasColon "failure:" := by
    unfold HasColon
    decide
  have hname : componentName "failure:" = "failure" := by decide
  have hfailure' : "failure:" ∈ aggregates'.keys := by
    rw [← mem_sortedNamespaces, hsorted]
    exact mem_sortedNamespaces.mpr hfailure
  generalize hpass : weights.passWeight * (1 - meanScore) = pass
  have hkeys : Dict.keys (channelComponents pass aggregates) =
      Dict.keys (channelComponents pass aggregates') := by
    rw [channelComponents, channelComponents, hsorted]
    exact keys_writes_congr rfl
  have hother : ∀ name, name ≠ "failure" → Dict.get? (channelComponents pass aggregates) name =
      Dict.get? (channelComponents pass aggregates') name := by
    intro name hne
    rw [channelComponents, channelComponents, hsorted]
    refine get?_writes_congr rfl fun ns _ hns => hrest ns ?_
    rintro rfl
    exact hne (hns.symm.trans hname)
  have hget : ∀ {a : Dict String ℚ}, a.keys.Nodup → "failure:" ∈ a.keys →
      Dict.getD (channelComponents pass a) "failure" 0 = Dict.getD a "failure:" 0 := by
    intro a ha hmem
    have h := get?_channelComponents pass ha hmem (.inl hcolon)
    rw [hname] at h
    rw [Dict.getD, h]
    rfl
  have hchannels : Dict.total (channelComponents pass aggregates') -
      Dict.total (channelComponents pass aggregates) =
        Dict.getD aggregates' "failure:" 0 - Dict.getD aggregates "failure:" 0 := by
    rw [← hget hnodup hfailure, ← hget hnodup' hfailure']
    refine total_sub hkeys ?_ ?_ hother
    · exact nodup_keys_writes (by simp [Dict.keys])
    · refine mem_keys_writes.mpr (.inr (mem_map.mpr ⟨"failure:", ?_, hname⟩))
      exact mem_sortedNamespaces.mpr hfailure
  rw [scalarComponents_eq, scalarComponents_eq, hpass]
  cases diffComplexityComponent weights diffSize with
  | none => exact hchannels
  | some value =>
    have hdiff : Dict.getD (channelComponents pass aggregates) "diff_complexity" 0 =
        Dict.getD (channelComponents pass aggregates') "diff_complexity" 0 := by
      rw [Dict.getD, Dict.getD, hother _ (by decide)]
    rw [← hchannels, total_set, total_set, hdiff]
    ring

/-- The coefficient of the failure channel of an accepted contract. -/
theorem failure_weight_pos {u : Unit} (h : weights.postInit = .ok u) :
    0 < Dict.getD weights.namespaceWeights "failure:" 0 := by
  iterate 6 obtain ⟨_, h⟩ := require_bind h
  exact of_decide_eq_true (require_bind h).1

section Scalar
variable {before after : List (LossProfile β)} {run : LossProfile β}

theorem started_completing (hstarted : started run = true) (notCompleted : Bool) :
    (before ++ run.completing notCompleted :: after).filter started =
      before.filter started ++ run.completing notCompleted :: after.filter started := by
  have hrun : started (run.completing notCompleted) = true := hstarted
  rw [filter_append, filter_cons, if_pos hrun]

/-- A completion leaves the mean score as it is. -/
theorem meanScore_completing (rt : ScoringRuntime) (diffSize : Option DiffSize)
    (hstarted : started run = true) :
    (aggregateGenerationScore rt (before ++ run.completing true :: after) weights
        diffSize).meanScore =
      (aggregateGenerationScore rt (before ++ run.completing false :: after) weights
        diffSize).meanScore := by
  have hscores : (before.filter started ++ run.completing true :: after.filter started).filterMap
      entryScore =
        (before.filter started ++ run.completing false :: after.filter started).filterMap
          entryScore := by
    rw [filterMap_append, filterMap_append, filterMap_cons, filterMap_cons]
    rfl
  rw [aggregateGenerationScore, aggregateGenerationScore, started_completing hstarted,
    started_completing hstarted, hscores]

/-- What the crash of a run adds to the scalar. -/
theorem scalar_completing (rt : ScoringRuntime) (diffSize : Option DiffSize)
    (htransform : weights.passTransform = none) (hplugin : weights.scalarFn = "")
    (hweighed : "failure:" ∈ weights.namespaceWeights.keys) (hstarted : started run = true) :
    (aggregateGenerationScore rt (before ++ run.completing true :: after) weights diffSize).scalar -
        (aggregateGenerationScore rt (before ++ run.completing false :: after) weights
          diffSize).scalar =
      if MeasuresCompletion run then 0
      else Dict.getD weights.namespaceWeights "failure:" 0 * (weights.notCompletedWeight /
        ((before.filter started).length + (after.filter started).length + 1 : ℕ)) := by
  have hfailure : ∀ losses : List (LossProfile β), Namespace losses weights "failure:" :=
    fun _ => .inr (.inr hweighed)
  have hgetD : ∀ (losses : List (LossProfile β)) ns, Namespace losses weights ns →
      Dict.getD (aggregateNamespacedMetrics losses weights) ns 0 =
        aggregateOf losses weights ns := by
    intro losses ns hns
    rw [Dict.getD, get?_aggregateNamespacedMetrics hns]
    rfl
  rw [aggregate_scalar rt _ diffSize htransform hplugin,
    aggregate_scalar rt _ diffSize htransform hplugin]
  have hcomponents : ∀ losses : List (LossProfile β),
      (aggregateGenerationScore rt losses weights diffSize).scalarComponents =
        scalarComponents (aggregateGenerationScore rt losses weights diffSize).meanScore
          (aggregateNamespacedMetrics (losses.filter started) weights) weights diffSize :=
    fun _ => rfl
  rw [hcomponents, hcomponents, meanScore_completing rt diffSize hstarted,
    started_completing hstarted, started_completing hstarted,
    total_scalarComponents_sub _ _ (nodup_keys_aggregateNamespacedMetrics _)
      (nodup_keys_aggregateNamespacedMetrics _) keys_aggregate_completing
      (mem_keys_aggregateNamespacedMetrics.mpr (hfailure _)),
    hgetD _ _ (hfailure _), hgetD _ _ (hfailure _), aggregateOf_completing]
  · by_cases hmeasured : MeasuresCompletion run
    · rw [if_pos hmeasured, if_neg fun h => h.2 hmeasured]
    · rw [if_neg hmeasured, if_pos ⟨rfl, hmeasured⟩]
  · intro ns hne
    by_cases hns : Namespace (before.filter started ++ run.completing false ::
        after.filter started) weights ns
    · have hsub := @aggregateOf_completing _ weights (before.filter started)
        (after.filter started) run ns
      rw [if_neg fun h => hne h.1, sub_eq_zero] at hsub
      rw [hgetD _ _ hns, hgetD _ _ (namespace_completing.mpr hns), hsub]
    · have hnone : ∀ notCompleted, ¬ Namespace (before.filter started ++
          run.completing notCompleted :: after.filter started) weights ns := by
        intro notCompleted
        cases notCompleted
        · exact hns
        · exact fun h => hns (namespace_completing.mp h)
      have hzero : ∀ notCompleted, Dict.getD (aggregateNamespacedMetrics
          (before.filter started ++ run.completing notCompleted :: after.filter started) weights)
            ns 0 = 0 := by
        intro notCompleted
        rw [Dict.getD, get?_aggregateNamespacedMetrics_of_not (hnone notCompleted)]
        rfl
      rw [hzero, hzero]

end Scalar

/-- An accepted contract charges the crash of a started run iff its magnitude is positive and no
metric is measured under the name of the charge. -/
theorem crash_charged_iff (rt : ScoringRuntime) (weights : ScoringWeights)
    (diffSize : Option DiffSize) (before after : List (LossProfile β)) (run : LossProfile β)
    (haccepted : weights.postInit = .ok ()) (htransform : weights.passTransform = none)
    (hplugin : weights.scalarFn = "") (hstarted : started run = true) :
    (aggregateGenerationScore rt (before ++ run.completing false :: after) weights
        diffSize).scalar <
      (aggregateGenerationScore rt (before ++ run.completing true :: after) weights
        diffSize).scalar ↔
      0 < weights.notCompletedWeight ∧ ¬ MeasuresCompletion run := by
  have hpos := failure_weight_pos haccepted
  have hweighed : "failure:" ∈ weights.namespaceWeights.keys := by
    by_contra habsent
    rw [Dict.getD, (Dict.get?_eq_none_iff _ _).mpr habsent] at hpos
    exact lt_irrefl _ hpos
  rw [← sub_pos, scalar_completing rt diffSize htransform hplugin hweighed hstarted]
  by_cases hmeasured : MeasuresCompletion run
  · simp [hmeasured]
  · have hcount : (0 : ℚ) <
        ((before.filter started).length + (after.filter started).length + 1 : ℕ) :=
      Nat.cast_pos.mpr (Nat.succ_pos _)
    rw [if_neg hmeasured, mul_pos_iff_of_pos_left hpos, div_pos_iff_of_pos_right hcount,
      and_iff_left hmeasured]

/-- A contract whose failure channel is weighed and whose crashes are not. -/
def freeCrashes : ScoringWeights where
  namespaceWeights := [("failure:", 1)]
  notCompletedWeight := 0

theorem crash_charged_iff_pricedRun :
    (aggregateGenerationScore inertRuntime [pricedRun.completing false] doubledWeights
        none).scalar <
      (aggregateGenerationScore inertRuntime [pricedRun.completing true] doubledWeights
        none).scalar :=
  (crash_charged_iff inertRuntime doubledWeights none [] [] pricedRun (by decide +kernel) rfl rfl
    (by decide)).mpr ⟨by decide, by decide⟩

/-- The contract is accepted and a crash costs nothing. -/
theorem crash_is_free :
    freeCrashes.postInit = .ok () ∧ freeCrashes.passTransform = none ∧
      freeCrashes.scalarFn = "" ∧ started pricedRun = true ∧
      ¬ (aggregateGenerationScore inertRuntime [pricedRun.completing false] freeCrashes
            none).scalar <
          (aggregateGenerationScore inertRuntime [pricedRun.completing true] freeCrashes
            none).scalar := by
  refine ⟨by decide +kernel, rfl, rfl, by decide, ?_⟩
  decide +kernel

end Zicato.Scoring
