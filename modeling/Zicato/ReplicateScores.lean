import Zicato.CrashCharge
import Zicato.ReplicateFold

/-! # What the fold of replicates scores

A channel of a folded profile is the mean of the channel over the replicates,
since each of its metrics is; only the rounded duration and the disjunction of
the crashes are not means. -/
open List
namespace Zicato.Scoring

variable {β : Type} {weights : ScoringWeights}

/-! ## Outcomes -/

variable {p first : LossProfile β} {rest : List (LossProfile β)} {α : Type}

/-- A score lies in the unit interval. -/
theorem entryScore_mem_unit {value : ℚ} (h : entryScore p = some value) :
    0 ≤ value ∧ value ≤ 1 := by
  rw [entryScore] at h
  split at h
  · obtain rfl := Option.some.inj h
    split
    · exact ⟨le_refl _, zero_le_one⟩
    · rename_i hneg
      split
      · exact ⟨zero_le_one, le_refl _⟩
      · rename_i hone
        exact ⟨not_lt.mp hneg, not_lt.mp hone⟩
  · split at h
    · cases h
    · obtain rfl := Option.some.inj h
      split
      · exact ⟨zero_le_one, le_refl _⟩
      · exact ⟨le_refl _, zero_le_one⟩

/-- So does a mean of such. -/
theorem mean_mem_unit {values : List ℚ} (hne : values ≠ [])
    (h : ∀ value ∈ values, 0 ≤ value ∧ value ≤ 1) : 0 ≤ mean values ∧ mean values ≤ 1 := by
  have hlength : (0 : ℚ) < values.length := Nat.cast_pos.mpr (length_pos_iff.mpr hne)
  have hbounds : 0 ≤ values.sum ∧ values.sum ≤ values.length := by
    clear hne hlength
    induction values with
    | nil => simp
    | cons value rest ih =>
      obtain ⟨hvalue, hrest⟩ := forall_mem_cons.mp h
      have hsum := ih hrest
      rw [sum_cons, length_cons, Nat.cast_add, Nat.cast_one]
      constructor <;> linarith [hvalue.1, hvalue.2, hsum.1, hsum.2]
  rw [mean]
  exact ⟨div_nonneg hbounds.1 hlength.le, (div_le_one hlength).mpr hbounds.2⟩

theorem meanOutcome_eq (profiles : List (LossProfile β)) :
    meanOutcome profiles = if profiles.filterMap entryScore = [] then none
      else some (mean (profiles.filterMap entryScore)) := by
  have hpresent : (profiles.map entryScore).filterMap id = profiles.filterMap entryScore := by
    rw [filterMap_map]
    rfl
  rw [meanOutcome, meanOverPresent, hpresent]

theorem passFail_of_entryScore_none (h : entryScore p = none) : p.passFail = none := by
  rw [entryScore] at h
  split at h
  · cases h
  · split at h
    · assumption
    · cases h

/-- The outcome of a fold is the mean of the outcomes there are. -/
theorem entryScore_foldProfiles (first : LossProfile β) (rest : List (LossProfile β)) :
    entryScore (foldProfiles first rest) =
      if (first :: rest).filterMap entryScore = [] then none
      else some (mean ((first :: rest).filterMap entryScore)) := by
  have hscore : (foldProfiles first rest).score = meanOutcome (first :: rest) := rfl
  have hpass : (foldProfiles first rest).passFail = majorityPass (first :: rest) := rfl
  generalize first :: rest = profiles at hscore hpass
  rw [entryScore, hscore, meanOutcome_eq]
  by_cases hnone : profiles.filterMap entryScore = []
  · rw [if_pos hnone]
    have hvotes : profiles.filterMap LossProfile.passFail = [] := by
      rw [filterMap_eq_nil_iff] at hnone ⊢
      exact fun p hp => passFail_of_entryScore_none (hnone p hp)
    have hmajority : majorityPass profiles = none := by
      rw [majorityPass]
      exact if_pos hvotes
    simp only [hpass, hmajority]
  · rw [if_neg hnone]
    have hunit := mean_mem_unit hnone fun value hvalue => by
      obtain ⟨p, -, hp⟩ := mem_filterMap.mp hvalue
      exact entryScore_mem_unit hp
    simp only
    rw [if_neg (not_lt.mpr hunit.1), if_neg (not_lt.mpr hunit.2)]

/-! ## Metrics of a profile without colliding names -/

/-- Names without collisions: of each other's derived metrics in a list of profiles, and of judges
in one profile. -/
structure PlainNames (profiles : List (LossProfile β)) : Prop where
  measured : ∀ p ∈ profiles, ∀ mc ∈ p.metricCounts, ∀ q ∈ profiles,
    mc.name ∉ (derivedMetrics q).map MetricCount.name
  judges : ∀ p ∈ profiles, (p.perJudgeLoss.map JudgeLoss.judgeName).Nodup

/-- Metrics with new names are appended. -/
theorem addDerived_of_fresh {l out : List MetricCount}
    (h : (out.map MetricCount.name).Disjoint (l.map MetricCount.name))
    (hnodup : (l.map MetricCount.name).Nodup) : addDerived out l = out ++ l := by
  induction l generalizing out with
  | nil => exact (append_nil out).symm
  | cons mc rest ih =>
    rw [map_cons, nodup_cons] at hnodup
    rw [map_cons, disjoint_cons_right] at h
    have hfree : ¬ (out.map MetricCount.name).contains mc.name = true := fun hmem =>
      h.1 (contains_iff_mem.mp hmem)
    rw [addDerived, if_neg hfree, ih _ hnodup.2, List.append_assoc]
    · rfl
    · rw [map_append, disjoint_append_left]
      refine ⟨h.2, ?_⟩
      rw [map_singleton, singleton_disjoint]
      exact hnodup.1

theorem judge_name_injective : Function.Injective fun name : String => "judge:" ++ name := by
  intro name name' h
  have hlists := congrArg String.toList h
  simp only [String.toList_append] at hlists
  exact String.toList_inj.mp (append_cancel_left hlists)

theorem names_derivedMetrics (p : LossProfile β) : (derivedMetrics p).map MetricCount.name =
    (p.perJudgeLoss.map fun jl => "judge:" ++ jl.judgeName) ++
      ["failure:tasks", "failure:not_completed", "runtime:seconds"] := by
  rw [derivedMetrics, map_append, map_map]
  rfl

theorem judge_name_ne {name fixed : String} (h : fixed.toList.head? ≠ some 'j') :
    "judge:" ++ name ≠ fixed := by
  rintro rfl
  exact h (by simp [String.toList_append])

/-- Derived metrics have distinct names. -/
theorem nodup_names_derivedMetrics (h : (p.perJudgeLoss.map JudgeLoss.judgeName).Nodup) :
    ((derivedMetrics p).map MetricCount.name).Nodup := by
  have hjudges : (p.perJudgeLoss.map fun jl => "judge:" ++ jl.judgeName).Nodup := by
    have hmap := h.map judge_name_injective
    rwa [map_map] at hmap
  rw [names_derivedMetrics, nodup_append]
  refine ⟨hjudges, by decide, ?_⟩
  intro name hname fixed hfixed
  obtain ⟨jl, -, rfl⟩ := mem_map.mp hname
  apply judge_name_ne
  revert fixed
  decide

theorem scoringMetrics_of_plain {profiles : List (LossProfile β)} (h : PlainNames profiles)
    (hp : p ∈ profiles) : scoringMetrics p = p.metricCounts ++ derivedMetrics p := by
  refine addDerived_of_fresh ?_ (nodup_names_derivedMetrics (h.judges p hp))
  intro name hmeasured hderived
  obtain ⟨mc, hmc, rfl⟩ := mem_map.mp hmeasured
  exact h.measured p hp mc hmc p hp hderived

/-- The metrics of a folded profile. -/
theorem scoringMetrics_foldProfiles (h : PlainNames (first :: rest))
    : scoringMetrics (foldProfiles first rest) =
      meanMetricCounts (first :: rest) ++ derivedMetrics (foldProfiles first rest) := by
  have hjudges : (foldProfiles first rest).perJudgeLoss.map JudgeLoss.judgeName =
      (((first :: rest).flatMap LossProfile.perJudgeLoss).map JudgeLoss.judgeName).eraseDups := by
    change (List.map _ _).map _ = _
    rw [map_map]
    exact map_id _
  refine addDerived_of_fresh ?_ (nodup_names_derivedMetrics (hjudges ▸ nodup_eraseDups _))
  intro name hmeasured hderived
  obtain ⟨mc, hmc, hname⟩ : ∃ mc ∈ (first :: rest).flatMap LossProfile.metricCounts,
      mc.name = name := by
    obtain ⟨folded, hfolded, rfl⟩ := mem_map.mp hmeasured
    obtain ⟨key, hkey, rfl⟩ := mem_map.mp hfolded
    obtain ⟨mc, hmc, rfl⟩ := mem_map.mp (mem_eraseDups.mp hkey)
    exact ⟨mc, hmc, rfl⟩
  obtain ⟨p, hp, hmc⟩ := mem_flatMap.mp hmc
  rw [names_derivedMetrics, mem_append] at hderived
  rcases hderived with hjudge | hfixed
  · obtain ⟨jl, hjl, hjudge⟩ := mem_map.mp hjudge
    have hmem : jl.judgeName ∈ (foldProfiles first rest).perJudgeLoss.map JudgeLoss.judgeName :=
      mem_map_of_mem hjl
    rw [hjudges, mem_eraseDups] at hmem
    obtain ⟨jl', hjl', hsame⟩ := mem_map.mp hmem
    obtain ⟨q, hq, hjl'⟩ := mem_flatMap.mp hjl'
    refine h.measured p hp mc hmc q hq ?_
    rw [names_derivedMetrics, hname, ← hjudge, ← hsame]
    exact mem_append_left _ (mem_map.mpr ⟨jl', hjl', rfl⟩)
  · refine h.measured p hp mc hmc p hp ?_
    rw [names_derivedMetrics, hname]
    exact mem_append_right _ hfixed

/-! ## Means -/

theorem mean_add (l : List α) (f g : α → ℚ) :
    mean (l.map fun x => f x + g x) = mean (l.map f) + mean (l.map g) := by
  rw [mean, mean, mean, sum_map_add, length_map, length_map, length_map,
    add_div]

theorem mean_mul (l : List α) (c : ℚ) (f : α → ℚ) :
    mean (l.map fun x => c * f x) = c * mean (l.map f) := by
  rw [mean, mean, sum_map_mul_left, length_map, length_map, mul_div_assoc]

theorem mean_zero (l : List α) : mean (l.map fun _ => 0) = 0 := by
  rw [mean]
  simp

/-- Means taken key by key, each with a factor of its key. -/
theorem sum_grouped_means {κ : Type} [DecidableEq κ] [BEq κ] [LawfulBEq κ] (key : α → κ) (c : κ → ℚ)
    (f : α → ℚ) (items : List α) (n : ℚ) :
    ((items.map key).eraseDups.map fun k => c k * (sumUnder key f items k / n)).sum =
      (items.map fun x => c (key x) * f x).sum / n := by
  have hterm : ∀ k, c k * (sumUnder key f items k / n) =
      sumUnder key (fun x => c (key x) * f x) items k * n⁻¹ := by
    intro k
    rw [sumUnder_mul, div_eq_mul_inv, mul_assoc]
  simp only [hterm]
  rw [sum_map_mul_right, sum_sumUnder (nodup_eraseDups _), div_eq_mul_inv]
  exact fun x hx => mem_eraseDups.mpr (mem_map_of_mem hx)

/-! ## Channels of a fold -/

/-- What a metric of a name counts in a channel. -/
def coefficient (weights : ScoringWeights) (ns name : String) : ℚ :=
  if namespaceOf name = ns then withinChannelWeight name weights else 0

theorem channelSum_eq_sum (ns : String) (metrics : List MetricCount) :
    channelSum weights ns metrics =
      (metrics.map fun mc => coefficient weights ns mc.name * mc.count).sum := by
  induction metrics with
  | nil => rfl
  | cons mc rest ih =>
    rw [channelSum_cons, ih, map_cons, sum_cons, coefficient]
    split
    · rw [mul_comm]
    · rw [zero_mul]

/-- The part of a channel that is folded by means. -/
def smooth (weights : ScoringWeights) (ns : String) (p : LossProfile β) : ℚ :=
  channelSum weights ns p.metricCounts +
    (p.perJudgeLoss.map fun jl =>
      coefficient weights ns ("judge:" ++ jl.judgeName) * jl.weightedLoss).sum +
    coefficient weights ns "failure:tasks" * p.taskFailureRatio

/-- The crash as a number. -/
def crashed (p : LossProfile β) : ℚ := if p.notCompleted then 1 else 0

theorem channelSum_of_plain (h : scoringMetrics p = p.metricCounts ++ derivedMetrics p)
    (ns : String) :
    channelSum weights ns (scoringMetrics p) = smooth weights ns p +
      coefficient weights ns "failure:not_completed" * crashed p +
      coefficient weights ns "runtime:seconds" * (p.runtimeMs / 1000) := by
  rw [h, channelSum_append, derivedMetrics, channelSum_append, channelSum_eq_sum ns (List.map _ _),
    map_map, channelSum_eq_sum ns (_ :: _), smooth, crashed]
  simp only [map_cons, map_nil, sum_cons, sum_nil, Function.comp_def]
  ring

/-- A smooth channel of the fold is the mean of the draws. -/
theorem smooth_foldProfiles (ns : String) (first : LossProfile β) (rest : List (LossProfile β)) :
    smooth weights ns (foldProfiles first rest) =
      mean ((first :: rest).map (smooth weights ns)) := by
  generalize hprofiles : first :: rest = profiles
  have hmetrics : channelSum weights ns (foldProfiles first rest).metricCounts =
      mean (profiles.map fun p => channelSum weights ns p.metricCounts) := by
    have hfold : (foldProfiles first rest).metricCounts = meanMetricCounts profiles :=
      congrArg meanMetricCounts hprofiles
    rw [hfold, channelSum_eq_sum, meanMetricCounts, map_map]
    refine (sum_grouped_means MetricCount.bucket (fun key => coefficient weights ns key.1)
      MetricCount.count _ _).trans ?_
    rw [sum_flatMap, mean, length_map]
    simp only [channelSum_eq_sum]
    rfl
  have hjudges : ((foldProfiles first rest).perJudgeLoss.map fun jl =>
      coefficient weights ns ("judge:" ++ jl.judgeName) * jl.weightedLoss).sum =
        mean (profiles.map fun p => (p.perJudgeLoss.map fun jl =>
          coefficient weights ns ("judge:" ++ jl.judgeName) * jl.weightedLoss).sum) := by
    have hfold : (foldProfiles first rest).perJudgeLoss = meanPerJudgeLoss profiles :=
      congrArg meanPerJudgeLoss hprofiles
    rw [hfold, meanPerJudgeLoss, map_map]
    refine (sum_grouped_means JudgeLoss.judgeName
      (fun name => coefficient weights ns ("judge:" ++ name)) JudgeLoss.weightedLoss _ _).trans ?_
    rw [sum_flatMap, mean, length_map]
  have htasks : (foldProfiles first rest).taskFailureRatio =
      mean (profiles.map LossProfile.taskFailureRatio) := by
    rw [← hprofiles]
    rfl
  rw [smooth, hmetrics, hjudges, htasks, ← mean_mul, ← mean_add, ← mean_add]
  rfl

theorem namespaceOf_fixed : namespaceOf "failure:not_completed" = "failure:" ∧
    namespaceOf "runtime:seconds" = "runtime:" := by
  decide

/-- A channel without the crash and the duration is folded by means. -/
theorem channel_foldProfiles (h : PlainNames (first :: rest)) {ns : String}
    (hfailure : ns ≠ "failure:") (hruntime : ns ≠ "runtime:") :
    channel weights ns (foldProfiles first rest) =
      mean ((first :: rest).map (channel weights ns)) := by
  have hcharge : coefficient weights ns "failure:not_completed" = 0 := by
    rw [coefficient, namespaceOf_fixed.1, if_neg (Ne.symm hfailure)]
  have hduration : coefficient weights ns "runtime:seconds" = 0 := by
    rw [coefficient, namespaceOf_fixed.2, if_neg (Ne.symm hruntime)]
  by_cases hempty : ns = ""
  · have hzero : channel weights ns = fun _ : LossProfile β => 0 := funext fun _ => if_pos hempty
    rw [hzero, mean_zero]
  by_cases hdrift : ns = "drift:"
  · have hloss : channel weights ns = fun p : LossProfile β => p.driftLoss := funext fun p => by
      rw [channel, if_neg hempty, if_pos hdrift]
    rw [hloss]
    rfl
  have hsum : ∀ p : LossProfile β, scoringMetrics p = p.metricCounts ++ derivedMetrics p →
      channel weights ns p = smooth weights ns p := by
    intro p hp
    rw [channel, if_neg hempty, if_neg hdrift, channelSum_of_plain hp, hcharge, hduration, zero_mul,
      zero_mul, add_zero, add_zero]
  have hmap : (first :: rest).map (channel weights ns) = (first :: rest).map (smooth weights ns) :=
    map_congr_left fun p hp => hsum p (scoringMetrics_of_plain h hp)
  rw [hsum _ (scoringMetrics_foldProfiles h), smooth_foldProfiles, hmap]

theorem channel_failure (h : scoringMetrics p = p.metricCounts ++ derivedMetrics p) :
    channel weights "failure:" p =
      smooth weights "failure:" p + weights.notCompletedWeight * crashed p := by
  have hcharge : coefficient weights "failure:" "failure:not_completed" =
      weights.notCompletedWeight := by
    rw [coefficient, namespaceOf_fixed.1, if_pos rfl]
    rfl
  have hduration : coefficient weights "failure:" "runtime:seconds" = 0 := by
    rw [coefficient, namespaceOf_fixed.2, if_neg (by decide)]
  rw [channel, if_neg (by decide), if_neg (by decide), channelSum_of_plain h, hcharge, hduration,
    zero_mul, add_zero]

/-- One crash charges the fold in full. -/
theorem mean_crashed_le (first : LossProfile β) (rest : List (LossProfile β)) :
    mean ((first :: rest).map crashed) ≤ crashed (foldProfiles first rest) := by
  have hfold : crashed (foldProfiles first rest) =
      if (first :: rest).any LossProfile.notCompleted then 1 else 0 := rfl
  have hunit : ∀ value ∈ (first :: rest).map crashed, 0 ≤ value ∧ value ≤ (1 : ℚ) := by
    intro value hvalue
    obtain ⟨p, -, rfl⟩ := mem_map.mp hvalue
    rw [crashed]
    split
    · exact ⟨zero_le_one, le_refl _⟩
    · exact ⟨le_refl _, zero_le_one⟩
  rw [hfold]
  split
  · exact (mean_mem_unit (cons_ne_nil _ _) hunit).2
  · rename_i hnone
    have hzero : (first :: rest).map crashed = (first :: rest).map fun _ => 0 := by
      refine map_congr_left fun p hp => if_neg fun hcrash => hnone ?_
      exact any_eq_true.mpr ⟨p, hp, hcrash⟩
    rw [hzero, mean_zero]

theorem channel_failure_foldProfiles (h : PlainNames (first :: rest))
    (hweight : 0 ≤ weights.notCompletedWeight) :
    mean ((first :: rest).map (channel weights "failure:")) ≤
      channel weights "failure:" (foldProfiles first rest) := by
  have hmap : (first :: rest).map (channel weights "failure:") = (first :: rest).map fun p =>
      smooth weights "failure:" p + weights.notCompletedWeight * crashed p :=
    map_congr_left fun p hp => channel_failure (scoringMetrics_of_plain h hp)
  rw [hmap, mean_add, mean_mul, channel_failure (scoringMetrics_foldProfiles h),
    smooth_foldProfiles]
  exact add_le_add_right (mul_le_mul_of_nonneg_left (mean_crashed_le first rest) hweight) _

/-- The names of a fold are those of its replicates. -/
theorem mem_names_foldProfiles (h : PlainNames (first :: rest)) (name : String) :
    name ∈ (scoringMetrics (foldProfiles first rest)).map MetricCount.name ↔
      ∃ p ∈ first :: rest, name ∈ (scoringMetrics p).map MetricCount.name := by
  have hmeasured : name ∈ (meanMetricCounts (first :: rest)).map MetricCount.name ↔
      ∃ p ∈ first :: rest, name ∈ p.metricCounts.map MetricCount.name := by
    simp only [meanMetricCounts, mem_map, mem_eraseDups, mem_flatMap,
      MetricCount.bucket]
    constructor
    · rintro ⟨-, ⟨-, ⟨mc, ⟨p, hp, hmc⟩, rfl⟩, rfl⟩, rfl⟩
      exact ⟨p, hp, mc, hmc, rfl⟩
    · rintro ⟨p, hp, mc, hmc, rfl⟩
      exact ⟨_, ⟨_, ⟨mc, ⟨p, hp, hmc⟩, rfl⟩, rfl⟩, rfl⟩
  have hjudges : name ∈ ((foldProfiles first rest).perJudgeLoss.map fun jl =>
      "judge:" ++ jl.judgeName) ↔ ∃ p ∈ first :: rest,
        name ∈ p.perJudgeLoss.map fun jl => "judge:" ++ jl.judgeName := by
    have hfold : (foldProfiles first rest).perJudgeLoss = meanPerJudgeLoss (first :: rest) := rfl
    rw [hfold]
    simp only [meanPerJudgeLoss, mem_map, mem_eraseDups, mem_flatMap]
    constructor
    · rintro ⟨-, ⟨-, ⟨jl, ⟨p, hp, hjl⟩, rfl⟩, rfl⟩, rfl⟩
      exact ⟨p, hp, jl, hjl, rfl⟩
    · rintro ⟨p, hp, jl, hjl, rfl⟩
      exact ⟨_, ⟨_, ⟨jl, ⟨p, hp, hjl⟩, rfl⟩, rfl⟩, rfl⟩
  have hreplicate : (∃ p ∈ first :: rest, name ∈ (scoringMetrics p).map MetricCount.name) ↔
      ∃ p ∈ first :: rest, name ∈ p.metricCounts.map MetricCount.name ∨
        name ∈ (p.perJudgeLoss.map fun jl => "judge:" ++ jl.judgeName) ∨
        name ∈ ["failure:tasks", "failure:not_completed", "runtime:seconds"] := by
    refine exists_congr fun p => and_congr_right fun hp => ?_
    rw [scoringMetrics_of_plain h hp, map_append, mem_append, names_derivedMetrics,
      mem_append]
  rw [hreplicate, scoringMetrics_foldProfiles h, map_append, mem_append, hmeasured,
    names_derivedMetrics, mem_append, hjudges]
  constructor
  · rintro (⟨p, hp, hname⟩ | ⟨p, hp, hname⟩ | hname)
    · exact ⟨p, hp, .inl hname⟩
    · exact ⟨p, hp, .inr (.inl hname)⟩
    · exact ⟨first, mem_cons_self, .inr (.inr hname)⟩
  · rintro ⟨p, hp, hname | hname | hname⟩
    · exact .inl ⟨p, hp, hname⟩
    · exact .inr (.inl ⟨p, hp, hname⟩)
    · exact .inr (.inr hname)

end Zicato.Scoring
