import Zicato.Scoring

/-! # What a channel sums up

The aggregate of a namespace is the coefficient of the contract times the mean,
over the runs, of what each run's weighted metrics of that namespace add up to. -/
open List Zicato.Dict
namespace Zicato.Scoring

variable {β : Type} {weights : ScoringWeights}

/-! ## Terms collected under keys -/

/-- What has been collected under a key. -/
def collected (d : Dict String (List ℚ)) (key : String) : ℚ := (Dict.getD d key []).sum

example : collected [("a:", [1, 2]), ("b:", [4])] "a:" = 3 := by decide +kernel

theorem collected_appendAt (d : Dict String (List ℚ)) (key key' : String) (value : ℚ) :
    collected (appendAt d key value) key' =
      collected d key' + if key = key' then value else 0 := by
  rw [collected, appendAt, Dict.getD, get?_set]
  split
  · rename_i heq
    subst heq
    rw [Option.getD_some, sum_append, sum_singleton]
    rfl
  · rw [add_zero]
    rfl

theorem mem_keys_appendAt {d : Dict String (List ℚ)} {key key' : String} {value : ℚ} :
    key' ∈ Dict.keys (appendAt d key value) ↔ key' ∈ Dict.keys d ∨ key' = key :=
  mem_keys_set

/-! ## One run -/

/-- A namespace that the other channels are collected under. -/
def Collects (ns : String) : Prop := ns ≠ "" ∧ ns ≠ "drift:"

/-- What the metrics of a namespace add up to in one run. -/
def channelSum (weights : ScoringWeights) (ns : String) (metrics : List MetricCount) : ℚ :=
  ((metrics.filter fun mc => decide (namespaceOf mc.name = ns)).map fun mc =>
    mc.count * withinChannelWeight mc.name weights).sum

/-- The first metric's part of a channel. -/
theorem channelSum_cons (ns : String) (mc : MetricCount) (rest : List MetricCount) :
    channelSum weights ns (mc :: rest) =
      (if namespaceOf mc.name = ns then mc.count * withinChannelWeight mc.name weights else 0) +
        channelSum weights ns rest := by
  rw [channelSum, filter_cons]
  split
  · rename_i h
    rw [if_pos (of_decide_eq_true h), map_cons, sum_cons]
    rfl
  · rename_i h
    rw [if_neg (by simpa using h), zero_add]
    rfl

theorem channelSum_append (ns : String) (l l' : List MetricCount) :
    channelSum weights ns (l ++ l') = channelSum weights ns l + channelSum weights ns l' := by
  rw [channelSum, filter_append, map_append, sum_append]
  rfl

/-- The terms of one run, from what is collected already. -/
def perLossFrom (weights : ScoringWeights) (metrics : List MetricCount)
    (acc : Dict String (List ℚ)) : Dict String (List ℚ) :=
  metrics.foldl (fun acc mc =>
    if namespaceOf mc.name = "" ∨ namespaceOf mc.name = "drift:" then acc
    else appendAt acc (namespaceOf mc.name) (mc.count * withinChannelWeight mc.name weights)) acc

variable {ns : String} {losses : List (LossProfile β)}

/-- What a profile adds to a channel. -/
theorem collected_perLossFrom (h : Collects ns) (metrics : List MetricCount)
    (acc : Dict String (List ℚ)) :
    collected (perLossFrom weights metrics acc) ns =
      collected acc ns + channelSum weights ns metrics := by
  induction metrics generalizing acc with
  | nil => exact (add_zero _).symm
  | cons mc rest ih =>
    rw [perLossFrom, foldl_cons, channelSum_cons]
    refine (ih _).trans ?_
    split
    · rename_i hskip
      have hne : namespaceOf mc.name ≠ ns := by
        rintro rfl
        exact hskip.elim h.1 h.2
      rw [if_neg hne, zero_add]
    · rw [collected_appendAt, add_assoc]

/-- The channels after a profile. -/
theorem mem_keys_perLossFrom (metrics : List MetricCount) (acc : Dict String (List ℚ)) :
    ns ∈ Dict.keys (perLossFrom weights metrics acc) ↔
      ns ∈ Dict.keys acc ∨ Collects ns ∧ ∃ mc ∈ metrics, namespaceOf mc.name = ns := by
  induction metrics generalizing acc with
  | nil => simp [perLossFrom]
  | cons mc rest ih =>
    rw [perLossFrom, foldl_cons, exists_mem_cons_iff]
    refine (ih _).trans ?_
    split
    · rename_i hskip
      have hne : Collects ns → namespaceOf mc.name ≠ ns := by
        rintro h rfl
        exact hskip.elim h.1 h.2
      constructor
      · exact fun h => h.imp id fun ⟨hc, hrest⟩ => ⟨hc, .inr hrest⟩
      · exact fun h => h.imp id fun ⟨hc, hrest⟩ => ⟨hc, hrest.resolve_left (hne hc)⟩
    · rename_i hkeep
      rw [not_or] at hkeep
      rw [mem_keys_appendAt]
      constructor
      · rintro ((hacc | rfl) | ⟨hc, hrest⟩)
        · exact .inl hacc
        · exact .inr ⟨hkeep, .inl rfl⟩
        · exact .inr ⟨hc, .inr hrest⟩
      · rintro (hacc | ⟨hc, rfl | hrest⟩)
        · exact .inl (.inl hacc)
        · exact .inl (.inr rfl)
        · exact .inr ⟨hc, hrest⟩

theorem nodup_keys_perLossFrom (metrics : List MetricCount) {acc : Dict String (List ℚ)}
    (h : (Dict.keys acc).Nodup) : (Dict.keys (perLossFrom weights metrics acc)).Nodup := by
  induction metrics generalizing acc with
  | nil => exact h
  | cons mc rest ih =>
    rw [perLossFrom, foldl_cons]
    refine ih ?_
    split
    · exact h
    · exact nodup_keys_set h _ _

/-! ## All runs -/

/-- The terms collected from the items of one run. -/
theorem collected_items (items : Dict String (List ℚ)) (acc : Dict String (List ℚ))
    (hnodup : (Dict.keys items).Nodup) :
    collected (items.foldl (fun acc item => appendAt acc item.1 item.2.sum) acc) ns =
      collected acc ns + collected items ns := by
  induction items generalizing acc with
  | nil => exact (add_zero _).symm
  | cons e rest ih =>
    rw [Dict.keys, map_cons, nodup_cons] at hnodup
    rw [foldl_cons, ih _ hnodup.2, collected_appendAt, add_assoc]
    refine congrArg (collected acc ns + ·) ?_
    rw [collected, collected, Dict.getD, Dict.getD, Dict.get?]
    split
    · rename_i heq
      subst heq
      have hnone : Dict.get? rest e.1 = none := (get?_eq_none_iff rest e.1).mpr hnodup.1
      rw [hnone, Option.getD_none, sum_nil, add_zero, Option.getD_some]
    · rw [zero_add]

theorem mem_keys_items (items acc : Dict String (List ℚ)) :
    ns ∈ Dict.keys (items.foldl (fun acc item => appendAt acc item.1 item.2.sum) acc) ↔
      ns ∈ Dict.keys acc ∨ ns ∈ Dict.keys items := by
  induction items generalizing acc with
  | nil => simp [Dict.keys]
  | cons e rest ih =>
    rw [foldl_cons, ih, mem_keys_appendAt, or_assoc]
    refine or_congr_right ?_
    rw [Dict.keys, Dict.keys, map_cons, mem_cons]

/-- The terms of more runs. -/
def termsFrom (weights : ScoringWeights) (losses : List (LossProfile β))
    (acc : Dict String (List ℚ)) : Dict String (List ℚ) :=
  losses.foldl (fun acc loss =>
    (perLoss weights loss).foldl (fun acc item => appendAt acc item.1 item.2.sum) acc) acc

/-- What profiles add to a channel. -/
theorem collected_termsFrom (h : Collects ns) (losses : List (LossProfile β))
    (acc : Dict String (List ℚ)) :
    collected (termsFrom weights losses acc) ns = collected acc ns +
      (losses.map fun loss => channelSum weights ns (scoringMetrics loss)).sum := by
  induction losses generalizing acc with
  | nil => exact (add_zero _).symm
  | cons loss rest ih =>
    have hperLoss : collected (perLoss weights loss) ns =
        channelSum weights ns (scoringMetrics loss) :=
      (collected_perLossFrom h _ _).trans (zero_add _)
    have hnodup : (Dict.keys (perLoss weights loss)).Nodup :=
      nodup_keys_perLossFrom (scoringMetrics loss) nodup_nil
    rw [termsFrom, foldl_cons, map_cons, sum_cons]
    refine (ih _).trans ?_
    rw [collected_items _ _ hnodup, hperLoss, add_assoc]

/-- The channels after some profiles. -/
theorem mem_keys_termsFrom (losses : List (LossProfile β)) (acc : Dict String (List ℚ)) :
    ns ∈ Dict.keys (termsFrom weights losses acc) ↔ ns ∈ Dict.keys acc ∨
      Collects ns ∧ ∃ loss ∈ losses, ∃ mc ∈ scoringMetrics loss, namespaceOf mc.name = ns := by
  induction losses generalizing acc with
  | nil => simp [termsFrom]
  | cons loss rest ih =>
    have hperLoss : ns ∈ Dict.keys (perLoss weights loss) ↔
        Collects ns ∧ ∃ mc ∈ scoringMetrics loss, namespaceOf mc.name = ns :=
      (mem_keys_perLossFrom (scoringMetrics loss) []).trans (by simp [Dict.keys])
    rw [termsFrom, foldl_cons, exists_mem_cons_iff]
    refine (ih _).trans ?_
    rw [mem_keys_items, hperLoss, or_assoc, ← and_or_left]

/-! ## The aggregates -/

theorem get?_map {κ α γ : Type} [DecidableEq κ] (f : α → γ) (d : Dict κ α) (k : κ) :
    Dict.get? (d.map fun item => (item.1, f item.2)) k = (Dict.get? d k).map f := by
  induction d with
  | nil => rfl
  | cons e rest ih =>
    rw [map_cons, Dict.get?, Dict.get?, ih]
    split <;> rfl

/-- A namespace of the aggregates: drift, one of a metric, or one the contract weighs. -/
def Namespace (losses : List (LossProfile β)) (weights : ScoringWeights) (ns : String) : Prop :=
  ns = "drift:" ∨
    (ns ≠ "" ∧ ∃ loss ∈ losses, ∃ mc ∈ scoringMetrics loss, namespaceOf mc.name = ns) ∨
    ns ∈ weights.namespaceWeights.keys

/-- What a run contributes to a namespace. -/
def channel (weights : ScoringWeights) (ns : String) (loss : LossProfile β) : ℚ :=
  if ns = "" then 0
  else if ns = "drift:" then loss.driftLoss
  else channelSum weights ns (scoringMetrics loss)

/-- The sum of a channel's terms. -/
theorem sums_getD (losses : List (LossProfile β)) (hdrift : ns ≠ "drift:") :
    Dict.getD ((channelTerms weights losses).map fun item => (item.1, item.2.sum)) ns 0 =
      (losses.map (channel weights ns)).sum := by
  have hgetD : Dict.getD ((channelTerms weights losses).map fun item => (item.1, item.2.sum)) ns 0 =
      collected (channelTerms weights losses) ns := by
    rw [Dict.getD, get?_map, collected, Dict.getD]
    cases Dict.get? (channelTerms weights losses) ns <;> rfl
  rw [hgetD]
  by_cases hempty : ns = ""
  · have hnone : Dict.get? (channelTerms weights losses) ns = none := by
      rw [get?_eq_none_iff]
      intro hmem
      rcases (mem_keys_termsFrom losses []).mp hmem with hnil | ⟨hcollects, -⟩
      · cases hnil
      · exact hcollects.1 hempty
    have hzero : losses.map (channel weights ns) = losses.map fun _ => 0 :=
      map_congr_left fun _ _ => if_pos hempty
    rw [collected, Dict.getD, hnone, hzero]
    simp
  · have hchannel : losses.map (channel weights ns) =
        losses.map fun loss => channelSum weights ns (scoringMetrics loss) :=
      map_congr_left fun _ _ => by rw [channel, if_neg hempty, if_neg hdrift]
    rw [hchannel]
    exact (collected_termsFrom ⟨hempty, hdrift⟩ losses []).trans (zero_add _)

/-- The observed namespaces. -/
def observed (losses : List (LossProfile β)) (weights : ScoringWeights) : List String :=
  let sums : Dict String ℚ := (channelTerms weights losses).map fun item => (item.1, item.2.sum)
  sums.keys ++ weights.namespaceWeights.keys

theorem mem_observed (hdrift : ns ≠ "drift:") :
    ns ∈ observed losses weights ↔ Namespace losses weights ns := by
  have hkeys : Dict.keys ((channelTerms weights losses).map fun item => (item.1, item.2.sum)) =
      Dict.keys (channelTerms weights losses) := by
    rw [Dict.keys, map_map]
    rfl
  have hterms : ns ∈ Dict.keys (channelTerms weights losses) ↔ Collects ns ∧
      ∃ loss ∈ losses, ∃ mc ∈ scoringMetrics loss, namespaceOf mc.name = ns :=
    (mem_keys_termsFrom losses []).trans (by simp [Dict.keys])
  rw [observed, mem_append, hkeys, hterms, Namespace, Collects, or_iff_right hdrift,
    and_iff_left hdrift]

/-- The aggregate of a namespace. -/
def aggregateOf (losses : List (LossProfile β)) (weights : ScoringWeights) (ns : String) : ℚ :=
  Dict.getD weights.namespaceWeights ns 0 *
    meanOver (losses.map (channel weights ns)).sum losses.length

/-- The aggregates, channel by channel. -/
theorem aggregateNamespacedMetrics_eq (losses : List (LossProfile β)) :
    aggregateNamespacedMetrics losses weights =
      Dict.writes id (aggregateOf losses weights)
        ((observed losses weights).dedup.filter fun ns => decide (ns ≠ "drift:"))
        [("drift:", aggregateOf losses weights "drift:")] := by
  have hdrift : aggregateOf losses weights "drift:" =
      Dict.getD weights.namespaceWeights "drift:" 0 *
        meanOver (losses.map LossProfile.driftLoss).sum losses.length := by
    rw [aggregateOf]
    rfl
  rw [Dict.writes, foldl_filter, hdrift]
  refine foldl_ext _ _ _ fun acc ns _ => ?_
  by_cases hns : ns = "drift:"
  · simp [hns]
  · rw [if_neg hns, if_pos (decide_eq_true hns), aggregateOf, sums_getD losses hns]
    rfl

theorem mem_keys_aggregateNamespacedMetrics :
    ns ∈ Dict.keys (aggregateNamespacedMetrics losses weights) ↔ Namespace losses weights ns := by
  rw [aggregateNamespacedMetrics_eq, mem_keys_writes, map_id, mem_filter,
    List.mem_dedup]
  by_cases hns : ns = "drift:"
  · subst hns
    exact iff_of_true (.inl mem_cons_self) (.inl rfl)
  · rw [mem_observed hns]
    simp [Dict.keys, hns]

/-- Every aggregate is a coefficient times a mean. -/
theorem get?_aggregateNamespacedMetrics (h : Namespace losses weights ns) :
    Dict.get? (aggregateNamespacedMetrics losses weights) ns =
      some (aggregateOf losses weights ns) := by
  rw [aggregateNamespacedMetrics_eq, get?_writes_id]
  by_cases hns : ns = "drift:"
  · subst hns
    rw [if_neg (by simp), Dict.get?, if_pos rfl]
  · rw [if_pos]
    exact mem_filter.mpr ⟨List.mem_dedup.mpr ((mem_observed hns).mpr h), decide_eq_true hns⟩

theorem get?_aggregateNamespacedMetrics_of_not (h : ¬ Namespace losses weights ns) :
    Dict.get? (aggregateNamespacedMetrics losses weights) ns = none :=
  (get?_eq_none_iff _ _).mpr (mt mem_keys_aggregateNamespacedMetrics.mp h)

theorem nodup_keys_aggregateNamespacedMetrics (losses : List (LossProfile β)) :
    (Dict.keys (aggregateNamespacedMetrics losses weights)).Nodup := by
  rw [aggregateNamespacedMetrics_eq]
  exact nodup_keys_writes (by simp [Dict.keys])

end Zicato.Scoring
