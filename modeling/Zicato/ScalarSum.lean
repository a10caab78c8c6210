import Zicato.ScoringChannels

/-! # The scalar as a sum of terms

The components of a scalar are written into a dictionary under the names of the
namespaces without their colon.  Only a namespace that the contract names without
a colon can lose its component to another namespace, the one of the same name
with the colon; it has no metrics, so what it loses is a zero. -/
open List Option String Zicato.Dict
namespace Zicato.Scoring

variable {β : Type} {weights : ScoringWeights}

/-! ## Component names -/

/-- A namespace with its colon. -/
def HasColon (ns : String) : Prop := ns.toList.getLast? = some ':'

variable {ns : String}

theorem componentName_of_hasColon (h : HasColon ns) : componentName ns ++ ":" = ns := by
  have hname : componentName ns = String.ofList ns.toList.dropLast := if_pos h
  rw [hname, ← toList_inj, toList_append, toList_ofList]
  exact dropLast_append_getLast? ':' h

theorem componentName_of_bare (h : ¬ HasColon ns) : componentName ns = ns :=
  if_neg h

theorem hasColon_append (ns : String) : HasColon (ns ++ ":") := by
  rw [HasColon, toList_append]
  exact getLast?_concat

theorem componentName_append (ns : String) : componentName (ns ++ ":") = ns := by
  have h := congrArg String.toList (componentName_of_hasColon (hasColon_append ns))
  rw [toList_append, toList_append] at h
  exact toList_inj.mp (append_cancel_right h)

theorem lt_append_colon (ns : String) : ns < ns ++ ":" := by
  rw [lt_iff_toList_lt, toList_append]
  have hlt : ns.toList ++ [] < ns.toList ++ [':'] := append_left_lt (nil_lt_cons _ _)
  rwa [append_nil] at hlt

/-- In the order of the namespaces only a name without the colon is written over, by the one with
the colon. -/
theorem bare_of_written_over {ns' : String} (hlt : ns < ns')
    (h : componentName ns = componentName ns') : ¬ HasColon ns ∧ ns' = ns ++ ":" := by
  by_cases hns : HasColon ns
  · exfalso
    by_cases hns' : HasColon ns'
    · apply hlt.ne
      rw [← componentName_of_hasColon hns, h, componentName_of_hasColon hns']
    · rw [componentName_of_bare hns'] at h
      rw [← componentName_of_hasColon hns, h] at hlt
      exact lt_asymm hlt (lt_append_colon ns')
  · refine ⟨hns, ?_⟩
    rw [componentName_of_bare hns] at h
    by_cases hns' : HasColon ns'
    · rw [h, componentName_of_hasColon hns']
    · rw [componentName_of_bare hns'] at h
      exact absurd h hlt.ne

/-! ## Namespaces without a colon have no metrics -/

theorem getLast?_upToColon {cs : List Char} (h : ':' ∈ cs) :
    (upToColon cs).getLast? = some ':' := by
  induction cs with
  | nil => cases h
  | cons c rest ih =>
    rw [upToColon]
    split
    · rename_i hc
      rw [hc]
      rfl
    · rename_i hc
      have hrest : ':' ∈ rest := (mem_cons.mp h).resolve_left fun heq => hc heq.symm
      rw [getLast?_cons, ih hrest]
      rfl

theorem hasColon_namespaceOf {name : String} (h : namespaceOf name ≠ "") :
    HasColon (namespaceOf name) := by
  rw [namespaceOf] at h ⊢
  split
  · rename_i hcontains
    rw [HasColon, toList_ofList]
    exact getLast?_upToColon (contains_iff_mem.mp hcontains)
  · rename_i hcontains
    rw [if_neg hcontains] at h
    exact absurd rfl h

/-- A name without a colon is no channel. -/
theorem channel_of_bare (h : ¬ HasColon ns) (loss : LossProfile β) :
    channel weights ns loss = 0 := by
  rw [channel]
  split
  · rfl
  · rename_i hempty
    have hdrift : ns ≠ "drift:" := by
      rintro rfl
      exact h (by unfold HasColon; decide)
    rw [if_neg hdrift, channelSum]
    have hnone : ((scoringMetrics loss).filter fun mc => decide (namespaceOf mc.name = ns)) = [] := by
      rw [filter_eq_nil_iff]
      intro mc _ hmc
      have hns : namespaceOf mc.name = ns := of_decide_eq_true hmc
      exact h (hns ▸ hasColon_namespaceOf (hns ▸ hempty))
    rw [hnone]
    rfl

theorem aggregateOf_of_bare (h : ¬ HasColon ns) (losses : List (LossProfile β)) :
    aggregateOf losses weights ns = 0 := by
  have hzero : losses.map (channel weights ns) = losses.map fun _ => 0 :=
    map_congr_left fun loss _ => channel_of_bare h loss
  rw [aggregateOf, hzero, meanOver]
  simp

/-! ## Components in the order of the namespaces -/

theorem mem_sortedNamespaces {aggregates : Dict String ℚ} :
    ns ∈ sortedNamespaces aggregates ↔ ns ∈ aggregates.keys :=
  mem_insertionSort _

theorem sortedNamespaces_pairwise {aggregates : Dict String ℚ} (h : aggregates.keys.Nodup) :
    (sortedNamespaces aggregates).Pairwise (· < ·) := by
  have hsorted : (sortedNamespaces aggregates).Pairwise (· ≤ ·) := pairwise_insertionSort _ _
  have hnodup : (sortedNamespaces aggregates).Nodup :=
    (perm_insertionSort (· ≤ ·) aggregates.keys).nodup_iff.mpr h
  exact hsorted.imp₂ (fun _ _ hle hne => lt_of_le_of_ne hle hne) hnodup

/-- The components of the channels, on top of the pass term. -/
def channelComponents (pass : ℚ) (aggregates : Dict String ℚ) : Dict String ℚ :=
  Dict.writes componentName (fun ns => Dict.getD aggregates ns 0) (sortedNamespaces aggregates)
    [("pass", pass)]

theorem scalarComponents_eq (meanScore : ℚ) (aggregates : Dict String ℚ)
    (diffSize : Option DiffSize) :
    scalarComponents meanScore aggregates weights diffSize =
      match diffComplexityComponent weights diffSize with
      | none => channelComponents (weights.passWeight * (1 - meanScore)) aggregates
      | some value =>
          Dict.set (channelComponents (weights.passWeight * (1 - meanScore)) aggregates)
            "diff_complexity" value := rfl

section Components
variable (pass : ℚ) {aggregates : Dict String ℚ}

/-- The component of a namespace that no other one shares its name with. -/
theorem get?_channelComponents {ns : String} (hnodup : aggregates.keys.Nodup)
    (hns : ns ∈ aggregates.keys) (halone : HasColon ns ∨ ns ++ ":" ∉ aggregates.keys) :
    Dict.get? (channelComponents pass aggregates) (componentName ns) =
      some (Dict.getD aggregates ns 0) := by
  have hpairs := sortedNamespaces_pairwise hnodup
  obtain ⟨earlier, later, hsplit⟩ := append_of_mem (mem_sortedNamespaces.mpr hns)
  have hlater : componentName ns ∉ later.map componentName := by
    intro hmem
    obtain ⟨ns', hns', hname⟩ := mem_map.mp hmem
    rw [hsplit] at hpairs
    have hlt : ns < ns' := (pairwise_cons.mp (pairwise_append.mp hpairs).2.1).1 ns' hns'
    obtain ⟨hbare, rfl⟩ := bare_of_written_over hlt hname.symm
    refine halone.elim hbare fun habsent => habsent ?_
    rw [← mem_sortedNamespaces, hsplit]
    exact mem_append_right _ (mem_cons_of_mem _ hns')
  rw [channelComponents, hsplit]
  exact get?_writes_append hlater

theorem get?_channelComponents_of_notMem {name : String}
    (h : ∀ ns ∈ aggregates.keys, componentName ns ≠ name) :
    Dict.get? (channelComponents pass aggregates) name = Dict.get? [("pass", pass)] name := by
  refine get?_writes_of_notMem fun hmem => ?_
  obtain ⟨ns, hns, hname⟩ := mem_map.mp hmem
  exact h ns (mem_sortedNamespaces.mp hns) hname

/-- The components add up to the aggregates and the pass. -/
theorem total_channelComponents (hnodup : aggregates.keys.Nodup)
    (hbare : ∀ ns, ¬ HasColon ns → Dict.getD aggregates ns 0 = 0)
    (hpass : ∀ ns ∈ aggregates.keys, componentName ns ≠ "pass") :
    Dict.total (channelComponents pass aggregates) = pass + Dict.total aggregates := by
  have hsum : ((sortedNamespaces aggregates).map fun ns => Dict.getD aggregates ns 0).sum =
      Dict.total aggregates := by
    rw [total_eq_sum hnodup]
    exact ((perm_insertionSort (· ≤ ·) aggregates.keys).map _).sum_eq
  rw [channelComponents, total_writes, hsum]
  · rw [Dict.total, map_singleton, sum_singleton]
  · intro ns hns
    rw [Dict.getD, Dict.get?, if_neg (Ne.symm (hpass ns (mem_sortedNamespaces.mp hns)))]
    rfl
  · refine (sortedNamespaces_pairwise hnodup).imp fun hlt hname => ?_
    exact hbare _ (bare_of_written_over hlt hname).1

end Components

/-! ## The scalar -/

theorem getD_aggregate_of_bare (losses : List (LossProfile β)) (h : ¬ HasColon ns) :
    Dict.getD (aggregateNamespacedMetrics losses weights) ns 0 = 0 := by
  by_cases hns : Namespace losses weights ns
  · rw [Dict.getD, get?_aggregateNamespacedMetrics hns, aggregateOf_of_bare h]
    rfl
  · rw [Dict.getD, get?_aggregateNamespacedMetrics_of_not hns]
    rfl

/-- No namespace takes the name of a term of another kind. -/
def Unreserved (losses : List (LossProfile β)) (weights : ScoringWeights)
    (diffSize : Option DiffSize) : Prop :=
  ∀ ns, Namespace (losses.filter started) weights ns → componentName ns ≠ "pass" ∧
    ((diffComplexityComponent weights diffSize).isSome → componentName ns ≠ "diff_complexity")

theorem aggregate_scalar (rt : ScoringRuntime) (losses : List (LossProfile β))
    (diffSize : Option DiffSize) (htransform : weights.passTransform = none)
    (hplugin : weights.scalarFn = "") :
    (aggregateGenerationScore rt losses weights diffSize).scalar =
      Dict.total (aggregateGenerationScore rt losses weights diffSize).scalarComponents := by
  rw [aggregateGenerationScore]
  simp only [resolveScalar, htransform, hplugin, if_true]
  rfl

/-- Without a namespace of a reserved name the diff term replaces nothing. -/
theorem scalarComponents_terms (meanScore : ℚ) {aggregates : Dict String ℚ}
    {diffSize : Option DiffSize} (hnodup : aggregates.keys.Nodup)
    (hbare : ∀ ns, ¬ HasColon ns → Dict.getD aggregates ns 0 = 0)
    (hreserved : ∀ ns ∈ aggregates.keys, componentName ns ≠ "pass" ∧
      ((diffComplexityComponent weights diffSize).isSome → componentName ns ≠ "diff_complexity")) :
    Dict.total (scalarComponents meanScore aggregates weights diffSize) =
        weights.passWeight * (1 - meanScore) + Dict.total aggregates +
          (diffComplexityComponent weights diffSize).getD 0 ∧
      (∀ value, diffComplexityComponent weights diffSize = some value →
        Dict.get? (scalarComponents meanScore aggregates weights diffSize) "diff_complexity" =
          some value) ∧
      ∀ name, ((diffComplexityComponent weights diffSize).isSome → name ≠ "diff_complexity") →
        Dict.get? (scalarComponents meanScore aggregates weights diffSize) name =
          Dict.get? (channelComponents (weights.passWeight * (1 - meanScore)) aggregates) name := by
  have htotal := total_channelComponents (weights.passWeight * (1 - meanScore)) hnodup hbare
    fun ns hns => (hreserved ns hns).1
  rw [scalarComponents_eq]
  cases hdiff : diffComplexityComponent weights diffSize with
  | none =>
    refine ⟨?_, fun _ h => (nomatch h), fun _ _ => rfl⟩
    rw [htotal, getD_none, add_zero]
  | some value =>
    have hfree : Dict.get? (channelComponents (weights.passWeight * (1 - meanScore)) aggregates)
        "diff_complexity" = none := by
      rw [get?_channelComponents_of_notMem _ fun ns hns => (hreserved ns hns).2 (by rw [hdiff]; rfl)]
      exact if_neg (by decide)
    refine ⟨?_, ?_, ?_⟩
    · rw [total_set, htotal, Dict.getD, hfree, getD_none, getD_some, sub_zero]
    · intro value' hvalue
      rw [get?_set, if_pos rfl, hvalue]
    · intro name hname
      rw [get?_set, if_neg (Ne.symm (hname rfl))]

/-- The scalar is the sum of its components; while no namespace takes a reserved name it is the sum
of all terms, each of which stands under its own name, but for the zero of a namespace that the
contract names without the colon as well as with it. -/
theorem scalar_eq_sum_of_terms (rt : ScoringRuntime) (losses : List (LossProfile β))
    (weights : ScoringWeights) (diffSize : Option DiffSize)
    (htransform : weights.passTransform = none) (hplugin : weights.scalarFn = "") :
    let agg := aggregateGenerationScore rt losses weights diffSize
    agg.scalar = Dict.total agg.scalarComponents ∧
      (Unreserved losses weights diffSize →
        agg.scalar = weights.passWeight * (1 - agg.meanScore) + Dict.total agg.namespaceAggregates +
            (diffComplexityComponent weights diffSize).getD 0 ∧
          Dict.get? agg.scalarComponents "pass" =
            some (weights.passWeight * (1 - agg.meanScore)) ∧
          (∀ value, diffComplexityComponent weights diffSize = some value →
            Dict.get? agg.scalarComponents "diff_complexity" = some value) ∧
          ∀ ns ∈ agg.namespaceAggregates.keys,
            Dict.get? agg.scalarComponents (componentName ns) =
                Dict.get? agg.namespaceAggregates ns ∨
              (Dict.get? agg.namespaceAggregates ns = some 0 ∧
                ns ++ ":" ∈ agg.namespaceAggregates.keys ∧
                Dict.get? agg.scalarComponents ns =
                  Dict.get? agg.namespaceAggregates (ns ++ ":"))) := by
  intro agg
  have hscalar : agg.scalar = Dict.total agg.scalarComponents :=
    aggregate_scalar rt losses diffSize htransform hplugin
  refine ⟨hscalar, fun hunreserved => ?_⟩
  have hnodup : agg.namespaceAggregates.keys.Nodup := nodup_keys_aggregateNamespacedMetrics _
  have hreserved := fun ns (hns : ns ∈ agg.namespaceAggregates.keys) =>
    hunreserved ns (mem_keys_aggregateNamespacedMetrics.mp hns)
  obtain ⟨htotal, hdiff, hname⟩ := scalarComponents_terms agg.meanScore hnodup
    (fun ns hbare => getD_aggregate_of_bare (losses.filter started) hbare) hreserved
  have hvalue : ∀ ns ∈ agg.namespaceAggregates.keys,
      some (Dict.getD agg.namespaceAggregates ns 0) = Dict.get? agg.namespaceAggregates ns := by
    intro ns hns
    rw [Dict.getD]
    cases hget : Dict.get? agg.namespaceAggregates ns with
    | none => exact absurd hns ((Dict.get?_eq_none_iff _ _).mp hget)
    | some value => rfl
  have halone : ∀ ns ∈ agg.namespaceAggregates.keys,
      HasColon ns ∨ ns ++ ":" ∉ agg.namespaceAggregates.keys →
      Dict.get? agg.scalarComponents (componentName ns) =
        Dict.get? agg.namespaceAggregates ns := by
    intro ns hns h
    rw [← hvalue ns hns, ← get?_channelComponents _ hnodup hns h]
    exact hname _ (hreserved ns hns).2
  refine ⟨hscalar.trans htotal, ?_, hdiff, ?_⟩
  · refine (hname "pass" fun _ => by decide).trans ?_
    rw [get?_channelComponents_of_notMem _ fun ns hns => (hreserved ns hns).1]
    exact if_pos rfl
  · intro ns hns
    by_cases h : HasColon ns ∨ ns ++ ":" ∉ agg.namespaceAggregates.keys
    · exact .inl (halone ns hns h)
    · rw [not_or, not_not] at h
      refine .inr ⟨?_, h.2, ?_⟩
      · rw [← hvalue ns hns]
        exact congrArg some (getD_aggregate_of_bare _ h.1)
      · have htwin := halone _ h.2 (.inl (hasColon_append ns))
        rwa [componentName_append] at htwin

/-- Identity shapes, and plugins that all fail. -/
def inertRuntime : ScoringRuntime where
  applyTransform _ value := value
  applyScalarFn _ _ := none

/-- A run of one entry that measured three dollars. -/
def pricedRun : LossProfile Unit where
  entryId := "e1"
  taskFailureRatio := 0
  runtimeMs := 0
  driftLoss := 0
  passFail := some true
  metricCounts := [{ name := "cost:usd", count := 3 }]
  rest := ()

/-- A contract that weighs the channel twice, without the colon and with it. -/
def doubledWeights : ScoringWeights where
  namespaceWeights := [("failure:", 1), ("cost", 1), ("cost:", 1)]

theorem scalar_eq_sum_of_terms_pricedRun :
    let agg := aggregateGenerationScore inertRuntime [pricedRun] doubledWeights none
    agg.scalar = Dict.total agg.scalarComponents ∧
      agg.scalar = 1 * (1 - agg.meanScore) + Dict.total agg.namespaceAggregates + 0 := by
  have h := scalar_eq_sum_of_terms inertRuntime [pricedRun] doubledWeights none rfl rfl
  refine ⟨h.1, (h.2 fun ns hns => ?_).1⟩
  have hkeys : ∀ ns ∈ Dict.keys (aggregateNamespacedMetrics [pricedRun] doubledWeights),
      componentName ns ≠ "pass" ∧
        ((diffComplexityComponent doubledWeights none).isSome →
          componentName ns ≠ "diff_complexity") := by
    decide
  exact hkeys ns (mem_keys_aggregateNamespacedMetrics.mpr hns)

/-- The component of the name without the colon is written over. -/
theorem bare_namespace_written_over :
    doubledWeights.postInit = .ok () ∧ doubledWeights.passTransform = none ∧
      doubledWeights.scalarFn = "" ∧
      ¬ ∀ ns ∈ (aggregateGenerationScore inertRuntime [pricedRun] doubledWeights
            none).namespaceAggregates.keys,
          Dict.get? (aggregateGenerationScore inertRuntime [pricedRun] doubledWeights
              none).scalarComponents (componentName ns) =
            Dict.get? (aggregateGenerationScore inertRuntime [pricedRun] doubledWeights
              none).namespaceAggregates ns := by
  refine ⟨by decide +kernel, rfl, rfl, ?_⟩
  decide +kernel

end Zicato.Scoring
