import Zicato.DictWrites
import Zicato.Pareto

/-! # What settling a round does to the frontier record

A member that survives the retire pass, and a candidate that is let in, stand to
the champion in the same way: the retire pass would keep both. -/
open List Option
namespace Zicato.Pareto

open PyFloat

section Values

variable {F : Type} [PyArith F]

/-! ## Axis values -/

variable (aggregate : Gate.Agg F)

theorem axisValues_snoc (axes : List String) (ns : String) : axisValues aggregate (axes ++ [ns]) =
      match Dict.get? (aggregate.namespaceAggregates.getD []) ns with
      | none => axisValues aggregate axes
      | some value =>
          if isfinite value then Dict.set (axisValues aggregate axes) ns value
          else axisValues aggregate axes := by
  rw [axisValues, foldl_append]
  rfl

/-- What a candidate says on an axis. -/
theorem get?_axisValues (axes : List String) (ns : String) (value : F) :
    Dict.get? (axisValues aggregate axes) ns = some value ↔
      ns ∈ axes ∧ Dict.get? (aggregate.namespaceAggregates.getD []) ns = some value ∧
        isfinite value = true := by
  induction axes using reverseRecOn with
  | nil => simp [axisValues]
  | append_singleton axes ns' ih =>
    rw [axisValues_snoc, mem_append, mem_singleton]
    cases hraw : Dict.get? (aggregate.namespaceAggregates.getD []) ns' with
    | none =>
      simp only [ih]
      constructor
      · exact fun ⟨hns, h⟩ => ⟨.inl hns, h⟩
      · rintro ⟨hns | rfl, hget, hfin⟩
        · exact ⟨hns, hget, hfin⟩
        · rw [hraw] at hget
          cases hget
    | some value' =>
      by_cases hfin' : isfinite value' = true
      · simp only [if_pos hfin', Dict.get?_set]
        by_cases hns : ns' = ns
        · subst hns
          rw [if_pos rfl, hraw, some.injEq]
          constructor
          · rintro rfl
            exact ⟨.inr rfl, rfl, hfin'⟩
          · exact fun h => h.2.1
        · rw [if_neg hns, ih, or_iff_left (Ne.symm hns)]
      · simp only [if_neg hfin', ih]
        constructor
        · exact fun ⟨hns, h⟩ => ⟨.inl hns, h⟩
        · rintro ⟨hns | rfl, hget, hfin⟩
          · exact ⟨hns, hget, hfin⟩
          · rw [hraw, some.injEq] at hget
            exact absurd (hget ▸ hfin) hfin'

theorem nodup_keys_axisValues (axes : List String) : (Dict.keys (axisValues aggregate axes)).Nodup:= by
  induction axes using reverseRecOn with
  | nil => exact nodup_nil
  | append_singleton axes ns ih =>
    rw [axisValues_snoc]
    split
    · exact ih
    · split
      · exact Dict.nodup_keys_set ih _ _
      · exact ih

theorem get?_of_mem_axisValues {aggregate : Gate.Agg F} {axes : List String} {ns : String}
    {value : F} (h : (ns, value) ∈ axisValues aggregate axes) :
    Dict.get? (axisValues aggregate axes) ns = some value :=
  (Dict.get?_eq_some_iff (nodup_keys_axisValues aggregate axes) ns value).mpr h

/-- A member's own values regress no further than the aggregate they were read from. -/
theorem regressedNamespaces_asAgg {parent child : Gate.Agg F} {weights : Gate.Weights F}
    {axes : List String} {member : FrontierMember F}
    (hvalues : member.axisValues = axisValues child axes)
    (h : Gate.regressedNamespaces parent child weights = []) :
    Gate.regressedNamespaces parent (asAgg member) weights = [] := by
  have hnil : ∀ agg : Gate.Agg F, Gate.regressedNamespaces parent agg weights = [] ↔
      ∀ flag ∈ weights.namespaceMonotonicity, Gate.monitored weights flag = true →
        Gate.namespaceRegressed parent agg flag.1 = false := by
    intro agg
    rw [Gate.regressedNamespaces, ← length_eq_zero_iff, Gate.sortIds, length_sorted,
      length_map, length_eq_zero_iff, filter_eq_nil_iff]
    simp
  refine (hnil _).mpr fun flag hflag hmonitored => ?_
  have hchild := (hnil child).mp h flag hflag hmonitored
  unfold Gate.namespaceRegressed at hchild ⊢
  cases hparent : Dict.get? (parent.namespaceAggregates.getD []) flag.1 with
  | none => rfl
  | some parentVal =>
    have hget : Dict.get? ((asAgg member).namespaceAggregates.getD []) flag.1 =
        Dict.get? (axisValues child axes) flag.1 := by
      rw [← hvalues]
      rfl
    cases hval : Dict.get? (axisValues child axes) flag.1 with
    | none => rw [hget, hval]
    | some value =>
      rw [hget, hval]
      have hraw := ((get?_axisValues child axes flag.1 value).mp hval).2.1
      rw [hparent, hraw] at hchild
      exact hchild

/-! ## Dominance -/

/-- One that is worse by the margin somewhere does not dominate. -/
theorem dominates_eq_false {margin : F} {left right : Values F} {ns : String} {value other : F}
    (hmem : (ns, value) ∈ left) (hget : Dict.get? right ns = some other)
    (hworse : better margin other value = true) (hnot : better margin value other = false) :
    dominates margin left right = false := by
  have hfrom : ∀ betterAny, dominatesFrom right margin left betterAny = false := by
    induction left with
    | nil => cases hmem
    | cons item rest ih =>
      intro betterAny
      obtain ⟨ns', value'⟩ := item
      rw [dominatesFrom]
      rcases mem_cons.mp hmem with heq | hmem
      · obtain ⟨rfl, rfl⟩ := Prod.ext_iff.mp heq
        rw [hget]
        simp only [hnot, hworse, Bool.false_eq_true, if_false, if_true]
      · split
        · exact ih hmem betterAny
        · split
          · exact ih hmem true
          · split
            · rfl
            · exact ih hmem betterAny
  exact hfrom false

theorem exists_of_beatsOn {candidate reference : Values F} {margin : F}
    (h : beatsOn candidate reference margin ≠ []) : ∃ ns value other, (ns, value) ∈ candidate ∧
      Dict.get? reference ns = some other ∧ better margin value other = true := by
  rw [beatsOn, Gate.sortIds, ← length_pos_iff, length_sorted, length_map,
    length_pos_iff_exists_mem] at h
  obtain ⟨⟨ns, value⟩, hmem⟩ := h
  obtain ⟨hcand, hbetter⟩ := mem_filter.mp hmem
  cases hget : Dict.get? reference ns with
  | none => simp [hget] at hbetter
  | some other => exact ⟨ns, value, other, hcand, hget, by simpa [hget] using hbetter⟩

end Values

theorem Exact.lt_asymm {x y : Exact} (h : Exact.lt x y = true) : Exact.lt y x = false := by
  cases x <;> cases y <;> simp_all [Exact.lt]
  exact le_of_lt h

theorem better_asymm {margin x y : Exact} (h : better margin x y = true) :
    better margin y x = false := by
  have hlt : Exact.lt x y = true := (Bool.and_eq_true_iff.mp h).2
  have hnot : PyFloat.lt y x = false := Exact.lt_asymm hlt
  rw [better, hnot, Bool.and_false]

/-! ## The retire pass -/

section Passes

variable {F : Type} [PyArith F]
variable (champion : FrontierCandidate F) (weights : Gate.Weights F) (roundIndex : Int)

/-- What the retire pass writes about a member it drops. -/
def retirement (member : FrontierMember F) : Option (RetiredMember F) :=
  (retireReason champion weights member).map fun reason => ⟨member, roundIndex, reason⟩

/-- One turn of the retire pass. -/
def Pass.retireOne (p : Pass F) (champion : FrontierCandidate F) (weights : Gate.Weights F)
    (roundIndex : Int) (member : FrontierMember F) : Pass F :=
  match retireReason champion weights member with
  | some reason => p.retire roundIndex member reason
  | none => { p with surviving := p.surviving ++ [member] }

/-- The members that stay are those without a reason to leave. -/
theorem retirePass_eq (frontier : ParetoFrontier F) :
    retirePass champion weights roundIndex frontier =
      { surviving := frontier.members.filter fun m =>
          decide (retireReason champion weights m = none)
        retired := frontier.retired ++
          frontier.members.filterMap (retirement champion weights roundIndex)
        retiredIds := (frontier.members.filter fun m =>
          decide (retireReason champion weights m ≠ none)).map (·.generationId) } := by
  have hfrom : ∀ (members : List (FrontierMember F)) (p : Pass F),
      members.foldl (fun p member => p.retireOne champion weights roundIndex member) p =
      { p with
        surviving := p.surviving ++ members.filter fun m =>
          decide (retireReason champion weights m = none)
        retired := p.retired ++ members.filterMap (retirement champion weights roundIndex)
        retiredIds := p.retiredIds ++ (members.filter fun m =>
          decide (retireReason champion weights m ≠ none)).map (·.generationId) } := by
    intro members
    induction members with
    | nil => simp
    | cons m rest ih =>
      intro p
      rw [foldl_cons, ih]
      cases h : retireReason champion weights m with
      | none => simp [retirement, h, Pass.retireOne]
      | some reason => simp [retirement, h, Pass.retireOne, Pass.retire]
  exact (hfrom frontier.members _).trans (by simp)

/-! ## The admit pass -/

/-- The member a candidate would be; none for one that is refused whatever is on the record. -/
def newcomer (candidate : FrontierCandidate F) : Option (FrontierMember F) :=
  let values := axisValues candidate.aggregate (frontierAxes weights)
  let beats := beatsOn values (championValues champion weights) weights.promoteMargin
  if candidate.isPlacebo = true ∨ values = [] ∨
      Gate.regressedNamespaces champion.aggregate candidate.aggregate weights ≠ [] ∨ beats = []
  then none
  else some (memberFrom champion roundIndex candidate values beats)

/-- Dominance of members. -/
def beatsMember (m n : FrontierMember F) : Bool :=
  dominates weights.promoteMargin m.axisValues n.axisValues

/-- What the admit pass writes about a member that a newcomer displaces. -/
def displacement (n old : FrontierMember F) : RetiredMember F :=
  ⟨old, roundIndex, dominatedByPrefix ++ n.generationId⟩

/-- What one turn does with a newcomer. -/
def letIn (p : Pass F) (n : FrontierMember F) : Pass F where
  surviving := (p.surviving.filter fun m => !beatsMember weights n m) ++ [n]
  retired := p.retired ++
    (p.surviving.filter fun m => beatsMember weights n m).map (displacement roundIndex n)
  retiredIds := p.retiredIds ++
    (p.surviving.filter fun m => beatsMember weights n m).map (·.generationId)
  known := p.known ++ [n.generationId]
  admittedIds := p.admittedIds ++ [n.generationId]

omit [PyArith F] in
theorem foldl_retire (reason : String) (displaced : List (FrontierMember F)) (p : Pass F) :
    displaced.foldl (fun p old => p.retire roundIndex old reason) p =
      { p with
        retired := p.retired ++ displaced.map fun old => ⟨old, roundIndex, reason⟩
        retiredIds := p.retiredIds ++ displaced.map (·.generationId) } := by
  induction displaced generalizing p with
  | nil => simp
  | cons old rest ih =>
    rw [foldl_cons, ih]
    simp [Pass.retire]

theorem newcomer_generationId {candidate : FrontierCandidate F} {n : FrontierMember F}
    (h : newcomer champion weights roundIndex candidate = some n) :
    n.generationId = candidate.generationId := by
  unfold newcomer at h
  dsimp only at h
  split at h
  · cases h
  · rw [← some.inj h]
    rfl

theorem filter_notMem_filter {α : Type} [DecidableEq α] (l : List α) (f : α → Bool) :
    (l.filter fun m => decide (m ∉ l.filter f)) = l.filter fun m => !f m := by
  refine filter_congr fun m hm => ?_
  cases hf : f m <;> simp [hm, hf]

/-- One turn of the admit pass. -/
theorem admitOne_eq [DecidableEq F] (p : Pass F) (candidate : FrontierCandidate F) :
    admitOne champion weights roundIndex p candidate =
      if candidate.generationId ∈ p.known then p
      else
        match newcomer champion weights roundIndex candidate with
        | none => p
        | some n =>
            if p.surviving.any fun m => beatsMember weights m n then p
            else letIn weights roundIndex p n := by
  by_cases hknown : candidate.generationId ∈ p.known
  · rw [admitOne, if_pos (.inl hknown), if_pos hknown]
  rw [if_neg hknown]
  by_cases hplacebo : candidate.isPlacebo = true
  · have hnone : newcomer champion weights roundIndex candidate = none := if_pos (.inl hplacebo)
    rw [admitOne, if_pos (.inr hplacebo), hnone]
  rw [admitOne, if_neg (not_or.mpr ⟨hknown, hplacebo⟩)]
  by_cases hvalues : axisValues candidate.aggregate (frontierAxes weights) = []
  · have hnone : newcomer champion weights roundIndex candidate = none :=
      if_pos (.inr (.inl hvalues))
    rw [hnone]
    exact if_pos hvalues
  by_cases hregressed : Gate.regressedNamespaces champion.aggregate candidate.aggregate weights = []
  swap
  · have hnone : newcomer champion weights roundIndex candidate = none :=
      if_pos (.inr (.inr (.inl hregressed)))
    rw [hnone]
    exact (if_neg hvalues).trans (if_pos hregressed)
  have hpassed : ¬(Gate.regressedNamespaces champion.aggregate candidate.aggregate weights ≠ []) :=
    not_not_intro hregressed
  by_cases hbeats : beatsOn (axisValues candidate.aggregate (frontierAxes weights))
      (championValues champion weights) weights.promoteMargin = []
  · have hnone : newcomer champion weights roundIndex candidate = none :=
      if_pos (.inr (.inr (.inr hbeats)))
    rw [hnone]
    exact (if_neg hvalues).trans ((if_neg hpassed).trans (if_pos hbeats))
  · have hsome : newcomer champion weights roundIndex candidate =
        some (memberFrom champion roundIndex candidate
          (axisValues candidate.aggregate (frontierAxes weights))
          (beatsOn (axisValues candidate.aggregate (frontierAxes weights))
            (championValues champion weights) weights.promoteMargin)) :=
      if_neg (by simp [hplacebo, hvalues, hregressed, hbeats])
    rw [hsome]
    refine (if_neg hvalues).trans ((if_neg hpassed).trans ((if_neg hbeats).trans ?_))
    refine if_congr Iff.rfl rfl ?_
    dsimp only
    rw [foldl_retire, filter_notMem_filter]
    rfl

end Passes

end Zicato.Pareto
