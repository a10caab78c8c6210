import Mathlib.Data.List.Perm.Subperm
import Zicato.PromotionGate
import Zicato.PyExcept

/-! # What the gate lets pass

The reason of each rule is empty exactly when the rule does not reject, so a
promotion says of every rule that it did not.  Of numbers that are not finite the
gate promotes on none, except that a per-entry score is read as a miss. -/
open List Option String Except
namespace Zicato.Gate

open GateNum

variable {F : Type} [GateNum F]

/-! ## Reasons -/

section Reasons
variable {parent child : Agg F} {w : Weights F}

/-- No number is named if all are finite. -/
theorem nonfiniteEvidence_eq_empty {named : List (String × F)} :
    nonfiniteEvidence named = "" ↔ ∀ item ∈ named, isfinite item.2 = true := by
  unfold nonfiniteEvidence
  split
  · rename_i hnil
    have hnone := filter_eq_nil_iff.mp (map_eq_nil_iff.mp hnil)
    refine ⟨fun _ item hitem => by simpa using hnone item hitem, fun _ => rfl⟩
  · rename_i hbad
    have htext : "invalid evidence: " ++ ", ".intercalate
        ((named.filter fun item => !isfinite item.2).map Prod.fst) ++ " must be finite" ≠ "" :=
      by simp [append_eq_empty_iff]
    refine ⟨fun h => absurd h htext, fun h => ?_⟩
    refine absurd (map_eq_nil_iff.mpr (filter_eq_nil_iff.mpr fun item hitem => ?_)) hbad
    simp [h item hitem]

/-- When the diff ceiling does not fire. -/
theorem ceilingReason_eq_empty :
    ceilingReason child w = .ok "" ↔
      (lt zero w.diffComplexityCeiling = true → ∀ size, child.diffSize = some size →
        ∃ complexity, diffComplexity size = .ok complexity ∧
          lt w.diffComplexityCeiling complexity = false) := by
  unfold ceilingReason
  by_cases hon : lt zero w.diffComplexityCeiling = true
  · rw [if_pos hon]
    cases hsize : child.diffSize with
    | none => simp
    | some size =>
      cases hcomplexity : diffComplexity size with
      | error e =>
        have herror : (Except.error e >>= fun complexity : F =>
            if lt w.diffComplexityCeiling complexity = true then
              (.ok ("diff_complexity_ceiling: diff complexity " ++ format "g" complexity ++
                " exceeds ceiling " ++ format "g" w.diffComplexityCeiling) : Except String String)
            else .ok "") = .error e := rfl
        simp [hcomplexity, herror, hon]
      | ok complexity =>
        simp only [hcomplexity, ok_bind, some.injEq, forall_eq', hon, forall_const,
          ok.injEq, exists_eq_left']
        by_cases hover : lt w.diffComplexityCeiling complexity = true
        · rw [if_pos hover, hover]
          have htext : "diff_complexity_ceiling: diff complexity " ++ format "g" complexity ++
              " exceeds ceiling " ++ format "g" w.diffComplexityCeiling ≠ "" :=
            by simp [append_eq_empty_iff]
          simp [htext]
        · rw [if_neg hover]
          simpa using hover
  · simp [hon]

/-- When the scalar rule does not fire. -/
theorem scalarReason_eq_empty : scalarReason parent child w = .ok "" ↔
    marginMissed parent child w = false := by
  unfold scalarReason
  by_cases hmissed : marginMissed parent child w = true
  · rw [if_pos hmissed, hmissed]
    refine iff_of_false (fun h => ?_) (by simp)
    obtain ⟨toll, -, htext⟩ := bind_eq_ok h
    have hempty := (append_eq_empty_iff.mp (ok.inj htext)).1
    split at hempty
    · simp [append_eq_empty_iff] at hempty
    · simp [append_eq_empty_iff] at hempty
  · rw [if_neg hmissed]
    simpa using hmissed

/-- No pass-rate regression under the scope of the weights, beyond a budget. -/
def PassRateHolds (parent child : Agg F) (w : Weights F) (entryBudget : Nat) : Prop :=
  match w.passRateMonotonicityScope with
  | .aggregate => meanRegressed parent child entryBudget = false
  | .perEntry => (regressedEntries parent child).length ≤ entryBudget

/-- When the pass rate does not fire. -/
theorem passRateRegressionReason_eq_empty (lead : String) (entryBudget : Nat) :
    passRateRegressionReason parent child w lead entryBudget = "" ↔
      PassRateHolds parent child w entryBudget := by
  unfold passRateRegressionReason PassRateHolds
  cases w.passRateMonotonicityScope with
  | aggregate =>
    simp only
    split
    · rename_i hfell
      rw [hfell]
      refine iff_of_false ?_ (by simp)
      intro h
      have htail := (append_eq_empty_iff.mp h).2
      exact absurd htail (by decide)
    · rename_i hheld
      simpa using hheld
  | perEntry =>
    simp only
    split
    · rename_i hwithin
      simp [hwithin]
    · rename_i hbeyond
      refine iff_of_false ?_ hbeyond
      intro h
      have hlead := (append_eq_empty_iff.mp (append_eq_empty_iff.mp h).1).2
      exact absurd hlead (by decide)

theorem passReason_eq_empty : passReason parent child w = "" ↔
    (w.passRateMonotonicity = true → PassRateHolds parent child w 0) := by
  unfold passReason
  by_cases hon : w.passRateMonotonicity = true
  · rw [if_pos hon, passRateRegressionReason_eq_empty]
    simp [hon]
  · simp [hon]

theorem namespaceReason_eq_empty : namespaceReason parent child w = "" ↔
    regressedNamespaces parent child w = [] := by
  unfold namespaceReason
  split
  · rename_i hnil
    simp [hnil]
  · rename_i hsome
    refine iff_of_false (fun h => ?_) hsome
    exact absurd (append_eq_empty_iff.mp h).2 (by decide)

/-- The holdout confirms a win. -/
structure Confirms (parent child : Agg F) (w : Weights F) : Prop where
  complete : parent.incompleteEntries = [] ∧ child.incompleteEntries = []
  finite : isfinite parent.scalar = true ∧ isfinite child.scalar = true ∧
    isfinite (meanScore parent) = true ∧ isfinite (meanScore child) = true
  margin : lt (effectiveHoldoutMargin w) (sub child.scalar parent.scalar) = false
  passRate : w.passRateMonotonicity = true →
    PassRateHolds parent child w w.holdoutEntryRegressionBudget

/-- When the holdout confirms. -/
theorem holdoutConfirms_eq_empty : holdoutConfirms parent child w = "" ↔
    Confirms parent child w := by
  unfold holdoutConfirms
  split
  · rename_i hincomplete
    refine iff_of_false (by decide) fun h => ?_
    simp [h.complete.1, h.complete.2] at hincomplete
  rename_i hcomplete
  have hcomplete : parent.incompleteEntries = [] ∧ child.incompleteEntries = [] := by
    simpa using hcomplete
  simp only
  split
  · rename_i hinvalid
    refine iff_of_false (by simp [append_eq_empty_iff]) fun h => hinvalid ?_
    rw [nonfiniteEvidence_eq_empty]
    simpa [and_assoc] using h.finite
  rename_i hfinite
  have hfinite := nonfiniteEvidence_eq_empty.mp (not_not.mp hfinite)
  simp only [mem_cons, not_mem_nil, or_false, forall_eq_or_imp, forall_eq] at hfinite
  split
  · rename_i hrose
    refine iff_of_false ?_ fun h => by simp [h.margin] at hrose
    simp [append_eq_empty_iff]
  rename_i hheld
  split
  · rw [passRateRegressionReason_eq_empty]
    rename_i hon
    exact ⟨fun h => ⟨hcomplete, hfinite, by simpa using hheld, fun _ => h⟩, fun h => h.passRate hon⟩
  · rename_i hoff
    exact ⟨fun _ => ⟨hcomplete, hfinite, by simpa using hheld, fun hon => absurd hon hoff⟩,
      fun _ => rfl⟩

theorem evidenceReason_eq_empty : evidenceReason parent child = "" ↔
    isfinite parent.scalar = true ∧ isfinite child.scalar = true ∧
      isfinite (meanScore parent) = true ∧ isfinite (meanScore child) = true := by
  rw [evidenceReason, nonfiniteEvidence_eq_empty]
  simp

theorem holdoutReason_eq_empty {holdoutParent holdoutChild : Option (Agg F)} :
    holdoutReason w holdoutParent holdoutChild = "" ↔
      ∀ p c, holdoutParent = some p → holdoutChild = some c → Confirms p c w := by
  unfold holdoutReason
  split
  · rw [holdoutConfirms_eq_empty]
    simp
  · rename_i hmissing
    refine ⟨fun _ p c hp hc => absurd hc ?_, fun _ => rfl⟩
    exact hmissing p c hp

end Reasons

/-! ## A promotion -/

section Promotion
variable {parent child : Agg F} {w : Weights F} {holdoutParent holdoutChild : Option (Agg F)}

/-- No rule rejects the duel. -/
structure Clear (parent child : Agg F) (w : Weights F)
    (holdoutParent holdoutChild : Option (Agg F)) : Prop where
  finite : isfinite parent.scalar = true ∧ isfinite child.scalar = true ∧
    isfinite (meanScore parent) = true ∧ isfinite (meanScore child) = true
  ceiling : lt zero w.diffComplexityCeiling = true → ∀ size, child.diffSize = some size →
    ∃ complexity, diffComplexity size = .ok complexity ∧
      lt w.diffComplexityCeiling complexity = false
  margin : marginMissed parent child w = false
  passRate : w.passRateMonotonicity = true → PassRateHolds parent child w 0
  namespaces : regressedNamespaces parent child w = []
  holdout : ∀ p c, holdoutParent = some p → holdoutChild = some c → Confirms p c w

/-- The rules behind the scalar, all of which have to hold. -/
theorem evaluateRest_promoted :
    (evaluateRest parent child w holdoutParent holdoutChild).outcome.decision = .promoted ↔
      (w.passRateMonotonicity = true → PassRateHolds parent child w 0) ∧
        regressedNamespaces parent child w = [] ∧
        ∀ p c, holdoutParent = some p → holdoutChild = some c → Confirms p c w := by
  rw [← passReason_eq_empty, ← namespaceReason_eq_empty, ← holdoutReason_eq_empty]
  unfold evaluateRest
  by_cases hpass : passReason parent child w = ""
  · rw [if_neg (not_not.mpr hpass)]
    by_cases hns : namespaceReason parent child w = ""
    · rw [if_neg (not_not.mpr hns)]
      by_cases hhold : holdoutReason w holdoutParent holdoutChild = ""
      · rw [if_neg (not_not.mpr hhold)]
        exact iff_of_true rfl ⟨hpass, hns, hhold⟩
      · rw [if_pos hhold]
        exact iff_of_false (by simp [rejectedBy, stopped, conclude]) fun h => hhold h.2.2
    · rw [if_pos hns]
      exact iff_of_false (by simp [rejectedBy, stopped, conclude]) fun h => hns h.2.1
  · rw [if_pos hpass]
    exact iff_of_false (by simp [rejectedBy, stopped, conclude]) fun h => hpass h.1

/-- **The gate promotes exactly the complete duels that no rule rejects.** -/
theorem evaluateGate_promoted :
    (∃ v, evaluateGate parent child w holdoutParent holdoutChild = .ok v ∧
        v.outcome.decision = .promoted) ↔
      incompleteSide parent child holdoutParent holdoutChild = none ∧
        Clear parent child w holdoutParent holdoutChild := by
  unfold evaluateGate
  cases hside : incompleteSide parent child holdoutParent holdoutChild with
  | some side =>
    refine iff_of_false ?_ (by simp)
    rintro ⟨v, hv, hpromoted⟩
    obtain rfl := ok.inj hv
    cases hpromoted
  | none =>
    simp only [true_and]
    by_cases hevidence : evidenceReason parent child = ""
    · rw [if_neg (not_not.mpr hevidence)]
      constructor
      · rintro ⟨v, hv, hpromoted⟩
        obtain ⟨ceiling, hceiling, hv⟩ := bind_eq_ok hv
        split at hv
        · obtain rfl := ok.inj hv
          cases hpromoted
        rename_i hnone
        obtain ⟨margin, hmargin, hv⟩ := bind_eq_ok hv
        split at hv
        · obtain rfl := ok.inj hv
          cases hpromoted
        rename_i hnone'
        obtain rfl := ok.inj hv
        rw [not_not.mp hnone] at hceiling
        rw [not_not.mp hnone'] at hmargin
        obtain ⟨hpass, hns, hhold⟩ := evaluateRest_promoted.mp hpromoted
        exact ⟨evidenceReason_eq_empty.mp hevidence, ceilingReason_eq_empty.mp hceiling,
          scalarReason_eq_empty.mp hmargin, hpass, hns, hhold⟩
      · intro h
        refine ⟨evaluateRest parent child w holdoutParent holdoutChild, ?_,
          evaluateRest_promoted.mpr ⟨h.passRate, h.namespaces, h.holdout⟩⟩
        rw [ceilingReason_eq_empty.mpr h.ceiling, ok_bind, if_neg (by simp),
          scalarReason_eq_empty.mpr h.margin, ok_bind, if_neg (by simp)]
    · rw [if_pos hevidence]
      refine iff_of_false ?_ fun h => hevidence (evidenceReason_eq_empty.mpr h.finite)
      rintro ⟨v, hv, hpromoted⟩
      obtain rfl := ok.inj hv
      cases hpromoted

end Promotion

/-! ## Numbers that are not finite -/

section NonFinite

/-- A recorded count that is no finite number. -/
def Num.NonFinite : Num F → Prop
  | .int _ => False
  | .float x => isfinite x = false

/-- A count of the diff that is no finite number. -/
def DiffSize.NonFinite (size : DiffSize F) : Prop :=
  ∃ n, (size.added = some n ∨ size.removed = some n ∨ size.patches = some n) ∧ n.NonFinite

/-- The pass-rate rule reads a challenger score that is not finite, of an entry where
the champion's score is above the tolerance. -/
def ScoreLost (parent child : Agg F) (entryId : String) : Prop :=
  ∃ row row' value, (entryId, row) ∈ parent.perEntry ∧ child.perEntry.get? entryId = some row' ∧
    row'.score = some value ∧ isfinite value = false ∧
    ∃ parentScore, rowScore (some row) = some parentScore ∧
      lt zero (sub parentScore perEntryTolerance) = true

/-- A number that an enabled rule reads is not finite.  Of per-entry scores, which
are read as a miss, it counts those of the challenger that a rule has something to
compare with. -/
inductive Unfounded (parent child : Agg F) (w : Weights F) :
    Option (Agg F) → Option (Agg F) → Prop
  | scalar {hp hc} (h : isfinite parent.scalar = false ∨ isfinite child.scalar = false) :
      Unfounded parent child w hp hc
  | meanScore {hp hc}
      (h : isfinite (meanScore parent) = false ∨ isfinite (meanScore child) = false) :
      Unfounded parent child w hp hc
  | diffSize {hp hc} (size : DiffSize F) (hon : lt zero w.diffComplexityCeiling = true)
      (hsize : child.diffSize = some size) (h : size.NonFinite) : Unfounded parent child w hp hc
  | nspace {hp hc} (flag : String × Bool) (parentVal childVal : F)
      (hflag : flag ∈ w.namespaceMonotonicity) (hmonitored : monitored w flag = true)
      (hparent : (parent.namespaceAggregates.getD []).get? flag.1 = some parentVal)
      (hchild : (child.namespaceAggregates.getD []).get? flag.1 = some childVal)
      (h : isfinite parentVal = false ∨ isfinite childVal = false) : Unfounded parent child w hp hc
  | entry {hp hc} (entryId : String) (hon : w.passRateMonotonicity = true)
      (hscope : w.passRateMonotonicityScope = .perEntry) (h : ScoreLost parent child entryId) :
      Unfounded parent child w hp hc
  | holdoutScalar {p c} (h : isfinite p.scalar = false ∨ isfinite c.scalar = false) :
      Unfounded parent child w (some p) (some c)
  | holdoutMean {p c} (h : isfinite (Gate.meanScore p) = false ∨
      isfinite (Gate.meanScore c) = false) : Unfounded parent child w (some p) (some c)
  | holdoutEntries {p c} (lost : List String) (hon : w.passRateMonotonicity = true)
      (hscope : w.passRateMonotonicityScope = .perEntry) (hnodup : lost.Nodup)
      (h : ∀ entryId ∈ lost, ScoreLost p c entryId)
      (hbudget : w.holdoutEntryRegressionBudget < lost.length) :
      Unfounded parent child w (some p) (some c)

variable {parent child : Agg F} {w : Weights F} {holdoutParent holdoutChild : Option (Agg F)}

theorem Num.toInt_error {n : Num F} (h : n.NonFinite) : ∃ e, n.toInt = .error e := by
  cases n with
  | int n => exact h.elim
  | float x =>
    have hx : isfinite x = false := h
    exact ⟨_, by rw [Num.toInt, if_neg (by simp [hx])]⟩

/-- A count that is no finite number is not read. -/
theorem DiffSize.counts_ne_ok {size : DiffSize F} (h : size.NonFinite) (counts : Int × Int × Int) :
    size.counts ≠ .ok counts := by
  intro hcounts
  obtain ⟨n, hn, hnon⟩ := h
  obtain ⟨e, he⟩ := Num.toInt_error hnon
  obtain ⟨added, hadded, hcounts⟩ := bind_eq_ok hcounts
  obtain ⟨removed, hremoved, hcounts⟩ := bind_eq_ok hcounts
  obtain ⟨patches, hpatches, -⟩ := bind_eq_ok hcounts
  rcases hn with hn | hn | hn
  · rw [hn, getD_some, he] at hadded
    cases hadded
  · rw [hn, getD_some, he] at hremoved
    cases hremoved
  · rw [hn, getD_some, he] at hpatches
    cases hpatches

theorem ScoreLost.regressed {entryId : String} (h : ScoreLost parent child entryId) :
    entryId ∈ regressedEntries parent child := by
  obtain ⟨row, row', value, hrow, hget, hscore, hvalue, parentScore, hparent, hlt⟩ := h
  have heffective : effectiveScore child entryId = zero := by
    simp [effectiveScore, hget, rowScore, Row.outcome, hscore, clampScore, hvalue]
  rw [regressedEntries, sortIds, mem_sorted]
  refine mem_map.mpr ⟨(entryId, row), mem_filter.mpr ⟨hrow, ?_⟩, rfl⟩
  rw [entryRegressed]
  simp only [hparent, heffective]
  exact hlt

/-- A rule that reads a number that is not finite does not pass. -/
theorem Clear.founded (h : Clear parent child w holdoutParent holdoutChild)
    (hbad : Unfounded parent child w holdoutParent holdoutChild) : False := by
  cases hbad with
  | scalar hs | meanScore hs =>
    have hfinite := h.finite
    rcases hs with hs | hs <;> simp [hs] at hfinite
  | diffSize size hon hsize hs =>
    obtain ⟨complexity, hcomplexity, -⟩ := h.ceiling hon size hsize
    obtain ⟨counts, hcounts, -⟩ := bind_eq_ok hcomplexity
    exact DiffSize.counts_ne_ok hs counts hcounts
  | nspace flag parentVal childVal hflag hmonitored hparent hchild hs =>
    have hregressed : namespaceRegressed parent child flag.1 = true := by
      rw [namespaceRegressed]
      simp only [hparent, hchild]
      rcases hs with hs | hs <;> simp [hs]
    have hmem : flag.1 ∈ regressedNamespaces parent child w := by
      rw [regressedNamespaces, sortIds, mem_sorted]
      refine mem_map.mpr ⟨flag, mem_filter.mpr ⟨hflag, ?_⟩, rfl⟩
      rw [hmonitored, hregressed]
      rfl
    rw [h.namespaces] at hmem
    cases hmem
  | entry entryId hon hscope hs =>
    have hheld := h.passRate hon
    rw [PassRateHolds, hscope] at hheld
    have hnil := length_eq_zero_iff.mp (Nat.le_zero.mp hheld)
    have hmem := hs.regressed
    rw [hnil] at hmem
    cases hmem
  | holdoutScalar hs | holdoutMean hs =>
    have hfinite := (h.holdout _ _ rfl rfl).finite
    rcases hs with hs | hs <;> simp [hs] at hfinite
  | holdoutEntries lost hon hscope hnodup hs hbudget =>
    have hheld := (h.holdout _ _ rfl rfl).passRate hon
    rw [PassRateHolds, hscope] at hheld
    have hlen : lost.length ≤ (regressedEntries _ _).length :=
      (subperm_of_subset hnodup fun entryId hmem => (hs entryId hmem).regressed).length_le
    exact absurd (hlen.trans hheld) (by omega)

/-- **The gate does not promote on numbers that are not finite.**  Per-entry scores
are the exception: one that is not finite is a miss, which stops the promotion only
where the champion's score is above the tolerance. -/
theorem gate_fails_closed (hbad : Unfounded parent child w holdoutParent holdoutChild)
    (v : Verdict F) (hv : evaluateGate parent child w holdoutParent holdoutChild = .ok v) :
    v.outcome.decision ≠ .promoted := fun hpromoted =>
  (evaluateGate_promoted.mp ⟨v, hv, hpromoted⟩).2.founded hbad

end NonFinite

/-! ### Two duels -/

/-- Weights with a promote margin and no diff allowance. -/
def strictWeights : Weights Exact where
  promoteMargin := .fin (1 / 100)
  diffComplexityCeiling := .fin 0

/-- An aggregate of one entry. -/
def scoredAgg (scalar score : Exact) : Agg Exact where
  scalar := scalar
  perEntry := [("e1", { score := some score })]

/-- The challenger has no scalar. -/
theorem gate_fails_closed_nan :
    ∃ v, evaluateGate (scoredAgg (.fin 1) (.fin 1)) (scoredAgg .nan (.fin 1)) strictWeights
        none none = .ok v ∧ v.outcome.decision ≠ .promoted := by
  have hbad : Unfounded (scoredAgg (.fin 1) (.fin 1)) (scoredAgg .nan (.fin 1)) strictWeights
      none none := .scalar (Or.inr rfl)
  obtain ⟨v, hv⟩ : ∃ v, evaluateGate (scoredAgg (.fin 1) (.fin 1)) (scoredAgg .nan (.fin 1))
      strictWeights none none = .ok v := ⟨_, rfl⟩
  exact ⟨v, hv, gate_fails_closed hbad v hv⟩

/-- The champion's score of an entry is no number, the challenger fails the entry
and is promoted. -/
theorem nan_entry_score_promotes :
    strictWeights.passRateMonotonicity = true ∧
      strictWeights.passRateMonotonicityScope = .perEntry ∧
      isfinite (Exact.nan) = false ∧
      ∃ v, evaluateGate (scoredAgg (.fin 1) .nan) (scoredAgg (.fin 0) (.fin 0)) strictWeights
        none none = .ok v ∧ v.outcome.decision = .promoted := by
  refine ⟨rfl, rfl, rfl, evaluateGate_promoted.mpr ⟨rfl, ?_⟩⟩
  constructor
  · exact ⟨rfl, rfl, rfl, rfl⟩
  · intro hon
    exact absurd hon (by decide)
  · decide +kernel
  · intro _
    rw [PassRateHolds]
    change (regressedEntries _ _).length ≤ 0
    rw [regressedEntries, sortIds, length_sorted]
    decide +kernel
  · refine List.length_eq_zero_iff.mp ?_
    rw [regressedNamespaces, sortIds, length_sorted]
    rfl
  · intro p c hp
    cases hp

end Zicato.Gate
