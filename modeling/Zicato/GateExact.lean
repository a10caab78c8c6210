import Mathlib.Tactic.Linarith
import Zicato.GateRules

/-! # The gate over exact numbers

With finite numbers and exact arithmetic each rule is an inequality, the gate always
answers, and a better challenger passes where a worse one did. -/
open Except
namespace Zicato.Gate

open GateNum

instance : GateNum ℚ where
  lt a b := decide (a < b)
  le a b := decide (a ≤ b)
  eq a b := decide (a = b)
  isfinite _ := true
  add := (· + ·)
  sub := (· - ·)
  mul := (· * ·)
  neg := (- ·)
  lit := id
  ofInt n := some n
  trunc x := x.num.tdiv x.den
  format _ x := toString x

section Rat
variable (a b : ℚ)

@[simp] theorem rat_lt : GateNum.lt a b = decide (a < b) := rfl

@[simp] theorem rat_eq : GateNum.eq a b = decide (a = b) := rfl

@[simp] theorem rat_isfinite : GateNum.isfinite a = true := rfl

@[simp] theorem rat_add : GateNum.add a b = a + b := rfl

@[simp] theorem rat_sub : GateNum.sub a b = a - b := rfl

@[simp] theorem rat_neg : GateNum.neg a = -a := rfl

@[simp] theorem rat_zero : (zero : ℚ) = 0 := rfl

@[simp] theorem rat_one : (one : ℚ) = 1 := rfl

@[simp] theorem rat_perEntryTolerance : (perEntryTolerance : ℚ) = 2 / 100 := rfl

@[simp] theorem rat_passRateTolerance : (passRateTolerance : ℚ) = 1 / 10 ^ 9 := rfl

@[simp] theorem rat_namespaceTolerance : (namespaceTolerance : ℚ) = 0 := rfl

end Rat

/-! ## The rules as inequalities -/

/-- A count of a diff. -/
def Num.whole : Num ℚ → Int
  | .int n => n
  | .float x => trunc x

/-- Lines added, lines removed and patches. -/
def DiffSize.complexity (size : DiffSize ℚ) : Int :=
  (size.added.getD (.int 0)).whole + (size.removed.getD (.int 0)).whole +
    (size.patches.getD (.int 0)).whole

/-- The challenger's score of an entry is below the champion's by more than the
tolerance. -/
def Fell (child : Agg ℚ) (entry : String × Row ℚ) : Prop :=
  ∃ score, rowScore (some entry.2) = some score ∧
    effectiveScore child entry.1 < score - 2 / 100

theorem entryRegressed_iff {child : Agg ℚ} {entry : String × Row ℚ} :
    entryRegressed child entry = true ↔ Fell child entry := by
  unfold entryRegressed Fell
  cases rowScore (some entry.2) <;> simp

instance (child : Agg ℚ) (entry : String × Row ℚ) : Decidable (Fell child entry) :=
  decidable_of_iff _ entryRegressed_iff

/-- No pass-rate regression beyond the budget. -/
def PassRateKept (parent child : Agg ℚ) (w : Weights ℚ) (entryBudget : Nat) : Prop :=
  match w.passRateMonotonicityScope with
  | .aggregate =>
      meanScore parent - (1 / 10 ^ 9 + budgetBand parent entryBudget) ≤ meanScore child
  | .perEntry => parent.perEntry.countP (fun entry => decide (Fell child entry)) ≤ entryBudget

/-- The holdout confirms the win. -/
structure HoldoutHolds (parent child : Agg ℚ) (w : Weights ℚ) : Prop where
  loss : child.scalar - parent.scalar ≤ effectiveHoldoutMargin w
  passRate : w.passRateMonotonicity = true →
    PassRateKept parent child w w.holdoutEntryRegressionBudget

/-- What a promotion needs. -/
structure RulesHold (parent child : Agg ℚ) (w : Weights ℚ)
    (holdoutParent holdoutChild : Option (Agg ℚ)) : Prop where
  ceiling : 0 < w.diffComplexityCeiling → ∀ size, child.diffSize = some size →
    (size.complexity : ℚ) ≤ w.diffComplexityCeiling
  margin : child.scalar ≤ parent.scalar - w.promoteMargin
  passRate : w.passRateMonotonicity = true → PassRateKept parent child w 0
  namespaces : ∀ ns, (ns, true) ∈ w.namespaceMonotonicity → w.namespaceWeights.getD ns 0 ≠ 0 →
    ∀ parentVal childVal, (parent.namespaceAggregates.getD []).get? ns = some parentVal →
      (child.namespaceAggregates.getD []).get? ns = some childVal → childVal ≤ parentVal
  holdout : ∀ p c, holdoutParent = some p → holdoutChild = some c → HoldoutHolds p c w

/-- One of the aggregates that were given has unstarted board units. -/
def Incomplete {F : Type} (parent child : Agg F) (holdoutParent holdoutChild : Option (Agg F)) :
    Prop :=
  ∃ agg, (agg = parent ∨ agg = child ∨ holdoutParent = some agg ∨ holdoutChild = some agg) ∧
    agg.incompleteEntries ≠ []

section Inequalities
variable {parent child : Agg ℚ} {w : Weights ℚ} {holdoutParent holdoutChild : Option (Agg ℚ)}

theorem Num.toInt_eq (n : Num ℚ) : n.toInt = .ok n.whole := by
  cases n <;> rfl

theorem DiffSize.counts_eq (size : DiffSize ℚ) : size.counts =
    .ok ((size.added.getD (.int 0)).whole, (size.removed.getD (.int 0)).whole,
      (size.patches.getD (.int 0)).whole) := by
  rw [counts, Num.toInt_eq, Num.toInt_eq, Num.toInt_eq]
  rfl

theorem diffComplexity_eq (size : DiffSize ℚ) :
    diffComplexity size = .ok (size.complexity : ℚ) := by
  rw [diffComplexity, DiffSize.counts_eq]
  rfl

/-- The pass rate, over the rationals. -/
theorem passRateHolds_iff {entryBudget : Nat} :
    PassRateHolds parent child w entryBudget ↔ PassRateKept parent child w entryBudget := by
  unfold PassRateHolds PassRateKept
  cases w.passRateMonotonicityScope with
  | aggregate =>
    simp only [meanRegressed, rat_lt, rat_sub, rat_neg, rat_add, rat_passRateTolerance,
      decide_eq_false_iff_not, not_lt]
    constructor <;> intro h <;> linarith
  | perEntry =>
    simp only [regressedEntries, sortIds, length_sorted, List.length_map]
    rw [List.countP_eq_length_filter]
    have hsame : parent.perEntry.filter (entryRegressed child) =
        parent.perEntry.filter fun entry => decide (Fell child entry) :=
      List.filter_congr fun entry _ => by
        rw [Bool.eq_iff_iff, entryRegressed_iff, decide_eq_true_iff]
    rw [hsame]

/-- The namespaces, over the rationals. -/
theorem regressedNamespaces_eq_nil : regressedNamespaces parent child w = [] ↔
    ∀ ns, (ns, true) ∈ w.namespaceMonotonicity → w.namespaceWeights.getD ns 0 ≠ 0 →
      ∀ parentVal childVal, (parent.namespaceAggregates.getD []).get? ns = some parentVal →
        (child.namespaceAggregates.getD []).get? ns = some childVal → childVal ≤ parentVal := by
  rw [regressedNamespaces, ← List.length_eq_zero_iff, sortIds, length_sorted,
    List.length_eq_zero_iff, List.map_eq_nil_iff, List.filter_eq_nil_iff]
  constructor
  · intro h ns hflag hweight parentVal childVal hparent hchild
    have hns := h (ns, true) hflag
    simp [monitored, hweight, namespaceRegressed, hparent, hchild] at hns
    exact hns
  · rintro h ⟨ns, on⟩ hflag
    simp only [Bool.and_eq_true, not_and, Bool.not_eq_true, monitored, rat_eq, rat_zero]
    rintro ⟨hon, hweight⟩
    obtain rfl : on = true := hon
    unfold namespaceRegressed
    split
    · rename_i parentVal childVal hparent hchild
      have hle := h ns hflag (by simpa using hweight) parentVal childVal hparent hchild
      simpa using hle
    · rfl

theorem confirms_iff {p c : Agg ℚ} (hp : p.incompleteEntries = []) (hc : c.incompleteEntries = []) :
    Confirms p c w ↔ HoldoutHolds p c w := by
  constructor
  · intro h
    exact ⟨by simpa using h.margin, fun hon => passRateHolds_iff.mp (h.passRate hon)⟩
  · intro h
    exact ⟨⟨hp, hc⟩, ⟨rfl, rfl, rfl, rfl⟩, by simpa using h.loss,
      fun hon => passRateHolds_iff.mpr (h.passRate hon)⟩

theorem incompleteSide_eq_none {F : Type} [GateNum F] {parent child : Agg F}
    {holdoutParent holdoutChild : Option (Agg F)} :
    incompleteSide parent child holdoutParent holdoutChild = none ↔
      ¬ Incomplete parent child holdoutParent holdoutChild := by
  unfold incompleteSide Incomplete
  rw [Option.map_eq_none_iff, List.find?_eq_none]
  cases holdoutParent <;> cases holdoutChild <;> simp

/-- With complete aggregates the checks that pass are the inequalities. -/
theorem clear_iff (hcomplete : ¬ Incomplete parent child holdoutParent holdoutChild) :
    Clear parent child w holdoutParent holdoutChild ↔
      RulesHold parent child w holdoutParent holdoutChild := by
  have hside : ∀ agg, holdoutParent = some agg ∨ holdoutChild = some agg →
      agg.incompleteEntries = [] := by
    intro agg hagg
    by_contra hne
    exact hcomplete ⟨agg, .inr (.inr hagg), hne⟩
  constructor
  · intro h
    refine ⟨?_, by simpa [marginMissed] using h.margin,
      fun hon => passRateHolds_iff.mp (h.passRate hon),
      regressedNamespaces_eq_nil.mp h.namespaces, ?_⟩
    · intro hon size hsize
      obtain ⟨complexity, hcomplexity, hle⟩ := h.ceiling (by simpa using hon) size hsize
      rw [diffComplexity_eq] at hcomplexity
      obtain rfl := ok.inj hcomplexity
      simpa using hle
    · intro p c hp hc
      exact (confirms_iff (hside p (.inl hp)) (hside c (.inr hc))).mp (h.holdout p c hp hc)
  · intro h
    refine ⟨⟨rfl, rfl, rfl, rfl⟩, ?_, by simpa [marginMissed] using h.margin,
      fun hon => passRateHolds_iff.mpr (h.passRate hon),
      regressedNamespaces_eq_nil.mpr h.namespaces, ?_⟩
    · intro hon size hsize
      exact ⟨_, diffComplexity_eq size, by simpa using h.ceiling (by simpa using hon) size hsize⟩
    · intro p c hp hc
      exact (confirms_iff (hside p (.inl hp)) (hside c (.inr hc))).mpr (h.holdout p c hp hc)

end Inequalities

/-! ## The gate answers -/

section Answer
variable {parent child : Agg ℚ} {w : Weights ℚ} {holdoutParent holdoutChild : Option (Agg ℚ)}

theorem ceilingReason_ok (child : Agg ℚ) (w : Weights ℚ) :
    ∃ reason, ceilingReason child w = .ok reason := by
  unfold ceilingReason
  split
  · split
    · exact ⟨_, rfl⟩
    · rw [diffComplexity_eq, ok_bind]
      split <;> exact ⟨_, rfl⟩
  · exact ⟨_, rfl⟩

theorem diffSizeLine_ok (side : String) (agg : Agg ℚ) :
    ∃ lines, diffSizeLine side agg = .ok lines := by
  unfold diffSizeLine
  split
  · exact ⟨_, rfl⟩
  · rw [DiffSize.counts_eq, ok_bind]
    exact ⟨_, rfl⟩

theorem parsimonyDecomposition_ok (parent child : Agg ℚ) (w : Weights ℚ) (deltaScalar : ℚ) :
    ∃ toll, parsimonyDecomposition parent child w deltaScalar = .ok toll := by
  unfold parsimonyDecomposition
  obtain ⟨champion, hchampion⟩ := diffSizeLine_ok "champion" parent
  obtain ⟨challenger, hchallenger⟩ := diffSizeLine_ok "challenger" child
  simp only [diffSizeEvidence, hchampion, hchallenger, ok_bind]
  split <;> exact ⟨_, rfl⟩

theorem scalarReason_ok (parent child : Agg ℚ) (w : Weights ℚ) :
    ∃ reason, scalarReason parent child w = .ok reason := by
  unfold scalarReason
  split
  · obtain ⟨toll, htoll⟩ :=
      parsimonyDecomposition_ok parent child w (sub child.scalar parent.scalar)
    simp only [htoll, ok_bind]
    exact ⟨_, rfl⟩
  · exact ⟨_, rfl⟩

/-- The gate does not raise on rationals. -/
theorem evaluateGate_ok (parent child : Agg ℚ) (w : Weights ℚ)
    (holdoutParent holdoutChild : Option (Agg ℚ)) :
    ∃ v, evaluateGate parent child w holdoutParent holdoutChild = .ok v := by
  unfold evaluateGate
  split
  · exact ⟨_, rfl⟩
  split
  · exact ⟨_, rfl⟩
  obtain ⟨ceiling, hceiling⟩ := ceilingReason_ok child w
  rw [hceiling, ok_bind]
  split
  · exact ⟨_, rfl⟩
  obtain ⟨margin, hmargin⟩ := scalarReason_ok parent child w
  rw [hmargin, ok_bind]
  split <;> exact ⟨_, rfl⟩

/-- Complete evidence is promoted exactly if every rule holds. -/
theorem evaluateGate_promoted_iff {v : Verdict ℚ}
    (hv : evaluateGate parent child w holdoutParent holdoutChild = .ok v)
    (hcomplete : ¬ Incomplete parent child holdoutParent holdoutChild) :
    v.outcome.decision = .promoted ↔ RulesHold parent child w holdoutParent holdoutChild := by
  rw [← clear_iff hcomplete]
  constructor
  · intro hpromoted
    exact (evaluateGate_promoted.mp ⟨v, hv, hpromoted⟩).2
  · intro hclear
    obtain ⟨v', hv', hpromoted⟩ :=
      evaluateGate_promoted.mpr ⟨incompleteSide_eq_none.mpr hcomplete, hclear⟩
    obtain rfl := ok.inj (hv.symm.trans hv')
    exact hpromoted

end Answer

/-- Only an incomplete execution defers a duel. -/
theorem evaluateGate_deferred {F : Type} [GateNum F] {parent child : Agg F} {w : Weights F}
    {holdoutParent holdoutChild : Option (Agg F)} {v : Verdict F}
    (hv : evaluateGate parent child w holdoutParent holdoutChild = .ok v) :
    v.outcome.decision = .deferred ↔ Incomplete parent child holdoutParent holdoutChild := by
  unfold evaluateGate at hv
  split at hv
  · rename_i side hside
    obtain rfl := ok.inj hv
    refine iff_of_true rfl (not_not.mp fun hcomplete => ?_)
    rw [incompleteSide_eq_none.mpr hcomplete] at hside
    cases hside
  · rename_i hside
    refine iff_of_false ?_ (incompleteSide_eq_none.mp hside)
    split at hv
    · obtain rfl := ok.inj hv
      simp [rejectedBy, stopped, conclude]
    obtain ⟨ceiling, -, hv⟩ := bind_eq_ok hv
    split at hv
    · obtain rfl := ok.inj hv
      simp [rejectedBy, stopped, conclude]
    obtain ⟨margin, -, hv⟩ := bind_eq_ok hv
    split at hv
    · obtain rfl := ok.inj hv
      simp [rejectedBy, stopped, conclude]
    obtain rfl := ok.inj hv
    unfold evaluateRest
    split
    · simp [rejectedBy, stopped, conclude]
    split
    · simp [rejectedBy, stopped, conclude]
    split
    · simp [rejectedBy, stopped, conclude]
    · simp [conclude]

/-! ## A better challenger -/

/-- The row with its score, or its verdict, raised. -/
structure RowRaised (row row' : Row ℚ) : Prop where
  score : Option.Rel (· ≤ ·) row.score row'.score
  passFail : Option.Rel (· ≤ ·) row.passFail row'.passFail

/-- A challenger with a smaller loss, higher scores and smaller namespace
aggregates. -/
structure Improves (child child' : Agg ℚ) : Prop where
  incompleteEntries : child'.incompleteEntries = child.incompleteEntries
  diffSize : child'.diffSize = child.diffSize
  scalar : child'.scalar ≤ child.scalar
  meanScore : Gate.meanScore child ≤ Gate.meanScore child'
  perEntry : ∀ entryId,
    Option.Rel RowRaised (child.perEntry.get? entryId) (child'.perEntry.get? entryId)
  namespaceAggregates : ∀ ns, Option.Rel (· ≥ ·)
    ((child.namespaceAggregates.getD []).get? ns) ((child'.namespaceAggregates.getD []).get? ns)

section Improves
variable {parent child child' : Agg ℚ} {w : Weights ℚ}
  {holdoutParent holdoutChild : Option (Agg ℚ)}

theorem clampScore_eq (x : ℚ) : clampScore x = max 0 (min x 1) := by
  unfold clampScore
  simp only [rat_isfinite, rat_lt, rat_zero, rat_one, decide_eq_true_eq, Bool.true_eq_false,
    if_false]
  split
  · rename_i hneg
    exact (max_eq_left (min_le_of_left_le hneg.le)).symm
  split
  · rename_i hbig
    rw [min_eq_right hbig.le, max_eq_right zero_le_one]
  · rename_i hneg hbig
    rw [min_eq_left (not_lt.mp hbig), max_eq_right (not_lt.mp hneg)]

theorem clampScore_mono {x y : ℚ} (h : x ≤ y) : clampScore x ≤ clampScore y := by
  rw [clampScore_eq, clampScore_eq]
  exact max_le_max (le_refl 0) (min_le_min_right 1 h)

theorem RowRaised.outcome {row row' : Row ℚ} (h : RowRaised row row') :
    Option.Rel (· ≤ ·) row.outcome row'.outcome := by
  have hscore := h.score
  have hpass := h.passFail
  unfold Row.outcome
  revert hscore
  rcases row.score with _ | x <;> rcases row'.score with _ | y <;> rintro ⟨⟩
  · revert hpass
    rcases row.passFail with _ | b <;> rcases row'.passFail with _ | b' <;> rintro ⟨⟩
    · exact .none
    · rename_i hb
      refine .some ?_
      revert hb
      cases b <;> cases b' <;> decide
  · rename_i hxy
    exact .some (clampScore_mono hxy)

theorem Improves.effectiveScore (h : Improves child child') (entryId : String) :
    effectiveScore child entryId ≤ effectiveScore child' entryId := by
  unfold Gate.effectiveScore rowScore
  have hrow := h.perEntry entryId
  revert hrow
  rcases child.perEntry.get? entryId with _ | row <;>
    rcases child'.perEntry.get? entryId with _ | row' <;> rintro ⟨⟩
  · exact le_refl _
  · rename_i hrow
    have houtcome := hrow.outcome
    simp only [Option.bind_some]
    revert houtcome
    rcases row.outcome with _ | x <;> rcases row'.outcome with _ | y <;> rintro ⟨⟩
    · exact le_refl _
    · assumption

theorem Improves.passRateKept (h : Improves child child') {entryBudget : Nat}
    (hkept : PassRateKept parent child w entryBudget) :
    PassRateKept parent child' w entryBudget := by
  unfold PassRateKept at *
  cases hscope : w.passRateMonotonicityScope with
  | aggregate =>
    rw [hscope] at hkept
    exact le_trans hkept h.meanScore
  | perEntry =>
    rw [hscope] at hkept
    refine le_trans (List.countP_mono_left fun entry _ hfell => ?_) hkept
    obtain ⟨score, hscore, hlt⟩ := of_decide_eq_true hfell
    exact decide_eq_true ⟨score, hscore, (h.effectiveScore entry.1).trans_lt hlt⟩

theorem Improves.rulesHold (h : Improves child child')
    (hrules : RulesHold parent child w holdoutParent holdoutChild) :
    RulesHold parent child' w holdoutParent holdoutChild where
  ceiling hon size hsize := hrules.ceiling hon size (h.diffSize ▸ hsize)
  margin := h.scalar.trans hrules.margin
  passRate hon := h.passRateKept (hrules.passRate hon)
  namespaces := by
    intro ns hflag hweight parentVal childVal' hparent hchild'
    have hrel := h.namespaceAggregates ns
    rw [hchild'] at hrel
    cases hchild : Dict.get? (child.namespaceAggregates.getD []) ns with
    | none =>
      rw [hchild] at hrel
      cases hrel
    | some childVal =>
      rw [hchild] at hrel
      cases hrel with
      | some hle => exact le_trans hle (hrules.namespaces ns hflag hweight _ _ hparent hchild)
  holdout := hrules.holdout

theorem Improves.incomplete (h : Improves child child') :
    Incomplete parent child' holdoutParent holdoutChild ↔
      Incomplete parent child holdoutParent holdoutChild := by
  unfold Incomplete
  simp [or_and_right, exists_or, h.incompleteEntries]

end Improves

/-! ## The gate -/

/-- **The gate decides exactly its rules.**  It answers every duel; it defers exactly
the incomplete ones and promotes exactly the others that keep every rule; a reason
and a deciding rule stand in every other verdict, with the earlier rules settled.  A
holdout never promotes what the training side rejects, and a better challenger is
promoted where a worse one is. -/
theorem gate_decides_rules (parent child : Agg ℚ) (w : Weights ℚ)
    (holdoutParent holdoutChild : Option (Agg ℚ)) :
    ∃ v, evaluateGate parent child w holdoutParent holdoutChild = .ok v ∧
      (v.outcome.decision = .deferred ↔ Incomplete parent child holdoutParent holdoutChild) ∧
      (¬ Incomplete parent child holdoutParent holdoutChild →
        (v.outcome.decision = .promoted ↔
          RulesHold parent child w holdoutParent holdoutChild)) ∧
      (v.outcome.reason = "" ↔ v.outcome.decision = .promoted) ∧
      (v.outcome.decision = .promoted → v.explanation.decidingRule = none ∧
        ∀ r ∈ v.explanation.rules, r.fired = false) ∧
      (v.outcome.decision ≠ .promoted → ∃ id, v.explanation.decidingRule = some id ∧
        (v.explanation.rules.filter (·.fired)).map (·.id) = [id] ∧
        ∀ r ∈ v.explanation.rules, r.id.rank < id.rank → r.status.Settled) ∧
      (∀ v₀, evaluateGate parent child w none none = .ok v₀ → v₀.outcome.decision = .rejected →
        v.outcome.decision ≠ .promoted) ∧
      (∀ child', Improves child child' → v.outcome.decision = .promoted →
        ∃ v', evaluateGate parent child' w holdoutParent holdoutChild = .ok v' ∧
          v'.outcome.decision = .promoted) := by
  obtain ⟨v, hv⟩ := evaluateGate_ok parent child w holdoutParent holdoutChild
  have hself := evaluateGate_selfExplained hv
  have hpromoted : v.outcome.decision = .promoted →
      ¬ Incomplete parent child holdoutParent holdoutChild ∧
        RulesHold parent child w holdoutParent holdoutChild := by
    intro hpromoted
    have hcomplete : ¬ Incomplete parent child holdoutParent holdoutChild := by
      intro hincomplete
      have hdeferred := (evaluateGate_deferred hv).mpr hincomplete
      rw [hpromoted] at hdeferred
      cases hdeferred
    exact ⟨hcomplete, (evaluateGate_promoted_iff hv hcomplete).mp hpromoted⟩
  refine ⟨v, hv, evaluateGate_deferred hv, evaluateGate_promoted_iff hv, hself.reason,
    hself.promoted, ?_, ?_, ?_⟩
  · intro hstopped
    obtain ⟨id, hid, hexplained⟩ := hself.stopped hstopped
    exact ⟨id, hid, hexplained.one, hexplained.earlier⟩
  · intro v₀ hv₀ hrejected hwin
    obtain ⟨hcomplete, hrules⟩ := hpromoted hwin
    have hcomplete₀ : ¬ Incomplete parent child none none := by
      rintro ⟨agg, hagg, hne⟩
      refine hcomplete ⟨agg, ?_, hne⟩
      rcases hagg with h | h | h | h
      · exact Or.inl h
      · exact Or.inr (Or.inl h)
      · cases h
      · cases h
    have hwin₀ := (evaluateGate_promoted_iff hv₀ hcomplete₀).mpr
      { hrules with holdout := fun p c hp => by cases hp }
    rw [hrejected] at hwin₀
    cases hwin₀
  · intro child' himproves hwin
    obtain ⟨hcomplete, hrules⟩ := hpromoted hwin
    obtain ⟨v', hv'⟩ := evaluateGate_ok parent child' w holdoutParent holdoutChild
    have hcomplete' : ¬ Incomplete parent child' holdoutParent holdoutChild := fun h =>
      hcomplete (himproves.incomplete.mp h)
    exact ⟨v', hv', (evaluateGate_promoted_iff hv' hcomplete').mpr (himproves.rulesHold hrules)⟩

end Zicato.Gate
