import Mathlib.Data.List.DropRight
import Zicato.FieldOverrides
import Zicato.GateRules
import Zicato.RoundSettlement

/-! # Recorded promotions and the supervisor's audit

The index row that `index/ingest.py` makes of an outcome, `promotion_gate.rs`, which
re-applies the scalar rule to it, and what a settled outcome says of the duel that
crowned its challenger. -/
open List
namespace Zicato.Field

variable {F : Type} [PyArith F]

/-! ## `promotion_gate.rs` -/

/-- What the audit reads of a `tournaments` row. -/
structure TournamentRow (F : Type) where
  epochId : Option String
  parentGenerationId : Option String
  childGenerationId : Option String
  decision : Option String
  parentScalar : Option F := none
  childScalar : Option F := none
  deltaScalar : Option F

/-- `char::is_whitespace`. -/
def isWhitespace (c : Char) : Bool :=
  let n := c.toNat
  (9 ≤ n && n ≤ 13) || n == 0x20 || n == 0x85 || n == 0xA0 || n == 0x1680 ||
    (0x2000 ≤ n && n ≤ 0x200A) || n == 0x2028 || n == 0x2029 || n == 0x202F || n == 0x205F ||
    n == 0x3000

/-- `s.trim().to_ascii_lowercase()`. -/
def token (s : String) : List Char :=
  ((s.toList.dropWhile isWhitespace).rdropWhile isWhitespace).map fun c =>
    if 'A' ≤ c ∧ c ≤ 'Z' then Char.ofNat (c.toNat + 32) else c

/-- `is_promote_decision`. -/
def isPromoteDecision (decision : String) : Bool :=
  ["promoted", "promote", "accepted", "accept", "win", "won"].any fun word =>
    token decision = word.toList

/-- `row_delta_scalar`. -/
def rowDeltaScalar (row : TournamentRow F) : Option F :=
  match row.deltaScalar with
  | some delta => some delta
  | none =>
      match row.childScalar, row.parentScalar with
      | some child, some parent => some (PyFloat.sub child parent)
      | _, _ => none

/-- `Contradiction`. -/
structure Contradiction (F : Type) where
  epochId : String
  challengerGenerationId : String
  championGenerationId : String
  recordedDecision : String
  deltaScalar : F
  promoteMargin : F
  detail : String

/-- `RowVerdict`. -/
inductive RowVerdict (F : Type)
  | notAPromotion
  | skippedNoEvidence
  | supported
  | contradiction (c : Contradiction F)

/-- What the audit says of a contradiction. -/
def contradictionDetail (delta promoteMargin : F) : String :=
  if PyFloat.lt PyFloat.zero delta then
    "recorded PROMOTE but challenger regressed: loss rose by " ++ PyArith.format ".6f" delta ++
      " (a promotion needs the loss to drop by at least " ++
      PyArith.format ".6f" promoteMargin ++ ")"
  else
    "recorded PROMOTE but improvement was insufficient: loss fell by only " ++
      PyArith.format ".6f" (PyArith.neg delta) ++ " (a promotion needs a drop of at least " ++
      PyArith.format ".6f" promoteMargin ++ ")"

/-- `check_row`. -/
def checkRow (row : TournamentRow F) (promoteMargin : F) : RowVerdict F :=
  match row.decision with
  | none => .notAPromotion
  | some decision =>
      if isPromoteDecision decision then
        match rowDeltaScalar row with
        | none => .skippedNoEvidence
        | some delta =>
            if PyFloat.le delta (PyArith.neg promoteMargin) then .supported
            else
              .contradiction
                { epochId := row.epochId.getD ""
                  challengerGenerationId := row.childGenerationId.getD ""
                  championGenerationId := row.parentGenerationId.getD ""
                  recordedDecision := decision
                  deltaScalar := delta
                  promoteMargin := promoteMargin
                  detail := contradictionDetail delta promoteMargin }
      else .notAPromotion

/-- Whether a verdict is a contradiction. -/
def RowVerdict.isContradiction : RowVerdict F → Bool
  | .contradiction _ => true
  | _ => false

/-- The row of a settled outcome: `_upsert_tournament` leaves the scalars empty. -/
def tournamentRow (epochId parentId gid : String) (outcome : OutcomeRecord F) : TournamentRow F where
  epochId := some epochId
  parentGenerationId := some parentId
  childGenerationId := some gid
  decision := some (asStr outcome.tournamentDecision)
  deltaScalar := some outcome.scalarScoreDelta

theorem isPromoteDecision_asStr (decision : TournamentDecision) :
    isPromoteDecision (asStr decision) = decide (decision = .promoted) := by
  cases decision <;> decide

/-- The audit contradicts the recorded promotions whose delta misses the margin. -/
theorem checkRow_contradiction (epochId parentId gid : String) (outcome : OutcomeRecord F)
    (promoteMargin : F) :
    (checkRow (tournamentRow epochId parentId gid outcome) promoteMargin).isContradiction = true ↔
      outcome.tournamentDecision = .promoted ∧
        PyFloat.le outcome.scalarScoreDelta (PyArith.neg promoteMargin) = false := by
  have hpromote := isPromoteDecision_asStr outcome.tournamentDecision
  unfold checkRow tournamentRow
  simp only [hpromote, decide_eq_true_eq, rowDeltaScalar]
  split
  · split
    · simp_all [RowVerdict.isContradiction]
    · simp_all [RowVerdict.isContradiction]
  · simp_all [RowVerdict.isContradiction]

/-! ## The crowning duel -/

/-- A change of sign is exact. -/
class LawfulSign (F : Type) [PyArith F] : Prop where
  mul_one : ∀ x : F, PyArith.mul x (PyArith.lit 1) = x
  mul_neg_one : ∀ x : F, PyArith.mul x (PyArith.lit (-1)) = PyArith.neg x

/-- The duel was judged by `evaluate_gate`, its left side being the parent. -/
def Judged (w : Gate.Weights F) (m : MatchupResult F) : Prop :=
  ∃ (left right : Gate.Agg F) (holdoutLeft holdoutRight : Option (Gate.Agg F))
    (v : Gate.Verdict F),
    Gate.evaluateGate left right w holdoutLeft holdoutRight = .ok v ∧ v.outcome = m.outcome ∧
      m.leftAgg.scalar = some left.scalar ∧ m.rightAgg.scalar = some right.scalar

/-- The tournament ran the duel `m` of the champion and `gid` as its crowning duel,
and `raw` is what the runner reported of it. -/
structure CrowningDuel (parentId gid : String) (w : Gate.Weights F) (execution : FieldExecution F)
    (m : MatchupResult F) (raw : TournamentResult F) : Prop where
  found : crowningResult execution.decision = some m
  sides : m.leftId = parentId ∧ m.rightId = gid ∨ m.leftId = gid ∧ m.rightId = parentId
  distinct : gid ≠ parentId
  reported : execution.rawResults.get? execution.decision.crowningMatchupId = some raw
  left : raw.parentGenerationId = m.leftId
  outcome : raw.outcome = m.outcome
  judged : Judged w m

/-- The pass-rate difference of the duel, challenger minus champion. -/
def duelPassRateDelta (parentId : String) (m : MatchupResult F) : F :=
  if m.leftId = parentId then m.outcome.deltaPassRate else PyArith.neg m.outcome.deltaPassRate

/-- The drift-loss difference of the duel, challenger minus champion. -/
def duelDriftDelta (parentId : String) (raw : TournamentResult F) : F :=
  let parentDrift := raw.parentAgg.driftLossMean.getD PyFloat.zero
  let childDrift := raw.childAgg.driftLossMean.getD PyFloat.zero
  if raw.parentGenerationId = parentId then PyFloat.sub childDrift parentDrift
  else PyFloat.sub parentDrift childDrift

/-- The gate promoted the challenger of the duel. -/
def GatePromoted (parentId : String) (m : MatchupResult F) : Prop :=
  m.leftId = parentId ∧ m.outcome.decision = .promoted

/-- The outcome is that of the crowning duel, and the audit agrees with a promotion
that the gate decided. -/
structure Describes (epochId parentId gid : String) (w : Gate.Weights F) (m : MatchupResult F)
    (raw : TournamentResult F) (outcome : OutcomeRecord F) : Prop where
  scalar : outcome.scalarScoreDelta = crowningDelta parentId m
  passRate : outcome.passRateDelta = duelPassRateDelta parentId m
  drift : outcome.driftLossDelta = duelDriftDelta parentId raw
  margin : outcome.tournamentDecision = .promoted → GatePromoted parentId m →
    PyFloat.le outcome.scalarScoreDelta (PyArith.neg w.promoteMargin) = true
  audit : GatePromoted parentId m →
    (checkRow (tournamentRow epochId parentId gid outcome) w.promoteMargin).isContradiction = false

/-- The matchup measured `gid` on one of its sides, with the scalar `x`. -/
def Measures (gid : String) (m : MatchupResult F) (x : F) : Prop :=
  m.leftId = gid ∧ x = m.leftAgg.scalar.getD PyFloat.zero ∨
    m.leftId ≠ gid ∧ m.rightId = gid ∧ x = m.rightAgg.scalar.getD PyFloat.zero

/-- The first of the matchups that names `gid` measured it with the scalar `x`. -/
def FirstMeasured (gid : String) (matchups : List (MatchupResult F)) (x : F) : Prop :=
  ∃ before m after, matchups = before ++ m :: after ∧
    (∀ m' ∈ before, m'.leftId ≠ gid ∧ m'.rightId ≠ gid) ∧ Measures gid m x

/-- When a settled outcome is that of the crowning duel. -/
structure Undistorted (parentId gid : String) (w : Gate.Weights F)
    (decision : SelectionDecision F) (verdict : FieldVerdict F) (m : MatchupResult F)
    (raw : TournamentResult F) : Prop where
  /-- The scalars of the two in the first matchups that name them differ as they do in the
  crowning duel. -/
  firstMeasured : ∃ x y, FirstMeasured gid decision.matchups x ∧
    FirstMeasured parentId decision.matchups y ∧ PyFloat.sub x y = crowningDelta parentId m
  /-- A rejected crown has nothing to report. -/
  unrejected : decision.decision = .rejected →
    duelPassRateDelta parentId m = PyFloat.zero ∧ duelDriftDelta parentId raw = PyFloat.zero
  /-- Rounding does not part `child <= parent - margin` from `child - parent <= -margin`. -/
  unrounded : gid ∈ verdict.promotedIds → GatePromoted parentId m →
    PyFloat.le (crowningDelta parentId m) (PyArith.neg w.promoteMargin) = true

section Crowning
variable {parentId gid : String} {w : Gate.Weights F} {execution : FieldExecution F}
  {m : MatchupResult F} {raw : TournamentResult F}

/-- `_first_aggregate_for` finds the first measurement. -/
theorem FirstMeasured.firstScalar {matchups : List (MatchupResult F)} {x : F}
    (h : FirstMeasured gid matchups x) : firstScalar gid matchups = x := by
  obtain ⟨before, m, after, rfl, hbefore, hm⟩ := h
  induction before with
  | nil =>
    rcases hm with ⟨hleft, rfl⟩ | ⟨hleft, hright, rfl⟩
    · simp [Field.firstScalar, firstAggregateFor, hleft]
    · simp [Field.firstScalar, firstAggregateFor, hleft, hright]
  | cons m' before ih =>
    obtain ⟨hleft, hright⟩ := hbefore m' mem_cons_self
    have hrest := ih fun m'' hm'' => hbefore m'' (mem_cons_of_mem _ hm'')
    rw [← hrest, Field.firstScalar, Field.firstScalar, cons_append, firstAggregateFor,
      if_neg hleft, if_neg hright]

/-- Who is named in some matchup has a first measurement. -/
theorem exists_firstMeasured {matchups : List (MatchupResult F)} (hm : m ∈ matchups)
    (hnamed : m.leftId = gid ∨ m.rightId = gid) : ∃ x, FirstMeasured gid matchups x := by
  induction matchups with
  | nil => cases hm
  | cons m' rest ih =>
    by_cases hleft : m'.leftId = gid
    · exact ⟨_, [], m', rest, rfl, (fun _ h => nomatch h), .inl ⟨hleft, rfl⟩⟩
    by_cases hright : m'.rightId = gid
    · exact ⟨_, [], m', rest, rfl, (fun _ h => nomatch h), .inr ⟨hleft, hright, rfl⟩⟩
    have hmem : m ∈ rest := by
      rcases mem_cons.mp hm with rfl | h
      · exact absurd hnamed (not_or.mpr ⟨hleft, hright⟩)
      · exact h
    obtain ⟨x, before, first, after, rfl, hbefore, hfirst⟩ := ih hmem
    exact ⟨x, m' :: before, first, after, rfl, forall_mem_cons.mpr ⟨⟨hleft, hright⟩, hbefore⟩,
      hfirst⟩

theorem CrowningDuel.mem (h : CrowningDuel parentId gid w execution m raw) :
    m ∈ execution.decision.matchups := by
  have hfound := h.found
  unfold crowningResult at hfound
  split at hfound
  · cases hfound
  · exact mem_of_find?_eq_some hfound

/-- The condition on the matchups says what the settlement records. -/
theorem CrowningDuel.firstMeasured_iff (h : CrowningDuel parentId gid w execution m raw) :
    (∃ x y, FirstMeasured gid execution.decision.matchups x ∧
        FirstMeasured parentId execution.decision.matchups y ∧
        PyFloat.sub x y = crowningDelta parentId m) ↔
      PyFloat.sub (firstScalar gid execution.decision.matchups)
        (firstScalar parentId execution.decision.matchups) = crowningDelta parentId m := by
  constructor
  · rintro ⟨x, y, hx, hy, heq⟩
    rw [hx.firstScalar, hy.firstScalar, heq]
  · intro heq
    have hgid : m.leftId = gid ∨ m.rightId = gid := by
      rcases h.sides with ⟨-, hright⟩ | ⟨hleft, -⟩
      · exact .inr hright
      · exact .inl hleft
    have hparent : m.leftId = parentId ∨ m.rightId = parentId := by
      rcases h.sides with ⟨hleft, -⟩ | ⟨-, hright⟩
      · exact .inl hleft
      · exact .inr hright
    obtain ⟨x, hx⟩ := exists_firstMeasured h.mem hgid
    obtain ⟨y, hy⟩ := exists_firstMeasured h.mem hparent
    exact ⟨x, y, hx, hy, by rw [← heq, hx.firstScalar, hy.firstScalar]⟩

/-- Only a crown that the structure did not reject is named in the verdict. -/
theorem CrowningDuel.crowningChallengerId (h : CrowningDuel parentId gid w execution m raw)
    (checks : Checks F) (overrides : Overrides) :
    (resolveFieldVerdict checks parentId execution.decision overrides).crowningChallengerId =
      if execution.decision.decision = .rejected then none else some gid := by
  have hside : (challengerSide parentId m).1 = gid := by
    unfold challengerSide
    rcases h.sides with ⟨hl, hr⟩ | ⟨hl, hr⟩
    · rw [if_pos hl]
      exact hr
    · rw [if_neg (by rw [hl]; exact h.distinct)]
      exact hl
  change (confirmCrowningOnHoldout checks.confirmFn parentId
    execution.decision).challengerId = _
  unfold confirmCrowningOnHoldout
  simp only [h.found]
  by_cases hrejected : execution.decision.decision = .rejected
  · rw [if_pos hrejected, if_pos hrejected]
  · rw [if_neg hrejected, if_neg hrejected]
    split
    · rw [← hside]
    · rw [← hside]

theorem CrowningDuel.crowningDuelDeltas [LawfulSign F]
    (h : CrowningDuel parentId gid w execution m raw) :
    crowningDuelDeltas (execution.rawResults.get? execution.decision.crowningMatchupId) parentId =
      (duelPassRateDelta parentId m, duelDriftDelta parentId raw) := by
  rw [h.reported]
  unfold Field.crowningDuelDeltas duelPassRateDelta duelDriftDelta
  simp only [h.outcome, h.left]
  split
  · rw [LawfulSign.mul_one]
  · rw [LawfulSign.mul_neg_one]

variable {entrants : Entrants} (checks : Checks F) (overrides : Overrides) (now : String)

/-- The outcome that the settlement of a round records for `gid`. -/
def settledOutcome (entrants : Entrants) (execution : FieldExecution F) (checks : Checks F)
    (overrides : Overrides) (now gid : String) : OutcomeRecord F :=
  candidateOutcome entrants execution
    (resolveFieldVerdict checks entrants.parentId execution.decision overrides) now gid

theorem settledOutcome_promoted :
    (settledOutcome entrants execution checks overrides now gid).tournamentDecision = .promoted ↔
      gid ∈ (resolveFieldVerdict checks entrants.parentId execution.decision
        overrides).promotedIds := by
  change genDecision _ gid = .promoted ↔ _
  unfold genDecision
  split
  · simp_all
  · split <;> simp_all

/-- The two deltas that a settled outcome takes from the crowning duel. -/
theorem CrowningDuel.recorded [LawfulSign F]
    (h : CrowningDuel entrants.parentId gid w execution m raw) :
    ((settledOutcome entrants execution checks overrides now gid).passRateDelta,
        (settledOutcome entrants execution checks overrides now gid).driftLossDelta) =
      if execution.decision.decision = .rejected then (PyFloat.zero, PyFloat.zero)
      else (duelPassRateDelta entrants.parentId m, duelDriftDelta entrants.parentId raw) := by
  have hcrown := h.crowningChallengerId checks overrides
  simp only [settledOutcome, candidateOutcome]
  by_cases hrejected : execution.decision.decision = .rejected
  · rw [if_pos hrejected] at hcrown
    simp [hcrown, hrejected]
  · rw [if_neg hrejected] at hcrown
    simp [hcrown, hrejected, h.crowningDuelDeltas]

/-- **A settled outcome is that of the crowning duel exactly when** the challenger and the
champion measured, in the first matchups that name them, as far apart as in the crowning duel, the structure did not reject the crown (or the duel's other
differences are zero), and the margin is not missed by rounding. -/
theorem settled_outcome_describes_crown [LawfulSign F] (epochId : String)
    (h : CrowningDuel entrants.parentId gid w execution m raw) :
    Describes epochId entrants.parentId gid w m raw
        (settledOutcome entrants execution checks overrides now gid) ↔
      Undistorted entrants.parentId gid w execution.decision
        (resolveFieldVerdict checks entrants.parentId execution.decision overrides) m raw := by
  have hrecorded := h.recorded checks overrides now
  constructor
  · intro hd
    refine ⟨h.firstMeasured_iff.mpr hd.scalar, ?_, ?_⟩
    -- a rejected crown has no crowning challenger, and its two deltas are recorded as zero
    · intro hrejected
      rw [if_pos hrejected, hd.passRate, hd.drift] at hrecorded
      exact Prod.mk.inj hrecorded
    · intro hmem hgate
      rw [← hd.scalar]
      exact hd.margin ((settledOutcome_promoted checks overrides now).mpr hmem) hgate
  · intro hu
    have hscalar : (settledOutcome entrants execution checks overrides now gid).scalarScoreDelta =
        crowningDelta entrants.parentId m := h.firstMeasured_iff.mp hu.firstMeasured
    have hmargin : (settledOutcome entrants execution checks overrides now
          gid).tournamentDecision = .promoted → GatePromoted entrants.parentId m →
        PyFloat.le (crowningDelta entrants.parentId m) (PyArith.neg w.promoteMargin) = true :=
      fun hdecision hgate =>
        hu.unrounded ((settledOutcome_promoted checks overrides now).mp hdecision) hgate
    have hdeltas : ((settledOutcome entrants execution checks overrides now gid).passRateDelta,
          (settledOutcome entrants execution checks overrides now gid).driftLossDelta) =
        (duelPassRateDelta entrants.parentId m, duelDriftDelta entrants.parentId raw) := by
      rw [hrecorded]
      split
      · rename_i hrejected
        obtain ⟨hpass, hdrift⟩ := hu.unrejected hrejected
        rw [hpass, hdrift]
      · rfl
    refine ⟨hscalar, (Prod.mk.inj hdeltas).1, (Prod.mk.inj hdeltas).2, ?_, ?_⟩
    · intro hdecision hgate
      rw [hscalar]
      exact hmargin hdecision hgate
    · intro hgate
      rw [Bool.eq_false_iff, ne_eq, checkRow_contradiction, hscalar]
      rintro ⟨hdecision, hmissed⟩
      rw [hmargin hdecision hgate] at hmissed
      cases hmissed

/-- The crowning duel is the first that names either, as in a gauntlet. -/
theorem CrowningDuel.firstMeasured (h : CrowningDuel parentId gid w execution m raw)
    (hleft : m.leftId = parentId) {before after : List (MatchupResult F)}
    (hsplit : execution.decision.matchups = before ++ m :: after)
    (hbefore : ∀ m' ∈ before, (m'.leftId ≠ gid ∧ m'.rightId ≠ gid) ∧
      m'.leftId ≠ parentId ∧ m'.rightId ≠ parentId) :
    ∃ x y, FirstMeasured gid execution.decision.matchups x ∧
      FirstMeasured parentId execution.decision.matchups y ∧
      PyFloat.sub x y = crowningDelta parentId m := by
  obtain ⟨left, right, _, _, v, hv, hsame, hl, hr⟩ := h.judged
  have hne : m.leftId ≠ gid := by
    rw [hleft]
    exact h.distinct.symm
  have hright : m.rightId = gid := by
    rcases h.sides with ⟨-, hright⟩ | ⟨hgid, -⟩
    · exact hright
    · exact absurd hgid hne
  refine ⟨right.scalar, left.scalar, ⟨before, m, after, hsplit, fun m' hm' => (hbefore m' hm').1,
    .inr ⟨hne, hright, by rw [hr]; rfl⟩⟩, ⟨before, m, after, hsplit, fun m' hm' =>
    (hbefore m' hm').2, .inl ⟨hleft, by rw [hl]; rfl⟩⟩, ?_⟩
  rw [crowningDelta, if_pos hleft, ← hsame, (Gate.evaluateGate_deltas hv).1]
  rfl

end Crowning

/-! ## Exact numbers -/

instance : LawfulSign Exact where
  mul_one x := by
    cases x <;> simp [PyArith.mul, PyArith.lit, Exact.mul]
  mul_neg_one x := by
    cases x <;> simp [PyArith.mul, PyArith.lit, Exact.mul, PyArith.neg, Exact.neg]

/-- Exact numbers clear the margin in the one form when they do in the other. -/
theorem CrowningDuel.unrounded {parentId gid : String} {w : Gate.Weights Exact}
    {execution : FieldExecution Exact} {m : MatchupResult Exact} {raw : TournamentResult Exact}
    (h : CrowningDuel parentId gid w execution m raw) {margin : Rat}
    (hmargin : w.promoteMargin = .fin margin) (hgate : GatePromoted parentId m) :
    PyFloat.le (crowningDelta parentId m) (PyArith.neg w.promoteMargin) = true := by
  obtain ⟨left, right, hl, hr, v, hv, hsame, -, -⟩ := h.judged
  have hclear := (Gate.evaluateGate_promoted.mp ⟨v, hv, hsame ▸ hgate.2⟩).2
  obtain ⟨hlfin, hrfin, -⟩ := hclear.finite
  have hmissed := hclear.margin
  rw [crowningDelta, if_pos hgate.1, ← hsame, (Gate.evaluateGate_deltas hv).1, hmargin]
  rw [Gate.marginMissed, hmargin] at hmissed
  revert hlfin hrfin hmissed
  cases left.scalar with
  | fin p =>
    cases right.scalar with
    | fin c =>
      intro _ _ hmissed
      change PyFloat.le (Exact.fin (c + -p)) (Exact.fin (-margin)) = true
      rw [Exact.le_fin, decide_eq_true_eq]
      have hle : ¬ (p + -margin < c) := of_decide_eq_false hmissed
      linarith
    | nan => intro _ hbad; cases hbad
    | ninf => intro _ hbad; cases hbad
    | pinf => intro _ hbad; cases hbad
  | nan => intro hbad; cases hbad
  | ninf => intro hbad; cases hbad
  | pinf => intro hbad; cases hbad

/-! ### Two rounds -/

/-- Weights with a margin and no other rule. -/
def auditWeights : Gate.Weights Exact where
  promoteMargin := .fin (1 / 5)
  passRateMonotonicity := false
  diffComplexityCeiling := .fin 0

/-- The crowning duel: the challenger `v1` has half the loss of the champion `v0`. -/
def finalDuel : MatchupResult Exact where
  matchupId := "final"
  leftId := "v0"
  rightId := "v1"
  leftAgg := { scalar := some (.fin 1) }
  rightAgg := { scalar := some (.fin (1 / 2)) }
  outcome :=
    { decision := .promoted, reason := "", deltaScalar := .fin (-1 / 2), deltaPassRate := .fin 0 }

/-- An earlier duel of the bracket, where `v1` measured worse. -/
def semifinal : MatchupResult Exact where
  matchupId := "semifinal"
  leftId := "v1"
  rightId := "v2"
  leftAgg := { scalar := some (.fin (9 / 10)) }
  rightAgg := { scalar := some (.fin 1) }
  outcome :=
    { decision := .rejected, reason := "worse", deltaScalar := .fin (1 / 10)
      deltaPassRate := .fin 0 }

/-- The crowning duel. -/
def finalResult : TournamentResult Exact where
  parentGenerationId := "v0"
  childGenerationId := "v1"
  parentAgg := { scalar := some (.fin 1) }
  childAgg := { scalar := some (.fin (1 / 2)) }
  outcome := finalDuel.outcome

/-- The tournament of the given matchups that crowns `v1`. -/
def crownedExecution (matchups : List (MatchupResult Exact)) : FieldExecution Exact where
  decision :=
    { promotedGenerationId := some "v1", decision := .promoted, reason := ""
      matchups := matchups, crowningMatchupId := "final" }
  gateEvidence := none
  rawResults := [("final", finalResult)]
  championEvalMode := "full"

/-- The field of a tournament. -/
def entrantsOf (ids : List String) : Entrants where
  parentId := "v0"
  structure_ := "single_elim"
  challengers := ids.map fun gid =>
    { generationId := gid, experimentId := "exp_" ++ gid, createdAt := "t" }

/-- The holdout confirms and nothing blocks the crown. -/
def passing : Checks Exact where
  confirmFn outcome _ _ :=
    { outcome := outcome, holdoutBlock := none, holdoutChildScalar := none }
  blockReason _ _ := none
  order := id
  now := "t"

theorem finalDuel_judged : Judged auditWeights finalDuel := by
  let left : Gate.Agg Exact := { scalar := .fin 1 }
  let right : Gate.Agg Exact := { scalar := .fin (1 / 2) }
  have hclear : Gate.Clear left right auditWeights none none := by
    constructor
    · exact ⟨rfl, rfl, rfl, rfl⟩
    · intro hon
      exact absurd hon (by decide)
    · decide +kernel
    · intro hon
      cases hon
    · refine List.length_eq_zero_iff.mp ?_
      rw [Gate.regressedNamespaces, Gate.sortIds, length_sorted]
      rfl
    · intro p c hp
      cases hp
  obtain ⟨v, hv, hpromoted⟩ := Gate.evaluateGate_promoted.mpr ⟨rfl, hclear⟩
  have hreason := (Gate.evaluateGate_selfExplained hv).reason.mpr hpromoted
  obtain ⟨hscalar, hpass⟩ := Gate.evaluateGate_deltas hv
  refine ⟨left, right, none, none, v, hv, ?_, rfl, rfl⟩
  cases hv' : v.outcome with
  | mk decision reason deltaScalar deltaPassRate =>
    rw [hv'] at hpromoted hreason hscalar hpass
    simp only at hpromoted hreason hscalar hpass
    subst hpromoted hreason hscalar hpass
    decide +kernel

theorem finalDuel_crowning (matchups : List (MatchupResult Exact))
    (hfound : matchups.find? (·.matchupId = "final") = some finalDuel) :
    CrowningDuel "v0" "v1" auditWeights (crownedExecution matchups) finalDuel finalResult where
  found := by
    have hnamed : ¬ ("final" = "") := by decide
    exact (if_neg hnamed).trans hfound
  sides := Or.inl ⟨rfl, rfl⟩
  distinct := by decide
  reported := rfl
  left := rfl
  outcome := rfl
  judged := finalDuel_judged

/-- A gauntlet has one duel, and its outcome is recorded. -/
theorem settled_outcome_describes_crown_gauntlet :
    Describes "e1" "v0" "v1" auditWeights finalDuel finalResult
      (settledOutcome (entrantsOf ["v1"]) (crownedExecution [finalDuel]) passing [] "t" "v1") := by
  have h : CrowningDuel (entrantsOf ["v1"]).parentId "v1" auditWeights
      (crownedExecution [finalDuel]) finalDuel finalResult := finalDuel_crowning [finalDuel] rfl
  have hsplit : [finalDuel] = [] ++ finalDuel :: [] := rfl
  refine (settled_outcome_describes_crown passing [] "t" "e1" h).mpr ⟨?_, ?_, ?_⟩
  · exact h.firstMeasured rfl hsplit fun _ hm => nomatch hm
  · intro hrejected
    cases hrejected
  · intro _ hgate
    exact h.unrounded rfl hgate

/-- What the bracket with that semifinal records. -/
def bracketOutcome : OutcomeRecord Exact :=
  settledOutcome (entrantsOf ["v1", "v2"]) (crownedExecution [semifinal, finalDuel]) passing []
    "t" "v1"

/-- The promotion of a bracket is recorded with the scalar of the semifinal: the
gate saw a drop of 1/2, the record says 1/10, and the audit contradicts it. -/
theorem bracket_promotion_contradicted :
    CrowningDuel "v0" "v1" auditWeights (crownedExecution [semifinal, finalDuel]) finalDuel
        finalResult ∧
      GatePromoted "v0" finalDuel ∧ bracketOutcome.tournamentDecision = .promoted ∧
      crowningDelta "v0" finalDuel = .fin (-1 / 2) ∧
      bracketOutcome.scalarScoreDelta = .fin (-1 / 10) ∧
      (checkRow (tournamentRow "e1" "v0" "v1" bracketOutcome)
        auditWeights.promoteMargin).isContradiction = true := by
  refine ⟨finalDuel_crowning _ rfl, ⟨rfl, rfl⟩, rfl, rfl, by decide +kernel, ?_⟩
  rw [checkRow_contradiction]
  exact ⟨rfl, by decide +kernel⟩

end Zicato.Field
