import Zicato.LadderAccounting
import Zicato.Tournament

/-! # What the ladder lets out

`_ladder_mediated_outcome` turns a training promotion and its holdout evidence
into the outcome the proposer sees and the block that is recorded.  The holdout
evidence enters the settlement of the query and the reported reason; a result
that is withheld reaches neither, except that a withheld answer tells whether
the holdout execution completed.

The confirmation check of the gate is a parameter: nothing here depends on what
it compares. -/
open List Option Zicato.Action Except
namespace Zicato.Ladder

/-- The recorded holdout block. -/
structure HoldoutRecord (F : Type) where
  confirmationStatus : ConfirmationStatus
  reason : String
  confirmed : Option Bool
  trainScalar : Option F
  holdoutScalar : Option F
  holdoutConsulted : Bool
  ladderReleased : Bool
  ladderBudgetTotal : Int
  ladderBudgetBeforeQuery : Option Int
  ladderBudgetRemaining : Int
  ladderQueryReserved : Bool
  threshold : F
  deriving DecidableEq

/-- The default of `holdout_record`'s `confirmation_status`. -/
def confirmationStatus (released : Bool) (confirmed : Option Bool) : ConfirmationStatus :=
  if released then
    if confirmed = some true then .satisfied else .failed
  else .incomplete

/-- The aggregate of one side on the holdout slice; `rest` is what the gate's
confirmation check reads beside the scalar and the incomplete entries. -/
structure HoldoutAggregate (F R : Type) extends Aggregate F where
  rest : R
  deriving DecidableEq

/-- The training side of a query. -/
structure Training (F : Type) where
  outcome : GateOutcome F
  parentScalar : F
  childScalar : F
  deriving DecidableEq

/-- The holdout side of a query. -/
structure Holdout (F R : Type) where
  parent : Option (HoldoutAggregate F R)
  child : Option (HoldoutAggregate F R)
  deriving DecidableEq

variable {F R : Type} [PyFloat F]

/-- The side measured every entry and has a finite scalar. -/
def HoldoutAggregate.complete (agg : HoldoutAggregate F R) : Bool :=
  agg.incompleteEntries.isEmpty && agg.scalar.any PyFloat.isfinite

/-- `observation_complete`. -/
def Holdout.complete (h : Holdout F R) : Bool :=
  h.parent.any (·.complete) && h.child.any (·.complete)

/-- `holdout_scalar`. -/
def Holdout.scalar (h : Holdout F R) : Option F :=
  if h.complete then h.child.bind (·.scalar) else none

/-- The gate's `holdout_confirms`: the reason for which the holdout does not
confirm, empty when it does. -/
abbrev Confirms (F R : Type) := HoldoutAggregate F R → HoldoutAggregate F R → String

/-- `raw_reason`. -/
def Holdout.reason (confirms : Confirms F R) (h : Holdout F R) : String :=
  match h.complete, h.parent, h.child with
  | true, some parent, some child => confirms parent child
  | _, _, _ => "holdout confirmation incomplete: execution did not complete"

/-- `raw_confirmed`. -/
def Holdout.confirmed (confirms : Confirms F R) (h : Holdout F R) : Bool :=
  h.complete && decide (h.reason confirms = "")

/-- The settlement of a query with this evidence. -/
def settlementOf (confirms : Confirms F R) (train : Training F) (h : Holdout F R) :
    Settlement F where
  trainParentScalar := train.parentScalar
  trainChildScalar := train.childScalar
  holdoutScalar := h.scalar
  holdoutConfirmed := h.confirmed confirms
  observationComplete := h.complete

/-- The outcome and the block of an answer without the governor. -/
def rawOutcome (confirms : Confirms F R) (weights : ScoringWeights F) (train : Training F)
    (h : Holdout F R) : GateOutcome F × HoldoutRecord F :=
  let final :=
    if h.reason confirms = "" then train.outcome
    else
      { train.outcome with
        decision := if h.complete then .rejected else .deferred
        reason := h.reason confirms }
  let confirmed := if h.complete then some (h.confirmed confirms) else none
  (final,
    { confirmationStatus := confirmationStatus h.complete confirmed
      reason := h.reason confirms
      confirmed := confirmed
      trainScalar := some train.childScalar
      holdoutScalar := h.scalar
      holdoutConsulted := true
      ladderReleased := h.complete
      ladderBudgetTotal := weights.ladder.budget
      ladderBudgetBeforeQuery := none
      ladderBudgetRemaining := weights.ladder.budget
      ladderQueryReserved := false
      threshold := effectiveThreshold weights.ladder weights })

/-- The outcome and the block of a settled query. -/
def settledOutcome (confirms : Confirms F R) (train : Training F) (h : Holdout F R)
    (release : LadderRelease F) (budgetBeforeQuery : Int) : GateOutcome F × HoldoutRecord F :=
  let final :=
    if release.released then
      if h.confirmed confirms then train.outcome
      else { train.outcome with decision := .rejected, reason := h.reason confirms }
    else
      { train.outcome with
        decision := .deferred
        reason :=
          if h.complete then "holdout confirmation incomplete: result withheld"
          else h.reason confirms }
  (final,
    { confirmationStatus := confirmationStatus release.released release.confirmed
      reason := if final.decision = .promoted then "" else final.reason
      confirmed := release.confirmed
      trainScalar := some train.childScalar
      holdoutScalar := release.holdoutScalar
      holdoutConsulted := true
      ladderReleased := release.released
      ladderBudgetTotal := release.state.budgetTotal
      ladderBudgetBeforeQuery := some budgetBeforeQuery
      ladderBudgetRemaining := release.state.budgetRemaining
      ladderQueryReserved := true
      threshold := release.threshold })

/-- `disabled_holdout_record`: the contract has no holdout slice. -/
def disabledHoldoutRecord : HoldoutRecord F where
  confirmationStatus := .disabled
  reason := "no holdout slice in the evaluation contract"
  confirmed := none
  trainScalar := none
  holdoutScalar := none
  holdoutConsulted := false
  ladderReleased := false
  ladderBudgetTotal := 0
  ladderBudgetBeforeQuery := none
  ladderBudgetRemaining := 0
  ladderQueryReserved := false
  threshold := PyFloat.zero

/-- `_ladder_mediated_outcome`. -/
def ladderMediatedOutcome (confirms : Confirms F R) (epoch : Epoch) (weights : ScoringWeights F)
    (disk : Disk F) (newIdentity : String) (reservation : Option LadderQueryReservation)
    (train : Training F) (h : Holdout F R) : Call F (GateOutcome F × HoldoutRecord F) :=
  if h.parent.isNone ∧ h.child.isNone ∧ reservation.isNone then
    pure (train.outcome, disabledHoldoutRecord)
  else if train.outcome.decision ≠ .promoted then
    .raise "holdout evidence was observed after the training gate rejected the challenger"
  else if weights.ladder.enabled = false then pure (rawOutcome confirms weights train h)
  else
    match reservation with
    | none => .raise "holdout evidence was observed without a durable reservation"
    | some reservation => do
        let settled ← settleLadderQuery epoch weights.ladder weights disk newIdentity reservation
          (settlementOf confirms train h)
        pure (settledOutcome confirms train h settled.1 settled.2)

/-- `_ladder_exhausted_outcome`. -/
def ladderExhaustedOutcome (weights : ScoringWeights F) (train : Training F)
    (state : LadderState F) : GateOutcome F × HoldoutRecord F :=
  let reason := "holdout confirmation incomplete: query allowance exhausted; " ++
    "refresh the evaluation contract"
  ({ train.outcome with decision := .deferred, reason := reason },
    { confirmationStatus := confirmationStatus false none
      reason := reason
      confirmed := none
      trainScalar := some train.childScalar
      holdoutScalar := none
      holdoutConsulted := false
      ladderReleased := false
      ladderBudgetTotal := state.budgetTotal
      ladderBudgetBeforeQuery := some state.budgetRemaining
      ladderBudgetRemaining := state.budgetRemaining
      ladderQueryReserved := false
      threshold := effectiveThreshold weights.ladder weights })

/-! ## Runs of queries -/

/-- A call of one duel: it reserves a query, or has its holdout evidence mediated. -/
inductive Step (F R : Type)
  | reserve (ids : Identities) (train : Training F)
  | mediate (newIdentity : String) (reservation : LadderQueryReservation) (train : Training F)
      (holdout : Holdout F R)
  deriving DecidableEq

/-- What a call hands to its duel. -/
inductive Answer (F : Type)
  | granted (state : LadderState F) (reservation : LadderQueryReservation)
  | answered (outcome : GateOutcome F) (block : HoldoutRecord F)

section Trace
variable (confirms : Confirms F R) (epoch : Epoch) (weights : ScoringWeights F)

/-- A step answered on a disk. -/
def respond (disk : Disk F) : Step F R → Call F (Answer F)
  | .reserve ids train => do
      let reserved ← reserveLadderQuery epoch weights.ladder disk ids
      match reserved.2 with
      | none =>
          let exhausted := ladderExhaustedOutcome weights train reserved.1
          pure (.answered exhausted.1 exhausted.2)
      | some reservation => pure (.granted reserved.1 reservation)
  | .mediate newIdentity reservation train holdout => do
      let mediated ← ladderMediatedOutcome confirms epoch weights disk newIdentity
        (some reservation) train holdout
      pure (.answered mediated.1 mediated.2)

/-- The files after a call. -/
def after (disk : Disk F) (s : Step F R) : Disk F :=
  (respond confirms epoch weights disk s).writes.foldl Disk.apply disk

/-- The files after a run. -/
def afterAll (disk : Disk F) (steps : List (Step F R)) : Disk F :=
  steps.foldl (after confirms epoch weights) disk

/-- The answers of a run, each with the files after it. -/
def trace (disk : Disk F) : List (Step F R) → List (Except String (Answer F) × Disk F)
  | [] => []
  | s :: steps =>
      ((respond confirms epoch weights disk s).result, after confirms epoch weights disk s) ::
        trace (after confirms epoch weights disk s) steps

/-- The answer to a query whose holdout result is released. -/
def released : Except String (Answer F) → Bool
  | .ok (.answered _ block) => block.ladderReleased
  | _ => false

/-- Two runs whose calls are related by `same`, and are equal where either run
releases the answer. -/
def Agree (same : Step F R → Step F R → Prop) : Disk F → Disk F → List (Step F R) →
    List (Step F R) → Prop
  | _, _, [], [] => True
  | disk, disk', s :: steps, s' :: steps' =>
      same s s' ∧
      (released (respond confirms epoch weights disk s).result = true ∨
        released (respond confirms epoch weights disk' s').result = true → s = s') ∧
      Agree same (after confirms epoch weights disk s) (after confirms epoch weights disk' s')
        steps steps'
  | _, _, _, _ => False

end Trace

/-- The two calls agree on everything but the holdout evidence. -/
inductive SameTraining : Step F R → Step F R → Prop
  | reserve (ids : Identities) (train : Training F) :
      SameTraining (.reserve ids train) (.reserve ids train)
  | mediate (newIdentity : String) (reservation : LadderQueryReservation) (train : Training F)
      (holdout holdout' : Holdout F R) :
      SameTraining (.mediate newIdentity reservation train holdout)
        (.mediate newIdentity reservation train holdout')

/-- The two calls agree also on whether the holdout execution completed. -/
inductive SameCompletion : Step F R → Step F R → Prop
  | reserve (ids : Identities) (train : Training F) :
      SameCompletion (.reserve ids train) (.reserve ids train)
  | mediate (newIdentity : String) (reservation : LadderQueryReservation) (train : Training F)
      (holdout holdout' : Holdout F R) (h : holdout.complete = holdout'.complete) :
      SameCompletion (.mediate newIdentity reservation train holdout)
        (.mediate newIdentity reservation train holdout')

/-! ## Non-interference -/

section NonInterference
variable {confirms : Confirms F R} {epoch : Epoch} {weights : ScoringWeights F}
  {disk : Disk F} {train : Training F} {holdout holdout' : Holdout F R}

theorem Holdout.reason_incomplete (h : holdout.complete = false) :
    holdout.reason confirms = "holdout confirmation incomplete: execution did not complete" := by
  unfold reason
  rw [h]

/-- A complete holdout has a finite scalar. -/
theorem Holdout.scalar_complete (h : holdout.complete = true) :
    ∃ x, holdout.scalar = some x ∧ PyFloat.isfinite x = true := by
  obtain ⟨parent, child⟩ := holdout
  cases child with
  | none => simp [complete] at h
  | some child =>
    have hchild : child.complete = true := by
      simp only [complete, any_some, Bool.and_eq_true] at h
      exact h.2
    simp only [HoldoutAggregate.complete, Bool.and_eq_true] at hchild
    cases hs : child.scalar with
    | none => simp [hs] at hchild
    | some x =>
      refine ⟨x, ?_, by simpa [hs] using hchild.2⟩
      rw [scalar, if_pos h]
      exact hs

variable {state : LadderState F}

variable {cfg : LadderConfig F}

/-- Two incomplete observations look the same. -/
theorem rawOutcome_incomplete (h : holdout.complete = false) (h' : holdout'.complete = false) :
    rawOutcome confirms weights train holdout = rawOutcome confirms weights train holdout' := by
  unfold rawOutcome
  simp only [Holdout.reason_incomplete h, Holdout.reason_incomplete h', h, h', Holdout.scalar,
    Bool.false_eq_true, if_false]

variable {q : Settlement F}

/-- The decision on a query that stays closed does not read the observation. -/
theorem settleDecision_withheld (hq : q.observationComplete = true → ∃ x, q.holdoutScalar = some x)
    (h : (q.observationComplete && clears cfg weights q.trainParentScalar q.trainChildScalar) =
      false) : settleDecision cfg weights state q = .ok (withhold cfg weights state) := by
  unfold settleDecision
  split
  · rename_i hcomplete
    obtain ⟨x, hx⟩ := hq hcomplete
    rw [hcomplete, Bool.true_and] at h
    rw [hx]
    simp [decideReservedHoldout, h]
  · rfl

/-- A query that clears the threshold releases by the scalar. -/
theorem settleDecision_cleared {x : F} (hx : q.holdoutScalar = some x)
    (h : (q.observationComplete && clears cfg weights q.trainParentScalar q.trainChildScalar) =
      true) :
    settleDecision cfg weights state q = .ok (decideReservedHoldout state cfg weights
        q.trainParentScalar q.trainChildScalar x q.holdoutConfirmed) ∧
      (decideReservedHoldout state cfg weights q.trainParentScalar q.trainChildScalar x
        q.holdoutConfirmed).released = true ∧
      (decideReservedHoldout state cfg weights q.trainParentScalar q.trainChildScalar x
        q.holdoutConfirmed).holdoutScalar = some x := by
  obtain ⟨hcomplete, hclears⟩ := Bool.and_eq_true_iff.mp h
  refine ⟨?_, ?_, ?_⟩
  · rw [settleDecision, if_pos hcomplete, hx]
  · simp [decideReservedHoldout, hclears]
  · simp [decideReservedHoldout, hclears]

theorem settlementOf_scalar (h : (settlementOf confirms train holdout).observationComplete = true) :
    ∃ x, (settlementOf confirms train holdout).holdoutScalar = some x :=
  have ⟨x, hx, _⟩ := Holdout.scalar_complete h
  ⟨x, hx⟩

/-- A withheld answer tells only whether the execution completed. -/
theorem settledOutcome_withheld {release : LadderRelease F} {budgetBeforeQuery : Int}
    (hrel : release.released = false) (hc : holdout.complete = holdout'.complete) :
    settledOutcome confirms train holdout release budgetBeforeQuery =
      settledOutcome confirms train holdout' release budgetBeforeQuery := by
  unfold settledOutcome
  cases hh : holdout.complete with
  | true =>
    have hh' : holdout'.complete = true := hc.symm.trans hh
    simp only [hrel, hh', Bool.false_eq_true, if_false, if_true]
  | false =>
    have hh' : holdout'.complete = false := hc.symm.trans hh
    simp only [hrel, hh', Holdout.reason_incomplete hh, Holdout.reason_incomplete hh',
      Bool.false_eq_true, if_false]

variable {reservation : LadderQueryReservation}

theorem settle_eq {newIdentity : String} {found : DurableLadderState F × PendingLadderReservation}
    {release : LadderRelease F}
    (hfound : (findReservation epoch weights.ladder disk newIdentity reservation).result =
      .ok found) (hdecide : settleDecision weights.ladder weights found.1.state q = .ok release) :
    settleLadderQuery epoch weights.ladder weights disk newIdentity reservation q =
      { writes := (findReservation epoch weights.ladder disk newIdentity reservation).writes ++
          [.state (ladderStateDict (found.1.settle release.state reservation.reservationId))]
        result := .ok (release, found.2.budgetBeforeQuery) } := by
  simp only [settleLadderQuery, bind_ok hfound, hdecide]
  rfl

/-- A query is answered alike, whatever evidence of the same completeness is
withheld. -/
theorem ladderMediatedOutcome_eq {newIdentity : String} (hc : holdout.complete = holdout'.complete)
    (hr : released (respond confirms epoch weights disk
        (.mediate newIdentity reservation train holdout)).result = true → holdout = holdout') :
    ladderMediatedOutcome confirms epoch weights disk newIdentity (some reservation) train holdout =
      ladderMediatedOutcome confirms epoch weights disk newIdentity (some reservation) train
        holdout' := by
  by_cases heq : holdout = holdout'
  · rw [heq]
  have hclosed : released (respond confirms epoch weights disk
      (.mediate newIdentity reservation train holdout)).result = false :=
    Bool.eq_false_iff.mpr fun h => heq (hr h)
  simp only [respond, ladderMediatedOutcome, isNone_some, Bool.false_eq_true, and_false,
    if_false] at hclosed ⊢
  split
  · rfl
  · rename_i hpromoted
    rw [if_neg hpromoted] at hclosed
    split
    · rename_i hdisabled
      -- without the governor every complete observation is released
      rw [if_pos hdisabled] at hclosed
      have hincomplete : holdout.complete = false := hclosed
      rw [rawOutcome_incomplete hincomplete (hc ▸ hincomplete)]
    · rename_i henabled
      rw [if_neg henabled] at hclosed
      cases hfound : (findReservation epoch weights.ladder disk newIdentity reservation).result with
      | error e =>
        simp only [settleLadderQuery, bind_error hfound]
        rfl
      | ok found =>
        by_cases hclear : ((settlementOf confirms train holdout).observationComplete &&
            clears weights.ladder weights train.parentScalar train.childScalar) = true
        · -- a cleared query is released, so the evidence was the same
          obtain ⟨x, hx⟩ := settlementOf_scalar (Bool.and_eq_true_iff.mp hclear).1
          obtain ⟨hdecide, hrel, -⟩ := settleDecision_cleared hx hclear
          rw [settle_eq hfound hdecide, bind_ok rfl, bind_ok rfl] at hclosed
          exact absurd (hrel.symm.trans hclosed) (by decide)
        · rw [Bool.not_eq_true] at hclear
          have hclear' : ((settlementOf confirms train holdout').observationComplete &&
              clears weights.ladder weights train.parentScalar train.childScalar) = false := by
            simpa [settlementOf, hc] using hclear
          rw [settle_eq hfound (settleDecision_withheld settlementOf_scalar hclear),
            settle_eq hfound (settleDecision_withheld settlementOf_scalar hclear'),
            bind_ok rfl, bind_ok rfl, settledOutcome_withheld rfl hc]

theorem respond_eq {s s' : Step F R} (hs : SameCompletion s s')
    (hr : released (respond confirms epoch weights disk s).result = true → s = s') :
    respond confirms epoch weights disk s = respond confirms epoch weights disk s' := by
  cases hs with
  | reserve ids train => rfl
  | mediate newIdentity reservation train holdout holdout' hc =>
    simp only [respond]
    rw [ladderMediatedOutcome_eq hc]
    intro hrel
    simpa using hr hrel

/-- Two runs that agree so far answer alike for ever. -/
theorem Agree.trace_eq {steps steps' : List (Step F R)}
    (h : Agree confirms epoch weights SameCompletion disk disk steps steps') :
    trace confirms epoch weights disk steps = trace confirms epoch weights disk steps' := by
  induction steps generalizing steps' disk with
  | nil =>
    cases steps' with
    | nil => rfl
    | cons s' steps' => exact h.elim
  | cons s steps ih =>
    cases steps' with
    | nil => exact h.elim
    | cons s' steps' =>
      obtain ⟨hs, hr, hrest⟩ := h
      have heq := respond_eq hs fun hrel => hr (.inl hrel)
      have hafter : after confirms epoch weights disk s = after confirms epoch weights disk s' := by
        rw [after, heq, after]
      rw [hafter] at hrest
      rw [trace, trace, heq, hafter, ih hrest]

end NonInterference

/-! ## The best released scalar -/

/-- `best` is the least of `scalars`, and absent when there are none. -/
def IsMinimum (best : Option F) (scalars : List F) : Prop :=
  match best with
  | none => scalars = []
  | some x => x ∈ scalars ∧ ∀ y ∈ scalars, PyFloat.le x y = true

/-- The holdout scalar an answer releases. -/
def releasedScalar : Except String (Answer F) → Option F
  | .ok (.answered _ block) => if block.ladderReleased then block.holdoutScalar else none
  | _ => none

/-- The scalars that were released. -/
def releasedScalars (answers : List (Except String (Answer F) × Disk F)) : List F :=
  answers.filterMap fun a => releasedScalar a.1

/-- The scalars are finite, and the file, once there is one, holds the least. -/
structure Tracks (disk : Disk F) (scalars : List F) : Prop where
  finite : ∀ x ∈ scalars, PyFloat.isfinite x = true
  best : disk.state = none ∧ scalars = [] ∨
    ∃ record, disk.state = some (ladderStateDict record) ∧
      IsMinimum record.state.bestHoldoutScalar scalars

section Best
variable {cfg : LadderConfig F} {disk : Disk F} {scalars : List F} {epoch : Epoch}

omit [PyFloat F] in
theorem state_foldl_concat (writes : List (Write F)) (disk : Disk F)
    (record : DurableLadderState F) :
    ((writes ++ [Write.state (ladderStateDict record)]).foldl Disk.apply disk).state =
      some (ladderStateDict record) := by
  rw [foldl_append]
  rfl

/-- A load keeps the released minimum. -/
theorem Tracks.load (h : Tracks disk scalars) (epoch : Epoch) (cfg : LadderConfig F)
    (newIdentity : String) :
    Tracks ((loadLadderStateLocked epoch cfg disk newIdentity).writes.foldl Disk.apply disk)
        scalars ∧
      ∀ record, (loadLadderStateLocked epoch cfg disk newIdentity).result = .ok record →
        IsMinimum record.state.bestHoldoutScalar scalars := by
  obtain ⟨state, marker⟩ := disk
  rcases h.best with ⟨hnone, rfl⟩ | ⟨record, hsome, hmin⟩
  · obtain rfl : state = none := hnone
    cases marker with
    | some m => exact ⟨h, fun record hr => by cases hr⟩
    | none =>
      refine ⟨⟨h.finite, .inr ⟨_, rfl, rfl⟩⟩, fun record hr => ?_⟩
      obtain rfl := ok.inj hr
      rfl
  · obtain rfl : state = some (ladderStateDict record) := hsome
    unfold loadLadderStateLocked
    simp only
    split
    · exact ⟨h, fun record hr => by cases hr⟩
    · rename_i record' hdecode
      obtain rfl := decode_dict_eq hdecode
      cases marker with
      | none =>
        refine ⟨⟨h.finite, .inr ⟨record', rfl, hmin⟩⟩, fun r hr => ?_⟩
        obtain rfl := ok.inj hr
        exact hmin
      | some m =>
        simp only
        split
        · refine ⟨h, fun r hr => ?_⟩
          obtain rfl := ok.inj hr
          exact hmin
        · exact ⟨h, fun r hr => by cases hr⟩

/-- A charge leaves the best scalar as it is. -/
theorem Tracks.reserve (h : Tracks disk scalars) (epoch : Epoch) (cfg : LadderConfig F)
    (ids : Identities) :
    Tracks ((reserveLadderQuery epoch cfg disk ids).writes.foldl Disk.apply disk) scalars := by
  obtain ⟨hload, hbest⟩ := h.load epoch cfg ids.stateId
  cases hresult : (loadLadderStateLocked epoch cfg disk ids.stateId).result with
  | error e =>
    rw [reserveLadderQuery, bind_error hresult]
    exact hload
  | ok record =>
    rw [reserve_eq hresult]
    cases hc : reserveHoldoutQuery record.state with
    | none => exact hload
    | some charged =>
      refine ⟨h.finite, .inr ⟨_, state_foldl_concat _ _ _, ?_⟩⟩
      have hsame : charged.bestHoldoutScalar = record.state.bestHoldoutScalar := by
        unfold reserveHoldoutQuery at hc
        split at hc
        · cases hc
        · rw [← some.inj hc]
      change IsMinimum charged.bestHoldoutScalar scalars
      rw [hsame]
      exact hbest record hresult

/-- Looking a reservation up keeps the released minimum. -/
theorem Tracks.findReservation (h : Tracks disk scalars) (epoch : Epoch) (cfg : LadderConfig F)
    (newIdentity : String) (reservation : LadderQueryReservation) :
    Tracks ((findReservation epoch cfg disk newIdentity reservation).writes.foldl Disk.apply disk)
        scalars ∧
      ∀ found, (findReservation epoch cfg disk newIdentity reservation).result = .ok found →
        IsMinimum found.1.state.bestHoldoutScalar scalars := by
  obtain ⟨hload, hbest⟩ := h.load epoch cfg newIdentity
  cases hresult : (loadLadderStateLocked epoch cfg disk newIdentity).result with
  | error e =>
    unfold Ladder.findReservation
    split
    · exact ⟨h, fun found hf => by cases hf⟩
    · rw [bind_error hresult]
      exact ⟨hload, fun found hf => by cases hf⟩
  | ok record =>
    rcases findReservation_cases reservation hresult with
      ⟨e, hr, hw⟩ | ⟨pending, -, -, hr, hw⟩
    · refine ⟨?_, fun found hf => by rw [hr] at hf; cases hf⟩
      rcases hw with hw | hw <;> rw [hw]
      · exact h
      · exact hload
    · refine ⟨by rw [hw]; exact hload, fun found hf => ?_⟩
      rw [hr] at hf
      rw [← ok.inj hf]
      exact hbest record hresult

variable {weights : ScoringWeights F}

/-- A release takes the lower of the best scalar and its own. -/
theorem IsMinimum.release [LawfulPyFloat F] {state : LadderState F} {trainParent trainChild x : F}
    {confirmed : Bool} (h : IsMinimum state.bestHoldoutScalar scalars)
    (hfin : ∀ y ∈ scalars, PyFloat.isfinite y = true) (hx : PyFloat.isfinite x = true)
    (hclears : clears cfg weights trainParent trainChild = true) :
    IsMinimum (decideReservedHoldout state cfg weights trainParent trainChild x
      confirmed).state.bestHoldoutScalar (scalars ++ [x]) := by
  have hrefl : PyFloat.le x x = true := (LawfulPyFloat.le_total x x hx hx).elim id id
  cases hbest : state.bestHoldoutScalar with
  | none =>
    rw [hbest] at h
    obtain rfl : scalars = [] := h
    simp only [decideReservedHoldout, hclears, if_true, hbest]
    exact ⟨by simp, by simpa using hrefl⟩
  | some best =>
    rw [hbest] at h
    obtain ⟨hmem, hmin⟩ := h
    simp only [decideReservedHoldout, hclears, if_true, hbest]
    split
    · rename_i hle
      refine ⟨by simp, fun y hy => ?_⟩
      rcases mem_append.mp hy with hy | hy
      · exact LawfulPyFloat.le_trans x best y hle (hmin y hy)
      · rw [mem_singleton.mp hy]
        exact hrefl
    · rename_i hle
      refine ⟨by simp [hmem], fun y hy => ?_⟩
      rcases mem_append.mp hy with hy | hy
      · exact hmin y hy
      · rw [mem_singleton.mp hy]
        exact (LawfulPyFloat.le_total best x (hfin best hmem) hx).resolve_right hle

theorem releasedScalar_settled {confirms : Confirms F R} {train : Training F}
    {holdout : Holdout F R} {release : LadderRelease F} {budgetBeforeQuery : Int}
    (h : release.released = true) :
    releasedScalar (.ok (.answered
        (settledOutcome confirms train holdout release budgetBeforeQuery).1
        (settledOutcome confirms train holdout release budgetBeforeQuery).2)) =
      release.holdoutScalar := by
  simp [releasedScalar, settledOutcome, h]

theorem Tracks.same {disk' : Disk F} {result : Except String (Answer F)}
    (h : Tracks disk' scalars) (hr : releasedScalar result = none) :
    Tracks disk' (scalars ++ (releasedScalar result).toList) := by
  simpa [hr] using h

/-- **One call tracks the best scalar.** -/
theorem Tracks.respond [LawfulPyFloat F] (confirms : Confirms F R) (epoch : Epoch)
    (henabled : weights.ladder.enabled = true) (h : Tracks disk scalars) (s : Step F R) :
    Tracks (after confirms epoch weights disk s)
      (scalars ++ (releasedScalar (Ladder.respond confirms epoch weights disk s).result).toList) := by
  cases s with
  | reserve ids train =>
    have hreserve := h.reserve epoch weights.ladder ids
    simp only [after, Ladder.respond]
    cases hresult : (reserveLadderQuery epoch weights.ladder disk ids).result with
    | error e =>
      rw [bind_error hresult]
      exact hreserve.same rfl
    | ok reserved =>
      rw [bind_ok hresult]
      cases reserved.2 <;> simpa [releasedScalar, ladderExhaustedOutcome] using hreserve
  | mediate newIdentity reservation train holdout =>
    obtain ⟨hfound, hbest⟩ := h.findReservation epoch weights.ladder newIdentity
      reservation
    simp only [after, Ladder.respond, ladderMediatedOutcome, isNone_some,
      Bool.false_eq_true, and_false, if_false, henabled, reduceCtorEq]
    split
    · exact h.same rfl
    · cases hresult : (Ladder.findReservation epoch weights.ladder disk newIdentity
          reservation).result with
      | error e =>
        simp only [settleLadderQuery, bind_error hresult]
        exact hfound.same rfl
      | ok found =>
        by_cases hclear : ((settlementOf confirms train holdout).observationComplete &&
            clears weights.ladder weights train.parentScalar train.childScalar) = true
        · obtain ⟨hcomplete, hclears⟩ := Bool.and_eq_true_iff.mp hclear
          obtain ⟨x, hx, hfin⟩ := Holdout.scalar_complete hcomplete
          obtain ⟨hdecide, hrel, hown⟩ := settleDecision_cleared hx hclear
          rw [settle_eq hresult hdecide, bind_ok rfl, bind_ok rfl]
          simp only [pure_writes, pure_result, append_nil]
          rw [releasedScalar_settled hrel, hown]
          refine ⟨fun y hy => ?_, .inr ⟨_, state_foldl_concat _ _ _, ?_⟩⟩
          · rcases mem_append.mp hy with hy | hy
            · exact h.finite y hy
            · obtain rfl : y = x := by simpa using hy
              exact hfin
          · exact (hbest found hresult).release h.finite hfin hclears
        · rw [Bool.not_eq_true] at hclear
          rw [settle_eq hresult (settleDecision_withheld settlementOf_scalar hclear),
            bind_ok rfl, bind_ok rfl]
          simp only [pure_writes, append_nil]
          refine Tracks.same ⟨h.finite, .inr ⟨_, state_foldl_concat _ _ _, ?_⟩⟩ rfl
          exact hbest found hresult

/-- **A run of queries keeps the released minimum.** -/
theorem Tracks.run [LawfulPyFloat F] (confirms : Confirms F R) (epoch : Epoch)
    (henabled : weights.ladder.enabled = true) (h : Tracks disk scalars) (steps : List (Step F R)) :
    Tracks (afterAll confirms epoch weights disk steps)
      (scalars ++ releasedScalars (trace confirms epoch weights disk steps)) := by
  induction steps generalizing disk scalars with
  | nil => simpa [releasedScalars, trace, afterAll] using h
  | cons s steps ih =>
    have hrest := ih (h.respond confirms epoch henabled s)
    rw [List.append_assoc] at hrest
    have hsplit : (releasedScalar (Ladder.respond confirms epoch weights disk s).result).toList ++
        releasedScalars (trace confirms epoch weights (after confirms epoch weights disk s) steps) =
        releasedScalars (trace confirms epoch weights disk (s :: steps)) := by
      rw [trace, releasedScalars, releasedScalars, filterMap_cons]
      cases releasedScalar (Ladder.respond confirms epoch weights disk s).result <;> rfl
    rw [hsplit] at hrest
    exact hrest

end Best

/-- **The ladder lets out only what it releases.**  Two runs that agree on the
training side, on which holdout executions completed, and on the evidence of
every query whose answer is released, give the same answers and leave the same
files after every call; and with the governor on, the best scalar on file is the
least of the scalars released so far. -/
theorem ladder_noninterference [LawfulPyFloat F] (confirms : Confirms F R) (epoch : Epoch)
    (weights : ScoringWeights F) :
    (∀ disk steps steps', Agree confirms epoch weights SameCompletion disk disk steps steps' →
      trace confirms epoch weights disk steps = trace confirms epoch weights disk steps') ∧
    (weights.ladder.enabled = true → ∀ steps raw record,
      (afterAll confirms epoch weights {} steps).state = some raw →
      decodeLadderState raw weights.ladder epoch.path = .ok record →
        IsMinimum record.state.bestHoldoutScalar
          (releasedScalars (trace confirms epoch weights {} steps))) := by
  refine ⟨fun disk steps steps' h => h.trace_eq, fun henabled steps raw record hraw hdecode => ?_⟩
  have hstart : Tracks ({} : Disk F) [] := ⟨by simp, Or.inl ⟨rfl, rfl⟩⟩
  have htracks := hstart.run confirms epoch henabled steps
  rw [List.nil_append] at htracks
  rcases htracks.best with ⟨hnone, -⟩ | ⟨record', hsome, hmin⟩
  · rw [hnone] at hraw
    cases hraw
  · obtain rfl : ladderStateDict record' = raw := Option.some.inj (hsome.symm.trans hraw)
    rw [decode_dict_eq hdecode]
    exact hmin

/-! ### A query below the threshold -/

/-- A threshold above the promotion margin, so that a promotion may stay closed. -/
def highThreshold : ScoringWeights Exact where
  promoteMargin := .fin 0
  ladder := { threshold := some (.fin 1), budget := 2 }

/-- A promotion on the training board. -/
def smallWin : Training Exact where
  outcome :=
    { decision := .promoted, reason := "", deltaScalar := .fin (-1 / 2), deltaPassRate := .fin 0 }
  parentScalar := .fin 1
  childScalar := .fin (1 / 2)

/-- One query, reserved and mediated, with `child` on the holdout. -/
def closedQuery (child : Aggregate Exact) : List (Step Exact Unit) :=
  [.reserve
    { stateId := "0000000000000000000000000000000a"
      reservationId := "0000000000000000000000000000000b" } smallWin,
   .mediate "0000000000000000000000000000000c"
    { statePath := "/ws/epochs/e0/ladder_state.json"
      stateId := "0000000000000000000000000000000a"
      epochId := "e0"
      reservationId := "0000000000000000000000000000000b" } smallWin
    { parent := some { scalar := some (.fin 1), rest := () }
      child := some { child with rest := () } }]

/-- The reason an answer shows. -/
def shownReason : Except String (Answer Exact) → String
  | .ok (.answered outcome _) => outcome.reason
  | .ok (.granted _ _) => ""
  | .error e => e

/-- A complete aggregate. -/
def measuredOn (scalar : Rat) : Aggregate Exact where
  scalar := some (.fin scalar)

/-- An aggregate with an incomplete entry. -/
def unfinished : Aggregate Exact where
  scalar := some (.fin 2)
  incompleteEntries := ["entry-1"]

/-- The two runs differ in the holdout evidence of one withheld query, and the
proposer is told of the second that its execution did not complete. -/
theorem withheld_query_shows_completion :
    Agree (fun _ _ => "") firstEpoch highThreshold SameTraining {} {}
        (closedQuery (measuredOn 2)) (closedQuery unfinished) ∧
      trace (fun _ _ => "") firstEpoch highThreshold {} (closedQuery (measuredOn 2)) ≠
        trace (fun _ _ => "") firstEpoch highThreshold {} (closedQuery unfinished) := by
  refine ⟨⟨.reserve _ _, fun _ => rfl, .mediate _ _ _ _ _, ?_, trivial⟩, fun heq => ?_⟩
  · decide +kernel
  · have hreasons := congrArg (List.map fun a => shownReason a.1) heq
    revert hreasons
    decide +kernel

theorem ladder_noninterference_closed :
    trace (fun _ _ => "") firstEpoch highThreshold {} (closedQuery (measuredOn 2)) =
      trace (fun _ _ => "") firstEpoch highThreshold {} (closedQuery (measuredOn 3)) := by
  refine (ladder_noninterference (fun _ _ => "") firstEpoch highThreshold).1 {} _ _ ?_
  refine ⟨.reserve _ _, fun _ => rfl, .mediate _ _ _ _ _ rfl, ?_, trivial⟩
  decide +kernel

end Zicato.Ladder
