import Zicato.PyFloat
import Zicato.Dict

/-! # Matchups, results and the tournament driver

The value types of `selection/strategy.py`, the interface a selection structure
implements, and the loop of `evaluate_tournament`, which schedules a batch of
matchups, runs it and folds every result back until the structure is resolved
or schedules nothing.

`Reachable` is the same loop one duel at a time: `played` holds the duels that
have reported, in order, and `queue` the scheduled duels still to report.  The
runner is adversarial: all it must do is answer the matchup it was given
(`MatchupResult.Answers`).  An invariant proved of every reachable state holds
in particular where the loop stops, and a bound on the duels of every reachable
state makes the loop end (`ends_of_bound`). -/
namespace Zicato

/-- `core/tournament.py`'s `TournamentDecision`. -/
inductive TournamentDecision
  | promoted
  | rejected
  | deferred
  deriving DecidableEq, Repr

/-- `core/tournament.py`'s `ConfirmationStatus`. -/
inductive ConfirmationStatus
  | disabled
  | satisfied
  | failed
  | incomplete
  deriving DecidableEq, Repr

inductive Role
  | champion
  | challenger
  deriving DecidableEq, Repr

/-- A generation in the field.  The snapshot path and the experiment of a
contestant are read by the runner alone, never by a structure. -/
structure Contestant where
  generationId : String
  role : Role
  deriving DecidableEq, Repr

/-- A single duel the strategy wants run next. -/
structure Matchup (F : Type) where
  matchupId : String
  left : Contestant
  right : Contestant
  /-- `none` is the full board. -/
  boardSubset : Option (List String) := none
  replicates : Nat := 1
  stageIndex : Nat := 0
  bracketSlot : String := ""
  matchupBudgetSeconds : Option F := none
  deriving DecidableEq

/-- The two entries of an aggregate dict that a structure reads. -/
structure Aggregate (F : Type) where
  scalar : Option F
  incompleteEntries : List String := []
  deriving DecidableEq

/-- The fields of `tournament/gate.py`'s verdict that a structure reads. -/
structure GateOutcome (F : Type) where
  decision : TournamentDecision
  reason : String
  deltaScalar : F
  deltaPassRate : F
  deriving DecidableEq

/-- `core/measurement.py`'s `MeasurementPurpose`. -/
inductive MeasurementPurpose
  | tournament
  | calibration
  | preflight
  | screen
  | confirmation
  | reflection
  | admission
  deriving DecidableEq, Repr

/-- The purpose, draw number and seed of one measurement. -/
structure MeasurementDraw where
  purpose : MeasurementPurpose
  draw : Nat
  baseSeed : Option Int := none
  deriving DecidableEq, Repr

/-- A completed duel, handed back to the strategy. -/
structure MatchupResult (F : Type) where
  matchupId : String
  leftId : String
  rightId : String
  leftAgg : Aggregate F
  rightAgg : Aggregate F
  outcome : GateOutcome F
  stageIndex : Nat := 0
  bracketSlot : String := ""
  measurementDraw : Option MeasurementDraw := none
  deriving DecidableEq

namespace MatchupResult
variable {F : Type}

/-- Whether both sides measured every requested board unit. -/
def executionComplete (r : MatchupResult F) : Bool :=
  r.leftAgg.incompleteEntries.isEmpty && r.rightAgg.incompleteEntries.isEmpty

/-- The result carries the id and the two sides of the matchup it answers. -/
def Answers (r : MatchupResult F) (m : Matchup F) : Prop :=
  r.matchupId = m.matchupId ∧ r.leftId = m.left.generationId ∧
    r.rightId = m.right.generationId

variable [PyFloat F]

def leftScalar (r : MatchupResult F) : F := r.leftAgg.scalar.getD PyFloat.zero

def rightScalar (r : MatchupResult F) : F := r.rightAgg.scalar.getD PyFloat.zero

/-- The id of the side with the lower (better) scalar; a tie keeps `left`. -/
def lowerScalarId (r : MatchupResult F) : String :=
  if PyFloat.lt r.outcome.deltaScalar PyFloat.zero then r.rightId else r.leftId

end MatchupResult

inductive StandingStatus
  | alive
  | eliminated
  | champion
  deriving DecidableEq, Repr

/-- One contestant's position in the final standings. -/
structure Standing (F : Type) where
  generationId : String
  rank : Nat
  scalar : F
  wins : Nat := 0
  losses : Nat := 0
  status : StandingStatus := .alive
  role : Role := .challenger
  deriving DecidableEq

/-- One settled match inside a `RoundRecord`. -/
structure MatchRecord (F : Type) where
  matchId : String
  competitors : List String
  winner : String := ""
  decision : Option TournamentDecision := none
  deltaScalar : Option F := none
  bracketSlot : String := ""
  bye : Bool := false
  survivors : List String := []
  cut : List String := []
  boardFraction : Option Rat := none
  deriving DecidableEq

/-- One settled round, rung or bracket round. -/
structure RoundRecord (F : Type) where
  stageIndex : Nat
  label : String
  contents : List (MatchRecord F) := []
  deriving DecidableEq

/-- The crowned outcome once a tournament resolves. -/
structure SelectionDecision (F : Type) where
  promotedGenerationId : Option String
  decision : TournamentDecision
  reason : String
  matchups : List (MatchupResult F) := []
  crowningMatchupId : String := ""
  standings : List (Standing F) := []
  deriving DecidableEq

/-- The part of `SelectionStrategy` that the driver calls.  `seed` is applied to
a freshly constructed strategy; `nextMatchups` returns the batch together with
the state the scheduling leaves. -/
structure SelectionStrategy (F : Type) where
  State : Type
  seed : Contestant → List Contestant → Except String State
  nextMatchups : State → List (Matchup F) × State
  recordResult : State → MatchupResult F → State
  resolved : State → Bool
  champion : State → SelectionDecision F

/-- A duel that has reported, with its result. -/
abbrev Duel (F : Type) := Matchup F × MatchupResult F

/-- What the runner supplies of a result; the id, the sides, the stage and the
slot are copied from the matchup. -/
structure ResultBody (F : Type) where
  leftAgg : Aggregate F
  rightAgg : Aggregate F
  outcome : GateOutcome F
  measurementDraw : Option MeasurementDraw := none
  deriving DecidableEq

/-- The result of matchup `m` with the runner's measurements. -/
def ResultBody.toResult {F : Type} (b : ResultBody F) (m : Matchup F) : MatchupResult F where
  matchupId := m.matchupId
  leftId := m.left.generationId
  rightId := m.right.generationId
  leftAgg := b.leftAgg
  rightAgg := b.rightAgg
  outcome := b.outcome
  stageIndex := m.stageIndex
  bracketSlot := m.bracketSlot
  measurementDraw := b.measurementDraw

theorem ResultBody.toResult_answers {F : Type} (b : ResultBody F) (m : Matchup F) :
    (b.toResult m).Answers m := ⟨rfl, rfl, rfl⟩

/-- Every matchup handed to the driver so far: reported or in flight. -/
def scheduledMatchups {F : Type} (played : List (Duel F)) (queue : List (Matchup F)) :
    List (Matchup F) :=
  played.map Prod.fst ++ queue

/-- A result moves its matchup from the queue to the played duels. -/
@[simp] theorem scheduledMatchups_concat {F : Type} (played : List (Duel F)) (m : Matchup F)
    (r : MatchupResult F) (queue : List (Matchup F)) :
    scheduledMatchups (played ++ [(m, r)]) queue = scheduledMatchups played (m :: queue) := by
  simp [scheduledMatchups]

theorem ids_nodup_of_length_le_one {F : Type} :
    ∀ {ms : List (Matchup F)}, ms.length ≤ 1 → (ms.map (·.matchupId)).Nodup
  | [], _ => List.nodup_nil
  | [_], _ => List.nodup_singleton _

namespace SelectionStrategy
variable {F : Type} (S : SelectionStrategy F)

/-- The loop of `evaluate_tournament` after seeding.  `run t m` is what the
runner measures for matchup `m` of the `t`-th batch, so a runner may answer
equal matchups of different batches differently.  `none` is an exhausted
`fuel`, which is not a behaviour of the loop. -/
def evaluateLoop (run : Nat → Matchup F → ResultBody F) :
    Nat → Nat → S.State → List (Duel F) → Option (List (Duel F) × S.State)
  | 0, _, _, _ => none
  | fuel + 1, t, s, played =>
      if S.resolved s then some (played, s)
      else
        match S.nextMatchups s with
        | ([], s') => some (played, s')
        | (m :: batch, s') =>
            let results := (m :: batch).map fun m => (m, (run t m).toResult m)
            evaluateLoop run fuel (t + 1)
              (results.foldl (fun s d => S.recordResult s d.2) s') (played ++ results)

/-- `evaluate_tournament` without the evidence gate: the duels in the order they
reported, and the decision of `strategy.champion()`. -/
def evaluateTournament (run : Nat → Matchup F → ResultBody F) (fuel : Nat) (s₀ : S.State) :
    Option (List (Duel F) × SelectionDecision F) :=
  (S.evaluateLoop run fuel 0 s₀ []).map fun o => (o.1, S.champion o.2)

/-- The states of the loop started in `s₀`, one duel at a time. -/
inductive Reachable (s₀ : S.State) : List (Duel F) → List (Matchup F) → S.State → Prop
  | seeded : Reachable s₀ [] [] s₀
  | scheduled {played : List (Duel F)} {s : S.State} (h : Reachable s₀ played [] s)
      (hr : S.resolved s = false) :
      Reachable s₀ played (S.nextMatchups s).1 (S.nextMatchups s).2
  | recorded {played : List (Duel F)} {m : Matchup F} {queue : List (Matchup F)} {s : S.State}
      (h : Reachable s₀ played (m :: queue) s) (r : MatchupResult F) (hr : r.Answers m) :
      Reachable s₀ (played ++ [(m, r)]) queue (S.recordResult s r)

namespace Reachable
variable {S} {s₀ : S.State}

variable {played : List (Duel F)}

/-- The rule for an invariant of the loop: it holds after seeding, and scheduling
and recording keep it. -/
theorem invariant (P : List (Duel F) → List (Matchup F) → S.State → Prop) (seeded : P [] [] s₀)
    (scheduled : ∀ played s, P played [] s → S.resolved s = false →
      P played (S.nextMatchups s).1 (S.nextMatchups s).2)
    (recorded : ∀ played m queue s r, P played (m :: queue) s → MatchupResult.Answers r m →
      P (played ++ [(m, r)]) queue (S.recordResult s r)) {queue : List (Matchup F)} {s : S.State}
    (h : S.Reachable s₀ played queue s) : P played queue s := by
  induction h with
  | seeded => exact seeded
  | scheduled _ hr ih => exact scheduled _ _ ih hr
  | recorded _ r hr ih => exact recorded _ _ _ _ r ih hr

/-- Recording a whole batch, one result after another. -/
theorem record_batch {batch : List (Matchup F)} (body : Matchup F → ResultBody F) {s : S.State}
    (h : S.Reachable s₀ played batch s) :
    S.Reachable s₀ (played ++ batch.map fun m => (m, (body m).toResult m)) []
      ((batch.map fun m => (m, (body m).toResult m)).foldl
        (fun s d => S.recordResult s d.2) s) := by
  induction batch generalizing played s with
  | nil => simpa using h
  | cons m batch ih =>
    have h' := ih (h.recorded ((body m).toResult m) ((body m).toResult_answers m))
    simpa using h'

end Reachable

/-- Where the loop stops: nothing is in flight, and the structure is resolved or
has just scheduled nothing. -/
def Stopped (s₀ : S.State) (played : List (Duel F)) (s : S.State) : Prop :=
  S.Reachable s₀ played [] s ∧
    (S.resolved s = true ∨ ∃ s', S.Reachable s₀ played [] s' ∧ S.resolved s' = false ∧
      S.nextMatchups s' = ([], s))

variable {played : List (Duel F)}

variable {S} in
/-- A structure that always schedules something while unresolved stops resolved. -/
theorem Stopped.resolved {s₀ : S.State} {s : S.State}
    (hnext : ∀ played s, S.Reachable s₀ played [] s → S.resolved s = false →
      (S.nextMatchups s).1 ≠ []) (h : S.Stopped s₀ played s) : S.resolved s = true := by
  rcases h.2 with hr | ⟨s', hs', hr', hn⟩
  · exact hr
  · exact absurd (by rw [hn]) (hnext _ _ hs' hr')

variable (run : Nat → Matchup F → ResultBody F)

/-- The loop ends, from any state it can reach. -/
theorem evaluateLoop_reachable {s₀ : S.State} {B : Nat}
    (hB : ∀ played queue s, S.Reachable s₀ played queue s → played.length ≤ B) (fuel t : Nat)
    (s : S.State) (played : List (Duel F)) (h : S.Reachable s₀ played [] s)
    (hfuel : B < played.length + fuel) :
    ∃ o, S.evaluateLoop run fuel t s played = some o ∧ S.Stopped s₀ o.1 o.2 := by
  -- each batch adds at least one duel, so the distance to the bound is the measure
  induction fuel generalizing t s played with
  | zero =>
    have := hB played [] s h
    omega
  | succ fuel ih =>
    unfold evaluateLoop
    cases hres : S.resolved s with
    | true => exact ⟨(played, s), by simp, h, Or.inl hres⟩
    | false =>
      have hsched := h.scheduled hres
      cases hnext : S.nextMatchups s with
      | mk batch s' =>
        rw [hnext] at hsched
        cases batch with
        | nil => exact ⟨(played, s'), by simp, hsched, Or.inr ⟨s, h, hres, hnext⟩⟩
        | cons m batch =>
          have hrec := hsched.record_batch (run t)
          obtain ⟨o, ho, hstop⟩ := ih (t + 1) _ _ hrec (by
            simp only [List.length_append, List.length_map, List.length_cons]
            omega)
          exact ⟨o, by simpa using ho, hstop⟩

/-- Fuel left over changes nothing. -/
theorem evaluateLoop_add (k : Nat) {fuel t : Nat} {s : S.State} {o : List (Duel F) × S.State}
    (h : S.evaluateLoop run fuel t s played = some o) :
    S.evaluateLoop run (fuel + k) t s played = some o := by
  induction fuel generalizing t s played with
  | zero => simp [evaluateLoop] at h
  | succ fuel ih =>
    rw [show fuel + 1 + k = (fuel + k) + 1 from by omega]
    unfold evaluateLoop at h ⊢
    split
    · rwa [if_pos ‹_›] at h
    · rw [if_neg ‹_›] at h
      split <;> simp_all

/-- The loop of `evaluate_tournament` ends with `played` and `decision`, whatever
fuel beyond some bound it is modelled with. -/
def Ends (run : Nat → Matchup F → ResultBody F) (s₀ : S.State) (played : List (Duel F))
    (decision : SelectionDecision F) : Prop :=
  ∃ fuel₀, ∀ fuel, fuel₀ ≤ fuel → S.evaluateTournament run fuel s₀ = some (played, decision)

/-- **A bound on the duels makes the loop end**, in a state the loop can reach. -/
theorem ends_of_bound {s₀ : S.State} {B : Nat}
    (hB : ∀ played queue s, S.Reachable s₀ played queue s → played.length ≤ B) :
    ∃ played s, S.Stopped s₀ played s ∧ S.Ends run s₀ played (S.champion s) := by
  obtain ⟨o, ho, hstop⟩ := S.evaluateLoop_reachable run hB (B + 1) 0 s₀ [] .seeded (by simp)
  refine ⟨o.1, o.2, hstop, B + 1, fun fuel hfuel => ?_⟩
  obtain ⟨k, rfl⟩ := Nat.exists_eq_add_of_le hfuel
  rw [evaluateTournament, evaluateLoop_add S run k ho]
  rfl

end SelectionStrategy
end Zicato
