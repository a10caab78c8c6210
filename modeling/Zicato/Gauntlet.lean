import Zicato.Tournament

/-! # Gauntlet

`selection/strategies/gauntlet.py`: one champion, one challenger, one full-board
duel that is the promote gate. -/
namespace Zicato

/-- The state of a seeded `GauntletStrategy`. -/
structure Gauntlet (F : Type) where
  replicates : Nat
  champion : Contestant
  challenger : Contestant
  result : Option (MatchupResult F) := none
  scheduled : Bool := false

namespace Gauntlet
variable {F : Type}

/-- `seed`: the first challenger is the one; an empty field is refused. -/
def seed (replicates : Nat) (champion : Contestant) :
    List Contestant → Except String (Gauntlet F)
  | [] => .error "gauntlet requires exactly one challenger; got none"
  | challenger :: _ =>
      .ok { replicates := replicates, champion := champion, challenger := challenger }

/-- `next_matchups`. -/
def nextMatchups (s : Gauntlet F) : List (Matchup F) × Gauntlet F :=
  if s.scheduled then ([], s)
  else
    ([{ matchupId := "gauntlet", left := s.champion, right := s.challenger, boardSubset := none,
        replicates := s.replicates, stageIndex := 0 }], { s with scheduled := true })

/-- `record_result`. -/
def recordResult (s : Gauntlet F) (r : MatchupResult F) : Gauntlet F := { s with result := some r }

/-- `resolved`. -/
def resolved (s : Gauntlet F) : Bool := s.result.isSome

/-- `_standings`: the crowned side first. -/
def standings [PyFloat F] (s : Gauntlet F) (r : MatchupResult F) (promoted : Bool) :
    List (Standing F) :=
  if promoted then
    [{ generationId := s.challenger.generationId, rank := 1, scalar := r.rightScalar, wins := 1
       status := .champion, role := .challenger },
     { generationId := s.champion.generationId, rank := 2, scalar := r.leftScalar, losses := 1
       status := .eliminated, role := .champion }]
  else
    [{ generationId := s.champion.generationId, rank := 1, scalar := r.leftScalar, wins := 1
       status := .champion, role := .champion },
     { generationId := s.challenger.generationId, rank := 2, scalar := r.rightScalar, losses := 1
       status := .eliminated, role := .challenger }]

/-- The decision of the one duel. -/
def decision [PyFloat F] (s : Gauntlet F) : SelectionDecision F :=
  match s.result with
  | none =>
      let missing :=
        if s.scheduled then
          s!"the scheduled duel against {s.challenger.generationId} reported no result"
        else s!"the duel against {s.challenger.generationId} was never scheduled"
      { promotedGenerationId := none
        decision := .rejected
        reason := s!"no challenger duel ran: {missing}" }
  | some r =>
      let promoted := r.outcome.decision == .promoted
      { promotedGenerationId := if promoted then some s.challenger.generationId else none
        decision := r.outcome.decision
        reason := r.outcome.reason
        matchups := [r]
        crowningMatchupId := r.matchupId
        standings := standings s r promoted }

/-- `GauntletStrategy`. -/
def strategy [PyFloat F] (replicates : Nat) : SelectionStrategy F where
  State := Gauntlet F
  seed := seed replicates
  nextMatchups := nextMatchups
  recordResult := recordResult
  resolved := resolved
  champion := decision

/-- A run has scheduled nothing yet, or its one duel is in flight or decided. -/
theorem reachable_cases [PyFloat F] {replicates : Nat} {s₀ s : Gauntlet F}
    {played : List (Duel F)} {queue : List (Matchup F)}
    (h₀ : s₀.scheduled = false ∧ s₀.result = none)
    (h : (strategy replicates).Reachable s₀ played queue s) :
    (scheduledMatchups played queue).length = if s.scheduled then 1 else 0 := by
  refine (h.invariant (fun played queue (s : Gauntlet F) =>
      (scheduledMatchups played queue).length = (if s.scheduled then 1 else 0) ∧
        (queue = [] → s.scheduled = true → s.result.isSome = true)) ?_ ?_ ?_).1
  · simp [scheduledMatchups, h₀.1]
  · rintro played s ⟨hlen, hdone⟩ hr
    have hs : s.scheduled = false := by
      cases hs : s.scheduled with
      | false => rfl
      | true => simp [strategy, resolved, hdone rfl hs] at hr
    rw [hs] at hlen
    simpa [strategy, nextMatchups, hs, scheduledMatchups] using hlen
  · rintro played m queue s r ⟨hlen, -⟩ -
    rw [scheduledMatchups_concat]
    exact ⟨hlen, fun _ _ => rfl⟩

end Gauntlet
end Zicato
