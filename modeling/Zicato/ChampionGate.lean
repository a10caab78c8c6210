import Zicato.Tournament
import Zicato.PySort

/-! # The shared ending of the field structures

Single elimination, double elimination, Swiss and racing differ in how they
narrow the field.  Each then ends in one crowning duel between the champion and
the finalist its stages produced.  `ChampionGate` is the state that ending
reads and the functions every structure shares: storing the crowning result,
the optional resolver's nomination, the decision and the standings. -/
open List
namespace Zicato

/-- `read_rating`'s one accepted value; any other leaves the knob unset. -/
inductive Rating
  | bradleyTerry
  deriving DecidableEq, Repr

/-- `read_resolver`'s two accepted values. -/
inductive Resolver
  | copeland
  | rankedPairs
  deriving DecidableEq, Repr

/-- The fits behind the opt-in knobs (`selection/standings_ext.py`), both
functions of the audit alone: the Bradley–Terry order and the leader a resolver
proposes.  The structures only reorder their own candidates by them. -/
structure StandingsExt (F : Type) where
  ratingOrder : List (MatchupResult F) → List String
  resolverLeader : List (MatchupResult F) → Resolver → Option String

/-- The state every field structure carries after `seed`, so the champion is
always there. -/
structure ChampionGate (F : Type) where
  replicates : Nat
  rating : Option Rating
  resolver : Option Resolver
  champion : Contestant
  challengers : List Contestant
  /-- Every result in record order, the crowning duel included. -/
  audit : List (MatchupResult F) := []
  /-- The rounds the structure has closed, oldest first. -/
  records : List (RoundRecord F) := []
  finalScheduled : Bool := false
  finalResult : Option (MatchupResult F) := none
  /-- Each contestant's last measured scalar, and its node wins and losses. -/
  scalars : Dict String F := []
  wins : Dict String Nat := []
  losses : Dict String Nat := []

namespace ChampionGate
variable {F : Type} (fits : StandingsExt F)

/-- `_capture_final_result`: the crowning duel's result is stored and not folded
into the stage bookkeeping. -/
def captureFinalResult (finalMatchId : String) (g : ChampionGate F) (r : MatchupResult F) :
    Option (ChampionGate F) :=
  if g.finalScheduled ∧ r.matchupId = finalMatchId then some { g with finalResult := some r }
  else none

/-- `_pick_finalist`: the challenger a set resolver nominates, else `default`. -/
def pickFinalist (g : ChampionGate F) (default : Contestant) : Contestant :=
  match g.resolver with
  | none => default
  | some resolver =>
      match fits.resolverLeader g.audit resolver with
      | none => default
      | some proposed =>
          if proposed = g.champion.generationId then default
          else (g.challengers.reverse.find? (·.generationId = proposed)).getD default

/-- The finalist is one of the challengers. -/
theorem pickFinalist_mem (g : ChampionGate F) {default : Contestant}
    (h : default ∈ g.challengers) : g.pickFinalist fits default ∈ g.challengers := by
  unfold pickFinalist
  split
  · exact h
  · split
    · exact h
    · split
      · exact h
      · rename_i proposed _ _
        cases hf : g.challengers.reverse.find? (·.generationId = proposed) with
        | none => simpa using h
        | some c => simpa using mem_reverse.mp (mem_of_find?_eq_some hf)

/-- `champion()`: without a decided crowning duel the champion stands; with one
the verdict is the gate's. -/
def decision (finalMatchId noPromotionReason : String) (finalist : Option Contestant)
    (standings : Option String → List (Standing F)) (g : ChampionGate F) :
    SelectionDecision F :=
  match g.finalResult, finalist with
  | some result, some finalist =>
      let promotedId :=
        if result.outcome.decision = .promoted then some finalist.generationId else none
      { promotedGenerationId := promotedId
        decision := result.outcome.decision
        reason := result.outcome.reason
        matchups := g.audit
        crowningMatchupId := finalMatchId
        standings := standings promotedId }
  | _, _ =>
      { promotedGenerationId := none
        decision := .rejected
        reason := noPromotionReason
        matchups := g.audit
        standings := standings none }

/-! ## The crowning duel of a run -/

section Crowning
variable (finalMatchId : String) (g : ChampionGate F) (finalist : Option Contestant)

/-- A matchup of the champion against one of the challengers under the final id. -/
structure IsFinal (m : Matchup F) : Prop where
  matchupId : m.matchupId = finalMatchId
  left : m.left = g.champion
  right : m.right ∈ g.challengers

/-- How far a run has come with its crowning duel: `stages` are the duels of the
structure's own stages, and the crowning duel is not scheduled yet, in flight,
or decided and stored. -/
inductive Crowning : List (Duel F) → List (Matchup F) → List (Duel F) → Prop
  | staging (stages : List (Duel F)) (queue : List (Matchup F)) (hs : g.finalScheduled = false)
      (hr : g.finalResult = none) : Crowning stages queue stages
  | scheduled (stages : List (Duel F)) (m : Matchup F) (hs : g.finalScheduled = true)
      (hr : g.finalResult = none) (hm : IsFinal finalMatchId g m)
      (hf : finalist = some m.right) : Crowning stages [m] stages
  | decided (stages : List (Duel F)) (m : Matchup F) (r : MatchupResult F)
      (hs : g.finalScheduled = true) (hr : g.finalResult = some r)
      (hm : IsFinal finalMatchId g m) (hf : finalist = some m.right) :
      Crowning (stages ++ [(m, r)]) [] stages

variable {finalMatchId g finalist} {played stages : List (Duel F)} {queue : List (Matchup F)}

section
variable (h : Crowning finalMatchId g finalist played queue stages)
include h

/-- Of a run with nothing in flight and a result stored, the last duel is the
crowning one. -/
theorem Crowning.of_finalResult (hr : g.finalResult ≠ none) : ∃ m r, played = stages ++ [(m, r)] ∧ queue = [] ∧
      g.finalResult = some r ∧ IsFinal finalMatchId g m ∧ finalist = some m.right := by
  cases h with
  | staging _ _ _ hr' => exact absurd hr' hr
  | scheduled _ _ _ hr' => exact absurd hr' hr
  | decided _ m r _ hr' hm hf => exact ⟨m, r, rfl, rfl, hr', hm, hf⟩

theorem Crowning.finalScheduled (hr : g.finalResult.isSome = true) : g.finalScheduled = true := by
  cases h with
  | staging _ _ _ hr' => simp [hr'] at hr
  | scheduled _ _ hs => exact hs
  | decided _ _ _ hs => exact hs

theorem Crowning.length_le : played.length ≤ stages.length + 1:= by
  cases h <;> simp

/-- The crowning duel adds one id to those of the stages. -/
theorem Crowning.ids_nodup
    (hn : ((scheduledMatchups stages (if g.finalScheduled then [] else queue)).map
      (·.matchupId)).Nodup) (hne : ∀ d ∈ stages, d.1.matchupId ≠ finalMatchId) :
    ((scheduledMatchups played queue).map (·.matchupId)).Nodup := by
  have hadd : ∀ m : Matchup F, IsFinal finalMatchId g m →
      (stages.map (fun d => d.1.matchupId)).Nodup →
      (stages.map (fun d => d.1.matchupId) ++ [m.matchupId]).Nodup := by
    intro m hm hst
    refine nodup_append.mpr ⟨hst, by simp, ?_⟩
    rintro id hid id' hid' rfl
    obtain ⟨d, hd, rfl⟩ := mem_map.mp hid
    rw [mem_singleton, hm.matchupId] at hid'
    exact hne d hd hid'
  cases h with
  | staging _ _ hs => simpa [hs] using hn
  | scheduled _ m hs _ hm | decided _ m r hs _ hm =>
    simp only [hs, if_true, scheduledMatchups, append_nil, map_map] at hn
    simpa [scheduledMatchups, Function.comp_def] using hadd m hm hn

end

/-- The duels of the structure's own stages: all but the crowning one. -/
def nodeDuels (finalMatchId : String) (played : List (Duel F)) : List (Duel F) :=
  played.filter fun d => d.1.matchupId ≠ finalMatchId

theorem Crowning.nodeDuels_eq (h : Crowning finalMatchId g finalist played queue stages)
    (hne : ∀ d ∈ stages, d.1.matchupId ≠ finalMatchId) : nodeDuels finalMatchId played = stages := by
  have hall : stages.filter (fun d => d.1.matchupId ≠ finalMatchId) = stages := by
    simpa [filter_eq_self] using hne
  cases h with
  | staging => exact hall
  | scheduled => exact hall
  | decided _ m r _ _ hm =>
    rw [nodeDuels, filter_append, hall]
    simp [hm.matchupId]

/-- The outcome of a tournament with exactly one crowning duel. -/
structure Crowned (finalMatchId : String) (champion : Contestant) (challengers : List Contestant)
    (played : List (Duel F)) (decision : SelectionDecision F) (d : Duel F) : Prop where
  /-- Of all scheduled duels only `d` carries the final id. -/
  only : played.filter (fun e => e.1.matchupId = finalMatchId) = [d]
  left : d.1.left = champion
  right : d.1.right ∈ challengers
  /-- The promotion is the gate's outcome of `d`, and of its challenger. -/
  promoted : ∀ gid, decision.promotedGenerationId = some gid ↔
    d.2.outcome.decision = .promoted ∧ gid = d.1.right.generationId

/-- A run whose stages never used the final id and whose crowning result is
stored is crowned. -/
theorem Crowning.crowned (h : Crowning finalMatchId g finalist played queue stages)
    (hr : g.finalResult.isSome = true) (hstages : ∀ d ∈ stages, d.1.matchupId ≠ finalMatchId)
    (noPromotionReason : String) (standings : Option String → List (Standing F)) :
    ∃ d, Crowned finalMatchId g.champion g.challengers played
      (g.decision finalMatchId noPromotionReason finalist standings) d := by
  obtain ⟨m, r, rfl, -, hres, hm, hf⟩ := h.of_finalResult (by simpa [Option.isSome_iff_ne_none] using hr)
  have hnone : stages.filter (fun e => e.1.matchupId = finalMatchId) = [] := by
    simpa [filter_eq_nil_iff] using hstages
  refine ⟨(m, r), ?_, hm.left, hm.right, fun gid => ?_⟩
  · rw [filter_append, hnone]
    simp [hm.matchupId]
  · simp only [decision, hres, hf]
    by_cases hp : r.outcome.decision = .promoted
    · simp [hp, eq_comm]
    · simp [hp]

end Crowning

variable [PyFloat F]

/-- `_sort_standings`. -/
def sortStandings (g : ChampionGate F) (rows : List (Standing F)) : List (Standing F) :=
  let order := if g.rating = some .bradleyTerry then fits.ratingOrder g.audit else []
  if order.isEmpty then
    sorted (fun a b => scalarKeyLt (a.scalar, a.generationId) (b.scalar, b.generationId)) rows
  else
    let rank := fun gid => (order.idxOf gid : Int)
    sorted (fun a b => rankKeyLt (rank a.generationId, a.scalar, a.generationId)
      (rank b.generationId, b.scalar, b.generationId)) rows

/-- `_ranked`: number an ordered standings list from 1. -/
def ranked (rows : List (Standing F)) : List (Standing F) :=
  rows.zipIdx.map fun (row, i) => { row with rank := i + 1 }

/-- The default `_standings`, one row per contestant, the champion first. -/
def standings (isEliminated : String → Bool) (g : ChampionGate F) (promotedId : Option String) :
    List (Standing F) :=
  let ids := (g.champion.generationId :: g.challengers.map (·.generationId)).eraseDups
  let rows := ids.map fun gid =>
    { generationId := gid
      rank := 0
      scalar := Dict.getD g.scalars gid PyFloat.zero
      wins := Dict.getD g.wins gid 0
      losses := Dict.getD g.losses gid 0
      status := if promotedId = some gid then .champion
        else if isEliminated gid then .eliminated else .alive
      role := if gid = g.champion.generationId then .champion else .challenger : Standing F }
  ranked (sortStandings fits g rows)

end ChampionGate
end Zicato
