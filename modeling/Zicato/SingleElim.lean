import Zicato.BracketRound

/-! # Single elimination

`selection/experimental/single_elim.py`: a bracket over the challengers, then
one duel of the champion against the survivor. -/
open List
namespace Zicato
open Knockout

/-- The params the two elimination structures read. -/
structure ElimParams where
  replicates : Nat := 2
  rating : Option Rating := none
  resolver : Option Resolver := none

/-- The state of a seeded `SingleEliminationStrategy`. -/
structure SingleElim (F : Type) where
  gate : ChampionGate F
  /-- The survivors entering the next round. -/
  currentRound : List Contestant
  stageIndex : Nat := 0
  pending : Dict String (Contestant × Contestant) := []
  roundMatches : List (MatchRecord F) := []
  eliminatedRound : Dict String Nat := []
  survivor : Option Contestant := none

namespace SingleElim
variable {F : Type} [PyFloat F] (fits : StandingsExt F)

def finalMatchId : String := "final"

def seed (params : ElimParams) (champion : Contestant) (challengers : List Contestant) :
    SingleElim F where
  gate :=
    { replicates := params.replicates, rating := params.rating, resolver := params.resolver
      champion := champion, challengers := challengers
      scalars := challengers.foldl
        (fun d c => Dict.setdefault d c.generationId PyFloat.zero) [] }
  currentRound := challengers

/-- `_flush_round`; an empty round leaves no record. -/
def flushRound (s : SingleElim F) : SingleElim F :=
  let record :=
    { stageIndex := s.stageIndex, label := s!"Bracket round {s.stageIndex + 1}"
      contents := s.roundMatches : RoundRecord F }
  { s with
    gate := { s.gate with
      records := if s.roundMatches.isEmpty then s.gate.records else s.gate.records ++ [record] }
    roundMatches := []
    stageIndex := s.stageIndex + 1 }

def scheduleRound (s : SingleElim F) : List (Matchup F) × SingleElim F :=
  let round := pairRound "WB" s.gate.replicates s.stageIndex 0 s.currentRound
  (round.matchups,
    { s with
      currentRound := round.byes
      pending := addPending s.pending round.matchups
      roundMatches := s.roundMatches ++ round.byeRecords })

def maybeFinal (s : SingleElim F) : List (Matchup F) × SingleElim F :=
  match s.gate.finalScheduled, s.survivor with
  | false, some survivor =>
      let survivor := s.gate.pickFinalist fits survivor
      ([{ matchupId := finalMatchId, left := s.gate.champion, right := survivor,
          replicates := s.gate.replicates, stageIndex := s.stageIndex, bracketSlot := "final" }],
        { s with survivor := some survivor, gate := { s.gate with finalScheduled := true } })
  | _, _ => ([], s)

/-- `next_matchups`. -/
def nextMatchups (s : SingleElim F) : List (Matchup F) × SingleElim F :=
  if s.survivor.isNone && s.pending.isEmpty then
    if s.currentRound.length ≤ 1 then
      maybeFinal fits (flushRound { s with survivor := s.currentRound.head? })
    else scheduleRound s
  else if s.survivor.isSome then maybeFinal fits s
  else ([], s)

/-- The part of `record_result` every result takes: the audit and the scalars. -/
def logResult (s : SingleElim F) (r : MatchupResult F) : SingleElim F :=
  { s with gate := { s.gate with
      audit := s.gate.audit ++ [r]
      scalars := (s.gate.scalars.set r.leftId r.leftScalar).set r.rightId r.rightScalar } }

/-- The part of `record_result` that folds a popped pair of the bracket. -/
def recordNode (s : SingleElim F) (left right : Contestant) (r : MatchupResult F) :
    SingleElim F :=
  let winner := nodeWinner left right r
  let loser := nodeLoser left right r
  let s :=
    { s with
      gate := { s.gate with
        wins := increment s.gate.wins r.lowerScalarId
        losses := increment s.gate.losses loser.generationId }
      eliminatedRound := s.eliminatedRound.set loser.generationId s.stageIndex
      currentRound := s.currentRound ++ [winner]
      roundMatches := s.roundMatches ++ [nodeRecord left right r] }
  if s.pending.isEmpty then flushRound s else s

/-- `record_result`. -/
def recordResult (s : SingleElim F) (r : MatchupResult F) : SingleElim F :=
  let s := logResult s r
  match s.gate.captureFinalResult finalMatchId r with
  | some gate => { s with gate := gate }
  | none =>
      match Dict.pop s.pending r.matchupId with
      | (none, _) => s
      | (some (left, right), rest) => recordNode { s with pending := rest } left right r

def resolved (s : SingleElim F) : Bool :=
  s.gate.finalResult.isSome ||
    (s.gate.challengers.isEmpty && s.survivor.isNone && s.currentRound.isEmpty)

/-- `_no_final_detail`: which of the two ways a bracket can end without a
decided final it is. -/
def noFinalDetail (s : SingleElim F) : String :=
  match s.survivor with
  | none =>
      s!"the bracket produced no finalist from {s.gate.challengers.length} " ++
        s!"challenger(s) over {s.gate.audit.length} duel(s)"
  | some survivor =>
      let measured :=
        match Dict.get? s.gate.scalars s.gate.champion.generationId,
          Dict.get? s.gate.scalars survivor.generationId with
        | some champ, some finalist =>
            s!" (champion {PyFloat.format6 champ} vs finalist {PyFloat.format6 finalist})"
        | _, _ => ""
      s!"the final against finalist {survivor.generationId} " ++
        s!"reported no result{measured}"

/-- One node loss ends a challenger's run. -/
def isEliminated (s : SingleElim F) (gid : String) : Bool :=
  (Dict.get? s.eliminatedRound gid).isSome

/-- `champion`. -/
def champion (s : SingleElim F) : SelectionDecision F :=
  s.gate.decision finalMatchId s!"no finalist cleared the champion gate: {noFinalDetail s}"
    s.survivor (s.gate.standings fits s.isEliminated)

/-- `SingleEliminationStrategy`. -/
def strategy (params : ElimParams) : SelectionStrategy F where
  State := SingleElim F
  seed c cs := .ok (seed params c cs)
  nextMatchups := nextMatchups fits
  recordResult := recordResult
  resolved := resolved
  champion := champion fits

/-! ## The invariant of a run -/

/-- The bracket while its rounds run: `stages` are the node duels that have
reported and `queue` those in flight. -/
structure Rounds (stages : List (Duel F)) (queue : List (Matchup F)) (s : SingleElim F) :
    Prop where
  bracket : Bracket.Over s.gate.challengers
    ⟨s.currentRound, queue.map Matchup.sides, stages.map Duel.loser⟩
  pending : s.pending = pendingOf queue
  staged : Staged (bracketId "WB") (if queue.isEmpty then s.stageIndex else s.stageIndex + 1)
    (scheduledMatchups stages queue)
  losses : ∀ gid, Dict.getD s.gate.losses gid 0 =
    (stages.map fun d => d.loser.generationId).count gid
  eliminated : ∀ gid, s.isEliminated gid = true ↔ gid ∈ stages.map fun d => d.loser.generationId

/-- What holds in every reachable state: the rounds run until one challenger is
left, and the crowning duel follows them. -/
structure Inv (champion : Contestant) (field : List Contestant) (played : List (Duel F))
    (queue : List (Matchup F)) (stages : List (Duel F)) (s : SingleElim F) : Prop where
  champion_eq : s.gate.champion = champion
  challengers_eq : s.gate.challengers = field
  crowning : s.gate.Crowning finalMatchId s.survivor played queue stages
  rounds : Rounds stages (if s.gate.finalScheduled then [] else queue) s
  survivor : s.gate.finalScheduled = false → s.survivor = none
  finished : s.gate.finalScheduled = true → s.currentRound.length ≤ 1

variable {champion : Contestant} {field : List Contestant} {played stages : List (Duel F)}
  {queue : List (Matchup F)} {s : SingleElim F} {m : Matchup F} {r : MatchupResult F}

/-- The invariant holds of a seeded tournament. -/
theorem inv_seed (params : ElimParams) (champion : Contestant) (field : List Contestant) :
    Inv champion field [] [] [] (seed params champion field : SingleElim F) where
  champion_eq := rfl
  challengers_eq := rfl
  crowning := .staging _ _ rfl rfl
  rounds :=
    { bracket := Bracket.over_start field
      pending := rfl
      staged := .nil
      losses := by simp [seed, Dict.getD]
      eliminated := by simp [seed, isEliminated] }
  survivor _ := rfl
  finished h := by cases h

/-- A scheduled round is the next one. -/
theorem Rounds.schedule (h : Rounds stages [] s) (hlen : 1 < s.currentRound.length) :
    Rounds stages (scheduleRound s).1 (scheduleRound s).2 := by
  have hstaged : Staged (bracketId "WB") s.stageIndex (stages.map Prod.fst) := by
    simpa [scheduledMatchups] using h.staged
  have hne : (scheduleRound s).1.isEmpty = false := by
    exact isEmpty_eq_false_iff.mpr (pairRound_ne_nil "WB" _ _ 0 hlen)
  refine ⟨?_, ?_, ?_, h.losses, h.eliminated⟩
  · simpa only [scheduleRound, pairRound_sides, pairRound_byes] using h.bracket.pairUp
  · simp only [scheduleRound, h.pending, pendingOf_nil]
    exact addPending_nil (pairRound_ids_nodup ..)
  · rw [hne]
    exact hstaged.extend (fun _ _ _ _ => bracketId_inj) (nodup_range' ..)
      (pairRound_ids "WB" s.gate.replicates s.stageIndex 0 s.currentRound)

omit [PyFloat F] in
/-- With the survivor known and no final scheduled, the final is scheduled. -/
theorem maybeFinal_eq {w : Contestant} (hs : s.gate.finalScheduled = false)
    (hw : s.survivor = some w) :
    maybeFinal fits s =
      ([{ matchupId := finalMatchId, left := s.gate.champion, right := s.gate.pickFinalist fits w,
          replicates := s.gate.replicates, stageIndex := s.stageIndex, bracketSlot := "final" }],
        { s with
          survivor := some (s.gate.pickFinalist fits w)
          gate := { s.gate with finalScheduled := true } }) := by
  simp only [maybeFinal, hs, hw]

/-- Scheduling leads from rounds to rounds, or to the crowning duel. -/
theorem Inv.next (h : Inv champion field played [] stages s) (hr : s.resolved = false) :
    (nextMatchups fits s).1 ≠ [] ∧
      Inv champion field played (nextMatchups fits s).1 stages (nextMatchups fits s).2 := by
  cases h.crowning with
  | decided _ m r hs hres => simp [resolved, hres] at hr
  | staging _ _ hs hres =>
    have hsurv := h.survivor hs
    have hrounds : Rounds played [] s := by simpa [hs] using h.rounds
    have hpend : s.pending = [] := hrounds.pending
    by_cases hlen : s.currentRound.length ≤ 1
    · -- the bracket has produced its survivor
      have hfield : s.gate.challengers ≠ [] := by
        intro he
        have hcur : s.currentRound = [] := by
          have := hrounds.bracket.length_eq
          simp [he] at this
          exact this.1
        simp [resolved, he, hsurv, hcur] at hr
      obtain ⟨w, hw, hperm⟩ := hrounds.bracket.finished hfield hlen
      have hmem : w ∈ s.gate.challengers := hperm.mem_iff.mp (by simp)
      have hnext : nextMatchups fits s = maybeFinal fits (flushRound { s with survivor := some w }) := by
        simp [nextMatchups, hsurv, hpend, hw]
      have hfin := maybeFinal_eq fits (s := flushRound { s with survivor := some w }) hs rfl
      rw [hnext, hfin]
      refine ⟨by simp, h.champion_eq, h.challengers_eq, .scheduled _ _ rfl hres
        ⟨rfl, rfl, ChampionGate.pickFinalist_mem _ _ hmem⟩ rfl, ?_, ?_, fun _ => hlen⟩
      · exact ⟨hrounds.bracket, hpend, hrounds.staged.mono (Nat.le_succ _), hrounds.losses,
          hrounds.eliminated⟩
      · intro hf
        cases hf
    · have hnext : nextMatchups fits s = scheduleRound s := by
        simp [nextMatchups, hsurv, hpend, hlen]
      rw [hnext]
      have hs' : (scheduleRound s).2.gate.finalScheduled = false := hs
      refine ⟨pairRound_ne_nil "WB" _ _ 0 (by omega), h.champion_eq, h.challengers_eq,
        .staging _ _ hs hres, ?_, fun _ => hsurv, fun hf => ?_⟩
      · simpa [hs'] using hrounds.schedule (by omega)
      · rw [hs'] at hf
        cases hf

/-- A node result moves one pair of the bracket on. -/
theorem Rounds.node (h : Rounds stages (m :: queue) s) :
    Rounds (stages ++ [(m, r)]) queue
      (recordNode { s with pending := pendingOf queue } m.left m.right r) := by
  have hover : Bracket.Over s.gate.challengers
      ⟨s.currentRound ++ [nodeWinner m.left m.right r], queue.map Matchup.sides,
        (stages ++ [(m, r)]).map Duel.loser⟩ := by
    rw [map_append]
    exact h.bracket.play (node_sides m.left m.right r)
  have hloss : ∀ gid, Dict.getD (increment s.gate.losses (nodeLoser m.left m.right r).generationId)
      gid 0 = ((stages ++ [(m, r)]).map fun d => d.loser.generationId).count gid := by
    intro gid
    rw [getD_increment, h.losses gid, map_append, count_append]
    simp [Duel.loser, count_singleton]
  have helim : ∀ gid, (Dict.get? (s.eliminatedRound.set (nodeLoser m.left m.right r).generationId
      s.stageIndex) gid).isSome = true ↔
      gid ∈ (stages ++ [(m, r)]).map fun d => d.loser.generationId := by
    intro gid
    have hold := h.eliminated gid
    rw [isEliminated] at hold
    rw [Dict.get?_set, map_append, mem_append, ← hold]
    by_cases hg : (nodeLoser m.left m.right r).generationId = gid
    · simp [hg, Duel.loser]
    · have hg' : ¬ gid = (nodeLoser m.left m.right r).generationId := fun he => hg he.symm
      simp [hg, hg', Duel.loser]
  have hstaged : Staged (bracketId "WB") (s.stageIndex + 1)
      (scheduledMatchups (stages ++ [(m, r)]) queue) := by simpa using h.staged
  cases queue with
  | nil => exact ⟨hover, rfl, hstaged, hloss, helim⟩
  | cons m' queue => exact ⟨hover, rfl, hstaged, hloss, helim⟩

/-- Folding a node leaves the ending alone. -/
theorem recordNode_gate (s : SingleElim F) (left right : Contestant) (r : MatchupResult F) :
    (recordNode s left right r).gate.champion = s.gate.champion ∧
      (recordNode s left right r).gate.challengers = s.gate.challengers ∧
      (recordNode s left right r).gate.finalScheduled = s.gate.finalScheduled ∧
      (recordNode s left right r).gate.finalResult = s.gate.finalResult ∧
      (recordNode s left right r).survivor = s.survivor := by
  simp only [recordNode]
  split <;> exact ⟨rfl, rfl, rfl, rfl, rfl⟩

/-- A result of the next duel keeps the invariant. -/
theorem Inv.record (h : Inv champion field played (m :: queue) stages s) (hr : r.Answers m) :
    ∃ stages', Inv champion field (played ++ [(m, r)]) queue stages' (recordResult s r) := by
  have hid := hr.1
  cases h.crowning with
  | scheduled _ _ hs hres hm hf =>
    have hrec : recordResult s r =
        { logResult s r with gate := { (logResult s r).gate with finalResult := some r } } := by
      simp [recordResult, ChampionGate.captureFinalResult, logResult, hs, hid, hm.matchupId]
    rw [hrec]
    have hrounds : Rounds played [] s := by simpa [hs] using h.rounds
    exact ⟨played, h.champion_eq, h.challengers_eq, .decided _ m r hs rfl ⟨hm.1, hm.2, hm.3⟩ hf,
      by simpa [logResult, hs] using ⟨hrounds.1, hrounds.2, hrounds.3, hrounds.4, hrounds.5⟩,
      h.survivor, h.finished⟩
  | staging _ _ hs hres =>
    have hrounds : Rounds played (m :: queue) s := by simpa [hs] using h.rounds
    have hrec : recordResult s r =
        recordNode { logResult s r with pending := pendingOf queue } m.left m.right r := by
      simp [recordResult, ChampionGate.captureFinalResult, logResult, hs, hid, hrounds.pending,
        Dict.pop, Matchup.sides]
    rw [hrec]
    refine ⟨played ++ [(m, r)], ?_⟩
    have hlog : Rounds played (m :: queue) (logResult s r) :=
      ⟨hrounds.1, hrounds.2, hrounds.3, hrounds.4, hrounds.5⟩
    obtain ⟨hc, hcs, hfs, hfr, hsv⟩ := recordNode_gate
      { logResult s r with pending := pendingOf queue } m.left m.right r
    have hs' := hfs.trans hs
    refine ⟨hc.trans h.champion_eq, hcs.trans h.challengers_eq, .staging _ _ hs' (hfr.trans hres),
      by simpa [hs'] using hlog.node, fun _ => hsv.trans (h.survivor hs), fun hf => ?_⟩
    rw [hs'] at hf
    cases hf

/-- The invariant of every reachable state. -/
theorem inv_reachable (params : ElimParams)
    (h : (strategy fits params).Reachable (seed params champion field) played queue s) :
    ∃ stages, Inv champion field played queue stages s := by
  refine h.invariant (fun played queue s => ∃ stages, Inv champion field played queue stages s)
    ⟨[], inv_seed params champion field⟩ ?_ ?_
  · rintro played s ⟨stages, ih⟩ hr
    exact ⟨stages, (ih.next fits hr).2⟩
  · rintro played m queue s r ⟨stages, ih⟩ hr
    exact ih.record hr

theorem Rounds.length_le (h : Rounds stages queue s) : stages.length ≤ s.gate.challengers.length := by
  have := h.bracket.length_eq
  simp at this
  omega

theorem played_le (params : ElimParams)
    (h : (strategy fits params).Reachable (seed params champion field) played queue s) :
    played.length ≤ field.length + 1 := by
  obtain ⟨stages, hinv⟩ := inv_reachable fits params h
  have h1 := hinv.crowning.length_le
  have h2 := hinv.rounds.length_le
  rw [hinv.challengers_eq] at h2
  omega

/-- Every run ends, whatever the runner measures. -/
theorem ends (params : ElimParams) (champion : Contestant) (field : List Contestant)
    (run : Nat → Matchup F → ResultBody F) :
    ∃ played s, (strategy fits params).Stopped (seed params champion field) played s ∧
      (strategy fits params).Ends run (seed params champion field) played
        (SingleElim.champion fits s) :=
  (strategy fits params).ends_of_bound run fun _ _ _ => played_le fits params

/-- No node id is the final id. -/
theorem Rounds.ne_final (h : Rounds stages queue s) :
    ∀ d ∈ stages, d.1.matchupId ≠ finalMatchId := by
  intro d hd he
  obtain ⟨k, j, -, hid⟩ := h.staged.stage d.1 (by
    simp only [scheduledMatchups, mem_append, mem_map]
    exact Or.inl ⟨d, hd, rfl⟩)
  have := congrArg (fun id => id.toList.head?) (hid.symm.trans he)
  simp [toList_bracketId, finalMatchId] at this

/-- **No id repeats** in a single-elimination run. -/
theorem ids_nodup (params : ElimParams)
    (h : (strategy fits params).Reachable (seed params champion field) played queue s) :
    ((scheduledMatchups played queue).map (·.matchupId)).Nodup := by
  obtain ⟨stages, hinv⟩ := inv_reachable fits params h
  exact hinv.crowning.ids_nodup hinv.rounds.staged.nodup hinv.rounds.ne_final

theorem next_ne_nil (params : ElimParams)
    (h : (strategy fits params).Reachable (seed params champion field) played [] s)
    (hr : s.resolved = false) : (nextMatchups fits s).1 ≠ [] := by
  obtain ⟨stages, hinv⟩ := inv_reachable fits params h
  exact (hinv.next fits hr).1

section
variable (params : ElimParams) (hfield : field ≠ [])
  (h : (strategy fits params).Stopped (seed params champion field) played s)
include params hfield h

/-- A stopped run with a challenger has decided its final. -/
theorem finalResult_of_stopped : s.gate.finalResult.isSome = true:= by
  have hres : s.resolved = true := h.resolved fun _ _ => next_ne_nil fits params
  obtain ⟨stages, hinv⟩ := inv_reachable fits params h.1
  simpa [resolved, hinv.challengers_eq, hfield] using hres

/-- **A stopped run is crowned** when there was a challenger at all. -/
theorem crowned :
    ∃ d, ChampionGate.Crowned finalMatchId champion field played (SingleElim.champion fits s) d := by
  obtain ⟨stages, hinv⟩ := inv_reachable fits params h.1
  have hcr := hinv.crowning.crowned (finalResult_of_stopped fits params hfield h)
    hinv.rounds.ne_final
    s!"no finalist cleared the champion gate: {noFinalDetail s}" (s.gate.standings fits s.isEliminated)
  rwa [hinv.champion_eq, hinv.challengers_eq] at hcr

end

/-- With the final scheduled, the bracket has one survivor; everybody else lost
exactly one node duel. -/
theorem bookkeeping (params : ElimParams) (hn : (field.map (·.generationId)).Nodup)
    (hfield : field ≠ [])
    (h : (strategy fits params).Reachable (seed params champion field) played queue s)
    (hs : s.gate.finalScheduled = true) :
    (ChampionGate.nodeDuels finalMatchId played).length = field.length - 1 ∧
      ∃ w ∈ field, s.currentRound = [w] ∧ nodeLosses finalMatchId played w.generationId = 0 ∧
        ∀ c ∈ field, c ≠ w → nodeLosses finalMatchId played c.generationId = 1 := by
  obtain ⟨stages, hinv⟩ := inv_reachable fits params h
  have hstages := hinv.crowning.nodeDuels_eq hinv.rounds.ne_final
  have hrounds : Rounds stages [] s := by simpa [hs] using hinv.rounds
  obtain ⟨w, hcur, hperm⟩ := hrounds.bracket.finished (by rwa [hinv.challengers_eq]) (hinv.finished hs)
  rw [hinv.challengers_eq] at hperm
  have hids := hperm.map (·.generationId)
  rw [map_cons, map_map] at hids
  have hnd := hids.nodup_iff.mpr hn
  rw [nodup_cons] at hnd
  refine ⟨?_, w, hperm.mem_iff.mp (by simp), hcur, ?_, fun c hc hcw => ?_⟩
  · have := hperm.length_eq
    simp only [length_cons, length_map] at this
    rw [hstages]
    omega
  · rw [nodeLosses, hstages]
    exact count_eq_zero.mpr hnd.1
  · rw [nodeLosses, hstages]
    refine count_eq_one_of_mem hnd.2 ?_
    have hmem := hperm.mem_iff.mpr hc
    rw [mem_cons, or_iff_right hcw] at hmem
    exact mem_map.mpr (by
      obtain ⟨d, hd, rfl⟩ := mem_map.mp hmem
      exact ⟨d, hd, rfl⟩)

end SingleElim
end Zicato
