import Zicato.BracketRound

/-! # Swiss

`selection/experimental/swiss.py`: a fixed number of rounds over the champion
and the challengers, each pairing neighbours of the standing order, then one
duel of the champion against the leading challenger. -/
open List
namespace Zicato

structure SwissParams where
  replicates : Nat := 2
  rating : Option Rating := none
  resolver : Option Resolver := none
  roundsN : Int := 4

/-- The state of a seeded `SwissStrategy`. -/
structure Swiss (F : Type) where
  gate : ChampionGate F
  /-- The champion and the challengers. -/
  field : List Contestant
  roundsN : Nat
  stageIndex : Nat := 0
  pending : Dict String (Contestant × Contestant) := []
  copeland : Dict String Nat
  scalarSum : Dict String F
  scalarN : Dict String Nat
  roundMatches : List (MatchRecord F) := []
  /-- The last round that was paired. -/
  scheduledRound : Int := -1
  leader : Option Contestant := none

/-- What one pass over the standing order leaves. -/
structure SwissRound (F : Type) where
  matchups : List (Matchup F)
  byes : List String
  byeRecords : List (MatchRecord F)

namespace Swiss
variable {F : Type} [PyFloat F] (fits : StandingsExt F)

def finalMatchId : String := "swiss-final"

def seed (params : SwissParams) (champion : Contestant) (challengers : List Contestant) :
    Swiss F :=
  let field := champion :: challengers
  { gate :=
      { replicates := params.replicates, rating := params.rating, resolver := params.resolver
        champion := champion, challengers := challengers }
    field := field
    roundsN := (max 1 params.roundsN).toNat
    copeland := field.foldl (fun d c => Dict.setdefault d c.generationId 0) []
    scalarSum := field.foldl (fun d c => Dict.setdefault d c.generationId PyFloat.zero) []
    scalarN := field.foldl (fun d c => Dict.setdefault d c.generationId 0) [] }

/-- `self._by_id[gid]`, the last contestant seeded under an id.  Only ids of the
field are looked up, so the default is never taken. -/
def byId (s : Swiss F) (gid : String) : Contestant :=
  (s.field.reverse.find? (·.generationId = gid)).getD s.gate.champion

def meanScalar (s : Swiss F) (gid : String) : F :=
  let n := Dict.getD s.scalarN gid 0
  if n = 0 then PyFloat.zero else PyFloat.divNat (Dict.getD s.scalarSum gid PyFloat.zero) n

/-- The key `(-copeland, mean scalar, id)`. -/
def copelandKey (s : Swiss F) (gid : String) : Int × F × String :=
  (-((Dict.getD s.copeland gid 0 : Nat) : Int), meanScalar s gid, gid)

/-- `_standing_order`, with the Bradley–Terry order first when it is asked for
and not empty. -/
def standingOrder (s : Swiss F) : List String :=
  let ids := s.field.map (·.generationId)
  let order := if s.gate.rating = some .bradleyTerry then fits.ratingOrder s.gate.audit else []
  if order.isEmpty then sorted (fun a b => rankKeyLt (copelandKey s a) (copelandKey s b)) ids
  else
    sorted (fun a b => thenLt (decide (order.idxOf a = order.idxOf b))
      (decide (order.idxOf a < order.idxOf b))
      (rankKeyLt (copelandKey s a) (copelandKey s b))) ids

/-- The pairing loop of `_schedule_swiss_round` from slot `slot` on. -/
def pairSwiss (byId : String → Contestant) (replicates stage : Nat) :
    Nat → List String → SwissRound F
  | slot, left :: right :: rest =>
      let tail := pairSwiss byId replicates stage (slot + 1) rest
      { tail with
        matchups :=
          { matchupId := swissId stage slot, left := byId left, right := byId right,
            replicates := replicates, stageIndex := stage } :: tail.matchups }
  | slot, [bye] =>
      { matchups := []
        byes := [bye]
        byeRecords := [{ matchId := swissId stage slot, competitors := [bye], winner := bye,
                         bye := true }] }
  | _, [] => { matchups := [], byes := [], byeRecords := [] }

/-- `_schedule_swiss_round`: a bye is a free Copeland point. -/
def scheduleSwissRound (s : Swiss F) : List (Matchup F) × Swiss F :=
  let round := pairSwiss s.byId s.gate.replicates s.stageIndex 0 (standingOrder fits s)
  (round.matchups,
    { s with
      pending := addPending s.pending round.matchups
      copeland := round.byes.foldl increment s.copeland
      roundMatches := s.roundMatches ++ round.byeRecords
      scheduledRound := s.stageIndex })

/-- `_pick_leader`: a challenger the resolver proposes, else the top
non-champion of the standing order. -/
def pickLeader (s : Swiss F) : Option String :=
  let champ := s.gate.champion.generationId
  let defaultLeader := (standingOrder fits s).find? (· ≠ champ)
  match s.gate.resolver with
  | none => defaultLeader
  | some resolver =>
      match fits.resolverLeader s.gate.audit resolver with
      | none => defaultLeader
      | some proposed =>
          if proposed ≠ champ ∧ proposed ∈ s.field.map (·.generationId) then some proposed
          else defaultLeader

def maybeFinal (s : Swiss F) : List (Matchup F) × Swiss F :=
  if s.gate.finalScheduled then ([], s)
  else
    let gate := { s.gate with finalScheduled := true }
    match pickLeader fits s with
    | none => ([], { s with gate := gate })
    | some leaderId =>
        let leader := s.byId leaderId
        ([{ matchupId := finalMatchId, left := s.gate.champion, right := leader,
            replicates := s.gate.replicates, stageIndex := s.stageIndex }],
          { s with leader := some leader, gate := gate })

/-- `next_matchups`. -/
def nextMatchups (s : Swiss F) : List (Matchup F) × Swiss F :=
  if !s.pending.isEmpty then ([], s)
  else if s.roundsN ≤ s.stageIndex then maybeFinal fits s
  else scheduleSwissRound fits s

def tallyScalar (s : Swiss F) (gid : String) (scalar : F) : Swiss F :=
  { s with
    scalarSum := s.scalarSum.set gid
      (PyFloat.add (Dict.getD s.scalarSum gid PyFloat.zero) scalar)
    scalarN := increment s.scalarN gid }

/-- The part of `record_result` every result takes. -/
def logResult (s : Swiss F) (r : MatchupResult F) : Swiss F :=
  let s := { s with gate := { s.gate with audit := s.gate.audit ++ [r] } }
  tallyScalar (tallyScalar s r.leftId r.leftScalar) r.rightId r.rightScalar

/-- Close the round once all its pairings have landed. -/
def closeRound (s : Swiss F) : Swiss F :=
  let record :=
    { stageIndex := s.stageIndex, label := s!"Swiss round {s.stageIndex + 1}"
      contents := s.roundMatches : RoundRecord F }
  { s with
    gate := { s.gate with records := s.gate.records ++ [record] }
    roundMatches := []
    stageIndex := s.stageIndex + 1 }

/-- The part of `record_result` that folds a popped pairing. -/
def recordPairing (s : Swiss F) (left right : Contestant) (r : MatchupResult F) : Swiss F :=
  let winnerId := r.lowerScalarId
  let loserId := if winnerId = left.generationId then right.generationId else left.generationId
  let s :=
    { s with
      gate := { s.gate with losses := increment s.gate.losses loserId }
      copeland := increment s.copeland winnerId
      roundMatches := s.roundMatches ++ [{ nodeRecord left right r with bracketSlot := "" }] }
  if s.pending.isEmpty then closeRound s else s

/-- `record_result`. -/
def recordResult (s : Swiss F) (r : MatchupResult F) : Swiss F :=
  let s := logResult s r
  match s.gate.captureFinalResult finalMatchId r with
  | some gate => { s with gate := gate }
  | none =>
      match Dict.pop s.pending r.matchupId with
      | (none, _) => s
      | (some (left, right), rest) => recordPairing { s with pending := rest } left right r

def resolved (s : Swiss F) : Bool :=
  s.gate.finalResult.isSome || (s.gate.finalScheduled && s.leader.isNone)

/-- `_no_final_detail`. -/
def noFinalDetail (s : Swiss F) : String :=
  match s.leader with
  | none =>
      s!"the swiss rounds produced no leader over {s.gate.audit.length} duel(s) " ++
        s!"across {s.scalarN.length} contestant(s)"
  | some leader =>
      let champMean := PyFloat.format6 (meanScalar s s.gate.champion.generationId)
      let leaderMean := PyFloat.format6 (meanScalar s leader.generationId)
      s!"the crowning duel against leader {leader.generationId} reported " ++
        s!"no result (champion mean {champMean} vs leader mean {leaderMean})"

/-- `_standings`: the standing order itself, with Copeland points as wins. -/
def standings (s : Swiss F) (promotedId : Option String) : List (Standing F) :=
  ChampionGate.ranked <| (standingOrder fits s).map fun gid =>
    { generationId := gid
      rank := 0
      scalar := meanScalar s gid
      wins := Dict.getD s.copeland gid 0
      losses := Dict.getD s.gate.losses gid 0
      status := if promotedId = some gid then .champion else .alive
      role := if gid = s.gate.champion.generationId then .champion else .challenger }

/-- `champion`. -/
def champion (s : Swiss F) : SelectionDecision F :=
  s.gate.decision finalMatchId
    s!"swiss leader did not clear the champion gate: {noFinalDetail s}"
    s.leader (standings fits s)

/-- `SwissStrategy`. -/
def strategy (params : SwissParams) : SelectionStrategy F where
  State := Swiss F
  seed c cs := .ok (seed params c cs)
  nextMatchups := nextMatchups fits
  recordResult := recordResult
  resolved := resolved
  champion := champion fits

/-! ## The invariant of a run -/

section PairSwiss
variable (byId : String → Contestant) (replicates stage : Nat)

omit [PyFloat F] in
theorem pairSwiss_ids (slot : Nat) (l : List String) :
    (pairSwiss (F := F) byId replicates stage slot l).matchups.map (·.matchupId) =
      (List.range' slot (l.length / 2)).map (swissId stage) := by
  fun_induction pairSwiss (F := F) byId replicates stage slot l with
  | case1 slot left right rest tail ih =>
    have hlen : (left :: right :: rest).length / 2 = rest.length / 2 + 1 := by
      simp only [length_cons]
      omega
    rw [hlen, range'_succ, map_cons, map_cons, ih]
  | case2 => simp
  | case3 => rfl

omit [PyFloat F] in
theorem pairSwiss_ids_nodup (slot : Nat) (l : List String) :
    ((pairSwiss (F := F) byId replicates stage slot l).matchups.map (·.matchupId)).Nodup := by
  rw [pairSwiss_ids]
  exact (nodup_range' ..).map fun a b hab => (swissId_inj hab).2

omit [PyFloat F] in
theorem length_pairSwiss (slot : Nat) (l : List String) :
    (pairSwiss (F := F) byId replicates stage slot l).matchups.length = l.length / 2 := by
  have hlen := congrArg List.length (pairSwiss_ids (F := F) byId replicates stage slot l)
  simpa using hlen

end PairSwiss

/-- Whatever the ratings say, the standing order is the field. -/
theorem standingOrder_perm (s : Swiss F) :
    (standingOrder fits s).Perm (s.field.map (·.generationId)) := by
  simp only [standingOrder]
  repeat' split
  all_goals exact sorted_perm _ _

omit [PyFloat F] in
/-- A lookup of a field id finds a contestant of the field with that id. -/
theorem byId_spec (s : Swiss F) {gid : String} (h : gid ∈ s.field.map (·.generationId)) :
    s.byId gid ∈ s.field ∧ (s.byId gid).generationId = gid := by
  unfold byId
  cases hf : s.field.reverse.find? (·.generationId = gid) with
  | none =>
    obtain ⟨c, hc, rfl⟩ := mem_map.mp h
    have := find?_eq_none.mp hf c (by simpa using hc)
    simp at this
  | some c =>
    exact ⟨by simpa using mem_of_find?_eq_some hf, by simpa using find?_some hf⟩

/-- The leader is an id of the field other than the champion's. -/
theorem pickLeader_spec {s : Swiss F} {gid : String} (h : pickLeader fits s = some gid) :
    gid ≠ s.gate.champion.generationId ∧ gid ∈ s.field.map (·.generationId) := by
  have hdefault : ∀ {g}, (standingOrder fits s).find? (· ≠ s.gate.champion.generationId) = some g →
      g ≠ s.gate.champion.generationId ∧ g ∈ s.field.map (·.generationId) := by
    intro g hg
    exact ⟨by simpa using find?_some hg,
      (standingOrder_perm fits s).mem_iff.mp (mem_of_find?_eq_some hg)⟩
  simp only [pickLeader] at h
  split at h
  · exact hdefault h
  · split at h
    · exact hdefault h
    · split at h
      · cases h
        assumption
      · exact hdefault h

/-- With a challenger that is not the champion there is a leader. -/
theorem pickLeader_isSome {s : Swiss F} {c : Contestant} (hc : c ∈ s.field)
    (hne : c.generationId ≠ s.gate.champion.generationId) : (pickLeader fits s).isSome = true := by
  have hdefault : ((standingOrder fits s).find? (· ≠ s.gate.champion.generationId)).isSome = true := by
    rw [find?_isSome]
    exact ⟨c.generationId, (standingOrder_perm fits s).mem_iff.mpr (mem_map_of_mem hc),
      by simpa using hne⟩
  simp only [pickLeader]
  split
  · exact hdefault
  · split
    · exact hdefault
    · split
      · rfl
      · exact hdefault

/-- The stages that have begun: the open round counts. -/
def begun (s : Swiss F) (queue : List (Matchup F)) : Nat :=
  if queue.isEmpty then s.stageIndex else s.stageIndex + 1

/-- The Swiss rounds: `stages` are the pairings that have reported and `queue`
those in flight. -/
structure Rounds (roundsN : Nat) (stages : List (Duel F)) (queue : List (Matchup F))
    (s : Swiss F) : Prop where
  field_eq : s.field = s.gate.champion :: s.gate.challengers
  roundsN_eq : s.roundsN = roundsN
  pending : s.pending = pendingOf queue
  staged : Staged swissId (begun s queue) (scheduledMatchups stages queue)
  begun_le : begun s queue ≤ roundsN
  length_le : (scheduledMatchups stages queue).length ≤ begun s queue * s.field.length

/-- What holds in every reachable state.  A field in which every challenger
carries the champion's id ends without a crowning duel. -/
structure Inv (roundsN : Nat) (champion : Contestant) (field : List Contestant)
    (played : List (Duel F)) (queue : List (Matchup F)) (stages : List (Duel F)) (s : Swiss F) :
    Prop where
  champion_eq : s.gate.champion = champion
  challengers_eq : s.gate.challengers = field
  rounds : Rounds roundsN stages (if s.gate.finalScheduled then [] else queue) s
  leader : s.gate.finalScheduled = false → s.leader = none
  crowning : s.gate.Crowning finalMatchId s.leader played queue stages ∨
    (s.gate.finalScheduled = true ∧ s.leader = none ∧ queue = [] ∧ played = stages ∧
      ∀ c ∈ field, c.generationId = champion.generationId)

variable {champion : Contestant} {field : List Contestant} {played stages : List (Duel F)}
  {queue : List (Matchup F)} {s : Swiss F} {m : Matchup F} {r : MatchupResult F} {roundsN : Nat}

variable (params : SwissParams)

/-- The invariant holds of a seeded tournament. -/
theorem inv_seed (champion : Contestant) (field : List Contestant) :
    Inv (max 1 params.roundsN).toNat champion field [] [] []
      (seed params champion field : Swiss F) where
  champion_eq := rfl
  challengers_eq := rfl
  rounds :=
    { field_eq := rfl
      roundsN_eq := rfl
      pending := rfl
      staged := .nil
      begun_le := Nat.zero_le _
      length_le := Nat.zero_le _ }
  leader _ := rfl
  crowning := .inl (.staging _ _ rfl rfl)

/-- A scheduled round is the next one. -/
theorem Rounds.schedule (h : Rounds roundsN stages [] s) (hlt : s.stageIndex < roundsN) :
    Rounds roundsN stages (scheduleSwissRound fits s).1 (scheduleSwissRound fits s).2 := by
  have hstaged : Staged swissId s.stageIndex (stages.map Prod.fst) := by
    simpa [scheduledMatchups, begun] using h.staged
  have hcount : stages.length ≤ s.stageIndex * s.field.length := by
    simpa [scheduledMatchups, begun] using h.length_le
  have hpend : (scheduleSwissRound fits s).2.pending = pendingOf (scheduleSwissRound fits s).1 := by
    simp only [scheduleSwissRound, h.pending, pendingOf_nil]
    exact addPending_nil (pairSwiss_ids_nodup ..)
  have hbatch : (scheduleSwissRound fits s).1.length ≤ s.field.length := by
    simp only [scheduleSwissRound, length_pairSwiss, (standingOrder_perm fits s).length_eq,
      length_map]
    omega
  have hext := hstaged.extend (fun _ _ _ _ => swissId_inj) (nodup_range' ..)
    (pairSwiss_ids s.byId s.gate.replicates s.stageIndex 0 (standingOrder fits s))
  change Staged swissId (s.stageIndex + 1) (scheduledMatchups stages (scheduleSwissRound fits s).1)
    at hext
  by_cases hne : (scheduleSwissRound fits s).1 = []
  · -- a lone contestant has a bye and the round stays open
    refine ⟨h.field_eq, h.roundsN_eq, hpend, ?_, ?_, ?_⟩ <;> rw [hne]
    · exact h.staged
    · exact h.begun_le
    · exact h.length_le
  · have hbegun : begun (scheduleSwissRound fits s).2 (scheduleSwissRound fits s).1 =
        s.stageIndex + 1 := by
      rw [begun, isEmpty_eq_false_iff.mpr hne]
      rfl
    refine ⟨h.field_eq, h.roundsN_eq, hpend, ?_, ?_, ?_⟩ <;> rw [hbegun]
    · exact hext
    · omega
    · change _ ≤ (s.stageIndex + 1) * s.field.length
      rw [scheduledMatchups, length_append, length_map, Nat.add_mul, Nat.one_mul]
      omega

/-- A result of the round moves one pairing from the queue to the reported. -/
theorem Rounds.pairing (h : Rounds roundsN stages (m :: queue) s) :
    Rounds roundsN (stages ++ [(m, r)]) queue
      (recordPairing { s with pending := pendingOf queue } m.left m.right r) := by
  have hstaged : Staged swissId (s.stageIndex + 1)
      (scheduledMatchups (stages ++ [(m, r)]) queue) := by simpa [begun] using h.staged
  have hlen : (scheduledMatchups (stages ++ [(m, r)]) queue).length ≤
      (s.stageIndex + 1) * s.field.length := by simpa [begun] using h.length_le
  cases queue with
  | nil => exact ⟨h.field_eq, h.roundsN_eq, rfl, hstaged, h.begun_le, hlen⟩
  | cons m' queue => exact ⟨h.field_eq, h.roundsN_eq, rfl, hstaged, h.begun_le, hlen⟩

/-- Folding a pairing leaves the ending alone. -/
theorem recordPairing_gate (s : Swiss F) (left right : Contestant) (r : MatchupResult F) :
    (recordPairing s left right r).gate.champion = s.gate.champion ∧
      (recordPairing s left right r).gate.challengers = s.gate.challengers ∧
      (recordPairing s left right r).gate.finalScheduled = s.gate.finalScheduled ∧
      (recordPairing s left right r).gate.finalResult = s.gate.finalResult ∧
      (recordPairing s left right r).leader = s.leader := by
  simp only [recordPairing]
  split <;> exact ⟨rfl, rfl, rfl, rfl, rfl⟩

/-- The two ways `maybeFinal` can go on the first call. -/
theorem maybeFinal_cases (hs : s.gate.finalScheduled = false) :
    (pickLeader fits s = none ∧
      maybeFinal fits s = ([], { s with gate := { s.gate with finalScheduled := true } })) ∨
    ∃ gid, pickLeader fits s = some gid ∧
      maybeFinal fits s =
        ([{ matchupId := finalMatchId, left := s.gate.champion, right := s.byId gid,
            replicates := s.gate.replicates, stageIndex := s.stageIndex }],
          { s with
            leader := some (s.byId gid)
            gate := { s.gate with finalScheduled := true } }) := by
  cases hp : pickLeader fits s with
  | none => exact .inl ⟨rfl, by simp [maybeFinal, hs, hp]⟩
  | some gid => exact .inr ⟨gid, rfl, by simp [maybeFinal, hs, hp]⟩

omit [PyFloat F] in
/-- An unresolved run with nothing in flight is still in its rounds. -/
theorem Inv.staging (h : Inv roundsN champion field played [] stages s)
    (hr : s.resolved = false) :
    s.gate.finalScheduled = false ∧ s.gate.finalResult = none ∧ played = stages ∧
      Rounds roundsN stages [] s := by
  rcases h.crowning with hc | ⟨hs, hl, -⟩
  · cases hc with
    | staging _ _ hs hres => exact ⟨hs, hres, rfl, by simpa using h.rounds⟩
    | decided _ _ _ _ hres => simp [resolved, hres] at hr
  · simp [resolved, hs, hl] at hr

/-- Scheduling pairs the next round, or schedules the crowning duel after the
last one. -/
theorem Inv.next (h : Inv roundsN champion field played [] stages s) (hr : s.resolved = false) :
    Inv roundsN champion field played (nextMatchups fits s).1 stages (nextMatchups fits s).2 := by
  obtain ⟨hs, hres, rfl, hrounds⟩ := h.staging hr
  have hpend : s.pending = [] := hrounds.pending
  by_cases hlast : s.roundsN ≤ s.stageIndex
  · have hnext : nextMatchups fits s = maybeFinal fits s := by simp [nextMatchups, hpend, hlast]
    rw [hnext]
    rcases maybeFinal_cases fits hs with ⟨hp, hf⟩ | ⟨gid, hp, hf⟩ <;> rw [hf]
    · refine ⟨h.champion_eq, h.challengers_eq,
        ⟨hrounds.1, hrounds.2, hrounds.3, hrounds.4, hrounds.5, hrounds.6⟩, fun hf => ?_,
        .inr ⟨rfl, h.leader hs, rfl, rfl, fun c hc => ?_⟩⟩
      · cases hf
      · by_contra hne
        have := pickLeader_isSome fits (s := s) (c := c)
          (by rw [hrounds.field_eq, h.challengers_eq]; exact mem_cons_of_mem _ hc)
          (by rwa [h.champion_eq])
        rw [hp] at this
        cases this
    · obtain ⟨hne, hmem⟩ := pickLeader_spec fits hp
      obtain ⟨hfield, hgid⟩ := byId_spec s hmem
      rw [hrounds.field_eq] at hfield
      have hchal : s.byId gid ∈ s.gate.challengers := by
        rcases mem_cons.mp hfield with he | hmem'
        · rw [← hgid, he] at hne
          exact absurd rfl hne
        · exact hmem'
      refine ⟨h.champion_eq, h.challengers_eq,
        ⟨hrounds.1, hrounds.2, hrounds.3, hrounds.4, hrounds.5, hrounds.6⟩, fun hf => ?_,
        .inl (.scheduled _ _ rfl hres ⟨rfl, rfl, hchal⟩ rfl)⟩
      cases hf
  · have hnext : nextMatchups fits s = scheduleSwissRound fits s := by
      simp [nextMatchups, hpend, hlast]
    rw [hnext]
    have hs' : (scheduleSwissRound fits s).2.gate.finalScheduled = false := hs
    have hlt : s.stageIndex < roundsN := by
      rw [← hrounds.roundsN_eq]
      omega
    exact ⟨h.champion_eq, h.challengers_eq, by simpa [hs'] using hrounds.schedule fits hlt,
      fun _ => h.leader hs, .inl (.staging _ _ hs hres)⟩

/-- A result of the next duel keeps the invariant. -/
theorem Inv.record (h : Inv roundsN champion field played (m :: queue) stages s)
    (hr : r.Answers m) :
    ∃ stages', Inv roundsN champion field (played ++ [(m, r)]) queue stages'
      (recordResult s r) := by
  have hid := hr.1
  rcases h.crowning with hc | ⟨-, -, hq, -⟩
  · cases hc with
    | scheduled _ _ hs hres hm hf =>
      have hrec : recordResult s r =
          { logResult s r with gate := { (logResult s r).gate with finalResult := some r } } := by
        simp [recordResult, ChampionGate.captureFinalResult, logResult, tallyScalar, hs, hid,
          hm.matchupId]
      have hrounds : Rounds roundsN played [] s := by simpa [hs] using h.rounds
      rw [hrec]
      refine ⟨played, h.champion_eq, h.challengers_eq, ?_, h.leader,
        .inl (.decided _ m r hs rfl ⟨hm.1, hm.2, hm.3⟩ hf)⟩
      rw [ite_self]
      exact ⟨hrounds.1, hrounds.2, hrounds.3, hrounds.4, hrounds.5, hrounds.6⟩
    | staging _ _ hs hres =>
      have hrounds : Rounds roundsN played (m :: queue) s := by simpa [hs] using h.rounds
      have hlog : Rounds roundsN played (m :: queue) (logResult s r) :=
        ⟨hrounds.1, hrounds.2, hrounds.3, hrounds.4, hrounds.5, hrounds.6⟩
      have hrec : recordResult s r =
          recordPairing { logResult s r with pending := pendingOf queue } m.left m.right r := by
        simp [recordResult, ChampionGate.captureFinalResult, logResult, tallyScalar, hs, hid,
          hrounds.pending, Dict.pop, Matchup.sides]
      obtain ⟨hc, hcs, hfs, hfr, hld⟩ := recordPairing_gate
        { logResult s r with pending := pendingOf queue } m.left m.right r
      have hs' := hfs.trans hs
      rw [hrec]
      exact ⟨played ++ [(m, r)], hc.trans h.champion_eq, hcs.trans h.challengers_eq,
        by simpa [hs'] using hlog.pairing, fun _ => hld.trans (h.leader hs),
        .inl (.staging _ _ hs' (hfr.trans hres))⟩
  · cases hq

/-- The invariant of every reachable state. -/
theorem inv_reachable
    (h : (strategy fits params).Reachable (seed params champion field) played queue s) :
    ∃ stages, Inv (max 1 params.roundsN).toNat champion field played queue stages s := by
  refine h.invariant (fun played queue s => ∃ stages,
      Inv (max 1 params.roundsN).toNat champion field played queue stages s)
    ⟨[], inv_seed params champion field⟩ ?_ ?_
  · rintro played s ⟨stages, ih⟩ hr
    exact ⟨stages, ih.next fits hr⟩
  · rintro played m queue s r ⟨stages, ih⟩ hr
    exact ih.record hr

omit [PyFloat F] in
theorem Inv.played_le (h : Inv roundsN champion field played queue stages s) :
    played.length ≤ roundsN * (field.length + 1) + 1 := by
  have h1 : played.length ≤ stages.length + 1 := by
    rcases h.crowning with hc | ⟨-, -, -, rfl, -⟩
    · exact hc.length_le
    · omega
  have h2 := h.rounds.length_le
  have h3 := Nat.mul_le_mul_right s.field.length h.rounds.begun_le
  rw [scheduledMatchups, length_append, length_map] at h2
  rw [h.rounds.field_eq, h.challengers_eq, length_cons] at h2 h3
  omega

theorem played_le
    (h : (strategy fits params).Reachable (seed params champion field) played queue s) :
    played.length ≤ (max 1 params.roundsN).toNat * (field.length + 1) + 1 := by
  obtain ⟨stages, hinv⟩ := inv_reachable fits params h
  exact hinv.played_le

/-- Every run ends, whatever the runner measures. -/
theorem ends (champion : Contestant) (field : List Contestant)
    (run : Nat → Matchup F → ResultBody F) :
    ∃ played s, (strategy fits params).Stopped (seed params champion field) played s ∧
      (strategy fits params).Ends run (seed params champion field) played
        (Swiss.champion fits s) :=
  (strategy fits params).ends_of_bound run fun _ _ _ => played_le fits params

omit [PyFloat F] in
/-- No pairing id is the final id. -/
theorem Rounds.ne_final (h : Rounds roundsN stages queue s) :
    ∀ d ∈ stages, d.1.matchupId ≠ finalMatchId := by
  intro d hd he
  obtain ⟨k, j, -, hid⟩ := h.staged.stage d.1 (by
    simp only [scheduledMatchups, mem_append, mem_map]
    exact .inl ⟨d, hd, rfl⟩)
  have := congrArg (fun id => id.toList.head?) (hid.symm.trans he)
  simp [toList_swissId, finalMatchId] at this

/-- **No id repeats** in a Swiss run. -/
theorem ids_nodup
    (h : (strategy fits params).Reachable (seed params champion field) played queue s) :
    ((scheduledMatchups played queue).map (·.matchupId)).Nodup := by
  obtain ⟨stages, hinv⟩ := inv_reachable fits params h
  rcases hinv.crowning with hc | ⟨hs, -, rfl, rfl, -⟩
  · exact hc.ids_nodup hinv.rounds.staged.nodup hinv.rounds.ne_final
  · simpa [hs] using hinv.rounds.staged.nodup

/-- An unresolved tournament has a next duel. -/
theorem next_ne_nil {c : Contestant} (hc : c ∈ field) (hne : c.generationId ≠ champion.generationId)
    (h : (strategy fits params).Reachable (seed params champion field) played [] s)
    (hr : s.resolved = false) : (nextMatchups fits s).1 ≠ [] := by
  obtain ⟨stages, hinv⟩ := inv_reachable fits params h
  obtain ⟨hs, hres, rfl, hrounds⟩ := hinv.staging hr
  have hpend : s.pending = [] := hrounds.pending
  by_cases hlast : s.roundsN ≤ s.stageIndex
  · have hnext : nextMatchups fits s = maybeFinal fits s := by simp [nextMatchups, hpend, hlast]
    rw [hnext]
    rcases maybeFinal_cases fits hs with ⟨hp, -⟩ | ⟨gid, -, hf⟩
    · have := pickLeader_isSome fits (s := s) (c := c)
        (by rw [hrounds.field_eq, hinv.challengers_eq]; exact mem_cons_of_mem _ hc)
        (by rwa [hinv.champion_eq])
      rw [hp] at this
      cases this
    · simp [hf]
  · have hnext : nextMatchups fits s = scheduleSwissRound fits s := by
      simp [nextMatchups, hpend, hlast]
    rw [hnext]
    have hlen : 2 ≤ s.field.length := by
      rw [hrounds.field_eq, hinv.challengers_eq, length_cons]
      have := length_pos_of_mem hc
      omega
    refine ne_nil_of_length_pos ?_
    simp only [scheduleSwissRound, length_pairSwiss, (standingOrder_perm fits s).length_eq,
      length_map]
    omega

/-- **A stopped run is crowned** when some challenger is not the champion. -/
theorem crowned {c : Contestant} (hc : c ∈ field) (hne : c.generationId ≠ champion.generationId)
    (h : (strategy fits params).Stopped (seed params champion field) played s) :
    ∃ d, ChampionGate.Crowned finalMatchId champion field played (Swiss.champion fits s) d := by
  have hres : s.resolved = true := h.resolved fun _ _ => next_ne_nil fits params hc hne
  obtain ⟨stages, hinv⟩ := inv_reachable fits params h.1
  rcases hinv.crowning with hcr | ⟨-, -, -, -, hall⟩
  · have hsome : s.gate.finalResult.isSome = true := by
      rcases Bool.or_eq_true_iff.mp hres with hsome | hvac
      · exact hsome
      · cases hcr with
        | staging _ _ hs => simp [hs] at hvac
        | decided _ _ _ _ hr => simp [hr]
    have := hcr.crowned hsome hinv.rounds.ne_final
      s!"swiss leader did not clear the champion gate: {noFinalDetail s}" (standings fits s)
    rwa [hinv.champion_eq, hinv.challengers_eq] at this
  · exact absurd (hall c hc) hne

end Swiss
end Zicato
