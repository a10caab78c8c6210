import Mathlib.Data.Finset.Insert
import Zicato.SingleElim

/-! # Double elimination

`selection/experimental/double_elim.py`: a winners' bracket over the
challengers, a losers' bracket over its losers, then one duel of the champion
against the better survivor.  `_stage_index` counts the closed brackets and not
their rounds, so the rounds of one bracket all build their ids from the same
stage. -/
open List
namespace Zicato
open Knockout

/-- The phase machine: winners' bracket, losers' bracket, grand final. -/
inductive DoubleElimPhase
  | wb
  | lb
  | gf
  deriving DecidableEq, Repr

/-- The state of a seeded `DoubleEliminationStrategy`. -/
structure DoubleElim (F : Type) where
  gate : ChampionGate F
  eliminated : Finset String := ∅
  eliminatedRound : Dict String Nat := []
  phase : DoubleElimPhase := .wb
  stageIndex : Nat := 0
  roundMatches : List (MatchRecord F) := []
  wbRound : List Contestant
  wbPending : Dict String (Contestant × Contestant) := []
  wbSurvivor : Option Contestant := none
  /-- The losers of the winners' bracket, in the order they drop. -/
  wbLosers : List Contestant := []
  lbRound : List Contestant := []
  lbPending : Dict String (Contestant × Contestant) := []
  lbSurvivor : Option Contestant := none
  gfChallenger : Option Contestant := none

namespace DoubleElim
variable {F : Type} [PyFloat F] (fits : StandingsExt F)

/-- `_final_match_id`. -/
def finalMatchId : String := "GF"

/-- `DoubleElimination.seed`. -/
def seed (params : ElimParams) (champion : Contestant) (challengers : List Contestant) :
    DoubleElim F where
  gate :=
    { replicates := params.replicates, rating := params.rating, resolver := params.resolver
      champion := champion, challengers := challengers
      scalars := challengers.foldl
        (fun d c => Dict.setdefault d c.generationId PyFloat.zero) []
      losses := challengers.foldl (fun d c => Dict.setdefault d c.generationId 0) [] }
  wbRound := challengers

/-- `_flush_round`; an empty round leaves no record. -/
def flushRound (label : String) (s : DoubleElim F) : DoubleElim F :=
  let record := { stageIndex := s.stageIndex, label := label, contents := s.roundMatches }
  { s with
    gate := { s.gate with
      records := if s.roundMatches.isEmpty then s.gate.records else s.gate.records ++ [record] }
    roundMatches := []
    stageIndex := s.stageIndex + 1 }

/-- `_pair_round(self._wb_round, self._wb_pending, "WB")`. -/
def pairWb (s : DoubleElim F) : List (Matchup F) × DoubleElim F :=
  let round := pairRound "WB" s.gate.replicates s.stageIndex 0 s.wbRound
  (round.matchups,
    { s with
      wbRound := round.byes
      wbPending := addPending s.wbPending round.matchups
      roundMatches := s.roundMatches ++ round.byeRecords })

/-- `_pair_round(self._lb_round, self._lb_pending, "LB")`. -/
def pairLb (s : DoubleElim F) : List (Matchup F) × DoubleElim F :=
  let round := pairRound "LB" s.gate.replicates s.stageIndex 0 s.lbRound
  (round.matchups,
    { s with
      lbRound := round.byes
      lbPending := addPending s.lbPending round.matchups
      roundMatches := s.roundMatches ++ round.byeRecords })

/-- The better of the two survivors by scalar; the winners' bracket keeps a tie. -/
def betterSurvivor (s : DoubleElim F) (wbSurvivor : Contestant) : Contestant :=
  match s.lbSurvivor with
  | none => wbSurvivor
  | some lbSurvivor =>
      let wbScalar := Dict.getD s.gate.scalars wbSurvivor.generationId PyFloat.inf
      let lbScalar := Dict.getD s.gate.scalars lbSurvivor.generationId PyFloat.inf
      if PyFloat.lt lbScalar wbScalar then lbSurvivor else wbSurvivor

/-- The grand final. -/
def gfStep (s : DoubleElim F) : List (Matchup F) × DoubleElim F :=
  match s.gate.finalScheduled, s.wbSurvivor with
  | false, some wbSurvivor =>
      let challenger := s.gate.pickFinalist fits (betterSurvivor s wbSurvivor)
      ([{ matchupId := finalMatchId, left := s.gate.champion, right := challenger,
          replicates := s.gate.replicates, stageIndex := s.stageIndex, bracketSlot := "GF" }],
        { s with gfChallenger := some challenger, gate := { s.gate with finalScheduled := true } })
  | _, _ => ([], s)

/-- A round of the losers' bracket, or what follows it. -/
def lbStep (s : DoubleElim F) : List (Matchup F) × DoubleElim F :=
  if !s.lbPending.isEmpty then ([], s)
  else if s.lbRound.length ≤ 1 then
    gfStep fits { flushRound "Losers' bracket" { s with lbSurvivor := s.lbRound.head? } with
      phase := .gf }
  else pairLb s

/-- A round of the winners' bracket, or what follows it. -/
def wbStep (s : DoubleElim F) : List (Matchup F) × DoubleElim F :=
  if !s.wbPending.isEmpty then ([], s)
  else if s.wbRound.length ≤ 1 then
    lbStep fits { flushRound "Winners' bracket" { s with wbSurvivor := s.wbRound.head? } with
      phase := .lb
      lbRound := s.wbLosers }
  else pairWb s

/-- `next_matchups`. -/
def nextMatchups (s : DoubleElim F) : List (Matchup F) × DoubleElim F :=
  match s.phase with
  | .wb => wbStep fits s
  | .lb => lbStep fits s
  | .gf => gfStep fits s

/-- The part of `record_result` every result takes: the audit and the scalars. -/
def logResult (s : DoubleElim F) (r : MatchupResult F) : DoubleElim F :=
  { s with gate := { s.gate with
      audit := s.gate.audit ++ [r]
      scalars := (s.gate.scalars.set r.leftId r.leftScalar).set r.rightId r.rightScalar } }

/-- The part of `record_result` both brackets share. -/
def tallyNode (s : DoubleElim F) (left right : Contestant) (r : MatchupResult F) :
    DoubleElim F :=
  { s with
    gate := { s.gate with
      wins := increment s.gate.wins r.lowerScalarId
      losses := increment s.gate.losses (nodeLoser left right r).generationId }
    roundMatches := s.roundMatches ++ [nodeRecord left right r] }

/-- The loser drops to the losers' bracket. -/
def recordWb (s : DoubleElim F) (left right : Contestant) (r : MatchupResult F) : DoubleElim F :=
  let s := tallyNode s left right r
  { s with
    wbRound := s.wbRound ++ [nodeWinner left right r]
    wbLosers := s.wbLosers ++ [nodeLoser left right r] }

/-- The second loss eliminates. -/
def recordLb (s : DoubleElim F) (left right : Contestant) (r : MatchupResult F) : DoubleElim F :=
  let s := tallyNode s left right r
  let loser := nodeLoser left right r
  { s with
    lbRound := s.lbRound ++ [nodeWinner left right r]
    eliminated := insert loser.generationId s.eliminated
    eliminatedRound := s.eliminatedRound.set loser.generationId s.stageIndex }

/-- `record_result`. -/
def recordResult (s : DoubleElim F) (r : MatchupResult F) : DoubleElim F :=
  let s := logResult s r
  match s.gate.captureFinalResult finalMatchId r with
  | some gate => { s with gate := gate }
  | none =>
      if startswith r.matchupId "WB-" then
        match Dict.pop s.wbPending r.matchupId with
        | (none, _) => s
        | (some (left, right), rest) => recordWb { s with wbPending := rest } left right r
      else
        match Dict.pop s.lbPending r.matchupId with
        | (none, _) => s
        | (some (left, right), rest) => recordLb { s with lbPending := rest } left right r

/-- `resolved`. -/
def resolved (s : DoubleElim F) : Bool :=
  s.gate.finalResult.isSome || s.gate.challengers.isEmpty

/-- `_no_grand_final_detail`. -/
def noGrandFinalDetail (s : DoubleElim F) : String :=
  match s.gfChallenger with
  | none =>
      s!"the bracket nominated no grand finalist from " ++
        s!"{s.gate.challengers.length} challenger(s) over {s.gate.audit.length} duel(s)"
  | some challenger =>
      let measured :=
        match Dict.get? s.gate.scalars s.gate.champion.generationId,
          Dict.get? s.gate.scalars challenger.generationId with
        | some champ, some finalist =>
            s!" (champion {PyFloat.format6 champ} vs grand finalist {PyFloat.format6 finalist})"
        | _, _ => ""
      s!"the grand final against {challenger.generationId} reported no result{measured}"

/-- Who has left the tournament. -/
def isEliminated (s : DoubleElim F) (gid : String) : Bool := decide (gid ∈ s.eliminated)

/-- `champion`. -/
def champion (s : DoubleElim F) : SelectionDecision F :=
  s.gate.decision finalMatchId
    s!"no grand finalist cleared the champion gate: {noGrandFinalDetail s}"
    s.gfChallenger (s.gate.standings fits s.isEliminated)

/-- `DoubleEliminationStrategy`. -/
def strategy (params : ElimParams) : SelectionStrategy F where
  State := DoubleElim F
  seed c cs := .ok (seed params c cs)
  nextMatchups := nextMatchups fits
  recordResult := recordResult
  resolved := resolved
  champion := champion fits

/-! ## The invariant of a run -/

/-- The tallies after the winners' bracket duels `wb` and the losers' bracket
duels `lb`. -/
structure Nodes (wb lb : List (Duel F)) (s : DoubleElim F) : Prop where
  wbLosers : s.wbLosers = wb.map Duel.loser
  losses : ∀ gid, Dict.getD s.gate.losses gid 0 =
    ((wb ++ lb).map fun d => d.loser.generationId).count gid
  eliminated : ∀ gid, gid ∈ s.eliminated ↔ gid ∈ lb.map fun d => d.loser.generationId
  wbIds : ∀ d ∈ wb, ∃ j < s.gate.challengers.length / 2, d.1.matchupId = bracketId "WB" 0 j
  lbIds : ∀ d ∈ lb, ∃ k j, d.1.matchupId = bracketId "LB" k j

/-- The bracket in progress, with `queue` in flight. -/
inductive Brackets (wb lb : List (Duel F)) (s : DoubleElim F) : List (Matchup F) → Prop
  | winners (queue : List (Matchup F)) (hphase : s.phase = .wb) (hlb : lb = [])
      (hstage : s.stageIndex = 0)
      (hover : Bracket.Over s.gate.challengers
        ⟨s.wbRound, queue.map Matchup.sides, wb.map Duel.loser⟩)
      (hpend : s.wbPending = pendingOf queue) (hlbPend : s.lbPending = [])
      (hids : ∀ m ∈ queue, ∃ j < s.gate.challengers.length / 2,
        m.matchupId = bracketId "WB" 0 j) : Brackets wb lb s queue
  | losers (queue : List (Matchup F)) (w : Contestant) (hphase : s.phase = .lb)
      (hw : s.wbSurvivor = some w) (hperm : (w :: wb.map Duel.loser).Perm s.gate.challengers)
      (hover : Bracket.Over (wb.map Duel.loser)
        ⟨s.lbRound, queue.map Matchup.sides, lb.map Duel.loser⟩)
      (hpend : s.lbPending = pendingOf queue)
      (hids : ∀ m ∈ queue, ∃ k j, m.matchupId = bracketId "LB" k j) : Brackets wb lb s queue
  | closed (w : Contestant) (hphase : s.phase = .gf)
      (hperm : (w :: wb.map Duel.loser).Perm s.gate.challengers)
      (hover : Bracket.Over (wb.map Duel.loser) ⟨s.lbRound, [], lb.map Duel.loser⟩)
      (hlen : s.lbRound.length ≤ 1) : Brackets wb lb s []

/-- What holds in every reachable state: the winners' bracket, then the losers'
bracket, then the crowning duel. -/
structure Inv (champion : Contestant) (field : List Contestant) (played : List (Duel F))
    (queue : List (Matchup F)) (wb lb : List (Duel F)) (s : DoubleElim F) : Prop where
  champion_eq : s.gate.champion = champion
  challengers_eq : s.gate.challengers = field
  crowning : s.gate.Crowning finalMatchId s.gfChallenger played queue (wb ++ lb)
  nodes : Nodes wb lb s
  brackets : Brackets wb lb s (if s.gate.finalScheduled then [] else queue)
  phase : s.gate.finalScheduled = true ↔ s.phase = .gf

variable {champion : Contestant} {field : List Contestant} {played wb lb : List (Duel F)}
  {queue : List (Matchup F)} {s : DoubleElim F} {m : Matchup F} {r : MatchupResult F}

theorem getD_seeded_losses (ids : List Contestant) (d : Dict String Nat) (gid : String) :
    Dict.getD (ids.foldl (fun d c => Dict.setdefault d c.generationId 0) d) gid 0 =
      Dict.getD d gid 0 := by
  induction ids generalizing d with
  | nil => rfl
  | cons c ids ih => rw [foldl_cons, ih, Dict.getD_setdefault]

/-- The invariant holds of a seeded tournament. -/
theorem inv_seed (params : ElimParams) (champion : Contestant) (field : List Contestant) :
    Inv champion field [] [] [] [] (seed params champion field : DoubleElim F) where
  champion_eq := rfl
  challengers_eq := rfl
  crowning := .staging _ _ rfl rfl
  nodes :=
    { wbLosers := rfl
      losses := by
        intro gid
        simpa [seed, Dict.getD] using getD_seeded_losses field [] gid
      eliminated := by simp [seed]
      wbIds := by simp
      lbIds := by simp }
  brackets := .winners [] rfl rfl rfl (Bracket.over_start field) rfl rfl (by simp)
  phase := by simp [seed]

variable {w : Contestant}

theorem gfStep_eq (hs : s.gate.finalScheduled = false) (hw : s.wbSurvivor = some w) :
    gfStep fits s =
      ([{ matchupId := finalMatchId, left := s.gate.champion
          right := s.gate.pickFinalist fits (betterSurvivor s w),
          replicates := s.gate.replicates, stageIndex := s.stageIndex, bracketSlot := "GF" }],
        { s with
          gfChallenger := some (s.gate.pickFinalist fits (betterSurvivor s w))
          gate := { s.gate with finalScheduled := true } }) := by
  simp only [gfStep, hs, hw]

theorem betterSurvivor_eq_or (s : DoubleElim F) (w : Contestant) :
    betterSurvivor s w = w ∨ s.lbSurvivor = some (betterSurvivor s w) := by
  unfold betterSurvivor
  split
  · exact .inl rfl
  · rename_i l hl
    simp only
    split
    · exact .inr hl
    · exact .inl rfl

/-- From a losers' bracket between rounds: the next round, or the grand final. -/
theorem Inv.nextLb (h : Inv champion field played [] wb lb s) (hs : s.gate.finalScheduled = false)
    (hres : s.gate.finalResult = none) (hphase : s.phase = .lb) (hw : s.wbSurvivor = some w)
    (hperm : (w :: wb.map Duel.loser).Perm s.gate.challengers)
    (hover : Bracket.Over (wb.map Duel.loser) ⟨s.lbRound, [], lb.map Duel.loser⟩)
    (hpend : s.lbPending = []) :
    (lbStep fits s).1 ≠ [] ∧
      Inv champion field played (lbStep fits s).1 wb lb (lbStep fits s).2 := by
  have hcr : played = wb ++ lb := by
    cases h.crowning with
    | staging => rfl
    | decided _ _ _ hs' => simp [hs] at hs'
  by_cases hlen : s.lbRound.length ≤ 1
  · have hstep : lbStep fits s = gfStep fits { flushRound "Losers' bracket"
        { s with lbSurvivor := s.lbRound.head? } with phase := .gf } := by
      simp [lbStep, hpend, hlen]
    have hgf := gfStep_eq fits (s := { flushRound "Losers' bracket"
        { s with lbSurvivor := s.lbRound.head? } with phase := .gf }) hs hw
    rw [hstep, hgf]
    -- the nominee is one of the two survivors, so a challenger
    have hmem : betterSurvivor { flushRound "Losers' bracket"
        { s with lbSurvivor := s.lbRound.head? } with phase := .gf } w ∈ s.gate.challengers := by
      rcases betterSurvivor_eq_or { flushRound "Losers' bracket"
        { s with lbSurvivor := s.lbRound.head? } with phase := .gf } w with hb | hb
      · rw [hb]
        exact hperm.mem_iff.mp (by simp)
      · have hl := hover.mem_field (.inl (mem_of_mem_head? (Option.mem_def.mpr hb)))
        exact hperm.mem_iff.mp (mem_cons_of_mem _ hl)
    refine ⟨by simp, h.champion_eq, h.challengers_eq, ?_, ?_, ?_, by simp⟩
    · rw [hcr]
      exact .scheduled _ _ rfl hres ⟨rfl, rfl, ChampionGate.pickFinalist_mem _ _ hmem⟩ rfl
    · exact ⟨h.nodes.1, h.nodes.2, h.nodes.3, h.nodes.4, h.nodes.5⟩
    · exact .closed w rfl hperm hover hlen
  · have hstep : lbStep fits s = pairLb s := by simp [lbStep, hpend, hlen]
    rw [hstep]
    have hb : Brackets wb lb (pairLb s).2 (pairLb s).1 := by
      refine .losers _ w hphase hw hperm ?_ ?_ ?_
      · simpa only [pairLb, pairRound_sides, pairRound_byes] using hover.pairUp
      · simp only [pairLb, hpend]
        exact addPending_nil (pairRound_ids_nodup ..)
      · intro m hm
        obtain ⟨j, -, hj⟩ := pairRound_id_of_mem _ _ _ hm
        exact ⟨_, j, hj⟩
    have hs' : (pairLb s).2.gate.finalScheduled = false := hs
    refine ⟨pairRound_ne_nil "LB" _ _ 0 (by omega), h.champion_eq, h.challengers_eq, ?_,
      ⟨h.nodes.1, h.nodes.2, h.nodes.3, h.nodes.4, h.nodes.5⟩, by simpa [hs'] using hb, h.phase⟩
    rw [hcr]
    exact .staging _ _ hs hres

/-- Scheduling leads on through the brackets to the grand final. -/
theorem Inv.next (h : Inv champion field played [] wb lb s) (hr : s.resolved = false) :
    (nextMatchups fits s).1 ≠ [] ∧
      Inv champion field played (nextMatchups fits s).1 wb lb (nextMatchups fits s).2 := by
  obtain ⟨hres, hne⟩ : s.gate.finalResult = none ∧ s.gate.challengers ≠ [] := by
    simpa [resolved] using hr
  have hs : s.gate.finalScheduled = false := by
    cases h.crowning with
    | staging _ _ hs => exact hs
    | decided _ _ _ _ hres' => simp [hres] at hres'
  have hcr : played = wb ++ lb := by
    cases h.crowning with
    | staging => rfl
    | decided _ _ _ hs' => simp [hs] at hs'
  have hbr : Brackets wb lb s [] := by simpa using h.brackets
  cases hbr with
  | closed w hphase => simp [h.phase.mpr hphase] at hs
  | losers _ w hphase hw hperm hover hpend =>
    have hnext : nextMatchups fits s = lbStep fits s := by simp [nextMatchups, hphase]
    rw [hnext]
    exact h.nextLb fits hs hres hphase hw hperm hover hpend
  | winners _ hphase hlb hstage hover hpend hlbPend =>
    subst hlb
    by_cases hlen : s.wbRound.length ≤ 1
    · obtain ⟨w, hw, hperm⟩ := hover.finished hne hlen
      have hnext : nextMatchups fits s = lbStep fits { flushRound "Winners' bracket"
          { s with wbSurvivor := some w } with phase := .lb, lbRound := s.wbLosers } := by
        simp [nextMatchups, hphase, wbStep, hpend, hw]
      have hover' : Bracket.Over (wb.map Duel.loser) ⟨s.wbLosers, [],
          ([] : List (Duel F)).map Duel.loser⟩ := by
        rw [h.nodes.wbLosers]
        exact Bracket.over_start _
      rw [hnext]
      refine Inv.nextLb fits (w := w) ?_ hs hres rfl rfl hperm hover' hlbPend
      refine ⟨h.champion_eq, h.challengers_eq, ?_,
        ⟨h.nodes.1, h.nodes.2, h.nodes.3, h.nodes.4, h.nodes.5⟩, ?_, by simp [flushRound, hs]⟩
      · rw [hcr]
        exact .staging _ _ hs hres
      · rw [ite_self]
        exact .losers [] w rfl rfl hperm hover' hlbPend (by simp)
    · have hnext : nextMatchups fits s = pairWb s := by
        simp [nextMatchups, hphase, wbStep, hpend, hlen]
      rw [hnext]
      have hb : Brackets wb [] (pairWb s).2 (pairWb s).1 := by
        refine .winners _ hphase rfl hstage ?_ ?_ hlbPend ?_
        · simpa only [pairWb, pairRound_sides, pairRound_byes] using hover.pairUp
        · simp only [pairWb, hpend]
          exact addPending_nil (pairRound_ids_nodup ..)
        · intro m hm
          obtain ⟨j, hj, hid⟩ := pairRound_id_of_mem _ _ _ hm
          have hle : s.wbRound.length ≤ s.gate.challengers.length := by
            have := hover.length_eq
            omega
          rw [hstage] at hid
          exact ⟨j, by simp only [pairWb]; omega, hid⟩
      have hs' : (pairWb s).2.gate.finalScheduled = false := hs
      refine ⟨pairRound_ne_nil "WB" _ _ 0 (by omega), h.champion_eq, h.challengers_eq, ?_,
        ⟨h.nodes.1, h.nodes.2, h.nodes.3, h.nodes.4, h.nodes.5⟩, by simpa [hs'] using hb, h.phase⟩
      rw [hcr]
      exact .staging _ _ hs hres

/-- The tallies after one more winners' bracket result. -/
theorem Nodes.recordWb (h : Nodes wb [] s) (hid : ∃ j < s.gate.challengers.length / 2,
      m.matchupId = bracketId "WB" 0 j) :
    Nodes (wb ++ [(m, r)]) [] (DoubleElim.recordWb s m.left m.right r) := by
  refine ⟨?_, ?_, by simpa [DoubleElim.recordWb, tallyNode] using h.eliminated, ?_, by simp⟩
  · simp [DoubleElim.recordWb, tallyNode, h.wbLosers, Duel.loser]
  · intro gid
    simp only [DoubleElim.recordWb, tallyNode, getD_increment, h.losses gid, append_nil,
      map_append, count_append]
    simp [Duel.loser, count_singleton]
  · intro d hd
    rcases mem_append.mp hd with hd | hd
    · exact h.wbIds d hd
    · rw [mem_singleton.mp hd]
      exact hid

/-- The tallies after one more losers' bracket result. -/
theorem Nodes.recordLb (h : Nodes wb lb s) (hid : ∃ k j, m.matchupId = bracketId "LB" k j) :
    Nodes wb (lb ++ [(m, r)]) (DoubleElim.recordLb s m.left m.right r) := by
  refine ⟨h.wbLosers, ?_, ?_, h.wbIds, ?_⟩
  · intro gid
    rw [← List.append_assoc]
    simp only [DoubleElim.recordLb, tallyNode, getD_increment, h.losses gid,
      map_append, count_append]
    simp [Duel.loser, count_singleton]
  · intro gid
    simp only [DoubleElim.recordLb, tallyNode, Finset.mem_insert, h.eliminated gid,
      map_append, mem_append, map_singleton, mem_singleton, Duel.loser]
    exact Or.comm
  · intro d hd
    rcases mem_append.mp hd with hd | hd
    · exact h.lbIds d hd
    · rw [mem_singleton.mp hd]
      exact hid

theorem Nodes.logResult (h : Nodes wb lb s) (r : MatchupResult F) :
    Nodes wb lb (DoubleElim.logResult s r) := ⟨h.1, h.2, h.3, h.4, h.5⟩

/-- A winners' bracket result while its round runs. -/
theorem Inv.recordWb (h : Inv champion field played (m :: queue) wb [] s)
    (hs : s.gate.finalScheduled = false) (hres : s.gate.finalResult = none)
    (hphase : s.phase = .wb) (hstage : s.stageIndex = 0)
    (hover : Bracket.Over s.gate.challengers
      ⟨s.wbRound, (m :: queue).map Matchup.sides, wb.map Duel.loser⟩)
    (hlbPend : s.lbPending = []) (hids : ∀ m' ∈ m :: queue,
      ∃ j < s.gate.challengers.length / 2, m'.matchupId = bracketId "WB" 0 j) :
    Inv champion field (wb ++ [(m, r)]) queue (wb ++ [(m, r)]) []
      (DoubleElim.recordWb { s with wbPending := pendingOf queue } m.left m.right r) := by
  have hnodes : Nodes wb [] { s with wbPending := pendingOf queue } :=
    ⟨h.nodes.1, h.nodes.2, h.nodes.3, h.nodes.4, h.nodes.5⟩
  have hb : Brackets (wb ++ [(m, r)]) []
      (DoubleElim.recordWb { s with wbPending := pendingOf queue } m.left m.right r) queue := by
    refine .winners _ hphase rfl hstage ?_ rfl hlbPend
      fun m' hm' => hids m' (mem_cons_of_mem _ hm')
    rw [map_append]
    exact hover.play (node_sides m.left m.right r)
  have hs' : (DoubleElim.recordWb { s with wbPending := pendingOf queue } m.left m.right
      r).gate.finalScheduled = false := hs
  refine ⟨h.champion_eq, h.challengers_eq, ?_, hnodes.recordWb (hids m (by simp)),
    by simpa [hs'] using hb, h.phase⟩
  rw [append_nil]
  exact .staging _ _ hs hres

/-- A losers' bracket result while its round runs. -/
theorem Inv.recordLb (h : Inv champion field played (m :: queue) wb lb s)
    (hs : s.gate.finalScheduled = false) (hres : s.gate.finalResult = none) (hphase : s.phase = .lb)
    (hw : s.wbSurvivor = some w) (hperm : (w :: wb.map Duel.loser).Perm s.gate.challengers)
    (hover : Bracket.Over (wb.map Duel.loser)
      ⟨s.lbRound, (m :: queue).map Matchup.sides, lb.map Duel.loser⟩)
    (hids : ∀ m' ∈ m :: queue, ∃ k j, m'.matchupId = bracketId "LB" k j) :
    Inv champion field (wb ++ lb ++ [(m, r)]) queue wb (lb ++ [(m, r)])
      (DoubleElim.recordLb { s with lbPending := pendingOf queue } m.left m.right r) := by
  have hnodes : Nodes wb lb { s with lbPending := pendingOf queue } :=
    ⟨h.nodes.1, h.nodes.2, h.nodes.3, h.nodes.4, h.nodes.5⟩
  have hb : Brackets wb (lb ++ [(m, r)])
      (DoubleElim.recordLb { s with lbPending := pendingOf queue } m.left m.right r) queue := by
    refine .losers _ w hphase hw hperm ?_ rfl fun m' hm' => hids m' (mem_cons_of_mem _ hm')
    rw [map_append]
    exact hover.play (node_sides m.left m.right r)
  have hs' : (DoubleElim.recordLb { s with lbPending := pendingOf queue } m.left m.right
      r).gate.finalScheduled = false := hs
  refine ⟨h.champion_eq, h.challengers_eq, ?_, hnodes.recordLb (hids m (by simp)),
    by simpa [hs'] using hb, h.phase⟩
  rw [List.append_assoc]
  exact .staging _ _ hs hres

theorem Brackets.log (h : Brackets wb lb s queue) (r : MatchupResult F) :
    Brackets wb lb (logResult s r) queue := by
  cases h with
  | winners _ h1 h2 h3 h4 h5 h6 h7 => exact .winners _ h1 h2 h3 h4 h5 h6 h7
  | losers _ w h1 h2 h3 h4 h5 h6 => exact .losers _ w h1 h2 h3 h4 h5 h6
  | closed w h1 h2 h3 h4 => exact .closed w h1 h2 h3 h4

theorem Inv.log (h : Inv champion field played queue wb lb s) (r : MatchupResult F) :
    Inv champion field played queue wb lb (logResult s r) := by
  refine ⟨h.champion_eq, h.challengers_eq, ?_, h.nodes.logResult r, h.brackets.log r, h.phase⟩
  cases h.crowning with
  | staging _ _ hs hr => exact .staging _ _ hs hr
  | scheduled _ m hs hr hm hf => exact .scheduled _ m hs hr ⟨hm.1, hm.2, hm.3⟩ hf
  | decided _ m r' hs hr hm hf => exact .decided _ m r' hs hr ⟨hm.1, hm.2, hm.3⟩ hf

/-- A result of the next duel keeps the invariant. -/
theorem Inv.record (h : Inv champion field played (m :: queue) wb lb s) (hr : r.Answers m) :
    ∃ wb' lb', Inv champion field (played ++ [(m, r)]) queue wb' lb' (recordResult s r) := by
  have hid := hr.1
  cases h.crowning with
  | scheduled _ _ hs hres hm hf =>
    have hrec : recordResult s r =
        { logResult s r with gate := { (logResult s r).gate with finalResult := some r } } := by
      simp [recordResult, ChampionGate.captureFinalResult, logResult, hs, hid, hm.matchupId]
    rw [hrec]
    have hb : Brackets wb lb s [] := by simpa [hs] using h.brackets
    refine ⟨wb, lb, h.champion_eq, h.challengers_eq, .decided _ m r hs rfl ⟨hm.1, hm.2, hm.3⟩ hf,
      ⟨h.nodes.1, h.nodes.2, h.nodes.3, h.nodes.4, h.nodes.5⟩, ?_, h.phase⟩
    rw [ite_self]
    cases hb with
    | closed w hphase hperm hover hlen => exact .closed w hphase hperm hover hlen
    | winners _ hphase => simp [h.phase.mp hs] at hphase
    | losers _ _ hphase => simp [h.phase.mp hs] at hphase
  | staging _ _ hs hres =>
    have hfin : ChampionGate.captureFinalResult finalMatchId (logResult s r).gate r = none := by
      simp [ChampionGate.captureFinalResult, logResult, hs]
    have hlog := h.log r
    have hb : Brackets wb lb (logResult s r) (m :: queue) := by
      have hs' : (logResult s r).gate.finalScheduled = false := hs
      simpa [hs'] using hlog.brackets
    cases hb with
    | winners _ hphase hlb hstage hover hpend hlbPend hids =>
      subst hlb
      obtain ⟨j, hj, hmid⟩ := hids m (by simp)
      have hpop : Dict.pop (logResult s r).wbPending r.matchupId =
          (some (m.left, m.right), pendingOf queue) := by
        rw [hpend, hid]
        exact Dict.pop_head ..
      have hwb : startswith r.matchupId "WB-" = true := by rw [hid, hmid, startswith_wb]
      have hrec : recordResult s r =
          DoubleElim.recordWb { logResult s r with wbPending := pendingOf queue } m.left m.right r := by
        simp only [recordResult, hfin, hwb, if_true, hpop]
      rw [hrec, append_nil]
      exact ⟨_, _, hlog.recordWb hs hres hphase hstage hover hlbPend hids⟩
    | losers _ w hphase hw hperm hover hpend hids =>
      obtain ⟨k, j, hmid⟩ := hids m (by simp)
      have hpop : Dict.pop (logResult s r).lbPending r.matchupId =
          (some (m.left, m.right), pendingOf queue) := by
        rw [hpend, hid]
        exact Dict.pop_head ..
      have hlb : startswith r.matchupId "WB-" = false := by rw [hid, hmid, startswith_lb]
      have hrec : recordResult s r =
          DoubleElim.recordLb { logResult s r with lbPending := pendingOf queue } m.left m.right r := by
        simp only [recordResult, hfin, hlb, hpop]
        rfl
      rw [hrec]
      exact ⟨_, _, hlog.recordLb hs hres hphase hw hperm hover hids⟩

/-- The invariant of every reachable state. -/
theorem inv_reachable (params : ElimParams)
    (h : (strategy fits params).Reachable (seed params champion field) played queue s) :
    ∃ wb lb, Inv champion field played queue wb lb s := by
  refine h.invariant (fun played queue s => ∃ wb lb, Inv champion field played queue wb lb s)
    ⟨[], [], inv_seed params champion field⟩ ?_ ?_
  · rintro played s ⟨wb, lb, ih⟩ hr
    exact ⟨wb, lb, (ih.next fits hr).2⟩
  · rintro played m queue s r ⟨wb, lb, ih⟩ hr
    exact ih.record hr

/-- Two duels at most for each challenger. -/
theorem Brackets.length_le (h : Brackets wb lb s queue) :
    (wb ++ lb).length ≤ 2 * s.gate.challengers.length := by
  cases h with
  | winners _ _ hlb _ hover =>
    have := hover.length_eq
    simp only [hlb, append_nil, length_map] at this ⊢
    omega
  | losers _ w _ _ hperm hover | closed w _ hperm hover =>
    have h1 := hperm.length_eq
    have h2 := hover.length_eq
    simp only [length_cons, length_map, length_append] at h1 h2 ⊢
    omega

theorem played_le (params : ElimParams)
    (h : (strategy fits params).Reachable (seed params champion field) played queue s) :
    played.length ≤ 2 * field.length + 1 := by
  obtain ⟨wb, lb, hinv⟩ := inv_reachable fits params h
  have h1 := hinv.crowning.length_le
  have h2 := hinv.brackets.length_le
  rw [hinv.challengers_eq] at h2
  omega

/-- Every run ends, whatever the runner measures. -/
theorem ends (params : ElimParams) (champion : Contestant) (field : List Contestant)
    (run : Nat → Matchup F → ResultBody F) :
    ∃ played s, (strategy fits params).Stopped (seed params champion field) played s ∧
      (strategy fits params).Ends run (seed params champion field) played
        (DoubleElim.champion fits s) :=
  (strategy fits params).ends_of_bound run fun _ _ _ => played_le fits params

/-- No node id is the final id. -/
theorem Nodes.ne_final (h : Nodes wb lb s) :
    ∀ d ∈ wb ++ lb, d.1.matchupId ≠ finalMatchId := by
  intro d hd he
  rcases mem_append.mp hd with hd | hd
  · obtain ⟨j, -, hid⟩ := h.wbIds d hd
    have := congrArg (fun id => id.toList.head?) (hid.symm.trans he)
    simp [toList_bracketId, finalMatchId] at this
  · obtain ⟨k, j, hid⟩ := h.lbIds d hd
    have := congrArg (fun id => id.toList.head?) (hid.symm.trans he)
    simp [toList_bracketId, finalMatchId] at this

theorem next_ne_nil (params : ElimParams)
    (h : (strategy fits params).Reachable (seed params champion field) played [] s)
    (hr : s.resolved = false) : (nextMatchups fits s).1 ≠ [] := by
  obtain ⟨wb, lb, hinv⟩ := inv_reachable fits params h
  exact (hinv.next fits hr).1

section
variable (params : ElimParams) (hfield : field ≠ [])
  (h : (strategy fits params).Stopped (seed params champion field) played s)
include params hfield h

/-- A stopped run with a challenger has decided its grand final. -/
theorem finalResult_of_stopped : s.gate.finalResult.isSome = true:= by
  have hres : s.resolved = true := h.resolved fun _ _ => next_ne_nil fits params
  obtain ⟨wb, lb, hinv⟩ := inv_reachable fits params h.1
  simpa [resolved, hinv.challengers_eq, hfield] using hres

/-- **A stopped run is crowned** when there was a challenger at all. -/
theorem crowned :
    ∃ d, ChampionGate.Crowned finalMatchId champion field played (DoubleElim.champion fits s) d := by
  obtain ⟨wb, lb, hinv⟩ := inv_reachable fits params h.1
  have hcr := hinv.crowning.crowned (finalResult_of_stopped fits params hfield h)
    hinv.nodes.ne_final
    s!"no grand finalist cleared the champion gate: {noGrandFinalDetail s}"
    (s.gate.standings fits s.isEliminated)
  rwa [hinv.champion_eq, hinv.challengers_eq] at hcr

end

/-! ## Node losses -/

/-- The loser ids of the winners' bracket are distinct, those of the losers'
bracket too, and only a loser of the first can lose in the second. -/
theorem Brackets.losers_nodup (h : Brackets wb lb s queue)
    (hn : (s.gate.challengers.map (·.generationId)).Nodup) :
    (wb.map fun d => d.loser.generationId).Nodup ∧
      (lb.map fun d => d.loser.generationId).Nodup ∧
      (lb.map fun d => d.loser.generationId) ⊆ wb.map fun d => d.loser.generationId := by
  have hsecond : ∀ {w : Contestant} {live : List Contestant} {pending},
      (w :: wb.map Duel.loser).Perm s.gate.challengers →
      Bracket.Over (wb.map Duel.loser) ⟨live, pending, lb.map Duel.loser⟩ →
      (wb.map fun d => d.loser.generationId).Nodup ∧
        (lb.map fun d => d.loser.generationId).Nodup ∧
        (lb.map fun d => d.loser.generationId) ⊆ wb.map fun d => d.loser.generationId := by
    intro w live pending hperm hover
    have hids := hperm.map (·.generationId)
    rw [map_cons, map_map] at hids
    have hwb := (nodup_cons.mp (hids.nodup_iff.mpr hn)).2
    have hmap := hover.map (·.generationId)
    rw [map_map, map_map] at hmap
    exact ⟨hwb, hmap.nodup_out hwb, fun gid hg => hmap.mem_field (.inr (.inr hg))⟩
  cases h with
  | winners _ _ hlb _ hover =>
    subst hlb
    have hmap := hover.map (·.generationId)
    simp only [map_map] at hmap
    exact ⟨hmap.nodup_out hn, by simp, by simp⟩
  | losers _ w _ _ hperm hover => exact hsecond hperm hover
  | closed w _ hperm hover => exact hsecond hperm hover

/-- **Eliminated exactly on the second node loss**, and nobody loses a third. -/
theorem eliminated_iff (params : ElimParams) (hn : (field.map (·.generationId)).Nodup)
    (h : (strategy fits params).Reachable (seed params champion field) played queue s)
    (gid : String) :
    (gid ∈ s.eliminated ↔ nodeLosses finalMatchId played gid = 2) ∧
      nodeLosses finalMatchId played gid ≤ 2 := by
  obtain ⟨wb, lb, hinv⟩ := inv_reachable fits params h
  have hstages := hinv.crowning.nodeDuels_eq hinv.nodes.ne_final
  obtain ⟨hwb, hlb, hsub⟩ := hinv.brackets.losers_nodup (by rwa [hinv.challengers_eq])
  rw [nodeLosses, hstages, map_append, count_append, hinv.nodes.eliminated gid]
  have h1 := nodup_iff_count_le_one.mp hwb gid
  have h2 := nodup_iff_count_le_one.mp hlb gid
  refine ⟨⟨fun hg => ?_, fun hg => ?_⟩, by omega⟩
  · rw [count_eq_one_of_mem hwb (hsub hg), count_eq_one_of_mem hlb hg]
  · exact count_pos_iff.mp (by omega)

omit [PyFloat F] in
/-- A pending pair of a bracket over `entrants`, seen through the ids. -/
theorem pair_in_play {entrants live out : List Contestant}
    (hover : Bracket.Over entrants ⟨live, queue.map Matchup.sides, out⟩)
    (hn : (entrants.map (·.generationId)).Nodup) (hm : m ∈ queue) :
    m.left.generationId ≠ m.right.generationId ∧ m.left ∈ entrants ∧ m.right ∈ entrants ∧
      m.left.generationId ∉ out.map (·.generationId) ∧
      m.right.generationId ∉ out.map (·.generationId) := by
  have hpair : m.sides ∈ queue.map Matchup.sides := mem_map_of_mem hm
  have hpair' : (m.left.generationId, m.right.generationId) ∈
      (queue.map Matchup.sides).map (Prod.map (·.generationId) (·.generationId)) :=
    mem_map.mpr ⟨m.sides, hpair, rfl⟩
  obtain ⟨h1, h2⟩ := mem_sides_of_mem hpair
  obtain ⟨h3, h4, h5⟩ := (hover.map (·.generationId)).pair_in_play hn hpair'
  exact ⟨h3, hover.mem_field (.inr (.inl h1)), hover.mem_field (.inr (.inl h2)), h4, h5⟩

/-- A pending duel has two sides that are still in play. -/
theorem Brackets.queue_in_play (h : Brackets wb lb s queue) (hnodes : Nodes wb lb s)
    (hn : (s.gate.challengers.map (·.generationId)).Nodup) (hm : m ∈ queue) :
    m.left.generationId ≠ m.right.generationId ∧ m.left ∈ s.gate.challengers ∧
      m.right ∈ s.gate.challengers ∧ m.left.generationId ∉ s.eliminated ∧
      m.right.generationId ∉ s.eliminated := by
  have hwb := (h.losers_nodup hn).1
  cases h with
  | winners _ _ hlb _ hover =>
    obtain ⟨h1, h2, h3, -, -⟩ := pair_in_play hover hn hm
    have hel : ∀ gid, gid ∉ s.eliminated := fun gid hg => by
      simpa [hlb] using (hnodes.eliminated gid).mp hg
    exact ⟨h1, h2, h3, hel _, hel _⟩
  | losers _ w _ _ hperm hover =>
    obtain ⟨h1, h2, h3, h4, h5⟩ := pair_in_play hover (by rwa [map_map]) hm
    rw [map_map] at h4 h5
    exact ⟨h1, hperm.mem_iff.mp (mem_cons_of_mem _ h2),
      hperm.mem_iff.mp (mem_cons_of_mem _ h3), fun hg => h4 ((hnodes.eliminated _).mp hg),
      fun hg => h5 ((hnodes.eliminated _).mp hg)⟩
  | closed => cases hm

/-- **A node duel in flight** is between two different challengers that are
both still in. -/
theorem queue_in_play (params : ElimParams) (hn : (field.map (·.generationId)).Nodup)
    (h : (strategy fits params).Reachable (seed params champion field) played queue s)
    (hm : m ∈ queue) (hnode : m.matchupId ≠ finalMatchId) :
    m.left.generationId ≠ m.right.generationId ∧ m.left ∈ field ∧ m.right ∈ field ∧
      m.left.generationId ∉ s.eliminated ∧ m.right.generationId ∉ s.eliminated := by
  obtain ⟨wb, lb, hinv⟩ := inv_reachable fits params h
  cases hinv.crowning with
  | staging _ _ hs =>
    have hb : Brackets wb lb s queue := by simpa [hs] using hinv.brackets
    rw [← hinv.challengers_eq] at hn ⊢
    exact hb.queue_in_play hinv.nodes hn hm
  | scheduled _ m' _ _ hm' =>
    rw [mem_singleton.mp hm] at hnode
    exact absurd hm'.matchupId hnode
  | decided => cases hm

/-- With both brackets closed, the field is the survivor of the winners'
bracket, the one of the losers' bracket if there was a loser, and the
eliminated. -/
theorem Brackets.closed_lengths (h : Brackets wb lb s queue) (hphase : s.phase = .gf) :
    ∃ w, (w :: wb.map Duel.loser).Perm s.gate.challengers ∧
      ((wb = [] ∧ lb = []) ∨
        ∃ l, (l :: lb.map Duel.loser).Perm (wb.map Duel.loser)) := by
  cases h with
  | winners _ hp => simp [hphase] at hp
  | losers _ _ hp => simp [hphase] at hp
  | closed w _ hperm hover hlen =>
    refine ⟨w, hperm, ?_⟩
    by_cases hwb : wb = []
    · subst hwb
      have := hover.length_eq
      simp only [map_nil, length_nil, length_map] at this
      exact .inl ⟨rfl, length_eq_zero_iff.mp (by omega)⟩
    · obtain ⟨l, -, hl⟩ := hover.finished (by simpa using hwb) hlen
      exact .inr ⟨l, hl⟩

/-- The node duels of a run whose grand final is scheduled. -/
theorem nodeDuels_length (params : ElimParams)
    (h : (strategy fits params).Reachable (seed params champion field) played queue s)
    (hs : s.gate.finalScheduled = true) :
    (ChampionGate.nodeDuels finalMatchId played).length = 2 * field.length - 3 := by
  obtain ⟨wb, lb, hinv⟩ := inv_reachable fits params h
  rw [hinv.crowning.nodeDuels_eq hinv.nodes.ne_final]
  obtain ⟨w, hperm, hcase⟩ := hinv.brackets.closed_lengths (hinv.phase.mp hs)
  have h1 := hperm.length_eq
  rw [hinv.challengers_eq, length_cons, length_map] at h1
  rcases hcase with ⟨rfl, rfl⟩ | ⟨l, hl⟩
  · simp at h1 ⊢
    omega
  · have h2 := hl.length_eq
    simp only [length_cons, length_map] at h2
    rw [length_append]
    omega

/-- The node losses of the two survivors and of the eliminated. -/
theorem Brackets.node_losses (h : Brackets wb lb s queue)
    (hn : (s.gate.challengers.map (·.generationId)).Nodup) {l : Contestant}
    (hw : (w :: wb.map Duel.loser).Perm s.gate.challengers)
    (hl : (l :: lb.map Duel.loser).Perm (wb.map Duel.loser)) :
    ((wb ++ lb).map fun d => d.loser.generationId).count w.generationId = 0 ∧
      ((wb ++ lb).map fun d => d.loser.generationId).count l.generationId = 1 ∧
      ∀ c ∈ lb.map Duel.loser,
        ((wb ++ lb).map fun d => d.loser.generationId).count c.generationId = 2 := by
  obtain ⟨hwb, hlb, hsub⟩ := h.losers_nodup hn
  have hwids := hw.map (·.generationId)
  have hlids := hl.map (·.generationId)
  simp only [map_cons, map_map] at hwids hlids
  have hwn : w.generationId ∉ wb.map fun d => d.loser.generationId :=
    (nodup_cons.mp (hwids.nodup_iff.mpr hn)).1
  have hln : l.generationId ∉ lb.map fun d => d.loser.generationId :=
    (nodup_cons.mp (hlids.nodup_iff.mpr hwb)).1
  have hlm : l.generationId ∈ wb.map fun d => d.loser.generationId :=
    hlids.mem_iff.mp (by simp)
  simp only [map_append, count_append]
  refine ⟨?_, ?_, fun c hc => ?_⟩
  · rw [count_eq_zero.mpr hwn, count_eq_zero.mpr fun hg => hwn (hsub hg)]
  · rw [count_eq_one_of_mem hwb hlm, count_eq_zero.mpr hln]
  · have hg : c.generationId ∈ lb.map fun d => d.loser.generationId := by
      obtain ⟨d, hd, rfl⟩ := mem_map.mp hc
      exact mem_map.mpr ⟨d, hd, rfl⟩
    rw [count_eq_one_of_mem hwb (hsub hg), count_eq_one_of_mem hlb hg]

/-- **Who reaches the grand final**: one challenger without a node loss, and one
with exactly one when there were two or more. -/
theorem survivors (params : ElimParams) (hn : (field.map (·.generationId)).Nodup)
    (h : (strategy fits params).Reachable (seed params champion field) played queue s)
    (hs : s.gate.finalScheduled = true) :
    field.countP (fun c => c.generationId ∉ s.eliminated) = min field.length 2 ∧
      field.countP (fun c => nodeLosses finalMatchId played c.generationId = 0) = 1 ∧
      field.countP (fun c => nodeLosses finalMatchId played c.generationId = 1) =
        if 2 ≤ field.length then 1 else 0 := by
  have hel : ∀ c : Contestant, (c.generationId ∉ s.eliminated ↔
      nodeLosses finalMatchId played c.generationId ≠ 2) := fun c =>
    not_congr (eliminated_iff fits params hn h c.generationId).1
  simp only [hel]
  obtain ⟨wb, lb, hinv⟩ := inv_reachable fits params h
  have hstages := hinv.crowning.nodeDuels_eq hinv.nodes.ne_final
  simp only [nodeLosses, hstages]
  obtain ⟨w, hperm, hcase⟩ := hinv.brackets.closed_lengths (hinv.phase.mp hs)
  rw [← hinv.challengers_eq] at hn ⊢
  rcases hcase with ⟨rfl, rfl⟩ | ⟨l, hl⟩
  · simp only [← hperm.countP_eq, ← hperm.length_eq]
    simp
  · obtain ⟨hw0, hl1, hlb2⟩ := hinv.brackets.node_losses hn hperm hl
    have hall : (w :: l :: lb.map Duel.loser).Perm s.gate.challengers := (hl.cons w).trans hperm
    simp only [← hall.countP_eq, ← hall.length_eq, countP_cons, hw0, hl1]
    have hrest : ∀ k ≠ 2, (lb.map Duel.loser).countP (fun c =>
        ((wb ++ lb).map fun d => d.loser.generationId).count c.generationId = k) = 0 := by
      intro k hk
      rw [countP_eq_zero]
      intro c hc
      rw [hlb2 c hc]
      simpa using hk.symm
    have hrest2 : (lb.map Duel.loser).countP (fun c =>
        ((wb ++ lb).map fun d => d.loser.generationId).count c.generationId ≠ 2) = 0 := by
      rw [countP_eq_zero]
      intro c hc
      rw [hlb2 c hc]
      simp
    rw [hrest 0 (by decide), hrest 1 (by decide), hrest2]
    simp

/-! ## Node ids -/

/-- Up to two challengers make at most one node. -/
theorem Brackets.length_le_one (h : Brackets wb lb s queue)
    (hfield : s.gate.challengers.length ≤ 2) :
    (scheduledMatchups (wb ++ lb) queue).length ≤ 1 := by
  have hlb : ∀ {w : Contestant} {q : List (Matchup F)},
      (w :: wb.map Duel.loser).Perm s.gate.challengers →
      Bracket.Over (wb.map Duel.loser) ⟨s.lbRound, q.map Matchup.sides, lb.map Duel.loser⟩ →
      (scheduledMatchups (wb ++ lb) q).length ≤ 1 := by
    intro w q hperm hover
    have h1 := hperm.length_eq
    have h2 := hover.length_eq
    simp only [length_cons, length_map] at h1 h2
    simp only [scheduledMatchups, length_append, length_map]
    rcases Nat.eq_zero_or_pos wb.length with h0 | h0
    · omega
    · have hq : q = [] := length_eq_zero_iff.mp (by omega)
      subst hq
      have hlive : s.lbRound ≠ [] := by
        simpa using hover.alive (by simpa using ne_nil_of_length_pos h0)
      have := length_pos_of_ne_nil hlive
      simp only [length_nil]
      omega
  cases h with
  | winners _ _ hl _ hover =>
    subst hl
    have h2 := hover.length_eq
    simp only [length_map] at h2
    simp only [scheduledMatchups, append_nil, length_append, length_map]
    by_cases hq : queue = []
    · subst hq
      by_cases hc : s.gate.challengers = []
      · simp [hc] at h2
        simp [h2.2]
      · have hlive : s.wbRound ≠ [] := by simpa using hover.alive hc
        have := length_pos_of_ne_nil hlive
        simp only [length_nil] at h2 ⊢
        omega
    · have := length_pos_of_ne_nil hq
      omega
  | losers _ w _ _ hperm hover => exact hlb hperm hover
  | closed w _ hperm hover => exact hlb hperm hover

/-- A run with at most two challengers repeats no id. -/
theorem ids_nodup (params : ElimParams) (hfield : field.length ≤ 2)
    (h : (strategy fits params).Reachable (seed params champion field) played queue s) :
    ((scheduledMatchups played queue).map (·.matchupId)).Nodup := by
  obtain ⟨wb, lb, hinv⟩ := inv_reachable fits params h
  refine hinv.crowning.ids_nodup ?_ hinv.nodes.ne_final
  exact ids_nodup_of_length_le_one (hinv.brackets.length_le_one (by rwa [hinv.challengers_eq]))

/-- **The winners' bracket repeats an id** in every run of three or more
challengers: its `n - 1` duels share the `n / 2` ids of stage 0. -/
theorem ids_not_nodup (params : ElimParams) (hfield : 3 ≤ field.length)
    (h : (strategy fits params).Stopped (seed params champion field) played s) :
    ¬ (played.map (·.1.matchupId)).Nodup := by
  intro hnd
  have hsome := finalResult_of_stopped fits params (ne_nil_of_length_pos (by omega)) h
  obtain ⟨wb, lb, hinv⟩ := inv_reachable fits params h.1
  obtain ⟨m, r, hplayed, -, -, -, -⟩ := hinv.crowning.of_finalResult
    (by simpa [Option.isSome_iff_ne_none] using hsome)
  have hs := hinv.crowning.finalScheduled hsome
  obtain ⟨w, hperm, -⟩ := hinv.brackets.closed_lengths (hinv.phase.mp hs)
  have hlen : wb.length + 1 = field.length := by
    simpa [hinv.challengers_eq] using hperm.length_eq
  have hwb : (wb.map (·.1.matchupId)).Nodup := by
    rw [hplayed, List.append_assoc, map_append] at hnd
    exact (nodup_append.mp hnd).1
  have hsub : wb.map (·.1.matchupId) ⊆ (List.range (field.length / 2)).map (bracketId "WB" 0) := by
    intro id hid
    obtain ⟨d, hd, rfl⟩ := mem_map.mp hid
    obtain ⟨j, hj, hjid⟩ := hinv.nodes.wbIds d hd
    rw [hinv.challengers_eq] at hj
    exact mem_map.mpr ⟨j, mem_range.mpr hj, hjid.symm⟩
  have hle := (hwb.subperm hsub).length_le
  simp only [length_map, length_range] at hle
  omega

end DoubleElim
end Zicato
