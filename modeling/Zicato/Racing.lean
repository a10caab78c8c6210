import Mathlib.Tactic.Positivity
import Zicato.BracketRound

/-! # Racing

`selection/strategies/racing.py`: every rung duels each challenger still alive
against the champion on a slice of the board, then cuts the field by rank; the
slice grows by the factor `eta` until it is the whole board or one challenger is
left.  The crowning duel runs the whole board. -/
open List
namespace Zicato

/-- The two accepted values of `slice_schedule`. -/
inductive SliceSchedule
  | pref
  | shuffledV1
  deriving DecidableEq, Repr

/-- The params racing reads, typed and range checked by the configuration. -/
structure RacingParams (F : Type) where
  replicates : Nat := 1
  eta : Int := 2
  boardFraction : F
  rung0BoardSize : Int := 0
  boardIds : List String := []
  sliceSchedule : SliceSchedule := .pref
  matchupBudgetSeconds : Option F := none
  finalRungBudgetSeconds : Option F := none
  noiseFloorDeltaStd : Option F := none

/-- The numeric and hashing code racing calls: SHA-256 of a UTF-8 text, the
deviation `delta_std · √(M/2)` of one entry-replicate and the minimum detectable
effect at a sample (`tournament/detectable_effect.py`). -/
structure RacingExt (F : Type) where
  sha256 : String → List UInt8
  unitSd : F → Nat → F
  minimumDetectableEffect : F → Nat → Option F

/-- The state of a seeded `RacingStrategy`. -/
structure Racing (F : Type) where
  gate : ChampionGate F
  eta : Nat
  boardFraction : F
  rung0BoardSize : Int
  boardIds : List String
  sliceBoardIds : List String
  matchupBudgetS : Option F
  finalBudgetS : Option F
  noiseDeltaStd : Option F
  rung : Nat := 0
  alive : List Contestant
  pending : Dict String (Contestant × Contestant) := []
  rungScalars : Dict String F := []
  /-- The champion's best scalar of the run, for the live view. -/
  championScalar : Option F := none
  eliminatedRound : Dict String Nat := []
  rungStarted : Bool := false
  survivor : Option Contestant := none

namespace Racing
variable {F : Type} [PyFloat F] (fits : StandingsExt F) (rext : RacingExt F)

/-- `_final_match_id`. -/
def finalMatchId : String := "racing-final"

/-- `_param_opt_float`: a non-positive value disables the setting. -/
def optFloat (x : Option F) : Option F :=
  x.bind fun v => if PyFloat.lt PyFloat.zero v then some v else none

/-- `<` on byte strings. -/
def bytesLt : List UInt8 → List UInt8 → Bool
  | [], [] => false
  | [], _ :: _ => true
  | _ :: _, [] => false
  | a :: as, b :: bs => thenLt (decide (a = b)) (decide (a < b)) (bytesLt as bs)

/-- `_shuffled_order`: a permutation of the unique ids that depends on them alone. -/
def shuffledOrder (boardIds : List String) : List String :=
  let uniqueIds := sorted (fun a b => decide (a < b)) boardIds.eraseDups
  let seedMaterial := "\x1e".intercalate uniqueIds
  let rank := fun entryId => rext.sha256 (seedMaterial ++ "\x1c" ++ entryId)
  sorted (fun a b => thenLt (decide (rank a = rank b)) (bytesLt (rank a) (rank b))
    (decide (a < b))) uniqueIds

/-- The state of a seeded race. -/
def seed (params : RacingParams F) (champion : Contestant) (challengers : List Contestant) :
    Racing F where
  gate :=
    { replicates := params.replicates, rating := none, resolver := none
      champion := champion, challengers := challengers }
  eta := (max 2 params.eta).toNat
  boardFraction := params.boardFraction
  rung0BoardSize := params.rung0BoardSize
  boardIds := params.boardIds
  sliceBoardIds :=
    match params.sliceSchedule with
    | .pref => params.boardIds
    | .shuffledV1 => shuffledOrder rext params.boardIds
  matchupBudgetS := optFloat params.matchupBudgetSeconds
  finalBudgetS := (optFloat params.finalRungBudgetSeconds).or
    (optFloat params.matchupBudgetSeconds)
  noiseDeltaStd := optFloat params.noiseFloorDeltaStd
  alive := challengers

/-! ## Board slices -/

/-- The entries of rung 0, at least one. -/
def baseSize (s : Racing F) : Int :=
  if 0 < s.rung0BoardSize then s.rung0BoardSize
  else max 1 (PyFloat.ceilMul s.boardIds.length s.boardFraction)

/-- How much of the board a rung plays. -/
def boardSizeAtRung (s : Racing F) (rung : Nat) : Nat :=
  if s.boardIds.length = 0 then 0
  else (min (s.boardIds.length : Int) (baseSize s * (s.eta : Int) ^ rung)).toNat

/-- The entries a rung plays. -/
def rungBoardSubset (s : Racing F) : Option (List String) :=
  if s.boardIds.isEmpty then none
  else some (s.sliceBoardIds.take (boardSizeAtRung s s.rung))

/-- The quotient of two list lengths, which a double represents closely enough
that it is at least 1 only when the lengths are equal. -/
def rungFraction (s : Racing F) : Rat :=
  if s.boardIds.length = 0 then 1
  else (boardSizeAtRung s s.rung : Rat) / (s.boardIds.length : Rat)

/-- Whether the rung plays the whole board, or one is left. -/
def isFinalRung (s : Racing F) : Bool :=
  decide (1 ≤ rungFraction s) || decide (s.alive.length ≤ 1)

/-- The gap a rung can tell from noise. -/
def rungDetectableGap (s : Racing F) : Option F :=
  match s.noiseDeltaStd with
  | none => none
  | some deltaStd =>
      let total := s.boardIds.length
      let size := boardSizeAtRung s s.rung
      if total = 0 ∨ size = 0 then none
      else rext.minimumDetectableEffect (rext.unitSd deltaStd total) (size * s.gate.replicates)

/-! ## Scheduling -/

/-- The duels of a rung from slot `slot` on. -/
def rungMatchups (s : Racing F) : Nat → List Contestant → List (Matchup F)
  | _, [] => []
  | slot, challenger :: rest =>
      { matchupId := rungId s.rung slot, left := s.gate.champion, right := challenger,
        boardSubset := rungBoardSubset s, replicates := s.gate.replicates, stageIndex := s.rung,
        matchupBudgetSeconds := s.matchupBudgetS } :: rungMatchups s (slot + 1) rest

/-- The duels of a rung. -/
def scheduleRung (s : Racing F) : List (Matchup F) × Racing F :=
  let matchups := rungMatchups s 0 s.alive
  (matchups,
    { s with rungScalars := [], pending := addPending s.pending matchups, rungStarted := true })

/-- `min(first :: rest, key=...)`: the first of the least. -/
def minBy {α : Type} (lt : α → α → Bool) (first : α) (rest : List α) : α :=
  rest.foldl (fun best c => if lt c best then c else best) first

/-- `_pick_survivor`. -/
def pickSurvivor (s : Racing F) : Option Contestant :=
  let key := fun (c : Contestant) =>
    (Dict.getD s.gate.scalars c.generationId PyFloat.inf, c.generationId)
  match s.alive with
  | [] => none
  | first :: rest => some (minBy (fun a b => scalarKeyLt (key a) (key b)) first rest)

/-- The crowning duel, once. -/
def maybeFinal (s : Racing F) : List (Matchup F) × Racing F :=
  match s.gate.finalScheduled, s.survivor with
  | false, some survivor =>
      ([{ matchupId := finalMatchId, left := s.gate.champion, right := survivor,
          boardSubset := none, replicates := s.gate.replicates, stageIndex := s.rung + 1,
          matchupBudgetSeconds := s.finalBudgetS }],
        { s with gate := { s.gate with finalScheduled := true } })
  | _, _ => ([], s)

/-- `next_matchups`. -/
def nextMatchups (s : Racing F) : List (Matchup F) × Racing F :=
  if !s.pending.isEmpty then ([], s)
  else if s.survivor.isSome then maybeFinal s
  else if s.alive.isEmpty then ([], s)
  else if isFinalRung s then maybeFinal { s with survivor := pickSurvivor s }
  else scheduleRung s

/-! ## Folding results -/

/-- The part of `record_result` every result takes: the challenger is the right
side, and the champion keeps its lowest scalar. -/
def logResult (s : Racing F) (r : MatchupResult F) : Racing F :=
  { s with
    gate := { s.gate with
      audit := s.gate.audit ++ [r]
      scalars := s.gate.scalars.set r.rightId r.rightScalar }
    championScalar :=
      if r.leftId = s.gate.champion.generationId then
        match s.championScalar with
        | none => some r.leftScalar
        | some old => if PyFloat.lt r.leftScalar old then some r.leftScalar else some old
      else s.championScalar }

/-- How many of `ranked` the rung keeps: the top `1/eta`, and after them those
the rung's sample cannot separate from the last of them. -/
def keepCount (s : Racing F) (ranked : List Contestant) : Nat :=
  let scalarOf := fun (c : Contestant) => Dict.getD s.rungScalars c.generationId PyFloat.inf
  let keepN := max 1 (ranked.length / s.eta)
  match rungDetectableGap rext s, ranked[keepN - 1]? with
  | some gap, some last =>
      keepN + ((ranked.drop keepN).takeWhile fun c =>
        !PyFloat.le gap (PyFloat.sub (scalarOf c) (scalarOf last))).length
  | _, _ => keepN

/-- Who survives a rung. -/
def applyCut (s : Racing F) : Racing F :=
  let key := fun (c : Contestant) =>
    (Dict.getD s.rungScalars c.generationId PyFloat.inf, c.generationId)
  let ranked := sorted (fun a b => scalarKeyLt (key a) (key b)) s.alive
  let keepN := keepCount rext s ranked
  let survivors := ranked.take keepN
  let cut := ranked.drop keepN
  let record : MatchRecord F :=
    { matchId := s!"rung{s.rung}", competitors := ranked.map (·.generationId)
      survivors := survivors.map (·.generationId), cut := cut.map (·.generationId)
      boardFraction := some (rungFraction s) }
  { s with
    eliminatedRound := cut.foldl (fun d c => Dict.set d c.generationId s.rung) s.eliminatedRound
    gate := { s.gate with
      records := s.gate.records ++
        [{ stageIndex := s.rung, label := s!"Rung {s.rung}", contents := [record] }] }
    alive := survivors
    rung := s.rung + 1
    rungStarted := false }

/-- The part of `record_result` that folds a duel of the rung. -/
def recordDuel (s : Racing F) (r : MatchupResult F) : Racing F :=
  let s := { s with rungScalars := s.rungScalars.set r.rightId r.rightScalar }
  if s.pending.isEmpty then applyCut rext s else s

/-- `record_result`. -/
def recordResult (s : Racing F) (r : MatchupResult F) : Racing F :=
  let s := logResult s r
  match s.gate.captureFinalResult finalMatchId r with
  | some gate => { s with gate := gate }
  | none =>
      match Dict.pop s.pending r.matchupId with
      | (none, _) => s
      | (some _, rest) => recordDuel rext { s with pending := rest } r

/-- `resolved`. -/
def resolved (s : Racing F) : Bool :=
  s.gate.finalResult.isSome || s.gate.challengers.isEmpty

/-- Who has been cut. -/
def isEliminated (s : Racing F) (gid : String) : Bool :=
  (Dict.get? s.eliminatedRound gid).isSome

/-- `champion`. -/
def champion (s : Racing F) : SelectionDecision F :=
  s.gate.decision finalMatchId "no racing survivor cleared the full-board champion gate"
    s.survivor (s.gate.standings fits s.isEliminated)

/-- `RacingStrategy`. -/
def strategy (params : RacingParams F) : SelectionStrategy F where
  State := Racing F
  seed c cs := .ok (seed rext params c cs)
  nextMatchups := nextMatchups
  recordResult := recordResult rext
  resolved := resolved
  champion := champion fits

/-! ## The rungs are bounded -/

theorem one_le_baseSize (s : Racing F) : 1 ≤ baseSize s := by
  unfold baseSize
  split
  · omega
  · exact le_max_left ..

/-- A rung whose slice is not the whole board comes before rung `total`: the
slice at least doubles from rung to rung. -/
theorem rung_lt_of_fraction (s : Racing F) (heta : 2 ≤ s.eta) (h : rungFraction s < 1) :
    s.rung < s.boardIds.length := by
  have htotal : s.boardIds.length ≠ 0 := by
    intro h0
    simp [rungFraction, h0] at h
  have hpos : (0 : Rat) < s.boardIds.length := by
    exact_mod_cast Nat.pos_of_ne_zero htotal
  have hsize : boardSizeAtRung s s.rung < s.boardIds.length := by
    rw [rungFraction, if_neg htotal, div_lt_one hpos] at h
    exact_mod_cast h
  rw [boardSizeAtRung, if_neg htotal] at hsize
  have hpow : (s.rung : Int) < (s.eta : Int) ^ s.rung := by
    exact_mod_cast Nat.lt_pow_self heta
  have hbase := one_le_baseSize s
  have hmul : (s.eta : Int) ^ s.rung ≤ baseSize s * (s.eta : Int) ^ s.rung := by
    have hnn : (0 : Int) ≤ (s.eta : Int) ^ s.rung := by positivity
    nlinarith
  omega

/-! ## The invariant of a run -/

section RungMatchups
variable (s : Racing F)

theorem rungMatchups_ids (slot : Nat) (l : List Contestant) :
    (rungMatchups s slot l).map (·.matchupId) =
      (List.range' slot l.length).map (rungId s.rung) := by
  induction l generalizing slot with
  | nil => rfl
  | cons c l ih => simp [rungMatchups, ih, range'_succ]

theorem rungMatchups_ids_nodup (slot : Nat) (l : List Contestant) :
    ((rungMatchups s slot l).map (·.matchupId)).Nodup := by
  rw [rungMatchups_ids]
  exact (nodup_range' ..).map fun a b hab => (rungId_inj hab).2

theorem length_rungMatchups (slot : Nat) (l : List Contestant) :
    (rungMatchups s slot l).length = l.length := by
  simpa using congrArg List.length (rungMatchups_ids s slot l)

end RungMatchups

omit [PyFloat F] in
/-- The least of a list is one of it. -/
theorem minBy_mem {α : Type} (lt : α → α → Bool) (first : α) (rest : List α) :
    minBy lt first rest ∈ first :: rest := by
  unfold minBy
  induction rest generalizing first with
  | nil => simp
  | cons c rest ih =>
    rw [foldl_cons]
    split
    · exact mem_cons_of_mem _ (ih c)
    · rcases mem_cons.mp (ih first) with he | hm
      · rw [he]
        exact mem_cons_self
      · exact mem_cons_of_mem _ (mem_cons_of_mem _ hm)

theorem pickSurvivor_spec {s : Racing F} (h : s.alive ≠ []) :
    ∃ c ∈ s.alive, pickSurvivor s = some c := by
  unfold pickSurvivor
  split
  · exact absurd ‹_› h
  · rename_i first rest he
    exact ⟨_, he ▸ minBy_mem _ first rest, rfl⟩

theorem one_le_keepCount (s : Racing F) (ranked : List Contestant) :
    1 ≤ keepCount rext s ranked := by
  simp only [keepCount]
  split <;> omega

/-- The cut keeps a nonempty part of the field. -/
theorem applyCut_alive (s : Racing F) :
    (∀ c ∈ (applyCut rext s).alive, c ∈ s.alive) ∧
      (applyCut rext s).alive.length ≤ s.alive.length ∧
      (s.alive ≠ [] → (applyCut rext s).alive ≠ []) := by
  simp only [applyCut]
  refine ⟨fun c hc => ?_, ?_, fun hne => ?_⟩
  · exact (mem_sorted _ _ c).mp (mem_of_mem_take hc)
  · rw [length_take, length_sorted]
    exact Nat.min_le_right ..
  · refine ne_nil_of_length_pos ?_
    rw [length_take, length_sorted]
    exact Nat.lt_min.mpr ⟨one_le_keepCount .., length_pos_of_ne_nil hne⟩

/-- The stages that have begun: the open rung counts. -/
def begun (s : Racing F) (queue : List (Matchup F)) : Nat :=
  if queue.isEmpty then s.rung else s.rung + 1

/-- The rungs: `stages` are the duels that have reported and `queue` those in
flight. -/
structure Rungs (total : Nat) (stages : List (Duel F)) (queue : List (Matchup F))
    (s : Racing F) : Prop where
  two_le_eta : 2 ≤ s.eta
  total_eq : s.boardIds.length = total
  pending : s.pending = pendingOf queue
  staged : Staged rungId (begun s queue) (scheduledMatchups stages queue)
  begun_le : begun s queue ≤ total
  length_le : (scheduledMatchups stages queue).length ≤ begun s queue * s.gate.challengers.length
  alive_sub : ∀ c ∈ s.alive, c ∈ s.gate.challengers
  alive_le : s.alive.length ≤ s.gate.challengers.length
  alive_ne : s.gate.challengers ≠ [] → s.alive ≠ []

/-- What holds in every reachable state: the rungs run until the slice is the
whole board or one challenger is left, and the crowning duel follows them. -/
structure Inv (total : Nat) (champion : Contestant) (field : List Contestant)
    (played : List (Duel F)) (queue : List (Matchup F)) (stages : List (Duel F)) (s : Racing F) :
    Prop where
  champion_eq : s.gate.champion = champion
  challengers_eq : s.gate.challengers = field
  crowning : s.gate.Crowning finalMatchId s.survivor played queue stages
  rungs : Rungs total stages (if s.gate.finalScheduled then [] else queue) s
  survivor : s.gate.finalScheduled = false → s.survivor = none

variable {champion : Contestant} {field : List Contestant} {played stages : List (Duel F)}
  {queue : List (Matchup F)} {s : Racing F} {m : Matchup F} {r : MatchupResult F} {total : Nat}

/-- The invariant holds of a seeded race. -/
theorem inv_seed (params : RacingParams F) (champion : Contestant) (field : List Contestant) :
    Inv params.boardIds.length champion field [] [] [] (seed rext params champion field) where
  champion_eq := rfl
  challengers_eq := rfl
  crowning := .staging _ _ rfl rfl
  rungs :=
    { two_le_eta := by simp [seed]
      total_eq := rfl
      pending := rfl
      staged := .nil
      begun_le := Nat.zero_le _
      length_le := Nat.zero_le _
      alive_sub := fun _ hc => hc
      alive_le := Nat.le_refl _
      alive_ne := id }
  survivor _ := rfl

/-- A scheduled rung is the next one. -/
theorem Rungs.schedule (h : Rungs total stages [] s) (hfin : isFinalRung s = false)
    (hne : s.alive ≠ []) : Rungs total stages (scheduleRung s).1 (scheduleRung s).2 := by
  have hlt : s.rung < s.boardIds.length := by
    refine rung_lt_of_fraction s h.two_le_eta ?_
    simp only [isFinalRung, Bool.or_eq_false_iff, decide_eq_false_iff_not, not_le] at hfin
    exact hfin.1
  have hbatch : (scheduleRung s).1.isEmpty = false := by
    refine isEmpty_eq_false_iff.mpr (ne_nil_of_length_pos ?_)
    rw [scheduleRung, length_rungMatchups]
    exact length_pos_of_ne_nil hne
  have hbegun : begun (scheduleRung s).2 (scheduleRung s).1 = s.rung + 1 := by
    rw [begun, hbatch]
    rfl
  have hstaged : Staged rungId s.rung (stages.map Prod.fst) := by
    simpa [scheduledMatchups, begun] using h.staged
  have hcount : stages.length ≤ s.rung * s.gate.challengers.length := by
    simpa [scheduledMatchups, begun] using h.length_le
  refine ⟨h.two_le_eta, h.total_eq, ?_, ?_, ?_, ?_, h.alive_sub, h.alive_le, h.alive_ne⟩
  · simp only [scheduleRung, h.pending, pendingOf_nil]
    exact addPending_nil (rungMatchups_ids_nodup ..)
  · rw [hbegun]
    exact hstaged.extend (fun _ _ _ _ => rungId_inj) (nodup_range' ..)
      (rungMatchups_ids s 0 s.alive)
  · rw [hbegun, ← h.total_eq]
    exact hlt
  · rw [hbegun, scheduledMatchups, length_append, length_map, Nat.add_mul, Nat.one_mul,
      scheduleRung, length_rungMatchups]
    have := h.alive_le
    change stages.length + s.alive.length ≤
      s.rung * s.gate.challengers.length + s.gate.challengers.length
    omega

/-- Scheduling runs the next rung, or schedules the crowning duel. -/
theorem Inv.next (h : Inv total champion field played [] stages s) (hr : s.resolved = false) :
    (nextMatchups s).1 ≠ [] ∧
      Inv total champion field played (nextMatchups s).1 stages (nextMatchups s).2 := by
  obtain ⟨hres, hfield⟩ : s.gate.finalResult = none ∧ s.gate.challengers ≠ [] := by
    simpa [resolved] using hr
  cases h.crowning with
  | decided _ _ _ _ hres' => simp [hres] at hres'
  | staging _ _ hs =>
    have hrungs : Rungs total played [] s := by simpa using h.rungs
    have hpend : s.pending = [] := hrungs.pending
    have hsurv := h.survivor hs
    have hne := hrungs.alive_ne hfield
    cases hfin : isFinalRung s with
    | true =>
      obtain ⟨c, hc, hpick⟩ := pickSurvivor_spec hne
      have hnext : nextMatchups s = maybeFinal { s with survivor := some c } := by
        simp [nextMatchups, hpend, hsurv, hne, hfin, hpick]
      have hfinal : maybeFinal { s with survivor := some c } =
          ([{ matchupId := finalMatchId, left := s.gate.champion, right := c,
              boardSubset := none, replicates := s.gate.replicates, stageIndex := s.rung + 1,
              matchupBudgetSeconds := s.finalBudgetS }],
            { s with survivor := some c, gate := { s.gate with finalScheduled := true } }) := by
        simp [maybeFinal, hs]
      rw [hnext, hfinal]
      refine ⟨by simp, h.champion_eq, h.challengers_eq,
        .scheduled _ _ rfl hres ⟨rfl, rfl, hrungs.alive_sub c hc⟩ rfl,
        ⟨hrungs.1, hrungs.2, hrungs.3, hrungs.4, hrungs.5, hrungs.6, hrungs.7, hrungs.8,
          hrungs.9⟩, fun hf => ?_⟩
      cases hf
    | false =>
      have hnext : nextMatchups s = scheduleRung s := by
        simp [nextMatchups, hpend, hsurv, hne, hfin]
      have hs' : (scheduleRung s).2.gate.finalScheduled = false := hs
      rw [hnext]
      refine ⟨?_, h.champion_eq, h.challengers_eq, .staging _ _ hs hres,
        by simpa [hs'] using hrungs.schedule hfin hne, fun _ => hsurv⟩
      refine ne_nil_of_length_pos ?_
      rw [scheduleRung, length_rungMatchups]
      exact length_pos_of_ne_nil hne

/-- A result of the rung moves one duel from the queue to the reported; the last
one cuts the field. -/
theorem Rungs.duel (h : Rungs total stages (m :: queue) s) :
    Rungs total (stages ++ [(m, r)]) queue
      (recordDuel rext { s with pending := pendingOf queue } r) := by
  have hstaged : Staged rungId (s.rung + 1) (scheduledMatchups (stages ++ [(m, r)]) queue) := by
    simpa [begun] using h.staged
  have hlen : (scheduledMatchups (stages ++ [(m, r)]) queue).length ≤
      (s.rung + 1) * s.gate.challengers.length := by simpa [begun] using h.length_le
  cases queue with
  | nil =>
    obtain ⟨h1, h2, h3⟩ := applyCut_alive rext
      { s with pending := [], rungScalars := s.rungScalars.set r.rightId r.rightScalar }
    exact ⟨h.two_le_eta, h.total_eq, rfl, hstaged, h.begun_le, hlen,
      fun c hc => h.alive_sub c (h1 c hc), h2.trans h.alive_le, fun hne => h3 (h.alive_ne hne)⟩
  | cons m' queue =>
    exact ⟨h.two_le_eta, h.total_eq, rfl, hstaged, h.begun_le, hlen, h.alive_sub, h.alive_le,
      h.alive_ne⟩

/-- Folding a duel leaves the ending alone. -/
theorem recordDuel_gate (s : Racing F) (r : MatchupResult F) :
    (recordDuel rext s r).gate.champion = s.gate.champion ∧
      (recordDuel rext s r).gate.challengers = s.gate.challengers ∧
      (recordDuel rext s r).gate.finalScheduled = s.gate.finalScheduled ∧
      (recordDuel rext s r).gate.finalResult = s.gate.finalResult ∧
      (recordDuel rext s r).survivor = s.survivor := by
  simp only [recordDuel]
  split <;> exact ⟨rfl, rfl, rfl, rfl, rfl⟩

/-- A result of the next duel keeps the invariant. -/
theorem Inv.record (h : Inv total champion field played (m :: queue) stages s)
    (hr : r.Answers m) :
    ∃ stages', Inv total champion field (played ++ [(m, r)]) queue stages'
      (recordResult rext s r) := by
  have hid := hr.1
  cases h.crowning with
  | scheduled _ _ hs hres hm hf =>
    have hrec : recordResult rext s r =
        { logResult s r with gate := { (logResult s r).gate with finalResult := some r } } := by
      simp [recordResult, ChampionGate.captureFinalResult, logResult, hs, hid, hm.matchupId]
    have hrungs : Rungs total played [] s := by simpa [hs] using h.rungs
    rw [hrec]
    refine ⟨played, h.champion_eq, h.challengers_eq,
      .decided _ m r hs rfl ⟨hm.1, hm.2, hm.3⟩ hf, ?_, h.survivor⟩
    rw [ite_self]
    exact ⟨hrungs.1, hrungs.2, hrungs.3, hrungs.4, hrungs.5, hrungs.6, hrungs.7, hrungs.8,
      hrungs.9⟩
  | staging _ _ hs hres =>
    have hrungs : Rungs total played (m :: queue) s := by simpa [hs] using h.rungs
    have hlog : Rungs total played (m :: queue) (logResult s r) :=
      ⟨hrungs.1, hrungs.2, hrungs.3, hrungs.4, hrungs.5, hrungs.6, hrungs.7, hrungs.8, hrungs.9⟩
    have hrec : recordResult rext s r =
        recordDuel rext { logResult s r with pending := pendingOf queue } r := by
      simp [recordResult, ChampionGate.captureFinalResult, logResult, hs, hid, hrungs.pending,
        Dict.pop]
    obtain ⟨hc, hcs, hfs, hfr, hsv⟩ := recordDuel_gate rext
      { logResult s r with pending := pendingOf queue } r
    have hs' := hfs.trans hs
    rw [hrec]
    exact ⟨played ++ [(m, r)], hc.trans h.champion_eq, hcs.trans h.challengers_eq,
      .staging _ _ hs' (hfr.trans hres), by simpa [hs'] using hlog.duel rext,
      fun _ => hsv.trans (h.survivor hs)⟩

section
variable (params : RacingParams F)
  (h : (strategy fits rext params).Reachable (seed rext params champion field) played queue s)
include params h

/-- The invariant of every reachable state. -/
theorem inv_reachable : ∃ stages, Inv params.boardIds.length champion field played queue stages s:= by
  refine h.invariant (fun played queue s => ∃ stages,
      Inv params.boardIds.length champion field played queue stages s)
    ⟨[], inv_seed rext params champion field⟩ ?_ ?_
  · rintro played s ⟨stages, ih⟩ hr
    exact ⟨stages, (ih.next hr).2⟩
  · rintro played m queue s r ⟨stages, ih⟩ hr
    exact ih.record rext hr

theorem played_le : played.length ≤ params.boardIds.length * field.length + 1:= by
  obtain ⟨stages, hinv⟩ := inv_reachable fits rext params h
  have h1 := hinv.crowning.length_le
  have h2 := hinv.rungs.length_le
  have h3 := Nat.mul_le_mul_right field.length hinv.rungs.begun_le
  rw [scheduledMatchups, length_append, length_map, hinv.challengers_eq] at h2
  omega

end

/-- Every run ends, whatever the runner measures. -/
theorem ends (params : RacingParams F) (champion : Contestant) (field : List Contestant)
    (run : Nat → Matchup F → ResultBody F) :
    ∃ played s, (strategy fits rext params).Stopped (seed rext params champion field) played s ∧
      (strategy fits rext params).Ends run (seed rext params champion field) played
        (Racing.champion fits s) :=
  (strategy fits rext params).ends_of_bound run fun _ _ _ => played_le fits rext params

omit [PyFloat F] in
/-- No rung id is the final id. -/
theorem Rungs.ne_final (h : Rungs total stages queue s) :
    ∀ d ∈ stages, d.1.matchupId ≠ finalMatchId := by
  intro d hd he
  obtain ⟨k, j, -, hid⟩ := h.staged.stage d.1 (by
    simp only [scheduledMatchups, mem_append, mem_map]
    exact Or.inl ⟨d, hd, rfl⟩)
  have := congrArg (fun id => id.toList.take 2) (hid.symm.trans he)
  simp [toList_rungId, finalMatchId] at this

/-- **No id repeats** in a race. -/
theorem ids_nodup (params : RacingParams F)
    (h : (strategy fits rext params).Reachable (seed rext params champion field) played queue s) :
    ((scheduledMatchups played queue).map (·.matchupId)).Nodup := by
  obtain ⟨stages, hinv⟩ := inv_reachable fits rext params h
  exact hinv.crowning.ids_nodup hinv.rungs.staged.nodup hinv.rungs.ne_final

theorem next_ne_nil (params : RacingParams F)
    (h : (strategy fits rext params).Reachable (seed rext params champion field) played [] s)
    (hr : s.resolved = false) : (nextMatchups s).1 ≠ [] := by
  obtain ⟨stages, hinv⟩ := inv_reachable fits rext params h
  exact (hinv.next hr).1

/-- **A stopped run is crowned** when there was a challenger at all. -/
theorem crowned (params : RacingParams F) (hfield : field ≠ [])
    (h : (strategy fits rext params).Stopped (seed rext params champion field) played s) :
    ∃ d, ChampionGate.Crowned finalMatchId champion field played (Racing.champion fits s) d := by
  have hres : s.resolved = true := h.resolved fun _ _ => next_ne_nil fits rext params
  obtain ⟨stages, hinv⟩ := inv_reachable fits rext params h.1
  have hsome : s.gate.finalResult.isSome = true := by
    simpa [resolved, hinv.challengers_eq, hfield] using hres
  have hcr := hinv.crowning.crowned hsome hinv.rungs.ne_final
    "no racing survivor cleared the full-board champion gate" (s.gate.standings fits s.isEliminated)
  rwa [hinv.champion_eq, hinv.challengers_eq] at hcr

end Racing
end Zicato
