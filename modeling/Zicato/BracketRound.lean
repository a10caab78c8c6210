import Mathlib.Data.List.Range
import Zicato.ChampionGate
import Zicato.Knockout
import Zicato.MatchupIds

/-! # What the structures share between rounds

`pairRound` is the loop of single elimination's `_schedule_round` and double
elimination's `_pair_round`.  The rest is what every field structure needs of a
batch: the pending map is exactly the queue of the driver, and the ids of the
stages so far carry a stage below the next one (`Staged`). -/
open List
namespace Zicato
open Knockout

variable {F : Type}

/-- The two sides of a matchup. -/
def Matchup.sides (m : Matchup F) : Contestant × Contestant := (m.left, m.right)

/-- The pending map of a batch. -/
def pendingOf (queue : List (Matchup F)) : Dict String (Contestant × Contestant) :=
  queue.map fun m => (m.matchupId, m.sides)

@[simp] theorem pendingOf_nil : pendingOf ([] : List (Matchup F)) = [] := rfl

@[simp] theorem pendingOf_cons (m : Matchup F) (queue : List (Matchup F)) :
    pendingOf (m :: queue) = (m.matchupId, m.sides) :: pendingOf queue := rfl

/-- The assignments `pending[mid] = (left, right)` of one batch. -/
def addPending (pending : Dict String (Contestant × Contestant)) (batch : List (Matchup F)) :
    Dict String (Contestant × Contestant) :=
  batch.foldl (fun d m => Dict.set d m.matchupId m.sides) pending

/-- Matchups with new ids join the pending ones in order. -/
theorem addPending_eq {pending : Dict String (Contestant × Contestant)} {batch : List (Matchup F)}
    (hn : (pending.keys ++ batch.map (·.matchupId)).Nodup) :
    addPending pending batch = pending ++ pendingOf batch := by
  induction batch generalizing pending with
  | nil => simp [addPending]
  | cons m batch ih =>
    have hm : m.matchupId ∉ pending.keys := fun h =>
      (nodup_append.mp hn).2.2 _ h m.matchupId (by simp) rfl
    have hset : Dict.set pending m.matchupId m.sides = pending ++ [(m.matchupId, m.sides)] :=
      Dict.set_append _ _ _ hm
    have hn' : (Dict.keys (pending ++ [(m.matchupId, m.sides)]) ++
        batch.map (·.matchupId)).Nodup := by
      simpa [Dict.keys] using hn
    change addPending (Dict.set pending m.matchupId m.sides) batch = _
    rw [hset, ih hn']
    simp

theorem addPending_nil {batch : List (Matchup F)} (hn : (batch.map (·.matchupId)).Nodup) :
    addPending [] batch = pendingOf batch := by
  have hkeys : (Dict.keys ([] : Dict String (Contestant × Contestant)) ++
      batch.map (·.matchupId)).Nodup := by simpa [Dict.keys] using hn
  simpa using addPending_eq hkeys

/-! ## Ids by stage -/

/-- The ids of `ms` are distinct and each names a stage below `below`. -/
structure Staged (mkId : Nat → Nat → String) (below : Nat) (ms : List (Matchup F)) : Prop where
  nodup : (ms.map (·.matchupId)).Nodup
  stage : ∀ m ∈ ms, ∃ k j, k < below ∧ m.matchupId = mkId k j

section Staged
variable {mkId : Nat → Nat → String} {below : Nat} {ms : List (Matchup F)}

theorem Staged.nil : Staged mkId below ([] : List (Matchup F)) := by constructor <;> simp

theorem Staged.mono {below' : Nat} (h : Staged mkId below ms) (hle : below ≤ below') :
    Staged mkId below' ms where
  nodup := h.nodup
  stage m hm := by
    obtain ⟨k, j, hk, hid⟩ := h.stage m hm
    exact ⟨k, j, by omega, hid⟩

/-- A batch whose slots are distinct opens the next stage. -/
theorem Staged.extend (hinj : ∀ a b a' b', mkId a b = mkId a' b' → a = a' ∧ b = b')
    (h : Staged mkId below ms) {batch : List (Matchup F)} {slots : List Nat} (hslots : slots.Nodup)
    (hids : batch.map (·.matchupId) = slots.map (mkId below)) :
    Staged mkId (below + 1) (ms ++ batch) := by
  have hbatch : ∀ m ∈ batch, ∃ j, m.matchupId = mkId below j := by
    intro m hm
    have : m.matchupId ∈ slots.map (mkId below) := hids ▸ mem_map_of_mem hm
    obtain ⟨j, -, hj⟩ := mem_map.mp this
    exact ⟨j, hj.symm⟩
  refine ⟨?_, ?_⟩
  · rw [map_append]
    refine nodup_append.mpr ⟨h.nodup, ?_, ?_⟩
    · rw [hids]
      exact hslots.map fun a b hab => (hinj _ _ _ _ hab).2
    · rintro id hold id' hnew rfl
      obtain ⟨m, hm, rfl⟩ := mem_map.mp hold
      obtain ⟨k, j, hk, hid⟩ := h.stage m hm
      obtain ⟨m', hm', hid'⟩ := mem_map.mp hnew
      obtain ⟨j', hj'⟩ := hbatch m' hm'
      have := (hinj _ _ _ _ (hid.symm.trans (hid'.symm.trans hj'))).1
      omega
  · intro m hm
    rcases mem_append.mp hm with hm | hm
    · obtain ⟨k, j, hk, hid⟩ := h.stage m hm
      exact ⟨k, j, by omega, hid⟩
    · obtain ⟨j, hj⟩ := hbatch m hm
      exact ⟨below, j, by omega, hj⟩

end Staged

/-! ## Pairing a round -/

/-- What one pass over the contestants of a round leaves. -/
structure PairedRound (F : Type) where
  matchups : List (Matchup F)
  /-- The contestants that enter the next round without a duel. -/
  byes : List Contestant
  byeRecords : List (MatchRecord F)

/-- The pairing loop from slot `slot` on: neighbours duel, an odd one out gets a
bye into the next round. -/
def pairRound (label : String) (replicates stage : Nat) :
    Nat → List Contestant → PairedRound F
  | slot, left :: right :: rest =>
      let tail := pairRound label replicates stage (slot + 1) rest
      let mid := bracketId label stage slot
      { tail with
        matchups :=
          { matchupId := mid, left := left, right := right, replicates := replicates,
            stageIndex := stage, bracketSlot := mid } :: tail.matchups }
  | slot, [bye] =>
      let mid := bracketId label stage slot
      { matchups := []
        byes := [bye]
        byeRecords := [{ matchId := mid, competitors := [bye.generationId],
                         winner := bye.generationId, bracketSlot := mid, bye := true }] }
  | _, [] => { matchups := [], byes := [], byeRecords := [] }

section PairRound
variable (label : String) (replicates stage : Nat)

variable (slot : Nat)

theorem pairRound_sides (l : List Contestant) :
    (pairRound (F := F) label replicates stage slot l).matchups.map Matchup.sides = pairs l := by
  fun_induction pairRound (F := F) label replicates stage slot l with
  | case1 slot left right rest tail mid ih => simpa [pairs, Matchup.sides] using ih
  | case2 => rfl
  | case3 => rfl

theorem pairRound_byes (l : List Contestant) :
    (pairRound (F := F) label replicates stage slot l).byes = leftOver l := by
  fun_induction pairRound (F := F) label replicates stage slot l with
  | case1 slot left right rest tail mid ih => simpa [leftOver] using ih
  | case2 => rfl
  | case3 => rfl

theorem pairRound_ids (l : List Contestant) :
    (pairRound (F := F) label replicates stage slot l).matchups.map (·.matchupId) =
      (List.range' slot (l.length / 2)).map (bracketId label stage) := by
  fun_induction pairRound (F := F) label replicates stage slot l with
  | case1 slot left right rest tail mid ih =>
    have hlen : (left :: right :: rest).length / 2 = rest.length / 2 + 1 := by
      simp only [length_cons]
      omega
    rw [hlen, range'_succ, map_cons, map_cons, ih]
  | case2 => simp
  | case3 => rfl

theorem pairRound_id_of_mem {slot : Nat} {l : List Contestant} {m : Matchup F}
    (hm : m ∈ (pairRound label replicates stage slot l).matchups) :
    ∃ j < slot + l.length / 2, m.matchupId = bracketId label stage j := by
  have hid := mem_map_of_mem (f := (·.matchupId)) hm
  rw [pairRound_ids] at hid
  obtain ⟨j, hj, hjid⟩ := mem_map.mp hid
  have := mem_range'_1.mp hj
  exact ⟨j, by omega, hjid.symm⟩

theorem pairRound_ids_nodup (l : List Contestant) :
    ((pairRound (F := F) label replicates stage slot l).matchups.map (·.matchupId)).Nodup := by
  rw [pairRound_ids]
  exact (nodup_range' ..).map fun a b hab => (bracketId_inj hab).2

theorem pairRound_ne_nil {l : List Contestant} (h : 1 < l.length) :
    (pairRound (F := F) label replicates stage slot l).matchups ≠ [] := by
  intro he
  have hlen := congrArg List.length (pairRound_ids (F := F) label replicates stage slot l)
  simp only [he, map_nil, length_nil, length_map, length_range'] at hlen
  omega

end PairRound

/-! ## Folding a node result -/

section Node
variable [PyFloat F]

/-- `winner = left if winner_id == left.generation_id else right`. -/
def nodeWinner (left right : Contestant) (r : MatchupResult F) : Contestant :=
  if r.lowerScalarId = left.generationId then left else right

/-- `loser = right if winner is left else left`. -/
def nodeLoser (left right : Contestant) (r : MatchupResult F) : Contestant :=
  if r.lowerScalarId = left.generationId then right else left

/-- The side of a node duel that did not win it. -/
def Duel.loser (d : Duel F) : Contestant := nodeLoser d.1.left d.1.right d.2

/-- The node duels a contestant lost, the crowning duel not counted. -/
def nodeLosses (finalMatchId : String) (played : List (Duel F)) (gid : String) : Nat :=
  ((ChampionGate.nodeDuels finalMatchId played).map fun d => d.loser.generationId).count gid

theorem node_sides (left right : Contestant) (r : MatchupResult F) :
    (nodeWinner left right r, nodeLoser left right r) = (left, right) ∨
      (nodeWinner left right r, nodeLoser left right r) = (right, left) := by
  unfold nodeWinner nodeLoser
  split
  · exact Or.inl rfl
  · exact Or.inr rfl

/-- `tally[key] = tally.get(key, 0) + 1`. -/
def increment (tally : Dict String Nat) (key : String) : Dict String Nat :=
  Dict.set tally key (Dict.getD tally key 0 + 1)

theorem getD_increment (tally : Dict String Nat) (key key' : String) :
    Dict.getD (increment tally key) key' 0 =
      Dict.getD tally key' 0 + if key = key' then 1 else 0 := by
  rw [increment, Dict.getD_set]
  split
  · subst key'
    rfl
  · rfl

/-- The record of a settled node match. -/
def nodeRecord (left right : Contestant) (r : MatchupResult F) : MatchRecord F where
  matchId := r.matchupId
  competitors := [left.generationId, right.generationId]
  winner := r.lowerScalarId
  decision := some r.outcome.decision
  deltaScalar := some r.outcome.deltaScalar
  bracketSlot := r.bracketSlot

end Node
end Zicato
