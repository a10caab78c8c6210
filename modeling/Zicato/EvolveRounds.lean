import Zicato.ResumeKeeps

/-! # What rounds write

`zicato/evolve`: the durable writes of a round in the order it makes them, from
the first slot of its field to the placebo duel after its settlement.  What a
model or a run answers is left open, and so is the generation the round starts
from.  A process runs one step after the other and may stop inside or between
any two; a restart then reconciles what it finds. -/
open List
namespace Zicato.Resume
open Receipt (ReceiptState HookState IndexState)

/-! ## Writing a generation -/

/-- `derive_generation`; `trees` are the states its tree goes through, none if the patch
set was refused. -/
def deriveGeneration (cfg : Config) (host : Host) (id : GenId) (trees : List String) :
    Step Unit := do
  Proc.each (pruneSource host) (if cfg.directory then [id] else [])
  Proc.each (fun id => Proc.write (.touchRecord id)) (if cfg.directory then [id] else [])
  Proc.each (fun tree => Proc.write (.putSource id tree)) trees

/-- The nodes with that of `row.id` replaced, or appended. -/
def Lineage.upsertRows (rows : List Row) (row : Row) : List Row :=
  if row.id ∈ rows.map Row.id then rows.map fun old => if old.id = row.id then row else old
  else rows ++ [row]

/-- An upsert keeps the ids distinct. -/
theorem Lineage.nodup_upsertRows {rows : List Row} (h : (rows.map Row.id).Nodup) (row : Row) :
    ((upsertRows rows row).map Row.id).Nodup := by
  unfold upsertRows
  split
  · have hids : (rows.map fun old => if old.id = row.id then row else old).map Row.id =
        rows.map Row.id := by
      rw [map_map]
      refine map_congr_left fun old _ => ?_
      simp only [Function.comp_apply]
      split
      · rename_i heq
        exact heq.symm
      · rfl
    rwa [hids]
  · rename_i hnot
    rw [map_append, nodup_append]
    refine ⟨h, nodup_singleton _, fun a ha b hb heq => hnot ?_⟩
    rw [← mem_singleton.mp hb, ← heq]
    exact ha

/-- A lineage with a row written. -/
def Lineage.upsert (lineage : Lineage) (row : Row) : Lineage where
  rows := upsertRows lineage.rows row
  nodup := nodup_upsertRows lineage.nodup row

/-- `append_to_lineage`. -/
def appendToLineage (row : Row) : Step Unit := do
  let lineage ← Proc.look fun w => .ok w.lineage
  Proc.write (.putLineage (lineage.upsert row))

/-- `write_experiment`: the patches first. -/
def writeExperiment (id : GenId) (e : Experiment) : Step Unit := do
  Proc.each (fun _ => Proc.write (.touchRecord id)) e.patches
  Proc.write (.putExperiment id e)

/-- `update_experiment_outcome`. -/
def updateExperimentOutcome (id : GenId) (decision : TournamentDecision) : Step Unit := do
  let existing ← Proc.look fun w => w.readExperiment id
  writeExperiment id { existing with outcome := some decision }

/-- A board unit of a generation is measured; its run directory is made inside the record
directory. -/
def measureUnit (id : GenId) : Step Unit := do
  if ← Proc.look fun w => .ok (w.hasRecord id) then Proc.write (.putLosses id) else pure ()

/-! ## Candidates of a round -/

/-- What a slot brought: the trees of its child, and the text of its experiment and node. -/
structure Proposal where
  trees : List String
  experimentId : String
  patches : List String
  experimentBody : String := ""
  nodeBody : String := ""

/-- The coordinates of a round. -/
structure Coordinates where
  round : Nat
  parent : GenId

variable (cfg : Config) (host : Host)

/-- The experiment a proposal becomes. -/
def Proposal.experiment (p : Proposal) (at_ : Coordinates) (id : GenId) : Experiment where
  id := p.experimentId
  generationId := id
  parentId := some at_.parent
  roundIndex := at_.round
  patches := p.patches
  body := p.experimentBody

/-- The node of a candidate. -/
def Proposal.row (p : Proposal) (at_ : Coordinates) (id : GenId) (promoted : Option Bool) : Row where
  id := id
  parentId := some at_.parent
  promoted := promoted
  roundIndex := some at_.round
  body := p.nodeBody

/-- The writes of `_mint_placebo_challenger`: the source, the pending node, the
experiment. -/
def mintPlaceboChallenger (at_ : Coordinates) (id : GenId) (p : Proposal) : Step Unit := do
  deriveGeneration cfg host id p.trees
  appendToLineage (p.row at_ id none)
  writeExperiment id (p.experiment at_ id)

/-- The writes of `_propose_and_apply_challenger`: the same, then the containment
manifest. -/
def applyChallenger (at_ : Coordinates) (id : GenId) (p : Proposal) : Step Unit := do
  mintPlaceboChallenger cfg host at_ id p
  Proc.write (.touchRecord id)

/-- `_persist_soft_reject`. -/
def persistSoftReject (at_ : Coordinates) (id : GenId) (p : Proposal) : Step Unit := do
  updateExperimentOutcome id .rejected
  appendToLineage (p.row at_ id (some false))

/-- The placebo duel of a one-challenger round: the mint, the measurements of `run_matchup`,
the outcome and the resolved node. -/
def placeboGauntlet (at_ : Coordinates) (base : Nat) (p : Proposal) (measured : List GenId)
    (decision : TournamentDecision) : Step Unit := do
  mintPlaceboChallenger cfg host at_ (.placebo base) p
  Proc.each measureUnit measured
  updateExperimentOutcome (.placebo base) decision
  appendToLineage (p.row at_ (.placebo base) (some false))

/-- `_rejected_proposer_experiment`: it names no round. -/
def rejectedProposerExperiment (parent id : GenId) : Experiment where
  id := s!"exp_{id.asStr}"
  generationId := id
  parentId := some parent
  body := "proposer exhausted retries without a valid patch set"

/-! ## Settlement -/

/-- `commit_field_settlement`. -/
def commitFieldSettlement (r : Nat) (intent : Settlement) : Step Unit := do
  Proc.look fun w => host.validate w r intent
  match ← Proc.look fun w => .ok (w.receiptAt r) with
  | some existing => do
      Proc.look fun w => host.validate w r existing
      Proc.lift (require (existing.candidates == intent.candidates && existing.body == intent.body)
        "field settlement receipt conflicts with the recorded decision")
      if existing.state = .pending ∨ existing.index = .pending then
        replayFieldSettlement host r existing
      else pure ()
  | none => do
      Proc.write (.putReceipt r intent)
      replayFieldSettlement host r intent

/-- The hook states that may follow one another. -/
def permittedHook : HookState → List HookState
  | .pending => [.notApplicable, .deliveryUnknown]
  | .deliveryUnknown => [.succeeded, .failed]
  | _ => []

/-- `record_promotion_hook_delivery`. -/
def recordPromotionHookDelivery (r : Nat) (state : HookState) : Step Unit := do
  match ← Proc.look fun w => .ok (w.receiptAt r) with
  | none => Proc.lift (.error "field settlement receipt is missing")
  | some recorded => do
      Proc.look fun w => host.validate w r recorded
      Proc.lift (require (recorded.state == .committed)
        "promotion-hook delivery does not match a committed settlement receipt")
      Proc.lift (require ((permittedHook recorded.hook).contains state)
        "invalid promotion-hook delivery transition")
      Proc.write (.putReceipt r { recorded with hook := state })

/-- One receipt of `acknowledge_repaired_settlement_indexes`. -/
def acknowledgeRepaired (r : Nat) : Step Unit := do
  match ← Proc.look fun w => .ok (w.receiptAt r) with
  | none => pure ()
  | some s =>
      if s.state = .committed ∧ s.index = .repairRequired then
        Proc.write (.putReceipt r { s with index := .repaired })
      else pure ()

/-! ## Processes -/

/-- A generation whose patches have been applied. -/
structure Applied where
  number : Nat
  experimentId : String
  deriving DecidableEq, Repr

/-- Where in a round a process is. -/
inductive Phase
  /-- Before a round; the plan of a restart is for the next one. -/
  | between (plan : Option (Nat × Experiment))
  /-- The slots from `offset` on are still to be proposed. -/
  | proposing (base offset : Nat) (applied : List Applied)
  /-- The experiment of an exhausted proposer is written, its outcome is not. -/
  | rejecting (n : Nat)
  | contesting (base : Nat) (applied : List Applied)
  /-- The round met an outage of its endpoint and is left without an outcome. -/
  | deferred
  /-- The receipt is committed. -/
  | settled (base : Nat)

/-- The round log is open. -/
def Phase.inRound : Phase → Bool
  | .proposing .. | .contesting .. | .settled .. => true
  | _ => false

/-- An invocation of the loop, as far as recovery depends on it. -/
structure Process where
  at_ : Coordinates
  phase : Phase
  /-- The placebo arms whose mint failed; the code keeps no note of them. -/
  lost : List Nat := []

/-- The process in the next round. -/
def Process.next (s : Process) (plan : Option (Nat × Experiment)) : Process :=
  { s with at_ := { s.at_ with round := s.at_.round + 1 }, phase := .between plan }

/-- The process in another phase of its round. -/
def Process.enters (s : Process) (phase : Phase) : Process := { s with phase := phase }

/-- The number of the first slot of a field. -/
def World.fieldBase (w : World) (plan : Option (Nat × Experiment)) : Nat :=
  match plan with
  | some (n, _) => if cfg.fieldSize = 1 then n else w.nextNumber
  | none => w.nextNumber

/-- The candidates of a receipt are the challengers of its field. -/
def Settlement.Settles (s : Settlement) (applied : List Applied) : Prop :=
  s.candidates.map (fun c => (c.generationId, c.experimentId)) =
    applied.map (fun a => (.v a.number, a.experimentId)) ∧
  s.state = .pending ∧ s.index = .pending

/-- The steps a process may take next. -/
inductive Can : Process → Step Process → Prop
  /-- `skip_round`. -/
  | skip {s plan} : s.phase = .between plan → Can s (pure (s.next none))
  /-- The index is rebuilt and its repairs are acknowledged. -/
  | acknowledge {s plan} (r : Nat) : s.phase = .between plan → Can s (do
      acknowledgeRepaired r
      pure s)
  /-- A rubric replacement that leaves the epoch as it is: the number is computed anew. -/
  | recount {s plan} : s.phase = .between plan → Can s (do
      let base ← Proc.look fun w => .ok w.epochRoundBase
      pure { s with at_ := { s.at_ with round := base } })
  | openRound {s plan} (parent : GenId) : s.phase = .between plan → Can s (do
      Proc.write (.putLog s.at_.round "round_opened")
      let base ← Proc.look fun w => .ok (w.fieldBase cfg plan)
      pure { s with at_ := { s.at_ with parent := parent }, phase := .proposing base 0 [] })
  /-- Any other event of the round log. -/
  | emit {s} (event : String) : s.phase.inRound = true → Can s (do
      Proc.write (.putLog s.at_.round event)
      pure s)
  | slotFails {s base offset applied} (trees : List String) :
      s.phase = .proposing base offset applied → offset < cfg.fieldSize → Can s (do
        deriveGeneration cfg host (.v (base + offset)) trees
        pure (s.enters (.proposing base (offset + 1) applied)))
  | slotApplies {s base offset applied} (p : Proposal) :
      s.phase = .proposing base offset applied → offset < cfg.fieldSize → Can s (do
        applyChallenger cfg host s.at_ (.v (base + offset)) p
        pure (s.enters (.proposing base (offset + 1)
          (applied ++ [⟨base + offset, p.experimentId⟩]))))
  /-- The slot repeats a sibling, so there is one. -/
  | slotSoftRejected {s base offset applied} (p : Proposal) :
      s.phase = .proposing base offset applied → offset < cfg.fieldSize → applied ≠ [] → Can s (do
        applyChallenger cfg host s.at_ (.v (base + offset)) p
        persistSoftReject s.at_ (.v (base + offset)) p
        pure (s.enters (.proposing base (offset + 1) applied)))
  /-- `_settle_field_that_produced_nothing`, three ways. -/
  | exhausted {s base offset} : s.phase = .proposing base offset [] → offset = cfg.fieldSize →
      cfg.fieldSize = 1 → Can s (do
        writeExperiment (.v base) (rejectedProposerExperiment s.at_.parent (.v base))
        pure (s.enters (.rejecting base)))
  | outage {s base offset} : s.phase = .proposing base offset [] → offset = cfg.fieldSize →
      Can s (do
        Proc.write (.putLog s.at_.round "decision_recorded")
        pure (s.enters .deferred))
  | nothing {s base offset} : s.phase = .proposing base offset [] → offset = cfg.fieldSize →
      Can s (do
        Proc.write (.putLog s.at_.round "decision_recorded")
        pure (s.next none))
  | reject {s n} : s.phase = .rejecting n → Can s (do
      updateExperimentOutcome (.v n) .rejected
      Proc.write (.putLog s.at_.round "decision_recorded")
      pure (s.next none))
  | contest {s base offset applied} : s.phase = .proposing base offset applied →
      offset = cfg.fieldSize → applied ≠ [] → Can s (pure (s.enters (.contesting base applied)))
  /-- `_append_placebo_arm`. -/
  | placeboArm {s base offset applied} (p : Proposal) :
      s.phase = .proposing base offset applied → offset = cfg.fieldSize → 1 < cfg.fieldSize →
      applied ≠ [] → Can s (do
        mintPlaceboChallenger cfg host s.at_ (.v (base + offset)) p
        pure (s.enters (.contesting base (applied ++ [⟨base + offset, p.experimentId⟩]))))
  /-- The mint of the arm fails after `k` writes, and the field is contested without it. -/
  | placeboArmFails {s base offset applied} (k : Nat) (p : Proposal) :
      s.phase = .proposing base offset applied → offset = cfg.fieldSize → 1 < cfg.fieldSize →
      applied ≠ [] → Can s (do
        Proc.bestEffort k (mintPlaceboChallenger cfg host s.at_ (.v (base + offset)) p)
        pure { s with phase := .contesting base applied, lost := (base + offset) :: s.lost })
  /-- The snapshot of the field is published. -/
  | publish {s base applied} (snapshot : String) : s.phase = .contesting base applied → Can s (do
      Proc.write (.putTournament (.v base) snapshot)
      pure s)
  | measure {s} (id : GenId) : s.phase.inRound = true → Can s (do
      measureUnit id
      pure s)
  | defer {s base applied} : s.phase = .contesting base applied → Can s (do
      Proc.write (.putLog s.at_.round "decision_recorded")
      pure (s.enters .deferred))
  | settle {s base applied} (receipt : Settlement) : s.phase = .contesting base applied →
      receipt.Settles applied → Can s (do
        commitFieldSettlement host s.at_.round receipt
        pure (s.enters (.settled base)))
  | deliver {s base} (state : HookState) : s.phase = .settled base → Can s (do
      recordPromotionHookDelivery host s.at_.round state
      pure s)
  /-- `_maybe_run_placebo_arm_gauntlet`; whatever fails in it does not stop the round. -/
  | placeboDuel {s base} (k : Nat) (p : Proposal) (measured : List GenId)
      (decision : TournamentDecision) : s.phase = .settled base → cfg.fieldSize = 1 → Can s (do
        Proc.bestEffort k (placeboGauntlet cfg host s.at_ base p measured decision)
        pure s)
  | close {s base} : s.phase = .settled base → Can s (pure (s.next none))
  /-- A deferred round is reconciled as a restart would do it. -/
  | reconcile {s} : s.phase = .deferred → Can s (do
      let plan ← prepareResume cfg host
      pure (s.next plan.resume))

/-- A workspace and the process that works on it, if one does. -/
structure State where
  world : World
  process : Option Process

/-- A process after the restart with this plan. -/
def startProcess (w : World) (plan : ResumePlan) : Process where
  at_ := { round := w.epochRoundBase, parent := .v 0 }
  phase := .between plan.resume

/-- What may happen.  `stops w s` says that process `s` may stop and leave workspace `w`, or
reconcile `w` as a restart would. -/
inductive Happens (stops : World → Process → Prop) : State → State → Prop
  | acts {w s s'} {p : Step Process} (host : Host) : Can cfg host s p → (p w).result = .ok s' →
      (s.phase = .deferred → stops w s) → Happens stops ⟨w, some s⟩ ⟨p.after w, some s'⟩
  /-- The process is cut after `k` writes of its step, or the step raised. -/
  | ends {w s} {p : Step Process} (host : Host) (k : Nat) : Can cfg host s p →
      (k < (p w).writes.length ∨ k = (p w).writes.length ∧ ∃ e, (p w).result = .error e) →
      (s.phase = .deferred → stops w s) → stops (((p w).writes.take k).foldl World.apply w) s →
      Happens stops ⟨w, some s⟩ ⟨((p w).writes.take k).foldl World.apply w, none⟩
  | restarts {w plan} (host : Host) : (prepareResume cfg host w).result = .ok plan →
      Happens stops ⟨w, none⟩
        ⟨(prepareResume cfg host).after w,
          some (startProcess ((prepareResume cfg host).after w) plan)⟩
  | restartEnds {w} (host : Host) (k : Nat) :
      Happens stops ⟨w, none⟩ ⟨((prepareResume cfg host w).writes.take k).foldl World.apply w, none⟩

/-- An epoch before its first round: the baseline is seeded. -/
structure Fresh (w : World) : Prop where
  rounds : w.rounds = []
  lineage : ∀ row ∈ w.lineage.rows, row.id = .v 0 ∧ row.promoted = some true
  records : ∀ id, w.hasRecord id = true → id = .v 0

/-- The states of an epoch. -/
inductive Reachable (stops : World → Process → Prop) : State → Prop
  | fresh {w} : Fresh w → Reachable stops ⟨w, none⟩
  | step {a b} : Reachable stops a → Happens cfg stops a b → Reachable stops b

end Zicato.Resume
