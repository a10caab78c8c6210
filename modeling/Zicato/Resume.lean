import Zicato.Registers

/-! # Reconciling an interrupted epoch

`zicato/runtime/resume.py`: what `prepare_resume` does before an `evolve` starts its
rounds.  Receipts are completed first; source that no register names is discarded,
then every pending field without a receipt; what is then left of the latest
generation is resumed or discarded. -/
namespace Zicato.Resume
open Receipt (ReceiptState HookState IndexState)

/-- What the frozen contract and the workspace configuration fix. -/
structure Config where
  /-- `_configured_field_size`. -/
  fieldSize : Nat
  /-- The directory backend, which keeps the source in the record directory. -/
  directory : Bool

/-- What the code does not decide: whether a receipt agrees with the rest of the
workspace, how an index refresh ends, and which files a removal unlinks first. -/
structure Host where
  /-- `validate_workspace_settlement`. -/
  validate : World → Nat → Settlement → Except String Unit := fun _ _ _ => .ok ()
  /-- An index refresh raises. -/
  ingestFails : Nat → Bool := fun _ => false
  /-- What a source tree goes through while it is removed. -/
  trees : GenId → List String := fun _ => []
  parts : GenId → List RecordPart := fun _ => []
  receiptFirst : Nat → Bool := fun _ => false

/-! ## Receipts -/

/-- The first half of `replay_field_settlement`: the decision becomes final. -/
def publishOutcomes (r : Nat) (intent : Settlement) : Step Settlement :=
  if intent.state = .committed then pure intent
  else do
    Proc.write (.putReceipt r { intent with state := .committed })
    pure { intent with state := .committed }

/-- The second half: the derived views are refreshed. -/
def refreshIndex (host : Host) (r : Nat) (receipt : Settlement) : Step Unit :=
  if receipt.index = .pending then
    Proc.write (.putReceipt r
      { receipt with index := if host.ingestFails r then .repairRequired else .succeeded })
  else pure ()

/-- `replay_field_settlement`. -/
def replayFieldSettlement (host : Host) (r : Nat) (intent : Settlement) : Step Unit := do
  Proc.look fun w => host.validate w r intent
  let receipt ← publishOutcomes r intent
  refreshIndex host r receipt

/-- A receipt that was not replayed to its end is; the receipt then on disk. -/
def recoverReplay (host : Host) (r : Nat) (stored : Settlement) : Step Settlement :=
  if stored.state = .pending ∨ stored.index = .pending then do
    replayFieldSettlement host r stored
    match ← Proc.look fun w => .ok (w.receiptAt r) with
    | none => Proc.lift (.error "replayed field settlement is missing")
    | some committed => pure committed
  else pure stored

/-- A hook that may have been fired is not fired again. -/
def recoverHook (r : Nat) (current : Settlement) : Step Unit :=
  if current.hook = .pending then
    Proc.write (.putReceipt r { current with hook := .deliveryUnknown })
  else pure ()

/-- One turn of `recover_field_settlements`. -/
def recoverRound (host : Host) (r : Nat) : Step Unit := do
  match ← Proc.look fun w => .ok (w.receiptAt r) with
  | none => pure ()
  | some stored => do
      Proc.look fun w => host.validate w r stored
      let current ← recoverReplay host r stored
      recoverHook r current

/-- `recover_field_settlements`. -/
def recoverFieldSettlements (host : Host) : Step Unit := do
  let rounds ← Proc.look fun w => .ok (w.receipts.map Prod.fst)
  Proc.each (recoverRound host) rounds

/-! ## Removing generations -/

/-- `store.prune_generations` of one generation. -/
def pruneSource (host : Host) (id : GenId) : Step Unit := do
  if ← Proc.look fun w => .ok (w.hasGeneration id) then do
    Proc.each (fun tree => Proc.write (.putSource id tree)) (host.trees id)
    Proc.write (.dropSource id)
  else pure ()

/-- `shutil.rmtree` of a record directory. -/
def rmtreeRecord (host : Host) (id : GenId) : Step Unit := do
  Proc.each (fun part => Proc.write (.dropPart id part)) (host.parts id)
  Proc.write (.dropRecord id)

/-- The record directory removed. -/
def removeRecord (host : Host) (id : GenId) : Step Unit := do
  if ← Proc.look fun w => .ok (w.hasGeneration id) then
    Proc.lift (.error s!"generation source cleanup failed for {id.asStr}")
  else if ← Proc.look fun w => .ok (w.hasRecord id) then rmtreeRecord host id
  else pure ()

/-- `_prune_generation_records`. -/
def pruneGenerationRecords (host : Host) (ids : List GenId) : Step Unit := do
  Proc.each (pruneSource host) ids
  Proc.each (removeRecord host) ids

/-- `shutil.rmtree` of a round directory. -/
def rmtreeRound (host : Host) (r : Nat) : Step Unit := do
  let files := if host.receiptFirst r then [.dropReceipt r, .dropLog r]
    else [.dropLog r, .dropReceipt r]
  Proc.each Proc.write files
  Proc.write (.dropRound r)

/-- The round directory removed. -/
def removeRound (host : Host) (r : Nat) : Step Unit := do
  if ← Proc.look fun w => .ok (Dict.get? w.rounds r).isSome then rmtreeRound host r
  else pure ()

/-- The nodes without those of the given ids. -/
def Lineage.without (lineage : Lineage) (ids : List GenId) : Lineage where
  rows := lineage.rows.filter fun row => row.id ∉ ids
  nodup := (List.filter_sublist.map Row.id).nodup lineage.nodup

/-- `discard_pending_generations`: the ids of the removed nodes. -/
def discardPendingGenerations (ids : List GenId) : Step (List GenId) := do
  let lineage ← Proc.look fun w => .ok w.lineage
  let named := lineage.rows.filter fun row => row.id ∈ ids
  Proc.lift (require (named.all fun row => row.promoted = none)
    "refusing to discard resolved lineage generations")
  if named = [] then pure [] else do
    Proc.write (.putLineage (lineage.without ids))
    pure (named.map Row.id)

/-- One field of `_discard_candidates`. -/
def discardField (host : Host) (field : Option Nat × List GenId) : Step Unit := do
  pruneGenerationRecords host field.2
  match field.1 with
  | none => pure ()
  | some r => do
      Proc.each (fun id => Proc.write (.dropTournament id)) field.2.head?.toList
      removeRound host r

/-- `_discard_candidates`: the nodes go last. -/
def discardCandidates (host : Host) (fields : List (Option Nat × List GenId))
    (lineaged : List GenId) : Step Unit := do
  Proc.each (discardField host) fields
  let removed ← discardPendingGenerations lineaged
  Proc.lift (require (lineaged.all fun id => id ∈ removed)
    "candidate cleanup could not remove every pending lineage node")

/-- `discard_interrupted_generation`. -/
def discardInterruptedGeneration (host : Host) (id : GenId) (roundIndex : Option Nat) :
    Step Unit := do
  let groups ← Proc.look World.pendingGroups
  match groups.filter fun group => id ∈ group.2 with
  | [] => discardCandidates host [(roundIndex, [id])] []
  | [((recorded, _), siblings)] => do
      Proc.lift (require (siblings.length == 1)
        "single-generation cleanup received an unresolved field")
      Proc.lift (require (roundIndex.all fun r => r == recorded)
        s!"generation '{id.asStr}' has conflicting round coordinates")
      discardCandidates host [(some recorded, [id])] [id]
  | _ => Proc.lift (.error s!"lineage contains duplicate generation id '{id.asStr}'")

/-! ## Unrecorded source and fields -/

/-- `_discard_unrecorded_source`. -/
def discardUnrecordedSource (host : Host) : Step (List GenId) := do
  let rows ← Proc.look World.loadLineage
  let unrecorded ← Proc.look fun w => .ok (w.source.keys.filter fun id =>
    id ≠ .v 0 ∧ id ∉ w.records.keys ∧ id ∉ rows.map Row.id)
  if unrecorded = [] then pure [] else do
    pruneGenerationRecords host unrecorded
    pure unrecorded

/-- A removal of the field has begun. -/
def World.cleanupStarted (w : World) (pending : List GenId) : Bool :=
  pending.any fun id => !w.hasGeneration id || !w.hasRecord id

/-- The field is left alone: it is one challenger that may resume, or a receipt
settled its round. -/
def World.spares (w : World) (cfg : Config) (group : FieldKey × List GenId) : Bool :=
  decide (cfg.fieldSize ≤ 1) && group.2.length == 1 && !w.cleanupStarted group.2 ||
    (w.receiptAt group.1.1).isSome

/-- The order of `sorted` on fields. -/
def fieldsLe (a b : Nat × List GenId) : Bool :=
  decide (a.1 < b.1) || a.1 == b.1 && decide (a.2.map GenId.asStr ≤ b.2.map GenId.asStr)

/-- `_unrecorded_fields_without_receipts`. -/
def World.unrecordedFieldsWithoutReceipts (w : World) (cfg : Config) :
    Except String (List (Nat × List GenId)) := do
  let groups ← w.pendingGroups
  pure (((groups.filter fun group => !w.spares cfg group).map fun group =>
    (group.1.1, group.2)).insertionSort fun a b => fieldsLe a b)

/-- `_discard_unrecorded_fields`. -/
def discardUnrecordedFields (cfg : Config) (host : Host) : Step (List GenId) := do
  let fields ← Proc.look fun w => w.unrecordedFieldsWithoutReceipts cfg
  if fields = [] then pure [] else do
    let discarded := fields.flatMap Prod.snd
    discardCandidates host (fields.map fun field => (some field.1, field.2)) discarded
    pure discarded

/-! ## The plan -/

/-- What a restart finds. -/
inductive Classification
  | clean
  | resumeTournament
  | discardPartialProposal
  | discardUnapplied
  | discardNoProgress
  | discardGarbled
  | discardUnrecordedField
  deriving DecidableEq, Repr

/-- `ResumePlan`; the generation to resume comes with its experiment. -/
structure ResumePlan where
  resume : Option (Nat × Experiment) := none
  discarded : Option GenId := none
  classification : Classification := .clean
  deriving DecidableEq, Repr

/-- `_matches_single_pending_lineage`. -/
def World.matchesSinglePendingLineage (w : World) (n : Nat) (e : Experiment) :
    Except String Bool :=
  if e.generationId = .v n then
    match e.parentId with
    | none => .ok false
    | some parent => do
        let groups ← w.pendingGroups
        pure (decide (Dict.get? groups (e.roundIndex, parent) = some [.v n]))
  else .ok false

/-- An interrupted round whose experiment reads: resumed, or discarded. -/
def resumeExperiment (host : Host) (n : Nat) (e : Experiment) : Step ResumePlan := do
  let w ← Proc.look fun w => .ok w
  if w.hasGeneration (.v n) = false then do
    discardInterruptedGeneration host (.v n) (some e.roundIndex)
    pure { discarded := some (.v n), classification := .discardUnapplied }
  else if (w.record (.v n)).losses = false then do
    discardInterruptedGeneration host (.v n) (some e.roundIndex)
    pure { discarded := some (.v n), classification := .discardNoProgress }
  else if ← Proc.look fun w => w.matchesSinglePendingLineage n e then
    pure { resume := some (n, e), classification := .resumeTournament }
  else do
    discardInterruptedGeneration host (.v n) none
    pure { discarded := some (.v n), classification := .discardGarbled }

/-- The latest generation, once receipts and fields are reconciled. -/
def resumeLatest (host : Host) (n : Nat) : Step ResumePlan := do
  match ← Proc.look fun w => .ok (w.readExperiment (.v n)).toOption with
  | none => do
      let record ← Proc.look fun w => .ok (w.record (.v n))
      discardInterruptedGeneration host (.v n) none
      pure { discarded := some (.v n)
             classification :=
               if record.experiment = .absent then .discardPartialProposal else .discardGarbled }
  | some e => if e.outcome.isSome then pure {} else resumeExperiment host n e

/-- `prepare_resume`. -/
def prepareResume (cfg : Config) (host : Host) : Step ResumePlan := do
  recoverFieldSettlements host
  let _ ← discardUnrecordedSource host
  let discarded ← discardUnrecordedFields cfg host
  match discarded with
  | id :: _ => pure { discarded := some id, classification := .discardUnrecordedField }
  | [] => do
      match ← Proc.look fun w => .ok w.latest with
      | none => pure {}
      | some n => if n = 0 then pure {} else resumeLatest host n

end Zicato.Resume
