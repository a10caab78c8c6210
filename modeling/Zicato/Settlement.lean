import Zicato.Durable
import Zicato.Receipt

/-! # Publishing and recovering settlements

`zicato/evolve/settlement_recovery.py`: the steps that write receipts, each a
`Proc` over the receipts of a workspace.  A write replaces one file atomically.
What the steps only read beside the receipts are the `Authorities`; what they
write beside them (the projection marker of an epoch, the index database) no
step reads, and only whether the index refresh raised is kept. -/
namespace Zicato.Receipt

variable {F O : Type}

/-! ## The workspace -/

/-- The receipts by epoch and round; a file is what `json.loads` makes of it.
Epoch ids are slugs, so each is one component of a path. -/
structure Store (F : Type) where
  receipts : Dict (String × Nat) (Except String (PyValue F)) := []
  nodup : receipts.keys.Nodup := by decide

/-- One `write_json`. -/
structure Write (F : Type) where
  epochId : String
  roundIndex : Nat
  body : Fields F

instance : Medium (Store F) (Write F) where
  apply store w :=
    { receipts := Dict.set store.receipts (w.epochId, w.roundIndex) (.ok (.dict w.body))
      nodup := Dict.nodup_keys_set store.nodup _ _ }

abbrev Step (F α : Type) := Proc (Store F) String α

structure Experiment (O : Type) where
  id : String
  epochId : String
  generationId : String
  roundIndex : Option Int
  outcome : Option O
  parentGenerationId : Option String

structure LineageGeneration where
  parentId : Option String
  createdAt : String
  roundIndex : Option Int

/-- The records a settlement is checked against. -/
structure Authorities (F O : Type) where
  readExperiment : String → String → Except String (Experiment O)
  /-- `read_field_tournament_record` by epoch and first challenger, none for an
  absent file; a committed round is the authority for its own record. -/
  readFieldTournamentRecord : Store F → String → String → Except String (Option (Fields F))
  /-- The generations of an epoch in the lineage. -/
  lineage : Except String (String → Option (String → Option LineageGeneration))

variable [PyFloat F] (rt : ReceiptCodec F O) (auth : Authorities F O)

/-- `field_settlement_intent_key`. -/
def fieldSettlementIntentKey (epochId : String) (roundIndex : Nat) : String :=
  s!"epochs/{epochId}/rounds/{roundIndex}/field_settlement.json"

/-- `read_settlement_receipt`. -/
def readSettlementReceipt (store : Store F) (epochId : String) (roundIndex : Nat) :
    Except String (Option (SettlementReceipt F)) :=
  match Dict.get? store.receipts (epochId, roundIndex) with
  | none => .ok none
  | some file =>
      match file >>= fun v => decodeSettlementReceipt rt v (some epochId) (some roundIndex) with
      | .ok r => .ok (some r)
      | .error e =>
          .error s!"field settlement receipt {fieldSettlementIntentKey epochId roundIndex}: {e}"

/-- The rounds of an epoch that have a receipt, in numeric order. -/
def Store.rounds (store : Store F) (epochId : String) : List Nat :=
  ((store.receipts.keys.filter fun key => key.1 = epochId).map Prod.snd).mergeSort
    fun a b => decide (a ≤ b)

def Store.epochs (store : Store F) : List String :=
  (store.receipts.keys.map Prod.fst).dedup.mergeSort fun a b => decide (a ≤ b)

/-- `_stored_receipt_locations`: of one epoch, or of all. -/
def storedReceiptLocations (store : Store F) (epochId : Option String) : List (String × Nat) :=
  match epochId with
  | some epochId => (store.rounds epochId).map fun n => (epochId, n)
  | none => store.epochs.flatMap fun epochId => (store.rounds epochId).map fun n => (epochId, n)

/-! ## Checking a settlement against the workspace -/

/-- The outcome of a candidate. -/
def candidateOutcome (candidate : SettlementCandidate F) : Except String O :=
  match candidate.outcome with
  | .dict fields => rt.outcomeFromDict fields
  | _ => .error "outcome payload must be a JSON object"

/-- One candidate against its experiment: the parent generation. -/
def checkExperiment (receipt : SettlementReceipt F)
    (pair : SettlementCandidate F × Experiment O) : Except String String := do
  let (candidate, experiment) := pair
  let generationId := candidate.generationId
  require (experiment.id == candidate.experimentId && experiment.epochId == receipt.epochId &&
      experiment.generationId == generationId &&
      experiment.roundIndex == some (receipt.roundIndex : Int))
    s!"field settlement candidate {rt.repr (.str generationId)} does not match its experiment"
  let outcome ← candidateOutcome rt candidate
  require (receipt.state != .pending ||
      experiment.outcome.all fun recorded => rt.sameOutcome recorded outcome)
    s!"field settlement candidate {rt.repr (.str generationId)} already has a different outcome"
  match experiment.parentGenerationId.filter (· ≠ "") with
  | some parentId => pure parentId
  | none =>
      .error s!"field settlement candidate {rt.repr (.str generationId)} has no parent generation"

/-- `validate_settlement_experiments`. -/
def validateSettlementExperiments (receipt : SettlementReceipt F)
    (experiments : List (Experiment O)) : Except String String := do
  require (experiments.length == receipt.candidates.length)
    "field settlement lacks candidate experiments"
  let parents ← (receipt.candidates.zip experiments).mapM (checkExperiment rt receipt)
  match parents.dedup with
  | [parentId] => do
      require (isNone receipt.fieldRecord ||
          str? (rowGet receipt.fieldRecord "champion_generation_id") == some parentId)
        "field settlement tournament record names a different incumbent"
      pure parentId
  | _ => .error "field settlement candidates do not share one parent generation"

/-- `_validate_existing_field_record`. -/
def validateExistingFieldRecord (existing : Option (Fields F)) (expected : PyValue F) :
    Except String Unit :=
  match expected, existing with
  | .none, _ => .ok ()
  | _, none => .ok ()
  | expected, some raw =>
      if str? (get raw "state") = some "settled" then
        require (PyValue.eq rt.intEq (.dict raw) expected)
          "existing settled field settlement tournament conflicts with its receipt"
      else if str? (get raw "state") = some "in_progress" then
        ["tournament_id", "epoch_id", "structure", "structure_params", "competitors",
          "champion_generation_id"].forM fun key =>
            require (PyValue.eq rt.intEq (get raw key) (rowGet expected key))
              s!"existing in-progress field tournament conflicts on {key} (field settlement tournament record)"
      else
        .error ("existing field settlement tournament has invalid state " ++
          rt.repr (get raw "state"))

/-- One candidate against the lineage. -/
def checkLineage (receipt : SettlementReceipt F) (parentId : String)
    (epoch : String → Option LineageGeneration) (candidate : SettlementCandidate F) :
    Except String Unit :=
  match epoch candidate.generationId with
  | none =>
      .error s!"lineage lacks settlement generation {rt.repr (.str candidate.generationId)}"
  | some generation => do
      require (generation.parentId == some parentId)
        s!"lineage generation {rt.repr (.str candidate.generationId)} conflicts on parent_id"
      require (generation.createdAt == candidate.createdAt)
        s!"lineage generation {rt.repr (.str candidate.generationId)} conflicts on created_at"
      require (generation.roundIndex == some (receipt.roundIndex : Int))
        s!"lineage generation {rt.repr (.str candidate.generationId)} conflicts on round_index"

/-- A pending promotion replaces its parent, or itself. -/
def checkCurrentGeneration (receipt : SettlementReceipt F) (parentId : String)
    (currentGeneration : Option String) : Except String Unit :=
  match receipt.primaryId with
  | none => .ok ()
  | some primary =>
      require (receipt.state != .pending ||
          currentGeneration.all fun current => current == parentId || current == primary)
        s!"field settlement cannot replace current_generation {rt.repr (optStr currentGeneration)}; expected {rt.repr (.str parentId)} or {rt.repr (.str primary)}"

/-- `validate_settlement_records`. -/
def validateSettlementRecords (receipt : SettlementReceipt F) (experiments : List (Experiment O))
    (lineage : String → Option (String → Option LineageGeneration))
    (fieldRecord : Option (Fields F)) (currentGeneration : Option String) :
    Except String String := do
  let parentId ← validateSettlementExperiments rt receipt experiments
  validateExistingFieldRecord rt fieldRecord receipt.fieldRecord
  match lineage receipt.epochId with
  | none => .error s!"lineage lacks epoch {rt.repr (.str receipt.epochId)}"
  | some epoch => do
      receipt.candidates.forM (checkLineage rt receipt parentId epoch)
      checkCurrentGeneration rt receipt parentId currentGeneration
      pure parentId

/-- The champion before a round: the last primary promotion of a committed
earlier receipt. -/
def priorChampion (store : Store F) (receipt : SettlementReceipt F) :
    List (String × Nat) → Option String → Except String (Option String)
  | [], marker => .ok marker
  | key :: rest, marker => do
      match ← readSettlementReceipt rt store key.1 key.2 with
      | none => priorChampion store receipt rest marker
      | some prior =>
          if prior.roundIndex ≥ receipt.roundIndex then pure marker
          else if prior.state = .committed ∧ prior.primaryId.isSome = true then
            priorChampion store receipt rest prior.primaryId
          else priorChampion store receipt rest marker

/-- The tournament record that is there before a pending settlement. -/
def existingFieldRecord (store : Store F) (receipt : SettlementReceipt F) :
    Except String (Option (Fields F)) :=
  if receipt.state = .pending ∧ isNone receipt.fieldRecord = false then
    auth.readFieldTournamentRecord store receipt.epochId
      ((receipt.candidates.map (·.generationId)).head?.getD "")
  else .ok none

/-- The champion a pending promotion replaces. -/
def currentMarker (store : Store F) (receipt : SettlementReceipt F) :
    Except String (Option String) :=
  if receipt.state = .pending ∧ receipt.primaryId.isSome = true then
    priorChampion rt store receipt (storedReceiptLocations store (some receipt.epochId)) none
  else .ok none

/-- `validate_workspace_settlement`. -/
def validateWorkspaceSettlement (store : Store F) (intent : PyValue F)
    (expectedEpochId : Option String) (expectedRoundIndex : Option Nat) :
    Except String (SettlementReceipt F × String) := do
  let receipt ← decodeSettlementReceipt rt intent expectedEpochId expectedRoundIndex
  let experiments ← receipt.candidates.mapM fun c =>
    auth.readExperiment receipt.epochId c.generationId
  let existingField ← existingFieldRecord auth store receipt
  let marker ← currentMarker rt store receipt
  let lineage ← auth.lineage
  let parentId ← validateSettlementRecords rt receipt experiments lineage existingField marker
  pure (receipt, parentId)

/-! ## The steps -/

/-- `write_settlement_receipt`. -/
def writeSettlementReceipt (receipt : SettlementReceipt F) : Step F Unit := do
  let receipt ← Proc.lift (decodeSettlementReceipt rt (.dict receipt.toDict) none none)
  Proc.write
    { epochId := receipt.epochId, roundIndex := receipt.roundIndex, body := receipt.toDict }

/-- `write_settlement_receipt(workspace_root, decode_settlement_receipt(body))`. -/
def publish (body : Fields F) : Step F Unit := do
  let accepted ← Proc.lift (decodeSettlementReceipt rt (.dict body) none none)
  writeSettlementReceipt rt accepted

/-- What the index refresh did: it raised an exception of that type, or not. -/
abbrev Ingest := Option { errorType : String // errorType ≠ "" }

/-- `_project_settlement_index`: the `index_projection` it records. -/
def projectSettlementIndex (ingest : Ingest) : Fields F :=
  match ingest with
  | some errorType => [("state", .str "repair_required"), ("error_type", .str errorType.1)]
  | none => [("state", .str "succeeded"), ("error_type", .str "")]

/-- `d[key]["state"]`. -/
def stateIn (d : Fields F) (key : String) : Option String :=
  match get d key with
  | .dict inner => str? (get inner "state")
  | _ => none

/-- The first half of `replay_field_settlement`: the decision becomes final. -/
def publishOutcomes (settlement : SettlementReceipt F) (intent : Fields F) :
    Step F (Fields F) :=
  if settlement.state = .committed then pure intent
  else do
    let receipt := Dict.set intent "state" (.str "committed")
    publish rt receipt
    pure receipt

/-- The second half: the derived views are refreshed. -/
def refreshIndex (receipt : Fields F) (ingest : Ingest) : Step F Unit :=
  if stateIn receipt "index_projection" = some "pending" then
    publish rt (Dict.set receipt "index_projection" (.dict (projectSettlementIndex ingest)))
  else pure ()

/-- `replay_field_settlement`. -/
def replayFieldSettlement (intent : Fields F) (expectedEpochId : Option String)
    (expectedRoundIndex : Option Nat) (ingest : Ingest) : Step F Unit := do
  let (settlement, _) ← Proc.look fun store =>
    validateWorkspaceSettlement rt auth store (.dict intent) expectedEpochId expectedRoundIndex
  let receipt ← publishOutcomes rt settlement intent
  refreshIndex rt receipt ingest

/-- `commit_field_settlement`. -/
def commitFieldSettlement (intent : PyValue F) (ingest : Ingest) : Step F Unit := do
  let (validated, _) ← Proc.look fun store =>
    validateWorkspaceSettlement rt auth store intent none none
  let epochId := validated.epochId
  let roundIndex := validated.roundIndex
  Proc.lift (require (validated.state == .pending)
    "a new field settlement must start in pending state")
  match ← Proc.look fun store => readSettlementReceipt rt store epochId roundIndex with
  | some recorded => do
      let existing := recorded.toDict
      let _ ← Proc.look fun store =>
        validateWorkspaceSettlement rt auth store (.dict existing) (some epochId) (some roundIndex)
      let again ← Proc.lift (decodeSettlementReceipt rt (.dict existing) none none)
      Proc.lift (require
        (PyValue.eq rt.intEq (.dict again.immutableFacts) (.dict validated.immutableFacts))
        s!"field settlement receipt {rt.repr (.str (fieldSettlementIntentKey epochId roundIndex))} conflicts with the recorded decision")
      if recorded.state = .pending ∨ recorded.indexProjection.state = .pending then
        replayFieldSettlement rt auth existing (some epochId) (some roundIndex) ingest
      else pure ()
  | none => do
      writeSettlementReceipt rt validated
      replayFieldSettlement rt auth validated.json (some epochId) (some roundIndex) ingest

/-- A receipt of `recover_field_settlements` that was not replayed to its end is;
what is returned is the receipt then on disk. -/
def recoverReplay (key : String × Nat) (stored settlement : SettlementReceipt F)
    (ingest : Ingest) : Step F (SettlementReceipt F) :=
  if stored.state = .pending ∨ stored.indexProjection.state = .pending then do
    replayFieldSettlement rt auth stored.toDict (some settlement.epochId)
      (some settlement.roundIndex) ingest
    match ← Proc.look fun store =>
        readSettlementReceipt rt store key.1 settlement.roundIndex with
    | none => Proc.lift (.error s!"replayed field settlement {rt.repr (.str settlement.settlementId)} is missing")
    | some committed => pure committed
  else pure stored

/-- A hook that may have been fired is not fired again. -/
def recoverHook (current : SettlementReceipt F) : Step F Unit :=
  if current.promotionHook.state = .pending then
    publish rt (updateIn current.toDict "promotion_hook" [("state", .str "delivery_unknown")])
  else pure ()

/-- One receipt of `recover_field_settlements`: 1 if it was replayed. -/
def recoverReceipt (key : String × Nat) (ingest : Ingest) : Step F Nat := do
  match ← Proc.look fun store => readSettlementReceipt rt store key.1 key.2 with
  | none => pure 0
  | some stored => do
      let (settlement, _) ← Proc.look fun store =>
        validateWorkspaceSettlement rt auth store (.dict stored.toDict) (some key.1)
          (some stored.roundIndex)
      let current ← recoverReplay rt auth key stored settlement ingest
      recoverHook rt current
      pure (if stored.state = .pending ∨ stored.indexProjection.state = .pending then 1 else 0)

/-- The loop of `recover_field_settlements`. -/
def recoverReceipts (ingests : String × Nat → Ingest) : List (String × Nat) → Step F Nat
  | [] => pure 0
  | key :: rest => do
      let replayed ← recoverReceipt rt auth key (ingests key)
      let others ← recoverReceipts ingests rest
      pure (replayed + others)

/-- `recover_field_settlements`, under its workspace writer. -/
def recoverFieldSettlements (epochId : String) (ingests : String × Nat → Ingest) :
    Step F Nat :=
  if epochId = "" then pure 0
  else do
    let locations ← Proc.look fun store => .ok (storedReceiptLocations store (some epochId))
    recoverReceipts rt auth ingests locations

/-- The transitions `record_promotion_hook_delivery` permits. -/
def permitted : HookState → List HookState
  | .pending => [.notApplicable, .deliveryUnknown]
  | .deliveryUnknown => [.succeeded, .failed]
  | _ => []

/-- `record_promotion_hook_delivery`. -/
def recordPromotionHookDelivery (epochId : String) (roundIndex : Nat) (settlementId : String)
    (state : HookState) (adapterName failureType : String) : Step F Unit := do
  match ← Proc.look fun store => readSettlementReceipt rt store epochId roundIndex with
  | none => Proc.lift (.error s!"field settlement receipt {rt.repr (.str (fieldSettlementIntentKey epochId roundIndex))} is missing")
  | some recorded => do
      let (settlement, _) ← Proc.look fun store =>
        validateWorkspaceSettlement rt auth store (.dict recorded.toDict) (some epochId)
          (some roundIndex)
      Proc.lift (require
        (recorded.state == .committed && settlement.settlementId == settlementId)
        "promotion-hook delivery does not match a committed settlement receipt")
      let current := recorded.promotionHook.state
      Proc.lift (require ((permitted current).contains state)
        s!"invalid promotion-hook delivery transition {rt.repr (.str current.asStr)} -> {rt.repr (.str state.asStr)}")
      let updated := Dict.set recorded.toDict "promotion_hook" (.dict (PromotionHook.asDict
        { state := state, adapterName := adapterName, failureType := failureType }))
      publish rt updated

/-- The first loop of `acknowledge_repaired_settlement_indexes`: the updates of
the receipts that await a repair. -/
def pendingUpdates (store : Store F) :
    List (String × Nat) → Except String (List (SettlementReceipt F))
  | [] => .ok []
  | key :: rest => do
      match ← readSettlementReceipt rt store key.1 key.2 with
      | none => pendingUpdates store rest
      | some stored => do
          let _ ← validateWorkspaceSettlement rt auth store (.dict stored.toDict)
            (some stored.epochId) (some stored.roundIndex)
          if stored.state ≠ .committed ∨ stored.indexProjection.state ≠ .repairRequired then
            pendingUpdates store rest
          else do
            let updated := updateIn stored.toDict "index_projection" [("state", .str "repaired")]
            let accepted ← decodeSettlementReceipt rt (.dict updated) none none
            let others ← pendingUpdates store rest
            pure (accepted :: others)

/-- The second loop: the writes. -/
def writeReceipts : List (SettlementReceipt F) → Step F Unit
  | [] => pure ()
  | receipt :: rest => do
      writeSettlementReceipt rt receipt
      writeReceipts rest

/-- `acknowledge_repaired_settlement_indexes`. -/
def acknowledgeRepairedSettlementIndexes : Step F Nat := do
  let updates ← Proc.look fun store =>
    pendingUpdates rt auth store (storedReceiptLocations store none)
  writeReceipts rt updates
  pure updates.length

end Zicato.Receipt
