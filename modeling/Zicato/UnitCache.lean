import Mathlib.Data.List.Basic

/-! # The unit cache

`tournament/unit_cache.py` and `_run_unit_cache_first` of `tournament/scheduling.py`:
every board unit is looked up before it is evaluated, concurrent callers of one unit
wait for the one that evaluates it, and a result is reused only from its file.

Callers run on one event loop, so the code between two awaits is one step.  The
worker of an evaluation is a process of its own, which writes the profile that it
has reduced into the file of the unit before it reports its result. -/
namespace Zicato.UnitCache

/-! ## Measurements -/

inductive MeasurementPurpose
  | tournament
  | calibration
  | preflight
  | screen
  | confirmation
  | reflection
  | admission
  deriving DecidableEq, Repr

def MeasurementPurpose.value : MeasurementPurpose → String
  | .tournament => "tournament"
  | .calibration => "calibration"
  | .preflight => "contract_preflight"
  | .screen => "candidate_screen"
  | .confirmation => "evidence_confirmation"
  | .reflection => "board_reflection"
  | .admission => "eval_synthesis_admission"

structure MeasurementDraw where
  purpose : MeasurementPurpose
  draw : Nat
  baseSeed : Option Int := none
  deriving DecidableEq, Repr

/-- `seed_qualifier`. -/
def seedQualifier : Option Int → String
  | none => "seed-none"
  | some seed => s!"seed-{seed}"

/-! ## Profiles -/

/-- The fields of a loss profile that decide its reuse, and the rest of it. -/
structure LossProfile (β : Type) where
  runId : String
  entryId : String
  generationId : String
  epochId : String
  measurement : Option MeasurementDraw
  executionStarted : Option Bool
  abortCause : Option String
  startedAt : Option String
  endedAt : Option String
  runtimeMs : Int
  tokensSpent : Int
  body : β
  deriving DecidableEq, Repr

def budgetAbortCause : String := "budget_exhausted"

/-- `bool(value)` of a text that may be missing. -/
def truthy (value : Option String) : Bool := value.getD "" != ""

/-- `is_infra_abort_cause`. -/
def isInfraAbortCause (abortCause : Option String) : Bool :=
  truthy abortCause && abortCause != some budgetAbortCause

/-- `has_execution_evidence`. -/
def hasExecutionEvidence {β : Type} (loss : LossProfile β) : Bool :=
  match loss.executionStarted with
  | some started => started
  | none =>
      if loss.abortCause ≠ some budgetAbortCause then true
      else (truthy loss.startedAt || truthy loss.endedAt) ||
        (decide (loss.runtimeMs > 0) || decide (loss.tokensSpent > 0))

/-! ## Units -/

/-- `_cacheable_unit_key`. -/
structure UnitKey where
  workspace : String
  epoch : String
  generation : String
  entry : String
  measurement : MeasurementDraw
  seed : Option Int
  deriving DecidableEq, Repr

/-- `_unit_loss_path`: what the directories and the name of a loss file say. -/
structure Slot where
  workspace : String
  epoch : String
  generation : String
  entry : String
  purpose : MeasurementPurpose
  draw : Nat
  seed : Option Int
  deriving DecidableEq, Repr

/-- The seed of the configuration is the one of the path. -/
def UnitKey.slot (key : UnitKey) : Slot where
  workspace := key.workspace
  epoch := key.epoch
  generation := key.generation
  entry := key.entry
  purpose := key.measurement.purpose
  draw := key.measurement.draw
  seed := key.seed

/-- `artifact_measurement` of the name, with the seed of the directory. -/
def Slot.measurement (slot : Slot) : MeasurementDraw := ⟨slot.purpose, slot.draw, slot.seed⟩

/-- What a loss file holds. -/
inductive Record (β : Type)
  | profile (loss : LossProfile β)
  /-- `read_loss_profile` raises. -/
  | malformed
  deriving DecidableEq, Repr

section Admission
variable {β : Type} (digest : String → String → String → String)

/-- `run_id_for_unit`; `digest` is the hash of the coordinates. -/
def runIdForUnit (generation entry : String) (measurement : MeasurementDraw) (epoch : String) :
    String :=
  s!"{seedQualifier measurement.baseSeed}.{measurement.purpose.value}.r{measurement.draw}." ++
    digest epoch generation entry

/-- `validate_loss_identity` does not raise. -/
def validLossIdentity (loss : LossProfile β) (epoch generation entry : String)
    (measurement : MeasurementDraw) : Bool :=
  decide ((loss.epochId, loss.generationId, loss.entryId) = (epoch, generation, entry)) &&
    loss.runId == runIdForUnit digest generation entry measurement epoch

/-- `_resolve_cached_unit`, given what is at the path of the unit. -/
def resolveCachedUnit (key : UnitKey) : Option (Record β) → Option (LossProfile β)
  | none => none
  | some .malformed => none
  | some (.profile loss) =>
      -- `recorded_artifact_measurement`
      if loss.measurement ≠ some key.slot.measurement then none
      else if !validLossIdentity digest loss key.epoch key.generation key.entry
          key.slot.measurement then none
      else if !hasExecutionEvidence loss then none
      else some loss

/-- What becomes of the profile that `_run_single` returned. -/
structure Settled (β : Type) where
  /-- What the caller gets. -/
  loss : LossProfile β
  /-- The profile for the slot; `none` if it is recorded as an attempt. -/
  kept : Option (LossProfile β)

/-- `_persist_unit_loss`: an omission is an attempt. -/
def persistUnitLoss (loss : LossProfile β) : Option (LossProfile β) :=
  if loss.executionStarted = some false then none else some loss

/-- `_run_unit_after_cache_miss` once the worker is gone. -/
def settle (key : UnitKey) (loss : LossProfile β) : Settled β :=
  let loss := { loss with
    measurement := some { key.measurement with baseSeed := key.seed } }
  let loss :=
    if loss.executionStarted = none && !isInfraAbortCause loss.abortCause then
      { loss with executionStarted := some true }
    else loss
  { loss := loss
    kept := if isInfraAbortCause loss.abortCause then none else persistUnitLoss loss }

/-- The profile that the worker of a unit writes: it has the identity of the unit,
and the only abort that it records is that of its own budget. -/
def workerProfile (key : UnitKey) (reduced : LossProfile β) (budgetExceeded : Bool) :
    LossProfile β :=
  { reduced with
    runId := runIdForUnit digest key.generation key.entry key.slot.measurement key.epoch
    entryId := key.entry
    generationId := key.generation
    epochId := key.epoch
    measurement := some key.slot.measurement
    executionStarted := some true
    abortCause := if budgetExceeded then some budgetAbortCause else none }

end Admission

/-! ## Callers -/

/-- A call of `_run_unit_cache_first`. -/
structure Call where
  key : UnitKey
  forceFresh : Bool
  deriving DecidableEq, Repr

/-- A caller is named by a number; its event, if it makes one, has the same name. -/
abbrev CallerId := Nat

/-- Where a caller stands. -/
inductive Phase (β : Type)
  /-- It waits for the event of another caller. -/
  | waiting (event : CallerId)
  /-- It has claimed the key and awaits the start of the worker. -/
  | claimed
  /-- Its worker runs. -/
  | running
  | returned (loss : LossProfile β) (cached : Bool)
  | raised
  /-- Its process died. -/
  | gone
  deriving DecidableEq, Repr

/-- The caller is in `_evaluate`. -/
def Phase.evaluates {β : Type} : Phase β → Bool
  | .claimed => true
  | .running => true
  | _ => false

structure Caller (β : Type) where
  call : Call
  phase : Phase β
  deriving DecidableEq, Repr

/-- What has happened, in order. -/
inductive Effect (β : Type)
  | requested (c : CallerId) (call : Call)
  /-- A lookup was a hit. -/
  | reused (c : CallerId) (loss : LossProfile β)
  | evaluates (c : CallerId)
  /-- The profile in the slot went to the archive. -/
  | archived (slot : Slot)
  /-- An evaluation is complete and its profile is in the slot. -/
  | persisted (c : CallerId) (slot : Slot) (loss : LossProfile β)
  /-- The worker of an evaluation has written its profile into the slot. -/
  | left (c : CallerId) (slot : Slot) (loss : LossProfile β)
  deriving DecidableEq, Repr

/-- The files, the units in flight, the callers and what was done. -/
structure State (β : Type) where
  store : Slot → Option (Record β)
  /-- `_inflight_cacheable_units`. -/
  inflight : UnitKey → Option CallerId
  /-- The events that are set. -/
  isSet : CallerId → Bool
  callers : CallerId → Option (Caller β)
  /-- The callers that had a worker. -/
  launched : CallerId → Bool
  log : List (Effect β)

def State.init (β : Type) : State β where
  store _ := none
  inflight _ := none
  isSet _ := false
  callers _ := none
  launched _ := false
  log := []

/-- How `archive_unit_artifacts` ends. -/
inductive Archive
  | done
  /-- It raises, before or after it has removed the profile. -/
  | failed (removed : Bool)
  deriving DecidableEq, Repr

/-- What may happen next. -/
inductive Event (β : Type)
  | start (c : CallerId) (call : Call) (archive : Archive)
  | wake (c : CallerId) (archive : Archive)
  /-- A waiting caller is cancelled. -/
  | cancel (c : CallerId)
  /-- `_run_single` archives again and starts the worker. -/
  | launch (c : CallerId) (archive : Archive)
  | workerWrites (c : CallerId) (reduced : LossProfile β) (budgetExceeded : Bool)
  /-- `_run_single` returned; `written` unless the writer of the cache raised. -/
  | finish (c : CallerId) (loss : LossProfile β) (written : Bool)
  /-- The evaluation raises or is cancelled. -/
  | fail (c : CallerId)
  /-- The process dies; the files stay. -/
  | restart
  deriving DecidableEq, Repr

section Steps
variable {β : Type} (digest : String → String → String → String)

def State.setPhase (s : State β) (c : CallerId) (call : Call) (phase : Phase β) : State β :=
  { s with callers := Function.update s.callers c (some ⟨call, phase⟩) }

def State.note (s : State β) (effect : Effect β) : State β := { s with log := s.log ++ [effect] }

def State.write (s : State β) (slot : Slot) (record : Option (Record β)) : State β :=
  { s with store := Function.update s.store slot record }

/-- The `finally` of `_run_unit_cache_first`: the key is free and the waiters run. -/
def State.release (s : State β) (c : CallerId) (call : Call) (phase : Phase β) : State β :=
  { s with
    inflight := Function.update s.inflight call.key none
    isSet := Function.update s.isSet c true
    callers := Function.update s.callers c (some ⟨call, phase⟩) }

def State.archive (s : State β) (slot : Slot) : State β :=
  (s.write slot none).note (.archived slot)

/-- `archive_unit_artifacts`, and what the evaluation does next. -/
def State.archiveThen (s : State β) (c : CallerId) (call : Call) (phase : Phase β) :
    Archive → State β
  | .done => (s.archive call.key.slot).setPhase c call phase
  | .failed true => (s.archive call.key.slot).release c call .raised
  | .failed false => s.release c call .raised

/-- `_cached`. -/
def State.cached (s : State β) (call : Call) : Option (LossProfile β) :=
  if call.forceFresh then none else resolveCachedUnit digest call.key (s.store call.key.slot)

/-- From a lookup to the next await: a hit, a wait, or the claim of the key. -/
def State.lookup (s : State β) (c : CallerId) (call : Call) (archive : Archive) : State β :=
  match s.cached digest call with
  | some loss => (s.note (.reused c loss)).setPhase c call (.returned loss true)
  | none =>
      match s.inflight call.key with
      | some event => s.setPhase c call (.waiting event)
      | none =>
          State.archiveThen
            ({ s with inflight := Function.update s.inflight call.key (some c) }.note (.evaluates c))
            c call .claimed archive

/-- `_run_unit_after_cache_miss` after the run, and the `finally` around it. -/
def State.finish (s : State β) (c : CallerId) (call : Call) (loss : LossProfile β)
    (written : Bool) : State β :=
  let settled := settle call.key loss
  let s := s.release c call (.returned settled.loss false)
  match settled.kept with
  | some kept =>
      if written then
        (s.write call.key.slot (some (.profile kept))).note (.persisted c call.key.slot kept)
      else s
  | none => s

/-- A process that dies takes the callers that have not returned with it. -/
def Phase.die : Phase β → Phase β
  | .returned loss cached => .returned loss cached
  | .raised => .raised
  | _ => .gone

/-- What an event does, if it can happen. -/
def step (s : State β) : Event β → Option (State β)
  | .start c call archive =>
      match s.callers c with
      | none => some ((s.note (.requested c call)).lookup digest c call archive)
      | some _ => none
  | .wake c archive =>
      match s.callers c with
      | some ⟨call, .waiting event⟩ =>
          if s.isSet event then some (s.lookup digest c call archive) else none
      | _ => none
  | .cancel c =>
      match s.callers c with
      | some ⟨call, .waiting _⟩ => some (s.setPhase c call .raised)
      | _ => none
  | .launch c archive =>
      match s.callers c with
      | some ⟨call, .claimed⟩ =>
          some (State.archiveThen { s with launched := Function.update s.launched c true } c call
            .running archive)
      | _ => none
  | .workerWrites c reduced budgetExceeded =>
      match s.callers c, s.launched c with
      | some ⟨call, _⟩, true =>
          let loss := workerProfile digest call.key reduced budgetExceeded
          some ((s.write call.key.slot (some (.profile loss))).note (.left c call.key.slot loss))
      | _, _ => none
  | .finish c loss written =>
      match s.callers c with
      | some ⟨call, .running⟩ => some (s.finish c call loss written)
      | _ => none
  | .fail c =>
      match s.callers c with
      | some ⟨call, .claimed⟩ => some (s.release c call .raised)
      | some ⟨call, .running⟩ => some (s.release c call .raised)
      | _ => none
  | .restart =>
      some { s with
        inflight := fun _ => none
        isSet := fun _ => true
        callers := fun c => (s.callers c).map fun caller => ⟨caller.call, caller.phase.die⟩ }

/-- A run from the state `s`, if every event of it can happen. -/
def run (s : State β) (events : List (Event β)) : Option (State β) :=
  events.foldlM (step digest) s

end Steps

end Zicato.UnitCache
