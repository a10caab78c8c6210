import Zicato.Deadlines
import Zicato.Dict

/-! # The loop that watches the active runs

One task of the supervisor: a tick reads the records, selects a trigger for each
run and starts an escalation for each owner that has none; a completed escalation
gives its owner back and, when an orphan batch was attached to it, finalizes the
orphans of that owner.

Everything the loop reads is a call whose answer is open.  What it does to the
outside is a call as well: taking and releasing the workspace guard, starting an
escalation, and removing the snapshot and the record of an orphan.  A batch is
shared by reference; the counts are those of its `Arc`, and the guard is released
when the last reference is dropped. -/
namespace Zicato.Watchdog
open Chrono

/-- A worker by its pid and the bits of its start token. -/
abbrev Owner : Type := Int × F64

/-- The heartbeat, as far as the loop reads it. -/
structure Heartbeat where
  pid : Option Int
  deriving DecidableEq

/-- What the lock file holds. -/
inductive LockFile
  | missing
  | unreadable
  | malformed
  /-- `pid` is the value of that field where it is a 32-bit integer. -/
  | metadata (ownerId : Option String) (pid : Option Int) (startTime : Option F64)

/-- One locked reading of the orphans, shared by the escalations it is attached to. -/
structure OrphanBatch where
  /-- The guard of the batch. -/
  id : Nat
  heartbeat : Option Heartbeat
  runs : List ActiveRun

/-- Why a run is killed. -/
inductive Trigger
  | runDeadline
  | runStale
  | killRequest
  | orchestratorReap
  deriving DecidableEq, Repr

/-- What the loop asks of its surroundings. -/
inductive Call
  | look (r : Read)
  | readHeartbeat
  | readActiveRuns
  | readKillRequests
  | readLock
  | readRecord (runId : String)
  | now
  /-- The guard file can be opened. -/
  | openGuard
  /-- The exclusive lock is taken, as guard `id`. -/
  | flock (id : Nat)
  | unlock (id : Nat)
  | spawn (owner : Owner) (run : ActiveRun) (target : KillTarget) (trigger : Trigger)
      (grace : Duration)
  | completed (owner : Owner)
  /-- `reap_orphaned_snapshot`, under the guard `id`. -/
  | reapSnapshot (id : Nat) (run : ActiveRun)
  /-- `remove_file` of the record, under the guard `id`. -/
  | removeRecord (id : Nat) (run : ActiveRun)

/-- The type of an answer. -/
@[reducible] def Call.Reply : Call → Type
  | .look r => r.Reply
  | .readHeartbeat => Option Heartbeat
  | .readActiveRuns => List ActiveRun
  | .readKillRequests => List String
  | .readLock => LockFile
  | .readRecord _ => Option ActiveRun
  | .now => DateTime
  | .openGuard => Bool
  | .flock _ => Bool
  | .unlock _ => Unit
  | .spawn _ _ _ _ _ => Unit
  | .completed _ => Unit
  | .reapSnapshot _ _ => Bool
  | .removeRecord _ _ => Unit

/-- A procedure of the loop. -/
abbrev Loop (α : Type) : Type := Script Call.Reply α

/-- A look at the processes. -/
def watch {α : Type} (x : Look α) : Loop α := x.within Call.look fun _ reply => reply

/-- One call. -/
def perform (c : Call) : Loop c.Reply := Script.ask c

/-- What the loop keeps between ticks. -/
structure LoopState where
  /-- The escalations in flight, with the batch attached to each. -/
  owners : Dict Owner (Option OrphanBatch)
  /-- `pending`, by the owner each future returns. -/
  pending : List Owner
  /-- References to each batch. -/
  counts : Nat → Nat
  /-- The next guard. -/
  next : Nat

/-- Nothing in flight. -/
def LoopState.start : LoopState := { owners := [], pending := [], counts := fun _ => 0, next := 0 }

/-- The two ways the task can end in a panic. -/
inductive LoopPanic
  /-- `unwrap` of a missing start token. -/
  | unwrapNone
  /-- Date arithmetic, see `Deadlines`. -/
  | dates (p : Panic)

/-! ## References -/

/-- One more escalation holds a batch. -/
def LoopState.retain (s : LoopState) (id : Nat) : LoopState :=
  { s with counts := fun i => if i = id then s.counts i + 1 else s.counts i }

/-- A reference is dropped, and the guard with the last one. -/
def LoopState.release (s : LoopState) (id : Nat) : Loop LoopState := do
  let s' := { s with counts := fun i => if i = id then s.counts i - 1 else s.counts i }
  if s'.counts id = 0 then
    let _ ← perform (.unlock id)
    pure s'
  else pure s'

/-- An escalation lets go of its batch, if it has one. -/
def releaseBatch (s : LoopState) : Option OrphanBatch → Loop LoopState
  | none => pure s
  | some batch => s.release batch.id

/-! ## Orphans -/

/-- `producer_is_dead`. -/
def producerIsDead (run : ActiveRun) : Look Bool :=
  match run.producerPid, run.producerStartTime with
  | some pid, some expected =>
    if 1 < pid ∧ expected.isFinite = true ∧ expected.nonneg = true then do
      pure !(← isSameProcess pid (some expected))
    else pure false
  | _, _ => pure false

/-- `runs.iter().any(producer_is_dead)` -/
def anyProducerDead : List ActiveRun → Look Bool
  | [] => pure false
  | run :: rest => do if ← producerIsDead run then pure true else anyProducerDead rest

/-- The group of a run has no live member. -/
def groupGone (run : ActiveRun) : Look Bool :=
  match run.pgid with
  | none => pure true
  | some pgid => do pure !(← groupHasLiveMembers pgid)

/-- `run_processes_gone`. -/
def runProcessesGone (run : ActiveRun) : Look Bool :=
  match run.pid with
  | none => pure false
  | some pid => do if ← isAlive pid then pure false else groupGone run

/-- `metadata_writer_may_be_live`. -/
def metadataWriterMayBeLive : Loop Bool := do
  match ← perform .readLock with
  | .missing => pure false
  | .unreadable => pure true
  | .malformed => pure true
  | .metadata ownerId pid startTime =>
    if ownerId.any (· ≠ "") then pure false
    else
      match pid with
      | none => pure true
      | some pid => watch (isSameProcess pid startTime)

/-- `OrphanBatch::acquire`.  A guard that was taken for nothing is dropped. -/
def acquire (s : LoopState) : Loop (LoopState × Option OrphanBatch) := do
  if ← perform .openGuard then
    if ← perform (.flock s.next) then
      let s' := ({ s with next := s.next + 1 } : LoopState).retain s.next
      if ← metadataWriterMayBeLive then
        pure (← s'.release s.next, none)
      else
        let heartbeat ← perform .readHeartbeat
        let runs ← perform .readActiveRuns
        if ← watch (anyProducerDead runs) then
          pure (s', some { id := s.next, heartbeat := heartbeat, runs := runs })
        else pure (← s'.release s.next, none)
    else pure (s, none)
  else pure (s, none)

/-- Equality of optional tokens under the comparison of doubles. -/
def sameToken : Option F64 → Option F64 → Bool
  | some x, some y => x.eq y
  | none, none => true
  | _, _ => false

/-- The record on disk is still that of the run. -/
def sameIdentity (current run : ActiveRun) : Bool :=
  decide (current.pid = run.pid) && sameToken current.pidStartTime run.pidStartTime &&
    decide (current.producerPid = run.producerPid) &&
    sameToken current.producerStartTime run.producerStartTime &&
    decide (current.snapshotPath = run.snapshotPath)

/-- The record of a dead run closed. -/
def finalizeOrphan (batch : OrphanBatch) (run : ActiveRun) : Loop Unit := do
  let current : Option ActiveRun ← perform (.readRecord run.runId)
  if current.any fun current => sameIdentity current run then
    if ← watch (producerIsDead run) then
      if ← watch (runProcessesGone run) then
        let _ ← perform (.reapSnapshot batch.id run)
        perform (.removeRecord batch.id run)
      else pure ()
    else pure ()
  else pure ()

/-- The orphans of a finished owner. -/
def finalizeOwner (batch : OrphanBatch) (owner : Owner) : List ActiveRun → Loop Unit
  | [] => pure ()
  | run :: rest => do
    if run.pid = some owner.1 ∧ run.pidStartTime = some owner.2 then
      finalizeOrphan batch run
      finalizeOwner batch owner rest
    else finalizeOwner batch owner rest

/-- The end of an escalation. -/
def finishOwner (s : LoopState) (owner : Owner) : Loop LoopState :=
  let s' := { s with owners := (s.owners.pop owner).2 }
  match (s.owners.pop owner).1 with
  | some (some batch) => do
    finalizeOwner batch owner batch.runs
    s'.release batch.id
  | _ => pure s'

/-! ## A tick -/

/-- The deadline has passed and the run may be signalled. -/
def deadlinePassed (t : Thresholds) (protected_ : List Int) (run : ActiveRun) (now : DateTime) :
    Loop (Except LoopPanic Bool) :=
  if t.runDeadlineKillDisabled then pure (.ok false)
  else
    match decideRunDeadline run now t.runKillGrace t.maxRunSeconds protected_ with
    | .error p => pure (.error (.dates p))
    | .ok x => do pure (.ok (decide ((← watch x) ≠ .none)))

/-- Whether and why a run is killed. -/
def selectTrigger (t : Thresholds) (requests : List String) (protected_ : List Int)
    (run : ActiveRun) (now : DateTime) (orphaned : Bool) : Loop (Except LoopPanic (Option Trigger)) :=
  if orphaned then pure (.ok (some .orchestratorReap))
  else if requests.contains run.runId then pure (.ok (some .killRequest))
  else do
    match ← deadlinePassed t protected_ run now with
    | .error p => pure (.error p)
    | .ok true => pure (.ok (some .runDeadline))
    | .ok false =>
      match decideRun run now t with
      | .error p => pure (.error (.dates p))
      | .ok (.kill _) => pure (.ok (some .runStale))
      | .ok _ => pure (.ok none)

/-- The batch of an owner becomes this one, with a reference of its own. -/
def LoopState.attach (s : LoopState) (owner : Owner) (batch : Option OrphanBatch) : LoopState :=
  match batch with
  | none => { s with owners := s.owners.set owner none }
  | some batch => { s.retain batch.id with owners := s.owners.set owner (some batch) }

/-- An owner without an escalation gets one; an orphan's batch is attached to the
escalation that is already there, and the reference it replaces is dropped. -/
def startEscalation (s : LoopState) (t : Thresholds) (batch : Option OrphanBatch)
    (groups : List Int) (run : ActiveRun) (orphaned : Bool) (trigger : Trigger) (pid : Int)
    (token : F64) : Loop LoopState :=
  match s.owners.get? (pid, token) with
  | some old => if orphaned then releaseBatch (s.attach (pid, token) batch) old else pure s
  | none => do
    let s := s.attach (pid, token) (batch.filter fun _ => orphaned)
    let target ← watch (resolveKillTarget run pid groups)
    let grace := if trigger = .runStale then t.grace else t.runKillGrace
    let _ ← perform (.spawn (pid, token) run target trigger grace)
    pure { s with pending := s.pending ++ [(pid, token)] }

/-- The orphan of a record that cannot be signalled is finalized if nothing of it
runs. -/
def finalizeUnsignalled (batch : Option OrphanBatch) (run : ActiveRun) (orphaned : Bool) :
    Loop Unit :=
  match batch.filter fun _ => orphaned with
  | none => pure ()
  | some batch => do
    if ← watch (runProcessesGone run) then finalizeOrphan batch run else pure ()

/-- A run is only taken for an orphan under a guard. -/
def isOrphaned (batch : Option OrphanBatch) (run : ActiveRun) : Look Bool :=
  if batch.isSome then producerIsDead run else pure false

/-- The body of a tick for one record. -/
def superviseRun (t : Thresholds) (batch : Option OrphanBatch) (protected_ groups : List Int)
    (requests : List String) (s : LoopState) (run : ActiveRun) : Loop (Except LoopPanic LoopState) := do
  let now ← perform .now
  let orphaned ← watch (isOrphaned batch run)
  match ← selectTrigger t requests protected_ run now orphaned with
  | .error p => pure (.error p)
  | .ok none => pure (.ok s)
  | .ok (some trigger) =>
    match ← watch (decideRunKillRequest run protected_) with
    | none =>
      finalizeUnsignalled batch run orphaned
      pure (.ok s)
    | some pid =>
      match run.pidStartTime with
      | none => pure (.error .unwrapNone)
      | some token => do
        pure (.ok (← startEscalation s t batch groups run orphaned trigger pid token))

/-- The runs of a tick, one after another. -/
def superviseRuns (t : Thresholds) (batch : Option OrphanBatch) (protected_ groups : List Int)
    (requests : List String) : LoopState → List ActiveRun → Loop (Except LoopPanic LoopState)
  | s, [] => pure (.ok s)
  | s, run :: rest => do
    match ← superviseRun t batch protected_ groups requests s run with
    | .error p => pure (.error p)
    | .ok s => superviseRuns t batch protected_ groups requests s rest

/-- A batch is only sought when a producer is seen dead. -/
def acquireIf (s : LoopState) (sought : Bool) : Loop (LoopState × Option OrphanBatch) :=
  if sought then acquire s else pure (s, none)

/-- One tick. -/
def tick (t : Thresholds) (s : LoopState) : Loop (Except LoopPanic LoopState) := do
  let observedHeartbeat ← perform .readHeartbeat
  let observedRuns ← perform .readActiveRuns
  let sought ← watch (anyProducerDead observedRuns)
  let (s, batch) ← acquireIf s sought
  let heartbeat := (batch.bind (·.heartbeat)).or observedHeartbeat
  let heartbeatPid := heartbeat.bind (·.pid)
  let groups ← watch (protectedPgids heartbeatPid)
  let requests ← perform .readKillRequests
  let runs := (batch.map (·.runs)).getD observedRuns
  match ← superviseRuns t batch heartbeatPid.toList groups requests s runs with
  | .error p => pure (.error p)
  | .ok s => do pure (.ok (← releaseBatch s batch))

/-- An escalation has ended and returned its owner. -/
def complete (s : LoopState) (owner : Owner) : Loop LoopState := do
  let _ ← perform (.completed owner)
  finishOwner { s with pending := s.pending.erase owner } owner

/-! ## The loop -/

/-- A tick, or the end of an escalation. -/
inductive LoopEvent
  | tick
  | completion (owner : Owner)

/-- The loop along a sequence of events.  Only what is pending can complete; the
drain after a shutdown is completions alone. -/
def runsLoop (t : Thresholds) : LoopState → List LoopEvent → Loop (Except LoopPanic LoopState)
  | s, [] => pure (.ok s)
  | s, .tick :: rest => do
    match ← tick t s with
    | .error p => pure (.error p)
    | .ok s => runsLoop t s rest
  | s, .completion owner :: rest =>
    if owner ∈ s.pending then do
      let s ← complete s owner
      runsLoop t s rest
    else runsLoop t s rest

end Zicato.Watchdog
