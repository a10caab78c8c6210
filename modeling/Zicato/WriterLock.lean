import Mathlib.Data.List.Basic

/-! # The workspace lock

`zicato/runtime/lock.py`: a kernel lock on a guard file makes one writer of the workspace, and
a JSON record beside it says which.  Processes come, fork and go; each runs any number of
calls at once, and between any two steps of a call the others take theirs. -/
namespace Zicato.Lock

/-- A process for as long as it runs.  `birth` tells it from a later one with its pid, and
`startTime` is what `pid_start_time` reads of it, where that can be read. -/
structure Process (T : Type) where
  birth : Nat
  pid : Int
  startTime : Option T
  deriving DecidableEq

/-- An open file description of the guard file, by the process that opened it: `_WriterLease`
is the process's reference to it. -/
structure Lease (T : Type) where
  opener : Process T
  serial : Nat
  deriving DecidableEq

/-- The metadata record. -/
structure Metadata (T : Type) where
  pid : Int
  instanceId : String
  acquiredAt : String
  workspaceRoot : String
  startTime : Option T
  ownerId : Option String
  deriving DecidableEq

/-- `WorkspaceLock`. -/
structure WorkspaceLock (T : Type) where
  pid : Int
  instanceId : String
  acquiredAt : String
  workspaceRoot : String
  startTime : Option T
  ownerId : Option String
  lease : Option (Lease T)
  deriving DecidableEq

variable {T : Type}

/-- `to_dict`. -/
def WorkspaceLock.toDict (lock : WorkspaceLock T) : Metadata T where
  pid := lock.pid
  instanceId := lock.instanceId
  acquiredAt := lock.acquiredAt
  workspaceRoot := lock.workspaceRoot
  startTime := lock.startTime
  ownerId := lock.ownerId

/-- `from_dict`: a description, with no lease. -/
def Metadata.fromDict (m : Metadata T) : WorkspaceLock T where
  pid := m.pid
  instanceId := m.instanceId
  acquiredAt := m.acquiredAt
  workspaceRoot := m.workspaceRoot
  startTime := m.startTime
  ownerId := m.ownerId
  lease := none

/-- A handle is what it writes and its lease. -/
theorem WorkspaceLock.eq_of_toDict {lock lock' : WorkspaceLock T}
    (h : lock.toDict = lock'.toDict) (hlease : lock.lease = lock'.lease) : lock = lock' := by
  cases lock
  cases lock'
  simp only [toDict, Metadata.mk.injEq] at h
  obtain ⟨rfl, rfl, rfl, rfl, rfl, rfl⟩ := h
  cases hlease
  rfl

/-- `WorkspaceLockHeld`. -/
inductive WorkspaceLockHeld (T : Type)
  | activeWriter
  | livePid (prior : Metadata T)
  | staleMetadata (prior : Metadata T)
  | notAcquired
  | metadataChanged
  deriving DecidableEq

/-- What a call does next. -/
inductive Phase (T : Type)
  /-- `acquire_workspace_lock`: the lock on the guard is asked for. -/
  | flock (lease : Lease T) (instanceId : String) (stealStale : Bool)
  /-- The metadata is read. -/
  | inspect (lease : Lease T) (instanceId : String) (stealStale : Bool)
  /-- The metadata of the new handle is written. -/
  | publish (lock : WorkspaceLock T)
  /-- `validate_workspace_lock`: the handle is compared with the metadata. -/
  | validate (writer : WorkspaceLock T)
  /-- `release_workspace_lock`: the handle is compared with the metadata. -/
  | compare (lock : WorkspaceLock T)
  /-- The metadata is deleted. -/
  | delete (lock : WorkspaceLock T)
  /-- The lease is closed, and the call returns or raises. -/
  | close (lease : Lease T) (raised : Option (WorkspaceLockHeld T))
  deriving DecidableEq

/-- The lease that a call works on. -/
def Phase.lease : Phase T → Option (Lease T)
  | .flock lease _ _ | .inspect lease _ _ | .close lease _ => some lease
  | .publish lock | .compare lock | .delete lock => lock.lease
  | .validate _ => none

/-- A call in flight, in a thread of a process. -/
structure Call (T : Type) where
  proc : Process T
  phase : Phase T
  deriving DecidableEq

/-- The processes, the kernel's state of the guard file, the metadata on disk, and what the
processes have in memory. -/
structure State (T : Type) where
  procs : List (Process T)
  /-- Children whose fork handlers have not run. -/
  forking : List (Process T)
  /-- The open descriptors of the guard file. -/
  fds : List (Process T × Lease T)
  /-- What `flock` granted the lock to last. -/
  guard : Option (Lease T)
  /-- The metadata on disk. -/
  record : Option (Metadata T)
  locks : List (Process T × WorkspaceLock T)
  calls : Nat → Option (Call T)
  births : Nat
  serial : Nat

/-- The workspace, and the owner ids that `uuid4` draws: the n-th lease is given the n-th. -/
structure Workspace where
  root : String
  ownerId : Nat → String
  ownerId_ne_empty : ∀ n, ownerId n ≠ ""
  ownerId_injective : ∀ {m n}, ownerId m = ownerId n → m = n

section Code

variable [DecidableEq T]

namespace State

/-- The process has run its fork handlers. -/
def runs (s : State T) (p : Process T) : Bool := s.procs.contains p && !s.forking.contains p

/-- No descriptor of the description that holds the guard is open. -/
def free (s : State T) : Bool :=
  match s.guard with
  | some lease => !s.fds.any fun e => decide (e.2 = lease)
  | none => true

/-- `is_pid_alive`. -/
def isPidAlive (s : State T) (pid : Int) : Bool :=
  decide (0 < pid) && s.procs.any fun p => decide (p.pid = pid)

/-- `pid_start_time`. -/
def pidStartTime (s : State T) (pid : Int) : Option T :=
  if 0 < pid then (s.procs.find? fun p => p.pid = pid).bind (·.startTime) else none

/-- `is_same_process`. -/
def isSameProcess (s : State T) (pid : Int) (expected : Option T) : Bool :=
  if s.isPidAlive pid then
    match expected, s.pidStartTime pid with
    | some expected, some current => decide (current = expected)
    | _, _ => true
  else false

end State

/-- `recorded_lease`: the owner id is a string that is not empty. -/
def Metadata.recordedLease (m : Metadata T) : Bool :=
  match m.ownerId with
  | some owner => decide (owner ≠ "")
  | none => false

/-- What the metadata that is there says against an acquisition. -/
def State.refusal (s : State T) (stealStale : Bool) : Option (WorkspaceLockHeld T) :=
  match s.record with
  | some prior =>
      if !prior.recordedLease && s.isSameProcess prior.pid prior.startTime then
        some (.livePid prior)
      else if stealStale then none
      else some (.staleMetadata prior)
  | none => none

/-- `_lease is not None and _lease.fd >= 0`. -/
def State.leased (s : State T) (p : Process T) (lock : WorkspaceLock T) : Bool :=
  match lock.lease with
  | some lease => s.fds.contains (p, lease)
  | none => false

/-- The handle is one that the process acquired for this workspace. -/
def State.acquired (s : State T) (p : Process T) (writer : WorkspaceLock T) (root : String) :
    Bool :=
  s.leased p writer && decide (writer.pid = p.pid) && decide (writer.workspaceRoot = root) &&
    decide (writer.ownerId.getD "" ≠ "")

/-- `validate_workspace_lock`, in one step. -/
def State.validate (s : State T) (p : Process T) (writer : WorkspaceLock T) (root : String) :
    Except (WorkspaceLockHeld T) Unit :=
  if s.acquired p writer root then
    if s.record = some writer.toDict then .ok () else .error .metadataChanged
  else .error .notAcquired

namespace State

/-! ## The steps -/

def goto (s : State T) (t : Nat) (p : Process T) (phase : Phase T) : State T :=
  { s with calls := fun t' => if t' = t then some ⟨p, phase⟩ else s.calls t' }

def finish (s : State T) (t : Nat) : State T :=
  { s with calls := fun t' => if t' = t then none else s.calls t' }

/-- The process that is born next. -/
def newborn (s : State T) (pid : Int) (startTime : Option T) : Process T :=
  ⟨s.births, pid, startTime⟩

/-- The kernel gives out a pid that no process has. -/
def fresh (s : State T) (pid : Int) : Bool := decide (0 < pid) && !s.isPidAlive pid

def spawn (s : State T) (pid : Int) (startTime : Option T) : State T :=
  { s with procs := s.procs ++ [s.newborn pid startTime], births := s.births + 1 }

/-- `fork`: the child has the descriptors and the handles of its parent, and one thread. -/
def fork (s : State T) (parent : Process T) (pid : Int) (startTime : Option T) : State T :=
  let child := s.newborn pid startTime
  { s with
    procs := s.procs ++ [child]
    births := s.births + 1
    forking := child :: s.forking
    fds := s.fds ++ (s.fds.filter fun e => e.1 = parent).map fun e => (child, e.2)
    locks := s.locks ++ (s.locks.filter fun e => e.1 = parent).map fun e => (child, e.2) }

/-- `_close_inherited_leases`. -/
def closeInherited (s : State T) (child : Process T) : State T :=
  { s with
    forking := s.forking.filter fun p => p ≠ child
    fds := s.fds.filter fun e => e.1 ≠ child }

/-- The process ends, in whatever state its calls are. -/
def exit (s : State T) (p : Process T) : State T :=
  { s with
    procs := s.procs.filter fun q => q ≠ p
    forking := s.forking.filter fun q => q ≠ p
    fds := s.fds.filter fun e => e.1 ≠ p
    locks := s.locks.filter fun e => e.1 ≠ p
    calls := fun t => (s.calls t).filter fun c => c.proc ≠ p }

/-- The guard file is opened, and the lease registered. -/
def acquire (s : State T) (t : Nat) (p : Process T) (instanceId : String) (stealStale : Bool) :
    State T :=
  let lease : Lease T := ⟨p, s.serial⟩
  { s with fds := s.fds ++ [(p, lease)], serial := s.serial + 1 }.goto t p
    (.flock lease instanceId stealStale)

/-- `release_workspace_lock`, up to its first look at the disk. -/
def release (s : State T) (t : Nat) (p : Process T) (lock : WorkspaceLock T) : State T :=
  match lock.lease with
  | some lease =>
      if s.leased p lock then
        if lock.pid = p.pid then s.goto t p (.compare lock) else s.goto t p (.close lease none)
      else s
  | none => s

end State

variable (ws : Workspace)

/-- The handle that an acquisition makes. -/
def State.handle (s : State T) (p : Process T) (lease : Lease T) (instanceId now : String) :
    WorkspaceLock T where
  pid := p.pid
  instanceId := instanceId
  acquiredAt := now
  workspaceRoot := ws.root
  startTime := s.pidStartTime p.pid
  ownerId := some (ws.ownerId lease.serial)
  lease := some lease

/-- The next step of a call. -/
def State.advance (s : State T) (t : Nat) (p : Process T) (now : String) : Phase T → State T
  | .flock lease instanceId stealStale =>
      if s.free then { s with guard := some lease }.goto t p (.inspect lease instanceId stealStale)
      else s.goto t p (.close lease (some .activeWriter))
  | .inspect lease instanceId stealStale =>
      match s.refusal stealStale with
      | none => s.goto t p (.publish (s.handle ws p lease instanceId now))
      | some held => s.goto t p (.close lease (some held))
  | .publish lock =>
      { s with record := some lock.toDict, locks := s.locks ++ [(p, lock)] }.finish t
  | .validate _ => s.finish t
  | .compare lock =>
      match lock.lease with
      | some lease =>
          if s.record = some lock.toDict then s.goto t p (.delete lock)
          else s.goto t p (.close lease none)
      | none => s.finish t
  | .delete lock =>
      match lock.lease with
      | some lease => { s with record := none }.goto t p (.close lease none)
      | none => s.finish t
  | .close lease _ => { s with fds := s.fds.filter fun e => e ≠ (p, lease) }.finish t

/-- One step of one party. -/
inductive Act (T : Type)
  | spawn (pid : Int) (startTime : Option T)
  | fork (parent : Process T) (pid : Int) (startTime : Option T)
  | closeInherited (child : Process T)
  | exit (p : Process T)
  /-- `read_workspace_lock`. -/
  | describe (p : Process T)
  | acquire (t : Nat) (p : Process T) (instanceId : String) (stealStale : Bool)
  | validate (t : Nat) (p : Process T) (writer : WorkspaceLock T) (root : String)
  | release (t : Nat) (p : Process T) (lock : WorkspaceLock T)
  | advance (t : Nat) (now : String)

/-- A step, if the party can take it. -/
def State.step (s : State T) : Act T → Option (State T)
  | .spawn pid startTime => if s.fresh pid then some (s.spawn pid startTime) else none
  | .fork parent pid startTime =>
      if s.runs parent && s.fresh pid then some (s.fork parent pid startTime) else none
  | .closeInherited child =>
      if s.forking.contains child then some (s.closeInherited child) else none
  | .exit p => if s.procs.contains p then some (s.exit p) else none
  | .describe p =>
      match s.record with
      | some m =>
          if s.runs p && s.isSameProcess m.pid m.startTime then
            some { s with locks := s.locks ++ [(p, m.fromDict)] }
          else none
      | none => none
  | .acquire t p instanceId stealStale =>
      if s.runs p && (s.calls t).isNone then some (s.acquire t p instanceId stealStale) else none
  | .validate t p writer root =>
      if s.runs p && s.locks.contains (p, writer) && (s.calls t).isNone then
        some (if s.acquired p writer root then s.goto t p (.validate writer) else s)
      else none
  | .release t p lock =>
      if s.runs p && s.locks.contains (p, lock) && (s.calls t).isNone then
        some (s.release t p lock)
      else none
  | .advance t now =>
      match s.calls t with
      | some c => some (s.advance ws t c.proc now c.phase)
      | none => none

end Code

/-- A workspace that no process has opened: processes may be there, and a record from
before. -/
structure Initial (ws : Workspace) (s : State T) : Prop where
  births : ∀ p ∈ s.procs, p.birth < s.births
  forking : s.forking = []
  fds : s.fds = []
  locks : s.locks = []
  calls : ∀ t, s.calls t = none

end Zicato.Lock
