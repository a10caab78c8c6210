import Zicato.Chrono
import Zicato.F64
import Zicato.Scripts

/-! # The run watchdog: what it reads and what it decides

The supervisor looks at a worker through `/proc` and `kill(pid, 0)`.  Every such
look is a call of a script, because the process table moves on between two of
them: a pid read alive may name another process at the next call.  The functions
here are those of the supervisor that select, verify and terminate the target of
a run record. -/
namespace Zicato.Watchdog
open Chrono

/-- A record of `active_runs`, with the fields the watchdog reads. -/
structure ActiveRun where
  runId : String
  pid : Option Int
  producerPid : Option Int
  producerStartTime : Option F64
  pidStartTime : Option F64
  pgid : Option Int
  snapshotPath : Option String
  startedAt : Option DateTime
  lastProgress : Option DateTime
  deadline : Option DateTime
  wallClockBudgetSeconds : Option F64
  deriving DecidableEq

/-! ## Looking at processes -/

/-- The fields of `/proc/<pid>/stat` that are used. -/
structure Fields where
  /-- The state is `Z` or `X`. -/
  ended : Bool
  pgrp : Int
  start : Nat
  deriving DecidableEq, Repr

/-- The system calls that look at processes. -/
inductive Read
  | fields (pid : Int)
  /-- `kill(pid, 0)` does not answer `ESRCH`. -/
  | exists (pid : Int)
  /-- The numeric names under `/proc`. -/
  | listing
  /-- `killpg(pgid, 0)` does not answer `ESRCH`. -/
  | groupExists (pgid : Int)
  | ownGroup
  | ownPid
  deriving DecidableEq, Repr

@[reducible] def Read.Reply : Read → Type
  | .fields _ => Option Fields
  | .exists _ => Bool
  | .listing => Option (List Int)
  | .groupExists _ => Bool
  | .ownGroup => Int
  | .ownPid => Int

/-- A program that only looks. -/
abbrev Look (α : Type) : Type := Script Read.Reply α

def ask (r : Read) : Look r.Reply := Script.ask r

/-- `process_fields`. -/
def processFields (pid : Int) : Look (Option Fields) :=
  if pid ≤ 0 then pure none else ask (.fields pid)

/-- `is_alive`. -/
def isAlive (pid : Int) : Look Bool :=
  if pid ≤ 0 then pure false
  else do
    let fields ← processFields pid
    if fields.any (·.ended) then pure false else ask (.exists pid)

/-- `pid_start_time`. -/
def pidStartTime (pid : Int) : Look (Option F64) := do
  let fields ← processFields pid
  pure (fields.map fun f => F64.ofTicks f.start)

/-- `pgid_of`. -/
def pgidOf (pid : Int) : Look (Option Int) := do
  let fields ← processFields pid
  pure ((fields.map (·.pgrp)).filter fun pgid => 0 < pgid)

/-- `is_same_process`. -/
def isSameProcess (pid : Int) (expectedStartTime : Option F64) : Look Bool := do
  if ← isAlive pid then
    match expectedStartTime with
    | none => pure true
    | some expected =>
      match ← pidStartTime pid with
      | some current => pure (current.eq expected)
      | none => pure true
  else pure false

/-- The scan of `group_has_live_members` over the listed processes. -/
def anyLive (pgid : Int) : List Int → Look Bool
  | [] => pure false
  | pid :: rest => do
    match ← processFields pid with
    | some fields =>
      if fields.pgrp = pgid ∧ fields.ended = false then pure true else anyLive pgid rest
    | none => if ← isAlive pid then pure true else anyLive pgid rest

/-- Unknown membership counts as live. -/
def groupHasLiveMembers (pgid : Int) : Look Bool :=
  if pgid ≤ 1 then pure true
  else do
    let own : Int ← ask .ownGroup
    if pgid = own then pure true
    else
      match ← ask .listing with
      | none => ask (.groupExists pgid)
      | some pids => anyLive pgid pids

/-! ## The target of a termination -/

/-- `KillTarget`. -/
inductive KillTarget
  | leader (pid : Int)
  | group (pgid leaderPid : Int)
  deriving DecidableEq, Repr

namespace KillTarget

def leaderPid : KillTarget → Int
  | leader pid => pid
  | group _ leaderPid => leaderPid

def isGone : KillTarget → Look Bool
  | leader pid => do pure !(← isAlive pid)
  | group pgid _ => do pure !(← groupHasLiveMembers pgid)

end KillTarget

/-- `own` is the group of the supervisor at the moment of the comparison. -/
def targetIdentityMatches (own : Int) (target : KillTarget) (expected observed : Option F64)
    (leaderAlive : Bool) (observedGroup : Option Int) : Bool :=
  match expected.filter fun value => value.isFinite && value.nonneg with
  | none => false
  | some expected =>
    if observed.any fun value => !value.eq expected then false
    else
      match target with
      | .leader pid => decide (1 < pid) && leaderAlive && observed.any fun value => value.eq expected
      | .group pgid leaderPid =>
        decide (1 < pgid) && decide (pgid = leaderPid) && decide (pgid ≠ own) &&
          match observed with
          | some _ => decide (observedGroup = some pgid)
          | none => !leaderAlive && observedGroup.isNone

/-- `verified_target`. -/
def verifiedTarget (target : KillTarget) (expectedStartTime : Option F64) : Look Bool := do
  let pid := target.leaderPid
  let observed ← pidStartTime pid
  let alive ← isAlive pid
  let group ← pgidOf pid
  let own : Int ← ask .ownGroup
  pure (targetIdentityMatches own target expectedStartTime observed alive group)

/-- `is_negatable_pgid`. -/
def isNegatablePgid (pgid : Int) (protected_ : List Int) : Bool :=
  if pgid ≤ 1 then false else !protected_.contains pgid

/-- `is_signalable_run_pid`. -/
def isSignalableRunPid (pid : Int) (protected_ : List Int) : Look Bool :=
  if pid ≤ 1 then pure false
  else do
    let own : Int ← ask .ownPid
    if pid = own then pure false
    else if protected_.contains pid then pure false
    else pure true

/-- The recorded group is not known to be the worker's own.  `is_alive` is only
reached when the earlier tests leave it open. -/
def foreignGroup (pgid vettedPid : Int) (observedGroup : Option Int) : Look Bool :=
  if pgid ≠ vettedPid ∨ observedGroup.any (· ≠ pgid) then pure true
  else if observedGroup.isNone then isAlive vettedPid
  else pure false

/-- `resolve_kill_target`. -/
def resolveKillTarget (run : ActiveRun) (vettedPid : Int) (protectedPgids : List Int) :
    Look KillTarget :=
  match run.pgid with
  | none => pure (.leader vettedPid)
  | some pgid => do
    let observedGroup ← pgidOf vettedPid
    if ← foreignGroup pgid vettedPid observedGroup then pure (.leader vettedPid)
    else if !isNegatablePgid pgid protectedPgids then pure (.leader vettedPid)
    else pure (.group pgid vettedPid)

/-- `protected_pgids`. -/
def protectedPgids (heartbeatPid : Option Int) : Look (List Int) := do
  let own : Int ← ask .ownGroup
  match heartbeatPid with
  | none => pure [own]
  | some pid =>
    let pgid ← pgidOf pid
    pure (own :: pgid.toList)

/-- The groups of the protected processes that can be read. -/
def groupsOf : List Int → Look (List Int)
  | [] => pure []
  | pid :: rest => do
    let group ← pgidOf pid
    let groups ← groupsOf rest
    pure (group.toList ++ groups)

/-- `decide_run_kill_request`. -/
def decideRunKillRequest (run : ActiveRun) (protected_ : List Int) : Look (Option Int) :=
  match run.pid with
  | none => pure none
  | some pid => do
    if ← isSignalableRunPid pid protected_ then
      let groups ← protectedPgids none
      let more ← groupsOf protected_
      let target ← resolveKillTarget run pid (groups ++ more)
      if ← verifiedTarget target run.pidStartTime then
        if ← target.isGone then pure none else pure (some pid)
      else pure none
    else pure none

/-! ## Terminating the target -/

inductive Signal
  | sigterm
  | sigkill
  deriving DecidableEq, Repr

/-- What becomes of a verification and the signal after it. -/
inductive Struck
  /-- The target is not the recorded one; nothing is sent. -/
  | refused
  /-- The signal could not be sent. -/
  | failed
  | sent
  deriving DecidableEq, Repr

/-- The calls of an escalation: it looks, and it verifies and signals in one. -/
inductive Op
  | look (r : Read)
  | strike (signal : Signal) (target : KillTarget) (expected : Option F64)

@[reducible] def Op.Reply : Op → Type
  | .look r => r.Reply
  | .strike _ _ _ => Struck

abbrev Watch (α : Type) : Type := Script Op.Reply α

def look {α : Type} (x : Look α) : Watch α := x.within Op.look fun _ reply => reply

def strike (signal : Signal) (target : KillTarget) (expected : Option F64) : Watch Struck :=
  Script.ask (Op.strike signal target expected)

/-- `EscalationOutcome`. -/
inductive EscalationOutcome
  | alreadyGone
  | terminatedGracefully
  | killedForcefully
  | failed
  deriving DecidableEq, Repr

/-- A polling loop that the clock ends after `n` rounds: was the target seen gone? -/
def poll (target : KillTarget) : Nat → Watch Bool
  | 0 => pure false
  | n + 1 => do if ← look target.isGone then pure true else poll target n

/-- `graceful` and `forced` are how often the clock lets the two loops go round. -/
def escalateOwnedTarget (target : KillTarget) (expected : Option F64) (graceful forced : Nat) :
    Watch EscalationOutcome := do
  if ← look target.isGone then pure .alreadyGone
  else
    match ← strike .sigterm target expected with
    | .refused => pure .failed
    | .failed => pure .failed
    | .sent =>
      if ← poll target graceful then pure .terminatedGracefully
      else if ← look target.isGone then pure .terminatedGracefully
      else
        match ← strike .sigkill target expected with
        | .refused => pure .failed
        | .failed => pure .failed
        | .sent =>
          if ← poll target forced then pure .killedForcefully else pure .failed

end Zicato.Watchdog
