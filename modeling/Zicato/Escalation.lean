import Zicato.Processes
import Zicato.Watchdog

/-! # Who is signalled

The watchdog's looks are answered by a process table that changes between them
(`Processes`): the table answers exactly, each answer is of its own moment, and
only a verification and the signal after it see one table.  The theorem is about
every run of the request and the escalation in such a table. -/
open List Option
namespace Zicato.Watchdog
open Processes Script

/-! ## The table answers -/

/-- What the table answers to a read. -/
def answer (t : Table) : (r : Read) → r.Reply
  | .fields pid => (t.find pid).map fun p => { ended := p.zombie, pgrp := p.pgid, start := p.start }
  | .exists pid => (t.find pid).isSome
  | .listing => some (t.procs.map (·.pid))
  | .groupExists pgid => !(t.members pgid).isEmpty
  | .ownGroup => t.ownGroup
  | .ownPid => t.ownPid

/-- The processes a signal to the target reaches. -/
def receivers (t : Table) : KillTarget → List Process
  | .leader pid => (t.find pid).toList
  | .group pgid _ => t.members pgid

/-- A verification and the signal after it, on one table.  Delivery may fail. -/
def struck (t : Table) (delivered : Bool) (target : KillTarget) (expected : Option F64) : Struck :=
  if (verifiedTarget target expected).now (answer t) then
    if delivered && !(receivers t target).isEmpty then .sent else .failed
  else .refused

/-- What the table answers to an operation. -/
def serve (t : Table) (delivered : Bool) : (op : Op) → op.Reply
  | .look r => answer t r
  | .strike _ target expected => struck t delivered target expected

/-- The table as the environment of a script. -/
def env : Env Table Change Bool Op.Reply where
  evolve := Table.evolve
  serve := serve

/-- What a script has read and done. -/
abbrev Log : Type := List (Entry Table Op.Reply)

/-- What a logged call delivered. -/
def delivered (e : Entry Table Op.Reply) : Option (Signal × List Process) :=
  match e.call with
  | ⟨.strike signal target _, .sent⟩ => some (signal, receivers e.world target)
  | _ => none

/-- The signals sent, in order. -/
def signals (log : Log) : List Signal := (log.filterMap delivered).map (·.1)

/-- Every process that received a signal. -/
def received (log : Log) : List Process := (log.filterMap delivered).flatMap (·.2)

/-- The last calls of the log are a look at the target that found it gone, each
answered by the table of its moment. -/
def ObservedGone (target : KillTarget) (log : Log) : Prop :=
  ∃ before entries, log = before ++ entries ∧
    (∀ e ∈ entries, ∃ d, e.call.2 = serve e.world d e.call.1) ∧
    Returns (look target.isGone) (entries.map (·.call)) true

/-- The request for a run and, when it is granted, the escalation. -/
def enforce (run : ActiveRun) (heartbeatPid : Option Int) (graceful forced : Nat) :
    Watch (Option (KillTarget × EscalationOutcome)) := do
  let groups ← look (protectedPgids heartbeatPid)
  match ← look (decideRunKillRequest run heartbeatPid.toList) with
  | none => pure none
  | some pid =>
    let target ← look (resolveKillTarget run pid groups)
    let outcome ← escalateOwnedTarget target run.pidStartTime graceful forced
    pure (some (target, outcome))

/-! ## Whose process it is -/

/-- The record names the process with this pid and start time. -/
def Names (run : ActiveRun) (identity : Int × Nat) : Prop :=
  run.pid = some identity.1 ∧ ∃ token, run.pidStartTime = some token ∧
    token.value = some (identity.2 : Rat)

/-- The worker of the record, or a member of a group that it made. -/
def Owned (run : ActiveRun) (p : Process) : Prop := Names run (p.pid, p.start) ∨ Names run p.maker

/-- The recorded number is that of a group another process made, and there is no
process of that number left to show it. -/
def Usurped (run : ActiveRun) (t : Table) : Prop :=
  ∃ pid, run.pid = some pid ∧ run.pgid = some pid ∧ t.find pid = none ∧
    ∃ p ∈ t.members pid, ¬ Names run p.maker

/-! ## What a verification establishes -/

variable {t : Table} {expected : Option F64}

/-- The fields of a pid are those of the process in the table. -/
theorem processFields_now (hv : t.Valid) (pid : Int) :
    (processFields pid).now (answer t) =
      (t.find pid).map fun p => { ended := p.zombie, pgrp := p.pgid, start := p.start } := by
  unfold processFields
  by_cases hpid : pid ≤ 0
  · rw [if_pos hpid]
    cases hfind : t.find pid with
    | none => rfl
    | some p =>
      obtain ⟨hp, rfl⟩ := Table.find_some hfind
      have := hv.pid_pos p hp
      omega
  · rw [if_neg hpid]
    rfl

theorem pidStartTime_now (hv : t.Valid) (pid : Int) :
    (pidStartTime pid).now (answer t) = (t.find pid).map fun p => F64.ofTicks p.start := by
  simp only [pidStartTime, now_bind, processFields_now hv, now_pure, Option.map_map]
  rfl

theorem pgidOf_now (hv : t.Valid) (pid : Int) :
    (pgidOf pid).now (answer t) = ((t.find pid).map (·.pgid)).filter fun pgid => 0 < pgid := by
  simp only [pgidOf, now_bind, processFields_now hv, now_pure, Option.map_map]
  rfl

theorem verified_now (hv : t.Valid) (target : KillTarget) :
    ∃ alive, (verifiedTarget target expected).now (answer t) =
      targetIdentityMatches t.ownGroup target expected
        ((t.find target.leaderPid).map fun p => F64.ofTicks p.start) alive
        (((t.find target.leaderPid).map (·.pgid)).filter fun pgid => 0 < pgid) := by
  refine ⟨(isAlive target.leaderPid).now (answer t), ?_⟩
  simp only [verifiedTarget, now_bind, pidStartTime_now hv, pgidOf_now hv]
  rfl

/-- The start time of the process is the expected token. -/
def Matches (expected : Option F64) (p : Process) : Prop :=
  ∃ token, expected = some token ∧ token.value = some (p.start : Rat)

/-- A verified identity is that of the recorded process. -/
theorem observed_matches {p : Process} {own : Int} {target : KillTarget} {alive : Bool}
    {group : Option Int}
    (h : targetIdentityMatches own target expected (some (F64.ofTicks p.start)) alive group = true) :
    Matches expected p := by
  unfold targetIdentityMatches at h
  split at h
  · cases h
  · rename_i token hfilter
    have hexpected : expected = some token := by
      cases expected with
      | none => cases hfilter
      | some x => exact (filter_eq_some_iff.1 hfilter).1
    by_cases heq : (F64.ofTicks p.start).eq token = true
    · exact ⟨token, hexpected, F64.eq_ofTicks.1 heq⟩
    · simp [heq] at h

/-- A verified leader is the process whose start time was recorded. -/
theorem verified_leader (hv : t.Valid) {pid : Int}
    (h : (verifiedTarget (.leader pid) expected).now (answer t) = true) :
    1 < pid ∧ ∃ p, t.find pid = some p ∧ Matches expected p := by
  obtain ⟨alive, heq⟩ := @verified_now t expected hv (.leader pid)
  rw [heq] at h
  show 1 < pid ∧ _
  cases hfind : t.find pid with
  | none =>
    simp only [KillTarget.leaderPid, hfind, map_none] at h
    unfold targetIdentityMatches at h
    split at h <;> simp at h
  | some p =>
    simp only [KillTarget.leaderPid, hfind, map_some] at h
    refine ⟨?_, p, rfl, observed_matches h⟩
    unfold targetIdentityMatches at h
    split at h
    · cases h
    · split at h
      · cases h
      · simp only [Bool.and_eq_true, decide_eq_true_eq] at h
        exact h.1.1

/-- A verified group is led by the process whose start time was recorded, or has
no process of its number. -/
theorem verified_group (hv : t.Valid) {pgid leaderPid : Int}
    (h : (verifiedTarget (.group pgid leaderPid) expected).now (answer t) = true) :
    1 < pgid ∧ pgid = leaderPid ∧ pgid ≠ t.ownGroup ∧
      ((∃ p, t.find pgid = some p ∧ Matches expected p) ∨ t.find pgid = none) := by
  obtain ⟨alive, heq⟩ := @verified_now t expected hv (.group pgid leaderPid)
  rw [heq] at h
  have hguards : 1 < pgid ∧ pgid = leaderPid ∧ pgid ≠ t.ownGroup := by
    unfold targetIdentityMatches at h
    split at h
    · cases h
    · split at h
      · cases h
      · simp only [Bool.and_eq_true, decide_eq_true_eq] at h
        exact ⟨h.1.1.1, h.1.1.2, h.1.2⟩
  obtain ⟨hone, rfl, hown⟩ := hguards
  refine ⟨hone, rfl, hown, ?_⟩
  cases hfind : t.find pgid with
  | none => exact .inr rfl
  | some p =>
    simp only [KillTarget.leaderPid, hfind, map_some] at h
    exact .inl ⟨p, rfl, observed_matches h⟩

/-! ## What a verified signal reaches -/

section
variable (run : ActiveRun) (heartbeat : Option Int) (t₀ : Table)

/-- Neither init, nor the supervisor, nor the process the heartbeat names. -/
structure Safe (r : Process) : Prop where
  pid : 1 < r.pid
  self : r.birth ≠ t₀.self
  orchestrator : ∀ o ∈ t₀.procs, o.birth ∈ t₀.settled → heartbeat = some o.pid → r.birth ≠ o.birth

/-- What is settled about a target before it is verified. -/
structure Chosen (groups : List Int) (target : KillTarget) : Prop where
  pid : run.pid = some target.leaderPid
  self : target.leaderPid ≠ t₀.ownPid
  heartbeat : heartbeat ≠ some target.leaderPid
  group : ∀ pgid leaderPid, target = .group pgid leaderPid → run.pgid = some pgid ∧ pgid ∉ groups

/-- The table `u` showed the group of the heartbeat's process, if there was one. -/
def Fences (groups : List Int) (u : Table) : Prop :=
  ∀ h, heartbeat = some h → ∀ p, u.find h = some p → 0 < p.pgid → p.pgid ∈ groups

end

variable {run : ActiveRun} {heartbeat : Option Int} {t₀ u : Table} {groups : List Int}
  {target : KillTarget}

/-- A settled process has the pid it had. -/
theorem pid_of_birth (hv₀ : t₀.Valid) (hlater : Table.Later t₀ t) {o r : Process}
    (ho : o ∈ t₀.procs) (hsettled : o.birth ∈ t₀.settled) (hr : r ∈ t.procs)
    (hbirth : r.birth = o.birth) : r.pid = o.pid := by
  obtain ⟨o', ho', hbirth', hpid, -⟩ := hlater.kept r hr (hbirth ▸ hsettled)
  rw [← hpid, hv₀.birth_inj o' ho' o ho (hbirth'.trans hbirth)]

/-- Whoever receives a signal is no protected process. -/
theorem receivers_safe (hv₀ : t₀.Valid) (hv : t.Valid) (hlater : Table.Later t₀ t)
    (huv : u.Valid) (hu : Table.Later u t) (hut : u.settled = t₀.settled)
    (hfences : Fences heartbeat groups u)
    (hchosen : Chosen run heartbeat t₀ groups target)
    (hverified : (verifiedTarget target run.pidStartTime).now (answer t) = true) :
    ∀ r ∈ receivers t target, Safe heartbeat t₀ r := by
  intro r hr
  cases target with
  | leader pid =>
    obtain ⟨hone, -⟩ := verified_leader hv hverified
    obtain ⟨hmem, hpid⟩ := Table.find_some (mem_toList.1 hr)
    refine ⟨hpid ▸ hone, ?_, ?_⟩
    · intro hself
      refine hchosen.self ?_
      show pid = _
      rw [← hpid, ← hlater.ownPid hv₀ hv]
      exact hv.pid_self hmem (hself.trans hlater.self.symm)
    · intro o ho hsettled hheart hbirth
      refine hchosen.heartbeat ?_
      rw [hheart, ← pid_of_birth hv₀ hlater ho hsettled hmem hbirth]
      exact congrArg some hpid
  | group pgid leaderPid =>
    obtain ⟨hone, -, hown, -⟩ := verified_group hv hverified
    obtain ⟨hmem, hpgid⟩ := Table.mem_members.1 hr
    refine ⟨?_, ?_, ?_⟩
    · have hpos := hv.pid_pos r hmem
      by_contra hle
      have := (hv.init_settled r hmem (by omega)).1
      omega
    · intro hself
      exact hown (hpgid ▸ hv.pgid_self hmem (hself.trans hlater.self.symm))
    · intro o ho hsettled hheart hbirth
      have hpid := pid_of_birth hv₀ hlater ho hsettled hmem hbirth
      -- The process was in this group already when its group was read.
      obtain ⟨p, hp, -, hppid, hppgid⟩ := hu.kept r hmem (by rw [hut, hbirth]; exact hsettled)
      refine (hchosen.group pgid leaderPid rfl).2 ?_
      have hfind := huv.find_eq hp
      rw [hppid, hpid] at hfind
      have hin := hfences o.pid hheart p hfind (by omega)
      rwa [hppgid, hpgid] at hin

/-- Whoever receives a signal belongs to the run, unless it was usurped. -/
theorem receivers_owned (hv : t.Valid) (hchosen : Chosen run heartbeat t₀ groups target)
    (hverified : (verifiedTarget target run.pidStartTime).now (answer t) = true)
    (hclean : ¬ Usurped run t) : ∀ r ∈ receivers t target, Owned run r := by
  intro r hr
  have hpid := hchosen.pid
  cases target with
  | leader pid =>
    obtain ⟨-, p, hfind, hmatches⟩ := verified_leader hv hverified
    have hrp : r = p := by simpa [receivers, hfind] using hr
    obtain ⟨-, hppid⟩ := Table.find_some hfind
    subst hrp
    exact .inl ⟨by rw [hpid, hppid]; rfl, hmatches⟩
  | group pgid leaderPid =>
    obtain ⟨-, rfl, -, hled | hnone⟩ := verified_group hv hverified
    · obtain ⟨p, hfind, hmatches⟩ := hled
      obtain ⟨hmem, rfl⟩ := Table.find_some hfind
      obtain ⟨hrmem, hpgid⟩ := Table.mem_members.1 hr
      refine .inr ?_
      rw [hv.leader p hmem r hrmem hpgid]
      exact ⟨hpid, hmatches⟩
    · by_contra hforeign
      refine hclean ⟨pgid, hpid, (hchosen.group pgid pgid rfl).1, hnone, r, hr, ?_⟩
      intro hnames
      exact hforeign (.inr hnames)

/-! ## Along the program -/

section
variable (run : ActiveRun) (heartbeat : Option Int) (t₀ : Table) (clean : Prop)

/-- The answers possible after a log: a later table gives them.  `clean` is that no
table of the run is usurped. -/
def Possible (log : Log) (w : Table) (op : Op) (reply : op.Reply) : Prop :=
  w.Valid ∧ Table.Later t₀ w ∧ (clean → ¬ Usurped run w) ∧ (∀ e ∈ log, Table.Later e.world w) ∧
    ∃ d, reply = serve w d op

/-- What holds of the log at every moment. -/
structure Kept (log : Log) : Prop where
  safe : ∀ r ∈ received log, Safe heartbeat t₀ r
  owned : clean → ∀ r ∈ received log, Owned run r
  order : signals log = [] ∨ signals log = [.sigterm] ∨ signals log = [.sigterm, .sigkill]

/-- The group of the heartbeat's process was read into `groups`. -/
def Fenced (groups : List Int) (log : Log) : Prop :=
  ∃ e ∈ log, e.world.Valid ∧ e.world.settled = t₀.settled ∧ Fences heartbeat groups e.world

end

variable {clean : Prop} {log : Log}

variable {e : Entry Table Op.Reply}

theorem delivered_look (h : ∃ r, e.call.1 = Op.look r) : delivered e = none := by
  obtain ⟨r, hr⟩ := h
  obtain ⟨w, op, reply⟩ := e
  cases hr
  rfl

theorem filterMap_silent {entries : Log} (h : ∀ e ∈ entries, delivered e = none) :
    (log ++ entries).filterMap delivered = log.filterMap delivered := by
  rw [filterMap_append, filterMap_eq_nil_iff.2 h, append_nil]

theorem Kept.silent (h : Kept run heartbeat t₀ clean log) {entries : Log}
    (hentries : ∀ e ∈ entries, delivered e = none) :
    Kept run heartbeat t₀ clean (log ++ entries) := by
  constructor
  · rw [received, filterMap_silent hentries]
    exact h.safe
  · rw [received, filterMap_silent hentries]
    exact h.owned
  · rw [signals, filterMap_silent hentries]
    exact h.order

/-- Looking changes nothing about the signals. -/
theorem always_look {α : Type} (x : Look α) (hlog : Kept run heartbeat t₀ clean log) :
    Always (Possible run t₀ clean) (Kept run heartbeat t₀ clean) (look x) log fun log' a =>
      Kept run heartbeat t₀ clean log' ∧ signals log' = signals log ∧
      ∃ entries, log' = log ++ entries ∧
        (∀ e ∈ entries, ∃ d, e.call.2 = serve e.world d e.call.1) ∧
        Returns (look x) (entries.map (·.call)) a := by
  have honly : Only (fun op => ∃ r, op = Op.look r) (look x) := only_within (fun r => ⟨r, rfl⟩) x
  refine (always_only ?_ honly hlog).mono ?_
  · rintro log w op reply hop h
    refine h.silent fun e he => ?_
    rw [mem_singleton.1 he]
    exact delivered_look hop
  · rintro log' a hkept ⟨-, entries, rfl, hentries, hreturns⟩
    refine ⟨hkept, ?_, entries, rfl, ?_, hreturns⟩
    · rw [signals, filterMap_silent fun e he => delivered_look (hentries e he).1, signals]
    · intro e he
      obtain ⟨-, before, -, -, -, -, d, hd⟩ := hentries e he
      exact ⟨d, hd⟩

/-- The looks of a poll end with the target seen gone, or with nothing learnt. -/
theorem always_poll (n : Nat) (hlog : Kept run heartbeat t₀ clean log) :
    Always (Possible run t₀ clean) (Kept run heartbeat t₀ clean) (poll target n) log
      fun log' b => Kept run heartbeat t₀ clean log' ∧ signals log' = signals log ∧
        (∃ entries, log' = log ++ entries) ∧ (b = true → ObservedGone target log') := by
  induction n generalizing log with
  | zero => exact ⟨hlog, hlog, rfl, ⟨[], by simp⟩, by simp⟩
  | succ n ih =>
    refine always_bind ((always_look target.isGone hlog).mono ?_)
    rintro log' b - ⟨hkept, hsignals, entries, rfl, hserved, hreturns⟩
    cases b with
    | true => exact ⟨hkept, hkept, hsignals, ⟨entries, rfl⟩, fun _ => ⟨log, entries, rfl, hserved, hreturns⟩⟩
    | false =>
      refine (ih hkept).mono ?_
      rintro log'' b - ⟨hkept', hsignals', ⟨more, rfl⟩, hgone⟩
      exact ⟨hkept', hsignals'.trans hsignals, ⟨entries ++ more, by simp⟩, hgone⟩

theorem verified_of_sent {w : Table} {d : Bool} (h : struck w d target expected = .sent) :
    (verifiedTarget target expected).now (answer w) = true := by
  by_contra hnot
  simp [struck, hnot] at h

/-- A signal sent after a verification keeps what is kept. -/
theorem Kept.sent (h : Kept run heartbeat t₀ clean log) {signal : Signal}
    (hdelivered : delivered e = some (signal, receivers e.world target))
    (hsafe : ∀ r ∈ receivers e.world target, Safe heartbeat t₀ r)
    (howned : clean → ∀ r ∈ receivers e.world target, Owned run r)
    (hnext : signals log = [] ∧ signal = .sigterm ∨ signals log = [.sigterm] ∧ signal = .sigkill) :
    Kept run heartbeat t₀ clean (log ++ [e]) ∧ signals (log ++ [e]) = signals log ++ [signal] := by
  have hlog : (log ++ [e]).filterMap delivered =
      log.filterMap delivered ++ [(signal, receivers e.world target)] := by
    rw [filterMap_append, filterMap_cons_some hdelivered, filterMap_nil]
  have hreceived : received (log ++ [e]) = received log ++ receivers e.world target := by
    simp [received, hlog]
  have hsignals : signals (log ++ [e]) = signals log ++ [signal] := by
    simp [signals, hlog]
  refine ⟨⟨?_, ?_, ?_⟩, hsignals⟩
  · intro r hr
    rw [hreceived, mem_append] at hr
    exact hr.elim (h.safe r) (hsafe r)
  · intro hc r hr
    rw [hreceived, mem_append] at hr
    exact hr.elim (h.owned hc r) (howned hc r)
  · rw [hsignals]
    rcases hnext with ⟨hnone, rfl⟩ | ⟨hterm, rfl⟩
    · rw [hnone]
      exact .inr (.inl rfl)
    · rw [hterm]
      exact .inr (.inr rfl)

/-- One verified signal, the first or the second. -/
theorem always_strike (hv₀ : t₀.Valid) (hlog : Kept run heartbeat t₀ clean log)
    (hchosen : Chosen run heartbeat t₀ groups target) (hfenced : Fenced heartbeat t₀ groups log)
    {signal : Signal} (hnext : signals log = [] ∧ signal = .sigterm ∨
      signals log = [.sigterm] ∧ signal = .sigkill) :
    Always (Possible run t₀ clean) (Kept run heartbeat t₀ clean)
      (strike signal target run.pidStartTime) log
      fun log' reply => Kept run heartbeat t₀ clean log' ∧ (∃ entries, log' = log ++ entries) ∧
        (reply = .sent → signals log' = signals log ++ [signal]) := by
  refine ⟨hlog, fun w reply hpossible => ?_⟩
  obtain ⟨hv, hlater, hclean, hafter, d, hreply⟩ := hpossible
  have hsilent : ∀ {reply : Struck}, reply ≠ .sent → Kept run heartbeat t₀ clean
      (log ++ [⟨w, Op.strike signal target run.pidStartTime, reply⟩]) := by
    intro reply hne
    refine hlog.silent fun e he => ?_
    rw [mem_singleton.1 he]
    cases reply with
    | refused => rfl
    | failed => rfl
    | sent => exact absurd rfl hne
  cases reply with
  | refused => exact ⟨hsilent (by simp), hsilent (by simp), ⟨_, rfl⟩, by simp⟩
  | failed => exact ⟨hsilent (by simp), hsilent (by simp), ⟨_, rfl⟩, by simp⟩
  | sent =>
    have hverified := verified_of_sent hreply.symm
    obtain ⟨e, he, hev, hset, hfences⟩ := hfenced
    obtain ⟨hkept, hsignals⟩ := hlog.sent
      (e := ⟨w, Op.strike signal target run.pidStartTime, Struck.sent⟩) rfl
      (receivers_safe hv₀ hv hlater hev (hafter e he) hset hfences hchosen hverified)
      (fun hc => receivers_owned hv hchosen hverified (hclean hc)) hnext
    exact ⟨hkept, hkept, ⟨_, rfl⟩, fun _ => hsignals⟩

theorem Fenced.append (h : Fenced heartbeat t₀ groups log) (entries : Log) :
    Fenced heartbeat t₀ groups (log ++ entries) := by
  obtain ⟨e, he, hrest⟩ := h
  exact ⟨e, mem_append_left _ he, hrest⟩

/-- An escalation sends at most the two signals, in order, and reports an end only
after it saw one. -/
theorem always_escalate (hv₀ : t₀.Valid) (hlog : Kept run heartbeat t₀ clean log)
    (hchosen : Chosen run heartbeat t₀ groups target) (hfenced : Fenced heartbeat t₀ groups log)
    (hnone : signals log = []) (graceful forced : Nat) :
    Always (Possible run t₀ clean) (Kept run heartbeat t₀ clean)
      (escalateOwnedTarget target run.pidStartTime graceful forced) log
      fun log' outcome => outcome = .terminatedGracefully ∨ outcome = .killedForcefully →
        ObservedGone target log' := by
  refine always_bind ((always_look target.isGone hlog).mono ?_)
  rintro log₁ gone - ⟨hkept₁, hsignals₁, entries₁, rfl, -, -⟩
  cases gone with
  | true => exact ⟨hkept₁, by simp⟩
  | false =>
    have hfenced₁ := hfenced.append entries₁
    rw [hnone] at hsignals₁
    refine always_bind ((always_strike hv₀ hkept₁ hchosen hfenced₁ (.inl ⟨hsignals₁, rfl⟩)).mono ?_)
    rintro log₂ reply - ⟨hkept₂, ⟨entries₂, rfl⟩, hsignals₂⟩
    cases reply with
    | refused => exact ⟨hkept₂, by simp⟩
    | failed => exact ⟨hkept₂, by simp⟩
    | sent =>
      have hfenced₂ := hfenced₁.append entries₂
      have hterm := hsignals₂ rfl
      rw [hsignals₁] at hterm
      refine always_bind ((always_poll graceful hkept₂).mono ?_)
      rintro log₃ gone - ⟨hkept₃, hsignals₃, ⟨entries₃, rfl⟩, hgone₃⟩
      cases gone with
      | true => exact ⟨hkept₃, fun _ => hgone₃ rfl⟩
      | false =>
        refine always_bind ((always_look target.isGone hkept₃).mono ?_)
        rintro log₄ gone - ⟨hkept₄, hsignals₄, entries₄, rfl, hserved, hreturns⟩
        cases gone with
        | true => exact ⟨hkept₄, fun _ => ⟨_, entries₄, rfl, hserved, hreturns⟩⟩
        | false =>
          have hfenced₄ := (hfenced₂.append entries₃).append entries₄
          have hterm₄ : signals _ = [Signal.sigterm] := (hsignals₄.trans hsignals₃).trans hterm
          refine always_bind
            ((always_strike hv₀ hkept₄ hchosen hfenced₄ (.inr ⟨hterm₄, rfl⟩)).mono ?_)
          rintro log₅ reply - ⟨hkept₅, -, -⟩
          cases reply with
          | refused => exact ⟨hkept₅, by simp⟩
          | failed => exact ⟨hkept₅, by simp⟩
          | sent =>
            refine always_bind ((always_poll forced hkept₅).mono ?_)
            rintro log₆ gone - ⟨hkept₆, -, -, hgone₆⟩
            cases gone with
            | true => exact ⟨hkept₆, fun _ => hgone₆ rfl⟩
            | false => exact ⟨hkept₆, by simp⟩

/-! ## Before the escalation -/

/-- A single look, at some later table. -/
theorem always_ask {α : Type} (hlog : Kept run heartbeat t₀ clean log) {r : Read}
    {next : r.Reply → Watch α} {Post : Log → α → Prop}
    (h : ∀ w : Table, w.Valid → Table.Later t₀ w →
      Kept run heartbeat t₀ clean (log ++ [⟨w, Op.look r, answer w r⟩]) →
      signals (log ++ [⟨w, Op.look r, answer w r⟩]) = signals log →
      Always (Possible run t₀ clean) (Kept run heartbeat t₀ clean) (next (answer w r))
        (log ++ [⟨w, Op.look r, answer w r⟩]) Post) :
    Always (Possible run t₀ clean) (Kept run heartbeat t₀ clean)
      (.call (Op.look r) next : Watch α) log Post := by
  refine ⟨hlog, fun w reply hpossible => ?_⟩
  obtain ⟨hv, hlater, -, -, d, rfl⟩ := hpossible
  have hnone : ∀ e ∈ ([⟨w, Op.look r, answer w r⟩] : Log), delivered e = none := by
    intro e he
    rw [mem_singleton.1 he]
    rfl
  refine h w hv hlater (hlog.silent hnone) ?_
  rw [signals, filterMap_silent hnone, signals]

/-- The protected groups are those of the table at the start. -/
theorem always_protected (hlog : Kept run heartbeat t₀ clean log) :
    Always (Possible run t₀ clean) (Kept run heartbeat t₀ clean)
      (look (protectedPgids heartbeat)) log fun log' groups =>
        Kept run heartbeat t₀ clean log' ∧ signals log' = signals log ∧
          Fenced heartbeat t₀ groups log' := by
  have hpos : ∀ {w : Table} {h : Int} {p : Process}, w.Valid → w.find h = some p → 0 < h := by
    intro w h p hv hfind
    obtain ⟨hp, rfl⟩ := Table.find_some hfind
    exact hv.pid_pos p hp
  unfold protectedPgids
  refine always_ask hlog fun w hv hlater hkept hsignals => ?_
  cases heartbeat with
  | none =>
    refine ⟨hkept, hkept, hsignals, _, mem_append_right _ (mem_singleton_self _), hv,
      hlater.settled, ?_⟩
    intro h hnone
    cases hnone
  | some h =>
    by_cases hle : h ≤ 0
    · refine (always_look _ hkept).mono ?_
      rintro log' groups hkept' ⟨-, hsignals', entries, rfl, -, -⟩
      refine ⟨hkept', hsignals'.trans hsignals, _,
        mem_append_left _ (mem_append_right _ (mem_singleton_self _)), hv,
        hlater.settled, ?_⟩
      intro h' heq p hfind
      cases heq
      exact absurd (hpos hv hfind) (Int.not_lt.2 hle)
    · simp only [pgidOf, processFields, if_neg hle]
      refine always_ask hkept fun w' hv' hlater' hkept' hsignals' => ?_
      have hend : ∀ groups : List Int, Fences (some h) groups w' →
          Fenced (some h) t₀ groups (log ++ [⟨w, Op.look .ownGroup, answer w .ownGroup⟩] ++
            [⟨w', Op.look (.fields h), answer w' (.fields h)⟩]) := fun groups hfences =>
        ⟨_, mem_append_right _ (mem_singleton_self _), hv', hlater'.settled, hfences⟩
      refine ⟨hkept', hkept', hsignals'.trans hsignals, hend _ ?_⟩
      intro h' heq p hfind hpgid
      cases heq
      simp [answer, hfind, hpgid]

variable {calls : List (Σ r : Read, r.Reply)}

/-- A granted request names the recorded pid. -/
theorem returns_request {pid : Int} {granted : Option Int} (h : Returns (do
      let target ← resolveKillTarget run pid groups
      if ← verifiedTarget target run.pidStartTime then
        if ← target.isGone then pure none else pure (some pid)
      else pure none : Look (Option Int)) calls granted) : granted = none ∨ granted = some pid := by
  obtain ⟨_, _, target, -, -, h⟩ := returns_bind h
  obtain ⟨_, _, verified, -, -, h⟩ := returns_bind h
  cases verified with
  | false => exact .inl (returns_pure h)
  | true =>
    obtain ⟨_, _, gone, -, -, h⟩ := returns_bind h
    cases gone with
    | false => exact .inr (returns_pure h)
    | true => exact .inl (returns_pure h)

/-- A pid that may be signalled is neither the supervisor nor the heartbeat. -/
theorem always_signalable (hv₀ : t₀.Valid) (hlog : Kept run heartbeat t₀ clean log) (pid : Int) :
    Always (Possible run t₀ clean) (Kept run heartbeat t₀ clean)
      (look (isSignalableRunPid pid heartbeat.toList)) log fun log' signalable =>
        Kept run heartbeat t₀ clean log' ∧ signals log' = signals log ∧
        (∃ entries, log' = log ++ entries) ∧
        (signalable = true → pid ≠ t₀.ownPid ∧ heartbeat ≠ some pid) := by
  unfold isSignalableRunPid
  by_cases hone : pid ≤ 1
  · rw [if_pos hone]
    exact ⟨hlog, hlog, rfl, ⟨[], by simp⟩, by simp⟩
  · rw [if_neg hone]
    refine always_ask hlog fun w hv hlater hkept hsignals => ?_
    show Always _ _ (look (if pid = w.ownPid then pure false
      else if heartbeat.toList.contains pid = true then pure false else pure true)) _ _
    by_cases hown : pid = w.ownPid
    · rw [if_pos hown]
      exact ⟨hkept, hkept, hsignals, ⟨_, rfl⟩, by simp⟩
    · rw [if_neg hown]
      by_cases hheart : heartbeat.toList.contains pid = true
      · rw [if_pos hheart]
        exact ⟨hkept, hkept, hsignals, ⟨_, rfl⟩, by simp⟩
      · rw [if_neg hheart]
        refine ⟨hkept, hkept, hsignals, ⟨_, rfl⟩, fun _ => ⟨?_, ?_⟩⟩
        · rw [← hlater.ownPid hv₀ hv]
          exact hown
        · rintro rfl
          simp at hheart

/-- A kill request is granted for a live process of the run only. -/
theorem always_decide (hv₀ : t₀.Valid) (hlog : Kept run heartbeat t₀ clean log) :
    Always (Possible run t₀ clean) (Kept run heartbeat t₀ clean)
      (look (decideRunKillRequest run heartbeat.toList)) log fun log' granted =>
        Kept run heartbeat t₀ clean log' ∧ signals log' = signals log ∧
        (∃ entries, log' = log ++ entries) ∧
        ∀ pid, granted = some pid → run.pid = some pid ∧ pid ≠ t₀.ownPid ∧ heartbeat ≠ some pid := by
  unfold decideRunKillRequest
  cases hpid : run.pid with
  | none => exact ⟨hlog, hlog, rfl, ⟨[], by simp⟩, by simp⟩
  | some pid =>
    simp only [look, within_bind]
    refine always_bind ((always_signalable hv₀ hlog pid).mono ?_)
    rintro log₁ signalable - ⟨hkept₁, hsignals₁, ⟨entries₁, rfl⟩, hsignalable⟩
    cases signalable with
    | false => exact ⟨hkept₁, hkept₁, hsignals₁, ⟨_, rfl⟩, by simp⟩
    | true =>
      refine (always_look _ hkept₁).mono ?_
      rintro log₂ granted hkept₂ ⟨-, hsignals₂, entries₂, rfl, -, hreturns⟩
      refine ⟨hkept₂, hsignals₂.trans hsignals₁, ⟨_, List.append_assoc _ _ _⟩, ?_⟩
      intro pid' hgranted
      obtain ⟨calls, hcalls⟩ := returns_within hreturns
      obtain ⟨_, _, groups, -, -, hcalls⟩ := returns_bind hcalls
      obtain ⟨_, _, more, -, -, hcalls⟩ := returns_bind hcalls
      rcases returns_request hcalls with hnone | hsome
      · rw [hgranted] at hnone
        cases hnone
      · rw [hgranted] at hsome
        cases hsome
        exact ⟨rfl, hsignalable rfl⟩

/-- The target is the recorded leader alone, or the group of its own number when
that group is not fenced off. -/
theorem returns_resolve {pid : Int} (h : Returns (resolveKillTarget run pid groups) calls target) :
    target = .leader pid ∨
      (target = .group pid pid ∧ run.pgid = some pid ∧ pid ∉ groups) := by
  unfold resolveKillTarget at h
  cases hpgid : run.pgid with
  | none =>
    rw [hpgid] at h
    exact .inl (returns_pure h)
  | some pgid =>
    rw [hpgid] at h
    obtain ⟨_, _, group, -, -, h⟩ := returns_bind h
    obtain ⟨_, _, foreign, -, hforeign, h⟩ := returns_bind h
    cases foreign with
    | true => exact .inl (returns_pure h)
    | false =>
      by_cases hneg : isNegatablePgid pgid groups = true
      · have hsame : pgid = pid := by
          by_contra hne
          rw [foreignGroup, if_pos (Or.inl hne)] at hforeign
          cases returns_pure hforeign
        subst hsame
        refine .inr ⟨?_, rfl, ?_⟩
        · simp only [hneg] at h
          exact returns_pure h
        · intro hmem
          unfold isNegatablePgid at hneg
          split at hneg
          · cases hneg
          · simp [hmem] at hneg
      · simp only [hneg] at h
        exact .inl (returns_pure h)

/-! ## Every run -/

/-- What an enforcement that reports success has seen. -/
theorem always_enforce (hv₀ : t₀.Valid) (graceful forced : Nat) :
    Always (Possible run t₀ clean) (Kept run heartbeat t₀ clean)
      (enforce run heartbeat graceful forced) []
      fun log' result => ∀ target outcome, result = some (target, outcome) →
        outcome = .terminatedGracefully ∨ outcome = .killedForcefully →
        ObservedGone target log' := by
  have hempty : Kept run heartbeat t₀ clean [] := ⟨by simp [received], by simp [received], .inl rfl⟩
  refine always_bind ((always_protected hempty).mono ?_)
  rintro log₁ groups - ⟨hkept₁, hsignals₁, hfenced₁⟩
  refine always_bind ((always_decide hv₀ hkept₁).mono ?_)
  rintro log₂ granted - ⟨hkept₂, hsignals₂, ⟨entries₂, rfl⟩, hgranted⟩
  cases granted with
  | none => exact ⟨hkept₂, by simp⟩
  | some pid =>
    obtain ⟨hpid, hself, hheart⟩ := hgranted pid rfl
    refine always_bind ((always_look _ hkept₂).mono ?_)
    rintro log₃ target - ⟨hkept₃, hsignals₃, entries₃, rfl, -, hreturns⟩
    obtain ⟨calls, hcalls⟩ := returns_within hreturns
    have hleader : target.leaderPid = pid := by
      rcases returns_resolve hcalls with rfl | ⟨rfl, -, -⟩ <;> rfl
    have hchosen : Chosen run heartbeat t₀ groups target := by
      refine ⟨hleader ▸ hpid, hleader ▸ hself, hleader ▸ hheart, ?_⟩
      rintro pgid leaderPid rfl
      rcases returns_resolve hcalls with hleader | ⟨hgroup, hpgid, hfree⟩
      · cases hleader
      · cases hgroup
        exact ⟨hpgid, hfree⟩
    refine always_bind ((always_escalate hv₀ hkept₃ hchosen
      ((hfenced₁.append entries₂).append entries₃)
      ((hsignals₃.trans hsignals₂).trans hsignals₁) graceful forced).mono ?_)
    intro log₄ outcome hkept₄ hgone
    refine ⟨hkept₄, ?_⟩
    intro target' outcome' heq
    cases heq
    exact hgone

/-- The watchdog at the start of a request for the run. -/
def begin (t₀ : Table) (run : ActiveRun) (heartbeat : Option Int) (graceful forced : Nat) :
    Running Table Op.Reply (Option (KillTarget × EscalationOutcome)) where
  world := t₀
  rest := enforce run heartbeat graceful forced
  log := []

/-- **Every signal of every run.**  Whatever the table does between the calls, no
signal reaches init, the supervisor or the heartbeat's process, at most one
SIGTERM is followed by at most one SIGKILL, and an end is reported only after it
was seen.  A signal reaches none but the recorded worker and the group it made,
provided that no table of the run is usurped: a group of the recorded number that
another process made and that has no process of its number is taken for the
worker's group whose leader has exited. -/
theorem watchdog_signals (hv₀ : t₀.Valid) (graceful forced : Nat) {events : List (Event Change Bool)}
    {s : Running Table Op.Reply (Option (KillTarget × EscalationOutcome))}
    (hrun : Script.run env (begin t₀ run heartbeat graceful forced) events = some s) :
    (∀ r ∈ received s.log, Safe heartbeat t₀ r) ∧
    (signals s.log = [] ∨ signals s.log = [.sigterm] ∨ signals s.log = [.sigterm, .sigkill]) ∧
    (∀ target outcome, s.rest = .ret (some (target, outcome)) →
      outcome = .terminatedGracefully ∨ outcome = .killedForcefully → ObservedGone target s.log) ∧
    (Through env (fun t => ¬ Usurped run t) (begin t₀ run heartbeat graceful forced) events →
      ∀ r ∈ received s.log, Owned run r) := by
  have hthrough : Through env (fun t => t.Valid ∧ Table.Later t₀ t)
      (begin t₀ run heartbeat graceful forced) events := by
    refine through_of_kept ?_ ⟨hv₀, Table.Later.refl t₀⟩
    rintro t c t' ⟨hv, hlater⟩ hevolve
    exact ⟨hv.evolve hevolve, hlater.trans (hv.later hevolve)⟩
  obtain ⟨-, halways⟩ := run_always
    (P := fun t => t.Valid ∧ Table.Later t₀ t ∧
      (Through env (fun t => ¬ Usurped run t) (begin t₀ run heartbeat graceful forced) events →
        ¬ Usurped run t))
    (R := Table.Later) Table.Later.refl (fun _ _ _ => Table.Later.trans)
    (fun t c t' h hevolve => h.1.later hevolve)
    (fun log t d op h hafter => ⟨h.1, h.2.1, h.2.2, hafter, d, rfl⟩)
    (s := begin t₀ run heartbeat graceful forced)
    (fun before hbefore s' hs' => ⟨(hthrough before hbefore s' hs').1,
      (hthrough before hbefore s' hs').2, fun hclean => hclean before hbefore s' hs'⟩)
    (by simp [begin]) (always_enforce hv₀ graceful forced) hrun
  refine ⟨halways.inv.safe, halways.inv.order, ?_, halways.inv.owned⟩
  intro target outcome hrest
  rw [hrest] at halways
  exact halways.2 target outcome rfl

/-! A worker 200 with a helper 201 in its group, under the supervisor 100. -/

/-- A supervisor, a producer and the run it made. -/
def demoTable : Table where
  procs := [
    { pid := 1, pgid := 1, start := 0, zombie := false, maker := (1, 0), birth := 0 },
    { pid := 100, pgid := 100, start := 3, zombie := false, maker := (100, 3), birth := 1 },
    { pid := 200, pgid := 200, start := 5, zombie := false, maker := (200, 5), birth := 2 },
    { pid := 201, pgid := 200, start := 6, zombie := false, maker := (200, 5), birth := 3 }]
  births := 4
  self := 1
  settled := [0, 1]

theorem demoTable_valid : demoTable.Valid := by
  constructor <;> decide

/-- The record of that run. -/
def demoRun : ActiveRun where
  runId := "run-1"
  pid := some 200
  producerPid := none
  producerStartTime := none
  pidStartTime := some (F64.ofTicks 5)
  pgid := some 200
  snapshotPath := none
  startedAt := none
  lastProgress := none
  deadline := none
  wallClockBudgetSeconds := none

/-- Worker and helper are signalled twice, and both are the record's own. -/
theorem watchdog_signals_demo :
    ∃ s, Script.run env (begin demoTable demoRun none 0 0) (List.replicate 27 (.act true)) = some s ∧
      (received s.log).map (·.pid) = [200, 201, 200, 201] ∧ ∀ r ∈ received s.log, Owned demoRun r := by
  have hpids : (Script.run env (begin demoTable demoRun none 0 0)
      (List.replicate 27 (.act true))).map (fun s => (received s.log).map (·.pid)) =
        some [200, 201, 200, 201] := by decide
  obtain ⟨s, hrun, hreceived⟩ := Option.map_eq_some_iff.1 hpids
  refine ⟨s, hrun, hreceived, (watchdog_signals demoTable_valid 0 0 hrun).2.2.2 ?_⟩
  refine through_of_still ?_
  rintro ⟨pid, hpid, -, hfind, -⟩
  cases hpid
  exact absurd hfind (by decide)

/-- The worker and its helper end, an unrelated process gets the number 200, makes
the group 200, starts the process 202 in it and ends. -/
def recycling : List (Event Change Bool) := [
  .change (.exit 201), .change (.reap 201), .change (.exit 200), .change (.reap 200),
  .change (.fork 1 200 9), .change (.lead 200), .change (.fork 200 202 10),
  .change (.exit 200), .change (.reap 200)]

/-- The stranger 202 is sent a SIGTERM. -/
theorem recycled_group_is_signalled :
    ¬ ∀ (t₀ : Table) (run : ActiveRun) (heartbeat : Option Int) (graceful forced : Nat)
      (events : List (Event Change Bool))
      (s : Running Table Op.Reply (Option (KillTarget × EscalationOutcome))), t₀.Valid →
      Script.run env (begin t₀ run heartbeat graceful forced) events = some s →
      ∀ r ∈ received s.log, Owned run r := by
  intro h
  have hstranger : (Script.run env (begin demoTable demoRun none 0 0)
      (recycling ++ List.replicate 21 (.act true))).map (fun s => received s.log) =
        some [{ pid := 202, pgid := 200, start := 10, zombie := false, maker := (200, 9), birth := 5 }] := by
    decide
  obtain ⟨s, hrun, hreceived⟩ := Option.map_eq_some_iff.1 hstranger
  rcases h _ _ _ _ _ _ s demoTable_valid hrun _ (hreceived ▸ List.mem_singleton_self _) with
    ⟨hpid, -⟩ | ⟨-, token, htoken, hvalue⟩
  · cases hpid
  · cases htoken
    exact absurd hvalue (by decide)

end Zicato.Watchdog
