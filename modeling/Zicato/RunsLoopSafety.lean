import Zicato.RunsLoop

/-! # The bookkeeping of the runs loop

What the log of a run of the loop shows at every moment: no owner has two
escalations in flight, and a snapshot or a record is removed only under a guard
that is held, right after the record on disk, the producer and the processes of
the run were checked.  What the loop state shows between events: the owners are
those in flight, and each batch is referenced as often as its count says. -/
open List Option Zicato.Dict
namespace Zicato.Watchdog
open Script

/-! ## Reading the log -/

/-- A call and its answer. -/
abbrev LoopEntry : Type := Entry Unit Call.Reply

/-- The calls of the loop, with their answers. -/
abbrev LoopLog : Type := List LoopEntry

/-- Every call may have any answer. -/
def loopEnv : Env Unit Empty ((c : Call) → c.Reply) Call.Reply where
  evolve _ change := change.elim
  serve _ answers c := answers c

/-- The guard has been taken and not released. -/
def Held (id : Nat) (log : LoopLog) : Prop :=
  (∃ e ∈ log, e.call = ⟨.flock id, true⟩) ∧ ∀ e ∈ log, e.call ≠ ⟨.unlock id, ()⟩

/-- What an entry does to the escalations in flight. -/
def fly (flight : List Owner) (e : LoopEntry) : List Owner :=
  match e.call.1 with
  | .spawn owner _ _ _ _ => flight ++ [owner]
  | .completed owner => flight.erase owner
  | _ => flight

/-- The owners of the escalations in flight. -/
def inFlight (log : LoopLog) : List Owner := log.foldl fly []

/-- The run whose snapshot or record the call removes, and the guard it is under. -/
def removal : Call → Option (Nat × ActiveRun)
  | .reapSnapshot id run => some (id, run)
  | .removeRecord id run => some (id, run)
  | _ => none

/-- The log ends with the checks of the run, each answered in its favour: the
record on disk has its identity, its producer is dead, and its leader and group
have no live member.  Between them and the removal of the record there is only
that of the snapshot. -/
def Checked (run : ActiveRun) (log : LoopLog) : Prop :=
  ∃ before record current dead gone after,
    log = before ++ record :: (dead ++ gone ++ after) ∧
    record.call = ⟨.readRecord run.runId, some current⟩ ∧ sameIdentity current run = true ∧
    Returns (watch (producerIsDead run)) (dead.map (·.call)) true ∧
    Returns (watch (runProcessesGone run)) (gone.map (·.call)) true ∧
    ∀ e ∈ after, ∃ id, e.call.1 = .reapSnapshot id run

/-- Every removal of the log was done under its guard and after its checks. -/
def Justified (log : LoopLog) : Prop :=
  ∀ i e id run, log[i]? = some e → removal e.call.1 = some (id, run) →
    Held id (log.take i) ∧ Checked run (log.take i)

/-- What holds of the log at every moment. -/
structure Sound (log : LoopLog) : Prop where
  justified : Justified log
  flight : (inFlight log).Nodup

/-! ## Calls that leave the log's meaning alone -/

/-- The call touches no guard and no escalation. -/
def Call.steady : Call → Bool
  | .flock _ => false
  | .unlock _ => false
  | .spawn _ _ _ _ _ => false
  | .completed _ => false
  | _ => true

/-- The call removes nothing either. -/
def Call.quiet (c : Call) : Bool := c.steady && (removal c).isNone

/-- The entry neither takes nor releases a guard and leaves the escalations alone. -/
structure Inert (e : LoopEntry) : Prop where
  fly : ∀ flight, fly flight e = flight
  flock : ∀ id, e.call ≠ ⟨.flock id, true⟩
  unlock : ∀ id, e.call ≠ ⟨.unlock id, ()⟩

/-- The log grew by such entries. -/
def Steady (log log' : LoopLog) : Prop :=
  ∃ entries, log' = log ++ entries ∧ ∀ e ∈ entries, Inert e

variable {log log' : LoopLog} {id : Nat}

variable {e : LoopEntry} {owner : Owner}

theorem inert_of_steady (h : e.call.1.steady = true) : Inert e := by
  obtain ⟨w, c, reply⟩ := e
  refine ⟨fun flight => ?_, fun id heq => ?_, fun id heq => ?_⟩
  · cases c <;> first | rfl | cases h
  · cases congrArg Sigma.fst heq
    cases h
  · cases congrArg Sigma.fst heq
    cases h

/-- An attempt to take the guard that failed. -/
theorem inert_flock {w : Unit} : Inert ⟨w, .flock id, false⟩ :=
  ⟨fun _ => rfl, by simp, by simp⟩

theorem Steady.refl (log : LoopLog) : Steady log log := ⟨[], by simp, by simp⟩

theorem Steady.trans {log'' : LoopLog} (h : Steady log log') (h' : Steady log' log'') :
    Steady log log'' := by
  obtain ⟨entries, rfl, hentries⟩ := h
  obtain ⟨more, rfl, hmore⟩ := h'
  refine ⟨entries ++ more, by simp, ?_⟩
  intro e he
  rcases mem_append.1 he with he | he
  · exact hentries e he
  · exact hmore e he

theorem steady_concat (h : Inert e) : Steady log (log ++ [e]) :=
  ⟨[e], rfl, by simpa using h⟩

theorem inFlight_concat (log : LoopLog) (e : LoopEntry) :
    inFlight (log ++ [e]) = fly (inFlight log) e := by
  simp [inFlight]

theorem Steady.inFlight (h : Steady log log') : inFlight log' = inFlight log := by
  obtain ⟨entries, rfl, hentries⟩ := h
  rw [Watchdog.inFlight, foldl_append]
  induction entries generalizing log with
  | nil => rfl
  | cons e entries ih =>
    rw [foldl_cons, (hentries e mem_cons_self).fly]
    exact ih fun e he => hentries e (mem_cons_of_mem _ he)

/-- What was not in the log and is not inert is not in it after a steady part. -/
theorem Steady.absent (h : Steady log log') {c : Σ c : Call, c.Reply}
    (hinert : ∀ e, Inert e → e.call ≠ c) (habsent : ∀ e ∈ log, e.call ≠ c) :
    ∀ e ∈ log', e.call ≠ c := by
  obtain ⟨entries, rfl, hentries⟩ := h
  intro e he
  rcases mem_append.1 he with he | he
  · exact habsent e he
  · exact hinert e (hentries e he)

theorem Steady.held (h : Steady log log') (hheld : Held id log) : Held id log' := by
  refine ⟨?_, h.absent (fun e he => he.unlock id) hheld.2⟩
  obtain ⟨e, he, hflock⟩ := hheld.1
  obtain ⟨entries, rfl, -⟩ := h
  exact ⟨e, mem_append_left _ he, hflock⟩

theorem Held.concat (h : Held id log) (he : e.call ≠ ⟨.unlock id, ()⟩) : Held id (log ++ [e]) := by
  obtain ⟨⟨e', he', hflock⟩, hunlock⟩ := h
  exact ⟨⟨e', mem_append_left _ he', hflock⟩,
    forall_mem_append.mpr ⟨hunlock, forall_mem_singleton.mpr he⟩⟩

/-- A call that removes needs a held batch and a check. -/
theorem justified_concat (h : Justified log)
    (he : ∀ id run, removal e.call.1 = some (id, run) → Held id log ∧ Checked run log) :
    Justified (log ++ [e]) := by
  intro i e' id run hget hremoval
  rw [getElem?_append] at hget
  split at hget
  · rename_i hlt
    rw [take_append_of_le_length (Nat.le_of_lt hlt)]
    exact h i e' id run hget hremoval
  · rename_i hnot
    have hi : i = log.length := by
      obtain ⟨hlt, -⟩ := List.getElem?_eq_some_iff.1 hget
      rw [length_singleton] at hlt
      omega
    subst hi
    simp only [Nat.sub_self, getElem?_cons_zero] at hget
    cases some.inj hget
    rw [take_left]
    exact he id run hremoval

theorem Sound.inert (h : Sound log) (hinert : Inert e)
    (he : ∀ id run, removal e.call.1 = some (id, run) → Held id log ∧ Checked run log) :
    Sound (log ++ [e]) := by
  refine ⟨justified_concat h.justified he, ?_⟩
  rw [(steady_concat hinert).inFlight]
  exact h.flight

theorem Sound.quiet (h : Sound log) (hquiet : e.call.1.quiet = true) : Sound (log ++ [e]) := by
  simp only [Call.quiet, Bool.and_eq_true, isNone_iff_eq_none] at hquiet
  refine h.inert (inert_of_steady hquiet.1) ?_
  intro id run hremoval
  rw [hquiet.2] at hremoval
  cases hremoval

/-! ## Reading -/

/-- Any answer is possible. -/
def Any (_ : LoopLog) (_ : Unit) (c : Call) (_ : c.Reply) : Prop := True

/-- A part of the loop that only reads. -/
theorem always_quiet {α : Type} {x : Loop α} (hx : Only (fun c => c.quiet = true) x)
    (hlog : Sound log) :
    Always Any Sound x log fun log' a => Sound log' ∧ Steady log log' ∧
      ∃ entries, log' = log ++ entries ∧ Returns x (entries.map (·.call)) a := by
  refine (always_only ?_ hx hlog).mono ?_
  · intro log w c reply hc h
    exact h.quiet hc
  · rintro log' a hsound ⟨-, entries, rfl, hentries, hreturns⟩
    refine ⟨hsound, ⟨entries, rfl, ?_⟩, entries, rfl, hreturns⟩
    intro e he
    have hquiet := (hentries e he).1
    simp only [Call.quiet, Bool.and_eq_true] at hquiet
    exact inert_of_steady hquiet.1

theorem only_watch {α : Type} (x : Look α) : Only (fun c => c.quiet = true) (watch x) := by
  refine only_within ?_ x
  intro r
  rfl

theorem always_watch {α : Type} (x : Look α) (hlog : Sound log) :
    Always Any Sound (watch x) log fun log' a => Sound log' ∧ Steady log log' ∧
      ∃ entries, log' = log ++ entries ∧ Returns (watch x) (entries.map (·.call)) a :=
  always_quiet (only_watch x) hlog

/-- One call that only reads. -/
theorem always_read {c : Call} (hc : c.quiet = true) (hlog : Sound log) :
    Always Any Sound (perform c) log fun log' reply => Sound log' ∧ Steady log log' ∧
      ∃ w, log' = log ++ [⟨w, c, reply⟩] := by
  refine ⟨hlog, fun w reply _ => ?_⟩
  have hsound := hlog.quiet (e := ⟨w, c, reply⟩) hc
  refine ⟨hsound, hsound, ?_, w, rfl⟩
  refine steady_concat (inert_of_steady ?_)
  simp only [Call.quiet, Bool.and_eq_true] at hc
  exact hc.1

/-! ## Finalizing orphans -/

/-- An orphan is removed under the guard of its batch, after the checks. -/
theorem always_finalizeOrphan {batch : OrphanBatch} (run : ActiveRun) (hlog : Sound log)
    (hheld : Held batch.id log) :
    Always Any Sound (finalizeOrphan batch run) log fun log' _ => Sound log' ∧ Steady log log' := by
  have hread : Call.quiet (.readRecord run.runId) = true := rfl
  refine always_bind ((always_read hread hlog).mono ?_)
  rintro log₁ current - ⟨hsound₁, hsteady₁, w, rfl⟩
  cases current with
  | none => exact ⟨hsound₁, hsound₁, hsteady₁⟩
  | some current =>
    cases hsame : sameIdentity current run with
    | false =>
      simp only [any_some, hsame, Bool.false_eq_true, if_false]
      exact ⟨hsound₁, hsound₁, hsteady₁⟩
    | true =>
      simp only [any_some, hsame, if_true]
      refine always_bind ((always_watch _ hsound₁).mono ?_)
      rintro log₂ dead - ⟨hsound₂, hsteady₂, deadCalls, rfl, hdead⟩
      have hsteady₂ := hsteady₁.trans hsteady₂
      cases dead with
      | false => exact ⟨hsound₂, hsound₂, hsteady₂⟩
      | true =>
        refine always_bind ((always_watch _ hsound₂).mono ?_)
        rintro log₃ gone - ⟨hsound₃, hsteady₃, goneCalls, rfl, hgone⟩
        have hsteady₃ := hsteady₂.trans hsteady₃
        cases gone with
        | false => exact ⟨hsound₃, hsound₃, hsteady₃⟩
        | true =>
          have hchecked : ∀ after : LoopLog, (∀ e ∈ after, ∃ id, e.call.1 = .reapSnapshot id run) →
              Checked run (log ++ [⟨w, .readRecord run.runId, some current⟩] ++ deadCalls ++
                goneCalls ++ after) := fun after hafter =>
            ⟨log, ⟨w, .readRecord run.runId, some current⟩, current, deadCalls, goneCalls, after,
              by simp, rfl, hsame, hdead, hgone, hafter⟩
          -- The removal of the snapshot, then that of the record.
          refine ⟨hsound₃, fun w₄ removed _ => ?_⟩
          have hsound₄ := hsound₃.inert (e := ⟨w₄, .reapSnapshot batch.id run, removed⟩) (inert_of_steady rfl) (by
            intro id run' hremoval
            cases hremoval
            exact ⟨hsteady₃.held hheld, by simpa using hchecked [] (by simp)⟩)
          have hsteady₄ := hsteady₃.trans
            (steady_concat (e := ⟨w₄, .reapSnapshot batch.id run, removed⟩) (inert_of_steady rfl))
          refine ⟨hsound₄, fun w₅ reply _ => ?_⟩
          have hsound₅ := hsound₄.inert (e := ⟨w₅, .removeRecord batch.id run, reply⟩) (inert_of_steady rfl) (by
            intro id run' hremoval
            cases hremoval
            refine ⟨hsteady₄.held hheld, hchecked [⟨w₄, .reapSnapshot batch.id run, removed⟩] ?_⟩
            intro e he
            rw [mem_singleton.1 he]
            exact ⟨batch.id, rfl⟩)
          exact ⟨hsound₅, hsound₅, hsteady₄.trans (steady_concat (inert_of_steady rfl))⟩

/-- Finalizing an owner's runs keeps the log sound. -/
theorem always_finalizeOwner {batch : OrphanBatch} (owner : Owner) (runs : List ActiveRun)
    (hlog : Sound log) (hheld : Held batch.id log) :
    Always Any Sound (finalizeOwner batch owner runs) log
      fun log' _ => Sound log' ∧ Steady log log' := by
  induction runs generalizing log with
  | nil => exact ⟨hlog, hlog, Steady.refl log⟩
  | cons run runs ih =>
    unfold finalizeOwner
    split
    · refine always_bind ((always_finalizeOrphan run hlog hheld).mono ?_)
      rintro log₁ - - ⟨hsound₁, hsteady₁⟩
      refine (ih hsound₁ (hsteady₁.held hheld)).mono ?_
      rintro log₂ - - ⟨hsound₂, hsteady₂⟩
      exact ⟨hsound₂, hsteady₁.trans hsteady₂⟩
    · exact ih hlog hheld

/-! ## References and guards -/

/-- The batch a reference is to. -/
def ids (batch : Option OrphanBatch) : List Nat := (batch.map (·.id)).toList

/-- The references held by the owners. -/
def refs (owners : Dict Owner (Option OrphanBatch)) : List Nat := owners.flatMap fun p => ids p.2

/-- The loop state fits the log; `locals` are the references held by variables of
the code that is running. -/
structure Fits (locals : List Nat) (s : LoopState) (log : LoopLog) : Prop where
  nodup : (Dict.keys s.owners).Nodup
  /-- The owners of the map are those in flight. -/
  flight : s.pending.Perm (Dict.keys s.owners)
  logged : inFlight log = s.pending
  counts : ∀ id, s.counts id = (refs s.owners ++ locals).count id
  /-- A batch that is referenced holds its guard. -/
  held : ∀ id, 0 < s.counts id → Held id log
  /-- The guards still to come have not been seen. -/
  fresh : ∀ id, s.next ≤ id → ∀ e ∈ log, e.call ≠ ⟨.flock id, true⟩ ∧ e.call ≠ ⟨.unlock id, ()⟩

variable {locals : List Nat} {s : LoopState}

theorem Fits.steady (h : Fits locals s log) (hsteady : Steady log log') : Fits locals s log' := by
  refine ⟨h.nodup, h.flight, hsteady.inFlight.trans h.logged, h.counts,
    fun id hid => hsteady.held (h.held id hid), ?_⟩
  intro id hid e he
  exact ⟨hsteady.absent (fun e he => he.flock id) (fun e he => (h.fresh id hid e he).1) e he,
    hsteady.absent (fun e he => he.unlock id) (fun e he => (h.fresh id hid e he).2) e he⟩

theorem Fits.held_local (h : Fits locals s log) (hid : id ∈ locals) : Held id log := by
  refine h.held id ?_
  rw [h.counts, count_append]
  have := count_pos_iff.2 hid
  omega

/-- A reference given up; the last one gives up the guard. -/
theorem always_release (hlog : Sound log) (h : Fits (id :: locals) s log) :
    Always Any Sound (s.release id) log fun log' s' => Sound log' ∧ Fits locals s' log' := by
  have hcounts : ∀ i, (if i = id then s.counts i - 1 else s.counts i) =
      (refs s.owners ++ locals).count i := by
    intro i
    have hi := h.counts i
    rw [count_append, count_cons] at hi
    rw [count_append]
    by_cases heq : i = id
    · subst heq
      simp only [if_true, beq_self_eq_true] at hi ⊢
      omega
    · have hne : (id == i) = false := by simpa using fun h => heq h.symm
      simp only [if_neg heq, hne, Bool.false_eq_true, if_false] at hi ⊢
      omega
  unfold LoopState.release
  by_cases hzero : s.counts id - 1 = 0
  · simp only [if_true, hzero]
    refine ⟨hlog, fun w reply _ => ?_⟩
    have hunlock : ∀ i, i ≠ id → Held i log → Held i (log ++ [⟨w, .unlock id, reply⟩]) := by
      exact fun i hne hi => hi.concat fun heq =>
        hne (Call.unlock.inj (congrArg Sigma.fst heq)).symm
    have hsound : Sound (log ++ [⟨w, .unlock id, reply⟩]) := by
      refine ⟨justified_concat hlog.justified (by simp [removal]), ?_⟩
      rw [inFlight_concat]
      exact hlog.flight
    refine ⟨hsound, hsound, h.nodup, h.flight, ?_, hcounts, ?_, ?_⟩
    · rw [inFlight_concat]
      exact h.logged
    · intro i hi
      by_cases heq : i = id
      · subst heq
        simp only [if_true] at hi
        omega
      · simp only [if_neg heq] at hi
        exact hunlock i heq (h.held i hi)
    · intro i hi e he
      rcases mem_append.1 he with he | he
      · exact h.fresh i hi e he
      · rw [mem_singleton.1 he]
        refine ⟨by simp, fun heq => ?_⟩
        have hid : id = i := Call.unlock.inj (congrArg Sigma.fst heq)
        subst hid
        -- The guard was taken, so its number has been given out.
        obtain ⟨e', he', hflock⟩ := (h.held_local mem_cons_self).1
        exact (h.fresh id hi e' he').1 hflock
  · simp only [if_true, hzero, if_false]
    refine ⟨hlog, hlog, h.nodup, h.flight, h.logged, hcounts, ?_, h.fresh⟩
    intro i hi
    refine h.held i ?_
    by_cases heq : i = id
    · subst heq
      simp only [if_true] at hi
      omega
    · simpa only [if_neg heq] using hi

theorem always_releaseBatch {batch : Option OrphanBatch} (hlog : Sound log)
    (h : Fits (ids batch ++ locals) s log) :
    Always Any Sound (releaseBatch s batch) log fun log' s' => Sound log' ∧ Fits locals s' log' := by
  cases batch with
  | none => exact ⟨hlog, hlog, h⟩
  | some batch => exact always_release hlog h

theorem count_refs {owners owners' : Dict Owner (Option OrphanBatch)} {o o' : Owner}
    {b b' : Option OrphanBatch} (h : ((o, b) :: owners).Perm ((o', b') :: owners')) (id : Nat) :
    (ids b).count id + (refs owners).count id = (ids b').count id + (refs owners').count id := by
  have hperm := (h.flatMap_right fun p => ids p.2).count_eq id
  simpa only [refs, flatMap_cons, count_append] using hperm

theorem counts_attach (s : LoopState) (owner : Owner) (batch : Option OrphanBatch) (i : Nat) :
    (s.attach owner batch).counts i = s.counts i + (ids batch).count i := by
  cases batch with
  | none => rfl
  | some batch =>
    show (if i = batch.id then s.counts i + 1 else s.counts i) = _
    by_cases heq : i = batch.id
    · simp [ids, heq]
    · have hne : ¬ batch.id = i := fun h => heq h.symm
      simp [ids, heq, hne]

theorem attach_fields (s : LoopState) (owner : Owner) (batch : Option OrphanBatch) :
    (s.attach owner batch).owners = s.owners.set owner batch ∧
      (s.attach owner batch).pending = s.pending ∧ (s.attach owner batch).next = s.next := by
  cases batch with
  | none => exact ⟨rfl, rfl, rfl⟩
  | some batch => exact ⟨rfl, rfl, rfl⟩

theorem held_attach (h : Fits locals s log) {batch : Option OrphanBatch}
    (hbatch : ∀ id ∈ ids batch, id ∈ locals) :
    ∀ id, 0 < (s.attach owner batch).counts id → Held id log := by
  intro i hi
  rw [counts_attach] at hi
  by_cases hmem : i ∈ ids batch
  · exact h.held_local (hbatch i hmem)
  · rw [count_eq_zero.2 hmem] at hi
    exact h.held i hi

/-- A batch attached to an escalation in flight; the old reference is left over. -/
theorem Fits.attach (h : Fits locals s log) {batch old : Option OrphanBatch}
    (hbatch : ∀ id ∈ ids batch, id ∈ locals) (hold : s.owners.get? owner = some old) :
    Fits (ids old ++ locals) (s.attach owner batch) log := by
  obtain ⟨howners, hpending, hnext⟩ := attach_fields s owner batch
  have hkeys : Dict.keys (s.attach owner batch).owners = Dict.keys s.owners := by
    rw [howners, keys_set (by rw [hold]; rfl)]
  refine ⟨hkeys ▸ h.nodup, ?_, ?_, ?_, held_attach h hbatch, ?_⟩
  · rw [hpending, hkeys]
    exact h.flight
  · rw [hpending]
    exact h.logged
  · intro i
    have hperm : ((owner, old) :: Dict.set s.owners owner batch).Perm ((owner, batch) :: s.owners) :=
      set_perm hold
    have hswap := count_refs hperm i
    have hi := h.counts i
    rw [count_append] at hi
    rw [counts_attach, howners, count_append, count_append]
    omega
  · rw [hnext]
    exact h.fresh

/-- A new escalation in flight, with its batch. -/
theorem Fits.spawn (h : Fits locals s log) {batch : Option OrphanBatch}
    (hbatch : ∀ id ∈ ids batch, id ∈ locals) (hnew : s.owners.get? owner = none)
    (he : ∃ run target trigger grace, e.call.1 = .spawn owner run target trigger grace) :
    Fits locals { s.attach owner batch with pending := s.pending ++ [owner] } (log ++ [e]) := by
  obtain ⟨run, target, trigger, grace, hcall⟩ := he
  obtain ⟨w, c, reply⟩ := e
  cases hcall
  obtain ⟨howners, -, hnext⟩ := attach_fields s owner batch
  have hkey : owner ∉ Dict.keys s.owners := (get?_eq_none_iff _ _).1 hnew
  have hset : s.owners.set owner batch = s.owners ++ [(owner, batch)] := set_append _ _ _ hkey
  have hkeys : Dict.keys (s.attach owner batch).owners = Dict.keys s.owners ++ [owner] := by
    rw [howners, hset, Dict.keys, map_append]
    rfl
  refine ⟨?_, ?_, ?_, ?_, ?_, ?_⟩
  · show (Dict.keys (s.attach owner batch).owners).Nodup
    rw [hkeys]
    exact h.nodup.append (nodup_singleton _) (by simpa using hkey)
  · show (s.pending ++ [owner]).Perm (Dict.keys (s.attach owner batch).owners)
    rw [hkeys]
    exact h.flight.append_right _
  · rw [inFlight_concat, h.logged]
    rfl
  · intro i
    show (s.attach owner batch).counts i = (refs (s.attach owner batch).owners ++ locals).count i
    have hi := h.counts i
    rw [count_append] at hi
    rw [counts_attach, howners, hset, refs, flatMap_append, count_append,
      count_append]
    simp only [flatMap_cons, flatMap_nil, append_nil]
    unfold refs at hi
    omega
  · exact fun i hi => (held_attach h hbatch i hi).concat (by simp)
  · intro i hi e he
    rw [hnext] at hi
    rcases mem_append.1 he with he | he
    · exact h.fresh i hi e he
    · rw [mem_singleton.1 he]
      simp

/-! ## A tick -/

/-- Looking for a metadata writer removes nothing. -/
theorem only_metadata : Only (fun c => c.quiet = true) metadataWriterMayBeLive := by
  refine Only.bind (only_ask.2 rfl) fun lock => ?_
  cases lock with
  | missing => exact only_pure _
  | unreadable => exact only_pure _
  | malformed => exact only_pure _
  | metadata ownerId pid startTime =>
    show Only _ (if _ then _ else _)
    split
    · exact only_pure _
    · cases pid with
      | none => exact only_pure _
      | some pid => exact only_watch _

/-- A guard taken, with its number given out. -/
theorem Fits.flock (h : Fits locals s log) {w : Unit} :
    Fits (s.next :: locals) (({ s with next := s.next + 1 } : LoopState).retain s.next)
      (log ++ [⟨w, .flock s.next, true⟩]) := by
  have hnone : ∀ e ∈ log, e.call ≠ ⟨.unlock s.next, ()⟩ := fun e he =>
    (h.fresh s.next (Nat.le_refl _) e he).2
  refine ⟨h.nodup, h.flight, ?_, ?_, ?_, ?_⟩
  · rw [inFlight_concat]
    exact h.logged
  · intro i
    show (if i = s.next then s.counts i + 1 else s.counts i) = _
    have hi := h.counts i
    rw [count_append] at hi
    rw [count_append, count_cons]
    by_cases heq : i = s.next
    · simp only [heq, if_true, beq_self_eq_true] at hi ⊢
      show _ = (refs s.owners).count s.next + _
      omega
    · have hne : (s.next == i) = false := by simpa using fun h => heq h.symm
      simp only [if_neg heq, hne, Bool.false_eq_true, if_false]
      show _ = (refs s.owners).count i + _
      omega
  · intro i hi
    by_cases heq : i = s.next
    · subst heq
      refine ⟨⟨_, mem_append_right _ (mem_singleton_self _), rfl⟩, ?_⟩
      intro e he
      rcases mem_append.1 he with he | he
      · exact hnone e he
      · rw [mem_singleton.1 he]
        simp
    · have hpos : 0 < s.counts i := by
        have hsame : (({ s with next := s.next + 1 } : LoopState).retain s.next).counts i =
          s.counts i := if_neg heq
        rwa [hsame] at hi
      exact (h.held i hpos).concat (by simp)
  · intro i hi e he
    have hlt : s.next < i := hi
    rcases mem_append.1 he with he | he
    · exact h.fresh i (Nat.le_of_lt hlt) e he
    · rw [mem_singleton.1 he]
      refine ⟨fun heq => ?_, by simp⟩
      have hid : s.next = i := Call.flock.inj (congrArg Sigma.fst heq)
      omega

/-- A lock that is taken is held. -/
theorem always_flock (hlog : Sound log) (h : Fits [] s log) :
    Always Any Sound (perform (.flock s.next)) log fun log' locked => Sound log' ∧
      (locked = false → Fits [] s log') ∧
      (locked = true → Fits [s.next] (({ s with next := s.next + 1 } : LoopState).retain s.next) log')
      := by
  refine ⟨hlog, fun w locked _ => ?_⟩
  have hsound : Sound (log ++ [⟨w, .flock s.next, locked⟩]) := by
    refine ⟨justified_concat hlog.justified (by simp [removal]), ?_⟩
    rw [inFlight_concat]
    exact hlog.flight
  refine ⟨hsound, hsound, ?_, ?_⟩
  · rintro rfl
    exact h.steady (steady_concat inert_flock)
  · rintro rfl
    exact h.flock

/-- So is an acquired batch. -/
theorem always_acquire (hlog : Sound log) (h : Fits [] s log) :
    Always Any Sound (acquire s) log fun log' r => Sound log' ∧ Fits (ids r.2) r.1 log' := by
  have hopen : Call.quiet .openGuard = true := rfl
  refine always_bind ((always_read hopen hlog).mono ?_)
  rintro log₁ opened - ⟨hsound₁, hsteady₁, -⟩
  have hfits₁ := h.steady hsteady₁
  cases opened with
  | false => exact ⟨hsound₁, hsound₁, hfits₁⟩
  | true =>
    refine always_bind ((always_flock hsound₁ hfits₁).mono ?_)
    rintro log₂ locked - ⟨hsound₂, hfree, htaken⟩
    cases locked with
    | false => exact ⟨hsound₂, hsound₂, hfree rfl⟩
    | true =>
      refine always_bind ((always_quiet only_metadata hsound₂).mono ?_)
      rintro log₃ writer - ⟨hsound₃, hsteady₃, -⟩
      have hfits₃ := (htaken rfl).steady hsteady₃
      cases writer with
      | true =>
        refine always_bind ((always_release hsound₃ hfits₃).mono ?_)
        rintro log₄ s₄ hsound ⟨-, hfits₄⟩
        exact ⟨hsound, hsound, hfits₄⟩
      | false =>
        have hheart : Call.quiet .readHeartbeat = true := rfl
        refine always_bind ((always_read hheart hsound₃).mono ?_)
        rintro log₄ heartbeat - ⟨hsound₄, hsteady₄, -⟩
        have hruns : Call.quiet .readActiveRuns = true := rfl
        refine always_bind ((always_read hruns hsound₄).mono ?_)
        rintro log₅ runs - ⟨hsound₅, hsteady₅, -⟩
        refine always_bind ((always_watch _ hsound₅).mono ?_)
        rintro log₆ dead - ⟨hsound₆, hsteady₆, -⟩
        have hfits₆ := ((hfits₃.steady hsteady₄).steady hsteady₅).steady hsteady₆
        cases dead with
        | true => exact ⟨hsound₆, hsound₆, hfits₆⟩
        | false =>
          refine always_bind ((always_release hsound₆ hfits₆).mono ?_)
          rintro log₇ s₇ hsound ⟨-, hfits₇⟩
          exact ⟨hsound, hsound, hfits₇⟩

/-- Selecting a trigger removes nothing. -/
theorem only_selectTrigger (t : Thresholds) (requests : List String) (protected_ : List Int)
    (run : ActiveRun) (now : Chrono.DateTime) (orphaned : Bool) :
    Only (fun c => c.quiet = true) (selectTrigger t requests protected_ run now orphaned) := by
  have hdeadline : Only (fun c => c.quiet = true) (deadlinePassed t protected_ run now) := by
    unfold deadlinePassed
    split
    · exact only_pure _
    · split
      · exact only_pure _
      · exact Only.bind (only_watch _) fun _ => only_pure _
  unfold selectTrigger
  split
  · exact only_pure _
  · split
    · exact only_pure _
    · refine Only.bind hdeadline fun passed => ?_
      split
      · exact only_pure _
      · exact only_pure _
      · split
        · exact only_pure _
        · exact only_pure _
        · exact only_pure _

/-- The trigger is never the panic of a missing token. -/
theorem returns_selectTrigger {t : Thresholds} {requests : List String} {protected_ : List Int}
    {run : ActiveRun} {now : Chrono.DateTime} {orphaned : Bool} {calls : List (Σ c : Call, c.Reply)}
    {p : LoopPanic}
    (h : Returns (selectTrigger t requests protected_ run now orphaned) calls (.error p)) :
    ∃ q, p = .dates q := by
  unfold selectTrigger at h
  split at h
  · cases returns_pure h
  · split at h
    · cases returns_pure h
    · obtain ⟨_, _, passed, -, hpassed, h⟩ := returns_bind h
      split at h
      · cases returns_pure h
        unfold deadlinePassed at hpassed
        split at hpassed
        · cases returns_pure hpassed
        · split at hpassed
          · cases returns_pure hpassed
            exact ⟨_, rfl⟩
          · obtain ⟨_, _, action, -, -, hpassed⟩ := returns_bind hpassed
            cases returns_pure hpassed
      · cases returns_pure h
      · split at h
        · cases returns_pure h
          exact ⟨_, rfl⟩
        · cases returns_pure h
        · cases returns_pure h

/-- A request is only granted to a record with a start token. -/
theorem token_of_granted {run : ActiveRun} {protected_ : List Int}
    {calls : List (Σ r : Read, r.Reply)} {pid : Int}
    (h : Returns (decideRunKillRequest run protected_) calls (some pid)) :
    ∃ token, run.pidStartTime = some token := by
  unfold decideRunKillRequest at h
  split at h
  · cases returns_pure h
  · obtain ⟨_, _, signalable, -, -, h⟩ := returns_bind h
    cases signalable with
    | false => cases returns_pure h
    | true =>
      obtain ⟨_, _, groups, -, -, h⟩ := returns_bind h
      obtain ⟨_, _, more, -, -, h⟩ := returns_bind h
      obtain ⟨_, _, target, -, -, h⟩ := returns_bind h
      obtain ⟨_, _, verified, -, hverified, h⟩ := returns_bind h
      cases verified with
      | false => cases returns_pure h
      | true =>
        obtain ⟨_, _, observed, -, -, hverified⟩ := returns_bind hverified
        obtain ⟨_, _, alive, -, -, hverified⟩ := returns_bind hverified
        obtain ⟨_, _, group, -, -, hverified⟩ := returns_bind hverified
        obtain ⟨_, _, own, -, -, hverified⟩ := returns_bind hverified
        have hmatches := returns_pure hverified
        cases htoken : run.pidStartTime with
        | some token => exact ⟨token, rfl⟩
        | none =>
          rw [htoken] at hmatches
          cases hmatches

variable {t : Thresholds} {batch : Option OrphanBatch}

theorem mem_ids_filter (orphaned : Bool) :
    ∀ id ∈ ids (batch.filter fun _ => orphaned), id ∈ ids batch := by
  intro id hid
  cases batch with
  | none => exact hid
  | some b =>
    cases orphaned with
    | false => simp [ids] at hid
    | true => exact hid

/-- Starting an escalation keeps the books. -/
theorem always_startEscalation (hlog : Sound log) (h : Fits (ids batch) s log) (groups : List Int)
    (run : ActiveRun) (orphaned : Bool) (trigger : Trigger) (pid : Int) (token : F64) :
    Always Any Sound (startEscalation s t batch groups run orphaned trigger pid token) log
      fun log' s' => Sound log' ∧ Fits (ids batch) s' log' := by
  unfold startEscalation
  cases hget : s.owners.get? (pid, token) with
  | some old =>
    cases orphaned with
    | false => exact ⟨hlog, hlog, h⟩
    | true => exact always_releaseBatch hlog (h.attach (fun id hid => hid) hget)
  | none =>
    refine always_bind ((always_watch _ hlog).mono ?_)
    rintro log₁ target - ⟨hsound₁, hsteady₁, -⟩
    have hfits₁ := h.steady hsteady₁
    refine ⟨hsound₁, fun w reply _ => ?_⟩
    have hfits₂ := hfits₁.spawn (mem_ids_filter orphaned) hget
      (e := ⟨w, .spawn (pid, token) run target trigger _, reply⟩) ⟨_, _, _, _, rfl⟩
    have hsound₂ : Sound (log₁ ++ [⟨w, .spawn (pid, token) run target trigger _, reply⟩]) := by
      refine ⟨justified_concat hsound₁.justified (by simp [removal]), ?_⟩
      rw [hfits₂.logged]
      exact hfits₂.flight.nodup_iff.2 hfits₂.nodup
    refine ⟨hsound₂, hsound₂, ?_⟩
    rw [(attach_fields s (pid, token) _).2.1]
    exact hfits₂

/-- Closing a run without a signal keeps the log sound. -/
theorem always_finalizeUnsignalled (hlog : Sound log) (h : Fits (ids batch) s log) (run : ActiveRun)
    (orphaned : Bool) :
    Always Any Sound (finalizeUnsignalled batch run orphaned) log
      fun log' _ => Sound log' ∧ Steady log log' := by
  unfold finalizeUnsignalled
  cases hbatch : batch.filter fun _ => orphaned with
  | none => exact ⟨hlog, hlog, Steady.refl log⟩
  | some b =>
    have hid : b.id ∈ ids batch := mem_ids_filter orphaned _ (by rw [hbatch]; simp [ids])
    refine always_bind ((always_watch _ hlog).mono ?_)
    rintro log₁ gone - ⟨hsound₁, hsteady₁, -⟩
    cases gone with
    | false => exact ⟨hsound₁, hsound₁, hsteady₁⟩
    | true =>
      refine (always_finalizeOrphan run hsound₁ (hsteady₁.held (h.held_local hid))).mono ?_
      rintro log₂ - hsound₂ ⟨-, hsteady₂⟩
      exact ⟨hsound₂, hsteady₁.trans hsteady₂⟩

/-- What a part of a tick returns: a state that fits, or the panic of a date. -/
def Returned (locals : List Nat) (log : LoopLog) : Except LoopPanic LoopState → Prop
  | .ok s => Fits locals s log
  | .error p => ∃ q, p = .dates q

/-- Supervising a run keeps the books. -/
theorem always_superviseRun (hlog : Sound log) (h : Fits (ids batch) s log)
    (protected_ groups : List Int) (requests : List String) (run : ActiveRun) :
    Always Any Sound (superviseRun t batch protected_ groups requests s run) log
      fun log' r => Sound log' ∧ Returned (ids batch) log' r := by
  have hnow : Call.quiet .now = true := rfl
  refine always_bind ((always_read hnow hlog).mono ?_)
  rintro log₁ now - ⟨hsound₁, hsteady₁, -⟩
  refine always_bind ((always_watch _ hsound₁).mono ?_)
  rintro log₂ orphaned - ⟨hsound₂, hsteady₂, -⟩
  refine always_bind ((always_quiet (only_selectTrigger ..) hsound₂).mono ?_)
  rintro log₃ trigger - ⟨hsound₃, hsteady₃, entries₃, rfl, hreturns₃⟩
  have hfits₃ := ((h.steady hsteady₁).steady hsteady₂).steady hsteady₃
  match trigger with
  | .error p => exact ⟨hsound₃, hsound₃, returns_selectTrigger hreturns₃⟩
  | .ok none => exact ⟨hsound₃, hsound₃, hfits₃⟩
  | .ok (some trigger) =>
    refine always_bind ((always_watch _ hsound₃).mono ?_)
    rintro log₄ granted - ⟨hsound₄, hsteady₄, entries₄, rfl, hreturns₄⟩
    have hfits₄ := hfits₃.steady hsteady₄
    cases granted with
    | none =>
      refine always_bind ((always_finalizeUnsignalled hsound₄ hfits₄ run orphaned).mono ?_)
      rintro log₅ - hsound₅ ⟨-, hsteady₅⟩
      exact ⟨hsound₅, hsound₅, hfits₄.steady hsteady₅⟩
    | some pid =>
      obtain ⟨calls, hcalls⟩ := returns_within hreturns₄
      obtain ⟨token, htoken⟩ := token_of_granted hcalls
      simp only [htoken]
      refine always_bind
        ((always_startEscalation hsound₄ hfits₄ groups run orphaned trigger pid token).mono ?_)
      rintro log₅ s₅ hsound₅ ⟨-, hfits₅⟩
      exact ⟨hsound₅, hsound₅, hfits₅⟩

/-- So does supervising them all. -/
theorem always_superviseRuns (protected_ groups : List Int) (requests : List String)
    (runs : List ActiveRun) (hlog : Sound log) (h : Fits (ids batch) s log) :
    Always Any Sound (superviseRuns t batch protected_ groups requests s runs) log
      fun log' r => Sound log' ∧ Returned (ids batch) log' r := by
  induction runs generalizing s log with
  | nil => exact ⟨hlog, hlog, h⟩
  | cons run runs ih =>
    refine always_bind ((always_superviseRun hlog h protected_ groups requests run).mono ?_)
    rintro log₁ r hsound₁ ⟨-, hreturned⟩
    cases r with
    | error p => exact ⟨hsound₁, hsound₁, hreturned⟩
    | ok s₁ => exact ih hsound₁ hreturned

/-- So does a tick. -/
theorem always_tick (hlog : Sound log) (h : Fits [] s log) :
    Always Any Sound (tick t s) log fun log' r => Sound log' ∧ Returned [] log' r := by
  have hheart : Call.quiet .readHeartbeat = true := rfl
  refine always_bind ((always_read hheart hlog).mono ?_)
  rintro log₁ observedHeartbeat - ⟨hsound₁, hsteady₁, -⟩
  have hruns : Call.quiet .readActiveRuns = true := rfl
  refine always_bind ((always_read hruns hsound₁).mono ?_)
  rintro log₂ observedRuns - ⟨hsound₂, hsteady₂, -⟩
  refine always_bind ((always_watch _ hsound₂).mono ?_)
  rintro log₃ sought - ⟨hsound₃, hsteady₃, -⟩
  have hfits₃ := ((h.steady hsteady₁).steady hsteady₂).steady hsteady₃
  have hacquire : Always Any Sound (acquireIf s sought) log₃
      fun log' r => Sound log' ∧ Fits (ids r.2) r.1 log' := by
    cases sought with
    | false => exact ⟨hsound₃, hsound₃, hfits₃⟩
    | true => exact always_acquire hsound₃ hfits₃
  refine always_bind (hacquire.mono ?_)
  rintro log₄ ⟨s₄, batch⟩ hsound₄ ⟨-, hfits₄⟩
  refine always_bind ((always_watch _ hsound₄).mono ?_)
  rintro log₅ groups - ⟨hsound₅, hsteady₅, -⟩
  have hrequests : Call.quiet .readKillRequests = true := rfl
  refine always_bind ((always_read hrequests hsound₅).mono ?_)
  rintro log₆ requests - ⟨hsound₆, hsteady₆, -⟩
  have hfits₆ := (hfits₄.steady hsteady₅).steady hsteady₆
  refine always_bind ((always_superviseRuns _ groups requests _ hsound₆ hfits₆).mono ?_)
  rintro log₇ r hsound₇ ⟨-, hreturned⟩
  cases r with
  | error p => exact ⟨hsound₇, hsound₇, hreturned⟩
  | ok s₇ =>
    have hlocals : Fits (ids batch ++ []) s₇ log₇ := by
      rw [append_nil]
      exact hreturned
    refine always_bind ((always_releaseBatch hsound₇ hlocals).mono ?_)
    rintro log₈ s₈ hsound₈ ⟨-, hfits₈⟩
    exact ⟨hsound₈, hsound₈, hfits₈⟩

/-! ## A completion -/

/-- The end of an escalation gives back its batch. -/
theorem Fits.finish (h : Fits [] s log) {attached : Option OrphanBatch}
    (hget : s.owners.get? owner = some attached) (he : e.call.1 = .completed owner) :
    Fits (ids attached)
      { s with owners := (s.owners.pop owner).2, pending := s.pending.erase owner }
      (log ++ [e]) := by
  obtain ⟨w, c, reply⟩ := e
  cases he
  obtain ⟨-, hperm⟩ := pop_perm hget
  have hkeys : (Dict.keys s.owners).Perm (owner :: Dict.keys (s.owners.pop owner).2) :=
    hperm.map Prod.fst
  refine ⟨?_, ?_, ?_, ?_, ?_, ?_⟩
  · exact (nodup_cons.1 (hkeys.nodup_iff.1 h.nodup)).2
  · have herase := (h.flight.trans hkeys).erase owner
    rwa [erase_cons_head] at herase
  · rw [inFlight_concat, h.logged]
    rfl
  · intro i
    have hi := h.counts i
    have hrefs := (hperm.flatMap_right fun p => ids p.2).count_eq i
    rw [append_nil] at hi
    simp only [flatMap_cons, count_append] at hrefs
    show s.counts i = (refs (s.owners.pop owner).2 ++ ids attached).count i
    rw [count_append]
    unfold refs at hi ⊢
    omega
  · exact fun i hi => (h.held i hi).concat (by simp)
  · intro i hi e he
    rcases mem_append.1 he with he | he
    · exact h.fresh i hi e he
    · rw [mem_singleton.1 he]
      simp

/-- Completing an escalation keeps the books. -/
theorem always_complete (hlog : Sound log) (h : Fits [] s log) (howner : owner ∈ s.pending) :
    Always Any Sound (complete s owner) log fun log' s' => Sound log' ∧ Fits [] s' log' := by
  obtain ⟨attached, hget⟩ : ∃ attached, s.owners.get? owner = some attached := by
    refine ne_none_iff_exists'.1 fun hnone => ?_
    exact (get?_eq_none_iff _ _).1 hnone (h.flight.mem_iff.1 howner)
  refine ⟨hlog, fun w reply _ => ?_⟩
  have hfits := h.finish hget (e := ⟨w, .completed owner, reply⟩) rfl
  have hsound : Sound (log ++ [⟨w, .completed owner, reply⟩]) := by
    refine ⟨justified_concat hlog.justified (by simp [removal]), ?_⟩
    rw [inFlight_concat]
    exact hlog.flight.erase owner
  show Always Any Sound (finishOwner { s with pending := s.pending.erase owner } owner) _ _
  unfold finishOwner
  obtain ⟨hpopped, -⟩ := pop_perm hget
  simp only [hpopped]
  cases attached with
  | none => exact ⟨hsound, hsound, hfits⟩
  | some batch =>
    have hheld : Held batch.id _ := hfits.held_local (mem_singleton_self _)
    refine always_bind ((always_finalizeOwner owner batch.runs hsound hheld).mono ?_)
    rintro log₁ - - ⟨hsound₁, hsteady₁⟩
    exact always_release hsound₁ (hfits.steady hsteady₁)

/-! ## Every run of the loop -/

/-- **The loop keeps the books over any events.** -/
theorem always_runsLoop (events : List LoopEvent) (hlog : Sound log) (h : Fits [] s log) :
    Always Any Sound (runsLoop t s events) log fun log' r => Returned [] log' r := by
  induction events generalizing s log with
  | nil => exact ⟨hlog, h⟩
  | cons event events ih =>
    cases event with
    | tick =>
      refine always_bind ((always_tick hlog h).mono ?_)
      rintro log₁ r hsound₁ ⟨-, hreturned⟩
      cases r with
      | error p => exact ⟨hsound₁, hreturned⟩
      | ok s₁ => exact ih hsound₁ hreturned
    | completion owner =>
      unfold runsLoop
      split
      · rename_i howner
        refine always_bind ((always_complete hlog h howner).mono ?_)
        rintro log₁ s₁ hsound₁ ⟨-, hfits₁⟩
        exact ih hsound₁ hfits₁
      · exact ih hlog h

theorem fits_start : Fits [] LoopState.start [] := by
  refine ⟨nodup_nil, Perm.refl _, rfl, ?_, ?_, by simp⟩
  · intro id
    simp [LoopState.start, refs]
  · intro id hid
    cases hid

/-- **The bookkeeping of every run.**  For every sequence of ticks and completions
and every answer to every call, at every moment no owner has two escalations in
flight and every removal so far was done under a guard then held and after the
checks of its run; between events the owners of the map are those in flight; and
the loop never unwraps a missing token. -/
theorem runs_loop_bookkeeping (t : Thresholds) (events : List LoopEvent)
    {steps : List (Event Empty ((c : Call) → c.Reply))}
    {r : Running Unit Call.Reply (Except LoopPanic LoopState)}
    (hrun : Script.run loopEnv { world := (), rest := runsLoop t .start events, log := [] } steps =
      some r) :
    (inFlight r.log).Nodup ∧ Justified r.log ∧ r.rest ≠ .ret (.error .unwrapNone) ∧
    ∀ s, r.rest = .ret (.ok s) → (Dict.keys s.owners).Nodup ∧ s.pending = inFlight r.log ∧
      ∀ owner, owner ∈ Dict.keys s.owners ↔ owner ∈ inFlight r.log := by
  have hempty : Sound [] := ⟨by simp [Justified], List.nodup_nil⟩
  obtain ⟨-, halways⟩ := run_always (P := fun _ => True) (R := fun _ _ => True)
    (fun _ => trivial) (fun _ _ _ _ _ => trivial) (fun _ change => change.elim)
    (fun _ _ _ _ _ _ => trivial) (fun _ _ _ _ => trivial) (by simp)
    (always_runsLoop events hempty fits_start) hrun
  refine ⟨halways.inv.flight, halways.inv.justified, ?_, ?_⟩
  · intro hrest
    rw [hrest] at halways
    obtain ⟨-, q, hq⟩ := halways
    cases hq
  · intro s hrest
    rw [hrest] at halways
    have hfits : Fits [] s r.log := halways.2
    refine ⟨hfits.nodup, hfits.logged.symm, fun owner => ?_⟩
    rw [hfits.logged]
    exact hfits.flight.mem_iff.symm

/-! An orphan 200 of the dead producer 150: the tick takes the guard and starts its
escalation, the completion finalizes it. -/

/-- A run whose producer is gone. -/
def orphanRun : ActiveRun where
  runId := "run-1"
  pid := some 200
  producerPid := some 150
  producerStartTime := some (F64.ofTicks 4)
  pidStartTime := some (F64.ofTicks 5)
  pgid := none
  snapshotPath := some "/tmp/ztw-snap-a/copy"
  startedAt := none
  lastProgress := none
  deadline := none
  wallClockBudgetSeconds := none

/-- The answers while the worker lives, and after it is gone. -/
def orphanAnswers (alive : Bool) : (c : Call) → c.Reply
  | .look (.fields pid) => if alive ∧ pid = 200 then some ⟨false, 200, 5⟩ else none
  | .look (.exists pid) => alive && decide (pid = 200)
  | .look .listing => some []
  | .look (.groupExists _) => false
  | .look .ownGroup => (100 : Int)
  | .look .ownPid => (100 : Int)
  | .readHeartbeat => none
  | .readActiveRuns => [orphanRun]
  | .readKillRequests => []
  | .readLock => .missing
  | .readRecord _ => some orphanRun
  | .now => lastSecond
  | .openGuard => true
  | .flock _ => true
  | .unlock _ => ()
  | .spawn _ _ _ _ _ => ()
  | .completed _ => ()
  | .reapSnapshot _ _ => true
  | .removeRecord _ _ => ()

/-- Thresholds that are not reached. -/
def demoThresholds : Thresholds where
  runStaleWarn := sixHours
  runStaleKill := sixHours
  grace := sixHours
  runKillGrace := sixHours
  maxRunSeconds := sixHours
  runDeadlineKillDisabled := false

/-- The snapshot and the record of the orphan go, both justified. -/
theorem runs_loop_bookkeeping_demo :
    ∃ r, Script.run loopEnv
        { world := ()
          rest := runsLoop demoThresholds .start [.tick, .completion (200, F64.ofTicks 5)]
          log := [] }
        (List.replicate 28 (.act (orphanAnswers true)) ++
          List.replicate 7 (.act (orphanAnswers false))) = some r ∧
      r.log.filterMap (fun e => removal e.call.1) = [(0, orphanRun), (0, orphanRun)] ∧
      Justified r.log := by
  have hremovals : (Script.run loopEnv
      { world := ()
        rest := runsLoop demoThresholds .start [.tick, .completion (200, F64.ofTicks 5)]
        log := [] }
      (List.replicate 28 (.act (orphanAnswers true)) ++
        List.replicate 7 (.act (orphanAnswers false)))).map
        (fun r => r.log.filterMap fun e => removal e.call.1) =
      some [(0, orphanRun), (0, orphanRun)] := by decide
  obtain ⟨r, hrun, hlog⟩ := Option.map_eq_some_iff.1 hremovals
  exact ⟨r, hrun, hlog, (runs_loop_bookkeeping demoThresholds _ hrun).2.1⟩

end Zicato.Watchdog
