import Zicato.WriterLockRuns

/-! # One workspace writer at a time

What `zicato/runtime/lock.py` promises of the handle that passes
`validate_workspace_lock`, at every moment of a run in which no handle is released twice at
once. -/
open List Option
namespace Zicato.Lock

variable {T : Type} [DecidableEq T] {ws : Workspace} {s s' : State T}

/-- The handle is one of the process, and passes `validate_workspace_lock` now. -/
def State.Validates (s : State T) (p : Process T) (writer : WorkspaceLock T) (root : String) :
    Prop :=
  s.runs p = true ∧ (p, writer) ∈ s.locks ∧ s.validate p writer root = .ok ()

/-- The metadata has no owner id and names a live process. -/
def State.Blocked (s : State T) : Prop :=
  ∃ m, s.record = some m ∧ m.recordedLease = false ∧ s.isSameProcess m.pid m.startTime = true

/-- A step of others, while a call of a process is in flight. -/
def Aside (t : Nat) (p : Process T) (s : State T) (a : Act T) : Prop :=
  Orderly s a ∧ (∀ now, a ≠ .advance t now) ∧ a ≠ .exit p

/-- What the lock promises at a moment. -/
structure Exclusive (ws : Workspace) (s : State T) : Prop where
  /-- One handle passes, -/
  one : ∀ p w r p' w' r', s.Validates p w r → s.Validates p' w' r' → p = p' ∧ w = w'
  /-- and the metadata is its own. -/
  recorded : ∀ p w r, s.Validates p w r → s.record = some w.toDict
  /-- A validation that began earlier succeeds for that handle only. -/
  inFlight : ∀ t p w, s.calls t = some ⟨p, .validate w⟩ → s.record = some w.toDict →
    s.Validates p w ws.root
  /-- Metadata is removed by the release of its own handle. -/
  removes : ∀ a s' m, s.step ws a = some s' → s.record = some m → s'.record = none →
    ∃ t now p lock, a = .advance t now ∧ s.calls t = some ⟨p, .delete lock⟩ ∧ m = lock.toDict
  /-- A handle that another process acquired does not pass, -/
  inherited : ∀ p w l r, (p, w) ∈ s.locks → w.lease = some l → l.opener ≠ p → ¬ s.Validates p w r
  /-- and such are all the handles of a forked child. -/
  forked : ∀ parent pid startTime s', s.step ws (.fork parent pid startTime) = some s' →
    ∀ w l, (s.newborn pid startTime, w) ∈ s'.locks → w.lease = some l →
      l.opener ≠ s.newborn pid startTime
  /-- Only the end of its process and its own release end the ownership of a handle. -/
  kept : ∀ a s' p w r, s.step ws a = some s' → s.Validates p w r →
    s'.Validates p w r ∨ a = .exit p ∨
      ∃ t now lock, a = .advance t now ∧ s.calls t = some ⟨p, .delete lock⟩ ∧ lock.lease = w.lease
  /-- An acquisition that finds the guard free succeeds unless the metadata is of a live process
  and has no owner id, whatever others do between its steps. -/
  acquires : ∀ t p l instanceId now₁ now₂ now₃ s₁ s₂ s₃ s₄ s₅,
    s.calls t = some ⟨p, .flock l instanceId true⟩ → s.free = true →
    s.step ws (.advance t now₁) = some s₁ → Run ws (Aside t p) s₁ s₂ →
    s₂.step ws (.advance t now₂) = some s₃ → Run ws (Aside t p) s₃ s₄ →
    s₄.step ws (.advance t now₃) = some s₅ →
      s₂.record = s.record ∧
        ((∃ w, w.lease = some l ∧ s₅.Validates p w ws.root) ↔ ¬ s₂.Blocked)

/-- When a lock validates. -/
theorem validate_ok_iff {p : Process T} {w : WorkspaceLock T} {r : String} :
    s.validate p w r = .ok () ↔ (∃ l, w.lease = some l ∧ (p, l) ∈ s.fds) ∧ w.pid = p.pid ∧
      w.workspaceRoot = r ∧ w.ownerId.getD "" ≠ "" ∧ s.record = some w.toDict := by
  rw [State.validate]
  split
  · rename_i hacquired
    simp only [State.acquired, Bool.and_eq_true, leased_iff, decide_eq_true_eq] at hacquired
    obtain ⟨⟨⟨hleased, hpid⟩, hroot⟩, howner⟩ := hacquired
    split <;> simp_all
  · rename_i hacquired
    simp only [State.acquired, Bool.and_eq_true, leased_iff, decide_eq_true_eq] at hacquired
    refine iff_of_false (by rintro ⟨⟩) ?_
    rintro ⟨hleased, hpid, hroot, howner, -⟩
    exact hacquired ⟨⟨⟨hleased, hpid⟩, hroot⟩, howner⟩

variable {t : Nat} {now : String} {a : Act T} {phase : Phase T}

theorem step_advance_iff :
    s.step ws (.advance t now) = some s' ↔
      ∃ c, s.calls t = some c ∧ s.advance ws t c.proc now c.phase = s' := by
  simp only [State.step]
  cases s.calls t <;> simp

/-! ## The handle that passes -/

section Invariant

variable (h : Inv ws s) {p p' : Process T} {w w' : WorkspaceLock T} {r r' : String}
include h

variable {l : Lease T}

/-- The handle that passes has the guard. -/
theorem Inv.guard_of_validates (hw : s.Validates p w r) (hl : w.lease = some l) :
    s.guard = some l ∧ (p, l) ∈ s.fds ∧ l.opener = p := by
  obtain ⟨hp, hmem, hok⟩ := hw
  obtain ⟨⟨l', hl', hopen⟩, -⟩ := validate_ok_iff.mp hok
  obtain rfl := some.inj (hl.symm.trans hl')
  exact ⟨h.guard p w l p hmem hl hopen, hopen, h.opener hp hopen⟩

theorem Inv.one (hw : s.Validates p w r) (hw' : s.Validates p' w' r') : p = p' ∧ w = w' := by
  obtain ⟨⟨l, hl, -⟩, -, -, -, hrecord⟩ := validate_ok_iff.mp hw.2.2
  obtain ⟨⟨l', hl', -⟩, -, -, -, hrecord'⟩ := validate_ok_iff.mp hw'.2.2
  obtain ⟨hguard, -, hopener⟩ := h.guard_of_validates hw hl
  obtain ⟨hguard', -, hopener'⟩ := h.guard_of_validates hw' hl'
  obtain rfl : l = l' := some.inj (hguard.symm.trans hguard')
  have hdict : w.toDict = w'.toDict := some.inj (hrecord.symm.trans hrecord')
  exact ⟨hopener.symm.trans hopener', WorkspaceLock.eq_of_toDict hdict (hl.trans hl'.symm)⟩

/-- A handle of an opener that is written as the metadata passes. -/
theorem Inv.validates (hp : s.runs p = true) (hmem : (p, w) ∈ s.locks) (hl : w.lease = some l)
    (hopener : l.opener = p) (hrecord : s.record = some w.toDict) : s.Validates p w ws.root := by
  obtain ⟨⟨hpid, hroot, howner⟩, -⟩ := h.granted p w l hmem hl
  subst hopener
  refine ⟨hp, hmem, validate_ok_iff.mpr
    ⟨⟨l, hl, ((h.record w l hmem hl).mp hrecord).1⟩, hpid, hroot, ?_, hrecord⟩⟩
  rw [howner]
  exact ws.ownerId_ne_empty _

theorem Inv.runs_caller {t : Nat} {c : Call T} (hc : s.calls t = some c) : s.runs c.proc = true :=
  runs_iff.mpr (h.caller t c hc)

theorem Inv.inFlight {t : Nat} (hc : s.calls t = some ⟨p, .validate w⟩)
    (hrecord : s.record = some w.toDict) : s.Validates p w ws.root := by
  obtain ⟨hmem, l, hl, hopener⟩ := h.phase t _ hc
  exact h.validates (h.runs_caller hc) hmem hl hopener hrecord

theorem Inv.inherited (hl : w.lease = some l) (hopener : l.opener ≠ p) : ¬ s.Validates p w r :=
  fun hw => hopener (h.guard_of_validates hw hl).2.2

omit h in
/-- A child does not inherit the lease. -/
theorem forked (h : Inv ws s) {parent : Process T} {pid : Int} {startTime : Option T}
    (hs : s.step ws (.fork parent pid startTime) = some s')
    (hmem : (s.newborn pid startTime, w) ∈ s'.locks) (hl : w.lease = some l) :
    l.opener ≠ s.newborn pid startTime := by
  simp only [State.step, step_if] at hs
  obtain ⟨-, rfl⟩ := hs
  rintro hopener
  have hbirth : l.opener.birth < s.births := by
    rcases mem_locks_fork.mp hmem with hmem | ⟨-, hmem⟩ <;>
      exact (h.granted _ w l hmem hl).2.2.1
  rw [hopener] at hbirth
  exact Nat.lt_irrefl _ hbirth

end Invariant

/-! ## What a step does to the metadata, and to others' calls -/

theorem record_release (t : Nat) (p : Process T) (lock : WorkspaceLock T) :
    (s.release t p lock).record = s.record := by
  rw [State.release]
  split
  · split
    · split <;> rfl
    · rfl
  · rfl

/-- The metadata changes where a handle is published and where one is released. -/
theorem Inv.record_of_step (h : Inv ws s) (hs : s.step ws a = some s') :
    s'.record = s.record ∨ ∃ t now p lock l, a = .advance t now ∧ lock.lease = some l ∧
      (s.calls t = some ⟨p, .publish lock⟩ ∧ s'.record = some lock.toDict ∨
        s.calls t = some ⟨p, .delete lock⟩ ∧ s'.record = none) := by
  cases a with
  | advance t now =>
    obtain ⟨⟨p, phase⟩, hc, rfl⟩ := step_advance_iff.mp hs
    have hphase := h.phase t _ hc
    cases phase with
    | flock =>
      left
      rw [State.advance]
      split <;> rfl
    | inspect =>
      left
      rw [State.advance]
      split <;> rfl
    | publish lock =>
      obtain ⟨l, hl, -⟩ := hphase
      exact .inr ⟨t, now, p, lock, l, rfl, hl, .inl ⟨hc, rfl⟩⟩
    | validate => exact .inl rfl
    | compare lock =>
      left
      rw [State.advance]
      split
      · split <;> rfl
      · rfl
    | delete lock =>
      rw [State.advance]
      split
      · exact .inr ⟨t, now, p, lock, _, rfl, ‹_›, .inr ⟨hc, rfl⟩⟩
      · exact .inl rfl
    | close => exact .inl rfl
  | describe p =>
    simp only [State.step] at hs
    split at hs
    · simp only [step_if] at hs
      exact .inl (hs.2 ▸ rfl)
    · cases hs
  | validate t p writer root =>
    simp only [State.step, step_if] at hs
    obtain ⟨-, rfl⟩ := hs
    left
    split <;> rfl
  | release t p lock =>
    simp only [State.step, step_if] at hs
    exact .inl (hs.2 ▸ record_release t p lock)
  | spawn | fork | closeInherited | exit | acquire =>
    simp only [State.step, step_if] at hs
    exact .inl (hs.2 ▸ rfl)

theorem Inv.removes (h : Inv ws s) {m : Metadata T} (hs : s.step ws a = some s')
    (hm : s.record = some m) (hnone : s'.record = none) :
    ∃ t now p lock, a = .advance t now ∧ s.calls t = some ⟨p, .delete lock⟩ ∧ m = lock.toDict := by
  rcases h.record_of_step hs with hsame | ⟨t, now, p, lock, l, rfl, hl, ⟨-, hpublish⟩ | ⟨hc, -⟩⟩
  · rw [hsame, hm] at hnone
    cases hnone
  · rw [hpublish] at hnone
    cases hnone
  · have hrecord := h.record_delete hc hl
    exact ⟨t, now, p, lock, rfl, hc, some.inj (hm.symm.trans hrecord)⟩

/-- What a step that does not end a process leaves of it. -/
structure Frame (p : Process T) (s : State T) (a : Act T) (s' : State T) : Prop where
  procs : p ∈ s.procs → p ∈ s'.procs
  forking : p ∈ s.procs → p ∉ s.forking → p ∉ s'.forking
  locks : ∀ w, (p, w) ∈ s.locks → (p, w) ∈ s'.locks
  fds : p ∉ s.forking → ∀ l, (p, l) ∈ s.fds → (p, l) ∈ s'.fds ∨
    ∃ t now r, a = .advance t now ∧ s.calls t = some ⟨p, .close l r⟩
  calls : ∀ t phase, s.calls t = some ⟨p, phase⟩ → (∀ now, a ≠ .advance t now) →
    s'.calls t = some ⟨p, phase⟩

omit [DecidableEq T] in
/-- A call begins or goes on, and nothing but calls changes. -/
theorem Frame.goto {p q : Process T} (ht : s.calls t = none ∨ ∃ now, a = .advance t now) :
    Frame p s a (s.goto t q phase) where
  procs := id
  forking := fun _ => id
  locks := fun _ => id
  fds := fun _ _ => .inl
  calls t' phase' hc hadvance := by
    refine calls_goto.mpr (.inr ⟨?_, hc⟩)
    rintro rfl
    rcases ht with ht | ⟨now, ha⟩
    · rw [ht] at hc
      cases hc
    · exact hadvance now ha

omit [DecidableEq T] in
theorem Frame.refl {p : Process T} : Frame p s a s where
  procs := id
  forking := fun _ => id
  locks := fun _ => id
  fds := fun _ _ => .inl
  calls := fun _ _ hc _ => hc

omit [DecidableEq T] in
theorem Frame.finish {p : Process T} : Frame p s (.advance t now) (s.finish t) where
  procs := id
  forking := fun _ => id
  locks := fun _ => id
  fds := fun _ _ => .inl
  calls t' phase' hc hadvance := by
    refine calls_finish.mpr ⟨?_, hc⟩
    rintro rfl
    exact hadvance now rfl

/-- A step of one process leaves the others' files open. -/
theorem Frame.advance {p q : Process T} (hc : s.calls t = some ⟨q, phase⟩) :
    Frame p s (.advance t now) (s.advance ws t q now phase) := by
  have hgoto (phase' : Phase T) : Frame p s (.advance t now) (s.goto t q phase') :=
    Frame.goto (.inr ⟨now, rfl⟩)
  cases phase with
  | flock l instanceId stealStale =>
    rw [State.advance]
    split
    · exact { hgoto (.inspect l instanceId stealStale) with }
    · exact hgoto _
  | inspect =>
    rw [State.advance]
    split <;> exact hgoto _
  | publish lock =>
    have hfinish : Frame p s (.advance t now) (s.finish t) := Frame.finish
    exact { hfinish with locks := fun w hw => mem_append_left _ hw }
  | validate => exact Frame.finish
  | compare =>
    rw [State.advance]
    split
    · split <;> exact hgoto _
    · exact Frame.finish
  | delete lock =>
    rw [State.advance]
    split
    · rename_i l hl
      exact { hgoto (.close l none) with }
    · exact Frame.finish
  | close l r =>
    have hfinish : Frame p s (.advance t now) (s.finish t) := Frame.finish
    refine { hfinish with fds := fun _ l' hl' => ?_ }
    by_cases hsame : (p, l') = (q, l)
    · obtain ⟨rfl, rfl⟩ := Prod.mk.inj hsame
      exact .inr ⟨t, now, r, rfl, hc⟩
    · exact .inl (mem_filter.mpr ⟨hl', decide_eq_true hsame⟩)

/-- What a step leaves of a process that does not exit. -/
theorem Inv.frame (h : Inv ws s) {p : Process T} (hs : s.step ws a = some s') (ha : a ≠ .exit p) :
    Frame p s a s' := by
  cases a with
  | spawn pid startTime =>
    simp only [State.step, step_if] at hs
    obtain ⟨-, rfl⟩ := hs
    exact { procs := mem_append_left _, forking := fun _ => id, locks := fun _ => id,
            fds := fun _ _ => .inl, calls := fun _ _ hc _ => hc }
  | fork parent pid startTime =>
    simp only [State.step, step_if] at hs
    obtain ⟨-, rfl⟩ := hs
    refine { procs := mem_append_left _, forking := fun hp hf hmem => ?_,
             locks := fun w hw => mem_locks_fork.mpr (.inl hw),
             fds := fun _ l hl => .inl (mem_fds_fork.mpr (.inl hl)), calls := fun _ _ hc _ => hc }
    rcases mem_cons.mp hmem with rfl | hmem
    · exact Nat.lt_irrefl _ (h.births _ hp)
    · exact hf hmem
  | closeInherited child =>
    simp only [State.step, step_if, contains_iff_mem] at hs
    obtain ⟨hchild, rfl⟩ := hs
    refine { procs := id, forking := fun _ hf hmem => hf (mem_filter.mp hmem).1,
             locks := fun _ => id, fds := fun hf l hl => ?_, calls := fun _ _ hc _ => hc }
    have hne : p ≠ child := by
      rintro rfl
      exact hf hchild
    exact .inl (mem_filter.mpr ⟨hl, decide_eq_true hne⟩)
  | exit q =>
    simp only [State.step, step_if] at hs
    obtain ⟨-, rfl⟩ := hs
    have hne : p ≠ q := by
      rintro rfl
      exact ha rfl
    refine { procs := fun hp => mem_filter.mpr ⟨hp, decide_eq_true hne⟩,
             forking := fun _ hf hmem => hf (mem_filter.mp hmem).1,
             locks := fun w hw => mem_filter.mpr ⟨hw, decide_eq_true hne⟩,
             fds := fun _ l hl => .inl (mem_filter.mpr ⟨hl, decide_eq_true hne⟩),
             calls := fun t phase hc _ => ?_ }
    simp [State.exit, hc, Option.filter, hne]
  | describe q =>
    simp only [State.step] at hs
    split at hs
    · simp only [step_if] at hs
      obtain ⟨-, rfl⟩ := hs
      exact { procs := id, forking := fun _ => id, locks := fun _ => mem_append_left _,
              fds := fun _ _ => .inl, calls := fun _ _ hc _ => hc }
    · cases hs
  | acquire t q instanceId stealStale =>
    simp only [State.step, step_if, Bool.and_eq_true, isNone_iff_eq_none] at hs
    obtain ⟨⟨-, ht⟩, rfl⟩ := hs
    have hgoto : Frame p s (.acquire t q instanceId stealStale)
        (s.goto t q (.flock ⟨q, s.serial⟩ instanceId stealStale)) := Frame.goto (.inl ht)
    exact { hgoto with fds := fun _ l hl => .inl (mem_append_left _ hl) }
  | validate t q writer root =>
    simp only [State.step, step_if, Bool.and_eq_true, isNone_iff_eq_none] at hs
    obtain ⟨⟨-, ht⟩, rfl⟩ := hs
    split
    · exact Frame.goto (.inl ht)
    · exact Frame.refl
  | release t q lock =>
    simp only [State.step, step_if, Bool.and_eq_true, isNone_iff_eq_none] at hs
    obtain ⟨⟨-, ht⟩, rfl⟩ := hs
    rw [State.release]
    split
    · split
      · split <;> exact Frame.goto (.inl ht)
      · exact Frame.refl
    · exact Frame.refl
  | advance t now =>
    obtain ⟨⟨q, phase⟩, hc, rfl⟩ := step_advance_iff.mp hs
    exact Frame.advance hc

/-- A lock that validates does so until its process exits or deletes it. -/
theorem Inv.kept (h : Inv ws s) {p : Process T} {w : WorkspaceLock T} {r : String}
    (hs : s.step ws a = some s') (hw : s.Validates p w r) :
    s'.Validates p w r ∨ a = .exit p ∨
      ∃ t now lock, a = .advance t now ∧ s.calls t = some ⟨p, .delete lock⟩ ∧
        lock.lease = w.lease := by
  by_cases ha : a = .exit p
  · exact .inr (.inl ha)
  have hframe := h.frame hs ha
  obtain ⟨⟨l, hl, hopen⟩, hpid, hroot, howner, hrecord⟩ := validate_ok_iff.mp hw.2.2
  obtain ⟨hguard, -, hopener⟩ := h.guard_of_validates hw hl
  obtain ⟨hp, hmem, -⟩ := hw
  have hruns : s'.runs p = true := by
    obtain ⟨hproc, hforking⟩ := runs_iff.mp hp
    exact runs_iff.mpr ⟨hframe.procs hproc, hframe.forking hproc hforking⟩
  have hopen' : (p, l) ∈ s'.fds := by
    refine (hframe.fds (runs_iff.mp hp).2 l hopen).resolve_right ?_
    rintro ⟨t, now, raised, -, hc⟩
    subst hopener
    exact ((h.record w l hmem hl).mp hrecord).2 ⟨t, _, raised, hc, rfl⟩
  rcases h.record_of_step hs with hsame | ⟨t, now, q, lock, l', rfl, hl', ⟨hc, -⟩ | ⟨hc, -⟩⟩
  · exact .inl ⟨hruns, hframe.locks w hmem, validate_ok_iff.mpr
      ⟨⟨l, hl, hopen'⟩, hpid, hroot, howner, hsame.trans hrecord⟩⟩
  · -- An acquisition that writes has the guard, with a lease that no handle has.
    obtain ⟨l'', hl'', hunpublished, hguard', -⟩ := h.phase t _ hc
    obtain rfl := some.inj (hguard.symm.trans hguard')
    exact absurd rfl (hunpublished p w l hmem hl)
  · obtain ⟨hopener', hopen''⟩ := h.work t _ l' hc hl'
    have hguard' := h.guard q lock l' q (h.phase t _ hc) hl' hopen''
    obtain rfl := some.inj (hguard.symm.trans hguard')
    obtain rfl : p = q := hopener.symm.trans hopener'
    exact .inr (.inr ⟨t, now, lock, rfl, hc, hl'.trans hl.symm⟩)

/-! ## An acquisition from the guard on -/

/-- Others leave a call where it is. -/
theorem Inv.aside (h : Inv ws s) {p : Process T} (hc : s.calls t = some ⟨p, phase⟩)
    (hrun : Run ws (Aside t p) s s') : Inv ws s' ∧ s'.calls t = some ⟨p, phase⟩ := by
  induction hrun with
  | refl => exact ⟨h, hc⟩
  | step _ ha hs ih =>
    obtain ⟨horderly, hadvance, hexit⟩ := ha
    exact ⟨ih.1.step horderly hs, (ih.1.frame hs hexit).calls t phase ih.2 hadvance⟩

/-- They do not change the metadata while an acquisition has the guard. -/
theorem Inv.aside_record (h : Inv ws s) {p : Process T} {l : Lease T} {instanceId : String}
    {stealStale : Bool} (hc : s.calls t = some ⟨p, .inspect l instanceId stealStale⟩)
    (hrun : Run ws (Aside t p) s s') : s'.record = s.record := by
  induction hrun with
  | refl => rfl
  | step hrun ha hs ih =>
    obtain ⟨h', hc'⟩ := h.aside hc hrun
    rw [← ih]
    obtain ⟨hunpublished, hguard⟩ := h'.phase t _ hc'
    refine (h'.record_of_step hs).resolve_right ?_
    rintro ⟨t', now, q, lock, l', rfl, hl', ⟨hq, -⟩ | ⟨hq, -⟩⟩
    · obtain ⟨l'', hl'', -, hguard', -⟩ := h'.phase t' _ hq
      obtain rfl := some.inj (hguard.symm.trans hguard')
      exact ha.2.1 now (by rw [h'.alone t' t _ _ l hq hc' hl'' rfl])
    · have hlock : (q, lock) ∈ _ := h'.phase t' _ hq
      have hguard' := h'.guard q lock l' q hlock hl' (h'.work t' _ l' hq hl').2
      obtain rfl := some.inj (hguard.symm.trans hguard')
      exact hunpublished q lock l hlock hl' rfl

omit [DecidableEq T] in
theorem calls_goto_self (t : Nat) (p : Process T) (phase : Phase T) :
    (s.goto t p phase).calls t = some ⟨p, phase⟩ :=
  calls_goto.mpr (.inl ⟨rfl, rfl⟩)

theorem refusal_eq_none_iff : s.refusal true = none ↔ ¬ s.Blocked := by
  rw [State.refusal, State.Blocked]
  cases s.record with
  | none => simp
  | some m => cases hl : m.recordedLease <;> cases hp : s.isSameProcess m.pid m.startTime <;> simp [hl, hp]

theorem Inv.advanced (h : Inv ws s) (hs : s.step ws (.advance t now) = some s') : Inv ws s' := by
  have horderly : Orderly s (.advance t now) := trivial
  exact h.step horderly hs

/-- A process that finds the lease free acquires it. -/
theorem Inv.acquires (h : Inv ws s) {p : Process T} {l : Lease T}
    {instanceId now₁ now₂ now₃ : String} {s₁ s₂ s₃ s₄ s₅ : State T}
    (hc : s.calls t = some ⟨p, .flock l instanceId true⟩) (hfree : s.free = true)
    (h₁ : s.step ws (.advance t now₁) = some s₁) (h₂ : Run ws (Aside t p) s₁ s₂)
    (h₃ : s₂.step ws (.advance t now₂) = some s₃) (h₄ : Run ws (Aside t p) s₃ s₄)
    (h₅ : s₄.step ws (.advance t now₃) = some s₅) :
    s₂.record = s.record ∧ ((∃ w, w.lease = some l ∧ s₅.Validates p w ws.root) ↔ ¬ s₂.Blocked) := by
  have hinv₁ := h.advanced h₁
  obtain ⟨c, hc', rfl⟩ := step_advance_iff.mp h₁
  obtain rfl := some.inj (hc.symm.trans hc')
  rw [State.advance, if_pos hfree] at hinv₁ h₂
  have hc₁ := calls_goto_self (s := { s with guard := some l }) t p (.inspect l instanceId true)
  obtain ⟨hinv₂, hc₂⟩ := hinv₁.aside hc₁ h₂
  refine ⟨hinv₁.aside_record hc₁ h₂, ?_⟩
  have hinv₃ := hinv₂.advanced h₃
  obtain ⟨c, hc', rfl⟩ := step_advance_iff.mp h₃
  obtain rfl := some.inj (hc₂.symm.trans hc')
  rw [← refusal_eq_none_iff]
  rw [State.advance] at hinv₃ h₄
  cases hrefusal : s₂.refusal true with
  | none =>
    rw [hrefusal] at hinv₃ h₄
    obtain ⟨hinv₄, hc₄⟩ := hinv₃.aside (calls_goto_self ..) h₄
    have hinv₅ := hinv₄.advanced h₅
    obtain ⟨c, hc', rfl⟩ := step_advance_iff.mp h₅
    obtain rfl := some.inj (hc₄.symm.trans hc')
    refine iff_of_true ⟨s₂.handle ws p l instanceId now₂, rfl, ?_⟩ rfl
    obtain ⟨hopener, -⟩ := hinv₄.work t _ l hc₄ rfl
    exact hinv₅.validates (hinv₄.runs_caller hc₄)
      (mem_append_right _ (mem_singleton_self _)) rfl hopener rfl
  | some held =>
    rw [hrefusal] at hinv₃ h₄
    obtain ⟨hinv₄, hc₄⟩ := hinv₃.aside (calls_goto_self ..) h₄
    obtain ⟨c, hc', rfl⟩ := step_advance_iff.mp h₅
    obtain rfl := some.inj (hc₄.symm.trans hc')
    refine iff_of_false ?_ (by rintro ⟨⟩)
    rintro ⟨w, hl, hw⟩
    obtain ⟨⟨l', hl', hopen⟩, -⟩ := validate_ok_iff.mp hw.2.2
    obtain rfl := some.inj (hl.symm.trans hl')
    exact of_decide_eq_true (mem_filter.mp hopen).2 rfl

/-! ## Runs -/

/-- **One writer at a time**, in every run in which no handle is released twice at once. -/
theorem exclusive_of_orderly {s₀ : State T} (h₀ : Initial ws s₀) (hrun : Run ws Orderly s₀ s) :
    Exclusive ws s := by
  have h : Inv ws s := hrun.inv h₀.inv
  exact {
    one := fun _ _ _ _ _ _ hw hw' => h.one hw hw'
    recorded := fun _ _ _ hw => (validate_ok_iff.mp hw.2.2).2.2.2.2
    inFlight := fun _ _ _ hc hrecord => h.inFlight hc hrecord
    removes := fun _ _ _ hs hm hnone => h.removes hs hm hnone
    inherited := fun _ _ _ _ _ hl hopener => h.inherited hl hopener
    forked := fun _ _ _ _ hs _ _ hmem hl => forked h hs hmem hl
    kept := fun _ _ _ _ _ hs hw => h.kept hs hw
    acquires := fun _ _ _ _ _ _ _ _ _ _ _ _ hc hfree h₁ h₂ h₃ h₄ h₅ =>
      h.acquires hc hfree h₁ h₂ h₃ h₄ h₅ }

omit [DecidableEq T] in
/-- A process that runs one call at a time releases in good order. -/
theorem orderly_of_sequential {p : Process T} {lock : WorkspaceLock T}
    (h : ∀ t c, s.calls t = some c → c.proc ≠ p) : Orderly s (.release t p lock) :=
  fun _ _ t c hc hp => absurd hp (h t c hc)

/-- The state after some steps, each of which can be taken. -/
def runActs (ws : Workspace) (s : State T) : List (Act T) → Option (State T)
  | [] => some s
  | a :: rest => (s.step ws a).bind fun s' => runActs ws s' rest

theorem Run.of_runActs {kind : State T → Act T → Prop} {s₀ : State T} {acts : List (Act T)}
    (hrun : Run ws kind s₀ s) (hkind : ∀ a ∈ acts, ∀ s, kind s a)
    (h : runActs ws s acts = some s') : Run ws kind s₀ s' := by
  induction acts generalizing s with
  | nil =>
    cases h
    exact hrun
  | cons a rest ih =>
    obtain ⟨ha, hrest⟩ := forall_mem_cons.mp hkind
    obtain ⟨s₁, hs, hs'⟩ := bind_eq_some_iff.mp h
    exact ih (hrun.step (ha s) hs) hrest hs'

section Concrete

/-- Owner ids of growing length. -/
def exampleWorkspace : Workspace where
  root := "/ws"
  ownerId n := String.ofList (List.replicate (n + 1) 'a')
  ownerId_ne_empty n := by simp [← String.toList_inj]
  ownerId_injective h := by
    have hlength := congrArg List.length (String.ofList_injective h)
    simpa using hlength

def firstProcess : Process Nat := ⟨0, 10, some 1⟩

def secondProcess : Process Nat := ⟨1, 11, some 2⟩

def twoProcesses : State Nat where
  procs := [firstProcess, secondProcess]
  forking := []
  fds := []
  guard := none
  record := none
  locks := []
  calls _ := none
  births := 2
  serial := 0

theorem initial_twoProcesses : Initial exampleWorkspace twoProcesses where
  births := by decide
  forking := rfl
  fds := rfl
  locks := rfl
  calls _ := rfl

/-- The handle of the first process. -/
def firstLock : WorkspaceLock Nat where
  pid := 10
  instanceId := "first"
  acquiredAt := "now"
  workspaceRoot := "/ws"
  startTime := some 1
  ownerId := some "a"
  lease := some ⟨firstProcess, 0⟩

/-- The first process acquires the workspace and forks a child, which the second outlives. -/
def oneWriter : List (Act Nat) :=
  [.acquire 0 firstProcess "first" true, .acquire 1 secondProcess "second" true,
    .advance 0 "now", .advance 1 "now", .advance 0 "now", .advance 1 "now", .advance 0 "now",
    .fork firstProcess 12 (some 3), .exit ⟨2, 12, some 3⟩]

/-- Its release goes on, and the second acquires. -/
def nextWriter : List (Act Nat) :=
  [.advance 0 "now", .advance 0 "now", .advance 0 "now",
    .acquire 1 secondProcess "second" true, .advance 1 "now", .advance 1 "now", .advance 1 "now"]

theorem calls_oneWriter {s : State Nat}
    (hs : runActs exampleWorkspace twoProcesses oneWriter = some s) (t : Nat) : s.calls t = none := by
  have hcalls : (runActs exampleWorkspace twoProcesses oneWriter).elim none (·.calls t) = none := by
    match t with
    | 0 => rfl
    | 1 => rfl
    | t + 2 => rfl
  rwa [hs] at hcalls

theorem exclusive_of_orderly_one :
    ∃ s, ((runActs exampleWorkspace twoProcesses oneWriter).bind fun s₁ =>
        (s₁.step exampleWorkspace (.release 0 firstProcess firstLock)).bind fun s₂ =>
          runActs exampleWorkspace s₂ nextWriter) = some s ∧
      s.record.map Metadata.pid = some 11 ∧ Exclusive exampleWorkspace s := by
  have hpid : ((runActs exampleWorkspace twoProcesses oneWriter).bind fun s₁ =>
      (s₁.step exampleWorkspace (.release 0 firstProcess firstLock)).bind fun s₂ =>
        runActs exampleWorkspace s₂ nextWriter).map (fun s => s.record.map Metadata.pid) =
      some (some 11) := by decide
  obtain ⟨s, hs, hpid⟩ := Option.map_eq_some_iff.mp hpid
  refine ⟨s, hs, hpid, ?_⟩
  obtain ⟨s₁, hs₁, hs⟩ := bind_eq_some_iff.mp hs
  obtain ⟨s₂, hs₂, hs⟩ := bind_eq_some_iff.mp hs
  have hkind : ∀ a ∈ oneWriter ++ nextWriter, ∀ s, Orderly s a := by
    simp [oneWriter, nextWriter, Orderly]
  obtain ⟨hone, hnext⟩ := forall_mem_append.mp hkind
  have hrelease : Orderly s₁ (.release 0 firstProcess firstLock) :=
    orderly_of_sequential fun t c hc => nomatch (calls_oneWriter hs₁ t).symm.trans hc
  exact exclusive_of_orderly initial_twoProcesses
    (Run.of_runActs ((Run.of_runActs .refl hone hs₁).step hrelease hs₂) hnext hs)

/-- Two threads release one handle; between the reading and the deletion of the second, the
first is done, and another process acquires. -/
def overlappingReleases : List (Act Nat) :=
  [.acquire 0 firstProcess "first" true, .advance 0 "now", .advance 0 "now", .advance 0 "now",
    .release 0 firstProcess firstLock, .release 1 firstProcess firstLock,
    .advance 0 "now", .advance 1 "now", .advance 0 "now", .advance 0 "now",
    .acquire 2 secondProcess "second" true, .advance 2 "now", .advance 2 "now", .advance 2 "now"]

/-- The second release deletes the metadata of the other process. -/
theorem second_release_removes :
    ¬ ∀ (s₀ s : State Nat), Initial exampleWorkspace s₀ →
      Run exampleWorkspace (fun _ _ => True) s₀ s → Exclusive exampleWorkspace s := by
  intro hall
  have hsome : (runActs exampleWorkspace twoProcesses overlappingReleases).isSome = true := by decide
  obtain ⟨s, hs⟩ := Option.isSome_iff_exists.mp hsome
  have hexclusive := hall _ s initial_twoProcesses (Run.of_runActs .refl (fun _ _ _ => trivial) hs)
  have hpid : (runActs exampleWorkspace twoProcesses overlappingReleases).map
      (fun s => s.record.map Metadata.pid) = some (some 11) := by decide
  have hcall : (runActs exampleWorkspace twoProcesses overlappingReleases).map
      (fun s => s.calls 1) = some (some ⟨firstProcess, .delete firstLock⟩) := by decide
  rw [hs, Option.map_some, Option.some.injEq] at hpid hcall
  obtain ⟨m, hm, hpid⟩ := Option.map_eq_some_iff.mp hpid
  obtain ⟨t, now, p, lock, hact, hlock, hown⟩ := hexclusive.removes (.advance 1 "now") _ m
    (step_advance_iff.mpr ⟨_, hcall, rfl⟩) hm rfl
  obtain ⟨rfl, -⟩ := Act.advance.inj hact
  rw [hcall, Option.some.injEq, Call.mk.injEq, Phase.delete.injEq] at hlock
  rw [hown, ← hlock.2] at hpid
  exact absurd hpid (by decide)

end Concrete

end Zicato.Lock
