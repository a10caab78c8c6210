import Zicato.WriterLock

/-! # What every run of the workspace lock keeps

One lease at a time has the guard; who has it and is not giving it up is who the metadata
names.  Each step of each party keeps this, if no handle is released twice at once. -/
open List Option
namespace Zicato.Lock

variable {T : Type}

/-- What a handle says of the lease it was acquired with. -/
structure Granted (ws : Workspace) (l : Lease T) (lock : WorkspaceLock T) : Prop where
  pid : lock.pid = l.opener.pid
  root : lock.workspaceRoot = ws.root
  owner : lock.ownerId = some (ws.ownerId l.serial)

/-- No handle has the lease yet. -/
def State.Unpublished (s : State T) (l : Lease T) : Prop :=
  ∀ q lock l', (q, lock) ∈ s.locks → lock.lease = some l' → l'.serial ≠ l.serial

/-- A call is about to close the lease. -/
def State.Closing (s : State T) (l : Lease T) : Prop :=
  ∃ t c raised, s.calls t = some c ∧ c.phase = .close l raised

/-- What holds of a process when its call is at a phase. -/
def PhaseOk (ws : Workspace) (s : State T) (p : Process T) : Phase T → Prop
  | .flock l _ _ => s.Unpublished l
  | .inspect l _ _ => s.Unpublished l ∧ s.guard = some l
  | .publish lock => ∃ l, lock.lease = some l ∧ s.Unpublished l ∧ s.guard = some l ∧ Granted ws l lock
  | .validate lock => (p, lock) ∈ s.locks ∧ ∃ l, lock.lease = some l ∧ l.opener = p
  | .compare lock | .delete lock => (p, lock) ∈ s.locks
  | .close _ _ => True

/-- The invariant. -/
structure Inv (ws : Workspace) (s : State T) : Prop where
  births : ∀ p ∈ s.procs, p.birth < s.births
  known : ∀ p l, (p, l) ∈ s.fds → p ∈ s.procs ∧ l.serial < s.serial
  own : ∀ p l, (p, l) ∈ s.fds → l.opener = p ∨ p ∈ s.forking
  serials : ∀ p l p' l', (p, l) ∈ s.fds → (p', l') ∈ s.fds → l.serial = l'.serial → l = l'
  granted : ∀ p lock l, (p, lock) ∈ s.locks → lock.lease = some l →
    Granted ws l lock ∧ l.serial < s.serial ∧ l.opener.birth < s.births ∧ l.opener ∉ s.forking
  caller : ∀ t c, s.calls t = some c → c.proc ∈ s.procs ∧ c.proc ∉ s.forking
  phase : ∀ t c, s.calls t = some c → PhaseOk ws s c.proc c.phase
  work : ∀ t c l, s.calls t = some c → c.phase.lease = some l → l.opener = c.proc ∧ (c.proc, l) ∈ s.fds
  alone : ∀ t t' c c' l, s.calls t = some c → s.calls t' = some c' → c.phase.lease = some l →
    c'.phase.lease = some l → t = t'
  guard : ∀ q lock l p, (q, lock) ∈ s.locks → lock.lease = some l → (p, l) ∈ s.fds → s.guard = some l
  record : ∀ lock l, (l.opener, lock) ∈ s.locks → lock.lease = some l →
    (s.record = some lock.toDict ↔ (l.opener, l) ∈ s.fds ∧ ¬ s.Closing l)

variable {ws : Workspace} {s : State T}

variable {t : Nat} {c : Call T} {l : Lease T} {p parent : Process T} {lock : WorkspaceLock T}
  {phase : Phase T}

theorem Inv.not_closing (h : Inv ws s) (hc : s.calls t = some c) (hl : c.phase.lease = some l)
    (hphase : ∀ r, c.phase ≠ .close l r) : ¬ s.Closing l := by
  rintro ⟨t', c', r, hc', hclose⟩
  obtain rfl : t = t' := h.alone t t' c c' l hc hc' hl (by rw [hclose]; rfl)
  rw [hc, some.injEq] at hc'
  exact hphase r (hc' ▸ hclose)

/-- The guard is not free while a handle's lease is open. -/
theorem Inv.not_free [DecidableEq T] (h : Inv ws s) {q : Process T} (hlock : (q, lock) ∈ s.locks)
    (hl : lock.lease = some l) (hfd : (p, l) ∈ s.fds) : s.free = false := by
  have hguard := h.guard q lock l p hlock hl hfd
  rw [State.free, hguard]
  simp only [Bool.not_eq_eq_eq_not, Bool.not_false, List.any_eq_true, decide_eq_true_eq]
  exact ⟨_, hfd, rfl⟩

/-! ## Processes -/

/-- A new process keeps the invariant. -/
theorem Inv.spawn (h : Inv ws s) (pid : Int) (startTime : Option T) :
    Inv ws (s.spawn pid startTime) where
  births p hp := by
    rcases mem_append.mp hp with hp | hp
    · exact Nat.lt_succ_of_lt (h.births p hp)
    · rw [mem_singleton.mp hp]
      exact Nat.lt_succ_self _
  known p l hl := ⟨mem_append_left _ (h.known p l hl).1, (h.known p l hl).2⟩
  own := h.own
  serials := h.serials
  granted p lock l hlock hl := by
    obtain ⟨hg, hs, hb, hf⟩ := h.granted p lock l hlock hl
    exact ⟨hg, hs, Nat.lt_succ_of_lt hb, hf⟩
  caller t c hc := ⟨mem_append_left _ (h.caller t c hc).1, (h.caller t c hc).2⟩
  phase := h.phase
  work := h.work
  alone := h.alone
  guard := h.guard
  record := h.record

variable [DecidableEq T]

/-- The child's copies of what the parent has. -/
theorem mem_copied {α : Type} {owned : List (Process T × α)} {child : Process T} {x : α} :
    (p, x) ∈ owned ++ (owned.filter fun e => e.1 = parent).map (fun e => (child, e.2)) ↔
      (p, x) ∈ owned ∨ p = child ∧ (parent, x) ∈ owned := by
  simp only [mem_append, List.mem_map, mem_filter, decide_eq_true_eq, Prod.mk.injEq,
    Prod.exists]
  constructor
  · rintro (h | ⟨q, x', ⟨h, rfl⟩, rfl, rfl⟩)
    · exact .inl h
    · exact .inr ⟨rfl, h⟩
  · rintro (h | ⟨rfl, h⟩)
    · exact .inl h
    · exact .inr ⟨parent, x, ⟨h, rfl⟩, rfl, rfl⟩

theorem mem_fds_fork {pid : Int} {startTime : Option T} :
    (p, l) ∈ (s.fork parent pid startTime).fds ↔
      (p, l) ∈ s.fds ∨ p = s.newborn pid startTime ∧ (parent, l) ∈ s.fds := mem_copied

theorem mem_locks_fork {pid : Int} {startTime : Option T} :
    (p, lock) ∈ (s.fork parent pid startTime).locks ↔
      (p, lock) ∈ s.locks ∨ p = s.newborn pid startTime ∧ (parent, lock) ∈ s.locks := mem_copied

omit [DecidableEq T] in
/-- What holds of a process in a call holds when handles are copied. -/
theorem PhaseOk.mono {s' : State T} (h : PhaseOk ws s p phase)
    (hkeep : ∀ lock, (p, lock) ∈ s.locks → (p, lock) ∈ s'.locks)
    (hold : ∀ q lock, (q, lock) ∈ s'.locks → lock.lease.isSome = true → ∃ q', (q', lock) ∈ s.locks)
    (hguard : s'.guard = s.guard) : PhaseOk ws s' p phase := by
  have hun {l : Lease T} (hl : s.Unpublished l) : s'.Unpublished l := by
    intro q lock l' hlock hl'
    obtain ⟨q', hq'⟩ := hold q lock hlock (by rw [hl']; rfl)
    exact hl q' lock l' hq' hl'
  cases phase with
  | flock l i st => exact hun h
  | inspect l i st => exact ⟨hun h.1, hguard ▸ h.2⟩
  | publish lock =>
    obtain ⟨l, hl, hu, hg, hgr⟩ := h
    exact ⟨l, hl, hun hu, hguard ▸ hg, hgr⟩
  | validate lock => exact ⟨hkeep _ h.1, h.2⟩
  | compare lock => exact hkeep _ h
  | delete lock => exact hkeep _ h
  | close l r => trivial

/-- A fork keeps the invariant. -/
theorem Inv.fork (h : Inv ws s) (pid : Int) (startTime : Option T) :
    Inv ws (s.fork parent pid startTime) := by
  have hnew {q : Process T} (hq : q.birth < s.births) : q ≠ s.newborn pid startTime := by
    rintro rfl
    exact Nat.lt_irrefl _ hq
  have hfd {p : Process T} {l : Lease T} (hl : (p, l) ∈ (s.fork parent pid startTime).fds) :
      ∃ q, (q, l) ∈ s.fds := by
    rcases mem_fds_fork.mp hl with hl | ⟨-, hl⟩ <;> exact ⟨_, hl⟩
  have hlock {p : Process T} {lock : WorkspaceLock T}
      (hl : (p, lock) ∈ (s.fork parent pid startTime).locks) : ∃ q, (q, lock) ∈ s.locks := by
    rcases mem_locks_fork.mp hl with hl | ⟨-, hl⟩ <;> exact ⟨_, hl⟩
  constructor
  case births =>
    intro p hp
    rcases mem_append.mp hp with hp | hp
    · exact Nat.lt_succ_of_lt (h.births p hp)
    · rw [mem_singleton.mp hp]
      exact Nat.lt_succ_self _
  case known =>
    intro p l hl
    rcases mem_fds_fork.mp hl with hp | ⟨rfl, hp⟩
    · exact ⟨mem_append_left _ (h.known p l hp).1, (h.known p l hp).2⟩
    · exact ⟨mem_append_right _ (mem_singleton_self _), (h.known _ l hp).2⟩
  case own =>
    intro p l hl
    rcases mem_fds_fork.mp hl with hp | ⟨rfl, -⟩
    · exact (h.own p l hp).imp id (mem_cons_of_mem _)
    · exact .inr mem_cons_self
  case serials =>
    intro p l p' l' hl hl' hserial
    obtain ⟨q, hq⟩ := hfd hl
    obtain ⟨q', hq'⟩ := hfd hl'
    exact h.serials q l q' l' hq hq' hserial
  case granted =>
    intro p lock l hp hl
    obtain ⟨q, hq⟩ := hlock hp
    obtain ⟨hg, hs, hb, hf⟩ := h.granted q lock l hq hl
    refine ⟨hg, hs, Nat.lt_succ_of_lt hb, fun hmem => ?_⟩
    exact (mem_cons.mp hmem).elim (hnew hb) hf
  case caller =>
    intro t c hc
    obtain ⟨hp, hf⟩ := h.caller t c hc
    refine ⟨mem_append_left _ hp, fun hmem => ?_⟩
    exact (mem_cons.mp hmem).elim (hnew (h.births _ hp)) hf
  case phase =>
    intro t c hc
    exact (h.phase t c hc).mono (fun lock hl => mem_locks_fork.mpr (.inl hl))
      (fun q lock hl _ => hlock hl) rfl
  case work =>
    intro t c l hc hl
    exact ⟨(h.work t c l hc hl).1, mem_fds_fork.mpr (.inl (h.work t c l hc hl).2)⟩
  case alone => exact h.alone
  case guard =>
    intro q lock l p hq hl hp
    obtain ⟨q', hq'⟩ := hlock hq
    obtain ⟨p', hp'⟩ := hfd hp
    exact h.guard q' lock l p' hq' hl hp'
  case record =>
    intro lock l hp hl
    obtain ⟨q, hq⟩ := hlock hp
    have hopener := hnew (h.granted q lock l hq hl).2.2.1
    have hold : (l.opener, lock) ∈ s.locks :=
      (mem_locks_fork.mp hp).resolve_right fun hmem => hopener hmem.1
    have hopen : (l.opener, l) ∈ (s.fork parent pid startTime).fds ↔ (l.opener, l) ∈ s.fds :=
      ⟨fun hmem => (mem_fds_fork.mp hmem).resolve_right fun hmem => hopener hmem.1,
        fun hmem => mem_fds_fork.mpr (.inl hmem)⟩
    rw [hopen]
    exact h.record lock l hold hl

/-- Closing an inherited file keeps the invariant. -/
theorem Inv.closeInherited (h : Inv ws s) {child : Process T} (hchild : child ∈ s.forking) :
    Inv ws (s.closeInherited child) := by
  have hfd {p : Process T} {l : Lease T} :
      (p, l) ∈ (s.closeInherited child).fds ↔ (p, l) ∈ s.fds ∧ p ≠ child := by
    simp [State.closeInherited]
  have hforking {p : Process T} : p ∈ (s.closeInherited child).forking ↔ p ∈ s.forking ∧ p ≠ child := by
    simp [State.closeInherited]
  constructor
  case births => exact h.births
  case known => exact fun p l hl => h.known p l (hfd.mp hl).1
  case own =>
    intro p l hl
    obtain ⟨hl, hp⟩ := hfd.mp hl
    exact (h.own p l hl).imp id fun hmem => hforking.mpr ⟨hmem, hp⟩
  case serials => exact fun p l p' l' hl hl' => h.serials p l p' l' (hfd.mp hl).1 (hfd.mp hl').1
  case granted =>
    intro p lock l hlock hl
    obtain ⟨hg, hs, hb, hf⟩ := h.granted p lock l hlock hl
    exact ⟨hg, hs, hb, fun hmem => hf (hforking.mp hmem).1⟩
  case caller =>
    intro t c hc
    exact ⟨(h.caller t c hc).1, fun hmem => (h.caller t c hc).2 (hforking.mp hmem).1⟩
  case phase => exact h.phase
  case work =>
    intro t c l hc hl
    obtain ⟨hopener, hopen⟩ := h.work t c l hc hl
    refine ⟨hopener, hfd.mpr ⟨hopen, ?_⟩⟩
    rintro rfl
    exact (h.caller t c hc).2 hchild
  case alone => exact h.alone
  case guard => exact fun q lock l p hq hl hp => h.guard q lock l p hq hl (hfd.mp hp).1
  case record =>
    intro lock l hlock hl
    have hopener : l.opener ≠ child := by
      rintro rfl
      exact (h.granted _ lock l hlock hl).2.2.2 hchild
    rw [hfd, and_iff_left hopener]
    exact h.record lock l hlock hl

/-- An exit keeps the invariant. -/
theorem Inv.exit (h : Inv ws s) (p : Process T) : Inv ws (s.exit p) := by
  have hfd {q : Process T} {l : Lease T} : (q, l) ∈ (s.exit p).fds ↔ (q, l) ∈ s.fds ∧ q ≠ p := by
    simp [State.exit]
  have hlock {q : Process T} {lock : WorkspaceLock T} :
      (q, lock) ∈ (s.exit p).locks ↔ (q, lock) ∈ s.locks ∧ q ≠ p := by
    simp [State.exit]
  have hproc {q : Process T} : q ∈ (s.exit p).procs ↔ q ∈ s.procs ∧ q ≠ p := by
    simp [State.exit]
  have hforking {q : Process T} : q ∈ (s.exit p).forking ↔ q ∈ s.forking ∧ q ≠ p := by
    simp [State.exit]
  have hcall {t : Nat} {c : Call T} :
      (s.exit p).calls t = some c ↔ s.calls t = some c ∧ c.proc ≠ p := by
    simp [State.exit, filter_eq_some_iff]
  constructor
  case births => exact fun q hq => h.births q (hproc.mp hq).1
  case known =>
    intro q l hl
    obtain ⟨hl, hq⟩ := hfd.mp hl
    exact ⟨hproc.mpr ⟨(h.known q l hl).1, hq⟩, (h.known q l hl).2⟩
  case own =>
    intro q l hl
    obtain ⟨hl, hq⟩ := hfd.mp hl
    exact (h.own q l hl).imp id fun hmem => hforking.mpr ⟨hmem, hq⟩
  case serials => exact fun q l q' l' hl hl' => h.serials q l q' l' (hfd.mp hl).1 (hfd.mp hl').1
  case granted =>
    intro q lock l hq hl
    obtain ⟨hg, hs, hb, hf⟩ := h.granted q lock l (hlock.mp hq).1 hl
    exact ⟨hg, hs, hb, fun hmem => hf (hforking.mp hmem).1⟩
  case caller =>
    intro t c hc
    obtain ⟨hc, hp⟩ := hcall.mp hc
    exact ⟨hproc.mpr ⟨(h.caller t c hc).1, hp⟩,
      fun hmem => (h.caller t c hc).2 (hforking.mp hmem).1⟩
  case phase =>
    intro t c hc
    obtain ⟨hc, hp⟩ := hcall.mp hc
    exact (h.phase t c hc).mono (fun lock hl => hlock.mpr ⟨hl, hp⟩)
      (fun q lock hl _ => ⟨q, (hlock.mp hl).1⟩) rfl
  case work =>
    intro t c l hc hl
    obtain ⟨hc, hp⟩ := hcall.mp hc
    exact ⟨(h.work t c l hc hl).1, hfd.mpr ⟨(h.work t c l hc hl).2, hp⟩⟩
  case alone =>
    exact fun t t' c c' l hc hc' => h.alone t t' c c' l (hcall.mp hc).1 (hcall.mp hc').1
  case guard => exact fun q lock l q' hq hl hq' => h.guard q lock l q' (hlock.mp hq).1 hl (hfd.mp hq').1
  case record =>
    intro lock l hq hl
    obtain ⟨hq, hopener⟩ := hlock.mp hq
    -- A call that closes the lease is a call of its opener, which has not ended.
    have hclosing : (s.exit p).Closing l ↔ s.Closing l := by
      constructor
      · rintro ⟨t, c, r, hc, hphase⟩
        exact ⟨t, c, r, (hcall.mp hc).1, hphase⟩
      · rintro ⟨t, c, r, hc, hphase⟩
        have hproc := (h.work t c l hc (by rw [hphase]; rfl)).1
        exact ⟨t, c, r, hcall.mpr ⟨hc, hproc ▸ hopener⟩, hphase⟩
    rw [hclosing, hfd, and_iff_left hopener]
    exact h.record lock l hq hl

omit [DecidableEq T] in
/-- A written description keeps the invariant. -/
theorem Inv.describe (h : Inv ws s) (hp : p ∈ s.procs) (m : Metadata T) :
    Inv ws { s with locks := s.locks ++ [(p, m.fromDict)] } := by
  have hlock {q : Process T} {lock : WorkspaceLock T} {l : Lease T}
      (hq : (q, lock) ∈ s.locks ++ [(p, m.fromDict)]) (hl : lock.lease = some l) :
      (q, lock) ∈ s.locks := by
    rcases mem_append.mp hq with hq | hq
    · exact hq
    · obtain ⟨rfl, rfl⟩ := Prod.mk.inj (mem_singleton.mp hq)
      cases hl
  refine { h with granted := ?_, phase := ?_, guard := ?_, record := ?_ }
  · exact fun q lock l hq hl => h.granted q lock l (hlock hq hl) hl
  · intro t c hc
    refine (h.phase t c hc).mono (fun lock hl => mem_append_left _ hl) (fun q lock hl hs => ?_) rfl
    obtain ⟨l, hl'⟩ := isSome_iff_exists.mp hs
    exact ⟨q, hlock hl hl'⟩
  · exact fun q lock l q' hq hl hq' => h.guard q lock l q' (hlock hq hl) hl hq'
  · exact fun lock l hq hl => h.record lock l (hlock hq hl) hl

/-! ## Calls -/

section
omit [DecidableEq T]
theorem calls_goto {t' : Nat} :
    (s.goto t p phase).calls t' = some c ↔
      t' = t ∧ c = ⟨p, phase⟩ ∨ t' ≠ t ∧ s.calls t' = some c := by
  by_cases ht : t' = t
  · simp [State.goto, ht, eq_comm]
  · simp [State.goto, ht]

theorem calls_finish {t' : Nat} :
    (s.finish t).calls t' = some c ↔ t' ≠ t ∧ s.calls t' = some c := by
  by_cases ht : t' = t <;> simp [State.finish, ht]

end

section
variable (h : Inv ws s)
include h

section
omit [DecidableEq T]
/-- A call goes on to a phase, or begins, and nothing else changes. -/
theorem Inv.goto (hp : p ∈ s.procs ∧ p ∉ s.forking) (hok : PhaseOk ws s p phase)
    (hwork : ∀ l, phase.lease = some l → l.opener = p ∧ (p, l) ∈ s.fds)
    (halone : ∀ t' c l, t' ≠ t → s.calls t' = some c → phase.lease = some l →
      c.phase.lease ≠ some l) (hbefore : ∀ c l r, s.calls t = some c → c.phase ≠ .close l r)
    (hclose : ∀ lock l r, phase = .close l r → (l.opener, lock) ∈ s.locks → lock.lease = some l →
      s.record ≠ some lock.toDict) : Inv ws (s.goto t p phase) := by
  refine { h with caller := ?_, phase := ?_, work := ?_, alone := ?_, record := ?_ }
  · intro t' c hc
    rcases calls_goto.mp hc with ⟨-, rfl⟩ | ⟨-, hc⟩
    · exact hp
    · exact h.caller t' c hc
  · intro t' c hc
    rcases calls_goto.mp hc with ⟨-, rfl⟩ | ⟨-, hc⟩
    · exact hok
    · exact h.phase t' c hc
  · intro t' c l hc hl
    rcases calls_goto.mp hc with ⟨-, rfl⟩ | ⟨-, hc⟩
    · exact hwork l hl
    · exact h.work t' c l hc hl
  · intro t₁ t₂ c₁ c₂ l hc₁ hc₂ hl₁ hl₂
    rcases calls_goto.mp hc₁ with ⟨rfl, rfl⟩ | ⟨h₁, hold₁⟩ <;>
      rcases calls_goto.mp hc₂ with ⟨rfl, rfl⟩ | ⟨h₂, hold₂⟩
    · rfl
    · exact absurd hl₂ (halone t₂ c₂ l h₂ hold₂ hl₁)
    · exact absurd hl₁ (halone t₁ c₁ l h₁ hold₁ hl₂)
    · exact h.alone t₁ t₂ c₁ c₂ l hold₁ hold₂ hl₁ hl₂
  · intro lock l hlock hl
    have hclosing : (s.goto t p phase).Closing l ↔ s.Closing l ∨ ∃ r, phase = .close l r := by
      constructor
      · rintro ⟨t', c, r, hc, hphase⟩
        rcases calls_goto.mp hc with ⟨-, rfl⟩ | ⟨-, hc⟩
        · exact .inr ⟨r, hphase⟩
        · exact .inl ⟨t', c, r, hc, hphase⟩
      · rintro (⟨t', c, r, hc, hphase⟩ | ⟨r, hphase⟩)
        · have ht : t' ≠ t := by
            rintro rfl
            exact hbefore c l r hc hphase
          exact ⟨t', c, r, calls_goto.mpr (.inr ⟨ht, hc⟩), hphase⟩
        · exact ⟨t, _, r, calls_goto.mpr (.inl ⟨rfl, rfl⟩), hphase⟩
    rw [hclosing]
    by_cases hphase : ∃ r, phase = .close l r
    · obtain ⟨r, hr⟩ := hphase
      refine iff_of_false (hclose lock l r hr hlock hl) fun hmem => hmem.2 (.inr ⟨r, hr⟩)
    · rw [or_iff_left hphase]
      exact h.record lock l hlock hl

/-- A validation ends. -/
theorem Inv.finish (hbefore : ∀ c l r, s.calls t = some c → c.phase ≠ .close l r) :
    Inv ws (s.finish t) := by
  refine { h with caller := ?_, phase := ?_, work := ?_, alone := ?_, record := ?_ }
  · exact fun t' c hc => h.caller t' c (calls_finish.mp hc).2
  · exact fun t' c hc => h.phase t' c (calls_finish.mp hc).2
  · exact fun t' c l hc => h.work t' c l (calls_finish.mp hc).2
  · exact fun t₁ t₂ c₁ c₂ l h₁ h₂ => h.alone t₁ t₂ c₁ c₂ l (calls_finish.mp h₁).2 (calls_finish.mp h₂).2
  · intro lock l hlock hl
    have hclosing : (s.finish t).Closing l ↔ s.Closing l := by
      constructor
      · rintro ⟨t', c, r, hc, hphase⟩
        exact ⟨t', c, r, (calls_finish.mp hc).2, hphase⟩
      · rintro ⟨t', c, r, hc, hphase⟩
        have ht : t' ≠ t := by
          rintro rfl
          exact hbefore c l r hc hphase
        exact ⟨t', c, r, calls_finish.mpr ⟨ht, hc⟩, hphase⟩
    rw [hclosing]
    exact h.record lock l hlock hl

/-- The guard file is opened. -/
theorem Inv.acquire (hp : p ∈ s.procs ∧ p ∉ s.forking) (ht : s.calls t = none) (instanceId : String)
    (stealStale : Bool) : Inv ws (s.acquire t p instanceId stealStale) := by
  have hfd {q : Process T} {l : Lease T} :
      (q, l) ∈ (s.acquire t p instanceId stealStale).fds ↔
        (q, l) ∈ s.fds ∨ q = p ∧ l = ⟨p, s.serial⟩ := by
    simp [State.acquire, State.goto]
  have hcall {t' : Nat} {c : Call T} :
      (s.acquire t p instanceId stealStale).calls t' = some c ↔
        t' = t ∧ c = ⟨p, .flock ⟨p, s.serial⟩ instanceId stealStale⟩ ∨ t' ≠ t ∧ s.calls t' = some c :=
    calls_goto
  have hnew {q : Process T} {l : Lease T} (hl : (q, l) ∈ s.fds) : l.serial ≠ s.serial :=
    fun heq => Nat.lt_irrefl _ (heq ▸ (h.known q l hl).2)
  constructor
  case births => exact h.births
  case known =>
    intro q l hl
    rcases hfd.mp hl with hl | ⟨rfl, rfl⟩
    · exact ⟨(h.known q l hl).1, Nat.lt_succ_of_lt (h.known q l hl).2⟩
    · exact ⟨hp.1, Nat.lt_succ_self _⟩
  case own =>
    intro q l hl
    rcases hfd.mp hl with hl | ⟨rfl, rfl⟩
    · exact h.own q l hl
    · exact .inl rfl
  case serials =>
    intro q l q' l' hl hl' hserial
    rcases hfd.mp hl with hl | ⟨-, rfl⟩ <;> rcases hfd.mp hl' with hl' | ⟨-, rfl⟩
    · exact h.serials q l q' l' hl hl' hserial
    · exact absurd hserial (hnew hl)
    · exact absurd hserial.symm (hnew hl')
    · rfl
  case granted =>
    intro q lock l hq hl
    obtain ⟨hg, hs, hb, hf⟩ := h.granted q lock l hq hl
    exact ⟨hg, Nat.lt_succ_of_lt hs, hb, hf⟩
  case caller =>
    intro t' c hc
    rcases hcall.mp hc with ⟨-, rfl⟩ | ⟨-, hc⟩
    · exact hp
    · exact h.caller t' c hc
  case phase =>
    intro t' c hc
    rcases hcall.mp hc with ⟨-, rfl⟩ | ⟨-, hc⟩
    · intro q lock l hq hl heq
      exact Nat.lt_irrefl _ (heq ▸ (h.granted q lock l hq hl).2.1)
    · exact h.phase t' c hc
  case work =>
    intro t' c l hc hl
    rcases hcall.mp hc with ⟨-, rfl⟩ | ⟨-, hc⟩
    · cases hl
      exact ⟨rfl, hfd.mpr (.inr ⟨rfl, rfl⟩)⟩
    · exact ⟨(h.work t' c l hc hl).1, hfd.mpr (.inl (h.work t' c l hc hl).2)⟩
  case alone =>
    intro t₁ t₂ c₁ c₂ l hc₁ hc₂ hl₁ hl₂
    rcases hcall.mp hc₁ with ⟨rfl, rfl⟩ | ⟨-, hold₁⟩ <;>
      rcases hcall.mp hc₂ with ⟨rfl, rfl⟩ | ⟨-, hold₂⟩
    · rfl
    · cases hl₁
      exact absurd rfl (hnew (h.work t₂ c₂ _ hold₂ hl₂).2)
    · cases hl₂
      exact absurd rfl (hnew (h.work t₁ c₁ _ hold₁ hl₁).2)
    · exact h.alone t₁ t₂ c₁ c₂ l hold₁ hold₂ hl₁ hl₂
  case guard =>
    intro q lock l q' hq hl hq'
    rcases hfd.mp hq' with hq' | ⟨-, rfl⟩
    · exact h.guard q lock l q' hq hl hq'
    · exact absurd (h.granted q lock _ hq hl).2.1 (Nat.lt_irrefl _)
  case record =>
    intro lock l hlock hl
    have hserial : l ≠ ⟨p, s.serial⟩ := by
      rintro rfl
      exact absurd (h.granted _ lock _ hlock hl).2.1 (Nat.lt_irrefl _)
    have hclosing : (s.acquire t p instanceId stealStale).Closing l ↔ s.Closing l := by
      constructor
      · rintro ⟨t', c, r, hc, hphase⟩
        rcases hcall.mp hc with ⟨-, rfl⟩ | ⟨-, hc⟩
        · cases hphase
        · exact ⟨t', c, r, hc, hphase⟩
      · rintro ⟨t', c, r, hc, hphase⟩
        have hne : t' ≠ t := by
          rintro rfl
          rw [ht] at hc
          cases hc
        exact ⟨t', c, r, hcall.mpr (.inr ⟨hne, hc⟩), hphase⟩
    rw [hclosing, hfd, or_iff_left fun hmem => hserial hmem.2]
    exact h.record lock l hlock hl

end

/-- The guard is granted to a lease when nobody's description that had it is open. -/
theorem Inv.flock {instanceId : String} {stealStale : Bool}
    (hc : s.calls t = some ⟨p, .flock l instanceId stealStale⟩) (hfree : s.free = true) :
    Inv ws ({ s with guard := some l }.goto t p (.inspect l instanceId stealStale)) := by
  have hwork := h.work t _ l hc rfl
  have hcaller := h.caller t _ hc
  have hclosed {q q' : Process T} {lock : WorkspaceLock T} {l' : Lease T}
      (hq : (q, lock) ∈ s.locks) (hl' : lock.lease = some l') (hq' : (q', l') ∈ s.fds) : False := by
    rw [h.not_free hq hl' hq'] at hfree
    cases hfree
  have hguard {q : Process T} {l' : Lease T} (hq : (q, l') ∈ s.fds) (hl' : s.guard = some l') :
      False := by
    rw [State.free, hl'] at hfree
    simp only [Bool.not_eq_eq_eq_not, Bool.not_true, List.any_eq_false, decide_eq_true_eq] at hfree
    exact hfree _ hq rfl
  refine { h with caller := ?_, phase := ?_, work := ?_, alone := ?_, guard := ?_, record := ?_ }
  · intro t' c hc'
    rcases calls_goto.mp hc' with ⟨-, rfl⟩ | ⟨-, hold⟩
    · exact hcaller
    · exact h.caller t' c hold
  · intro t' c hc'
    rcases calls_goto.mp hc' with ⟨-, rfl⟩ | ⟨-, hold⟩
    · exact ⟨h.phase t _ hc, rfl⟩
    · have hphase := h.phase t' c hold
      have hopen (l' : Lease T) (hl' : c.phase.lease = some l') := (h.work t' c l' hold hl').2
      -- No other call is between the lock and the end of its acquisition.
      generalize c.phase = phase at hphase hopen ⊢
      cases phase with
      | inspect l' => exact (hguard (hopen l' rfl) hphase.2).elim
      | publish lock =>
        obtain ⟨l', hl', -, hg, -⟩ := hphase
        exact (hguard (hopen l' hl') hg).elim
      | flock => exact hphase
      | validate => exact hphase
      | compare => exact hphase
      | delete => exact hphase
      | close => trivial
  · intro t' c l' hc' hl'
    rcases calls_goto.mp hc' with ⟨-, rfl⟩ | ⟨-, hold⟩
    · cases hl'
      exact hwork
    · exact h.work t' c l' hold hl'
  · intro t₁ t₂ c₁ c₂ l' hc₁ hc₂ hl₁ hl₂
    rcases calls_goto.mp hc₁ with ⟨rfl, rfl⟩ | ⟨-, hold₁⟩ <;>
      rcases calls_goto.mp hc₂ with ⟨rfl, rfl⟩ | ⟨-, hold₂⟩
    · rfl
    · exact h.alone _ t₂ _ c₂ l' hc hold₂ hl₁ hl₂
    · exact h.alone t₁ _ c₁ _ l' hold₁ hc hl₁ hl₂
    · exact h.alone t₁ t₂ c₁ c₂ l' hold₁ hold₂ hl₁ hl₂
  · exact fun q lock l' q' hq hl hq' => (hclosed hq hl hq').elim
  · intro lock l' hlock hl'
    have hnot : (l'.opener, l') ∉ s.fds := fun hmem => hclosed hlock hl' hmem
    refine iff_of_false (fun hrecord => hnot ?_) fun hmem => hnot hmem.1
    exact ((h.record lock l' hlock hl').mp hrecord).1

section
omit [DecidableEq T]
/-- A handle is published, and the call that acquired it returns. -/
theorem Inv.publish (hc : s.calls t = some ⟨p, .publish lock⟩) :
    Inv ws ({ s with record := some lock.toDict, locks := s.locks ++ [(p, lock)] }.finish t) := by
  obtain ⟨l, hl, hunpublished, hguard, hgranted⟩ := h.phase t _ hc
  obtain ⟨hopener, hopen⟩ := h.work t _ l hc hl
  have hlock {q : Process T} {lock' : WorkspaceLock T}
      (hq : (q, lock') ∈ s.locks ++ [(p, lock)]) :
      (q, lock') ∈ s.locks ∨ q = p ∧ lock' = lock := by
    rcases mem_append.mp hq with hq | hq
    · exact .inl hq
    · exact .inr (Prod.mk.inj (mem_singleton.mp hq))
  constructor
  case births => exact h.births
  case known => exact h.known
  case own => exact h.own
  case serials => exact h.serials
  case granted =>
    intro q lock' l' hq hl'
    rcases hlock hq with hq | ⟨rfl, rfl⟩
    · exact h.granted q lock' l' hq hl'
    · obtain rfl : l = l' := some.inj (hl.symm.trans hl')
      have hcaller := h.caller t _ hc
      exact ⟨hgranted, (h.known _ l hopen).2, hopener ▸ h.births _ hcaller.1, hopener ▸ hcaller.2⟩
  case caller => exact fun t' c hc' => h.caller t' c (calls_finish.mp hc').2
  case phase =>
    intro t' c hc'
    obtain ⟨hne, hold⟩ := calls_finish.mp hc'
    have hphase := h.phase t' c hold
    -- The lease of another acquisition is another lease.
    have hother {l' : Lease T} (hl' : c.phase.lease = some l') (hu : s.Unpublished l') :
        State.Unpublished ({ s with record := some lock.toDict, locks := s.locks ++ [(p, lock)] }.finish t)
          l' := by
      intro q lock' l'' hq hl'' heq
      rcases hlock hq with hq | ⟨-, rfl⟩
      · exact hu q lock' l'' hq hl'' heq
      · obtain rfl : l = l'' := some.inj (hl.symm.trans hl'')
        obtain rfl := h.serials _ _ _ _ hopen (h.work t' c l' hold hl').2 heq
        exact hne (h.alone t' t c _ l hold hc hl' hl)
    have hkeep {q : Process T} {lock' : WorkspaceLock T} (hq : (q, lock') ∈ s.locks) :
        (q, lock') ∈ s.locks ++ [(p, lock)] := mem_append_left _ hq
    generalize c.phase = phase at hphase hother ⊢
    cases phase with
    | flock l' => exact hother rfl hphase
    | inspect l' => exact ⟨hother rfl hphase.1, hphase.2⟩
    | publish lock' =>
      obtain ⟨l', hl', hu, hg, hgr⟩ := hphase
      exact ⟨l', hl', hother hl' hu, hg, hgr⟩
    | validate lock' => exact ⟨hkeep hphase.1, hphase.2⟩
    | compare lock' => exact hkeep hphase
    | delete lock' => exact hkeep hphase
    | close => trivial
  case work => exact fun t' c l' hc' => h.work t' c l' (calls_finish.mp hc').2
  case alone =>
    exact fun t₁ t₂ c₁ c₂ l' h₁ h₂ =>
      h.alone t₁ t₂ c₁ c₂ l' (calls_finish.mp h₁).2 (calls_finish.mp h₂).2
  case guard =>
    intro q lock' l' q' hq hl' hq'
    rcases hlock hq with hq | ⟨-, rfl⟩
    · exact h.guard q lock' l' q' hq hl' hq'
    · exact some.inj (hl.symm.trans hl') ▸ hguard
  case record =>
    intro lock' l' hq hl'
    rcases hlock hq with hq | ⟨-, rfl⟩
    · -- The handle of another lease: its descriptor is closed, its owner id another one.
      have hserial : l'.serial ≠ l.serial := hunpublished _ lock' l' hq hl'
      refine iff_of_false (fun hrecord => hserial ?_) fun hmem => hserial ?_
      · have howner := congrArg Metadata.ownerId (some.inj hrecord)
        have howner' := (h.granted _ lock' l' hq hl').1.owner
        refine (ws.ownerId_injective (some.inj ?_)).symm
        exact (hgranted.owner.symm.trans howner).trans howner'
      · have hguard' := h.guard _ lock' l' _ hq hl' hmem.1
        rw [some.inj (hguard'.symm.trans hguard)]
    · obtain rfl : l = l' := some.inj (hl.symm.trans hl')
      refine iff_of_true rfl ⟨hopener ▸ hopen, ?_⟩
      rintro ⟨t', c, r, hc', hphase⟩
      obtain ⟨hne, hold⟩ := calls_finish.mp hc'
      exact hne (h.alone t' t c _ l hold hc (by rw [hphase]; rfl) hl)

/-- The metadata that a release deletes is its own. -/
theorem Inv.record_delete (hc : s.calls t = some ⟨p, .delete lock⟩) (hl : lock.lease = some l) : s.record = some lock.toDict := by
  obtain ⟨rfl, hopen⟩ := h.work t _ l hc hl
  have hlock : (l.opener, lock) ∈ s.locks := h.phase t _ hc
  exact (h.record lock l hlock hl).mpr ⟨hopen, h.not_closing hc hl (by simp)⟩

/-- A deletion by the holder keeps the invariant. -/
theorem Inv.delete (hc : s.calls t = some ⟨p, .delete lock⟩) (hl : lock.lease = some l) : Inv ws ({ s with record := none }.goto t p (.close l none)) := by
  have hwork := h.work t _ l hc hl
  have hcaller := h.caller t _ hc
  have hlock : (p, lock) ∈ s.locks := h.phase t _ hc
  refine { h with caller := ?_, phase := ?_, work := ?_, alone := ?_, record := ?_ }
  · intro t' c hc'
    rcases calls_goto.mp hc' with ⟨-, rfl⟩ | ⟨-, hold⟩
    · exact hcaller
    · exact h.caller t' c hold
  · intro t' c hc'
    rcases calls_goto.mp hc' with ⟨-, rfl⟩ | ⟨-, hold⟩
    · trivial
    · exact (h.phase t' c hold).mono (fun _ hl => hl) (fun q _ hl _ => ⟨q, hl⟩) rfl
  · intro t' c l' hc' hl'
    rcases calls_goto.mp hc' with ⟨-, rfl⟩ | ⟨-, hold⟩
    · cases hl'
      exact hwork
    · exact h.work t' c l' hold hl'
  · intro t₁ t₂ c₁ c₂ l' hc₁ hc₂ hl₁ hl₂
    rcases calls_goto.mp hc₁ with ⟨rfl, rfl⟩ | ⟨-, hold₁⟩ <;>
      rcases calls_goto.mp hc₂ with ⟨rfl, rfl⟩ | ⟨-, hold₂⟩
    · rfl
    · cases hl₁
      exact h.alone _ t₂ _ c₂ _ hc hold₂ hl hl₂
    · cases hl₂
      exact h.alone t₁ _ c₁ _ _ hold₁ hc hl₁ hl
    · exact h.alone t₁ t₂ c₁ c₂ l' hold₁ hold₂ hl₁ hl₂
  · intro lock' l' hlock' hl'
    refine iff_of_false nofun fun ⟨hopen', hclosing⟩ => hclosing ?_
    -- Two leases that are open and granted are the one that has the guard.
    have hguard := h.guard _ lock l _ hlock hl hwork.2
    have hguard' := h.guard _ lock' l' _ hlock' hl' hopen'
    obtain rfl := some.inj (hguard.symm.trans hguard')
    exact ⟨t, _, none, calls_goto.mpr (.inl ⟨rfl, rfl⟩), rfl⟩

end

/-- A lease is closed. -/
theorem Inv.close {raised : Option (WorkspaceLockHeld T)}
    (hc : s.calls t = some ⟨p, .close l raised⟩) :
    Inv ws ({ s with fds := s.fds.filter fun e => e ≠ (p, l) }.finish t) := by
  obtain ⟨rfl, hopen⟩ := h.work t _ l hc rfl
  have hfd {q : Process T} {l' : Lease T} :
      (q, l') ∈ s.fds.filter (fun e => e ≠ (l.opener, l)) ↔
        (q, l') ∈ s.fds ∧ (q, l') ≠ (l.opener, l) := by
    rw [mem_filter, decide_eq_true_eq]
  constructor
  case births => exact h.births
  case known => exact fun q l' hl' => h.known q l' (hfd.mp hl').1
  case own => exact fun q l' hl' => h.own q l' (hfd.mp hl').1
  case serials =>
    exact fun q l₁ q' l₂ hl₁ hl₂ => h.serials q l₁ q' l₂ (hfd.mp hl₁).1 (hfd.mp hl₂).1
  case granted => exact h.granted
  case caller => exact fun t' c hc' => h.caller t' c (calls_finish.mp hc').2
  case phase =>
    intro t' c hc'
    exact (h.phase t' c (calls_finish.mp hc').2).mono (fun _ hl => hl) (fun q _ hl _ => ⟨q, hl⟩) rfl
  case work =>
    intro t' c l' hc' hl'
    obtain ⟨hne, hold⟩ := calls_finish.mp hc'
    refine ⟨(h.work t' c l' hold hl').1, hfd.mpr ⟨(h.work t' c l' hold hl').2, fun heq => ?_⟩⟩
    obtain rfl := (Prod.mk.inj heq).2
    exact hne (h.alone t' t c _ _ hold hc hl' rfl)
  case alone =>
    exact fun t₁ t₂ c₁ c₂ l' h₁ h₂ =>
      h.alone t₁ t₂ c₁ c₂ l' (calls_finish.mp h₁).2 (calls_finish.mp h₂).2
  case guard => exact fun q lock l' q' hq hl' hq' => h.guard q lock l' q' hq hl' (hfd.mp hq').1
  case record =>
    intro lock l' hlock hl'
    have hold := h.record lock l' hlock hl'
    by_cases hsame : l' = l
    · subst hsame
      refine iff_of_false (fun hrecord => ?_) fun hmem => (hfd.mp hmem.1).2 rfl
      exact (hold.mp hrecord).2 ⟨t, _, raised, hc, rfl⟩
    · have hclosing : State.Closing ({ s with fds := s.fds.filter fun e => e ≠ (l.opener, l) }.finish t) l' ↔
          s.Closing l' := by
        constructor
        · rintro ⟨t', c, r, hc', hphase⟩
          exact ⟨t', c, r, (calls_finish.mp hc').2, hphase⟩
        · rintro ⟨t', c, r, hc', hphase⟩
          have hne : t' ≠ t := by
            rintro rfl
            obtain rfl := some.inj (hc.symm.trans hc')
            exact hsame (Phase.close.inj hphase).1.symm
          exact ⟨t', c, r, calls_finish.mpr ⟨hne, hc'⟩, hphase⟩
      have hkept : (l'.opener, l') ∈ s.fds.filter (fun e => e ≠ (l.opener, l)) ↔
          (l'.opener, l') ∈ s.fds :=
        hfd.trans (and_iff_left fun heq => hsame (Prod.mk.inj heq).2)
      rw [hclosing]
      exact hold.trans (and_congr_left' hkept.symm)

end

/-! ## Steps and runs -/

theorem runs_iff : s.runs p = true ↔ p ∈ s.procs ∧ p ∉ s.forking := by
  simp [State.runs]

theorem leased_iff : s.leased p lock = true ↔ ∃ l, lock.lease = some l ∧ (p, l) ∈ s.fds := by
  rw [State.leased]
  cases lock.lease <;> simp

/-- An acquired handle whose lease is open was acquired by a process that runs. -/
theorem Inv.opener (h : Inv ws s) (hp : s.runs p = true) (hopen : (p, l) ∈ s.fds) : l.opener = p :=
  (h.own p l hopen).resolve_right (runs_iff.mp hp).2

theorem Inv.validate (h : Inv ws s) {writer : WorkspaceLock T} {root : String}
    (hp : s.runs p = true) (hwriter : (p, writer) ∈ s.locks) (ht : s.calls t = none)
    (hacquired : s.acquired p writer root = true) : Inv ws (s.goto t p (.validate writer)) := by
  simp only [State.acquired, Bool.and_eq_true] at hacquired
  obtain ⟨l, hl, hopen⟩ := leased_iff.mp hacquired.1.1.1
  exact h.goto (runs_iff.mp hp) ⟨hwriter, l, hl, h.opener hp hopen⟩ (by simp [Phase.lease])
    (by simp [Phase.lease]) (by simp [ht]) (by simp)

/-- A release begins, if no other release of the handle is in flight. -/
theorem Inv.release (h : Inv ws s) (hp : s.runs p = true) (hlock : (p, lock) ∈ s.locks)
    (ht : s.calls t = none)
    (halone : ∀ l, lock.lease = some l → ∀ t c, s.calls t = some c → c.proc = p →
      c.phase.lease ≠ some l) : Inv ws (s.release t p lock) := by
  rw [State.release]
  split
  · rename_i l hl
    split
    · rename_i hleased
      obtain ⟨l', hl', hopen⟩ := leased_iff.mp hleased
      obtain rfl : l = l' := some.inj (hl.symm.trans hl')
      have hopener := h.opener hp hopen
      have hpid : lock.pid = p.pid := hopener ▸ (h.granted p lock l hlock hl).1.pid
      rw [if_pos hpid]
      refine h.goto (runs_iff.mp hp) hlock (fun l' hl' => ?_) (fun t' c l' _ hc hl' => ?_)
        (by simp [ht]) (by simp)
      · obtain rfl : l = l' := some.inj (hl.symm.trans hl')
        exact ⟨hopener, hopen⟩
      · obtain rfl : l = l' := some.inj (hl.symm.trans hl')
        intro hwork
        refine halone l hl t' c hc ?_ hwork
        rw [← (h.work t' c l hc hwork).1, hopener]
    · exact h
  · exact h

omit [DecidableEq T] in
/-- A call goes on with the lease it works on. -/
theorem Inv.goon (h : Inv ws s) {before after : Phase T} (hc : s.calls t = some ⟨p, before⟩)
    (hlease : after.lease = before.lease) (hbefore : ∀ l r, before ≠ .close l r)
    (hok : PhaseOk ws s p after)
    (hclose : ∀ lock l r, after = .close l r → (l.opener, lock) ∈ s.locks → lock.lease = some l →
      s.record ≠ some lock.toDict) : Inv ws (s.goto t p after) := by
  refine h.goto (h.caller t _ hc) hok (fun l hl => h.work t _ l hc (hlease ▸ hl))
    (fun t' c l hne hc' hl hwork => ?_) (fun c l r hc' => ?_) hclose
  · exact hne (h.alone t' t c _ l hc' hc hwork (hlease ▸ hl))
  · rw [hc, some.injEq] at hc'
    exact hc' ▸ hbefore l r

/-- The call of a thread takes its next step. -/
theorem Inv.advance (h : Inv ws s) (hc : s.calls t = some c) (now : String) :
    Inv ws (s.advance ws t c.proc now c.phase) := by
  obtain ⟨p, phase⟩ := c
  have hphase := h.phase t _ hc
  cases phase with
  | flock l instanceId stealStale =>
    rw [State.advance]
    split
    · exact h.flock hc ‹_›
    · refine h.goon hc rfl (by simp) trivial fun lock l' r heq hlock hl => ?_
      obtain ⟨rfl, -⟩ := Phase.close.inj heq
      exact absurd rfl (hphase _ lock l hlock hl)
  | inspect l instanceId stealStale =>
    obtain ⟨hunpublished, hguard⟩ := hphase
    rw [State.advance]
    split
    · have hopener := (h.work t _ l hc rfl).1
      exact h.goon hc rfl (by simp) ⟨l, rfl, hunpublished, hguard, hopener ▸ rfl, rfl, rfl⟩ (by simp)
    · refine h.goon hc rfl (by simp) trivial fun lock l' r heq hlock hl => ?_
      obtain ⟨rfl, -⟩ := Phase.close.inj heq
      exact absurd rfl (hunpublished _ lock l hlock hl)
  | publish lock => exact h.publish hc
  | validate lock =>
    refine h.finish fun c l r hc' => ?_
    rw [hc, some.injEq] at hc'
    simp [← hc']
  | compare lock =>
    rw [State.advance]
    split
    · rename_i l hl
      split
      · exact h.goon hc rfl (by simp) hphase (by simp)
      · rename_i hrecord
        refine h.goon hc hl.symm (by simp) trivial fun lock' l' r heq hlock' hl' hrecord' => hrecord ?_
        obtain ⟨rfl, -⟩ := Phase.close.inj heq
        obtain ⟨rfl, -⟩ := h.work t _ l hc hl
        exact (h.record lock l hphase hl).mpr ((h.record lock' l hlock' hl').mp hrecord')
    · refine h.finish fun c l r hc' => ?_
      rw [hc, some.injEq] at hc'
      simp [← hc']
  | delete lock =>
    rw [State.advance]
    split
    · exact h.delete hc ‹_›
    · refine h.finish fun c l r hc' => ?_
      rw [hc, some.injEq] at hc'
      simp [← hc']
  | close l raised => exact h.close hc

/-- No handle is released twice at once. -/
def Orderly (s : State T) : Act T → Prop
  | .release _ p lock => ∀ l, lock.lease = some l → ∀ t c, s.calls t = some c → c.proc = p →
      c.phase.lease ≠ some l
  | _ => True

omit [DecidableEq T] in
/-- A step that has a guard. -/
theorem step_if {b : Prop} [Decidable b] {s' : State T} :
    (if b then some s else none) = some s' ↔ b ∧ s = s' := by simp

/-- **Step lemma.** -/
theorem Inv.step (h : Inv ws s) {a : Act T} {s' : State T} (ha : Orderly s a)
    (hs : s.step ws a = some s') : Inv ws s' := by
  cases a with
  | spawn pid startTime =>
    simp only [State.step, step_if] at hs
    exact hs.2 ▸ h.spawn pid startTime
  | fork parent pid startTime =>
    simp only [State.step, step_if] at hs
    exact hs.2 ▸ h.fork pid startTime
  | closeInherited child =>
    simp only [State.step, step_if, contains_iff_mem] at hs
    exact hs.2 ▸ h.closeInherited hs.1
  | exit p =>
    simp only [State.step, step_if] at hs
    exact hs.2 ▸ h.exit p
  | describe p =>
    simp only [State.step] at hs
    split at hs
    · simp only [step_if, Bool.and_eq_true] at hs
      obtain ⟨⟨hp, -⟩, rfl⟩ := hs
      exact h.describe (runs_iff.mp hp).1 _
    · cases hs
  | acquire t p instanceId stealStale =>
    simp only [State.step, step_if, Bool.and_eq_true, isNone_iff_eq_none] at hs
    obtain ⟨⟨hp, ht⟩, rfl⟩ := hs
    exact h.acquire (runs_iff.mp hp) ht instanceId stealStale
  | validate t p writer root =>
    simp only [State.step, step_if, Bool.and_eq_true,
      isNone_iff_eq_none, contains_iff_mem] at hs
    obtain ⟨⟨⟨hp, hwriter⟩, ht⟩, rfl⟩ := hs
    split
    · exact h.validate hp hwriter ht ‹_›
    · exact h
  | release t p lock =>
    simp only [State.step, step_if, Bool.and_eq_true,
      isNone_iff_eq_none, contains_iff_mem] at hs
    obtain ⟨⟨⟨hp, hlock⟩, ht⟩, rfl⟩ := hs
    exact h.release hp hlock ht ha
  | advance t now =>
    simp only [State.step] at hs
    split at hs
    · obtain rfl := some.inj hs
      exact h.advance ‹_› now
    · cases hs

/-- The states that steps of a kind lead to. -/
inductive Run (ws : Workspace) (kind : State T → Act T → Prop) (s₀ : State T) : State T → Prop
  | refl : Run ws kind s₀ s₀
  | step {s s' : State T} {a : Act T} (hrun : Run ws kind s₀ s) (ha : kind s a)
      (hs : s.step ws a = some s') : Run ws kind s₀ s'

omit [DecidableEq T] in
/-- The invariant holds at the start. -/
theorem Initial.inv (h : Initial ws s) : Inv ws s where
  births := h.births
  known := by simp [h.fds]
  own := by simp [h.fds]
  serials := by simp [h.fds]
  granted := by simp [h.locks]
  caller := by simp [h.calls]
  phase := by simp [h.calls]
  work := by simp [h.calls]
  alone := by simp [h.calls]
  guard := by simp [h.locks]
  record := by simp [h.locks]

/-- **Run lemma.** -/
theorem Run.inv {s₀ : State T} (hrun : Run ws Orderly s₀ s) (h : Inv ws s₀) : Inv ws s := by
  induction hrun with
  | refl => exact h
  | step _ ha hs ih => exact ih.step ha hs

end Zicato.Lock
