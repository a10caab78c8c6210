import Mathlib.Data.List.Basic

/-! # A process table with reuse of process and group identifiers

What the kernel promises about identifiers and no more: two processes of the
table have different pids; a new process gets a number that names neither a
process nor a group with members; a group is made by the process of its number.
A pid that was reaped, and a group id whose last member is gone, may be given
out again at once.

Each process carries two facts the kernel does not show: `birth`, which no other
process ever has, and `maker`, the pid and start time of the process that made
its group.  They are what "the same process" and "the group this process made"
mean across reuse. -/
open List Option
namespace Zicato.Processes

/-- An entry of the process table. -/
structure Process where
  pid : Int
  pgid : Int
  /-- The start time, in clock ticks since boot. -/
  start : Nat
  /-- Ended, not yet reaped. -/
  zombie : Bool
  maker : Int × Nat
  birth : Nat
  deriving DecidableEq, Repr

/-- The process table, as the supervisor's machine has it. -/
structure Table where
  procs : List Process
  /-- The birth of the next process. -/
  births : Nat
  /-- The process from which the table is looked at; it does not end. -/
  self : Nat
  /-- Processes that stay in the group they are in. -/
  settled : List Nat
  deriving DecidableEq, Repr

namespace Table

/-- The process of a pid. -/
def find (t : Table) (pid : Int) : Option Process := t.procs.find? fun p => p.pid = pid

/-- The group of the looking process. -/
def ownGroup (t : Table) : Int := ((t.procs.find? fun p => p.birth = t.self).map (·.pgid)).getD 0

/-- The pid of the supervisor. -/
def ownPid (t : Table) : Int := ((t.procs.find? fun p => p.birth = t.self).map (·.pid)).getD 0

/-- The processes of a group. -/
def members (t : Table) (pgid : Int) : List Process := t.procs.filter fun p => p.pgid = pgid

/-- A process changed. -/
def update (t : Table) (pid : Int) (f : Process → Process) : Table :=
  { t with procs := t.procs.map fun p => if p.pid = pid then f p else p }

end Table

/-- What processes do to the table. -/
inductive Change
  | fork (parent child : Int) (start : Nat)
  /-- The process makes the group of its own number. -/
  | lead (pid : Int)
  | join (pid pgid : Int)
  | exit (pid : Int)
  | reap (pid : Int)
  deriving DecidableEq, Repr

namespace Table

/-- A change of the table, if it can happen. -/
def evolve (t : Table) : Change → Option Table
  | .fork parent child start => do
    let p ← t.find parent
    -- A number in use as a pid or as a group id is not given out.
    if p.zombie = true ∨ child ≤ 1 ∨ (∃ q ∈ t.procs, q.pid = child ∨ q.pgid = child) then none
    else some { t with
      procs := { p with pid := child, start := start, birth := t.births } :: t.procs
      births := t.births + 1 }
  | .lead pid => do
    let p ← t.find pid
    if p.zombie = true ∨ p.birth ∈ t.settled ∨ (∃ q ∈ t.procs, q.pgid = pid) then none
    else some (t.update pid fun p => { p with pgid := pid, maker := (pid, p.start) })
  | .join pid pgid => do
    let p ← t.find pid
    let member ← t.procs.find? fun q => q.pgid = pgid
    if p.zombie = true ∨ p.birth ∈ t.settled then none
    else some (t.update pid fun p => { p with pgid := pgid, maker := member.maker })
  | .exit pid => do
    let p ← t.find pid
    if p.birth = t.self then none
    else some (t.update pid fun p => { p with zombie := true })
  | .reap pid => do
    let p ← t.find pid
    if p.zombie = true then some { t with procs := t.procs.filter fun q => q.pid ≠ pid }
    else none

/-- What every table satisfies. -/
structure Valid (t : Table) : Prop where
  pid_pos : ∀ p ∈ t.procs, 0 < p.pid
  pid_inj : ∀ p ∈ t.procs, ∀ q ∈ t.procs, p.pid = q.pid → p = q
  birth_lt : ∀ p ∈ t.procs, p.birth < t.births
  birth_inj : ∀ p ∈ t.procs, ∀ q ∈ t.procs, p.birth = q.birth → p = q
  /-- One group has one maker. -/
  same_maker : ∀ p ∈ t.procs, ∀ q ∈ t.procs, p.pgid = q.pgid → p.maker = q.maker
  /-- While a process is in the table, the group of its number is its own. -/
  leader : ∀ p ∈ t.procs, ∀ q ∈ t.procs, q.pgid = p.pid → q.maker = (p.pid, p.start)
  self_alive : ∃ p ∈ t.procs, p.birth = t.self ∧ p.zombie = false
  self_settled : t.self ∈ t.settled
  settled_lt : ∀ b ∈ t.settled, b < t.births
  init_settled : ∀ p ∈ t.procs, p.pid = 1 → p.pgid ≤ 1 ∧ p.birth ∈ t.settled

/-- From `t` to `t'` the settled processes kept their pid and group. -/
structure Later (t t' : Table) : Prop where
  self : t'.self = t.self
  settled : t'.settled = t.settled
  kept : ∀ p' ∈ t'.procs, p'.birth ∈ t.settled →
    ∃ p ∈ t.procs, p.birth = p'.birth ∧ p.pid = p'.pid ∧ p.pgid = p'.pgid

theorem Later.refl (t : Table) : Later t t :=
  ⟨rfl, rfl, fun p hp _ => ⟨p, hp, rfl, rfl, rfl⟩⟩

theorem Later.trans {t t' t'' : Table} (h : Later t t') (h' : Later t' t'') : Later t t'' := by
  refine ⟨h'.self.trans h.self, h'.settled.trans h.settled, fun p'' hp'' hsettled => ?_⟩
  obtain ⟨p', hp', hbirth', hpid', hpgid'⟩ := h'.kept p'' hp'' (h.settled ▸ hsettled)
  obtain ⟨p, hp, hbirth, hpid, hpgid⟩ := h.kept p' hp' (hbirth' ▸ hsettled)
  exact ⟨p, hp, hbirth.trans hbirth', hpid.trans hpid', hpgid.trans hpgid'⟩

/-! ## Looking a process up -/

variable {t t' : Table}

variable {p : Process} {f : Process → Process} {c : Change}

theorem find_some {pid : Int} (h : t.find pid = some p) : p ∈ t.procs ∧ p.pid = pid :=
  ⟨mem_of_find?_eq_some h, by simpa using find?_some h⟩

theorem find_none {pid : Int} (h : t.find pid = none) : ∀ p ∈ t.procs, p.pid ≠ pid := by
  intro p hp
  simpa using find?_eq_none.1 h p hp

theorem Valid.find_eq (hv : t.Valid) (hp : p ∈ t.procs) : t.find p.pid = some p := by
  cases hfind : t.find p.pid with
  | none => exact absurd rfl (find_none hfind p hp)
  | some q =>
    obtain ⟨hq, hpid⟩ := find_some hfind
    rw [hv.pid_inj q hq p hp hpid]

theorem mem_members {pgid : Int} : p ∈ t.members pgid ↔ p ∈ t.procs ∧ p.pgid = pgid := by
  simp [members]

theorem mem_update {pid : Int} {q : Process} :
    q ∈ (t.update pid f).procs ↔ ∃ p ∈ t.procs, (if p.pid = pid then f p else p) = q := by
  simp [update]

section
variable (hv : t.Valid) (hp : p ∈ t.procs) (hself : p.birth = t.self)
include hv hp hself

/-- The looking process is found by its birth. -/
theorem Valid.find_self : t.procs.find? (fun p => p.birth = t.self) = some p:= by
  obtain ⟨q, hq⟩ : ∃ q, t.procs.find? (fun p => p.birth = t.self) = some q := by
    refine isSome_iff_exists.1 ?_
    rw [find?_isSome]
    exact ⟨p, hp, by simpa using hself⟩
  have hbirth : q.birth = t.self := by simpa using find?_some hq
  rw [hq, hv.birth_inj q (mem_of_find?_eq_some hq) p hp (hbirth.trans hself.symm)]

theorem Valid.pgid_self : p.pgid = t.ownGroup:= by
  simp [ownGroup, hv.find_self hp hself]

theorem Valid.pid_self : p.pid = t.ownPid:= by
  simp [ownPid, hv.find_self hp hself]

end

/-- The looking process keeps its pid. -/
theorem Later.ownPid (h : Later t t') (hv : t.Valid) (hv' : t'.Valid) : t'.ownPid = t.ownPid := by
  obtain ⟨p', hp', hself', -⟩ := hv'.self_alive
  obtain ⟨p, hp, hbirth, hpid, -⟩ := h.kept p' hp' (by rw [hself', h.self]; exact hv.self_settled)
  rw [← hv'.pid_self hp' hself', ← hpid]
  exact hv.pid_self hp (by rw [hbirth, hself', h.self])

/-! ## One change -/

/-- A process of an updated table is the updated one or one that was there. -/
theorem Valid.mem_update_iff (hv : t.Valid) {q : Process} (hp : p ∈ t.procs) :
    q ∈ (t.update p.pid f).procs ↔ q = f p ∨ (q ∈ t.procs ∧ q.pid ≠ p.pid) := by
  rw [mem_update]
  constructor
  · rintro ⟨r, hr, rfl⟩
    by_cases hpid : r.pid = p.pid
    · left
      rw [if_pos hpid, hv.pid_inj r hr p hp hpid]
    · right
      rw [if_neg hpid]
      exact ⟨hr, hpid⟩
  · rintro (rfl | ⟨hq, hpid⟩)
    · exact ⟨p, hp, if_pos rfl⟩
    · exact ⟨q, hq, if_neg hpid⟩

/-- What a change does to the table. -/
theorem evolve_cases (hv : t.Valid) (h : t.evolve c = some t') :
    (∃ p ∈ t.procs, ∃ child start, 1 < child ∧
      (∀ q ∈ t.procs, q.pid ≠ child ∧ q.pgid ≠ child) ∧
      t' = { t with
        procs := { p with pid := child, start := start, birth := t.births } :: t.procs
        births := t.births + 1 }) ∨
    (∃ p ∈ t.procs, ∃ pgid maker f, p.birth ∉ t.settled ∧
      f p = { p with pgid := pgid, maker := maker } ∧
      (∀ q ∈ t.procs, q.pgid = pgid → q.maker = maker) ∧
      (∀ q ∈ t.procs, q.pid = pgid → maker = (q.pid, q.start)) ∧
      t' = t.update p.pid f) ∨
    (∃ p ∈ t.procs, p.birth ≠ t.self ∧ t' = t.update p.pid fun p => { p with zombie := true }) ∨
    (∃ p ∈ t.procs, p.zombie = true ∧
      t' = { t with procs := t.procs.filter fun q => q.pid ≠ p.pid }) := by
  cases c with
  | fork parent child start =>
    obtain ⟨p, hfind, hrest⟩ := bind_eq_some_iff.1 h
    obtain ⟨hp, rfl⟩ := find_some hfind
    by_cases hbad : p.zombie = true ∨ child ≤ 1 ∨ ∃ q ∈ t.procs, q.pid = child ∨ q.pgid = child
    · rw [if_pos hbad] at hrest
      cases hrest
    · rw [if_neg hbad] at hrest
      push Not at hbad
      have hlarge : 1 < child := by
        have := hbad.2.1
        omega
      exact .inl ⟨p, hp, child, start, hlarge, hbad.2.2, (some.inj hrest).symm⟩
  | lead pid =>
    obtain ⟨p, hfind, hrest⟩ := bind_eq_some_iff.1 h
    obtain ⟨hp, rfl⟩ := find_some hfind
    by_cases hbad : p.zombie = true ∨ p.birth ∈ t.settled ∨ ∃ q ∈ t.procs, q.pgid = p.pid
    · rw [if_pos hbad] at hrest
      cases hrest
    · rw [if_neg hbad] at hrest
      push Not at hbad
      refine .inr (.inl ⟨p, hp, p.pid, (p.pid, p.start), _, hbad.2.1, rfl, ?_, ?_,
        (some.inj hrest).symm⟩)
      · intro q hq hpgid
        exact absurd hpgid (hbad.2.2 q hq)
      · intro q hq hpid
        rw [hv.pid_inj q hq p hp hpid]
  | join pid pgid =>
    obtain ⟨p, hfind, hrest⟩ := bind_eq_some_iff.1 h
    obtain ⟨hp, rfl⟩ := find_some hfind
    obtain ⟨member, hmember, hrest⟩ := bind_eq_some_iff.1 hrest
    have hmem := mem_of_find?_eq_some hmember
    have hpgid : member.pgid = pgid := by simpa using find?_some hmember
    by_cases hbad : p.zombie = true ∨ p.birth ∈ t.settled
    · rw [if_pos hbad] at hrest
      cases hrest
    · rw [if_neg hbad] at hrest
      push Not at hbad
      refine .inr (.inl ⟨p, hp, pgid, member.maker, _, hbad.2, rfl, ?_, ?_,
        (some.inj hrest).symm⟩)
      · intro q hq hq'
        exact hv.same_maker q hq member hmem (hq'.trans hpgid.symm)
      · intro q hq hpid
        exact hv.leader q hq member hmem (hpgid.trans hpid.symm)
  | exit pid =>
    obtain ⟨p, hfind, hrest⟩ := bind_eq_some_iff.1 h
    obtain ⟨hp, rfl⟩ := find_some hfind
    by_cases hself : p.birth = t.self
    · rw [if_pos hself] at hrest
      cases hrest
    · rw [if_neg hself] at hrest
      exact .inr (.inr (.inl ⟨p, hp, hself, (some.inj hrest).symm⟩))
  | reap pid =>
    obtain ⟨p, hfind, hrest⟩ := bind_eq_some_iff.1 h
    obtain ⟨hp, rfl⟩ := find_some hfind
    by_cases hzombie : p.zombie = true
    · rw [if_pos hzombie] at hrest
      exact .inr (.inr (.inr ⟨p, hp, hzombie, (some.inj hrest).symm⟩))
    · rw [if_neg hzombie] at hrest
      cases hrest

/-- A fork keeps the table valid. -/
theorem Valid.fork (hv : t.Valid) (hp : p ∈ t.procs) {child : Int} {start : Nat}
    (hchild : 1 < child) (hfresh : ∀ q ∈ t.procs, q.pid ≠ child ∧ q.pgid ≠ child) :
    Valid { t with
      procs := { p with pid := child, start := start, birth := t.births } :: t.procs
      births := t.births + 1 } := by
  constructor
  case pid_pos =>
    intro q hq
    rcases mem_cons.1 hq with rfl | hq
    · exact Int.lt_trans Int.zero_lt_one hchild
    · exact hv.pid_pos q hq
  case pid_inj =>
    intro q hq r hr heq
    rcases mem_cons.1 hq with rfl | hq <;> rcases mem_cons.1 hr with rfl | hr
    · rfl
    · exact absurd heq.symm (hfresh r hr).1
    · exact absurd heq (hfresh q hq).1
    · exact hv.pid_inj q hq r hr heq
  case birth_lt =>
    intro q hq
    rcases mem_cons.1 hq with rfl | hq
    · exact Nat.lt_succ_self _
    · exact Nat.lt_succ_of_lt (hv.birth_lt q hq)
  case birth_inj =>
    intro q hq r hr heq
    rcases mem_cons.1 hq with rfl | hq <;> rcases mem_cons.1 hr with rfl | hr
    · rfl
    · exact absurd heq.symm (Nat.ne_of_lt (hv.birth_lt r hr))
    · exact absurd heq (Nat.ne_of_lt (hv.birth_lt q hq))
    · exact hv.birth_inj q hq r hr heq
  case same_maker =>
    intro q hq r hr heq
    rcases mem_cons.1 hq with rfl | hq <;> rcases mem_cons.1 hr with rfl | hr
    · rfl
    · exact hv.same_maker p hp r hr heq
    · exact hv.same_maker q hq p hp heq
    · exact hv.same_maker q hq r hr heq
  case leader =>
    intro q hq r hr heq
    rcases mem_cons.1 hq with rfl | hq <;> rcases mem_cons.1 hr with rfl | hr
    · exact absurd heq (hfresh p hp).2
    · exact absurd heq (hfresh r hr).2
    · exact hv.leader q hq p hp heq
    · exact hv.leader q hq r hr heq
  case self_alive =>
    obtain ⟨q, hq, h⟩ := hv.self_alive
    exact ⟨q, mem_cons_of_mem _ hq, h⟩
  case self_settled => exact hv.self_settled
  case settled_lt =>
    intro b hb
    exact Nat.lt_succ_of_lt (hv.settled_lt b hb)
  case init_settled =>
    intro q hq hone
    rcases mem_cons.1 hq with rfl | hq
    · exact absurd hone (Int.ne_of_gt hchild)
    · exact hv.init_settled q hq hone

/-- A change of group keeps the table valid. -/
theorem Valid.regroup (hv : t.Valid) (hp : p ∈ t.procs) {pgid : Int} {maker : Int × Nat}
    (hfree : p.birth ∉ t.settled) (hf : f p = { p with pgid := pgid, maker := maker })
    (hmembers : ∀ q ∈ t.procs, q.pgid = pgid → q.maker = maker)
    (hleader : ∀ q ∈ t.procs, q.pid = pgid → maker = (q.pid, q.start)) :
    (t.update p.pid f).Valid := by
  have hmem : ∀ q, q ∈ (t.update p.pid f).procs ↔
      q = { p with pgid := pgid, maker := maker } ∨ (q ∈ t.procs ∧ q.pid ≠ p.pid) := by
    intro q
    rw [hv.mem_update_iff hp, hf]
  constructor
  case pid_pos =>
    intro q hq
    rcases (hmem q).1 hq with rfl | ⟨hq, -⟩
    · exact hv.pid_pos p hp
    · exact hv.pid_pos q hq
  case pid_inj =>
    intro q hq r hr heq
    rcases (hmem q).1 hq with rfl | ⟨hq, hne⟩ <;> rcases (hmem r).1 hr with rfl | ⟨hr, hne'⟩
    · rfl
    · exact absurd heq.symm hne'
    · exact absurd heq hne
    · exact hv.pid_inj q hq r hr heq
  case birth_lt =>
    intro q hq
    rcases (hmem q).1 hq with rfl | ⟨hq, -⟩
    · exact hv.birth_lt p hp
    · exact hv.birth_lt q hq
  case birth_inj =>
    intro q hq r hr heq
    rcases (hmem q).1 hq with rfl | ⟨hq, hne⟩ <;> rcases (hmem r).1 hr with rfl | ⟨hr, hne'⟩
    · rfl
    · exact absurd (congrArg Process.pid (hv.birth_inj p hp r hr heq)).symm hne'
    · exact absurd (congrArg Process.pid (hv.birth_inj q hq p hp heq)) hne
    · exact hv.birth_inj q hq r hr heq
  case same_maker =>
    intro q hq r hr heq
    rcases (hmem q).1 hq with rfl | ⟨hq, -⟩ <;> rcases (hmem r).1 hr with rfl | ⟨hr, -⟩
    · rfl
    · exact (hmembers r hr heq.symm).symm
    · exact hmembers q hq heq
    · exact hv.same_maker q hq r hr heq
  case leader =>
    intro q hq r hr heq
    rcases (hmem q).1 hq with rfl | ⟨hq, -⟩ <;> rcases (hmem r).1 hr with rfl | ⟨hr, -⟩
    · exact hleader p hp heq.symm
    · exact hv.leader p hp r hr heq
    · exact hleader q hq heq.symm
    · exact hv.leader q hq r hr heq
  case self_alive =>
    obtain ⟨q, hq, hbirth, hzombie⟩ := hv.self_alive
    refine ⟨q, (hmem q).2 (.inr ⟨hq, fun hpid => hfree ?_⟩), hbirth, hzombie⟩
    rw [← hv.pid_inj q hq p hp hpid, hbirth]
    exact hv.self_settled
  case self_settled => exact hv.self_settled
  case settled_lt => exact hv.settled_lt
  case init_settled =>
    intro q hq hone
    rcases (hmem q).1 hq with rfl | ⟨hq, -⟩
    · exact absurd (hv.init_settled p hp hone).2 hfree
    · exact hv.init_settled q hq hone

/-- A table whose processes are processes of a valid one, up to having ended, and
which still holds the looking process, is valid. -/
theorem Valid.shrink (hv : t.Valid) {procs : List Process}
    (hfrom : ∀ q ∈ procs, ∃ p ∈ t.procs, q = { p with zombie := q.zombie })
    (hinj : ∀ q ∈ procs, ∀ r ∈ procs, q.pid = r.pid → q = r)
    (hself : ∃ p ∈ procs, p.birth = t.self ∧ p.zombie = false) :
    Valid { t with procs := procs } := by
  constructor
  case pid_pos =>
    intro q hq
    obtain ⟨p, hp, h⟩ := hfrom q hq
    rw [h]
    exact hv.pid_pos p hp
  case pid_inj => exact hinj
  case birth_lt =>
    intro q hq
    obtain ⟨p, hp, h⟩ := hfrom q hq
    rw [h]
    exact hv.birth_lt p hp
  case birth_inj =>
    intro q hq r hr heq
    obtain ⟨p, hp, h⟩ := hfrom q hq
    obtain ⟨p', hp', h'⟩ := hfrom r hr
    refine hinj q hq r hr ?_
    rw [h, h'] at heq ⊢
    show p.pid = p'.pid
    rw [hv.birth_inj p hp p' hp' heq]
  case same_maker =>
    intro q hq r hr heq
    obtain ⟨p, hp, h⟩ := hfrom q hq
    obtain ⟨p', hp', h'⟩ := hfrom r hr
    rw [h, h'] at heq ⊢
    exact hv.same_maker p hp p' hp' heq
  case leader =>
    intro q hq r hr heq
    obtain ⟨p, hp, h⟩ := hfrom q hq
    obtain ⟨p', hp', h'⟩ := hfrom r hr
    rw [h, h'] at heq ⊢
    exact hv.leader p hp p' hp' heq
  case self_alive => exact hself
  case self_settled => exact hv.self_settled
  case settled_lt => exact hv.settled_lt
  case init_settled =>
    intro q hq hone
    obtain ⟨p, hp, h⟩ := hfrom q hq
    rw [h] at hone ⊢
    exact hv.init_settled p hp hone

/-- Every change keeps the table valid. -/
theorem Valid.evolve (hv : t.Valid) (h : t.evolve c = some t') : t'.Valid := by
  rcases evolve_cases hv h with ⟨p, hp, child, start, hchild, hfresh, rfl⟩ |
    ⟨p, hp, pgid, maker, f, hfree, hf, hmembers, hleader, rfl⟩ | ⟨p, hp, hself, rfl⟩ |
    ⟨p, hp, hzombie, rfl⟩
  · exact hv.fork hp hchild hfresh
  · exact hv.regroup hp hfree hf hmembers hleader
  · refine hv.shrink ?_ ?_ ?_
    · intro q hq
      rcases (hv.mem_update_iff hp).1 hq with rfl | ⟨hq, -⟩
      · exact ⟨p, hp, rfl⟩
      · exact ⟨q, hq, rfl⟩
    · intro q hq r hr heq
      rcases (hv.mem_update_iff hp).1 hq with rfl | ⟨hq, hne⟩ <;>
        rcases (hv.mem_update_iff hp).1 hr with rfl | ⟨hr, hne'⟩
      · rfl
      · exact absurd heq.symm hne'
      · exact absurd heq hne
      · exact hv.pid_inj q hq r hr heq
    · obtain ⟨q, hq, hbirth, halive⟩ := hv.self_alive
      refine ⟨q, (hv.mem_update_iff hp).2 (.inr ⟨hq, fun hpid => hself ?_⟩), hbirth, halive⟩
      rw [← hv.pid_inj q hq p hp hpid, hbirth]
  · refine hv.shrink ?_ ?_ ?_
    · intro q hq
      exact ⟨q, mem_of_mem_filter hq, rfl⟩
    · intro q hq r hr heq
      exact hv.pid_inj q (mem_of_mem_filter hq) r (mem_of_mem_filter hr) heq
    · obtain ⟨q, hq, hbirth, halive⟩ := hv.self_alive
      refine ⟨q, mem_filter.2 ⟨hq, ?_⟩, hbirth, halive⟩
      rw [decide_eq_true_eq]
      intro hpid
      rw [hv.pid_inj q hq p hp hpid, hzombie] at halive
      cases halive

/-- What a change leaves is a later table. -/
theorem Valid.later (hv : t.Valid) (h : t.evolve c = some t') : Later t t' := by
  rcases evolve_cases hv h with ⟨p, hp, child, start, hchild, hfresh, rfl⟩ |
    ⟨p, hp, pgid, maker, f, hfree, hf, hmembers, hleader, rfl⟩ | ⟨p, hp, hself, rfl⟩ |
    ⟨p, hp, hzombie, rfl⟩
  · refine ⟨rfl, rfl, fun q hq hsettled => ?_⟩
    rcases mem_cons.1 hq with rfl | hq
    · exact absurd (hv.settled_lt _ hsettled) (Nat.lt_irrefl _)
    · exact ⟨q, hq, rfl, rfl, rfl⟩
  · refine ⟨rfl, rfl, fun q hq hsettled => ?_⟩
    rcases (hv.mem_update_iff hp).1 hq with rfl | ⟨hq, -⟩
    · rw [hf] at hsettled
      exact absurd hsettled hfree
    · exact ⟨q, hq, rfl, rfl, rfl⟩
  · refine ⟨rfl, rfl, fun q hq _ => ?_⟩
    rcases (hv.mem_update_iff hp).1 hq with rfl | ⟨hq, -⟩
    · exact ⟨p, hp, rfl, rfl, rfl⟩
    · exact ⟨q, hq, rfl, rfl, rfl⟩
  · exact ⟨rfl, rfl, fun q hq _ => ⟨q, mem_of_mem_filter hq, rfl, rfl, rfl⟩⟩

end Table
end Zicato.Processes
