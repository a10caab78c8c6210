import Mathlib.Algebra.BigOperators.Group.List.Basic
import Mathlib.Algebra.GroupWithZero.Nat

/-! # Chains under a semaphore

A gather of chains: every chain runs its units one after another, each under a permit
of one semaphore, and a unit that raises ends its chain.  The permits may also be held
by others.  The outcomes of a chain depend on its units alone, and not on the order in
which the chains move. -/
open List Option
namespace Zicato.Gather

variable {υ ρ ε : Type}

/-- What a chain of units returns, where a unit may end as `Out` says: the results of
all its units, or the first error. -/
inductive Chained (Out : υ → Except ε ρ → Bool) : List υ → Except ε (List ρ) → Prop
  | nil : Chained Out [] (.ok [])
  | error {u : υ} {us : List υ} {e : ε} (h : Out u (.error e) = true) :
      Chained Out (u :: us) (.error e)
  | ok {u : υ} {us : List υ} {r : ρ} {rs : List ρ} (h : Out u (.ok r) = true)
      (hrest : Chained Out us (.ok rs)) : Chained Out (u :: us) (.ok (r :: rs))
  | later {u : υ} {us : List υ} {r : ρ} {e : ε} (h : Out u (.ok r) = true)
      (hrest : Chained Out us (.error e)) : Chained Out (u :: us) (.error e)

/-- A chain that is under way. -/
structure Chain (υ ρ ε : Type) where
  todo : List υ
  done : List ρ := []
  /-- The first unit of `todo` holds a permit. -/
  running : Bool := false
  failed : Option ε := none

/-- Nothing of a chain runs, and nothing more will. -/
def Chain.settled (c : Chain υ ρ ε) : Bool :=
  !c.running && (c.failed.isSome || c.todo.isEmpty)

/-- What the gather returns for a chain. -/
def Chain.result (c : Chain υ ρ ε) : Except ε (List ρ) :=
  match c.failed with
  | some e => .error e
  | none => .ok c.done

/-- The chains and the semaphore; `outside` permits are held by others. -/
structure Pool (υ ρ ε : Type) where
  chains : List (Chain υ ρ ε)
  free : Nat
  outside : Nat

/-- What happens in a pool. -/
inductive Move (ρ ε : Type)
  /-- The next unit of a chain takes a permit. -/
  | acquire (i : Nat)
  /-- The unit that runs in a chain ends. -/
  | settle (i : Nat) (outcome : Except ε ρ)
  /-- Another holder takes a permit or gives one back. -/
  | take
  | give

/-- The next unit of a chain starts. -/
def Chain.acquire (c : Chain υ ρ ε) : Option (Chain υ ρ ε) :=
  if c.running || c.failed.isSome || c.todo.isEmpty then none else some { c with running := true }

/-- The unit that runs in a chain ends. -/
def Chain.settle (Out : υ → Except ε ρ → Bool) (c : Chain υ ρ ε) (outcome : Except ε ρ) :
    Option (Chain υ ρ ε) :=
  match c.running, c.todo with
  | true, u :: rest =>
      if Out u outcome then
        match outcome with
        | .ok r => some { todo := rest, done := c.done ++ [r], running := false, failed := c.failed }
        | .error e => some { todo := rest, done := c.done, running := false, failed := some e }
      else none
  | _, _ => none

/-- A move of the pool, if it is possible. -/
def step (Out : υ → Except ε ρ → Bool) (p : Pool υ ρ ε) : Move ρ ε → Option (Pool υ ρ ε)
  | .acquire i =>
      if p.free = 0 then none
      else do
        let c ← p.chains[i]?
        let c' ← c.acquire
        pure { p with chains := p.chains.set i c', free := p.free - 1 }
  | .settle i outcome => do
      let c ← p.chains[i]?
      let c' ← c.settle Out outcome
      pure { p with chains := p.chains.set i c', free := p.free + 1 }
  | .take => if p.free = 0 then none else some { p with free := p.free - 1, outside := p.outside + 1 }
  | .give =>
      if p.outside = 0 then none else some { p with free := p.free + 1, outside := p.outside - 1 }

/-- Moves of the pool. -/
def run (Out : υ → Except ε ρ → Bool) (p : Pool υ ρ ε) (moves : List (Move ρ ε)) :
    Option (Pool υ ρ ε) :=
  moves.foldlM (step Out) p

/-- No chain has begun; others hold `outside` of the permits. -/
def Pool.start (units : List (List υ)) (free outside : Nat) : Pool υ ρ ε where
  chains := units.map fun us => { todo := us }
  free := free
  outside := outside

/-- **A gather** of chains with `permits` permits: some run of them, in any order, has
settled every chain. -/
def Gathered (Out : υ → Except ε ρ → Bool) (permits : Nat) (units : List (List υ))
    (results : List (Except ε (List ρ))) : Prop :=
  ∃ free outside moves p, free + outside = permits ∧
    run Out (Pool.start units free outside) moves = some p ∧
    (∀ c ∈ p.chains, c.settled = true) ∧ p.chains.map (·.result) = results

/-! ## What a chain returns -/

section Results
variable {Out : υ → Except ε ρ → Bool}

/-- The units of a chain before those it still has to run have returned what it has
done, or one of them raised. -/
inductive Progress (Out : υ → Except ε ρ → Bool) (us : List υ) : Chain υ ρ ε → Prop
  | going (before : List υ) (c : Chain υ ρ ε) (hus : us = before ++ c.todo)
      (hdone : List.Forall₂ (fun u r => Out u (.ok r) = true) before c.done)
      (hfailed : c.failed = none) (hrunning : c.running = true → c.todo ≠ []) : Progress Out us c
  | stopped (c : Chain υ ρ ε) (e : ε) (hfailed : c.failed = some e) (hrunning : c.running = false)
      (h : Chained Out us (.error e)) : Progress Out us c

variable {us : List υ} {c : Chain υ ρ ε} {units : List (List υ)}

/-- A chain without a failure has a result for each of its units. -/
theorem chained_ok_iff {rs : List ρ} :
    Chained Out us (.ok rs) ↔ List.Forall₂ (fun u r => Out u (.ok r) = true) us rs := by
  constructor
  · intro h
    generalize hx : (.ok rs : Except ε (List ρ)) = x at h
    induction h generalizing rs with
    | nil =>
      obtain rfl := Except.ok.inj hx
      exact .nil
    | error h => cases hx
    | ok h hrest ih =>
      obtain rfl := Except.ok.inj hx
      exact .cons h (ih rfl)
    | later h hrest ih => cases hx
  · intro h
    induction h with
    | nil => exact .nil
    | cons h hrest ih => exact .ok h ih

theorem chained_error {before : List υ} {done : List ρ} {u : υ} {e : ε}
    (hdone : List.Forall₂ (fun u r => Out u (.ok r) = true) before done)
    (h : Out u (.error e) = true) : Chained Out (before ++ u :: us) (.error e) := by
  induction hdone with
  | nil => exact .error h
  | cons hr hrest ih => exact .later hr ih

/-- A start leaves the results as they are. -/
theorem Progress.acquire {c' : Chain υ ρ ε} (h : Progress Out us c) (hc : c.acquire = some c') :
    Progress Out us c' := by
  unfold Chain.acquire at hc
  split at hc
  · cases hc
  · rename_i hidle
    obtain rfl := some.inj hc
    simp only [Bool.or_eq_true, not_or, Bool.not_eq_true, isSome_eq_false_iff,
      isNone_iff_eq_none, isEmpty_eq_false_iff] at hidle
    cases h with
    | going before c hus hdone hfailed hrunning =>
      exact .going before _ hus hdone hfailed fun _ => hidle.2
    | stopped c e hfailed hrunning h =>
      rw [hidle.1.2] at hfailed
      cases hfailed

/-- The end of a unit adds its result. -/
theorem Progress.settle {c' : Chain υ ρ ε} {outcome : Except ε ρ} (h : Progress Out us c)
    (hc : c.settle Out outcome = some c') : Progress Out us c' := by
  unfold Chain.settle at hc
  split at hc
  · rename_i u rest hrun htodo
    split at hc
    · rename_i hout
      cases h with
      | stopped c e hfailed hrunning h =>
        rw [hrunning] at hrun
        cases hrun
      | going before c hus hdone hfailed hrunning =>
        rw [htodo] at hus
        cases outcome with
        | ok r =>
          obtain rfl := some.inj hc
          refine .going (before ++ [u]) _ ?_ ?_ hfailed ?_
          · rw [hus, List.append_assoc]
            rfl
          · exact rel_append hdone (.cons hout .nil)
          · intro hr
            cases hr
        | error e =>
          obtain rfl := some.inj hc
          rw [hus]
          exact .stopped _ e rfl rfl (chained_error hdone hout)
    · cases hc
  · cases hc

/-- What a settled chain returns. -/
theorem Progress.result (h : Progress Out us c) (hc : c.settled = true) :
    Chained Out us c.result := by
  simp only [Chain.settled, Bool.and_eq_true, Bool.not_eq_true', Bool.or_eq_true,
    List.isEmpty_iff] at hc
  unfold Chain.result
  cases h with
  | going before c hus hdone hfailed hrunning =>
    rw [hfailed] at hc ⊢
    have htodo : c.todo = [] := by simpa using hc.2
    rw [htodo, append_nil] at hus
    subst hus
    exact chained_ok_iff.mpr hdone
  | stopped c e hfailed hrunning h =>
    rw [hfailed]
    exact h

/-- **One move** of the pool keeps every chain on its units. -/
theorem step_progress {p p' : Pool υ ρ ε} {move : Move ρ ε}
    (h : List.Forall₂ (Progress Out) units p.chains) (hstep : step Out p move = some p') :
    List.Forall₂ (Progress Out) units p'.chains := by
  have hset : ∀ {i : Nat} {c c' : Chain υ ρ ε}, p.chains[i]? = some c →
      (∀ us, Progress Out us c → Progress Out us c') →
      Forall₂ (Progress Out) units (p.chains.set i c') := by
    intro i c c' hc hkeep
    rw [forall₂_iff_get] at h ⊢
    refine ⟨by simpa using h.1, ?_⟩
    intro j hj hj'
    have hold := h.2 j hj (by simpa using hj')
    obtain ⟨hi, hget⟩ := List.getElem?_eq_some_iff.mp hc
    by_cases hij : i = j
    · subst hij
      simp only [get_eq_getElem, getElem_set_self] at hold ⊢
      rw [hget] at hold
      exact hkeep _ hold
    · simpa [getElem_set_ne hij] using hold
  cases move with
  | acquire i =>
    simp only [step] at hstep
    split at hstep
    · cases hstep
    · obtain ⟨c, hc, hstep⟩ := bind_eq_some_iff.mp hstep
      obtain ⟨c', hc', hstep⟩ := bind_eq_some_iff.mp hstep
      obtain rfl := some.inj hstep
      exact hset hc fun us hus => hus.acquire hc'
  | settle i outcome =>
    simp only [step] at hstep
    obtain ⟨c, hc, hstep⟩ := bind_eq_some_iff.mp hstep
    obtain ⟨c', hc', hstep⟩ := bind_eq_some_iff.mp hstep
    obtain rfl := some.inj hstep
    exact hset hc fun us hus => hus.settle hc'
  | take | give =>
    simp only [step] at hstep
    split at hstep
    · cases hstep
    · obtain rfl := some.inj hstep
      exact h

theorem run_progress {p p' : Pool υ ρ ε} {moves : List (Move ρ ε)}
    (h : List.Forall₂ (Progress Out) units p.chains) (hrun : run Out p moves = some p') :
    List.Forall₂ (Progress Out) units p'.chains := by
  induction moves generalizing p with
  | nil =>
    obtain rfl := some.inj hrun
    exact h
  | cons move moves ih =>
    obtain ⟨p1, hstep, hrest⟩ := bind_eq_some_iff.mp hrun
    exact ih (step_progress h hstep) hrest

theorem start_progress (units : List (List υ)) (free outside : Nat) :
    List.Forall₂ (Progress Out) units (Pool.start units free outside : Pool υ ρ ε).chains := by
  rw [Pool.start, forall₂_map_right_iff, forall₂_same]
  intro us _
  exact .going [] _ rfl .nil rfl (by simp)

/-- **The order does not matter**: what a gather returns for a chain is what its units
return one after another. -/
theorem Gathered.chained {permits : Nat} {results : List (Except ε (List ρ))}
    (h : Gathered Out permits units results) : List.Forall₂ (Chained Out) units results := by
  obtain ⟨free, outside, moves, p, -, hrun, hsettled, rfl⟩ := h
  have hprogress := run_progress (start_progress units free outside) hrun
  rw [forall₂_map_right_iff]
  rw [forall₂_iff_get] at hprogress ⊢
  refine ⟨hprogress.1, ?_⟩
  intro i hi hi'
  exact (hprogress.2 i hi hi').result (hsettled _ (getElem_mem hi'))

/-- **Units with one outcome each**: the gather returns what `eval` returns for the
units of every chain in turn. -/
theorem Gathered.eq_map {eval : υ → Except ε ρ} (hone : ∀ u o, Out u o = true → o = eval u)
    {permits : Nat} {results : List (Except ε (List ρ))} (h : Gathered Out permits units results) :
    results = units.map (List.mapM eval) := by
  have hchain : ∀ us x, Chained Out us x → x = us.mapM eval := by
    intro us x hx
    induction hx with
    | nil => rfl
    | error h =>
      rw [mapM_cons, ← hone _ _ h]
      rfl
    | ok h hrest ih =>
      rw [mapM_cons, ← hone _ _ h, ← ih]
      rfl
    | later h hrest ih =>
      rw [mapM_cons, ← hone _ _ h, ← ih]
      rfl
  have hall := h.chained
  clear h
  induction hall with
  | nil => rfl
  | cons hx hrest ih => rw [map_cons, ← ih, ← hchain _ _ hx]

end Results

/-! ## A gather ends -/

section Ends
variable {Out : υ → Except ε ρ → Bool}

theorem sum_set {α : Type} (f : α → Nat) {l : List α} {i : Nat} {a b : α} (h : l[i]? = some a) :
    ((l.set i b).map f).sum + f a = (l.map f).sum + f b := by
  induction l generalizing i with
  | nil => simp at h
  | cons x l ih =>
    cases i with
    | zero =>
      obtain rfl : x = a := by simpa using h
      simp only [set_cons_zero, map_cons, sum_cons]
      omega
    | succ i =>
      have := ih (by simpa using h)
      simp only [set_cons_succ, map_cons, sum_cons]
      omega

/-- The permits that the chains hold. -/
def Pool.held (p : Pool υ ρ ε) : Nat := (p.chains.map fun c => c.running.toNat).sum

/-- The moves that a chain has before it. -/
def Chain.remaining (c : Chain υ ρ ε) : Nat :=
  if c.failed.isSome then 0 else 2 * c.todo.length - c.running.toNat

/-- The units still to start or to end. -/
def Pool.remaining (p : Pool υ ρ ε) : Nat := (p.chains.map (·.remaining)).sum

/-- The chain moves, not another holder of a permit. -/
def Move.own : Move ρ ε → Bool
  | .acquire _ => true
  | .settle _ _ => true
  | _ => false

/-- What holds of every chain under way. -/
def Chain.Valid (c : Chain υ ρ ε) : Prop :=
  c.running = true → c.failed = none ∧ c.todo ≠ []

/-- The permits of a pool, and its chains, are as they should be. -/
structure Pool.Valid (permits : Nat) (p : Pool υ ρ ε) : Prop where
  chains : ∀ c ∈ p.chains, c.Valid
  permits : p.free + p.held + p.outside = permits

variable {c' : Chain υ ρ ε} {permits : Nat} {p : Pool υ ρ ε}

/-- What a start does to a chain. -/
theorem Chain.acquire_spec {c : Chain υ ρ ε} (hc : c.acquire = some c') :
    c'.Valid ∧ c.running = false ∧ c'.running = true ∧ c'.remaining + 1 = c.remaining := by
  unfold Chain.acquire at hc
  split at hc
  · cases hc
  · rename_i hidle
    obtain rfl := some.inj hc
    simp only [Bool.or_eq_true, not_or, Bool.not_eq_true, isSome_eq_false_iff,
      isNone_iff_eq_none, isEmpty_eq_false_iff] at hidle
    obtain ⟨⟨hrunning, hfailed⟩, htodo⟩ := hidle
    have hpos : 0 < c.todo.length := length_pos_iff.mpr htodo
    refine ⟨fun _ => ⟨hfailed, htodo⟩, hrunning, rfl, ?_⟩
    simp only [Chain.remaining, hfailed, hrunning, isSome_none, Bool.false_eq_true, if_false,
      Bool.toNat_true, Bool.toNat_false]
    omega

/-- What the end of a unit does to a chain. -/
theorem Chain.settle_spec {c : Chain υ ρ ε} {outcome : Except ε ρ} (hvalid : c.Valid)
    (hc : c.settle Out outcome = some c') :
    c'.Valid ∧ c.running = true ∧ c'.running = false ∧ c'.remaining + 1 ≤ c.remaining := by
  unfold Chain.settle at hc
  split at hc
  · rename_i u rest hrun htodo
    have hfailed := (hvalid hrun).1
    have hlength : c.todo.length = rest.length + 1 := by rw [htodo, length_cons]
    have hold : c.remaining = 2 * rest.length + 1 := by
      simp only [Chain.remaining, hfailed, hrun, hlength, isSome_none, Bool.false_eq_true,
        if_false, Bool.toNat_true]
      omega
    split at hc
    · cases outcome with
      | ok r =>
        obtain rfl := some.inj hc
        refine ⟨fun h => (by cases h), hrun, rfl, ?_⟩
        rw [hold]
        simp [Chain.remaining, hfailed]
      | error e =>
        obtain rfl := some.inj hc
        refine ⟨fun h => (by cases h), hrun, rfl, ?_⟩
        rw [hold]
        simp [Chain.remaining]
    · cases hc
  · cases hc

theorem Pool.Valid.set (h : p.Valid permits) {i : Nat} (hc' : c'.Valid) :
    ∀ d ∈ p.chains.set i c', d.Valid := by
  intro d hd
  rcases mem_or_eq_of_mem_set hd with hd | rfl
  · exact h.chains d hd
  · exact hc'

/-- **One move**: the permits stay what they are, and a chain that moves has fewer
moves before it. -/
theorem step_valid {p' : Pool υ ρ ε} {move : Move ρ ε} (h : p.Valid permits)
    (hstep : step Out p move = some p') :
    p'.Valid permits ∧ p'.remaining + move.own.toNat ≤ p.remaining := by
  have hpermits := h.permits
  cases move with
  | acquire i =>
    simp only [step] at hstep
    split at hstep
    · cases hstep
    · rename_i hfree
      obtain ⟨c, hc, hstep⟩ := bind_eq_some_iff.mp hstep
      obtain ⟨c', hc', hstep⟩ := bind_eq_some_iff.mp hstep
      obtain rfl := some.inj hstep
      obtain ⟨hvalid, hrun, hrun', hremaining⟩ := Chain.acquire_spec hc'
      have hheld := sum_set (fun c => c.running.toNat) (b := c') hc
      have hleft := sum_set (fun c => c.remaining) (b := c') hc
      simp only [hrun, hrun', Bool.toNat_true, Bool.toNat_false] at hheld
      refine ⟨⟨h.set hvalid, ?_⟩, ?_⟩
      · simp only [Pool.held] at hpermits ⊢
        omega
      · simp only [Pool.remaining, Move.own, Bool.toNat_true]
        omega
  | settle i outcome =>
    simp only [step] at hstep
    obtain ⟨c, hc, hstep⟩ := bind_eq_some_iff.mp hstep
    obtain ⟨c', hc', hstep⟩ := bind_eq_some_iff.mp hstep
    obtain rfl := some.inj hstep
    obtain ⟨hvalid, hrun, hrun', hremaining⟩ :=
      Chain.settle_spec (h.chains c (mem_of_getElem? hc)) hc'
    have hheld := sum_set (fun c => c.running.toNat) (b := c') hc
    have hleft := sum_set (fun c => c.remaining) (b := c') hc
    simp only [hrun, hrun', Bool.toNat_true, Bool.toNat_false] at hheld
    refine ⟨⟨h.set hvalid, ?_⟩, ?_⟩
    · simp only [Pool.held] at hpermits ⊢
      omega
    · simp only [Pool.remaining, Move.own, Bool.toNat_true]
      omega
  | take | give =>
    simp only [step] at hstep
    split at hstep
    · cases hstep
    · obtain rfl := some.inj hstep
      refine ⟨⟨h.chains, ?_⟩, Nat.le_refl _⟩
      simp only [Pool.held] at hpermits ⊢
      omega

theorem held_eq_zero (h : ∀ c ∈ p.chains, c.running = false) : p.held = 0 := by
  unfold Pool.held
  generalize p.chains = chains at h
  induction chains with
  | nil => rfl
  | cons c chains ih =>
    obtain ⟨hc, hrest⟩ := forall_mem_cons.mp h
    rw [map_cons, sum_cons, ih hrest, hc]
    rfl

/-- A pool starts with every permit accounted for. -/
theorem start_valid (units : List (List υ)) (free outside : Nat) :
    (Pool.start units free outside : Pool υ ρ ε).Valid (free + outside) where
  chains := by
    intro c hc
    obtain ⟨us, -, rfl⟩ := mem_map.mp hc
    intro hr
    cases hr
  permits := by
    rw [held_eq_zero]
    · rfl
    · intro c hc
      obtain ⟨us, -, rfl⟩ := mem_map.mp hc
      rfl

/-- **No run of a gather is stuck**: while a chain has not settled, one of the chains
can move, or another holder gives a permit back. -/
theorem can_move (hout : ∀ u, ∃ outcome, Out u outcome = true) (hpos : 0 < permits)
    (h : p.Valid permits) (hopen : ∃ c ∈ p.chains, c.settled = false) :
    ∃ move p', step Out p move = some p' ∧ (move.own = true ∨ move = .give) := by
  by_cases hrunning : ∃ c ∈ p.chains, c.running = true
  · obtain ⟨c, hc, hrun⟩ := hrunning
    obtain ⟨i, hi, hget⟩ := getElem_of_mem hc
    have hc? : p.chains[i]? = some c := by rw [getElem?_eq_getElem hi, hget]
    obtain ⟨hfailed, htodo⟩ := h.chains c hc hrun
    obtain ⟨u, rest, hcons⟩ := exists_cons_of_ne_nil htodo
    obtain ⟨outcome, ho⟩ := hout u
    obtain ⟨c', hc'⟩ : ∃ c', c.settle Out outcome = some c' := by
      unfold Chain.settle
      rw [hrun, hcons]
      dsimp only
      rw [if_pos ho]
      cases outcome with
      | ok r => exact ⟨_, rfl⟩
      | error e => exact ⟨_, rfl⟩
    refine ⟨.settle i outcome, { p with chains := p.chains.set i c', free := p.free + 1 }, ?_,
      .inl rfl⟩
    simp [step, hc?, hc']
  · have hidle : ∀ c ∈ p.chains, c.running = false := by
      intro c hc
      by_contra hne
      exact hrunning ⟨c, hc, by simpa using hne⟩
    have hheld : p.held = 0 := held_eq_zero hidle
    have hpermits := h.permits
    by_cases hfree : p.free = 0
    · -- every permit is held by others
      have houtside : p.outside ≠ 0 := by omega
      exact ⟨.give, _, if_neg houtside, .inr rfl⟩
    · obtain ⟨c, hc, hsettled⟩ := hopen
      obtain ⟨i, hi, hget⟩ := getElem_of_mem hc
      have hc? : p.chains[i]? = some c := by rw [getElem?_eq_getElem hi, hget]
      have hc' : c.acquire = some { c with running := true } := by
        simp only [Chain.settled, hidle c hc, Bool.not_false, Bool.true_and,
          Bool.or_eq_false_iff] at hsettled
        simp [Chain.acquire, hidle c hc, hsettled]
      refine ⟨.acquire i,
        { p with chains := p.chains.set i { c with running := true }, free := p.free - 1 }, ?_,
        .inl rfl⟩
      simp [step, hfree, hc?, hc']

/-- The moves of the pool leave the other permits alone. -/
theorem outside_of_own {p' : Pool υ ρ ε} {move : Move ρ ε} (hstep : step Out p move = some p')
    (hown : move.own = true) : p'.outside = p.outside := by
  cases move with
  | acquire i =>
    simp only [step] at hstep
    split at hstep
    · cases hstep
    · obtain ⟨c, -, hstep⟩ := bind_eq_some_iff.mp hstep
      obtain ⟨c', -, hstep⟩ := bind_eq_some_iff.mp hstep
      obtain rfl := some.inj hstep
      rfl
  | settle i outcome =>
    simp only [step] at hstep
    obtain ⟨c, -, hstep⟩ := bind_eq_some_iff.mp hstep
    obtain ⟨c', -, hstep⟩ := bind_eq_some_iff.mp hstep
    obtain rfl := some.inj hstep
    rfl
  | take => cases hown
  | give => cases hown

/-- Every gather that has begun can be brought to its end. -/
theorem exists_settled (hout : ∀ u, ∃ outcome, Out u outcome = true) (hpos : 0 < permits)
    (h : p.Valid permits) :
    ∃ moves p', run Out p moves = some p' ∧ ∀ c ∈ p'.chains, c.settled = true := by
  -- a move of a chain lowers the first number, a permit that comes back the second
  induction hn : p.remaining + p.outside using Nat.strongRecOn generalizing p with
  | ind n ih =>
    by_cases hopen : ∃ c ∈ p.chains, c.settled = false
    · obtain ⟨move, p', hstep, hmove⟩ := can_move hout hpos h hopen
      obtain ⟨hvalid, hle⟩ := step_valid h hstep
      have hlt : p'.remaining + p'.outside < n := by
        rcases hmove with hown | rfl
        · have houtside := outside_of_own hstep hown
          rw [hown, Bool.toNat_true] at hle
          omega
        · simp only [step] at hstep
          split at hstep
          · cases hstep
          · rename_i hne
            obtain rfl := some.inj hstep
            dsimp only
            omega
      obtain ⟨moves, p'', hrun, hdone⟩ := ih _ hlt hvalid rfl
      refine ⟨move :: moves, p'', ?_, hdone⟩
      rw [run, foldlM_cons, hstep]
      exact hrun
    · refine ⟨[], p, rfl, ?_⟩
      intro c hc
      by_contra hne
      exact hopen ⟨c, hc, by simpa using hne⟩

/-- **Every gather returns.** -/
theorem exists_gathered (hout : ∀ u, ∃ outcome, Out u outcome = true) (hpos : 0 < permits)
    (units : List (List υ)) : ∃ results, Gathered Out permits units results := by
  obtain ⟨moves, p, hrun, hdone⟩ := exists_settled hout (by omega) (start_valid units permits 0)
  exact ⟨_, permits, 0, moves, p, rfl, hrun, hdone, rfl⟩

end Ends

end Zicato.Gather
