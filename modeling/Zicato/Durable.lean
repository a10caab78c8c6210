import Mathlib.Data.List.Basic

/-! # Steps that write one file after the other

An `Action` is what a step does once it has read what it needs: a list of atomic
writes, then a result or an error.  A step may be cut between any two of its
writes; what it leaves is then the effect of a prefix of them. -/
open List
namespace Zicato

/-- Atomic writes and what the step returns after them. -/
structure Action (W ε α : Type) where
  writes : List W
  result : Except ε α

namespace Action
variable {W ε α β D : Type}

instance : Monad (Action W ε) where
  pure x := { writes := [], result := .ok x }
  bind a f :=
    match a.result with
    | .error e => { writes := a.writes, result := .error e }
    | .ok x => { writes := a.writes ++ (f x).writes, result := (f x).result }

/-- One write. -/
def write (w : W) : Action W ε Unit := { writes := [w], result := .ok () }

/-- An exception, nothing written. -/
def raise (e : ε) : Action W ε α := { writes := [], result := .error e }

@[simp] theorem pure_writes (x : α) : (pure x : Action W ε α).writes = [] := rfl

@[simp] theorem pure_result (x : α) : (pure x : Action W ε α).result = .ok x := rfl

@[simp] theorem raise_writes (e : ε) : (raise e : Action W ε α).writes = [] := rfl

@[simp] theorem raise_result (e : ε) : (raise e : Action W ε α).result = .error e := rfl

variable {a : Action W ε α}

theorem bind_ok {x : α} (h : a.result = .ok x) (f : α → Action W ε β) :
    a >>= f = { writes := a.writes ++ (f x).writes, result := (f x).result } := by
  change (match a.result with
    | .error e => { writes := a.writes, result := .error e }
    | .ok x => { writes := a.writes ++ (f x).writes, result := (f x).result } :
      Action W ε β) = _
  rw [h]

theorem bind_error {e : ε} (h : a.result = .error e) (f : α → Action W ε β) :
    a >>= f = { writes := a.writes, result := .error e } := by
  change (match a.result with
    | .error e => { writes := a.writes, result := .error e }
    | .ok x => { writes := a.writes ++ (f x).writes, result := (f x).result } :
      Action W ε β) = _
  rw [h]

@[simp] theorem write_bind (w : W) (f : Unit → Action W ε β) :
    write w >>= f = { writes := w :: (f ()).writes, result := (f ()).result } :=
  bind_ok rfl f

/-- What becomes of a step. -/
inductive Fate
  | completes
  /-- The process dies after that many writes of the step; nothing is returned. -/
  | crashes (writes : Nat)
  deriving DecidableEq, Repr

/-- The writes of the step that reach the disk. -/
def Fate.reached (fate : Fate) (writes : List W) : List W :=
  match fate with
  | .completes => writes
  | .crashes k => writes.take k

/-- Every write of the step reaches the disk. -/
def Fate.durable (fate : Fate) (writes : List W) : Bool :=
  match fate with
  | .completes => true
  | .crashes k => decide (writes.length ≤ k)

variable (apply : D → W → D)

/-- The disk a step leaves. -/
def leaves (fate : Fate) (a : Action W ε α) (disk : D) : D :=
  (fate.reached a.writes).foldl apply disk

variable {apply} {fate : Fate}

theorem Fate.reached_of_durable {writes : List W} (h : fate.durable writes = true) :
    fate.reached writes = writes := by
  cases fate with
  | completes => rfl
  | crashes k => exact take_of_length_le (by simpa [durable] using h)

theorem leaves_of_durable (h : fate.durable a.writes = true) (disk : D) :
    a.leaves apply fate disk = a.writes.foldl apply disk := by
  rw [leaves, Fate.reached_of_durable h]

/-- A step whose last write is `w` is durable, or is cut among the writes before. -/
theorem Fate.reached_concat {writes : List W} {w : W} (h : fate.durable (writes ++ [w]) = false) :
    fate.reached (writes ++ [w]) = fate.reached writes := by
  cases fate with
  | completes => cases h
  | crashes k =>
    have hk : k ≤ writes.length := by
      simp only [durable, length_append, length_singleton, decide_eq_false_iff_not] at h
      omega
    exact take_append_of_le_length hk

end Action

/-! ## Steps that read back what they wrote -/

/-- A disk and the writes to it. -/
class Medium (D : Type) (W : outParam Type) where
  apply : D → W → D

/-- A step that reads the disk as it goes; it sees its own writes. -/
def Proc (D : Type) {W : Type} [Medium D W] (ε α : Type) : Type := D → Action W ε α

namespace Proc
variable {D W ε α β : Type} [Medium D W]

/-- The disk after all the writes of the step. -/
def after (p : Proc D ε α) (disk : D) : D := (p disk).writes.foldl Medium.apply disk

instance : Monad (Proc D ε) where
  pure x := fun _ => pure x
  bind p f := fun disk => p disk >>= fun x => f x (after p disk)

/-- A computation that touches no disk. -/
def lift (x : Except ε α) : Proc D ε α := fun _ => { writes := [], result := x }

/-- A read that may raise. -/
def look (f : D → Except ε α) : Proc D ε α := fun disk => { writes := [], result := f disk }

/-- One write, whatever the disk. -/
def write (w : W) : Proc D ε Unit := fun _ => Action.write w

variable {p : Proc D ε α} {f : α → Proc D ε β} {disk : D}

theorem bind_ok {x : α} (h : (p disk).result = .ok x) :
    (p >>= f) disk =
      { writes := (p disk).writes ++ (f x (p.after disk)).writes
        result := (f x (p.after disk)).result } :=
  Action.bind_ok h fun x => f x (p.after disk)

theorem bind_error {e : ε} (h : (p disk).result = .error e) :
    (p >>= f) disk = { writes := (p disk).writes, result := .error e } :=
  Action.bind_error h fun x => f x (p.after disk)

theorem after_bind_ok {x : α} (h : (p disk).result = .ok x) :
    (p >>= f).after disk = (f x).after (p.after disk) := by
  rw [after, bind_ok h, foldl_append]
  rfl

@[simp] theorem pure_apply (x : α) : (pure x : Proc D ε α) disk = pure x := rfl

@[simp] theorem lift_ok_bind (x : α) :
    ((lift (.ok x) : Proc D ε α) >>= f) = f x := by
  funext disk
  rw [bind_ok (x := x) rfl]
  rfl

@[simp] theorem lift_error_bind (e : ε) :
    ((lift (.error e) : Proc D ε α) >>= f) disk = { writes := [], result := .error e } :=
  bind_error rfl

theorem look_bind_ok {g : D → Except ε α} {x : α} (h : g disk = .ok x) :
    ((look g : Proc D ε α) >>= f) disk = f x disk := by
  rw [bind_ok (x := x) h]
  rfl

theorem look_bind_error {g : D → Except ε α} {e : ε} (h : g disk = .error e) :
    ((look g : Proc D ε α) >>= f) disk = { writes := [], result := .error e } :=
  bind_error h

@[simp] theorem write_bind_apply (w : W) (f : Unit → Proc D ε β) :
    ((write w : Proc D ε Unit) >>= f) disk =
      { writes := w :: (f () (Medium.apply disk w)).writes
        result := (f () (Medium.apply disk w)).result } := by
  rw [bind_ok (x := ()) rfl]
  rfl

/-! ### What a step leaves

`Ensures R p disk Q`: wherever `p` is cut, the disk it leaves is `R`-related to
the one before, and if it returns, `Q` holds of its result and its disk.  The
rules take a step apart along its binds. -/

/-- Wherever the step is cut, the disk it leaves is related to the one before. -/
def Keeps (R : D → D → Prop) (p : Proc D ε α) (disk : D) : Prop :=
  ∀ k, R disk (((p disk).writes.take k).foldl Medium.apply disk)

/-- What a procedure keeps, and what holds of its result. -/
structure Ensures (R : D → D → Prop) (p : Proc D ε α) (disk : D) (Q : α → D → Prop) : Prop where
  keeps : Keeps R p disk
  post : ∀ x, (p disk).result = .ok x → Q x (p.after disk)

variable {R R' : D → D → Prop} {Q Q' : α → D → Prop}

theorem Keeps.leaves (h : Keeps R p disk) (fate : Action.Fate) :
    R disk ((p disk).leaves Medium.apply fate disk) := by
  cases fate with
  | completes =>
    have := h (p disk).writes.length
    rwa [take_length] at this
  | crashes k => exact h k

theorem Keeps.after (h : Keeps R p disk) : R disk (p.after disk) := h.leaves .completes

theorem Ensures.mono (h : Ensures R p disk Q) (hR : ∀ d, R disk d → R' disk d)
    (hQ : ∀ x, Q x (p.after disk) → Q' x (p.after disk)) : Ensures R' p disk Q' :=
  ⟨fun k => hR _ (h.keeps k), fun x hx => hQ x (h.post x hx)⟩

/-- What a step leaves when it returns is also related to the disk before. -/
theorem Ensures.and_keeps (h : Ensures R p disk Q) : Ensures R p disk fun x d => R disk d ∧ Q x d :=
  ⟨h.keeps, fun x hx => ⟨h.keeps.after, h.post x hx⟩⟩

section Rules
variable (hrefl : ∀ d, R d d)
include hrefl

theorem ensures_of_no_writes (h : (p disk).writes = [])
    (hpost : ∀ x, (p disk).result = .ok x → Q x disk) : Ensures R p disk Q where
  keeps k := by
    rw [h, take_nil]
    exact hrefl disk
  post x hx := by
    rw [Proc.after, h]
    exact hpost x hx

theorem ensures_pure {x : α} (h : Q x disk) : Ensures R (pure x : Proc D ε α) disk Q :=
  ensures_of_no_writes hrefl rfl fun y hy => by
    obtain rfl := Except.ok.inj hy
    exact h

theorem ensures_error {e : ε} : Ensures R (lift (.error e) : Proc D ε α) disk Q :=
  ensures_of_no_writes hrefl rfl fun y hy => by cases hy

theorem ensures_write {w : W} {Q : Unit → D → Prop} (hR : R disk (Medium.apply disk w))
    (hQ : Q () (Medium.apply disk w)) : Ensures R (write w : Proc D ε Unit) disk Q where
  keeps k := by
    cases k with
    | zero => exact hrefl disk
    | succ k => simpa [write, Action.write] using hR
  post _ _ := hQ

theorem ensures_look {g : D → Except ε α} {Q : β → D → Prop}
    (h : ∀ x, g disk = .ok x → Ensures R (f x) disk Q) :
    Ensures R ((look g : Proc D ε α) >>= f) disk Q := by
  cases hg : g disk with
  | error e =>
    refine ensures_of_no_writes hrefl (by rw [look_bind_error hg]) fun y hy => ?_
    rw [look_bind_error hg] at hy
    cases hy
  | ok x =>
    have hf := h x hg
    refine ⟨fun k => ?_, fun y hy => ?_⟩
    · rw [look_bind_ok hg]
      exact hf.keeps k
    · rw [Proc.after, look_bind_ok hg]
      rw [look_bind_ok hg] at hy
      exact hf.post y hy

theorem ensures_lift {x : Except ε α} {Q : β → D → Prop}
    (h : ∀ a, x = .ok a → Ensures R (f a) disk Q) :
    Ensures R ((lift x : Proc D ε α) >>= f) disk Q :=
  ensures_look hrefl h

end Rules

/-- A step made of two is cut in the first or in the second. -/
theorem ensures_bind (htrans : ∀ a b c, R a b → R b c → R a c) {Q' : β → D → Prop}
    (hp : Ensures R p disk Q) (hf : ∀ x, Q x (p.after disk) → Ensures R (f x) (p.after disk) Q') :
    Ensures R (p >>= f) disk Q' := by
  cases hresult : (p disk).result with
  | error e =>
    refine ⟨fun k => ?_, fun y hy => ?_⟩
    · rw [bind_error hresult]
      exact hp.keeps k
    · rw [bind_error hresult] at hy
      cases hy
  | ok x =>
    have hnext := hf x (hp.post x hresult)
    refine ⟨fun k => ?_, fun y hy => ?_⟩
    · rw [bind_ok hresult]
      dsimp only
      by_cases hk : k ≤ (p disk).writes.length
      · rw [take_append_of_le_length hk]
        exact hp.keeps k
      · rw [take_append, take_of_length_le (by omega), foldl_append]
        exact htrans _ _ _ hp.keeps.after (hnext.keeps _)
    · rw [bind_ok hresult] at hy
      rw [after_bind_ok hresult]
      exact hnext.post y hy

/-! ### Steps that may fail -/

/-- The first `k` writes of a step; what it raises goes no further. -/
def bestEffort (k : Nat) (p : Proc D ε Unit) : Proc D ε Unit := fun disk =>
  { writes := (p disk).writes.take k, result := .ok () }

theorem ensures_bestEffort {p : Proc D ε Unit} (k : Nat) (h : Keeps R p disk) :
    Ensures R (bestEffort k p) disk fun _ d => R disk d where
  keeps j := by
    rw [bestEffort, take_take]
    exact h _
  post _ _ := h k

/-! ### Loops -/

/-- One step for each item, in order. -/
def each (f : α → Proc D ε Unit) : List α → Proc D ε Unit
  | [] => pure ()
  | x :: xs => do
      f x
      each f xs

section Loop
variable (hrefl : ∀ d, R d d) (htrans : ∀ a b c, R a b → R b c → R a c)
variable {f : α → Proc D ε Unit} {I : List α → D → Prop} {xs : List α}
include hrefl htrans

theorem ensures_each_from (done : List α) (hI : I done disk)
    (hstep : ∀ before, ∀ x ∈ xs, ∀ d, I before d → Ensures R (f x) d fun _ => I (before ++ [x])) :
    Ensures R (each f xs) disk fun _ => I (done ++ xs) := by
  induction xs generalizing done disk with
  | nil =>
    rw [append_nil]
    exact ensures_pure hrefl hI
  | cons x xs ih =>
    refine ensures_bind htrans (hstep done x mem_cons_self disk hI) fun _ hnext => ?_
    rw [append_cons]
    exact ih _ hnext fun before y hy => hstep before y (mem_cons_of_mem x hy)

/-- `I done` is what a loop has brought about once it is through with `done`. -/
theorem ensures_each (hI : I [] disk)
    (hstep : ∀ before, ∀ x ∈ xs, ∀ d, I before d → Ensures R (f x) d fun _ => I (before ++ [x])) :
    Ensures R (each f xs) disk fun _ => I xs :=
  ensures_each_from hrefl htrans [] hI hstep

end Loop

/-! ### How a step ends -/

/-- What may cut a step short, after that many of its writes. -/
inductive Interrupt
  | raises (writes : Nat)
  | dies (writes : Nat)
  deriving DecidableEq, Repr

/-- How a step ended for its caller; one that died has no caller left. -/
inductive Ending (α : Type)
  | returned (x : α)
  | raised
  | died
  deriving DecidableEq, Repr

/-- The step, cut short or not: how it ends, and the disk it leaves. -/
def run (p : Proc D ε α) (interrupt : Option Interrupt) (disk : D) : Ending α × D :=
  match interrupt with
  | some (.raises k) => (.raised, ((p disk).writes.take k).foldl Medium.apply disk)
  | some (.dies k) => (.died, ((p disk).writes.take k).foldl Medium.apply disk)
  | none =>
      match (p disk).result with
      | .ok x => (.returned x, p.after disk)
      | .error _ => (.raised, p.after disk)

theorem Ensures.run_keeps (h : Ensures R p disk Q) (interrupt : Option Interrupt) :
    R disk (p.run interrupt disk).2 := by
  unfold Proc.run
  split
  · exact h.keeps _
  · exact h.keeps _
  · split <;> exact h.keeps.after

theorem Ensures.run_post (h : Ensures R p disk Q) {interrupt : Option Interrupt} {x : α}
    (hrun : (p.run interrupt disk).1 = .returned x) : Q x (p.run interrupt disk).2 := by
  unfold Proc.run at hrun ⊢
  split at hrun
  · cases hrun
  · cases hrun
  · split at hrun
    · rename_i y hy
      obtain rfl := Ending.returned.inj hrun
      exact h.post y hy
    · cases hrun

end Proc
end Zicato
