import Mathlib.Data.List.Basic
import Mathlib.Data.Sigma.Basic

/-! # Programs that ask a changing world

A `Script` is a program cut at its system calls: a call `q` waits for an answer
of type `A q`, and the program goes on with it.  Between two calls the world may
change in any way it can change, so two answers a program compares were in
general read at different moments.  `now` is the exception: it answers every
call from one world, and is what "taken as one step" means.

A run keeps a log of every call with the world that answered it.  What a program
guarantees about its log is stated with `Always`, which is followed through the
program's own structure (`always_bind`) and is sound for every interleaving of
calls and changes (`run_always`). -/
open List Option
namespace Zicato

/-- A program that makes calls `q` and receives answers `A q`. -/
inductive Script {Q : Type} (A : Q → Type) (α : Type) : Type
  | ret (value : α)
  | call (q : Q) (next : A q → Script A α)

namespace Script
variable {Q Q' : Type} {A : Q → Type} {A' : Q' → Type} {α β : Type}

protected def bind : Script A α → (α → Script A β) → Script A β
  | .ret a, f => f a
  | .call q next, f => .call q fun answer => (next answer).bind f

instance : Monad (Script A) where
  pure := .ret
  bind := Script.bind

/-- One call, whose answer is the result. -/
def ask (q : Q) : Script A (A q) := .call q .ret

/-- Every call answered at once. -/
def now (answer : (q : Q) → A q) : Script A α → α
  | .ret a => a
  | .call q next => (next (answer q)).now answer

/-- The same program as part of one with more calls. -/
def within (tag : Q → Q') (reply : (q : Q) → A' (tag q) → A q) : Script A α → Script A' α
  | .ret a => .ret a
  | .call q next => .call (tag q) fun answer => (next (reply q answer)).within tag reply

/-- The program, given these answers one after the other, returns the value. -/
inductive Returns : Script A α → List (Σ q, A q) → α → Prop
  | ret (a : α) : Returns (.ret a) [] a
  | call {q : Q} {next : A q → Script A α} {answer : A q} {calls : List (Σ q, A q)} {b : α}
      (h : Returns (next answer) calls b) : Returns (.call q next) (⟨q, answer⟩ :: calls) b

variable {calls : List (Σ q, A q)}

theorem returns_pure {a b : α} (h : Returns (pure a : Script A α) calls b) : b = a := by
  cases h
  rfl

variable {x : Script A α}

theorem returns_bind {f : α → Script A β} {b : β} (h : Returns (x >>= f) calls b) :
    ∃ before after a, calls = before ++ after ∧ Returns x before a ∧ Returns (f a) after b := by
  induction x generalizing calls with
  | ret a => exact ⟨[], calls, a, rfl, .ret a, h⟩
  | call q next ih =>
    cases h with
    | call hnext =>
      rename_i rest answer
      obtain ⟨before, after, a, rfl, hx, hf⟩ := ih answer hnext
      exact ⟨⟨q, answer⟩ :: before, after, a, rfl, .call hx, hf⟩

/-- A script inside another returns what it returns alone. -/
theorem returns_within {tag : Q → Q'} {reply : (q : Q) → A' (tag q) → A q}
    {calls : List (Σ q, A' q)} {a : α} (h : Returns (x.within tag reply) calls a) :
    ∃ calls', Returns x calls' a := by
  induction x generalizing calls with
  | ret b =>
    cases h
    exact ⟨[], .ret a⟩
  | call q next ih =>
    cases h with
    | call hnext =>
      rename_i rest answer
      obtain ⟨calls', h'⟩ := ih (reply q answer) hnext
      exact ⟨⟨q, reply q answer⟩ :: calls', .call h'⟩

theorem within_bind {tag : Q → Q'} {reply : (q : Q) → A' (tag q) → A q} (x : Script A α)
    (f : α → Script A β) :
    (x >>= f).within tag reply = x.within tag reply >>= fun a => (f a).within tag reply := by
  induction x with
  | ret a => rfl
  | call q next ih => exact congrArg (Script.call (tag q)) (funext fun answer => ih (reply q answer))

/-- Every call the program can make is allowed. -/
def Only (allowed : Q → Prop) : Script A α → Prop
  | .ret _ => True
  | .call q next => allowed q ∧ ∀ answer, Only allowed (next answer)

section
variable {allowed : Q → Prop}

@[simp] theorem only_pure (a : α) : Only allowed (pure a : Script A α) := trivial

@[simp] theorem only_ask {q : Q} : Only allowed (ask q : Script A (A q)) ↔ allowed q :=
  ⟨fun h => h.1, fun h => ⟨h, fun _ => trivial⟩⟩

theorem Only.bind {f : α → Script A β} (hx : Only allowed x) (hf : ∀ a, Only allowed (f a)) :
    Only allowed (x >>= f) := by
  induction x with
  | ret a => exact hf a
  | call q next ih => exact ⟨hx.1, fun answer => ih answer (hx.2 answer)⟩

theorem only_within {tag : Q → Q'} {reply : (q : Q) → A' (tag q) → A q} {allowed : Q' → Prop}
    (h : ∀ q, allowed (tag q)) (x : Script A α) : Only allowed (x.within tag reply) := by
  induction x with
  | ret a => trivial
  | call q next ih => exact ⟨h q, fun answer => ih (reply q answer)⟩

end

section
variable (answer : (q : Q) → A q)

@[simp] theorem now_pure (a : α) : (pure a : Script A α).now answer = a := rfl

@[simp] theorem now_ask (q : Q) : (ask q : Script A (A q)).now answer = answer q := rfl

@[simp] theorem now_bind (x : Script A α) (f : α → Script A β) :
    (x >>= f).now answer = (f (x.now answer)).now answer := by
  induction x with
  | ret a => rfl
  | call q next ih => exact ih (answer q)

@[simp] theorem now_ite (p : Prop) [Decidable p] (x y : Script A α) :
    (if p then x else y).now answer = if p then x.now answer else y.now answer := by
  split <;> rfl

end

/-! ## Runs -/

/-- A call, its answer and the world that gave it. -/
structure Entry (W : Type) (A : Q → Type) where
  world : W
  call : Σ q, A q

/-- How a world changes by itself and how it answers a call; a call may have
several answers, and `χ` chooses among them. -/
structure Env (W κ χ : Type) (A : Q → Type) where
  evolve : W → κ → Option W
  serve : W → χ → (q : Q) → A q

/-- A program under way. -/
structure Running (W : Type) (A : Q → Type) (α : Type) where
  world : W
  rest : Script A α
  log : List (Entry W A)

inductive Event (κ χ : Type)
  | change (c : κ)
  | act (choice : χ)

variable {W κ χ : Type} (env : Env W κ χ A)

def step (s : Running W A α) : Event κ χ → Option (Running W A α)
  | .change c => (env.evolve s.world c).map fun w => { s with world := w }
  | .act choice =>
    match s.rest with
    | .ret _ => none
    | .call q next =>
      let answer := env.serve s.world choice q
      some { s with rest := next answer, log := s.log ++ [⟨s.world, q, answer⟩] }

def run (s : Running W A α) (events : List (Event κ χ)) : Option (Running W A α) :=
  events.foldlM (step env) s

/-- `P` holds of the world in every state the run passes through. -/
def Through (P : W → Prop) (s : Running W A α) (events : List (Event κ χ)) : Prop :=
  ∀ before, before <+: events → ∀ s', run env s before = some s' → P s'.world

variable {env}

@[simp] theorem run_nil (s : Running W A α) : run env s [] = some s := rfl

variable {s : Running W A α} {e : Event κ χ} {events : List (Event κ χ)}

theorem run_cons {s' : Running W A α} :
    run env s (e :: events) = some s' ↔
      ∃ s₁, step env s e = some s₁ ∧ run env s₁ events = some s' := by
  simp only [run, foldlM_cons]
  exact bind_eq_some_iff

variable {P : W → Prop}

theorem Through.head (h : Through env P s events) : P s.world :=
  h [] (List.nil_prefix) s rfl

theorem Through.tail {s₁ : Running W A α} (h : Through env P s (e :: events))
    (hstep : step env s e = some s₁) : Through env P s₁ events := by
  intro before hbefore s' hrun
  exact h (e :: before) (cons_prefix_cons.2 ⟨rfl, hbefore⟩) s' (run_cons.2 ⟨s₁, hstep, hrun⟩)

/-- A step of the run changes the world or adds one call to the log. -/
theorem step_cases {s' : Running W A α} (h : step env s e = some s') :
    (∃ c, env.evolve s.world c = some s'.world ∧ s'.rest = s.rest ∧ s'.log = s.log) ∨
    (∃ q next choice, s.rest = .call q next ∧ s'.world = s.world ∧
      s'.rest = next (env.serve s.world choice q) ∧
      s'.log = s.log ++ [⟨s.world, q, env.serve s.world choice q⟩]) := by
  cases e with
  | change c =>
    obtain ⟨w, hw, rfl⟩ := map_eq_some_iff.1 h
    exact .inl ⟨c, hw, rfl, rfl⟩
  | act choice =>
    simp only [step] at h
    split at h
    · cases h
    · rename_i q next hrest
      cases some.inj h
      exact .inr ⟨q, next, choice, hrest, rfl, rfl, rfl⟩

/-- A property that every change of the world keeps holds throughout. -/
theorem through_of_kept (hkept : ∀ w c w', P w → env.evolve w c = some w' → P w') :
    ∀ {s : Running W A α}, P s.world → Through env P s events := by
  intro s hs before _ s' hrun
  clear * - hkept hs hrun
  induction before generalizing s with
  | nil =>
    cases some.inj hrun
    exact hs
  | cons e before ih =>
    obtain ⟨s₁, hstep, hrest⟩ := run_cons.1 hrun
    refine ih ?_ hrest
    rcases step_cases hstep with ⟨c, hc, -, -⟩ | ⟨q, next, choice, -, hworld, -, -⟩
    · exact hkept _ c _ hs hc
    · exact hworld ▸ hs

/-- While the world does not change, it is what it was. -/
theorem through_of_still (hs : P s.world) {n : Nat} {choice : χ} :
    Through env P s (List.replicate n (.act choice)) := by
  intro before hbefore s' hrun
  have hacts : ∀ e ∈ before, e = Event.act choice := fun e he =>
    eq_of_mem_replicate (hbefore.subset he)
  clear hbefore
  induction before generalizing s with
  | nil =>
    cases some.inj hrun
    exact hs
  | cons e before ih =>
    obtain ⟨s₁, hstep, hrest⟩ := run_cons.1 hrun
    refine ih ?_ hrest fun e he => hacts e (mem_cons_of_mem _ he)
    rw [hacts e mem_cons_self] at hstep
    simp only [step] at hstep
    split at hstep
    · cases hstep
    · cases some.inj hstep
      exact hs

/-! ## What a program guarantees about its log -/

/-- Whatever the answers, every log on the way satisfies `I`, and the program
returns with `Post`.  `Can log w q a` says which answers are possible after that
log. -/
def Always (Can : List (Entry W A) → W → (q : Q) → A q → Prop) (I : List (Entry W A) → Prop) :
    Script A α → List (Entry W A) → (List (Entry W A) → α → Prop) → Prop
  | .ret a, log, Post => I log ∧ Post log a
  | .call q next, log, Post =>
    I log ∧ ∀ w answer, Can log w q answer → Always Can I (next answer) (log ++ [⟨w, q, answer⟩]) Post

variable {Can : List (Entry W A) → W → (q : Q) → A q → Prop} {I : List (Entry W A) → Prop}

variable {log : List (Entry W A)}

theorem always_bind {f : α → Script A β} {Post : List (Entry W A) → β → Prop}
    (h : Always Can I x log fun log' a => Always Can I (f a) log' Post) :
    Always Can I (x >>= f) log Post := by
  induction x generalizing log with
  | ret a => exact h.2
  | call q next ih => exact ⟨h.1, fun w answer hcan => ih answer (h.2 w answer hcan)⟩

variable {Post : List (Entry W A) → α → Prop}

theorem Always.mono {Post' : List (Entry W A) → α → Prop} (h : Always Can I x log Post)
    (hpost : ∀ log' a, I log' → Post log' a → Post' log' a) : Always Can I x log Post' := by
  induction x generalizing log with
  | ret a => exact ⟨h.1, hpost log a h.1 h.2⟩
  | call q next ih => exact ⟨h.1, fun w answer hcan => ih answer (h.2 w answer hcan)⟩

theorem Always.inv (h : Always Can I x log Post) : I log := by
  cases x with
  | ret a => exact h.1
  | call q next => exact h.1

/-- A part of the program whose calls cannot break `I` keeps it; the log it adds
consists of its own calls, and they are what made it return its value. -/
theorem always_only {allowed : Q → Prop}
    (hkeep : ∀ log w q answer, allowed q → I log → I (log ++ [⟨w, q, answer⟩]))
    (hx : Only allowed x) (hlog : I log) :
    Always Can I x log fun log' a => I log' ∧ ∃ entries, log' = log ++ entries ∧
      (∀ e ∈ entries, allowed e.call.1 ∧ ∃ before, Can before e.world e.call.1 e.call.2) ∧
      Returns x (entries.map (·.call)) a := by
  induction x generalizing log with
  | ret a => exact ⟨hlog, hlog, [], (append_nil log).symm, by simp, .ret a⟩
  | call q next ih =>
    refine ⟨hlog, fun w answer hcan => ?_⟩
    refine (ih answer (hx.2 answer) (hkeep log w q answer hx.1 hlog)).mono ?_
    rintro log' a hI ⟨-, entries, rfl, hentries, hreturns⟩
    refine ⟨hI, ⟨w, q, answer⟩ :: entries, by simp, ?_, .call hreturns⟩
    intro e he
    rcases mem_cons.1 he with rfl | he
    · exact ⟨hx.1, log, hcan⟩
    · exact hentries e he

/-- A run follows the program: what the program always guarantees holds in every
state of every run.  The worlds of the log are related to the present one by any
preorder the changes respect. -/
theorem run_always {R : W → W → Prop} (hrefl : ∀ w, R w w) (htrans : ∀ u v w, R u v → R v w → R u w)
    (hchange : ∀ w c w', P w → env.evolve w c = some w' → R w w')
    (hcan : ∀ log w choice q, P w → (∀ e ∈ log, R e.world w) → Can log w q (env.serve w choice q)) :
    ∀ {s s' : Running W A α}, Through env P s events → (∀ e ∈ s.log, R e.world s.world) →
      Always Can I s.rest s.log Post → run env s events = some s' →
      (∀ e ∈ s'.log, R e.world s'.world) ∧ Always Can I s'.rest s'.log Post := by
  induction events with
  | nil =>
    intro s s' _ hlog halways hrun
    cases some.inj hrun
    exact ⟨hlog, halways⟩
  | cons e events ih =>
    intro s s' hthrough hlog halways hrun
    obtain ⟨s₁, hstep, hrest⟩ := run_cons.1 hrun
    refine ih (hthrough.tail hstep) ?_ ?_ hrest
    · rcases step_cases hstep with ⟨c, hc, -, heq⟩ | ⟨q, next, choice, -, hworld, -, heq⟩
      · intro e he
        rw [heq] at he
        exact htrans _ _ _ (hlog e he) (hchange _ c _ hthrough.head hc)
      · intro e he
        rw [heq, mem_append, mem_singleton] at he
        rw [hworld]
        rcases he with he | rfl
        · exact hlog e he
        · exact hrefl _
    · rcases step_cases hstep with ⟨c, -, hsame, heq⟩ | ⟨q, next, choice, hcall, -, hsame, heq⟩
      · rw [hsame, heq]
        exact halways
      · rw [hcall] at halways
        rw [hsame, heq]
        exact halways.2 _ _ (hcan _ _ choice q hthrough.head hlog)

end Script
end Zicato
