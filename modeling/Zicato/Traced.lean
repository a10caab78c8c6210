import Zicato.PyExcept

/-! # Computations that leave a trace

A computation acts and then returns or raises.  What it did stays in the trace, in order,
also when it raises. -/
namespace Zicato

structure Traced (A ε α : Type) where
  acts : List A
  outcome : Except ε α

namespace Traced
variable {A ε α β : Type}

def ret (a : α) : Traced A ε α := ⟨[], .ok a⟩

def raise (e : ε) : Traced A ε α := ⟨[], .error e⟩

/-- Actions in turn. -/
def acting (acts : List A) : Traced A ε Unit := ⟨acts, .ok ()⟩

def andThen (x : Traced A ε α) (f : α → Traced A ε β) : Traced A ε β :=
  match x.outcome with
  | .ok a => ⟨x.acts ++ (f a).acts, (f a).outcome⟩
  | .error e => ⟨x.acts, .error e⟩

instance : Monad (Traced A ε) where
  pure := ret
  bind := andThen

/-- `x` with the trace `acts` before its own. -/
def after (acts : List A) (x : Traced A ε α) : Traced A ε α := ⟨acts ++ x.acts, x.outcome⟩

instance : LawfulMonad (Traced A ε) := LawfulMonad.mk' _
  (by
    rintro α ⟨acts, outcome⟩
    cases outcome with
    | error e => rfl
    | ok a => exact congrArg (Traced.mk · (.ok a)) (List.append_nil acts))
  (fun _ _ => rfl)
  (by
    rintro α β γ ⟨acts, outcome⟩ f g
    cases outcome with
    | error e => rfl
    | ok a =>
      cases h : (f a).outcome with
      | error e => simp [bind, andThen, h]
      | ok b => simp [bind, andThen, h, List.append_assoc])

theorem pure_eq (a : α) : (pure a : Traced A ε α) = ⟨[], .ok a⟩ := rfl

/-- A computation that has returned `a` goes on from there. -/
theorem ok_bind (acts : List A) (a : α) (f : α → Traced A ε β) :
    ((⟨acts, .ok a⟩ : Traced A ε α) >>= f) = after acts (f a) := rfl

theorem acting_bind (acts : List A) (f : Unit → Traced A ε β) :
    (acting acts >>= f) = after acts (f ()) := rfl

theorem after_mk (before acts : List A) (outcome : Except ε α) :
    after before ⟨acts, outcome⟩ = ⟨before ++ acts, outcome⟩ := rfl

end Traced

end Zicato
