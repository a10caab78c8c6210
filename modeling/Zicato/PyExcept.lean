import Mathlib.Data.List.Basic

/-! # Computations that may raise

A call that raises is an `Except`; these rules take a call that has returned
apart into the calls it made. -/
open List
namespace Zicato

variable {ε α β : Type}

/-- A check that raises. -/
def require (condition : Bool) (error : ε) : Except ε Unit :=
  if condition then .ok () else .error error

@[simp] theorem ok_bind (a : α) (f : α → Except ε β) : (Except.ok a >>= f) = f a := rfl

variable {x : Except ε α} {f : α → Except ε β} {condition : Bool} {l : List α}

theorem bind_eq_ok {b : β} (h : (x >>= f) = .ok b) : ∃ a, x = .ok a ∧ f a = .ok b := by
  cases x with
  | ok a => exact ⟨a, rfl, h⟩
  | error e => cases h

theorem bind_eq_ok_iff {b : β} : (x >>= f) = .ok b ↔ ∃ a, x = .ok a ∧ f a = .ok b := by
  refine ⟨bind_eq_ok, ?_⟩
  rintro ⟨a, rfl, h⟩
  exact h

theorem require_ok {error : ε} {u : Unit} (h : require condition error = .ok u) :
    condition = true := by
  unfold require at h
  split at h
  · assumption
  · cases h

theorem require_eq_ok_iff {error : ε} {u : Unit} :
    require condition error = .ok u ↔ condition = true := by
  refine ⟨require_ok, fun h => ?_⟩
  rw [require, if_pos h]

theorem require_bind {error : ε} {f : Unit → Except ε β} {b : β}
    (h : (require condition error >>= f) = .ok b) : condition = true ∧ f () = .ok b := by
  obtain ⟨u, hu, hf⟩ := bind_eq_ok h
  exact ⟨require_ok hu, hf⟩

/-- The results of a loop are the results of its turns. -/
theorem mem_of_mapM_ok {ys : List β} (h : l.mapM f = .ok ys) (y : β) :
    y ∈ ys ↔ ∃ x ∈ l, f x = .ok y := by
  induction l generalizing ys with
  | nil =>
    cases h
    simp
  | cons x l ih =>
    rw [mapM_cons] at h
    obtain ⟨y', hy', h⟩ := bind_eq_ok h
    obtain ⟨ys', hys', h⟩ := bind_eq_ok h
    cases h
    rw [mem_cons, ih hys', exists_mem_cons_iff, hy', Except.ok.injEq, eq_comm]

/-- A loop whose turns return returns the same with calls that return the same. -/
theorem mapM_ok_of_imp {g : α → Except ε β} {ys : List β} (hfg : ∀ x y, f x = .ok y → g x = .ok y)
    (h : l.mapM f = .ok ys) : l.mapM g = .ok ys := by
  induction l generalizing ys with
  | nil => exact h
  | cons x l ih =>
    rw [mapM_cons] at h ⊢
    obtain ⟨y, hy, h⟩ := bind_eq_ok h
    obtain ⟨ys', hys, h⟩ := bind_eq_ok h
    rw [hfg x y hy, ih hys]
    exact h

/-- A loop returns where all its turns do. -/
theorem exists_mapM_ok_iff : (∃ ys, l.mapM f = .ok ys) ↔ ∀ a ∈ l, ∃ y, f a = .ok y := by
  induction l with
  | nil => exact ⟨fun _ => by simp, fun _ => ⟨[], rfl⟩⟩
  | cons a l ih =>
    rw [forall_mem_cons, ← ih, mapM_cons]
    constructor
    · rintro ⟨ys, h⟩
      obtain ⟨y, hy, h⟩ := bind_eq_ok h
      obtain ⟨ys', hys, -⟩ := bind_eq_ok h
      exact ⟨⟨y, hy⟩, ys', hys⟩
    · rintro ⟨⟨y, hy⟩, ys, hys⟩
      refine ⟨y :: ys, ?_⟩
      rw [hy, ok_bind, hys, ok_bind]
      rfl

/-- A loop whose turns return or raise whatever has gone before. -/
theorem exists_foldlM_ok_iff {f : β → α → Except ε β} {P : α → Prop}
    (hf : ∀ b a, (∃ b', f b a = .ok b') ↔ P a) (l : List α) (b : β) :
    (∃ b', l.foldlM f b = .ok b') ↔ ∀ a ∈ l, P a := by
  induction l generalizing b with
  | nil => exact ⟨fun _ => by simp, fun _ => ⟨b, rfl⟩⟩
  | cons a l ih =>
    rw [forall_mem_cons, foldlM_cons]
    constructor
    · rintro ⟨b', h⟩
      obtain ⟨mid, hmid, h⟩ := bind_eq_ok h
      exact ⟨(hf b a).mp ⟨mid, hmid⟩, (ih mid).mp ⟨b', h⟩⟩
    · rintro ⟨ha, hl⟩
      obtain ⟨mid, hmid⟩ := (hf b a).mpr ha
      obtain ⟨b', h⟩ := (ih mid).mpr hl
      refine ⟨b', ?_⟩
      rw [hmid]
      exact h

theorem mapM_congr_mem {g : α → Except ε β} (h : ∀ a ∈ l, f a = g a) : l.mapM f = l.mapM g := by
  induction l with
  | nil => rfl
  | cons a l ih =>
    obtain ⟨ha, hl⟩ := forall_mem_cons.mp h
    rw [mapM_cons, mapM_cons, ha, ih hl]

theorem ok_of_toOption {a : α} (h : x.toOption = some a) : x = .ok a := by
  cases x with
  | ok b => exact congrArg Except.ok (Option.some.inj h)
  | error e => cases h

theorem ok_of_toBool (h : x.toBool = true) : ∃ a, x = .ok a := by
  cases x with
  | ok a => exact ⟨a, rfl⟩
  | error e => cases h

end Zicato
