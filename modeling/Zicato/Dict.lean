import Mathlib.Data.List.Nodup

/-! # Insertion-ordered dictionaries

A Python `dict` iterates in the order its keys were first written.  `Dict` is
the list of its items in that order; `set` overwrites a value in place and
appends a new key, `pop` removes a key and keeps the order of the rest. -/
open List
namespace Zicato

/-- The items of a `dict`, oldest key first. -/
abbrev Dict (κ α : Type) := List (κ × α)

namespace Dict
variable {κ α : Type} [DecidableEq κ]

/-- `d.keys()`. -/
def keys (d : Dict κ α) : List κ := d.map Prod.fst

/-- `d.get(k)`. -/
def get? : Dict κ α → κ → Option α
  | [], _ => none
  | (k', v) :: rest, k => if k' = k then some v else get? rest k

/-- `d.get(k, default)`. -/
def getD (d : Dict κ α) (k : κ) (default : α) : α := (get? d k).getD default

/-- `d[k] = v`. -/
def set : Dict κ α → κ → α → Dict κ α
  | [], k, v => [(k, v)]
  | (k', v') :: rest, k, v => if k' = k then (k', v) :: rest else (k', v') :: set rest k v

example : set [(1, 2), (3, 4)] 1 5 = [(1, 5), (3, 4)] := by decide +kernel

/-- `d.setdefault(k, v)`. -/
def setdefault (d : Dict κ α) (k : κ) (v : α) : Dict κ α :=
  match get? d k with
  | some _ => d
  | none => set d k v

/-- `d.pop(k, None)`: the value and the remaining items. -/
def pop : Dict κ α → κ → Option α × Dict κ α
  | [], _ => (none, [])
  | (k', v) :: rest, k =>
      if k' = k then (some v, rest) else ((pop rest k).1, (k', v) :: (pop rest k).2)

/-- `del d[k]`. -/
def erase (d : Dict κ α) (k : κ) : Dict κ α := d.filter fun e => e.1 ≠ k

@[simp] theorem get?_nil (k : κ) : get? ([] : Dict κ α) k = none := rfl

/-- What an assignment leaves under a key. -/
theorem get?_set (d : Dict κ α) (k k' : κ) (v : α) :
    get? (set d k v) k' = if k = k' then some v else get? d k' := by
  induction d with
  | nil => simp [set, get?]
  | cons e rest ih =>
    obtain ⟨k₀, v₀⟩ := e
    by_cases h : k₀ = k
    · subst h
      by_cases hk : k₀ = k' <;> simp [set, get?, hk]
    · by_cases hk : k₀ = k'
      · subst hk
        have : ¬ k = k₀ := fun he => h he.symm
        simp [set, get?, h, this]
      · simp [set, get?, h, hk, ih]

variable {d : Dict κ α} {k : κ} {v : α}

/-- An item after an assignment is the new one or an old one. -/
theorem mem_set {e : κ × α} (h : e ∈ set d k v) : e = (k, v) ∨ e ∈ d := by
  induction d with
  | nil => exact .inl (mem_singleton.mp h)
  | cons e₀ rest ih =>
    obtain ⟨k₀, v₀⟩ := e₀
    unfold set at h
    split at h
    · rename_i hk
      rcases mem_cons.mp h with rfl | h
      · exact .inl (by rw [hk])
      · exact .inr (mem_cons_of_mem _ h)
    · rcases mem_cons.mp h with rfl | h
      · exact .inr mem_cons_self
      · exact (ih h).imp_right (mem_cons_of_mem _)

theorem getD_induction {P : α → Prop} {default : α} (hdefault : P default) (h : ∀ e ∈ d, P e.2) :
    P (d.getD k default) := by
  unfold getD
  induction d with
  | nil => exact hdefault
  | cons e rest ih =>
    obtain ⟨he, hrest⟩ := forall_mem_cons.mp h
    unfold get?
    split
    · exact he
    · exact ih hrest

theorem getD_set (d : Dict κ α) (k k' : κ) (v default : α) :
    getD (set d k v) k' default = if k = k' then v else getD d k' default := by
  unfold getD
  rw [get?_set]
  split <;> rfl

/-- Writing the default where the key is missing changes no defaulted lookup. -/
theorem getD_setdefault (d : Dict κ α) (k k' : κ) (v : α) :
    getD (setdefault d k v) k' v = getD d k' v := by
  unfold setdefault
  split
  · rfl
  · rename_i h
    rw [getD_set]
    split
    · subst k'
      simp [getD, h]
    · rfl

theorem get?_eq_none_iff (d : Dict κ α) (k : κ) : get? d k = none ↔ k ∉ keys d := by
  induction d with
  | nil => simp [keys]
  | cons e rest ih =>
    obtain ⟨k₀, v₀⟩ := e
    by_cases h : k₀ = k
    · simp [get?, keys, h]
    · have h' : ¬ k = k₀ := fun he => h he.symm
      simp only [get?, h, if_false, ih, keys, map_cons, mem_cons, h', false_or]

theorem mem_of_get? (h : get? d k = some v) : (k, v) ∈ d := by
  induction d with
  | nil => cases h
  | cons e rest ih =>
    obtain ⟨k₀, v₀⟩ := e
    rw [get?] at h
    split at h
    · rename_i heq
      rw [heq, Option.some.inj h]
      exact mem_cons_self
    · exact mem_cons_of_mem _ (ih h)

/-- Under distinct keys a lookup finds exactly the items. -/
theorem get?_eq_some_iff (hd : (keys d).Nodup) (k : κ) (v : α) :
    get? d k = some v ↔ (k, v) ∈ d := by
  induction d with
  | nil => simp
  | cons e rest ih =>
    obtain ⟨k₀, v₀⟩ := e
    have hrest := ih (nodup_cons.mp hd).2
    have hnotin : ∀ w, (k₀, w) ∉ rest := fun w hw =>
      (nodup_cons.mp hd).1 (mem_map.mpr ⟨(k₀, w), hw, rfl⟩)
    by_cases h : k₀ = k
    · subst h
      simp [get?, hnotin, eq_comm]
    · have h' : ¬ k = k₀ := fun he => h he.symm
      simp [get?, h, h', hrest]

/-- Popping the oldest key takes the head. -/
theorem pop_head (k : κ) (v : α) (rest : Dict κ α) : pop ((k, v) :: rest) k = (some v, rest) := by
  simp [pop]

/-- Writing keys that are not there yet appends the items. -/
theorem set_append (d : Dict κ α) (k : κ) (v : α) (h : k ∉ keys d) : set d k v = d ++ [(k, v)] := by
  induction d with
  | nil => rfl
  | cons e rest ih =>
    obtain ⟨k₀, v₀⟩ := e
    have hne : ¬ k₀ = k := fun he => h (by simp [keys, he])
    have hrest : k ∉ keys rest := fun hm => h (by simp [keys] at hm ⊢; exact Or.inr hm)
    simp [set, hne, ih hrest]

/-- Writing the value that is there changes nothing. -/
theorem set_eq_self (h : get? d k = some v) : set d k v = d := by
  induction d with
  | nil => cases h
  | cons e rest ih =>
    obtain ⟨k₀, v₀⟩ := e
    by_cases hk : k₀ = k
    · rw [get?, if_pos hk] at h
      rw [set, if_pos hk, Option.some.inj h]
    · rw [get?, if_neg hk] at h
      rw [set, if_neg hk, ih h]

theorem keys_set (h : (get? d k).isSome = true) : keys (set d k v) = keys d := by
  induction d with
  | nil => cases h
  | cons e rest ih =>
    obtain ⟨k₀, v₀⟩ := e
    by_cases hk : k₀ = k
    · rw [set, if_pos hk]
      rfl
    · rw [get?, if_neg hk] at h
      rw [set, if_neg hk]
      exact congrArg (k₀ :: ·) (ih h)

/-- Writing a key changes no part of the items that leaves this key out. -/
theorem filter_set {keep : κ × α → Bool} (hk : ∀ w, keep (k, w) = false) :
    (set d k v).filter keep = d.filter keep := by
  induction d with
  | nil => simp [set, hk]
  | cons e rest ih =>
    obtain ⟨k₀, v₀⟩ := e
    by_cases heq : k₀ = k
    · subst heq
      simp [set, hk]
    · rw [set, if_neg heq, filter_cons, filter_cons, ih]

theorem get?_filter {keep : κ × α → Bool} (hk : ∀ v, keep (k, v) = true) :
    get? (d.filter keep) k = get? d k := by
  induction d with
  | nil => rfl
  | cons e rest ih =>
    obtain ⟨k₀, v₀⟩ := e
    by_cases heq : k₀ = k
    · subst heq
      simp [hk, get?]
    · cases hkeep : keep (k₀, v₀) <;> simp [hkeep, get?, heq, ih]

theorem get?_erase (d : Dict κ α) (k k' : κ) :
    get? (erase d k) k' = if k = k' then none else get? d k' := by
  split
  · rename_i h
    subst h
    rw [get?_eq_none_iff, keys, erase, mem_map]
    rintro ⟨e, he, rfl⟩
    simp at he
  · rename_i h
    exact get?_filter fun v => by simpa using fun he => h he.symm

theorem mem_keys_iff (d : Dict κ α) (k : κ) : k ∈ keys d ↔ (get? d k).isSome = true := by
  cases h : get? d k with
  | none => simpa using (get?_eq_none_iff d k).mp h
  | some v =>
    refine iff_of_true ?_ rfl
    by_contra hk
    rw [(get?_eq_none_iff d k).mpr hk] at h
    cases h

theorem nodup_keys_set (h : (keys d).Nodup) (k : κ) (v : α) : (keys (set d k v)).Nodup := by
  cases hd : get? d k with
  | some w => rwa [keys_set (by rw [hd]; rfl)]
  | none =>
    have hk : k ∉ keys d := (get?_eq_none_iff d k).mp hd
    rw [set_append d k v hk, keys, map_append, nodup_append]
    refine ⟨h, nodup_singleton _, ?_⟩
    intro a ha b hb heq
    obtain rfl : b = k := mem_singleton.mp hb
    subst heq
    exact hk ha

/-- A popped key leaves the other items. -/
theorem pop_perm (h : get? d k = some v) :
    (pop d k).1 = some v ∧ d.Perm ((k, v) :: (pop d k).2) := by
  induction d with
  | nil => cases h
  | cons e rest ih =>
    obtain ⟨k', v'⟩ := e
    by_cases hk : k' = k
    · subst hk
      simp only [get?, if_true] at h
      cases h
      rw [pop_head]
      exact ⟨rfl, Perm.refl _⟩
    · simp only [get?, hk, if_false] at h
      obtain ⟨hval, hperm⟩ := ih h
      simp only [pop, hk, if_false]
      exact ⟨hval, (hperm.cons _).trans (Perm.swap _ _ _)⟩

/-- An overwritten key trades its old value for the new one. -/
theorem set_perm {v' : α} (h : get? d k = some v) : ((k, v) :: set d k v').Perm ((k, v') :: d) := by
  induction d with
  | nil => cases h
  | cons e rest ih =>
    obtain ⟨k₀, v₀⟩ := e
    by_cases hk : k₀ = k
    · subst hk
      simp only [get?, if_true] at h
      cases h
      simp only [set, if_true]
      exact Perm.swap _ _ _
    · simp only [get?, hk, if_false] at h
      simp only [set, hk, if_false]
      exact ((Perm.swap _ _ _).trans ((ih h).cons _)).trans (Perm.swap _ _ _)

end Dict
end Zicato
