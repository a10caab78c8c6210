import Mathlib.Algebra.BigOperators.Group.Finset.Basic
import Mathlib.Tactic.Abel
import Zicato.Dict

/-! # Dictionaries that are written and summed

A dictionary filled by a run of writes holds, under each key, what the last write
to it left.  Where values are added up, a write under a new key adds its value,
and a write under an old one replaces a value. -/
open List
namespace Zicato.Dict
variable {κ α ν : Type} [DecidableEq κ]

theorem keys_set_eq (d : Dict κ ν) (k : κ) (v : ν) :
    keys (set d k v) = if k ∈ keys d then keys d else keys d ++ [k] := by
  split
  · rename_i hk
    exact keys_set ((mem_keys_iff d k).mp hk)
  · rename_i hk
    rw [set_append d k v hk, keys, map_append]
    rfl

theorem mem_keys_set {d : Dict κ ν} {k k' : κ} {v : ν} :
    k' ∈ keys (set d k v) ↔ k' ∈ keys d ∨ k' = k := by
  rw [keys_set_eq]
  split
  · rename_i hk
    exact ⟨.inl, fun h => h.elim id fun heq => heq ▸ hk⟩
  · rw [mem_append, mem_singleton]

/-! ## Runs of writes -/

section Writes
variable (name : α → κ) (val : α → ν)

/-- `for x in l: d[name(x)] = val(x)`. -/
def writes (l : List α) (d : Dict κ ν) : Dict κ ν :=
  l.foldl (fun acc x => set acc (name x) (val x)) d

variable {name val} {l : List α} {d : Dict κ ν}

@[simp] theorem writes_nil : writes name val [] d = d := rfl

@[simp] theorem writes_cons (x : α) :
    writes name val (x :: l) d = writes name val l (set d (name x) (val x)) := rfl

theorem mem_keys_writes {k : κ} :
    k ∈ keys (writes name val l d) ↔ k ∈ keys d ∨ k ∈ l.map name := by
  induction l generalizing d with
  | nil => simp
  | cons x l ih => rw [writes_cons, ih, mem_keys_set, map_cons, mem_cons, or_assoc]

theorem nodup_keys_writes (h : (keys d).Nodup) : (keys (writes name val l d)).Nodup := by
  induction l generalizing d with
  | nil => exact h
  | cons x l ih => exact ih (nodup_keys_set h _ _)

/-- Which keys there are, and in which order, does not depend on the values. -/
theorem keys_writes_congr {val' : α → ν} {d' : Dict κ ν} (h : keys d = keys d') :
    keys (writes name val l d) = keys (writes name val' l d') := by
  induction l generalizing d d' with
  | nil => exact h
  | cons x l ih =>
    rw [writes_cons, writes_cons]
    refine ih ?_
    rw [keys_set_eq, keys_set_eq, h]

theorem get?_writes_of_notMem {k : κ} (h : k ∉ l.map name) :
    get? (writes name val l d) k = get? d k := by
  induction l generalizing d with
  | nil => rfl
  | cons x l ih =>
    rw [map_cons, mem_cons, not_or] at h
    rw [writes_cons, ih h.2, get?_set, if_neg (Ne.symm h.1)]

/-- The last write to a key stands. -/
theorem get?_writes_append {x : α} {l' : List α} (h : name x ∉ l'.map name) :
    get? (writes name val (l ++ x :: l') d) (name x) = some (val x) := by
  induction l generalizing d with
  | nil => rw [nil_append, writes_cons, get?_writes_of_notMem h, get?_set, if_pos rfl]
  | cons y l ih => rw [cons_append, writes_cons, ih]

/-- Two runs of writes that agree on what goes under a key agree there. -/
theorem get?_writes_congr {val' : α → ν} {d' : Dict κ ν} {k : κ} (hd : get? d k = get? d' k)
    (hval : ∀ x ∈ l, name x = k → val x = val' x) :
    get? (writes name val l d) k = get? (writes name val' l d') k := by
  induction l generalizing d d' with
  | nil => exact hd
  | cons x l ih =>
    obtain ⟨hx, hl⟩ := forall_mem_cons.mp hval
    rw [writes_cons, writes_cons]
    refine ih ?_ hl
    rw [get?_set, get?_set]
    split
    · rename_i hk
      rw [hx hk]
    · exact hd

theorem mem_writes {e : κ × ν} (h : e ∈ writes name val l d) :
    e ∈ d ∨ ∃ x ∈ l, e = (name x, val x) := by
  induction l generalizing d with
  | nil => exact .inl h
  | cons x l ih =>
    rw [writes_cons] at h
    rcases ih h with h | ⟨y, hy, he⟩
    · rcases mem_set h with he | h
      · exact .inr ⟨x, mem_cons_self, he⟩
      · exact .inl h
    · exact .inr ⟨y, mem_cons_of_mem _ hy, he⟩

/-- Writes under keys that are all new append their items. -/
theorem writes_eq_append (h : (keys d ++ l.map name).Nodup) :
    writes name val l d = d ++ l.map fun x => (name x, val x) := by
  induction l generalizing d with
  | nil => exact (append_nil d).symm
  | cons x l ih =>
    have hx : name x ∉ keys d := by
      intro hmem
      exact (nodup_append.mp h).2.2 _ hmem _ mem_cons_self rfl
    have hkeys : keys (d ++ [(name x, val x)]) ++ l.map name = keys d ++ (x :: l).map name := by
      simp [keys]
    rw [writes_cons, set_append d _ _ hx, ih (hkeys ▸ h), List.append_assoc]
    rfl

/-- Writes under the key of each element: every element's own value stands. -/
theorem get?_writes_id {l : List κ} {val : κ → ν} (k : κ) :
    get? (writes id val l d) k = if k ∈ l then some (val k) else get? d k := by
  induction l generalizing d with
  | nil => rfl
  | cons x l ih =>
    rw [writes_cons, ih, get?_set, id]
    by_cases hl : k ∈ l
    · rw [if_pos hl, if_pos (mem_cons_of_mem _ hl)]
    · rw [if_neg hl]
      by_cases hx : x = k
      · rw [if_pos hx, if_pos (hx ▸ mem_cons_self), hx]
      · rw [if_neg hx, if_neg]
        rw [mem_cons, not_or]
        exact ⟨Ne.symm hx, hl⟩

end Writes

/-! ## Sums -/

section Sums
variable [AddCommGroup ν]

/-- `sum(d.values())`. -/
def total (d : Dict κ ν) : ν := (d.map Prod.snd).sum

omit [DecidableEq κ] in
theorem total_cons (e : κ × ν) (d : Dict κ ν) : total (e :: d) = e.2 + total d := by
  rw [total, map_cons, sum_cons]
  rfl

/-- A write adds what it leaves under the key, less what was there. -/
theorem total_set (d : Dict κ ν) (k : κ) (v : ν) :
    total (set d k v) = total d + (v - getD d k 0) := by
  induction d with
  | nil => simp [set, total, getD]
  | cons e rest ih =>
    rw [set, getD, get?]
    split
    · rw [total_cons, total_cons, Option.getD_some]
      abel
    · rw [total_cons, total_cons, ih, getD]
      abel

variable {d : Dict κ ν}

/-- The values under the keys. -/
theorem total_eq_sum (h : (keys d).Nodup) : total d = ((keys d).map fun k => getD d k 0).sum := by
  induction d with
  | nil => rfl
  | cons e rest ih =>
    rw [keys, map_cons, nodup_cons] at h
    have hrest : ∀ k ∈ keys rest, getD (e :: rest) k 0 = getD rest k 0 := by
      intro k hk
      have hne : ¬ e.1 = k := by
        rintro rfl
        exact h.1 hk
      rw [getD, getD, get?, if_neg hne]
    have hhead : getD (e :: rest) e.1 0 = e.2 := by
      rw [getD, get?, if_pos rfl]
      rfl
    rw [keys, map_cons, map_cons, sum_cons, hhead, total, map_cons, sum_cons]
    refine congrArg (e.2 + ·) ((ih h.2).trans ?_)
    exact congrArg List.sum (map_congr_left fun k hk => (hrest k hk).symm)

/-- Dictionaries with the same keys that differ under one of them. -/
theorem total_sub {d' : Dict κ ν} {k : κ} (hkeys : keys d = keys d') (hnodup : (keys d).Nodup)
    (hk : k ∈ keys d) (hrest : ∀ k', k' ≠ k → get? d k' = get? d' k') :
    total d' - total d = getD d' k 0 - getD d k 0 := by
  rw [total_eq_sum hnodup, total_eq_sum (hkeys ▸ hnodup), ← hkeys]
  clear hkeys
  generalize keys d = l at hnodup hk
  induction l with
  | nil => cases hk
  | cons x l ih =>
    rw [nodup_cons] at hnodup
    rw [map_cons, map_cons, sum_cons, sum_cons]
    have hsame : ∀ k', k' ≠ k → getD d' k' 0 = getD d k' 0 := by
      intro k' hne
      rw [getD, getD, hrest k' hne]
    rcases mem_cons.mp hk with rfl | hl
    · have hsums : (l.map fun k' => getD d' k' 0) = l.map fun k' => getD d k' 0 :=
        map_congr_left fun k' hk' => hsame k' fun heq => hnodup.1 (heq ▸ hk')
      rw [hsums, add_sub_add_right_eq_sub]
    · have hx : x ≠ k := fun heq => hnodup.1 (heq ▸ hl)
      rw [hsame x hx, add_sub_add_left_eq_sub]
      exact ih hnodup.2 hl

/-- Writes that write over nothing but zeros add up. -/
theorem total_writes {name : α → κ} {val : α → ν} {l : List α} (hd : ∀ x ∈ l, getD d (name x) 0 = 0)
    (hl : l.Pairwise fun x y => name x = name y → val x = 0) :
    total (writes name val l d) = total d + (l.map val).sum := by
  induction l generalizing d with
  | nil => rw [writes_nil, map_nil, sum_nil, add_zero]
  | cons x l ih =>
    obtain ⟨hx, hrest⟩ := forall_mem_cons.mp hd
    obtain ⟨hover, hpairs⟩ := pairwise_cons.mp hl
    have hset : ∀ y ∈ l, getD (set d (name x) (val x)) (name y) 0 = 0 := by
      intro y hy
      rw [getD_set]
      split
      · rename_i hname
        exact hover y hy hname
      · exact hrest y hy
    rw [writes_cons, ih hset hpairs, total_set, hx, sub_zero, map_cons, sum_cons, add_assoc]

end Sums

end Zicato.Dict
