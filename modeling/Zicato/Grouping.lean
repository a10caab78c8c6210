import Mathlib.Algebra.BigOperators.Ring.List
import Mathlib.Data.List.Nodup

/-! # Values grouped under keys

The keys of a list in the order in which they are first seen, the elements that
are the first of their key, and sums that are taken key by key. -/
open List
namespace Zicato
variable {α κ ν : Type}

section Keys
variable [BEq κ] [LawfulBEq κ]

/-- Nothing is left twice. -/
theorem nodup_eraseDups (l : List κ) : l.eraseDups.Nodup := by
  induction hn : l.length using Nat.strongRecOn generalizing l with
  | ind n ih =>
    cases l with
    | nil => exact nodup_nil
    | cons k rest =>
      rw [eraseDups_cons, nodup_cons]
      have hlength : (rest.filter fun b => !b == k).length < n := by
        rw [← hn]
        exact Nat.lt_succ_of_le (length_filter_le _ _)
      refine ⟨?_, ih _ hlength _ rfl⟩
      rw [mem_eraseDups, mem_filter]
      simp

/-- The same keys come out in another order. -/
theorem eraseDups_perm {l l' : List κ} (h : ∀ k, k ∈ l ↔ k ∈ l') :
    l.eraseDups.Perm l'.eraseDups := by
  refine (perm_ext_iff_of_nodup (nodup_eraseDups l) (nodup_eraseDups l')).mpr fun k => ?_
  rw [mem_eraseDups, mem_eraseDups, h k]

end Keys

variable [DecidableEq κ]

section First
variable (key : α → κ)

/-- The first of each key, after the keys that were seen. -/
@[grind =] def dedupFrom : List κ → List α → List α
  | _, [] => []
  | seen, x :: rest =>
      if key x ∈ seen then dedupFrom seen rest else x :: dedupFrom (key x :: seen) rest

example : dedupFrom Prod.fst [0] [(0, 1), (1, 2), (1, 3)] = [(1, 2)] := by decide +kernel

variable {key} {seen : List κ} {l : List α}

/-- What is kept has a key not seen before. -/
theorem mem_of_mem_dedupFrom {x : α} (h : x ∈ dedupFrom key seen l) : x ∈ l ∧ key x ∉ seen := by
  induction l generalizing seen with
  | nil => cases h
  | cons y rest ih =>
    rw [dedupFrom] at h
    split at h
    · exact (ih h).imp_left (mem_cons_of_mem y)
    · rename_i hnew
      rcases mem_cons.mp h with rfl | h
      · exact ⟨mem_cons_self, hnew⟩
      · obtain ⟨hmem, hkey⟩ := ih h
        exact ⟨mem_cons_of_mem y hmem, fun hseen => hkey (mem_cons_of_mem _ hseen)⟩

/-- Every new key is kept. -/
theorem mem_keys_dedupFrom {k : κ} :
    k ∈ (dedupFrom key seen l).map key ↔ k ∈ l.map key ∧ k ∉ seen := by
  induction l generalizing seen with
  | nil => simp [dedupFrom]
  | cons y rest ih =>
    rw [dedupFrom, map_cons, mem_cons]
    split
    · rename_i hseen
      rw [ih]
      constructor
      · exact fun h => ⟨.inr h.1, h.2⟩
      · rintro ⟨rfl | h, hk⟩
        · exact absurd hseen hk
        · exact ⟨h, hk⟩
    · rename_i hnew
      rw [map_cons, mem_cons, ih, mem_cons, not_or]
      constructor
      · rintro (rfl | ⟨h, -, hk⟩)
        · exact ⟨.inl rfl, hnew⟩
        · exact ⟨.inr h, hk⟩
      · rintro ⟨h, hk⟩
        by_cases heq : k = key y
        · exact .inl heq
        · exact .inr ⟨h.resolve_left heq, heq, hk⟩

theorem nodup_keys_dedupFrom : ((dedupFrom key seen l).map key).Nodup := by
  induction l generalizing seen with
  | nil => exact nodup_nil
  | cons y rest ih =>
    rw [dedupFrom]
    split
    · exact ih
    · rw [map_cons, nodup_cons, mem_keys_dedupFrom]
      exact ⟨fun h => h.2 mem_cons_self, ih⟩

theorem dedupFrom_congr {seen' : List κ} (h : ∀ x ∈ l, key x ∈ seen ↔ key x ∈ seen') :
    dedupFrom key seen l = dedupFrom key seen' l := by
  induction l generalizing seen seen' with
  | nil => rfl
  | cons y rest ih =>
    obtain ⟨hy, hrest⟩ := forall_mem_cons.mp h
    rw [dedupFrom, dedupFrom, ih hrest]
    refine if_congr hy rfl (congrArg (y :: ·) (ih fun x hx => ?_))
    rw [mem_cons, mem_cons, hrest x hx]

/-- Lists without a common key are dealt with one after the other. -/
theorem dedupFrom_append {l' : List α} (h : ∀ x ∈ l, ∀ y ∈ l', key x ≠ key y) :
    dedupFrom key seen (l ++ l') = dedupFrom key seen l ++ dedupFrom key seen l' := by
  induction l generalizing seen with
  | nil => rfl
  | cons x rest ih =>
    obtain ⟨hx, hrest⟩ := forall_mem_cons.mp h
    rw [cons_append, dedupFrom, dedupFrom, ih hrest, ih hrest]
    split
    · rfl
    · refine congrArg (fun tail => x :: (dedupFrom key (key x :: seen) rest ++ tail)) ?_
      refine dedupFrom_congr fun y hy => ?_
      rw [mem_cons, or_iff_right (hx y hy).symm]

/-- Rows without a common key are dealt with one after the other. -/
theorem dedupFrom_flatMap {ρ : Type} {rows : List ρ} {f : ρ → List α}
    (h : rows.Pairwise fun r r' => ∀ x ∈ f r, ∀ y ∈ f r', key x ≠ key y) :
    dedupFrom key seen (rows.flatMap f) = rows.flatMap fun r => dedupFrom key seen (f r) := by
  induction rows with
  | nil => rfl
  | cons r rest ih =>
    obtain ⟨hr, hrest⟩ := pairwise_cons.mp h
    rw [flatMap_cons, flatMap_cons, dedupFrom_append, ih hrest]
    intro x hx y hy
    obtain ⟨r', hr', hy⟩ := mem_flatMap.mp hy
    exact hr r' hr' x hx y hy

/-- Of the elements that a property of the key selects, one is left iff they share a key. -/
theorem countP_dedupFrom_eq_one {p : α → Bool} (hp : ∀ x y, key x = key y → p x = p y) :
    (dedupFrom key [] l).countP p = 1 ↔
      (∃ x ∈ l, p x = true) ∧ ∀ x ∈ l, ∀ y ∈ l, p x = true → p y = true → key x = key y := by
  have hkept : ∀ x ∈ l, p x = true →
      ∃ y ∈ (dedupFrom key [] l).filter p, key y = key x := by
    intro x hx hpx
    have hkey : key x ∈ (dedupFrom key [] l).map key :=
      mem_keys_dedupFrom.mpr ⟨mem_map_of_mem hx, not_mem_nil⟩
    obtain ⟨y, hy, hyx⟩ := mem_map.mp hkey
    exact ⟨y, mem_filter.mpr ⟨hy, (hp y x hyx).trans hpx⟩, hyx⟩
  have hfilter : ∀ y ∈ (dedupFrom key [] l).filter p, y ∈ l ∧ p y = true := fun y hy =>
    ⟨(mem_of_mem_dedupFrom (mem_filter.mp hy).1).1, (mem_filter.mp hy).2⟩
  have hnodup : (((dedupFrom key [] l).filter p).map key).Nodup :=
    nodup_keys_dedupFrom.sublist (filter_sublist.map key)
  rw [countP_eq_length_filter]
  generalize (dedupFrom key [] l).filter p = kept at hkept hfilter hnodup
  constructor
  · intro hlength
    obtain ⟨z, rfl⟩ := length_eq_one_iff.mp hlength
    have hz := hfilter z mem_cons_self
    refine ⟨⟨z, hz⟩, fun x hx y hy hpx hpy => ?_⟩
    obtain ⟨x', hx', hkx⟩ := hkept x hx hpx
    obtain ⟨y', hy', hky⟩ := hkept y hy hpy
    obtain rfl := mem_singleton.mp hx'
    obtain rfl := mem_singleton.mp hy'
    exact hkx.symm.trans hky
  · rintro ⟨⟨x, hx, hpx⟩, hsame⟩
    obtain ⟨y, hy, -⟩ := hkept x hx hpx
    match kept, hy, hfilter, hnodup with
    | [_], _, _, _ => rfl
    | a :: b :: _, _, hfilter, hnodup =>
      have ha := hfilter a mem_cons_self
      have hb := hfilter b (mem_cons_of_mem _ mem_cons_self)
      rw [map_cons, map_cons, nodup_cons, mem_cons, not_or] at hnodup
      exact absurd (hsame a ha.1 b hb.1 ha.2 hb.2) hnodup.1.1

end First

section Sums
variable [AddCommMonoid ν]

/-- What a key adds over all keys. -/
theorem sum_indicator {keys : List κ} (hnodup : keys.Nodup) {k : κ} (hk : k ∈ keys) (v : ν) :
    (keys.map fun k' => if k = k' then v else 0).sum = v := by
  induction keys with
  | nil => cases hk
  | cons k₀ rest ih =>
    rw [nodup_cons] at hnodup
    rw [map_cons, sum_cons]
    by_cases heq : k = k₀
    · have hzero : (rest.map fun k' => if k = k' then v else 0) = rest.map fun _ => 0 := by
        refine map_congr_left fun k' hk' => if_neg ?_
        rintro rfl
        exact hnodup.1 (heq ▸ hk')
      rw [if_pos heq, hzero]
      simp
    · rw [if_neg heq, zero_add]
      exact ih hnodup.2 ((mem_cons.mp hk).resolve_left heq)

/-- The values under one key. -/
def sumUnder (key : α → κ) (f : α → ν) (items : List α) (k : κ) : ν :=
  ((items.filter fun x => decide (key x = k)).map f).sum

theorem sumUnder_cons (key : α → κ) (f : α → ν) (x : α) (items : List α) (k : κ) :
    sumUnder key f (x :: items) k = (if key x = k then f x else 0) + sumUnder key f items k := by
  rw [sumUnder, filter_cons]
  by_cases h : key x = k
  · rw [if_pos (decide_eq_true h), if_pos h, map_cons, sum_cons]
    rfl
  · rw [if_neg (by simpa using h), if_neg h, zero_add]
    rfl

theorem sumUnder_perm {key : α → κ} {f : α → ν} {items items' : List α} (h : items.Perm items')
    (k : κ) : sumUnder key f items k = sumUnder key f items' k :=
  ((h.filter _).map f).sum_eq

/-- Sums taken key by key are the sum. -/
theorem sum_sumUnder {key : α → κ} {f : α → ν} {items : List α} {keys : List κ}
    (hnodup : keys.Nodup) (hkeys : ∀ x ∈ items, key x ∈ keys) :
    (keys.map (sumUnder key f items)).sum = (items.map f).sum := by
  induction items with
  | nil =>
    have hzero : keys.map (sumUnder key f []) = keys.map fun _ => 0 := rfl
    rw [hzero]
    simp
  | cons x rest ih =>
    obtain ⟨hx, hrest⟩ := forall_mem_cons.mp hkeys
    have hsplit : (keys.map (sumUnder key f (x :: rest))).sum =
        (keys.map fun k => if key x = k then f x else 0).sum +
          (keys.map (sumUnder key f rest)).sum := by
      rw [← sum_map_add]
      exact congrArg List.sum (map_congr_left fun k _ => sumUnder_cons key f x rest k)
    rw [hsplit, sum_indicator hnodup hx, ih hrest, map_cons, sum_cons]

/-- Sums over a list of lists. -/
theorem sum_flatMap {γ : Type} (l : List γ) (g : γ → List α) (f : α → ν) :
    ((l.flatMap g).map f).sum = (l.map fun k => ((g k).map f).sum).sum := by
  induction l with
  | nil => rfl
  | cons k rest ih =>
    rw [flatMap_cons, map_append, sum_append, ih, map_cons, sum_cons]

/-- Two sums change places. -/
theorem sum_sum_comm {γ δ : Type} (l : List γ) (l' : List δ) (f : γ → δ → ν) :
    (l.map fun x => (l'.map fun y => f x y).sum).sum =
      (l'.map fun y => (l.map fun x => f x y).sum).sum := by
  induction l with
  | nil => simp
  | cons x rest ih =>
    simp only [map_cons, sum_cons]
    rw [ih, sum_map_add]

end Sums

/-- A factor that depends on the key only. -/
theorem sumUnder_mul [NonUnitalNonAssocSemiring ν] (key : α → κ) (c : κ → ν) (f : α → ν)
    (items : List α) (k : κ) :
    sumUnder key (fun x => c (key x) * f x) items k = c k * sumUnder key f items k := by
  induction items with
  | nil => exact (mul_zero _).symm
  | cons x rest ih =>
    rw [sumUnder_cons, sumUnder_cons, ih, mul_add]
    by_cases h : key x = k
    · rw [if_pos h, if_pos h, h]
    · rw [if_neg h, if_neg h, mul_zero]

end Zicato
