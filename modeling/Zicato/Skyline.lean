import Mathlib.Data.List.Induction
import Mathlib.Data.List.Pairwise

/-! # Newcomers against those that stand

Elements arrive one after the other.  A newcomer enters unless one that stands
beats it, and ousts the ones it beats.  Nothing is assumed of the relation: it
need not be transitive, so one that was refused may end up beaten by nobody. -/
open List
namespace Zicato.Skyline

variable {α : Type} (beats : α → α → Bool)

def admitOne (standing : List α) (c : α) : List α :=
  if standing.any fun m => beats m c then standing
  else (standing.filter fun m => !beats c m) ++ [c]

def pass (standing newcomers : List α) : List α := newcomers.foldl (admitOne beats) standing

variable {beats}

/-- Who stands after a candidate. -/
theorem mem_admitOne {standing : List α} {c x : α} : x ∈ admitOne beats standing c ↔
    (x ∈ standing ∧ ((∃ m ∈ standing, beats m c = true) ∨ beats c x = false)) ∨
      (x = c ∧ ∀ m ∈ standing, beats m c = false) := by
  unfold admitOne
  split
  · rename_i h
    obtain ⟨m, hm, hbeats⟩ := any_eq_true.mp h
    constructor
    · exact fun hx => .inl ⟨hx, .inl ⟨m, hm, hbeats⟩⟩
    · rintro (hx | ⟨-, hnone⟩)
      · exact hx.1
      · exact absurd (hnone m hm) (by simp [hbeats])
  · rename_i h
    have hnone : ∀ m ∈ standing, beats m c = false := by
      intro m hm
      cases hb : beats m c with
      | false => rfl
      | true => exact absurd (any_eq_true.mpr ⟨m, hm, hb⟩) h
    rw [mem_append, mem_filter, mem_singleton]
    constructor
    · rintro (⟨hx, hb⟩ | rfl)
      · exact .inl ⟨hx, .inr (by simpa using hb)⟩
      · exact .inr ⟨rfl, hnone⟩
    · rintro (⟨hx, ⟨m, hm, hb⟩ | hb⟩ | ⟨rfl, -⟩)
      · exact absurd (hnone m hm) (by simp [hb])
      · exact .inl ⟨hx, by simp [hb]⟩
      · exact .inr rfl

/-! ## Nobody that stands beats another -/

variable (beats) in
/-- No element beats another. -/
def Apart (l : List α) : Prop := l.Pairwise fun a b => beats a b = false ∧ beats b a = false

theorem Apart.sublist {l l' : List α} (h : Apart beats l) (hl : l'.Sublist l) : Apart beats l' :=
  Pairwise.sublist hl h

/-- Nobody that stands beats another. -/
theorem apart_admitOne {standing : List α} (h : Apart beats standing) (c : α) :
    Apart beats (admitOne beats standing c) := by
  unfold admitOne
  split
  · exact h
  · rename_i hnone
    refine pairwise_append.mpr ⟨h.sublist filter_sublist, pairwise_singleton _ _, ?_⟩
    intro m hm x hx
    obtain ⟨hmem, hb⟩ := mem_filter.mp hm
    obtain rfl := mem_singleton.mp hx
    refine ⟨?_, by simpa using hb⟩
    cases hmc : beats m x with
    | false => rfl
    | true => exact absurd (any_eq_true.mpr ⟨m, hmem, hmc⟩) hnone

theorem Apart.perm {l l' : List α} (h : Apart beats l) (hl : l.Perm l') : Apart beats l' :=
  hl.pairwise h fun hab => ⟨hab.2, hab.1⟩

theorem Apart.of_ne {l : List α} (h : Apart beats l) {x y : α} (hx : x ∈ l) (hy : y ∈ l)
    (hne : x ≠ y) : beats x y = false :=
  have : Std.Symm fun a b => beats a b = false ∧ beats b a = false := ⟨fun _ _ hab => hab.symm⟩
  (Pairwise.forall h hx hy hne).1

/-! ## Who stands in the end

Arrivals are known by their positions; the first `s` of them stand from the
start and do not oust each other. -/

variable (beats) in
/-- The arrival at `j` beats the one at `i`. -/
def Ousts (l : List α) (j i : Nat) : Prop :=
  ∃ x y, l[j]? = some x ∧ l[i]? = some y ∧ beats x y = true

variable (beats) in
/-- An arrival enters if each earlier one that enters and beats it has been ousted in between. -/
def Enters (l : List α) (s i : Nat) : Prop :=
  i < s ∨ ∀ j, ∀ _ : j < i, Enters l s j →
    (∀ k, ∀ _ : k < i, j < k → s ≤ k → Enters l s k → ¬Ousts beats l k j) → ¬Ousts beats l j i
termination_by i

variable (beats) in
/-- An arrival stands if it enters and no later one that enters beats it. -/
def Stands (l : List α) (s i : Nat) : Prop :=
  Enters beats l s i ∧ ∀ k, i < k → s ≤ k → Enters beats l s k → ¬Ousts beats l k i

variable {l l' : List α} {s : Nat}

theorem ousts_congr {j i : Nat} (hj : l[j]? = l'[j]?) (hi : l[i]? = l'[i]?) :
    Ousts beats l j i ↔ Ousts beats l' j i := by
  rw [Ousts, Ousts, hj, hi]

/-- Whether an arrival enters depends on those before it alone. -/
theorem enters_congr {i : Nat} (h : ∀ k ≤ i, l[k]? = l'[k]?) :
    Enters beats l s i ↔ Enters beats l' s i := by
  induction i using Nat.strongRecOn with
  | ind i ih =>
    have hk : ∀ k < i, (Enters beats l s k ↔ Enters beats l' s k) := fun k hk =>
      ih k hk fun k' hk' => h k' (by omega)
    have hout : ∀ k ≤ i, ∀ j ≤ i, (Ousts beats l k j ↔ Ousts beats l' k j) := fun k hk j hj =>
      ousts_congr (h k hk) (h j hj)
    rw [Enters, Enters]
    refine or_congr_right (forall_congr' fun j => forall_congr' fun hj => ?_)
    refine imp_congr (hk j hj) (imp_congr ?_ (not_congr (hout j (by omega) i (Nat.le_refl _))))
    refine forall_congr' fun k => forall_congr' fun hki => imp_congr_right fun hjk => ?_
    exact imp_congr_right fun _ => imp_congr (hk k hki) (not_congr (hout k (by omega) j (by omega)))

theorem not_ousts_of_length_le {j i : Nat} (h : l.length ≤ j) : ¬Ousts beats l j i := by
  rintro ⟨x, y, hx, -, -⟩
  rw [getElem?_eq_none h] at hx
  cases hx

section Snoc
variable (l) (c : α)

theorem getElem?_snoc_of_lt {i : Nat} (h : i < l.length) : (l ++ [c])[i]? = l[i]? :=
  getElem?_append_left h

theorem getElem?_snoc_length : (l ++ [c])[l.length]? = some c := by
  rw [getElem?_append_right (Nat.le_refl _), Nat.sub_self]
  rfl

theorem enters_snoc_of_lt {i : Nat} (h : i < l.length) :
    Enters beats (l ++ [c]) s i ↔ Enters beats l s i :=
  enters_congr fun k hk => getElem?_snoc_of_lt l c (by omega)

theorem ousts_snoc_of_lt {j i : Nat} (hj : j < l.length) (hi : i < l.length) :
    Ousts beats (l ++ [c]) j i ↔ Ousts beats l j i :=
  ousts_congr (getElem?_snoc_of_lt l c hj) (getElem?_snoc_of_lt l c hi)

/-- The last arrival enters if nobody that stands before it beats it. -/
theorem enters_snoc_length (hs : s ≤ l.length) :
    Enters beats (l ++ [c]) s l.length ↔
      ∀ j x, l[j]? = some x → Stands beats l s j → beats x c = false := by
  rw [Enters, or_iff_right (by omega)]
  have hstands : ∀ j < l.length, (Stands beats l s j ↔ Enters beats (l ++ [c]) s j ∧
      ∀ k, ∀ _ : k < l.length, j < k → s ≤ k → Enters beats (l ++ [c]) s k →
        ¬Ousts beats (l ++ [c]) k j) := by
    intro j hj
    refine and_congr (enters_snoc_of_lt l c hj).symm (forall_congr' fun k => ?_)
    by_cases hk : k < l.length
    · rw [enters_snoc_of_lt l c hk, ousts_snoc_of_lt l c hk hj]
      exact ⟨fun h _ => h, fun h => h hk⟩
    · exact ⟨fun _ h => absurd h hk, fun _ _ _ _ => not_ousts_of_length_le (Nat.not_lt.mp hk)⟩
  constructor
  · intro h j x hx hj
    have hlt : j < l.length := (List.getElem?_eq_some_iff.mp hx).1
    obtain ⟨henters, hlater⟩ := (hstands j hlt).mp hj
    cases hb : beats x c with
    | false => rfl
    | true =>
      refine absurd ⟨x, c, ?_, getElem?_snoc_length l c, hb⟩ (h j hlt henters hlater)
      rw [getElem?_snoc_of_lt l c hlt, hx]
  · rintro h j hlt henters hlater ⟨x, y, hx, hy, hb⟩
    rw [getElem?_snoc_of_lt l c hlt] at hx
    rw [getElem?_snoc_length] at hy
    obtain rfl := Option.some.inj hy
    have hfalse := h j x hx ((hstands j hlt).mpr ⟨henters, hlater⟩)
    rw [hb] at hfalse
    cases hfalse

/-- One that stands keeps standing unless the last arrival enters and beats it. -/
theorem stands_snoc_of_lt {i : Nat} {x : α} (hs : s ≤ l.length) (hx : l[i]? = some x) :
    Stands beats (l ++ [c]) s i ↔
      Stands beats l s i ∧ (Enters beats (l ++ [c]) s l.length → beats c x = false) := by
  have hi : i < l.length := (List.getElem?_eq_some_iff.mp hx).1
  have hlast : Ousts beats (l ++ [c]) l.length i ↔ beats c x = true := by
    rw [Ousts, getElem?_snoc_length, getElem?_snoc_of_lt l c hi, hx]
    simp
  rw [Stands, enters_snoc_of_lt l c hi, Stands, and_assoc]
  refine and_congr_right fun _ => ⟨fun h => ⟨fun k hik hsk henters hout => ?_, fun henters => ?_⟩,
    fun ⟨hbefore, hnew⟩ k hik hsk henters hout => ?_⟩
  · by_cases hk : k < l.length
    · exact h k hik hsk ((enters_snoc_of_lt l c hk).mpr henters)
        ((ousts_snoc_of_lt l c hk hi).mpr hout)
    · exact not_ousts_of_length_le (Nat.not_lt.mp hk) hout
  · cases hb : beats c x with
    | false => rfl
    | true => exact absurd (hlast.mpr hb) (h l.length hi hs henters)
  · rcases Nat.lt_trichotomy k l.length with hk | rfl | hk
    · exact hbefore k hik hsk ((enters_snoc_of_lt l c hk).mp henters)
        ((ousts_snoc_of_lt l c hk hi).mp hout)
    · rw [hlast, hnew henters] at hout
      cases hout
    · refine not_ousts_of_length_le ?_ hout
      rw [length_append, length_singleton]
      exact hk

theorem stands_snoc_length :
    Stands beats (l ++ [c]) s l.length ↔ Enters beats (l ++ [c]) s l.length := by
  refine and_iff_left fun k hk _ _ => not_ousts_of_length_le ?_
  rw [length_append, length_singleton]
  exact hk

end Snoc

/-- The pass leaves the arrivals that stand. -/
theorem mem_pass (standing newcomers : List α) (x : α) :
    x ∈ pass beats standing newcomers ↔ ∃ i, (standing ++ newcomers)[i]? = some x ∧
      Stands beats (standing ++ newcomers) standing.length i := by
  induction newcomers using List.reverseRecOn generalizing x with
  | nil =>
    rw [append_nil]
    have hall : ∀ i, i < standing.length → Stands beats standing standing.length i := by
      intro i hi
      refine ⟨?_, fun k _ hk _ => not_ousts_of_length_le hk⟩
      rw [Enters]
      exact .inl hi
    constructor
    · intro hx
      obtain ⟨i, hi⟩ := mem_iff_getElem?.mp hx
      exact ⟨i, hi, hall i (List.getElem?_eq_some_iff.mp hi).1⟩
    · rintro ⟨i, hi, -⟩
      exact mem_of_getElem? hi
  | append_singleton newcomers c ih =>
    rw [pass, foldl_append, foldl_cons, foldl_nil, ← pass, ← List.append_assoc,
      mem_admitOne]
    have hs : standing.length ≤ (standing ++ newcomers).length := by simp
    generalize standing ++ newcomers = l at ih hs
    have henters : Enters beats (l ++ [c]) standing.length l.length ↔
        ∀ m ∈ pass beats standing newcomers, beats m c = false := by
      rw [enters_snoc_length l c hs]
      constructor
      · intro h m hm
        obtain ⟨j, hj, hstands⟩ := (ih m).mp hm
        exact h j m hj hstands
      · exact fun h j m hj hstands => h m ((ih m).mpr ⟨j, hj, hstands⟩)
    have hrefused : (∃ m ∈ pass beats standing newcomers, beats m c = true) ↔
        ¬Enters beats (l ++ [c]) standing.length l.length := by
      rw [henters]
      simp
    rw [hrefused, ← henters, ih]
    constructor
    · rintro (⟨⟨i, hi, hstands⟩, hkeeps⟩ | ⟨rfl, hin⟩)
      · refine ⟨i, ?_, (stands_snoc_of_lt l c hs hi).mpr ⟨hstands, fun hin => ?_⟩⟩
        · rw [getElem?_snoc_of_lt l c (List.getElem?_eq_some_iff.mp hi).1, hi]
        · exact hkeeps.resolve_left (not_not_intro hin)
      · exact ⟨l.length, getElem?_snoc_length l x, (stands_snoc_length l x).mpr hin⟩
    · rintro ⟨i, hi, hstands⟩
      by_cases hlt : i < l.length
      · rw [getElem?_snoc_of_lt l c hlt] at hi
        obtain ⟨hbefore, hkeeps⟩ := (stands_snoc_of_lt l c hs hi).mp hstands
        exact .inl ⟨⟨i, hi, hbefore⟩, (Classical.em _).symm.imp_right hkeeps⟩
      · obtain rfl : i = l.length := by
          have := (List.getElem?_eq_some_iff.mp hi).1
          rw [length_append, length_singleton] at this
          omega
        rw [getElem?_snoc_length] at hi
        exact .inr ⟨(Option.some.inj hi).symm, (stands_snoc_length l c).mp hstands⟩

end Zicato.Skyline
