import Mathlib.Data.List.Induction
import Mathlib.Data.List.Nodup
import Zicato.PyFloat

/-! # Python's `sorted`

`sorted` is stable and compares with `<` alone, so `le a b` is `not (b < a)`.
On a lawful order every stable sort returns the same list; the results here use
no more of it than that it permutes its input. -/
open List Option
namespace Zicato

variable {α F : Type}

/-- `sorted(l, key=...)` for the comparison `lt` of the keys. -/
def sorted (lt : α → α → Bool) (l : List α) : List α := l.mergeSort fun a b => !lt b a

theorem sorted_perm (lt : α → α → Bool) (l : List α) : (sorted lt l).Perm l :=
  mergeSort_perm _ _

@[simp] theorem length_sorted (lt : α → α → Bool) (l : List α) :
    (sorted lt l).length = l.length := (sorted_perm lt l).length_eq

@[simp] theorem mem_sorted (lt : α → α → Bool) (l : List α) (a : α) : a ∈ sorted lt l ↔ a ∈ l :=
  (sorted_perm lt l).mem_iff

theorem sorted_of_pairwise {lt : α → α → Bool} {l : List α} (h : l.Pairwise fun a b => !lt b a) :
    sorted lt l = l := mergeSort_of_pairwise h

/-- Tuple comparison: the first components decide unless they are equal. -/
def thenLt (eq lt : Bool) (rest : Bool) : Bool := if eq then rest else lt

/-- `<` on the key `(scalar, id)`. -/
def scalarKeyLt [PyFloat F] (a b : F × String) : Bool :=
  thenLt (PyFloat.eq a.1 b.1) (PyFloat.lt a.1 b.1) (decide (a.2 < b.2))

/-- `<` on the key `(n, scalar, id)`. -/
def rankKeyLt [PyFloat F] (a b : Int × F × String) : Bool :=
  thenLt (decide (a.1 = b.1)) (decide (a.1 < b.1)) (scalarKeyLt a.2 b.2)

/-! ## Sorting by a key -/

section Keyed

variable {α κ : Type} [LinearOrder κ] {key : α → κ} {lt : α → α → Bool} {l l' : List α}

theorem sorted_pairwise (hlt : ∀ a b, lt a b = decide (key a < key b)) (l : List α) :
    (sorted lt l).Pairwise fun a b => key a ≤ key b := by
  have hle : ∀ a b, (!lt b a) = true ↔ key a ≤ key b := by
    intro a b
    simp [hlt]
  refine (pairwise_mergeSort ?_ ?_ l).imp fun h => (hle _ _).mp h
  · intro a b c hab hbc
    exact (hle a c).mpr (((hle a b).mp hab).trans ((hle b c).mp hbc))
  · intro a b
    rw [Bool.or_eq_true, hle, hle]
    exact le_total _ _

theorem sorted_sorted (hlt : ∀ a b, lt a b = decide (key a < key b)) (l : List α) :
    sorted lt (sorted lt l) = sorted lt l := by
  refine mergeSort_of_pairwise ((sorted_pairwise hlt l).imp fun {a b} hab => ?_)
  rw [hlt, Bool.not_eq_true', decide_eq_false_iff_not]
  exact not_lt.mpr hab

end Keyed

/-! ## The first of the least -/

section FirstLeast

variable {α κ : Type} [LinearOrder κ]

/-- A loop that replaces its choice by anything smaller. -/
def firstLeast (key : α → κ) (l : List α) : Option α :=
  l.foldl (fun best a =>
    match best with
    | none => some a
    | some b => if key a < key b then some a else best) none

theorem firstLeast_concat (key : α → κ) (l : List α) (a : α) :
    firstLeast key (l ++ [a]) =
      match firstLeast key l with
      | none => some a
      | some b => if key a < key b then some a else some b := by
  rw [firstLeast, foldl_concat, ← firstLeast]
  cases firstLeast key l <;> rfl

theorem firstLeast_eq_none {key : α → κ} {l : List α} : firstLeast key l = none ↔ l = [] := by
  induction l using reverseRecOn with
  | nil => simp [firstLeast]
  | append_singleton l a ih =>
    rw [firstLeast_concat]
    cases firstLeast key l with
    | none => simp
    | some b =>
      simp only [append_eq_nil_iff, cons_ne_nil, and_false, iff_false]
      split <;> simp

/-- The choice is the first element with the least key. -/
theorem firstLeast_eq_some_iff {key : α → κ} {l : List α} {a : α} :
    firstLeast key l = some a ↔
      (∀ b ∈ l, key a ≤ key b) ∧ l.find? (fun b => decide (key b = key a)) = some a := by
  induction l using reverseRecOn generalizing a with
  | nil => simp [firstLeast]
  | append_singleton l c ih =>
    rw [firstLeast_concat, find?_append]
    cases hbest : firstLeast key l with
    | none =>
      obtain rfl := firstLeast_eq_none.mp hbest
      by_cases hc : key c = key a
      · simp [hc]
      · have hne : c ≠ a := fun he => hc (by rw [he])
        simp [hc, hne]
    | some b =>
      obtain ⟨hleast, hfind⟩ := ih.mp hbest
      have hb : b ∈ l := mem_of_find?_eq_some hfind
      by_cases hlt : key c < key b
      · -- nothing before it has the key of the new choice
        have hnone : l.find? (fun d => decide (key d = key c)) = none := by
          simp only [find?_eq_none, decide_eq_true_eq]
          intro d hd he
          exact absurd (hleast d hd) (by rw [he]; exact not_le.mpr hlt)
        simp only [hlt, if_true, some.injEq]
        constructor
        · rintro rfl
          refine ⟨?_, by simp [hnone]⟩
          intro d hd
          rcases mem_append.mp hd with hd | hd
          · exact le_of_lt (lt_of_lt_of_le hlt (hleast d hd))
          · rw [mem_singleton.mp hd]
        · rintro ⟨hall, hfound⟩
          cases hl : l.find? (fun d => decide (key d = key a)) with
          | none => exact (show key c = key a ∧ c = a by simpa [hl] using hfound).2
          | some d =>
            have hd := mem_of_find?_eq_some hl
            have hka : key d = key a := by simpa using find?_some hl
            have hle := hall c (by simp)
            exact absurd (hleast d hd) (by rw [hka]; exact not_le.mpr (lt_of_le_of_lt hle hlt))
      · simp only [hlt, if_false]
        constructor
        · intro he
          obtain rfl : b = a := by simpa using he
          refine ⟨?_, by simp [hfind]⟩
          intro d hd
          rcases mem_append.mp hd with hd | hd
          · exact hleast d hd
          · rw [mem_singleton.mp hd]
            exact not_lt.mp hlt
        · rintro ⟨hall, hfound⟩
          have hkey : key b = key a := by
            refine le_antisymm ?_ (hall b (by simp [hb]))
            rcases or_eq_some_iff.mp hfound with hl | ⟨-, hl⟩
            · exact hleast a (mem_of_find?_eq_some hl)
            · obtain rfl : a = c := by simpa using mem_of_find?_eq_some hl
              exact not_lt.mp hlt
          rw [← hkey, hfind] at hfound
          simpa using hfound

end FirstLeast

end Zicato
