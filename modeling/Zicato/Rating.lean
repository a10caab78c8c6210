import Mathlib.Algebra.BigOperators.Fin
import Mathlib.Algebra.Order.Field.Basic
import Mathlib.Tactic.NormNum
import Mathlib.Tactic.Ring
import Zicato.DictWrites

/-! # Centered strengths

`RatingFit` of `selection/rating.py` over an exact field, the square root a
parameter: the fitted strengths are shifted to sum to zero and their errors are
centered with them. -/
open List
namespace Zicato.Rating

variable {F : Type} [Field F] [LinearOrder F]

/-- `RatingFit`. -/
structure RatingFit (F : Type) where
  estimates : Dict String (F × F) := []
  covariance : Dict (String × String) F := []

/-- The variance inside `RatingFit.difference`. -/
def RatingFit.variance (fit : RatingFit F) (left right : String) : Option F := do
  let l ← fit.covariance.get? (left, left)
  let r ← fit.covariance.get? (right, right)
  let both ← fit.covariance.get? (left, right)
  return l + r - 2 * both

/-- `RatingFit.difference`: the mean and the standard error; a missing id raises. -/
def RatingFit.difference (sqrt : F → F) (fit : RatingFit F) (left right : String) :
    Option (F × F) := do
  let variance ← fit.variance left right
  let l ← fit.estimates.get? left
  let r ← fit.estimates.get? right
  return (l.1 - r.1, sqrt (max 0 variance))

section Fit
variable (sqrt : F → F) (ids : List String) (theta : Fin ids.length → F)
  (covariance : Fin ids.length → Fin ids.length → F)

/-- The mean of a row of the covariance. -/
def rowMean (i : Fin ids.length) : F := (∑ j, covariance i j) / ids.length

/-- An entry of the centered covariance. -/
def centered (i j : Fin ids.length) : F :=
  covariance i j - rowMean ids covariance i - rowMean ids covariance j +
    (∑ k, rowMean ids covariance k) / ids.length

/-- The turn of one id: its row of the covariance, then its strength with the
standard error read back from the row. -/
def centerRow (fit : RatingFit F) (i : Fin ids.length) : RatingFit F :=
  let rows := Dict.writes (fun j => (ids.get i, ids.get j)) (centered ids covariance i)
    (List.finRange ids.length) fit.covariance
  { estimates := fit.estimates.set (ids.get i) (theta i - (∑ k, theta k) / ids.length,
      sqrt (max 0 (rows.getD (ids.get i, ids.get i) 0)))
    covariance := rows }

/-- `_centered_fit`; without ids there is no turn and no mean is asked for. -/
def centeredFit : RatingFit F :=
  (List.finRange ids.length).foldl (centerRow sqrt ids theta covariance) {}

variable {sqrt ids theta covariance}

/-! ## What the loops leave in the dictionaries -/

omit [LinearOrder F] in
/-- A written row of the covariance. -/
theorem get?_writes_row (h : ids.Nodup) (d : Dict (String × String) F) (i a b : Fin ids.length) :
    (Dict.writes (fun j => (ids.get i, ids.get j)) (centered ids covariance i)
      (List.finRange ids.length) d).get? (ids.get a, ids.get b) =
        if a = i then some (centered ids covariance i b) else d.get? (ids.get a, ids.get b) := by
  have hinj := nodup_iff_injective_get.mp h
  split
  · rename_i heq
    subst heq
    -- the entry of `b` is written once
    obtain ⟨before, after, hsplit⟩ := append_of_mem (mem_finRange b)
    have hnodup := nodup_finRange ids.length
    rw [hsplit] at hnodup ⊢
    refine Dict.get?_writes_append fun hmem => ?_
    obtain ⟨c, hc, heq⟩ := mem_map.mp hmem
    have hcb : c = b := hinj (Prod.mk.inj heq).2
    exact (nodup_cons.mp (nodup_append.mp hnodup).2.1).1 (hcb ▸ hc)
  · rename_i hne
    refine Dict.get?_writes_of_notMem fun hmem => hne ?_
    obtain ⟨c, -, heq⟩ := mem_map.mp hmem
    exact (hinj (Prod.mk.inj heq).1).symm

/-- The covariance after some rows. -/
theorem get?_foldl_covariance (h : ids.Nodup) (l : List (Fin ids.length)) (fit : RatingFit F)
    (a b : Fin ids.length) :
    (l.foldl (centerRow sqrt ids theta covariance) fit).covariance.get? (ids.get a, ids.get b) =
      if a ∈ l then some (centered ids covariance a b)
      else fit.covariance.get? (ids.get a, ids.get b) := by
  induction l generalizing fit with
  | nil => simp
  | cons i l ih =>
    rw [foldl_cons, ih, centerRow, get?_writes_row h]
    by_cases hal : a ∈ l
    · simp [hal]
    · by_cases hai : a = i
      · simp [hai]
      · simp [hal, hai]

/-- The estimates after some rows. -/
theorem foldl_estimates (h : ids.Nodup) (l : List (Fin ids.length)) (fit : RatingFit F)
    (hnew : (fit.estimates.keys ++ l.map ids.get).Nodup) :
    (l.foldl (centerRow sqrt ids theta covariance) fit).estimates =
      fit.estimates ++ l.map fun i => (ids.get i, theta i - (∑ k, theta k) / ids.length,
        sqrt (max 0 (centered ids covariance i i))) := by
  induction l generalizing fit with
  | nil => simp
  | cons i l ih =>
    have hi : ids.get i ∉ fit.estimates.keys := by
      intro hmem
      exact (nodup_append.mp hnew).2.2 _ hmem _ mem_cons_self rfl
    have hturn : (centerRow sqrt ids theta covariance fit i).estimates =
        fit.estimates ++ [(ids.get i, theta i - (∑ k, theta k) / ids.length,
          sqrt (max 0 (centered ids covariance i i)))] := by
      rw [centerRow, Dict.getD, get?_writes_row h, if_pos rfl, Option.getD_some,
        Dict.set_append _ _ _ hi]
    rw [foldl_cons, ih, hturn, List.append_assoc, map_cons, singleton_append]
    rw [hturn]
    simpa [Dict.keys] using hnew

theorem centeredFit_covariance (h : ids.Nodup) (i j : Fin ids.length) :
    (centeredFit sqrt ids theta covariance).covariance.get? (ids.get i, ids.get j) =
      some (centered ids covariance i j) := by
  rw [centeredFit, get?_foldl_covariance h, if_pos (mem_finRange i)]

theorem centeredFit_estimates (h : ids.Nodup) :
    (centeredFit sqrt ids theta covariance).estimates =
      (List.finRange ids.length).map fun i =>
        (ids.get i, theta i - (∑ k, theta k) / ids.length,
          sqrt (max 0 (centered ids covariance i i))) := by
  refine foldl_estimates h _ {} ?_
  rw [map_get_finRange]
  exact h

theorem centeredFit_get? (h : ids.Nodup) (i : Fin ids.length) :
    (centeredFit sqrt ids theta covariance).estimates.get? (ids.get i) =
      some (theta i - (∑ k, theta k) / ids.length,
        sqrt (max 0 (centered ids covariance i i))) := by
  rw [centeredFit_estimates h, Dict.get?_eq_some_iff]
  · exact mem_map.mpr ⟨i, mem_finRange i, rfl⟩
  · rw [Dict.keys, map_map]
    exact (nodup_finRange _).map (nodup_iff_injective_get.mp h)

/-! ## The projection -/

omit [LinearOrder F] in
theorem sum_sub_mean [CharZero F] {n : Nat} (hn : n ≠ 0) (v : Fin n → F) :
    ∑ i, (v i - (∑ k, v k) / n) = 0 := by
  have hcast : (n : F) ≠ 0 := Nat.cast_ne_zero.mpr hn
  rw [Finset.sum_sub_distrib, Finset.sum_const, Finset.card_univ, Fintype.card_fin, nsmul_eq_mul,
    mul_div_cancel₀ _ hcast, sub_self]

omit [LinearOrder F] in
/-- A centred row sums to zero. -/
theorem sum_centered [CharZero F] (hne : ids ≠ []) (i : Fin ids.length) :
    ∑ j, centered ids covariance i j = 0 := by
  have hn : ids.length ≠ 0 := by simpa using hne
  have hrow := sum_sub_mean hn (covariance i)
  have hmeans := sum_sub_mean hn (rowMean ids covariance)
  have hsplit : ∀ j, centered ids covariance i j =
      (covariance i j - rowMean ids covariance i) -
        (rowMean ids covariance j - (∑ k, rowMean ids covariance k) / ids.length) := by
    intro j
    rw [centered]
    ring
  rw [Finset.sum_congr rfl fun j _ => hsplit j, Finset.sum_sub_distrib, hmeans, sub_zero]
  exact hrow

omit [LinearOrder F] in
theorem centered_symm (h : ∀ i j, covariance i j = covariance j i) (i j : Fin ids.length) :
    centered ids covariance i j = centered ids covariance j i := by
  rw [centered, centered, h i j]
  ring

/-- Shifting all strengths by one number moves no difference and no variance of a
difference: the centered fit compares two ids as the fit it was made from does. -/
theorem centered_fit_keeps_comparisons [IsStrictOrderedRing F] (sqrt : F → F) (ids : List String)
    (theta : Fin ids.length → F) (covariance : Fin ids.length → Fin ids.length → F)
    (hne : ids ≠ []) (hnodup : ids.Nodup) (hsymm : ∀ i j, covariance i j = covariance j i) :
    let fit := centeredFit sqrt ids theta covariance
    (fit.estimates.keys = ids ∧ (fit.estimates.map fun e => e.2.1).sum = 0) ∧
      (∃ entry : Fin ids.length → Fin ids.length → F,
        (∀ i j, fit.covariance.get? (ids.get i, ids.get j) = some (entry i j)) ∧
          (∀ i j, entry i j = entry j i) ∧ ∀ i, ∑ j, entry i j = 0) ∧
      ∀ i j,
        fit.variance (ids.get i) (ids.get j) =
            some (covariance i i + covariance j j - 2 * covariance i j) ∧
          fit.difference sqrt (ids.get i) (ids.get j) = some (theta i - theta j,
            sqrt (max 0 (covariance i i + covariance j j - 2 * covariance i j))) := by
  intro fit
  have hvariance : ∀ i j, fit.variance (ids.get i) (ids.get j) =
      some (covariance i i + covariance j j - 2 * covariance i j) := by
    intro i j
    have hentries : centered ids covariance i i + centered ids covariance j j -
        2 * centered ids covariance i j =
          covariance i i + covariance j j - 2 * covariance i j := by
      simp only [centered]
      ring
    simp only [fit, RatingFit.variance, centeredFit_covariance hnodup, Option.bind_eq_bind,
      Option.bind_some, hentries, Option.pure_def]
  refine ⟨⟨?_, ?_⟩, ⟨centered ids covariance, centeredFit_covariance hnodup, centered_symm hsymm,
    sum_centered hne⟩, fun i j => ⟨hvariance i j, ?_⟩⟩
  · rw [Dict.keys, centeredFit_estimates hnodup, List.map_map]
    exact List.map_get_finRange ids
  · rw [centeredFit_estimates hnodup, List.map_map]
    exact (Fin.sum_univ_def _).symm.trans (sum_sub_mean (by simpa using hne) theta)
  · simp only [RatingFit.difference, hvariance i j, Option.bind_eq_bind, Option.bind_some]
    simp only [fit, centeredFit_get? hnodup, Option.bind_some, Option.pure_def,
      sub_sub_sub_cancel_right]

theorem centered_fit_keeps_comparisons_pair :
    (centeredFit (id : ℚ → ℚ) ["a", "b"] (fun i => if i = 0 then 3 else 2)
      fun i j => if i = j then 2 else 1).difference id "a" "b" = some (1, 2) := by
  have h := centered_fit_keeps_comparisons (id : ℚ → ℚ) ["a", "b"]
    (fun i => if i = 0 then 3 else 2) (fun i j => if i = j then 2 else 1)
    (by decide) (by decide) (by decide)
  have hpair := (h.2.2 0 1).2
  norm_num at hpair
  exact hpair

end Fit
end Zicato.Rating
