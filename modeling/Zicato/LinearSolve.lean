import Mathlib.Algebra.Order.Ring.Rat
import Mathlib.Data.List.FinRange
import Mathlib.LinearAlgebra.Matrix.NonsingularInverse
import Mathlib.Tactic.FieldSimp
import Mathlib.Tactic.Ring

/-! # Elimination with partial pivoting

`_solve` and `_invert` of `selection/rating.py` over the rationals. -/
open List Option Function
namespace Zicato.LinearSolve

open Matrix

/-- The augmented rows: `n` columns of the matrix, then `m` more. -/
abbrev Rows (n m : ℕ) := Fin n → Fin (n + m) → ℚ

variable {n m : ℕ} (matrix : Matrix (Fin n) (Fin n) ℚ) (aug : Rows n m) (col : Fin n)

/-- The division; by zero it raises. -/
def quot (a b : ℚ) : Option ℚ := if b = 0 then none else some (a / b)

/-- The search for the pivot at or below the diagonal: the row and its `best`. -/
def pivot : Fin n × ℚ :=
  ((List.finRange n).filter (col < ·)).foldl
    (fun best r => if best.2 < |aug r (.castAdd m col)| then (r, |aug r (.castAdd m col)|)
      else best)
    (col, |aug col (.castAdd m col)|)

/-- The pivot row brought to its place. -/
def exchange : Rows n m :=
  if (pivot aug col).1 ≠ col then aug ∘ Equiv.swap col (pivot aug col).1 else aug

/-- The turn of row `r`: its columns from `first` on lose `factor` times the pivot row. -/
def eliminate (first : ℕ) (factorOf : ℚ → Option ℚ) (aug : Rows n m) (r : Fin n) :
    Option (Rows n m) := do
  if r = col then return aug
  let factor ← factorOf (aug r (.castAdd m col))
  if factor = 0 then return aug
  return Function.update aug r fun c =>
    if c.val < first then aug r c else aug r c - factor * aug col c

/-- A column of `_solve`. -/
def solveColumn : Option (Rows n m) :=
  let aug := exchange aug col
  let diag := aug col (.castAdd m col)
  if diag = 0 then some aug
  else (List.finRange n).foldlM (eliminate col col.val (quot · diag)) aug

/-- A column of `_invert`: the pivot row is scaled first. -/
def invertColumn : Option (Rows n m) :=
  let aug := exchange aug col
  let diag := aug col (.castAdd m col)
  if diag = 0 then some aug
  else do
    let inv ← quot 1 diag
    (List.finRange n).foldlM (eliminate col 0 some)
      (Function.update aug col fun c => aug col c * inv)

/-- The matrix with further columns on its right. -/
def augmented (right : Matrix (Fin n) (Fin m) ℚ) : Rows n m := fun i =>
  Fin.append (matrix i) (right i)

/-- `_solve`. -/
def solve (rhs : Fin n → ℚ) : Option (Fin n → ℚ) := do
  let aug ← (List.finRange n).foldlM solveColumn (augmented matrix (.of fun i (_ : Fin 1) => rhs i))
  (List.finRange n).foldlM (fun out i => do
    let diag := aug i (.castAdd 1 i)
    let x ← if diag ≠ 0 then quot (aug i (.natAdd n 0)) diag else some 0
    return Function.update out i x) 0

/-- `_invert`. -/
def invert : Option (Matrix (Fin n) (Fin n) ℚ) := do
  let aug ← (List.finRange n).foldlM invertColumn (augmented matrix (1 : Matrix _ (Fin n) ℚ))
  return .of fun i j => aug i (.natAdd n j)

/-! ## A column at once -/

/-- A loop over the rows that writes each of them once and reads, besides the row, only
rows it leaves as they are. -/
theorem foldlM_rows {α : Type} {step : (Fin n → α) → Fin n → Option (Fin n → α)}
    {old new : Fin n → α}
    (hstep : ∀ rows r, rows r = old r → (∀ s, new s = old s → rows s = old s) →
      step rows r = some (Function.update rows r (new r))) :
    (List.finRange n).foldlM step old = some new := by
  suffices h : ∀ (l : List (Fin n)) (rows : Fin n → α), l.Nodup →
      (∀ r, rows r = if r ∈ l then old r else new r) → l.foldlM step rows = some new from
    h _ old (nodup_finRange n) fun r => by rw [if_pos (mem_finRange r)]
  intro l
  induction l with
  | nil =>
    intro rows _ hrows
    simpa using funext hrows
  | cons r l ih =>
    intro rows hnodup hrows
    have hr : rows r = old r := by simpa using hrows r
    have hkeep : ∀ s, new s = old s → rows s = old s := by
      intro s hs
      rw [hrows s, hs, ite_self]
    rw [foldlM_cons, hstep rows r hr hkeep, bind_eq_bind, bind_some]
    refine ih _ hnodup.of_cons fun s => ?_
    by_cases hs : s = r
    · subst hs
      rw [update_self, if_neg (nodup_cons.mp hnodup).1]
    · rw [update_of_ne hs, hrows s]
      simp [hs]

/-- What a column does once the pivot row is in place; `scale` is the factor of the
pivot row. -/
def clear (first : Fin n → ℕ) (scale : ℚ → ℚ) (aug : Rows n m) (col : Fin n) : Rows n m :=
  let diag := aug col (.castAdd m col)
  if diag = 0 then aug
  else fun r c =>
    if r = col then scale diag * aug col c
    else if c.val < first col then aug r c
    else aug r c - aug r (.castAdd m col) / diag * aug col c

/-- A column eliminated. -/
def reduce (first : Fin n → ℕ) (scale : ℚ → ℚ) (aug : Rows n m) (col : Fin n) : Rows n m :=
  clear first scale (exchange aug col) col

/-- Eliminating below a pivot, row by row. -/
theorem foldlM_eliminate {first : ℕ} {factorOf : ℚ → Option ℚ} {d : ℚ}
    (h : ∀ a, factorOf a = some (a / d)) :
    (List.finRange n).foldlM (eliminate col first factorOf) aug = some fun r c =>
      if r = col then aug col c else if c.val < first then aug r c
      else aug r c - aug r (.castAdd m col) / d * aug col c := by
  refine foldlM_rows fun rows r hr hkeep => ?_
  have hcol : rows col = aug col := hkeep col (by simp)
  by_cases hrc : r = col
  · subst hrc
    simp [eliminate, ← hr]
  · simp only [eliminate, hrc, if_false, h, hr, hcol, bind_eq_bind, bind_some,
      Option.pure_def]
    split
    · rename_i hzero
      simp only [hzero, zero_mul, sub_zero, ite_self]
      rw [← hr, update_eq_self]
    · rfl

theorem solveColumn_eq :
    solveColumn aug col = some (reduce Fin.val (fun _ => 1) aug col) := by
  unfold solveColumn reduce clear
  simp only
  split
  · rfl
  · rename_i hdiag
    rw [foldlM_eliminate _ _ fun a => by rw [quot, if_neg hdiag]]
    simp only [one_mul]

/-- A column of the inversion is one of the reduction. -/
theorem invertColumn_eq :
    invertColumn aug col = some (reduce (fun _ => 0) (1 / ·) aug col) := by
  unfold invertColumn reduce clear
  simp only
  split
  · rfl
  · rename_i hdiag
    rw [quot, if_neg hdiag, bind_eq_bind, bind_some,
      foldlM_eliminate _ _ fun a => by rw [div_one]]
    congr 1
    funext r c
    by_cases hr : r = col
    · simp [hr, mul_comm]
    · simp only [hr, if_false, Nat.not_lt_zero, update_self, update_of_ne hr]
      ring

/-! ## The pivot -/

theorem foldl_best (g : Fin n → ℚ) (col : Fin n) (l : List (Fin n)) :
    let best := l.foldl (fun best r => if best.2 < g r then (r, g r) else best) (col, g col)
    best.2 = g best.1 ∧ best.1 ∈ col :: l ∧ ∀ r ∈ col :: l, g r ≤ best.2 := by
  induction l using reverseRecOn with
  | nil => simp
  | append_singleton l r ih =>
    rw [foldl_concat]
    grind

theorem pivot_spec :
    col ≤ (pivot aug col).1 ∧
      ∀ r, col ≤ r → |aug r (.castAdd m col)| ≤ |aug (pivot aug col).1 (.castAdd m col)| := by
  obtain ⟨hval, hrow, hall⟩ := foldl_best (fun r => |aug r (.castAdd m col)|) col
    ((finRange n).filter (col < ·))
  have hmem : ∀ r, r ∈ col :: (finRange n).filter (col < ·) ↔ col ≤ r := by
    simp [le_iff_eq_or_lt, eq_comm]
  exact ⟨(hmem _).mp hrow, fun r hr => (hall r ((hmem r).mpr hr)).trans hval.le⟩

theorem exchange_eq : exchange aug col = aug ∘ Equiv.swap col (pivot aug col).1 := by
  rw [exchange]
  split
  · rfl
  · rename_i h
    rw [not_not.mp h, Equiv.swap_self]
    rfl

/-! ## What a column keeps -/

theorem dotProduct_append (row : Fin (n + m) → ℚ) (v : Fin n → ℚ) (w : Fin m → ℚ) :
    row ⬝ᵥ Fin.append v w =
      ∑ c, row (.castAdd m c) * v c + ∑ j, row (.natAdd n j) * w j := by
  simp [dotProduct, Fin.sum_univ_add]

/-- After `k` columns: the equations say what they said, and the first `k` columns have
their one entry on the diagonal. -/
structure Reduced (diag : ℚ → Prop) (matrix : Matrix (Fin n) (Fin n) ℚ)
    (right : Matrix (Fin n) (Fin m) ℚ) (k : ℕ) (aug : Rows n m) : Prop where
  equations : ∀ v w, (∀ r, aug r ⬝ᵥ Fin.append v w = 0) ↔ matrix *ᵥ v + right *ᵥ w = 0
  diag : ∀ j : Fin n, j.val < k → diag (aug j (.castAdd m j))
  zero : ∀ j r : Fin n, j.val < k → r ≠ j → aug r (.castAdd m j) = 0

section Column
variable {diag : ℚ → Prop} {matrix : Matrix (Fin n) (Fin n) ℚ} {right : Matrix (Fin n) (Fin m) ℚ}
  {aug : Rows n m} {col : Fin n} {first : Fin n → ℕ} {scale : ℚ → ℚ}

/-- Otherwise the column would be a combination of the columns before it. -/
theorem Reduced.pivot_ne_zero (h : Reduced diag matrix right col.val aug)
    (hunit : IsUnit matrix) (hdiag : ∀ x, diag x → x ≠ 0) :
    aug (pivot aug col).1 (.castAdd m col) ≠ 0 := by
  intro hzero
  have hbelow : ∀ r, col ≤ r → aug r (.castAdd m col) = 0 := by
    intro r hr
    simpa [hzero] using (pivot_spec aug col).2 r hr
  let v : Fin n → ℚ := fun c => if c = col then 1 else
    if c < col then -(aug c (.castAdd m col) / aug c (.castAdd m c)) else 0
  have hv : matrix *ᵥ v = 0 := by
    have hv := (h.equations v 0).mp fun r => ?_
    · simpa using hv
    rw [dotProduct_append]
    simp only [Pi.zero_apply, mul_zero, Finset.sum_const_zero, add_zero]
    by_cases hr : r < col
    · -- the row of an earlier pivot: its own entry and the one of the column
      have hne : aug r (.castAdd m r) ≠ 0 := hdiag _ (h.diag r hr)
      rw [Fintype.sum_eq_add r col hr.ne]
      · simp only [v, if_neg hr.ne, if_pos hr, if_true]
        field_simp
        ring
      · rintro c ⟨hcr, hcc⟩
        by_cases hc : c < col
        · rw [h.zero c r hc (Ne.symm hcr), zero_mul]
        · simp only [v, if_neg hcc, if_neg hc, mul_zero]
    · refine Finset.sum_eq_zero fun c _ => ?_
      rcases lt_trichotomy c col with hc | rfl | hc
      · rw [h.zero c r hc (ne_of_gt (hc.trans_le (not_lt.mp hr))), zero_mul]
      · rw [hbelow r (not_lt.mp hr), zero_mul]
      · simp only [v, if_neg hc.ne', if_neg hc.not_gt, mul_zero]
  have hone : v col = 0 := congrFun (mulVec_injective_of_isUnit hunit
    (hv.trans (mulVec_zero matrix).symm)) col
  simp [v] at hone

/-- An exchange of rows keeps the solutions. -/
theorem Reduced.exchange (h : Reduced diag matrix right col.val aug) :
    Reduced diag matrix right col.val (exchange aug col) := by
  rw [exchange_eq]
  generalize hσ : Equiv.swap col (pivot aug col).1 = σ
  -- both rows of the exchange are at or below the diagonal
  have hfix : ∀ j : Fin n, j < col → σ j = j := by
    rintro j hj
    rw [← hσ, Equiv.swap_apply_of_ne_of_ne hj.ne (hj.trans_le (pivot_spec aug col).1).ne]
  refine ⟨fun v w => Iff.trans ?_ (h.equations v w), fun j hj => ?_, fun j r hj hne => ?_⟩
  · exact σ.forall_congr_right (q := fun r => aug r ⬝ᵥ Fin.append v w = 0)
  · rw [Function.comp_apply, hfix j hj]
    exact h.diag j hj
  · exact h.zero j _ hj fun heq => hne (σ.injective (heq.trans (hfix j hj).symm))

/-- Left of the diagonal the pivot row is zero: each row changes as a whole. -/
theorem Reduced.clear_eq (h : Reduced diag matrix right col.val aug) (hfirst : first col ≤ col.val)
    (hpivot : aug col (.castAdd m col) ≠ 0) :
    clear first scale aug col = fun r =>
      if r = col then scale (aug col (.castAdd m col)) • aug col
      else aug r - (aug r (.castAdd m col) / aug col (.castAdd m col)) • aug col := by
  funext r c
  simp only [LinearSolve.clear, if_neg hpivot]
  by_cases hr : r = col
  · simp [hr]
  · by_cases hc : c.val < first col
    · have hlt : c.val < col.val := hc.trans_le hfirst
      have hz : aug col c = 0 :=
        h.zero ⟨c.val, hlt.trans col.isLt⟩ col hlt (Fin.ne_of_gt hlt)
      simp [hr, hc, hz]
    · simp [hr, hc]

/-- Clearing a column keeps the solutions. -/
theorem Reduced.clear (h : Reduced diag matrix right col.val aug) (hdiag : ∀ x, diag x → x ≠ 0)
    (hfirst : first col ≤ col.val) (hscale : ∀ x, x ≠ 0 → diag (scale x * x))
    (hpivot : aug col (.castAdd m col) ≠ 0) :
    Reduced diag matrix right (col.val + 1) (clear first scale aug col) := by
  rw [h.clear_eq hfirst hpivot]
  generalize hd : aug col (.castAdd m col) = d at hpivot
  have hs : scale d ≠ 0 := fun hzero => hdiag _ (hscale d hpivot) (by rw [hzero, zero_mul])
  refine ⟨fun v w => Iff.trans ⟨fun hall => ?_, fun hall r => ?_⟩ (h.equations v w),
    fun j hj => ?_, fun j r hj hne => ?_⟩
  · have hcol : aug col ⬝ᵥ Fin.append v w = 0 := by simpa [hd, hs] using hall col
    intro r
    by_cases hr : r = col
    · rw [hr, hcol]
    · simpa [hr, hcol, sub_dotProduct] using hall r
  · by_cases hr : r = col
    · simp [hr, hall]
    · simp [hr, hall, sub_dotProduct]
  · rcases Nat.lt_succ_iff_lt_or_eq.mp hj with hlt | heq
    · simpa [Fin.ne_of_lt hlt, h.zero j col hlt (Fin.ne_of_gt hlt)] using h.diag j hlt
    · simpa [Fin.ext heq, hd] using hscale d hpivot
  · rcases Nat.lt_succ_iff_lt_or_eq.mp hj with hlt | heq
    · by_cases hr : r = col
      · simp [hr, h.zero j col hlt (Fin.ne_of_gt hlt)]
      · simp [hr, h.zero j r hlt hne, h.zero j col hlt (Fin.ne_of_gt hlt)]
    · obtain rfl := Fin.ext heq
      simp [hne, hd, hpivot]

/-- All columns, one after the other. -/
theorem reduced_foldl (hunit : IsUnit matrix)
    (hdiag : ∀ x, diag x → x ≠ 0) (hfirst : ∀ col, first col ≤ col.val)
    (hscale : ∀ x, x ≠ 0 → diag (scale x * x)) :
    Reduced diag matrix right n
      ((List.finRange n).foldl (reduce first scale) (augmented matrix right)) := by
  have h : ∀ k ≤ n, Reduced diag matrix right k
      (((finRange n).take k).foldl (reduce first scale) (augmented matrix right)) := by
    intro k
    induction k with
    | zero =>
      refine fun _ => ⟨fun v w => ?_, fun j hj => absurd hj j.val.not_lt_zero,
        fun j _ hj => absurd hj j.val.not_lt_zero⟩
      simp only [dotProduct_append, funext_iff]
      simp [augmented, mulVec, dotProduct]
    | succ k ih =>
      intro hk
      have hnext : (finRange n).take (k + 1) = (finRange n).take k ++ [⟨k, hk⟩] := by
        rw [take_add_one, getElem?_eq_getElem (by simpa using hk)]
        simp
      rw [hnext, foldl_concat]
      have h : Reduced diag matrix right (⟨k, hk⟩ : Fin n).val _ := ih (Nat.le_of_succ_le hk)
      refine h.exchange.clear hdiag (hfirst _) hscale ?_
      rw [exchange_eq, Function.comp_apply, Equiv.swap_apply_left]
      exact h.pivot_ne_zero hunit hdiag
  simpa [take_of_length_le] using h n le_rfl

/-- The reduced rows give the solution for every right-hand side. -/
theorem Reduced.solves (h : Reduced diag matrix right n aug) (x : Fin n → ℚ) (b : Fin m → ℚ) :
    matrix *ᵥ x = right *ᵥ b ↔
      ∀ r, aug r (.castAdd m r) * x r = ∑ j, aug r (.natAdd n j) * b j := by
  have haug : ∀ r, aug r ⬝ᵥ Fin.append x (-b) =
      aug r (.castAdd m r) * x r - ∑ j, aug r (.natAdd n j) * b j := by
    intro r
    rw [dotProduct_append, Fintype.sum_eq_single r fun c hc => by
      rw [h.zero c r c.isLt (Ne.symm hc), zero_mul]]
    simp [sub_eq_add_neg]
  rw [← sub_eq_zero, sub_eq_add_neg, ← mulVec_neg, ← h.equations]
  simp only [haug, sub_eq_zero]

end Column

section Results
variable {matrix : Matrix (Fin n) (Fin n) ℚ}

/-- The solver reduces column after column. -/
theorem solve_eq (matrix : Matrix (Fin n) (Fin n) ℚ) (rhs : Fin n → ℚ) :
    solve matrix rhs = some fun i =>
      let aug := (finRange n).foldl (reduce Fin.val fun _ => 1)
        (augmented matrix (.of fun i (_ : Fin 1) => rhs i))
      let diag := aug i (.castAdd 1 i)
      if diag ≠ 0 then aug i (.natAdd n 0) / diag else 0 := by
  rw [solve, funext₂ solveColumn_eq]
  simp only [← Option.pure_def, foldlM_pure, pure_bind]
  refine foldlM_rows fun out i _ _ => ?_
  split
  · rename_i hdiag
    rw [quot, if_neg hdiag]
    rfl
  · rfl

/-- The right block when the columns are through. -/
def inverse (matrix : Matrix (Fin n) (Fin n) ℚ) : Matrix (Fin n) (Fin n) ℚ :=
  .of fun i j => (List.finRange n).foldl (reduce (fun _ => 0) (1 / ·)) (augmented matrix 1) i
    (.natAdd n j)

theorem invert_eq (matrix : Matrix (Fin n) (Fin n) ℚ) : invert matrix = some (inverse matrix) := by
  rw [invert, funext₂ invertColumn_eq]
  simp only [← Option.pure_def, foldlM_pure, pure_bind]
  rfl

/-- **The solver finds the one solution.** -/
theorem solve_iff (h : IsUnit matrix) (rhs x : Fin n → ℚ) :
    solve matrix rhs = some x ↔ matrix *ᵥ x = rhs := by
  have hright : (Matrix.of fun i (_ : Fin 1) => rhs i) *ᵥ 1 = rhs := by
    funext i
    simp [mulVec, dotProduct]
  have hreduced : Reduced (· ≠ 0) matrix (.of fun i (_ : Fin 1) => rhs i) n
      ((finRange n).foldl (reduce Fin.val fun _ => 1) _) :=
    reduced_foldl h (fun _ => id) (fun _ => le_rfl) (by simp)
  have hsolves := hreduced.solves x 1
  rw [hright] at hsolves
  rw [solve_eq, some_inj, hsolves, funext_iff]
  refine forall_congr' fun i => ?_
  have hdiag := hreduced.diag i i.isLt
  simp only [if_pos hdiag, div_eq_iff hdiag]
  simp [eq_comm, mul_comm]

theorem mul_inverse (h : IsUnit matrix) : matrix * inverse matrix = 1 := by
  have hreduced : Reduced (· = 1) matrix (1 : Matrix _ (Fin n) ℚ) n
      ((finRange n).foldl (reduce (fun _ => 0) (1 / ·)) _) :=
    reduced_foldl h (by simp) (fun _ => Nat.zero_le _) fun x hx => one_div_mul_cancel hx
  refine ext_iff_mulVec.mpr fun b => ?_
  rw [← mulVec_mulVec]
  refine (hreduced.solves _ b).mpr fun r => ?_
  rw [hreduced.diag r r.isLt, one_mul]
  rfl

/-- Both solvers always end; on an invertible matrix they give the one solution and the
inverse, in whatever order the rows come. -/
theorem elimination_solves (matrix : Matrix (Fin n) (Fin n) ℚ) :
    (∀ rhs, ∃ x, solve matrix rhs = some x) ∧ (∃ N, invert matrix = some N) ∧
      (IsUnit matrix →
        (∀ rhs x, solve matrix rhs = some x ↔ matrix *ᵥ x = rhs) ∧
        (∀ N, invert matrix = some N ↔ matrix * N = 1 ∧ N * matrix = 1) ∧
        ∀ σ : Equiv.Perm (Fin n),
          (∀ rhs, solve (matrix.submatrix σ id) (rhs ∘ σ) = solve matrix rhs) ∧
          invert (matrix.submatrix σ id) = (invert matrix).map fun N => N.submatrix id σ) := by
  refine ⟨fun rhs => ⟨_, solve_eq matrix rhs⟩, ⟨_, invert_eq matrix⟩, fun h => ⟨solve_iff h,
    fun N => ?_, fun σ => ?_⟩⟩
  · have hmul := mul_inverse h
    rw [invert_eq, Option.some_inj, and_iff_left_of_imp mul_eq_one_comm.mp]
    exact ⟨fun heq => heq ▸ hmul, fun hN => h.mul_left_cancel (hmul.trans hN.symm)⟩
  · have hσ : IsUnit (matrix.submatrix σ id) := (isUnit_submatrix_equiv σ (Equiv.refl _)).mpr h
    refine ⟨fun rhs => ?_, ?_⟩
    · rw [solve_eq matrix, solve_iff hσ]
      funext i
      exact congrFun ((solve_iff h rhs _).mp (solve_eq matrix rhs)) (σ i)
    · rw [invert_eq, invert_eq, Option.map_some, Option.some_inj]
      refine hσ.mul_left_cancel ((mul_inverse hσ).trans ?_)
      rw [← submatrix_mul _ _ _ _ _ Function.bijective_id, mul_inverse h, submatrix_one_equiv]

theorem elimination_solves_exchange :
    let exchange : Matrix (Fin 2) (Fin 2) ℚ := .of fun i j => if i = j then 0 else 1
    invert exchange = some exchange := by
  intro exchange
  have hmul : exchange * exchange = 1 := by
    ext i j
    fin_cases i <;> fin_cases j <;> simp [exchange, mul_apply, Fin.sum_univ_two]
  exact (((elimination_solves exchange).2.2 ⟨⟨_, _, hmul, hmul⟩, rfl⟩).2.1 exchange).mpr
    ⟨hmul, hmul⟩

end Results
end Zicato.LinearSolve
