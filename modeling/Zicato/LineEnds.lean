import Zicato.Lines
import Zicato.Splice

/-! # Lines with several ends

How `splitEnds` goes along a list, and what it makes of the same list under two
notions of a line end: the finer one has the longer list of lines, and both agree
as far as no end of the finer one alone has been met. -/
open List
namespace Zicato.Lines

open Splice

variable {α : Type} [DecidableEq α]

/-- A list in front of the first of some lines. -/
def prepend (x : List α) : List (List α) → List (List α)
  | [] => if x = [] then [] else [x]
  | line :: lines => (x ++ line) :: lines

example : prepend [1] [[2], [3]] = [[1, 2], [3]] := by decide +kernel

variable {first second : α} {ends : α → Bool}

theorem splitEnds_pair (l : List α) :
    splitEnds first second ends (first :: second :: l) =
      [first, second] :: splitEnds first second ends l := by
  rw [splitEnds, if_pos ⟨rfl, rfl⟩]

variable {l x y : List α}

theorem splitEnds_end {a : α} (hpair : ¬ (a = first ∧ l.head? = some second)) (ha : ends a = true) :
    splitEnds first second ends (a :: l) = [a] :: splitEnds first second ends l := by
  cases l with
  | nil => rfl
  | cons b l =>
    have hne : ¬ (a = first ∧ b = second) := by simpa using hpair
    rw [splitEnds, if_neg hne, if_pos ha]

theorem splitEnds_inner {a : α} (hpair : ¬ (a = first ∧ l.head? = some second))
    (ha : ends a = false) :
    splitEnds first second ends (a :: l) = prepend [a] (splitEnds first second ends l) := by
  cases l with
  | nil => rfl
  | cons b l =>
    have hne : ¬ (a = first ∧ b = second) := by simpa using hpair
    rw [splitEnds, if_neg hne, if_neg (by simp [ha])]
    cases splitEnds first second ends (b :: l) <;> rfl

/-- Induction along the lines: a pair that ends one, or one element. -/
theorem splitEnds_induction {P : List α → Prop} (first second : α) (nil : P [])
    (pair : ∀ l, P l → P (first :: second :: l))
    (step : ∀ a l, ¬ (a = first ∧ l.head? = some second) → P l → P (a :: l)) (l : List α) :
    P l := by
  induction hn : l.length using Nat.strong_induction_on generalizing l with
  | _ n ih =>
    cases l with
    | nil => exact nil
    | cons a l =>
      rw [length_cons] at hn
      by_cases hpair : a = first ∧ l.head? = some second
      · obtain ⟨rfl, hhead⟩ := hpair
        cases l with
        | nil => simp at hhead
        | cons b l =>
          obtain rfl : b = second := by simpa using hhead
          rw [length_cons] at hn
          exact pair l (ih l.length (by omega) l rfl)
      · exact step a l hpair (ih l.length (by omega) l rfl)

omit [DecidableEq α] in
theorem prepend_append (x y : List α) (lines : List (List α)) :
    prepend (x ++ y) lines = prepend x (prepend y lines) := by
  cases lines with
  | nil =>
    by_cases hy : y = []
    · simp [prepend, hy]
    · simp [prepend, hy]
  | cons line lines => simp [prepend]

theorem splitEnds_ne_nil (first second : α) (ends : α → Bool) (h : l ≠ []) :
    splitEnds first second ends l ≠ [] := by
  intro hnil
  have hflat := flatten_splitEnds first second ends l
  rw [hnil] at hflat
  exact h hflat.symm

/-- Elements that end no line go to the line behind them. -/
theorem splitEnds_append (h : ∀ a ∈ x, ends a = false ∧ a ≠ first) :
    splitEnds first second ends (x ++ l) = prepend x (splitEnds first second ends l) := by
  induction x with
  | nil =>
    rw [nil_append]
    cases splitEnds first second ends l with
    | nil => rfl
    | cons line lines => rfl
  | cons a x ih =>
    obtain ⟨ha, hx⟩ := forall_mem_cons.mp h
    rw [cons_append, splitEnds_inner (fun hpair => ha.2 hpair.1) ha.1, ih hx,
      ← prepend_append, singleton_append]

/-- A line ends between two lists. -/
def Cut (first second : α) (ends : α → Bool) (x y : List α) : Prop :=
  x = [] ∨ ∃ body a, x = body ++ [a] ∧ ends a = true ∧ ¬ (a = first ∧ y.head? = some second)

section
omit [DecidableEq α]
theorem Cut.tail {a b : α} (h : Cut first second ends (a :: b :: x) y) :
    Cut first second ends (b :: x) y := by
  obtain h | ⟨body, c, heq, hends, hne⟩ := h
  · cases h
  · cases body with
    | nil => simp at heq
    | cons d body =>
      rw [cons_append, List.cons.injEq] at heq
      exact .inr ⟨body, c, heq.2, hends, hne⟩

theorem Cut.last {a : α} (h : Cut first second ends [a] y) :
    ends a = true ∧ ¬ (a = first ∧ y.head? = some second) := by
  obtain h | ⟨body, c, heq, hc, hcf⟩ := h
  · cases h
  · obtain ⟨rfl, rfl⟩ : body = [] ∧ a = c := by
      cases body with
      | nil => simpa using heq
      | cons d body => simp at heq
    exact ⟨hc, hcf⟩

theorem Cut.of_head? {z : List α} (h : Cut first second ends x y) (hhead : z.head? = y.head?) :
    Cut first second ends x z := by
  rw [Cut, hhead]
  exact h

end

/-- Where a line ends the lines before and behind are lines of their own. -/
theorem splitEnds_cut (h : Cut first second ends x y) :
    splitEnds first second ends (x ++ y) =
      splitEnds first second ends x ++ splitEnds first second ends y := by
  induction x using splitEnds_induction first second with
  | nil => rfl
  | pair l ih =>
    have hl : Cut first second ends l y := by
      cases l with
      | nil => exact .inl rfl
      | cons a l => exact h.tail.tail
    rw [cons_append, cons_append, splitEnds_pair, splitEnds_pair, ih hl, cons_append]
  | step a l hpair ih =>
    cases l with
    | nil =>
      obtain ⟨ha, hay⟩ := h.last
      rw [singleton_append, splitEnds_end hay ha, splitEnds_end (by simp) ha]
      rfl
    | cons b l =>
      have hpair' : ¬ (a = first ∧ (b :: l ++ y).head? = some second) := by simpa using hpair
      rw [cons_append]
      by_cases ha : ends a = true
      · rw [splitEnds_end hpair' ha, splitEnds_end hpair ha, ih h.tail, cons_append]
      · have ha : ends a = false := by simpa using ha
        rw [splitEnds_inner hpair' ha, splitEnds_inner hpair ha, ih h.tail]
        cases hlines : splitEnds first second ends (b :: l) with
        | nil => exact absurd hlines (splitEnds_ne_nil first second ends (cons_ne_nil b l))
        | cons line lines => rfl

/-- A list of whole lines: it is empty, or its last element ends a line. -/
def Whole (first : α) (ends : α → Bool) (x : List α) : Prop :=
  x = [] ∨ ∃ body a, x = body ++ [a] ∧ ends a = true ∧ a ≠ first

omit [DecidableEq α] in
theorem Whole.cut (h : Whole first ends x) (y : List α) : Cut first second ends x y := by
  obtain h | ⟨body, a, heq, ha, hne⟩ := h
  · exact .inl h
  · exact .inr ⟨body, a, heq, ha, fun hp => hne hp.1⟩

/-- The first lines are lines of their own. -/
theorem splitEnds_take (l : List α) (k : Nat) :
    splitEnds first second ends ((splitEnds first second ends l).take k).flatten =
      (splitEnds first second ends l).take k := by
  induction l using splitEnds_induction first second generalizing k with
  | nil => simp [splitEnds]
  | pair l ih =>
    rw [splitEnds_pair]
    cases k with
    | zero => rfl
    | succ k =>
      rw [take_succ_cons, flatten_cons, cons_append, singleton_append,
        splitEnds_pair, ih]
  | step a l hpair ih =>
    have hpref : ∀ k, ¬ (a = first ∧
        ((splitEnds first second ends l).take k).flatten.head? = some second) := by
      rintro k ⟨ha, hhead⟩
      refine hpair ⟨ha, ?_⟩
      have hsplit := congrArg flatten (take_append_drop k (splitEnds first second ends l))
      rw [flatten_splitEnds, flatten_append] at hsplit
      rw [← hsplit, head?_append, hhead]
      rfl
    by_cases ha : ends a = true
    · rw [splitEnds_end hpair ha]
      cases k with
      | zero => rfl
      | succ k =>
        rw [take_succ_cons, flatten_cons, singleton_append,
          splitEnds_end (hpref k) ha, ih]
    · have ha : ends a = false := by simpa using ha
      cases k with
      | zero => rfl
      | succ k =>
        have hinner := splitEnds_inner (hpref (k + 1)) ha
        rw [ih (k + 1)] at hinner
        rw [splitEnds_inner hpair ha]
        cases hlines : splitEnds first second ends l with
        | nil => simp [prepend, splitEnds]
        | cons line lines =>
          rw [hlines] at hinner
          exact hinner

/-- The last lines are lines of their own. -/
theorem splitEnds_drop (l : List α) (k : Nat) :
    splitEnds first second ends ((splitEnds first second ends l).drop k).flatten =
      (splitEnds first second ends l).drop k := by
  cases k with
  | zero => rw [drop_zero, flatten_splitEnds]
  | succ k =>
    induction l using splitEnds_induction first second generalizing k with
    | nil => simp [splitEnds]
    | pair l ih =>
      rw [splitEnds_pair, drop_succ_cons]
      cases k with
      | zero => rw [drop_zero, flatten_splitEnds]
      | succ k => exact ih k
    | step a l hpair ih =>
      by_cases ha : ends a = true
      · rw [splitEnds_end hpair ha, drop_succ_cons]
        cases k with
        | zero => rw [drop_zero, flatten_splitEnds]
        | succ k => exact ih k
      · have ha : ends a = false := by simpa using ha
        have hrest := ih k
        rw [splitEnds_inner hpair ha]
        cases hlines : splitEnds first second ends l with
        | nil => simp [prepend, splitEnds]
        | cons line lines =>
          rw [hlines] at hrest
          exact hrest

/-- No piece is empty. -/
theorem ne_nil_of_mem_splitEnds {line : List α} (h : line ∈ splitEnds first second ends l) :
    line ≠ [] := by
  induction l using splitEnds_induction first second generalizing line with
  | nil => simp [splitEnds] at h
  | pair l ih =>
    rw [splitEnds_pair] at h
    rcases mem_cons.mp h with rfl | h
    · exact cons_ne_nil _ _
    · exact ih h
  | step a l hpair ih =>
    by_cases ha : ends a = true
    · rw [splitEnds_end hpair ha] at h
      rcases mem_cons.mp h with rfl | h
      · exact cons_ne_nil _ _
      · exact ih h
    · have ha : ends a = false := by simpa using ha
      rw [splitEnds_inner hpair ha] at h
      cases hlines : splitEnds first second ends l with
      | nil =>
        rw [hlines] at h
        obtain rfl : line = [a] := by simpa [prepend] using h
        exact cons_ne_nil _ _
      | cons head lines =>
        rw [hlines] at h
        rcases mem_cons.mp h with rfl | h
        · exact cons_ne_nil _ _
        · exact ih (by rw [hlines]; exact mem_cons_of_mem _ h)

/-- Between two lines there is an end. -/
theorem cut_take (hsecond : ends second = true) (hne : first ≠ second) {k : Nat}
    (hk : k < (splitEnds first second ends l).length) :
    Cut first second ends ((splitEnds first second ends l).take k).flatten
      ((splitEnds first second ends l).drop k).flatten := by
  induction l using splitEnds_induction first second generalizing k with
  | nil => exact .inl (by simp [splitEnds])
  | pair l ih =>
    rw [splitEnds_pair] at hk ⊢
    cases k with
    | zero => exact .inl rfl
    | succ k =>
      rw [take_succ_cons, drop_succ_cons, flatten_cons]
      rcases ih (Nat.lt_of_succ_lt_succ hk) with hnil | ⟨body, a, heq, ha, hay⟩
      · exact .inr ⟨[first], second, by rw [hnil]; rfl, hsecond, fun h => hne h.1.symm⟩
      · exact .inr ⟨first :: second :: body, a, by rw [heq]; rfl, ha, hay⟩
  | step a l hpair ih =>
    by_cases ha : ends a = true
    · rw [splitEnds_end hpair ha] at hk ⊢
      cases k with
      | zero => exact .inl rfl
      | succ k =>
        rw [take_succ_cons, drop_succ_cons, flatten_cons]
        rcases ih (Nat.lt_of_succ_lt_succ hk) with hnil | ⟨body, c, heq, hc, hcy⟩
        · refine .inr ⟨[], a, by rw [hnil]; rfl, ha, fun h => hpair ⟨h.1, ?_⟩⟩
          have hsplit := congrArg flatten (take_append_drop k (splitEnds first second ends l))
          rw [flatten_splitEnds, flatten_append, hnil, nil_append] at hsplit
          rw [← hsplit]
          exact h.2
        · exact .inr ⟨a :: body, c, by rw [heq]; rfl, hc, hcy⟩
    · have ha : ends a = false := by simpa using ha
      rw [splitEnds_inner hpair ha] at hk ⊢
      cases k with
      | zero => exact .inl rfl
      | succ k =>
        cases hlines : splitEnds first second ends l with
        | nil =>
          rw [hlines] at hk
          simp [prepend] at hk
        | cons line lines =>
          rw [hlines] at hk
          have hrest := ih (k := k + 1) (by rw [hlines]; exact hk)
          rw [hlines] at hrest
          have hline : line ≠ [] :=
            ne_nil_of_mem_splitEnds (l := l) (by rw [hlines]; exact mem_cons_self)
          rcases hrest with hnil | ⟨body, c, heq, hc, hcy⟩
          · rw [take_succ_cons, flatten_cons] at hnil
            exact absurd (append_eq_nil_iff.mp hnil).1 hline
          · exact .inr ⟨a :: body, c, congrArg (a :: ·) heq, hc, hcy⟩

/-- Every occurrence of an end is in a line of its own. -/
theorem count_le_length_splitEnds (hsecond : ends second = true) (l : List α) (hne : first ≠ second) :
    l.count second ≤ (splitEnds first second ends l).length := by
  induction l using splitEnds_induction first second with
  | nil => simp
  | pair l ih =>
    rw [splitEnds_pair, count_cons_of_ne hne, count_cons_self, length_cons]
    exact Nat.succ_le_succ ih
  | step a l hpair ih =>
    by_cases ha : ends a = true
    · rw [splitEnds_end hpair ha, length_cons, count_cons]
      split
      · exact Nat.succ_le_succ ih
      · exact Nat.le_succ_of_le ih
    · have ha : ends a = false := by simpa using ha
      have has : a ≠ second := by
        rintro rfl
        rw [hsecond] at ha
        cases ha
      rw [splitEnds_inner hpair ha, count_cons_of_ne has]
      refine Nat.le_trans ih ?_
      cases splitEnds first second ends l with
      | nil => exact Nat.zero_le _
      | cons line lines => exact Nat.le_refl _

section
omit [DecidableEq α]
theorem offset_cons (line : List α) (lines : List (List α)) (k : Nat) :
    offset (line :: lines) (k + 1) = line.length + offset lines k := by
  simp [offset]

theorem offset_prepend (a : α) {lines : List (List α)} (h : lines ≠ []) (k : Nat) :
    offset (prepend [a] lines) (k + 1) = 1 + offset lines (k + 1) := by
  cases lines with
  | nil => exact absurd rfl h
  | cons line lines => simp [prepend, offset]; omega

end

variable {finer : α → Bool}

/-- With more ends the lines are no longer. -/
theorem offset_splitEnds_le (hfiner : ∀ a, ends a = true → finer a = true) (l : List α) (k : Nat) :
    offset (splitEnds first second finer l) k ≤ offset (splitEnds first second ends l) k := by
  induction l using splitEnds_induction first second generalizing k with
  | nil => simp [splitEnds]
  | pair l ih =>
    cases k with
    | zero => simp
    | succ k =>
      rw [splitEnds_pair, splitEnds_pair, offset_cons, offset_cons]
      exact Nat.add_le_add_left (ih k) _
  | step a l hpair ih =>
    cases k with
    | zero => simp
    | succ k =>
      by_cases hl : l = []
      · subst hl
        simp [splitEnds]
      · by_cases ha : ends a = true
        · rw [splitEnds_end hpair ha, splitEnds_end hpair (hfiner a ha), offset_cons, offset_cons]
          exact Nat.add_le_add_left (ih k) _
        · have ha : ends a = false := by simpa using ha
          rw [splitEnds_inner hpair ha, offset_prepend a (splitEnds_ne_nil _ _ _ hl)]
          by_cases hf : finer a = true
          · rw [splitEnds_end hpair hf, offset_cons, length_singleton]
            have hmono := offset_mono (splitEnds first second ends l) (Nat.le_add_right k 1)
            have := ih k
            omega
          · have hf : finer a = false := by simpa using hf
            rw [splitEnds_inner hpair hf, offset_prepend a (splitEnds_ne_nil _ _ _ hl)]
            have := ih (k + 1)
            omega

/-- The lines of the finer notion reach as far as only the last element can be an
end that the other one does not know. -/
theorem le_offset_splitEnds (hfiner : ∀ a, ends a = true → finer a = true) {k n : Nat}
    (hn : n ≤ offset (splitEnds first second ends l) k)
    (h : ∀ i a, i + 1 < n → l[i]? = some a → finer a = true → ends a = true) :
    n ≤ offset (splitEnds first second finer l) k := by
  induction l using splitEnds_induction first second generalizing k n with
  | nil => simpa [splitEnds] using hn
  | pair l ih =>
    cases k with
    | zero => simpa using hn
    | succ k =>
      rw [splitEnds_pair, offset_cons] at hn ⊢
      have hrest : n - 2 ≤ offset (splitEnds first second finer l) k := by
        refine ih ?_ fun i a hi ha => h (i + 2) a (by omega) (by simpa using ha)
        simp only [length_cons, length_nil] at hn
        omega
      simp only [length_cons, length_nil]
      omega
  | step a l hpair ih =>
    cases k with
    | zero => simpa using hn
    | succ k =>
      have htail : ∀ i b, i + 1 < n - 1 → l[i]? = some b → finer b = true → ends b = true :=
        fun i b hi hb => h (i + 1) b (by omega) (by simpa using hb)
      by_cases hl : l = []
      · subst hl
        simpa [splitEnds] using hn
      · by_cases ha : ends a = true
        · rw [splitEnds_end hpair ha, offset_cons, length_singleton] at hn
          rw [splitEnds_end hpair (hfiner a ha), offset_cons, length_singleton]
          have hrest := ih (k := k) (n := n - 1) (by omega) htail
          omega
        · have ha : ends a = false := by simpa using ha
          rw [splitEnds_inner hpair ha, offset_prepend a (splitEnds_ne_nil _ _ _ hl)] at hn
          by_cases hf : finer a = true
          · -- an end of the finer notion alone can only be the last element
            rw [splitEnds_end hpair hf, offset_cons, length_singleton]
            have hlast : ¬ 1 < n := fun hlt => absurd (h 0 a (by omega) rfl hf) (by simp [ha])
            omega
          · have hf : finer a = false := by simpa using hf
            rw [splitEnds_inner hpair hf, offset_prepend a (splitEnds_ne_nil _ _ _ hl)]
            have hrest := ih (k := k + 1) (n := n - 1) (by omega) htail
            omega

end Zicato.Lines
