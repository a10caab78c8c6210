import Mathlib.Algebra.GroupWithZero.Nat
import Mathlib.Data.List.DropRight

/-! # Lines of a byte string

Splitting at a separator, with the separator dropped (`split`) or kept at the
end of each piece (`splitInclusive`), and what both make of a text built piece
by piece. -/
open List
namespace Zicato.Lines

/-- What holds of every member of a list is decided member by member, also where the type has
finitely many values. -/
instance (priority := high) decidableForallMem {α : Type} (p : α → Prop) [DecidablePred p]
    (l : List α) : Decidable (∀ a ∈ l, p a) :=
  List.decidableBAll p l

variable {α : Type} [DecidableEq α]

/-- The pieces of a list without their separators; there is always a last one. -/
def split (sep : α) (l : List α) : List (List α) := l.splitOnP (· == sep)

/-- The pieces of a list, each with the separator that ends it; a last piece
without one is kept, an empty one is not. -/
def splitInclusive (sep : α) : List α → List (List α)
  | [] => []
  | b :: bs =>
      if b = sep then [b] :: splitInclusive sep bs
      else
        match splitInclusive sep bs with
        | [] => [[b]]
        | piece :: rest => (b :: piece) :: rest

/-- The text of `pieces`, each ended by the separator. -/
def text (sep : α) (pieces : List (List α)) : List α := pieces.flatMap (· ++ [sep])

variable {sep : α} {l piece : List α} {pieces : List (List α)}

theorem split_piece (h : sep ∉ piece) (rest : List α) :
    split sep (piece ++ sep :: rest) = piece :: split sep rest := by
  refine splitOnP_append_cons_of_forall_mem (fun b hb => ?_) sep (by simp) rest
  simpa using fun he : b = sep => h (he ▸ hb)

theorem split_last (h : sep ∉ l) : split sep l = [l] := by
  refine splitOnP_eq_singleton fun b hb => ?_
  simpa using fun he : b = sep => h (he ▸ hb)

/-- A separator ends a piece, whatever stands before it. -/
theorem split_append (l rest : List α) :
    split sep (l ++ sep :: rest) = split sep l ++ split sep rest := by
  induction l with
  | nil => exact split_piece (not_mem_nil) rest
  | cons a l ih =>
    rw [split, cons_append, splitOnP_cons_eq_if_modifyHead, split, split,
      splitOnP_cons_eq_if_modifyHead, ← split, ih]
    have hne : split sep l ≠ [] := splitOnP_ne_nil _ _
    by_cases ha : (a == sep) = true
    · rw [if_pos ha, if_pos ha]
      rfl
    · rw [if_neg ha, if_neg ha]
      obtain ⟨line, lines, hcons⟩ := exists_cons_of_ne_nil hne
      rw [hcons, ← split, hcons]
      rfl

/-- The pieces of a text are the pieces it was built from, and what follows. -/
theorem split_text (h : ∀ p ∈ pieces, sep ∉ p) (rest : List α) :
    split sep (text sep pieces ++ rest) = pieces ++ split sep rest := by
  induction pieces with
  | nil => rfl
  | cons p pieces ih =>
    have hp : sep ∉ p := h p (by simp)
    have hrest : ∀ q ∈ pieces, sep ∉ q := fun q hq => h q (by simp [hq])
    rw [text, flatMap_cons, List.append_assoc, List.append_assoc, singleton_append,
      split_piece hp, cons_append, ← ih hrest, text]

theorem splitInclusive_piece (h : sep ∉ piece) (rest : List α) :
    splitInclusive sep (piece ++ sep :: rest) = (piece ++ [sep]) :: splitInclusive sep rest := by
  induction piece with
  | nil => simp [splitInclusive]
  | cons b piece ih =>
    have hb : ¬ b = sep := fun he => h (by simp [he])
    have hpiece : sep ∉ piece := fun hm => h (by simp [hm])
    simp only [cons_append, splitInclusive, if_neg hb, ih hpiece]

theorem splitInclusive_last (h : sep ∉ l) (hl : l ≠ []) : splitInclusive sep l = [l] := by
  induction l with
  | nil => exact absurd rfl hl
  | cons b l ih =>
    have hb : ¬ b = sep := fun he => h (by simp [he])
    have hrest : sep ∉ l := fun hm => h (by simp [hm])
    cases l with
    | nil => simp [splitInclusive, hb]
    | cons c l =>
      rw [splitInclusive, if_neg hb, ih hrest (by simp)]

theorem splitInclusive_text (h : ∀ p ∈ pieces, sep ∉ p) (rest : List α) :
    splitInclusive sep (text sep pieces ++ rest) =
      pieces.map (· ++ [sep]) ++ splitInclusive sep rest := by
  induction pieces with
  | nil => rfl
  | cons p pieces ih =>
    have hp : sep ∉ p := h p (by simp)
    have hrest : ∀ q ∈ pieces, sep ∉ q := fun q hq => h q (by simp [hq])
    rw [text, flatMap_cons, List.append_assoc, List.append_assoc, singleton_append,
      splitInclusive_piece hp, map_cons, cons_append, ← ih hrest, text]

/-- The pieces with their separators are the whole list. -/
theorem flatten_splitInclusive (l : List α) : (splitInclusive sep l).flatten = l := by
  induction l with
  | nil => rfl
  | cons b l ih =>
    rw [splitInclusive]
    split
    · simp [ih]
    · split
      · rename_i h
        rw [h] at ih
        simpa using ih
      · rename_i h
        rw [h] at ih
        simpa using ih

omit [DecidableEq α] in
@[simp] theorem text_nil : text sep ([] : List (List α)) = [] := rfl

omit [DecidableEq α] in
theorem text_concat (pieces : List (List α)) (p : List α) :
    text sep (pieces ++ [p]) = text sep pieces ++ (p ++ [sep]) := by
  simp [text]

/-! ## Several line ends

A line may end in any of several elements, and in one pair of them. -/

/-- The lines of a list, each with its end: `ends` ends a line, and `first`
followed by `second` is one end.  A last line without an end is kept. -/
def splitEnds (first second : α) (ends : α → Bool) : List α → List (List α)
  | [] => []
  | [a] => [[a]]
  | a :: b :: rest =>
      if a = first ∧ b = second then [a, b] :: splitEnds first second ends rest
      else if ends a then [a] :: splitEnds first second ends (b :: rest)
      else
        match splitEnds first second ends (b :: rest) with
        | [] => [[a]]
        | line :: lines => (a :: line) :: lines

/-- The lines with their ends are the whole list. -/
theorem flatten_splitEnds (first second : α) (ends : α → Bool) (l : List α) :
    (splitEnds first second ends l).flatten = l := by
  fun_induction splitEnds first second ends l with
  | case1 => rfl
  | case2 a => rfl
  | case3 a b rest h ih => simp [ih]
  | case4 a b rest h hend ih => simp [ih]
  | case5 a b rest h hend hnil ih =>
    rw [hnil] at ih
    simp [← ih]
  | case6 a b rest h hend line lines hcons ih =>
    rw [hcons] at ih
    simp [← ih]

/-! ## Fields joined by the separator -/

/-- The separators of a joined list. -/
theorem count_intercalate (fields : List (List α)) (h : fields ≠ []) :
    ([sep].intercalate fields).count sep + 1 =
      fields.length + (fields.map (List.count sep)).sum := by
  induction fields with
  | nil => exact absurd rfl h
  | cons f fields ih =>
    cases fields with
    | nil => simp [intercalate]; omega
    | cons g fields =>
      have hrest := ih (by simp)
      have hjoin : [sep].intercalate (f :: g :: fields) =
          f ++ ([sep] ++ [sep].intercalate (g :: fields)) := by
        simp [intercalate, intersperse]
      rw [hjoin, count_append, count_append, count_singleton_self,
        map_cons, sum_cons, length_cons]
      omega

/-- Joining loses nothing when one side's fields are free of the separator: the
other side has no separator to spare. -/
theorem intercalate_inj {fields others : List (List α)} (hlen : others.length = fields.length)
    (hfree : ∀ f ∈ fields, sep ∉ f)
    (heq : [sep].intercalate others = [sep].intercalate fields) : others = fields := by
  by_cases hnil : fields = []
  · rw [hnil] at hlen ⊢
    exact length_eq_zero_iff.mp hlen
  · have hnil' : others ≠ [] := by
      rintro rfl
      exact hnil (length_eq_zero_iff.mp hlen.symm)
    have hzero : (fields.map (List.count sep)).sum = 0 := by
      refine List.sum_eq_zero_iff_forall_eq_nat.mpr fun n hn => ?_
      obtain ⟨f, hf, rfl⟩ := mem_map.mp hn
      exact count_eq_zero.mpr (hfree f hf)
    have hcount : ([sep].intercalate fields).count sep + 1 = _ := count_intercalate fields hnil
    have hcount' : ([sep].intercalate others).count sep + 1 = _ := count_intercalate others hnil'
    have hzero' : (others.map (List.count sep)).sum = 0 := by
      rw [heq] at hcount'
      omega
    have hfree' : ∀ f ∈ others, sep ∉ f := by
      intro f hf
      have := List.sum_eq_zero_iff_forall_eq_nat.mp hzero' (f.count sep) (mem_map_of_mem hf)
      exact count_eq_zero.mp this
    rw [← splitOn_intercalate sep hfree hnil, ← splitOn_intercalate sep hfree' hnil',
      heq]

end Zicato.Lines
