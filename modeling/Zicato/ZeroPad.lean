import Mathlib.Data.List.Lex
import Mathlib.Algebra.Order.Ring.Nat

/-! # Zero-padded numbers

`f"{n:012d}"` and the like: names that start with a number of fixed width sort as
the numbers do, as long as the numbers fit the width. -/
open List
namespace Zicato

/-- The decimal digits of `n`, filled up with zeros to at least `width`. -/
def zeroPad (width n : Nat) : List Char :=
  List.replicate (width - (Nat.toDigits 10 n).length) '0' ++ Nat.toDigits 10 n

namespace ZeroPad
variable {width m n : Nat}

/-- The last `width` decimal digits of `n`. -/
def lastDigits : Nat → Nat → List Char
  | 0, _ => []
  | width + 1, n => lastDigits width (n / 10) ++ [Nat.digitChar (n % 10)]

theorem length_lastDigits (width n : Nat) : (lastDigits width n).length = width := by
  induction width generalizing n with
  | zero => rfl
  | succ width ih => rw [lastDigits, length_append, ih, length_singleton]

theorem lastDigits_zero (width : Nat) : lastDigits width 0 = List.replicate width '0' := by
  induction width with
  | zero => rfl
  | succ width ih =>
    rw [lastDigits, Nat.zero_div, ih, replicate_succ']
    rfl

/-- A number that fits its width is padded to exactly that width. -/
theorem zeroPad_eq_lastDigits (h : n < 10 ^ (width + 1)) :
    zeroPad (width + 1) n = lastDigits (width + 1) n := by
  induction width generalizing n with
  | zero =>
    have hn : n < 10 := by simpa using h
    simp [zeroPad, lastDigits, Nat.toDigits_of_lt_base hn, Nat.mod_eq_of_lt hn]
  | succ width ih =>
    by_cases hn : n < 10
    · rw [zeroPad, Nat.toDigits_of_lt_base hn, lastDigits, Nat.div_eq_of_lt hn,
        Nat.mod_eq_of_lt hn, lastDigits_zero]
      rfl
    · have hdiv : n / 10 < 10 ^ (width + 1) := by
        rw [pow_succ] at h
        omega
      rw [lastDigits, ← ih hdiv, zeroPad, zeroPad, Nat.toDigits_of_base_le (by decide) (by omega),
        length_append, length_singleton, ← List.append_assoc]
      congr 3
      omega

/-- The order of padded names is that of their numbers. -/
theorem append_lt_append {a b x y : List Char} (hlength : a.length = b.length) (h : a < b) :
    a ++ x < b ++ y := by
  induction a generalizing b with
  | nil =>
    cases b with
    | nil => exact absurd h (not_lt_nil _)
    | cons c b => cases hlength
  | cons c a ih =>
    cases b with
    | nil => cases hlength
    | cons d b =>
      rw [cons_lt_cons_iff] at h
      rw [cons_append, cons_append, cons_lt_cons_iff]
      refine h.imp_right fun ⟨hcd, hab⟩ => ⟨hcd, ih ?_ hab⟩
      simpa using hlength

theorem digitChar_lt : ∀ a < 10, ∀ b < 10, a < b → Nat.digitChar a < Nat.digitChar b := by
  decide

/-- Digits of one width are ordered as their numbers. -/
theorem lastDigits_lt (h : m < n) (hn : n < 10 ^ width) :
    lastDigits width m < lastDigits width n := by
  induction width generalizing m n with
  | zero =>
    rw [pow_zero] at hn
    omega
  | succ width ih =>
    rw [lastDigits, lastDigits]
    have hdiv : n / 10 < 10 ^ width := by
      rw [pow_succ] at hn
      omega
    rcases Nat.lt_or_ge (m / 10) (n / 10) with hlt | hge
    · exact append_lt_append (by rw [length_lastDigits, length_lastDigits]) (ih hlt hdiv)
    · have heq : m / 10 = n / 10 := le_antisymm (Nat.div_le_div_right h.le) hge
      have hmod : m % 10 < n % 10 := by omega
      rw [heq]
      refine append_left_lt ?_
      exact cons_lt_cons_iff.mpr (.inl (digitChar_lt _ (Nat.mod_lt _ (by decide)) _
        (Nat.mod_lt _ (by decide)) hmod))

/-- Names that start with padded numbers are ordered as these, whatever follows. -/
theorem zeroPad_append_lt {x y : List Char} (h : m < n) (hn : n < 10 ^ (width + 1)) :
    zeroPad (width + 1) m ++ x < zeroPad (width + 1) n ++ y := by
  rw [zeroPad_eq_lastDigits (h.trans hn), zeroPad_eq_lastDigits hn]
  exact append_lt_append (by rw [length_lastDigits, length_lastDigits]) (lastDigits_lt h hn)

end ZeroPad
end Zicato
