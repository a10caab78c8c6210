import Mathlib.Data.List.Basic
import Mathlib.Data.Nat.Digits.Defs

/-! # Matchup ids

The structures build an id from a label, a stage and a slot.  The decimal
numerals carry no separator, so stage and slot can be read back. -/
namespace Zicato

theorem notMem_toDigits {c : Char} (hc : c.isDigit = false) (n : Nat) :
    c ∉ Nat.toDigits 10 n := by
  intro h
  rw [Nat.isDigit_of_mem_toDigits (by decide) (by decide) h] at hc
  cases hc

variable {a b a' b' : Nat}

theorem toDigits_inj (h : Nat.toDigits 10 a = Nat.toDigits 10 b) : a = b := by
  rw [← Nat.ofDigitChars_ten_toDigits (n := a), h, Nat.ofDigitChars_ten_toDigits]

/-- Two numerals joined by a separator determine both numbers. -/
theorem numerals_inj (c : Char) (sep : List Char) (hc : c.isDigit = false) (hs : c ∉ sep)
    (h : Nat.toDigits 10 a ++ c :: (sep ++ Nat.toDigits 10 b) =
      Nat.toDigits 10 a' ++ c :: (sep ++ Nat.toDigits 10 b')) : a = a' ∧ b = b' := by
  have hb : c ∉ sep ++ Nat.toDigits 10 b := by simp [hs, notMem_toDigits hc]
  obtain ⟨h1, -, h3⟩ := (List.append_cons_inj_of_notMem (notMem_toDigits hc a) hb).mp h
  exact ⟨toDigits_inj h1, toDigits_inj (List.append_cancel_left h3)⟩

/-- `f"{label}-R{stage}-{slot}"`, the node ids of the elimination brackets. -/
def bracketId (label : String) (stage slot : Nat) : String := s!"{label}-R{stage}-{slot}"

/-- `f"r{stage}_m{slot}"`, the ids of a Swiss round. -/
def swissId (stage slot : Nat) : String := s!"r{stage}_m{slot}"

/-- `f"rung{rung}_m{slot}"`, the ids of a racing rung. -/
def rungId (rung slot : Nat) : String := s!"rung{rung}_m{slot}"

theorem toList_bracketId (label : String) (stage slot : Nat) :
    (bracketId label stage slot).toList =
      label.toList ++ '-' :: 'R' :: (Nat.toDigits 10 stage ++ '-' :: Nat.toDigits 10 slot) := by
  simp [bracketId, String.toList_append, Nat.toList_repr, toString]

theorem toList_swissId (stage slot : Nat) :
    (swissId stage slot).toList =
      'r' :: (Nat.toDigits 10 stage ++ '_' :: 'm' :: Nat.toDigits 10 slot) := by
  simp [swissId, String.toList_append, Nat.toList_repr, toString]

theorem toList_rungId (stage slot : Nat) :
    (rungId stage slot).toList =
      'r' :: 'u' :: 'n' :: 'g' ::
        (Nat.toDigits 10 stage ++ '_' :: 'm' :: Nat.toDigits 10 slot) := by
  simp [rungId, String.toList_append, Nat.toList_repr, toString]

theorem bracketId_inj {label : String} (h : bracketId label a b = bracketId label a' b') :
    a = a' ∧ b = b' := by
  have hl := congrArg String.toList h
  simp only [toList_bracketId] at hl
  have ht := List.append_cancel_left hl
  simp only [List.cons.injEq, true_and] at ht
  exact numerals_inj '-' [] (by decide) (by simp) (by simpa using ht)

theorem swissId_inj (h : swissId a b = swissId a' b') : a = a' ∧ b = b' := by
  have hl := congrArg String.toList h
  simp only [toList_swissId, List.cons.injEq, true_and] at hl
  exact numerals_inj '_' ['m'] (by decide) (by decide) (by simpa using hl)

theorem rungId_inj (h : rungId a b = rungId a' b') : a = a' ∧ b = b' := by
  have hl := congrArg String.toList h
  simp only [toList_rungId, List.cons.injEq, true_and] at hl
  exact numerals_inj '_' ['m'] (by decide) (by decide) (by simpa using hl)

/-- `s.startswith(p)`. -/
def startswith (s p : String) : Bool := p.toList.isPrefixOf s.toList

theorem startswith_wb (a b : Nat) : startswith (bracketId "WB" a b) "WB-" = true := by
  simp [startswith, toList_bracketId]

theorem startswith_lb (a b : Nat) : startswith (bracketId "LB" a b) "WB-" = false := by
  simp [startswith, toList_bracketId, List.isPrefixOf]

end Zicato
