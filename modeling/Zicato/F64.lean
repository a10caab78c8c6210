import Mathlib.Data.Rat.Floor

/-! # The doubles of a JSON record

A value is kept with its sign, so that two values are equal exactly when their
bits are (a `nan` has one pattern here); the comparison `==` of the program is
`F64.eq`, under which the two zeros agree and a `nan` agrees with nothing. -/
namespace Zicato

/-- A binary64 number: its sign and its exact magnitude. -/
inductive F64
  | nan
  | inf (neg : Bool)
  | fin (neg : Bool) (mag : NNRat)
  deriving DecidableEq

namespace F64

/-- The value of a finite double. -/
def value : F64 → Option Rat
  | fin neg mag => some (if neg then -mag.1 else mag.1)
  | _ => none

/-- `math.isfinite`. -/
def isFinite (x : F64) : Bool := x.value.isSome

/-- `x >= 0.0` -/
def nonneg : F64 → Bool
  | nan => false
  | inf neg => !neg
  | fin neg mag => decide (0 ≤ if neg then -mag.1 else mag.1)

/-- `x == y` -/
def eq : F64 → F64 → Bool
  | fin s a, fin s' b => decide ((if s then -a.1 else a.1) = if s' then -b.1 else b.1)
  | inf s, inf s' => s == s'
  | _, _ => false

/-- A tick count as a double; the counts stay in the range where this is exact. -/
def ofTicks (n : Nat) : F64 := fin false ⟨n, Nat.cast_nonneg n⟩

/-- `(2.0 * x).ceil() as u64`: doubling is exact up to an overflow, which the
cast clamps like any other value above the range; a `nan` is cast to zero. -/
def twiceCeil : F64 → Nat
  | nan => 0
  | inf neg => if neg then 0 else 2 ^ 64 - 1
  | fin neg mag => min (⌈2 * (if neg then -mag.1 else mag.1)⌉.toNat) (2 ^ 64 - 1)

theorem eq_ofTicks {x : F64} {n : Nat} : (ofTicks n).eq x = true ↔ x.value = some n := by
  cases x with
  | nan => simp [eq, ofTicks, value]
  | inf neg => simp [eq, ofTicks, value]
  | fin neg mag => simp [eq, ofTicks, value, eq_comm]

end F64
end Zicato
