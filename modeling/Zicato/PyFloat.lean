import Mathlib.Algebra.Order.Ring.Unbundled.Rat

/-! # What the program uses of Python's `float`

A measured scalar is an IEEE double.  Its arithmetic rounds, and a comparison
with a `nan` is false, so a development that fixed one exact number type would
prove facts that the program does not have.  `PyFloat` names the operations the
program applies and states no law: a result proved over every `PyFloat` holds of
the doubles, `nan` and infinities included.  Where an argument needs the order
of finite values it takes `LawfulPyFloat`.

`Exact` is the instance with exact rational arithmetic.  It agrees with the
doubles wherever no operation rounds, which is what the concrete runs of this
development use it for. -/
namespace Zicato

/-- The `float` operations of the program: the literals it writes, the
comparisons it branches on and the arithmetic it performs. -/
class PyFloat (F : Type) where
  zero : F
  inf : F
  lt : F → F → Bool
  le : F → F → Bool
  eq : F → F → Bool
  isfinite : F → Bool
  /-- `float(n)`; an integer beyond the range raises. -/
  ofInt : Int → Option F
  add : F → F → F
  sub : F → F → F
  /-- `x / n` for a positive count `n`. -/
  divNat : F → Nat → F
  /-- `int(math.ceil(n * x))`. -/
  ceilMul : Nat → F → Int
  /-- `f"{x:.6f}"`. -/
  format6 : F → String

/-- The further operations of the promotion gate. -/
class PyArith (F : Type) extends PyFloat F where
  neg : F → F
  mul : F → F → F
  /-- The double nearest to a rational: a literal of the source, or a quotient of
  two integers. -/
  lit : Rat → F
  /-- `int(x)` of a finite `x`. -/
  trunc : F → Int
  /-- `format(x, spec)`. -/
  format : String → F → String

/-- Finite doubles are totally preordered by `<=`; `0.0` and `-0.0` are equal
under it and yet two values, so antisymmetry is not assumed. -/
class LawfulPyFloat (F : Type) [PyFloat F] : Prop where
  le_total : ∀ x y : F, PyFloat.isfinite x → PyFloat.isfinite y →
    PyFloat.le x y = true ∨ PyFloat.le y x = true
  le_trans : ∀ x y z : F, PyFloat.le x y = true → PyFloat.le y z = true →
    PyFloat.le x z = true

/-- Exact arithmetic with the special values. -/
inductive Exact
  | nan
  | ninf
  | fin (q : Rat)
  | pinf
  deriving DecidableEq

namespace Exact

/-- The comparison `<`: false whenever a `nan` takes part. -/
def lt : Exact → Exact → Bool
  | nan, _ => false
  | _, nan => false
  | ninf, ninf => false
  | ninf, _ => true
  | fin _, ninf => false
  | fin p, fin q => decide (p < q)
  | fin _, pinf => true
  | pinf, _ => false

/-- The comparison `==`: a `nan` is unequal to itself. -/
def eq : Exact → Exact → Bool
  | nan, _ => false
  | x, y => decide (x = y)

/-- `math.isfinite`. -/
def isfinite : Exact → Bool
  | fin _ => true
  | _ => false

/-- Addition. -/
def add : Exact → Exact → Exact
  | fin p, fin q => fin (p + q)
  | nan, _ => nan
  | _, nan => nan
  | pinf, ninf => nan
  | ninf, pinf => nan
  | pinf, _ => pinf
  | _, pinf => pinf
  | ninf, _ => ninf
  | _, ninf => ninf

/-- Negation. -/
def neg : Exact → Exact
  | fin p => fin (-p)
  | pinf => ninf
  | ninf => pinf
  | nan => nan

/-- Division by a count. -/
def divNat : Exact → Nat → Exact
  | fin p, n => fin (p / n)
  | x, _ => x

/-- The ceiling of `n * x`.  `math.ceil` raises where `x` is not finite; the codec refuses
such a parameter of a tournament, so no structure comes to it. -/
def ceilMul (n : Nat) : Exact → Int
  | fin p => (n * p : Rat).ceil
  | _ => 0

/-- The digits of a value are not what any result here is about. -/
def format6 : Exact → String
  | fin p => toString p
  | pinf => "inf"
  | ninf => "-inf"
  | nan => "nan"

end Exact

instance : PyFloat Exact where
  zero := .fin 0
  inf := .pinf
  lt := Exact.lt
  le x y := Exact.lt x y || Exact.eq x y
  eq := Exact.eq
  isfinite := Exact.isfinite
  ofInt n := some (.fin n)
  add := Exact.add
  sub x y := Exact.add x (Exact.neg y)
  divNat := Exact.divNat
  ceilMul := Exact.ceilMul
  format6 := Exact.format6

/-- Multiplication. -/
def Exact.mul : Exact → Exact → Exact
  | .fin p, .fin q => .fin (p * q)
  | .nan, _ => .nan
  | _, .nan => .nan
  | .fin p, .pinf => if p = 0 then .nan else if 0 < p then .pinf else .ninf
  | .fin p, .ninf => if p = 0 then .nan else if 0 < p then .ninf else .pinf
  | .pinf, .fin q => if q = 0 then .nan else if 0 < q then .pinf else .ninf
  | .ninf, .fin q => if q = 0 then .nan else if 0 < q then .ninf else .pinf
  | .pinf, .pinf => .pinf
  | .ninf, .ninf => .pinf
  | _, _ => .ninf

/-- `int(x)`: toward zero. -/
def Exact.trunc : Exact → Int
  | .fin p => p.num.tdiv p.den
  | _ => 0

instance : PyArith Exact where
  neg := Exact.neg
  mul := Exact.mul
  lit := .fin
  trunc := Exact.trunc
  format _ := Exact.format6

theorem Exact.le_fin (p q : Rat) : PyFloat.le (Exact.fin p) (Exact.fin q) = decide (p ≤ q) := by
  have h : p ≤ q ↔ p < q ∨ p = q := le_iff_lt_or_eq
  simp only [PyFloat.le, Exact.lt, Exact.eq, Exact.fin.injEq, h, Bool.decide_or]

instance : LawfulPyFloat Exact where
  le_total := by
    intro x y hx hy
    cases x <;> cases y <;> simp [PyFloat.isfinite, Exact.isfinite] at hx hy
    rename_i p q
    simp only [Exact.le_fin, decide_eq_true_eq]
    exact le_total p q
  le_trans := by
    intro x y z hxy hyz
    cases x <;> cases y <;> cases z <;>
      simp_all [PyFloat.le, Exact.lt, Exact.eq]
    rename_i p q r
    have h1 : p ≤ q := le_iff_lt_or_eq.mpr hxy
    have h2 : q ≤ r := le_iff_lt_or_eq.mpr hyz
    exact le_iff_lt_or_eq.mp (h1.trans h2)

end Zicato
