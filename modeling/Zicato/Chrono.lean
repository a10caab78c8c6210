import Mathlib.Algebra.Group.Nat.Defs
import Mathlib.Data.Prod.Lex

/-! # The date arithmetic of the `chrono` crate

A reading of the UTC clock is a number of seconds since the epoch and the
nanoseconds past it; a leap second is the nanoseconds from 10^9 on of the second
before it.  `Instant` has no bounds.  `DateTime` is the crate's type: its years
run from -262143 to 262142, and an addition that leaves them has no result (the
operator `+` panics, `checked_add_signed` returns `None`). -/
namespace Zicato.Chrono

/-- Nanoseconds of a second. -/
def billion : Nat := 1000000000

/-- A reading of the clock, of any size. -/
structure Instant where
  secs : Int
  nanos : Nat
  deriving DecidableEq, Repr

/-- `std::time::Duration`. -/
structure Duration where
  secs : Nat
  nanos : Nat
  secs_lt : secs < 2 ^ 64
  nanos_lt : nanos < billion

/-- `chrono::Duration`: whole seconds, rounded down, and the rest. -/
structure TimeDelta where
  secs : Int
  nanos : Nat
  deriving DecidableEq, Repr

namespace Instant

/-- Readings are ordered by their seconds, then by their nanoseconds. -/
instance : LinearOrder Instant :=
  LinearOrder.lift' (fun t => toLex (t.secs, t.nanos)) fun a b h => by
    cases a
    cases b
    simpa using h

theorem le_iff {a b : Instant} :
    a ≤ b ↔ a.secs < b.secs ∨ (a.secs = b.secs ∧ a.nanos ≤ b.nanos) :=
  Prod.Lex.toLex_le_toLex

/-- A full second of nanoseconds is carried. -/
def carry (secs : Int) (nanos : Nat) : Instant :=
  if billion ≤ nanos then ⟨secs + 1, nanos - billion⟩ else ⟨secs, nanos⟩

/-- The reading a duration later.  Inside a leap second the nanoseconds go on
counting as long as it lasts; after it the leap second is not counted again. -/
def plus (t : Instant) (d : Duration) : Instant :=
  if billion ≤ t.nanos then
    if 0 < d.secs ∨ (0 < d.nanos ∧ 2 * billion ≤ t.nanos + d.nanos) then
      carry (t.secs + d.secs) (t.nanos - billion + d.nanos)
    else ⟨t.secs, t.nanos + d.nanos⟩
  else carry (t.secs + d.secs) (t.nanos + d.nanos)

/-- The leap second to count from `b` to `a`: one is counted when the times of day
say that it is in between. -/
def leapBetween (a b : Instant) : Int :=
  if b.secs % 86400 < a.secs % 86400 ∧ billion ≤ b.nanos then 1
  else if a.secs % 86400 < b.secs % 86400 ∧ billion ≤ a.nanos then -1
  else 0

/-- `a.signed_duration_since(b)` -/
def signedDurationSince (a b : Instant) : TimeDelta :=
  let frac : Int := a.nanos - b.nanos
  { secs := a.secs - b.secs + leapBetween a b + frac / 1000000000
    nanos := (frac % 1000000000).toNat }

end Instant

namespace TimeDelta

/-- Whole seconds, rounded towards zero. -/
def numSeconds (d : TimeDelta) : Int := if d.secs < 0 ∧ 0 < d.nanos then d.secs + 1 else d.secs

/-- Whether a span is the shorter one. -/
def lt (a b : TimeDelta) : Bool := decide (a.secs < b.secs ∨ (a.secs = b.secs ∧ a.nanos < b.nanos))

/-- The longest duration, the greatest 64-bit number of milliseconds. -/
def maxSecs : Nat := 9223372036854775

/-- The nanoseconds of the longest span beyond its seconds. -/
def maxNanos : Nat := 807000000

/-- The empty span. -/
def zero : TimeDelta := ⟨0, 0⟩

/-- Between the longest duration and its negative. -/
def Fits (d : TimeDelta) : Prop :=
  ¬ lt d ⟨-9223372036854776, 193000000⟩ = true ∧ ¬ lt ⟨maxSecs, maxNanos⟩ d = true

instance (d : TimeDelta) : Decidable d.Fits := inferInstanceAs (Decidable (_ ∧ _))

/-- `Duration::from_std`: `None` for what does not fit. -/
def fromStd (d : Duration) : Option TimeDelta :=
  if d.secs < maxSecs ∨ (d.secs = maxSecs ∧ d.nanos ≤ maxNanos) then some ⟨d.secs, d.nanos⟩
  else none

end TimeDelta

/-- The first second of the year -262143. -/
def minSecs : Int := -8334601315200

/-- The last second of the year 262142. -/
def maxDateSecs : Int := 8210266876799

/-- `DateTime<Utc>`. -/
structure DateTime where
  reading : Instant
  min_le : minSecs ≤ reading.secs
  le_max : reading.secs ≤ maxDateSecs
  nanos_lt : reading.nanos < 2 * billion
  /-- Only the last second of a minute is followed by a leap second. -/
  leap : billion ≤ reading.nanos → reading.secs % 60 = 59
  deriving DecidableEq

namespace Instant

theorem carry_secs_le (secs : Int) (nanos : Nat) : secs ≤ (carry secs nanos).secs := by
  unfold carry
  split
  · exact Int.le_add_one (Int.le_refl secs)
  · exact Int.le_refl secs

theorem carry_nanos_lt {secs : Int} {nanos : Nat} (h : nanos < 2 * billion) :
    (carry secs nanos).nanos < billion := by
  unfold carry
  split
  · show nanos - billion < billion
    omega
  · show nanos < billion
    omega

theorem le_plus_secs (t : Instant) (d : Duration) : t.secs + d.secs ≤ (t.plus d).secs := by
  unfold plus
  split
  · split
    · exact carry_secs_le _ _
    · rename_i h
      show t.secs + d.secs ≤ t.secs
      omega
  · exact carry_secs_le _ _

/-- The reading after a duration is one of the crate's, up to its range. -/
theorem plus_nanos (t : DateTime) (d : Duration) :
    (t.reading.plus d).nanos < 2 * billion ∧
      (billion ≤ (t.reading.plus d).nanos → (t.reading.plus d).secs % 60 = 59) := by
  have ht := t.nanos_lt
  have hd := d.nanos_lt
  have hcarry : ∀ {secs : Int} {nanos : Nat}, nanos < 2 * billion →
      (carry secs nanos).nanos < 2 * billion ∧
        (billion ≤ (carry secs nanos).nanos → (carry secs nanos).secs % 60 = 59) := by
    intro secs nanos h
    have hlt := @carry_nanos_lt secs nanos h
    exact ⟨by omega, fun hle => absurd hle (Nat.not_le.2 hlt)⟩
  unfold plus
  split
  · rename_i hleap
    split
    · exact hcarry (by omega)
    · refine ⟨?_, fun _ => t.leap hleap⟩
      show t.reading.nanos + d.nanos < 2 * billion
      omega
  · exact hcarry (by omega)

end Instant

namespace DateTime

/-- `checked_add_signed`, for the durations that do not go back. -/
def checkedAdd (t : DateTime) (d : Duration) : Option DateTime :=
  if h : (t.reading.plus d).secs ≤ maxDateSecs then
    some {
      reading := t.reading.plus d
      min_le := by
        have := t.reading.le_plus_secs d
        have := t.min_le
        omega
      le_max := h
      nanos_lt := (Instant.plus_nanos t d).1
      leap := (Instant.plus_nanos t d).2 }
  else none

theorem checkedAdd_eq_some {t u : DateTime} {d : Duration} (h : t.checkedAdd d = some u) :
    u.reading = t.reading.plus d := by
  unfold checkedAdd at h
  split at h
  · cases Option.some.inj h
    rfl
  · cases h

theorem checkedAdd_eq_none {t : DateTime} {d : Duration} :
    t.checkedAdd d = none ↔ maxDateSecs < (t.reading.plus d).secs := by
  unfold checkedAdd
  split
  · rename_i h
    simp only [reduceCtorEq, false_iff]
    omega
  · rename_i h
    simp only [true_iff]
    omega

/-- `signed_duration_since`; `None` would be a difference too long to represent. -/
def checkedSince (a b : DateTime) : Option TimeDelta :=
  let d := a.reading.signedDurationSince b.reading
  if d.Fits then some d else none

/-- The range of dates is short against that of durations. -/
theorem checkedSince_eq (a b : DateTime) :
    a.checkedSince b = some (a.reading.signedDurationSince b.reading) := by
  have ha := a.min_le
  have ha' := a.le_max
  have hb := b.min_le
  have hb' := b.le_max
  have hfrac := a.nanos_lt
  have hfrac' := b.nanos_lt
  have hleap : -1 ≤ a.reading.leapBetween b.reading ∧ a.reading.leapBetween b.reading ≤ 1 := by
    unfold Instant.leapBetween
    split
    · exact ⟨by decide, by decide⟩
    · split
      · exact ⟨by decide, by decide⟩
      · exact ⟨by decide, by decide⟩
  have hsecs : -9000000000000000 < (a.reading.signedDurationSince b.reading).secs ∧
      (a.reading.signedDurationSince b.reading).secs < 9000000000000000 := by
    simp only [minSecs, maxDateSecs, billion] at ha ha' hb hb' hfrac hfrac'
    simp only [Instant.signedDurationSince]
    omega
  have hfits : (a.reading.signedDurationSince b.reading).Fits := by
    unfold TimeDelta.Fits TimeDelta.lt TimeDelta.maxSecs
    simp only [decide_eq_true_eq]
    omega
  exact if_pos hfits

end DateTime
end Zicato.Chrono
