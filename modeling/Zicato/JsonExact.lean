import Zicato.JsonPrefix
import Zicato.PyFloat

/-! # The texts of exact floats

An instance of the reader and the writer for the concrete runs of this development, none
of which is about the digits of a float. -/
open List
namespace Zicato.Json

/-- A quotient is written as its two parts, with a point between them. -/
def exactRepr : Exact → Text
  | .nan => nan
  | .pinf => infinity
  | .ninf => '-' :: infinity
  | .fin q => PyInt.str q.num ++ '.' :: Nat.toDigits 10 q.den

/-- The number a text stands for. -/
def exactRead (text : Text) : Exact :=
  if text = nan then .nan
  else if text = infinity then .pinf
  else if text = '-' :: infinity then .ninf
  else
    .fin (mkRat (intOf (text.takeWhile (· ≠ '.')))
      (Nat.ofDigitChars 10 ((text.dropWhile (· ≠ '.')).tail) 0))

/-- A decimal reads back as its number. -/
theorem intOf_str (n : Int) : intOf (PyInt.str n) = n := by
  cases n with
  | ofNat k =>
    obtain ⟨c, digits, hcons, hc⟩ := head_toDigits_isDigit k
    rw [PyInt.str, hcons, intOf.eq_def]
    split
    · rename_i heq
      rw [(List.cons.inj heq).1] at hc
      cases hc
    · rw [← hcons, Nat.ofDigitChars_ten_toDigits]
      rfl
  | negSucc k =>
    rw [PyInt.str, intOf, Nat.ofDigitChars_ten_toDigits]
    rfl

/-- A decimal has digits and a sign only. -/
theorem notMem_str {c : Char} (hc : c.isDigit = false) (hminus : c ≠ '-') (n : Int) :
    c ∉ PyInt.str n := by
  have hdigits (k : Nat) : c ∉ Nat.toDigits 10 k := fun hmem => by
    rw [isDigit_of_mem_toDigits k c hmem] at hc
    cases hc
  cases n with
  | ofNat k => exact hdigits k
  | negSucc k =>
    intro hmem
    rcases mem_cons.mp hmem with h | h
    · exact hminus h
    · exact hdigits _ h

/-- The parts of a quotient are read back. -/
theorem exactRead_repr (q : Rat) :
    exactRead (PyInt.str q.num ++ '.' :: Nat.toDigits 10 q.den) = .fin q := by
  have hpoint : '.' ∉ PyInt.str q.num := notMem_str rfl (by decide) q.num
  have hword {token : Text} (h : '.' ∉ token) :
      PyInt.str q.num ++ '.' :: Nat.toDigits 10 q.den ≠ token := by
    rintro rfl
    exact h (mem_append_right _ mem_cons_self)
  have hall : ∀ c ∈ PyInt.str q.num, (decide (c ≠ '.')) = true := by
    intro c hc
    exact decide_eq_true fun heq => hpoint (heq ▸ hc)
  rw [exactRead, if_neg (hword (by decide)), if_neg (hword (by decide)), if_neg (hword (by decide)),
    takeWhile_append_of_pos hall, dropWhile_append_of_pos hall]
  rw [takeWhile_cons_of_neg (by decide), dropWhile_cons_of_neg (by decide),
    append_nil, intOf_str, tail_cons, Nat.ofDigitChars_ten_toDigits, Rat.mkRat_self]

/-- A number with a fraction is a float. -/
theorem unsigned_point {F : Type} (read : Text → F) (sign : Text) (n d : Nat) {rest : Text}
    (hrest : Closed rest) :
    unsigned read sign (Nat.toDigits 10 n ++ '.' :: (Nat.toDigits 10 d ++ rest)) =
      some (.float (read (sign ++ Nat.toDigits 10 n ++ '.' :: Nat.toDigits 10 d)), rest) := by
  have hinteger : integer (Nat.toDigits 10 n ++ '.' :: (Nat.toDigits 10 d ++ rest)) =
      some (Nat.toDigits 10 n, '.' :: (Nat.toDigits 10 d ++ rest)) := by
    have hself := integer_toDigits n Closed.nil
    rw [append_nil] at hself
    refine integer_extend hself fun c hc => ?_
    cases hc
    rfl
  have hfraction : fraction ('.' :: (Nat.toDigits 10 d ++ rest)) =
      ('.' :: Nat.toDigits 10 d, rest) := by
    obtain ⟨c, digits, hcons, hc⟩ := head_toDigits_isDigit d
    have hdigits := isDigit_of_mem_toDigits d
    rw [hcons] at hdigits ⊢
    rw [fraction, if_pos rfl, cons_append, digits?, if_pos hc,
      spanDigits_append (forall_mem_cons.mp hdigits).2 hrest]
  rw [unsigned, hinteger, Option.map_some]
  simp [hfraction, exponent_closed hrest]

/-- A rational reads back exactly. -/
theorem scalar_exact (q : Rat) {rest : Text} (hrest : Closed rest) :
    scalar exactRead (exactRepr (.fin q) ++ rest) = some (.float (.fin q), rest) := by
  have hread := exactRead_repr q
  rw [exactRepr, List.append_assoc, cons_append]
  cases hn : q.num with
  | ofNat k =>
    obtain ⟨c, digits, hcons, hc⟩ := head_toDigits_isDigit k
    rw [hn, PyInt.str] at hread
    have hnumber := unsigned_point exactRead [] k q.den hrest
    rw [nil_append, hread] at hnumber
    rw [PyInt.str]
    refine @scalar_of_number _ exactRead _ _ ?_ c
      (digits ++ '.' :: (Nat.toDigits 10 q.den ++ rest)) (.inl (by rw [hcons]; rfl)) hc
    rw [number.eq_def]
    split
    · rename_i heq
      rw [hcons] at heq
      rw [(List.cons.inj heq).1] at hc
      cases hc
    · exact hnumber
  | negSucc k =>
    obtain ⟨c, digits, hcons, hc⟩ := head_toDigits_isDigit (k + 1)
    rw [hn, PyInt.str] at hread
    have hnumber := unsigned_point exactRead ['-'] (k + 1) q.den hrest
    rw [singleton_append, hread] at hnumber
    rw [PyInt.str]
    refine @scalar_of_number _ exactRead _ _ ?_ c
      (digits ++ '.' :: (Nat.toDigits 10 q.den ++ rest)) (.inr (by rw [hcons]; rfl)) hc
    exact hnumber

theorem scalar_exactRepr (x : Exact) (rest : Text) (hrest : Closed rest) :
    scalar exactRead (exactRepr x ++ rest) = some (.float x, rest) := by
  cases x with
  | fin q => exact scalar_exact q hrest
  | nan => simp [scalar, word?, dropPrefix?, exactRepr, nan, exactRead]
  | pinf => simp [scalar, word?, dropPrefix?, exactRepr, nan, infinity, exactRead]
  | ninf => simp [scalar, word?, dropPrefix?, exactRepr, nan, infinity, exactRead]

/-- The floats of the concrete runs. -/
def exactFloats : Floats Exact where
  repr := exactRepr
  read := exactRead
  scalar_repr := scalar_exactRepr
  repr_chars x := by
    cases x with
    | nan => decide
    | pinf => decide
    | ninf => decide
    | fin q =>
      have hdigits (k : Nat) : ∀ c ∈ Nat.toDigits 10 k, c.isAlphanum = true := fun c hc => by
        simp [Char.isAlphanum, isDigit_of_mem_toDigits k c hc]
      intro c hc
      rcases List.mem_append.mp hc with hc | hc
      · cases hn : q.num with
        | ofNat k =>
          rw [hn] at hc
          exact .inl (hdigits k c hc)
        | negSucc k =>
          rw [hn] at hc
          rcases List.mem_cons.mp hc with rfl | hc
          · exact .inr (by decide)
          · exact .inl (hdigits _ c hc)
      · rcases List.mem_cons.mp hc with rfl | hc
        · exact .inr (by decide)
        · exact .inl (hdigits _ c hc)

end Zicato.Json
