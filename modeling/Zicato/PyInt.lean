import Zicato.PyText

/-! # Python's `int` and `str` of integers

`int(text)` reads more than `str(n)` writes: blanks around the number, a sign,
leading zeros, single underscores between digits, and every decimal digit of
Unicode.  Which characters those are is the argument `digit`. -/
open List Option
namespace Zicato.PyInt

/-- `str(n)`. -/
def str : Int → Text
  | .ofNat n => Nat.toDigits 10 n
  | .negSucc n => '-' :: Nat.toDigits 10 (n + 1)

variable (digit : Char → Option Nat)

/-- The digits after the first, with single underscores between them. -/
def digitsFrom : Nat → Text → Option Nat
  | value, [] => some value
  | value, '_' :: c :: rest => (digit c).bind fun d => digitsFrom (10 * value + d) rest
  | value, c :: rest => (digit c).bind fun d => digitsFrom (10 * value + d) rest

/-- A number without its sign. -/
def digits : Text → Option Nat
  | [] => none
  | c :: rest => (digit c).bind fun d => digitsFrom digit d rest

/-- `int(text)`; none when it raises. -/
def ofText (text : Text) : Option Int :=
  match Text.strip text with
  | '-' :: rest => (digits digit rest).map fun n => -(n : Int)
  | '+' :: rest => (digits digit rest).map Int.ofNat
  | rest => (digits digit rest).map Int.ofNat

/-- The digits of ASCII are read as such. -/
def ReadsAscii : Prop := ∀ c : Char, c.isDigit = true → digit c = some (c.toNat - '0'.toNat)

variable {digit}

/-- Digits are read one after another. -/
theorem digitsFrom_ascii (hd : ReadsAscii digit) {text : Text} (h : ∀ c ∈ text, c.isDigit = true)
    (value : Nat) : digitsFrom digit value text = some (Nat.ofDigitChars 10 text value) := by
  induction text generalizing value with
  | nil => rw [digitsFrom, Nat.ofDigitChars_nil]
  | cons c rest ih =>
    have hc : c.isDigit = true := h c mem_cons_self
    have hread : digitsFrom digit value (c :: rest) =
        (digit c).bind fun d => digitsFrom digit (10 * value + d) rest := by
      have hne : c ≠ '_' := by
        rintro rfl
        cases hc
      cases rest <;> simp [digitsFrom, hne]
    rw [hread, hd c hc, bind_some, ih fun c' hc' => h c' (mem_cons_of_mem _ hc'),
      Nat.ofDigitChars_cons]

/-- A decimal is read back. -/
theorem digits_toDigits (hd : ReadsAscii digit) (n : Nat) :
    digits digit (Nat.toDigits 10 n) = some n := by
  have hdigits : ∀ c ∈ Nat.toDigits 10 n, c.isDigit = true := fun c hc =>
    Nat.isDigit_of_mem_toDigits (by decide) (by decide) hc
  have hread := digitsFrom_ascii hd hdigits 0
  rw [Nat.ofDigitChars_ten_toDigits] at hread
  have hne : Nat.toDigits 10 n ≠ [] := Nat.toDigits_ne_nil
  obtain ⟨c, rest, hcons⟩ := exists_cons_of_ne_nil hne
  rw [hcons] at hread hdigits ⊢
  have hc := hdigits c mem_cons_self
  have hne' : c ≠ '_' := by
    rintro rfl
    cases hc
  rw [← hread]
  cases rest <;> simp [digits, digitsFrom, hne']

theorem isSpace_of_isDigit {c : Char} (h : c.isDigit = true) : Text.isSpace c = false := by
  have hrange : 48 ≤ c.toNat ∧ c.toNat ≤ 57 := by
    simpa [Char.isDigit, UInt32.le_iff_toNat_le] using h
  simp only [Text.isSpace, Bool.or_eq_false_iff, Bool.and_eq_false_iff, decide_eq_false_iff_not,
    beq_eq_false_iff_ne]
  omega

/-- A text that neither starts nor ends blank is its own `strip()`. -/
theorem strip_eq_self {text : Text} (h : ∀ c ∈ text, Text.isSpace c = false) :
    Text.strip text = text := by
  have hskip : Text.skipSpace text = text := by
    cases text with
    | nil => rfl
    | cons c rest => exact dropWhile_cons_of_neg (by simp [h c mem_cons_self])
  rw [Text.strip, hskip, rdropWhile_eq_self_iff]
  intro hne
  simp [h _ (getLast_mem hne)]

/-- What `str` writes, `int` reads. -/
theorem ofText_str (hd : ReadsAscii digit) (n : Int) : ofText digit (str n) = some n := by
  have hdigits : ∀ (k : Nat), ∀ c ∈ Nat.toDigits 10 k, c.isDigit = true := fun k c hc =>
    Nat.isDigit_of_mem_toDigits (by decide) (by decide) hc
  cases n with
  | ofNat k =>
    have hstrip : Text.strip (Nat.toDigits 10 k) = Nat.toDigits 10 k :=
      strip_eq_self fun c hc => isSpace_of_isDigit (hdigits k c hc)
    obtain ⟨c, rest, hcons⟩ := exists_cons_of_ne_nil (Nat.toDigits_ne_nil (n := k) (b := 10))
    have hc : c.isDigit = true := hdigits k c (hcons ▸ mem_cons_self)
    have hread := digits_toDigits hd k
    rw [ofText, str, hstrip]
    rw [hcons] at hread ⊢
    split
    · rename_i heq
      rw [(List.cons.inj heq).1] at hc
      cases hc
    · rename_i heq
      rw [(List.cons.inj heq).1] at hc
      cases hc
    · rw [hread]
      rfl
  | negSucc k =>
    have hstrip : Text.strip ('-' :: Nat.toDigits 10 (k + 1)) = '-' :: Nat.toDigits 10 (k + 1) := by
      refine strip_eq_self fun c hc => ?_
      rcases mem_cons.mp hc with rfl | hc
      · decide
      · exact isSpace_of_isDigit (hdigits _ c hc)
    rw [ofText, str, hstrip]
    simp only [digits_toDigits hd]
    rfl

theorem str_inj {m n : Int} (h : str m = str n) : m = n := by
  have hd : ReadsAscii fun c => if c.isDigit then some (c.toNat - '0'.toNat) else none :=
    fun c hc => if_pos hc
  have hm := ofText_str hd m
  rw [h, ofText_str hd n] at hm
  exact (some.inj hm).symm

theorem notMem_str {c : Char} (hdigit : c.isDigit = false) (hminus : c ≠ '-') (n : Int) :
    c ∉ str n := by
  have hdigits : ∀ (k : Nat), c ∉ Nat.toDigits 10 k := fun k hc => by
    rw [Nat.isDigit_of_mem_toDigits (by decide) (by decide) hc] at hdigit
    cases hdigit
  cases n with
  | ofNat k => exact hdigits k
  | negSucc k => exact not_mem_cons_of_ne_of_not_mem hminus (hdigits (k + 1))

theorem head_toDigits {n : Nat} (h : (Nat.toDigits 10 n).head? = some '0') : n = 0 := by
  induction n using Nat.strongRecOn with
  | ind n ih =>
    by_cases hn : n < 10
    · have hdigit : ∀ k, k < 10 → Nat.digitChar k = '0' → k = 0 := by decide
      rw [Nat.toDigits_of_lt_base hn] at h
      exact hdigit n hn (some.inj h)
    · rw [Nat.toDigits_of_base_le (by decide) (by omega),
        head?_append_of_ne_nil _ Nat.toDigits_ne_nil] at h
      have := ih (n / 10) (by omega) h
      omega

end Zicato.PyInt
