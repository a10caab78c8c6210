import Zicato.Json
import Zicato.PyExcept
import Zicato.TextLines

/-! # What is written is read back

`loads` of `dumps` gives the value back, and the reader that has taken a list or an
object takes the same one from any longer text. -/
open List
namespace Zicato.Json

/-! ## Strings -/

theorem hexVal_digitChar : ∀ d < 16, hexVal (Nat.digitChar d) = some d := by decide

/-- Four digits are read as the number they write. -/
theorem hexVal4_hex4 {n : Nat} (h : n < 0x10000) :
    hexVal4 (Nat.digitChar (n / 4096 % 16)) (Nat.digitChar (n / 256 % 16))
      (Nat.digitChar (n / 16 % 16)) (Nat.digitChar (n % 16)) = some n := by
  have hd (m : Nat) : hexVal (Nat.digitChar (m % 16)) = some (m % 16) :=
    hexVal_digitChar _ (Nat.mod_lt _ (by decide))
  simp only [hexVal4, hd, Option.bind_eq_bind, Option.bind_some, Option.some.injEq]
  omega

variable {c : Char} {rest text : Text}

theorem consChar_ok {x : Except String (Text × Text)} {s : Text} (h : x = .ok (s, rest)) :
    consChar c x = .ok (c :: s, rest) := by
  rw [h, consChar]

theorem scanString_u (high : Option Nat) (a b c d : Char) (rest : Text) :
    scanString high ('\\' :: 'u' :: a :: b :: c :: d :: rest) =
      match hexEscape high (hexVal4 a b c d) with
      | .error e => .error e
      | .ok (.wait n) => lone high (scanString (some n) rest)
      | .ok (.pair c) => consChar c (scanString none rest)
      | .ok (.char c) => lone high (consChar c (scanString none rest)) := by
  cases high <;> rfl

theorem scanString_hex4 {n : Nat} (h : n < 0xd800 ∨ (0xdfff < n ∧ n < 0x10000)) (rest : Text) :
    scanString none (hex4 n ++ rest) = consChar (Char.ofNat n) (scanString none rest) := by
  have hlt : n < 0x10000 := by omega
  have hhigh : ¬ (0xd800 ≤ n ∧ n ≤ 0xdbff) := by omega
  have hlow : isLow n = false := by
    simp only [isLow, Bool.and_eq_false_iff, decide_eq_false_iff_not]
    omega
  simp only [hex4, cons_append, nil_append]
  rw [scanString_u, hexVal4_hex4 hlt, hexEscape, if_neg hhigh, hlow]
  rfl

/-- A surrogate pair is read as its character. -/
theorem scanString_pair {n : Nat} (hn : 0x10000 ≤ n) (hlt : n < 0x110000) (rest : Text) :
    scanString none
        (hex4 (0xd800 + (n - 0x10000) / 0x400) ++ hex4 (0xdc00 + (n - 0x10000) % 0x400) ++ rest) =
      consChar (Char.ofNat n) (scanString none rest) := by
  have hhi : 0xd800 + (n - 0x10000) / 0x400 < 0x10000 := by omega
  have hlo : 0xdc00 + (n - 0x10000) % 0x400 < 0x10000 := by omega
  have hhigh : 0xd800 ≤ 0xd800 + (n - 0x10000) / 0x400 ∧
      0xd800 + (n - 0x10000) / 0x400 ≤ 0xdbff := by omega
  have hnot : ¬ (0xd800 ≤ 0xdc00 + (n - 0x10000) % 0x400 ∧
      0xdc00 + (n - 0x10000) % 0x400 ≤ 0xdbff) := by omega
  have hlow : isLow (0xdc00 + (n - 0x10000) % 0x400) = true := by
    simp only [isLow, Bool.and_eq_true, decide_eq_true_eq]
    omega
  have hval : 0x10000 + (0xd800 + (n - 0x10000) / 0x400 - 0xd800) * 0x400 +
      (0xdc00 + (n - 0x10000) % 0x400 - 0xdc00) = n := by omega
  rw [hex4, hex4]
  simp only [cons_append, nil_append]
  rw [scanString_u, hexVal4_hex4 hhi, hexEscape, if_pos hhigh]
  dsimp only [lone]
  rw [scanString_u, hexVal4_hex4 hlo, hexEscape, if_neg hnot, hlow, if_pos rfl]
  dsimp only
  rw [hval]

theorem scanString_short {e : Char} (he : e ≠ 'u') (hc : shortEscape e = some c)
    (high : Option Nat) (rest : Text) :
    scanString high ('\\' :: e :: rest) = lone high (consChar c (scanString none rest)) := by
  rw [scanString.eq_def]
  split
  case h_4 hno heq =>
    cases heq
    exact absurd rfl (hno e rest rfl)
  all_goals simp_all

/-- A character that is neither escaped nor a control. -/
theorem scanString_char (hquote : c ≠ '"') (hslash : c ≠ '\\') (hctrl : ¬ c.toNat < 0x20)
    (high : Option Nat) (rest : Text) :
    scanString high (c :: rest) = lone high (consChar c (scanString none rest)) := by
  rw [scanString.eq_def]
  split <;> simp_all

theorem toNat_lt (c : Char) : c.toNat < 0x110000 := by
  rcases c.valid with h | h
  · exact Nat.lt_trans h (by decide)
  · exact h.2

theorem not_surrogate (c : Char) : c.toNat < 0xd800 ∨ 0xdfff < c.toNat :=
  c.valid.imp_right fun h => h.1

/-- An escaped character is read as itself. -/
theorem scanString_escape (ascii : Bool) (c : Char) (rest : Text) :
    scanString none (escape ascii c ++ rest) = consChar c (scanString none rest) := by
  have hof : Char.ofNat c.toNat = c := Char.ofNat_toNat c
  by_cases h1 : c = '"'
  · subst h1
    exact scanString_short (by decide) rfl none rest
  by_cases h2 : c = '\\'
  · subst h2
    exact scanString_short (by decide) rfl none rest
  by_cases h3 : c = '\n'
  · subst h3
    exact scanString_short (by decide) rfl none rest
  by_cases h4 : c = '\r'
  · subst h4
    exact scanString_short (by decide) rfl none rest
  by_cases h5 : c = '\t'
  · subst h5
    exact scanString_short (by decide) rfl none rest
  by_cases h6 : c.toNat = 8
  · obtain rfl : c = Char.ofNat 8 := by rw [← h6, hof]
    exact scanString_short (by decide) rfl none rest
  by_cases h7 : c.toNat = 12
  · obtain rfl : c = Char.ofNat 12 := by rw [← h7, hof]
    exact scanString_short (by decide) rfl none rest
  simp only [escape, if_neg h1, if_neg h2, if_neg h3, if_neg h4, if_neg h5, if_neg h6, if_neg h7]
  by_cases hctrl : c.toNat < 0x20
  · rw [if_pos hctrl, scanString_hex4 (.inl (by omega)), hof]
  rw [if_neg hctrl]
  by_cases hascii : ascii = true ∧ 0x7e < c.toNat
  · rw [if_pos hascii]
    by_cases hbig : c.toNat < 0x10000
    · rw [if_pos hbig, scanString_hex4 _ rest, hof]
      exact (not_surrogate c).imp_right fun h => ⟨h, hbig⟩
    · rw [if_neg hbig, scanString_pair (by omega) (toNat_lt c), hof]
  · rw [if_neg hascii]
    exact scanString_char h1 h2 hctrl none rest

theorem scanString_quoted (ascii : Bool) (s rest : Text) :
    scanString none (s.flatMap (escape ascii) ++ '"' :: rest) = .ok (s, rest) := by
  induction s with
  | nil =>
    rw [flatMap_nil, nil_append, scanString]
    rfl
  | cons c s ih =>
    rw [flatMap_cons, List.append_assoc, scanString_escape]
    exact consChar_ok ih

/-! ## Numbers -/

theorem Closed.nil : Closed [] := by
  intro c hc
  cases hc

theorem Closed.cons (h : c.isDigit = false ∧ c ∉ ['.', 'e', 'E']) : Closed (c :: rest) := by
  intro d hd
  cases hd
  exact h

theorem spanDigits_append {digits : Text} (hdigits : ∀ c ∈ digits, c.isDigit = true)
    (hrest : Closed rest) : spanDigits (digits ++ rest) = (digits, rest) := by
  have htake : rest.takeWhile Char.isDigit = [] ∧ rest.dropWhile Char.isDigit = rest := by
    cases rest with
    | nil => exact ⟨rfl, rfl⟩
    | cons c rest =>
      have hc : c.isDigit = false := (hrest c rfl).1
      simp [hc]
  rw [spanDigits, span_eq_takeWhile_dropWhile, takeWhile_append_of_pos hdigits,
    dropWhile_append_of_pos hdigits, htake.1, htake.2, append_nil]

variable (n : Nat)

theorem isDigit_of_mem_toDigits : ∀ c ∈ Nat.toDigits 10 n, c.isDigit = true := fun _ hc =>
  Nat.isDigit_of_mem_toDigits (by decide) (by decide) hc

/-- Digits are read back. -/
theorem integer_toDigits (hrest : Closed rest) :
    integer (Nat.toDigits 10 n ++ rest) = some (Nat.toDigits 10 n, rest) := by
  by_cases hn : n = 0
  · subst hn
    rfl
  obtain ⟨c, digits, hcons⟩ := exists_cons_of_ne_nil (Nat.toDigits_ne_nil (n := n) (b := 10))
  have hdigits := isDigit_of_mem_toDigits n
  have hc : c ≠ '0' := by
    rintro rfl
    exact hn (PyInt.head_toDigits (by rw [hcons]; rfl))
  rw [hcons] at hdigits ⊢
  obtain ⟨hdigit, htail⟩ := forall_mem_cons.mp hdigits
  rw [cons_append, integer, if_neg hc, digits?, if_pos hdigit, spanDigits_append htail hrest]

theorem fraction_closed (h : ∀ c ∈ rest.head?, c ≠ '.') : fraction rest = ([], rest) := by
  cases rest with
  | nil => rfl
  | cons c rest => rw [fraction, if_neg (h c rfl)]

theorem exponent_closed (h : Closed rest) : exponent rest = ([], rest) := by
  cases rest with
  | nil => rfl
  | cons c rest =>
    rw [exponent, if_neg]
    rintro (rfl | rfl)
    · exact (h 'e' rfl).2 (by decide)
    · exact (h 'E' rfl).2 (by decide)

theorem Closed.noDot (h : Closed rest) : ∀ c ∈ rest.head?, c ≠ '.' := by
  rintro c hc rfl
  exact (h '.' hc).2 (by decide)

section Scalars

variable {F : Type} (read : Text → F)

variable {rest : Text}

theorem unsigned_toDigits (sign : Text) (n : Nat) (hrest : Closed rest) :
    unsigned read sign (Nat.toDigits 10 n ++ rest) =
      some (.int (intOf (sign ++ Nat.toDigits 10 n)), rest) := by
  rw [unsigned, integer_toDigits n hrest, Option.map_some]
  simp [fraction_closed hrest.noDot, exponent_closed hrest]

theorem head_toDigits_isDigit (n : Nat) : ∃ c digits, Nat.toDigits 10 n = c :: digits ∧
    c.isDigit = true := by
  obtain ⟨c, digits, hcons⟩ := exists_cons_of_ne_nil (Nat.toDigits_ne_nil (n := n) (b := 10))
  exact ⟨c, digits, hcons, isDigit_of_mem_toDigits n c (hcons ▸ mem_cons_self)⟩

/-- A decimal is read back. -/
theorem number_str (n : Int) (hrest : Closed rest) :
    number read (PyInt.str n ++ rest) = some (.int n, rest) := by
  cases n with
  | ofNat n =>
    obtain ⟨c, digits, hcons, hc⟩ := head_toDigits_isDigit n
    have hminus : c ≠ '-' := by
      rintro rfl
      cases hc
    have hplain : ∀ t, number read (c :: t) = unsigned read [] (c :: t) := by
      intro t
      rw [number.eq_def]
      split
      · rename_i heq
        exact absurd (List.cons.inj heq).1 hminus
      · rfl
    have hint : intOf (Nat.toDigits 10 n) = n := by
      rw [hcons, intOf.eq_def]
      split
      · rename_i heq
        exact absurd (List.cons.inj heq).1 hminus
      · rw [← hcons, Nat.ofDigitChars_ten_toDigits]
    have hread := unsigned_toDigits read [] n hrest
    rw [nil_append, hint] at hread
    refine Eq.trans ?_ hread
    rw [PyInt.str, hcons, cons_append, hplain]
  | negSucc n =>
    have hint : intOf ('-' :: Nat.toDigits 10 (n + 1)) = Int.negSucc n := by
      rw [intOf, Nat.ofDigitChars_ten_toDigits]
      rfl
    rw [PyInt.str, cons_append, number, unsigned_toDigits read ['-'] (n + 1) hrest,
      singleton_append, hint]

/-- A text that starts otherwise does not start with a word. -/
theorem word?_none {F : Type} {token text : Text} {v : PyValue F}
    (h : ¬ token <+: text) : word? token v text = none := by
  rw [word?, Option.map_eq_none_iff]
  cases hdrop : text.dropPrefix? token with
  | none => rfl
  | some rest => exact absurd ⟨rest, (List.dropPrefix?_eq_some.mp hdrop).symm⟩ h

/-- A text that starts like a number is no word. -/
theorem scalar_of_number {text : Text} {r : PyValue F × Text} (h : number read text = some r)
    {c : Char} {tail : Text} (htext : text = c :: tail ∨ text = '-' :: c :: tail)
    (hc : c.isDigit = true) : scalar read text = some r := by
  have hwords : ∀ (d : Char) (token : Text), d.isDigit = false → d ≠ '-' →
      ¬ d :: token <+: text := by
    rintro d token hd hminus ⟨more, hmore⟩
    rcases htext with rfl | rfl
    · rw [(List.cons.inj hmore).1, hc] at hd
      cases hd
    · exact hminus (List.cons.inj hmore).1
  have hinfinity : ¬ ('-' :: infinity) <+: text := by
    rintro ⟨more, hmore⟩
    rcases htext with rfl | rfl
    · rw [← (List.cons.inj hmore).1] at hc
      cases hc
    · rw [← (List.cons.inj (List.cons.inj hmore).2).1] at hc
      cases hc
  rw [scalar, word?_none (hwords 'n' _ (by decide) (by decide)),
    word?_none (hwords 't' _ (by decide) (by decide)),
    word?_none (hwords 'f' _ (by decide) (by decide)),
    word?_none (show ¬ nan <+: text from hwords 'N' _ (by decide) (by decide)),
    word?_none (show ¬ infinity <+: text from hwords 'I' _ (by decide) (by decide)),
    word?_none hinfinity, h]
  rfl

/-- An integer starts with a digit, or with its sign and a digit. -/
theorem str_head (n : Int) : ∃ c tail, c.isDigit = true ∧
    (PyInt.str n = c :: tail ∨ PyInt.str n = '-' :: c :: tail) := by
  cases n with
  | ofNat k =>
    obtain ⟨c, digits, hcons, hc⟩ := head_toDigits_isDigit k
    exact ⟨c, digits, hc, .inl hcons⟩
  | negSucc k =>
    obtain ⟨c, digits, hcons, hc⟩ := head_toDigits_isDigit (k + 1)
    exact ⟨c, digits, hc, .inr (congrArg ('-' :: ·) hcons)⟩

theorem scalar_str (n : Int) (hrest : Closed rest) :
    scalar read (PyInt.str n ++ rest) = some (.int n, rest) := by
  obtain ⟨c, tail, hc, htext⟩ := str_head n
  refine @scalar_of_number _ read _ _ (number_str read n hrest) _ (tail ++ rest) ?_ hc
  rcases htext with htext | htext <;> rw [htext]
  · exact .inl rfl
  · exact .inr rfl

end Scalars

/-! ## Values -/

variable {F : Type} {fl : Floats F} {lay : Layout}

theorem skip_cons (h : isWs c = false) (text : Text) : skip (c :: text) = c :: text := by
  rw [skip, dropWhile_cons, h, if_neg Bool.false_ne_true]

theorem skip_ws (h : isWs c = true) (text : Text) : skip (c :: text) = skip text := by
  rw [skip, dropWhile_cons, if_pos h, skip]

/-- A character that a value may start with: neither white space nor the end of a list
or of an object. -/
def Starts (c : Char) : Prop := isWs c = false ∧ c ≠ ']' ∧ c ≠ '}' ∧ c ≠ ','

instance : DecidablePred Starts := fun _ => inferInstanceAs (Decidable (_ ∧ _))

example : Starts '[' ∧ ¬ Starts ']' := by decide +kernel

theorem starts_of_plain (h : c.isAlphanum = true ∨ c ∈ ['-', '+', '.']) :
    Starts c ∧ c ≠ '"' ∧ c ≠ '[' ∧ c ≠ '{' ∧ c ≠ Char.ofNat 0xfeff := by
  have hne : ∀ d, d.isAlphanum = false → d ∉ ['-', '+', '.'] → c ≠ d := by
    rintro d hd hmem rfl
    rcases h with h | h
    · rw [hd] at h
      cases h
    · exact hmem h
  refine ⟨⟨?_, hne _ (by decide) (by decide), hne _ (by decide) (by decide),
    hne _ (by decide) (by decide)⟩, hne _ (by decide) (by decide), hne _ (by decide) (by decide),
    hne _ (by decide) (by decide), hne _ (by decide) (by decide)⟩
  simp [isWs, hne ' ' (by decide) (by decide), hne '\t' (by decide) (by decide),
    hne '\n' (by decide) (by decide), hne '\r' (by decide) (by decide)]

theorem repr_ne_nil (fl : Floats F) (x : F) : fl.repr x ≠ [] := by
  intro h
  have hread := fl.scalar_repr x [] Closed.nil
  rw [h] at hread
  cases hread

theorem exists_head_str (n : Int) :
    ∃ c t, PyInt.str n = c :: t ∧ (c.isAlphanum = true ∨ c ∈ ['-', '+', '.']) := by
  cases n with
  | ofNat n =>
    obtain ⟨c, digits, hcons, hc⟩ := head_toDigits_isDigit n
    exact ⟨c, digits, hcons, .inl (by simp [Char.isAlphanum, hc])⟩
  | negSucc n => exact ⟨'-', _, rfl, .inr (by decide)⟩

theorem exists_head_repr (fl : Floats F) (x : F) :
    ∃ c t, fl.repr x = c :: t ∧ (c.isAlphanum = true ∨ c ∈ ['-', '+', '.']) := by
  obtain ⟨c, t, hcons⟩ := exists_cons_of_ne_nil (repr_ne_nil fl x)
  exact ⟨c, t, hcons, fl.repr_chars x c (hcons ▸ mem_cons_self)⟩

variable (fl lay) in
theorem exists_head_dumps (v : PyValue F) :
    ∃ c t, dumpsWith fl.repr lay v = c :: t ∧ Starts c ∧ c ≠ Char.ofNat 0xfeff := by
  cases v with
  | none | str s | list items | dict fields => exact ⟨_, _, rfl, by decide, by decide⟩
  | bool b => cases b <;> exact ⟨_, _, rfl, by decide, by decide⟩
  | int n =>
    obtain ⟨c, t, hcons, hc⟩ := exists_head_str n
    exact ⟨c, t, hcons, (starts_of_plain hc).1, (starts_of_plain hc).2.2.2.2⟩
  | float x =>
    obtain ⟨c, t, hcons, hc⟩ := exists_head_repr fl x
    exact ⟨c, t, hcons, (starts_of_plain hc).1, (starts_of_plain hc).2.2.2.2⟩

theorem scanOnce_str (rest : Text) : scanOnce fl (n + 1) ('"' :: rest) = (do
      let (s, rest) ← scanString none rest
      .ok (.str (String.ofList s), rest)) := by
  rw [scanOnce.eq_def]
  rfl

theorem scanOnce_list (rest : Text) : scanOnce fl (n + 1) ('[' :: rest) =
      (match skip rest with
      | ']' :: rest => .ok (.list [], rest)
      | rest => do
          let (items, rest) ← scanItems fl n rest
          .ok (.list items, rest)) := by
  rw [scanOnce.eq_def]
  rfl

theorem scanOnce_dict (rest : Text) : scanOnce fl (n + 1) ('{' :: rest) =
      (match skip rest with
      | '}' :: rest => .ok (.dict [], rest)
      | rest => do
          let (fields, rest) ← scanFields fl n rest
          .ok (.dict (Dict.writes Prod.fst Prod.snd fields []), rest)) := by
  rw [scanOnce.eq_def]
  rfl

/-- The value of a key, and what follows it. -/
def scanMember (fl : Floats F) (n : Nat) (key : String) (rest : Text) :
    Except String (List (String × PyValue F) × Text) := do
  let (v, rest) ← scanOnce fl n (skip rest)
  match skip rest with
  | '}' :: rest => .ok ([(key, v)], rest)
  | ',' :: rest =>
      let (fields, rest) ← scanFields fl n (skip rest)
      .ok ((key, v) :: fields, rest)
  | _ => .error "Expecting ',' delimiter"

theorem scanFields_key (rest : Text) : scanFields fl (n + 1) ('"' :: rest) = (do
      let (key, rest) ← scanString none rest
      match skip rest with
      | ':' :: rest => scanMember fl n (String.ofList key) rest
      | _ => .error "Expecting ':' delimiter") := by
  rw [scanFields.eq_def]
  rfl

theorem scanOnce_scalar {r : PyValue F × Text} (h : scalar fl.read text = some r)
    (hhead : ∀ c ∈ text.head?, c ≠ '"' ∧ c ≠ '[' ∧ c ≠ '{') (n : Nat) :
    scanOnce fl (n + 1) text = .ok r := by
  rw [scanOnce.eq_def]
  dsimp only
  split
  · exact absurd rfl (hhead _ rfl).1
  · exact absurd rfl (hhead _ rfl).2.1
  · exact absurd rfl (hhead _ rfl).2.2
  · rw [h]

/-- A word is read as its value. -/
theorem scalar_word (rest : Text) :
    scalar fl.read (['n', 'u', 'l', 'l'] ++ rest) = some (.none, rest) ∧
      scalar fl.read (['t', 'r', 'u', 'e'] ++ rest) = some (.bool true, rest) ∧
      scalar fl.read (['f', 'a', 'l', 's', 'e'] ++ rest) = some (.bool false, rest) := by
  simp [scalar, word?, List.dropPrefix?]

variable (fl lay) in
theorem skip_dumps (v : PyValue F) (rest : Text) :
    skip (dumpsWith fl.repr lay v ++ rest) = dumpsWith fl.repr lay v ++ rest := by
  obtain ⟨c, t, hcons, hc, -⟩ := exists_head_dumps fl lay v
  rw [hcons, cons_append, skip_cons hc.1]

variable (fl lay) in
theorem exists_head_dumpsItems (v : PyValue F) (rest : List (PyValue F)) :
    ∃ c t, dumpsItems fl.repr lay (v :: rest) = c :: t ∧ Starts c := by
  obtain ⟨c, t, hcons, hc, -⟩ := exists_head_dumps fl lay v
  cases rest with
  | nil => exact ⟨c, t ++ [']'], by rw [dumpsItems, hcons, cons_append], hc⟩
  | cons w rest =>
    exact ⟨c, t ++ (lay.item ++ dumpsItems fl.repr lay (w :: rest)),
      by rw [dumpsItems, hcons, cons_append], hc⟩

variable (fl lay) in
theorem exists_head_dumpsFields (e : String × PyValue F) (rest : List (String × PyValue F)) :
    ∃ t, dumpsFields fl.repr lay (e :: rest) = '"' :: t := by
  obtain ⟨k, v⟩ := e
  cases rest with
  | nil => exact ⟨_, rfl⟩
  | cons w rest => exact ⟨_, rfl⟩

/-- After a separator of items the next item comes. -/
theorem skip_item (hlay : lay.Plain) (h : skip text = text) :
    ∃ t, lay.item ++ text = ',' :: t ∧ skip t = text := by
  rcases hlay.item with hitem | hitem <;> rw [hitem]
  · exact ⟨text, rfl, h⟩
  · exact ⟨' ' :: text, rfl, by rw [skip_ws rfl, h]⟩

theorem skip_key (hlay : lay.Plain) (h : skip text = text) :
    ∃ t, lay.key ++ text = ':' :: t ∧ skip t = text := by
  rcases hlay.key with hkey | hkey <;> rw [hkey]
  · exact ⟨text, rfl, h⟩
  · exact ⟨' ' :: text, rfl, by rw [skip_ws rfl, h]⟩

theorem scanString_quote (ascii : Bool) (s : String) (rest : Text) :
    ∃ t, quote ascii s ++ rest = '"' :: t ∧ scanString none t = .ok (s.toList, rest) := by
  refine ⟨s.toList.flatMap (escape ascii) ++ '"' :: rest, ?_, scanString_quoted ascii _ _⟩
  rw [quote, cons_append, List.append_assoc]
  rfl

/-- Every dictionary in the value has distinct keys. -/
def Keyed (v : PyValue F) : Prop := v.HasKeys fun _ => True

mutual
/-- The reader takes the text of a value for that value, and leaves what follows it. -/
theorem scanOnce_dumps (hlay : lay.Plain) : ∀ (v : PyValue F) (n : Nat) (rest : Text), Keyed v →
    2 * (dumpsWith fl.repr lay v).length ≤ n → Closed rest →
    scanOnce fl n (dumpsWith fl.repr lay v ++ rest) = .ok (v, rest)
  | v, 0, _, _, hn, _ => by
      obtain ⟨c, t, hcons, -⟩ := exists_head_dumps fl lay v
      rw [hcons] at hn
      simp at hn
  | .none, n + 1, rest, _, _, _ =>
      scanOnce_scalar (scalar_word rest).1 (fun c hc => by cases hc; decide) n
  | .bool true, n + 1, rest, _, _, _ =>
      scanOnce_scalar (scalar_word rest).2.1 (fun c hc => by cases hc; decide) n
  | .bool false, n + 1, rest, _, _, _ =>
      scanOnce_scalar (scalar_word rest).2.2 (fun c hc => by cases hc; decide) n
  | .int k, n + 1, rest, _, _, hrest => by
      refine scanOnce_scalar (scalar_str fl.read k hrest) (fun c hc => ?_) n
      obtain ⟨d, t, hcons, hd⟩ := exists_head_str k
      rw [hcons] at hc
      cases hc
      exact ⟨(starts_of_plain hd).2.1, (starts_of_plain hd).2.2.1, (starts_of_plain hd).2.2.2.1⟩
  | .float x, n + 1, rest, _, _, hrest => by
      refine scanOnce_scalar (fl.scalar_repr x rest hrest) (fun c hc => ?_) n
      obtain ⟨d, t, hcons, hd⟩ := exists_head_repr fl x
      rw [hcons] at hc
      cases hc
      exact ⟨(starts_of_plain hd).2.1, (starts_of_plain hd).2.2.1, (starts_of_plain hd).2.2.2.1⟩
  | .str s, n + 1, rest, _, _, _ => by
      obtain ⟨t, hquote, hscan⟩ := scanString_quote lay.ascii s rest
      rw [dumpsWith, hquote, scanOnce_str, hscan, ok_bind]
      simp only [String.ofList_toList]
  | .list [], n + 1, rest, _, _, _ => by
      rw [dumpsWith, dumpsItems, scanOnce.eq_def]
      rfl
  | .list (v :: vs), n + 1, rest, hv, hn, _ => by
      rw [dumpsWith, length_cons] at hn
      obtain ⟨c, t, hcons, hc⟩ := exists_head_dumpsItems fl lay v vs
      have hscan := scanItems_dumps hlay v vs n rest hv (by omega)
      rw [dumpsWith, cons_append, scanOnce_list, hcons, cons_append, skip_cons hc.1]
      split
      · rename_i heq
        exact absurd (List.cons.inj heq).1 hc.2.1
      · rw [← cons_append, ← hcons, hscan]
        rfl
  | .dict [], n + 1, rest, _, _, _ => by
      rw [dumpsWith, dumpsFields, scanOnce.eq_def]
      rfl
  | .dict (e :: es), n + 1, rest, hv, hn, _ => by
      rw [dumpsWith, length_cons] at hn
      obtain ⟨t, hcons⟩ := exists_head_dumpsFields fl lay e es
      have hscan := scanFields_dumps hlay e es n rest hv.2 (by omega)
      have hwrites : Dict.writes Prod.fst Prod.snd (e :: es) [] = e :: es := by
        refine (Dict.writes_eq_append (by simpa [Dict.keys] using hv.1)).trans ?_
        simp
      rw [dumpsWith, cons_append, scanOnce_dict, hcons, cons_append, skip_cons rfl]
      split
      · rename_i heq
        cases heq
      · rw [← cons_append, ← hcons, hscan, ok_bind]
        dsimp only
        rw [hwrites]

/-- Written items are read back. -/
theorem scanItems_dumps (hlay : lay.Plain) : ∀ (v : PyValue F) (vs : List (PyValue F)) (n : Nat)
    (rest : Text), PyValue.HasKeysItems (fun _ => True) (v :: vs) →
    2 * (dumpsItems fl.repr lay (v :: vs)).length + 1 ≤ n →
    scanItems fl n (dumpsItems fl.repr lay (v :: vs) ++ rest) = .ok (v :: vs, rest)
  | _, _, 0, _, _, hn => by omega
  | v, [], n + 1, rest, hv, hn => by
      rw [dumpsItems, length_append] at hn
      have hclosed : Closed (']' :: rest) := Closed.cons (by decide)
      have hscan := scanOnce_dumps hlay v n (']' :: rest) hv.1 (by omega) hclosed
      rw [dumpsItems, List.append_assoc, scanItems.eq_def]
      dsimp only
      rw [singleton_append, hscan, ok_bind]
      rfl
  | v, w :: vs, n + 1, rest, hv, hn => by
      rw [dumpsItems, length_append, length_append] at hn
      obtain ⟨c, t, hcons, hc⟩ := exists_head_dumpsItems fl lay w vs
      have hself : skip (dumpsItems fl.repr lay (w :: vs) ++ rest) =
          dumpsItems fl.repr lay (w :: vs) ++ rest := by
        rw [hcons, cons_append, skip_cons hc.1]
      obtain ⟨tail, hitem, hskip⟩ := skip_item hlay hself
      have hclosed : Closed (',' :: tail) := Closed.cons (by decide)
      have hpos : 1 ≤ lay.item.length := by
        rcases hlay.item with hitem | hitem <;> rw [hitem] <;> simp
      have hscan := scanOnce_dumps hlay v n (',' :: tail) hv.1 (by omega) hclosed
      have hrest := scanItems_dumps hlay w vs n rest hv.2 (by omega)
      rw [dumpsItems, List.append_assoc, List.append_assoc, hitem, scanItems.eq_def]
      dsimp only
      rw [hscan, ok_bind]
      dsimp only
      rw [skip_cons rfl]
      change (scanItems fl n (skip tail) >>= fun r => .ok (v :: r.1, r.2)) = _
      rw [hskip, hrest]
      rfl

/-- Written members are read back. -/
theorem scanFields_dumps (hlay : lay.Plain) : ∀ (e : String × PyValue F)
    (es : List (String × PyValue F)) (n : Nat) (rest : Text),
    PyValue.HasKeysFields (fun _ => True) (e :: es) →
    2 * (dumpsFields fl.repr lay (e :: es)).length + 1 ≤ n →
    scanFields fl n (dumpsFields fl.repr lay (e :: es) ++ rest) = .ok (e :: es, rest)
  | _, _, 0, _, _, hn => by omega
  | (k, v), [], n + 1, rest, hv, hn => by
      simp only [dumpsFields, length_append] at hn
      have hclosed : Closed ('}' :: rest) := Closed.cons (by decide)
      have hscan := scanOnce_dumps hlay v n ('}' :: rest) hv.2.1 (by omega) hclosed
      obtain ⟨tail, hkey, hskip⟩ := skip_key hlay (skip_dumps fl lay v ('}' :: rest))
      obtain ⟨t, hquote, hstring⟩ := scanString_quote lay.ascii k (':' :: tail)
      rw [dumpsFields, List.append_assoc, List.append_assoc, List.append_assoc,
        singleton_append, hkey, hquote, scanFields_key, hstring, ok_bind]
      dsimp only
      rw [skip_cons rfl]
      change scanMember fl n (String.ofList k.toList) tail = _
      rw [scanMember, hskip, hscan, ok_bind]
      dsimp only
      rw [skip_cons rfl, String.ofList_toList]
      rfl
  | (k, v), w :: es, n + 1, rest, hv, hn => by
      simp only [dumpsFields, length_append] at hn
      obtain ⟨t', hcons⟩ := exists_head_dumpsFields fl lay w es
      have hself : skip (dumpsFields fl.repr lay (w :: es) ++ rest) =
          dumpsFields fl.repr lay (w :: es) ++ rest := by
        rw [hcons, cons_append, skip_cons rfl]
      obtain ⟨next, hitem, hnext⟩ := skip_item hlay hself
      have hclosed : Closed (',' :: next) := Closed.cons (by decide)
      have hpos : 1 ≤ lay.item.length := by
        rcases hlay.item with hitem | hitem <;> rw [hitem] <;> simp
      have hscan := scanOnce_dumps hlay v n (',' :: next) hv.2.1 (by omega) hclosed
      have hrest := scanFields_dumps hlay w es n rest hv.2.2 (by omega)
      obtain ⟨tail, hkey, hskip⟩ := skip_key hlay (skip_dumps fl lay v (',' :: next))
      obtain ⟨t, hquote, hstring⟩ := scanString_quote lay.ascii k (':' :: tail)
      rw [dumpsFields, List.append_assoc, List.append_assoc, List.append_assoc, List.append_assoc,
        hitem, hkey, hquote, scanFields_key, hstring, ok_bind]
      dsimp only
      rw [skip_cons rfl]
      change scanMember fl n (String.ofList k.toList) tail = _
      rw [scanMember, hskip, hscan, ok_bind]
      dsimp only
      rw [skip_cons rfl, String.ofList_toList]
      change (scanFields fl n (skip next) >>= fun r => .ok ((k, v) :: r.1, r.2)) = _
      rw [hnext, hrest]
      rfl
end

/-- What is written is read back, with white space before and after it. -/
theorem loads_dumps (hlay : lay.Plain) {v : PyValue F} (hv : Keyed v) {before after : Text}
    (hbefore : ∀ c ∈ before, isWs c = true) (hafter : ∀ c ∈ after, isWs c = true) :
    loads fl (before ++ dumps fl lay v ++ after) = .ok v := by
  obtain ⟨c, t, hcons, hc, hbom⟩ := exists_head_dumps fl lay v
  have hskip : skip (before ++ dumps fl lay v ++ after) = dumps fl lay v ++ after := by
    rw [skip, List.append_assoc, dropWhile_append_of_pos hbefore, ← skip, dumps, skip_dumps fl lay]
  have hafter' : skip after = [] := dropWhile_eq_nil_iff.mpr hafter
  have hclosed : Closed after := by
    intro d hd
    have hws := hafter d (mem_of_mem_head? hd)
    have hfacts : ∀ d : Char, isWs d = true → d = ' ' ∨ d = '\t' ∨ d = '\n' ∨ d = '\r' := by
      intro d hd
      simpa [isWs, or_assoc] using hd
    rcases hfacts d hws with rfl | rfl | rfl | rfl <;> decide
  have hhead : (before ++ dumps fl lay v ++ after).head? ≠ some (Char.ofNat 0xfeff) := by
    cases before with
    | nil =>
      rw [nil_append, dumps, hcons]
      simpa using hbom
    | cons d before =>
      intro heq
      cases heq
      exact absurd (hbefore _ mem_cons_self) (by decide)
  rw [loads, if_neg hhead, hskip, dumps, scanOnce_dumps hlay v _ after hv _ hclosed, ok_bind]
  · dsimp only
    rw [hafter']
  · simp only [length_append]
    omega

end Zicato.Json
