import Zicato.JsonRound

/-! # Reading a prefix

The reader decides on what it has read: a value it has taken from a text it also takes
from a longer one, unless the text ended in a number.  So no proper prefix of an object
is a value, and an object written after the beginning of another line completes
nothing. -/
open List
namespace Zicato.Json

/-! ## Numbers -/

section Numbers

variable {x : Text}

/-- The first character is not a digit. -/
def NoDigit (text : Text) : Prop := ∀ c ∈ text.head?, c.isDigit = false

theorem spanDigits_eq (text : Text) :
    spanDigits text = (text.takeWhile Char.isDigit, text.dropWhile Char.isDigit) :=
  span_eq_takeWhile_dropWhile Char.isDigit text

variable {t : Text}

theorem spanDigits_extend (h : NoDigit ((spanDigits t).2 ++ x)) :
    spanDigits (t ++ x) = ((spanDigits t).1, (spanDigits t).2 ++ x) := by
  rw [spanDigits_eq] at h ⊢
  rw [spanDigits_eq]
  induction t with
  | nil =>
    cases x with
    | nil => rfl
    | cons c x =>
      have hc : c.isDigit = false := h c rfl
      simp [hc]
  | cons c t ih =>
    by_cases hc : c.isDigit = true
    · rw [dropWhile_cons_of_pos hc] at h ⊢
      have := ih h
      rw [Prod.mk.injEq] at this
      rw [cons_append, takeWhile_cons_of_pos hc, dropWhile_cons_of_pos hc,
        takeWhile_cons_of_pos hc, this.1, this.2]
    · rw [cons_append, takeWhile_cons_of_neg hc, dropWhile_cons_of_neg hc,
        takeWhile_cons_of_neg hc, dropWhile_cons_of_neg hc]
      rfl

variable {d r : Text}

theorem digits?_extend (h : digits? t = some (d, r)) (hr : NoDigit (r ++ x)) :
    digits? (t ++ x) = some (d, r ++ x) := by
  cases t with
  | nil => cases h
  | cons c t =>
    rw [digits?] at h
    rw [cons_append, digits?]
    split at h
    · rename_i hc
      cases h
      rw [if_pos hc, spanDigits_extend hr]
    · cases h

theorem signedDigits?_extend (h : signedDigits? t = some (d, r)) (hr : NoDigit (r ++ x)) :
    signedDigits? (t ++ x) = some (d, r ++ x) := by
  cases t with
  | nil => cases h
  | cons c t =>
    rw [signedDigits?] at h
    rw [cons_append, signedDigits?]
    split at h
    · rename_i hc
      obtain ⟨⟨d', r'⟩, hdigits, heq⟩ := Option.map_eq_some_iff.mp h
      cases heq
      rw [if_pos hc, digits?_extend hdigits hr]
      rfl
    · rename_i hc
      rw [if_neg hc]
      exact digits?_extend h hr

/-- An exponent stays one when more text follows. -/
theorem exponent_extend {e : Text} (h : exponent t = (e, r)) (hr : Closed (r ++ x)) :
    exponent (t ++ x) = (e, r ++ x) ∧ ∀ c ∈ (t ++ x).head?, c.isDigit = false ∧ c ≠ '.' := by
  have hplain (heq : e = [] ∧ r = t) : exponent (t ++ x) = (e, r ++ x) ∧
      ∀ c ∈ (t ++ x).head?, c.isDigit = false ∧ c ≠ '.' := by
    obtain ⟨rfl, rfl⟩ := heq
    exact ⟨exponent_closed hr, fun c hc => ⟨(hr c hc).1, hr.noDot c hc⟩⟩
  cases t with
  | nil =>
    cases h
    exact hplain ⟨rfl, rfl⟩
  | cons c t =>
    rw [exponent] at h
    split at h
    · rename_i hc
      split at h
      · rename_i d r' hdigits
        cases h
        rw [cons_append, exponent, if_pos hc,
          signedDigits?_extend hdigits fun c hc => (hr c hc).1]
        refine ⟨rfl, fun c' hc' => ?_⟩
        cases hc'
        rcases hc with rfl | rfl <;> decide
      · cases h
        exact hplain ⟨rfl, rfl⟩
    · cases h
      exact hplain ⟨rfl, rfl⟩

/-- A fraction stays one when more text follows. -/
theorem fraction_extend {f : Text} (h : fraction t = (f, r))
    (hr : ∀ c ∈ (r ++ x).head?, c.isDigit = false ∧ c ≠ '.') :
    fraction (t ++ x) = (f, r ++ x) ∧ NoDigit (t ++ x) := by
  have hplain (heq : f = [] ∧ r = t) : fraction (t ++ x) = (f, r ++ x) ∧ NoDigit (t ++ x) := by
    obtain ⟨rfl, rfl⟩ := heq
    exact ⟨fraction_closed fun c hc => (hr c hc).2, fun c hc => (hr c hc).1⟩
  cases t with
  | nil =>
    cases h
    exact hplain ⟨rfl, rfl⟩
  | cons c t =>
    rw [fraction] at h
    split at h
    · rename_i hc
      split at h
      · rename_i d r' hdigits
        cases h
        rw [cons_append, fraction, if_pos hc, digits?_extend hdigits fun c hc => (hr c hc).1]
        refine ⟨rfl, fun c' hc' => ?_⟩
        cases hc'
        rw [hc]
        decide
      · cases h
        exact hplain ⟨rfl, rfl⟩
    · cases h
      exact hplain ⟨rfl, rfl⟩

/-- An integer stays one when more text follows. -/
theorem integer_extend (h : integer t = some (d, r)) (hr : NoDigit (r ++ x)) :
    integer (t ++ x) = some (d, r ++ x) := by
  cases t with
  | nil => cases h
  | cons c t =>
    rw [integer] at h
    rw [cons_append, integer]
    split at h
    · rename_i hc
      cases h
      rw [if_pos hc]
    · rename_i hc
      rw [if_neg hc]
      exact digits?_extend h hr

variable {F : Type} {read : Text → F}

variable {v : PyValue F}

theorem unsigned_extend {sign : Text} (h : unsigned read sign t = some (v, r))
    (hr : Closed (r ++ x)) : unsigned read sign (t ++ x) = some (v, r ++ x) := by
  obtain ⟨⟨d, r1⟩, hinteger, heq⟩ := Option.map_eq_some_iff.mp h
  cases hfraction : fraction r1 with
  | mk f r2 =>
    cases hexponent : exponent r2 with
    | mk e r3 =>
      simp only [hfraction, hexponent] at heq
      have hr3 : r = r3 := by
        split at heq <;> exact (congrArg Prod.snd heq).symm
      subst hr3
      obtain ⟨hexp, hhead⟩ := exponent_extend hexponent hr
      obtain ⟨hfrac, hdigit⟩ := fraction_extend hfraction hhead
      rw [unsigned, integer_extend hinteger hdigit, Option.map_some]
      simp only [hfrac, hexp]
      split at heq <;> rename_i hempty
      · have hv := congrArg Prod.fst heq
        rw [if_pos hempty, show v = .int (intOf (sign ++ d)) from hv.symm]
      · have hv := congrArg Prod.fst heq
        rw [if_neg hempty, show v = .float (read (sign ++ d ++ f ++ e)) from hv.symm]

/-- A number stays one when more text follows. -/
theorem number_extend (h : number read t = some (v, r)) (hr : Closed (r ++ x)) :
    number read (t ++ x) = some (v, r ++ x) := by
  rw [number.eq_def] at h
  split at h
  · exact unsigned_extend h hr
  · rename_i hminus
    cases t with
    | nil => cases h
    | cons c t =>
      have hc : c ≠ '-' := by
        rintro rfl
        exact hminus t rfl
      rw [number.eq_def]
      split
      · rename_i heq
        exact absurd (List.cons.inj heq).1 hc
      · exact unsigned_extend h hr

/-! ## Words -/

/-- The words, with what they stand for, in the order they are tried. -/
def words (read : Text → F) : List (Text × PyValue F) :=
  [(['n', 'u', 'l', 'l'], .none), (['t', 'r', 'u', 'e'], .bool true),
    (['f', 'a', 'l', 's', 'e'], .bool false), (nan, .float (read nan)),
    (infinity, .float (read infinity)), ('-' :: infinity, .float (read ('-' :: infinity)))]

/-- The beginning of a word is not a value. -/
theorem scalar_prefix_none : ∀ w ∈ words read, ∀ k < w.1.length,
    scalar read (w.1.take k) = none := by
  have hall : (words read).all (fun w => (List.range w.1.length).all
      fun k => (scalar read (w.1.take k)).isNone) = true := rfl
  intro w hw k hk
  have hword := all_eq_true.mp hall w hw
  exact Option.isNone_iff_eq_none.mp (all_eq_true.mp hword k (mem_range.mpr hk))

theorem word?_extend {token : Text} {w : PyValue F} (h : ∀ k < token.length, t ≠ token.take k) :
    word? token w (t ++ x) = (word? token w t).map fun r => (r.1, r.2 ++ x) := by
  by_cases ht : token <+: t
  · obtain ⟨r, rfl⟩ := ht
    rw [word?, word?, List.append_assoc, List.dropPrefix?_eq_some.mpr rfl,
      List.dropPrefix?_eq_some.mpr rfl]
    rfl
  · rw [word?_none ht, Option.map_none, word?_none]
    rintro ⟨r, hr⟩
    rcases append_eq_append_iff.mp hr with ⟨a, rfl, -⟩ | ⟨a, rfl, -⟩
    · exact ht ⟨a, rfl⟩
    · cases a with
      | nil => exact ht ⟨[], by simp⟩
      | cons c a => exact h t.length (by simp) (by simp)

theorem orElse_extend {o a b : Option (PyValue F × Text)} (h : (o <|> a) = some (v, r))
    (hab : a = some (v, r) → b = some (v, r ++ x)) :
    (o.map (fun r => (r.1, r.2 ++ x)) <|> b) = some (v, r ++ x) := by
  cases o with
  | none => exact hab h
  | some p =>
    cases h
    rfl

/-- A scalar stays one when more text follows. -/
theorem scalar_extend (h : scalar read t = some (v, r)) (hr : x = [] ∨ Closed (r ++ x)) :
    scalar read (t ++ x) = some (v, r ++ x) := by
  rcases hr with rfl | hr
  · rw [append_nil, append_nil, h]
  -- The text is no beginning of a word, so the words that match are the same.
  have hword (w : Text × PyValue F) (hw : w ∈ words read) :
      word? w.1 w.2 (t ++ x) = (word? w.1 w.2 t).map fun r => (r.1, r.2 ++ x) := by
    refine word?_extend fun k hk heq => ?_
    rw [heq, scalar_prefix_none w hw k hk] at h
    cases h
  simp only [words, forall_mem_cons] at hword
  obtain ⟨h1, h2, h3, h4, h5, h6, -⟩ := hword
  rw [scalar] at h
  rw [scalar, h1, h2, h3, h4, h5, h6]
  iterate 5 refine orElse_extend h fun h => ?_
  exact orElse_extend h fun h => number_extend h hr

/-! ## What a scalar is made of -/

/-- The text is `d` and then `r`, and no object begins in `d`. -/
def Leaves (d r t : Text) : Prop := t = d ++ r ∧ '{' ∉ d

theorem Leaves.nil (t : Text) : Leaves [] t t := ⟨rfl, not_mem_nil⟩

theorem Leaves.cons {d r t : Text} {c : Char} (h : Leaves d r t) (hc : c ≠ '{') :
    Leaves (c :: d) r (c :: t) :=
  ⟨by rw [h.1, cons_append], fun hmem => (mem_cons.mp hmem).elim (fun heq => hc heq.symm) h.2⟩

theorem Leaves.append {d' t' : Text} (h : Leaves d t' t) (h' : Leaves d' r t') :
    Leaves (d ++ d') r t :=
  ⟨by rw [h.1, h'.1, List.append_assoc], fun hmem => (mem_append.mp hmem).elim h.2 h'.2⟩

theorem leaves_spanDigits (t : Text) : Leaves (spanDigits t).1 (spanDigits t).2 t := by
  rw [spanDigits_eq]
  refine ⟨(takeWhile_append_dropWhile).symm, fun hmem => ?_⟩
  exact absurd (mem_takeWhile_imp hmem) (by decide)

theorem leaves_digits? (h : digits? t = some (d, r)) : Leaves d r t := by
  cases t with
  | nil => cases h
  | cons c t =>
    rw [digits?] at h
    split at h
    · rename_i hc
      cases h
      refine (leaves_spanDigits t).cons ?_
      rintro rfl
      exact absurd hc (by decide)
    · cases h

theorem leaves_signedDigits? (h : signedDigits? t = some (d, r)) : Leaves d r t := by
  cases t with
  | nil => cases h
  | cons c t =>
    rw [signedDigits?] at h
    split at h
    · rename_i hc
      obtain ⟨⟨d', r'⟩, hdigits, heq⟩ := Option.map_eq_some_iff.mp h
      cases heq
      refine (leaves_digits? hdigits).cons ?_
      rcases hc with rfl | rfl <;> decide
    · exact leaves_digits? h

theorem leaves_fraction (t : Text) : Leaves (fraction t).1 (fraction t).2 t := by
  cases t with
  | nil => exact Leaves.nil []
  | cons c t =>
    rw [fraction]
    split
    · rename_i hc
      split
      · rename_i d r hdigits
        exact (leaves_digits? hdigits).cons (by rw [hc]; decide)
      · exact Leaves.nil (c :: t)
    · exact Leaves.nil (c :: t)

theorem leaves_exponent (t : Text) : Leaves (exponent t).1 (exponent t).2 t := by
  cases t with
  | nil => exact Leaves.nil []
  | cons c t =>
    rw [exponent]
    split
    · rename_i hc
      split
      · rename_i d r hdigits
        refine (leaves_signedDigits? hdigits).cons ?_
        rcases hc with rfl | rfl <;> decide
      · exact Leaves.nil (c :: t)
    · exact Leaves.nil (c :: t)

theorem leaves_integer (h : integer t = some (d, r)) : Leaves d r t := by
  cases t with
  | nil => cases h
  | cons c t =>
    rw [integer] at h
    split at h
    · rename_i hc
      cases h
      subst hc
      exact (Leaves.nil r).cons (by decide)
    · exact leaves_digits? h

theorem leaves_unsigned {sign : Text} (h : unsigned read sign t = some (v, r)) :
    ∃ d, Leaves d r t := by
  obtain ⟨⟨d, r1⟩, hinteger, heq⟩ := Option.map_eq_some_iff.mp h
  have hfrac := leaves_fraction r1
  have hexp := leaves_exponent (fraction r1).2
  have hr : r = (exponent (fraction r1).2).2 := by
    dsimp only at heq
    split at heq <;> exact (congrArg Prod.snd heq).symm
  subst hr
  exact ⟨_, ((leaves_integer hinteger).append hfrac).append hexp⟩

theorem leaves_number (h : number read t = some (v, r)) : ∃ d, Leaves d r t := by
  rw [number.eq_def] at h
  split at h
  · obtain ⟨d, hd⟩ := leaves_unsigned h
    exact ⟨_, hd.cons (by decide)⟩
  · exact leaves_unsigned h

/-- What a scalar is read from. -/
theorem leaves_scalar (h : scalar read t = some (v, r)) : ∃ d, Leaves d r t := by
  have hword {token : Text} {w : PyValue F} (htoken : '{' ∉ token)
      (heq : word? token w t = some (v, r)) : ∃ d, Leaves d r t := by
    obtain ⟨rest, hdrop, heq⟩ := Option.map_eq_some_iff.mp heq
    cases heq
    exact ⟨token, List.dropPrefix?_eq_some.mp hdrop, htoken⟩
  have hstep {o a : Option (PyValue F × Text)} (ho : o = some (v, r) → ∃ d, Leaves d r t)
      (ha : a = some (v, r) → ∃ d, Leaves d r t) (h : (o <|> a) = some (v, r)) :
      ∃ d, Leaves d r t := by
    cases o with
    | none => exact ha h
    | some p => exact ho h
  rw [scalar] at h
  iterate 5 refine hstep (hword (by decide)) (fun h => ?_) h
  exact hstep (hword (by decide)) leaves_number h

end Numbers

/-! ## Strings -/

/-- What may stand between the quotes of a string: a quote stands after a backslash. -/
inductive Inside : Text → Prop
  | nil : Inside []
  | char {c : Char} {p : Text} : c ≠ '"' → Inside p → Inside (c :: p)
  | quote {p : Text} : Inside p → Inside ('\\' :: '"' :: p)

/-- A quote inside a string is escaped. -/
theorem Inside.before_quote {p : Text} (h : Inside p) : ∀ {a b : Text}, p = a ++ '"' :: b →
    ∃ a', a = a' ++ ['\\'] := by
  induction h with
  | nil => exact fun heq => absurd heq (by simp)
  | @char c p hc _ ih =>
    intro a b heq
    cases a with
    | nil => exact absurd (List.cons.inj heq).1 hc
    | cons d a =>
      obtain ⟨a', ha⟩ := ih (List.cons.inj heq).2
      exact ⟨d :: a', by rw [ha, List.cons_append]⟩
  | @quote p _ ih =>
    intro a b heq
    cases a with
    | nil => exact absurd (List.cons.inj heq).1 (by decide)
    | cons d a =>
      obtain ⟨rfl, htail⟩ := List.cons.inj heq
      cases a with
      | nil => exact ⟨[], rfl⟩
      | cons d' a =>
        obtain ⟨a', ha⟩ := ih (List.cons.inj htail).2
        exact ⟨'\\' :: d' :: a', by rw [ha, List.cons_append, List.cons_append]⟩

theorem hexVal4_quote {a b c d : Char} (h : '"' ∈ [a, b, c, d]) : hexVal4 a b c d = none := by
  have hquote : hexVal '"' = none := rfl
  rw [hexVal4]
  simp only [mem_cons, not_mem_nil, or_false] at h
  rcases h with rfl | rfl | rfl | rfl <;> rw [hquote]
  · rfl
  · cases hexVal a <;> rfl
  · cases hexVal a <;> cases hexVal b <;> rfl
  · cases hexVal a <;> cases hexVal b <;> cases hexVal c <;> rfl

variable {r : Text}

theorem consChar_eq_ok {c : Char} {y : Except String (Text × Text)} {s : Text}
    (h : consChar c y = .ok (s, r)) : ∃ s', s = c :: s' ∧ y = .ok (s', r) := by
  cases y with
  | error e => cases h
  | ok y =>
    cases h
    exact ⟨_, rfl, rfl⟩

theorem lone_eq_ok {high : Option Nat} {y : Except String (Text × Text)} {s : Text}
    (h : lone high y = .ok (s, r)) : ∃ s', y = .ok (s', r) := by
  cases high with
  | none => exact ⟨s, h⟩
  | some n =>
    obtain ⟨s', -, hy⟩ := consChar_eq_ok h
    exact ⟨s', hy⟩

/-- What is read of a longer text changes in what follows alone. -/
theorem lone_extend {high : Option Nat} {y y' : Except String (Text × Text)} {s r' : Text}
    (h : lone high y = .ok (s, r)) (hy : ∀ s, y = .ok (s, r) → y' = .ok (s, r')) :
    lone high y' = .ok (s, r') := by
  cases high with
  | none => exact hy s h
  | some n =>
    obtain ⟨s', rfl, hs⟩ := consChar_eq_ok h
    exact consChar_ok (hy s' hs)

variable {t : Text}

/-- A string ends with the first quote that is not escaped, whatever follows it. -/
theorem scanString_inside {high : Option Nat} {s : Text} (h : scanString high t = .ok (s, r)) :
    (∃ p, Inside p ∧ t = p ++ '"' :: r) ∧
      ∀ x, scanString high (t ++ x) = .ok (s, r ++ x) := by
  have hplain {c : Char} {t p : Text} (hc : c ≠ '"') (hp : Inside p ∧ t = p ++ '"' :: r) :
      ∃ p, Inside p ∧ c :: t = p ++ '"' :: r :=
    ⟨c :: p, hp.1.char hc, by rw [hp.2, cons_append]⟩
  have hhex {a b c d : Char} {t p : Text} (hquote : '"' ∉ [a, b, c, d])
      (hp : Inside p ∧ t = p ++ '"' :: r) :
      ∃ p, Inside p ∧ '\\' :: 'u' :: a :: b :: c :: d :: t = p ++ '"' :: r := by
    simp only [mem_cons, not_mem_nil, or_false, not_or] at hquote
    obtain ⟨ha, hb, hc, hd⟩ := hquote
    refine ⟨'\\' :: 'u' :: a :: b :: c :: d :: p, ?_, by rw [hp.2]; rfl⟩
    have hin := (((hp.1.char fun h => hd h.symm).char fun h => hc h.symm).char
      fun h => hb h.symm).char fun h => ha h.symm
    exact (hin.char (by decide)).char (by decide)
  have hvalid {high : Option Nat} {a b c d : Char} {e : HexEscape}
      (heq : hexEscape high (hexVal4 a b c d) = .ok e) : '"' ∉ [a, b, c, d] := by
    intro hmem
    rw [hexVal4_quote hmem] at heq
    cases high <;> cases heq
  have hchar {c : Char} {y y' : Except String (Text × Text)} {x : Text}
      (hy : ∀ s, y = .ok (s, r) → y' = .ok (s, r ++ x)) (s : Text)
      (h : consChar c y = .ok (s, r)) : consChar c y' = .ok (s, r ++ x) := by
    obtain ⟨s', rfl, hs⟩ := consChar_eq_ok h
    exact consChar_ok (hy s' hs)
  -- the cases of the scanner: the quote, the three hex escapes, a short escape, a character
  fun_induction scanString high t generalizing s with
  | case1 high rest =>
    obtain ⟨s', hs⟩ := lone_eq_ok h
    cases hs
    exact ⟨⟨[], .nil, rfl⟩, fun x => lone_extend h fun s hs => by cases hs; rfl⟩
  | case3 high a b c d rest high' heq ih =>
    obtain ⟨s', hs⟩ := lone_eq_ok h
    obtain ⟨p, hp⟩ := (ih hs).1
    refine ⟨hhex (hvalid heq) hp, fun x => ?_⟩
    simp only [cons_append]
    rw [scanString_u, heq]
    exact lone_extend h fun s hs => (ih hs).2 x
  | case4 high a b c d rest c' heq ih =>
    obtain ⟨s', rfl, hrest⟩ := consChar_eq_ok h
    obtain ⟨⟨p, hp⟩, hx⟩ := ih hrest
    refine ⟨hhex (hvalid heq) hp, fun x => ?_⟩
    simp only [cons_append]
    rw [scanString_u, heq]
    exact consChar_ok (hx x)
  | case5 high a b c d rest c' heq ih =>
    obtain ⟨s', hs⟩ := lone_eq_ok h
    obtain ⟨s', rfl, hrest⟩ := consChar_eq_ok hs
    obtain ⟨p, hp⟩ := (ih hrest).1
    refine ⟨hhex (hvalid heq) hp, fun x => ?_⟩
    simp only [cons_append]
    rw [scanString_u, heq]
    exact lone_extend h (hchar fun s hs => (ih hs).2 x)
  | case7 high e rest hu c heq ih =>
    have hne : e ≠ 'u' := by
      rintro rfl
      cases heq
    obtain ⟨s', hs⟩ := lone_eq_ok h
    obtain ⟨s', rfl, hrest⟩ := consChar_eq_ok hs
    obtain ⟨p, hp⟩ := (ih hrest).1
    constructor
    · by_cases he : e = '"'
      · subst he
        exact ⟨'\\' :: '"' :: p, hp.1.quote, by rw [hp.2]; rfl⟩
      · obtain ⟨p', hp'⟩ := hplain he hp
        exact hplain (by decide) hp'
    · intro x
      rw [List.cons_append, List.cons_append, scanString_short hne heq]
      exact lone_extend h (hchar fun s hs => (ih hs).2 x)
  | case10 high c rest hquote hu hslash hctrl hne ih =>
    obtain ⟨s', hs⟩ := lone_eq_ok h
    obtain ⟨s', rfl, hrest⟩ := consChar_eq_ok hs
    obtain ⟨p, hp⟩ := (ih hrest).1
    refine ⟨hplain hquote hp, fun x => ?_⟩
    rw [List.cons_append, scanString_char hquote hne hctrl]
    exact lone_extend h (hchar fun s hs => (ih hs).2 x)
  | case2 | case6 | case8 | case9 | case11 => cases h

/-! ## Values -/

variable {F : Type} {fl : Floats F} {x : Text}

/-- What follows white space is also there in a longer text. -/
theorem skip_extend {r r' : Text} {c : Char} (h : skip r = c :: r') :
    skip (r ++ x) = c :: (r' ++ x) := by
  rw [skip] at h ⊢
  rw [List.dropWhile_append, h]
  rfl

theorem isWs_closed {c : Char} (h : isWs c = true) : c.isDigit = false ∧ c ∉ ['.', 'e', 'E'] := by
  have hc : c = ' ' ∨ c = '\t' ∨ c = '\n' ∨ c = '\r' := by simpa [isWs, or_assoc] using h
  rcases hc with rfl | rfl | rfl | rfl <;> decide

variable (x) in
/-- A value that is followed by punctuation is closed. -/
theorem closed_of_skip {r r' : Text} {c : Char} (h : skip r = c :: r')
    (hc : c.isDigit = false ∧ c ∉ ['.', 'e', 'E']) : Closed (r ++ x) := by
  cases r with
  | nil => cases h
  | cons d r =>
    refine Closed.cons ?_
    by_cases hd : isWs d = true
    · exact isWs_closed hd
    · rw [skip_cons (Bool.not_eq_true _ ▸ hd)] at h
      rw [(List.cons.inj h).1]
      exact hc

/-- How `scan_once` takes a value. -/
inductive Once (fl : Floats F) (n : Nat) : Text → PyValue F → Text → Prop
  | str {t s r : Text} : scanString none t = .ok (s, r) →
      Once fl n ('"' :: t) (.str (String.ofList s)) r
  | noItems {t r : Text} : skip t = ']' :: r → Once fl n ('[' :: t) (.list []) r
  | list {t r : Text} {items : List (PyValue F)} : (∀ r', skip t ≠ ']' :: r') →
      scanItems fl n (skip t) = .ok (items, r) → Once fl n ('[' :: t) (.list items) r
  | noFields {t r : Text} : skip t = '}' :: r → Once fl n ('{' :: t) (.dict []) r
  | dict {t r : Text} {fields : List (String × PyValue F)} : (∀ r', skip t ≠ '}' :: r') →
      scanFields fl n (skip t) = .ok (fields, r) →
      Once fl n ('{' :: t) (.dict (Dict.writes Prod.fst Prod.snd fields [])) r
  | scalar {t r : Text} {v : PyValue F} : (∀ c ∈ t.head?, c ≠ '"' ∧ c ≠ '[' ∧ c ≠ '{') →
      scalar fl.read t = some (v, r) → Once fl n t v r

/-- How the items of a list are taken. -/
inductive Items (fl : Floats F) (n : Nat) : Text → List (PyValue F) → Text → Prop
  | last {t r r' : Text} {v : PyValue F} : scanOnce fl n t = .ok (v, r') → skip r' = ']' :: r →
      Items fl n t [v] r
  | more {t r r' next : Text} {v : PyValue F} {vs : List (PyValue F)} :
      scanOnce fl n t = .ok (v, r') → skip r' = ',' :: next →
      scanItems fl n (skip next) = .ok (vs, r) → Items fl n t (v :: vs) r

/-- How the value of a key and the items after it are taken. -/
inductive Member (fl : Floats F) (n : Nat) (k : String) :
    Text → List (String × PyValue F) → Text → Prop
  | last {t r r' : Text} {v : PyValue F} : scanOnce fl n (skip t) = .ok (v, r') →
      skip r' = '}' :: r → Member fl n k t [(k, v)] r
  | more {t r r' next : Text} {v : PyValue F} {es : List (String × PyValue F)} :
      scanOnce fl n (skip t) = .ok (v, r') → skip r' = ',' :: next →
      scanFields fl n (skip next) = .ok (es, r) → Member fl n k t ((k, v) :: es) r

/-- How the items of an object are taken. -/
inductive Fields (fl : Floats F) (n : Nat) : Text → List (String × PyValue F) → Text → Prop
  | key {t k r r' next : Text} {es : List (String × PyValue F)} :
      scanString none t = .ok (k, r') → skip r' = ':' :: next →
      Member fl n (String.ofList k) next es r → Fields fl n ('"' :: t) es r

variable {n : Nat} {v : PyValue F}

/-- The scanner accepts what the grammar does. -/
theorem scanOnce_iff : scanOnce fl (n + 1) t = .ok (v, r) ↔ Once fl n t v r := by
  constructor
  · intro h
    rw [scanOnce.eq_def] at h
    dsimp only at h
    split at h
    · obtain ⟨⟨s, r'⟩, hscan, h⟩ := bind_eq_ok h
      cases h
      exact .str hscan
    · split at h
      · rename_i heq
        cases h
        exact .noItems heq
      · rename_i hne
        obtain ⟨⟨items, r'⟩, hscan, h⟩ := bind_eq_ok h
        cases h
        exact .list hne hscan
    · split at h
      · rename_i heq
        cases h
        exact .noFields heq
      · rename_i hne
        obtain ⟨⟨fields, r'⟩, hscan, h⟩ := bind_eq_ok h
        cases h
        exact .dict hne hscan
    · rename_i hstr hlist hdict
      split at h
      · rename_i heq
        cases h
        refine .scalar (fun c hc => ?_) heq
        obtain ⟨tail, rfl⟩ := head?_eq_some_iff.mp hc
        exact ⟨fun hc => hstr tail (by rw [hc]), fun hc => hlist tail (by rw [hc]),
          fun hc => hdict tail (by rw [hc])⟩
      · cases h
  · rintro (h | h | ⟨hne, h⟩ | h | ⟨hne, h⟩ | ⟨hhead, h⟩)
    · rw [scanOnce_str, h]
      rfl
    · rw [scanOnce_list, h]
      rfl
    · rw [scanOnce_list]
      split
      · rename_i heq
        exact absurd heq (hne _)
      · rw [h]
        rfl
    · rw [scanOnce_dict, h]
      rfl
    · rw [scanOnce_dict]
      split
      · rename_i heq
        exact absurd heq (hne _)
      · rw [h]
        rfl
    · exact scanOnce_scalar h hhead n

variable {vs : List (PyValue F)}

/-- So it does for the items of an array. -/
theorem scanItems_iff : scanItems fl (n + 1) t = .ok (vs, r) ↔ Items fl n t vs r := by
  constructor
  · intro h
    rw [scanItems.eq_def] at h
    obtain ⟨⟨v, r'⟩, hscan, h⟩ := bind_eq_ok h
    dsimp only at h
    split at h
    · rename_i heq
      cases h
      exact .last hscan heq
    · rename_i heq
      obtain ⟨⟨vs', r''⟩, hrest, h⟩ := bind_eq_ok h
      cases h
      exact .more hscan heq hrest
    · cases h
  · intro h
    rw [scanItems.eq_def]
    cases h with
    | last h hskip =>
      dsimp only
      rw [h, ok_bind]
      dsimp only
      rw [hskip]
      rfl
    | @more _ _ next v vs h hskip hrest =>
      dsimp only
      rw [h, ok_bind]
      dsimp only
      rw [hskip]
      change (scanItems fl n (skip next) >>= fun r => .ok (v :: r.1, r.2)) = _
      rw [hrest]
      rfl

variable {es : List (String × PyValue F)}

/-- So it does for a member. -/
theorem scanMember_iff {k : String} : scanMember fl n k t = .ok (es, r) ↔ Member fl n k t es r := by
  constructor
  · intro h
    obtain ⟨⟨v, r'⟩, hscan, h⟩ := bind_eq_ok h
    dsimp only at h
    split at h
    · rename_i heq
      cases h
      exact .last hscan heq
    · rename_i heq
      obtain ⟨⟨es', r''⟩, hrest, h⟩ := bind_eq_ok h
      cases h
      exact .more hscan heq hrest
    · cases h
  · intro h
    rw [scanMember]
    cases h with
    | last h hskip =>
      rw [h, ok_bind]
      dsimp only
      rw [hskip]
      rfl
    | @more _ _ next v es h hskip hrest =>
      rw [h, ok_bind]
      dsimp only
      rw [hskip]
      change (scanFields fl n (skip next) >>= fun r => .ok ((k, v) :: r.1, r.2)) = _
      rw [hrest]
      rfl

/-- So it does for the members of an object. -/
theorem scanFields_iff : scanFields fl (n + 1) t = .ok (es, r) ↔ Fields fl n t es r := by
  constructor
  · intro h
    cases t with
    | nil => cases h
    | cons c t =>
      by_cases hc : c = '"'
      · subst hc
        rw [scanFields_key] at h
        obtain ⟨⟨k, r'⟩, hscan, h⟩ := bind_eq_ok h
        dsimp only at h
        split at h
        · rename_i heq
          exact .key hscan heq (scanMember_iff.mp h)
        · cases h
      · rw [scanFields.eq_def] at h
        dsimp only at h
        split at h
        · rename_i heq
          exact absurd (List.cons.inj heq).1 hc
        · cases h
  · rintro ⟨hscan, hskip, hmember⟩
    rw [scanFields_key, hscan, ok_bind]
    dsimp only
    rw [hskip]
    exact scanMember_iff.mpr hmember

theorem scanOnce_ne_nil (h : scanOnce fl n t = .ok (v, r)) : t ≠ [] := by
  rintro rfl
  cases n <;> cases h

theorem scanItems_ne_nil (h : scanItems fl n t = .ok (vs, r)) : t ≠ [] := by
  cases n with
  | zero => cases h
  | succ n =>
    cases scanItems_iff.mp h with
    | last hscan _ => exact scanOnce_ne_nil hscan
    | more hscan _ _ => exact scanOnce_ne_nil hscan

theorem scanFields_ne_nil (h : scanFields fl n t = .ok (es, r)) : t ≠ [] := by
  rintro rfl
  cases n <;> cases h

/-- Where something follows white space, it is what also follows it in a longer text. -/
theorem skip_append (h : skip t ≠ []) : skip (t ++ x) = skip t ++ x := by
  obtain ⟨c, t', hcons⟩ := exists_cons_of_ne_nil h
  rw [skip_extend hcons, hcons, cons_append]

/-- Each of the readers takes from a longer text what it takes from this one. -/
structure Extends (fl : Floats F) (n : Nat) : Prop where
  once : ∀ {t r : Text} {v : PyValue F}, scanOnce fl n t = .ok (v, r) → ∀ x,
    x = [] ∨ Closed (r ++ x) → ∀ m, n ≤ m → scanOnce fl m (t ++ x) = .ok (v, r ++ x)
  items : ∀ {t r : Text} {vs : List (PyValue F)}, scanItems fl n t = .ok (vs, r) → ∀ x m, n ≤ m →
    scanItems fl m (t ++ x) = .ok (vs, r ++ x)
  fields : ∀ {t r : Text} {es : List (String × PyValue F)}, scanFields fl n t = .ok (es, r) →
    ∀ x m, n ≤ m → scanFields fl m (t ++ x) = .ok (es, r ++ x)

variable {m : Nat}

section
variable (ih : Extends fl n) (hm : n ≤ m)
include ih hm

/-- A value stays one when more text follows. -/
theorem Once.extend (h : Once fl n t v r) (hx : x = [] ∨ Closed (r ++ x)) : Once fl m (t ++ x) v (r ++ x) := by
  have hne {t : Text} {d : Char} (hne : ∀ r', skip t ≠ d :: r') (hskip : skip t ≠ []) :
      ∀ r', skip (t ++ x) ≠ d :: r' := by
    intro r' heq
    obtain ⟨c, t', hcons⟩ := exists_cons_of_ne_nil hskip
    rw [skip_extend hcons] at heq
    exact hne t' (by rw [hcons, (List.cons.inj heq).1])
  cases h with
  | str h => exact .str ((scanString_inside h).2 x)
  | noItems h => exact .noItems (skip_extend h)
  | list hend h =>
    have hskip := scanItems_ne_nil h
    exact .list (hne hend hskip) (skip_append hskip ▸ ih.items h x m hm)
  | noFields h => exact .noFields (skip_extend h)
  | dict hend h =>
    have hskip := scanFields_ne_nil h
    exact .dict (hne hend hskip) (skip_append hskip ▸ ih.fields h x m hm)
  | scalar hhead h =>
    refine .scalar (fun c hc => hhead c ?_) (scalar_extend h hx)
    cases t with
    | nil => cases h
    | cons d t => exact hc

theorem Items.extend (h : Items fl n t vs r) : Items fl m (t ++ x) vs (r ++ x):= by
  cases h with
  | last h hskip =>
    have hclosed := closed_of_skip x hskip (by decide)
    exact .last (ih.once h x (.inr hclosed) m hm) (skip_extend hskip)
  | more h hskip hrest =>
    have hclosed := closed_of_skip x hskip (by decide)
    refine .more (ih.once h x (.inr hclosed) m hm) (skip_extend hskip) ?_
    rw [skip_append (scanItems_ne_nil hrest)]
    exact ih.items hrest x m hm

/-- A member stays one when more text follows. -/
theorem Member.extend {k : String} (h : Member fl n k t es r) : Member fl m k (t ++ x) es (r ++ x):= by
  cases h with
  | last h hskip =>
    have hclosed := closed_of_skip x hskip (by decide)
    refine .last ?_ (skip_extend hskip)
    rw [skip_append (scanOnce_ne_nil h)]
    exact ih.once h x (.inr hclosed) m hm
  | more h hskip hrest =>
    have hclosed := closed_of_skip x hskip (by decide)
    refine .more ?_ (skip_extend (x := x) hskip) ?_
    · rw [skip_append (scanOnce_ne_nil h)]
      exact ih.once h x (.inr hclosed) m hm
    · rw [skip_append (scanFields_ne_nil hrest)]
      exact ih.fields hrest x m hm

theorem Fields.extend (h : Fields fl n t es r) : Fields fl m (t ++ x) es (r ++ x):= by
  obtain ⟨hscan, hskip, hmember⟩ := h
  exact .key ((scanString_inside hscan).2 x) (skip_extend hskip) (hmember.extend ih hm)

end

/-- What is read is also read with more fuel and from a longer text. -/
theorem scan_extend : ∀ n, Extends fl n := by
  intro n
  induction n with
  | zero =>
    constructor <;> intro _ _ _ h <;> cases h
  | succ n ih =>
    constructor
    · intro t r v h x hx m hm
      obtain ⟨m, rfl⟩ := Nat.exists_eq_succ_of_ne_zero (by omega : m ≠ 0)
      exact scanOnce_iff.mpr ((scanOnce_iff.mp h).extend ih (by omega) hx)
    · intro t r vs h x m hm
      obtain ⟨m, rfl⟩ := Nat.exists_eq_succ_of_ne_zero (by omega : m ≠ 0)
      exact scanItems_iff.mpr ((scanItems_iff.mp h).extend ih (by omega))
    · intro t r es h x m hm
      obtain ⟨m, rfl⟩ := Nat.exists_eq_succ_of_ne_zero (by omega : m ≠ 0)
      exact scanFields_iff.mpr ((scanFields_iff.mp h).extend ih (by omega))

/-- The text of a value leaves nothing, however much fuel there is. -/
theorem scanOnce_dumps_nil {lay : Layout} (hlay : lay.Plain) {w : PyValue F} (hv : Keyed v)
    (h : scanOnce fl n (dumps fl lay v) = .ok (w, r)) : w = v ∧ r = [] := by
  have hbig : scanOnce fl (n + 2 * (dumpsWith fl.repr lay v).length)
      (dumpsWith fl.repr lay v ++ []) = .ok (v, []) :=
    scanOnce_dumps hlay v _ [] hv (by omega) Closed.nil
  have hsame := (scan_extend n).once h [] (.inl rfl)
    (n + 2 * (dumpsWith fl.repr lay v).length) (by omega)
  rw [dumps, hbig] at hsame
  have heq := Except.ok.inj hsame
  rw [Prod.mk.injEq, append_nil] at heq
  exact ⟨heq.1.symm, heq.2.symm⟩

/-! ## Objects after a torn line -/

/-- The text of an object whose first key begins with a plain character. -/
structure Frame (fl : Floats F) (c : Char) (tl : Text) : Prop where
  char : isWs c = false ∧ c ∉ [':', ',', ']', '}']
  /-- The object leaves nothing. -/
  whole : ∀ {n : Nat} {v : PyValue F} {r : Text},
    scanOnce fl n ('{' :: '"' :: c :: tl) = .ok (v, r) → r = []

section Merged

variable {c : Char} {tl : Text}

/-- What a reader leaves of a text that ends in an object: the object, or its inside. -/
def Spoilt (c : Char) (tl r : Text) : Prop :=
  (∃ t', r = t' ++ '{' :: '"' :: c :: tl) ∨ r = c :: tl

variable {t r : Text}

/-- A string that runs into the next record swallows its brace. -/
theorem spoilt_scanString {high : Option Nat} {s : Text}
    (h : scanString high (t ++ '{' :: '"' :: c :: tl) = .ok (s, r)) : Spoilt c tl r := by
  obtain ⟨⟨p, hp, heq⟩, -⟩ := scanString_inside h
  rcases append_eq_append_iff.mp heq with ⟨a, rfl, ha⟩ | ⟨a, rfl, ha⟩
  · cases a with
    | nil => cases (List.cons.inj ha).1
    | cons d a =>
      cases a with
      | nil => exact .inr (List.cons.inj (List.cons.inj ha).2).2.symm
      | cons d' a =>
        -- The quote that opens the first key follows no backslash.
        have hd := (List.cons.inj ha).1
        have hd' := (List.cons.inj (List.cons.inj ha).2).1
        subst hd hd'
        obtain ⟨a', ha'⟩ := hp.before_quote (a := t ++ ['{']) (b := a) (by simp)
        have hlast := append_inj_right' ha' rfl
        cases hlast
  · cases a with
    | nil => cases (List.cons.inj ha).1
    | cons d a =>
      refine .inl ⟨a, (List.cons.inj ha).2⟩

theorem skip_frame (t : Text) :
    skip (t ++ '{' :: '"' :: c :: tl) = skip t ++ '{' :: '"' :: c :: tl := by
  by_cases h : skip t = []
  · rw [skip, dropWhile_append, ← skip, h]
    rfl
  · exact skip_append h

theorem exists_frame_tail {d : Char} (h : t ++ '{' :: '"' :: c :: tl = d :: r) (hd : d ≠ '{') :
    ∃ t', t = d :: t' ∧ r = t' ++ '{' :: '"' :: c :: tl := by
  cases t with
  | nil => exact absurd (List.cons.inj h).1.symm hd
  | cons e t =>
    obtain ⟨rfl, hr⟩ := List.cons.inj h
    exact ⟨t, rfl, hr.symm⟩

theorem Spoilt.after (hf : Frame fl c tl) {r' : Text} {d : Char} (h : Spoilt c tl r')
    (hskip : skip r' = d :: r) (hd : d ∈ [':', ',', ']', '}']) :
    ∃ t', r = t' ++ '{' :: '"' :: c :: tl := by
  rcases h with ⟨t', rfl⟩ | rfl
  · have hne : d ≠ '{' := by
      rintro rfl
      exact absurd hd (by decide)
    rw [skip_frame] at hskip
    obtain ⟨t'', -, hr⟩ := exists_frame_tail hskip hne
    exact ⟨t'', hr⟩
  · rw [skip_cons hf.char.1] at hskip
    exact absurd ((List.cons.inj hskip).1 ▸ hd) hf.char.2

/-- Before an object no reader that has begun comes to an end of its own. -/
structure Merges (fl : Floats F) (c : Char) (tl : Text) (n : Nat) : Prop where
  once : ∀ {t r : Text} {v : PyValue F}, t ≠ [] →
    scanOnce fl n (t ++ '{' :: '"' :: c :: tl) = .ok (v, r) → Spoilt c tl r
  items : ∀ {t r : Text} {vs : List (PyValue F)},
    scanItems fl n (t ++ '{' :: '"' :: c :: tl) = .ok (vs, r) →
      ∃ t', r = t' ++ '{' :: '"' :: c :: tl
  fields : ∀ {t r : Text} {es : List (String × PyValue F)},
    scanFields fl n (t ++ '{' :: '"' :: c :: tl) = .ok (es, r) →
      ∃ t', r = t' ++ '{' :: '"' :: c :: tl

variable {n : Nat}

section
variable (ih : Merges fl c tl n)
include ih

/-- What comes after a value is not the end of the object. -/
theorem Merges.after (hf : Frame fl c tl) {r' : Text} {d : Char}
    (h : scanOnce fl n (t ++ '{' :: '"' :: c :: tl) = .ok (v, r')) (hskip : skip r' = d :: r)
    (hd : d ∈ [':', ',', ']', '}']) : ∃ t', r = t' ++ '{' :: '"' :: c :: tl := by
  by_cases ht : t = []
  · subst ht
    rw [hf.whole h] at hskip
    cases hskip
  · exact (ih.once ht h).after hf hskip hd

/-- A value that goes on beyond its line swallows the next record. -/
theorem Once.merges {text : Text} (ht : t ≠ []) (htext : text = t ++ '{' :: '"' :: c :: tl)
    (h : Once fl n text v r) : Spoilt c tl r := by
  obtain ⟨d, t, rfl⟩ := exists_cons_of_ne_nil ht
  cases h with
  | str h =>
    rw [(List.cons.inj htext).2] at h
    exact spoilt_scanString h
  | noItems h | noFields h =>
    rw [(List.cons.inj htext).2, append_eq, skip_frame] at h
    obtain ⟨t', -, hr⟩ := exists_frame_tail h (by decide)
    exact .inl ⟨t', hr⟩
  | list _ h =>
    rw [(List.cons.inj htext).2, append_eq, skip_frame] at h
    exact .inl (ih.items h)
  | dict _ h =>
    rw [(List.cons.inj htext).2, append_eq, skip_frame] at h
    exact .inl (ih.fields h)
  | scalar _ h =>
    obtain ⟨p, hp, hbrace⟩ := leaves_scalar h
    rw [hp] at htext
    rcases append_eq_append_iff.mp htext with ⟨a, -, hr⟩ | ⟨a, rfl, hr⟩
    · exact .inl ⟨a, hr⟩
    · cases a with
      | nil => exact .inl ⟨[], hr.symm⟩
      | cons e a =>
        have he := (List.cons.inj hr).1
        subst he
        exact absurd (mem_append_right _ mem_cons_self) hbrace

theorem Items.merges (hf : Frame fl c tl) (h : Items fl n (t ++ '{' :: '"' :: c :: tl) vs r) : ∃ t', r = t' ++ '{' :: '"' :: c :: tl := by
  cases h with
  | last h hskip => exact ih.after hf h hskip (by decide)
  | more h hskip hrest =>
    obtain ⟨t', rfl⟩ := ih.after hf h hskip (by decide)
    rw [skip_frame] at hrest
    exact ih.items hrest

theorem Member.merges (hf : Frame fl c tl) {k : String}
    (h : Member fl n k (t ++ '{' :: '"' :: c :: tl) es r) : ∃ t', r = t' ++ '{' :: '"' :: c :: tl:= by
  cases h with
  | last h hskip =>
    rw [skip_frame] at h
    exact ih.after hf h hskip (by decide)
  | more h hskip hrest =>
    rw [skip_frame] at h
    obtain ⟨t', rfl⟩ := ih.after hf h hskip (by decide)
    rw [skip_frame] at hrest
    exact ih.fields hrest

theorem Fields.merges (hf : Frame fl c tl) {text : Text} (htext : text = t ++ '{' :: '"' :: c :: tl)
    (h : Fields fl n text es r) : ∃ t', r = t' ++ '{' :: '"' :: c :: tl:= by
  obtain ⟨hscan, hskip, hmember⟩ := h
  obtain ⟨t0, -, rfl⟩ := exists_frame_tail htext.symm (by decide)
  obtain ⟨next, rfl⟩ := (spoilt_scanString hscan).after hf hskip (by decide)
  exact hmember.merges ih hf

end

theorem scan_merges (hf : Frame fl c tl) : ∀ n, Merges fl c tl n := by
  intro n
  induction n with
  | zero =>
    refine ⟨fun _ h => ?_, fun h => ?_, fun h => ?_⟩ <;> cases h
  | succ n ih =>
    refine ⟨fun ht h => ?_, fun h => ?_, fun h => ?_⟩
    · exact (scanOnce_iff.mp h).merges ih ht rfl
    · exact (scanItems_iff.mp h).merges ih hf
    · exact (scanFields_iff.mp h).merges ih hf rfl

/-- An object written after the beginning of another line is not read, nor is what stands
before it. -/
theorem loads_merged (hf : Frame fl c tl) (ht : ∃ d ∈ t, isWs d = false) (v : PyValue F) :
    loads fl (t ++ '{' :: '"' :: c :: tl) ≠ .ok v := by
  intro h
  have hskip : skip t ≠ [] := by
    intro hnil
    obtain ⟨d, hd, hws⟩ := ht
    rw [dropWhile_eq_nil_iff.mp hnil d hd] at hws
    cases hws
  rw [loads] at h
  split at h
  · cases h
  · obtain ⟨⟨w, r⟩, hscan, h⟩ := bind_eq_ok h
    rw [skip_frame] at hscan
    dsimp only at h
    split at h
    · rename_i hr
      rcases (scan_merges hf _).once hskip hscan with ⟨t', rfl⟩ | rfl
      · rw [skip_frame] at hr
        exact absurd hr (by simp)
      · rw [skip_cons hf.char.1] at hr
        cases hr
    · cases h

end Merged

theorem escape_of_isAlpha (ascii : Bool) {c : Char} (h : c.isAlpha = true) :
    escape ascii c = [c] := by
  have hne {d : Char} (hd : d.isAlpha = false) : c ≠ d := by
    rintro rfl
    rw [h] at hd
    cases hd
  have hc : (65 ≤ c.toNat ∧ c.toNat ≤ 90) ∨ (97 ≤ c.toNat ∧ c.toNat ≤ 122) := by
    unfold Char.isAlpha Char.isUpper Char.isLower at h
    simp only [Bool.or_eq_true, Bool.and_eq_true,
      decide_eq_true_eq, UInt32.le_iff_toNat_le, ge_iff_le] at h
    exact h
  rw [escape, if_neg (hne rfl), if_neg (hne rfl), if_neg (hne rfl), if_neg (hne rfl),
    if_neg (hne rfl), if_neg (by omega), if_neg (by omega), if_neg (by omega), if_neg]
  rintro ⟨-, hbig⟩
  omega

/-- The text of an object whose first key begins with a letter. -/
theorem exists_frame {lay : Layout} (hlay : lay.Plain) {k : String} {v : PyValue F}
    {rest : List (String × PyValue F)} (hkeyed : Keyed (.dict ((k, v) :: rest))) {c : Char}
    {s : Text} (hk : k.toList = c :: s) (hc : c.isAlpha = true) :
    ∃ tl, dumps fl lay (.dict ((k, v) :: rest)) = '{' :: '"' :: c :: tl ∧ Frame fl c tl := by
  have htext : ∃ tl, dumps fl lay (.dict ((k, v) :: rest)) = '{' :: '"' :: c :: tl := by
    have hquote (more : Text) : ∃ tl, quote lay.ascii k ++ more = '"' :: c :: tl := by
      refine ⟨s.flatMap (escape lay.ascii) ++ ['"'] ++ more, ?_⟩
      rw [quote, hk, flatMap_cons, escape_of_isAlpha lay.ascii hc]
      rfl
    cases rest with
    | nil =>
      obtain ⟨tl, htl⟩ := hquote (lay.key ++ (dumpsWith fl.repr lay v ++ ['}']))
      exact ⟨tl, congrArg ('{' :: ·) htl⟩
    | cons w rest =>
      obtain ⟨tl, htl⟩ := hquote (lay.key ++ (dumpsWith fl.repr lay v ++
        (lay.item ++ dumpsFields fl.repr lay (w :: rest))))
      exact ⟨tl, congrArg ('{' :: ·) htl⟩
  obtain ⟨tl, htl⟩ := htext
  refine ⟨tl, htl, ⟨?_, ?_⟩, ?_⟩
  · have hne (d : Char) (hd : d.isAlpha = false) : (c == d) = false := by
      refine beq_eq_false_iff_ne.mpr ?_
      rintro rfl
      rw [hc] at hd
      cases hd
    rw [isWs, hne ' ' rfl, hne '\t' rfl, hne '\n' rfl, hne '\r' rfl]
    rfl
  · intro hmem
    have hall : ∀ d ∈ [':', ',', ']', '}'], d.isAlpha = false := by decide
    rw [hall c hmem] at hc
    cases hc
  · intro n w r h
    rw [← htl] at h
    exact (scanOnce_dumps_nil hlay hkeyed h).2

end Zicato.Json
