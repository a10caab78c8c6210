import Zicato.JsonRound

/-! # Texts in ASCII

With `ensure_ascii` the writer emits printable ASCII alone, so that what it writes is
one line under every convention. -/
open List
namespace Zicato.Json

/-- A printable character of ASCII. -/
def Printable (c : Char) : Prop := 0x20 ≤ c.toNat ∧ c.toNat ≤ 0x7e

instance : DecidablePred Printable := fun _ => inferInstanceAs (Decidable (_ ∧ _))

theorem Printable.isLineBreak {c : Char} (h : Printable c) : Text.isLineBreak c = false := by
  obtain ⟨hlow, hhigh⟩ := h
  simp only [Text.isLineBreak, Bool.or_eq_false_iff, Bool.and_eq_false_iff, decide_eq_false_iff_not,
    beq_eq_false_iff_ne]
  omega

theorem printable_digitChar : ∀ n < 16, Printable (Nat.digitChar n) := by decide

theorem printable_hex4 (n : Nat) : ∀ c ∈ hex4 n, Printable c := by
  have hdigit (m : Nat) : Printable (Nat.digitChar (m % 16)) :=
    printable_digitChar _ (Nat.mod_lt _ (by decide))
  intro c hc
  simp only [hex4, mem_cons, not_mem_nil, or_false] at hc
  rcases hc with rfl | rfl | rfl | rfl | rfl | rfl
  · decide
  · decide
  all_goals exact hdigit _

/-- An escaped character is printable. -/
theorem printable_escape (c : Char) : ∀ d ∈ escape true c, Printable d := by
  have hshort {a b : Char} (ha : Printable a) (hb : Printable b) : ∀ d ∈ [a, b], Printable d := by
    intro d hd
    rcases mem_pair.mp hd with rfl | rfl
    · exact ha
    · exact hb
  rw [escape]
  -- the seven short escapes
  iterate 7
    split
    · exact hshort (by decide) (by decide)
  split
  · exact printable_hex4 _
  rename_i hcontrol
  split
  · split
    · exact printable_hex4 _
    · intro d hd
      rcases mem_append.mp hd with hd | hd <;> exact printable_hex4 _ d hd
  · rename_i hascii
    intro d hd
    rw [mem_singleton.mp hd]
    exact ⟨by omega, Nat.le_of_not_lt fun h => hascii ⟨rfl, h⟩⟩

theorem printable_quote (s : String) : ∀ c ∈ quote true s, Printable c := by
  intro c hc
  rcases mem_cons.mp hc with rfl | hc
  · decide
  rcases mem_append.mp hc with hc | hc
  · obtain ⟨d, -, hd⟩ := mem_flatMap.mp hc
    exact printable_escape d c hd
  · rw [mem_singleton.mp hc]
    decide

theorem printable_of_plain {c : Char} (h : c.isAlphanum = true ∨ c ∈ ['-', '+', '.']) :
    Printable c := by
  rcases h with h | h
  · unfold Char.isAlphanum Char.isAlpha Char.isUpper Char.isLower Char.isDigit at h
    simp only [Bool.or_eq_true, Bool.and_eq_true, decide_eq_true_eq, UInt32.le_iff_toNat_le, ge_iff_le] at h
    change ((65 ≤ c.toNat ∧ c.toNat ≤ 90) ∨ (97 ≤ c.toNat ∧ c.toNat ≤ 122)) ∨
      (48 ≤ c.toNat ∧ c.toNat ≤ 57) at h
    rw [Printable]
    omega
  · have hall : ∀ c ∈ ['-', '+', '.'], Printable c := by decide
    exact hall c h

theorem printable_str (n : Int) : ∀ c ∈ PyInt.str n, Printable c := by
  have hdigits (k : Nat) : ∀ c ∈ Nat.toDigits 10 k, Printable c := fun c hc =>
    printable_of_plain (.inl (by simp [Char.isAlphanum, isDigit_of_mem_toDigits k c hc]))
  cases n with
  | ofNat k => exact hdigits k
  | negSucc k =>
    intro c hc
    rcases mem_cons.mp hc with rfl | hc
    · decide
    · exact hdigits _ c hc

section Values

variable {F : Type} {fl : Floats F} {lay : Layout}

theorem printable_item (hlay : lay.Plain) : ∀ c ∈ lay.item, Printable c := by
  rcases hlay.item with h | h <;> rw [h] <;> decide

theorem printable_key (hlay : lay.Plain) : ∀ c ∈ lay.key, Printable c := by
  rcases hlay.key with h | h <;> rw [h] <;> decide

mutual
/-- Every character of a JSON text is printable. -/
theorem printable_dumpsWith (hascii : lay.ascii = true) (hlay : lay.Plain) :
    ∀ (v : PyValue F), ∀ c ∈ dumpsWith fl.repr lay v, Printable c
  | .none => by rw [dumpsWith]; decide
  | .bool true => by rw [dumpsWith]; decide
  | .bool false => by rw [dumpsWith]; decide
  | .int n => printable_str n
  | .float x => fun c hc => printable_of_plain (fl.repr_chars x c hc)
  | .str s => by
      rw [dumpsWith, hascii]
      exact printable_quote s
  | .list items => by
      intro c hc
      rcases mem_cons.mp hc with rfl | hc
      · decide
      · exact printable_dumpsItems hascii hlay items c hc
  | .dict fields => by
      intro c hc
      rcases mem_cons.mp hc with rfl | hc
      · decide
      · exact printable_dumpsFields hascii hlay fields c hc

theorem printable_dumpsItems (hascii : lay.ascii = true) (hlay : lay.Plain) :
    ∀ (items : List (PyValue F)), ∀ c ∈ dumpsItems fl.repr lay items, Printable c
  | [] => by rw [dumpsItems]; decide
  | [v] =>
      forall_mem_append.mpr ⟨printable_dumpsWith hascii hlay v, by decide⟩
  | v :: w :: rest =>
      forall_mem_append.mpr ⟨printable_dumpsWith hascii hlay v,
        forall_mem_append.mpr ⟨printable_item hlay,
          printable_dumpsItems hascii hlay (w :: rest)⟩⟩

/-- Every character of an object's text is printable. -/
theorem printable_dumpsFields (hascii : lay.ascii = true) (hlay : lay.Plain) :
    ∀ (fields : List (String × PyValue F)), ∀ c ∈ dumpsFields fl.repr lay fields, Printable c
  | [] => by rw [dumpsFields]; decide
  | [(k, v)] => by
      rw [dumpsFields, hascii]
      refine forall_mem_append.mpr ⟨printable_quote k, ?_⟩
      refine forall_mem_append.mpr ⟨printable_key hlay, ?_⟩
      exact forall_mem_append.mpr ⟨printable_dumpsWith hascii hlay v, by decide⟩
  | (k, v) :: w :: rest => by
      rw [dumpsFields, hascii]
      refine forall_mem_append.mpr ⟨printable_quote k, ?_⟩
      refine forall_mem_append.mpr ⟨printable_key hlay, ?_⟩
      refine forall_mem_append.mpr ⟨printable_dumpsWith hascii hlay v, ?_⟩
      exact forall_mem_append.mpr ⟨printable_item hlay,
        printable_dumpsFields hascii hlay (w :: rest)⟩
end

theorem printable_dumps (hascii : lay.ascii = true) (hlay : lay.Plain) (v : PyValue F) :
    ∀ c ∈ dumps fl lay v, Printable c :=
  printable_dumpsWith hascii hlay v

theorem Layout.plain_default : Layout.default.Plain := ⟨.inr rfl, .inr rfl⟩

end Values

end Zicato.Json
