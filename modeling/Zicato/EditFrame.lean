import Mathlib.Data.List.GetD
import Zicato.MarkerBinding
import Zicato.PyExcept

/-! # The bytes an edit leaves

The applier edits a decoded text by the lines of `str.splitlines`; the ranges it
declares are byte ranges between the newlines that bytes know.  Both name the same
place as long as no other line separator stands before it. -/
open List Option Zicato.Lines Except
namespace Zicato.Text

open Splice

/-! ## Bytes and characters -/

variable {text : Text} {lines : List Text} {k : Nat}

theorem encode_of_decode {bytes : Bytes} (h : decode bytes = some text) : encode text = bytes := by
  obtain ⟨chars, hchars, rfl⟩ := map_eq_some_iff.mp h
  have hvalid : (⟨bytes.toArray⟩ : ByteArray).utf8Decode?.isSome = true := by simp [hchars]
  have hget := ByteArray.utf8Encode_get_utf8Decode? (b := ⟨bytes.toArray⟩) (h := hvalid)
  simp only [hchars, get_some] at hget
  rw [← encode_eq] at hget
  simpa using congrArg (fun b : ByteArray => b.data.toList) hget

theorem utf8EncodeChar_inj {c d : Char} {rest rest' : Bytes}
    (h : String.utf8EncodeChar c ++ rest = String.utf8EncodeChar d ++ rest') : c = d := by
  have hbytes : ∀ (c : Char) (rest : Bytes),
      (⟨(String.utf8EncodeChar c ++ rest).toArray⟩ : ByteArray) = [c].utf8Encode ++ ⟨rest.toArray⟩ := by
    intro c rest
    refine ByteArray.ext ?_
    rw [ByteArray.data_append, ← encode_eq]
    simp [encode]
  have hdecode := congrArg (fun bytes : Bytes => (⟨bytes.toArray⟩ : ByteArray).utf8DecodeChar? 0) h
  simp only [hbytes, utf8DecodeChar?_utf8Encode_singleton_append, some.injEq] at hdecode
  exact hdecode

/-- A beginning of the bytes that decodes is a beginning of the text. -/
theorem prefix_of_encode {head : Text} {rest : Bytes} (h : encode head ++ rest = encode text) :
    ∃ tail, text = head ++ tail ∧ encode tail = rest := by
  induction head generalizing text with
  | nil => exact ⟨text, rfl, h.symm⟩
  | cons c head ih =>
    cases text with
    | nil =>
      have hpos := c.utf8Size_pos
      have hlen := congrArg length h
      simp [encode] at hlen
      omega
    | cons d text =>
      simp only [encode, flatMap_cons, List.append_assoc] at h
      obtain rfl := utf8EncodeChar_inj h
      obtain ⟨tail, rfl, htail⟩ := ih (append_cancel_left h)
      exact ⟨tail, rfl, htail⟩

/-- The byte offset of a character. -/
def bytesAt (text : Text) (n : Nat) : Nat := (encode (text.take n)).length

theorem bytesAt_mono (text : Text) {m n : Nat} (h : m ≤ n) : bytesAt text m ≤ bytesAt text n := by
  obtain ⟨k, rfl⟩ := Nat.exists_eq_add_of_le h
  rw [bytesAt, bytesAt, take_add, encode_append, length_append]
  omega

theorem bytesAt_lt {m n : Nat} (h : m < n) (hn : m < text.length) :
    bytesAt text m < bytesAt text n := by
  have hstep : bytesAt text m < bytesAt text (m + 1) := by
    rw [bytesAt, bytesAt, take_succ_eq_append_getElem hn, encode_append, length_append]
    simp [encode, Char.utf8Size_pos]
  exact lt_of_lt_of_le hstep (bytesAt_mono text h)

theorem take_encode (text : Text) (n : Nat) :
    (encode text).take (bytesAt text n) = encode (text.take n) := by
  have hsplit : encode text = encode (text.take n) ++ encode (text.drop n) := by
    rw [← encode_append, take_append_drop]
  rw [bytesAt, hsplit, take_left]

theorem drop_encode (text : Text) (n : Nat) :
    (encode text).drop (bytesAt text n) = encode (text.drop n) := by
  have hsplit : encode text = encode (text.take n) ++ encode (text.drop n) := by
    rw [← encode_append, take_append_drop]
  rw [bytesAt, hsplit, drop_left]

/-! ## The lines of the bytes -/

/-- The lines of a text between the newlines that bytes know. -/
def plainLines (text : Text) : List Text :=
  Lines.splitEnds '\r' '\n' (fun c => c == '\n' || c == '\r') text

example : plainLines ['a', '\r', '\n', 'b'] = [['a', '\r', '\n'], ['b']] := by decide +kernel

/-- A line end of `str.splitlines` alone. -/
def isSeparator (c : Char) : Bool := isLineBreak c && c != '\n' && c != '\r'

/-- No byte of another character is a newline. -/
theorem utf8EncodeChar_inner {c : Char} (hn : c ≠ '\n') (hr : c ≠ '\r') :
    ∀ b ∈ String.utf8EncodeChar c, (b == 10 || b == 13) = false ∧ b ≠ 13 := by
  have hval : c.val.toNat ≠ 10 ∧ c.val.toNat ≠ 13 := by
    refine ⟨fun h => hn ?_, fun h => hr ?_⟩
    · exact Char.ext (UInt32.toNat_inj.mp h)
    · exact Char.ext (UInt32.toNat_inj.mp h)
  have hnat : ∀ b ∈ String.utf8EncodeChar c, b.toNat ≠ 10 ∧ b.toNat ≠ 13 := by
    unfold String.utf8EncodeChar
    dsimp only
    intro b hb
    split at hb
    · rw [mem_singleton.mp hb, UInt8.toNat_ofNat']
      omega
    split at hb
    · simp only [mem_cons, not_mem_nil, or_false] at hb
      rcases hb with rfl | rfl <;> rw [UInt8.toNat_ofNat'] <;> omega
    split at hb
    · simp only [mem_cons, not_mem_nil, or_false] at hb
      rcases hb with rfl | rfl | rfl <;> rw [UInt8.toNat_ofNat'] <;> omega
    · simp only [mem_cons, not_mem_nil, or_false] at hb
      rcases hb with rfl | rfl | rfl | rfl <;> rw [UInt8.toNat_ofNat'] <;> omega
  intro b hb
  obtain ⟨h10, h13⟩ := hnat b hb
  have hb10 : b ≠ 10 := fun h => h10 (by rw [h]; rfl)
  have hb13 : b ≠ 13 := fun h => h13 (by rw [h]; rfl)
  exact ⟨by simp [hb10, hb13], hb13⟩

theorem head?_encode {l : Text} (h : l.head? ≠ some '\n') : (encode l).head? ≠ some 10 := by
  cases l with
  | nil => simp [encode]
  | cons d l =>
    have hd : d ≠ '\n' := by simpa using h
    intro hhead
    have hmem : (10 : UInt8) ∈ String.utf8EncodeChar d := by
      rw [encode, flatMap_cons, head?_append] at hhead
      cases hbytes : (String.utf8EncodeChar d).head? with
      | none =>
        have hpos := d.utf8Size_pos
        rw [← String.length_utf8EncodeChar, head?_eq_none_iff.mp hbytes] at hpos
        simp at hpos
      | some b =>
        rw [hbytes] at hhead
        obtain rfl : b = 10 := by simpa using hhead
        exact mem_of_head? hbytes
    by_cases hr : d = '\r'
    · subst hr
      exact absurd hmem (by decide)
    · exact absurd (utf8EncodeChar_inner hd hr 10 hmem).1 (by decide)

/-- The lines of the bytes are those of the text between newlines. -/
theorem splitLines_encode (text : Text) :
    Containment.splitLines (encode text) = (plainLines text).map encode := by
  induction text using splitEnds_induction '\r' '\n' with
  | nil => rfl
  | pair l ih =>
    rw [plainLines, splitEnds_pair, map_cons, ← plainLines, ← ih]
    exact splitEnds_pair (encode l)
  | step a l hpair ih =>
    by_cases hn : a = '\n'
    · subst hn
      rw [plainLines, splitEnds_end hpair rfl, map_cons, ← plainLines, ← ih]
      exact splitEnds_end (by simp) rfl
    by_cases hr : a = '\r'
    · subst hr
      have hhead := head?_encode fun h => hpair ⟨rfl, h⟩
      rw [plainLines, splitEnds_end hpair rfl, map_cons, ← plainLines, ← ih]
      exact splitEnds_end (fun h => hhead h.2) rfl
    · rw [plainLines, splitEnds_inner hpair (by simp [hn, hr]), ← plainLines, encode,
        flatMap_cons, Containment.splitLines,
        splitEnds_append (utf8EncodeChar_inner hn hr)]
      change Lines.prepend _ (Containment.splitLines (encode l)) = _
      rw [ih]
      cases plainLines l with
      | nil =>
        have hne : String.utf8EncodeChar a ≠ [] := by
          have hpos := a.utf8Size_pos
          rw [← String.length_utf8EncodeChar] at hpos
          exact length_pos_iff.mp hpos
        simp [Lines.prepend, encode, hne]
      | cons line lines => simp [Lines.prepend, encode]

theorem encode_flatten (lines : List Text) : encode lines.flatten = (lines.map encode).flatten := by
  induction lines with
  | nil => rfl
  | cons line lines ih => rw [flatten_cons, encode_append, ih, map_cons, flatten_cons]

/-- The byte offset of a line. -/
theorem offset_map_encode (h : lines.flatten = text) (k : Nat) :
    offset (lines.map encode) k = bytesAt text (offset lines k) := by
  have htake : text.take (offset lines k) = (lines.take k).flatten := by
    rw [← h, take_flatten]
  rw [offset, ← map_take, ← encode_flatten, bytesAt, htake]

theorem offset_splitLines (text : Text) (k : Nat) :
    offset (Containment.splitLines (encode text)) k = bytesAt text (offset (plainLines text) k) := by
  rw [splitLines_encode]
  exact offset_map_encode (flatten_splitEnds _ _ _ text) k

/-- The lines of `str.splitlines` start no later. -/
theorem offset_splitLinesKeep_le (text : Text) (k : Nat) :
    offset (splitLinesKeep text) k ≤ offset (plainLines text) k := by
  refine offset_splitEnds_le (fun c hc => ?_) text k
  have hc : c = '\n' ∨ c = '\r' := by simpa using hc
  rcases hc with rfl | rfl <;> decide

/-- Every separator that only `str.splitlines` knows ends at byte `a` or behind. -/
def SeparatorsFrom (text : Text) (a : Nat) : Prop :=
  ∀ i c, text[i]? = some c → isSeparator c = true → a ≤ bytesAt text (i + 1)

/-- Without separators in the way both notions of a line reach equally far. -/
theorem le_offset_splitLinesKeep {a n : Nat} (h : SeparatorsFrom text a)
    (hn : n ≤ offset (plainLines text) k) (hbytes : ∀ i, i + 1 < n → bytesAt text (i + 1) < a) :
    n ≤ offset (splitLinesKeep text) k := by
  refine le_offset_splitEnds (fun c hc => ?_) hn fun i c hi hc hbreak => ?_
  · have hc : c = '\n' ∨ c = '\r' := by simpa using hc
    rcases hc with rfl | rfl <;> decide
  · by_contra hplain
    have hsep : isSeparator c = true := by
      simp only [Bool.or_eq_true, beq_iff_eq, not_or] at hplain
      simp [isSeparator, hbreak, hplain]
    exact absurd (h i c hc hsep) (not_le.mpr (hbytes i hi))

/-- The line of a unit: where it starts is where both notions start it, and the
line of `str.splitlines` reaches the unit. -/
theorem line_of_unit {a : Nat} (h : SeparatorsFrom text a)
    (hstart : bytesAt text (offset (plainLines text) k) ≤ a)
    (hline : a ≤ bytesAt text (offset (plainLines text) (k + 1))) :
    offset (splitLinesKeep text) k = offset (plainLines text) k ∧
      a ≤ bytesAt text (offset (splitLinesKeep text) (k + 1)) := by
  have hlength : offset (plainLines text) (k + 1) ≤ text.length := by
    have hle := offset_le (plainLines text) (k + 1)
    rwa [show (plainLines text).flatten = text from flatten_splitEnds _ _ _ text] at hle
  constructor
  · refine le_antisymm (offset_splitLinesKeep_le text k) ?_
    refine le_offset_splitLinesKeep h le_rfl fun i hi => ?_
    have hmono := offset_mono (plainLines text) (Nat.le_add_right k 1)
    exact lt_of_lt_of_le (bytesAt_lt hi (by omega)) hstart
  · by_contra hshort
    have hlt : offset (splitLinesKeep text) (k + 1) < offset (plainLines text) (k + 1) := by
      by_contra hge
      have hmono := bytesAt_mono text (not_lt.mp hge)
      omega
    have hreach := le_offset_splitLinesKeep (n := offset (splitLinesKeep text) (k + 1) + 1) h hlt
      fun i hi => by
        have hmono := bytesAt_mono text (show i + 1 ≤ offset (splitLinesKeep text) (k + 1) by omega)
        omega
    omega

/-- A place inside a line. -/
theorem take_in_line (h : lines.flatten = text) {i : Nat} (hi : i ≤ (lines.getD k []).length) :
    text.take (offset lines k + i) = (lines.take k).flatten ++ (lines.getD k []).take i ∧
      text.drop (offset lines k + i) =
        (lines.getD k []).drop i ++ (lines.drop (k + 1)).flatten := by
  have hsplit : text = (lines.take k).flatten ++ (lines.getD k [] ++ (lines.drop (k + 1)).flatten) := by
    by_cases hk : k < lines.length
    · rw [← h, getD_eq_getElem _ _ hk, ← flatten_cons, ← drop_eq_getElem_cons hk,
        ← flatten_append, take_append_drop]
    · have hk := not_lt.mp hk
      rw [take_of_length_le hk, getD_eq_default _ _ hk,
        drop_of_length_le (by omega), h]
      simp
  rw [hsplit, offset, take_length_add_append, drop_length_add_append,
    take_append_of_le_length hi, drop_append_of_le_length hi]
  exact ⟨rfl, rfl⟩

theorem bytesAt_in_line (h : lines.flatten = text) {i : Nat} (hi : i ≤ (lines.getD k []).length) :
    bytesAt text (offset lines k + i) =
      bytesAt text (offset lines k) + (encode ((lines.getD k []).take i)).length := by
  have hzero := (take_in_line h (k := k) (Nat.zero_le _)).1
  rw [Nat.add_zero, take_zero, append_nil] at hzero
  rw [bytesAt, bytesAt, (take_in_line h hi).1, hzero, encode_append, length_append]

theorem offset_succ (lines : List Text) (k : Nat) :
    offset lines (k + 1) = offset lines k + (lines.getD k []).length := by
  by_cases hk : k < lines.length
  · rw [offset, offset, take_succ_eq_append_getElem hk, getD_eq_getElem _ _ hk,
      flatten_append, length_append, flatten_singleton]
  · have hk := not_lt.mp hk
    rw [offset, offset, take_of_length_le hk, take_of_length_le (by omega),
      getD_eq_default _ _ hk]
    simp

end Zicato.Text

namespace Zicato.Mutation

open Text Splice

variable {py : Python} {table : SyntaxTable} {tree : Snapshot}

/-! ## Replacing a node -/

/-- The index of a byte column cuts the line there, or at its end. -/
theorem byteColumnToCharacterIndex_ok {line : Text} {col idx : Nat}
    (h : byteColumnToCharacterIndex line col = .ok idx) :
    idx ≤ line.length ∧ (encode (line.take idx)).length = min col (encode line).length := by
  rw [byteColumnToCharacterIndex] at h
  split at h
  · rename_i head hhead
    cases h
    have hencode := encode_of_decode hhead
    have hsplit : encode head ++ (encode line).drop col = encode line := by
      rw [hencode, take_append_drop]
    obtain ⟨tail, rfl, -⟩ := prefix_of_encode hsplit
    refine ⟨by simp, ?_⟩
    rw [take_left, hencode, length_take]
  · cases h

theorem flatten_splitLinesKeep (text : Text) : (splitLinesKeep text).flatten = text :=
  flatten_splitEnds _ _ _ text

variable {text text' : Text} {node : NodeSpan} {point : MutationPoint} {path : String}

/-- Replacing a node cuts the text at two places inside the lines of
`str.splitlines`. -/
theorem replaceNodeText_ok {newText : Text} (h : replaceNodeText text node newText = .ok text')
    (hend : 1 ≤ node.endLineno) :
    ∃ m n, text' = text.take m ++ newText ++ text.drop n ∧
      bytesAt text m = bytesAt text (offset (splitLinesKeep text) (node.lineno - 1)) +
        min node.colOffset (encode ((splitLinesKeep text).getD (node.lineno - 1) [])).length ∧
      bytesAt text n = bytesAt text (offset (splitLinesKeep text) (node.endLineno - 1)) +
        min node.endColOffset (encode ((splitLinesKeep text).getD (node.endLineno - 1) [])).length := by
  obtain ⟨i, hi, h⟩ := bind_eq_ok h
  obtain ⟨j, hj, h⟩ := bind_eq_ok h
  cases h
  obtain ⟨hile, hibytes⟩ := byteColumnToCharacterIndex_ok hi
  obtain ⟨hjle, hjbytes⟩ := byteColumnToCharacterIndex_ok hj
  have hflat := flatten_splitLinesKeep text
  refine ⟨_, _, ?_, (bytesAt_in_line hflat hile).trans (by rw [hibytes]),
    (bytesAt_in_line hflat hjle).trans (by rw [hjbytes])⟩
  rw [(take_in_line hflat hile).1, (take_in_line hflat hjle).2, Nat.sub_add_cancel hend]

/-- An edit inside a range keeps what is outside. -/
theorem frame_of_inside (raw new : Bytes) {a b c d : Nat} (hstart : a ≤ c) (hstop : d ≤ b) :
    ∃ new', raw.take c ++ new ++ raw.drop d = raw.take a ++ new' ++ raw.drop b := by
  refine ⟨slice raw a c ++ new ++ slice raw d b, ?_⟩
  have hhead : raw.take c = raw.take a ++ slice raw a c := by
    have h := slice_append_slice raw (Nat.zero_le a) hstart
    simpa [slice] using h.symm
  rw [hhead, ← slice_append_drop raw hstop]
  simp only [List.append_assoc]

/-- The end of a node, by line and column. -/
def NodeSpan.endPlace (node : NodeSpan) : Nat ×ₗ Nat := toLex (node.endLineno, node.endColOffset)

/-- Where the parser puts a node: on lines of the file, which count from one. -/
structure NodeSpan.Placed (text : Text) (node : NodeSpan) : Prop where
  lineno_pos : 1 ≤ node.lineno
  endLineno_pos : 1 ≤ node.endLineno
  start_on_line : (nodeByteSpan (Containment.splitLines (encode text)) node).1 ≤
    linesLength (Containment.splitLines (encode text)) node.lineno

/-- A node replaced inside an expression keeps the bytes outside the expression. -/
theorem replaceNodeText_frame {newText : Text} {e : NodeSpan}
    (h : replaceNodeText text node newText = .ok text') (hnode : node.Placed text)
    (he : e.Placed text) (hplace : e.place ≤ node.place) (hendPlace : node.endPlace ≤ e.endPlace)
    (hsep : SeparatorsFrom text (nodeByteSpan (Containment.splitLines (encode text)) e).1) :
    ∃ new, encode text' =
      (encode text).take (nodeByteSpan (Containment.splitLines (encode text)) e).1 ++ new ++
        (encode text).drop (nodeByteSpan (Containment.splitLines (encode text)) e).2 := by
  obtain ⟨m, n, rfl, hm, hn⟩ := replaceNodeText_ok h hnode.endLineno_pos
  rw [encode_append, encode_append, ← take_encode, ← drop_encode]
  have hstart := he.start_on_line
  simp only [nodeByteSpan, linesLength, offset_splitLines] at hsep hstart ⊢
  have hflat := flatten_splitLinesKeep text
  have hlineEnd : ∀ k, bytesAt text (offset (splitLinesKeep text) (k + 1)) =
      bytesAt text (offset (splitLinesKeep text) k) +
        (encode ((splitLinesKeep text).getD k [])).length := by
    intro k
    rw [offset_succ, bytesAt_in_line hflat le_rfl, take_length]
  apply frame_of_inside
  · -- the line of the expression starts where the parser says
    have hpred : e.lineno - 1 + 1 = e.lineno := Nat.sub_add_cancel he.lineno_pos
    rw [← hpred] at hstart
    obtain ⟨hsame, hreach⟩ := line_of_unit hsep (Nat.le_add_right _ _) hstart
    rw [hpred] at hreach hstart
    have hlength := hlineEnd (e.lineno - 1)
    rw [hpred] at hlength
    rcases NodeSpan.place_le.mp hplace with hlt | ⟨hline, hcol⟩
    · have hmono := bytesAt_mono text (offset_mono (splitLinesKeep text)
        (show e.lineno ≤ node.lineno - 1 by omega))
      omega
    · have hbytes := congrArg (bytesAt text) hsame
      rw [← hline] at hm
      omega
  · -- the lines of `str.splitlines` end no later
    have hle : ∀ k, bytesAt text (offset (splitLinesKeep text) k) ≤
        bytesAt text (offset (plainLines text) k) :=
      fun k => bytesAt_mono text (offset_splitLinesKeep_le text k)
    rcases Prod.Lex.toLex_le_toLex.mp hendPlace with hlt | ⟨hline, hcol⟩
    · have hlength := hlineEnd (node.endLineno - 1)
      have hpos := hnode.endLineno_pos
      have hmono := bytesAt_mono text (offset_mono (plainLines text)
        (show node.endLineno - 1 + 1 ≤ e.endLineno - 1 by change node.endLineno < e.endLineno at hlt; omega))
      have hend := hle (node.endLineno - 1 + 1)
      omega
    · have hend := hle (node.endLineno - 1)
      rw [show e.endLineno = node.endLineno from hline.symm]
      change node.endColOffset ≤ e.endColOffset at hcol
      omega

/-- Lines replaced keep the bytes outside their range. -/
theorem replaceLines_frame {middle : Text} (hsep : SeparatorsFrom text
      (linesLength (Containment.splitLines (encode text)) (point.lineStart - 1))) :
    ∃ new, encode (replaceLines (splitLinesKeep text) point middle) =
      (encode text).take (linesLength (Containment.splitLines (encode text)) (point.lineStart - 1)) ++
        new ++ (encode text).drop
          (linesLength (Containment.splitLines (encode text)) point.lineEnd) := by
  have hflat := flatten_splitLinesKeep text
  have htake : ((splitLinesKeep text).take (point.lineStart - 1)).flatten =
      text.take (offset (splitLinesKeep text) (point.lineStart - 1)) := by
    rw [← take_flatten, hflat]
  have hdrop : ((splitLinesKeep text).drop point.lineEnd).flatten =
      text.drop (offset (splitLinesKeep text) point.lineEnd) := by
    rw [← drop_flatten, hflat]
  rw [replaceLines, htake, hdrop, encode_append, encode_append, ← take_encode, ← drop_encode]
  simp only [linesLength, offset_splitLines] at hsep ⊢
  apply frame_of_inside
  · have hmono := bytesAt_mono text (offset_mono (plainLines text)
      (Nat.le_add_right (point.lineStart - 1) 1))
    rw [(line_of_unit hsep le_rfl hmono).1]
  · exact bytesAt_mono text (offset_splitLinesKeep_le text point.lineEnd)

/-! ## The operations -/

/-- A replacement is one of the file, or of a node in it. -/
theorem applySpanReplace_cases {content : Text}
    (h : applySpanReplace py table tree point content = .ok text') :
    ∃ text, readSource tree point.file = .ok text ∧
      (point.kind = .file ∨
        (point.kind ≠ .file ∧ ∃ node, spanNode py table tree point = .ok (some node) ∧
          replaceNodeText text node (buildLiteralReplacement py content) = .ok text') ∨
        (point.kind ≠ .file ∧ spanNode py table tree point = .ok none ∧
          ∃ middle, text' = replaceLines (splitLinesKeep text) point middle)) := by
  obtain ⟨text, htext, h⟩ := bind_eq_ok h
  refine ⟨text, htext, ?_⟩
  by_cases hfile : point.kind = .file
  · exact .inl hfile
  refine .inr ?_
  simp only [if_neg hfile] at h
  obtain ⟨found, hfound, h⟩ := bind_eq_ok h
  cases found with
  | some node => exact .inl ⟨hfile, node, hfound, h⟩
  | none =>
    refine .inr ⟨hfile, hfound, ?_⟩
    dsimp only at h
    split at h
    · split at h
      · cases h
      · cases h
        exact ⟨_, rfl⟩
    · cases h
      exact ⟨_, rfl⟩

/-- The declared bytes are the file, or those of a node in it. -/
theorem replacementByteSpan_cases {span : Nat × Nat}
    (h : replacementByteSpan py table tree point = .ok span) :
    (point.kind = .file ∧ span = (0, (fileBytes tree point.file).length)) ∨
    (point.kind ≠ .file ∧ ∃ node, spanNode py table tree point = .ok (some node) ∧
      span = nodeByteSpan (Containment.splitLines (fileBytes tree point.file)) node) ∨
    (point.kind ≠ .file ∧ spanNode py table tree point = .ok none ∧
      span = (linesLength (Containment.splitLines (fileBytes tree point.file)) (point.lineStart - 1),
        linesLength (Containment.splitLines (fileBytes tree point.file)) point.lineEnd)) := by
  by_cases hfile : point.kind = .file
  · simp only [replacementByteSpan, if_pos hfile] at h
    cases h
    exact .inl ⟨hfile, rfl⟩
  refine .inr ?_
  simp only [replacementByteSpan, if_neg hfile] at h
  obtain ⟨found, hfound, h⟩ := bind_eq_ok h
  cases found with
  | some node =>
    cases h
    exact .inl ⟨hfile, node, hfound, rfl⟩
  | none =>
    dsimp only at h
    split at h
    · cases h
      exact .inr ⟨hfile, hfound, rfl⟩
    · cases h

/-- The table of an operation's ranges. -/
theorem operationByteSpans_cases {spans : Dict String (Nat × Nat)}
    (h : operationByteSpans py table tree point = .ok spans) :
    (∀ span, spans.get? "replace" = some span → replacementByteSpan py table tree point = .ok span) ∧
    (∀ span, spans.get? "set_numeric" = some span → ∃ markerLine node e,
      resolveMarkerLine table tree point.file point.id = .ok (some markerLine) ∧
      findConstantAfter py tree point.file markerLine .numeric = .ok (some node) ∧
      signedConstantExpression py tree point.file node = .ok e ∧
      span = nodeByteSpan (Containment.splitLines (fileBytes tree point.file)) e) ∧
    (∀ span, spans.get? "set_enum" = some span → ∃ markerLine node,
      resolveMarkerLine table tree point.file point.id = .ok (some markerLine) ∧
      findConstantAfter py tree point.file markerLine .string = .ok (some node) ∧
      span = nodeByteSpan (Containment.splitLines (fileBytes tree point.file)) node) := by
  obtain ⟨replacement, hreplacement, h⟩ := bind_eq_ok h
  obtain ⟨marker, hmarker, h⟩ := bind_eq_ok h
  dsimp only at h
  split at h
  · rename_i markerLine hkind
    obtain ⟨found, hfound, h⟩ := bind_eq_ok h
    -- the entries of the two constants
    obtain ⟨numeric, enum, hnum, henm, hspans⟩ : ∃ numeric enum,
        (numeric = [] ∨ ∃ node e, found = some node ∧
          signedConstantExpression py tree point.file node = .ok e ∧
          numeric = [("set_numeric",
            nodeByteSpan (Containment.splitLines (fileBytes tree point.file)) e)]) ∧
        (enum = [] ∨ ∃ node,
          findConstantAfter py tree point.file markerLine .string = .ok (some node) ∧
          enum = [("set_enum",
            nodeByteSpan (Containment.splitLines (fileBytes tree point.file)) node)]) ∧
        spans = ("replace", replacement) :: numeric ++ enum := by
      cases found with
      | none =>
        obtain ⟨numeric, hnumeric, h⟩ := bind_eq_ok h
        cases hnumeric
        obtain ⟨found', hfound', h⟩ := bind_eq_ok h
        cases found' with
        | none =>
          cases h
          exact ⟨[], [], .inl rfl, .inl rfl, rfl⟩
        | some node =>
          cases h
          exact ⟨[], _, .inl rfl, .inr ⟨node, hfound', rfl⟩, rfl⟩
      | some node =>
        obtain ⟨e, he, h⟩ := bind_eq_ok h
        obtain ⟨numeric, hnumeric, h⟩ := bind_eq_ok h
        cases hnumeric
        obtain ⟨found', hfound', h⟩ := bind_eq_ok h
        cases found' with
        | none =>
          cases h
          exact ⟨_, [], .inr ⟨node, e, rfl, he, rfl⟩, .inl rfl, rfl⟩
        | some node' =>
          cases h
          exact ⟨_, _, .inr ⟨node, e, rfl, he, rfl⟩, .inr ⟨node', hfound', rfl⟩, rfl⟩
    subst hspans
    refine ⟨?_, ?_, ?_⟩
    · intro span hspan
      rw [hreplacement]
      simpa [Dict.get?] using hspan
    · intro span hspan
      rcases hnum with rfl | ⟨node, e, rfl, he, rfl⟩
      · rcases henm with rfl | ⟨node', -, rfl⟩ <;> simp [Dict.get?] at hspan
      · refine ⟨markerLine, node, e, hmarker, hfound, he, ?_⟩
        simpa [Dict.get?, eq_comm] using hspan
    · intro span hspan
      rcases henm with rfl | ⟨node', hfound', rfl⟩
      · rcases hnum with rfl | ⟨node, e, rfl, he, rfl⟩ <;> simp [Dict.get?] at hspan
      · refine ⟨markerLine, node', hmarker, hfound', ?_⟩
        rcases hnum with rfl | ⟨node, e, rfl, he, rfl⟩ <;>
          simpa [Dict.get?, eq_comm] using hspan
  · cases h
    refine ⟨?_, ?_, ?_⟩
    · intro span hspan
      rw [hreplacement]
      simpa [Dict.get?] using hspan
    · intro span hspan
      simp [Dict.get?] at hspan
    · intro span hspan
      simp [Dict.get?] at hspan

/-- A constant that is found is one of the file. -/
theorem findConstantAfter_mem {markerLine : Nat} {kind : ConstantKind}
    (htext : readSource tree path = .ok text)
    (h : findConstantAfter py tree path markerLine kind = .ok (some node)) :
    ∃ ast, py.parse text = .ok ast ∧ ∃ c ∈ ast.constants, c.span = node := by
  rw [findConstantAfter, htext] at h
  simp only [bind, Except.bind] at h
  split at h
  · cases h
  · rename_i ast hparse
    refine ⟨ast, hparse, ?_⟩
    rw [foldl_earlier] at h
    have hleast := (firstLeast_eq_some_iff.mp (ok.inj h)).2
    obtain ⟨c, hc, rfl⟩ := mem_map.mp (mem_of_find?_eq_some hleast)
    exact ⟨c, (mem_filter.mp hc).1, rfl⟩

/-- The expression of a constant is the constant or a sign in front of it. -/
theorem signedConstantExpression_cases {e : NodeSpan} {ast : Ast}
    (htext : readSource tree path = .ok text) (hparse : py.parse text = .ok ast)
    (h : signedConstantExpression py tree path node = .ok e) :
    e = node ∨ (e.place ≤ node.place ∧ ∃ s ∈ ast.signs, s.span = e ∧
      s.operandLineno = node.lineno ∧ s.operandColOffset = node.colOffset) := by
  rw [signedConstantExpression, htext] at h
  simp only [bind, Except.bind, hparse] at h
  have h := ok.inj h
  -- the loop keeps the claim for its choice
  have hfold : ∀ (signs : List SignedExpression) (best : NodeSpan),
      (∀ s ∈ signs, s ∈ ast.signs ∧ s.operandLineno = node.lineno ∧
        s.operandColOffset = node.colOffset) →
      (best = node ∨ (best.place ≤ node.place ∧ ∃ s ∈ ast.signs, s.span = best ∧
        s.operandLineno = node.lineno ∧ s.operandColOffset = node.colOffset)) →
      (signs.foldl (fun result sign =>
        if sign.span.lineno < result.lineno ∨
            (sign.span.lineno = result.lineno ∧ sign.span.colOffset < result.colOffset) then sign.span
        else result) best = e) →
      e = node ∨ (e.place ≤ node.place ∧ ∃ s ∈ ast.signs, s.span = e ∧
        s.operandLineno = node.lineno ∧ s.operandColOffset = node.colOffset) := by
    intro signs
    induction signs with
    | nil =>
      intro best _ hbest hfold
      rw [← hfold]
      exact hbest
    | cons s signs ih =>
      intro best hsigns hbest hfold
      obtain ⟨hs, hsigns⟩ := forall_mem_cons.mp hsigns
      rw [foldl_cons] at hfold
      refine ih _ hsigns ?_ hfold
      split
      · rename_i hlt
        have hlt : s.span.place < best.place := NodeSpan.place_lt.mpr hlt
        refine .inr ⟨?_, s, hs.1, rfl, hs.2⟩
        rcases hbest with rfl | ⟨hle, -⟩
        · exact le_of_lt hlt
        · exact le_trans (le_of_lt hlt) hle
      · exact hbest
  refine hfold _ node (fun s hs => ?_) (.inl rfl) h
  have hs := mem_filter.mp hs
  simp only [Bool.and_eq_true, beq_iff_eq] at hs
  exact hs

/-- What `ast` documents about the places of constants and of the signs in front of
them. -/
structure Python.Places (py : Python) : Prop where
  constant : ∀ text ast, py.parse text = .ok ast → ∀ c ∈ ast.constants, c.span.Placed text
  sign : ∀ text ast, py.parse text = .ok ast → ∀ s ∈ ast.signs, s.span.Placed text
  /-- A constant that starts the operand ends in the expression. -/
  operand : ∀ text ast, py.parse text = .ok ast → ∀ s ∈ ast.signs, ∀ c ∈ ast.constants,
    s.operandLineno = c.span.lineno → s.operandColOffset = c.span.colOffset →
      c.span.endPlace ≤ s.span.endPlace

theorem readSource_ok (h : readSource tree path = .ok text) :
    decode (fileBytes tree path) = some text ∧ encode text = fileBytes tree path := by
  rw [readSource] at h
  split at h
  · rename_i text' htext
    cases h
    exact ⟨htext, encode_of_decode htext⟩
  · cases h

/-- The node that a `set_numeric` or `set_enum` patch rewrites. -/
theorem constantNode_ok {patch : Patch} {kind : ConstantKind} {name : String}
    (h : constantNode py table tree patch point kind name = .ok node) :
    ∃ markerLine, resolveMarkerLine table tree point.file patch.mutationId = .ok (some markerLine) ∧
      findConstantAfter py tree point.file markerLine kind = .ok (some node) := by
  obtain ⟨marker, hmarker, h⟩ := bind_eq_ok h
  cases marker with
  | none => cases h
  | some markerLine =>
    obtain ⟨found, hfound, h⟩ := bind_eq_ok h
    cases found with
    | none => cases h
    | some node' =>
      cases h
      exact ⟨markerLine, hmarker, hfound⟩

/-- A literal is found for the span of a Python file alone. -/
theorem spanNode_some (h : spanNode py table tree point = .ok (some node)) :
    point.kind = .span ∧ pathSuffix point.file = pythonSuffix ∧
      ∃ markerLine, findConstantAfter py tree point.file markerLine .string = .ok (some node) := by
  rw [spanNode] at h
  split at h
  · rename_i hspan
    obtain ⟨marker, -, h⟩ := bind_eq_ok h
    cases marker with
    | none => cases h
    | some markerLine => exact ⟨hspan.1, hspan.2, markerLine, h⟩
  · cases h

/-- A replacement keeps the bytes outside its declared range. -/
theorem applySpanReplace_frame (hplaces : py.Places) {content : Text}
    (h : applySpanReplace py table tree point content = .ok text') {a b : Nat}
    (hspan : replacementByteSpan py table tree point = .ok (a, b)) :
    ∃ text, decode (fileBytes tree point.file) = some text ∧ (SeparatorsFrom text a →
      ∃ new, encode text' =
        (fileBytes tree point.file).take a ++ new ++ (fileBytes tree point.file).drop b) := by
  obtain ⟨text, htext, hcases⟩ := applySpanReplace_cases h
  obtain ⟨hdecode, hencode⟩ := readSource_ok htext
  refine ⟨text, hdecode, fun hsep => ?_⟩
  rcases replacementByteSpan_cases hspan with ⟨hfile, heq⟩ | ⟨hkind, node, hnode, heq⟩ |
    ⟨hkind, hnone, heq⟩
  · -- the whole file
    rw [Prod.mk.injEq] at heq
    exact ⟨encode text', by simp [heq.1, heq.2]⟩
  · rcases hcases with hfile | ⟨-, node', hnode', hreplace⟩ | ⟨-, hnone, -⟩
    · exact absurd hfile hkind
    · rw [hnode] at hnode'
      obtain rfl : node = node' := some.inj (ok.inj hnode')
      obtain ⟨-, -, markerLine, hfind⟩ := spanNode_some hnode
      obtain ⟨ast, hparse, c, hc, rfl⟩ := findConstantAfter_mem htext hfind
      have hplaced := hplaces.constant text ast hparse c hc
      rw [← hencode] at heq ⊢
      obtain ⟨rfl, rfl⟩ := Prod.mk.inj heq
      exact replaceNodeText_frame hreplace hplaced hplaced le_rfl le_rfl hsep
    · rw [hnode] at hnone
      cases hnone
  · rcases hcases with hfile | ⟨-, node', hnode', -⟩ | ⟨-, -, middle, rfl⟩
    · exact absurd hfile hkind
    · rw [hnone] at hnode'
      cases hnode'
    · rw [← hencode] at heq ⊢
      obtain ⟨rfl, rfl⟩ := Prod.mk.inj heq
      exact replaceLines_frame hsep

theorem patch_edits_declared_bytes (py : Python) (hplaces : py.Places) (table : SyntaxTable)
    (tree : Snapshot) (points : List MutationPoint) (patch : Patch) (point : MutationPoint)
    (hpoint : pointOf points patch.mutationId = some point) (file : String) (text' : Text)
    (hpatched : patchedFile py table tree points patch = .ok (file, text'))
    (spans : Dict String (Nat × Nat)) (hspans : operationByteSpans py table tree point = .ok spans)
    (a b : Nat) (hspan : spans.get? patch.op.asStr = some (a, b)) :
    file = point.file ∧ ∃ text, decode (fileBytes tree point.file) = some text ∧
      (SeparatorsFrom text a → ∃ new, encode text' =
        (fileBytes tree point.file).take a ++ new ++ (fileBytes tree point.file).drop b) := by
  obtain ⟨hreplacement, hnumeric, henum⟩ := operationByteSpans_cases hspans
  have hid : point.id = patch.mutationId := by
    simpa using List.find?_some hpoint
  have hpatch : patch.point py points = .ok point := by rw [Patch.point, hpoint]
  cases hop : patch.op with
  | replace =>
    rw [hop] at hspan
    rw [patchedFile, hop] at hpatched
    obtain ⟨content, -, hpatched⟩ := bind_eq_ok hpatched
    obtain ⟨point', hpoint', hpatched⟩ := bind_eq_ok hpatched
    rw [hpatch] at hpoint'
    cases hpoint'
    obtain ⟨text'', happly, hpatched⟩ := bind_eq_ok hpatched
    cases hpatched
    exact ⟨rfl, applySpanReplace_frame hplaces happly (hreplacement _ hspan)⟩
  | setNumeric =>
    rw [hop] at hspan
    rw [patchedFile, hop] at hpatched
    obtain ⟨value, -, hpatched⟩ := bind_eq_ok hpatched
    obtain ⟨point', hpoint', hpatched⟩ := bind_eq_ok hpatched
    rw [hpatch] at hpoint'
    cases hpoint'
    obtain ⟨node, hnode, hpatched⟩ := bind_eq_ok hpatched
    obtain ⟨text, htext, hpatched⟩ := bind_eq_ok hpatched
    obtain ⟨rendered, -, hpatched⟩ := bind_eq_ok hpatched
    obtain ⟨text'', hreplace, hpatched⟩ := bind_eq_ok hpatched
    cases hpatched
    obtain ⟨hdecode, hencode⟩ := readSource_ok htext
    refine ⟨rfl, text, hdecode, fun hsep => ?_⟩
    -- the declared range is that of the constant with its signs
    obtain ⟨markerLine, hmarker, hfind⟩ := constantNode_ok hnode
    obtain ⟨markerLine', node', e, hmarker', hfind', he, heq⟩ := hnumeric _ hspan
    rw [hid, hmarker] at hmarker'
    obtain rfl := Option.some.inj (Except.ok.inj hmarker')
    rw [hfind] at hfind'
    obtain rfl := Option.some.inj (Except.ok.inj hfind')
    obtain ⟨ast, hparse, c, hc, rfl⟩ := findConstantAfter_mem htext hfind
    have hplaced := hplaces.constant text ast hparse c hc
    rw [← hencode] at heq ⊢
    obtain ⟨rfl, rfl⟩ := Prod.mk.inj heq
    rcases signedConstantExpression_cases htext hparse he with rfl | ⟨hle, s, hs, rfl, hline, hcol⟩
    · exact replaceNodeText_frame hreplace hplaced hplaced le_rfl le_rfl hsep
    · exact replaceNodeText_frame hreplace hplaced (hplaces.sign text ast hparse s hs) hle
        (hplaces.operand text ast hparse s hs c hc hline hcol) hsep
  | setEnum =>
    rw [hop] at hspan
    rw [patchedFile, hop] at hpatched
    obtain ⟨value, -, hpatched⟩ := bind_eq_ok hpatched
    obtain ⟨point', hpoint', hpatched⟩ := bind_eq_ok hpatched
    rw [hpatch] at hpoint'
    cases hpoint'
    obtain ⟨node, hnode, hpatched⟩ := bind_eq_ok hpatched
    obtain ⟨text, htext, hpatched⟩ := bind_eq_ok hpatched
    obtain ⟨text'', hreplace, hpatched⟩ := bind_eq_ok hpatched
    cases hpatched
    obtain ⟨hdecode, hencode⟩ := readSource_ok htext
    refine ⟨rfl, text, hdecode, fun hsep => ?_⟩
    obtain ⟨markerLine, hmarker, hfind⟩ := constantNode_ok hnode
    obtain ⟨markerLine', node', hmarker', hfind', heq⟩ := henum _ hspan
    rw [hid, hmarker] at hmarker'
    obtain rfl := Option.some.inj (Except.ok.inj hmarker')
    rw [hfind] at hfind'
    obtain rfl := Option.some.inj (Except.ok.inj hfind')
    obtain ⟨ast, hparse, c, hc, rfl⟩ := findConstantAfter_mem htext hfind
    have hplaced := hplaces.constant text ast hparse c hc
    rw [← hencode] at heq ⊢
    obtain ⟨rfl, rfl⟩ := Prod.mk.inj heq
    exact replaceNodeText_frame hreplace hplaced hplaced le_rfl le_rfl hsep

/-! ### A form feed above the literal -/

/-- A file whose form feed splits a line for the editor only. -/
def separatorFile (inserted : List String) : Text := List.flatMap String.toList
  (["\x0c\n", "# zicato:mutable id=\"tone\"\n", "\n"] ++ inserted ++ ["TONE = \"y\"\n"])

/-- The interpreter on the file and on the file with a string in a line of its own. -/
def separatorPython : Python where
  sha256 data :=
    if data = utf8 "TONE = \"y\"\n" then
      "10b4c8e37bda209ff3ecd673ac4af0620c5292db4683f09ff63d048cab6c8fa9"
    else if data = utf8 "\n" then
      "01ba4719c80b6fe911b091a7c05124b64eeece964e09c058ef8f9805daca546b"
    else ""
  parse text :=
    if text = separatorFile [] then .ok { constants := [⟨.string, ⟨4, 7, 4, 10⟩⟩], signs := [] }
    else if text = separatorFile ["'b'\n"] then
      .ok { constants := [⟨.string, ⟨4, 0, 4, 3⟩⟩, ⟨.string, ⟨5, 7, 5, 10⟩⟩], signs := [] }
    else .error "invalid syntax"
  isStringExpression text := text == "'b'".toList
  reprStr s := '\'' :: s ++ ['\'']
  isWord c := c.isAlphanum || c == '_'

/-- The builtin surface. -/
def separatorSurface : Surface where
  table := builtinSyntaxes
  manifestPoints _ _ := []

/-- A replacement of the literal. -/
def separatorPatch : Patch :=
  { id := "p1", mutationId := "tone", op := .replace, newContent := some "'b'\n".toList }

/-- The form feed is a line for the edit and none for the parser, so the new literal
goes above the old one. -/
theorem separator_moves_edit :
    ∃ child point spans,
      applyPatches separatorPython separatorSurface (literalTree (separatorFile []))
        [separatorPatch] none ["."] = ⟨some child, .ok ()⟩ ∧
      pointOf (enumerateMutations separatorPython separatorSurface (literalTree (separatorFile []))
        ["."]) "tone" = some point ∧
      operationByteSpans separatorPython separatorSurface.table (literalTree (separatorFile []))
        point = .ok spans ∧
      spans.get? "replace" = some (37, 40) ∧
      ¬ ∃ new, fileBytes child "tone.py" =
        (encode (separatorFile [])).take 37 ++ new ++ (encode (separatorFile [])).drop 40 := by
  have hrun : ((applyPatches separatorPython separatorSurface (literalTree (separatorFile []))
      [separatorPatch] none ["."]).target.map fun child => fileBytes child "tone.py") =
      some (encode (separatorFile ["'b'\n"])) := by decide +kernel
  have hok : (applyPatches separatorPython separatorSurface (literalTree (separatorFile []))
      [separatorPatch] none ["."]).result.toBool = true := by decide +kernel
  have hspans : (pointOf (enumerateMutations separatorPython separatorSurface
      (literalTree (separatorFile [])) ["."]) "tone").map (fun point =>
        (operationByteSpans separatorPython separatorSurface.table (literalTree (separatorFile []))
          point).toOption.map (·.get? "replace")) = some (some (some (37, 40))) := by
    decide +kernel
  obtain ⟨child, hchild, hbytes⟩ := Option.map_eq_some_iff.mp hrun
  obtain ⟨u, hu⟩ := ok_of_toBool hok
  obtain ⟨point, hpoint, hdeclared⟩ := Option.map_eq_some_iff.mp hspans
  obtain ⟨spans, hspans, hget⟩ := Option.map_eq_some_iff.mp hdeclared
  refine ⟨child, point, spans, ?_, hpoint, ?_, hget, ?_⟩
  · rw [← hchild, ← hu]
  · cases hresult : operationByteSpans separatorPython separatorSurface.table
        (literalTree (separatorFile [])) point with
    | error error =>
      rw [hresult] at hspans
      cases hspans
    | ok spans' =>
      rw [hresult] at hspans
      exact congrArg Except.ok (Option.some.inj hspans)
  · -- the first bytes of the old line are no longer there
    rintro ⟨new, hnew⟩
    rw [hbytes, List.append_assoc] at hnew
    have htake := congrArg (List.take 37) hnew
    have hlength : ((encode (separatorFile [])).take 37).length = 37 := by decide
    rw [List.take_append_of_le_length (le_of_eq hlength.symm), List.take_take] at htake
    exact absurd htake (by decide)

/-- The interpreter on a file without other separators. -/
def plainPython : Python where
  sha256 data :=
    if data = utf8 "TONE = \"y\"\n" then
      "10b4c8e37bda209ff3ecd673ac4af0620c5292db4683f09ff63d048cab6c8fa9"
    else ""
  parse text := if text = plainFile then .ok plainAst else .error "invalid syntax"
  isStringExpression _ := false
  reprStr s := '\'' :: s ++ ['\'']
  isWord c := c.isAlphanum || c == '_'

/-- The demonstrated parser places its nodes in the text. -/
theorem plainPython_places : plainPython.Places := by
  have hast : ∀ text ast, plainPython.parse text = .ok ast → text = plainFile ∧ ast = plainAst := by
    intro text ast h
    simp only [plainPython] at h
    split at h
    · exact ⟨‹_›, (ok.inj h).symm⟩
    · cases h
  constructor
  · intro text ast h c hc
    obtain ⟨rfl, rfl⟩ := hast text ast h
    obtain rfl : c = ⟨.string, ⟨2, 7, 2, 10⟩⟩ := by simpa [plainAst] using hc
    exact ⟨by decide, by decide, by decide⟩
  · intro text ast h s hs
    obtain ⟨rfl, rfl⟩ := hast text ast h
    simp [plainAst] at hs
  · intro text ast h s hs
    obtain ⟨rfl, rfl⟩ := hast text ast h
    simp [plainAst] at hs

theorem patch_edits_declared_bytes_plain :
    ∃ text' new, encode text' =
        (encode plainFile).take 34 ++ new ++ (encode plainFile).drop 37 ∧
      patchedFile plainPython builtinSyntaxes (literalTree plainFile)
        (enumerateMutations plainPython separatorSurface (literalTree plainFile) ["."])
        { id := "p1", mutationId := "tone", op := .replace, newContent := some "b".toList } =
          .ok ("tone.py", text') := by
  have hpoint : (pointOf (enumerateMutations plainPython separatorSurface (literalTree plainFile)
      ["."]) "tone").map (fun point => (point.file, (operationByteSpans plainPython builtinSyntaxes
        (literalTree plainFile) point).toOption.map (·.get? "replace"))) =
      some ("tone.py", some (some (34, 37))) := by decide +kernel
  have hpatched : (patchedFile plainPython builtinSyntaxes (literalTree plainFile)
      (enumerateMutations plainPython separatorSurface (literalTree plainFile) ["."])
      { id := "p1", mutationId := "tone", op := .replace,
        newContent := some "b".toList }).toBool = true := by decide +kernel
  obtain ⟨point, hpoint, hdeclared⟩ := Option.map_eq_some_iff.mp hpoint
  rw [Prod.mk.injEq] at hdeclared
  obtain ⟨spans, hspans, hget⟩ := Option.map_eq_some_iff.mp hdeclared.2
  obtain ⟨⟨file, text'⟩, hpatched⟩ := ok_of_toBool hpatched
  have hspans : operationByteSpans plainPython builtinSyntaxes (literalTree plainFile) point =
      .ok spans := by
    cases hresult : operationByteSpans plainPython builtinSyntaxes (literalTree plainFile) point with
    | error error =>
      rw [hresult] at hspans
      cases hspans
    | ok spans' =>
      rw [hresult] at hspans
      exact congrArg Except.ok (Option.some.inj hspans)
  obtain ⟨hfile, text, htext, hframe⟩ := patch_edits_declared_bytes plainPython plainPython_places
    builtinSyntaxes (literalTree plainFile) _ _ point hpoint file text' hpatched spans hspans 34 37
    hget
  rw [hdeclared.1] at hfile htext hframe
  subst hfile
  have hbytes : fileBytes (literalTree plainFile) "tone.py" = encode plainFile := rfl
  rw [hbytes] at htext hframe
  obtain rfl : plainFile = text := Option.some.inj ((decode_encode plainFile).symm.trans htext)
  have hsep : SeparatorsFrom plainFile 34 := by
    intro i c hc hsep
    have hnone : ∀ c ∈ plainFile, isSeparator c = false := by decide
    exact absurd hsep (by simp [hnone c (List.mem_of_getElem? hc)])
  obtain ⟨new, hnew⟩ := hframe hsep
  exact ⟨text', new, hnew, hpatched⟩

end Zicato.Mutation
