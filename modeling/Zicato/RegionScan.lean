import Zicato.MarkerBinding

/-! # The walk over the lines of one file

What one step of the marker walk reads: the end of a code region is the first
line below its marker that reads as an end, and a region's point starts on the
line below the marker. -/
open List
namespace Zicato.Text

/-- Whole lines of a text are lines of their own. -/
theorem splitLinesKeep_whole {x : Text} (h : Lines.Whole '\r' isLineBreak x) (y : Text) :
    splitLinesKeep (x ++ y) = splitLinesKeep x ++ splitLinesKeep y :=
  Lines.splitEnds_cut (h.cut y)

theorem count_le_length_splitLinesKeep (text : Text) :
    text.count '\n' ≤ (splitLinesKeep text).length :=
  Lines.count_le_length_splitEnds (by decide) text (by decide)

end Zicato.Text

namespace Zicato.Mutation

open Text

/-- The text of a file, as `read_text` gives it. -/
def readText (bytes : Bytes) : Option Text := (decode bytes).map universalNewlines

/-- What `_python_context` says of a file with this tree. -/
def contextOf (ast : Ast) : FileContext where
  ignoredLines := literalSpans ast
  spanResolver := some fun line => resolveSpanForMarker line (literalSpans ast)

/-- A Python file under scan. -/
def pythonFile (file sourceRoot : String) (ast : Ast) (text : Text) : FileUnderScan where
  grammar := pythonSyntax
  file := file
  sourceRoot := sourceRoot
  text := text
  lines := splitLinesKeep text
  context := contextOf ast

/-- A line that ends a code region. -/
def closesRegion (grammar : MarkerSyntax) (line : Text) : Bool := isEndMarker grammar (chomp line)

variable {py : Python}

theorem enumerateFile_python {file sourceRoot : String} {bytes : Bytes} {text : Text} {ast : Ast}
    (hread : readText bytes = some text) (hparse : py.parse text = .ok ast) :
    enumerateFile py file sourceRoot pythonSyntax bytes =
      if (pythonFile file sourceRoot ast text).isGrading py then []
      else scanMarkers py (pythonFile file sourceRoot ast text) (splitLinesKeep text).length 0 := by
  obtain ⟨raw, hraw, rfl⟩ := Option.map_eq_some_iff.mp hread
  have hpython : pythonSyntax.isPython = true := by decide
  simp only [enumerateFile, hpython, Bool.not_true, Bool.false_and, Bool.false_eq_true, if_false,
    if_true, hraw, pythonContext, hparse]
  rfl

/-- The end of a region is the first line that closes it. -/
theorem endIndex_eq (f : FileUnderScan) (idx : Nat) :
    f.endIndex idx =
      ((f.lines.drop idx).findIdx? (closesRegion f.grammar)).map (idx + ·) := by
  rw [FileUnderScan.endIndex]
  generalize hlen : f.lines.length - idx = n
  induction n generalizing idx with
  | zero => simp [drop_eq_nil_of_le (Nat.le_of_sub_eq_zero hlen)]
  | succ n ih =>
    have hlt : idx < f.lines.length := by omega
    rw [range'_succ, drop_eq_getElem_cons hlt, find?_cons, findIdx?_cons,
      getElem?_eq_getElem hlt, Option.any_some]
    change (match closesRegion f.grammar f.lines[idx] with | true => _ | false => _) = _
    by_cases hcloses : closesRegion f.grammar f.lines[idx] = true
    · simp [hcloses]
    · have hcloses : closesRegion f.grammar f.lines[idx] = false := by simpa using hcloses
      simp only [hcloses, Bool.false_eq_true, if_false, ih (idx + 1) (by omega), Option.map_map]
      congr 1
      funext k
      simp only [Function.comp_apply]
      omega

/-- What stands behind an end marker's name is no marker's. -/
theorem parseFields_end (rest : Text) :
    parseFields (variant (":end".toList ++ rest)).1 (variant (":end".toList ++ rest)).2.1
      (variant (":end".toList ++ rest)).2.2 = none := by
  have hfile : after? ":file" (":end".toList ++ rest) = none := by
    simp [after?, dropPrefix?]
  have hcode : after? ":code" (":end".toList ++ rest) = none := by
    simp [after?, dropPrefix?]
  have hspace : isSpace ':' = false := by decide
  rw [variant, hfile, hcode]
  simp [parseFields, hspace, guard]

variable {parsed : ParsedMarker} {endIdx : Nat}

/-- A line of a Python file is not both a marker and an end. -/
theorem closesRegion_of_marker {line : Text}
    (h : parseMarkerLine pythonSyntax (chomp line) = some parsed) :
    closesRegion pythonSyntax line = false := by
  rw [parseMarkerLine_python] at h
  by_contra hcloses
  have hend : isEndMarker pythonSyntax (chomp line) = true := by simpa [closesRegion] using hcloses
  simp only [isEndMarker, afterLeader, pythonSyntax, alternation_singleton, any_eq_true,
    mem_filterMap, mem_singleton, exists_eq_left, Option.bind_eq_some_iff] at hend
  obtain ⟨rest, ⟨tail, htail, hrest⟩, -⟩ := hend
  obtain ⟨name, hname, heq⟩ := dropPrefix?_eq_some_iff.mp hrest
  obtain rfl : name = "zicato:mutable:end".toList := by simpa using heq
  have hmutable : after? "zicato:mutable" (skipSpace tail) = some (":end".toList ++ rest) := by
    rw [hname, after?]
    have hself : ("zicato:mutable".toList == "zicato:mutable".toList) = true := by decide
    exact dropPrefix?_append_of_beq (":end".toList ++ rest) hself
  rw [htail, Option.bind_some, hmutable, Option.bind_some, parseFields_end] at h
  cases h

/-- No marker is of both variants. -/
theorem isFile_of_isCode {grammar : MarkerSyntax} {line : Text}
    (h : parseMarkerLine grammar line = some parsed) (hcode : parsed.isCode = true) :
    parsed.isFile = false := by
  obtain ⟨rest, -, hfields⟩ := exists_of_findSome?_eq_some h
  have hvariant : parsed.isFile = (variant rest).1 ∧ parsed.isCode = (variant rest).2.1 := by
    simp only [parseFields, Option.bind_eq_bind, Option.bind_eq_some_iff, Option.pure_def,
      Option.some.injEq] at hfields
    obtain ⟨-, -, -, -, q, -, -, -, -, -, rfl⟩ := hfields
    exact ⟨rfl, rfl⟩
  rw [hvariant.1]
  rw [hvariant.2] at hcode
  revert hcode
  rw [variant]
  split <;> simp

/-! ## One step -/

variable {f : FileUnderScan}

theorem closes_of_endIndex {idx : Nat} (h : f.endIndex idx = some endIdx) :
    idx ≤ endIdx ∧ ∃ line, f.lines[endIdx]? = some line ∧ closesRegion f.grammar line = true := by
  rw [endIndex_eq] at h
  obtain ⟨k, hk, rfl⟩ := Option.map_eq_some_iff.mp h
  refine ⟨Nat.le_add_right idx k, ?_⟩
  obtain ⟨hlt, hcloses, -⟩ := findIdx?_eq_some_iff_getElem.mp hk
  exact ⟨_, by rw [← getElem?_drop, getElem?_eq_getElem hlt], hcloses⟩

variable (py) in
/-- The walk goes on below the line, or below the end of the region. -/
theorem resolve_next (f : FileUnderScan) (i : Nat) (parsed : ParsedMarker) :
    (f.resolve py i parsed).2 = i + 1 ∨
      parsed.isCode = true ∧ ∃ endIdx, f.endIndex (i + 1) = some endIdx ∧
        (f.resolve py i parsed).2 = endIdx + 1 := by
  rw [FileUnderScan.resolve]
  split
  · exact .inl rfl
  split
  · exact .inl rfl
  split
  · rename_i hcode
    split
    · exact .inl rfl
    · rename_i endIdx hend
      refine .inr ⟨hcode, endIdx, hend, ?_⟩
      split <;> rfl
  split
  · exact .inl rfl
  split <;> exact .inl rfl

/-- A code point is the region below its marker. -/
theorem resolve_code {p : MutationPoint} {i : Nat} (h : (f.resolve py i parsed).1 = some p)
    (hkind : p.kind = .code) :
    p.lineStart = i + 2 ∧ f.endIndex (i + 1) = some p.lineEnd ∧ i + 2 ≤ p.lineEnd := by
  rw [FileUnderScan.resolve] at h
  split at h
  · cases h
  split at h
  · cases h
    cases hkind
  split at h
  · split at h
    · cases h
    rename_i endIdx hend
    split at h
    · cases h
    · rename_i hle
      cases h
      exact ⟨rfl, hend, Nat.le_of_not_lt hle⟩
  split at h
  · cases h
  split at h
  · cases h
  · cases h
    cases hkind

variable (py) in
/-- The point of a region that is not empty. -/
theorem resolve_region {i : Nat} (hi : f.context.ignored (i + 1) = false)
    (hfile : parsed.isFile = false) (hcode : parsed.isCode = true)
    (hend : f.endIndex (i + 1) = some endIdx) (hle : i + 2 ≤ endIdx) :
    f.resolve py i parsed =
      (some (f.point py parsed .code (i + 2) endIdx (f.linesText (i + 2) endIdx)), endIdx + 1) := by
  simp [FileUnderScan.resolve, hi, hfile, hcode, hend, Nat.not_lt.mpr hle]

variable (py) in
/-- The region of a marker is the one code point that starts below it. -/
theorem region_mem_scan (fuel : Nat) {i : Nat} (hi : f.context.ignored (i + 1) = false)
    (hmarker : f.marker i = some parsed) (hcode : parsed.isCode = true)
    (hfar : ∀ e, f.endIndex (i + 1) = some e → i + 2 ≤ e) :
    (∃ p ∈ scanMarkers py f (fuel + 1) i,
        p.kind = .code ∧ p.lineStart = i + 2 ∧ p.lineEnd = endIdx) ↔
      f.endIndex (i + 1) = some endIdx := by
  obtain ⟨line, hline, hparse⟩ := Option.bind_eq_some_iff.mp hmarker
  have hlt : i < f.lines.length := (List.getElem?_eq_some_iff.mp hline).1
  constructor
  · rintro ⟨p, hp, hkind, hstart, rfl⟩
    obtain ⟨j, parsed', hj, hmarker', hpoint⟩ := mem_scanMarkers hp
    obtain ⟨hstart', hend, -⟩ := resolve_code hpoint hkind
    obtain rfl : j = i := by omega
    exact hend
  · intro hend
    have hpoint := resolve_region py hi (isFile_of_isCode hparse hcode) hcode hend
      (hfar endIdx hend)
    refine ⟨f.point py parsed .code (i + 2) endIdx (f.linesText (i + 2) endIdx), ?_, rfl, rfl, rfl⟩
    rw [scanMarkers, if_neg (Nat.not_le.mpr hlt), hmarker]
    simp [hpoint]

end Zicato.Mutation
