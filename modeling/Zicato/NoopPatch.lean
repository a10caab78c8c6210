import Zicato.EditFrame
import Zicato.RegionBody

/-! # A patch with the text that is there

`replacement_source` reads the unit of a point; a replacement writes it back
through the literal builder or the region rewriter.  The file comes back as it
was when the unit is a form that these leave alone. -/
open List Option Except
namespace Zicato.Mutation

open Text Splice

variable (py : Python) (table : SyntaxTable) (tree : Snapshot)

/-- The text of the file that a replacement is written over. -/
def replacedText (point : MutationPoint) : Except PyError Text := do
  let text ← readSource tree point.file
  if point.kind = .file then return text
  match ← spanNode py table tree point with
  | some node => nodeText text node
  | none => return ((splitLinesKeep text).take point.lineEnd).drop (point.lineStart - 1) |>.flatten

/-- Source of a string literal that stands behind `indent` on its line. -/
def LiteralAt (indent unit : Text) : Prop :=
  looksLikePythonStringLiteral unit = true ∧ isPythonStringLiteralSource py unit = true ∧
    indent = ((splitLinesKeep unit).headD []).takeWhile isBlank

/-- The unit of a point in the form in which it is written. -/
def WrittenAsRead (point : MutationPoint) (unit : Text) : Prop :=
  match point.kind with
  | .file => True
  | .code => ∃ grammar, markerSyntaxFor table point.file = some grammar ∧ Settled grammar unit
  | .span =>
      pathSuffix point.file = pythonSuffix →
        LiteralAt py
          (match spanNode py table tree point with
          | .ok (some _) => []
          | _ => literalLinePrefix unit) unit

/-- No separator that only `str.splitlines` knows ends before the last of the lines that the point
covers, if it covers whole lines. -/
def LinesAgree (point : MutationPoint) (text : Text) : Prop :=
  point.kind ≠ .file → spanNode py table tree point = .ok none →
    SeparatorsFrom text
      (linesLength (Containment.splitLines (fileBytes tree point.file)) point.lineEnd)

/-- What `ast` documents about the ends of constants. -/
def Python.Ordered (py : Python) : Prop :=
  ∀ text ast, py.parse text = .ok ast → ∀ c ∈ ast.constants,
    1 ≤ c.span.lineno ∧ c.span.place ≤ c.span.endPlace

/-- `repr` of a string puts quotes around it. -/
def Python.Quotes (py : Python) : Prop := ∀ text, text.length < (py.reprStr text).length

variable {py table tree}

/-! ## Literals -/

/-- When anchoring the first line changes nothing. -/
theorem anchorFirstLine_self_iff (indent : Text) {literal : Text} (hne : literal ≠ []) :
    anchorFirstLine indent literal = literal ↔
      indent = ((splitLinesKeep literal).headD []).takeWhile isBlank := by
  have hflat := Lines.flatten_splitEnds '\r' '\n' isLineBreak literal
  rw [← splitLinesKeep] at hflat
  rw [anchorFirstLine]
  cases hlines : splitLinesKeep literal with
  | nil =>
    rw [hlines] at hflat
    exact absurd hflat.symm hne
  | cons first rest =>
    rw [hlines, flatten_cons] at hflat
    have hfirst : first.takeWhile isBlank ++ first.dropWhile isBlank = first :=
      takeWhile_append_dropWhile
    dsimp only [headD_cons]
    rw [← hflat, append_left_inj]
    constructor
    · intro h
      have heq : indent ++ first.dropWhile isBlank =
          first.takeWhile isBlank ++ first.dropWhile isBlank := h.trans hfirst.symm
      exact append_cancel_right heq
    · rintro rfl
      exact hfirst

/-- Behind its first line's blanks an anchored literal is what it was. -/
theorem exists_anchorFirstLine (indent literal : Text) :
    ∃ blanks rest, (∀ c ∈ blanks, isBlank c = true) ∧ literal = blanks ++ rest ∧
      anchorFirstLine indent literal = (if literal = [] then [] else indent ++ rest) := by
  have hflat := Lines.flatten_splitEnds '\r' '\n' isLineBreak literal
  rw [← splitLinesKeep] at hflat
  rw [anchorFirstLine]
  cases hlines : splitLinesKeep literal with
  | nil =>
    rw [hlines] at hflat
    have hnil : literal = [] := hflat.symm
    exact ⟨[], [], by simp, hnil, by simp [hnil]⟩
  | cons first rest =>
    rw [hlines, flatten_cons] at hflat
    have hne : literal ≠ [] := by
      intro hnil
      rw [hnil] at hlines
      cases hlines
    refine ⟨first.takeWhile isBlank, first.dropWhile isBlank ++ rest.flatten, takeWhile_blank first,
      ?_, ?_⟩
    · rw [← List.append_assoc, takeWhile_append_dropWhile, hflat]
    · rw [if_neg hne]
      exact List.append_assoc _ _ _

/-- A quoted text is longer. -/
theorem length_lt_quoteAsPythonString (hquotes : py.Quotes) (content indent : Text) :
    content.length < (quoteAsPythonString py content indent).length := by
  rw [quoteAsPythonString]
  split
  · simp [tripleDouble]
    omega
  split
  · simp [tripleSingle]
    omega
  · have hlong := hquotes content
    rw [length_append]
    omega

variable {text unit : Text} {point : MutationPoint}

theorem ne_nil_of_looksLike (h : looksLikePythonStringLiteral text = true) : text ≠ [] := by
  rintro rfl
  revert h
  decide

/-- The literal of a node comes back when it is literal source without a blank in
front. -/
theorem buildLiteralReplacement_self_iff (hquotes : py.Quotes) (unit : Text) :
    buildLiteralReplacement py unit = unit ↔ LiteralAt py [] unit := by
  rw [buildLiteralReplacement, LiteralAt]
  by_cases hlooks : looksLikePythonStringLiteral unit = true
  · by_cases hsource : isPythonStringLiteralSource py unit = true
    · simp only [hlooks, hsource, Bool.and_self, if_true, true_and]
      exact anchorFirstLine_self_iff [] (ne_nil_of_looksLike hlooks)
    · have hlong := length_lt_quoteAsPythonString hquotes unit []
      simp only [hlooks, hsource, Bool.and_false, Bool.false_eq_true, if_false, false_and, and_false,
        iff_false]
      intro heq
      rw [heq] at hlong
      exact Nat.lt_irrefl _ hlong
  · have hlong := length_lt_quoteAsPythonString hquotes unit []
    simp only [hlooks, Bool.false_and, Bool.false_eq_true, if_false, false_and, iff_false]
    intro heq
    rw [heq] at hlong
    exact Nat.lt_irrefl _ hlong

/-! ## Cutting the unit out of the file -/

theorem index_le_of_column_le {line : Text} {col col' i j : Nat}
    (hi : byteColumnToCharacterIndex line col = .ok i)
    (hj : byteColumnToCharacterIndex line col' = .ok j) (hle : col ≤ col') : i ≤ j := by
  obtain ⟨hilen, hibytes⟩ := byteColumnToCharacterIndex_ok hi
  obtain ⟨-, hjbytes⟩ := byteColumnToCharacterIndex_ok hj
  by_contra hlt
  have hbytes : bytesAt line j < bytesAt line i := bytesAt_lt (by omega) (by omega)
  rw [bytesAt, bytesAt, hibytes, hjbytes] at hbytes
  omega

/-- The lines before a line, with the line. -/
theorem take_flatten_getD (lines : List Text) {k : Nat} (hk : 1 ≤ k) :
    (lines.take (k - 1)).flatten ++ lines.getD (k - 1) [] = (lines.take k).flatten := by
  obtain ⟨m, rfl⟩ := Nat.exists_eq_add_of_le' hk
  rw [Nat.add_sub_cancel]
  by_cases hm : m < lines.length
  · rw [take_succ_eq_append_getElem hm, getD_eq_getElem _ _ hm, flatten_append,
      flatten_singleton]
  · have hle : lines.length ≤ m := Nat.le_of_not_lt hm
    rw [take_of_length_le hle, take_of_length_le (Nat.le_succ_of_le hle),
      getD_eq_default _ _ hle, append_nil]

theorem take_append_slice {α : Type} (l : List α) {m n : Nat} (h : m ≤ n) :
    l.take m ++ (l.take n).drop m = l.take n := by
  have happ := take_append_drop m (l.take n)
  rwa [take_take, Nat.min_eq_left h] at happ

/-- The text of a node is what a replacement of the node takes out. -/
theorem nodeText_cut {node : NodeSpan} (h : nodeText text node = .ok unit) (hpos : 1 ≤ node.lineno)
    (hplace : node.place ≤ node.endPlace) :
    ∃ before after, text = before ++ unit ++ after ∧
      ∀ newText, replaceNodeText text node newText = .ok (before ++ newText ++ after) := by
  obtain ⟨i, hi, h⟩ := bind_eq_ok h
  obtain ⟨j, hj, h⟩ := bind_eq_ok h
  have hflat := Lines.flatten_splitEnds '\r' '\n' isLineBreak text
  rw [← splitLinesKeep] at hflat
  rw [NodeSpan.place, NodeSpan.endPlace, Prod.Lex.toLex_le_toLex] at hplace
  refine ⟨((splitLinesKeep text).take (node.lineno - 1)).flatten ++
      ((splitLinesKeep text).getD (node.lineno - 1) []).take i,
    ((splitLinesKeep text).getD (node.endLineno - 1) []).drop j ++
      ((splitLinesKeep text).drop node.endLineno).flatten, ?_, fun newText => ?_⟩
  · generalize splitLinesKeep text = lines at hflat hi hj h ⊢
    have hall : (lines.take node.endLineno).flatten ++ (lines.drop node.endLineno).flatten = text := by
      rw [← flatten_append, take_append_drop, hflat]
    split at h
    · -- a node on one line
      rename_i hline
      cases h
      rw [← hline] at hj hall ⊢
      have hle : i ≤ j := by
        refine index_le_of_column_le hi hj ?_
        rcases hplace with hlt | ⟨-, hle⟩
        · omega
        · exact hle
      rw [← hall, ← take_flatten_getD lines hpos]
      conv_lhs => rw [← take_append_drop j (lines.getD (node.lineno - 1) []),
        ← take_append_slice _ hle]
      simp only [List.append_assoc]
    · rename_i hline
      cases h
      have hlt : node.lineno < node.endLineno := by
        rcases hplace with hlt | ⟨heq, -⟩
        · exact hlt
        · exact absurd heq hline
      have hmid : (lines.take node.lineno).flatten ++
          ((lines.take (node.endLineno - 1)).drop node.lineno).flatten =
            (lines.take (node.endLineno - 1)).flatten := by
        rw [← flatten_append, take_append_slice lines (by omega)]
      rw [← hall, ← take_flatten_getD lines (by omega : 1 ≤ node.endLineno), ← hmid,
        ← take_flatten_getD lines hpos]
      conv_lhs => rw [← take_append_drop i (lines.getD (node.lineno - 1) []),
        ← take_append_drop j (lines.getD (node.endLineno - 1) [])]
      simp only [List.append_assoc]
  · rw [replaceNodeText, hi]
    simp only [ok_bind, hj]
    rfl

/-- Lines replaced by themselves are the text. -/
theorem replaceLines_self_iff {middle : Text} (h : point.lineStart - 1 ≤ point.lineEnd) :
    replaceLines (splitLinesKeep text) point middle = text ↔
      middle = (((splitLinesKeep text).take point.lineEnd).drop (point.lineStart - 1)).flatten := by
  have hflat := Lines.flatten_splitEnds '\r' '\n' isLineBreak text
  rw [← splitLinesKeep] at hflat
  have hcut : ((splitLinesKeep text).take (point.lineStart - 1)).flatten ++
      (((splitLinesKeep text).take point.lineEnd).drop (point.lineStart - 1)).flatten ++
        ((splitLinesKeep text).drop point.lineEnd).flatten = text := by
    rw [← flatten_append, take_append_slice _ h, ← flatten_append, take_append_drop,
      hflat]
  rw [replaceLines]
  constructor
  · intro heq
    exact append_cancel_left (append_cancel_right (heq.trans hcut.symm))
  · rintro rfl
    exact hcut

theorem endsWith_newline_iff : endsWith text "\n" = true ↔ ∃ init, text = init ++ ['\n'] := by
  rw [endsWith, isSuffixOf_iff_suffix]
  exact ⟨fun ⟨init, h⟩ => ⟨init, h.symm⟩, fun ⟨init, h⟩ => ⟨init, h.symm⟩⟩

/-- Anchoring a literal keeps its end. -/
theorem endsWith_anchorFirstLine {indent literal : Text} (h : endsWith literal "\n" = true) :
    endsWith (anchorFirstLine indent literal) "\n" = true := by
  obtain ⟨blanks, rest, hblanks, heq, hanchor⟩ := exists_anchorFirstLine indent literal
  obtain ⟨init, hinit⟩ := endsWith_newline_iff.mp h
  have hne : literal ≠ [] := by simp [hinit]
  rw [hanchor, if_neg hne]
  have hlast : literal.getLast? = some '\n' := by rw [hinit, getLast?_concat]
  cases rest using reverseRecOn with
  | nil =>
    rw [heq, append_nil] at hlast
    exact absurd (hblanks '\n' (mem_of_getLast? hlast)) (by decide)
  | append_singleton rest c =>
    rw [heq, ← List.append_assoc, getLast?_concat, some.injEq] at hlast
    exact endsWith_newline_iff.mpr ⟨indent ++ rest, by rw [hlast, List.append_assoc]⟩

/-- The whole lines of a literal come back when they are literal source at their
indent. -/
theorem literal_lines_self_iff (hquotes : py.Quotes) (indent unit : Text) :
    let middle :=
      if looksLikePythonStringLiteral unit && isPythonStringLiteralSource py unit then
        anchorFirstLine indent unit
      else quoteAsPythonString py unit indent
    (if !endsWith middle "\n" && endsWith unit "\n" then middle ++ ['\n'] else middle) = unit ↔
      LiteralAt py indent unit := by
  intro middle
  by_cases hliteral : looksLikePythonStringLiteral unit = true ∧
      isPythonStringLiteralSource py unit = true
  · have hmiddle : middle = anchorFirstLine indent unit := by
      simp [middle, hliteral.1, hliteral.2]
    rw [LiteralAt, hmiddle, if_neg, anchorFirstLine_self_iff indent (ne_nil_of_looksLike hliteral.1)]
    · simp [hliteral.1, hliteral.2]
    · intro hcond
      rw [Bool.and_eq_true, Bool.not_eq_true'] at hcond
      rw [endsWith_anchorFirstLine hcond.2] at hcond
      exact absurd hcond.1 (by simp)
  · have hmiddle : middle = quoteAsPythonString py unit indent := by
      simp only [middle]
      rw [if_neg]
      simpa using hliteral
    have hlong := length_lt_quoteAsPythonString hquotes unit indent
    constructor
    · intro heq
      have hlen := congrArg length heq
      rw [hmiddle] at hlen
      split at hlen
      · rw [length_append] at hlen
        omega
      · omega
    · exact fun h => absurd ⟨h.1, h.2.1⟩ hliteral

/-! ## The patch -/

/-- The lines of a point whose bytes could be read are lines of the file. -/
theorem bounds_of_source (h : replacementSource py table tree point = .ok unit)
    (hnone : spanNode py table tree point = .ok none) (hkind : point.kind ≠ .file) :
    point.lineStart - 1 ≤ point.lineEnd := by
  rw [replacementSource, hnone] at h
  simp only [ok_bind] at h
  obtain ⟨span, hspan, -⟩ := bind_eq_ok h
  simp only [replacementByteSpan, if_neg hkind, hnone, ok_bind] at hspan
  split at hspan
  · omega
  · cases hspan

/-- Bytes and text are cut into the same lines up to the first separator that only
`str.splitlines` knows. -/
theorem lines_of_bytes {first last : Nat} (hle : first ≤ last)
    (h : SeparatorsFrom text (bytesAt text (offset (plainLines text) last))) :
    ((encode text).take (bytesAt text (offset (plainLines text) last))).drop
        (bytesAt text (offset (plainLines text) first)) =
      encode (((splitLinesKeep text).take last).drop first).flatten := by
  have hflat : (plainLines text).flatten = text := Lines.flatten_splitEnds _ _ _ text
  have hmono := offset_mono (plainLines text) hle
  have hlength := offset_le (plainLines text) last
  rw [hflat] at hlength
  -- both notions of a line reach the same places
  have htake : ∀ k, k ≤ last →
      ((splitLinesKeep text).take k).flatten = text.take (offset (plainLines text) k) := by
    intro k hk
    have hkmono := offset_mono (plainLines text) hk
    have hsame : offset (splitLinesKeep text) k = offset (plainLines text) k := by
      refine le_antisymm (offset_splitLinesKeep_le text k) ?_
      exact le_offset_splitLinesKeep h le_rfl fun i hi => bytesAt_lt (by omega) (by omega)
    have hkeep := take_flatten (splitLinesKeep text) k
    rwa [flatten_splitLinesKeep, hsame, eq_comm] at hkeep
  have hcut : text.take (offset (plainLines text) last) =
      text.take (offset (plainLines text) first) ++
        (((splitLinesKeep text).take last).drop first).flatten := by
    rw [← htake first hle, ← htake last le_rfl, ← flatten_append, take_append_slice _ hle]
  have hbytes : bytesAt text (offset (plainLines text) first) =
      bytesAt (text.take (offset (plainLines text) last)) (offset (plainLines text) first) := by
    rw [bytesAt, bytesAt, take_take, Nat.min_eq_left hmono]
  rw [take_encode, hbytes, drop_encode, hcut, drop_left' (by rw [length_take]; omega)]

/-- Where bytes and text have the same lines, the unit that is read is the unit that a replacement
is written over. -/
theorem replacedText_of_source (h : replacementSource py table tree point = .ok unit)
    (htext : readSource tree point.file = .ok text)
    (hlines : LinesAgree py table tree point text) :
    replacedText py table tree point = .ok unit := by
  obtain ⟨hdecode, hencode⟩ := readSource_ok htext
  rw [replacedText, htext, ok_bind]
  obtain ⟨found, hfound, h⟩ := bind_eq_ok h
  by_cases hfile : point.kind = .file
  · obtain rfl : found = none := by
      rw [spanNode, if_neg (by simp [hfile])] at hfound
      exact (ok.inj hfound).symm
    obtain ⟨span, hspan, h⟩ := bind_eq_ok h
    rw [replacementByteSpan, if_pos hfile] at hspan
    cases hspan
    simp only [take_length, drop_zero, hdecode] at h
    rw [if_pos hfile]
    exact h
  rw [if_neg hfile, hfound]
  cases found with
  | some node =>
    rw [htext] at h
    exact h
  | none =>
    -- the source counts the newline bytes, the text the separators of `splitlines`
    have hseparators := hlines hfile hfound
    obtain ⟨span, hspan, h⟩ := bind_eq_ok h
    simp only [replacementByteSpan, if_neg hfile, hfound, ok_bind] at hspan
    split at hspan
    · rename_i hbounds
      cases hspan
      rw [← hencode, linesLength, offset_splitLines] at hseparators
      simp only [← hencode, linesLength, offset_splitLines,
        lines_of_bytes (by omega : point.lineStart - 1 ≤ point.lineEnd) hseparators,
        decode_encode] at h
      exact h
    · cases hspan

/-- A replacement in a code region. -/
theorem applySpanReplace_code {content : Text} {grammar : MarkerSyntax}
    (htext : readSource tree point.file = .ok text) (hkind : point.kind = .code)
    (hgrammar : markerSyntaxFor table point.file = some grammar) :
    applySpanReplace py table tree point content =
      .ok (replaceLines (splitLinesKeep text) point (reindentCodeRegion content (regionBaseIndent
        (((splitLinesKeep text).take point.lineEnd).drop (point.lineStart - 1)).flatten) grammar)) := by
  have hnone : spanNode py table tree point = .ok none := by
    rw [spanNode, if_neg (by simp [hkind])]
    rfl
  rw [applySpanReplace, htext, ok_bind]
  simp only [hkind, hnone, hgrammar, ok_bind, if_true, reduceCtorEq, if_false]
  rfl

theorem applySpanReplace_span_lines {content : Text} (htext : readSource tree point.file = .ok text)
    (hkind : point.kind = .span) (hnone : spanNode py table tree point = .ok none) :
    let original := (((splitLinesKeep text).take point.lineEnd).drop (point.lineStart - 1)).flatten
    let middle :=
      if pathSuffix point.file = pythonSuffix then
        if looksLikePythonStringLiteral content && isPythonStringLiteralSource py content then
          anchorFirstLine (literalLinePrefix original) content
        else quoteAsPythonString py content (literalLinePrefix original)
      else content
    applySpanReplace py table tree point content =
      .ok (replaceLines (splitLinesKeep text) point
        (if !endsWith middle "\n" && endsWith original "\n" then middle ++ ['\n'] else middle)) := by
  intro original middle
  rw [applySpanReplace, htext, ok_bind]
  simp only [hkind, hnone, ok_bind, reduceCtorEq, if_false]
  rfl

/-- When replacing a unit by itself changes nothing. -/
theorem applySpanReplace_self_iff (hordered : py.Ordered) (hquotes : py.Quotes)
    (htext : readSource tree point.file = .ok text)
    (hsource : replacementSource py table tree point = .ok unit)
    (hunit : replacedText py table tree point = .ok unit) :
    applySpanReplace py table tree point unit = .ok text ↔ WrittenAsRead py table tree point unit := by
  rw [replacedText, htext, ok_bind] at hunit
  by_cases hfile : point.kind = .file
  · rw [if_pos hfile] at hunit
    cases hunit
    rw [applySpanReplace, htext, ok_bind]
    simp [hfile, WrittenAsRead, pure, Except.pure]
  simp only [if_neg hfile] at hunit
  obtain ⟨found, hfound, hunit⟩ := bind_eq_ok hunit
  cases found with
  | some node =>
    obtain ⟨hspan, hsuffix, markerLine, hfind⟩ := spanNode_some hfound
    obtain ⟨ast, hparse, c, hc, rfl⟩ := findConstantAfter_mem htext hfind
    obtain ⟨hpos, hplace⟩ := hordered text ast hparse c hc
    obtain ⟨before, after, hcut, hreplace⟩ := nodeText_cut hunit hpos hplace
    rw [WrittenAsRead, hspan, applySpanReplace, htext, ok_bind]
    simp only [hfile, if_false, hfound, ok_bind, hsuffix, forall_const, hreplace]
    rw [← buildLiteralReplacement_self_iff hquotes, hcut]
    rw [ok.injEq, append_left_inj, append_right_inj]
  | none =>
    have hbounds := bounds_of_source hsource hfound hfile
    have hunit : (((splitLinesKeep text).take point.lineEnd).drop (point.lineStart - 1)).flatten =
        unit := ok.inj hunit
    cases hkind : point.kind with
    | file => exact absurd hkind hfile
    | code =>
      rw [WrittenAsRead, hkind]
      cases hgrammar : markerSyntaxFor table point.file with
      | none =>
        simp only [reduceCtorEq, false_and, exists_false, iff_false]
        rw [applySpanReplace, htext, ok_bind]
        simp [hkind, hfound, hgrammar, throw, throwThe, MonadExceptOf.throw, bind, Except.bind]
      | some grammar =>
        simp only [some.injEq, exists_eq_left']
        rw [applySpanReplace_code htext hkind hgrammar, ok.injEq, hunit,
          replaceLines_self_iff hbounds, hunit, reindentCodeRegion_self_iff]
    | span =>
      rw [WrittenAsRead, hkind, applySpanReplace_span_lines htext hkind hfound, ok.injEq, hunit,
        replaceLines_self_iff hbounds, hunit]
      by_cases hsuffix : pathSuffix point.file = pythonSuffix
      · simp only [hsuffix, if_true, forall_const, hfound]
        exact literal_lines_self_iff hquotes (literalLinePrefix unit) unit
      · simp [hsuffix]

/-- **A replacement by the text that is there gives the file back exactly when** the unit is
written as the builder of its kind writes it. -/
theorem noop_patch_iff (py : Python) (hordered : py.Ordered) (hquotes : py.Quotes)
    (table : SyntaxTable) (tree : Snapshot) (points : List MutationPoint) (patch : Patch)
    (point : MutationPoint) (text unit : Text) (hop : patch.op = .replace)
    (hpoint : pointOf points patch.mutationId = some point)
    (htext : readSource tree point.file = .ok text)
    (hlines : LinesAgree py table tree point text)
    (hsource : replacementSource py table tree point = .ok unit)
    (hcontent : patch.newContent = some unit) :
    (∃ text', patchedFile py table tree points patch = .ok (point.file, text') ∧
        encode text' = fileBytes tree point.file) ↔
      WrittenAsRead py table tree point unit := by
  -- what the proposer was shown is what the applier writes over
  have hunit := replacedText_of_source hsource htext hlines
  obtain ⟨-, hencode⟩ := readSource_ok htext
  rw [← applySpanReplace_self_iff hordered hquotes htext hsource hunit]
  have hpatched : patchedFile py table tree points patch =
      (applySpanReplace py table tree point unit).map (point.file, ·) := by
    simp only [patchedFile, hop, hcontent, Patch.require, Patch.point, hpoint, ok_bind]
    cases applySpanReplace py table tree point unit <;> rfl
  rw [hpatched]
  cases happly : applySpanReplace py table tree point unit with
  | error error => simp [Except.map]
  | ok text' =>
    simp only [Except.map, Except.ok.injEq, Prod.mk.injEq, true_and, exists_eq_left', ← hencode]
    constructor
    · intro heq
      have hdecode := congrArg decode heq
      rw [decode_encode, decode_encode] at hdecode
      exact Option.some.inj hdecode
    · rintro rfl
      rfl

/-! ### A region that ends in a blank line -/

/-- A region around a body. -/
def limitFile (body : List String) : Text := List.flatMap String.toList
  (["# zicato:mutable:code id=\"limit\"\n"] ++ body ++ ["# zicato:mutable:end\n"])

/-- The interpreter on the file with and without the blank line. -/
def limitPython : Python where
  sha256 data :=
    if data = utf8 "LIMIT = 1\n\n" then
      "3bef5b34f85082df4ced8a0a5cfe68927ce0dc802c51716277c80b33690cea82"
    else if data = utf8 "LIMIT = 1\n" then
      "5c25b2797520c7c11ba0aa0d6ace5c8f7fed15118359e14427ab52d023d6ccf1"
    else ""
  parse text :=
    if text = limitFile ["LIMIT = 1\n", "\n"] ∨ text = limitFile ["LIMIT = 1\n"] then
      .ok { constants := [⟨.numeric, ⟨2, 8, 2, 9⟩⟩], signs := [] }
    else .error "invalid syntax"
  isStringExpression _ := false
  reprStr s := '\'' :: s ++ ['\'']
  isWord c := c.isAlphanum || c == '_'

/-- A replacement of the body. -/
def limitPatch (content : String) : Patch :=
  { id := "p1", mutationId := "limit", op := .replace, newContent := some content.toList }

/-- The patch with the region's own text takes the blank line off. -/
theorem blank_end_is_dropped :
    (pointOf (enumerateMutations limitPython separatorSurface
        (literalTree (limitFile ["LIMIT = 1\n", "\n"])) ["."]) "limit").map (fun point =>
          (replacementSource limitPython separatorSurface.table
            (literalTree (limitFile ["LIMIT = 1\n", "\n"])) point).toOption) =
        some (some "LIMIT = 1\n\n".toList) ∧
      (applyPatches limitPython separatorSurface (literalTree (limitFile ["LIMIT = 1\n", "\n"]))
        [limitPatch "LIMIT = 1\n\n"] none ["."]).target.map (fileBytes · "tone.py") =
          some (encode (limitFile ["LIMIT = 1\n"])) ∧
      (applyPatches limitPython separatorSurface (literalTree (limitFile ["LIMIT = 1\n", "\n"]))
        [limitPatch "LIMIT = 1\n\n"] none ["."]).result.toBool = true ∧
      encode (limitFile ["LIMIT = 1\n"]) ≠
        fileBytes (literalTree (limitFile ["LIMIT = 1\n", "\n"])) "tone.py" :=
  ⟨by decide +kernel, by decide +kernel, by decide +kernel, by decide +kernel⟩

theorem limitPython_ordered : limitPython.Ordered := by
  intro text ast h c hc
  simp only [limitPython] at h
  split at h
  · cases h
    obtain rfl : c = ⟨.numeric, ⟨2, 8, 2, 9⟩⟩ := by simpa using hc
    exact ⟨by decide, by decide⟩
  · cases h

theorem noop_patch_iff_limit :
    ∃ text', patchedFile limitPython separatorSurface.table (literalTree (limitFile ["LIMIT = 1\n"]))
        (enumerateMutations limitPython separatorSurface (literalTree (limitFile ["LIMIT = 1\n"]))
          ["."]) (limitPatch "LIMIT = 1\n") = .ok ("tone.py", text') ∧
      encode text' = fileBytes (literalTree (limitFile ["LIMIT = 1\n"])) "tone.py" := by
  have hquotes : limitPython.Quotes := fun text => by
    simp only [limitPython, List.cons_append, List.length_cons, List.length_append]
    omega
  have hpoints : (pointOf (enumerateMutations limitPython separatorSurface
      (literalTree (limitFile ["LIMIT = 1\n"])) ["."]) "limit").map (fun point =>
        ((point.file, point.kind), (replacementSource limitPython separatorSurface.table
          (literalTree (limitFile ["LIMIT = 1\n"])) point).toOption)) =
      some (("tone.py", .code), some "LIMIT = 1\n".toList) := by
    decide +kernel
  obtain ⟨point, hpoint, heq⟩ := Option.map_eq_some_iff.mp hpoints
  rw [Prod.mk.injEq, Prod.mk.injEq] at heq
  obtain ⟨⟨hfile, hkind⟩, hsource⟩ := heq
  have htext : (readSource (literalTree (limitFile ["LIMIT = 1\n"])) point.file).toOption =
      some (limitFile ["LIMIT = 1\n"]) := by
    rw [hfile]
    decide +kernel
  have hlines : LinesAgree limitPython separatorSurface.table
      (literalTree (limitFile ["LIMIT = 1\n"])) point (limitFile ["LIMIT = 1\n"]) := by
    have hnone : ∀ c ∈ limitFile ["LIMIT = 1\n"], isSeparator c = false := by decide
    intro _ _ i c hget hsep
    rw [hnone c (mem_of_getElem? hget)] at hsep
    cases hsep
  rw [← hfile]
  refine (noop_patch_iff limitPython limitPython_ordered hquotes separatorSurface.table _ _
    (limitPatch "LIMIT = 1\n") point _ _ rfl hpoint (ok_of_toOption htext) hlines
    (ok_of_toOption hsource) rfl).mpr ?_
  rw [WrittenAsRead, hkind]
  refine ⟨pythonSyntax, ?_, ?_⟩
  · rw [hfile]
    decide
  · have hlines : splitLines "LIMIT = 1\n".toList = ["LIMIT = 1".toList] := by decide
    constructor
    · decide
    · rw [hlines]
      decide +kernel
    · rw [hlines]
      decide
    · rw [hlines]
      decide

end Zicato.Mutation
