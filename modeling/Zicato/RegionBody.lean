import Zicato.RegionScan

/-! # The body of a code region

`_reindent_code_region` line by line: it drops the marker lines, takes the common
margin off, puts the region's indent on, and ends every line with a newline.  A
body that it gives back as it is, is settled. -/
open List
namespace Zicato.Text

/-- No character ends a line. -/
def Unbroken (line : Text) : Prop := ∀ c ∈ line, isLineBreak c = false

theorem unbroken_nil : Unbroken [] := by
  intro c hc
  cases hc

theorem Unbroken.append {a b : Text} (ha : Unbroken a) (hb : Unbroken b) : Unbroken (a ++ b) := by
  intro c hc
  rcases mem_append.mp hc with hc | hc
  · exact ha c hc
  · exact hb c hc

variable {line : Text} {lines : List Text}

theorem Unbroken.newline (h : Unbroken line) : '\n' ∉ line := by
  intro hc
  have hbreak := h '\n' hc
  revert hbreak
  decide

theorem Unbroken.return (h : Unbroken line) : '\r' ∉ line := by
  intro hc
  have hbreak := h '\r' hc
  revert hbreak
  decide

theorem unbroken_of_blank (h : ∀ c ∈ line, isBlank c = true) : Unbroken line := by
  intro c hc
  have hblank := h c hc
  rw [isBlank, Bool.or_eq_true, beq_iff_eq, beq_iff_eq] at hblank
  rcases hblank with rfl | rfl <;> decide

theorem isSpace_of_isBlank {c : Char} (h : isBlank c = true) : isSpace c = true := by
  rw [isBlank, Bool.or_eq_true, beq_iff_eq, beq_iff_eq] at h
  rcases h with rfl | rfl <;> decide

/-- The lines of a text without their ends. -/
theorem unbroken_of_mem_splitLines {text : Text} (h : line ∈ splitLines text) : Unbroken line := by
  obtain ⟨kept, hkept, rfl⟩ := mem_map.mp h
  obtain ⟨body, ending, rfl, hbody, hending⟩ := exists_terminator hkept
  rw [rdropWhile_append _ hbody]
  · exact hbody
  · cases hending with
    | none => simp
    | pair => decide
    | single hc => simpa using hc

theorem splitLinesKeep_line (h : Unbroken line) (rest : Text) :
    splitLinesKeep (line ++ '\n' :: rest) = (line ++ ['\n']) :: splitLinesKeep rest := by
  have hends : ∀ c ∈ line, isLineBreak c = false ∧ c ≠ '\r' :=
    fun c hc => ⟨h c hc, fun hr => h.return (hr ▸ hc)⟩
  rw [splitLinesKeep, Lines.splitEnds_append hends, ← splitLinesKeep,
    splitLinesKeep_end (by simp) (by decide)]
  rfl

theorem splitLinesKeep_last (h : Unbroken line) (hne : line ≠ []) :
    splitLinesKeep line = [line] := by
  have hends : ∀ c ∈ line, isLineBreak c = false ∧ c ≠ '\r' :=
    fun c hc => ⟨h c hc, fun hr => h.return (hr ▸ hc)⟩
  have hlines := @Lines.splitEnds_append _ _ _ '\n' _ [] _ hends
  rw [append_nil] at hlines
  rw [splitLinesKeep, hlines, Lines.splitEnds, Lines.prepend, if_neg hne]

theorem splitLinesKeep_text (h : ∀ line ∈ lines, Unbroken line) (rest : Text) :
    splitLinesKeep (Lines.text '\n' lines ++ rest) =
      lines.map (· ++ ['\n']) ++ splitLinesKeep rest := by
  induction lines with
  | nil => rfl
  | cons line lines ih =>
    obtain ⟨hline, hlines⟩ := forall_mem_cons.mp h
    rw [Lines.text, flatMap_cons, List.append_assoc, List.append_assoc, singleton_append,
      splitLinesKeep_line hline, ← Lines.text, ih hlines, map_cons, cons_append]

/-- The lines without a blank last one. -/
def dropBlankEnd (lines : List Text) : List Text :=
  if lines.getLast? = some [] then lines.dropLast else lines

example : dropBlankEnd [['a'], []] = [['a']] := by decide +kernel

theorem joinLines_concat (lines : List Text) (last : Text) :
    joinLines (lines ++ [last]) = Lines.text '\n' lines ++ last := by
  induction lines with
  | nil => simp [joinLines, Lines.text]
  | cons line lines ih =>
    rw [joinLines] at ih ⊢
    rw [cons_append, intercalate_cons_of_ne_nil (by simp), ih]
    simp [Lines.text]

theorem map_rdropWhile_newline (h : ∀ line ∈ lines, Unbroken line) :
    (lines.map (· ++ ['\n'])).map (·.rdropWhile isLineBreak) = lines := by
  rw [map_map]
  conv_rhs => rw [← map_id lines]
  refine map_congr_left fun line hline => ?_
  exact rdropWhile_append (by decide) (h line hline)

/-- `splitlines` after a join forgets a blank last line. -/
theorem splitLines_joinLines (h : ∀ line ∈ lines, Unbroken line) :
    splitLines (joinLines lines) = dropBlankEnd lines := by
  rcases eq_nil_or_concat lines with rfl | ⟨init, last, rfl⟩
  · rfl
  have hinit : ∀ line ∈ init, Unbroken line := fun line hline => h line (by simp [hline])
  have hlast : Unbroken last := h last (by simp)
  rw [concat_eq_append, joinLines_concat, splitLines, splitLinesKeep_text hinit, map_append,
    map_rdropWhile_newline hinit, dropBlankEnd]
  by_cases hne : last = []
  · subst hne
    simp [splitLinesKeep, Lines.splitEnds]
  · rw [splitLinesKeep_last hlast hne, if_neg (by simpa using hne)]
    simp [rdropWhile_eq_self hlast]

theorem split_joinLines (h : ∀ line ∈ lines, Unbroken line) (hne : lines ≠ []) :
    Lines.split '\n' (joinLines lines) = lines := by
  obtain ⟨init, last, rfl⟩ := (eq_nil_or_concat lines).resolve_left hne
  have hinit : ∀ line ∈ init, '\n' ∉ line := fun line hline => (h line (by simp [hline])).newline
  have hlast : '\n' ∉ last := (h last (by simp)).newline
  rw [concat_eq_append, joinLines_concat, Lines.split_text hinit, Lines.split_last hlast]

theorem joinLines_newline (hne : lines ≠ []) :
    joinLines lines ++ ['\n'] = Lines.text '\n' lines := by
  obtain ⟨init, last, rfl⟩ := (eq_nil_or_concat lines).resolve_left hne
  rw [concat_eq_append, joinLines_concat, Lines.text_concat, List.append_assoc]

end Zicato.Text

namespace Zicato.Mutation

open Text

/-- The lines of a replacement that are not markers. -/
def keptLines (grammar : MarkerSyntax) (content : Text) : List Text :=
  (splitLines content).filter fun line =>
    (parseMarkerLine grammar line).isNone && !isEndMarker grammar line

/-- A line that `textwrap.dedent` takes for blank is empty. -/
def clearBlank (line : Text) : Text := if line.all isBlank then [] else line

/-- The lines that `textwrap.dedent` makes of some lines. -/
def dedentLines (lines : List Text) : List Text :=
  (lines.map clearBlank).map fun line =>
    (line.dropPrefix? (margin (lines.map clearBlank))).getD line

/-- A line at the region's indent. -/
def anchor (indent line : Text) : Text := if (strip line).isEmpty then [] else indent ++ line

/-- The lines a region gets. -/
def rewrittenLines (grammar : MarkerSyntax) (indent content : Text) : List Text :=
  match keptLines grammar content with
  | [] => []
  | line :: lines =>
      match (dropBlankEnd (dedentLines (line :: lines))).map (anchor indent) with
      | [] => [[]]
      | first :: rest => first :: rest

variable {grammar : MarkerSyntax} {indent content line : Text} {lines : List Text}

/-- The lines of a rewritten region. -/
theorem rewrittenLines_of_ne_nil (h : keptLines grammar content ≠ []) :
    rewrittenLines grammar indent content =
      if (dropBlankEnd (dedentLines (keptLines grammar content))).map (anchor indent) = [] then [[]]
      else (dropBlankEnd (dedentLines (keptLines grammar content))).map (anchor indent) := by
  rw [rewrittenLines]
  cases hkept : keptLines grammar content with
  | nil => exact absurd hkept h
  | cons first rest =>
    dsimp only
    split
    · rename_i hout
      rw [if_pos hout]
    · rename_i hout
      rw [if_neg (by simp [hout]), hout]

theorem unbroken_dropPrefix (margin : Text) (h : Unbroken line) :
    Unbroken ((line.dropPrefix? margin).getD line) := by
  cases hdrop : line.dropPrefix? margin with
  | none => exact h
  | some rest =>
    obtain ⟨head, rfl, -⟩ := dropPrefix?_eq_some_iff.mp hdrop
    exact fun c hc => h c (mem_append_right _ hc)

theorem unbroken_clearBlank (h : Unbroken line) : Unbroken (clearBlank line) := by
  rw [clearBlank]
  split
  · exact unbroken_nil
  · exact h

theorem unbroken_dedentLines (h : ∀ line ∈ lines, Unbroken line) :
    ∀ line ∈ dedentLines lines, Unbroken line := by
  intro line hline
  obtain ⟨cleared, hcleared, rfl⟩ := mem_map.mp hline
  obtain ⟨original, horiginal, rfl⟩ := mem_map.mp hcleared
  exact unbroken_dropPrefix _ (unbroken_clearBlank (h original horiginal))

theorem dedent_joinLines (h : ∀ line ∈ lines, Unbroken line) (hne : lines ≠ []) :
    dedent (joinLines lines) = joinLines (dedentLines lines) := by
  rw [dedent, split_joinLines h hne]
  rfl

theorem unbroken_keptLines : ∀ line ∈ keptLines grammar content, Unbroken line := fun _ hline =>
  unbroken_of_mem_splitLines (mem_of_mem_filter hline)

/-- The rewritten body is its lines, each with a newline. -/
theorem reindentCodeRegion_eq (content indent : Text) (grammar : MarkerSyntax) :
    reindentCodeRegion content indent grammar =
      Lines.text '\n' (rewrittenLines grammar indent content) := by
  have hkept := @unbroken_keptLines grammar content
  rw [reindentCodeRegion, ← keptLines, rewrittenLines]
  generalize keptLines grammar content = kept at hkept ⊢
  cases kept with
  | nil => rfl
  | cons line lines =>
    have hne : line :: lines ≠ [] := cons_ne_nil line lines
    rw [if_neg (by simp), dedent_joinLines hkept hne,
      splitLines_joinLines (unbroken_dedentLines hkept)]
    change joinLines (((dropBlankEnd (dedentLines (line :: lines))).map (anchor indent))) ++ ['\n'] = _
    dsimp only
    cases hout : (dropBlankEnd (dedentLines (line :: lines))).map (anchor indent) with
    | nil => rfl
    | cons first rest => exact joinLines_newline (cons_ne_nil first rest)

/-! ## What a scan makes of the lines -/

theorem skipSpace_append {blanks : Text} (h : ∀ c ∈ blanks, isSpace c = true) (line : Text) :
    skipSpace (blanks ++ line) = skipSpace line := by
  rw [skipSpace, skipSpace, dropWhile_append_of_pos h]

theorem skipSpace_of_strip (h : (strip line).isEmpty = true) : skipSpace line = [] := by
  have hstrip : strip line = [] := isEmpty_iff.mp h
  rw [strip, rdropWhile_eq_nil_iff] at hstrip
  by_contra hne
  obtain ⟨c, rest, hline⟩ := exists_cons_of_ne_nil hne
  have hspace := hstrip c (by simp [hline])
  have hhead := head?_dropWhile_not isSpace line
  rw [← skipSpace, hline] at hhead
  simp [hspace] at hhead

theorem commonIndent_blank {a b : Text} (h : ∀ c ∈ a, isBlank c = true) :
    ∀ c ∈ commonIndent a b, isBlank c = true := by
  induction a generalizing b with
  | nil => simp [commonIndent]
  | cons x a ih =>
    obtain ⟨hx, ha⟩ := forall_mem_cons.mp h
    cases b with
    | nil => simp [commonIndent]
    | cons y b =>
      rw [commonIndent]
      split
      · exact forall_mem_cons.mpr ⟨hx, ih ha⟩
      · simp

theorem takeWhile_blank (line : Text) : ∀ c ∈ line.takeWhile isBlank, isBlank c = true := by
  intro c hc
  exact mem_takeWhile_imp hc

/-- The common indent is blank. -/
theorem margin_blank (lines : List Text) : ∀ c ∈ margin lines, isBlank c = true := by
  rw [margin]
  cases hindents : (lines.filter fun line => !line.all isBlank).map (·.takeWhile isBlank) with
  | nil => simp
  | cons indent indents =>
    have hindent : ∀ c ∈ indent, isBlank c = true := by
      have hmem : indent ∈ (lines.filter fun line => !line.all isBlank).map (·.takeWhile isBlank) := by
        rw [hindents]
        exact mem_cons_self
      obtain ⟨line, -, rfl⟩ := mem_map.mp hmem
      exact takeWhile_blank line
    clear hindents
    induction indents generalizing indent with
    | nil => exact hindent
    | cons other indents ih => exact ih _ (commonIndent_blank hindent)

/-- Taking the margin off a line. -/
def unindent (margin line : Text) : Text :=
  ((clearBlank line).dropPrefix? margin).getD (clearBlank line)

theorem dedentLines_eq (lines : List Text) :
    dedentLines lines = lines.map (unindent (margin (lines.map clearBlank))) := by
  rw [dedentLines, map_map]
  rfl

theorem skipSpace_all (h : ∀ c ∈ line, isSpace c = true) : skipSpace line = [] := by
  have happ := skipSpace_append h []
  rw [append_nil] at happ
  rw [happ]
  rfl

/-- Removing the indent moves a line only. -/
theorem skipSpace_unindent {margin : Text} (h : ∀ c ∈ margin, isBlank c = true) (line : Text) :
    skipSpace (unindent margin line) = skipSpace line := by
  rw [unindent, clearBlank]
  split
  · rename_i hall
    have hblank : ∀ c ∈ line, isSpace c = true := fun c hc =>
      isSpace_of_isBlank (all_eq_true.mp hall c hc)
    rw [skipSpace_all hblank]
    cases margin with
    | nil => rfl
    | cons c margin => rfl
  · cases hdrop : line.dropPrefix? margin with
    | none => rfl
    | some rest =>
      obtain ⟨head, rfl, heq⟩ := dropPrefix?_eq_some_iff.mp hdrop
      obtain rfl : head = margin := by simpa using heq
      exact (skipSpace_append (fun c hc => isSpace_of_isBlank (h c hc)) rest).symm

theorem skipSpace_anchor (h : ∀ c ∈ indent, isBlank c = true) (line : Text) :
    skipSpace (anchor indent line) = skipSpace line := by
  rw [anchor]
  split
  · rename_i hempty
    rw [skipSpace_of_strip hempty]
    rfl
  · exact skipSpace_append (fun c hc => isSpace_of_isBlank (h c hc)) line

theorem mem_dropBlankEnd (h : line ∈ dropBlankEnd lines) : line ∈ lines := by
  rw [dropBlankEnd] at h
  split at h
  · exact (dropLast_sublist lines).subset h
  · exact h

theorem mem_dropBlankEnd_of_ne_nil (h : line ∈ lines) (hne : line ≠ []) :
    line ∈ dropBlankEnd lines := by
  rw [dropBlankEnd]
  split
  · rename_i hlast
    obtain ⟨init, rfl⟩ := getLast?_eq_some_iff.mp hlast
    rw [dropLast_concat]
    exact (mem_append.mp h).resolve_right (by simpa using hne)
  · exact h

theorem dropBlankEnd_eq_nil (h : dropBlankEnd lines = []) : lines = [] ∨ lines = [[]] := by
  rw [dropBlankEnd] at h
  split at h
  · rename_i hlast
    obtain ⟨init, rfl⟩ := getLast?_eq_some_iff.mp hlast
    rw [dropLast_concat] at h
    exact .inr (by rw [h]; rfl)
  · exact .inl h

/-- The lines a region gets come from lines that were kept. -/
theorem mem_rewrittenLines (h : line ∈ rewrittenLines grammar indent content) :
    (line = [] ∧ ∃ kept ∈ keptLines grammar content,
        unindent (margin ((keptLines grammar content).map clearBlank)) kept = []) ∨
      ∃ kept ∈ keptLines grammar content, line =
        anchor indent (unindent (margin ((keptLines grammar content).map clearBlank)) kept) := by
  rw [rewrittenLines] at h
  generalize keptLines grammar content = kept at h ⊢
  cases kept with
  | nil => cases h
  | cons first rest =>
    dsimp only at h
    cases hout : (dropBlankEnd (dedentLines (first :: rest))).map (anchor indent) with
    | nil =>
      rw [hout] at h
      obtain rfl : line = [] := by simpa using h
      refine .inl ⟨rfl, first, mem_cons_self, ?_⟩
      rcases dropBlankEnd_eq_nil (map_eq_nil_iff.mp hout) with hnil | hone
      · rw [dedentLines_eq] at hnil
        cases hnil
      · rw [dedentLines_eq, map_cons] at hone
        exact (List.cons.inj hone).1
    | cons out outs =>
      rw [hout] at h
      have hmem : line ∈ (dropBlankEnd (dedentLines (first :: rest))).map (anchor indent) := by
        rw [hout]
        exact h
      obtain ⟨dedented, hdedented, rfl⟩ := mem_map.mp hmem
      have hdedented := mem_dropBlankEnd hdedented
      rw [dedentLines_eq] at hdedented
      obtain ⟨kept, hkept, rfl⟩ := mem_map.mp hdedented
      exact .inr ⟨kept, hkept, rfl⟩

/-- What a rewritten line starts with is what a line that was kept starts with. -/
theorem rewritten_of_kept (hindent : ∀ c ∈ indent, isBlank c = true)
    (h : line ∈ rewrittenLines grammar indent content) :
    ∃ kept ∈ keptLines grammar content, skipSpace line = skipSpace kept := by
  have hmargin := margin_blank ((keptLines grammar content).map clearBlank)
  rcases mem_rewrittenLines h with ⟨rfl, kept, hkept, hnil⟩ | ⟨kept, hkept, rfl⟩
  · refine ⟨kept, hkept, ?_⟩
    rw [← skipSpace_unindent hmargin kept, hnil]
  · exact ⟨kept, hkept, by rw [skipSpace_anchor hindent, skipSpace_unindent hmargin]⟩

/-- Every kept line is in the rewritten region. -/
theorem kept_rewritten {kept : Text} (hindent : ∀ c ∈ indent, isBlank c = true)
    (h : kept ∈ keptLines grammar content) (hne : skipSpace kept ≠ []) :
    ∃ line ∈ rewrittenLines grammar indent content, skipSpace line = skipSpace kept := by
  have hmargin := margin_blank ((keptLines grammar content).map clearBlank)
  have hskip : skipSpace (anchor indent (unindent (margin ((keptLines grammar content).map
      clearBlank)) kept)) = skipSpace kept := by
    rw [skipSpace_anchor hindent, skipSpace_unindent hmargin]
  refine ⟨_, ?_, hskip⟩
  have hdedented : unindent (margin ((keptLines grammar content).map clearBlank)) kept ≠ [] := by
    intro hnil
    rw [← skipSpace_unindent hmargin kept, hnil] at hne
    exact hne rfl
  rw [rewrittenLines]
  generalize keptLines grammar content = lines at h hdedented ⊢
  cases lines with
  | nil => cases h
  | cons first rest =>
    dsimp only
    have hmem : anchor indent (unindent (margin ((first :: rest).map clearBlank)) kept) ∈
        (dropBlankEnd (dedentLines (first :: rest))).map (anchor indent) := by
      refine mem_map_of_mem (mem_dropBlankEnd_of_ne_nil ?_ hdedented)
      rw [dedentLines_eq]
      exact mem_map_of_mem h
    cases hout : (dropBlankEnd (dedentLines (first :: rest))).map (anchor indent) with
    | nil =>
      rw [hout] at hmem
      cases hmem
    | cons out outs =>
      rw [hout] at hmem
      exact hmem

theorem unbroken_rewrittenLines (hindent : ∀ c ∈ indent, isBlank c = true) :
    ∀ line ∈ rewrittenLines grammar indent content, Unbroken line := by
  intro line hline
  rcases mem_rewrittenLines hline with ⟨rfl, -⟩ | ⟨kept, hkept, rfl⟩
  · exact unbroken_nil
  · have hdedented := unbroken_dropPrefix (margin ((keptLines grammar content).map
      clearBlank)) (unbroken_clearBlank (unbroken_keptLines kept hkept))
    rw [anchor]
    split
    · exact unbroken_nil
    · exact (unbroken_of_blank hindent).append hdedented

/-! ## Settled bodies -/

/-- A body that is rewritten to itself: its lines end in newlines, none is a
marker, none but an only line is blank at the end, and every other line is empty
or at the indent of the first. -/
structure Settled (grammar : MarkerSyntax) (body : Text) : Prop where
  ended : splitLinesKeep body = (splitLines body).map (· ++ ['\n'])
  unmarked : ∀ line ∈ splitLines body,
    parseMarkerLine grammar line = none ∧ isEndMarker grammar line = false
  last : (splitLines body).getLast? = some [] → splitLines body = [[]]
  anchored : ∀ line ∈ splitLines body,
    line = [] ∨ regionBaseIndent body <+: line ∧ line.all isSpace = false

theorem regionBaseIndent_blank (body : Text) : ∀ c ∈ regionBaseIndent body, isBlank c = true := by
  rw [regionBaseIndent]
  split
  · simp
  · exact takeWhile_blank _

theorem strip_isEmpty_iff : (strip line).isEmpty = true ↔ line.all isSpace = true := by
  constructor
  · intro h
    have hskip := skipSpace_of_strip h
    rw [skipSpace, dropWhile_eq_nil_iff] at hskip
    exact all_eq_true.mpr hskip
  · intro h
    rw [strip, skipSpace_all (all_eq_true.mp h)]
    rfl

theorem unindent_nil (margin : Text) : unindent margin [] = [] := by
  cases margin with
  | nil => rfl
  | cons c margin => rfl

theorem commonIndent_prefix {a b : Text} (h : a <+: b) : commonIndent a b = a := by
  induction a generalizing b with
  | nil => rfl
  | cons x a ih =>
    cases b with
    | nil => simp at h
    | cons y b =>
      obtain ⟨rfl, hab⟩ := cons_prefix_cons.mp h
      rw [commonIndent, if_pos rfl, ih hab]

theorem prefix_takeWhile (hindent : ∀ c ∈ indent, isBlank c = true) (h : indent <+: line) :
    indent <+: line.takeWhile isBlank := by
  obtain ⟨rest, rfl⟩ := h
  rw [takeWhile_append_of_pos hindent]
  exact prefix_append _ _

theorem clearBlank_of_nonspace (h : line.all isSpace = false) : clearBlank line = line := by
  rw [clearBlank, if_neg]
  intro hall
  have hspace : line.all isSpace = true := all_eq_true.mpr fun c hc =>
    isSpace_of_isBlank (all_eq_true.mp hall c hc)
  rw [h] at hspace
  cases hspace

/-- Lines that stand at an indent have it as their margin. -/
theorem margin_of_anchored (hindent : indent = match lines.find? (!·.all isBlank) with
      | none => []
      | some line => line.takeWhile isBlank)
    (h : ∀ line ∈ lines, line = [] ∨ indent <+: line ∧ line.all isSpace = false) :
    margin lines = indent := by
  have hfind := head?_filter (p := fun line : Text => !line.all isBlank) (l := lines)
  rw [margin]
  cases hfilter : lines.filter fun line => !line.all isBlank with
  | nil =>
    rw [hfilter, head?_nil] at hfind
    rw [hindent, ← hfind]
    rfl
  | cons line rest =>
    rw [hfilter, head?_cons] at hfind
    rw [← hfind] at hindent
    dsimp only at hindent
    have hpref : ∀ other ∈ rest.map (·.takeWhile isBlank), indent <+: other := by
      intro other hother
      obtain ⟨kept, hkept, rfl⟩ := mem_map.mp hother
      have hmem : kept ∈ lines.filter fun line => !line.all isBlank := by
        rw [hfilter]
        exact mem_cons_of_mem _ hkept
      obtain ⟨hlines, hblank⟩ := mem_filter.mp hmem
      refine prefix_takeWhile (hindent ▸ takeWhile_blank line) ?_
      rcases h kept hlines with rfl | ⟨hpre, -⟩
      · simp at hblank
      · exact hpre
    rw [map_cons, ← hindent]
    dsimp only
    generalize rest.map (·.takeWhile isBlank) = indents at hpref
    induction indents with
    | nil => rfl
    | cons other indents ih =>
      obtain ⟨hother, hrest⟩ := forall_mem_cons.mp hpref
      rw [foldl_cons, commonIndent_prefix hother]
      exact ih hrest

/-- Indenting restores what was removed. -/
theorem anchor_unindent (hindent : ∀ c ∈ indent, isBlank c = true)
    (h : line = [] ∨ indent <+: line ∧ line.all isSpace = false) :
    anchor indent (unindent indent line) = line := by
  rcases h with rfl | ⟨hpre, hspace⟩
  · rw [unindent_nil]
    rfl
  · rw [unindent, clearBlank_of_nonspace hspace]
    obtain ⟨rest, rfl⟩ := hpre
    have hself : (indent == indent) = true := by simp
    rw [dropPrefix?_append_of_beq rest hself, Option.getD_some, anchor, if_neg]
    intro hempty
    have hall : indent.all isSpace = true :=
      all_eq_true.mpr fun c hc => isSpace_of_isBlank (hindent c hc)
    rw [all_append, hall, strip_isEmpty_iff.mp hempty] at hspace
    cases hspace

/-- A settled body is rewritten as itself. -/
theorem Settled.rewrittenLines_eq {body : Text} (h : Settled grammar body) :
    rewrittenLines grammar (regionBaseIndent body) body = splitLines body := by
  have hkept : keptLines grammar body = splitLines body := by
    refine filter_eq_self.mpr fun line hline => ?_
    obtain ⟨hmarker, hend⟩ := h.unmarked line hline
    simp [hmarker, hend]
  have hindent := regionBaseIndent_blank body
  have hclear : (splitLines body).map clearBlank = splitLines body := by
    conv_rhs => rw [← map_id (splitLines body)]
    refine map_congr_left fun line hline => ?_
    rcases h.anchored line hline with rfl | ⟨-, hspace⟩
    · rfl
    · exact clearBlank_of_nonspace hspace
  have hmargin : margin (splitLines body) = regionBaseIndent body :=
    margin_of_anchored rfl h.anchored
  have hback : ((splitLines body).map (unindent (regionBaseIndent body))).map
      (anchor (regionBaseIndent body)) = splitLines body := by
    rw [map_map]
    conv_rhs => rw [← map_id (splitLines body)]
    exact map_congr_left fun line hline => anchor_unindent hindent (h.anchored line hline)
  by_cases hne : splitLines body = []
  · rw [rewrittenLines, hkept, hne]
  rw [rewrittenLines_of_ne_nil (by rw [hkept]; exact hne), hkept, dedentLines_eq, hclear, hmargin,
    dropBlankEnd]
  split
  · -- only an only line is blank at the end
    rename_i hend
    rw [getLast?_map, Option.map_eq_some_iff] at hend
    obtain ⟨line, hline, hnil⟩ := hend
    have hmem : line ∈ splitLines body := mem_of_getLast? hline
    have hblank := anchor_unindent hindent (h.anchored line hmem)
    rw [hnil] at hblank
    rw [h.last (hline.trans (congrArg some hblank.symm)), map_singleton, dropLast_singleton]
    rfl
  · rw [hback, if_neg hne]

theorem length_dropBlankEnd_le (lines : List Text) : (dropBlankEnd lines).length ≤ lines.length := by
  rw [dropBlankEnd]
  split
  · rw [length_dropLast]
    exact Nat.sub_le _ _
  · exact Nat.le_refl _

theorem length_rewrittenLines_le (grammar : MarkerSyntax) (indent content : Text) :
    (rewrittenLines grammar indent content).length ≤ (keptLines grammar content).length := by
  by_cases hkept : keptLines grammar content = []
  · rw [rewrittenLines, hkept]
  rw [rewrittenLines_of_ne_nil hkept]
  split
  · exact length_pos_iff.mpr hkept
  · rw [length_map]
    refine Nat.le_trans (length_dropBlankEnd_le _) ?_
    rw [dedentLines_eq, length_map]

/-- Lines that are all kept and rewritten to themselves are settled. -/
theorem anchored_of_rewritten {body : Text} (hkept : keptLines grammar body = splitLines body)
    (h : rewrittenLines grammar indent body = splitLines body) :
    ((splitLines body).getLast? = some [] → splitLines body = [[]]) ∧
      ∀ line ∈ splitLines body, line = [] ∨ indent <+: line ∧ line.all isSpace = false := by
  by_cases hne : splitLines body = []
  · simp [hne]
  rw [rewrittenLines_of_ne_nil (by rw [hkept]; exact hne), hkept] at h
  split at h
  · rw [← h]
    simp
  rw [dedentLines_eq] at h
  -- nothing was dropped, so that each line is its own rewriting
  have hlast : ((splitLines body).map
      (unindent (margin ((splitLines body).map clearBlank)))).getLast? ≠ some [] := by
    intro hblank
    have hlen := congrArg length h
    rw [dropBlankEnd, if_pos hblank, length_map, length_dropLast, length_map] at hlen
    have hpos := length_pos_iff.mpr hne
    omega
  rw [dropBlankEnd, if_neg hlast, map_map] at h
  have hself : ∀ line ∈ splitLines body,
      anchor indent (unindent (margin ((splitLines body).map clearBlank)) line) = line :=
    map_inj_left.mp (h.trans (map_id _).symm)
  refine ⟨fun hblank => absurd ?_ hlast, fun line hline => ?_⟩
  · rw [getLast?_map, hblank, Option.map_some, unindent_nil]
  · have hline := hself line hline
    rw [anchor] at hline
    split at hline
    · exact .inl hline.symm
    · rename_i hnonblank
      refine .inr ⟨⟨_, hline⟩, ?_⟩
      by_contra hspace
      have hspace : line.all isSpace = true := by simpa using hspace
      refine hnonblank (strip_isEmpty_iff.mpr (all_eq_true.mpr fun c hc => ?_))
      refine all_eq_true.mp hspace c ?_
      rw [← hline]
      exact mem_append_right _ hc

/-- A body comes back as it is exactly when it is settled. -/
theorem reindentCodeRegion_self_iff (grammar : MarkerSyntax) (body : Text) :
    reindentCodeRegion body (regionBaseIndent body) grammar = body ↔ Settled grammar body := by
  have hindent := regionBaseIndent_blank body
  rw [reindentCodeRegion_eq]
  constructor
  · intro h
    have hunbroken := @unbroken_rewrittenLines grammar _ body hindent
    have hkeep := splitLinesKeep_text hunbroken []
    rw [append_nil, h] at hkeep
    have hkeep : splitLinesKeep body =
        (rewrittenLines grammar (regionBaseIndent body) body).map (· ++ ['\n']) := by
      simpa [splitLinesKeep, Lines.splitEnds] using hkeep
    have hlines : rewrittenLines grammar (regionBaseIndent body) body = splitLines body := by
      rw [splitLines, hkeep, map_rdropWhile_newline hunbroken]
    have hkept : keptLines grammar body = splitLines body := by
      refine Sublist.eq_of_length_le filter_sublist ?_
      rw [← hlines]
      exact length_rewrittenLines_le _ _ _
    obtain ⟨hlast, hanchored⟩ := anchored_of_rewritten hkept hlines
    refine ⟨by rw [← hlines]; exact hkeep, fun line hline => ?_, hlast, hanchored⟩
    rw [← hkept] at hline
    simpa using (mem_filter.mp hline).2
  · intro h
    rw [h.rewrittenLines_eq]
    conv_rhs => rw [← Lines.flatten_splitEnds '\r' '\n' isLineBreak body, ← splitLinesKeep, h.ended]
    rw [Lines.text, flatMap_def]

end Zicato.Mutation
