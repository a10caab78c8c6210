import Zicato.RegionScan

/-! # Text inside string literals

A proposer controls what stands in a literal.  The guard for operator-owned files
and the walk over opening markers skip the lines of string literals; the search
for the end of a code region does not.  Two versions of a file that differ inside
one literal have the same points exactly when no region is open there, or both
versions end it on the same line. -/
open List Option List
namespace Zicato.Mutation

open Text

/-- Which text a point makes mutable. -/
def MutationPoint.outline (p : MutationPoint) : String × MutationKind × Nat × Nat :=
  (p.id, p.kind, p.lineStart, p.lineEnd)

/-- The end of a region among some lines. -/
def firstClose (lines : List Text) : Option Nat := lines.findIdx? (closesRegion pythonSyntax)

/-- A code region is open before line `stop`: a marker outside literals opens it
and no line in between reads as its end. -/
def FileUnderScan.regionOpen (f : FileUnderScan) (stop : Nat) : Bool :=
  (List.range stop).any fun idx =>
    !f.context.ignored (idx + 1) && (f.marker idx).any (·.isCode) &&
      ((f.lines.take stop).drop (idx + 1)).all fun line => !closesRegion f.grammar line

/-- The lines that lie inside a literal: those of `inside`, behind the line the
literal begins on and before the line it ends on. -/
structure InteriorOf (literal : NodeSpan) (before inside : Text) : Prop where
  before_lines : Lines.Whole '\r' isLineBreak before
  before_count : before.count '\n' = literal.lineno
  inside_lines : Lines.Whole '\r' isLineBreak inside
  inside_count : literal.lineno + inside.count '\n' + 1 = literal.endLineno

/-- Two Python files that differ in as many lines of a literal; the literal begins
on the line above. -/
structure Versions (f g : FileUnderScan) (before inside inside' after : List Text) : Prop where
  grammar : f.grammar = pythonSyntax
  grammar_eq : g.grammar = f.grammar
  context_eq : g.context = f.context
  lines : f.lines = before ++ inside ++ after
  lines' : g.lines = before ++ inside' ++ after
  length : inside'.length = inside.length
  ignored : ∀ i, before.length ≤ i + 1 → i < before.length + inside.length →
    f.context.ignored (i + 1) = true

variable {py : Python} {f g : FileUnderScan} {before inside inside' after : List Text}

namespace Versions

theorem length_eq (h : Versions f g before inside inside' after) :
    g.lines.length = f.lines.length := by
  rw [h.lines, h.lines']
  simp [h.length]

variable {i : Nat}

section
variable (h : Versions f g before inside inside' after)
include h

/-- Lines that are read as markers are the same. -/
theorem getElem?_eq (hi : f.context.ignored (i + 1) = false) : g.lines[i]? = f.lines[i]? := by
  rw [h.lines, h.lines', append_assoc, append_assoc]
  by_cases hbefore : i < before.length
  · rw [getElem?_append_left hbefore, getElem?_append_left hbefore]
  · have hle : before.length ≤ i := Nat.le_of_not_lt hbefore
    have hafter : inside.length ≤ i - before.length := by
      by_contra hlt
      have hignored := h.ignored i (by omega) (by omega)
      rw [hi] at hignored
      cases hignored
    rw [getElem?_append_right hle, getElem?_append_right hle,
      getElem?_append_right hafter, getElem?_append_right (h.length ▸ hafter), h.length]

theorem marker_eq (hi : f.context.ignored (i + 1) = false) : g.marker i = f.marker i := by
  rw [FileUnderScan.marker, FileUnderScan.marker, h.getElem?_eq hi, h.grammar_eq]

theorem isGrading_of_isGrading (hf : f.isGrading py = true) : g.isGrading py = true := by
  simp only [FileUnderScan.isGrading, List.any_eq_true, Prod.exists, mk_mem_zipIdx_iff_getElem?,
    Bool.and_eq_true, Bool.not_eq_true'] at hf ⊢
  obtain ⟨line, i, hline, hi, hgrading⟩ := hf
  refine ⟨line, i, ?_, ?_, ?_⟩
  · rw [h.getElem?_eq hi]
    exact hline
  · rw [h.context_eq]
    exact hi
  · rw [h.grammar_eq]
    exact hgrading

theorem symm : Versions g f before inside' inside after where
  grammar := h.grammar_eq.trans h.grammar
  grammar_eq := h.grammar_eq.symm
  context_eq := h.context_eq.symm
  lines := h.lines'
  lines' := h.lines
  length := h.length.symm
  ignored := by
    rw [h.context_eq, h.length]
    exact h.ignored

theorem isGrading_eq : g.isGrading py = f.isGrading py:= by
  rw [Bool.eq_iff_iff]
  exact ⟨h.symm.isGrading_of_isGrading, h.isGrading_of_isGrading⟩

end

variable {o : Nat}

section
variable (h : Versions f g before inside inside' after)
include h

/-- The search for the end of a region that a line above the literal opens. -/
theorem endIndex_above (ho : o < before.length) : f.endIndex (o + 1) =
      ((firstClose (before.drop (o + 1))).or
        (((firstClose inside).or ((firstClose after).map (· + inside.length))).map
          (· + (before.length - (o + 1))))).map (o + 1 + ·) := by
  rw [endIndex_eq, h.lines, append_assoc, drop_append_of_le_length ho,
    findIdx?_append, findIdx?_append, length_drop, h.grammar]
  rfl

/-- A line that is read as a marker lies above the literal or below its interior. -/
theorem above_or_below (hi : f.context.ignored (i + 1) = false) :
    i + 1 < before.length ∨ before.length + inside.length ≤ i := by
  by_contra hin
  have hignored := h.ignored i (by omega) (by omega)
  rw [hi] at hignored
  cases hignored

theorem regionOpen_iff : f.regionOpen before.length = true ↔
      ∃ o < before.length, f.context.ignored (o + 1) = false ∧
        (f.marker o).any (·.isCode) = true ∧ firstClose (before.drop (o + 1)) = none := by
  have htake : f.lines.take before.length = before := by
    rw [h.lines, append_assoc, take_left]
  simp only [FileUnderScan.regionOpen, htake, List.any_eq_true, mem_range, Bool.and_eq_true,
    Bool.not_eq_true', List.all_eq_true, firstClose, findIdx?_eq_none_iff, h.grammar, and_assoc]

/-- Both versions close a region alike when it is not open at the literal, or when
the literal closes it on the same line. -/
theorem endIndex_agree (hi : f.context.ignored (i + 1) = false)
    (hcode : (f.marker i).any (·.isCode) = true)
    (hsame : f.regionOpen before.length = false ∨ firstClose inside' = firstClose inside) :
    g.endIndex (i + 1) = f.endIndex (i + 1) := by
  rcases h.above_or_below hi with habove | hbelow
  · have hlt : i < before.length := Nat.lt_of_succ_lt habove
    rw [h.endIndex_above hlt, h.symm.endIndex_above hlt, h.length]
    rcases hsame with hclosed | hsame
    · cases hclose : firstClose (before.drop (i + 1)) with
      | none =>
        have hopen := h.regionOpen_iff.mpr ⟨i, hlt, hi, hcode, hclose⟩
        rw [hclosed] at hopen
        cases hopen
      | some k => rfl
    · rw [hsame]
  · have hdrop : g.lines.drop (i + 1) = f.lines.drop (i + 1) := by
      have hinside : inside.drop (i + 1 - before.length) = [] :=
        drop_eq_nil_of_le (by omega)
      have hinside' : inside'.drop (i + 1 - before.length) = [] :=
        drop_eq_nil_of_le (by rw [h.length]; omega)
      simp only [h.lines, h.lines', drop_append, length_append, h.length, hinside,
        hinside']
    rw [endIndex_eq, endIndex_eq, hdrop, h.grammar_eq]

/-- An open region is closed on different lines when the literals differ in it. -/
theorem endIndex_differ (ho : o < before.length) (hopen : firstClose (before.drop (o + 1)) = none)
    (hdiffer : firstClose inside' ≠ firstClose inside) : g.endIndex (o + 1) ≠ f.endIndex (o + 1):= by
  rw [h.endIndex_above ho, h.symm.endIndex_above ho, hopen, none_or, none_or,
    Option.map_map, Option.map_map]
  intro heq
  have hinj : Function.Injective ((o + 1 + ·) ∘ (· + (before.length - (o + 1)))) := by
    intro a b hab
    simp only [Function.comp_apply] at hab
    omega
  have hor := map_injective hinj heq
  -- an end inside the literal is above one below it
  have hbound : ∀ {lines : List Text} {k : Nat}, firstClose lines = some k → k < lines.length :=
    fun hk => (findIdx?_eq_some_iff_findIdx_eq.mp hk).1
  cases hclose : firstClose inside with
  | none =>
    cases hclose' : firstClose inside' with
    | none => exact hdiffer (hclose'.trans hclose.symm)
    | some k =>
      rw [hclose, hclose', none_or, some_or] at hor
      obtain ⟨j, -, hj⟩ := map_eq_some_iff.mp hor.symm
      have hk := hbound hclose'
      rw [h.length] at hk
      omega
  | some k =>
    cases hclose' : firstClose inside' with
    | none =>
      rw [hclose, hclose', none_or, some_or] at hor
      obtain ⟨j, -, hj⟩ := map_eq_some_iff.mp hor
      have hk := hbound hclose
      rw [h.length] at hj
      omega
    | some k' =>
      rw [hclose, hclose', some_or, some_or] at hor
      exact hdiffer (hclose'.trans (hor.trans hclose.symm))

end

variable {parsed : ParsedMarker}

variable (py) in
/-- One step of the walk, where both versions close a region alike. -/
theorem resolve_agree (h : Versions f g before inside inside' after)
    (hend : f.context.ignored (i + 1) = false → parsed.isCode = true →
      g.endIndex (i + 1) = f.endIndex (i + 1)) :
    (g.resolve py i parsed).1.map (·.outline) = (f.resolve py i parsed).1.map (·.outline) ∧
      (g.resolve py i parsed).2 = (f.resolve py i parsed).2 := by
  have hempty : g.lines.isEmpty = f.lines.isEmpty := by
    rw [Bool.eq_iff_iff, isEmpty_iff_length_eq_zero, isEmpty_iff_length_eq_zero,
      h.length_eq]
  simp only [FileUnderScan.resolve, h.context_eq, h.length_eq, hempty]
  by_cases hi : f.context.ignored (i + 1) = true
  · simp only [hi, if_true, and_self]
  have hi : f.context.ignored (i + 1) = false := by simpa using hi
  simp only [hi, Bool.false_eq_true, if_false]
  cases hfile : parsed.isFile with
  | true => exact ⟨rfl, rfl⟩
  | false =>
    cases hcode : parsed.isCode with
    | true =>
      rw [hend hi hcode]
      cases f.endIndex (i + 1) with
      | none => exact ⟨rfl, rfl⟩
      | some endIdx =>
        by_cases hshort : endIdx < i + 2
        · simp [hshort]
        · simp [hshort, MutationPoint.outline, FileUnderScan.point]
    | false =>
      cases f.context.spanResolver with
      | none => exact ⟨rfl, rfl⟩
      | some resolver =>
        cases hspan : resolver (i + 1) with
        | none => simp [hspan]
        | some span => simp [hspan, MutationPoint.outline, FileUnderScan.point]

variable {fuel : Nat}

/-- A line of a literal is walked over. -/
theorem scan_ignored (f : FileUnderScan) (hi : f.context.ignored (i + 1) = true) :
    scanMarkers py f (fuel + 1) i = scanMarkers py f fuel (i + 1) := by
  rw [scanMarkers]
  split
  · rename_i hle
    cases fuel with
    | zero => rfl
    | succ fuel => rw [scanMarkers, if_pos (Nat.le_succ_of_le hle)]
  split
  · rfl
  · rw [FileUnderScan.resolve, if_pos hi]
    rfl

variable (py) in
/-- The walks agree when every region ends alike. -/
theorem scan_agree (h : Versions f g before inside inside' after)
    (hend : ∀ i, f.context.ignored (i + 1) = false → (f.marker i).any (·.isCode) = true →
      g.endIndex (i + 1) = f.endIndex (i + 1)) (fuel i : Nat) :
    (scanMarkers py g fuel i).map (·.outline) = (scanMarkers py f fuel i).map (·.outline) := by
  induction fuel generalizing i with
  | zero => rfl
  | succ fuel ih =>
    by_cases hi : f.context.ignored (i + 1) = true
    · rw [scan_ignored f hi, scan_ignored g (h.context_eq ▸ hi), ih]
    have hi : f.context.ignored (i + 1) = false := by simpa using hi
    rw [scanMarkers, scanMarkers, h.length_eq, h.marker_eq hi]
    split
    · rfl
    cases hmarker : f.marker i with
    | none => exact ih (i + 1)
    | some parsed =>
      obtain ⟨hpoint, hnext⟩ := h.resolve_agree py fun hi hcode =>
        hend i hi (by simpa [hmarker] using hcode)
      simp only [map_append, ← toList_map, hpoint, hnext, ih]

/-- Walks with the same outlines have the same code points at their start. -/
theorem region_mem_of_agree {endIdx : Nat}
    (heq : (scanMarkers py g fuel i).map (·.outline) = (scanMarkers py f fuel i).map (·.outline))
    (hg : ∃ p ∈ scanMarkers py g fuel i, p.kind = .code ∧ p.lineStart = i + 2 ∧ p.lineEnd = endIdx) :
    ∃ p ∈ scanMarkers py f fuel i, p.kind = .code ∧ p.lineStart = i + 2 ∧ p.lineEnd = endIdx := by
  obtain ⟨p, hp, hkind, hstart, hstop⟩ := hg
  have hmem : p.outline ∈ (scanMarkers py f fuel i).map (·.outline) :=
    heq ▸ mem_map_of_mem hp
  obtain ⟨q, hq, hqp⟩ := mem_map.mp hmem
  simp only [MutationPoint.outline, Prod.mk.injEq] at hqp
  exact ⟨q, hq, hqp.2.1.trans hkind, hqp.2.2.1.trans hstart, hqp.2.2.2.trans hstop⟩

variable (py) in
/-- At the marker of an open region the walks part. -/
theorem differ_at_region (h : Versions f g before inside inside' after) (ho : o < before.length)
    (hi : f.context.ignored (o + 1) = false) (hmarker : f.marker o = some parsed)
    (hcode : parsed.isCode = true) (hopen : firstClose (before.drop (o + 1)) = none)
    (hdiffer : firstClose inside' ≠ firstClose inside) :
    (scanMarkers py g (fuel + 1) o).map (·.outline) ≠
      (scanMarkers py f (fuel + 1) o).map (·.outline) := by
  have habove : o + 1 < before.length := by
    rcases h.above_or_below hi with habove | hbelow
    · exact habove
    · omega
  -- the region reaches at least the line the literal begins on
  have hfar : ∀ {f' g' : FileUnderScan} {inside inside' : List Text},
      Versions f' g' before inside inside' after → ∀ e, f'.endIndex (o + 1) = some e → o + 2 ≤ e := by
    intro f' g' inside inside' h' e he
    rw [h'.endIndex_above ho, hopen, none_or, Option.map_map] at he
    obtain ⟨k, -, rfl⟩ := map_eq_some_iff.mp he
    simp only [Function.comp_apply]
    omega
  have hi' : g.context.ignored (o + 1) = false := h.context_eq ▸ hi
  have hmarker' : g.marker o = some parsed := (h.marker_eq hi).trans hmarker
  intro heq
  refine h.endIndex_differ ho hopen hdiffer (ext fun e => ?_)
  rw [← region_mem_scan py fuel hi' hmarker' hcode (hfar h.symm),
    ← region_mem_scan py fuel hi hmarker hcode (hfar h)]
  exact ⟨region_mem_of_agree heq, region_mem_of_agree heq.symm⟩

/-- From a line above the marker of an open region on, the walk comes to it. -/
theorem next_le (h : Versions f g before inside inside' after) {k : Nat} (hio : i < o)
    (ho : o < before.length) (hmarker : (f.marker o).isSome = true)
    (hopen : firstClose (before.drop (o + 1)) = none)
    (hclose : firstClose (before.drop (i + 1)) = some k ∨ parsed.isCode = false) :
    (f.resolve py i parsed).2 ≤ o := by
  rcases resolve_next py f i parsed with hnext | ⟨hcode, e, hend, hnext⟩
  · rw [hnext]
    exact hio
  have hclose : firstClose (before.drop (i + 1)) = some k := by
    rcases hclose with hclose | hclose
    · exact hclose
    · rw [hcode] at hclose
      cases hclose
  obtain ⟨-, line, hline, hcloses⟩ := closes_of_endIndex hend
  rw [h.endIndex_above (Nat.lt_trans hio ho), hclose] at hend
  obtain rfl : i + 1 + k = e := by simpa using hend
  have hk : k < (before.drop (i + 1)).length :=
    (findIdx?_eq_some_iff_findIdx_eq.mp hclose).1
  rw [length_drop] at hk
  rw [h.lines, append_assoc, getElem?_append_left (by omega)] at hline
  rw [h.grammar] at hcloses
  rw [hnext]
  by_contra hlt
  rcases Nat.lt_or_ge o (i + 1 + k) with hbelow | hat
  · -- no end stands between the marker and the literal
    have hmem : line ∈ before.drop (o + 1) := by
      refine mem_of_getElem? (i := i + 1 + k - (o + 1)) ?_
      rw [getElem?_drop, Nat.add_sub_of_le hbelow]
      exact hline
    have hnot := findIdx?_eq_none_iff.mp hopen line hmem
    rw [hcloses] at hnot
    cases hnot
  · -- and the marker is no end itself
    obtain rfl : o = i + 1 + k := by omega
    obtain ⟨parsed', hparsed⟩ := isSome_iff_exists.mp hmarker
    rw [FileUnderScan.marker, h.lines, append_assoc, getElem?_append_left ho, hline,
      h.grammar] at hparsed
    rw [closesRegion_of_marker hparsed] at hcloses
    cases hcloses

variable (py) in
/-- A region open at the literal, ended on different lines, tells the versions apart. -/
theorem scan_differ (h : Versions f g before inside inside' after)
    (hopen : f.regionOpen before.length = true) (hdiffer : firstClose inside' ≠ firstClose inside) :
    (scanMarkers py g g.lines.length 0).map (·.outline) ≠
      (scanMarkers py f f.lines.length 0).map (·.outline) := by
  obtain ⟨o, ho, hi, hcode, hclose⟩ := h.regionOpen_iff.mp hopen
  obtain ⟨parsed, hmarker, hparsed⟩ := (any_eq_true _ _).mp hcode
  have hlen : o < f.lines.length := by
    rw [h.lines, append_assoc, length_append]
    omega
  rw [h.length_eq]
  suffices hall : ∀ fuel i, i ≤ o → f.lines.length ≤ fuel + i →
      (scanMarkers py g fuel i).map (·.outline) ≠ (scanMarkers py f fuel i).map (·.outline) from
    hall f.lines.length 0 (Nat.zero_le o) (Nat.le_refl _)
  intro fuel
  induction fuel with
  | zero =>
    intro i hio hfuel
    omega
  | succ fuel ih =>
    intro i hio hfuel
    rcases Nat.eq_or_lt_of_le hio with rfl | hlt
    · exact h.differ_at_region py ho hi hmarker hparsed hclose hdiffer
    by_cases hignored : f.context.ignored (i + 1) = true
    · rw [scan_ignored f hignored, scan_ignored g (h.context_eq ▸ hignored)]
      exact ih (i + 1) hlt (by omega)
    have hignored : f.context.ignored (i + 1) = false := by simpa using hignored
    have hilt : ¬ f.lines.length ≤ i := by omega
    cases hline : f.marker i with
    | none =>
      rw [scanMarkers, scanMarkers, h.length_eq, if_neg hilt, if_neg hilt, h.marker_eq hignored,
        hline]
      exact ih (i + 1) hlt (by omega)
    | some parsed' =>
      by_cases hfirst : parsed'.isCode = true ∧ firstClose (before.drop (i + 1)) = none
      · exact h.differ_at_region py (Nat.lt_trans hlt ho) hignored hline hfirst.1 hfirst.2 hdiffer
      -- the step is the same in both versions and does not pass the region's marker
      have hend : f.context.ignored (i + 1) = false → parsed'.isCode = true →
          g.endIndex (i + 1) = f.endIndex (i + 1) := by
        intro _ hcode'
        obtain ⟨k, hk⟩ := ne_none_iff_exists'.mp fun hn => hfirst ⟨hcode', hn⟩
        rw [h.endIndex_above (Nat.lt_trans hlt ho), h.symm.endIndex_above (Nat.lt_trans hlt ho), hk,
          some_or, some_or]
      obtain ⟨hpoint, hnext⟩ := h.resolve_agree py hend
      have hle : (f.resolve py i parsed').2 ≤ o := by
        cases hclose' : firstClose (before.drop (i + 1)) with
        | none =>
          have hcode' : parsed'.isCode = false := by
            by_contra hcode'
            exact hfirst ⟨by simpa using hcode', hclose'⟩
          exact h.next_le (k := 0) hlt ho (hmarker ▸ rfl) hclose (.inr hcode')
        | some k => exact h.next_le hlt ho (hmarker ▸ rfl) hclose (.inl hclose')
      have hgt := lt_resolve py f i parsed'
      rw [scanMarkers, scanMarkers, h.length_eq, if_neg hilt, if_neg hilt, h.marker_eq hignored,
        hline]
      simp only [map_append, ← toList_map, hpoint, hnext]
      intro heq
      exact ih _ hle (by omega) (append_cancel_left heq)

end Versions

/-- The two files of a replacement, where `splitlines` counts the interior among
the literal's lines. -/
theorem versions_of_interior {file sourceRoot : String} {before inside inside' after : Text}
    {ast : Ast} {node : Constant} (hnode : node ∈ ast.constants) (hkind : node.kind = .string)
    (hinside : InteriorOf node.span before inside) (hinside' : InteriorOf node.span before inside')
    (hlines : (splitLinesKeep inside').length = (splitLinesKeep inside).length)
    (hcovered : (splitLinesKeep before).length + (splitLinesKeep inside).length ≤
      node.span.endLineno) :
    Versions (pythonFile file sourceRoot ast (before ++ inside ++ after))
      (pythonFile file sourceRoot ast (before ++ inside' ++ after)) (splitLinesKeep before)
      (splitLinesKeep inside) (splitLinesKeep inside') (splitLinesKeep after) where
  grammar := rfl
  grammar_eq := rfl
  context_eq := rfl
  lines := by
    change splitLinesKeep (before ++ inside ++ after) = _
    rw [append_assoc, splitLinesKeep_whole hinside.before_lines,
      splitLinesKeep_whole hinside.inside_lines, append_assoc]
  lines' := by
    change splitLinesKeep (before ++ inside' ++ after) = _
    rw [append_assoc, splitLinesKeep_whole hinside.before_lines,
      splitLinesKeep_whole hinside'.inside_lines, append_assoc]
  length := hlines
  ignored := by
    intro i hfirst hlast
    have hbegin := count_le_length_splitLinesKeep before
    rw [hinside.before_count] at hbegin
    have hspan : (node.span.lineno, node.span.endLineno) ∈ literalSpans ast :=
      mem_map_of_mem (f := fun node : Constant => (node.span.lineno, node.span.endLineno))
        (mem_filter.mpr ⟨hnode, by simp [hkind]⟩)
    refine any_eq_true.mpr ⟨_, hspan, ?_⟩
    simp only [decide_eq_true_eq]
    omega

/-- **When the text of a literal is inert.** Other interior lines leave the points of the
file as they are if and only if the file is the operator's own, or no region is open at
the literal, or both texts have their first end marker on the same line. -/
theorem literal_text_inert_iff (py : Python) {file sourceRoot : String} {bytes bytes' : Bytes}
    {before inside inside' after : Text} {ast : Ast} {node : Constant}
    (hnode : node ∈ ast.constants) (hkind : node.kind = .string)
    (hinside : InteriorOf node.span before inside) (hinside' : InteriorOf node.span before inside')
    (hread : readText bytes = some (before ++ inside ++ after))
    (hread' : readText bytes' = some (before ++ inside' ++ after))
    -- the same syntax tree and the same number of lines
    (hparse : py.parse (before ++ inside ++ after) = .ok ast)
    (hparse' : py.parse (before ++ inside' ++ after) = .ok ast)
    (hlines : (splitLinesKeep inside').length = (splitLinesKeep inside).length)
    -- the interior lines, as `splitlines` counts, are among the literal's, as the parser counts
    (hcovered : (splitLinesKeep before).length + (splitLinesKeep inside).length ≤
      node.span.endLineno) :
    (enumerateFile py file sourceRoot pythonSyntax bytes').map (·.outline) =
        (enumerateFile py file sourceRoot pythonSyntax bytes).map (·.outline) ↔
      (pythonFile file sourceRoot ast (before ++ inside ++ after)).isGrading py = true ∨
      (pythonFile file sourceRoot ast (before ++ inside ++ after)).regionOpen
        (splitLinesKeep before).length = false ∨
      firstClose (splitLinesKeep inside') = firstClose (splitLinesKeep inside) := by
  have h : Versions (pythonFile file sourceRoot ast (before ++ inside ++ after))
      (pythonFile file sourceRoot ast (before ++ inside' ++ after)) _ _ _ _ :=
    versions_of_interior hnode hkind hinside hinside' hlines hcovered
  rw [enumerateFile_python hread hparse, enumerateFile_python hread' hparse', h.isGrading_eq]
  by_cases hgrading : (pythonFile file sourceRoot ast (before ++ inside ++ after)).isGrading py = true
  · simp only [hgrading, if_true, true_or]
  simp only [hgrading, Bool.false_eq_true, if_false, false_or]
  constructor
  · intro heq
    by_contra hnot
    obtain ⟨hopen, hdiffer⟩ := not_or.mp hnot
    exact h.scan_differ py (by simpa using hopen) hdiffer heq
  · intro hsame
    have hend := h.scan_agree py fun i hi hcode => h.endIndex_agree hi hcode hsame
    change (scanMarkers py _ (pythonFile file sourceRoot ast (before ++ inside' ++ after)).lines.length
      0).map _ = _
    rw [h.length_eq]
    exact hend _ 0

/-! ### An end marker in a literal -/

/-- The marker and the opening quotes. -/
def literalHead : Text := List.flatMap String.toList
  ["# zicato:mutable:code id=\"tone\"\n", "TONE = \"\"\"\n"]

/-- The closing quotes and the end marker. -/
def literalTail : Text := List.flatMap String.toList ["\"\"\"\n", "# zicato:mutable:end\n"]

/-- The syntax tree of the file. -/
def literalAst : Ast where
  constants := [⟨.string, ⟨2, 7, 4, 3⟩⟩]
  signs := []

/-- A line that is no marker. -/
def plainInside : Text := "plain\n".toList

/-- A line that reads as an end marker. -/
def endInside : Text := "# zicato:mutable:end\n".toList

/-- Another line that is no marker. -/
def otherInside : Text := "other\n".toList

/-- An interpreter that parses the versions of one file alike. -/
def versionsPython : Python where
  sha256 data :=
    if data = utf8 "TONE = \"\"\"\n" then
      "1570fbf5b696ed8915c744d984eaa45b877204aef4dbebbd942e0e7f38171191"
    else if data = utf8 "TONE = \"\"\"\nplain\n\"\"\"\n" then
      "3167ea8b326af82a12cc8486d5c007b22b8c48bf3e786518bfce49fce756196a"
    else if data = utf8 "TONE = \"\"\"\nother\n\"\"\"\n" then
      "41f988e9ccac0933c1f87e16b0308397480250f660b802aa327cbc17b2c6ac7f"
    else ""
  parse text :=
    if [plainInside, endInside, otherInside].any fun inside =>
        decide (text = literalHead ++ inside ++ literalTail) then .ok literalAst
    else .error "invalid syntax"
  isStringExpression _ := false
  reprStr s := '\'' :: s ++ ['\'']
  isWord c := c.isAlphanum || c == '_'

theorem interiorOf_line {line : String} (h : (line.toList ++ ['\n']).count '\n' = 1) :
    InteriorOf ⟨2, 7, 4, 3⟩ literalHead (line.toList ++ ['\n']) where
  before_lines := .inr ⟨literalHead.dropLast, '\n', by decide, by decide, by decide⟩
  before_count := by decide
  inside_lines := .inr ⟨line.toList, '\n', rfl, by decide, by decide⟩
  inside_count := by rw [h]

/-- A line of the literal that reads as an end cuts the region. -/
theorem end_in_literal_cuts_region :
    InteriorOf ⟨2, 7, 4, 3⟩ literalHead plainInside ∧ InteriorOf ⟨2, 7, 4, 3⟩ literalHead endInside ∧
    versionsPython.parse (literalHead ++ plainInside ++ literalTail) = .ok literalAst ∧
    versionsPython.parse (literalHead ++ endInside ++ literalTail) = .ok literalAst ∧
    (splitLinesKeep endInside).length = (splitLinesKeep plainInside).length ∧
    (enumerateFile versionsPython "tone.py" "." pythonSyntax
      (encode (literalHead ++ plainInside ++ literalTail))).map (·.outline) = [("tone", .code, 2, 4)] ∧
    (enumerateFile versionsPython "tone.py" "." pythonSyntax
      (encode (literalHead ++ endInside ++ literalTail))).map (·.outline) = [("tone", .code, 2, 2)] := by
  refine ⟨@interiorOf_line "plain" (by decide), @interiorOf_line "# zicato:mutable:end" (by decide),
    by decide +kernel, by decide +kernel, by decide +kernel, by decide +kernel, by decide +kernel⟩

theorem literal_text_inert_iff_other :
    (enumerateFile versionsPython "tone.py" "." pythonSyntax
      (encode (literalHead ++ otherInside ++ literalTail))).map (·.outline) =
    (enumerateFile versionsPython "tone.py" "." pythonSyntax
      (encode (literalHead ++ plainInside ++ literalTail))).map (·.outline) := by
  have hnode : ⟨.string, ⟨2, 7, 4, 3⟩⟩ ∈ literalAst.constants := List.mem_singleton_self _
  have hread : ∀ text, '\r' ∉ text → readText (encode text) = some text := fun text h => by
    rw [readText, decode_encode, Option.map_some, universalNewlines_of_notMem h]
  refine (literal_text_inert_iff versionsPython hnode rfl (@interiorOf_line "plain" (by decide))
    (@interiorOf_line "other" (by decide)) (hread _ (by decide))
    (hread _ (by decide)) (by decide) (by decide) (by decide)
    (by decide)).mpr ?_
  exact Or.inr (Or.inr (by decide +kernel))

end Zicato.Mutation
