import Mathlib.Data.Prod.Lex
import Zicato.Applier
import Zicato.TextLines

/-! # The literal of a span marker

The enumerator binds a span marker to the first string literal, in the order of
the walk, on the nearest line with one below the marker.  The applier looks for
the marker and the literal again: it takes the first line that reads as a marker
of the id, quoted or not, and the leftmost literal of the nearest line below. -/
open List
namespace Zicato.Mutation

open Text

/-! ## Marker lines -/

variable {token path : String} {x text : Text} {c : Char} {p : MutationPoint}

theorem dropPrefix?_concat {token : Text} (h : c ∉ token) :
    (x ++ [c]).dropPrefix? token = (x.dropPrefix? token).map (· ++ [c]) := by
  induction token generalizing x with
  | nil => simp
  | cons t token ih =>
    have htoken : c ∉ token := fun hm => h (mem_cons_of_mem _ hm)
    have hct : c ≠ t := fun he => h (by simp [he])
    cases x with
    | nil => simp [dropPrefix?, hct]
    | cons y x =>
      simp only [cons_append, dropPrefix?]
      by_cases hyt : y = t
      · simp [hyt, ih htoken]
      · simp [hyt]

/-- A token without space in it. -/
def Solid (token : String) : Prop := token ≠ "" ∧ ∀ c ∈ token.toList, isSpace c = false

theorem skipSpace_concat (hc : isSpace c = true) :
    skipSpace (x ++ [c]) = if skipSpace x = [] then [] else skipSpace x ++ [c] := by
  rw [skipSpace, dropWhile_append]
  simp [skipSpace, hc]

theorem Solid.notMem (h : Solid token) (hc : isSpace c = true) :
    c ∉ token.toList := fun hm => absurd (h.2 c hm) (by simp [hc])

theorem after?_concat (h : Solid token) (hc : isSpace c = true) :
    after? token (x ++ [c]) = (after? token x).map (· ++ [c]) :=
  dropPrefix?_concat (h.notMem hc)

theorem after?_skipSpace_concat (h : Solid token) (hc : isSpace c = true) :
    after? token (skipSpace (x ++ [c])) = (after? token (skipSpace x)).map (· ++ [c]) := by
  rw [skipSpace_concat hc]
  split
  · rename_i hnil
    have hcons : token.toList ≠ [] := by simpa using h.1
    obtain ⟨t, ts, htoken⟩ := exists_cons_of_ne_nil hcons
    simp [hnil, after?, htoken, dropPrefix?]
  · exact after?_concat h hc

/-- A quoted id is read whatever follows it. -/
theorem quoted?_concat (hc : c ≠ '"') :
    quoted? (x ++ [c]) = (quoted? x).map fun q => (q.1, q.2 ++ [c]) := by
  cases x with
  | nil => simp [quoted?, hc]
  | cons d r =>
    by_cases hd : d = '"'
    · subst hd
      have hc' : (c != '"') = true := by simpa using hc
      simp only [cons_append, quoted?, dropWhile_append]
      cases hdrop : r.dropWhile (· != '"') with
      | nil => simp [hc']
      | cons q rest' =>
        have hq : q = '"' := by
          have hhead := head?_dropWhile_not (· != '"') r
          simpa [hdrop] using hhead
        subst hq
        have htake : (r ++ [c]).takeWhile (· != '"') = r.takeWhile (· != '"') := by
          rw [takeWhile_append, if_neg]
          intro hlen
          have hall : r.takeWhile (· != '"') = r :=
            (List.takeWhile_prefix _).eq_of_length hlen
          have happ := takeWhile_append_dropWhile (p := (· != '"')) (l := r)
          rw [hall, hdrop] at happ
          simp at happ
        simp [htake]
    · simp [quoted?, hd]

/-- A variant is read whatever blank follows. -/
theorem variant_concat {rest : Text} (hc : isSpace c = true) :
    variant (rest ++ [c]) =
      ((variant rest).1, (variant rest).2.1, (variant rest).2.2 ++ [c]) := by
  have hfile : Solid ":file" := ⟨by decide, by decide⟩
  have hcode : Solid ":code" := ⟨by decide, by decide⟩
  rw [variant, variant, after?_concat hfile hc, after?_concat hcode hc]
  cases after? ":file" rest with
  | some tail => rfl
  | none =>
    cases after? ":code" rest with
    | some tail => rfl
    | none => rfl

/-- The id is read whatever blank follows. -/
theorem parseFields_concat {isFile isCode : Bool} {rest : Text} (hc : isSpace c = true) :
    (parseFields isFile isCode (rest ++ [c])).map (·.id) =
      (parseFields isFile isCode rest).map (·.id) := by
  have hid : Solid "id=" := ⟨by decide, by decide⟩
  have hquote : c ≠ '"' := by
    rintro rfl
    exact absurd hc (by decide)
  simp only [parseFields, after?_skipSpace_concat hid hc]
  cases rest with
  | nil => simp [skipSpace, after?, dropPrefix?]
  | cons r rest =>
    cases after? "id=" (skipSpace (r :: rest)) with
    | none => simp
    | some value =>
      cases hq : quoted? value with
      | none => simp [quoted?_concat hquote, hq]
      | some q =>
        have htail : (q.2 ++ [c]).isEmpty || (q.2 ++ [c]).head?.any isSpace ↔
            q.2.isEmpty || q.2.head?.any isSpace := by
          cases q.2 with
          | nil => simp [hc]
          | cons d tail => simp
        have hconcat : quoted? (value ++ [c]) = some (q.1, q.2 ++ [c]) := by
          rw [quoted?_concat hquote, hq]
          rfl
        simp only [Option.map_some, head?_cons, cons_append, Option.bind_eq_bind,
          Option.bind_some, hconcat, hq, htail]
        by_cases h1 : Option.any isSpace (some r) = true <;>
          by_cases h2 : (!List.isEmpty q.1) = true <;>
            by_cases h3 : (isEmpty q.2 || Option.any isSpace (List.head? q.2)) = true <;>
              simp [guard, h1, h2, h3]

theorem alternation_singleton (token : String) : alternation [token] = [token] := by
  simp [alternation]

/-- The grammar of a Python file has one leader. -/
theorem parseMarkerLine_python (line : Text) :
    parseMarkerLine pythonSyntax line =
      ((after? "#" (skipSpace line)).bind fun rest => after? "zicato:mutable" (skipSpace rest)).bind
        fun rest => parseFields (variant rest).1 (variant rest).2.1 (variant rest).2.2 := by
  simp only [parseMarkerLine, afterLeader, pythonSyntax, alternation_singleton,
    filterMap_cons, filterMap_nil]
  cases (after? "#" (skipSpace line)).bind fun rest => after? "zicato:mutable" (skipSpace rest) with
  | none => rfl
  | some rest => simp only [findSome?_cons, findSome?_nil, Option.bind_some]; split <;> simp_all

/-- Behind a marker of a Python file a separator changes nothing. -/
theorem parseMarkerLine_concat {line : Text} (hc : isSpace c = true) :
    (parseMarkerLine pythonSyntax (line ++ [c])).map (·.id) =
      (parseMarkerLine pythonSyntax line).map (·.id) := by
  have hleader : Solid "#" := ⟨by decide, by decide⟩
  have hname : Solid "zicato:mutable" := ⟨by decide, by decide⟩
  rw [parseMarkerLine_python, parseMarkerLine_python, after?_skipSpace_concat hleader hc]
  cases after? "#" (skipSpace line) with
  | none => rfl
  | some rest =>
    simp only [Option.map_some, Option.bind_some, after?_skipSpace_concat hname hc]
    cases after? "zicato:mutable" (skipSpace rest) with
    | none => rfl
    | some rest =>
      simp only [Option.map_some, Option.bind_some, variant_concat hc, parseFields_concat hc]

/-- A line reads as a marker of the same id in both forms of a file. -/
theorem marker_lines_agree {line : Text} (h : line ∈ splitLinesKeep text) :
    (parseMarkerLine pythonSyntax (chomp (universalNewlines line))).map (·.id) =
      (parseMarkerLine pythonSyntax (line.rdropWhile isLineBreak)).map (·.id) := by
  obtain ⟨body, ending, rfl, hbody, hending⟩ := exists_terminator h
  have hdrop : (body ++ ending).rdropWhile isLineBreak = body := by
    refine rdropWhile_append ?_ hbody
    cases hending with
    | none => simp
    | pair => decide
    | single hc => simpa using hc
  rw [hdrop]
  rcases chomp_universalNewlines hbody hending with heq | ⟨c, hc, heq⟩
  · rw [heq]
  · rw [heq, parseMarkerLine_concat (isSpace_of_isLineBreak hc)]

/-! ## The enumerator -/

variable {py : Python}

variable (py) in
/-- The walk goes forward. -/
theorem lt_resolve (f : FileUnderScan) (idx : Nat) (parsed : ParsedMarker) :
    idx < (f.resolve py idx parsed).2 := by
  rw [FileUnderScan.resolve]
  split
  · exact Nat.lt_succ_self idx
  split
  · exact Nat.lt_succ_self idx
  split
  · split
    · exact Nat.lt_succ_self idx
    · rename_i endIdx hend
      have hmem := mem_of_find?_eq_some hend
      have hle : idx + 1 ≤ endIdx := (mem_range'_1.mp hmem).1
      split
      · exact Nat.lt_succ_of_le (Nat.le_of_succ_le hle)
      · exact Nat.lt_succ_of_le (Nat.le_of_succ_le hle)
  split
  · exact Nat.lt_succ_self idx
  split
  · exact Nat.lt_succ_self idx
  · exact Nat.lt_succ_self idx

/-- Every point of a scan is the resolution of a marker line. -/
theorem mem_scanMarkers {f : FileUnderScan} {fuel idx : Nat} (h : p ∈ scanMarkers py f fuel idx) :
    ∃ i parsed, idx ≤ i ∧ f.marker i = some parsed ∧ (f.resolve py i parsed).1 = some p := by
  induction fuel generalizing idx with
  | zero => simp [scanMarkers] at h
  | succ fuel ih =>
    rw [scanMarkers] at h
    split at h
    · simp at h
    split at h
    · obtain ⟨i, parsed, hle, hpoint⟩ := ih h
      exact ⟨i, parsed, Nat.le_of_succ_le hle, hpoint⟩
    · rename_i parsed hmarker
      rcases mem_append.mp h with h | h
      · exact ⟨idx, parsed, Nat.le_refl idx, hmarker, by simpa using h⟩
      · obtain ⟨i, parsed', hle, hpoint⟩ := ih h
        have hlt := lt_resolve py f idx parsed
        exact ⟨i, parsed', Nat.le_trans (Nat.le_of_lt hlt) hle, hpoint⟩

/-- A span point is what the resolver makes of its marker. -/
theorem resolve_span {f : FileUnderScan} {i : Nat} {parsed : ParsedMarker}
    (h : (f.resolve py i parsed).1 = some p) (hkind : p.kind = .span) :
    ∃ resolver, f.context.spanResolver = some resolver ∧
      resolver (i + 1) = some (p.lineStart, p.lineEnd) ∧ p.id = parsed.id ∧ p.file = f.file ∧
      p.content = f.linesText p.lineStart p.lineEnd := by
  rw [FileUnderScan.resolve] at h
  split at h
  · cases h
  split at h
  · cases h
    cases hkind
  split at h
  · split at h
    · cases h
    split at h
    · cases h
    · cases h
      cases hkind
  split at h
  · cases h
  rename_i resolver hresolver
  split at h
  · cases h
  · rename_i hspan
    cases h
    exact ⟨resolver, hresolver, hspan, rfl, rfl, rfl⟩

/-- The resolver takes the first of the nearest literals. -/
theorem resolveSpanForMarker_eq (markerLine : Nat) (spans : List (Nat × Nat)) :
    resolveSpanForMarker markerLine spans =
      firstLeast (·.1) (spans.filter fun span => decide (markerLine < span.1)) := by
  rw [firstLeast, foldl_filter, resolveSpanForMarker]
  congr
  funext best span
  by_cases hle : span.1 ≤ markerLine
  · rw [if_pos hle, if_neg (by simpa using hle)]
  · rw [if_neg hle, if_pos (by simpa using hle)]
    cases best <;> rfl

/-- The string literals of a file, in the order of the walk. -/
def stringSpans (ast : Ast) : List NodeSpan :=
  (ast.constants.filter (·.kind == .string)).map (·.span)

/-- The literal whose lines a point records: the first one of the walk that starts
on the point's line. -/
def recordedLiteral (ast : Ast) (p : MutationPoint) : Option NodeSpan :=
  (stringSpans ast).find? fun node => decide (node.lineno = p.lineStart)

theorem literalSpans_eq (ast : Ast) :
    literalSpans ast = (stringSpans ast).map fun node => (node.lineno, node.endLineno) := by
  rw [literalSpans, stringSpans, map_map]
  rfl

/-- The resolver's lines are those of the recorded literal. -/
theorem recordedLiteral_of_resolver {ast : Ast} {markerLine : Nat}
    (h : resolveSpanForMarker markerLine (literalSpans ast) = some (p.lineStart, p.lineEnd)) :
    markerLine < p.lineStart ∧
      (∀ n ∈ stringSpans ast, markerLine < n.lineno → p.lineStart ≤ n.lineno) ∧
      ∃ node, recordedLiteral ast p = some node ∧ node.lineno = p.lineStart ∧
        node.endLineno = p.lineEnd := by
  rw [resolveSpanForMarker_eq, firstLeast_eq_some_iff, literalSpans_eq] at h
  obtain ⟨hleast, hfind⟩ := h
  have hbelow : markerLine < p.lineStart := by
    have hmem := mem_of_find?_eq_some hfind
    simpa using (mem_filter.mp hmem).2
  refine ⟨hbelow, ?_, ?_⟩
  · intro n hn hlt
    have hmem : (n.lineno, n.endLineno) ∈ ((stringSpans ast).map fun node =>
        (node.lineno, node.endLineno)).filter fun span => decide (markerLine < span.1) :=
      mem_filter.mpr ⟨mem_map_of_mem hn, by simpa using hlt⟩
    exact hleast _ hmem
  · rw [find?_filter, find?_map] at hfind
    obtain ⟨node, hnode, heq⟩ := Option.map_eq_some_iff.mp hfind
    rw [Prod.mk.injEq] at heq
    refine ⟨node, ?_, heq⟩
    rw [recordedLiteral, ← hnode]
    congr
    funext n
    simp only [Function.comp_apply, Bool.decide_and, decide_eq_true_eq]
    by_cases hn : n.lineno = p.lineStart
    · simp [hn, hbelow]
    · simp [hn]

/-- What a span point of a Python file says about the file. -/
theorem enumerateFile_span {root : String} {bytes : Bytes}
    (hnewlines : ∀ text, py.parse (universalNewlines text) = py.parse text)
    (hp : p ∈ enumerateFile py path root pythonSyntax bytes) (hkind : p.kind = .span) :
    ∃ text ast i line node, decode bytes = some text ∧ py.parse text = .ok ast ∧
      (splitLines text)[i]? = some line ∧
      (parseMarkerLine pythonSyntax line).any (·.id == p.id) = true ∧
      recordedLiteral ast p = some node ∧ node.lineno = p.lineStart ∧ node.endLineno = p.lineEnd ∧
      i + 1 < p.lineStart ∧ p.file = path ∧
      (∀ n ∈ stringSpans ast, i + 1 < n.lineno → p.lineStart ≤ n.lineno) ∧
      p.content = (((splitLinesKeep (universalNewlines text)).take p.lineEnd).drop
        (p.lineStart - 1)).flatten := by
  rw [enumerateFile] at hp
  split at hp
  · simp at hp
  split at hp
  · simp at hp
  rename_i text hdecode
  simp only [show pythonSyntax.isPython = true from rfl, if_true, pythonContext, hnewlines] at hp
  cases hparse : py.parse text with
  | error reason => simp [hparse] at hp
  | ok ast =>
    simp only [hparse] at hp
    split at hp
    · simp at hp
    obtain ⟨i, parsed, -, hmarker, hresolve⟩ := mem_scanMarkers hp
    obtain ⟨resolver, hresolver, hspan, hid, hfile, hcontent⟩ := resolve_span hresolve hkind
    simp only [Option.some.injEq] at hresolver
    subst hresolver
    -- the marker's line in the file as it is
    rw [FileUnderScan.marker, splitLinesKeep_universalNewlines, getElem?_map,
      Option.bind_map] at hmarker
    obtain ⟨line, hline, hparsed⟩ := Option.bind_eq_some_iff.mp hmarker
    have hagree := marker_lines_agree (mem_of_getElem? hline)
    rw [show parseMarkerLine pythonSyntax (chomp (universalNewlines line)) = some parsed from hparsed,
      Option.map_some] at hagree
    obtain ⟨parsed', hparsed', hid'⟩ := Option.map_eq_some_iff.mp hagree.symm
    change resolveSpanForMarker (i + 1) (literalSpans ast) = _ at hspan
    obtain ⟨hbelow, hleast, node, hnode, hstart, hend⟩ := recordedLiteral_of_resolver hspan
    refine ⟨text, ast, i, line.rdropWhile isLineBreak, node, hdecode, hparse, ?_, ?_, hnode, hstart,
      hend, hbelow, hfile, hleast, hcontent⟩
    · rw [splitLines, getElem?_map, hline]
      rfl
    · rw [hparsed', hid, ← hid']
      simp

/-! ## The applier -/

variable {table : SyntaxTable} {tree : Snapshot}

/-- The place of a literal, by line and column. -/
def NodeSpan.place (node : NodeSpan) : Nat ×ₗ Nat := toLex (node.lineno, node.colOffset)

theorem NodeSpan.place_lt {a b : NodeSpan} :
    a.place < b.place ↔ a.lineno < b.lineno ∨ (a.lineno = b.lineno ∧ a.colOffset < b.colOffset) :=
  Prod.Lex.toLex_lt_toLex

theorem NodeSpan.place_le {a b : NodeSpan} :
    a.place ≤ b.place ↔ a.lineno < b.lineno ∨ (a.lineno = b.lineno ∧ a.colOffset ≤ b.colOffset) :=
  Prod.Lex.toLex_le_toLex

theorem foldl_earlier (nodes : List Constant) :
    nodes.foldl (fun best node => earlier best node.span) none =
      firstLeast NodeSpan.place (nodes.map (·.span)) := by
  rw [firstLeast, foldl_map]
  congr
  funext best node
  cases best with
  | none => rfl
  | some found =>
    simp only [earlier, NodeSpan.place_lt]

/-- The applier's literal is the first below the marker by place. -/
theorem findConstantAfter_string {ast : Ast} (markerLine : Nat)
    (hdecode : decode (fileBytes tree path) = some text) (hparse : py.parse text = .ok ast) :
    findConstantAfter py tree path markerLine .string =
      .ok (firstLeast NodeSpan.place
        ((stringSpans ast).filter fun node => decide (markerLine < node.lineno))) := by
  have hfilter : (ast.constants.filter fun node =>
      node.kind == .string && decide (markerLine < node.span.lineno)).map (·.span) =
      (stringSpans ast).filter fun node => decide (markerLine < node.lineno) := by
    rw [stringSpans, filter_map, filter_filter]
    congr 1
    refine filter_congr fun node _ => ?_
    simp [Bool.and_comm]
  simp only [findConstantAfter, readSource, hdecode, bind, Except.bind, hparse, foldl_earlier,
    hfilter]
  rfl

/-- A line of the file as it is that reads as a marker of the id. -/
def MarkerAt (text : Text) (id : String) (i : Nat) : Prop :=
  ∃ line, (splitLines text)[i]? = some line ∧
    (parseMarkerLine pythonSyntax line).any (·.id == id) = true

/-- The applier takes the first of the marker lines. -/
theorem resolveMarkerLine_python {id : String} {i : Nat}
    (hgrammar : markerSyntaxFor table path = some pythonSyntax)
    (hdecode : decode (fileBytes tree path) = some text) (hi : MarkerAt text id i) :
    ∃ first, resolveMarkerLine table tree path id = .ok (some (first + 1)) ∧
      MarkerAt text id first ∧ ∀ j, MarkerAt text id j → first ≤ j := by
  have hresolve : resolveMarkerLine table tree path id = .ok (((splitLines text).findIdx? fun line =>
      (parseMarkerLine pythonSyntax line).any (·.id == id)).map (· + 1)) := by
    rw [resolveMarkerLine, hgrammar, findIdx?_eq_fst_find?_zipIdx, Option.map_map]
    simp only [readSource, hdecode, bind, Except.bind]
    rfl
  cases hfind : (splitLines text).findIdx? fun line =>
      (parseMarkerLine pythonSyntax line).any (·.id == id) with
  | none =>
    obtain ⟨line, hline, hmarker⟩ := hi
    have hnone := findIdx?_eq_none_iff.mp hfind line (mem_of_getElem? hline)
    exact absurd hmarker (by simp [hnone])
  | some first =>
    obtain ⟨hlt, hmarker, hbefore⟩ := findIdx?_eq_some_iff_getElem.mp hfind
    refine ⟨first, by rw [hresolve, hfind]; rfl, ⟨_, getElem?_eq_getElem hlt, hmarker⟩, ?_⟩
    rintro j ⟨line, hline, hj⟩
    by_contra hjlt
    obtain ⟨hjlen, rfl⟩ := List.getElem?_eq_some_iff.mp hline
    exact hbefore j (by omega) hj

/-- No string literal below a line that reads as a marker of the point's id stands
before the recorded one. -/
def NothingBefore (text : Text) (ast : Ast) (p : MutationPoint) (node : NodeSpan) : Prop :=
  ∀ i, MarkerAt text p.id i → ∀ n ∈ stringSpans ast, i + 1 < n.lineno → node.place ≤ n.place

/-- The applier's search ends at the recorded literal exactly if nothing below its
marker line stands before it. -/
theorem firstLeast_recorded {ast : Ast} {node : NodeSpan} {first : Nat}
    (hnode : recordedLiteral ast p = some node) (hfirst : MarkerAt text p.id first)
    (hleast : ∀ j, MarkerAt text p.id j → first ≤ j) (hbelow : first + 1 < node.lineno) :
    firstLeast NodeSpan.place
        ((stringSpans ast).filter fun n => decide (first + 1 < n.lineno)) = some node ↔
      NothingBefore text ast p node := by
  have hstart : node.lineno = p.lineStart := by simpa using find?_some hnode
  have hmem : ∀ n, n ∈ (stringSpans ast).filter (fun n => decide (first + 1 < n.lineno)) ↔
      n ∈ stringSpans ast ∧ first + 1 < n.lineno := by simp
  rw [firstLeast_eq_some_iff]
  constructor
  · rintro ⟨hall, -⟩ i hi n hn hlt
    have hle := hleast i hi
    exact hall n ((hmem n).mpr ⟨hn, by omega⟩)
  · intro hnothing
    refine ⟨fun n hn => hnothing first hfirst n ((hmem n).mp hn).1 ((hmem n).mp hn).2, ?_⟩
    -- the first literal of the line is the first at its place
    rw [find?_filter]
    rw [recordedLiteral, find?_eq_some_iff_append] at hnode
    obtain ⟨-, before, rest, hsplit, hbefore⟩ := hnode
    rw [find?_eq_some_iff_append]
    refine ⟨by simp [hbelow], before, rest, hsplit, fun n hn => ?_⟩
    have hline : n.lineno ≠ p.lineStart := by simpa using hbefore n hn
    have hplace : n.place ≠ node.place := by
      intro heq
      have hpair := toLex.injective heq
      rw [Prod.mk.injEq] at hpair
      exact hline (hpair.1.trans hstart)
    simp [hplace]

/-- A tree with one Python file. -/
def literalTree (file : Text) : Snapshot where
  nodes := [("tone.py", .file (encode file) false)]
  nodup := by simp [Dict.keys]
  resolves path := path == "." || path == "tone.py"

/-- An interpreter that parses one file. -/
def literalPython (file : Text) (ast : Ast) : Python where
  sha256 data :=
    if data = utf8 "TONE = \"y\"\n" then
      "10b4c8e37bda209ff3ecd673ac4af0620c5292db4683f09ff63d048cab6c8fa9"
    else ""
  parse text := if universalNewlines text = file then .ok ast else .error "invalid syntax"
  isStringExpression _ := false
  reprStr s := '\'' :: s ++ ['\'']
  isWord c := c.isAlphanum || c == '_'

theorem literalPython_newlines (file : Text) (ast : Ast) (text : Text) :
    (literalPython file ast).parse (universalNewlines text) =
      (literalPython file ast).parse text := by
  simp only [literalPython]
  rw [universalNewlines_of_notMem (notMem_universalNewlines text)]

/-- A marker in a docstring, and a marker of its own below it. -/
def quotedFile : Text := List.flatMap String.toList
  ["\"\"\"Example:\n", "# zicato:mutable id=\"tone\"\n", "\"\"\"\n", "OTHER = \"x\"\n",
    "# zicato:mutable id=\"tone\"\n", "TONE = \"y\"\n"]

/-- The syntax tree of that file. -/
def quotedAst : Ast where
  constants := [⟨.string, ⟨1, 0, 3, 3⟩⟩, ⟨.string, ⟨4, 8, 4, 11⟩⟩, ⟨.string, ⟨6, 7, 6, 10⟩⟩]
  signs := []

/-- A marked literal. -/
def plainFile : Text := List.flatMap String.toList
  ["# zicato:mutable id=\"tone\"\n", "TONE = \"y\"\n"]

/-- Its syntax tree. -/
def plainAst : Ast where
  constants := [⟨.string, ⟨2, 7, 2, 10⟩⟩]
  signs := []

end Zicato.Mutation
