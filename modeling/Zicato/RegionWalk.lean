import Zicato.RegionBody

/-! # What a text file declares

A file without a parser has whole-file markers and code regions.  `Walk` reads
its lines as the scan does: a marker without an end below declares nothing, and
what stands inside a region is passed over.  Therefore the lines above a region
declare the same whatever follows its marker. -/
open List Option
namespace Zicato.Mutation

open Text

/-- What a marker line declares. -/
inductive Declared
  | file (parsed : ParsedMarker)
  /-- A region: the number of lines above its marker, and its own lines. -/
  | region (above : Nat) (parsed : ParsedMarker) (body : List Text)

/-- The lines of a text file below line `n`, and what they declare. -/
inductive Walk (grammar : MarkerSyntax) : Nat → List Text → List Declared → Prop
  | nil (n : Nat) : Walk grammar n [] []
  | plain {n : Nat} {line : Text} {rest : List Text} {ds : List Declared}
      (hline : ∀ parsed, parseMarkerLine grammar (chomp line) = some parsed →
        parsed.isFile = false ∧ parsed.isCode = false)
      (hrest : Walk grammar (n + 1) rest ds) : Walk grammar n (line :: rest) ds
  | file {n : Nat} {line : Text} {rest : List Text} {ds : List Declared} {parsed : ParsedMarker}
      (hline : parseMarkerLine grammar (chomp line) = some parsed) (hfile : parsed.isFile = true)
      (hrest : Walk grammar (n + 1) rest ds) : Walk grammar n (line :: rest) (.file parsed :: ds)
  | endless {n : Nat} {line : Text} {rest : List Text} {ds : List Declared} {parsed : ParsedMarker}
      (hline : parseMarkerLine grammar (chomp line) = some parsed) (hcode : parsed.isCode = true)
      (hopen : ∀ other ∈ rest, closesRegion grammar other = false)
      (hrest : Walk grammar (n + 1) rest ds) : Walk grammar n (line :: rest) ds
  | region {n : Nat} {line endLine : Text} {body rest : List Text} {ds : List Declared}
      {parsed : ParsedMarker}
      (hline : parseMarkerLine grammar (chomp line) = some parsed) (hcode : parsed.isCode = true)
      (hbody : ∀ other ∈ body, closesRegion grammar other = false)
      (hend : closesRegion grammar endLine = true)
      (hrest : Walk grammar (n + body.length + 2) rest ds) :
      Walk grammar n (line :: (body ++ endLine :: rest)) (.region n parsed body :: ds)

variable {grammar : MarkerSyntax}

/-- Every text file can be read so. -/
theorem exists_walk (grammar : MarkerSyntax) (n : Nat) (lines : List Text) :
    ∃ ds, Walk grammar n lines ds := by
  induction hlen : lines.length using Nat.strong_induction_on generalizing n lines with
  | _ len ih =>
    cases lines with
    | nil => exact ⟨[], .nil n⟩
    | cons line rest =>
      rw [length_cons] at hlen
      obtain ⟨ds, hrest⟩ := ih rest.length (by omega) (n + 1) rest rfl
      cases hline : parseMarkerLine grammar (chomp line) with
      | none => exact ⟨ds, .plain (by simp [hline]) hrest⟩
      | some parsed =>
        by_cases hfile : parsed.isFile = true
        · exact ⟨.file parsed :: ds, .file hline hfile hrest⟩
        by_cases hcode : parsed.isCode = true
        · cases hclose : rest.findIdx? (closesRegion grammar) with
          | none =>
            exact ⟨ds, .endless hline hcode (findIdx?_eq_none_iff.mp hclose) hrest⟩
          | some k =>
            obtain ⟨hk, hend, hbody⟩ := findIdx?_eq_some_iff_getElem.mp hclose
            have hsplit : rest = rest.take k ++ rest[k] :: rest.drop (k + 1) := by
              rw [← drop_eq_getElem_cons hk, take_append_drop]
            have htake : (rest.take k).length = k := length_take_of_le (Nat.le_of_lt hk)
            obtain ⟨ds', hrest'⟩ := ih (rest.drop (k + 1)).length
              (by rw [length_drop]; omega) (n + k + 2) (rest.drop (k + 1)) rfl
            refine ⟨.region n parsed (rest.take k) :: ds', ?_⟩
            rw [hsplit, take_left' htake]
            refine .region hline hcode (fun other hother => ?_) hend (by rw [htake]; exact hrest')
            obtain ⟨i, hi, rfl⟩ := mem_iff_getElem.mp hother
            rw [getElem_take]
            have hik : i < k := by rwa [htake] at hi
            simpa using hbody i hik
        · refine ⟨ds, .plain (fun other hother => ?_) hrest⟩
          rw [hline] at hother
          obtain rfl := some.inj hother
          exact ⟨by simpa using hfile, by simpa using hcode⟩

variable {n fuel : Nat} {lines : List Text} {ds : List Declared} {bytes : Bytes} {f : FileUnderScan}

/-- A region cuts the file: the lines above declare the same whatever follows. -/
theorem Walk.split {above : Nat} {pre post : List Declared} {parsed : ParsedMarker}
    {body : List Text} (h : Walk grammar n lines (pre ++ .region above parsed body :: post)) :
    ∃ head marker endLine tail, lines = head ++ marker :: (body ++ endLine :: tail) ∧
      above = n + head.length ∧
      parseMarkerLine grammar (chomp marker) = some parsed ∧ parsed.isCode = true ∧
      (∀ other ∈ body, closesRegion grammar other = false) ∧
      closesRegion grammar endLine = true ∧
      Walk grammar (above + body.length + 2) tail post ∧
      ∀ rest ds, Walk grammar above rest ds → Walk grammar n (head ++ rest) (pre ++ ds) := by
  generalize hds : pre ++ .region above parsed body :: post = ds at h
  induction h generalizing pre with
  | nil n => simp at hds
  | @plain n line rest ds hline hrest ih =>
    obtain ⟨head, marker, endLine, tail, rfl, rfl, hmarker, hcode, hbody, hend, htail, hhead⟩ := ih hds
    have hlen : n + 1 + head.length = n + (line :: head).length := by
      rw [length_cons]
      omega
    rw [hlen] at hhead htail ⊢
    exact ⟨line :: head, marker, endLine, tail, rfl, rfl, hmarker, hcode, hbody, hend, htail,
      fun rest ds hw => .plain hline (hhead rest ds hw)⟩
  | @file n line rest ds other hline hfile hrest ih =>
    cases pre with
    | nil => simp at hds
    | cons d pre =>
      rw [cons_append, List.cons.injEq] at hds
      obtain ⟨rfl, hds⟩ := hds
      obtain ⟨head, marker, endLine, tail, rfl, rfl, hmarker, hcode, hbody, hend, htail, hhead⟩ :=
        ih hds
      have hlen : n + 1 + head.length = n + (line :: head).length := by
        rw [length_cons]
        omega
      rw [hlen] at hhead htail ⊢
      exact ⟨line :: head, marker, endLine, tail, rfl, rfl, hmarker, hcode, hbody, hend, htail,
        fun rest ds hw => .file hline hfile (hhead rest ds hw)⟩
  | @endless n line rest ds other hline hcode hopen hrest ih =>
    obtain ⟨head, marker, endLine, tail, rfl, -, -, -, -, hend, -, -⟩ := ih hds
    have hnot := hopen endLine (by simp)
    rw [hend] at hnot
    cases hnot
  | @region n line endLine body' rest ds other hline hcode hbody hend hrest ih =>
    cases pre with
    | nil =>
      rw [nil_append, List.cons.injEq, Declared.region.injEq] at hds
      obtain ⟨⟨rfl, rfl, rfl⟩, rfl⟩ := hds
      exact ⟨[], line, endLine, rest, rfl, rfl, hline, hcode, hbody, hend, hrest, fun _ _ hw => hw⟩
    | cons d pre =>
      rw [cons_append, List.cons.injEq] at hds
      obtain ⟨rfl, hds⟩ := hds
      obtain ⟨head, marker, endLine', tail, rfl, rfl, hmarker, hcode', hbody', hend', htail, hhead⟩ :=
        ih hds
      have hlen : n + body'.length + 2 + head.length =
          n + (line :: (body' ++ endLine :: head)).length := by
        rw [length_cons, length_append, length_cons]
        omega
      rw [hlen] at hhead htail ⊢
      refine ⟨line :: (body' ++ endLine :: head), marker, endLine', tail, by simp, rfl, hmarker, hcode',
        hbody', hend', htail, fun rest ds hw => ?_⟩
      rw [cons_append, List.append_assoc, cons_append]
      exact .region hline hcode hbody hend (hhead rest ds hw)

/-- A declaration `n` lines further down. -/
def Declared.lower (n : Nat) : Declared → Declared
  | .file parsed => .file parsed
  | .region above parsed body => .region (above + n) parsed body

theorem map_lower_succ (n k : Nat) (ds : List Declared) :
    (ds.map (·.lower k)).map (·.lower n) = ds.map (·.lower (n + k)) := by
  rw [List.map_map]
  refine map_congr_left fun d _ => ?_
  cases d with
  | file parsed => rfl
  | region above parsed body =>
    simp only [Function.comp_apply, Declared.lower, Declared.region.injEq, and_self, and_true]
    omega

/-- Lines moved to another place declare the same there. -/
theorem Walk.move (h : Walk grammar n lines ds) :
    ∃ base : List Declared, ds = base.map (·.lower n) ∧
      ∀ k, Walk grammar k lines (base.map (·.lower k)) := by
  induction h with
  | nil n => exact ⟨[], rfl, fun k => .nil k⟩
  | plain hline hrest ih =>
    obtain ⟨base, rfl, hwalk⟩ := ih
    refine ⟨base.map (·.lower 1), (map_lower_succ _ 1 base).symm, fun k => .plain hline ?_⟩
    rw [map_lower_succ]
    exact hwalk (k + 1)
  | @file n line rest ds parsed hline hfile hrest ih =>
    obtain ⟨base, rfl, hwalk⟩ := ih
    refine ⟨.file parsed :: base.map (·.lower 1), ?_, fun k => ?_⟩
    · rw [map_cons, map_lower_succ]
      rfl
    · rw [map_cons, map_lower_succ]
      exact .file hline hfile (hwalk (k + 1))
  | endless hline hcode hopen hrest ih =>
    obtain ⟨base, rfl, hwalk⟩ := ih
    refine ⟨base.map (·.lower 1), (map_lower_succ _ 1 base).symm,
      fun k => .endless hline hcode hopen ?_⟩
    rw [map_lower_succ]
    exact hwalk (k + 1)
  | @region n line endLine body rest ds parsed hline hcode hbody hend hrest ih =>
    obtain ⟨base, rfl, hwalk⟩ := ih
    refine ⟨.region 0 parsed body :: base.map (·.lower (body.length + 2)), ?_, fun k => ?_⟩
    · rw [map_cons, map_lower_succ, Declared.lower, Nat.zero_add, Nat.add_assoc]
    · rw [map_cons, map_lower_succ, Declared.lower, Nat.zero_add, ← Nat.add_assoc]
      exact .region hline hcode hbody hend (hwalk (k + body.length + 2))

/-! ## The scan -/

variable (py : Python)

/-- The point of a declaration; an empty region has none. -/
def Declared.point (f : FileUnderScan) : Declared → Option MutationPoint
  | .file parsed =>
      some (f.point py parsed .file 1 (if f.lines.isEmpty then 1 else f.lines.length) f.text)
  | .region above parsed body =>
      if body = [] then none
      else some (f.point py parsed .code (above + 2) (above + 1 + body.length) body.flatten)

/-- A text file under scan. -/
def textFile (file sourceRoot : String) (grammar : MarkerSyntax) (text : Text) : FileUnderScan where
  grammar := grammar
  file := file
  sourceRoot := sourceRoot
  text := text
  lines := splitLinesKeep text
  context := {}

variable {py} {file sourceRoot : String} {text : Text}

theorem enumerateFile_text (hgrammar : grammar.isPython = false)
    (hread : readText bytes = some text) (hsize : bytes.length ≤ maxTextFileBytes) :
    enumerateFile py file sourceRoot grammar bytes =
      if (textFile file sourceRoot grammar text).isGrading py then []
      else scanMarkers py (textFile file sourceRoot grammar text) (splitLinesKeep text).length 0 := by
  obtain ⟨raw, hraw, rfl⟩ := map_eq_some_iff.mp hread
  have hlt : ¬ maxTextFileBytes < bytes.length := Nat.not_lt.mpr hsize
  simp only [enumerateFile, hgrammar, hlt, decide_false, Bool.and_false, Bool.false_eq_true,
    if_false, hraw]
  rfl

theorem enumerateFile_oversize (hgrammar : grammar.isPython = false)
    (hsize : maxTextFileBytes < bytes.length) :
    enumerateFile py file sourceRoot grammar bytes = [] := by
  simp [enumerateFile, hgrammar, hsize]

theorem getElem?_of_drop {α : Type} {l rest : List α} {x : α} (h : x :: rest = l.drop n) :
    l[n]? = some x ∧ rest = l.drop (n + 1) := by
  have hget := congrArg (·[0]?) h
  have htail := congrArg List.tail h
  simp only [getElem?_cons_zero, getElem?_drop, Nat.add_zero] at hget
  rw [tail_drop, tail_cons] at htail
  exact ⟨hget.symm, htail⟩

/-- A line that declares nothing. -/
theorem scan_nothing {line : Text} (hline : f.lines[n]? = some line)
    (h : ∀ parsed, parseMarkerLine f.grammar (chomp line) = some parsed →
      f.resolve py n parsed = (none, n + 1)) :
    scanMarkers py f (fuel + 1) n = scanMarkers py f fuel (n + 1) := by
  have hlt : n < f.lines.length := (List.getElem?_eq_some_iff.mp hline).1
  rw [scanMarkers, if_neg (Nat.not_le.mpr hlt), FileUnderScan.marker, hline, bind_some]
  split
  · rfl
  · rename_i parsed hparsed
    rw [h parsed hparsed]
    rfl

/-- A line that declares something. -/
theorem scan_point {next : Nat} {line : Text} {parsed : ParsedMarker} {point : Option MutationPoint}
    (hline : f.lines[n]? = some line)
    (hparsed : parseMarkerLine f.grammar (chomp line) = some parsed)
    (h : f.resolve py n parsed = (point, next)) :
    scanMarkers py f (fuel + 1) n = point.toList ++ scanMarkers py f fuel next := by
  have hlt : n < f.lines.length := (List.getElem?_eq_some_iff.mp hline).1
  rw [scanMarkers, if_neg (Nat.not_le.mpr hlt), FileUnderScan.marker, hline, bind_some, hparsed]
  dsimp only
  rw [h]

theorem filterMap_cons_toList {α β : Type} (f : α → Option β) (a : α) (l : List α) :
    (a :: l).filterMap f = (f a).toList ++ l.filterMap f := by
  rw [filterMap_cons]
  cases f a <;> rfl

/-- The scan of a text file finds the points of its declarations. -/
theorem scan_eq_walk (hcontext : f.context = {}) {idx : Nat} (hwalk : Walk f.grammar idx lines ds)
    (hlines : lines = f.lines.drop idx) (hfuel : lines.length ≤ fuel) :
    scanMarkers py f fuel idx = ds.filterMap (·.point py f) := by
  have hignored : ∀ line, f.context.ignored line = false := by
    intro line
    rw [hcontext]
    rfl
  induction hwalk generalizing fuel with
  | nil n =>
    cases fuel with
    | zero => rfl
    | succ fuel =>
      rw [scanMarkers]
      exact if_pos (drop_eq_nil_iff.mp hlines.symm)
  | @plain n line rest ds hline hrest ih =>
    obtain ⟨hget, hdrop⟩ := getElem?_of_drop hlines
    obtain ⟨fuel, rfl⟩ := Nat.exists_eq_add_one_of_ne_zero (Nat.ne_zero_of_lt hfuel)
    rw [scan_nothing hget, ih hdrop (Nat.le_of_succ_le_succ hfuel)]
    intro parsed hparsed
    obtain ⟨hfile, hcode⟩ := hline parsed hparsed
    simp [FileUnderScan.resolve, hcontext, FileContext.ignored, hfile, hcode]
  | @file n line rest ds parsed hline hfile hrest ih =>
    obtain ⟨hget, hdrop⟩ := getElem?_of_drop hlines
    obtain ⟨fuel, rfl⟩ := Nat.exists_eq_add_one_of_ne_zero (Nat.ne_zero_of_lt hfuel)
    have hresolve : f.resolve py n parsed = ((Declared.file parsed).point py f, n + 1) := by
      simp [FileUnderScan.resolve, hignored, hfile, Declared.point]
    rw [scan_point hget hline hresolve, ih hdrop (Nat.le_of_succ_le_succ hfuel), filterMap_cons_toList]
  | @endless n line rest ds parsed hline hcode hopen hrest ih =>
    obtain ⟨hget, hdrop⟩ := getElem?_of_drop hlines
    obtain ⟨fuel, rfl⟩ := Nat.exists_eq_add_one_of_ne_zero (Nat.ne_zero_of_lt hfuel)
    rw [scan_nothing hget, ih hdrop (Nat.le_of_succ_le_succ hfuel)]
    intro other hother
    rw [hline] at hother
    obtain rfl := some.inj hother
    have hnone : f.endIndex (n + 1) = none := by
      rw [endIndex_eq, ← hdrop, findIdx?_eq_none_iff.mpr hopen]
      rfl
    simp [FileUnderScan.resolve, hignored, isFile_of_isCode hline hcode, hcode, hnone]
  | @region n line endLine body rest ds parsed hline hcode hbody hend hrest ih =>
    obtain ⟨hget, hdrop⟩ := getElem?_of_drop hlines
    obtain ⟨fuel, rfl⟩ := Nat.exists_eq_add_one_of_ne_zero (Nat.ne_zero_of_lt hfuel)
    have hendIndex : f.endIndex (n + 1) = some (n + 1 + body.length) := by
      rw [endIndex_eq, ← hdrop, findIdx?_append, findIdx?_eq_none_iff.mpr hbody,
        findIdx?_cons, hend]
      simp
    have hbelow : rest = f.lines.drop (n + body.length + 2) := by
      have hsplit := congrArg (List.drop (body.length + 1)) hdrop
      rw [drop_drop, drop_append, drop_eq_nil_of_le (by omega), nil_append,
        Nat.add_sub_cancel_left, drop_one, tail_cons] at hsplit
      rw [hsplit]
      congr 1
      omega
    have hbodyLines : f.linesText (n + 2) (n + 1 + body.length) = body.flatten := by
      have htake : (f.lines.take (n + 1 + body.length)).drop (n + 1) = body := by
        rw [drop_take, Nat.add_sub_cancel_left, ← hdrop, take_left]
      rw [FileUnderScan.linesText, Nat.add_sub_assoc (by decide), htake]
    have hresolve : f.resolve py n parsed =
        ((Declared.region n parsed body).point py f, n + 1 + body.length + 1) := by
      by_cases hempty : body = []
      · simp [FileUnderScan.resolve, hignored, isFile_of_isCode hline hcode, hcode, hendIndex, hempty,
          Declared.point]
      · have hpos := length_pos_iff.mpr hempty
        rw [resolve_region py (hignored _) (isFile_of_isCode hline hcode) hcode hendIndex (by omega),
          hbodyLines]
        simp [Declared.point, hempty]
    rw [scan_point hget hline hresolve, filterMap_cons_toList,
      show n + 1 + body.length + 1 = n + body.length + 2 by omega, ih hbelow]
    simp only [length_cons, length_append] at hfuel
    omega

/-- The points of a text file are those of its declarations. -/
theorem enumerateFile_walk (hgrammar : grammar.isPython = false)
    (hread : readText bytes = some text) (hsize : bytes.length ≤ maxTextFileBytes)
    (hwalk : Walk grammar 0 (splitLinesKeep text) ds) :
    enumerateFile py file sourceRoot grammar bytes =
      if (textFile file sourceRoot grammar text).isGrading py then []
      else ds.filterMap (·.point py (textFile file sourceRoot grammar text)) := by
  have hscan : scanMarkers py (textFile file sourceRoot grammar text) (splitLinesKeep text).length 0 =
      ds.filterMap (·.point py (textFile file sourceRoot grammar text)) := by
    exact scan_eq_walk (f := textFile file sourceRoot grammar text) rfl hwalk rfl (Nat.le_refl _)
  rw [enumerateFile_text hgrammar hread hsize, hscan]

end Zicato.Mutation
