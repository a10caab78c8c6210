import Mathlib.Algebra.Order.BigOperators.Group.List
import Mathlib.Algebra.Order.Group.Nat
import Mathlib.Data.List.Dedup
import Zicato.NoopPatch
import Zicato.RegionLocal

/-! # Two patches on the regions of a text file

The enumeration reads the files of the tree one by one.  Writing one file changes
what this file contributes and nothing else, so that the id of a region that is
still there still finds it. -/
open List Function
namespace Zicato.Mutation

open Text

/-! ## The files of a walk -/

/-- A file that the walk of a root reads. -/
structure Scan where
  path : String
  sourceRoot : String
  grammar : MarkerSyntax
  bytes : Bytes

/-- The points of a scanned file. -/
def Scan.points (py : Python) (s : Scan) : List MutationPoint :=
  enumerateFile py s.path s.sourceRoot s.grammar s.bytes

/-- The file after a write. -/
def Scan.write (path : String) (bytes : Bytes) (s : Scan) : Scan :=
  if s.path = path then { s with bytes := bytes } else s

/-- The files that are read under a root that is a directory. -/
def dirScans (table : SyntaxTable) (tree : Snapshot) (root : String) : List Scan :=
  ((filesBelow tree root).filter fun e => e.1.endsWith pythonSuffix).map (fun e =>
    ⟨e.1, root, (table.get? pythonSuffix).getD pythonSyntax, e.2.1⟩) ++
  (filesBelow tree root).filterMap fun e =>
    match markerSyntaxFor table e.1 with
    | none => none
    | some grammar =>
        if grammar.isPython || e.2.2.dropLast.any (textScanSkipDirs.contains ·) then none
        else some ⟨e.1, root, grammar, e.2.1⟩

/-- The files that are read under one root. -/
def scansOf (table : SyntaxTable) (tree : Snapshot) (root : String) : List Scan :=
  match tree.nodes.get? root with
  | some (.file bytes _) =>
      (markerSyntaxFor table root).toList.map fun grammar =>
        ⟨root, if "/".intercalate (pathParts root).dropLast == "" then "."
          else "/".intercalate (pathParts root).dropLast, grammar, bytes⟩
  | _ => dirScans table tree root

/-- The files that an enumeration reads. -/
def scans (table : SyntaxTable) (tree : Snapshot) (roots : List String) : List Scan :=
  (roots.filter tree.resolves).flatMap (scansOf table tree)

variable {py : Python} {table : SyntaxTable} {surface : Surface} {tree : Snapshot}
  {roots : List String}

/-- The points below a root are those of its files. -/
theorem dirScans_points (py : Python) (table : SyntaxTable) (tree : Snapshot) (root : String) :
    ((filesBelow tree root).flatMap fun (path, bytes, _) =>
        if path.endsWith pythonSuffix then
          enumerateFile py path root ((table.get? pythonSuffix).getD pythonSyntax) bytes
        else []) ++
      ((filesBelow tree root).flatMap fun (path, bytes, parts) =>
        match markerSyntaxFor table path with
        | none => []
        | some grammar =>
            if grammar.isPython || parts.dropLast.any (textScanSkipDirs.contains ·) then []
            else enumerateFile py path root grammar bytes) =
      (dirScans table tree root).flatMap (Scan.points py) := by
  rw [dirScans, flatMap_append]
  generalize filesBelow tree root = files
  congr 1
  · induction files with
    | nil => rfl
    | cons e files ih =>
      rw [flatMap_cons, ih, filter_cons]
      by_cases hsuffix : e.1.endsWith pythonSuffix = true
      · simp [hsuffix, Scan.points]
      · simp [hsuffix]
  · induction files with
    | nil => rfl
    | cons e files ih =>
      rw [flatMap_cons, ih, filterMap_cons_toList, flatMap_append]
      congr 1
      obtain ⟨path, bytes, parts⟩ := e
      dsimp only
      cases markerSyntaxFor table path with
      | none => rfl
      | some grammar =>
        dsimp only
        by_cases hskip : (grammar.isPython || parts.dropLast.any (textScanSkipDirs.contains ·)) = true
        · rw [if_pos hskip, if_pos hskip]
          rfl
        · rw [if_neg hskip, if_neg hskip]
          exact (append_nil _).symm

/-- The points of a root are those of its scans. -/
theorem enumerateRoot_eq (py : Python) (table : SyntaxTable) (tree : Snapshot) (root : String) :
    enumerateRoot py table tree root = (scansOf table tree root).flatMap (Scan.points py) := by
  rw [enumerateRoot, scansOf]
  cases tree.nodes.get? root with
  | none => exact dirScans_points py table tree root
  | some node =>
    cases node with
    | file bytes executable =>
      dsimp only
      cases markerSyntaxFor table root with
      | none => rfl
      | some grammar => exact (append_nil _).symm
    | special => exact dirScans_points py table tree root
    | unreadable error => exact dirScans_points py table tree root

theorem enumerateMutations_perm (py : Python) (surface : Surface) (tree : Snapshot)
    (roots : List String) :
    (enumerateMutations py surface tree roots).Perm
      ((scans surface.table tree roots).flatMap (Scan.points py) ++
        surface.manifestPoints tree roots) := by
  refine (sorted_perm _ _).trans (Perm.of_eq ?_)
  rw [scans, flatMap_assoc]
  congr 2
  funext root
  exact enumerateRoot_eq py surface.table tree root

/-! ## Writing a file -/

/-- A node of the tree after a write. -/
def writeNode (path : String) (bytes : Bytes) (e : String × Node) : String × Node :=
  match e.2 with
  | .file _ executable => if e.1 = path then (e.1, .file bytes executable) else e
  | _ => e

theorem nodes_writeFile (tree : Snapshot) (path : String) (bytes : Bytes) :
    (writeFile tree path bytes).nodes = tree.nodes.map (writeNode path bytes) := rfl

@[simp] theorem resolves_writeFile (tree : Snapshot) (path : String) (bytes : Bytes) :
    (writeFile tree path bytes).resolves = tree.resolves := rfl

@[simp] theorem fst_writeNode (path : String) (bytes : Bytes) (e : String × Node) :
    (writeNode path bytes e).1 = e.1 := by
  rw [writeNode]
  split
  · split <;> rfl
  · rfl

/-- A node after a write. -/
theorem get?_map_writeNode (path : String) (bytes : Bytes) (nodes : Dict String Node) (k : String) :
    Dict.get? (nodes.map (writeNode path bytes)) k =
      (Dict.get? nodes k).map fun node => (writeNode path bytes (k, node)).2 := by
  induction nodes with
  | nil => rfl
  | cons e nodes ih =>
    obtain ⟨p, node⟩ := e
    by_cases hk : p = k
    · simp [Dict.get?, hk]
    · have hp : (writeNode path bytes (p, node)).1 = p := fst_writeNode path bytes (p, node)
      simp only [Dict.get?, map_cons, hp] at ih ⊢
      simp [hk, ih]

/-- The files after a write. -/
theorem filesBelow_writeFile (tree : Snapshot) (path : String) (bytes : Bytes) (root : String) :
    filesBelow (writeFile tree path bytes) root =
      (filesBelow tree root).map fun e => (e.1, if e.1 = path then bytes else e.2.1, e.2.2) := by
  have hsorted : sorted (fun a b => decide (pathParts a.1 < pathParts b.1))
      (writeFile tree path bytes).nodes =
        (sorted (fun a b => decide (pathParts a.1 < pathParts b.1)) tree.nodes).map
          (writeNode path bytes) := by
    rw [sorted, sorted, nodes_writeFile]
    refine (map_mergeSort fun a _ b _ => ?_).symm
    rw [fst_writeNode, fst_writeNode]
  rw [filesBelow, hsorted, filesBelow, filterMap_map, map_filterMap]
  refine filterMap_congr fun e _ => ?_
  obtain ⟨p, node⟩ := e
  cases node with
  | file old executable =>
    by_cases hp : p = path
    · simp only [comp_apply, writeNode, hp, if_true]
      cases partsBelow root path with
      | none => rfl
      | some parts => cases parts <;> simp
    · simp only [comp_apply, writeNode, hp, if_false]
      cases partsBelow root p with
      | none => rfl
      | some parts => cases parts <;> simp [hp]
  | special => rfl
  | unreadable error => rfl

/-- The scans of a directory after a write. -/
theorem dirScans_writeFile (table : SyntaxTable) (tree : Snapshot) (path : String) (bytes : Bytes)
    (root : String) :
    dirScans table (writeFile tree path bytes) root =
      (dirScans table tree root).map (Scan.write path bytes) := by
  rw [dirScans, dirScans, filesBelow_writeFile, map_append]
  congr 1
  · rw [filter_map, map_map, map_map]
    refine map_congr_left fun e _ => ?_
    by_cases hp : e.1 = path
    · simp [Scan.write, hp]
    · simp [Scan.write, hp]
  · rw [filterMap_map, map_filterMap]
    refine filterMap_congr fun e _ => ?_
    simp only [comp_apply]
    cases markerSyntaxFor table e.1 with
    | none => rfl
    | some grammar =>
      dsimp only
      split
      · rfl
      · rw [Option.map_some, Scan.write]
        by_cases hp : e.1 = path
        · simp [hp]
        · simp [hp]

/-- The scans of a root after a write. -/
theorem scansOf_writeFile (table : SyntaxTable) (tree : Snapshot) (path : String) (bytes : Bytes)
    (root : String) :
    scansOf table (writeFile tree path bytes) root =
      (scansOf table tree root).map (Scan.write path bytes) := by
  rw [scansOf, scansOf, nodes_writeFile, get?_map_writeNode]
  cases tree.nodes.get? root with
  | none => exact dirScans_writeFile table tree path bytes root
  | some node =>
    cases node with
    | special => exact dirScans_writeFile table tree path bytes root
    | unreadable error => exact dirScans_writeFile table tree path bytes root
    | file old executable =>
      rw [Option.map_some, writeNode]
      by_cases hp : root = path
      · subst hp
        cases markerSyntaxFor table root with
        | none => simp
        | some grammar => simp [Scan.write]
      · cases markerSyntaxFor table root with
        | none => simp [hp]
        | some grammar => simp [hp, Scan.write]

theorem scans_writeFile (table : SyntaxTable) (tree : Snapshot) (path : String) (bytes : Bytes)
    (roots : List String) :
    scans table (writeFile tree path bytes) roots =
      (scans table tree roots).map (Scan.write path bytes) := by
  rw [scans, scans, map_flatMap, resolves_writeFile]
  congr 1
  funext root
  exact scansOf_writeFile table tree path bytes root

/-- The second write of a file wins. -/
theorem writeFile_writeFile (tree : Snapshot) (path : String) (bytes bytes' : Bytes) :
    writeFile (writeFile tree path bytes) path bytes' = writeFile tree path bytes' := by
  have hnodes : (writeFile (writeFile tree path bytes) path bytes').nodes =
      (writeFile tree path bytes').nodes := by
    rw [nodes_writeFile, nodes_writeFile, nodes_writeFile, map_map]
    refine map_congr_left fun e _ => ?_
    obtain ⟨p, node⟩ := e
    cases node with
    | file old executable =>
      by_cases hp : p = path
      · simp [writeNode, hp]
      · simp [writeNode, hp]
    | special => rfl
    | unreadable error => rfl
  rw [writeFile, writeFile] at hnodes
  rw [writeFile, writeFile]
  congr 1

/-! ## Looking ids up -/

variable {points : List MutationPoint} {p : MutationPoint}

theorem pointOf_of_unique (hp : p ∈ points) (hunique : (points.map (·.id)).count p.id ≤ 1) :
    pointOf points p.id = some p := by
  have hcount : points.countP (·.id == p.id) ≤ 1 := by
    rwa [List.count, countP_map] at hunique
  obtain ⟨before, after, rfl⟩ := append_of_mem hp
  rw [countP_append, countP_cons_of_pos (by simp)] at hcount
  have hafter : after.countP (·.id == p.id) = 0 := by omega
  rw [pointOf, reverse_append, reverse_cons, List.append_assoc, find?_append,
    find?_eq_none.mpr fun r hr => ?_]
  · simp
  · exact countP_eq_zero.mp hafter r (mem_reverse.mp hr)

theorem pointOf_some {id : String} (h : pointOf points id = some p) : p ∈ points ∧ p.id = id :=
  ⟨mem_reverse.mp (mem_of_find?_eq_some h), by simpa using find?_some h⟩

theorem pointOf_eq_none {id : String} (h : (points.map (·.id)).count id = 0) :
    pointOf points id = none := by
  rw [pointOf, find?_eq_none]
  intro p hp hid
  have hmem : id ∈ points.map (·.id) := mem_map.mpr ⟨p, mem_reverse.mp hp, by simpa using hid⟩
  exact count_eq_zero.mp h hmem

/-- The targets of a batch are declared once. -/
theorem count_le_of_unambiguous {patches : List Patch} (h : ambiguousTargets patches points = [])
    {patch : Patch} (hpatch : patch ∈ patches) :
    (points.map (·.id)).count patch.mutationId ≤ 1 := by
  by_contra hlt
  rw [List.count, countP_map] at hlt
  have hmem : patch.mutationId ∈ ambiguousTargets patches points := by
    rw [ambiguousTargets, mem_sorted, mem_filter, List.mem_dedup]
    exact ⟨mem_map_of_mem hpatch, decide_eq_true (Nat.lt_of_not_le hlt)⟩
  rw [h] at hmem
  cases hmem

theorem count_ids (py : Python) (surface : Surface) (tree : Snapshot) (roots : List String)
    (id : String) :
    ((enumerateMutations py surface tree roots).map (·.id)).count id =
      ((scans surface.table tree roots).map fun s => ((s.points py).map (·.id)).count id).sum +
        ((surface.manifestPoints tree roots).map (·.id)).count id := by
  rw [((enumerateMutations_perm py surface tree roots).map (·.id)).count_eq, map_append,
    count_append, map_flatMap, count_flatMap]
  rfl

/-! ## A text file of the surface -/

/-- A file with markers that is no Python file. -/
structure SurfaceText (surface : Surface) (tree : Snapshot) (path : String) (grammar : MarkerSyntax)
    (text : Text) : Prop where
  syntaxOf : markerSyntaxFor surface.table path = some grammar
  notPython : grammar.isPython = false
  suffix : path.endsWith pythonSuffix = false
  node : ∃ executable, tree.nodes.get? path = some (.file (encode text) executable)

/-- The points of the manifest bridge are spans, and it does not take their ids from
this file. -/
structure Surface.Aside (surface : Surface) (tree : Snapshot) (roots : List String) (path : String) :
    Prop where
  spans : ∀ tree', ∀ p ∈ surface.manifestPoints tree' roots, p.kind = .span
  ids : ∀ bytes, (surface.manifestPoints (writeFile tree path bytes) roots).map (·.id) =
    (surface.manifestPoints tree roots).map (·.id)

/-- A point is in the file that is scanned. -/
theorem resolve_file {f : FileUnderScan} {i : Nat} {parsed : ParsedMarker}
    (h : (f.resolve py i parsed).1 = some p) : p.file = f.file := by
  rw [FileUnderScan.resolve] at h
  split at h
  · cases h
  split at h
  · cases h
    rfl
  split at h
  · split at h
    · cases h
    split at h <;> cases h
    rfl
  split at h
  · cases h
  split at h <;> cases h
  rfl

/-- So is every point of the file. -/
theorem file_of_mem {file sourceRoot : String} {grammar : MarkerSyntax} {bytes : Bytes}
    (h : p ∈ enumerateFile py file sourceRoot grammar bytes) : p.file = file := by
  rw [enumerateFile] at h
  split at h
  · cases h
  split at h
  · cases h
  dsimp only at h
  split at h
  · cases h
  split at h
  · cases h
  obtain ⟨i, parsed, -, -, hresolve⟩ := mem_scanMarkers h
  exact resolve_file hresolve

section Text

variable {path : String} {grammar : MarkerSyntax} {text : Text}

theorem SurfaceText.readSource (h : SurfaceText surface tree path grammar text) :
    readSource tree path = .ok text := by
  obtain ⟨executable, hnode⟩ := h.node
  rw [Mutation.readSource, fileBytes, hnode]
  dsimp only
  rw [decode_encode]

theorem SurfaceText.write (h : SurfaceText surface tree path grammar text) (new : Text) :
    SurfaceText surface (writeFile tree path (encode new)) path grammar new where
  syntaxOf := h.syntaxOf
  notPython := h.notPython
  suffix := h.suffix
  node := by
    obtain ⟨executable, hnode⟩ := h.node
    refine ⟨executable, ?_⟩
    rw [nodes_writeFile, get?_map_writeNode, hnode]
    simp [writeNode]

/-- A file below a root is one of the tree. -/
theorem mem_filesBelow {root file : String} {bytes : Bytes} {parts : List String}
    (h : (file, bytes, parts) ∈ filesBelow tree root) :
    ∃ executable, tree.nodes.get? file = some (.file bytes executable) := by
  rw [filesBelow, mem_filterMap] at h
  obtain ⟨⟨p, node⟩, hnode, heq⟩ := h
  have hnode := (mem_sorted _ _ _).mp hnode
  cases node with
  | special => cases heq
  | unreadable error => cases heq
  | file old executable =>
    dsimp only at heq
    cases hparts : partsBelow root p with
    | none => simp [hparts] at heq
    | some below =>
      cases below with
      | nil => simp [hparts] at heq
      | cons part below =>
        simp only [hparts, Option.some.injEq, Prod.mk.injEq] at heq
        obtain ⟨rfl, rfl, -⟩ := heq
        exact ⟨executable, (Dict.get?_eq_some_iff tree.nodup _ _).mpr hnode⟩

/-- Every scan of the file reads its text under its grammar. -/
theorem SurfaceText.scan (h : SurfaceText surface tree path grammar text) {s : Scan}
    (hs : s ∈ scans surface.table tree roots) (hpath : s.path = path) :
    s.grammar = grammar ∧ s.bytes = encode text := by
  obtain ⟨root, -, hs⟩ := mem_flatMap.mp hs
  obtain ⟨executable, hnode⟩ := h.node
  have hbytes : ∀ bytes executable', tree.nodes.get? path = some (.file bytes executable') →
      bytes = encode text := by
    intro bytes executable' hget
    rw [hnode] at hget
    cases hget
    rfl
  have hdir : s ∈ dirScans surface.table tree root → s.grammar = grammar ∧ s.bytes = encode text := by
    intro hs
    rcases mem_append.mp hs with hs | hs
    · obtain ⟨e, he, rfl⟩ := mem_map.mp hs
      have hsuffix := (mem_filter.mp he).2
      rw [show e.1 = path from hpath, h.suffix] at hsuffix
      cases hsuffix
    · obtain ⟨⟨file, bytes, parts⟩, he, hscan⟩ := mem_filterMap.mp hs
      obtain ⟨executable', hget⟩ := mem_filesBelow he
      dsimp only at hscan
      split at hscan
      · cases hscan
      rename_i found hfound
      split at hscan
      · cases hscan
      cases hscan
      obtain rfl : file = path := hpath
      rw [h.syntaxOf] at hfound
      cases hfound
      exact ⟨rfl, hbytes bytes executable' hget⟩
  rw [scansOf] at hs
  split at hs
  · rename_i bytes executable' hget
    obtain ⟨found, hfound, rfl⟩ := mem_map.mp hs
    obtain rfl : root = path := hpath
    rw [h.syntaxOf] at hfound
    obtain rfl : found = grammar := by simpa using hfound
    exact ⟨rfl, hbytes bytes executable' hget⟩
  · exact hdir hs

variable {p : MutationPoint} {new : Text}

/-- A region point of the file is found by one of its scans. -/
theorem exists_scan (haside : surface.Aside tree roots path)
    (hp : p ∈ enumerateMutations py surface tree roots) (hkind : p.kind = .code)
    (hfile : p.file = path) :
    ∃ s ∈ scans surface.table tree roots, s.path = path ∧ p ∈ s.points py := by
  rcases mem_append.mp ((enumerateMutations_perm py surface tree roots).mem_iff.mp hp) with
    hp | hp
  · obtain ⟨s, hs, hps⟩ := mem_flatMap.mp hp
    exact ⟨s, hs, (file_of_mem hps).symm.trans hfile, hps⟩
  · have hspan := haside.spans tree p hp
    rw [hkind] at hspan
    cases hspan

/-- The point is that of a region. -/
structure MutationPoint.At (p : MutationPoint) (above : Nat) (parsed : ParsedMarker)
    (body : List Text) : Prop where
  kind : p.kind = .code
  id : p.id = parsed.id
  lineStart : p.lineStart = above + 2
  lineEnd : p.lineEnd = above + 1 + body.length
  body : body ≠ []

/-- A code point stands at its region. -/
theorem at_of_point {f : FileUnderScan} {d : Declared} (h : d.point py f = some p)
    (hkind : p.kind = .code) :
    ∃ above parsed body, d = .region above parsed body ∧ p.At above parsed body := by
  cases d with
  | file parsed =>
    cases h
    cases hkind
  | region above parsed body =>
    rw [Declared.point] at h
    split at h
    · cases h
    · rename_i hbody
      cases h
      exact ⟨above, parsed, body, rfl, ⟨rfl, rfl, rfl, rfl, hbody⟩⟩

/-- What stands in a text file that a region was found in. -/
theorem SurfaceText.found (h : SurfaceText surface tree path grammar text)
    (haside : surface.Aside tree roots path) (hp : p ∈ enumerateMutations py surface tree roots)
    (hkind : p.kind = .code) (hfile : p.file = path) {ds : List Declared}
    (hwalk : Walk grammar 0 (scanLines text) ds) :
    (encode text).length ≤ maxTextFileBytes ∧
      gradedLines py.isWord grammar (scanLines text) = false ∧
      ∃ above parsed body, .region above parsed body ∈ ds ∧ p.At above parsed body := by
  obtain ⟨s, hs, hpath, hps⟩ := exists_scan haside hp hkind hfile
  obtain ⟨hgrammar, hbytes⟩ := h.scan hs hpath
  rw [Scan.points, hgrammar, hbytes, enumerateFile_declared h.notPython hwalk] at hps
  split at hps
  · cases hps
  rename_i hfine
  rw [not_or, Nat.not_lt, Bool.not_eq_true] at hfine
  obtain ⟨d, hd, hpoint⟩ := mem_filterMap.mp hps
  obtain ⟨above, parsed, body, rfl, hat⟩ := at_of_point hpoint hkind
  exact ⟨hfine.1, hfine.2, above, parsed, body, hd, hat⟩

/-! ## One patch -/

/-- A region patch rewrites the lines of its region. -/
theorem SurfaceText.applyPatch (h : SurfaceText surface tree path grammar text) {patch : Patch}
    {content : Text} {above : Nat} {parsed : ParsedMarker} {body : List Text}
    (hpoint : pointOf (enumerateMutations py surface tree roots) patch.mutationId = some p)
    (hop : patch.op = .replace) (hcontent : patch.newContent = some content) (hfile : p.file = path)
    (hat : p.At above parsed body) :
    applyPatch py surface roots tree patch =
      .ok (writeFile tree path (encode (rewriteText grammar text above body.length content))) := by
  subst hfile
  have hlines : replaceLines (splitLinesKeep text) p (reindentCodeRegion content (regionBaseIndent
      (((splitLinesKeep text).take p.lineEnd).drop (p.lineStart - 1)).flatten) grammar) =
        rewriteText grammar text above body.length content := by
    have hstart : p.lineStart - 1 = above + 1 := by
      rw [hat.lineStart]
      omega
    rw [replaceLines, rewriteText, rewriteLines, hstart, hat.lineEnd, drop_take,
      Nat.add_sub_cancel_left]
  have hpatched : patchedFile py surface.table tree (enumerateMutations py surface tree roots) patch =
      .ok (p.file, rewriteText grammar text above body.length content) := by
    simp only [patchedFile, hop, hcontent, Patch.require, Patch.point, hpoint, ok_bind]
    rw [applySpanReplace_code h.readSource hat.kind h.syntaxOf, hlines]
    rfl
  rw [Mutation.applyPatch, hpatched]
  rfl

/-- A write that declares no id more often keeps an id from becoming ambiguous. -/
theorem SurfaceText.count_written_le (h : SurfaceText surface tree path grammar text)
    (haside : surface.Aside tree roots path) {id : String} (hle : ∀ file sourceRoot,
      ((enumerateFile py file sourceRoot grammar (encode new)).map (·.id)).count id ≤
        ((enumerateFile py file sourceRoot grammar (encode text)).map (·.id)).count id) :
    ((enumerateMutations py surface (writeFile tree path (encode new)) roots).map (·.id)).count id ≤
      ((enumerateMutations py surface tree roots).map (·.id)).count id := by
  rw [count_ids, count_ids, haside.ids, scans_writeFile, map_map]
  refine Nat.add_le_add_right (sum_le_sum fun s hs => ?_) _
  rw [comp_apply, Scan.write]
  by_cases hpath : s.path = path
  · obtain ⟨hgrammar, hbytes⟩ := h.scan hs hpath
    rw [if_pos hpath, Scan.points, Scan.points, hgrammar, hbytes]
    exact hle s.path s.sourceRoot
  · rw [if_neg hpath]

/-- A region of the written file is found by its id. -/
theorem SurfaceText.pointOf_written (h : SurfaceText surface tree path grammar text)
    (haside : surface.Aside tree roots path) {ds : List Declared}
    (hpoints : ∀ file sourceRoot, enumerateFile py file sourceRoot grammar (encode new) =
      ds.filterMap (·.point py (textFile file sourceRoot grammar (universalNewlines new))))
    {above : Nat} {parsed : ParsedMarker} {body : List Text} (hmem : .region above parsed body ∈ ds)
    (hbody : body ≠ []) (hle : ∀ file sourceRoot,
      ((enumerateFile py file sourceRoot grammar (encode new)).map (·.id)).count parsed.id ≤
        ((enumerateFile py file sourceRoot grammar (encode text)).map (·.id)).count parsed.id)
    (hunique : ((enumerateMutations py surface tree roots).map (·.id)).count parsed.id ≤ 1)
    {s : Scan} (hs : s ∈ scans surface.table tree roots) (hpath : s.path = path) :
    ∃ p, pointOf (enumerateMutations py surface (writeFile tree path (encode new)) roots) parsed.id =
        some p ∧ p.file = path ∧ p.At above parsed body := by
  have hunique' := Nat.le_trans (h.count_written_le haside hle) hunique
  obtain ⟨hgrammar, -⟩ := h.scan hs hpath
  have hpoint : Declared.point py (textFile s.path s.sourceRoot grammar (universalNewlines new))
      (.region above parsed body) = some ((textFile s.path s.sourceRoot grammar
        (universalNewlines new)).point py parsed .code (above + 2) (above + 1 + body.length)
          body.flatten) := if_neg hbody
  have hat : ((textFile s.path s.sourceRoot grammar (universalNewlines new)).point py parsed .code
      (above + 2) (above + 1 + body.length) body.flatten).At above parsed body :=
    ⟨rfl, rfl, rfl, rfl, hbody⟩
  have hfound := mem_filterMap.mpr ⟨_, hmem, hpoint⟩
  rw [← hpoints] at hfound
  have hscan : (textFile s.path s.sourceRoot grammar (universalNewlines new)).point py parsed .code
      (above + 2) (above + 1 + body.length) body.flatten ∈
        enumerateMutations py surface (writeFile tree path (encode new)) roots := by
    rw [(enumerateMutations_perm py surface _ roots).mem_iff, scans_writeFile]
    refine mem_append_left _ (mem_flatMap.mpr ⟨_, mem_map_of_mem hs, ?_⟩)
    rw [Scan.write, if_pos hpath, Scan.points, hgrammar]
    exact hfound
  exact ⟨_, pointOf_of_unique hscan hunique', hpath, hat⟩

/-- An id that only the written file declared is gone when the file has no points. -/
theorem SurfaceText.count_written_zero (h : SurfaceText surface tree path grammar text)
    (haside : surface.Aside tree roots path)
    (hnone : ∀ file sourceRoot, enumerateFile py file sourceRoot grammar (encode new) = [])
    {s : Scan} (hs : s ∈ scans surface.table tree roots) (hpath : s.path = path)
    (hp : p ∈ s.points py)
    (hunique : ((enumerateMutations py surface tree roots).map (·.id)).count p.id ≤ 1) :
    ((enumerateMutations py surface (writeFile tree path (encode new)) roots).map (·.id)).count p.id =
      0 := by
  have hempty : ∀ r ∈ scans surface.table tree roots, r.path = path →
      (r.write path (encode new)).points py = [] := by
    intro r hr hrpath
    obtain ⟨hgrammar, -⟩ := h.scan hr hrpath
    rw [Scan.write, if_pos hrpath, Scan.points, hgrammar]
    exact hnone r.path r.sourceRoot
  have hlt : ((scans surface.table tree roots).map fun r =>
      (((r.write path (encode new)).points py).map (·.id)).count p.id).sum <
        ((scans surface.table tree roots).map fun r => ((r.points py).map (·.id)).count p.id).sum := by
    refine sum_lt_sum _ _ (fun r hr => ?_) ⟨s, hs, ?_⟩
    · by_cases hrpath : r.path = path
      · rw [hempty r hr hrpath]
        exact Nat.zero_le _
      · rw [Scan.write, if_neg hrpath]
    · rw [hempty s hs hpath, map_nil, count_nil]
      exact count_pos_iff.mpr (mem_map_of_mem hp)
  rw [count_ids] at hunique
  rw [count_ids, haside.ids, scans_writeFile, map_map]
  change ((scans surface.table tree roots).map fun r =>
    (((r.write path (encode new)).points py).map (·.id)).count p.id).sum + _ = 0
  omega

end Text

end Zicato.Mutation
