import Mathlib.Data.List.Infix
import Zicato.Enumerator
import Zicato.ByteChanges
import Zicato.DictWrites

/-! # Applying patches

`mutation/applier.py`: the byte ranges its operations own, and the application
of a list of patches to a copy of a source tree.  Every patch is resolved by a
fresh enumeration of the tree the ones before it left. -/
namespace Zicato.Mutation

open Text

/-- The operations of a patch. -/
inductive PatchOp
  | replace
  | setNumeric
  | setEnum
  deriving DecidableEq, Repr

/-- The name of an operation in a record. -/
def PatchOp.asStr : PatchOp → String
  | replace => "replace"
  | setNumeric => "set_numeric"
  | setEnum => "set_enum"

/-- A numeric payload, as far as its rendering tells values apart. -/
inductive Numeric
  | int (n : Int)
  /-- A float without a fractional part. -/
  | integral (n : Int)
  /-- Any other finite float, by its `repr`. -/
  | fractional (repr : Text)
  | infinity
  | nan
  deriving DecidableEq, Repr

/-- `Patch`. -/
structure Patch where
  id : String
  mutationId : String
  op : PatchOp
  newContent : Option Text := none
  newNumeric : Option Numeric := none
  newEnum : Option Text := none
  deriving DecidableEq, Repr

/-- The exceptions of the applier by their class. -/
inductive PyError
  | valueError (message : String)
  | overflowError (message : String)
  | fileExistsError (message : String)
  | osError (message : String)
  | keyError (key : String)
  /-- Any other exception, `RecursionError` and `MemoryError` among them. -/
  | other (name message : String)
  deriving DecidableEq, Repr

/-- `repr` of a `str`. -/
def Python.repr (py : Python) (s : String) : String := String.ofList (py.reprStr s.toList)

/-- `_format_numeric`. -/
def formatNumeric : Numeric → Except PyError Text
  | .int n => .ok (toString n).toList
  | .integral n => .ok (toString n).toList
  | .fractional repr => .ok repr
  | .infinity => .error (.overflowError "cannot convert float infinity to integer")
  | .nan => .error (.valueError "cannot convert float NaN to integer")

variable (py : Python) (table : SyntaxTable)

/-- The bytes at a path; every point is in a file that is there. -/
def fileBytes (tree : Snapshot) (path : String) : Bytes :=
  match tree.nodes.get? path with
  | some (.file bytes _) => bytes
  | _ => []

/-- `_read_source`. -/
def readSource (tree : Snapshot) (path : String) : Except PyError Text :=
  match decode (fileBytes tree path) with
  | some text => .ok text
  | none => .error (.valueError "'utf-8' codec can't decode bytes")

/-! ## Locating nodes -/

/-- `_resolve_marker_line`. -/
def resolveMarkerLine (tree : Snapshot) (path mutationId : String) : Except PyError (Option Nat) :=
  match markerSyntaxFor table path with
  | none => .ok none
  | some grammar => do
      let text ← readSource tree path
      return ((splitLines text).zipIdx.find? fun (line, _) =>
        (parseMarkerLine grammar line).any (·.id == mutationId)).map fun (_, idx) => idx + 1

/-- The earlier of two nodes, the first one when they start together. -/
def earlier (best : Option NodeSpan) (node : NodeSpan) : Option NodeSpan :=
  match best with
  | none => some node
  | some found =>
      if node.lineno < found.lineno ∨
          (node.lineno = found.lineno ∧ node.colOffset < found.colOffset) then some node
      else best

/-- `_find_constant_after`, and `_resolve_string_literal_node` for strings. -/
def findConstantAfter (tree : Snapshot) (path : String) (markerLine : Nat) (kind : ConstantKind) :
    Except PyError (Option NodeSpan) := do
  let text ← readSource tree path
  match py.parse text with
  | .error _ => return none
  | .ok ast =>
      return (ast.constants.filter fun node =>
        node.kind == kind && decide (markerLine < node.span.lineno)).foldl
          (fun best node => earlier best node.span) none

/-- The literal a span marker of a Python file binds to. -/
def spanNode (tree : Snapshot) (point : MutationPoint) : Except PyError (Option NodeSpan) := do
  if point.kind = .span ∧ pathSuffix point.file = pythonSuffix then
    match ← resolveMarkerLine table tree point.file point.id with
    | none => return none
    | some markerLine => findConstantAfter py tree point.file markerLine .string
  else return none

/-- `_signed_constant_expression`. -/
def signedConstantExpression (tree : Snapshot) (path : String) (node : NodeSpan) :
    Except PyError NodeSpan := do
  let text ← readSource tree path
  let signs := match py.parse text with
    | .ok ast => ast.signs
    -- the constant was found by parsing the same text
    | .error _ => []
  return (signs.filter fun sign =>
    sign.operandLineno == node.lineno && sign.operandColOffset == node.colOffset).foldl
      (fun result sign =>
        if sign.span.lineno < result.lineno ∨
            (sign.span.lineno = result.lineno ∧ sign.span.colOffset < result.colOffset) then sign.span
        else result) node

/-! ## The bytes an operation owns -/

/-- The bytes of the first `n` lines. -/
def linesLength (lines : List Bytes) (n : Nat) : Nat := Splice.offset lines n

/-- `_node_byte_span`. -/
def nodeByteSpan (lines : List Bytes) (node : NodeSpan) : Nat × Nat :=
  (linesLength lines (node.lineno - 1) + node.colOffset,
    linesLength lines (node.endLineno - 1) + node.endColOffset)

/-- `replacement_byte_span`. -/
def replacementByteSpan (tree : Snapshot) (point : MutationPoint) : Except PyError (Nat × Nat) := do
  let raw := fileBytes tree point.file
  if point.kind = .file then return (0, raw.length)
  let lines := Containment.splitLines raw
  match ← spanNode py table tree point with
  | some node => return nodeByteSpan lines node
  | none =>
      if 1 ≤ point.lineStart ∧ point.lineStart ≤ point.lineEnd ∧ point.lineEnd ≤ lines.length then
        return (linesLength lines (point.lineStart - 1), linesLength lines point.lineEnd)
      else
        throw (.valueError s!"mutation point {py.repr point.id} has invalid source line bounds")

/-- `operation_byte_spans`. -/
def operationByteSpans (tree : Snapshot) (point : MutationPoint) :
    Except PyError (Dict String (Nat × Nat)) := do
  let replacement ← replacementByteSpan py table tree point
  let marker ← resolveMarkerLine table tree point.file point.id
  let lines := Containment.splitLines (fileBytes tree point.file)
  match point.kind, marker with
  | .span, some markerLine =>
      let numeric ← match ← findConstantAfter py tree point.file markerLine .numeric with
        | none => pure []
        | some node => do
            let expression ← signedConstantExpression py tree point.file node
            pure [("set_numeric", nodeByteSpan lines expression)]
      let enum ← match ← findConstantAfter py tree point.file markerLine .string with
        | none => pure []
        | some node => pure [("set_enum", nodeByteSpan lines node)]
      return ("replace", replacement) :: numeric ++ enum
  | _, _ => return [("replace", replacement)]

/-! ## Replacing text -/

/-- `_byte_column_to_character_index`, which raises for a column inside a character. -/
def byteColumnToCharacterIndex (line : Text) (byteColumn : Nat) : Except PyError Nat :=
  match decode ((encode line).take byteColumn) with
  | some head => .ok head.length
  | none => .error (.valueError "'utf-8' codec can't decode bytes")

/-- `_replace_node_text`: the new text of the file. -/
def replaceNodeText (text : Text) (node : NodeSpan) (newText : Text) : Except PyError Text := do
  let lines := splitLinesKeep text
  let first := lines.getD (node.lineno - 1) []
  let last := lines.getD (node.endLineno - 1) []
  let startIndex ← byteColumnToCharacterIndex first node.colOffset
  let endIndex ← byteColumnToCharacterIndex last node.endColOffset
  return (lines.take (node.lineno - 1)).flatten ++ first.take startIndex ++ newText ++
    (last.drop endIndex ++ (lines.drop node.endLineno).flatten)

/-- `_node_text`. -/
def nodeText (text : Text) (node : NodeSpan) : Except PyError Text := do
  let lines := splitLinesKeep text
  let first := lines.getD (node.lineno - 1) []
  let last := lines.getD (node.endLineno - 1) []
  let startIndex ← byteColumnToCharacterIndex first node.colOffset
  let endIndex ← byteColumnToCharacterIndex last node.endColOffset
  if node.lineno = node.endLineno then return (first.take endIndex).drop startIndex
  else
    return first.drop startIndex ++ ((lines.take (node.endLineno - 1)).drop node.lineno).flatten ++
      last.take endIndex

/-- `replacement_source`. -/
def replacementSource (tree : Snapshot) (point : MutationPoint) : Except PyError Text := do
  match ← spanNode py table tree point with
  | some node =>
      let text ← readSource tree point.file
      nodeText text node
  | none =>
      let (start, stop) ← replacementByteSpan py table tree point
      match decode (((fileBytes tree point.file).take stop).drop start) with
      | some text => return text
      | none => throw (.valueError "'utf-8' codec can't decode bytes")

/-- `_looks_like_python_string_literal`. -/
def looksLikePythonStringLiteral (text : Text) : Bool :=
  let stripped := skipSpace text
  let opening := ((stripped.take 2).takeWhile ("rRbBuUfF".toList.contains ·)).length
  let rest := stripped.drop opening
  rest.head? == some '"' || rest.head? == some '\''

/-- `_is_python_string_literal_source`. -/
def isPythonStringLiteralSource (text : Text) : Bool :=
  let stripped := strip (dedent text)
  !stripped.isEmpty && py.isStringExpression stripped

def tripleDouble : Text := ['"', '"', '"']

def tripleSingle : Text := ['\'', '\'', '\'']

/-- A triple delimiter that `content` neither contains nor touches. -/
def safeDelimiter (content triple : Text) : Bool :=
  !decide (triple <:+: content) && content.head? != triple.head? && content.getLast? != triple.head?

/-- `_quote_as_python_string`. -/
def quoteAsPythonString (content indent : Text) : Text :=
  if !content.contains '\\' && safeDelimiter content tripleDouble then
    indent ++ tripleDouble ++ content ++ tripleDouble
  else if !content.contains '\\' && safeDelimiter content tripleSingle then
    indent ++ tripleSingle ++ content ++ tripleSingle
  else indent ++ py.reprStr content

/-- The text with its first line's indent replaced. -/
def anchorFirstLine (indent literal : Text) : Text :=
  match splitLinesKeep literal with
  | [] => literal
  | first :: rest => indent ++ first.dropWhile isBlank ++ rest.flatten

/-- `_build_literal_replacement`. -/
def buildLiteralReplacement (newContent : Text) : Text :=
  if looksLikePythonStringLiteral newContent && isPythonStringLiteralSource py newContent then
    anchorFirstLine [] newContent
  else quoteAsPythonString py newContent []

/-- `_literal_line_prefix`. -/
def literalLinePrefix (text : Text) : Text :=
  match (splitLines text).find? (!·.all isSpace) with
  | none => []
  | some line =>
      if (skipSpace line).head? == some '+' then
        -- the operator stays: everything up to the opening quote
        line.takeWhile fun c => c != '"' && c != '\''
      else line.takeWhile isSpace

/-- `_region_base_indent`. -/
def regionBaseIndent (originalBody : Text) : Text :=
  match (splitLines originalBody).find? (!·.all isBlank) with
  | none => []
  | some line => line.takeWhile isBlank

/-- `_reindent_code_region`. -/
def reindentCodeRegion (newContent indent : Text) (grammar : MarkerSyntax) : Text :=
  let kept := (splitLines newContent).filter fun line =>
    (parseMarkerLine grammar line).isNone && !isEndMarker grammar line
  if kept.isEmpty then []
  else
    joinLines ((splitLines (dedent (joinLines kept))).map fun line =>
      if (strip line).isEmpty then [] else indent ++ line) ++ ['\n']

/-- The text of a file with its lines `point.lineStart` to `point.lineEnd`
replaced. -/
def replaceLines (lines : List Text) (point : MutationPoint) (middle : Text) : Text :=
  (lines.take (point.lineStart - 1)).flatten ++ middle ++ (lines.drop point.lineEnd).flatten

/-- `_apply_span_replace`: the new text of the point's file. -/
def applySpanReplace (tree : Snapshot) (point : MutationPoint) (newContent : Text) :
    Except PyError Text := do
  let text ← readSource tree point.file
  let lines := splitLinesKeep text
  let original := ((lines.take point.lineEnd).drop (point.lineStart - 1)).flatten
  if point.kind = .file then return newContent
  if let some node ← spanNode py table tree point then
    return ← replaceNodeText text node (buildLiteralReplacement py newContent)
  if point.kind = .code then
    match markerSyntaxFor table point.file with
    | none =>
        throw (.valueError <|
          s!"applier: {point.file} has no declared marker syntax for suffix " ++
          s!"{py.repr (pathSuffix point.file)}; refusing to rewrite region {py.repr point.id} " ++
          "(declare the suffix in the contract's mutation_surface table)")
    | some grammar =>
        return replaceLines lines point
          (reindentCodeRegion newContent (regionBaseIndent original) grammar)
  let middle :=
    if pathSuffix point.file = pythonSuffix then
      if looksLikePythonStringLiteral newContent && isPythonStringLiteralSource py newContent then
        anchorFirstLine (literalLinePrefix original) newContent
      else quoteAsPythonString py newContent (literalLinePrefix original)
    else newContent
  -- the newline that the original span had
  return replaceLines lines point
    (if !endsWith middle "\n" && endsWith original "\n" then middle ++ ['\n'] else middle)

/-! ## Checking a patch set -/

/-- `_OP_RULES`: the kinds an operation can target. -/
def PatchOp.kinds : PatchOp → List MutationKind
  | replace => [.span, .file, .code]
  | setNumeric => [.span]
  | setEnum => [.span]

/-- The payload field of an operation. -/
def PatchOp.payload : PatchOp → String
  | replace => "new_content"
  | setNumeric => "new_numeric"
  | setEnum => "new_enum"

/-- The payload fields a patch populates, in the order of `_ALL_PAYLOAD_FIELDS`. -/
def Patch.populated (patch : Patch) : List String :=
  (if patch.newContent.isSome then ["new_content"] else []) ++
    (if patch.newNumeric.isSome then ["new_numeric"] else []) ++
    if patch.newEnum.isSome then ["new_enum"] else []

/-- `_build_index`: the last point of an id wins. -/
def pointOf (points : List MutationPoint) (id : String) : Option MutationPoint :=
  points.reverse.find? (·.id == id)

/-- `duplicate_mutation_ids`, of the ids a batch targets. -/
def ambiguousTargets (patches : List Patch) (points : List MutationPoint) : List String :=
  sorted (fun a b => decide (a < b)) <|
    ((patches.map (·.mutationId)).dedup).filter fun id => decide (1 < points.countP (·.id == id))

/-- `', '.join(sorted(items))`. -/
def commaSeparated (items : List String) : String :=
  ", ".intercalate (sorted (fun a b => decide (a < b)) items)

/-- The kinds an operation admits, as its error names them. -/
def kindList (op : PatchOp) : String :=
  commaSeparated (op.kinds.map fun kind => py.repr kind.asStr)

/-- The error for an id that resolves to several points. -/
def ambiguousProblem (points : List MutationPoint) (id : String) : String :=
  let locations := (points.filter (·.id == id)).map fun p => s!"{p.file}:{p.lineStart}"
  s!"mutation_id {py.repr id} is ambiguous: it resolves to {locations.length} mutation points " ++
    s!"({commaSeparated locations}); " ++
    "ids must be unique across the mutation surface"

/-- The problems of one patch: its payload, its target and the target's kind. -/
def patchProblems (points : List MutationPoint) (patch : Patch) : List String :=
  (if patch.populated.contains patch.op.payload then []
    else [s!"Patch {py.repr patch.id}: op={patch.op.asStr} requires {patch.op.payload}"]) ++
  (patch.populated.filter (· != patch.op.payload)).map (fun field =>
    s!"Patch {py.repr patch.id}: op={patch.op.asStr} must not set {field} " ++
      s!"(only {patch.op.payload} applies)") ++
  match pointOf points patch.mutationId with
  | none =>
      [s!"Patch {py.repr patch.id}: mutation_id {py.repr patch.mutationId} does " ++
        "not resolve to an enumerated mutation point"]
  | some point =>
      if patch.op.kinds.contains point.kind then []
      else
        [s!"Patch {py.repr patch.id}: op={patch.op.asStr} is incompatible with " ++
          s!"mutation point {py.repr patch.mutationId} of kind {py.repr point.kind.asStr} " ++
          s!"(op={patch.op.asStr} requires kind in [{kindList py patch.op}])"]

/-- `validate_patches`. -/
def validatePatches (patches : List Patch) (points : List MutationPoint) : List String :=
  (ambiguousTargets patches points).map (ambiguousProblem py points) ++
    patches.flatMap (patchProblems py points)

/-! ## Applying a patch set -/

/-- The tree with new bytes in one of its files. -/
def writeFile (tree : Snapshot) (path : String) (bytes : Bytes) : Snapshot where
  nodes := tree.nodes.map fun (p, node) =>
    match node with
    | .file _ executable => if p = path then (p, .file bytes executable) else (p, node)
    | _ => (p, node)
  nodup := by
    have hkeys : Dict.keys (tree.nodes.map fun (p, node) =>
        match node with
        | .file _ executable => if p = path then (p, Node.file bytes executable) else (p, node)
        | _ => (p, node)) = Dict.keys tree.nodes := by
      rw [Dict.keys, List.map_map]
      refine List.map_congr_left fun e _ => ?_
      obtain ⟨p, node⟩ := e
      simp only [Function.comp_apply]
      split
      · split <;> rfl
      · rfl
    rw [hkeys]
    exact tree.nodup
  resolves := tree.resolves

/-- The node a `set_numeric` or `set_enum` patch rewrites. -/
def constantNode (tree : Snapshot) (patch : Patch) (point : MutationPoint) (kind : ConstantKind)
    (name : String) : Except PyError NodeSpan := do
  match ← resolveMarkerLine table tree point.file patch.mutationId with
  | none =>
      throw (.valueError <|
        s!"Patch {py.repr patch.id}: marker for {py.repr patch.mutationId} vanished in target_root")
  | some markerLine =>
      match ← findConstantAfter py tree point.file markerLine kind with
      | none =>
          throw (.valueError <|
            s!"Patch {py.repr patch.id}: no {name} constant found after marker " ++
              s!"for {py.repr patch.mutationId} in {point.file}")
      | some node => return node

/-- A payload that must be there. -/
def Patch.require {α : Type} (patch : Patch) (payload : Option α) : Except PyError α :=
  match payload with
  | some value => .ok value
  | none =>
      .error (.valueError
        s!"Patch {py.repr patch.id}: op={patch.op.asStr} requires {patch.op.payload}")

/-- The point a patch targets in an enumeration. -/
def Patch.point (patch : Patch) (points : List MutationPoint) : Except PyError MutationPoint :=
  match pointOf points patch.mutationId with
  | some point => .ok point
  | none =>
      .error (.valueError <|
        s!"Patch {py.repr patch.id}: mutation_id {py.repr patch.mutationId} not found in target_root")

/-- The file a patch writes and its new text. -/
def patchedFile (tree : Snapshot) (points : List MutationPoint) (patch : Patch) :
    Except PyError (String × Text) :=
  match patch.op with
  | .replace => do
      let content ← patch.require py patch.newContent
      let point ← patch.point py points
      return (point.file, ← applySpanReplace py table tree point content)
  | .setNumeric => do
      let value ← patch.require py patch.newNumeric
      let point ← patch.point py points
      let node ← constantNode py table tree patch point .numeric "numeric"
      let text ← readSource tree point.file
      return (point.file, ← replaceNodeText text node (← formatNumeric value))
  | .setEnum => do
      let value ← patch.require py patch.newEnum
      let point ← patch.point py points
      let node ← constantNode py table tree patch point .string "string"
      let text ← readSource tree point.file
      return (point.file, ← replaceNodeText text node (py.reprStr value))

/-- One turn of `_apply_patches_into_tree`, under the enumeration of the tree. -/
def applyPatch (surface : Surface) (roots : List String) (tree : Snapshot) (patch : Patch) :
    Except PyError Snapshot := do
  let (file, text) ← patchedFile py surface.table tree (enumerateMutations py surface tree roots)
    patch
  return writeFile tree file (encode text)

/-- `_apply_patches_into_tree` on the checked path: the tree it leaves, and how it
ends. -/
def applyPatchesIntoTree (surface : Surface) (roots : List String) :
    Snapshot → List Patch → Snapshot × Except PyError Unit
  | tree, [] => (tree, .ok ())
  | tree, patch :: patches =>
      match applyPatch py surface roots tree patch with
      | .error error => (tree, .error error)
      | .ok tree' => applyPatchesIntoTree surface roots tree' patches

/-- `_unparseable_py_files`: the Python files that do not decode or parse. -/
def unparseablePyFiles (tree : Snapshot) : List (String × String) :=
  (filesBelow tree ".").filterMap fun (path, bytes, _) =>
    if path.endsWith pythonSuffix then
      match decode bytes with
      | none => some (path, "not valid UTF-8")
      | some text =>
          match py.parse text with
          | .ok _ => none
          | .error reason => some (path, reason)
    else none

/-- An exception that is raised in the turn of a patch by the parser, the manifest
bridge or the file system.  Turns count from 0, and the walk after the last patch is
one more. -/
structure Strike where
  turn : Nat
  error : PyError
  /-- What the turn makes of the tree before it is cut short. -/
  left : Snapshot → Snapshot

/-- What a call meets besides its arguments. -/
structure Host where
  /-- The files that a copy through the symbolic link at a path makes, by their paths in
  the copy; none where the node cannot be copied. -/
  follow : String → Option (List (String × Bytes × Bool)) := fun _ => none
  /-- What `shutil.rmtree(..., ignore_errors=True)` leaves of a tree. -/
  rmtree : Snapshot → Option Snapshot := fun _ => none
  /-- Raised by `shutil.copytree` before there is a target. -/
  makedirs : Option PyError := none
  /-- Raised by the enumeration of the pre-check. -/
  precheck : Option PyError := none
  /-- Raised by the first scan of the Python files. -/
  baseline : Option PyError := none
  strike : Option Strike := none
  /-- Raised by the scan after the last patch. -/
  gate : Option PyError := none

/-- A host where nothing is raised and every tree is removed. -/
def Host.calm : Host := {}

/-- The strike that a call with these patches can come to. -/
def Host.strikeIn (host : Host) (patches : List Patch) : Option Strike :=
  host.strike.filter fun s => decide (s.turn ≤ patches.length)

/-- The patches before the strike. -/
def Host.reached (host : Host) (patches : List Patch) : List Patch :=
  match host.strikeIn patches with
  | some s => patches.take s.turn
  | none => patches

/-- The files that copying the links of a tree makes. -/
def Host.linked (host : Host) (source : Snapshot) : List (String × Bytes × Bool) :=
  (source.nodes.filter fun e => !underArtifact e.1 && decide (e.2 = .special)).flatMap fun e =>
    ((host.follow e.1).getD []).filter fun f => !underArtifact f.1

/-- `shutil.copytree` refuses the node. -/
def Host.refuses (host : Host) (path : String) : Node → Bool
  | .file _ _ => false
  | .special => (host.follow path).isNone
  | .unreadable _ => true

/-- `shutil.copytree` without the artifacts of a run: the copy, in which links have
become what they lead to, and the nodes that could not be copied. -/
def copytree (host : Host) (source : Snapshot) : Snapshot × List String :=
  (copied, (source.nodes.filter fun e => !underArtifact e.1 && host.refuses e.1 e.2).map (·.1))
where
  copied : Snapshot :=
    { nodes := Dict.writes (·.1) (fun f => Node.file f.2.1 f.2.2) (host.linked source)
        (source.nodes.filter fun e => !underArtifact e.1 && e.2.isFile)
      nodup := Dict.nodup_keys_writes ((List.filter_sublist.map Prod.fst).nodup source.nodup)
      resolves := fun path => !underArtifact path && source.resolves path }

/-- What is at the target path afterwards, and how the call ended. -/
structure Applied where
  target : Option Snapshot
  result : Except PyError Unit

/-- `_apply_patches_into_tree` where an exception may cut a turn short. -/
def applyUntilStruck (surface : Surface) (roots : List String) (host : Host) (tree : Snapshot)
    (patches : List Patch) : Snapshot × Except PyError Unit :=
  match applyPatchesIntoTree py surface roots tree (host.reached patches), host.strikeIn patches with
  | (tree', .ok ()), some s => (s.left tree', .error s.error)
  | ended, _ => ended

/-- `apply_patches`: validate, apply and check a copy; the copy goes when the set
is refused. -/
def applyPatches (surface : Surface) (source : Snapshot) (patches : List Patch)
    (target : Option Snapshot) (roots : List String) (host : Host := .calm) : Applied :=
  if roots.isEmpty || !roots.all source.resolves then
    ⟨target, .error (.valueError
      "mutation enumeration roots must exist inside the parent snapshot")⟩
  else if target.isSome then
    ⟨target, .error (.fileExistsError
      "apply_patches: target_root already exists; refusing to overwrite")⟩
  else
    match host.makedirs, copytree host source with
    | some error, _ => ⟨none, .error error⟩
    -- a node that fails does not keep the rest from being copied
    | none, (copy, path :: paths) => ⟨some copy, .error (.osError (", ".intercalate (path :: paths)))⟩
    | none, (copy, []) =>
        match host.precheck with
        | some error => ⟨some copy, .error error⟩
        | none =>
            let problems := validatePatches py patches (enumerateMutations py surface copy roots)
            if !problems.isEmpty then
              ⟨host.rmtree copy, .error (.valueError <| "apply_patches: refusing to apply patch set; " ++
                s!"{problems.length} validation problem(s): " ++ "; ".intercalate problems)⟩
            else applyChecked host copy
where
  /-- The rest of the call once the pre-check is passed. -/
  applyChecked (host : Host) (copy : Snapshot) : Applied :=
    match host.baseline with
    | some error => ⟨some copy, .error error⟩
    | none =>
        if !roots.all copy.resolves then
          ⟨host.rmtree copy, .error (.valueError
            "mutation enumeration roots must exist inside the parent snapshot")⟩
        else
          match applyUntilStruck py surface roots host copy patches with
          | (left, .error (.valueError message)) => ⟨host.rmtree left, .error (.valueError message)⟩
          -- no other exception is caught, and what was applied so far stays
          | (left, .error error) => ⟨some left, .error error⟩
          | (tree, .ok ()) =>
              match host.gate with
              | some error => ⟨some tree, .error error⟩
              | none =>
                  let broken := (unparseablePyFiles py tree).filter fun f =>
                    !((unparseablePyFiles py copy).map (·.1)).contains f.1
                  if !broken.isEmpty then
                    ⟨host.rmtree tree, .error (.valueError <|
                      "apply_patches: refusing to promote snapshot; " ++
                      s!"{broken.length} post-apply syntax problem(s): " ++
                      "; ".intercalate (broken.map fun f => s!"{f.1}: {f.2}"))⟩
                  else ⟨some tree, .ok ()⟩

end Zicato.Mutation
