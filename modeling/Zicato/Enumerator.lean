import Zicato.Markers
import Zicato.Snapshot

/-! # Enumerating mutation points

`mutation/enumerator.py`: the walk over a source tree that turns marker comments
into mutation points.  The parser of Python sources is a parameter; what the
enumerator and the applier read of a tree is the list of its constants and of
its unary signs in the order of `ast.walk`.  The points of a manifest bridge are
a parameter too. -/
namespace Zicato.Mutation

open Text

/-- The place of a node: 1-indexed lines, UTF-8 byte columns. -/
structure NodeSpan where
  lineno : Nat
  colOffset : Nat
  endLineno : Nat
  endColOffset : Nat
  deriving DecidableEq, Repr

/-- What a literal of the syntax tree is. -/
inductive ConstantKind
  | string
  /-- An `int` or a `float`, no `bool`. -/
  | numeric
  | other
  deriving DecidableEq, Repr

/-- An `ast.Constant`. -/
structure Constant where
  kind : ConstantKind
  span : NodeSpan
  deriving DecidableEq, Repr

/-- A unary `+` or `-`, with the place of the operand below all signs. -/
structure SignedExpression where
  span : NodeSpan
  operandLineno : Nat
  operandColOffset : Nat
  deriving DecidableEq, Repr

/-- What the enumerator reads of a syntax tree. -/
structure Ast where
  constants : List Constant
  signs : List SignedExpression
  deriving DecidableEq, Repr

/-- The interpreter the mutation layer runs in. -/
structure Python where
  /-- `hashlib.sha256(...).hexdigest()`. -/
  sha256 : Bytes → String
  /-- `ast.parse`; the error is the text of the `SyntaxError`. -/
  parse : Text → Except String Ast
  /-- `ast.parse(..., mode="eval")` of a parenthesised text is one string
  constant or f-string. -/
  isStringExpression : Text → Bool
  /-- `repr` of a string. -/
  reprStr : Text → Text
  /-- `\w`. -/
  isWord : Char → Bool

/-- `MutationKind`. -/
inductive MutationKind
  | span
  | file
  | code
  deriving DecidableEq, Repr

/-- The value of a `MutationKind`. -/
def MutationKind.asStr : MutationKind → String
  | span => "span"
  | file => "file"
  | code => "code"

/-- A mutation point; its file and source root are paths below the tree's root. -/
structure MutationPoint where
  id : String
  kind : MutationKind
  file : String
  sourceRoot : String
  lineStart : Nat
  lineEnd : Nat
  content : Text
  contentHash : String
  metadata : Dict String String
  deriving DecidableEq, Repr

/-- `TEXT_SCAN_SKIP_DIRS`. -/
def textScanSkipDirs : List String :=
  [".git", ".hg", ".svn", ".venv", "venv", "node_modules", "__pycache__", ".mypy_cache",
    ".ruff_cache", ".pytest_cache", ".tox", "site-packages", "dist", "build", "target", ".zicato"]

/-- `MAX_TEXT_FILE_BYTES`. -/
def maxTextFileBytes : Nat := 2000000

variable (py : Python)

/-- `_content_hash`. -/
def contentHash (text : Text) : String := py.sha256 (encode text)

/-! ## One file -/

/-- What only a parser can supply: the lines covered by string literals, and the
literal a span marker binds to.  A text file has neither. -/
structure FileContext where
  ignoredLines : List (Nat × Nat) := []
  spanResolver : Option (Nat → Option (Nat × Nat)) := none

/-- Whether a line lies in an ignored range. -/
def FileContext.ignored (context : FileContext) (line : Nat) : Bool :=
  context.ignoredLines.any fun (first, last) => decide (first ≤ line ∧ line ≤ last)

/-- `_collect_literal_spans`. -/
def literalSpans (ast : Ast) : List (Nat × Nat) :=
  (ast.constants.filter (·.kind == .string)).map fun node => (node.span.lineno, node.span.endLineno)

/-- `_resolve_span_for_marker`: the first of the nearest literals below the line. -/
def resolveSpanForMarker (markerLine : Nat) (spans : List (Nat × Nat)) : Option (Nat × Nat) :=
  spans.foldl (fun best span =>
    if span.1 ≤ markerLine then best
    else
      match best with
      | none => some span
      | some found => if span.1 < found.1 then some span else best) none

/-- `_python_context`. -/
def pythonContext (text : Text) : Option FileContext :=
  match py.parse text with
  | .error _ => none
  | .ok ast =>
      some { ignoredLines := literalSpans ast
             spanResolver := some fun line => resolveSpanForMarker line (literalSpans ast) }

/-- The file a walk is in. -/
structure FileUnderScan where
  grammar : MarkerSyntax
  file : String
  sourceRoot : String
  text : Text
  lines : List Text
  context : FileContext

/-- The marker on a line. -/
def FileUnderScan.marker (f : FileUnderScan) (idx : Nat) : Option ParsedMarker :=
  f.lines[idx]?.bind fun line => parseMarkerLine f.grammar (chomp line)

/-- The first end marker from `idx` on. -/
def FileUnderScan.endIndex (f : FileUnderScan) (idx : Nat) : Option Nat :=
  (List.range' idx (f.lines.length - idx)).find? fun scan =>
    (f.lines[scan]?).any fun line => isEndMarker f.grammar (chomp line)

/-- The lines `first` to `last`, 1-indexed and inclusive. -/
def FileUnderScan.linesText (f : FileUnderScan) (first last : Nat) : Text :=
  ((f.lines.take last).drop (first - 1)).flatten

/-- The mutation point of a marker. -/
def FileUnderScan.point (f : FileUnderScan) (parsed : ParsedMarker) (kind : MutationKind)
    (lineStart lineEnd : Nat) (content : Text) : MutationPoint where
  id := parsed.id
  kind := kind
  file := f.file
  sourceRoot := f.sourceRoot
  lineStart := lineStart
  lineEnd := lineEnd
  content := content
  contentHash := contentHash py content
  metadata := parsed.metadata

/-- The point of the marker at `idx`, if it has one, and the index to go on from. -/
def FileUnderScan.resolve (f : FileUnderScan) (idx : Nat) (parsed : ParsedMarker) :
    Option MutationPoint × Nat :=
  if f.context.ignored (idx + 1) then (none, idx + 1)
  else if parsed.isFile then
    (some (f.point py parsed .file 1 (if f.lines.isEmpty then 1 else f.lines.length) f.text), idx + 1)
  else if parsed.isCode then
    match f.endIndex (idx + 1) with
    -- a region without an end declares nothing
    | none => (none, idx + 1)
    | some endIdx =>
        -- an empty region declares nothing either, and its end is skipped
        if endIdx < idx + 2 then (none, endIdx + 1)
        else
          (some (f.point py parsed .code (idx + 2) endIdx (f.linesText (idx + 2) endIdx)), endIdx + 1)
  else
    match f.context.spanResolver with
    | none => (none, idx + 1)
    | some resolver =>
        match resolver (idx + 1) with
        | none => (none, idx + 1)
        | some (lineStart, lineEnd) =>
            (some (f.point py parsed .span lineStart lineEnd (f.linesText lineStart lineEnd)), idx + 1)

/-- `_scan_markers` from line `idx` on; every step goes forward. -/
def scanMarkers (f : FileUnderScan) : Nat → Nat → List MutationPoint
  | 0, _ => []
  | fuel + 1, idx =>
      if f.lines.length ≤ idx then []
      else
        match f.marker idx with
        | none => scanMarkers f fuel (idx + 1)
        | some parsed =>
            (f.resolve py idx parsed).1.toList ++ scanMarkers f fuel (f.resolve py idx parsed).2

/-- A line outside string literals that declares the file operator-owned. -/
def FileUnderScan.isGrading (f : FileUnderScan) : Bool :=
  (f.lines.zipIdx).any fun (line, idx) =>
    !f.context.ignored (idx + 1) && isGradingMarker py.isWord f.grammar (chomp line)

/-- `_enumerate_file`. -/
def enumerateFile (file sourceRoot : String) (grammar : MarkerSyntax) (bytes : Bytes) :
    List MutationPoint :=
  if !grammar.isPython && decide (maxTextFileBytes < bytes.length) then []
  else
    match decode bytes with
    | none => []
    | some raw =>
        let text := universalNewlines raw
        match if grammar.isPython then pythonContext py text else some {} with
        | none => []
        | some context =>
            let f : FileUnderScan :=
              { grammar, file, sourceRoot, text, lines := splitLinesKeep text, context }
            if f.isGrading py then [] else scanMarkers py f f.lines.length 0

/-! ## A source tree -/

/-- The parts of `path` below `root`, if it lies there. -/
def partsBelow (root path : String) : Option (List String) :=
  if root == "." then some (pathParts path) else (pathParts path).dropPrefix? (pathParts root)

/-- The files below a root in the order of their paths. -/
def filesBelow (tree : Snapshot) (root : String) : List (String × Bytes × List String) :=
  (sorted (fun a b => decide (pathParts a.1 < pathParts b.1)) tree.nodes).filterMap fun (path, node) =>
    match node, partsBelow root path with
    | .file bytes _, some (part :: parts) => some (path, bytes, part :: parts)
    | _, _ => none

/-- The points of one root. -/
def enumerateRoot (table : SyntaxTable) (tree : Snapshot) (root : String) : List MutationPoint :=
  match tree.nodes.get? root with
  | some (.file bytes _) =>
      match markerSyntaxFor table root with
      | none => []
      | some grammar =>
          -- a root that is a file belongs to its directory
          let parent := "/".intercalate (pathParts root).dropLast
          enumerateFile py root (if parent == "" then "." else parent) grammar bytes
  | _ =>
      ((filesBelow tree root).flatMap fun (path, bytes, _) =>
        if path.endsWith pythonSuffix then
          enumerateFile py path root ((table.get? pythonSuffix).getD pythonSyntax) bytes
        else []) ++
      (filesBelow tree root).flatMap fun (path, bytes, parts) =>
        match markerSyntaxFor table path with
        | none => []
        | some grammar =>
            if grammar.isPython || parts.dropLast.any (textScanSkipDirs.contains ·) then []
            else enumerateFile py path root grammar bytes

/-- `<` on the key `(source_root, file, line_start, id)`. -/
def mutationKeyLt (a b : MutationPoint) : Bool :=
  thenLt (decide (a.sourceRoot = b.sourceRoot)) (decide (a.sourceRoot < b.sourceRoot)) <|
    thenLt (decide (a.file = b.file)) (decide (a.file < b.file)) <|
      thenLt (decide (a.lineStart = b.lineStart)) (decide (a.lineStart < b.lineStart)) <|
        decide (a.id < b.id)

/-- What a walk depends on besides the tree. -/
structure Surface where
  table : SyntaxTable
  /-- `enumerate_manifest_points`, where it returns. -/
  manifestPoints : Snapshot → List String → List MutationPoint

/-- `enumerate_mutations`; a root that does not exist contributes nothing. -/
def enumerateMutations (surface : Surface) (tree : Snapshot) (roots : List String) :
    List MutationPoint :=
  sorted mutationKeyLt <|
    (roots.filter tree.resolves).flatMap (enumerateRoot py surface.table tree) ++
      surface.manifestPoints tree roots

end Zicato.Mutation
