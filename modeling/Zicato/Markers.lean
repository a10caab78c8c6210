import Zicato.PyText
import Zicato.Dict

/-! # Marker comments

`mutation/markers.py`: the comment lines that declare mutable surface.  Each
pattern of the source is the function that decides it on one line; a line holds
no newline, so that the end of the line is the end of the text. -/
namespace Zicato.Mutation

open Text

/-- `PYTHON_SUFFIX`. -/
def pythonSuffix : String := ".py"

/-- One suffix's comment grammar. -/
structure MarkerSyntax where
  suffix : String
  leaders : List String
  trailers : List String := []
  deriving DecidableEq, Repr

/-- Whether the grammar is the one of Python files. -/
def MarkerSyntax.isPython (grammar : MarkerSyntax) : Bool := grammar.suffix == pythonSuffix

/-- The syntax table: the grammar of each suffix that is surface. -/
abbrev SyntaxTable := Dict String MarkerSyntax

/-- `PYTHON_SYNTAX`. -/
def pythonSyntax : MarkerSyntax := { suffix := pythonSuffix, leaders := ["#"] }

/-- `BUILTIN_SYNTAXES`. -/
def builtinSyntaxes : SyntaxTable :=
  (pythonSuffix, pythonSyntax) ::
    [".md", ".markdown", ".txt", ".yaml", ".yml", ".toml"].map fun suffix =>
      (suffix, { suffix := suffix, leaders := ["<!--", "#"], trailers := ["-->"] })

/-- An opening marker. -/
structure ParsedMarker where
  id : String
  isFile : Bool
  isCode : Bool
  metadata : Dict String String
  deriving DecidableEq, Repr

/-- `_alternation`: the tokens, longest first. -/
def alternation (tokens : List String) : List String :=
  tokens.mergeSort fun a b => decide (b.length ≤ a.length)

/-- What may follow `\s*leader\s*` and then `token` on the line, one way for each
leader that opens it. -/
def afterLeader (grammar : MarkerSyntax) (token : String) (line : Text) : List Text :=
  (alternation grammar.leaders).filterMap fun leader =>
    (after? leader (skipSpace line)).bind fun rest => after? token (skipSpace rest)

/-- What an identifier begins with. -/
def isIdentStart (c : Char) : Bool :=
  ('A' ≤ c && c ≤ 'Z') || ('a' ≤ c && c ≤ 'z') || c == '_'

/-- What an identifier goes on with. -/
def isIdentChar (c : Char) : Bool := isIdentStart c || ('0' ≤ c && c ≤ '9')

/-- A quoted value: what stands between a quote and the next one, and the rest. -/
def quoted? (text : Text) : Option (Text × Text) :=
  match text with
  | '"' :: rest =>
      match rest.dropWhile (· != '"') with
      | '"' :: rest' => some (rest.takeWhile (· != '"'), rest')
      | _ => none
  | _ => none

/-- One `key="value"` at the start of a text. -/
def keyValue? (text : Text) : Option ((String × String) × Text) :=
  match text with
  | c :: _ =>
      if isIdentStart c then
        match text.dropWhile isIdentChar with
        | '=' :: rest =>
            (quoted? rest).map fun (value, rest') =>
              ((String.ofList (text.takeWhile isIdentChar), String.ofList value), rest')
        | _ => none
      else none
  | [] => none

/-- The matches of `_TAIL_KV_RE` from left to right; every step goes forward. -/
def keyValues : Nat → Text → List (String × String)
  | 0, _ => []
  | _, [] => []
  | fuel + 1, c :: rest =>
      match keyValue? (c :: rest) with
      | some (pair, rest') => pair :: keyValues fuel rest'
      | none => keyValues fuel rest

/-- The metadata of a marker's tail. -/
def tailMetadata (tail : Text) : Dict String String :=
  (keyValues tail.length tail).foldl (fun d pair => d.set pair.1 pair.2) []

/-- The variant of a marker and what follows it. -/
def variant (rest : Text) : Bool × Bool × Text :=
  match after? ":file" rest, after? ":code" rest with
  | some rest', _ => (true, false, rest')
  | none, some rest' => (false, true, rest')
  | none, none => (false, false, rest)

/-- The id, the metadata and nothing else behind the marker's name. -/
def parseFields (isFile isCode : Bool) (rest : Text) : Option ParsedMarker := do
  guard (rest.head?.any isSpace)
  let (id, tail) ← quoted? (← after? "id=" (skipSpace rest))
  guard (!id.isEmpty)
  guard (tail.isEmpty || tail.head?.any isSpace)
  return { id := String.ofList id, isFile := isFile, isCode := isCode
           metadata := tailMetadata (skipSpace tail) }

/-- `parse_marker_line`. -/
def parseMarkerLine (grammar : MarkerSyntax) (line : Text) : Option ParsedMarker :=
  (afterLeader grammar "zicato:mutable" line).findSome? fun rest =>
    parseFields (variant rest).1 (variant rest).2.1 (variant rest).2.2

/-- Only space, or space with one of the trailers in it. -/
def closed (grammar : MarkerSyntax) (rest : Text) : Bool :=
  rest.all isSpace || grammar.trailers.any fun trailer =>
    ((after? trailer (skipSpace rest)).map (·.all isSpace)).getD false

/-- `is_end_marker`. -/
def isEndMarker (grammar : MarkerSyntax) (line : Text) : Bool :=
  (afterLeader grammar "zicato:mutable:end" line).any (closed grammar)

/-- `is_grading_marker`; `isWord` is `\w`. -/
def isGradingMarker (isWord : Char → Bool) (grammar : MarkerSyntax) (line : Text) : Bool :=
  (afterLeader grammar "zicato:grading" line).any fun rest => !rest.head?.any isWord

/-- `Path.suffix` of a relative path. -/
def pathSuffix (path : String) : String :=
  let name := ((Lines.split '/' path.toList).getLast?).getD []
  let stem := name.rdropWhile (· != '.')
  -- a leading dot starts no suffix, and neither does a trailing one
  if stem.length ≤ 1 || stem.length == name.length then ""
  else String.ofList ('.' :: name.drop stem.length)

/-- `marker_syntax_for`. -/
def markerSyntaxFor (table : SyntaxTable) (path : String) : Option MarkerSyntax :=
  table.get? (pathSuffix path)

end Zicato.Mutation
