import Zicato.Json
import Zicato.PyFloat

/-! # The object in a response

`extract_json_object` of `proposer/structured.py`: fences, reasoning blocks and braces in the
text of a model, and the texts among them that are tried as JSON. -/
namespace Zicato.Proposal

/-! ## Fences -/

/-- The mark around a block of code. -/
def fence : Text := "\x60\x60\x60".toList

/-- `(?:json|JSON)?`. -/
def afterLabel (text : Text) : Text :=
  ((Text.after? "json" text).or (Text.after? "JSON" text)).getD text

/-- `\s*\n`: what follows each newline of the white space at the start, the last one first. -/
def afterBreaks : Text → List Text
  | [] => []
  | c :: rest =>
      if Text.isSpace c then afterBreaks rest ++ (if c = '\n' then [rest] else []) else []

/-- `(?P<body>.*?)\n` and a fence: the shortest body that such an end follows. -/
def untilFence (ends : Text → Bool) : Text → Option (Text × Text)
  | [] => none
  | c :: rest =>
      match (c :: rest).dropPrefix? ('\n' :: fence) with
      | some after =>
          if ends after then some ([], after)
          else (untilFence ends rest).map fun found => (c :: found.1, found.2)
      | none => (untilFence ends rest).map fun found => (c :: found.1, found.2)

/-- The body of the fence that the text starts with, and what follows it. -/
def fenced (ends : Text → Bool) (text : Text) : Option (Text × Text) :=
  (text.dropPrefix? fence).bind fun rest =>
    (afterBreaks (afterLabel rest)).findSome? (untilFence ends)

/-- `_strip_fences`: `_FENCE_RE` holds the whole text. -/
def stripFences (text : Text) : Text :=
  match fenced (fun after => after.all Text.isSpace) text.skipSpace with
  | some (body, _) => body
  | none => text

/-- `_ANY_FENCE_RE.finditer`, the bodies only. -/
def anyFences : Nat → Text → List Text
  | 0, _ => []
  | _ + 1, [] => []
  | n + 1, c :: rest =>
      match fenced (fun _ => true) (c :: rest) with
      | some (body, after) => body :: anyFences n after
      | none => anyFences n rest

/-! ## Reasoning blocks -/

/-- The lower case of a character that may be a letter of `thinking` or `reasoning`. -/
def lowerLetter (c : Char) : Char :=
  if c.toNat = 0x212a then 'k' else if c.toNat = 0x130 then 'i' else c.toLower

/-- A letter of the pattern, whose case is ignored. -/
def sameLetter (letter c : Char) : Bool :=
  lowerLetter c == letter || (letter == 'i' && c.toNat == 0x131) ||
    (letter == 's' && c.toNat == 0x17f)

/-- A word of the pattern at the start: what it is in the text, and what follows it. -/
def word? : Text → Text → Option (Text × Text)
  | [], text => some ([], text)
  | _ :: _, [] => none
  | letter :: word, c :: rest =>
      if sameLetter letter c then (word? word rest).map fun found => (c :: found.1, found.2)
      else none

/-- `\s*>`. -/
def closeAngle (text : Text) : Option Text := (Text.skipSpace text).dropPrefix? ['>']

/-- `<\s*(think|thinking|reasoning)\s*>`. -/
def openTag (text : Text) : Option (Text × Text) :=
  (text.dropPrefix? ['<']).bind fun rest =>
    ["think", "thinking", "reasoning"].findSome? fun word =>
      (word? word.toList (Text.skipSpace rest)).bind fun found =>
        (closeAngle found.2).map fun after => (found.1, after)

/-- `\1`. -/
def again : Text → Text → Option Text
  | [], text => some text
  | _ :: _, [] => none
  | c :: name, c' :: rest => if lowerLetter c == lowerLetter c' then again name rest else none

/-- `<\s*/\s*\1\s*>`. -/
def closeTag (name text : Text) : Option Text := do
  let rest ← text.dropPrefix? ['<']
  let rest ← (Text.skipSpace rest).dropPrefix? ['/']
  closeAngle (← again name (Text.skipSpace rest))

/-- `.*?` and the end of the block. -/
def afterBlock (name : Text) : Text → Option Text
  | [] => none
  | c :: rest => (closeTag name (c :: rest)).or (afterBlock name rest)

/-- What follows the block that the text starts with. -/
def reasoningBlock (text : Text) : Option Text :=
  (openTag text).bind fun found => afterBlock found.1 found.2

/-- `_REASONING_WRAPPER_RE.sub("", text)`. -/
def stripBlocks : Nat → Text → Text
  | 0, text => text
  | _ + 1, [] => []
  | n + 1, c :: rest =>
      match reasoningBlock (c :: rest) with
      | some after => stripBlocks n after
      | none => c :: stripBlocks n rest

/-- `_strip_reasoning_wrappers`. -/
def stripReasoningWrappers (text : Text) : Text := stripBlocks text.length text

/-! ## Braces -/

/-- The state of `_scan_brace_objects`; `span` is the object so far. -/
structure Scan where
  depth : Nat := 0
  inString : Bool := false
  escaped : Bool := false
  span : Text := []
  objects : List Text := []

/-- One character. -/
def Scan.next (s : Scan) (c : Char) : Scan :=
  let kept := { s with span := if 0 < s.depth then s.span ++ [c] else s.span }
  if s.inString then
    if s.escaped then { kept with escaped := false }
    else if c = '\\' then { kept with escaped := true }
    else if c = '"' then { kept with inString := false }
    else kept
  else if c = '"' then { kept with inString := true }
  else if c = '\x7b' then
    { kept with depth := s.depth + 1, span := if s.depth = 0 then [c] else kept.span }
  else if c = '\x7d' then
    if s.depth = 1 then
      { kept with depth := 0, span := [], objects := s.objects ++ [kept.span] }
    else { kept with depth := s.depth - 1 }
  else kept

/-- `_scan_brace_objects`. -/
def scanBraceObjects (text : Text) : List Text := (text.foldl Scan.next {}).objects

/-- The inner loop of `_scan_brace_objects_anchored`: the object at the anchor, and what
follows it. -/
def closeBrace (depth : Nat) (inString escaped : Bool) : Text → Option (Text × Text)
  | [] => none
  | c :: rest =>
      let onward (depth : Nat) (inString escaped : Bool) :=
        (closeBrace depth inString escaped rest).map fun found => (c :: found.1, found.2)
      if inString then
        if escaped then onward depth true false
        else if c = '\\' then onward depth true true
        else onward depth (decide (c ≠ '"')) false
      else if c = '"' then onward depth true false
      else if c = '\x7b' then onward (depth + 1) false false
      else if c = '\x7d' then
        if depth = 1 then some ([c], rest) else onward (depth - 1) false false
      else onward depth false false

/-- `_scan_brace_objects_anchored`. -/
def scanAnchored : Nat → Text → List Text
  | 0, _ => []
  | _ + 1, [] => []
  | n + 1, c :: rest =>
      if c = '\x7b' then
        match closeBrace 0 false false (c :: rest) with
        | some (object, after) => object :: scanAnchored n after
        | none => scanAnchored n rest
      else scanAnchored n rest

/-! ## The object -/

/-- What may be raised. -/
inductive Fault
  /-- `json.JSONDecodeError`. -/
  | decode (message : String)
  /-- `ExperimentParseError`. -/
  | parse (message : String)
  /-- Any other exception. -/
  | other
  deriving DecidableEq

/-- What the proposer uses of the interpreter and of `jsonschema`. -/
structure Interp (F : Type) where
  floats : Json.Floats F
  /-- `json.loads` raises at the interpreter's limit of depth or of digits. -/
  limited : Text → Bool
  /-- Where a `JSONDecodeError` says that it is. -/
  place : Text → String
  /-- `float(text)`; a text that is no number raises. -/
  float : String → Option F
  /-- `repr` of a text. -/
  repr : String → String
  /-- `str` of a float. -/
  str : F → String
  /-- The path and the message of a `jsonschema.ValidationError`. -/
  violation : PyValue F → String
  /-- `uuid.uuid4().hex`, call by call. -/
  uuid : Nat → String
  /-- `datetime.now(UTC).isoformat()`. -/
  now : String

variable {F : Type} (it : Interp F)

/-- `json.loads`. -/
def Interp.loads (text : Text) : Except Fault (PyValue F) :=
  if it.limited text then .error .other
  else
    match Json.loads it.floats text with
    | .ok v => .ok v
    | .error message => .error (.decode message)

/-- Whether the text parses to an object; one that does not parse is passed over. -/
def isObject (text : Text) : Except Fault Bool :=
  match it.loads text with
  | .ok (.dict _) => .ok true
  | .ok _ => .ok false
  | .error (.decode _) => .ok false
  | .error fault => .error fault

/-- `_looks_like_experiment(json.loads(text))`. -/
def looksLikeExperiment (text : Text) : Bool :=
  match it.loads text with
  | .ok (.dict obj) => (Dict.get? obj "hypothesis").isSome && (Dict.get? obj "patches").isSome
  | _ => false

/-- The clean path on a text. -/
def cleanPath (text : Text) : Except Fault (Option Text) := do
  let cleaned := (stripFences text).strip
  if cleaned ≠ [] then
    if ← isObject it cleaned then
      return some cleaned
  return none

/-- The candidates that are objects. -/
def objectsAmong : List Text → Except Fault (List Text)
  | [] => .ok []
  | candidate :: rest => do
      let found ← isObject it candidate
      let objects ← objectsAmong rest
      return if found then candidate :: objects else objects

/-- The first candidate that is shaped like an experiment, or else the first object. -/
def preferred (candidates : List Text) : Except Fault (Option Text) := do
  let objects ← objectsAmong it candidates
  return (objects.find? (looksLikeExperiment it)).or objects.head?

/-- `extract_json_object`. -/
def extractJsonObject (text : Text) : Except Fault (Option Text) := do
  if let some found ← cleanPath it text then
    return some found
  let dethought := stripReasoningWrappers text
  if dethought ≠ text then
    if let some found ← cleanPath it dethought then
      return some found
  let bodies := (anyFences dethought.length dethought).map Text.strip
  if let some found ← preferred it (bodies.filter (· ≠ [])) then
    return some found
  if let some found ← preferred it (scanBraceObjects dethought) then
    return some found
  preferred it (scanAnchored dethought.length dethought)

end Zicato.Proposal
