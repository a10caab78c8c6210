import Zicato.PySort
import Zicato.PyText
import Zicato.PyValue
import Zicato.Scoring

/-! # Event logs

`zicato/telemetry/event_log.py` and `json_lines.py`, and the walk of
`zicato/telemetry/reducer.py` over the records.  A line is written by the program
under test, so every value it may hold is a `PyValue`, and a conversion that raises
is an error here too. -/
namespace Zicato.Events

/-- What the conversions of the reader raise. -/
inductive Raised
  | valueError
  | typeError
  | overflowError
  | recursionError
  deriving DecidableEq, Repr

/-- How `json.loads` fails: a `JSONDecodeError`, or an integer with too many digits and
nesting that is too deep. -/
inductive Unread
  | decode
  | raised (e : Raised)
  deriving DecidableEq, Repr

/-- What the reader uses of the interpreter. -/
structure Interp (F : Type) where
  loads : Text → Except Unread (PyValue F)
  /-- `int(text)`, if it does not raise. -/
  int : Text → Option Int
  /-- `seconds + nanos / 1_000_000_000`, if it is within the range of a float. -/
  total : Int → Int → Option F
  /-- The moment in UTC, if `fromtimestamp` accepts it. -/
  isoformat : F → Option String
  /-- The calls of `snake_deep` that the stack has room for. -/
  stack : Nat
  /-- `str(value)` of what is not a string. -/
  str : PyValue F → String
  lower : String → String

variable {F : Type}

/-! ## The casing rule -/

/-- `to_snake` after a character that is, or is not, a lowercase letter or a digit. -/
def toSnakeFrom : Bool → Text → Text
  | _, [] => []
  | prev, c :: rest =>
      if c.isUpper then
        if prev then '_' :: c.toLower :: toSnakeFrom false rest
        else c.toLower :: toSnakeFrom false rest
      else c :: toSnakeFrom (c.isLower || c.isDigit) rest

/-- `to_snake`. -/
def toSnake (name : String) : String := String.ofList (toSnakeFrom false name.toList)

mutual
/-- `snake_deep`; of two keys that become one the later value stands. -/
def snakeDeep : PyValue F → PyValue F
  | .none => .none
  | .bool b => .bool b
  | .int n => .int n
  | .float x => .float x
  | .str s => .str s
  | .list items => .list (snakeItems items)
  | .dict fields => .dict (Dict.writes Prod.fst Prod.snd (snakeFields fields) [])

/-- `snakeDeep` of every item. -/
def snakeItems : List (PyValue F) → List (PyValue F)
  | [] => []
  | v :: rest => snakeDeep v :: snakeItems rest

/-- `snakeDeep` of every value, under keys in `snake_case`. -/
def snakeFields : List (String × PyValue F) → List (String × PyValue F)
  | [] => []
  | (k, v) :: rest => (toSnake k, snakeDeep v) :: snakeFields rest
end

mutual
/-- The calls of `snake_deep` that are open at once. -/
def depth : PyValue F → Nat
  | .list items => 1 + depthItems items
  | .dict fields => 1 + depthFields fields
  | _ => 1

/-- The depth of the deepest item. -/
def depthItems : List (PyValue F) → Nat
  | [] => 0
  | v :: rest => max (depth v) (depthItems rest)

/-- The depth of the deepest value. -/
def depthFields : List (String × PyValue F) → Nat
  | [] => 0
  | (_, v) :: rest => max (depth v) (depthFields rest)
end

/-- `snake_deep` of an object. -/
def snakeDict (fields : Dict String (PyValue F)) : Dict String (PyValue F) :=
  Dict.writes Prod.fst Prod.snd (snakeFields fields) []

/-! ## The envelope -/

/-- `ENVELOPE_KEYS`. -/
def ENVELOPE_KEYS : List String :=
  ["emitted_at", "event_id", "kind", "payload", "run_id", "seq", "sequence", "session_id"]

/-- `EventRecord`. -/
structure EventRecord (F : Type) where
  case : String := ""
  payload : Dict String (PyValue F) := []
  runId : String := ""
  sessionId : String := ""
  eventId : String := ""
  sequence : Option Int := none
  emittedAt : Option String := none
  raw : Dict String (PyValue F) := []

/-- `_string_field`. -/
def stringField (event : Dict String (PyValue F)) (name : String) : String :=
  match Dict.get? event name with
  | some (.str s) => s
  | _ => ""

/-- A key whose value is null reads as one that is missing. -/
def given? (event : Dict String (PyValue F)) (name : String) : Option (PyValue F) :=
  match Dict.get? event name with
  | some .none => none
  | v => v

section Records

variable [PyArith F] (it : Interp F)

/-- `_sequence_of`. -/
def sequenceOf (event : Dict String (PyValue F)) : Option Int :=
  match (given? event "sequence").or (Dict.get? event "seq") with
  | some (.int n) => some n
  | some (.str s) => it.int (Text.strip s.toList)
  | _ => none

/-- `isinstance(value, int | float | str)`. -/
def isNumberOrStr : PyValue F → Bool
  | .bool _ | .int _ | .float _ | .str _ => true
  | _ => false

/-- `int(value)`. -/
def intOf : PyValue F → Except Raised Int
  | .int n => .ok n
  | .bool b => .ok (if b then 1 else 0)
  | .float x =>
      if PyFloat.isfinite x then .ok (PyArith.trunc x)
      else if PyFloat.eq x x then .error .overflowError
      else .error .valueError
  | .str s =>
      match it.int s.toList with
      | some n => .ok n
      | none => .error .valueError
  | _ => .error .typeError

/-- The seconds since the epoch of a proto timestamp. -/
def totalOf (seconds nanos : PyValue F) : Except Raised F := do
  let s ← intOf it seconds
  let n ← intOf it nanos
  match it.total s n with
  | some t => .ok t
  | none => .error .overflowError

/-- `_emitted_at_of`; it catches a `TypeError` and a `ValueError`. -/
def emittedAtOf (event : Dict String (PyValue F)) : Except Raised (Option String) :=
  match Dict.get? event "emitted_at" with
  | some (.str s) => .ok (if s = "" then none else some s)
  | some (.dict raw) =>
      let seconds := Dict.getD raw "seconds" (.int 0)
      let nanos := Dict.getD raw "nanos" (.int 0)
      if isNumberOrStr seconds then
        match totalOf it seconds (if isNumberOrStr nanos then nanos else .int 0) with
        | .ok t => .ok (it.isoformat t)
        | .error .typeError => .ok none
        | .error .valueError => .ok none
        | .error e => .error e
      else .ok none
  | _ => .ok none

/-- The first field outside the envelope that holds an object. -/
def payloadField : Dict String (PyValue F) → String × Dict String (PyValue F)
  | [] => ("", [])
  | (key, .dict value) :: rest =>
      if ENVELOPE_KEYS.contains key then payloadField rest else (key, value)
  | _ :: rest => payloadField rest

/-- `_case_and_payload`. -/
def caseAndPayload (event : Dict String (PyValue F)) : String × Dict String (PyValue F) :=
  match Dict.get? event "kind" with
  | some (.str kind) =>
      if kind = "" then payloadField event
      else
        (toSnake kind,
          match Dict.get? event "payload" with
          | some (.dict payload) => payload
          | _ => [])
  | _ => payloadField event

/-- The record of a line whose keys are snake case already. -/
def recordOf (event : Dict String (PyValue F)) : Except Raised (EventRecord F) := do
  let emittedAt ← emittedAtOf it event
  .ok {
    case := (caseAndPayload event).1
    payload := (caseAndPayload event).2
    runId := stringField event "run_id"
    sessionId := stringField event "session_id"
    eventId := stringField event "event_id"
    sequence := sequenceOf it event
    emittedAt := emittedAt
    raw := event }

/-- `parse_event`. -/
def parseEvent (obj : Dict String (PyValue F)) : Except Raised (EventRecord F) :=
  if it.stack < depth (.dict obj) then .error .recursionError else recordOf it (snakeDict obj)

/-! ## Reading the lines -/

/-- What `read_json_lines` returns. -/
structure Log (α : Type) where
  records : List α := []
  malformedLineCount : Nat := 0
  lastLineOk : Bool := true

variable {α : Type} (decode : Dict String (PyValue F) → Except Raised (Option α))

/-- The record of a line that is not blank. -/
def readLine (line : Text) : Except Raised (Option α) :=
  match it.loads line with
  | .ok (.dict body) => decode body
  | .ok _ => .ok none
  | .error .decode => .ok none
  | .error (.raised e) => .error e

/-- One turn of the loop of `read_json_lines`. -/
def readStep (log : Log α) (line : Text) : Except Raised (Log α) :=
  if Text.strip line = [] then .ok log
  else do
    match ← readLine it decode line with
    | some record => .ok ⟨log.records ++ [record], log.malformedLineCount, true⟩
    | none => .ok ⟨log.records, log.malformedLineCount + 1, false⟩

/-- The lines of a file as text mode reads it. -/
def fileLines (content : Text) : List Text := Text.splitLines (Text.universalNewlines content)

/-- `read_json_lines`; the file may be missing. -/
def readJsonLines (content : Option Text) : Except Raised (Log α) :=
  match content with
  | none => .ok {}
  | some content => (fileLines content).foldlM (readStep it decode) {}

end Records

/-- `read_event_log`. -/
def readEventLog [PyArith F] (it : Interp F) (content : Option Text) :
    Except Raised (Log (EventRecord F)) :=
  readJsonLines it (fun obj => (parseEvent it obj).map some) content

/-! ## The goldfive signals -/

/-- The wire string of a severity. -/
def severityValue : Scoring.MetricSeverity → String
  | .info => "info"
  | .warning => "warning"
  | .critical => "critical"
  | .none => ""

/-- `_DRIFT_KIND_INT_TO_STR`. -/
def DRIFT_KIND_INT_TO_STR : Dict Int String :=
  [(1, "tool_error"), (2, "agent_refusal"), (3, "new_work_discovered"), (4, "plan_divergence"),
    (5, "user_steer"), (6, "user_cancel"), (7, "task_failed_recoverable"),
    (8, "task_failed_fatal"), (9, "context_pressure"), (10, "blocked"), (11, "wrong_agent"),
    (12, "agent_transfer"), (13, "model_refusal"), (14, "stopped_early"), (15, "too_many_steps"),
    (16, "goal_unreachable"), (17, "task_timeout"), (18, "repeated_failure"),
    (19, "unexpected_output"), (20, "schema_violation"), (21, "hallucination_suspected"),
    (22, "safety_concern"), (23, "resource_exhausted"), (24, "ambiguous_intent"), (25, "custom"),
    (26, "looping_tool_call"), (27, "looping_reasoning"), (29, "off_topic"),
    (30, "intent_divergence"), (31, "uncertain_progress"), (32, "self_reported_stuck"),
    (33, "reasoning_cluster_tightening"), (34, "confabulation_risk"), (35, "runaway_delegation"),
    (36, "refine_validation_failed"), (37, "human_intervention_required"), (38, "goal_drift"),
    (39, "llm_call_timeout"), (40, "justified_deviation"), (41, "capability_mismatch")]

/-- `_DRIFT_SEVERITY_INT_TO_STR`. -/
def DRIFT_SEVERITY_INT_TO_STR : Dict Int Scoring.MetricSeverity :=
  [(1, .info), (2, .warning), (3, .critical)]

/-- `_CUSTOM_DRIFT_KIND`. -/
def CUSTOM_DRIFT_KIND : String := "custom"

/-- `_JUDGE_KIND_SEP`. -/
def JUDGE_KIND_SEP : String := ":"

/-- `_judge_attributed_kind`. -/
def judgeAttributedKind (judgeName : String) : String :=
  let name := Text.strip judgeName.toList
  if name = [] then CUSTOM_DRIFT_KIND
  else CUSTOM_DRIFT_KIND ++ JUDGE_KIND_SEP ++ String.ofList name

/-- The severity a word names. -/
def severityOf? (s : String) : Option Scoring.MetricSeverity :=
  if s = "info" then some .info
  else if s = "warning" then some .warning
  else if s = "critical" then some .critical
  else none

/-- `DialectSignals`, without what the goldfive dialect leaves at its default. -/
structure DialectSignals (F : Type) where
  metricCounts : List Scoring.MetricCount
  planRevisions : Nat
  taskStarted : Nat
  taskFailed : Nat
  llmCallCount : Nat
  tokenCount : Int
  agentTextChars : Nat
  runId : String
  adkSessionId : String
  agentTurns : List (PyValue F)
  userTurns : List (PyValue F)

/-- The variables of the walk of `_goldfive_signals`. -/
structure Walk where
  driftBucket : Dict (String × Scoring.MetricSeverity) Nat := []
  planRevisions : Nat := 0
  taskStarted : Nat := 0
  taskFailed : Nat := 0
  llmCallCount : Nat := 0
  tokenCount : Int := 0
  agentTextChars : Nat := 0
  runId : String := ""
  adkSessionId : String := ""
  pendingJudgeName : Option String := none

section Signals

variable [PyArith F] (it : Interp F)

/-- `normalize_wire_drift_kind` of a string. -/
def normalizeDriftKind (raw : String) : Option String :=
  if raw = "" then none
  else
    match Text.after? "DRIFT_KIND_" raw.toList with
    | some suffix =>
        let suffix := it.lower (String.ofList suffix)
        if suffix = "" ∨ suffix = "unspecified" then none else some suffix
    | none => some (it.lower raw)

/-- `normalize_wire_severity` of a string. -/
def normalizeSeverity (raw : String) : Option Scoring.MetricSeverity :=
  if raw = "" then none
  else
    match Text.after? "DRIFT_SEVERITY_" raw.toList with
    | some suffix => severityOf? (it.lower (String.ofList suffix))
    | none => severityOf? (it.lower raw)

/-- The integer, where `isinstance(value, int)`. -/
def asInt : PyValue F → Option Int
  | .int n => some n
  | .bool b => some (if b then 1 else 0)
  | _ => none

/-- `str` of a value. -/
def strOf : PyValue F → String
  | .str s => s
  | v => it.str v

/-- `bool(value)`. -/
def truthy : PyValue F → Bool
  | .none => false
  | .bool b => b
  | .int n => n != 0
  | .float x => !PyFloat.eq x PyFloat.zero
  | .str s => s != ""
  | .list items => !items.isEmpty
  | .dict fields => !fields.isEmpty

/-- `str(payload.get(name, "") or "")`. -/
def textOr (payload : Dict String (PyValue F)) (name : String) : String :=
  let v := Dict.getD payload name (.str "")
  if truthy v then strOf it v else ""

/-- `_extract_drift_buckets`. -/
def extractDriftBuckets (payload : Dict String (PyValue F)) :
    Option String × Option Scoring.MetricSeverity :=
  let rawKind := Dict.getD payload "kind" (.str "")
  let rawSev := Dict.getD payload "severity" (.str "")
  (match asInt rawKind with
    | some n => Dict.get? DRIFT_KIND_INT_TO_STR n
    | none => normalizeDriftKind it (strOf it rawKind),
    match asInt rawSev with
    | some n => Dict.get? DRIFT_SEVERITY_INT_TO_STR n
    | none => normalizeSeverity it (strOf it rawSev))

/-- `_judgement_judge_name`. -/
def judgementJudgeName (payload : Dict String (PyValue F)) : Option String :=
  if textOr it payload "verdict_kind" = "drift" then some (textOr it payload "judge_name") else none

/-- The extension fields that carry token counts. -/
def TOKEN_KEYS : List String := ["input_tokens", "output_tokens", "tokens", "total_tokens"]

/-- `isinstance(value, int | float)`. -/
def isNumber : PyValue F → Bool
  | .bool _ | .int _ | .float _ => true
  | _ => false

/-- `token_count += int(v)` for one of the fields. -/
def addTokens (payload : Dict String (PyValue F)) (count : Int) (name : String) :
    Except Raised Int :=
  match Dict.get? payload name with
  | some v => if isNumber v then (intOf it v).map (count + ·) else .ok count
  | none => .ok count

/-- The length of a field that is a string. -/
def textLength (payload : Dict String (PyValue F)) (name : String) : Nat :=
  match Dict.get? payload name with
  | some (.str s) => s.length
  | _ => 0

/-- The bucket of a drift event: its kind, with the judge it is attributed to, and its
severity. -/
def driftKey (pending : Option String) (payload : Dict String (PyValue F)) :
    Option (String × Scoring.MetricSeverity) :=
  match extractDriftBuckets it payload with
  | (some kind, some sev) =>
      some (if kind = CUSTOM_DRIFT_KIND then judgeAttributedKind (pending.getD "") else kind, sev)
  | _ => none

/-- The branches of the walk, on the case of the event. -/
def walkCase (w : Walk) (evt : EventRecord F) : Except Raised Walk :=
  if evt.case = "judgement_emitted" then
    match judgementJudgeName it evt.payload with
    | some name => .ok { w with pendingJudgeName := some name }
    | none => .ok w
  else if evt.case = "drift_detected" then
    match driftKey it w.pendingJudgeName evt.payload with
    | some key =>
        .ok { w with
          driftBucket := Dict.set w.driftBucket key (Dict.getD w.driftBucket key 0 + 1)
          pendingJudgeName := none }
    | none => .ok { w with pendingJudgeName := none }
  else if evt.case = "plan_revised" then .ok { w with planRevisions := w.planRevisions + 1 }
  else if evt.case = "task_started" then .ok { w with taskStarted := w.taskStarted + 1 }
  else if evt.case = "task_failed" then .ok { w with taskFailed := w.taskFailed + 1 }
  else if evt.case = "goldfive_llm_call_end" then do
    let tokens ← TOKEN_KEYS.foldlM (addTokens it evt.payload) w.tokenCount
    .ok { w with llmCallCount := w.llmCallCount + 1, tokenCount := tokens }
  else if evt.case = "agent_invocation_completed" ∨ evt.case = "task_completed" then
    .ok { w with agentTextChars := w.agentTextChars + textLength evt.payload "summary" }
  else .ok w

/-- One turn of the walk. -/
def walkStep (w : Walk) (evt : EventRecord F) : Except Raised Walk :=
  walkCase it
    { w with
      runId := if w.runId = "" then evt.runId else w.runId
      adkSessionId := if w.adkSessionId = "" then evt.sessionId else w.adkSessionId } evt

/-- `sorted(drift_bucket.items())`, the keys being distinct. -/
def bucketLt (a b : (String × Scoring.MetricSeverity) × Nat) : Bool :=
  thenLt (decide (a.1.1 = b.1.1)) (decide (a.1.1 < b.1.1))
    (decide (severityValue a.1.2 < severityValue b.1.2))

/-- The drift metrics of the buckets. -/
def driftMetrics (bucket : Dict (String × Scoring.MetricSeverity) Nat) :
    List Scoring.MetricCount :=
  (sorted bucketLt bucket).map fun e =>
    { name := "drift:" ++ e.1.1, severity := e.1.2, count := (e.2 : ℚ) }

/-- A field that is appended where it is true. -/
def turnOf (payload : Dict String (PyValue F)) (name : String) : List (PyValue F) :=
  let s := Dict.getD payload name (.str "")
  if truthy s then [s] else []

/-- `_agent_and_user_turns_from_events`: the agent's turns. -/
def agentTurnsOf (evt : EventRecord F) : List (PyValue F) :=
  if evt.case = "agent_invocation_completed" ∨ evt.case = "task_completed" then
    turnOf evt.payload "summary"
  else if evt.case = "run_completed" then turnOf evt.payload "outcome_summary"
  else []

/-- `_agent_and_user_turns_from_events`: the user's turns. -/
def userTurnsOf (evt : EventRecord F) : List (PyValue F) :=
  if evt.case = "run_started" then turnOf evt.payload "goal_summary" else []

/-- `_goldfive_signals` over the records it reads. -/
def goldfiveSignals (events : List (EventRecord F)) : Except Raised (DialectSignals F) := do
  let w ← events.foldlM (walkStep it) {}
  .ok {
    metricCounts := driftMetrics w.driftBucket
    planRevisions := w.planRevisions
    taskStarted := w.taskStarted
    taskFailed := w.taskFailed
    llmCallCount := w.llmCallCount
    tokenCount := w.tokenCount
    agentTextChars := w.agentTextChars
    runId := w.runId
    adkSessionId := w.adkSessionId
    agentTurns := events.flatMap agentTurnsOf
    userTurns := events.flatMap userTurnsOf }

end Signals

/-- An interpreter that reads no line, for events in lower case. -/
def plainInterp : Interp Exact where
  loads _ := .error .decode
  int _ := none
  total _ _ := none
  isoformat _ := none
  stack := 100
  str _ := ""
  lower := id

end Zicato.Events
