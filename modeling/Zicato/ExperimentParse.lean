import Zicato.JsonSchema
import Zicato.PyExcept
import Zicato.ResponseText

/-! # Experiments from responses

`parse_patch_list` and `parse_experiment_json` of `proposer/structured.py`: what a proposer has
answered, checked against the schema and the mutation manifest. -/
namespace Zicato.Proposal

/-- What the parser reads of a `MutationPoint`. -/
structure MutationPoint where
  id : String
  metadata : Dict String String

/-- `PatchOpKind`. -/
inductive PatchOpKind
  | replace
  | setNumeric
  | setEnum
  deriving DecidableEq, Repr

/-- `Patch`. -/
structure Patch (F : Type) where
  id : String
  mutationId : String
  op : PatchOpKind
  newContent : Option String
  newNumeric : Option F
  newEnum : Option String
  rationale : String

/-- `ExpectedMetricMovement`. -/
structure ExpectedMetricMovement where
  metricName : String
  direction : String
  magnitude : String

/-- `HypothesisSpec`. -/
structure HypothesisSpec where
  coreIdea : String
  modulating : List String
  why : String
  expectedPassRateDelta : String
  risks : String
  expectedMetricMovements : List ExpectedMetricMovement

/-- `Experiment`, as it is proposed. -/
structure Experiment (F : Type) where
  id : String
  epochId : String
  generationId : String
  parentGenerationId : String
  proposedAt : String
  hypothesis : HypothesisSpec
  patches : List (Patch F)

/-! ## The schema -/

/-- `_DIRECTION_ENUM`. -/
def DIRECTION_ENUM : List String :=
  ["decrease", "increase", "neutral", "decrease_or_neutral", "increase_or_neutral"]

/-- `_MAGNITUDE_ENUM`. -/
def MAGNITUDE_ENUM : List String := ["small", "medium", "large"]

/-- The schema of a predicted movement. -/
def movementSchema : JsonSchema :=
  .object ["metric_name", "direction", "magnitude"]
    [("metric_name", .string 1), ("direction", .enum DIRECTION_ENUM),
      ("magnitude", .enum MAGNITUDE_ENUM)] false

/-- The schema of a hypothesis. -/
def hypothesisSchema : JsonSchema :=
  .object
    ["core_idea", "modulating", "why", "expected_pass_rate_delta", "expected_metric_movements"]
    [("core_idea", .string 1), ("modulating", .array (.string 1) 1), ("why", .string 1),
      ("expected_metric_movements", .array movementSchema 1),
      ("expected_pass_rate_delta", .string 1), ("risks", .string 0)] false

/-- The schema of a patch. -/
def patchSchema : JsonSchema :=
  .object ["mutation_id", "op", "rationale"]
    [("mutation_id", .string 1), ("op", .enum ["replace", "set_numeric", "set_enum"]),
      ("new_content", .string 0), ("new_numeric", .number), ("new_enum", .string 0),
      ("rationale", .string 1)] true

/-- `PATCHES_JSON_SCHEMA`. -/
def PATCHES_JSON_SCHEMA : JsonSchema := .array patchSchema 1

/-- `EXPERIMENT_JSON_SCHEMA`. -/
def EXPERIMENT_JSON_SCHEMA : JsonSchema :=
  .object ["hypothesis", "patches"]
    [("hypothesis", hypothesisSchema), ("patches", PATCHES_JSON_SCHEMA)] true

/-- `GOLDFIVE_DRIFT_KINDS`. -/
def GOLDFIVE_DRIFT_KINDS : List String :=
  ["tool_error", "agent_refusal", "new_work_discovered", "plan_divergence", "user_steer",
    "user_cancel", "user_pause", "task_failed_recoverable", "task_failed_fatal",
    "context_pressure", "blocked", "wrong_agent", "agent_transfer", "model_refusal",
    "stopped_early", "too_many_steps", "goal_unreachable", "task_timeout", "repeated_failure",
    "unexpected_output", "schema_violation", "hallucination_suspected", "safety_concern",
    "resource_exhausted", "ambiguous_intent", "custom", "looping_tool_call", "looping_reasoning",
    "reasoning_cluster_tightening", "off_topic", "intent_divergence", "uncertain_progress",
    "self_reported_stuck", "confabulation_risk", "runaway_delegation", "refine_validation_failed",
    "goal_drift", "human_intervention_required", "llm_call_timeout", "justified_deviation",
    "capability_mismatch"]

/-! ## Reading -/

variable {F : Type}

/-- An `ExperimentParseError`. -/
def refuse {α : Type} (message : String) : Except Fault α := .error (.parse message)

/-- An `ExperimentParseError` under a condition. -/
def refuseIf (condition : Prop) [Decidable condition] (message : String) : Except Fault Unit :=
  if condition then refuse message else .ok ()

/-- `fields[key]`. -/
def item (fields : Dict String (PyValue F)) (key : String) : Except Fault (PyValue F) :=
  match Dict.get? fields key with
  | some v => .ok v
  | none => .error .other

/-- `fields[key]` where the schema has a string; another value is not followed further. -/
def text (fields : Dict String (PyValue F)) (key : String) : Except Fault String := do
  match ← item fields key with
  | .str s => .ok s
  | _ => .error .other

/-- The items of `fields[key]` where the schema has an array. -/
def items (fields : Dict String (PyValue F)) (key : String) : Except Fault (List (PyValue F)) := do
  match ← item fields key with
  | .list values => .ok values
  | _ => .error .other

/-- A value where the schema has an object. -/
def object : PyValue F → Except Fault (Dict String (PyValue F))
  | .dict fields => .ok fields
  | _ => .error .other

variable [PyFloat F] (it : Interp F)

/-- `float(v)` of a number; an integer beyond the range of floats raises an `OverflowError`. -/
def toFloat : PyValue F → Except Fault F
  | .int n =>
      match PyFloat.ofInt n with
      | some x => .ok x
      | none => .error .other
  | .float x => .ok x
  | _ => .error .other

/-! ## Patches -/

/-- The start of a patch's errors. -/
def patchLabel (idx : Nat) : String := "patch[" ++ toString idx ++ "]: "

/-- The field may not be set beside the one that the operation takes. -/
def mustNotSet (patch : Dict String (PyValue F)) (idx : Nat) (op field : String) :
    Except Fault Unit :=
  refuseIf (Dict.get? patch field ≠ none)
    (patchLabel idx ++ "op='" ++ op ++ "' must not set '" ++ field ++ "'")

/-- The field is a string that is not empty. -/
def requireText (patch : Dict String (PyValue F)) (idx : Nat) (op field : String) :
    Except Fault Unit :=
  match Dict.get? patch field with
  | some (.str s) =>
      refuseIf (s = "")
        (patchLabel idx ++ "op='" ++ op ++ "' requires '" ++ field ++ "' to be non-empty")
  | _ =>
      refuse (patchLabel idx ++ "op='" ++ op ++ "' requires a non-empty string '" ++ field ++
        "' field")

/-- `_validate_op_fields`; the operation, if it is one. -/
def validateOpFields (patch : Dict String (PyValue F)) (idx : Nat) : Except Fault PatchOpKind := do
  let op ← text patch "op"
  if op = "replace" then
    requireText patch idx op "new_content"
    mustNotSet patch idx op "new_numeric"
    mustNotSet patch idx op "new_enum"
    return .replace
  else if op = "set_numeric" then
    refuseIf (Dict.get? patch "new_numeric" = none)
      (patchLabel idx ++ "op='set_numeric' requires a numeric 'new_numeric' field")
    mustNotSet patch idx op "new_content"
    mustNotSet patch idx op "new_enum"
    return .setNumeric
  else if op = "set_enum" then
    requireText patch idx op "new_enum"
    mustNotSet patch idx op "new_content"
    mustNotSet patch idx op "new_numeric"
    return .setEnum
  else refuse (patchLabel idx ++ "unknown op " ++ it.repr op)

/-- A bound that the metadata declare; one that is no number is none. -/
def bound (point : MutationPoint) (name : String) : Option F :=
  (Dict.get? point.metadata name).bind it.float

/-- A bound, if there is one, is not violated. -/
def against (limit : Option F) (violated : F → Bool) (message : F → String) : Except Fault Unit :=
  match limit with
  | some limit => refuseIf (violated limit = true) (message limit)
  | none => .ok ()

/-- `_validate_numeric_range`. -/
def validateNumericRange (patch : Dict String (PyValue F)) (point : MutationPoint) (idx : Nat) :
    Except Fault Unit := do
  let value ← toFloat (← item patch "new_numeric")
  against (bound it point "min") (fun lo => PyFloat.lt value lo) fun lo =>
    patchLabel idx ++ "new_numeric=" ++ it.str value ++ " below min=" ++ it.str lo ++
      " for mutation " ++ it.repr point.id
  against (bound it point "max") (fun hi => PyFloat.lt hi value) fun hi =>
    patchLabel idx ++ "new_numeric=" ++ it.str value ++ " above max=" ++ it.str hi ++
      " for mutation " ++ it.repr point.id

/-- The members of the domain that the metadata declare. -/
def enumDomain (point : MutationPoint) : List String :=
  match Dict.get? point.metadata "enum" with
  | some raw =>
      ((Lines.split ',' raw.toList).map fun tok => String.ofList (Text.strip tok)).filter (· ≠ "")
  | none => []

/-- `_validate_enum_domain`; an empty domain is open. -/
def validateEnumDomain (patch : Dict String (PyValue F)) (point : MutationPoint) (idx : Nat) :
    Except Fault Unit := do
  let domain := enumDomain point
  let value ← text patch "new_enum"
  refuseIf (domain ≠ [] ∧ value ∉ domain)
    (patchLabel idx ++ "new_enum=" ++ it.repr value ++ " not in declared enum domain [" ++
      ", ".intercalate ((domain.dedup.mergeSort (· ≤ ·)).map it.repr) ++ "] for mutation " ++
      it.repr point.id)

/-- The operation's own check. -/
def validatePayload (patch : Dict String (PyValue F)) (point : MutationPoint) (idx : Nat) :
    PatchOpKind → Except Fault Unit
  | .replace => .ok ()
  | .setNumeric => validateNumericRange it patch point idx
  | .setEnum => validateEnumDomain it patch point idx

/-- `patch.get(field)` of a text. -/
def textOf (patch : Dict String (PyValue F)) (field : String) : Option String :=
  (Dict.get? patch field).bind PyValue.str?

/-- One turn of the loop of `parse_patch_list`. -/
def parsePatch (mutationsById : Dict String MutationPoint) (idx : Nat) (raw : PyValue F) :
    Except Fault (Patch F) := do
  let patch ← object raw
  let mutationId ← text patch "mutation_id"
  match Dict.get? mutationsById mutationId with
  | none =>
      refuse (patchLabel idx ++ "unknown mutation_id " ++ it.repr mutationId ++
        " (must match an id from the supplied mutation manifest)")
  | some point =>
      let op ← validateOpFields it patch idx
      validatePayload it patch point idx op
      let newNumeric ←
        if op = .setNumeric then some <$> (toFloat =<< item patch "new_numeric") else pure none
      let rationale ← text patch "rationale"
      return {
        id := it.uuid idx
        mutationId := mutationId
        op := op
        newContent := if op = .replace then textOf patch "new_content" else none
        newNumeric := newNumeric
        newEnum := if op = .setEnum then textOf patch "new_enum" else none
        rationale := rationale }

/-- `parse_patch_list`, from the patch with the index `idx` on. -/
def parsePatchList (mutationsById : Dict String MutationPoint) :
    Nat → List (PyValue F) → Except Fault (List (Patch F))
  | _, [] => .ok []
  | idx, raw :: rest => do
      let patch ← parsePatch it mutationsById idx raw
      let patches ← parsePatchList mutationsById (idx + 1) rest
      return patch :: patches

/-! ## Experiments -/

/-- The checks on the name of a metric. -/
def validateMetricName (judgeNames : List String) (metricName : String) : Except Fault Unit := do
  let space := metricName.toList.takeWhile (· ≠ ':')
  let name := (metricName.toList.dropWhile (· ≠ ':')).tail
  -- Without a separator the name is empty too.
  refuseIf (name = [])
    ("metric_name " ++ it.repr metricName ++ " must name a namespace and metric")
  refuseIf (space = "custom".toList) "board judge predictions use judge:<name>"
  refuseIf (space = "drift".toList ∧ String.ofList name ∉ GOLDFIVE_DRIFT_KINDS)
    ("unknown drift kind " ++ it.repr (String.ofList name) ++ " in metric_name " ++
      it.repr metricName)
  refuseIf (space = "judge".toList ∧ String.ofList name ∉ judgeNames)
    ("unknown board judge " ++ it.repr (String.ofList name) ++ " in metric_name " ++
      it.repr metricName)

/-- One movement; the keyword arguments are the fields of the class. -/
def parseMovement (judgeNames : List String) (raw : PyValue F) :
    Except Fault ExpectedMetricMovement := do
  let mv ← object raw
  let metricName ← text mv "metric_name"
  validateMetricName it judgeNames metricName
  require ((Dict.keys mv).all (["metric_name", "direction", "magnitude"].contains ·)) .other
  let direction ← text mv "direction"
  let magnitude ← text mv "magnitude"
  return ⟨metricName, direction, magnitude⟩

/-- One id that the hypothesis names. -/
def parseModulating (mutationsById : Dict String MutationPoint) (raw : PyValue F) :
    Except Fault String := do
  match raw with
  | .str ident =>
      refuseIf (Dict.get? mutationsById ident = none)
        ("hypothesis.modulating: id " ++ it.repr ident ++
          " does not match any known mutation point")
      return ident
  | _ => .error .other

/-- The hypothesis of a document. -/
def parseHypothesis (mutationsById : Dict String MutationPoint) (judgeNames : List String)
    (hyp : Dict String (PyValue F)) : Except Fault HypothesisSpec := do
  let movements ← (← items hyp "expected_metric_movements").mapM (parseMovement it judgeNames)
  let modulating ← (← items hyp "modulating").mapM (parseModulating it mutationsById)
  let coreIdea ← text hyp "core_idea"
  let why ← text hyp "why"
  let expectedPassRateDelta ← text hyp "expected_pass_rate_delta"
  return {
    coreIdea := coreIdea
    modulating := modulating
    why := why
    expectedPassRateDelta := expectedPassRateDelta
    risks := (textOf hyp "risks").getD ""
    expectedMetricMovements := movements }

/-- The document, once it is decoded. -/
def parseDocument (epochId parentGen newGen : String) (mutationsById : Dict String MutationPoint)
    (judgeNames : List String) (data : PyValue F) : Except Fault (Experiment F) := do
  refuseIf (EXPERIMENT_JSON_SCHEMA.accepts data = false) (it.violation data)
  let fields ← object data
  let hyp ← object (← item fields "hypothesis")
  let hypothesis ← parseHypothesis it mutationsById judgeNames hyp
  let patches ← parsePatchList it mutationsById 0 (← items fields "patches")
  return {
    id := "exp_" ++ epochId ++ "_" ++ newGen
    epochId := epochId
    generationId := newGen
    parentGenerationId := parentGen
    proposedAt := it.now
    hypothesis := hypothesis
    patches := patches }

/-- `parse_experiment_json`. -/
def parseExperimentJson (responseText : Text) (epochId parentGen newGen : String)
    (mutationsById : Dict String MutationPoint) (judgeNames : List String) :
    Except Fault (Experiment F) := do
  refuseIf (responseText.strip = [])
    "empty response: expected a JSON object with 'hypothesis' and 'patches' keys"
  match ← extractJsonObject it responseText with
  | none =>
      refuse ("could not extract a JSON object from the response: expected a single JSON " ++
        "object with 'hypothesis' and 'patches' keys (no markdown fences, no " ++
        "<think> reasoning, no surrounding prose)")
  | some candidate =>
      match it.loads candidate with
      | .error (.decode message) =>
          refuse ("response is not valid JSON: " ++ message ++ it.place candidate)
      | .error fault => .error fault
      | .ok data => parseDocument it epochId parentGen newGen mutationsById judgeNames data

end Zicato.Proposal
