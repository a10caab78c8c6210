import Zicato.DictWrites
import Zicato.PyExcept
import Zicato.PyFloat
import Zicato.PyText
import Zicato.PyValue

/-! # Outcome checks

`zicato/board/matchers.py` and `zicato/board/rubric.py`: the five kinds of expectation
and the result each of them gives.  What a predicate, a scorer or a judge returns is a
value of any shape, and a conversion of it that is not guarded raises. -/
namespace Zicato.Matchers

/-- `ExpectationKind`. -/
inductive ExpectationKind
  | expectedText
  | regex
  | jsonSchema
  | predicate
  | rubric
  deriving DecidableEq, Repr

/-- `Expectation`, without the slice of the run it reads, which the caller selects. -/
structure Expectation where
  kind : ExpectationKind
  spec : String

/-- `ExpectationResult`. -/
structure ExpectationResult (F : Type) where
  kind : ExpectationKind
  passed : Bool
  detail : String := ""
  score : Option F := none
  metrics : Option (Dict String F) := none

/-- What the matchers read of a `RunResult`. -/
structure RunResult where
  finalOutput : String
  transcript : List String

/-- An exception: the name of its type, and its text. -/
structure PyException where
  name : String
  text : String
  deriving DecidableEq, Repr

/-- What a callable returns: a tuple, or a value. -/
inductive Outcome (F : Type)
  | value (v : PyValue F)
  | tuple (items : List (PyValue F))

/-- How `json.loads` fails: a `JSONDecodeError`, or something else. -/
inductive LoadError
  | decode (msg : String)
  | raised (e : PyException)

/-- What `import_dotted_path` gives; it refuses with an `ImportError` or a `ValueError`. -/
inductive Imported (F : Type)
  | callable (call : RunResult → Except PyException (Outcome F))
  | object
  | refused (text : String)
  | raised (e : PyException)

/-- How `re.compile` fails: a `re.error`, or something else. -/
inductive CompileError
  | invalid (text : String)
  | raised (e : PyException)

/-- What `jsonschema.validate` does. -/
inductive Validation
  | valid
  | failed (path : List String) (message : String)
  | badSchema (message : String)
  | raised (e : PyException)

/-- What the awaited judge does. -/
inductive Called (F : Type)
  | returned (v : PyValue F)
  | timeout
  | raised (e : PyException)

/-- How `float(value)` fails. -/
inductive FloatError
  | typeError
  | valueError
  | overflowError
  deriving DecidableEq, Repr

/-- The exception of a failed `float`. -/
def FloatError.raised : FloatError → PyException
  | .typeError => ⟨"TypeError", "float() argument must be a string or a real number"⟩
  | .valueError => ⟨"ValueError", "could not convert string to float"⟩
  | .overflowError => ⟨"OverflowError", "int too large to convert to float"⟩

/-- What the matchers use of the interpreter and of the libraries. -/
structure Env (F : Type) where
  loads : Text → Except LoadError (PyValue F)
  /-- `float(text)`, if it does not raise. -/
  float : String → Option F
  str : PyValue F → String
  repr : PyValue F → String
  importPath : String → Imported F
  /-- `re.compile(spec, re.DOTALL)`; a pattern searches for the span of its match. -/
  compile : String → Except CompileError (String → Option (Nat × Nat))
  /-- `jsonschema.validate(instance, schema)`. -/
  validate : PyValue F → PyValue F → Validation

section Values

variable {F : Type} [PyArith F] (env : Env F)

/-- `float(value)`. -/
def float : PyValue F → Except FloatError F
  | .int n =>
      match PyFloat.ofInt n with
      | some x => .ok x
      | none => .error .overflowError
  | .bool b => .ok (if b then PyArith.lit 1 else PyFloat.zero)
  | .float x => .ok x
  | .str s =>
      match env.float s with
      | some x => .ok x
      | none => .error .valueError
  | _ => .error .typeError

/-- `float(value)` outside every guard. -/
def floatOf (v : PyValue F) : Except PyException F := (float env v).mapError FloatError.raised

/-- `type(value).__name__`. -/
def typeName : PyValue F → String
  | .none => "NoneType"
  | .bool _ => "bool"
  | .int _ => "int"
  | .float _ => "float"
  | .str _ => "str"
  | .list _ => "list"
  | .dict _ => "dict"

/-- The name of the type of an outcome. -/
def Outcome.typeName : Outcome F → String
  | .value v => Matchers.typeName v
  | .tuple _ => "tuple"

/-- `min(1.0, x)`. -/
def minOne (x : F) : F := if PyFloat.lt x (PyArith.lit 1) then x else PyArith.lit 1

/-- `max(0.0, x)`. -/
def maxZero (x : F) : F := if PyFloat.lt PyFloat.zero x then x else PyFloat.zero

/-- The score within its range; a NaN is none. -/
def clamp (x : F) : F := if PyFloat.eq x x then maxZero (minOne x) else PyFloat.zero

/-- A result that fails with a detail. -/
def failing (kind : ExpectationKind) (detail : String) : ExpectationResult F :=
  { kind := kind, passed := false, detail := detail }

/-! ## Predicates and scorers -/

/-- The result of a continuous score. -/
def scoredResult (metrics : Option (Dict String F)) (score : F) : ExpectationResult F where
  kind := .predicate
  passed := PyFloat.lt PyFloat.zero (clamp score)
  detail :=
    if PyFloat.eq score score then "scorer returned " ++ PyFloat.format6 score
    else "scorer returned NaN"
  score := some (clamp score)
  metrics := metrics

/-- The result of a value, with the metrics that came with it. -/
def valueResult (spec : String) (metrics : Option (Dict String F)) (outcome : Outcome F) :
    Except PyException (ExpectationResult F) :=
  match outcome with
  | .value (.bool b) =>
      if metrics.isSome then
        .ok (failing .predicate ("scorer " ++ env.repr (.str spec) ++
          " paired a bool score with metrics; expected a float score"))
      else
        .ok { kind := .predicate, passed := b,
              detail := if b then "" else "predicate returned False" }
  | .value (.int n) => do
      let score ← floatOf env (.int n)
      .ok (scoredResult metrics score)
  | .value (.float x) => .ok (scoredResult metrics x)
  | outcome =>
      .ok (failing .predicate ("predicate " ++ env.repr (.str spec) ++ " returned " ++
        outcome.typeName ++ ", expected bool, float, or (float, metrics)"))

/-- `isinstance(value, int | float)` of what is no `bool`. -/
def isNumber : PyValue F → Bool
  | .int _ | .float _ => true
  | _ => false

/-- One metric of a scorer. -/
def metricOf (e : String × PyValue F) : Except PyException (String × F) := do
  let x ← floatOf env e.2
  .ok (e.1, x)

/-- `_predicate_outcome_to_result`. -/
def predicateOutcomeToResult (spec : String) (outcome : Outcome F) :
    Except PyException (ExpectationResult F) :=
  match outcome with
  | .tuple [rawScore, rawMetrics] =>
      if isNumber rawScore then
        match rawMetrics with
        | .dict fields => do
            let pairs ← fields.mapM (metricOf env)
            valueResult env spec (some (Dict.writes Prod.fst Prod.snd pairs [])) (.value rawScore)
        | _ =>
            .ok (failing .predicate ("scorer " ++ env.repr (.str spec) ++
              " returned a 2-tuple whose second element is " ++ typeName rawMetrics ++
              ", expected a metrics mapping"))
      else
        .ok (failing .predicate ("scorer " ++ env.repr (.str spec) ++
          " returned a 2-tuple whose first element is " ++ typeName rawScore ++
          ", expected a float score"))
  | outcome => valueResult env spec none outcome

/-- `_eval_predicate`. -/
def evalPredicate (spec : String) (result : RunResult) :
    Except PyException (ExpectationResult F) :=
  match env.importPath spec with
  | .refused text => .ok (failing .predicate ("predicate import failed: " ++ text))
  | .raised e => .error e
  | .object =>
      .ok (failing .predicate ("predicate " ++ env.repr (.str spec) ++ " is not callable"))
  | .callable call =>
      match call result with
      | .error e => .ok (failing .predicate ("predicate raised: " ++ e.name ++ ": " ++ e.text))
      | .ok outcome => predicateOutcomeToResult env spec outcome

/-! ## Texts, patterns and schemas -/

/-- `needle in text`. -/
def contains (needle text : Text) : Bool := text.tails.any needle.isPrefixOf

/-- `_eval_expected_text`. -/
def evalExpectedText (spec : String) (result : RunResult) : ExpectationResult F :=
  if spec = "" then failing .expectedText "expected_text spec is empty"
  else
    { kind := .expectedText
      passed := contains spec.toList result.finalOutput.toList
      detail :=
        if contains spec.toList result.finalOutput.toList then ""
        else "expected substring " ++ env.repr (.str spec) ++ " not found in final_output" }

/-- `_eval_regex`. -/
def evalRegex (spec : String) (result : RunResult) : Except PyException (ExpectationResult F) :=
  match env.compile spec with
  | .error (.raised e) => .error e
  | .error (.invalid text) =>
      .ok (failing .regex ("invalid regex " ++ env.repr (.str spec) ++ ": " ++ text))
  | .ok search =>
      match search result.finalOutput with
      | none =>
          .ok (failing .regex ("regex " ++ env.repr (.str spec) ++ " did not match final_output"))
      | some (start, stop) =>
          .ok { kind := .regex, passed := true, detail := s!"matched at [{start}:{stop}]" }

/-- `_eval_json_schema`. -/
def evalJsonSchema (spec : String) (result : RunResult) :
    Except PyException (ExpectationResult F) :=
  match env.loads spec.toList with
  | .error (.raised e) => .error e
  | .error (.decode msg) =>
      .ok (failing .jsonSchema ("schema spec is not valid JSON: " ++ msg))
  | .ok schema =>
      match env.loads result.finalOutput.toList with
      | .error (.raised e) => .error e
      | .error (.decode msg) =>
          .ok (failing .jsonSchema ("final_output is not valid JSON: " ++ msg))
      | .ok payload =>
          match env.validate payload schema with
          | .raised e => .error e
          | .failed path message =>
              let path := "/".intercalate path
              .ok (failing .jsonSchema ("schema validation failed at " ++
                (if path = "" then "<root>" else path) ++ ": " ++ message))
          | .badSchema message =>
              .ok (failing .jsonSchema ("schema is itself invalid: " ++ message))
          | .valid => .ok { kind := .jsonSchema, passed := true }

/-! ## Rubrics -/

/-- `_SYSTEM_PROMPT`. -/
def SYSTEM_PROMPT : String :=
  "You are a rubric judge. The operator-supplied rubric below defines " ++
  "scoring criteria. Read the agent's transcript and produce a JSON object " ++
  "with: score (float), dimensions (dict[name, float]), reasoning (string). " ++
  "Be precise; cite specific transcript lines in reasoning."

/-- `_USER_TEMPLATE.format(...)`. -/
def userPrompt (rubric : PyValue F) (lo hi : F) (transcript : String) : String :=
  "## Rubric\n" ++ env.str rubric ++ "\n\n## Scale\n" ++ env.str (.float lo) ++ " to " ++
    env.str (.float hi) ++ "\n\n## Transcript\n" ++ transcript ++ "\n\nReturn JSON only."

/-- The mark around a block of code. -/
def fence : Text := "```".toList

/-- What follows the first newline of a text. -/
def afterNewline : Text → Option Text
  | [] => none
  | c :: rest => if c = '\n' then some rest else afterNewline rest

/-- The text without the fence that opens it. -/
def openFence (text : Text) : Text :=
  if fence.isPrefixOf text then
    match afterNewline text with
    | some rest => rest
    | none => text.drop 3
  else text

/-- The text without the fence that ends it. -/
def closeFence (text : Text) : Text :=
  if fence.isSuffixOf text then text.take (text.length - 3) else text

/-- `_strip_code_fences`. -/
def stripCodeFences (raw : Text) : Text := (closeFence (openFence raw.strip)).strip

/-- `_select_transcript`. -/
def selectTranscript (result : RunResult) : String :=
  if 1 < result.transcript.length then "\n".intercalate result.transcript else result.finalOutput

/-- One dimension of an answer; what is no number is skipped. -/
def dimensionStep (dimensions : Dict String F) (e : String × PyValue F) :
    Except PyException (Dict String F) :=
  match float env e.2 with
  | .ok x => .ok (Dict.set dimensions e.1 x)
  | .error .overflowError => .error (FloatError.raised .overflowError)
  | .error _ => .ok dimensions

/-- The dimensions of an answer. -/
def dimensionsOf (data : Dict String (PyValue F)) : Except PyException (Dict String F) :=
  match Dict.getD data "dimensions" (.dict []) with
  | .dict fields => fields.foldlM (dimensionStep env) []
  | _ => .ok []

/-- The detail of a graded answer. -/
def gradedDetail (score : F) (dimensions : Dict String F) (reasoning : String) : String :=
  " ".intercalate
    (("score=" ++ PyArith.format ".2f" score) ::
      ((if dimensions.isEmpty then []
        else ["dimensions=[" ++ ", ".intercalate
          (dimensions.map fun e => e.1 ++ "=" ++ PyArith.format ".2f" e.2) ++ "]"]) ++
        (if reasoning = "" then [] else ["reasoning=" ++ reasoning])))

/-- Whether a score passes; without a threshold it is advisory. -/
def passes (threshold : PyValue F) (score : F) : Except FloatError Bool :=
  match threshold with
  | .none => .ok true
  | v => (float env v).map fun t => PyFloat.le t score

/-- The result of an answer with a score. -/
def gradedResult (threshold : PyValue F) (data : Dict String (PyValue F)) (score : F) :
    Except PyException (ExpectationResult F) := do
  let dimensions ← dimensionsOf env data
  match passes env threshold score with
  | .error .overflowError => .error (FloatError.raised .overflowError)
  | .error _ =>
      .ok (failing .rubric ("rubric spec threshold is not a number: " ++ env.repr threshold))
  | .ok passed =>
      .ok { kind := .rubric
            passed := passed
            detail := gradedDetail score dimensions
              (env.str (Dict.getD data "reasoning" (.str ""))) }

/-- The result of what the judge has answered. -/
def answerResult (threshold : PyValue F) (answer : PyValue F) :
    Except PyException (ExpectationResult F) :=
  match answer with
  | .str raw =>
      match env.loads (stripCodeFences raw.toList) with
      | .error (.raised e) => .error e
      | .error (.decode msg) =>
          .ok (failing .rubric ("rubric judge response is not valid JSON: " ++ msg))
      | .ok (.dict data) =>
          match Dict.get? data "score" with
          | none => .ok (failing .rubric "rubric judge response must be \x7b'score': float, ...\x7d")
          | some raw =>
              match float env raw with
              | .error .overflowError => .error (FloatError.raised .overflowError)
              | .error _ =>
                  .ok (failing .rubric ("rubric judge 'score' is not a number: " ++ env.repr raw))
              | .ok score => gradedResult env threshold data score
      | .ok _ => .ok (failing .rubric "rubric judge response must be \x7b'score': float, ...\x7d")
  -- The fences are stripped of whatever the judge returned.
  | v => .error ⟨"AttributeError", "'" ++ typeName v ++ "' object has no attribute 'strip'"⟩

/-- The rubric, the threshold and the scale of a spec; a detail where it has none. -/
def rubricSpec (parsed : PyValue F) : Except String (PyValue F × PyValue F × PyValue F × PyValue F) :=
  match parsed with
  | .dict fields =>
      match Dict.get? fields "rubric" with
      | none => .error "rubric spec must be a JSON object with at least 'rubric'"
      | some rubric =>
          match Dict.getD fields "scale" (.list [.float PyFloat.zero, .float (PyArith.lit 10)]) with
          | .list [lo, hi] => .ok (rubric, Dict.getD fields "threshold" .none, lo, hi)
          | scale => .error ("rubric spec 'scale' must be [lo, hi], got " ++ env.repr scale)
  | _ => .error "rubric spec must be a JSON object with at least 'rubric'"

/-- The callable of the evaluation model: the two prompts and the name of a model. -/
abbrev AuxCall (F : Type) := String → String → String → Called F

/-- `evaluate_rubric_judge`. -/
def evaluateRubricJudge (spec : String) (result : RunResult) (auxCallLlm : Option (AuxCall F)) :
    Except PyException (ExpectationResult F) :=
  match auxCallLlm with
  | none => .ok (failing .rubric "rubric expectation requires aux_call_llm but none was provided")
  | some call =>
      match env.loads spec.toList with
      | .error (.raised e) => .error e
      | .error (.decode msg) => .ok (failing .rubric ("rubric spec is not valid JSON: " ++ msg))
      | .ok parsed =>
          match rubricSpec env parsed with
          | .error detail => .ok (failing .rubric detail)
          | .ok (rubric, threshold, lo, hi) => do
              let lo ← floatOf env lo
              let hi ← floatOf env hi
              match call SYSTEM_PROMPT (userPrompt env rubric lo hi (selectTranscript result)) "" with
              | .timeout => .ok (failing .rubric "rubric_judge_timeout")
              | .raised e =>
                  .ok (failing .rubric ("aux_call_llm raised: " ++ e.name ++ ": " ++ e.text))
              | .returned answer => answerResult env threshold answer

/-- `evaluate_expectation`. -/
def evaluateExpectation (expectation : Expectation) (result : RunResult)
    (auxCallLlm : Option (AuxCall F)) : Except PyException (ExpectationResult F) :=
  match expectation.kind with
  | .predicate => evalPredicate env expectation.spec result
  | .expectedText => .ok (evalExpectedText env expectation.spec result)
  | .regex => evalRegex env expectation.spec result
  | .jsonSchema => evalJsonSchema env expectation.spec result
  | .rubric => evaluateRubricJudge env expectation.spec result auxCallLlm

end Values

end Zicato.Matchers
