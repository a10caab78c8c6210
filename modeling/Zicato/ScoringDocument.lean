import Zicato.Codec
import Zicato.Json

/-! # The scoring document

`zicato/core/constraints.py`, `core/tournament.py` and `core/scoring_config.py`: the
declaration of `ScoringWeights` as an annotation of the codec, with every default, bound
and check, and the canonical form of `epoch/contract.py`.  A bound of a declaration is a
whole number. -/
namespace Zicato.ScoringDocument

open Codec

variable {F : Type} [PyArith F] (it : Interp F)

/-! ## Constraints -/

/-- `KnobConstraint`. -/
structure KnobConstraint where
  minimum : Option Int := none
  choices : Option (List String) := none
  allowNone : Bool := false
  label : String := ""
  maximum : Option Int := none
  exclusiveMinimum : Bool := false
  exclusiveMaximum : Bool := false
  allowBool : Bool := false

/-- `value!r`. -/
def reprOf (v : Val F) : String := it.repr (encode v)

/-- `require_finite_number`, if it raises. -/
def requireFiniteNumber (name : String) : Val F → Option String
  | .int _ => none
  | .float x =>
      if PyFloat.isfinite x then none
      else some (name ++ " must be finite, got " ++ reprOf it (.float x))
  | v => some (name ++ " must be a finite number, got " ++ reprOf it v)

/-- `number < bound`. -/
def below (v : Val F) (bound : Int) : Bool :=
  match v with
  | .int n => decide (n < bound)
  | .float x => PyFloat.lt x (PyArith.lit bound)
  | _ => false

/-- `number > bound`. -/
def above (v : Val F) (bound : Int) : Bool :=
  match v with
  | .int n => decide (bound < n)
  | .float x => PyFloat.lt (PyArith.lit bound) x
  | _ => false

/-- `number == bound`. -/
def equals (v : Val F) (bound : Int) : Bool :=
  match v with
  | .int n => decide (n = bound)
  | .float x => PyFloat.eq x (PyArith.lit bound)
  | _ => false

/-- The check of the lower bound. -/
def belowMinimum (c : KnobConstraint) (shown : String) (v : Val F) : Option String :=
  match c.minimum with
  | some bound =>
      if below v bound || (c.exclusiveMinimum && equals v bound) then
        some (shown ++ " must be " ++ (if c.exclusiveMinimum then ">" else ">=") ++ " " ++
          toString bound ++ (if c.allowNone then " or None" else "") ++ ", got " ++ reprOf it v)
      else none
  | none => none

/-- The check of the upper bound. -/
def aboveMaximum (c : KnobConstraint) (shown : String) (v : Val F) : Option String :=
  match c.maximum with
  | some bound =>
      if above v bound || (c.exclusiveMaximum && equals v bound) then
        some (shown ++ " must be " ++ (if c.exclusiveMaximum then "<" else "<=") ++ " " ++
          toString bound ++ ", got " ++ reprOf it v)
      else none
  | none => none

/-- `number` is within the bounds, or the text of the refusal. -/
def checkNumber (c : KnobConstraint) (shown : String) (v : Val F) : Option String :=
  ((requireFiniteNumber it shown v).or (belowMinimum it c shown v)).or
    (aboveMaximum it c shown v)

/-- `value in choices`. -/
def among (choices : List String) : Val F → Bool
  | .str s => choices.contains s
  | _ => false

/-- A value that a constraint lets through unchecked. -/
def KnobConstraint.exempts (c : KnobConstraint) : Val F → Bool
  | .none => c.allowNone
  | .bool _ => c.allowBool
  | _ => false

/-- `KnobConstraint.check`, if it raises. -/
def KnobConstraint.check (c : KnobConstraint) (name : String) (v : Val F) : Option String :=
  let shown := if c.label = "" then name else c.label
  if c.exempts v then none
  else
    match c.choices with
    | some choices =>
        if among choices v then none
        else some (shown ++ " must be one of \x7b" ++
          ", ".intercalate (Zicato.sorted (fun a b => decide (a < b)) choices) ++ "\x7d, got " ++
          reprOf it v)
    | none => checkNumber it c shown v

/-- A field with its default, its constraint and its spelling in JSON. -/
def knob (name : String) (a : Ann F) (default : Val F) (constraint : Option KnobConstraint)
    (key : String) : FieldInfo F × Ann F :=
  ({ attr := ⟨name, key⟩
     default := some default
     check := fun v => constraint.bind fun c => c.check it name v }, a)

/-- A field that is written under its own name. -/
def plain (name : String) (a : Ann F) (default : Val F)
    (constraint : Option KnobConstraint) : FieldInfo F × Ann F :=
  knob it name a default constraint name

/-- A field that is a boolean. -/
def bool (name : String) (default : Bool) : FieldInfo F × Ann F :=
  plain it name (.scalar .bool) (.bool default) none

/-- A field that is an integer. -/
def int (name : String) (default : Int) (c : KnobConstraint) : FieldInfo F × Ann F :=
  plain it name (.scalar .int) (.int default) (some c)

/-- A field that is a number. -/
def float (name : String) (default : Rat) (c : KnobConstraint) : FieldInfo F × Ann F :=
  plain it name (.scalar .float) (.float (PyArith.lit default)) (some c)

/-- A number that is absent by default. -/
def unset (name : String) (s : Scalar) (c : KnobConstraint) : FieldInfo F × Ann F :=
  plain it name (.optional (.scalar s)) .none (some c)

/-- A field that is a string. -/
def text (name : String) (default : String) (choices : Option (List String)) :
    FieldInfo F × Ann F :=
  plain it name (.scalar .str) (.str default)
    (choices.map fun choices => { choices := some choices })

/-- A field of a closed set of words. -/
def word (name : String) (default : String) (words : List String)
    (constraint : Option KnobConstraint) : FieldInfo F × Ann F :=
  plain it name (.literal (words.map .str)) (.str default) constraint

/-- Weights by name. -/
def weights (name : String) (default : List (String × Rat)) : FieldInfo F × Ann F :=
  plain it name (.map (.scalar .float))
    (.dict (default.map fun e => (e.1, .float (PyArith.lit e.2)))) none

/-- The defaults of the fields. -/
def defaultsOf (fields : List (FieldInfo F × Ann F)) : List (Attr × Val F) :=
  fields.map fun f => (f.1.attr, f.1.default.getD .none)

/-- The value of an attribute. -/
def valueOf (vs : List (Attr × Val F)) (name : String) : Val F :=
  match vs.find? fun e => e.1.name == name with
  | some e => e.2
  | none => .none

/-- `object.__setattr__`. -/
def setValue (vs : List (Attr × Val F)) (name : String) (v : Val F) : List (Attr × Val F) :=
  vs.map fun e => if e.1.name = name then (e.1, v) else e

/-- The first check that raises. -/
def firstError (checks : List (Option PostError)) : Option PostError := checks.findSome? id

/-- A `ValueError` of a hook. -/
def valueError (text : Option String) : Option PostError := text.map .value

/-- `validate_knobs`. -/
def validateKnobs (fields : List (FieldInfo F × Ann F)) (vs : List (Attr × Val F)) :
    Option PostError :=
  firstError (fields.map fun f => valueError (f.1.check (valueOf vs f.1.attr.name)))

/-- A `__post_init__` that runs checks and no more. -/
def checking (check : List (Attr × Val F) → Option PostError) (vs : List (Attr × Val F)) :
    Except PostError (List (Attr × Val F)) :=
  match check vs with
  | some e => .error e
  | none => .ok vs

/-- A class whose `__post_init__` applies its own declarations. -/
def knobClass (cls : String) (fields : List (FieldInfo F × Ann F)) : Ann F :=
  .dataclass cls fields (checking (validateKnobs fields))

/-- A block with its defaults. -/
def knobDefault (cls : String) (fields : List (FieldInfo F × Ann F)) : Val F :=
  .object cls (defaultsOf fields)

/-! ## The nested blocks -/

/-- `LadderConfig`. -/
def ladderFields : List (FieldInfo F × Ann F) :=
  [bool it "enabled" true,
    unset it "threshold" .float { minimum := some 0, allowNone := true, label := "ladder.threshold" },
    int it "budget" 16 { minimum := some 0, label := "ladder.budget" }]

/-- `OverfittingConfig`. -/
def overfittingFields : List (FieldInfo F × Ann F) :=
  [bool it "enabled" true,
    float it "holdout_fraction" (3 / 10)
      { minimum := some 0, maximum := some 1, exclusiveMinimum := true, exclusiveMaximum := true },
    int it "min_board_size_for_split" 6 { minimum := some 0 },
    bool it "restrict_proposer_visibility" true,
    plain it "ladder" (knobClass "LadderConfig" (ladderFields it))
      (knobDefault "LadderConfig" (ladderFields it)) none,
    bool it "rotate_holdout" true]

/-- `ProposerQualityConfig`. -/
def proposerQualityFields : List (FieldInfo F × Ann F) :=
  [int it "best_of_n" 3 { minimum := some 1 },
    bool it "critique_enabled" true,
    int it "screen_entries" 2 { minimum := some 0 },
    bool it "screen_veto_only" false]

/-- `RECOMBINE_MERGE_MODES`. -/
def RECOMBINE_MERGE_MODES : List String := ["mechanical", "llm"]

/-- The values of `standing_rating`. -/
def STANDING_RATINGS : List String := ["none", "bradley_terry"]

/-- The values of `resolver`. -/
def RESOLVERS : List String := ["none", "copeland", "ranked_pairs"]

/-- `ExperimentalConfig`. -/
def experimentalFields : List (FieldInfo F × Ann F) :=
  [bool it "tournament_structures" false,
    unset it "max_generations_per_contract" .int { minimum := some 1, allowNone := true },
    int it "random_baseline_every_n" 0 { minimum := some 0 },
    int it "process_exemplars" 0 { minimum := some 0 },
    bool it "recombine" false,
    int it "genealogy" 0 { minimum := some 0 },
    int it "calibration_feedback" 0 { minimum := some 0 },
    text it "recombine_merge" "mechanical" (some RECOMBINE_MERGE_MODES),
    float it "diff_complexity_weight" 0 { minimum := some 0 },
    float it "diff_complexity_ceiling" 0 { minimum := some 0 },
    bool it "cross_epoch_memory" false,
    word it "standing_rating" "none" STANDING_RATINGS none,
    word it "resolver" "none" RESOLVERS none]

/-- `ExperimentalConfig.__post_init__`. -/
def experimentalCheck (vs : List (Attr × Val F)) : Option PostError :=
  firstError
    [validateKnobs (experimentalFields it) vs,
      if among STANDING_RATINGS (valueOf vs "standing_rating") then none
      else some (.value "experimental.standing_rating must be none or bradley_terry"),
      if among RESOLVERS (valueOf vs "resolver") then none
      else some (.value "experimental.resolver must be none, copeland or ranked_pairs")]

/-! ## The tournament block -/

/-- `VALID_TOURNAMENT_STRUCTURES`. -/
def VALID_TOURNAMENT_STRUCTURES : List String :=
  ["gauntlet", "single_elim", "double_elim", "swiss", "racing"]

/-- `EXPERIMENTAL_TOURNAMENT_STRUCTURES`. -/
def EXPERIMENTAL_TOURNAMENT_STRUCTURES : List String := ["single_elim", "double_elim", "swiss"]

def THRESHOLD : String := "promote_confidence_threshold"

def BUDGET : String := "promote_confidence_replicates"

def thresholdConstraint : KnobConstraint where
  minimum := some 0
  maximum := some 1
  exclusiveMaximum := true
  allowNone := true
  label := "tournament params[\"promote_confidence_threshold\"]"

def replicatesConstraint : KnobConstraint where
  minimum := some 1
  label := "tournament params[\"replicates\"]"

def budgetConstraint : KnobConstraint where
  minimum := some 0
  allowNone := true
  label := "tournament params[\"promote_confidence_replicates\"]"

/-- `TOURNAMENT_PARAM_CONSTRAINTS`. -/
def TOURNAMENT_PARAM_CONSTRAINTS : List (String × KnobConstraint) :=
  [(THRESHOLD, thresholdConstraint), ("replicates", replicatesConstraint),
    (BUDGET, budgetConstraint)]

def DEFAULT_CONFIRMATION_BUDGET : Int := 32

def structureField : FieldInfo F × Ann F :=
  ({ attr := ⟨"structure", "structure"⟩
     default := none
     check := fun v =>
       KnobConstraint.check it { choices := some VALID_TOURNAMENT_STRUCTURES } "structure" v },
    .scalar .str)

def paramsField : FieldInfo F × Ann F := plain it "params" (.map .any) (.dict []) none

/-- `TournamentStructure`. -/
def tournamentFields : List (FieldInfo F × Ann F) := [structureField it, paramsField it]

/-- The parameters of a tournament block. -/
def paramsOf (vs : List (Attr × Val F)) : Dict String (Val F) :=
  match valueOf vs "params" with
  | .dict params => params
  | _ => []

/-- Whether `read_promote_confidence_threshold` gives a threshold. -/
def hasThreshold (params : Dict String (Val F)) : Bool :=
  match Dict.get? params THRESHOLD with
  | none | some .none => false
  | some v => !equals v 0

/-- `read_replicate_budget`. -/
def readReplicateBudget (params : Dict String (Val F)) : Except PostError Int :=
  match Dict.get? params BUDGET with
  | none | some .none => .ok DEFAULT_CONFIRMATION_BUDGET
  | some (.int n) =>
      if n < 0 then .error (.value "promote_confidence_replicates must be a nonnegative integer")
      else .ok n
  | some _ => .error (.value "promote_confidence_replicates must be a nonnegative integer")

/-- The checks of `TournamentStructure.__post_init__`. -/
def tournamentCheck (vs : List (Attr × Val F)) : Option PostError :=
  firstError
    [if among VALID_TOURNAMENT_STRUCTURES (valueOf vs "structure") then none
      else some (.value ("invalid tournament structure " ++ reprOf it (valueOf vs "structure") ++
        "; valid values are: " ++ ", ".intercalate
          (VALID_TOURNAMENT_STRUCTURES.map fun s => it.repr (.str s)))),
      match valueOf vs "params" with
      | .dict _ => none
      | _ => some (.value "tournament params must be a JSON object (mapping)"),
      firstError (TOURNAMENT_PARAM_CONSTRAINTS.map fun e =>
        (Dict.get? (paramsOf vs) e.1).bind fun v => valueError (e.2.check it e.1 v))]

/-- `TournamentStructure.__post_init__`. -/
def tournamentPost (vs : List (Attr × Val F)) : Except PostError (List (Attr × Val F)) :=
  match tournamentCheck it vs with
  | some e => .error e
  | none =>
      if hasThreshold (paramsOf vs) then
        match readReplicateBudget (paramsOf vs) with
        | .ok n => .ok (setValue vs "params" (.dict (Dict.set (paramsOf vs) BUDGET (.int n))))
        | .error e => .error e
      else .ok vs

def tournamentAnn : Ann F := .dataclass "TournamentStructure" (tournamentFields it) (tournamentPost it)

def DEFAULT_STRUCTURE : String := "racing"

/-- The parameters of `_default_tournament_structure`. -/
def defaultParams : Dict String (Val F) :=
  [("field_size", .int 4), ("eta", .int 2), ("board_fraction", .float (PyArith.lit (4 / 10))),
    ("replicates", .int 2), (THRESHOLD, .float (PyArith.lit (8 / 10))),
    (BUDGET, .int DEFAULT_CONFIRMATION_BUDGET)]

/-- `_default_tournament_structure`. -/
def defaultTournament : Val F :=
  .object "TournamentStructure"
    [(⟨"structure", "structure"⟩, .str DEFAULT_STRUCTURE),
      (⟨"params", "params"⟩, .dict defaultParams)]

/-! ## The weights -/

/-- `KNOWN_TELEMETRY_DIALECTS`, sorted. -/
def KNOWN_TELEMETRY_DIALECTS : List String := ["adk_events", "goldfive", "transcript"]

def defaultSeverityWeights : List (String × Rat) := [("info", 1), ("warning", 3), ("critical", 10)]

def defaultNamespaceWeights : List (String × Rat) :=
  [("drift:", 1), ("judge:", 1), ("failure:", 1), ("runtime:", 0), ("cost:", 1 / 1000),
    ("latency:", 1 / 10000), ("rubric:", -1), ("output:", 0), ("schema:", 5)]

def defaultNamespaceMonotonicity : List (String × Bool) :=
  [("drift:", false), ("rubric:", true), ("schema:", true)]

/-- The fields of `ScoringWeights`. -/
def scoringFields : List (FieldInfo F × Ann F) :=
  [float it "pass_weight" 1 {},
    weights it "severity_weights" defaultSeverityWeights,
    weights it "per_kind_weights" [],
    weights it "per_judge_weights" [],
    float it "default_judge_weight" 1 {},
    float it "plan_revision_weight" (5 / 10) {},
    float it "task_failure_weight" 10 {},
    float it "not_completed_weight" 50 {},
    float it "promote_margin" (1 / 100) { minimum := some 0 },
    unset it "holdout_margin" .float { minimum := some 0, allowNone := true },
    int it "holdout_entry_regression_budget" 0 { minimum := some 0 },
    bool it "pass_rate_monotonicity" true,
    word it "pass_rate_monotonicity_scope" "per_entry" ["per_entry", "aggregate"]
      (some { choices := some ["per_entry", "aggregate"] }),
    bool it "regression_gate_enabled" false,
    plain it "regression_test_command" (.seq true (.scalar .str))
      (.tuple [.str "pytest", .str "tests/", .str "-q"]) none,
    int it "regression_timeout_s" 600 { minimum := some 1 },
    weights it "namespace_weights" defaultNamespaceWeights,
    plain it "namespace_monotonicity" (.map (.scalar .bool))
      (.dict (defaultNamespaceMonotonicity.map fun e => (e.1, .bool e.2))) none,
    knob it "tournament_structure" (tournamentAnn it) defaultTournament none "tournament",
    plain it "overfitting" (knobClass "OverfittingConfig" (overfittingFields it))
      (knobDefault "OverfittingConfig" (overfittingFields it)) none,
    plain it "proposer_quality" (knobClass "ProposerQualityConfig" (proposerQualityFields it))
      (knobDefault "ProposerQualityConfig" (proposerQualityFields it)) none,
    plain it "experimental"
      (.dataclass "ExperimentalConfig" (experimentalFields it) (checking (experimentalCheck it)))
      (knobDefault "ExperimentalConfig" (experimentalFields it)) none,
    plain it "goldfive" (.optional (.map .any)) .none none,
    text it "outcome_summarizer_spec" "" none,
    plain it "pass_transform" (.optional (.map .any)) .none none,
    plain it "drift_kind_aggregation" (.map (.map .any)) (.dict []) none,
    text it "drift_reducer" "" none,
    text it "scalar_fn" "" none,
    text it "telemetry_dialect" "goldfive" (some KNOWN_TELEMETRY_DIALECTS),
    bool it "block_on_containment_violation" false,
    bool it "block_on_gate_contradiction" false,
    plain it "mutation_surface" (.map (.map .any)) (.dict []) none]

/-! ### The checks of the contract -/

mutual
/-- `_freeze_json`; what a free annotation reads is JSON, so nothing is refused here. -/
def freezeJson : Val F → Val F
  | .dict fields => .dict (freezeEntries fields)
  | .list items => .tuple (freezeItems items)
  | .tuple items => .tuple (freezeItems items)
  | v => v

def freezeItems : List (Val F) → List (Val F)
  | [] => []
  | v :: rest => freezeJson v :: freezeItems rest

def freezeEntries : List (String × Val F) → List (String × Val F)
  | [] => []
  | (k, v) :: rest => (k, freezeJson v) :: freezeEntries rest
end

/-- The items of a mapping. -/
def entriesOf : Val F → Dict String (Val F)
  | .dict fields => fields
  | _ => []

/-- `require_finite_mapping`. -/
def requireFiniteMapping (vs : List (Attr × Val F)) (name : String) : Option PostError :=
  firstError ((entriesOf (valueOf vs name)).map fun e =>
    valueError (requireFiniteNumber it (name ++ "[" ++ it.repr (.str e.1) ++ "]") e.2))

/-- Whether the number is greater than zero. -/
def positive (v : Val F) : Bool := above v 0

def failureWeightCheck (vs : List (Attr × Val F)) : Option PostError :=
  let weight := Dict.getD (entriesOf (valueOf vs "namespace_weights")) "failure:"
    (.float PyFloat.zero)
  if positive weight then none
  else some (.value ("namespace_weights[\"failure:\"] must be present and > 0 (got " ++
    reprOf it weight ++ "): the failure: channel carries the task-failure and not-completed " ++
    "terms, and a contract must not be able to make crashing free. Dampen it with a small " ++
    "positive coefficient instead of zeroing it."))

def customKindCheck (vs : List (Attr × Val F)) : Option PostError :=
  if (Dict.keys (entriesOf (valueOf vs "per_kind_weights"))).contains "custom" then
    some (.value ("per_kind_weights[\"custom\"] is inert: custom-judge drift is scored in the " ++
      "judge: channel. Use per_judge_weights \x7bjudge_name: weight\x7d to retune one judge, or " ++
      "namespace_weights \x7b\"judge:\": w\x7d to retune the channel."))
  else none

/-- `_REQUIRED_PARAMS`. -/
def REQUIRED_PARAMS : Dict String (List String) :=
  [("linear", []), ("pow", ["exponent"]), ("harmonic", []), ("cap", ["max"]),
    ("clip", ["lo", "hi"]), ("log1p", [])]

/-- `float(value)` of a parameter. -/
def numberOf : Val F → Option F
  | .int n => PyFloat.ofInt n
  | .float x => some x
  | _ => none

/-- The check of one parameter of a transform. -/
def transformParamCheck (op : String) (spec : Dict String (Val F)) (name : String) :
    Option PostError :=
  match Dict.get? spec name with
  | none => some (.value ("transform op " ++ it.repr (.str op) ++ " requires param " ++
      it.repr (.str name)))
  | some (.int n) =>
      match (PyFloat.ofInt n : Option F) with
      | some x =>
          if PyFloat.isfinite x then none
          else some (.value ("transform op " ++ it.repr (.str op) ++ " param " ++
            it.repr (.str name) ++ " must be finite, got " ++ reprOf it (.int n)))
      | none => some (.raised (.other "OverflowError"))
  | some (.float x) =>
      if PyFloat.isfinite x then none
      else some (.value ("transform op " ++ it.repr (.str op) ++ " param " ++
        it.repr (.str name) ++ " must be finite, got " ++ reprOf it (.float x)))
  | some v => some (.value ("transform op " ++ it.repr (.str op) ++ " param " ++
      it.repr (.str name) ++ " must be a finite number, got " ++ reprOf it v))

/-- The parameters that a transform does not take. -/
def unknownParams (spec : Dict String (Val F)) (required : List String) : List String :=
  (Dict.keys spec).filter fun k => k ≠ "op" ∧ k ∉ required

/-- `lo <= hi` of a clip. -/
def clipCheck (op : String) (spec : Dict String (Val F)) : Option PostError :=
  if op = "clip" then
    match (Dict.get? spec "lo").bind numberOf, (Dict.get? spec "hi").bind numberOf with
    | some lo, some hi =>
        if PyFloat.lt hi lo then
          some (.value ("transform op 'clip' requires lo <= hi, got lo=" ++
            it.repr (encode ((Dict.get? spec "lo").getD .none)) ++ " hi=" ++
            it.repr (encode ((Dict.get? spec "hi").getD .none))))
        else none
    | _, _ => none
  else none

def strList (names : List String) : String := it.repr (.list (names.map .str))

/-- `validate_transform_spec`. -/
def transformCheck : Val F → Option PostError
  | .dict spec =>
      match Dict.get? spec "op" with
      | some (.str op) =>
          match Dict.get? REQUIRED_PARAMS op with
          | some required =>
              firstError
                ((if (unknownParams spec required).isEmpty then none
                  else some (.value ("transform op " ++ it.repr (.str op) ++
                    " got unexpected param(s) " ++
                    strList it (Zicato.sorted (fun a b => decide (a < b))
                      (unknownParams spec required)) ++
                    "; it accepts " ++ strList it required))) ::
                  required.map (transformParamCheck it op spec) ++ [clipCheck it op spec])
          | none => some (.value ("unknown transform op " ++ it.repr (.str op) ++
              "; known ops: cap, clip, harmonic, linear, log1p, pow"))
      | _ => some (.value ("transform spec is missing a string 'op': " ++ reprOf it (.dict spec)))
  | v => some (.value ("transform spec must be a mapping like \x7b'op': ...\x7d, got " ++
      reprOf it v))

def passTransformCheck (vs : List (Attr × Val F)) : Option PostError :=
  match valueOf vs "pass_transform" with
  | .none => none
  | spec => transformCheck it spec

/-- The error of one kind names it. -/
def kindError (kind : String) : PostError → PostError
  | .value text => .value ("drift_kind_aggregation[" ++ it.repr (.str kind) ++ "]: " ++ text)
  | .raised e => .raised e

def aggregationCheck (vs : List (Attr × Val F)) : Option PostError :=
  firstError ((entriesOf (valueOf vs "drift_kind_aggregation")).map fun e =>
    (transformCheck it e.2).map (kindError it e.1))

def pluginCheck (vs : List (Attr × Val F)) (name : String) : Option PostError :=
  match valueOf vs name with
  | .str _ => none
  | _ => some (.value (name ++ " must be a dotted-spec string; resolution happens at scoring time"))

/-- The fields of an instance. -/
def fieldsOf : Val F → List (Attr × Val F)
  | .object _ fields => fields
  | _ => []

/-- A parameter that has moved to the experimental block. -/
def movedCheck (vs : List (Attr × Val F)) (key target : String) : Option PostError :=
  if (Dict.keys (paramsOf (fieldsOf (valueOf vs "tournament_structure")))).contains key then
    some (.value ("move tournament.params." ++ key ++ " to experimental." ++ target))
  else none

/-- Whether a flag is set. -/
def flagged : Val F → Bool
  | .bool b => b
  | _ => false

def structureCheck (vs : List (Attr × Val F)) : Option PostError :=
  let chosen := valueOf (fieldsOf (valueOf vs "tournament_structure")) "structure"
  let enabled := valueOf (fieldsOf (valueOf vs "experimental")) "tournament_structures"
  if among EXPERIMENTAL_TOURNAMENT_STRUCTURES chosen && !flagged enabled then
    some (.value ("tournament structure " ++ reprOf it chosen ++
      " is experimental; enable it with experimental.tournament_structures = true in scoring.json"))
  else none

/-- The checks of `ScoringWeights.__post_init__`, in their order. -/
def scoringChecks (vs : List (Attr × Val F)) : List (Option PostError) :=
  [validateKnobs (scoringFields it) vs,
    requireFiniteMapping it vs "severity_weights",
    requireFiniteMapping it vs "per_kind_weights",
    requireFiniteMapping it vs "per_judge_weights",
    requireFiniteMapping it vs "namespace_weights",
    failureWeightCheck it vs,
    customKindCheck vs,
    passTransformCheck it vs,
    aggregationCheck it vs,
    pluginCheck vs "drift_reducer",
    pluginCheck vs "scalar_fn",
    movedCheck vs "rating" "standing_rating",
    movedCheck vs "resolver" "resolver",
    structureCheck it vs]

/-- `ScoringWeights.__post_init__`. -/
def scoringPost (vs : List (Attr × Val F)) : Except PostError (List (Attr × Val F)) :=
  checking (fun vs => firstError (scoringChecks it vs))
    (setValue vs "goldfive" (freezeJson (valueOf vs "goldfive")))

def scoringAnn : Ann F := .dataclass "ScoringWeights" (scoringFields it) (scoringPost it)

/-- The tournament block with its defaults. -/
def resolveTournament (tournament : Dict String (PyValue F)) : Dict String (PyValue F) :=
  let resolved := Dict.setdefault tournament "structure" (.str DEFAULT_STRUCTURE)
  Dict.setdefault resolved "params"
    (match Dict.get? resolved "structure" with
      | some (.str s) => if s = DEFAULT_STRUCTURE then .dict (encodeDict defaultParams) else .dict []
      | _ => .dict [])

/-- The document with its tournament block resolved. -/
def resolve (raw : PyValue F) : PyValue F :=
  match raw with
  | .dict d =>
      match Dict.get? d "tournament" with
      | some (.dict tournament) =>
          .dict (Dict.set d "tournament" (.dict (resolveTournament tournament)))
      | _ => .dict d
  | raw => raw

/-- `scoring_weights_from_dict`. -/
def scoringWeightsFromDict (raw : PyValue F) : Except Raised (Val F) :=
  decode it (scoringAnn it) (resolve raw) "scoring"

/-! ## The canonical form -/

/-- The identities that the canonical form adds. -/
structure Grading (F : Type) where
  /-- `resolve_plugin_source`. -/
  sourceHash : String → Option String
  /-- `normalize_config` of the goldfive integration. -/
  normalizeConfig : Dict String (PyValue F) → Except Raised (Dict String (PyValue F))

def GOLDFIVE_IMPLEMENTATION_VERSION : String := "git:d1d44829d43fee46c11b83c507fc772466b7f14e"

def ZICATO_GOLDFIVE_INTEGRATION_REVISION : Int := 1

/-- `_SCORING_PLUGIN_SPEC_FIELDS`. -/
def SCORING_PLUGIN_SPEC_FIELDS : List String :=
  ["scalar_fn", "drift_reducer", "outcome_summarizer_spec"]

section Canon

variable (g : Grading F)

/-- `_canon_dotted_spec`. -/
def canonDottedSpec : PyValue F → PyValue F
  | .str s =>
      if s = "" then .dict [("spec", .str ""), ("source_sha256", .none)]
      else .dict [("spec", .str s), ("source_sha256", ((g.sourceHash s).map .str).getD .none)]
  | _ => .dict [("spec", .str ""), ("source_sha256", .none)]

/-- One turn of the loop over the plugin fields. -/
def canonStep (out : Dict String (PyValue F)) (name : String) : Dict String (PyValue F) :=
  match Dict.get? out name with
  | some v => Dict.set out name (canonDottedSpec g v)
  | none => out

/-- `scoring_to_canon`. -/
def scoringToCanon (w : Val F) : Dict String (PyValue F) :=
  SCORING_PLUGIN_SPEC_FIELDS.foldl (canonStep g) (encodeFields (fieldsOf w))

/-- The integration block with the identity of its implementation. -/
def identified (normalized : Dict String (PyValue F)) : PyValue F :=
  .dict (Dict.set normalized "implementation_identity"
    (.dict [("goldfive_version", .str GOLDFIVE_IMPLEMENTATION_VERSION),
      ("zicato_integration_revision", .int ZICATO_GOLDFIVE_INTEGRATION_REVISION)]))

/-- `scoring_contract_to_canon`. -/
def scoringContractToCanon (w : Val F) : Except Raised (Dict String (PyValue F)) :=
  match valueOf (fieldsOf w) "goldfive" with
  | .none => .ok (scoringToCanon g w)
  | _ =>
      match Dict.get? (scoringToCanon g w) "goldfive" with
      | some (.dict goldfive) => do
          let normalized ← g.normalizeConfig goldfive
          .ok (Dict.set (scoringToCanon g w) "goldfive" (identified normalized))
      | _ => .error (.other "TypeError")

/-- `canonical_scoring_json`, of the parsed document. -/
def canonicalScoringJson (fl : Json.Floats F) (raw : PyValue F) : Except Raised Text := do
  let w ← scoringWeightsFromDict it raw
  let canon ← scoringContractToCanon g w
  .ok (Json.dumps fl Json.Layout.default (PyValue.dict canon).sorted)

end Canon

end Zicato.ScoringDocument
