import Zicato.PyExcept
import Zicato.PyFloat
import Zicato.PyText
import Zicato.PyValue

/-! # Scores of a generation

`zicato/tournament/scoring.py`: the flat aggregate of a generation and the history
of its measurements, one JSON object a line.  A measurement is appended to the
history before the flat aggregate is replaced; the append may be cut after any
byte. -/
namespace Zicato.GenScore

variable {F : Type} [PyFloat F]

/-! ## Aggregates -/

/-- What the scores use of `json`; the two writers sort the keys. -/
structure ScoreJson (F : Type) where
  /-- `json.dumps(value, sort_keys=True)`; none when it raises, as it does for a `nan`. -/
  dumps : PyValue F → Option Text
  /-- `json.dumps(value, indent=2, sort_keys=True)`. -/
  dumpsIndent : PyValue F → Option Text
  /-- `json.loads`; none when it raises. -/
  loads : Text → Option (PyValue F)
  /-- `repr(value)`. -/
  repr : PyValue F → String

variable (rt : ScoreJson F)

/-- `_score_number`. -/
def scoreNumber (name : String) (nullable : Bool) (value : PyValue F) : Except String Unit :=
  let refused := s!"gen_score: {name} must be finite" ++ (if nullable then " or null" else "")
  match value with
  | .none => require nullable refused
  | .int n => require (PyFloat.ofInt n : Option F).isSome refused
  | .float x => require (PyFloat.isfinite x) refused
  | _ => .error refused

/-- `_score_count`. -/
def scoreCount (name : String) (value : PyValue F) : Except String Unit :=
  match value with
  | .int n => require (decide (0 ≤ n)) s!"gen_score: {name} must be a nonnegative integer"
  | _ => .error s!"gen_score: {name} must be a nonnegative integer"

/-- A check of a field that may be absent. -/
def ifPresent (check : PyValue F → Except String Unit) : Option (PyValue F) → Except String Unit
  | none => .ok ()
  | some value => check value

/-- `check_record_format`. -/
def checkRecordFormat (raw : Option (PyValue F)) : Except String Unit :=
  let refused := s!"gen_score: unsupported format_version {rt.repr (raw.getD .none)}; " ++
    "expected integer 1"
  match raw with
  | some (.int n) => require (decide (n = 1)) refused
  | _ => .error refused

/-- The id an aggregate records; it may leave it out. -/
def checkGenerationId (generationId : String) (recorded : Option (PyValue F)) :
    Except String Unit :=
  match recorded with
  | none => .ok ()
  | some (.str id) =>
      if id = "" then .error "gen_score: generation_id must be a nonempty string"
      else require (decide (id = generationId))
        s!"gen_score: generation_id {rt.repr (.str id)} does not match {rt.repr (.str generationId)}"
  | some _ => .error "gen_score: generation_id must be a nonempty string"

/-- A field that is an object, each of whose items is checked. -/
def checkMapping (key : String) (check : String → PyValue F → Except String Unit)
    (value : PyValue F) : Except String Unit :=
  match value with
  | .dict items => items.forM fun item => check item.1 item.2
  | _ => .error s!"gen_score: {key} must be an object with string keys"

/-- One row of `per_entry`. -/
def checkEntry (name : String) (item : PyValue F) : Except String Unit :=
  match item with
  | .dict fields => do
      ifPresent (scoreNumber s!"per_entry.{name}.drift_loss" false) (Dict.get? fields "drift_loss")
      ifPresent (scoreNumber s!"per_entry.{name}.failure" false) (Dict.get? fields "failure")
      ifPresent (scoreNumber s!"per_entry.{name}.score" true) (Dict.get? fields "score")
      match Dict.get? fields "pass_fail" with
      | none => .ok ()
      | some .none => .ok ()
      | some (.bool _) => .ok ()
      | some _ => .error s!"gen_score: per_entry.{name}.pass_fail must be boolean or null"
  | _ => .error s!"gen_score: per_entry.{name} must be an object"

/-- A field that must be a string. -/
def checkString (key : String) (value : PyValue F) : Except String Unit :=
  match value with
  | .str _ => .ok ()
  | _ => .error s!"gen_score: {key} must be a string"

/-- A field that must be boolean. -/
def checkBool (key : String) (value : PyValue F) : Except String Unit :=
  match value with
  | .bool _ => .ok ()
  | _ => .error s!"gen_score: {key} must be boolean"

/-- `value.get("scalar")` is required. -/
def checkScalar (value : Option (PyValue F)) : Except String Unit :=
  scoreNumber "scalar" false (value.getD .none)

/-- The checks of `decode_gen_score` with the fields they read, in order. -/
def checks (generationId : String) :
    List (String × (Option (PyValue F) → Except String Unit)) :=
  [("format_version", checkRecordFormat rt),
    ("generation_id", checkGenerationId rt generationId),
    ("scalar", checkScalar),
    ("drift_loss_mean", ifPresent (scoreNumber "drift_loss_mean" true)),
    ("pass_rate", ifPresent (scoreNumber "pass_rate" true)),
    ("mean_score", ifPresent (scoreNumber "mean_score" true)),
    ("entry_count", ifPresent (scoreCount "entry_count")),
    ("expectation_count", ifPresent (scoreCount "expectation_count")),
    ("namespace_aggregates", ifPresent (checkMapping "namespace_aggregates" fun name =>
      scoreNumber s!"namespace_aggregates.{name}" false)),
    ("scalar_components", ifPresent (checkMapping "scalar_components" fun name =>
      scoreNumber s!"scalar_components.{name}" false)),
    ("diff_size", ifPresent (checkMapping "diff_size" fun name => scoreCount s!"diff_size.{name}")),
    ("per_entry", ifPresent (checkMapping "per_entry" checkEntry)),
    ("scalar_provenance", ifPresent (checkString "scalar_provenance")),
    ("source_epoch", ifPresent (checkString "source_epoch")),
    ("source_run", ifPresent (checkString "source_run")),
    ("cached", ifPresent (checkBool "cached"))]

/-- An aggregate, as `GenerationScore.to_dict` gives it. -/
abbrev Score (F : Type) := Dict String (PyValue F)

/-- `decode_gen_score`. -/
def decodeGenScore (generationId : String) (value : PyValue F) : Except String (Score F) :=
  match value with
  | .dict fields => do
      (checks rt generationId).forM fun entry => entry.2 (Dict.get? fields entry.1)
      require (rt.dumps value).isSome "gen_score: not JSON serializable"
      pure fields
  | _ => .error "gen_score: expected a JSON object"

/-! ## Reading -/

/-- The two files of a generation. -/
structure Files where
  flat : Option Text := none
  history : Option Text := none
  deriving DecidableEq, Repr

/-- `read_gen_score`. -/
def readGenScore (generationId : String) (files : Files) : Except String (Option (Score F)) :=
  match files.flat with
  | none => .ok none
  | some text =>
      match rt.loads text with
      | none => .error "gen_score.json does not parse"
      | some value => (decodeGenScore rt generationId value).map some

/-- `ScoreMeasurement`. -/
structure Measurement (F : Type) where
  score : Score F
  seq : Nat
  roundIndex : Option Nat

/-- The aggregate of a history record: all but its own two keys. -/
def withoutCoordinates (fields : Dict String (PyValue F)) : Dict String (PyValue F) :=
  fields.filter fun field => ! ["seq", "round_index"].contains field.1

/-- A decoded line of the history. -/
def decodeRow (generationId : String) (index seq : Nat) (value : PyValue F) :
    Except String (Measurement F) :=
  match value with
  | .dict fields => do
      let score ← decodeGenScore rt generationId (.dict (withoutCoordinates fields))
      scoreCount "seq" (Dict.getD fields "seq" .none)
      require (match Dict.get? fields "seq" with | some (.int n) => n == seq | _ => false)
        s!"gen_score.history: expected seq {seq}"
      match Dict.get? fields "round_index" with
      | none => .error "gen_score.history: missing round_index"
      | some .none => pure { score := score, seq := seq, roundIndex := none }
      | some (.int n) => do
          scoreCount "round_index" (.int n : PyValue F)
          pure { score := score, seq := seq, roundIndex := some n.toNat }
      | some _ => .error "gen_score: round_index must be a nonnegative integer"
  | _ => .error s!"gen_score.history: line {index + 1} must be an object"

/-- The lines of `_score_history` from `index` on: the rows, and the text to keep if the last
line is torn. -/
def historyLines (generationId : String) :
    List Text → Nat → List (Measurement F) → Text →
      Except String (List (Measurement F) × Option Text)
  | [], _, rows, _ => .ok (rows, none)
  | line :: rest, index, rows, accepted =>
      if line.strip = [] then
        historyLines generationId rest (index + 1) rows (accepted ++ line)
      else
        match rt.loads line with
        | none =>
            if rest = [] ∧ line.endsWith "\n" = false then .ok (rows, some accepted)
            else .error s!"gen_score.history: line {index + 1} does not parse"
        | some value => do
            let row ← decodeRow rt generationId index rows.length value
            historyLines generationId rest (index + 1) (rows ++ [row]) (accepted ++ line)

/-- `_read_score_history`: the rows, the text to keep, and whether the tail is torn. -/
def readHistory (generationId : String) (files : Files) :
    Except String (List (Measurement F) × Text × Bool) :=
  match files.history with
  | none => .ok ([], [], false)
  | some text => do
      let (rows, kept) ← historyLines rt generationId text.splitLinesKeep 0 [] []
      pure (rows, kept.getD text, kept.getD text != text)

/-! ## Writing -/

/-- The arguments of a call; `round_index` may be any integer. -/
structure Call (F : Type) where
  aggregate : Dict String (PyValue F)
  roundIndex : Option Int := none

/-- The aggregate with its format stamp and its generation. -/
def Call.payload (call : Call F) (generationId : String) : Dict String (PyValue F) :=
  Dict.setdefault (Dict.setdefault call.aggregate "format_version" (.int 1))
    "generation_id" (.str generationId)

/-- A round index as JSON. -/
def roundValue : Option Int → PyValue F
  | none => .none
  | some n => .int n

/-- The record a history line holds. -/
def record (score : Score F) (seq : Nat) (roundIndex : Option Int) : Dict String (PyValue F) :=
  Dict.set (Dict.set score "seq" (.int seq)) "round_index" (roundValue roundIndex)

/-- The two writes of a call that has passed its checks. -/
structure Plan where
  /-- The history line, behind the newline the file still lacks. -/
  line : Text
  /-- What precedes the line if the history is replaced as a whole. -/
  kept : Text
  replaces : Bool
  flat : Text

/-- `write_gen_score` up to its first write. -/
def prepare (generationId : String) (files : Files) (call : Call F) : Except String Plan := do
  match call.roundIndex with
  | none => pure ()
  | some n => scoreCount "round_index" (.int n : PyValue F)
  let score ← decodeGenScore rt generationId (.dict (call.payload generationId))
  let _ ← readGenScore rt generationId files
  let (rows, text, torn) ← readHistory rt generationId files
  match rt.dumps (.dict (record score rows.length call.roundIndex)),
      rt.dumpsIndent (.dict score) with
  | some line, some flat =>
      pure { line := (if text ≠ [] ∧ text.endsWith "\n" = false then ['\n'] else []) ++
               line ++ ['\n']
             kept := text
             replaces := torn || files.history.isNone
             flat := flat ++ ['\n'] }
  | _, _ => .error "gen_score: not JSON serializable"

/-- Where a call is cut. -/
inductive Stop
  /-- After that many bytes of the appended line; a replaced history is not replaced. -/
  | inLine (bytes : Nat)
  /-- The history is written, the flat aggregate is not. -/
  | between
  | never
  deriving DecidableEq, Repr

/-- The history a plan leaves when its history write is done. -/
def Plan.history (plan : Plan) (files : Files) : Text :=
  (if plan.replaces then plan.kept else files.history.getD []) ++ plan.line

/-- The files a call leaves; `json.dumps` writes ASCII, so a byte is a character. -/
def Plan.leaves (plan : Plan) (files : Files) : Stop → Files
  | .inLine k =>
      if plan.replaces then files
      else { files with history := some (files.history.getD [] ++ plan.line.take k) }
  | .between => { files with history := some (plan.history files) }
  | .never => { flat := some plan.flat, history := some (plan.history files) }

/-- The complete JSON text of the measurement is in the history. -/
def Plan.reaches (plan : Plan) : Stop → Bool
  | .inLine k => !plan.replaces && decide (plan.line.length ≤ k + 1)
  | .between => true
  | .never => true

/-- One `write_gen_score`, cut or not: the files it leaves, and the calls whose measurement
reached the history so far. -/
def turn (generationId : String) (state : Files × List (Call F)) (step : Call F × Stop) :
    Files × List (Call F) :=
  match prepare rt generationId state.1 step.1 with
  | .error _ => state
  | .ok plan =>
      (plan.leaves state.1 step.2,
        if plan.reaches step.2 then state.2 ++ [step.1] else state.2)

/-- The calls of a generation from its first, each cut where it says. -/
def run (generationId : String) (steps : List (Call F × Stop)) : Files × List (Call F) :=
  steps.foldl (turn rt generationId) ({}, [])

end Zicato.GenScore
