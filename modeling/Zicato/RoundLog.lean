import Zicato.PyExcept
import Zicato.PyText
import Zicato.PyValue

/-! # The round log

`epoch/round_log.py` with `append_jsonl` of `storage/files.py`: one round's events
as JSON lines, written by a single writer that keeps the next sequence number
between appends.  An append takes where it stops as an argument, so that a run
may let it return, raise or be cut by a crash at any point.

`JsonRuntime` names what the log calls of the standard library; values that JSON
cannot tell apart, a tuple and a list, are one value here. -/
namespace Zicato.RoundLog

open Ledger (File newline)

variable {F : Type}

/-- The library code the log calls. -/
structure JsonRuntime (F : Type) where
  /-- `json.dumps(value, separators=(",", ":"))`; none when it raises. -/
  dumps : PyValue F → Option Text
  /-- `json.loads`; none when it raises. -/
  loads : Text → Option (PyValue F)
  /-- `str(value)` of a value that is no string. -/
  str : PyValue F → String
  /-- `int(value)` of a value that is no integer; none when it raises. -/
  int : PyValue F → Option Int
  /-- `bool(x)` of a float. -/
  truthy : F → Bool

variable (rt : JsonRuntime F)

/-- `str` of a value. -/
def JsonRuntime.strOf : PyValue F → String
  | .str s => s
  | value => rt.str value

/-- `int` of a value. -/
def JsonRuntime.intOf : PyValue F → Option Int
  | .int n => some n
  | value => rt.int value

/-- `bool` of a value. -/
def JsonRuntime.truthyOf : PyValue F → Bool
  | .none => false
  | .bool b => b
  | .int n => n ≠ 0
  | .float x => rt.truthy x
  | .str s => s ≠ ""
  | .list items => !items.isEmpty
  | .dict fields => !fields.isEmpty

/-! ## Events -/

/-- The classes of `EVENT_TYPES`. -/
inductive EventType
  | roundOpened
  | proposalAttempted
  | proposalEpisodeSettled
  | candidateSampled
  | candidateScreened
  | critiqueSelected
  | experimentMinted
  | patchesApplied
  | harnessLoaded
  | validationFailed
  | unitCompleted
  | gateEvaluated
  | holdoutReleased
  | evidenceReplicated
  | decisionRecorded
  | frontierUpdated
  | roundClosed
  deriving DecidableEq, Repr

namespace EventType

/-- `TYPE`. -/
def token : EventType → String
  | roundOpened => "round_opened"
  | proposalAttempted => "proposal_attempted"
  | proposalEpisodeSettled => "proposal_episode_settled"
  | candidateSampled => "candidate_sampled"
  | candidateScreened => "candidate_screened"
  | critiqueSelected => "critique_selected"
  | experimentMinted => "experiment_minted"
  | patchesApplied => "patches_applied"
  | harnessLoaded => "harness_loaded"
  | validationFailed => "validation_failed"
  | unitCompleted => "unit_completed"
  | gateEvaluated => "gate_evaluated"
  | holdoutReleased => "holdout_released"
  | evidenceReplicated => "evidence_replicated"
  | decisionRecorded => "decision_recorded"
  | frontierUpdated => "frontier_updated"
  | roundClosed => "round_closed"

/-- Every type of event. -/
def all : List EventType :=
  [roundOpened, proposalAttempted, proposalEpisodeSettled, candidateSampled, candidateScreened,
    critiqueSelected, experimentMinted, patchesApplied, harnessLoaded, validationFailed,
    unitCompleted, gateEvaluated, holdoutReleased, evidenceReplicated, decisionRecorded,
    frontierUpdated, roundClosed]

/-- `EVENT_TYPES.get`. -/
def ofToken? (token : String) : Option EventType := all.find? (·.token = token)

/-- The fields of a class with their defaults. -/
def defaults : EventType → Dict String (PyValue F)
  | roundOpened => [("contract_hash", .str "")]
  | proposalAttempted => [("errors", .list []), ("slot_index", .none)]
  | proposalEpisodeSettled => [("kind", .str "failed"), ("code", .str ""), ("message", .str "")]
  | candidateSampled =>
      [("i", .int 0), ("n", .int 1), ("revise", .bool false), ("recombined", .bool false)]
  | candidateScreened =>
      [("index", .int 0), ("vetoed", .bool false), ("confirmed", .bool false),
        ("screen_summary", .dict []), ("revise", .bool false)]
  | critiqueSelected =>
      [("index", .int 0), ("reason", .str ""), ("slate", .list []), ("rationale", .str "")]
  | experimentMinted => [("experiment_id", .str "")]
  | patchesApplied => [("generation_id", .str "")]
  | harnessLoaded =>
      [("generation_id", .str ""), ("entrypoint_file", .str ""), ("trees_verified", .list []),
        ("trees_never_imported", .list [])]
  | validationFailed => [("findings", .list [])]
  | unitCompleted => [("entry_id", .str ""), ("side", .str "")]
  | gateEvaluated =>
      [("rule_fired", .str ""), ("decision", .str ""), ("champion_scalar", .none),
        ("challenger_scalar", .none), ("margin_required", .none),
        ("attributable_regressions", .list [])]
  | holdoutReleased => [("confirmed", .bool false)]
  | evidenceReplicated => [("ci_state", .dict [])]
  | decisionRecorded => [("decision", .str ""), ("provenance", .dict [])]
  | frontierUpdated => [("admitted", .list []), ("retired", .list []), ("size", .int 0)]
  | roundClosed => []

end EventType

/-- An instance of an event class: a value for each of its fields. -/
@[ext] structure RoundEvent (F : Type) where
  type : EventType
  values : Dict String (PyValue F)
  names : values.keys = (type.defaults : Dict String (PyValue F)).keys

/-- `cls(**kwargs)` with the fields of a class that `payload` has; every field has
a default. -/
def EventType.build (type : EventType) (payload : Dict String (PyValue F)) : RoundEvent F where
  type := type
  values := type.defaults.map fun (name, default) => (name, payload.getD name default)
  names := by simp [Dict.keys, Function.comp_def]

/-- `_decode_event`. -/
def decodeEvent (token : String) (payload : Dict String (PyValue F)) : Option (RoundEvent F) :=
  (EventType.ofToken? token).map (·.build payload)

/-! ## Scopes -/

/-- `RoundEventScope`. -/
structure RoundEventScope (F : Type) where
  generationId : String := ""
  step : String := ""
  attributes : Dict String (PyValue F) := []

namespace RoundEventScope

/-- The keys a scope reads. -/
def known : List String := ["generation_id", "step", "attributes"]

/-- `coordinate`: the named value, else the copy popped from the attributes, and
the attributes left. -/
def coordinate (fields extras : Dict String (PyValue F)) (name : String) :
    PyValue F × Dict String (PyValue F) :=
  let (demoted, rest) := extras.pop name
  match fields.getD name .none with
  | .none => (demoted.getD .none, rest)
  | value => (value, rest)

/-- The attributes of a wire scope with its unknown coordinates. -/
def extras (fields : Dict String (PyValue F)) : Dict String (PyValue F) :=
  let attributes := match fields.getD "attributes" (.dict []) with
    | .dict attributes => attributes
    | _ => []
  (fields.filter fun (key, _) => !known.contains key).foldl
    (fun extras (key, value) => extras.set key value) attributes

/-- `str(value or "")`. -/
def text (value : PyValue F) : String := if rt.truthyOf value then rt.strOf value else ""

/-- `from_payload`. -/
def fromPayload : PyValue F → RoundEventScope F
  | .dict fields =>
      let (generationId, extras) := coordinate fields (extras fields) "generation_id"
      let (step, extras) := coordinate fields extras "step"
      { generationId := text rt generationId, step := text rt step, attributes := extras }
  | _ => {}

/-- `to_payload`: only the coordinates that are set. -/
def toPayload (scope : RoundEventScope F) : Dict String (PyValue F) :=
  (if scope.generationId = "" then [] else [("generation_id", .str scope.generationId)]) ++
    (if scope.step = "" then [] else [("step", .str scope.step)]) ++
    (if scope.attributes.isEmpty then [] else [("attributes", .dict scope.attributes)])

end RoundEventScope

/-- The `scope` argument of an append. -/
inductive ScopeArg (F : Type)
  | given (scope : RoundEventScope F)
  | wire (payload : PyValue F)

/-- The scope an argument stands for. -/
def ScopeArg.resolve (scope : ScopeArg F) : RoundEventScope F :=
  match scope with
  | given scope => scope
  | wire payload => .fromPayload rt payload

/-! ## Records -/

/-- What an append is about to write. -/
structure Record (F : Type) where
  seq : Int
  ts : String
  event : RoundEvent F
  scope : RoundEventScope F

/-- `RoundLogEnvelope`. -/
structure Envelope (F : Type) where
  seq : Int
  ts : String
  type : String
  payload : Dict String (PyValue F)
  event : Option (RoundEvent F)
  scope : RoundEventScope F

/-- The wire record. -/
def Record.value (record : Record F) : PyValue F :=
  .dict
    [("seq", .int record.seq), ("ts", .str record.ts), ("type", .str record.event.type.token),
      ("scope", .dict record.scope.toPayload), ("payload", .dict record.event.values)]

/-- What an append returns for a record. -/
def Record.envelope (record : Record F) : Envelope F where
  seq := record.seq
  ts := record.ts
  type := record.event.type.token
  payload := record.event.values
  event := some record.event
  scope := record.scope

/-- A record as a reader has it: the scope is what its payload says. -/
def Record.reread (record : Record F) : Envelope F :=
  { record.envelope with scope := .fromPayload rt (.dict record.scope.toPayload) }

/-! ## Reading -/

/-- What the log raises. -/
inductive Raised
  /-- `UnicodeDecodeError` of the complete lines. -/
  | undecodable
  /-- `round log … line {n} is corrupt (the append-only invariant was violated)`. -/
  | corrupt (lineNo : Nat)
  /-- A line is JSON and no object. -/
  | notAnObject
  /-- `seq` is no integer. -/
  | badSeq
  deriving DecidableEq, Repr

/-- The complete lines of a file, `data[: data.rfind(b"\n") + 1]`. -/
def complete (bytes : Bytes) : Bytes := bytes.rdropWhile (· ≠ newline)

/-- The envelope of a decoded line. -/
def envelopeOf (record : Dict String (PyValue F)) : Except Raised (Envelope F) :=
  let payload := match record.get? "payload" with
    | some (.dict payload) => payload
    | _ => []
  let type := rt.strOf (record.getD "type" (.str ""))
  match rt.intOf (record.getD "seq" (.int 0)) with
  | none => .error .badSeq
  | some seq =>
      .ok {
        seq := seq
        ts := rt.strOf (record.getD "ts" (.str ""))
        type := type
        payload := payload
        event := decodeEvent type payload
        scope := .fromPayload rt (record.getD "scope" .none) }

/-- One turn of the loop of `read`, for the line with number `index + 1`. -/
def decodeLine (line : Text) (index : Nat) : Except Raised (Envelope F) :=
  match rt.loads line with
  | none => .error (.corrupt (index + 1))
  | some (.dict record) => envelopeOf rt record
  | some _ => .error .notAnObject

/-- `RoundLog.read`. -/
def read (file : File) : Except Raised (List (Envelope F)) :=
  match file with
  | none => .ok []
  | some data =>
      match Text.decode (complete data) with
      | none => .error .undecodable
      | some text =>
          let lines := (Text.splitLines text).zipIdx.filter fun (line, _) => !line.strip.isEmpty
          lines.mapM fun (line, index) => decodeLine rt line.strip index

/-- `RoundLog.tail`. -/
def tail (file : File) : Except Raised (Option (Envelope F)) :=
  (read rt file).map (·.getLast?)

/-- `_truncate_torn_tail`. -/
def truncateTornTail (file : File) : File := file.map complete

/-! ## Writing -/

/-- The writer's state, `_next_seq`. -/
structure Writer where
  nextSeq : Option Int := none
  deriving DecidableEq, Repr

/-- Where an append stops before it returns. -/
inductive Stop
  /-- Before a torn tail is cut. -/
  | reading
  /-- The torn tail is cut, the sequence number not yet kept. -/
  | repaired
  /-- The sequence number is kept, the record being built. -/
  | prepared
  /-- The sequence number is dropped, the file not yet open. -/
  | forgotten
  /-- The file is open and so many bytes of the line have reached it. -/
  | wrote (reached : Nat)
  /-- The next sequence number is kept. -/
  | counted
  deriving DecidableEq, Repr

/-- How an append ends. -/
inductive Fate
  | returns
  | raises (stop : Stop)
  | dies (stop : Stop)
  deriving DecidableEq, Repr

/-- Where a call stops, if it does. -/
def Fate.stop : Fate → Option Stop
  | returns => none
  | raises stop => some stop
  | dies stop => some stop

/-- The writer an append leaves; none when the process died. -/
def Fate.writer (fate : Fate) (nextSeq : Option Int) : Option Writer :=
  match fate with
  | dies _ => none
  | _ => some { nextSeq := nextSeq }

/-- A record whose line was handed to the file: whether the line with its newline
reached it whole, and what the append returned. -/
structure Attempt (F : Type) where
  record : Record F
  reached : Bool
  returned : Option (Envelope F)

/-- What an append leaves. -/
structure Appended (F : Type) where
  file : File
  writer : Option Writer
  attempt : Option (Attempt F) := none

/-- The sequence number that follows the last complete record. -/
def seqAfter (tail : Option (Envelope F)) : Int :=
  match tail with
  | none => 1
  | some last => last.seq + 1

/-- The sequence number an append uses and the file it appends to. -/
def prepare (writer : Writer) (file : File) : Except Raised (Int × File) :=
  match writer.nextSeq with
  | some seq => .ok (seq, file)
  | none => do
      let tail ← tail rt file
      .ok (seqAfter tail, truncateTornTail file)

/-- `append_jsonl` refuses a file whose last record has no newline. -/
def unterminated (file : File) : Bool :=
  match (file.getD []).getLast? with
  | none => false
  | some last => last ≠ newline

/-- The bytes of one JSON line. -/
def lineBytes (text : Text) : Bytes := Text.encode (text ++ ['\n'])

/-- `append_jsonl` and the steps of `append` after it. -/
def commit (record : Record F) (file : File) (fate : Fate) : Appended F :=
  match rt.dumps record.value with
  | none => { file := file, writer := fate.writer none }
  | some text =>
      if unterminated file then { file := file, writer := fate.writer none }
      else
        match fate.stop with
        | none =>
            { file := some (file.getD [] ++ lineBytes text)
              writer := fate.writer (some (record.seq + 1))
              attempt := some
                { record := record, reached := true, returned := some record.envelope } }
        | some (.wrote reached) =>
            { file := some (file.getD [] ++ (lineBytes text).take reached)
              writer := fate.writer none
              attempt := some
                { record := record, reached := (lineBytes text).length ≤ reached, returned := none } }
        | some _ =>
            { file := some (file.getD [] ++ lineBytes text)
              writer := fate.writer (some (record.seq + 1))
              attempt := some { record := record, reached := true, returned := none } }

/-- `RoundLog.append`. -/
def append (writer : Writer) (file : File) (event : RoundEvent F) (scope : ScopeArg F)
    (ts : String) (fate : Fate) : Appended F :=
  if fate.stop = some .reading then { file := file, writer := fate.writer writer.nextSeq }
  else
    match prepare rt writer file with
    | .error _ => { file := file, writer := fate.writer writer.nextSeq }
    | .ok (seq, file) =>
        let record := { seq := seq, ts := ts, event := event, scope := scope.resolve rt }
        match fate.stop with
        | some .repaired => { file := file, writer := fate.writer writer.nextSeq }
        | some .prepared => { file := file, writer := fate.writer (some seq) }
        | some .forgotten => { file := file, writer := fate.writer none }
        | _ => commit rt record file fate

/-! ## Runs -/

/-- What happens to one round log. -/
inductive Event (F : Type)
  /-- A new writer is made, in this or in a new process. -/
  | opens
  | appends (event : RoundEvent F) (scope : ScopeArg F) (ts : String) (fate : Fate)

/-- The file, the writer and what was attempted. -/
structure State (F : Type) where
  file : File := none
  /-- The live writer. -/
  writer : Option Writer := none
  history : List (Attempt F) := []

/-- What an event does. -/
def step (s : State F) : Event F → State F
  | .opens => { s with writer := some {} }
  | .appends event scope ts fate =>
      match s.writer with
      | none => s
      | some writer =>
          let done := append rt writer s.file event scope ts fate
          { file := done.file
            writer := done.writer
            history := s.history ++ done.attempt.toList }

/-- What a list of events does. -/
def run (events : List (Event F)) : State F := events.foldl (step rt) {}

/-- The records whose line reached the file whole, in the order of their appends. -/
def landed (history : List (Attempt F)) : List (Record F) :=
  (history.filter (·.reached)).map (·.record)

end Zicato.RoundLog
