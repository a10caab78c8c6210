import Zicato.Dict
import Zicato.LedgerTamper
import Zicato.WriteOnce

/-! # The transition observer

The observer of `crates/supervisor/src/ledger.rs` stamps each decision, each
contract hash and each alarm into the ledger the first time it sees it.  It
carries what it has recorded from tick to tick, and reads it back from the
ledger when the integrity loop starts and after a scan panicked.

Every append takes the clock and the outcome of its system calls from `io`, by
the number of appends before it; a process that died in one does nothing more
until the next start. -/
namespace Zicato.Observer

open Ledger

/-! ## Reading the ledger -/

/-- `payload.get(key).and_then(|v| v.as_str())`. -/
def text : Json → String → Option String
  | .obj fields, key =>
      match Dict.get? fields key with
      | some (.str s) => some s
      | _ => none
  | _, _ => none

/-- `text(key).unwrap_or_default()`. -/
def field (payload : Json) (key : String) : String := (text payload key).getD ""

/-- Every `RecordKind`. -/
def recordKinds : List RecordKind :=
  [.supervisorStart, .watchdogAction, .decisionObserved, .contractChange, .diffContainmentAlert,
    .promotionContradiction, .divergenceFinding, .historyChanged, .ledgerIntegrity]

/-- The kind a record names; a kind of another release is none. -/
def kindOfStr (s : String) : Option RecordKind := recordKinds.find? fun k => k.asStr == s

/-- One persisted record, parsed for reading its fields. -/
structure Record where
  seq : Nat
  prev : String
  ts : String
  kind : RecordKind
  payload : Json
  digest : String

variable (codec : LedgerCodec) (value : Bytes → Option Json)

/-- A line read as a record; `value` is the value that `serde_json` reads from
the bytes of the payload. -/
def Record.ofLine (line : Line) : Option Record :=
  match kindOfStr line.kind, value line.payload with
  | some kind, some payload => some
      { seq := line.seq, prev := line.prev, ts := line.ts, kind := kind, payload := payload
        digest := line.digest }
  | _, _ => none

/-- `read_records`: every line that parses as a record, in file order. -/
def readRecords (file : File) : List Record :=
  (fileRecords codec file).filterMap (Record.ofLine value)

/-! ## What the observer holds -/

/-- `TransitionObserver`. -/
structure TransitionObserver where
  /-- The decision first recorded per epoch and generation; `true` is a
  promotion. -/
  recordedDecisions : Dict (String × String) Bool := []
  /-- The contract hash first recorded per epoch. -/
  recordedContract : Dict String String := []
  /-- The alarms recorded, by field, epoch, generation or `""`, and observed
  value. -/
  alarms : List (String × String × String × String) := []
  /-- What did not resolve on the previous tick, by field, epoch and generation
  or `""`. -/
  absent : List (String × String × String) := []

/-- How a decision is recorded. -/
def decisionLabel (promoted : Bool) : String := if promoted then "promote" else "reject"

/-- `LedgerHistory`: what the ledger already records. -/
structure LedgerHistory where
  observer : TransitionObserver := {}
  diffAlerts : List (String × String) := []
  contradictions : List (String × String) := []
  divergences : List (String × Option String) := []

/-- One record of `LedgerHistory::load`. -/
def LedgerHistory.loadRecord (history : LedgerHistory) (rec : Record) : LedgerHistory :=
  let observer := history.observer
  let field := field rec.payload
  match rec.kind with
  | .decisionObserved =>
      { history with observer := { observer with
          recordedDecisions := observer.recordedDecisions.setdefault
            (field "epoch_id", field "generation_id") (field "decision" == "promote") } }
  | .contractChange =>
      if field "contract_hash" = "" then history
      else
        { history with observer := { observer with
            recordedContract := observer.recordedContract.setdefault
              (field "epoch_id") (field "contract_hash") } }
  | .historyChanged =>
      { history with observer := { observer with
          alarms := observer.alarms.insert
            (field "field", field "epoch_id", field "generation_id", field "observed") } }
  | .diffContainmentAlert =>
      { history with diffAlerts :=
          history.diffAlerts.insert (field "epoch_id", field "generation_id") }
  | .promotionContradiction =>
      { history with contradictions :=
          history.contradictions.insert (field "epoch_id", field "challenger_generation_id") }
  | .divergenceFinding =>
      { history with divergences :=
          history.divergences.insert (field "code", text rec.payload "generation_id") }
  | .supervisorStart => history
  | .watchdogAction => history
  | .ledgerIntegrity => history

/-- `LedgerHistory::load`. -/
def LedgerHistory.load (file : File) : LedgerHistory :=
  (readRecords codec value file).foldl LedgerHistory.loadRecord {}

/-! ## Observing -/

/-- The clock and the system calls of one append. -/
structure AppendIo where
  ts : String
  outcome : WriteOutcome

/-- The observer at work: the ledger and its file, the memory, the number of
appends of the run so far, and what the appends since the memory was loaded
returned. -/
structure Watch where
  ledger : State := {}
  observer : TransitionObserver := {}
  calls : Nat := 0
  returned : List (Option String) := []

/-- What an append returns: nothing when the process died in it, else the
digest of the record, or `None`. -/
def returns (appended : Appended) : Option (Option String) :=
  match appended.tail, appended.attempt with
  | none, _ => none
  | some _, some a => some (if a.outcome = .done then some a.line.digest else none)
  | some _, none => some none

variable (io : Nat → AppendIo)

/-- `ledger.append` as the observer calls it: what it returns is not read. -/
def Watch.append (w : Watch) (kind : RecordKind) (payload : Json) : Watch :=
  match w.ledger.ledger with
  | none => w
  | some ledger =>
      let call := io w.calls
      { w with
        ledger := Ledger.step codec w.ledger (.appends kind payload call.ts call.outcome)
        calls := w.calls + 1
        returned := w.returned ++ (returns (Ledger.append codec ledger.tail w.ledger.file kind
          payload call.ts call.outcome)).toList }

/-- An optional string as JSON. -/
def optStr : Option String → Json
  | none => .null
  | some s => .str s

/-- `alarm`: one `history_changed` record per distinct observed value. -/
def Watch.alarm (field epochId : String) (generationId : Option String)
    (recorded observed : String) (w : Watch) : Watch :=
  let key := (field, epochId, generationId.getD "", observed)
  if key ∈ w.observer.alarms then w
  else
    Watch.append codec io
      { w with observer := { w.observer with alarms := w.observer.alarms.insert key } }
      .historyChanged
      (.obj [("field", .str field), ("epoch_id", .str epochId),
        ("generation_id", optStr generationId), ("recorded", .str recorded),
        ("observed", .str observed)])

/-- One recorded value that is missing now: an alarm if it was missing on the
previous tick too. -/
def Watch.absence (field : String) (acc : Watch × List (String × String × String))
    (missing : String × Option String × String) : Watch × List (String × String × String) :=
  let (epochId, generationId, recorded) := missing
  let key := (field, epochId, generationId.getD "")
  (if key ∈ acc.1.observer.absent then
      acc.1.alarm codec io field epochId generationId recorded "absent"
    else acc.1,
    acc.2.insert key)

/-- `absences`. -/
def Watch.absences (field : String) (missing : List (String × Option String × String))
    (w : Watch) : Watch :=
  let (w, now) := missing.foldl (Watch.absence codec io field) (w, [])
  { w with observer := { w.observer with
      absent := w.observer.absent.filter (fun key => key.1 ≠ field) ∪ now } }

/-- The state of the loop of `observe_decisions`. -/
structure Observing where
  watch : Watch
  resolved : List (String × String) := []
  recorded : Nat := 0

/-- One generation of `observe_decisions`; one in flight has no decision yet. -/
def Observing.decision (acc : Observing) (generation : String × String × Option Bool) :
    Observing :=
  match generation with
  | (_, _, none) => acc
  | (epochId, generationId, some promoted) =>
      let key := (epochId, generationId)
      let w := acc.watch
      let resolved := acc.resolved.insert key
      match w.observer.recordedDecisions.get? key with
      | some first =>
          if first ≠ promoted then
            { watch := w.alarm codec io "decision" epochId (some generationId)
                (decisionLabel first) (decisionLabel promoted)
              resolved := resolved, recorded := acc.recorded }
          else { watch := w, resolved := resolved, recorded := acc.recorded }
      | none =>
          { watch := Watch.append codec io
              { w with observer := { w.observer with
                  recordedDecisions := w.observer.recordedDecisions.set key promoted } }
              .decisionObserved
              (.obj [("epoch_id", .str epochId), ("generation_id", .str generationId),
                ("decision", .str (decisionLabel promoted))])
            resolved := resolved, recorded := acc.recorded + 1 }

/-- The order in which a `HashMap` yields its entries. -/
structure HashOrder where
  arrange : Dict (String × String) Bool → Dict (String × String) Bool
  perm : ∀ d, (arrange d).Perm d

/-- `observe_decisions`: the watch, and the number of decisions newly recorded. -/
def Watch.observeDecisions (generations : List (String × String × Option Bool))
    (order : HashOrder) (w : Watch) : Watch × Nat :=
  let acc := generations.foldl (Observing.decision codec io) { watch := w }
  let missing := ((order.arrange acc.watch.observer.recordedDecisions).filter
      (fun e => e.1 ∉ acc.resolved)).map
    fun e => (e.1.1, some e.1.2, decisionLabel e.2)
  (acc.watch.absences codec io "decision" missing, acc.recorded)

/-- `observe_contract`: the watch, and whether the hash was newly recorded. -/
def Watch.observeContract (epochId contractHash : String) (w : Watch) : Watch × Bool :=
  if contractHash = "" then (w, false)
  else
    match w.observer.recordedContract.get? epochId with
    | some first =>
        if first ≠ contractHash then
          (w.alarm codec io "contract_hash" epochId none first contractHash, false)
        else (w, false)
    | none =>
        (Watch.append codec io
          { w with observer := { w.observer with
              recordedContract := w.observer.recordedContract.set epochId contractHash } }
          .contractChange
          (.obj [("epoch_id", .str epochId), ("contract_hash", .str contractHash)]), true)

/-- One epoch of `observe_contracts`. -/
def Watch.contract (acc : Watch × List (String × Option String × String))
    (epoch : String × Option String) : Watch × List (String × Option String × String) :=
  match epoch.2.filter (· ≠ ""), acc.1.observer.recordedContract.get? epoch.1 with
  | some hash, _ => ((acc.1.observeContract codec io epoch.1 hash).1, acc.2)
  | none, some first => (acc.1, acc.2 ++ [(epoch.1, none, first)])
  | none, none => acc

/-- `observe_contracts`. -/
def Watch.observeContracts (epochs : List (String × Option String)) (w : Watch) : Watch :=
  let (w, missing) := epochs.foldl (Watch.contract codec io) (w, [])
  w.absences codec io "contract_hash" missing

/-- What the canonical state shows a tick, and the system calls of its check. -/
structure View where
  generations : List (String × String × Option Bool)
  currentEpoch : Option String
  contractHash : String → Option String
  order : HashOrder
  check : AppendIo

/-- `observe_transitions`: the decisions, then the contract hash of every epoch
recorded and of the current one. -/
def Watch.observeTransitions (view : View) (w : Watch) : Watch :=
  let w := (w.observeDecisions codec io view.generations view.order).1
  let epochs := ((w.observer.recordedContract.keys ++ view.currentEpoch.toList).mergeSort
    (fun a b => decide (a ≤ b))).eraseReps
  w.observeContracts codec io (epochs.map fun epochId => (epochId, view.contractHash epochId))

/-! ## The integrity loop -/

/-- The loop: `loaded` says whether it carries a memory. -/
structure Loop where
  watch : Watch := {}
  loaded : Bool := false

/-- The kinds that only the observer appends. -/
def observed : RecordKind → Bool
  | .decisionObserved => true
  | .contractChange => true
  | .historyChanged => true
  | _ => false

/-- What happens to a supervisor. -/
inductive Event
  /-- A supervisor starts: it opens the ledger. -/
  | starts (io : OpenIo)
  /-- One tick of the integrity loop. -/
  | ticks (view : View)
  /-- A scan of the loop panics: the memory is lost. -/
  | panics
  /-- Another part of the supervisor appends a record of its own. -/
  | appends (kind : RecordKind) (h : observed kind = false) (payload : Json) (ts : String)
      (outcome : WriteOutcome)

/-- `ledger.check()`. -/
def Watch.check (w : Watch) (call : AppendIo) : Watch :=
  match w.ledger.ledger with
  | none => w
  | some ledger =>
      let checked := Ledger.check codec ledger w.ledger.file call.ts call.outcome
      { w with ledger :=
          { file := checked.file, ledger := checked.ledger
            history := w.ledger.history ++ checked.attempts } }

/-- A tick: load the memory if none is carried, check the chain, observe. -/
def Loop.tick (s : Loop) (view : View) : Loop :=
  let w := if s.loaded then s.watch
    else { s.watch with
      observer := (LedgerHistory.load codec value s.watch.ledger.file).observer, returned := [] }
  { watch := (w.check codec view.check).observeTransitions codec io view, loaded := true }

/-- What an event does. -/
def Loop.step (s : Loop) : Event → Loop
  | .starts call =>
      { watch := { s.watch with ledger := Ledger.step codec s.watch.ledger (.opens call) }
        loaded := false }
  | .ticks view =>
      -- a tick needs a running process
      if s.watch.ledger.ledger.isSome then s.tick codec value io view else s
  | .panics => { s with loaded := false }
  | .appends kind _ payload ts outcome =>
      { s with watch := { s.watch with
          ledger := Ledger.step codec s.watch.ledger (.appends kind payload ts outcome) } }

/-- The run of `events` from an absent file. -/
def Loop.run (events : List Event) : Loop := events.foldl (Loop.step codec value io) {}

end Zicato.Observer
