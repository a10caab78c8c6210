import Zicato.PyFloat
import Zicato.PyValue
import Zicato.Durable

/-! # The holdout ladder

`tournament/ladder.py` decides which holdout results are released;
`tournament/governance.py` keeps its state in a file, charges a query before the
holdout is run and settles it afterwards.  A call reads the files under the
epoch's lock and then is an `Action`: the writes it makes, in order, and what it
returns or raises. -/
namespace Zicato.Ladder

variable {F : Type}

/-- `core/scoring_config.py`'s `LadderConfig`, whose constructor refuses a
negative budget. -/
structure LadderConfig (F : Type) where
  enabled : Bool := true
  threshold : Option F := none
  budget : Int := 16
  budget_nonneg : 0 ≤ budget := by decide

/-- What the ladder reads of `ScoringWeights`. -/
structure ScoringWeights (F : Type) where
  promoteMargin : F
  ladder : LadderConfig F

/-- `LadderState`. -/
structure LadderState (F : Type) where
  budgetTotal : Int
  budgetRemaining : Int
  /-- The lowest scalar released so far. -/
  bestHoldoutScalar : Option F := none
  bestConfirmed : Option Bool := none
  deriving DecidableEq

/-- `LadderRelease`. -/
structure LadderRelease (F : Type) where
  released : Bool
  confirmed : Option Bool
  holdoutScalar : Option F
  threshold : F
  state : LadderState F
  deriving DecidableEq

/-! ## Decisions -/

/-- `LadderState.seed`. -/
def LadderState.seed (cfg : LadderConfig F) : LadderState F :=
  { budgetTotal := cfg.budget, budgetRemaining := cfg.budget }

/-- `effective_threshold`. -/
def effectiveThreshold (cfg : LadderConfig F) (weights : ScoringWeights F) : F :=
  cfg.threshold.getD weights.promoteMargin

/-- The state after one charge, `none` when the budget is spent. -/
def reserveHoldoutQuery (state : LadderState F) : Option (LadderState F) :=
  if state.budgetRemaining ≤ 0 then none
  else some { state with budgetRemaining := state.budgetRemaining - 1 }

variable [PyFloat F]

/-- The training improvement clears the release threshold. -/
def clears (cfg : LadderConfig F) (weights : ScoringWeights F)
    (trainParentScalar trainChildScalar : F) : Bool :=
  PyFloat.le (effectiveThreshold cfg weights) (PyFloat.sub trainParentScalar trainChildScalar)

/-- The answer to a query whose result stays closed. -/
def withhold (cfg : LadderConfig F) (weights : ScoringWeights F) (state : LadderState F) :
    LadderRelease F where
  released := false
  confirmed := state.bestConfirmed
  holdoutScalar := state.bestHoldoutScalar
  threshold := effectiveThreshold cfg weights
  state := state

/-- `decide_reserved_holdout`: the release rule for a query already charged. -/
def decideReservedHoldout (charged : LadderState F) (cfg : LadderConfig F)
    (weights : ScoringWeights F) (trainParentScalar trainChildScalar holdoutScalar : F)
    (holdoutConfirmed : Bool) : LadderRelease F :=
  if clears cfg weights trainParentScalar trainChildScalar then
    let improvesBest : Bool :=
      match charged.bestHoldoutScalar with
      | none => true
      | some prevBest => PyFloat.le holdoutScalar prevBest
    { released := true
      confirmed := some holdoutConfirmed
      holdoutScalar := some holdoutScalar
      threshold := effectiveThreshold cfg weights
      state :=
        { charged with
          bestHoldoutScalar := if improvesBest then some holdoutScalar else charged.bestHoldoutScalar
          bestConfirmed := if improvesBest then some holdoutConfirmed else charged.bestConfirmed } }
  else withhold cfg weights charged

/-- `query_holdout`: charge and decide at once. -/
def queryHoldout (state : LadderState F) (cfg : LadderConfig F) (weights : ScoringWeights F)
    (trainParentScalar trainChildScalar holdoutScalar : F) (holdoutConfirmed : Bool) :
    LadderRelease F :=
  match reserveHoldoutQuery state with
  | none => withhold cfg weights state
  | some charged =>
      decideReservedHoldout charged cfg weights trainParentScalar trainChildScalar holdoutScalar
        holdoutConfirmed

/-! ## The state file -/

/-- `_LADDER_STATE_FORMAT`. -/
def stateFormat : Int := 2

/-- `uuid.UUID(hex=value).hex == value`: 32 lowercase hexadecimal digits. -/
def validIdentity (value : String) : Bool :=
  value.toList.length == 32 && value.toList.all fun c => c.isDigit || ('a' ≤ c && c ≤ 'f')

/-- `_PendingLadderReservation`. -/
structure PendingLadderReservation where
  reservationId : String
  budgetBeforeQuery : Int
  deriving DecidableEq

/-- The statistical state and the identities of charged, unsettled queries. -/
structure DurableLadderState (F : Type) where
  stateId : String
  state : LadderState F
  pendingReservations : List PendingLadderReservation := []

omit [PyFloat F] in
/-- An optional entry of the file. -/
def optional {α : Type} (wrap : α → PyValue F) : Option α → PyValue F
  | none => .none
  | some a => wrap a

/-- A reservation as JSON. -/
def PendingLadderReservation.toDict (pending : PendingLadderReservation) : PyValue F :=
  .dict [("reservation_id", .str pending.reservationId),
    ("budget_before_query", .int pending.budgetBeforeQuery)]

/-- The fields of a state record. -/
def stateFields (record : DurableLadderState F) : Dict String (PyValue F) :=
  [("format_version", .int stateFormat), ("state_id", .str record.stateId),
    ("budget_total", .int record.state.budgetTotal),
    ("budget_remaining", .int record.state.budgetRemaining),
    ("best_holdout_scalar", optional .float record.state.bestHoldoutScalar),
    ("best_confirmed", optional .bool record.state.bestConfirmed),
    ("pending_reservations", .list (record.pendingReservations.map (·.toDict)))]

/-- `_ladder_state_dict`. -/
def ladderStateDict (record : DurableLadderState F) : PyValue F := .dict (stateFields record)

/-- The scalar of the file: absent, or a finite number. -/
def decodeScalar : PyValue F → Option (Option F)
  | .none => some none
  | .float x => if PyFloat.isfinite x then some (some x) else none
  | .int n => (PyFloat.ofInt n).map some
  | _ => none

/-- `best_confirmed`, if it is one. -/
def decodeConfirmed : PyValue F → Option (Option Bool)
  | .none => some none
  | .bool b => some (some b)
  | _ => none

/-- A reservation, if it is one. -/
def decodePending (budgetRemaining budgetTotal : Int) (item : PyValue F) :
    Option PendingLadderReservation :=
  match item with
  | .dict fields => do
      guard (sameKeys fields ["reservation_id", "budget_before_query"])
      let reservationId ← (Dict.get? fields "reservation_id").bind PyValue.str?
      let before ← (Dict.get? fields "budget_before_query").bind PyValue.int?
      guard (validIdentity reservationId ∧ budgetRemaining < before ∧ before ≤ budgetTotal)
      pure { reservationId := reservationId, budgetBeforeQuery := before }
  | _ => none

/-- The keys of a state record, in order. -/
def stateKeys : List String :=
  ["format_version", "state_id", "budget_total", "budget_remaining", "best_holdout_scalar",
    "best_confirmed", "pending_reservations"]

/-- The checks of `_decode_ladder_state` on the values of a file of the right
shape. -/
def decodeValues (cfg : LadderConfig F) (fields : Dict String (PyValue F)) :
    Option (DurableLadderState F) := do
  let version ← (Dict.get? fields "format_version").bind PyValue.int?
  let stateId ← (Dict.get? fields "state_id").bind PyValue.str?
  let total ← (Dict.get? fields "budget_total").bind PyValue.int?
  let remaining ← (Dict.get? fields "budget_remaining").bind PyValue.int?
  let best ← (Dict.get? fields "best_holdout_scalar").bind decodeScalar
  let confirmed ← (Dict.get? fields "best_confirmed").bind decodeConfirmed
  let pendingRaw ← (Dict.get? fields "pending_reservations").bind PyValue.list?
  guard (version = stateFormat ∧ validIdentity stateId ∧ total = cfg.budget ∧
    (0 ≤ remaining ∧ remaining ≤ total) ∧ best.isNone = confirmed.isNone)
  let pending ← pendingRaw.mapM (decodePending remaining total)
  guard ((pending.map (·.reservationId)).Nodup ∧ (pending.map (·.budgetBeforeQuery)).Nodup ∧
    pending.length ≤ total - remaining)
  pure
    { stateId := stateId
      state :=
        { budgetTotal := total
          budgetRemaining := remaining
          bestHoldoutScalar := best
          bestConfirmed := confirmed }
      pendingReservations := pending }

/-- `_decode_ladder_state`; what is raised is a `LadderStateError` with this text. -/
def decodeLadderState (raw : PyValue F) (cfg : LadderConfig F) (path : String) :
    Except String (DurableLadderState F) :=
  match raw with
  | .dict fields =>
      if sameKeys fields stateKeys then
        match decodeValues cfg fields with
        | some record => .ok record
        | none => .error s!"Ladder state {path} has invalid or mismatched values"
      else .error s!"Ladder state {path} has an unsupported shape"
  | _ => .error s!"Ladder state {path} has an unsupported shape"

/-! ## Calls -/

/-- The object of the initialization marker. -/
structure Marker where
  formatVersion : Int
  stateId : String
  deriving DecidableEq

/-- The two files of an epoch; `none` is an absent file. -/
structure Disk (F : Type) where
  state : Option (PyValue F) := none
  marker : Option Marker := none

/-- The two files a query writes. -/
inductive Write (F : Type)
  | state (raw : PyValue F)
  | marker (marker : Marker)

omit [PyFloat F] in
/-- One `atomic_write_json`. -/
def Disk.apply (disk : Disk F) : Write F → Disk F
  | .state raw => { disk with state := some raw }
  | .marker m => { disk with marker := some m }

/-- An epoch with the paths of its two files; `resolved` is the path of the state
file as a reservation names it. -/
structure Epoch where
  epochId : String
  path : String
  markerPath : String
  resolved : String

/-- `LadderQueryReservation`. -/
structure LadderQueryReservation where
  statePath : String
  stateId : String
  epochId : String
  reservationId : String
  deriving DecidableEq

/-- A query of the ladder. -/
abbrev Call (F α : Type) := Action (Write F) String α

/-- `_write_ladder_state`. -/
def writeLadderState (record : DurableLadderState F) : Call F Unit :=
  .write (.state (ladderStateDict record))

/-- The marker that the state has been initialized. -/
def writeLadderMarker (stateId : String) : Call F Unit :=
  .write (.marker { formatVersion := stateFormat, stateId := stateId })

/-- `_load_ladder_state_locked`; `newIdentity` is what `uuid4` would return. -/
def loadLadderStateLocked (epoch : Epoch) (cfg : LadderConfig F) (disk : Disk F)
    (newIdentity : String) : Call F (DurableLadderState F) :=
  match disk.state with
  | none =>
      if disk.marker.isSome then
        .raise s!"Ladder state {epoch.path} is missing after the epoch budget was initialized"
      else do
        let record : DurableLadderState F :=
          { stateId := newIdentity, state := LadderState.seed cfg }
        writeLadderState record
        writeLadderMarker record.stateId
        pure record
  | some raw =>
      match decodeLadderState raw cfg epoch.path with
      | .error e => .raise e
      | .ok record =>
          match disk.marker with
          | none => do
              -- the state was published before the crash, so nothing is restored
              writeLadderMarker record.stateId
              pure record
          | some marker =>
              if marker = { formatVersion := stateFormat, stateId := record.stateId } then
                pure record
              else
                .raise s!"Ladder initialization marker {epoch.markerPath} is malformed"

/-- The identities one call may draw. -/
structure Identities where
  stateId : String
  reservationId : String
  deriving DecidableEq

/-- `_reserve_ladder_query`: charge one query before the holdout may be run. -/
def reserveLadderQuery (epoch : Epoch) (cfg : LadderConfig F) (disk : Disk F)
    (ids : Identities) : Call F (LadderState F × Option LadderQueryReservation) := do
  let record ← loadLadderStateLocked epoch cfg disk ids.stateId
  match reserveHoldoutQuery record.state with
  | none => pure (record.state, none)
  | some charged => do
      writeLadderState
        { stateId := record.stateId
          state := charged
          pendingReservations := record.pendingReservations ++
            [{ reservationId := ids.reservationId
               budgetBeforeQuery := record.state.budgetRemaining }] }
      pure (charged, some
        { statePath := epoch.resolved
          stateId := record.stateId
          epochId := epoch.epochId
          reservationId := ids.reservationId })

/-- What a settlement is given beside the reservation. -/
structure Settlement (F : Type) where
  trainParentScalar : F
  trainChildScalar : F
  holdoutScalar : Option F
  holdoutConfirmed : Bool
  observationComplete : Bool := true

/-- The release decision of a settlement. -/
def settleDecision (cfg : LadderConfig F) (weights : ScoringWeights F) (state : LadderState F)
    (q : Settlement F) : Except String (LadderRelease F) :=
  if q.observationComplete then
    match q.holdoutScalar with
    | none => .error "complete holdout evidence requires a scalar"
    | some holdoutScalar =>
        .ok (decideReservedHoldout state cfg weights q.trainParentScalar q.trainChildScalar
          holdoutScalar q.holdoutConfirmed)
  else .ok (withhold cfg weights state)

/-- The first half of `_settle_ladder_query`: the record, and its entry for a
query that is still pending. -/
def findReservation (epoch : Epoch) (cfg : LadderConfig F) (disk : Disk F) (newIdentity : String)
    (reservation : LadderQueryReservation) :
    Call F (DurableLadderState F × PendingLadderReservation) :=
  if reservation.epochId ≠ epoch.epochId ∨ reservation.statePath ≠ epoch.resolved then
    .raise s!"Ladder reservation no longer matches {epoch.path}"
  else do
    let record ← loadLadderStateLocked epoch cfg disk newIdentity
    if record.stateId ≠ reservation.stateId then
      .raise s!"Ladder reservation no longer matches {epoch.path}"
    else
      match record.pendingReservations.find? (·.reservationId = reservation.reservationId) with
      | none => .raise s!"Ladder reservation was already settled or is unknown at {epoch.path}"
      | some pending => pure (record, pending)

/-- `_settle_ladder_query`: publish the decision without charging again. -/
def settleLadderQuery (epoch : Epoch) (cfg : LadderConfig F) (weights : ScoringWeights F)
    (disk : Disk F) (newIdentity : String) (reservation : LadderQueryReservation)
    (q : Settlement F) : Call F (LadderRelease F × Int) := do
  let (record, pending) ← findReservation epoch cfg disk newIdentity reservation
  match settleDecision cfg weights record.state q with
  | .error e => .raise e
  | .ok release => do
      writeLadderState
        { stateId := record.stateId
          state := release.state
          pendingReservations := record.pendingReservations.filter
            (·.reservationId ≠ reservation.reservationId) }
      pure (release, pending.budgetBeforeQuery)

end Zicato.Ladder
