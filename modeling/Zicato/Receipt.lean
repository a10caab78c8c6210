import Zicato.PyExcept
import Zicato.PyFloat
import Zicato.PyValue

/-! # Settlement receipts

`zicato/epoch/settlement_receipt.py`: the record of one round's decision.  Its
facts never change; its three states say how far the settlement has been
published.  A receipt is decoded from the dictionary that `json.loads` returns,
check by check in the order of the source.

A dictionary is its items; the order in which a file lists them carries nothing
and is not modelled. -/
namespace Zicato

namespace PyValue
variable {F : Type}

mutual
/-- `json.dumps(value, allow_nan=False)` does not raise. -/
def finite [PyFloat F] : PyValue F → Bool
  | .float x => PyFloat.isfinite x
  | .list items => finiteItems items
  | .dict fields => finiteFields fields
  | .none => true
  | .bool _ => true
  | .int _ => true
  | .str _ => true

/-- Every number in a list is finite. -/
def finiteItems [PyFloat F] : List (PyValue F) → Bool
  | [] => true
  | v :: rest => finite v && finiteItems rest

/-- Every number in a dict is finite. -/
def finiteFields [PyFloat F] : List (String × PyValue F) → Bool
  | [] => true
  | (_, v) :: rest => finite v && finiteFields rest
end

mutual
/-- `a == b`; `intEq` compares an integer with a float. -/
def eq [PyFloat F] (intEq : Int → F → Bool) : PyValue F → PyValue F → Bool
  | .none, .none => true
  | .str a, .str b => a == b
  | .bool a, .bool b => a == b
  | .bool a, .int b => (if a then 1 else 0) == b
  | .int a, .bool b => a == (if b then 1 else 0)
  | .int a, .int b => a == b
  | .float a, .float b => PyFloat.eq a b
  | .int a, .float b => intEq a b
  | .float a, .int b => intEq b a
  | .bool a, .float b => intEq (if a then 1 else 0) b
  | .float a, .bool b => intEq (if b then 1 else 0) a
  | .list a, .list b => eqItems intEq a b
  | .dict a, .dict b => a.length == b.length && eqFields intEq a b
  | _, _ => false

/-- Equality of lists. -/
def eqItems [PyFloat F] (intEq : Int → F → Bool) : List (PyValue F) → List (PyValue F) → Bool
  | [], [] => true
  | a :: as, b :: bs => eq intEq a b && eqItems intEq as bs
  | _, _ => false

/-- Every key of the one dict has an equal value in the other. -/
def eqFields [PyFloat F] (intEq : Int → F → Bool) :
    List (String × PyValue F) → List (String × PyValue F) → Bool
  | [], _ => true
  | (k, v) :: rest, b =>
      (match Dict.get? b k with
        | some w => eq intEq v w
        | Option.none => false) && eqFields intEq rest b
end

end PyValue

namespace Receipt

variable {F O : Type}

/-- A JSON object. -/
abbrev Fields (F : Type) := Dict String (PyValue F)

/-- `d.get(key)`. -/
def get (d : Fields F) (key : String) : PyValue F := (Dict.get? d key).getD .none

/-! ## States -/

/-- The state of a receipt. -/
inductive ReceiptState
  | pending
  | committed
  deriving DecidableEq, Repr

/-- The state as recorded. -/
def ReceiptState.asStr : ReceiptState → String
  | pending => "pending"
  | committed => "committed"

/-- The state a record names. -/
def ReceiptState.ofStr (s : String) : Option ReceiptState :=
  [pending, committed].find? fun state => state.asStr == s

/-- `HookDeliveryState`. -/
inductive HookState
  | notApplicable
  | pending
  | succeeded
  | failed
  | deliveryUnknown
  deriving DecidableEq, Repr

/-- The state as recorded. -/
def HookState.asStr : HookState → String
  | notApplicable => "not_applicable"
  | pending => "pending"
  | succeeded => "succeeded"
  | failed => "failed"
  | deliveryUnknown => "delivery_unknown"

/-- The state a record names. -/
def HookState.ofStr (s : String) : Option HookState :=
  [notApplicable, pending, succeeded, failed, deliveryUnknown].find? fun state => state.asStr == s

/-- The state of the index projection. -/
inductive IndexState
  | pending
  | succeeded
  | repairRequired
  | repaired
  deriving DecidableEq, Repr

/-- The state as recorded. -/
def IndexState.asStr : IndexState → String
  | pending => "pending"
  | succeeded => "succeeded"
  | repairRequired => "repair_required"
  | repaired => "repaired"

/-- The state a record names. -/
def IndexState.ofStr (s : String) : Option IndexState :=
  [pending, succeeded, repairRequired, repaired].find? fun state => state.asStr == s

/-! ## Accepted receipts -/

/-- `PromotionHook`. -/
structure PromotionHook where
  state : HookState
  adapterName : String
  failureType : String
  deriving DecidableEq

/-- The index projection of a receipt. -/
structure IndexProjection where
  state : IndexState
  errorType : String
  deriving DecidableEq

/-- `SettlementCandidate`. -/
structure SettlementCandidate (F : Type) where
  experimentId : String
  generationId : String
  createdAt : String
  parentScalar : PyValue F
  childScalar : PyValue F
  outcome : PyValue F
  json : Option (Fields F)

/-- `SettlementReceipt`. -/
structure SettlementReceipt (F : Type) where
  epochId : String
  roundIndex : Nat
  settlementId : String
  state : ReceiptState
  primaryId : Option String
  candidates : List (SettlementCandidate F)
  promotionHook : PromotionHook
  indexProjection : IndexProjection
  json : Fields F

/-- `d.update(items)`. -/
def update (d : Fields F) (items : List (String × PyValue F)) : Fields F :=
  items.foldl (fun d item => Dict.set d item.1 item.2) d

/-- An optional string as JSON. -/
def optStr : Option String → PyValue F
  | none => .none
  | some s => .str s

/-- `value is None`. -/
def isNone : PyValue F → Bool
  | .none => true
  | _ => false

/-- `SettlementCandidate.to_dict`. -/
def SettlementCandidate.toDict (c : SettlementCandidate F) : Fields F :=
  let fields : Fields F :=
    [("experiment_id", .str c.experimentId), ("generation_id", .str c.generationId),
      ("created_at", .str c.createdAt), ("parent_scalar", c.parentScalar),
      ("child_scalar", c.childScalar), ("outcome", c.outcome)]
  match c.json with
  | none => fields
  | some body => update body
      (fields.filter fun item => (Dict.get? body item.1).isSome || !isNone item.2)

/-- The hook as JSON. -/
def PromotionHook.asDict (hook : PromotionHook) : Fields F :=
  [("state", .str hook.state.asStr), ("adapter_name", .str hook.adapterName),
    ("failure_type", .str hook.failureType)]

/-- The projection as JSON. -/
def IndexProjection.asDict (index : IndexProjection) : Fields F :=
  [("state", .str index.state.asStr), ("error_type", .str index.errorType)]

/-- `body[key].update(items)`. -/
def updateIn (body : Fields F) (key : String) (items : Fields F) : Fields F :=
  match get body key with
  | .dict inner => Dict.set body key (.dict (update inner items))
  | _ => body

/-- `SettlementReceipt.to_dict`. -/
def SettlementReceipt.toDict (r : SettlementReceipt F) : Fields F :=
  let body := update r.json
    [("epoch_id", .str r.epochId), ("round_index", .int r.roundIndex),
      ("settlement_id", .str r.settlementId), ("state", .str r.state.asStr),
      ("candidates", .list (r.candidates.map fun c => .dict c.toDict))]
  let body :=
    if (Dict.get? body "primary_promoted_generation_id").isSome || r.primaryId.isSome then
      Dict.set body "primary_promoted_generation_id" (optStr r.primaryId)
    else body
  updateIn (updateIn body "promotion_hook" r.promotionHook.asDict) "index_projection"
    r.indexProjection.asDict

/-- The keys that replay may change. -/
def progressKeys : List String := ["state", "index_projection", "promotion_hook"]

/-- A receipt without what may change. -/
def immutable (d : Fields F) : Fields F := d.filter fun item => item.1 ∉ progressKeys

/-- `immutable_facts`. -/
def SettlementReceipt.immutableFacts (r : SettlementReceipt F) : Fields F := immutable r.toDict

/-- `field_record`. -/
def SettlementReceipt.fieldRecord (r : SettlementReceipt F) : PyValue F :=
  get r.toDict "field_tournament_record"

/-! ## Decoding -/

/-- What decoding calls outside of this file: the `repr` of a value, the exact
comparison of an integer with a float, and `outcome_from_dict` with the two
fields of an outcome that are read here. -/
structure ReceiptCodec (F O : Type) where
  repr : PyValue F → String
  intEq : Int → F → Bool
  outcomeFromDict : Fields F → Except String O
  structureOf : O → String
  decisionOf : O → Option String
  /-- `a == b` of two outcomes. -/
  sameOutcome : O → O → Bool

variable [PyFloat F] (rt : ReceiptCodec F O)

/-- A field that must be a non-empty string. -/
def requiredString (record : Fields F) (key : String) : Except String String :=
  match get record key with
  | .str s =>
      if s = "" then .error s!"field settlement receipt {key} must be a non-empty string"
      else .ok s
  | _ => .error s!"field settlement receipt {key} must be a non-empty string"

/-- A field that must be a non-negative integer. -/
def requiredInt (record : Fields F) (key : String) : Except String Nat :=
  match get record key with
  | .int n =>
      if n < 0 then .error s!"field settlement receipt {key} must be a non-negative integer"
      else .ok n.toNat
  | _ => .error s!"field settlement receipt {key} must be a non-negative integer"

/-- A field that is null or a finite number. -/
def validateOptionalNumber (value : PyValue F) (name : String) : Except String Unit :=
  match value with
  | .none => .ok ()
  | .int n =>
      if (PyFloat.ofInt n : Option F).isSome then .ok ()
      else .error "int too large to convert to float"
  | .float x =>
      if PyFloat.isfinite x then .ok ()
      else .error s!"field settlement receipt {name} must be finite or null"
  | _ => .error s!"field settlement receipt {name} must be finite or null"

/-- `check_record_format` for the receipt's format, version 3. -/
def checkRecordFormat (intent : Fields F) : Except String Unit :=
  match get intent "format_version" with
  | .int 3 => .ok ()
  | raw => .error s!"field settlement receipt: unsupported format_version {rt.repr raw}; expected integer 3"

/-- The receipt is the one that was asked for. -/
def checkExpected (epochId : String) (roundIndex : Nat) (expectedEpochId : Option String)
    (expectedRoundIndex : Option Nat) : Except String Unit := do
  if let some expected := expectedEpochId then
    require (epochId == expected)
      s!"field settlement receipt names epoch {rt.repr (.str epochId)} inside {rt.repr (.str expected)}"
  if let some expected := expectedRoundIndex then
    require (roundIndex == expected)
      s!"field settlement receipt names round {roundIndex} inside round {expected}"

/-- `state`. -/
def decodeState (intent : Fields F) : Except String ReceiptState :=
  match get intent "state" with
  | .str s =>
      match ReceiptState.ofStr s with
      | some state => .ok state
      | none => .error s!"field settlement receipt has invalid state {rt.repr (.str s)}"
  | v => .error s!"field settlement receipt has invalid state {rt.repr v}"

/-- `primary_promoted_generation_id`. -/
def decodePrimary (intent : Fields F) : Except String (Option String) :=
  match get intent "primary_promoted_generation_id" with
  | .none => .ok none
  | .str s =>
      if s = "" then
        .error "field settlement receipt primary_promoted_generation_id must be a non-empty string or null"
      else .ok (some s)
  | _ =>
      .error "field settlement receipt primary_promoted_generation_id must be a non-empty string or null"

/-- The checks between the fields of `promotion_hook`. -/
def PromotionHook.validate (hook : PromotionHook) : Except String PromotionHook :=
  match hook.state with
  | .notApplicable =>
      if hook.adapterName ≠ "" ∨ hook.failureType ≠ "" then
        .error "field settlement receipt has premature promotion_hook details"
      else .ok hook
  | .failed =>
      if hook.adapterName = "" ∨ hook.failureType = "" then
        .error "field settlement receipt has incomplete promotion_hook failure"
      else .ok hook
  | _ =>
      if hook.adapterName = "" ∨ hook.failureType ≠ "" then
        .error "field settlement receipt has inconsistent promotion_hook result"
      else .ok hook

/-- `promotion_hook`. -/
def decodeHook (intent : Fields F) : Except String PromotionHook :=
  match get intent "promotion_hook" with
  | .dict hook =>
      match get hook "state" with
      | .str s =>
          match HookState.ofStr s with
          | some state =>
              match get hook "adapter_name", get hook "failure_type" with
              | .str adapterName, .str failureType =>
                  PromotionHook.validate
                    { state := state, adapterName := adapterName, failureType := failureType }
              | _, _ => .error "field settlement receipt has invalid promotion_hook details"
          | none => .error "field settlement receipt has invalid promotion_hook state"
      | _ => .error "field settlement receipt has invalid promotion_hook state"
  | _ => .error "field settlement receipt has invalid promotion_hook state"

/-- The check between the fields of `index_projection`. -/
def IndexProjection.validate (index : IndexProjection) : Except String IndexProjection :=
  if (index.state == .repairRequired || index.state == .repaired) != (index.errorType != "") then
    .error "field settlement receipt has inconsistent index_projection result"
  else .ok index

/-- `index_projection`. -/
def decodeIndex (intent : Fields F) : Except String IndexProjection :=
  match get intent "index_projection" with
  | .dict index =>
      match get index "state", get index "error_type" with
      | .str s, .str errorType =>
          match IndexState.ofStr s with
          | some state => IndexProjection.validate { state := state, errorType := errorType }
          | none => .error "field settlement receipt has invalid index_projection state"
      | _, _ => .error "field settlement receipt has invalid index_projection state"
  | _ => .error "field settlement receipt has invalid index_projection state"

/-- The state of the loop over the candidates. -/
structure CandidateScan (F O : Type) where
  candidates : List (Fields F × O) := []
  generationIds : List String := []
  promotedIds : List String := []
  structure_ : String := ""

/-- One candidate. -/
def decodeCandidate (scan : CandidateScan F O) (raw : PyValue F) :
    Except String (CandidateScan F O) :=
  match raw with
  | .dict fields =>
      match get fields "outcome" with
      | .dict outcomeFields => do
          let _ ← requiredString fields "experiment_id"
          let generationId ← requiredString fields "generation_id"
          require (generationId ∉ scan.generationIds)
            s!"field settlement receipt contains duplicate generation {rt.repr (.str generationId)}"
          let _ ← requiredString fields "created_at"
          validateOptionalNumber (get fields "parent_scalar") "parent_scalar"
          validateOptionalNumber (get fields "child_scalar") "child_scalar"
          let outcome ← rt.outcomeFromDict outcomeFields
          require (scan.structure_ == "" || rt.structureOf outcome == scan.structure_)
            s!"field settlement candidate {rt.repr (.str generationId)} names structure {rt.repr (.str (rt.structureOf outcome))}, expected {rt.repr (.str scan.structure_)}"
          pure
            { candidates := scan.candidates ++ [(fields, outcome)]
              generationIds := scan.generationIds ++ [generationId]
              promotedIds :=
                if rt.decisionOf outcome = some "promoted" then scan.promotedIds ++ [generationId]
                else scan.promotedIds
              structure_ := rt.structureOf outcome }
      | _ => .error "field settlement receipt contains an invalid candidate record"
  | _ => .error "field settlement receipt contains an invalid candidate record"

/-- `candidates`. -/
def decodeCandidates (intent : Fields F) : Except String (CandidateScan F O) :=
  match get intent "candidates" with
  | .list [] => .error "field settlement receipt has no candidate list"
  | .list raws => raws.foldlM (decodeCandidate rt) {}
  | _ => .error "field settlement receipt has no candidate list"

/-- `isinstance(value, str)`. -/
def isStr : PyValue F → Bool
  | .str _ => true
  | _ => false

/-- `isinstance(value, dict)`. -/
def isDict : PyValue F → Bool
  | .dict _ => true
  | _ => false

/-- `isinstance(value, bool)`. -/
def isBool : PyValue F → Bool
  | .bool _ => true
  | _ => false

/-- One rule of a gate result. -/
def ruleValid : PyValue F → Bool
  | .dict rule =>
      ["id", "label", "status", "detail"].all (fun key => isStr (get rule key)) &&
        isBool (get rule "fired")
  | _ => false

/-- One item of `gate_results`. -/
def checkGate (gate : PyValue F) : Except String Unit :=
  match gate with
  | .dict gate => do
      let _ ← requiredString gate "champion"
      let _ ← requiredString gate "challenger"
      require ((match get gate "decision" with
          | .str s => ["promoted", "rejected", "deferred"].contains s
          | _ => false) && isStr (get gate "reason"))
        "round gate result requires a decision and reason"
      require (["parent_aggregate", "child_aggregate"].all fun key => isDict (get gate key))
        "round gate result requires both compared aggregates"
      for key in ["champion_scalar", "challenger_scalar", "delta_scalar", "delta_pass_rate",
          "margin"] do
        validateOptionalNumber (get gate key) key
      match get gate "rules" with
      | .list rules => do
          require (rules.all ruleValid) "round gate result requires recorded rule details"
          require (isNone (get gate "deciding_rule") ||
              rules.any fun rule =>
                match rule with
                | .dict rule => PyValue.eq rt.intEq (get gate "deciding_rule") (get rule "id")
                | _ => false)
            "round gate result names an unrecorded deciding rule"
      | _ => .error "round gate result requires recorded rule details"
  | _ => .error "round gate result must be an object"

/-- `gate_results`. -/
def checkGates (intent : Fields F) : Except String Unit :=
  match (Dict.get? intent "gate_results").getD (.list []) with
  | .list gates => gates.forM (checkGate rt)
  | _ => .error "round gate_results must be an array"

/-! ### The field tournament record -/

def str? : PyValue F → Option String
  | .str s => some s
  | _ => none

/-- A value that is a string and not empty. -/
def text? (v : PyValue F) : Option String := (str? v).filter (· ≠ "")

/-- `d[key]` of a dictionary row, none for another value. -/
def rowGet (row : PyValue F) (key : String) : PyValue F :=
  match row with
  | .dict fields => get fields key
  | _ => .none

/-- The items of a list value. -/
def items : PyValue F → List (PyValue F)
  | .list xs => xs
  | _ => []

/-- A list of objects. -/
def isRows : PyValue F → Bool
  | .list rows => rows.all isDict
  | _ => false

/-- `decode_field_tournament_record`, and `to_dict` of what it returns. -/
def decodeFieldTournamentRecord (value : PyValue F) : Except String (Fields F) :=
  match value with
  | .dict record => do
      for key in ["tournament_id", "epoch_id", "structure", "ran_at",
          "champion_generation_id"] do
        require (text? (get record key)).isSome s!"field tournament record has invalid {key}"
      require ((str? (get record "state")).any fun s => ["in_progress", "settled"].contains s)
        "field tournament record has invalid state"
      for key in ["promoted_generation_id", "decision", "reason"] do
        require (isStr (get record key)) s!"field tournament record has invalid {key}"
      require (isDict (get record "structure_params"))
        "field tournament record has invalid structure_params"
      for key in ["competitors", "rounds", "standings", "field_status"] do
        require (isRows (get record key)) s!"field tournament record has invalid {key}"
      let competitors := items (get record "competitors")
      let ids := competitors.map fun row => rowGet row "generation_id"
      require (ids.all (fun gid => (text? gid).isSome) && decide (ids.filterMap text?).Nodup)
        "field tournament record has invalid competitor identities"
      require (competitors.all fun row =>
          (str? (rowGet row "role")).any fun s => ["champion", "challenger"].contains s)
        "field tournament record has invalid competitor roles"
      let champions := (competitors.filter fun row =>
        str? (rowGet row "role") == some "champion").map fun row =>
          str? (rowGet row "generation_id")
      require (champions == [str? (get record "champion_generation_id")])
        "field tournament record has inconsistent incumbent"
      validateOptionalNumber (get record "delta_scalar") "delta_scalar"
      if let some promoted := Dict.get? record "promoted_generation_ids" then
        require (match promoted with
            | .list gids => gids.all (fun gid => (text? gid).isSome) &&
                decide (gids.filterMap text?).Nodup
            | _ => false)
          "field tournament record has invalid promoted ids"
      if let some override := Dict.get? record "override_status" then
        require (isDict override) "field tournament record has invalid override_status"
      require (PyValue.finite (.dict record)) "Out of range float values are not JSON compliant"
      pure record
  | _ => .error "field tournament record must be an object"

/-- `set(a) == set(b)`. -/
def sameSet (a b : List String) : Bool := a.all (b.contains ·) && b.all (a.contains ·)

/-- The role of a competitor. -/
def roleOf (competitors : List (PyValue F)) (generationId : String) : Option String :=
  (competitors.find? fun row => str? (rowGet row "generation_id") == some generationId).bind
    fun row => str? (rowGet row "role")

/-- `validate_settlement_field_record`: the primary champion of the bracket. -/
def validateSettlementFieldRecord (rawRecord : PyValue F) (epochId firstChallenger : String)
    (parentId : PyValue F) (candidateIds promotedIds : List String)
    (structure_ decision : String) : Except String (Option String) :=
  match rawRecord with
  | .none =>
      if candidateIds.length > 1 then
        .error "multi-challenger settlement receipt has no field tournament record"
      else .ok promotedIds.head?
  | _ => do
      let record ←
        match decodeFieldTournamentRecord rawRecord with
        | .ok record => .ok record
        | .error e => .error s!"field settlement tournament record: {e}"
      require (str? (get record "tournament_id") == some s!"{epochId}:field:{firstChallenger}")
        "field settlement tournament record has a different identity"
      require (str? (get record "epoch_id") == some epochId &&
          str? (get record "state") == some "settled")
        "field settlement tournament record has an invalid epoch or state"
      require (str? (get record "structure") == some structure_)
        "field settlement tournament record has inconsistent structure"
      let parent := (str? parentId).getD ""
      require (str? (get record "champion_generation_id") == some parent)
        "field settlement tournament record names a different incumbent"
      let competitors := items (get record "competitors")
      let competitorIds := competitors.filterMap fun row => str? (rowGet row "generation_id")
      require (sameSet competitorIds (parent :: candidateIds))
        "field settlement tournament record has inconsistent competitors"
      require (roleOf competitors parent == some "champion" &&
          candidateIds.all fun gid => roleOf competitors gid == some "challenger")
        "field settlement tournament record has inconsistent competitor roles"
      let primary := text? (get record "promoted_generation_id")
      require (primary.all (promotedIds.contains ·))
        "field settlement tournament record names an invalid primary champion"
      let promoted :=
        match get record "promoted_generation_ids" with
        | .list gids => gids.filterMap str?
        | _ => primary.toList
      require (sameSet promoted promotedIds)
        "field settlement tournament record has a different promoted set"
      require (primary.isNone == promotedIds.isEmpty)
        "field settlement tournament record lacks its primary champion"
      require (str? (get record "decision") == some decision)
        "field settlement tournament record has a different decision or reason"
      pure primary

/-! ### The receipt -/

/-- The identity of a settlement: 32 lower-case hexadecimal digits. -/
def validSettlementId (settlementId : String) : Bool :=
  settlementId.toList.length == 32 && settlementId.toList.all ("0123456789abcdef".toList.contains ·)

/-- The decision of the round that the outcomes make. -/
def roundDecision (scan : CandidateScan F O) : String :=
  if scan.promotedIds ≠ [] then "promoted"
  else if scan.candidates.any fun c => rt.decisionOf c.2 == some "deferred" then "deferred"
  else "rejected"

/-- The candidate a checked record becomes. -/
def candidateOf (fields : Fields F) : SettlementCandidate F where
  experimentId := (str? (get fields "experiment_id")).getD ""
  generationId := (str? (get fields "generation_id")).getD ""
  createdAt := (str? (get fields "created_at")).getD ""
  parentScalar := get fields "parent_scalar"
  childScalar := get fields "child_scalar"
  outcome := get fields "outcome"
  json := some fields

/-- What is decoded after the three states: candidates, gates and the bracket. -/
def decodeOutcomes (intent : Fields F) (epochId settlementId : String)
    (recordedPrimary : Option String) : Except String (List (SettlementCandidate F)) := do
  let scan ← decodeCandidates rt intent
  checkGates rt intent
  let firstChallenger := scan.generationIds.head?.getD ""
  require (validSettlementId settlementId)
    "field settlement receipt has inconsistent round identity"
  let rawField := get intent "field_tournament_record"
  let parentId :=
    match rawField with
    | .dict fields => (Dict.get? fields "champion_generation_id").getD (.str "")
    | _ => .str ""
  let primary ← validateSettlementFieldRecord rawField epochId firstChallenger parentId
    scan.generationIds scan.promotedIds scan.structure_ (roundDecision rt scan)
  require (primary == recordedPrimary)
    "field settlement receipt primary champion conflicts with its tournament record"
  pure (scan.candidates.map fun c => candidateOf c.1)

/-- `decode_settlement_receipt` of a dictionary. -/
def decodeFields (intent : Fields F) (expectedEpochId : Option String)
    (expectedRoundIndex : Option Nat) : Except String (SettlementReceipt F) := do
  checkRecordFormat rt intent
  let epochId ← requiredString intent "epoch_id"
  let roundIndex ← requiredInt intent "round_index"
  checkExpected rt epochId roundIndex expectedEpochId expectedRoundIndex
  let state ← decodeState rt intent
  let recordedPrimary ← decodePrimary intent
  let settlementId ← requiredString intent "settlement_id"
  let hook ← decodeHook intent
  let index ← decodeIndex intent
  let candidates ← decodeOutcomes rt intent epochId settlementId recordedPrimary
  require (PyValue.finite (.dict intent)) "Out of range float values are not JSON compliant"
  pure
    { epochId := epochId, roundIndex := roundIndex, settlementId := settlementId, state := state
      primaryId := recordedPrimary, candidates := candidates, promotionHook := hook
      indexProjection := index, json := intent }

/-- `decode_settlement_receipt`. -/
def decodeSettlementReceipt (intent : PyValue F) (expectedEpochId : Option String)
    (expectedRoundIndex : Option Nat) : Except String (SettlementReceipt F) :=
  match intent with
  | .dict fields => decodeFields rt fields expectedEpochId expectedRoundIndex
  | _ => .error "field settlement receipt must contain a JSON object"

end Receipt
end Zicato
