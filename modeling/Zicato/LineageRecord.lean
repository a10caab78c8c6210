import Zicato.PyExcept
import Zicato.PyFloat
import Zicato.PyValue

/-! # The lineage record

`zicato/epoch/lineage.py`: the graph of epochs and their generations, one JSON
document that every mutator reads, changes and replaces.  The document is modelled
as the value `json` reads back. -/
namespace Zicato.LineageRecord

variable {F : Type} [PyFloat F]

/-! ## Numbers -/

/-- `int | float`. -/
inductive Number (F : Type)
  | int (n : Int)
  | float (x : F)

/-- A number as JSON. -/
def Number.value : Number F → PyValue F
  | .int n => .int n
  | .float x => .float x

/-- `a - b`; an integer beyond the range of floats raises next to a float. -/
def Number.sub : Number F → Number F → Option (Number F)
  | .int a, .int b => some (.int (a - b))
  | .int a, .float y => (PyFloat.ofInt a).map fun x => .float (PyFloat.sub x y)
  | .float x, .int b => (PyFloat.ofInt b).map fun y => .float (PyFloat.sub x y)
  | .float x, .float y => some (.float (PyFloat.sub x y))

/-- An optional value as JSON. -/
def optional {α : Type} (value : α → PyValue F) : Option α → PyValue F
  | none => .none
  | some a => value a

/-! ## Decoding -/

/-- A JSON object. -/
abbrev Row (F : Type) := Dict String (PyValue F)

mutual
/-- `json.dumps(value, allow_nan=False)` does not raise. -/
def serialises : PyValue F → Bool
  | .float x => PyFloat.isfinite x
  | .list items => serialisesItems items
  | .dict fields => serialisesFields fields
  | _ => true

/-- Every item can be written. -/
def serialisesItems : List (PyValue F) → Bool
  | [] => true
  | v :: rest => serialises v && serialisesItems rest

/-- Every value can be written. -/
def serialisesFields : List (String × PyValue F) → Bool
  | [] => true
  | (_, v) :: rest => serialises v && serialisesFields rest
end

/-- `_string`. -/
def string (row : Row F) (key : String) (required : Bool) : Except String String :=
  match Dict.getD row key (.str "") with
  | .str s =>
      if required = true ∧ s = "" then .error s!"lineage.json: invalid {key}" else .ok s
  | _ => .error s!"lineage.json: invalid {key}"

/-- `_parent`. -/
def parent (row : Row F) (key : String) : Except String (Option String) :=
  match Dict.getD row key .none with
  | .none => .ok none
  | .str s =>
      if s = "" then .error s!"lineage.json: {key} must be a nonempty string or null"
      else .ok (some s)
  | _ => .error s!"lineage.json: {key} must be a nonempty string or null"

/-- `_scalar`; `math.isfinite` of an integer beyond the range raises as well. -/
def scalar (row : Row F) (key : String) : Except String (Option (Number F)) :=
  match Dict.getD row key .none with
  | .none => .ok none
  | .int n =>
      if (PyFloat.ofInt n : Option F).isSome = true then .ok (some (.int n))
      else .error "int too large to convert to float"
  | .float x =>
      if PyFloat.isfinite x = true then .ok (some (.float x))
      else .error s!"lineage.json: {key} must be finite or null"
  | _ => .error s!"lineage.json: {key} must be finite or null"

/-- `LineageGeneration`. -/
structure LineageGeneration (F : Type) where
  id : String
  parentId : Option String
  promoted : Option Bool
  createdAt : String
  roundIndex : Option Int
  rejectionReason : Option String
  parentScalar : Option (Number F)
  childScalar : Option (Number F)
  deltaScalar : Option (Number F)
  json : Row F

/-- `LineageEpoch`. -/
structure LineageEpoch (F : Type) where
  id : String
  name : String
  startedAt : String
  closedAt : String
  v0Parent : Option String
  generations : List (LineageGeneration F)
  json : Row F

/-- `Lineage`. -/
structure Lineage (F : Type) where
  epochs : List (LineageEpoch F)
  json : Row F

/-- A field of a projection: an absent one stays absent while it has its default. -/
def project (body : Row F) (key : String) (value : PyValue F) (isDefault : Bool) : Row F :=
  if (Dict.get? body key).isSome = true ∨ isDefault = false then Dict.set body key value else body

/-- `LineageGeneration.to_dict`. -/
def LineageGeneration.toDict (g : LineageGeneration F) : Row F :=
  let body := project g.json "id" (.str g.id) false
  let body := project body "parent_id" (optional .str g.parentId) g.parentId.isNone
  let body := project body "promoted" (optional .bool g.promoted) g.promoted.isNone
  let body := project body "created_at" (.str g.createdAt) (g.createdAt == "")
  let body := project body "round_index" (optional .int g.roundIndex) g.roundIndex.isNone
  let body := project body "rejection_reason" (optional .str g.rejectionReason)
    g.rejectionReason.isNone
  let body := project body "parent_scalar" (optional Number.value g.parentScalar)
    g.parentScalar.isNone
  let body := project body "child_scalar" (optional Number.value g.childScalar)
    g.childScalar.isNone
  project body "delta_scalar" (optional Number.value g.deltaScalar) g.deltaScalar.isNone

/-- `LineageEpoch.to_dict`. -/
def LineageEpoch.toDict (e : LineageEpoch F) : Row F :=
  let body := project e.json "id" (.str e.id) (e.id == "")
  let body := project body "name" (.str e.name) (e.name == "")
  let body := project body "started_at" (.str e.startedAt) (e.startedAt == "")
  let body := project body "closed_at" (.str e.closedAt) (e.closedAt == "")
  let body := project body "v0_parent" (optional .str e.v0Parent) e.v0Parent.isNone
  Dict.set body "generations" (.list (e.generations.map fun g => .dict g.toDict))

/-- `Lineage.to_dict`. -/
def Lineage.toDict (l : Lineage F) : Row F :=
  Dict.set l.json "epochs" (.list (l.epochs.map fun e => .dict e.toDict))

/-- `Lineage.epoch`. -/
def Lineage.epoch (l : Lineage F) (epochId : String) : Option (LineageEpoch F) :=
  l.epochs.find? fun e => decide (e.id = epochId)

/-- The verdict and the birth round of a row. -/
def verdict (row : Row F) (id : String) : Except String (Option Bool) :=
  match Dict.getD row "promoted" .none with
  | .none => .ok none
  | .bool b => .ok (some b)
  | _ => .error s!"lineage generation {id} has an invalid verdict"

/-- The `round_index` of a row. -/
def birthRound (row : Row F) (id : String) : Except String (Option Int) :=
  match Dict.getD row "round_index" .none with
  | .none => .ok none
  | .int n =>
      if 0 ≤ n then .ok (some n)
      else .error s!"lineage.json: generation {id} has an invalid round_index"
  | _ => .error s!"lineage.json: generation {id} has an invalid round_index"

/-- A row without the field has no reason, rather than an empty one. -/
def rejectionReason (row : Row F) : Except String (Option String) :=
  match Dict.get? row "rejection_reason" with
  | none => .ok none
  | some _ => (string row "rejection_reason" false).map some

/-- One row of an epoch whose earlier rows have the ids `ids`. -/
def decodeGeneration (epochId : String) (ids : List String) (value : PyValue F) :
    Except String (LineageGeneration F) :=
  match value with
  | .dict row => do
      let id ← string row "id" true
      require (!ids.contains id)
        s!"lineage.json: epoch {epochId} contains duplicate generation ids"
      let promoted ← verdict row id
      let roundIndex ← birthRound row id
      let reason ← rejectionReason row
      let parentId ← parent row "parent_id"
      let createdAt ← string row "created_at" false
      let parentScalar ← scalar row "parent_scalar"
      let childScalar ← scalar row "child_scalar"
      let deltaScalar ← scalar row "delta_scalar"
      require (serialises value) "Out of range float values are not JSON compliant"
      pure { id := id, parentId := parentId, promoted := promoted, createdAt := createdAt
             roundIndex := roundIndex, rejectionReason := reason, parentScalar := parentScalar
             childScalar := childScalar, deltaScalar := deltaScalar, json := row }
  | _ => .error s!"lineage.json: epoch {epochId} has a non-object generation"

/-- The rows of an epoch, none of them twice. -/
def decodeGenerations (epochId : String) :
    List String → List (PyValue F) → Except String (List (LineageGeneration F))
  | _, [] => .ok []
  | ids, value :: rest => do
      let g ← decodeGeneration epochId ids value
      let gs ← decodeGenerations epochId (ids ++ [g.id]) rest
      pure (g :: gs)

/-- One epoch of a document whose earlier epochs have the ids `ids`. -/
def decodeEpoch (ids : List String) (value : PyValue F) : Except String (LineageEpoch F) :=
  match value with
  | .dict entry =>
      match Dict.get? entry "generations" with
      | some (.list rows) => do
          let id ← string entry "id" true
          require (!ids.contains id) s!"lineage.json: duplicate epoch {id}"
          let generations ← decodeGenerations id [] rows
          let name ← string entry "name" false
          let startedAt ← string entry "started_at" false
          let closedAt ← string entry "closed_at" false
          let v0Parent ← parent entry "v0_parent"
          require (serialises value) "Out of range float values are not JSON compliant"
          pure { id := id, name := name, startedAt := startedAt, closedAt := closedAt
                 v0Parent := v0Parent, generations := generations, json := entry }
      | _ => .error "lineage.json: each epoch requires a generations list"
  | _ => .error "lineage.json: each epoch requires a generations list"

/-- The epochs, none of them twice. -/
def decodeEpochs : List String → List (PyValue F) → Except String (List (LineageEpoch F))
  | _, [] => .ok []
  | ids, value :: rest => do
      let e ← decodeEpoch ids value
      let es ← decodeEpochs (ids ++ [e.id]) rest
      pure (e :: es)

/-- `check_record_format`. -/
def checkRecordFormat (body : Row F) : Except String Unit :=
  match Dict.get? body "format_version" with
  | some (.int n) =>
      require (decide (n = 1)) "lineage.json: unsupported format_version; expected integer 1"
  | _ => .error "lineage.json: unsupported format_version; expected integer 1"

/-- `decode_lineage`. -/
def decodeLineage (value : PyValue F) : Except String (Lineage F) :=
  match value with
  | .dict body =>
      match Dict.get? body "epochs" with
      | some (.list entries) => do
          checkRecordFormat body
          let epochs ← decodeEpochs [] entries
          require (serialises value) "Out of range float values are not JSON compliant"
          pure { epochs := epochs, json := body }
      | _ => .error "lineage.json: expected an object with an epochs list"
  | _ => .error "lineage.json: expected an object with an epochs list"

/-! ## The file -/

/-- `lineage.json`, if it exists. -/
abbrev File (F : Type) := Option (PyValue F)

/-- The graph of a fresh workspace. -/
def emptyGraph : Row F := [("format_version", .int 1), ("epochs", .list [])]

/-- `_load_raw`. -/
def loadRaw : File F → Except String (Row F)
  | none => .ok emptyGraph
  | some value => (decodeLineage value).map Lineage.toDict

/-- `_save_raw`, with `write_lineage`: what is written has been decoded twice. -/
def saveRaw (raw : Row F) : Except String (File F) := do
  let lineage ← decodeLineage (.dict (Dict.set raw "format_version" (.int 1)))
  let accepted ← decodeLineage (.dict lineage.toDict)
  pure (some (.dict accepted.toDict))

/-- `initialize_lineage`. -/
def initializeLineage : Except String (File F) := saveRaw emptyGraph

/-! ## Mutators -/

/-- A list under a key, or nothing. -/
def listOf (row : Row F) (key : String) : List (PyValue F) :=
  match Dict.get? row key with
  | some (.list items) => items
  | _ => []

/-- `row.get("id") == id`. -/
def hasId (id : String) : PyValue F → Bool
  | .dict row =>
      match Dict.get? row "id" with
      | some (.str s) => decide (s = id)
      | _ => false
  | _ => false

/-- A change of the first row with that id. -/
def updateFirst (id : String) (f : Row F → Row F) : List (PyValue F) → List (PyValue F)
  | [] => []
  | value :: rest =>
      if hasId id value = true then
        (match value with | .dict row => .dict (f row) | other => other) :: rest
      else value :: updateFirst id f rest

/-- What a mutator reads of `EpochConfig`. -/
structure EpochConfig where
  id : String
  name : String
  createdAt : String
  closedAt : String

/-- `register_epoch`. -/
def registerEpoch (file : File F) (cfg : EpochConfig) (parentEpochId : Option String) :
    Except String (File F) := do
  let raw ← loadRaw file
  if (listOf raw "epochs").any (hasId cfg.id) = true then
    pure file
  else
    saveRaw (Dict.set raw "epochs" (.list (listOf raw "epochs" ++
      [.dict [("id", .str cfg.id), ("name", .str cfg.name), ("started_at", .str cfg.createdAt),
        ("closed_at", .str cfg.closedAt), ("v0_parent", optional .str parentEpochId),
        ("generations", .list [])]])))

/-- `mark_closed`. -/
def markClosed (file : File F) (epochId closedAt : String) : Except String (File F) := do
  let raw ← loadRaw file
  if (listOf raw "epochs").any (hasId epochId) = true then
    saveRaw (Dict.set raw "epochs" (.list (updateFirst epochId
      (fun entry => Dict.set entry "closed_at" (.str closedAt)) (listOf raw "epochs"))))
  else
    pure file

/-- The arguments of `append_to_lineage` after the epoch. -/
structure Appended (F : Type) where
  id : String
  createdAt : String
  promoted : Bool
  roundIndex : Int
  parentId : Option String
  pending : Bool := false
  rejectionReason : String := ""
  parentScalar : Option (Number F) := none
  childScalar : Option (Number F) := none

/-- The verdict the call records. -/
def Appended.verdict (a : Appended F) : Option Bool := if a.pending then none else some a.promoted

/-- A reason belongs to a settled rejection and nowhere else. -/
def Appended.reason (a : Appended F) : String :=
  if a.verdict = some false then a.rejectionReason else ""

/-- `delta_scalar` of the call; the subtraction may raise. -/
def Appended.delta (a : Appended F) : Except String (Option (Number F)) :=
  match a.childScalar, a.parentScalar with
  | some child, some parent =>
      match child.sub parent with
      | some delta => .ok (some delta)
      | none => .error "int too large to convert to float"
  | _, _ => .ok none

/-- `if value is not None: g[key] = value`. -/
def setPresent (row : Row F) (key : String) : Option (Number F) → Row F
  | none => row
  | some n => Dict.set row key n.value

/-- The update of a recorded generation. -/
def Appended.update (a : Appended F) (delta : Option (Number F)) (g : Row F) : Row F :=
  let g := Dict.set g "parent_id" (optional .str a.parentId)
  let g := Dict.set g "promoted" (optional .bool a.verdict)
  let g := Dict.set g "created_at" (.str a.createdAt)
  let g := Dict.set g "round_index" (.int a.roundIndex)
  let g :=
    if a.reason ≠ "" then Dict.set g "rejection_reason" (.str a.reason)
    -- the reason of a rejection stays while the node is rejected
    else if a.verdict ≠ some false then Dict.set g "rejection_reason" (.str "")
    else g
  let g := Dict.setdefault g "rejection_reason" (.str "")
  let g := setPresent g "parent_scalar" a.parentScalar
  let g := setPresent g "child_scalar" a.childScalar
  let g := setPresent g "delta_scalar" delta
  let g := Dict.setdefault g "parent_scalar" .none
  let g := Dict.setdefault g "child_scalar" .none
  Dict.setdefault g "delta_scalar" .none

/-- The row of a new generation. -/
def Appended.row (a : Appended F) (delta : Option (Number F)) : Row F :=
  [("id", .str a.id), ("parent_id", optional .str a.parentId),
    ("promoted", optional .bool a.verdict), ("created_at", .str a.createdAt),
    ("round_index", .int a.roundIndex), ("rejection_reason", .str a.reason),
    ("parent_scalar", optional Number.value a.parentScalar),
    ("child_scalar", optional Number.value a.childScalar),
    ("delta_scalar", optional Number.value delta)]

/-- The epoch with the generation updated in place or entered. -/
def Appended.enter (a : Appended F) (delta : Option (Number F)) (entry : Row F) : Row F :=
  let rows := listOf entry "generations"
  Dict.set entry "generations" (.list
    (if rows.any (hasId a.id) = true then updateFirst a.id (a.update delta) rows
    else rows ++ [.dict (a.row delta)]))

/-- `append_to_lineage`. -/
def appendToLineage (file : File F) (epochId : String) (a : Appended F) :
    Except String (File F) := do
  let raw ← loadRaw file
  let entries := listOf raw "epochs"
  let entries :=
    if entries.any (hasId epochId) = true then entries
    else entries ++ [.dict [("id", .str epochId), ("name", .str ""),
      ("started_at", .str a.createdAt), ("closed_at", .str ""), ("v0_parent", .none),
      ("generations", .list [])]]
  let delta ← a.delta
  saveRaw (Dict.set raw "epochs" (.list (updateFirst epochId (a.enter delta) entries)))

/-- The id of a row. -/
def idOf : PyValue F → Option String
  | .dict row =>
      match Dict.get? row "id" with
      | some (.str s) => some s
      | _ => none
  | _ => none

/-- The row is named, and its verdict is recorded. -/
def namedResolved (ids : List String) : PyValue F → Bool
  | .dict row =>
      ids.any (fun id => hasId id (.dict row)) &&
        (match Dict.getD row "promoted" .none with | .none => false | _ => true)
  | _ => false

/-- `discard_pending_generations`, with the ids it removed. -/
def discardPendingGenerations (file : File F) (epochId : String) (ids : List String) :
    Except String (File F × List String) :=
  if ids = [] then .ok (file, [])
  else do
    let raw ← loadRaw file
    match (listOf raw "epochs").find? (hasId epochId) with
    | some (.dict entry) =>
        let rows := listOf entry "generations"
        if rows.any (namedResolved ids) = true then
          .error ("refusing to discard resolved lineage generations: " ++
            ", ".intercalate ((ids.filter fun id =>
              rows.any fun row => hasId id row && namedResolved ids row).mergeSort))
        else
          let removed := (rows.filter fun row => ids.any fun id => hasId id row).filterMap idOf
          if removed = [] then pure (file, [])
          else do
            let kept := rows.filter fun row => !ids.any fun id => hasId id row
            let file ← saveRaw (Dict.set raw "epochs" (.list (updateFirst epochId
              (fun entry => Dict.set entry "generations" (.list kept)) (listOf raw "epochs"))))
            pure (file, removed)
    | _ => pure (file, [])

/-! ## Runs -/

/-- A call of a mutator. -/
inductive Op (F : Type)
  | registerEpoch (cfg : EpochConfig) (parentEpochId : Option String)
  | markClosed (epochId closedAt : String)
  | appendToLineage (epochId : String) (a : Appended F)
  | discardPendingGenerations (epochId : String) (ids : List String)

/-- What an operation does to the file. -/
def Op.call (file : File F) : Op F → Except String (File F)
  | .registerEpoch cfg parentEpochId => LineageRecord.registerEpoch file cfg parentEpochId
  | .markClosed epochId closedAt => LineageRecord.markClosed file epochId closedAt
  | .appendToLineage epochId a => LineageRecord.appendToLineage file epochId a
  | .discardPendingGenerations epochId ids =>
      (LineageRecord.discardPendingGenerations file epochId ids).map Prod.fst

/-- A call that raises leaves the file as it is. -/
def Op.after (file : File F) (op : Op F) : File F :=
  match op.call file with
  | .ok file' => file'
  | .error _ => file

/-- The calls of a workspace from its empty graph. -/
def run (ops : List (Op F)) : File F := ops.foldl Op.after (some (.dict emptyGraph))

end Zicato.LineageRecord
