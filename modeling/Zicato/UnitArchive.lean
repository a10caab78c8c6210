import Zicato.GenerationStores
import Zicato.JsonRound

/-! # The archive of a unit's attempts

`archive_unit_artifacts` of `tournament/artifacts.py`, the loss history of
`tournament/unit_cache.py`, and the writes of the worker of one board unit.  An atomic write, a
rename and an `unlink` are one step each; the line of the history is appended one character at a
time. -/
namespace Zicato.UnitArchive

open GenerationStores (Name Path)

variable {F P : Type}

/-! ## The slot of a unit -/

/-- The files of a directory, by their paths. -/
abbrev Files := List (Path × Bytes)

/-- What a unit's slot holds. -/
inductive Kind
  | loss
  | events
  | result
  | judgeIo
  /-- The directory of the artifacts. -/
  | artifacts
  | manifest
  deriving DecidableEq

/-- The order in which an attempt is copied and cleared. -/
def KINDS : List Kind := [.loss, .events, .result, .judgeIo, .artifacts, .manifest]

inductive Content
  | file (bytes : Bytes)
  | dir (files : Files)

abbrev Slot := Kind → Option Content

/-- The files of a copy under a name. -/
def Content.files (name : Name) : Content → Files
  | .file bytes => [(⟨[], name⟩, bytes)]
  | .dir files => files.map fun e => (e.1.under name, e.2)

/-- What the archive uses of the slot's names, of the profile's decoder and of the libraries. -/
structure Interp (F P : Type) where
  /-- `unit_artifact_name`, and the directory of `artifact_paths`. -/
  names : Kind → Name
  /-- The system takes the path of a copy below a staging directory: it is not too long. -/
  fits : Path → Bool
  /-- The name of the loss file. -/
  lossName : String
  floats : Json.Floats F
  /-- `loss_profile_from_dict`, where it raises nothing. -/
  profile : Dict String (PyValue F) → Option P
  /-- `hashlib.sha256(body).hexdigest()`. -/
  sha256 : Bytes → String

variable (it : Interp F P)

/-- The files of a measurement. -/
def slotFiles (slot : Slot) (kinds : List Kind) : Files :=
  kinds.flatMap fun kind =>
    match slot kind with
    | some content => content.files (it.names kind)
    | none => []

/-! ## The digest of an attempt -/

/-- `n.to_bytes(8, "big")`, where it raises nothing. -/
def toBytes8 (n : Nat) : Option Bytes :=
  if n < 2 ^ 64 then
    some ([7, 6, 5, 4, 3, 2, 1, 0].map fun i => UInt8.ofNat (n / 256 ^ i % 256))
  else none

/-- `str.encode` of a path, where it raises nothing. -/
def encodePath (path : Path) : Option Bytes :=
  if (ByteArray.mk path.text.toArray).validateUTF8 then some path.text else none

/-- What the digest takes of a file. -/
def frame (e : Path × Bytes) : Option Bytes := do
  let relative ← encodePath e.1
  let relativeLength ← toBytes8 relative.length
  let bodyLength ← toBytes8 e.2.length
  some (relativeLength ++ relative ++ bodyLength ++ e.2)

/-- The digest of the staged files, where nothing is raised. -/
def digest (staged : Files) : Option String :=
  (staged.mapM frame).map fun frames => it.sha256 frames.flatten

/-- The staged files in the order of their paths. -/
def sortPaths (staged : Files) : Files :=
  staged.insertionSort fun a b => a.1.parts.map Name.bytes ≤ b.1.parts.map Name.bytes

/-! ## The loss history -/

/-- The JSON object that a loss file holds. -/
def lossObject : Option Content → Option (Dict String (PyValue F))
  | some (.file bytes) => do
      let text ← Text.decode bytes
      match (Json.loads it.floats text).toOption with
      | some (.dict fields) => some fields
      | _ => none
  | _ => none

/-- The record of an outgoing profile. -/
def record (seq : Nat) (outgoing : Dict String (PyValue F)) : PyValue F :=
  .dict [("seq", .int seq), ("slot", .str it.lossName),
    ("measurement", (Dict.get? outgoing "measurement").getD .none), ("profile", .dict outgoing)]

/-- The number of the records in the history. -/
def nextSeq (history : Text) : Nat :=
  (Lines.split '\n' (Text.universalNewlines history)).countP fun line => Text.strip line ≠ []

/-- What `archive_outgoing_unit_loss` appends. -/
def outgoingLine (history : Text) (loss : Option Content) : Text :=
  match lossObject it loss with
  | some outgoing =>
      Json.dumps it.floats .default (record it (nextSeq history) outgoing).sorted ++ ['\n']
  | none => []

/-- The profile of a line of the history. -/
def readLine (line : Text) : Option P :=
  if Text.strip line = [] then none
  else
    match (Json.loads it.floats line).toOption with
    | some (.dict fields) =>
        match Dict.get? fields "slot" with
        | none | some .none => profileOf fields
        | some (.str slot) => if slot = it.lossName then profileOf fields else none
        | _ => none
    | _ => none
where
  profileOf (fields : Dict String (PyValue F)) : Option P :=
    match Dict.get? fields "profile" with
    | some (.dict profile) => it.profile profile
    | _ => none

/-- `read_loss_profile` of the slot, where it raises nothing. -/
def readLoss (loss : Option Content) : Option P := (lossObject it loss).bind it.profile

/-! ## Measurements -/

/-- A loss file, as `write_loss_profile` writes it. -/
structure LossFile where
  bytes : Bytes
  fields : Dict String (PyValue F)
  profile : P
  reads : lossObject it (some (.file bytes)) = some fields
  keyed : Json.Keyed (.dict fields)
  decodes : it.profile fields = some profile

/-- Where a measurement is: what it does next. -/
inductive Stage
  | idle
  /-- The sources are copied into a staging directory that nobody reads. -/
  | copying (staged : Files) (rest sources : List Kind)
  | publishing (staged : Files) (sources : List Kind)
  | appending (rest : Text) (sources : List Kind)
  | clearing (sources : List Kind)
  /-- The worker runs. -/
  | working
  /-- The worker has written the loss. -/
  | reduced

/-- The files of one board unit. -/
structure State where
  slot : Slot
  /-- The directories of `attempts`, by the digest in their names. -/
  attempts : Dict String Files
  /-- `loss.archive.jsonl`. -/
  history : Text
  stage : Stage

inductive Action
  /-- A measurement starts. -/
  | measure
  /-- The archive goes on. -/
  | advance
  /-- The worker writes a file, appends to it or replaces a directory. -/
  | write (kind : Kind) (content : Option Content)
  /-- The worker writes the loss. -/
  | reduce (loss : LossFile it)
  /-- The worker writes the result. -/
  | finish (bytes : Bytes)
  /-- The next file operation of the archive fails. -/
  | fail
  | stop

inductive Outcome
  | running
  | raised
  | measured
  | stopped
  deriving DecidableEq

namespace State

def go (s : State) (stage : Stage) : State × Outcome := ({ s with stage := stage }, .running)

def raise (s : State) : State × Outcome := ({ s with stage := .idle }, .raised)

def setSlot (s : State) (kind : Kind) (content : Option Content) : State :=
  { s with slot := fun k => if k = kind then content else s.slot k }

/-- The files of the slot that exist. -/
def sources (s : State) : List Kind := KINDS.filter fun kind => (s.slot kind).isSome

/-- `read_unit_loss_history`. -/
def readHistory (s : State) : List P :=
  (Text.splitLines (Text.universalNewlines s.history)).filterMap (readLine it) ++
    (readLoss it (s.slot .loss)).toList

/-- The next step of `archive_unit_artifacts`. -/
def advance (s : State) : Stage → Option (State × Outcome)
  | .copying staged (kind :: rest) sources =>
      match s.slot kind with
      | some content =>
          if (content.files (it.names kind)).all fun f => it.fits f.1 then
            s.go (.copying (staged ++ content.files (it.names kind)) rest sources)
          else s.raise
      | none => s.raise
  | .copying staged [] sources => s.go (.publishing (sortPaths staged) sources)
  | .publishing staged sources =>
      match digest it staged with
      | none => s.raise
      | some name =>
          { s with attempts :=
              if (Dict.get? s.attempts name).isSome then s.attempts
              else Dict.set s.attempts name staged }.go
            (.appending (outgoingLine it s.history (s.slot .loss)) sources)
  | .appending (c :: rest) sources =>
      { s with history := s.history ++ [c] }.go (.appending rest sources)
  | .appending [] sources => s.go (.clearing sources)
  | .clearing (kind :: rest) =>
      match s.slot kind with
      | some (.dir (_ :: files)) => (s.setSlot kind (some (.dir files))).go (.clearing (kind :: rest))
      | _ => (s.setSlot kind none).go (.clearing rest)
  | .clearing [] => s.go .working
  | _ => none

/-- A failed operation; `archive_outgoing_unit_loss` goes on without the rest of its line. -/
def fail (s : State) : Stage → Option (State × Outcome)
  | .copying _ _ _ | .publishing _ _ | .clearing _ => s.raise
  | .appending _ sources => s.go (.clearing sources)
  | _ => none

/-- One action; there is one writer at a time. -/
def step (s : State) : Action it → Option (State × Outcome)
  | .measure =>
      match s.stage with
      | .idle => s.go (if s.sources = [] then .working else .copying [] s.sources s.sources)
      | _ => none
  | .advance => s.advance it s.stage
  | .write kind content =>
      match s.stage with
      | .working =>
          if kind = .loss ∨ kind = .result then none else some (s.setSlot kind content, .running)
      | _ => none
  | .reduce loss =>
      match s.stage with
      | .working => (s.setSlot .loss (some (.file loss.bytes))).go .reduced
      | _ => none
  | .finish bytes =>
      match s.stage with
      | .reduced =>
          some ({ s.setSlot .result (some (.file bytes)) with stage := .idle }, .measured)
      | _ => none
  | .fail => s.fail s.stage
  | .stop => some ({ s with stage := .idle }, .stopped)

/-- Actions taken one after another: the last state and the last outcome. -/
def follow : State → Outcome → List (Action it) → Option (State × Outcome)
  | s, outcome, [] => some (s, outcome)
  | s, _, action :: rest => do
      let (s', outcome) ← s.step it action
      follow s' outcome rest

end State

end Zicato.UnitArchive
