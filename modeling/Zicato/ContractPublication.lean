import Zicato.Dict

/-! # The publication of an edited contract

`contract_draft/publication.py` and `workspace/contract_publication.py`: a record, pending and
then complete, about the four files of the contract; one writer, whose writes are each atomic,
and readers whose reads come in between. -/
namespace Zicato.Publication

/-- `_COMPONENTS`. -/
def COMPONENTS : List String := ["board", "brief", "scoring", "config"]

/-- What a path holds: a text, or bytes that are not UTF-8. -/
inductive File
  | absent
  | text (text : String)
  | binary
  deriving DecidableEq

/-- `_text`; bytes that are not UTF-8 raise. -/
def File.read : File → Option (Option String)
  | .absent => some none
  | .text content => some (some content)
  | .binary => none

/-- An entry of `writes`. -/
structure Write where
  component : String
  path : String
  expected : Option String
  text : String
  acceptedSha256 : String
  deriving DecidableEq

/-- The state of the publication record. -/
inductive RecordState
  | pending (writes : List Write)
  | complete
  deriving DecidableEq

/-- A publication record; a complete one retains the revision only. -/
structure Record where
  revision : String
  state : RecordState
  deriving DecidableEq

/-- `ContractInputs`, as far as it is read here. -/
structure ContractInputs where
  boardPath : String
  briefPath : String
  scoringPath : String
  proposerPath : Option String

/-- `ContractSourceFile`. -/
structure ContractSourceFile where
  component : String
  path : String
  text : Option String

/-- `ContractSource`. -/
structure ContractSource where
  inputs : ContractInputs
  files : List ContractSourceFile
  proposerHash : String

/-- What the publication uses of the interpreter and of other modules. -/
structure Interp where
  /-- The hexadecimal digest of the UTF-8 of a text. -/
  sha256 : String → String
  resolve : String → String
  isAbsolute : String → Bool
  /-- `config.json` of the workspace. -/
  configPath : String
  /-- `read_workspace_config` takes such a file. -/
  readsConfig : Option String → Bool
  /-- `json.loads(config_text) == config.raw`, the text read after the configuration. -/
  sameConfig : Option String → Option String → Bool
  /-- `resolve_contract_inputs` with such a file; it may raise. -/
  inputs : Option String → Option ContractInputs
  /-- The inputs of a workspace without a configuration. -/
  defaults : ContractInputs
  /-- The texts in the `contract` object of a configuration, if it has one. -/
  contract : String → Option (Dict String String)

/-- The files of the workspace, what `compute_proposer_hash` gives, and the record. -/
structure World where
  files : String → File
  proposer : ContractInputs → String
  record : Option Record

variable (it : Interp)

/-! ## Reading -/

/-- `assert_contract_publication_complete`: the revision, or a refusal. -/
def complete? : Option Record → Option (Option String)
  | none => some none
  | some record =>
      match record.state with
      | .complete => some (some record.revision)
      | .pending _ => none

/-- `_digest(_text(path)) == file.digest`. -/
def sameDigest (world : World) (file : ContractSourceFile) : Bool :=
  match (world.files file.path).read with
  | some text => decide (text.map it.sha256 = file.text.map it.sha256)
  | none => false

/-- `ContractSource.require_unchanged`, of one moment. -/
def requireUnchanged (world : World) (source : ContractSource) : Bool :=
  (complete? world.record).isSome && source.files.all (sameDigest it world) &&
    decide (world.proposer source.inputs = source.proposerHash)

/-! ## Preparing -/

/-- A text of 64 hexadecimal digits. -/
def isHex64 (text : String) : Bool :=
  decide (text.length = 64) && text.toList.all ("0123456789abcdef".toList.contains ·)

/-- `read_workspace_config` returns. -/
def configReads (world : World) : Bool :=
  match (world.files it.configPath).read with
  | some text => it.readsConfig text
  | none => false

/-- The accepted configuration declares the destinations. -/
def declares (writes : List Write) : Bool :=
  match writes.getLast? with
  | none => false
  | some config =>
      match it.contract config.text with
      | none => false
      | some contract =>
          writes.dropLast.all fun write =>
            decide (Dict.get? contract (write.component ++ "_path") = some write.path)

/-- One entry of `writes` is well formed. -/
def validWrite (write : Write) : Bool :=
  it.isAbsolute write.path && decide (it.resolve write.path = write.path) &&
    decide (write.acceptedSha256 = it.sha256 write.text) && write.expected.all isHex64

/-- `_validated_writes` returns. -/
def validatedWrites (world : World) (writes : List Write) : Bool :=
  decide (writes.map Write.component = COMPONENTS) && writes.all (validWrite it) &&
    configReads it world &&
    decide ((writes.getLast?.map Write.path) = some (it.resolve it.configPath)) &&
    decide (writes.map Write.path).Nodup && declares it writes

/-- A destination holds the accepted text, or the expected one of a write that is not
completed. -/
def sourceFits (world : World) (completed : Bool) (write : Write) : Bool :=
  match (world.files write.path).read with
  | some text =>
      decide (text.map it.sha256 = some (it.sha256 write.text)) ||
        (!completed && decide (text.map it.sha256 = write.expected))
  | none => false

/-- `_require_sources`. -/
def requireSources (world : World) (writes : List Write) (completed : Bool) : Bool :=
  writes.all (sourceFits it world completed)

/-- Whether this very revision is recorded as complete. -/
def completed (world : World) (record : Record) : Bool :=
  decide (world.record = some ⟨record.revision, .complete⟩)

/-- No other publication is pending. -/
def mayFollow (world : World) (record : Record) : Bool :=
  match world.record with
  | some current =>
      match current.state with
      | .pending _ => decide (current = record)
      | .complete => true
  | none => true

/-- `validate_prepared_contract`: the writes of a record that is accepted. -/
def validatePrepared (world : World) (record : Record) : Option (List Write) :=
  match record.state with
  | .complete => none
  | .pending writes =>
      if validatedWrites it world writes && mayFollow world record &&
          requireSources it world writes (completed world record) then some writes
      else none

/-- The record of `prepare_contract_publication`. -/
def preparedRecord (source : ContractSource) (accepted : Dict String String) (revision : String) :
    Record where
  revision := revision
  state := .pending (source.files.map fun file =>
    let text := Dict.getD accepted file.component ""
    { component := file.component
      path := file.path
      expected := file.text.map it.sha256
      text := text
      acceptedSha256 := it.sha256 text })

/-- `prepare_contract_publication`. -/
def prepare (world : World) (source : ContractSource) (accepted : Dict String String)
    (revision : String) : Option Record :=
  let record := preparedRecord it source accepted revision
  if requireUnchanged it world source && (Dict.keys accepted).all (COMPONENTS.contains ·) &&
      COMPONENTS.all ((Dict.keys accepted).contains ·) &&
      decide (source.files.map ContractSourceFile.path).Nodup &&
      decide (source.files.length = COMPONENTS.length) &&
      (validatePrepared it world record).isSome then some record
  else none

/-! ## Steps -/

/-- Where the writer's call is. -/
inductive Stage
  /-- `publish_prepared_contract` is about to write the pending record. -/
  | announce (record : Record)
  /-- `recover_contract_publication` is about to check the record. -/
  | recover
  /-- It is in its loop, with these writes to come. -/
  | write (revision : String) (writes rest : List Write)

/-- Where a capture is: what it reads next. -/
inductive CaptureStage
  | loadConfig
  | loadText (config : Option String)
  | resolve (text : Option String) (found : Bool)
  | resolveConfig (text : Option String)
  | loadFiles (inputs : ContractInputs) (text : Option String) (paths : List (String × String))
      (read : List ContractSourceFile)
  | hashProposer (inputs : ContractInputs) (read : List ContractSourceFile)
  | recheck (source : ContractSource)
  | compare (source : ContractSource) (rest : List ContractSourceFile) (changed : Bool)
  | compareProposer (source : ContractSource) (changed : Bool)
  | recheckRevision (source : ContractSource)

/-- A capture, with the revision that it started from; `since` counts the contract files that
publications had written then. -/
structure Capture where
  revision : Option String
  since : Nat
  stage : CaptureStage

/-- The workspace, the writer's call, with the count at its start, and the captures; `written`
counts the contract files that publications have written, `revisions` are those recorded so
far and `completions` those recorded as complete. -/
structure State where
  world : World
  writer : Option (Stage × Nat)
  captures : Nat → Option Capture
  written : Nat
  revisions : List String
  completions : List String

/-- What the operator and the program do. -/
inductive Action
  /-- The operator replaces a file. -/
  | edit (path : String) (file : File)
  /-- The operator changes the proposer's sources. -/
  | editProposer (proposer : ContractInputs → String)
  | publish (source : ContractSource) (accepted : Dict String String) (revision : String)
  | publishPrepared (payload : Option Record)
  | recover
  /-- The writer goes on. -/
  | advance
  | crash
  | capture (reader : Nat)
  /-- A capture makes its next read. -/
  | read (reader : Nat)

/-- How a publication stands. -/
inductive Outcome
  | running
  | refused
  /-- A publication, or its recovery, has returned. -/
  | published (writes : List Write)
  /-- There was nothing to recover. -/
  | nothing
  | captured (source : ContractSource)

/-- The parts of the contract that a capture reads after the configuration. -/
def ContractInputs.paths (inputs : ContractInputs) : List (String × String) :=
  [("board", inputs.boardPath), ("brief", inputs.briefPath), ("scoring", inputs.scoringPath)]

/-- What the next read makes of a capture: nothing if it refuses. -/
def CaptureStage.next (world : World) (revision : Option String) :
    CaptureStage → Option (CaptureStage ⊕ ContractSource)
  | .loadConfig => do
      let config ← (world.files it.configPath).read
      if it.readsConfig config then some (.inl (.loadText config)) else none
  | .loadText config => do
      let text ← (world.files it.configPath).read
      if it.sameConfig config text then some (.inl (.resolve text config.isSome)) else none
  | .resolve text found =>
      if found then (complete? world.record).map fun _ => .inl (.resolveConfig text)
      else some (.inl (.loadFiles it.defaults text it.defaults.paths []))
  | .resolveConfig text => do
      let config ← (world.files it.configPath).read
      let inputs ← it.inputs config
      some (.inl (.loadFiles inputs text inputs.paths []))
  | .loadFiles inputs text [] read =>
      some (.inl (.hashProposer inputs (read ++ [⟨"config", it.resolve it.configPath, text⟩])))
  | .loadFiles inputs text ((component, path) :: paths) read => do
      let content ← (world.files path).read
      some (.inl (.loadFiles inputs text paths (read ++ [⟨component, it.resolve path, content⟩])))
  | .hashProposer inputs read => some (.inl (.recheck ⟨inputs, read, world.proposer inputs⟩))
  | .recheck source =>
      (complete? world.record).map fun _ => .inl (.compare source source.files false)
  | .compare source [] changed => some (.inl (.compareProposer source changed))
  | .compare source (file :: rest) changed => do
      let content ← (world.files file.path).read
      let same := decide (content.map it.sha256 = file.text.map it.sha256)
      some (.inl (.compare source rest (changed || !same)))
  | .compareProposer source changed =>
      if changed || decide (world.proposer source.inputs ≠ source.proposerHash) then none
      else some (.inl (.recheckRevision source))
  | .recheckRevision source =>
      if complete? world.record = some revision then some (.inr source) else none

/-- A file of the workspace replaced. -/
def State.setFile (s : State) (path : String) (file : File) : State :=
  { s with world := { s.world with files := fun p => if p = path then file else s.world.files p } }

/-- The record replaced. -/
def State.setRecord (s : State) (record : Record) : State :=
  { s with
    world := { s.world with record := some record }
    revisions := record.revision :: s.revisions
    completions :=
      match record.state with
      | .complete => record.revision :: s.completions
      | .pending _ => s.completions }

/-- What a reader holds replaced. -/
def State.setCapture (s : State) (reader : Nat) (capture : Option Capture) : State :=
  { s with captures := fun r => if r = reader then capture else s.captures r }

/-- Where the writer stands. -/
def State.setWriter (s : State) (stage : Stage) (begun : Nat) : State :=
  { s with writer := some (stage, begun) }

/-- The writer's call has ended. -/
def State.release (s : State) : State := { s with writer := none }

/-- `publish_prepared_contract`, up to its first write. -/
def State.begin (s : State) (record : Record) : State × Outcome :=
  match validatePrepared it s.world record with
  | none => (s, .refused)
  | some writes =>
      if (s.world.record.map Record.revision) = some record.revision then
        if completed s.world record then (s, .published writes)
        else (s.setWriter .recover s.written, .running)
      else (s.setWriter (.announce record) s.written, .running)

/-- The next step of the writer's call. -/
def State.advance (s : State) (stage : Stage) (begun : Nat) : State × Outcome :=
  match stage with
  | .announce record => ((s.setRecord record).setWriter .recover begun, .running)
  | .recover =>
      match s.world.record with
      | none => (s.release, .nothing)
      | some record =>
          match record.state with
          | .complete => (s.release, .nothing)
          | .pending writes =>
              if validatedWrites it s.world writes && requireSources it s.world writes false then
                (s.setWriter (.write record.revision writes writes) begun, .running)
              else (s.release, .refused)
  | .write revision writes [] =>
      ((s.setRecord ⟨revision, .complete⟩).release, .published writes)
  | .write revision writes (write :: rest) =>
      let onward := s.setWriter (.write revision writes rest) begun
      if s.world.files write.path = .text write.text then (onward, .running)
      else
        ({ onward.setFile write.path (.text write.text) with written := s.written + 1 }, .running)

/-- One action.  There is one writer at a time, an operator's edit comes between its calls, and
the revision of a new publication is a new one. -/
def State.step (s : State) : Action → Option (State × Outcome)
  | .edit path file => if s.writer.isNone then some (s.setFile path file, .running) else none
  | .editProposer proposer =>
      if s.writer.isNone then
        some ({ s with world := { s.world with proposer := proposer } }, .running)
      else none
  | .publish source accepted revision =>
      if s.writer.isNone ∧ revision ∉ s.revisions then
        match prepare it s.world source accepted revision with
        | none => some (s, .refused)
        | some record => some (s.begin it record)
      else none
  | .publishPrepared payload =>
      if s.writer.isNone then
        match payload with
        | none => some (s, .refused)
        | some record => some (s.begin it record)
      else none
  | .recover => if s.writer.isNone then some (s.setWriter .recover s.written, .running) else none
  | .advance => s.writer.map fun call => s.advance it call.1 call.2
  | .crash => some (s.release, .running)
  | .capture reader =>
      match complete? s.world.record with
      | none => some (s, .refused)
      | some revision =>
          some (s.setCapture reader (some ⟨revision, s.written, .loadConfig⟩), .running)
  | .read reader =>
      (s.captures reader).map fun capture =>
        match CaptureStage.next it s.world capture.revision capture.stage with
        | none => (s.setCapture reader none, .refused)
        | some (.inl stage) =>
            (s.setCapture reader (some { capture with stage := stage }), .running)
        | some (.inr source) => (s.setCapture reader none, .captured source)

end Zicato.Publication
