import Zicato.Durable
import Zicato.Receipt
import Zicato.Tournament

/-! # The registers of an epoch

What a restart reconciles: the source store, the record directory of each
generation, the lineage, the round directories and the snapshots of field
tournaments.  A write creates, replaces or unlinks one file; a directory that is
removed as a whole loses its files one after the other before it is gone. -/
namespace Zicato.Resume
open Receipt (ReceiptState HookState IndexState)

/-! ## Generations -/

/-- The id of a generation. -/
inductive GenId
  /-- `v{n}`. -/
  | v (n : Nat)
  /-- `v{n}-placebo`, the arm a one-challenger round runs beside its challenger. -/
  | placebo (n : Nat)
  /-- Any other text, such as the coordinates of a parent in another epoch. -/
  | other (id : String)
  deriving DecidableEq, Repr

namespace GenId

/-- The id as written. -/
def asStr : GenId → String
  | v n => s!"v{n}"
  | placebo n => s!"v{n}-placebo"
  | other id => id

/-- `generation_round_number`. -/
def number : GenId → Option Nat
  | v n => some n
  | _ => none

/-- Where an id stands among the ids of its field; one that has no number is last. -/
def rank (id : GenId) : Nat := id.number.getD (2 ^ 31 - 1)

/-- The order in which a field lists its members. -/
def fieldLe (a b : GenId) : Bool :=
  decide (a.rank < b.rank) || a.rank == b.rank && decide (a.asStr ≤ b.asStr)

end GenId

/-- `Experiment`; `body` is what no modelled function reads: the epoch, the time and
the hypothesis. -/
structure Experiment where
  id : String
  generationId : GenId
  parentId : Option GenId
  roundIndex : Nat := 0
  patches : List String := []
  outcome : Option TournamentDecision := none
  body : String := ""
  deriving DecidableEq, Repr

/-- `experiment.json`, read together with the patch files it names. -/
inductive ExperimentFile
  | absent
  | garbled
  | written (experiment : Experiment)
  deriving DecidableEq, Repr

/-- `generations/{id}/`; `losses` says that a board unit left its measurement. -/
structure Record where
  experiment : ExperimentFile := .absent
  losses : Bool := false
  deriving DecidableEq, Repr

/-- A node of the lineage; `promoted` is none while the node is pending. -/
structure Row where
  id : GenId
  parentId : Option GenId
  promoted : Option Bool
  roundIndex : Option Nat
  body : String := ""
  deriving DecidableEq, Repr

/-- The nodes of the epoch; no graph with two nodes of one id is ever written. -/
structure Lineage where
  rows : List Row
  nodup : (rows.map Row.id).Nodup
  deriving DecidableEq

/-! ## Rounds -/

/-- A candidate of a receipt. -/
structure Candidate where
  generationId : GenId
  experimentId : String
  decision : TournamentDecision
  body : String := ""
  deriving DecidableEq, Repr

/-- A settlement receipt; the first two fields are the facts it records, the others its
progress. -/
structure Settlement where
  candidates : List Candidate
  body : String
  state : ReceiptState
  index : IndexState
  hook : HookState
  deriving DecidableEq, Repr

/-- `rounds/{n}/`. -/
structure Round where
  receipt : Option Settlement := none
  log : List String := []
  deriving DecidableEq, Repr

/-- What the loop leaves in a workspace. -/
structure World where
  source : Dict GenId String
  records : Dict GenId Record
  lineage : Lineage
  rounds : Dict Nat Round
  tournaments : Dict GenId String
  deriving DecidableEq

/-! ## Writes -/

/-- The files of a record directory. -/
inductive RecordPart
  | patch
  | experiment
  | losses
  deriving DecidableEq, Repr

/-- The record without one of its files; an experiment whose patch is gone does not
read. -/
def Record.without (rec : Record) : RecordPart → Record
  | .patch =>
      match rec.experiment with
      | .written _ => { rec with experiment := .garbled }
      | _ => rec
  | .experiment => { rec with experiment := .absent }
  | .losses => { rec with losses := false }

/-- The writes of the loop. -/
inductive Write
  | putSource (id : GenId) (tree : String)
  | dropSource (id : GenId)
  /-- A file of the record directory that no restart reads, or the directory itself. -/
  | touchRecord (id : GenId)
  | putExperiment (id : GenId) (experiment : Experiment)
  | putLosses (id : GenId)
  | dropPart (id : GenId) (part : RecordPart)
  | dropRecord (id : GenId)
  | putLineage (lineage : Lineage)
  | putReceipt (round : Nat) (receipt : Settlement)
  | putLog (round : Nat) (event : String)
  | dropReceipt (round : Nat)
  | dropLog (round : Nat)
  | dropRound (round : Nat)
  | putTournament (id : GenId) (snapshot : String)
  | dropTournament (id : GenId)

namespace World

/-- The record of a generation. -/
def record (w : World) (id : GenId) : Record := Dict.getD w.records id {}

/-- The directory of a round. -/
def round (w : World) (r : Nat) : Round := Dict.getD w.rounds r {}

/-- The receipt of a round. -/
def receiptAt (w : World) (r : Nat) : Option Settlement := (w.round r).receipt

/-- The record of a generation replaced. -/
def setRecord (w : World) (id : GenId) (rec : Record) : World :=
  { w with records := Dict.set w.records id rec }

/-- The directory of a round replaced. -/
def setRound (w : World) (r : Nat) (round : Round) : World :=
  { w with rounds := Dict.set w.rounds r round }

/-- What a write does. -/
def apply (w : World) : Write → World
  | .putSource id tree => { w with source := Dict.set w.source id tree }
  | .dropSource id => { w with source := Dict.erase w.source id }
  | .touchRecord id => w.setRecord id (w.record id)
  | .putExperiment id e => w.setRecord id { w.record id with experiment := .written e }
  | .putLosses id => w.setRecord id { w.record id with losses := true }
  | .dropPart id part => w.setRecord id ((w.record id).without part)
  | .dropRecord id => { w with records := Dict.erase w.records id }
  | .putLineage lineage => { w with lineage := lineage }
  | .putReceipt r s => w.setRound r { w.round r with receipt := some s }
  | .putLog r event => w.setRound r { w.round r with log := (w.round r).log ++ [event] }
  | .dropReceipt r => w.setRound r { w.round r with receipt := none }
  | .dropLog r => w.setRound r { w.round r with log := [] }
  | .dropRound r => { w with rounds := Dict.erase w.rounds r }
  | .putTournament id snapshot => { w with tournaments := Dict.set w.tournaments id snapshot }
  | .dropTournament id => { w with tournaments := Dict.erase w.tournaments id }

instance : Medium World Write where
  apply := World.apply

end World

/-- A procedure on the workspace. -/
abbrev Step := Proc World String

/-! ## Readers -/

namespace World
variable (w : World)

/-- `iter_settlement_receipts`. -/
def receipts : List (Nat × Settlement) :=
  (w.rounds.keys.insertionSort (· ≤ ·)).filterMap fun r => (w.receiptAt r).map fun s => (r, s)

/-- The candidates of committed rounds. -/
def committedCandidates : List (Nat × Candidate) :=
  (w.receipts.filter fun rs => rs.2.state = .committed).flatMap fun rs =>
    rs.2.candidates.map fun c => (rs.1, c)

/-- A committed candidate against its node. -/
def checkAncestry (rc : Nat × Candidate) : Except String Unit :=
  match w.lineage.rows.find? fun row => row.id = rc.2.generationId with
  | none => .error "round result names a candidate absent from ancestry"
  | some row =>
      require (row.roundIndex == some rc.1) "round result disagrees with candidate birth round"

/-- The verdict a committed round gives a generation; the last one stands. -/
def verdict (id : GenId) : Option Bool :=
  (w.committedCandidates.reverse.find? fun rc => rc.2.generationId = id).map fun rc =>
    decide (rc.2.decision = .promoted)

/-- A node with the outcome of its committed round. -/
def overlay (row : Row) : Row :=
  match w.verdict row.id with
  | some promoted => { row with promoted := some promoted }
  | none => row

/-- `load_lineage`. -/
def loadLineage : Except String (List Row) := do
  w.committedCandidates.forM w.checkAncestry
  pure (w.lineage.rows.map w.overlay)

/-- `read_experiment`. -/
def readExperiment (id : GenId) : Except String Experiment :=
  match (w.record id).experiment with
  | .absent => .error s!"experiment.json not found for {id.asStr}"
  | .garbled => .error s!"experiment.json for {id.asStr} does not parse"
  | .written e => do
      require (e.generationId == id) "experiment identity disagrees with its location"
      match w.receiptAt e.roundIndex with
      | none => pure e
      | some s =>
          if s.state = .committed then
            match s.candidates.find? fun c => c.generationId = id with
            | none => pure e
            | some c => do
                require (c.experimentId == e.id) "round result names a different experiment"
                pure { e with outcome := some c.decision }
          else pure e

/-- `_latest_generation_id`: the highest number with a record directory. -/
def latest : Option Nat := (w.records.keys.filterMap GenId.number).max?

/-- The number of `next_generation_id`. -/
def nextNumber : Nat :=
  match w.latest with
  | some n => n + 1
  | none => 0

/-- `_epoch_round_base`. -/
def epochRoundBase : Nat :=
  ((w.records.keys.filterMap fun id => (w.readExperiment id).toOption).filter
    fun e => e.parentId.isSome).foldl (fun best e => max best (e.roundIndex + 1)) 0

/-- `store.has_generation`. -/
def hasGeneration (id : GenId) : Bool := (Dict.get? w.source id).isSome

/-- Whether a generation has a record. -/
def hasRecord (id : GenId) : Bool := (Dict.get? w.records id).isSome

end World

/-! ## Pending groups -/

/-- The round and the parent of a field. -/
abbrev FieldKey := Nat × GenId

/-- The field a node belongs to, if its coordinates are valid. -/
def Row.fieldKey (row : Row) : Option FieldKey :=
  match row.roundIndex, row.parentId with
  | some r, some parent => some (r, parent)
  | _, _ => none

/-- `groups.setdefault(key, []).append(id)`. -/
def addToGroup (groups : Dict FieldKey (List GenId)) (row : Row) : Dict FieldKey (List GenId) :=
  match row.fieldKey with
  | some key => Dict.set groups key (Dict.getD groups key [] ++ [row.id])
  | none => groups

/-- The pending nodes by field. -/
def groupRows (rows : List Row) : Dict FieldKey (List GenId) :=
  (rows.filter fun row => row.promoted = none).foldl addToGroup []

/-- `_pending_lineage_groups`. -/
def World.pendingGroups (w : World) : Except String (Dict FieldKey (List GenId)) := do
  let rows ← w.loadLineage
  require (rows.all fun row => row.promoted ≠ none || row.fieldKey.isSome)
    "pending lineage contains an invalid field identity"
  let promoted := (rows.filter fun row => row.promoted = some true).filterMap Row.fieldKey
  require ((groupRows rows).keys.all fun key => key ∉ promoted)
    "unrecorded field has both promoted and pending generations"
  pure ((groupRows rows).map fun group =>
    (group.1, group.2.insertionSort fun a b => GenId.fieldLe a b))

end Zicato.Resume
