import Mathlib.Data.List.Infix
import Zicato.PyValue

/-! # Round integrity

`fold_round_record` and `final_attempt_events` of `epoch/round_log.py`, `classify_round` of
`epoch/round_integrity.py` and `infrastructure_outage` of `evolve/persist.py`: what the events
of a round come to, and whether the round measured anything. -/
namespace Zicato.Integrity

variable {F : Type}

/-! ## The events of a round -/

/-- `UnitCompleted`. -/
structure UnitCompleted where
  entryId : String
  side : String

/-- `GateEvaluated`. -/
structure GateEvaluated (F : Type) where
  ruleFired : String
  decision : String
  championScalar : Option F
  challengerScalar : Option F
  marginRequired : Option F
  attributableRegressions : List String

/-- `FrontierUpdated`. -/
structure FrontierUpdated where
  admitted : List String
  retired : List String
  size : Int

/-- `ProposerEpisodeOutcome`. -/
structure ProposerEpisodeOutcome where
  kind : String
  code : String
  message : String

/-- The classes of `EVENT_TYPES`, with what the fold reads of each. -/
inductive Event (F : Type)
  | roundOpened (contractHash : String)
  | proposalAttempted (errors : List String)
  | proposalEpisodeSettled (outcome : ProposerEpisodeOutcome)
  | candidateSampled (recombined : Bool)
  | candidateScreened (vetoed : Bool)
  | critiqueSelected (index : Int) (reason : String)
  | experimentMinted (experimentId : String)
  | patchesApplied (generationId : String)
  | harnessLoaded (generationId entrypointFile : String) (treesNeverImported : List String)
  | validationFailed (findings : List String)
  | unitCompleted (unit : UnitCompleted)
  | gateEvaluated (gate : GateEvaluated F)
  /-- `HoldoutReleased`, by whether it confirmed. -/
  | holdoutReleased (confirmed : Bool)
  | evidenceReplicated (ciState : Dict String (PyValue F))
  | frontierUpdated (update : FrontierUpdated)
  | decisionRecorded (decision : String) (provenance : Dict String (PyValue F))
  | roundClosed

/-- `RoundLogEnvelope`, whose event is absent if its type is unknown. -/
structure Envelope (F : Type) where
  seq : Int
  event : Option (Event F)

/-- `ProposalSession`. -/
structure ProposalSession where
  attempts : Nat := 0
  errors : List String := []
  candidatesSampled : Nat := 0
  candidatesScreened : Nat := 0
  screenVetoes : Nat := 0
  recombinedSampled : Nat := 0
  critiqueIndex : Option Int := none
  critiqueReason : String := ""
  experimentIds : List String := []
  episodeOutcomes : List ProposerEpisodeOutcome := []

/-- `RoundRecord`. -/
structure RoundRecord (F : Type) where
  opened : Bool := false
  closed : Bool := false
  contractHash : String := ""
  proposal : ProposalSession := {}
  generationIds : List String := []
  harnessEntrypointFiles : Dict String String := []
  harnessNeverImportedTrees : Dict String (List String) := []
  validationFindings : List String := []
  units : List UnitCompleted := []
  gates : List (GateEvaluated F) := []
  holdout : Option Bool := none
  evidenceTrail : List (Dict String (PyValue F)) := []
  frontierUpdates : List FrontierUpdated := []
  decision : String := ""
  decisionProvenance : Dict String (PyValue F) := []
  lastSeq : Int := 0

/-- What one event adds to the record. -/
def RoundRecord.add (r : RoundRecord F) : Event F → RoundRecord F
  | .roundOpened contractHash => { r with opened := true, contractHash := contractHash }
  | .proposalAttempted errors =>
      { r with proposal := { r.proposal with
          attempts := r.proposal.attempts + 1
          errors := r.proposal.errors ++ errors } }
  | .proposalEpisodeSettled outcome =>
      { r with proposal := { r.proposal with
          episodeOutcomes := r.proposal.episodeOutcomes ++ [outcome] } }
  | .candidateSampled recombined =>
      { r with proposal := { r.proposal with
          candidatesSampled := r.proposal.candidatesSampled + 1
          recombinedSampled :=
            if recombined then r.proposal.recombinedSampled + 1 else r.proposal.recombinedSampled } }
  | .candidateScreened vetoed =>
      { r with proposal := { r.proposal with
          candidatesScreened := r.proposal.candidatesScreened + 1
          screenVetoes := if vetoed then r.proposal.screenVetoes + 1 else r.proposal.screenVetoes } }
  | .critiqueSelected index reason =>
      { r with proposal := { r.proposal with critiqueIndex := some index, critiqueReason := reason } }
  | .experimentMinted experimentId =>
      { r with proposal := { r.proposal with
          experimentIds := r.proposal.experimentIds ++ [experimentId] } }
  | .patchesApplied generationId => { r with generationIds := r.generationIds ++ [generationId] }
  | .harnessLoaded generationId entrypointFile trees =>
      { r with
        harnessEntrypointFiles := Dict.set r.harnessEntrypointFiles generationId entrypointFile
        harnessNeverImportedTrees :=
          if trees.isEmpty then Dict.erase r.harnessNeverImportedTrees generationId
          else Dict.set r.harnessNeverImportedTrees generationId trees }
  | .validationFailed findings => { r with validationFindings := r.validationFindings ++ findings }
  | .unitCompleted unit => { r with units := r.units ++ [unit] }
  | .gateEvaluated gate => { r with gates := r.gates ++ [gate] }
  | .holdoutReleased confirmed => { r with holdout := some confirmed }
  | .evidenceReplicated ciState => { r with evidenceTrail := r.evidenceTrail ++ [ciState] }
  | .frontierUpdated update => { r with frontierUpdates := r.frontierUpdates ++ [update] }
  | .decisionRecorded decision provenance =>
      { r with decision := decision, decisionProvenance := provenance }
  | .roundClosed => { r with closed := true }

/-- One pass of the loop of `fold_round_record`. -/
def RoundRecord.next (r : RoundRecord F) (envelope : Envelope F) : RoundRecord F :=
  let seen := { r with lastSeq := max r.lastSeq envelope.seq }
  match envelope.event with
  | some event => seen.add event
  | none => seen

/-- `fold_round_record`. -/
def foldRoundRecord (events : List (Envelope F)) : RoundRecord F := events.foldl RoundRecord.next {}

/-- Whether an envelope opens a round. -/
def Envelope.opens (envelope : Envelope F) : Bool :=
  match envelope.event with
  | some (.roundOpened _) => true
  | _ => false

/-- The index of the last opening, `index` being that of the first event. -/
@[grind =] def lastOpen (index : Nat) (last : Option Nat) : List (Envelope F) → Option Nat
  | [] => last
  | envelope :: rest => lastOpen (index + 1) (if envelope.opens then some index else last) rest

/-- `final_attempt_events`. -/
def finalAttemptEvents (events : List (Envelope F)) : List (Envelope F) :=
  match lastOpen 0 none events with
  | some index => events.drop index
  | none => events

/-! ## The classification -/

/-- What the classification uses of the interpreter: `str.lower`, and `\d` of `re`. -/
structure Interp where
  lower : String → String
  decimal : Char → Bool

/-- The marks of a failure no candidate can cause. -/
def HARD_INFRA_MARKERS : List String :=
  ["credential", "unauthorized", "authentication", "authentication_error", "api key", "api_key",
    "invalid_api_key", "invalid_grant", "permission denied", "permission_denied", "access denied",
    "401 unauthorized", "403 forbidden", "connection error", "connection refused",
    "connection reset", "connection aborted", "failed to establish a new connection",
    "endpoint unreachable", "name or service not known", "temporary failure in name resolution",
    "rate limit exceeded", "rate_limit", "resource_exhausted", "insufficient_quota",
    "quota exceeded", "429 too many requests", "service unavailable", "503 service unavailable"]

/-- What an error at the boundary of a call begins with. -/
def CALL_BOUNDARY_PREFIXES : List String :=
  ["evaluation llm call raised ", "the proposal episode could not start: ",
    "the proposal episode failed: "]

/-- `RoundStatus`. -/
inductive RoundStatus
  | complete
  | settledDegraded
  | void
  deriving DecidableEq, Repr

/-- `RoundIntegrity`. -/
structure RoundIntegrity where
  roundIndex : Int
  status : RoundStatus
  opened : Bool
  closed : Bool
  gateCount : Nat
  proposerReached : Bool
  invalidPatch : Bool
  infraMarkers : List String
  evidence : List String
  logPath : String
  promotedRegressions : List String

variable (it : Interp)

/-- `_SLOT_PREFIX.sub("", text, count=1)`. -/
def stripSlot (text : List Char) : List Char :=
  match text with
  | 's' :: 'l' :: 'o' :: 't' :: ' ' :: rest =>
      if (rest.takeWhile it.decimal).isEmpty then text
      else
        match rest.dropWhile it.decimal with
        | ':' :: ' ' :: tail => tail
        | _ => text
  | _ => text

/-- The text that is matched. -/
def anchored (text : String) : List Char := stripSlot it (it.lower text).toList

/-- `_is_call_boundary`. -/
def isCallBoundary (text : String) : Bool :=
  CALL_BOUNDARY_PREFIXES.any fun p => p.toList.isPrefixOf (anchored it text)

/-- `is_hard_infra_error`. -/
def isHardInfraError (infraMarkers : List String) (text : String) : Bool :=
  isCallBoundary it text &&
    infraMarkers.any fun marker => decide (marker.toList <:+: anchored it text)

/-- The first of each of the values, in order. -/
def dedup (texts : List String) : List String :=
  texts.foldl (fun out text => if out.contains text then out else out ++ [text]) []

/-- `_matched_markers`. -/
def matchedMarkers (infraMarkers : List String) (texts : List String) : List String :=
  dedup (texts.filter (isHardInfraError it infraMarkers))

/-- The evidence, without the reason of the verdict. -/
def evidenceOf (record : RoundRecord F) (proposerReached : Bool) (markers : List String) :
    List String :=
  (if proposerReached then
    ["proposer reached: " ++ toString record.proposal.candidatesSampled ++
      " candidate(s) sampled, " ++ toString record.proposal.experimentIds.length ++
      " experiment(s) minted, " ++ toString record.generationIds.length ++
      " generation(s) applied"]
  else []) ++
    markers.map ("infra marker: " ++ ·) ++
    record.validationFindings.map ("validation finding: " ++ ·) ++
    (record.proposal.errors.filter fun error => !markers.contains error).map
      ("proposal error: " ++ ·)

/-- Whether anything but a mechanical mint was sampled, or anything was minted or applied. -/
def proposerReached (record : RoundRecord F) : Bool :=
  decide ((record.proposal.recombinedSampled : Int) < record.proposal.candidatesSampled) ||
    !record.proposal.experimentIds.isEmpty || !record.generationIds.isEmpty

/-- Whether a patch was refused for what it said. -/
def invalidPatch (record : RoundRecord F) : Bool :=
  !record.validationFindings.isEmpty ||
    record.proposal.errors.any fun text => decide (text ≠ "") && !isCallBoundary it text

/-- The verdict, with its reason. -/
def verdict (record : RoundRecord F) (markers : List String) : RoundStatus × String :=
  if !(record.opened && record.closed) then
    (.void, "no completion marker (" ++
      (if !record.opened then "never opened" else "opened but never closed") ++ ")")
  else if 1 ≤ record.gates.length then
    (.complete, "settled with " ++ toString record.gates.length ++ " gate evaluation(s)")
  else
    match markers with
    | marker :: _ =>
        (.void, "closed without a gate, carrying a hard infra error (" ++ marker ++ ")")
    | [] =>
        if proposerReached record && invalidPatch it record then
          (.settledDegraded, "closed without a gate, but the proposer was reached and " ++
            "returned an invalid patch (a real measurement)")
        else
          match record.proposal.errors.filter (isCallBoundary it) with
          | unmatched :: _ =>
              (.void, "closed without a gate, carrying a call-boundary error that matched no " ++
                "infra marker (" ++ unmatched ++ ") — consider widening `infra_markers`")
          | [] =>
              if proposerReached record then
                (.void, "closed without a gate and without an explanation, despite proposer activity")
              else (.void, "closed without a gate and without evidence the proposer was reached")

/-- `classify_round`. -/
def classifyRound (record : RoundRecord F) (roundIndex : Int) (logPath : String)
    (infraMarkers : List String) : RoundIntegrity :=
  let markers := matchedMarkers it infraMarkers record.proposal.errors
  let reached := proposerReached record
  let verdict := verdict it record markers
  { roundIndex := roundIndex
    status := verdict.1
    opened := record.opened
    closed := record.closed
    gateCount := record.gates.length
    proposerReached := reached
    invalidPatch := invalidPatch it record
    infraMarkers := markers
    evidence := verdict.2 :: evidenceOf record reached markers
    logPath := logPath
    promotedRegressions :=
      dedup ((record.gates.filter (·.decision = "promoted")).flatMap (·.attributableRegressions)) }

/-- `round_integrity`, of a log that reads as these events. -/
def roundIntegrity (events : List (Envelope F)) (roundIndex : Int) (logPath : String)
    (infraMarkers : List String) : RoundIntegrity :=
  classifyRound it (foldRoundRecord (finalAttemptEvents events)) roundIndex logPath infraMarkers

/-- `infrastructure_outage`. -/
def infrastructureOutage (attempts : List String) : Bool :=
  !attempts.isEmpty && attempts.all (isHardInfraError it HARD_INFRA_MARKERS)

end Zicato.Integrity
