import Zicato.ExperimentParse
import Zicato.Gather
import Zicato.Traced

/-! # Best-of-N

`BestOfNProposerAgent` of `proposer/best_of_n.py`: a slate of candidates is sampled, screened and
reviewed, and the one that is chosen is mounted.  What the parts of it do (the inner proposer, the
hooks, the screen, the calls of a model) is given by functions. -/
namespace Zicato.BestOfN

open Proposal (Experiment)

variable {F : Type}

/-! ## What is passed around -/

/-- `CandidateScreenResult`. -/
structure CandidateScreenResult (F : Type) where
  vetoed : Bool
  reason : String
  scalar : Option F
  entriesScreened : Int
  baselinePasses : Int
  candidatePasses : Int
  confirmed : Bool

/-- `ProposerError`, with its text. -/
structure ProposerError where
  attempts : List String
  text : String

/-- `ProposerError(attempts)`. -/
def ProposerError.of (attempts : List String) : ProposerError where
  attempts := attempts
  text := "proposer failed after " ++ toString attempts.length ++ " attempt(s):\n" ++
    "\n".intercalate ((attempts.zipIdx 1).map fun (msg, i) =>
      "  attempt " ++ toString i ++ ": " ++ msg)

/-- What a proposal raises. -/
inductive Raised
  | proposerError (error : ProposerError)
  /-- Any other exception. -/
  | other (text : String)

/-- When a hook or the screen is called. -/
inductive Moment
  | slot (sample : Nat)
  | slate
  | revise
  | mount

/-- A validation hook: the findings it returns, or the text of what it raises. -/
abbrev Validator (F : Type) := Moment → Experiment F → Except String (List String)

/-- The screen of a slate, which may fail. -/
abbrev ScreenRunner (F : Type) :=
  Moment → List (Experiment F) → Except String (List (CandidateScreenResult F))

/-- Whose tree a hook derives into. -/
inductive Hook
  | shared
  | scratch (moment : Moment)

/-- A call of the inner proposer. -/
inductive InnerCall
  | pass
  | slot (sample n : Nat)
  | revise (feedback : String)

/-- What the inner proposer does: the candidates it has its hook validate, and what becomes
of the call. -/
structure InnerRun (F : Type) where
  validated : List (Experiment F)
  outcome : Except Raised (Experiment F)

/-- `ProposerQualityConfig`. -/
structure ProposerQualityConfig where
  bestOfN : Nat
  critiqueEnabled : Bool
  screenVetoOnly : Bool

/-- `BestOfNProposerAgent`. -/
structure BestOfNProposerAgent (F : Type) where
  inner : InnerCall → InnerRun F
  config : ProposerQualityConfig
  /-- `experimental.recombine_merge`. -/
  recombineMerge : String
  /-- The review callable at the critique: the answer to a prompt, or the text it raises. -/
  depthCallLlm : Option (String → Except String String)
  /-- The review callable at the merge: the response, or the type and the text it raises. -/
  mergeCall : Except (String × String) String
  proposeParallelism : Nat

/-- What the wrapper reads of `ProposerContext`. -/
structure Context (F : Type) where
  epochId : String
  parentGenerationId : String
  newGenerationId : String
  /-- The `affected_mutation_ids` of `patterns`. -/
  patterns : List (List String)
  /-- The `prediction_accuracy` of `prior_experiments`. -/
  priorExperiments : List (Option F)
  /-- `render_evidence(evidence_from_context(ctx))`. -/
  restrictedContext : String
  forbiddenIds : List String
  mutations : Dict String Proposal.MutationPoint
  customJudgeNames : List String
  /-- The pair, as the experiment that `mint_recombined_experiment` makes of it. -/
  recombinePair : Option (Experiment F)
  validateExperiment : Option (Validator F)
  scratchValidatorFactory : Option (Validator F)
  screenCandidates : Option (ScreenRunner F)
  /-- Whether there is a `round_event_emitter`. -/
  roundEventEmitter : Bool
  /-- What the interpreter makes of floats, texts and characters. -/
  interp : Proposal.Interp F
  sum : List F → F
  digit : Char → Option Nat

/-- The payload of `candidate_screened`. -/
structure ScreenedFields where
  index : Nat
  vetoed : Bool
  confirmed : Bool
  entriesScreened : Int
  baselinePasses : Int
  candidatePasses : Int
  reason : String
  revise : Bool
  deriving DecidableEq

/-- One row of the `slate` of `critique_selected`. -/
structure SlateRow where
  index : Nat
  coreIdea : String
  mutationIds : List String
  deriving DecidableEq

/-- The events a proposal emits. -/
inductive RoundEvent
  | proposalAttempted (errors : List String) (slotIndex : Nat)
  | candidateSampled (i n : Nat) (recombined revise : Bool)
  | candidateScreened (fields : ScreenedFields)
  | critiqueSelected (index : Nat) (reason : String) (slate : List SlateRow) (rationale : String)
  deriving DecidableEq

/-- What a proposal does besides returning: the calls it makes, with their answers, and the
events it emits. -/
inductive Action (F : Type)
  | validate (hook : Hook) (candidate : Experiment F)
  | screen (moment : Moment) (slate : List (Experiment F))
      (answer : Except String (List (CandidateScreenResult F)))
  | revise (feedback : String) (outcome : Except Raised (Experiment F))
  | critique (prompt : String) (answer : Except String String)
  | emit (event : RoundEvent)

/-- `_SlotOutcome`. -/
structure SlotOutcome (F : Type) where
  sample : Nat
  candidate : Option (Experiment F)
  error : Option ProposerError
  recombined : Bool
  degradedErrors : List String

/-- A slot that has run, with the hooks it called. -/
structure SlotReport (F : Type) where
  calls : List (Hook × Experiment F)
  outcome : SlotOutcome F

/-- A proposal, with its calls and events in order. -/
abbrev Proposing (F : Type) := Traced (Action F) Raised

/-- `_emit_round_event`, for events in turn. -/
def emitRoundEvents (ctx : Context F) (events : List RoundEvent) : Proposing F Unit :=
  .acting (if ctx.roundEventEmitter then events.map .emit else [])

/-- `values[i]`. -/
def item {α : Type} (values : List α) (i : Nat) : Proposing F α :=
  match values[i]? with
  | some value => pure value
  | none => .raise (.other "list index out of range")

/-! ## A slot -/

/-- A hook that is leased, and what it finds. -/
abbrev Lease (F : Type) := Option (Hook × (Experiment F → Except String (List String)))

/-- `_slot_validate_lease`. -/
def slotValidateLease (ctx : Context F) (moment : Moment) : Lease F :=
  match ctx.scratchValidatorFactory with
  | some validate => some (.scratch moment, validate moment)
  | none => ctx.validateExperiment.map fun validate => (.shared, validate moment)

/-- The calls of a leased hook. -/
def leaseCalls (lease : Lease F) (validated : List (Experiment F)) : List (Hook × Experiment F) :=
  match lease with
  | none => []
  | some (hook, _) => validated.map (hook, ·)

/-- `_revalidate`. -/
def revalidate (validate : Experiment F → Except String (List String)) (candidate : Experiment F) :
    List String :=
  match validate candidate with
  | .ok findings => findings
  | .error text => ["validation hook raised unexpectedly: " ++ text]

/-- `enforce_forbidden`. -/
def enforceForbidden (ctx : Context F) (patches : List (Proposal.Patch F)) : List String :=
  (patches.filter fun patch => ctx.forbiddenIds.contains patch.mutationId).map fun patch =>
    "patch " ++ ctx.interp.repr patch.id ++ " targets forbidden mutation id " ++
      ctx.interp.repr patch.mutationId

/-- The two defenses of a composed candidate: the hooks they call, and the candidate unless there
is a finding. -/
def defend (ctx : Context F) (lease : Lease F) (candidate : Experiment F) :
    List (Hook × Experiment F) × Option (Experiment F) :=
  match enforceForbidden ctx candidate.patches, lease with
  | [], some (hook, validate) =>
      ([(hook, candidate)],
        if (revalidate validate candidate).isEmpty then some candidate else none)
  | [], none => ([], some candidate)
  | _, _ => ([], none)

/-- `_merge_recombined`; the last part of the result is the evidence of a call that raised. -/
def mergeRecombined [PyFloat F] (agent : BestOfNProposerAgent F) (ctx : Context F)
    (lease : Lease F) :
    Except Raised (List (Hook × Experiment F) × Option (Experiment F) × List String) :=
  match agent.mergeCall with
  | .error (name, text) =>
      .ok ([], none, ["evaluation LLM call raised " ++ name ++ ": " ++ text ++
        " (recombination merge; degraded to a fresh sample)"])
  | .ok response =>
      match Proposal.parseExperimentJson ctx.interp response.toList ctx.epochId
          ctx.parentGenerationId ctx.newGenerationId ctx.mutations ctx.customJudgeNames with
      | .error (.parse _) => .ok ([], none, [])
      | .error _ => .error (.other "parse_experiment_json")
      | .ok merged =>
          let (calls, defended) := defend ctx lease merged
          .ok (calls, defended, [])

/-- The recombination of the last slot: by a call of the model, or as a mint. -/
def recombine [PyFloat F] (agent : BestOfNProposerAgent F) (ctx : Context F) (lease : Lease F)
    (minted : Experiment F) :
    Except Raised (List (Hook × Experiment F) × Option (Experiment F) × List String) :=
  if agent.recombineMerge = "llm" then mergeRecombined agent ctx lease
  else
    let (calls, defended) := defend ctx lease minted
    .ok (calls, defended, [])

/-- `_sample_slot`. -/
def sampleSlot (agent : BestOfNProposerAgent F) (lease : Lease F) (sample n : Nat) :
    Except Raised (SlotReport F) :=
  let run := agent.inner (.slot sample n)
  let calls := leaseCalls lease run.validated
  match run.outcome with
  | .ok candidate => .ok ⟨calls, ⟨sample, some candidate, none, false, []⟩⟩
  | .error (.proposerError error) => .ok ⟨calls, ⟨sample, none, some error, false, []⟩⟩
  | .error raised => .error raised

/-- `_run_one_slot`. -/
def runOneSlot [PyFloat F] (agent : BestOfNProposerAgent F) (ctx : Context F) (sample n : Nat) :
    Except Raised (SlotReport F) :=
  let lease := slotValidateLease ctx (.slot sample)
  match if sample = n - 1 then ctx.recombinePair else none with
  | none => sampleSlot agent lease sample n
  | some minted => do
      let (calls, composed, degradedErrors) ← recombine agent ctx lease minted
      match composed with
      | some candidate => return ⟨calls, ⟨sample, some candidate, none, true, []⟩⟩
      | none =>
          let report ← sampleSlot agent lease sample n
          return ⟨calls ++ report.calls, { report.outcome with degradedErrors := degradedErrors }⟩

/-! ## The slate -/

/-- `_slot_error_texts`. -/
def slotErrorTexts (outcome : SlotOutcome F) : List String :=
  outcome.degradedErrors ++
    match outcome.error with
    | none => []
    | some error => if error.attempts.isEmpty then [error.text] else error.attempts

/-- What the ordered pass over the outcomes collects. -/
structure Slate (F : Type) where
  candidates : List (Experiment F)
  staged : List RoundEvent
  slotAttempts : List String
  recombinedIndex : Option Nat

/-- `f"slot {sample}: {text}"`. -/
def slotText (sample : Nat) (text : String) : String := "slot " ++ toString sample ++ ": " ++ text

/-- The events of an outcome. -/
def stagedEvents (n : Nat) (outcome : SlotOutcome F) : List RoundEvent :=
  (if (slotErrorTexts outcome).isEmpty then []
    else [.proposalAttempted (slotErrorTexts outcome) outcome.sample]) ++
  if outcome.candidate.isSome then [.candidateSampled outcome.sample n outcome.recombined false]
  else []

/-- One turn of the ordered pass. -/
def Slate.add (n : Nat) (slate : Slate F) (outcome : SlotOutcome F) : Slate F where
  candidates := slate.candidates ++ outcome.candidate.toList
  staged := slate.staged ++ stagedEvents n outcome
  slotAttempts := slate.slotAttempts ++ (slotErrorTexts outcome).map (slotText outcome.sample)
  recombinedIndex :=
    if outcome.candidate.isSome && outcome.recombined then some slate.candidates.length
    else slate.recombinedIndex

/-- The ordered pass. -/
def collect (n : Nat) (outcomes : List (SlotOutcome F)) : Slate F :=
  outcomes.foldl (Slate.add n) ⟨[], [], [], none⟩

end Zicato.BestOfN
