import Zicato.BestOfN

/-! # The choice among the candidates of a slate

The screen, the revise pass, the critic and the heuristic of `proposer/best_of_n.py`, and the
whole of `propose`. -/
namespace Zicato.BestOfN

open Proposal (Experiment)
open Gather (Gathered)

variable {F : Type}

/-! ## The heuristic -/

/-- `diff_char_size`. -/
def diffCharSize (experiment : Experiment F) : Nat :=
  (experiment.patches.map fun patch =>
    16 + match patch.newContent with
      | some content => content.length
      | none => 0).sum

/-- `_carries_expected_movements`. -/
def carriesExpectedMovements (experiment : Experiment F) : Bool :=
  !experiment.hypothesis.expectedMetricMovements.isEmpty

/-- `_targets_observed_failure`. -/
def targetsObservedFailure (ctx : Context F) (experiment : Experiment F) : Bool :=
  (experiment.patches.map (·.mutationId) ++ experiment.hypothesis.modulating).any
    (ctx.patterns.flatten.contains ·)

/-- `str(n)`. -/
def countText (n : Int) : String := String.ofList (PyInt.str n)

section Heuristic
variable [PyArith F]

/-- `recent_prediction_accuracy`. -/
def recentPredictionAccuracy (ctx : Context F) : Option F :=
  match ctx.priorExperiments.filterMap id with
  | [] => none
  | values => some (PyFloat.divNat (ctx.sum values) values.length)

/-- The accuracy, if it clears `CALIBRATION_TRUST_BAR`. -/
def calibration (ctx : Context F) : Option F :=
  (recentPredictionAccuracy ctx).filter (PyFloat.le (PyArith.lit (6 / 10)) ·)

/-- What `_heuristic_best_index` ranks a candidate by. -/
structure Key (F : Type) where
  ungrounded : Bool
  unpredicting : Bool
  size : Nat
  unmeasured : Bool
  scalar : F
  index : Nat

/-- `<` of the tuples. -/
def Key.lt (a b : Key F) : Bool :=
  if a.ungrounded != b.ungrounded then b.ungrounded
  else if a.unpredicting != b.unpredicting then b.unpredicting
  else if a.size != b.size then a.size < b.size
  else if a.unmeasured != b.unmeasured then b.unmeasured
  else if !PyFloat.eq a.scalar b.scalar then PyFloat.lt a.scalar b.scalar
  else a.index < b.index

/-- The key of the candidate at an index; `screenScalars` is none when the screen has no say. -/
def rankKey (ctx : Context F) (screenScalars : Option (List (Option F))) (candidate : Experiment F)
    (i : Nat) : Key F where
  ungrounded := !targetsObservedFailure ctx candidate
  unpredicting := (calibration ctx).isSome && !carriesExpectedMovements candidate
  size := diffCharSize candidate
  unmeasured :=
    match screenScalars with
    | none => true
    | some scalars => (scalars[i]?.join).isNone
  scalar :=
    match screenScalars with
    | none => PyFloat.zero
    | some scalars => scalars[i]?.join.getD PyFloat.zero
  index := i

/-- `_heuristic_best_index`. -/
def heuristicBestIndex (ctx : Context F) (candidates : List (Experiment F))
    (screenScalars : Option (List (Option F))) : Nat :=
  match candidates.mapIdx fun i candidate => rankKey ctx screenScalars candidate i with
  | [] => 0
  | first :: rest => (rest.foldl (fun best key => if key.lt best then key else best) first).index

end Heuristic

/-! ## The critic -/

/-- `normalize_selection_rationale`. -/
def normalizeSelectionRationale (text : String) : String :=
  String.ofList ((([' '].intercalate
    ((text.toList.splitOnP Text.isSpace).filter (· ≠ []))).take 240))

/-- The digits that a text starts with. -/
def leadingDigits (digit : Char → Option Nat) (text : Text) : List Nat :=
  ((text.map digit).takeWhile Option.isSome).filterMap id

/-- The first match of `-?\d+`: whether it has the sign, and its digits. -/
def searchNumber (digit : Char → Option Nat) : Text → Option (Bool × List Nat)
  | [] => none
  | c :: rest =>
      match leadingDigits digit (c :: rest) with
      | d :: ds => some (false, d :: ds)
      | [] =>
          match if c = '-' then leadingDigits digit rest else [] with
          | d :: ds => some (true, d :: ds)
          | [] => searchNumber digit rest

/-- `int` of such a match; it raises beyond the interpreter's limit of digits. -/
def numberValue : Bool × List Nat → Option Int
  | (negative, digits) =>
      if 4300 < digits.length then none
      else
        let value : Int := digits.foldl (fun value d => 10 * value + d) 0
        some (if negative then -value else value)

/-- The number that a response holds, and what follows it: it is looked for in the first line, and
then in the whole. -/
def criticNumber (digit : Char → Option Nat) (response : String) : Option Int × Text :=
  let text := Text.strip response.toList
  let head := text.takeWhile (· ≠ '\n')
  match searchNumber digit head with
  | some number => (numberValue number, text.drop (head.length + 1))
  | none => ((searchNumber digit response.toList).bind numberValue, [])

/-- `_parse_critic_choice`. -/
def parseCriticChoice (digit : Char → Option Nat) (response : String) (n : Nat) :
    Option Nat × String :=
  match criticNumber digit response with
  | (some (.ofNat choice), tail) =>
      if choice < n then (some choice, normalizeSelectionRationale (String.ofList tail))
      else (none, "")
  | _ => (none, "")

/-- `_render_candidate_slate`. -/
def renderCandidateSlate (candidates : List (Experiment F)) : String :=
  "\n\n".intercalate (candidates.mapIdx fun i candidate =>
    let patchLines := candidate.patches.map fun patch =>
      "    - " ++ (match patch.op with
        | .replace => "replace"
        | .setNumeric => "set_numeric"
        | .setEnum => "set_enum") ++ " " ++ patch.mutationId ++ ": " ++
        if patch.rationale = "" then "(no rationale)" else patch.rationale
    "### Candidate " ++ toString i ++ "\n" ++
    "core_idea: " ++ candidate.hypothesis.coreIdea ++ "\n" ++
    "targets: [" ++ (if candidate.hypothesis.modulating.isEmpty then "—"
      else ", ".intercalate candidate.hypothesis.modulating) ++ "]\n" ++
    "diff_size: " ++ toString (diffCharSize candidate) ++ " chars across " ++
      toString candidate.patches.length ++ " patch(es)\n" ++
    "patches:\n" ++
      if patchLines.isEmpty then "    (no patches)" else "\n".intercalate patchLines)

/-- `_render_screen_note`. -/
def renderScreenNote (results : List (CandidateScreenResult F)) : String :=
  "\n## Screen measurements\n" ++
  "Each candidate ran a small train-panel tryout (counts only; " ++
  "selection-biased). Use these ONLY to break ties the quality bar " ++
  "leaves — they are not a ranking.\n" ++
  "\n".intercalate (results.mapIdx fun i res =>
    if res.entriesScreened ≤ 0 then
      "Candidate " ++ toString i ++ ": not screened (no signal)."
    else
      "Candidate " ++ toString i ++ ": " ++
        (if res.vetoed then "VETOED (confirmed regression)" else "clear") ++ "; passed " ++
        countText res.candidatePasses ++ "/" ++ countText res.entriesScreened ++
        " tryout entries (" ++ countText res.baselinePasses ++ " champion-passing).") ++ "\n"

section Critic
variable [PyArith F]

/-- The user prompt of `_critique`. -/
def critiquePrompt (ctx : Context F) (candidates : List (Experiment F)) (screenNote : String) :
    String :=
  "Select the single best candidate proposal.\n\n" ++
  "## Round context (the SAME restricted view the proposer saw — " ++
  "no held-out data)\n" ++
  ctx.restrictedContext ++ "\n\n" ++
  "## Candidate proposals\n" ++
  renderCandidateSlate candidates ++ "\n" ++
  (match calibration ctx with
    | none => ""
    | some accuracy =>
        "\nNote: this lineage's recent hypothesis predictions have " ++
        "mostly borne out (accuracy " ++ PyArith.format ".0%" accuracy ++ "). All else equal, " ++
        "prefer a candidate whose hypothesis states concrete expected " ++
        "movements over one that does not.\n") ++
  screenNote ++ "\n" ++
  "Respond with the integer index (0.." ++ countText (candidates.length - 1) ++ ") of " ++
  "the best candidate ALONE on the first line, then one sentence " ++
  "under 200 characters naming the quality-bar clause that decided it."

/-- `_critique`. -/
def critique (ctx : Context F) (auxCallLlm : String → Except String String)
    (candidates : List (Experiment F)) (screenNote : String) :
    Proposing F (Option Nat × String) := do
  let prompt := critiquePrompt ctx candidates screenNote
  Traced.acting [.critique prompt (auxCallLlm prompt)]
  match auxCallLlm prompt with
  | .ok response => return parseCriticChoice ctx.digit response candidates.length
  | .error _ => return (none, "")

/-- `_select_best`. -/
def selectBest (agent : BestOfNProposerAgent F) (ctx : Context F)
    (candidates : List (Experiment F)) (screenScalars : Option (List (Option F)))
    (screenNote : String) : Proposing F (Nat × String × String) :=
  let heuristic := (heuristicBestIndex ctx candidates screenScalars, "heuristic", "")
  if !agent.config.critiqueEnabled then pure heuristic
  else
    match agent.depthCallLlm with
    | none => pure heuristic
    | some auxCallLlm => do
        match ← critique ctx auxCallLlm candidates screenNote with
        | (some choice, rationale) => return (choice, "critique", rationale)
        | (none, _) => return heuristic

/-- What the screen feeds to the selection: the scalars and the note. -/
def screenFeed (agent : BestOfNProposerAgent F) (survivorIndices : List Nat) :
    Option (List (CandidateScreenResult F)) → Proposing F (Option (List (Option F)) × String)
  | none => pure (none, "")
  | some results =>
      if agent.config.screenVetoOnly then pure (none, "")
      else do
        let subResults ← survivorIndices.mapM (item results)
        pure (some (subResults.map (·.scalar)), renderScreenNote subResults)

/-- `_select_over`. -/
def selectOver (agent : BestOfNProposerAgent F) (ctx : Context F)
    (candidates : List (Experiment F)) (survivorIndices : List Nat)
    (screenResults : Option (List (CandidateScreenResult F))) :
    Proposing F (Nat × String × String) := do
  let sub ← survivorIndices.mapM (item candidates)
  let (scalars, note) ← screenFeed agent survivorIndices screenResults
  let (subChoice, mode, rationale) ← selectBest agent ctx sub scalars note
  return (← item survivorIndices subChoice, mode, rationale)

end Critic

/-! ## The screen -/

/-- `_screened_event_fields`. -/
def screenedEventFields (index : Nat) (res : CandidateScreenResult F) (revise : Bool) :
    ScreenedFields where
  index := index
  vetoed := res.vetoed
  confirmed := res.confirmed
  entriesScreened := res.entriesScreened
  baselinePasses := res.baselinePasses
  candidatePasses := res.candidatePasses
  reason := res.reason
  revise := revise

/-- `_screen_slate`, and `_screen_replacement` for the slate of one; `first` is the index of the
first candidate. -/
def screenSlate (ctx : Context F) (moment : Moment) (first : Nat) (revise : Bool)
    (candidates : List (Experiment F)) :
    Proposing F (Option (List (CandidateScreenResult F))) :=
  match ctx.screenCandidates with
  | none => pure none
  | some screen => do
      Traced.acting [.screen moment candidates (screen moment candidates)]
      match screen moment candidates with
      | .error _ => return none
      | .ok results =>
          if results.length ≠ candidates.length then return none
          emitRoundEvents ctx (results.mapIdx fun i res =>
            .candidateScreened (screenedEventFields (first + i) res revise))
          return some results

/-- `_render_revise_feedback`. -/
def renderReviseFeedback (results : List (CandidateScreenResult F)) : String :=
  "the pre-tournament candidate screen VETOED every sampled candidate " ++
  "(" ++ "; ".intercalate (results.mapIdx fun i res =>
    "candidate " ++ toString i ++ ": " ++ res.reason) ++
  "). Each candidate ran a small tryout panel; a veto " ++
  "means a confirmed regression on behaviour the current champion gets " ++
  "right, or a wall-clock budget exhaustion. Propose ONE different " ++
  "experiment that avoids these failure modes: prefer a smaller, more " ++
  "conservative edit that cannot regress currently-passing behaviour " ++
  "and stays well inside the per-run budget."

inductive ReviseOutcome
  | chosen
  | fallback
  | unavailable

def validateActs (calls : List (Hook × Experiment F)) : List (Action F) :=
  calls.map fun call => .validate call.1 call.2

/-- `_revise_all_vetoed`, with the candidates as it leaves them. -/
def reviseAllVetoed (agent : BestOfNProposerAgent F) (ctx : Context F) (n : Nat)
    (candidates : List (Experiment F)) (screenResults : List (CandidateScreenResult F)) :
    Proposing F (List (Experiment F) × ReviseOutcome) := do
  let feedback := renderReviseFeedback screenResults
  let run := agent.inner (.revise feedback)
  Traced.acting (validateActs (leaseCalls (slotValidateLease ctx .revise) run.validated))
  Traced.acting [.revise feedback run.outcome]
  match run.outcome with
  | .error _ => return (candidates, .unavailable)
  | .ok replacement =>
      emitRoundEvents ctx [.candidateSampled candidates.length n false true]
      match ← screenSlate ctx .revise candidates.length true [replacement] with
      | some [result] =>
          return (candidates ++ [replacement], if result.vetoed then .fallback else .chosen)
      | _ => return (candidates ++ [replacement], .chosen)

/-! ## The choice -/

/-- The candidates that are not vetoed. -/
def survivors (results : List (CandidateScreenResult F)) : List Nat :=
  (List.range results.length).filter fun i => results[i]?.all (!·.vetoed)

/-- What is chosen: the candidates as they are then, the index, the mode and the rationale. -/
structure Choice (F : Type) where
  candidates : List (Experiment F)
  index : Nat
  mode : String
  rationale : String

/-- The recombined candidate is chosen without a critic unless it is vetoed. -/
def recombinedChoice (recombinedIndex : Option Nat)
    (screenResults : Option (List (CandidateScreenResult F))) : Proposing F (Option Nat) :=
  match recombinedIndex, screenResults with
  | none, _ => pure none
  | some i, none => pure (some i)
  | some i, some results => do
      let result ← item results i
      return if result.vetoed then none else some i

section Propose
variable [PyArith F]

/-- The selection among a slate that is all vetoed. -/
def selectVetoed (agent : BestOfNProposerAgent F) (ctx : Context F) (n : Nat)
    (candidates : List (Experiment F)) (results : List (CandidateScreenResult F)) :
    Proposing F (Choice F) := do
  let all := List.range candidates.length
  let (candidates, outcome) ← reviseAllVetoed agent ctx n candidates results
  match outcome with
  | .chosen => return ⟨candidates, candidates.length - 1, "screen_revise_survivor", ""⟩
  | .fallback =>
      let (chosen, mode, rationale) ← selectOver agent ctx candidates all (some results)
      return ⟨candidates, chosen, "screen_all_vetoed_after_revise:" ++ mode, rationale⟩
  | .unavailable =>
      let (chosen, mode, rationale) ← selectOver agent ctx candidates all (some results)
      return ⟨candidates, chosen, "screen_all_vetoed:" ++ mode, rationale⟩

/-- The selection of `_propose`. -/
def select (agent : BestOfNProposerAgent F) (ctx : Context F) (n : Nat)
    (candidates : List (Experiment F)) (recombinedIndex : Option Nat) :
    Proposing F (Choice F) := do
  if candidates.length = 1 then return ⟨candidates, 0, "sole_candidate", ""⟩
  let screenResults ← screenSlate ctx .slate 0 false candidates
  match ← recombinedChoice recombinedIndex screenResults with
  | some i => return ⟨candidates, i, "recombined", ""⟩
  | none =>
      match screenResults with
      | none =>
          let (chosen, mode, rationale) ←
            selectOver agent ctx candidates (List.range candidates.length) none
          return ⟨candidates, chosen, mode, rationale⟩
      | some results =>
          match survivors results with
          | [] => selectVetoed agent ctx n candidates results
          | [i] => return ⟨candidates, i, "screen_sole_survivor", ""⟩
          | indices =>
              let (chosen, mode, rationale) ← selectOver agent ctx candidates indices (some results)
              return ⟨candidates, chosen, mode, rationale⟩

/-- The text of a finding at the mount. -/
def mountText (chosen : Nat) (finding : String) : String :=
  "mounting chosen candidate " ++ toString chosen ++ " into the generation tree failed: " ++ finding

/-- `_mount_chosen`. -/
def mountChosen (ctx : Context F) (candidates : List (Experiment F)) (chosen : Nat) :
    Proposing F Unit :=
  match ctx.validateExperiment with
  | none => pure ()
  | some validate => do
      let candidate ← item candidates chosen
      Traced.acting [.validate .shared candidate]
      match revalidate (validate .mount) candidate with
      | [] => return ()
      | findings => .raise (.proposerError (.of (findings.map (mountText chosen))))

/-- `_selected_event_fields`. -/
def selectedEvent (choice : Choice F) : RoundEvent :=
  .critiqueSelected choice.index choice.mode
    (choice.candidates.mapIdx fun i item =>
      ⟨i, normalizeSelectionRationale item.hypothesis.coreIdea, item.hypothesis.modulating⟩)
    choice.rationale

/-- The end of `_propose`. -/
def settle (ctx : Context F) (choice : Choice F) : Proposing F (Experiment F) := do
  mountChosen ctx choice.candidates choice.index
  emitRoundEvents ctx [selectedEvent choice]
  item choice.candidates choice.index

/-- `_propose` after the slate is gathered. -/
def proposeFrom (agent : BestOfNProposerAgent F) (ctx : Context F) (n : Nat)
    (reports : Except Raised (List (SlotReport F))) : Proposing F (Experiment F) :=
  match reports with
  | .error raised => .raise raised
  | .ok reports => do
      Traced.acting (validateActs (reports.flatMap (·.calls)))
      let slate := collect n (reports.map (·.outcome))
      if slate.candidates.isEmpty then
        .raise (.proposerError (.of (if slate.slotAttempts.isEmpty
          then ["best-of-N produced no candidates"] else slate.slotAttempts)))
      else do
        emitRoundEvents ctx slate.staged
        let choice ← select agent ctx n slate.candidates slate.recombinedIndex
        settle ctx choice

/-- `max(1, min(self.propose_parallelism, n))`. -/
def parallelism (agent : BestOfNProposerAgent F) : Nat :=
  max 1 (min agent.proposeParallelism agent.config.bestOfN)

/-- A slot ends as it does whenever it runs. -/
noncomputable def settles (agent : BestOfNProposerAgent F) (ctx : Context F) (n sample : Nat)
    (outcome : Except Raised (SlotReport F)) : Bool :=
  @decide (outcome = runOneSlot agent ctx sample n) (Classical.propDecidable _)

/-- The results of a gather in slot order; the first exception is raised. -/
def raiseFirst (results : List (Except Raised (List (SlotReport F)))) :
    Except Raised (List (SlotReport F)) :=
  (results.mapM id).map List.flatten

/-- `_gather_slate`: one slot after another, or a gather under a semaphore in any order. -/
inductive GatherSlate (agent : BestOfNProposerAgent F) (ctx : Context F) (n : Nat) :
    Except Raised (List (SlotReport F)) → Prop
  | serial (h : parallelism agent = 1) :
      GatherSlate agent ctx n ((List.range n).mapM fun sample => runOneSlot agent ctx sample n)
  | concurrent (h : parallelism agent ≠ 1) {results : List (Except Raised (List (SlotReport F)))}
      (hgather : Gathered (settles agent ctx n) (parallelism agent)
        ((List.range n).map ([·])) results) :
      GatherSlate agent ctx n (raiseFirst results)

/-- The inner proposer alone. -/
def passThrough (agent : BestOfNProposerAgent F) (ctx : Context F) : Proposing F (Experiment F) :=
  let run := agent.inner .pass
  ⟨validateActs (leaseCalls (ctx.validateExperiment.map fun validate =>
    (.shared, validate (.slot 0))) run.validated), run.outcome⟩

/-- `_propose`: what it may do, and what it returns or raises. -/
inductive Proposes (agent : BestOfNProposerAgent F) (ctx : Context F) :
    Proposing F (Experiment F) → Prop
  | pass (h : agent.config.bestOfN ≤ 1) : Proposes agent ctx (passThrough agent ctx)
  | slate (h : 1 < agent.config.bestOfN) {reports : Except Raised (List (SlotReport F))}
      (hgather : GatherSlate agent ctx agent.config.bestOfN reports) :
      Proposes agent ctx (proposeFrom agent ctx agent.config.bestOfN reports)

end Propose

end Zicato.BestOfN
