import Zicato.SlateSelection

/-! # What a proposal shows of itself

What the slots give does not depend on their order, and what is collected of it accounts for every
error text.  What a proposal does is read off its trace: the hooks, the screens, the calls and the
events. -/
open List Option Except
namespace Zicato.BestOfN

open Proposal (Experiment)
open Gather (Gathered)

variable {F : Type}

/-! ## The slots -/

section Slots
variable {agent : BestOfNProposerAgent F} {ctx : Context F} {n : Nat}

/-- The first slot that raises raises. -/
theorem raiseFirst_map (eval : Nat → Except Raised (SlotReport F)) (l : List Nat) :
    raiseFirst ((l.map ([·])).map (List.mapM eval)) = l.mapM eval := by
  have hcons : ∀ (x : Except Raised (List (SlotReport F)))
      (xs : List (Except Raised (List (SlotReport F)))),
      raiseFirst (x :: xs) = x.bind fun reports => (raiseFirst xs).map (reports ++ ·) := by
    intro x xs
    rw [raiseFirst, raiseFirst, mapM_cons]
    cases x with
    | error raised => rfl
    | ok reports => cases xs.mapM id <;> rfl
  induction l with
  | nil => rfl
  | cons sample l ih =>
    rw [map_cons, map_cons, hcons, ih, mapM_cons, mapM_cons, mapM_nil]
    cases eval sample with
    | error raised => rfl
    | ok report => cases l.mapM eval <;> rfl

/-- What the hooks of a slot are, and that a slot without a candidate says why. -/
structure SlotReport.Valid (ctx : Context F) (report : SlotReport F) : Prop where
  calls : ctx.scratchValidatorFactory.isSome = true ∨ ctx.validateExperiment = none →
    ∀ call ∈ report.calls, call.1 ≠ .shared
  said : report.outcome.candidate = none → slotErrorTexts report.outcome ≠ []

variable {moment : Moment}

/-- A leased hook is not the shared one where there are scratch trees, or no shared hook. -/
theorem slotValidateLease_ne {hook : Hook} {validate : Experiment F → Except String (List String)}
    (hfactory : ctx.scratchValidatorFactory.isSome = true ∨ ctx.validateExperiment = none)
    (h : slotValidateLease ctx moment = some (hook, validate)) : hook ≠ .shared := by
  rw [slotValidateLease] at h
  cases hscratch : ctx.scratchValidatorFactory with
  | some scratch =>
    rw [hscratch] at h
    obtain rfl := congrArg Prod.fst (some.inj h)
    nofun
  | none =>
    rw [hscratch] at h hfactory
    rcases hfactory with hfactory | hnone
    · cases hfactory
    · rw [hnone] at h
      cases h

/-- With a factory, no call shares the validator. -/
theorem leaseCalls_ne {validated : List (Experiment F)}
    (hfactory : ctx.scratchValidatorFactory.isSome = true ∨ ctx.validateExperiment = none) :
    ∀ call ∈ leaseCalls (slotValidateLease ctx moment) validated, call.1 ≠ .shared := by
  intro call hcall
  cases hlease : slotValidateLease ctx moment with
  | none =>
    rw [hlease] at hcall
    cases hcall
  | some lease =>
    rw [hlease] at hcall
    obtain ⟨candidate, -, rfl⟩ := mem_map.mp hcall
    exact slotValidateLease_ne hfactory hlease

theorem defend_ne {candidate : Experiment F}
    (hfactory : ctx.scratchValidatorFactory.isSome = true ∨ ctx.validateExperiment = none) :
    ∀ call ∈ (defend ctx (slotValidateLease ctx moment) candidate).1, call.1 ≠ .shared := by
  intro call hcall
  unfold defend at hcall
  split at hcall
  · rename_i hook validate hforbidden hlease
    obtain rfl := mem_singleton.mp hcall
    exact slotValidateLease_ne hfactory hlease
  · cases hcall
  · cases hcall

/-- The report of a slot is valid. -/
theorem sampleSlot_valid {sample : Nat} {report : SlotReport F}
    (h : sampleSlot agent (slotValidateLease ctx moment) sample n = .ok report) :
    report.Valid ctx := by
  rw [sampleSlot] at h
  split at h
  · obtain rfl := ok.inj h
    exact ⟨leaseCalls_ne, nofun⟩
  · rename_i error _
    obtain rfl := ok.inj h
    refine ⟨leaseCalls_ne, fun _ => ?_⟩
    rw [slotErrorTexts, nil_append]
    by_cases hempty : error.attempts.isEmpty = true
    · simp only [hempty, if_true]
      exact cons_ne_nil _ _
    · simp only [hempty, Bool.false_eq_true, if_false]
      simpa using hempty
  · cases h

variable [PyArith F]

/-- **The order of completion does not matter**: the slate is what the slots give in turn. -/
theorem gatherSlate_eq {reports : Except Raised (List (SlotReport F))}
    (h : GatherSlate agent ctx n reports) :
    reports = (List.range n).mapM fun sample => runOneSlot agent ctx sample n := by
  cases h with
  | serial => rfl
  | concurrent _ hgather =>
    have hone : ∀ sample outcome, settles agent ctx n sample outcome = true →
        outcome = runOneSlot agent ctx sample n := fun sample outcome h => by
      simpa [settles] using h
    rw [hgather.eq_map hone, raiseFirst_map]

theorem gatherSlate_exists : ∃ reports, GatherSlate agent ctx n reports := by
  by_cases hserial : parallelism agent = 1
  · exact ⟨_, .serial hserial⟩
  · have hout : ∀ sample, ∃ outcome, settles agent ctx n sample outcome = true :=
      fun sample => ⟨runOneSlot agent ctx sample n, by simp [settles]⟩
    have hpos : 0 < parallelism agent := Nat.lt_of_lt_of_le Nat.one_pos (Nat.le_max_left _ _)
    obtain ⟨results, hgather⟩ := Gather.exists_gathered hout hpos ((range n).map ([·]))
    exact ⟨_, .concurrent hserial hgather⟩

/-- With a factory, recombination does not share the validator. -/
theorem recombine_ne {minted : Experiment F}
    {result : List (Hook × Experiment F) × Option (Experiment F) × List String}
    (hfactory : ctx.scratchValidatorFactory.isSome = true ∨ ctx.validateExperiment = none)
    (h : recombine agent ctx (slotValidateLease ctx moment) minted = .ok result) :
    ∀ call ∈ result.1, call.1 ≠ .shared := by
  rw [recombine] at h
  split at h
  · rw [mergeRecombined] at h
    split at h
    · obtain rfl := ok.inj h
      nofun
    · split at h
      · obtain rfl := ok.inj h
        nofun
      · cases h
      · obtain rfl := ok.inj h
        exact defend_ne hfactory
  · obtain rfl := ok.inj h
    exact defend_ne hfactory

/-- **One slot** is valid whatever its parts do. -/
theorem runOneSlot_valid {sample : Nat} {report : SlotReport F}
    (h : runOneSlot agent ctx sample n = .ok report) : report.Valid ctx := by
  rw [runOneSlot] at h
  split at h
  · exact sampleSlot_valid h
  · obtain ⟨⟨calls, composed, degradedErrors⟩, hcomposed, h⟩ := bind_eq_ok h
    cases composed with
    | some candidate =>
      obtain rfl := ok.inj h
      exact ⟨fun hfactory => recombine_ne hfactory hcomposed, nofun⟩
    | none =>
      obtain ⟨sampled, hsampled, h⟩ := bind_eq_ok h
      obtain rfl := ok.inj h
      have hvalid := sampleSlot_valid hsampled
      refine ⟨fun hfactory call hcall => ?_, fun hnone => ?_⟩
      · rcases mem_append.mp hcall with hcall | hcall
        · exact recombine_ne hfactory hcomposed call hcall
        · exact hvalid.calls hfactory call hcall
      · have hsaid := hvalid.said hnone
        rw [slotErrorTexts] at hsaid ⊢
        intro hempty
        apply hsaid
        have hdegraded : sampled.outcome.degradedErrors = [] := by
          rw [sampleSlot] at hsampled
          split at hsampled
          · rw [← ok.inj hsampled]
          · rw [← ok.inj hsampled]
          · cases hsampled
        rw [hdegraded, nil_append]
        exact (append_eq_nil_iff.mp hempty).2

end Slots

/-! ## The ordered pass -/

section Ordered
variable {n : Nat}

/-- The candidates that the slots gave. -/
def sampled (outcomes : List (SlotOutcome F)) : List (Experiment F) :=
  outcomes.filterMap (·.candidate)

/-- The error texts of the slots. -/
def evidence (outcomes : List (SlotOutcome F)) : List (Nat × String) :=
  outcomes.flatMap fun outcome => (slotErrorTexts outcome).map (outcome.sample, ·)

/-- The texts that an event reports. -/
def RoundEvent.texts : RoundEvent → List (Nat × String)
  | .proposalAttempted errors slotIndex => errors.map (slotIndex, ·)
  | _ => []

/-- The index and the mode that an event says were selected. -/
def RoundEvent.selection? : RoundEvent → Option (Nat × String)
  | .critiqueSelected index reason _ _ => some (index, reason)
  | _ => none

/-- The slate as it is collected so far. -/
structure Slate.Collects (slate : Slate F) (outcomes : List (SlotOutcome F)) : Prop where
  candidates : slate.candidates = sampled outcomes
  texts : slate.staged.flatMap RoundEvent.texts = evidence outcomes
  selections : slate.staged.filterMap RoundEvent.selection? = []
  attempts : slate.slotAttempts = (evidence outcomes).map fun e => slotText e.1 e.2
  recombined : ∀ i, slate.recombinedIndex = some i → i < slate.candidates.length

/-- The errors of a slot are in its events. -/
theorem stagedEvents_texts (outcome : SlotOutcome F) :
    (stagedEvents n outcome).flatMap RoundEvent.texts =
      (slotErrorTexts outcome).map (outcome.sample, ·) := by
  rw [stagedEvents, flatMap_append]
  have hsampled : (if outcome.candidate.isSome then
      [RoundEvent.candidateSampled outcome.sample n outcome.recombined false] else []).flatMap
      RoundEvent.texts = [] := by
    split <;> rfl
  rw [hsampled, append_nil]
  cases slotErrorTexts outcome with
  | nil => rfl
  | cons text texts => exact append_nil _

theorem stagedEvents_selections (outcome : SlotOutcome F) :
    (stagedEvents n outcome).filterMap RoundEvent.selection? = [] := by
  rw [stagedEvents, filterMap_append, append_eq_nil_iff]
  constructor <;> split <;> rfl

/-- One outcome more is collected. -/
theorem Slate.Collects.add {slate : Slate F} {outcomes : List (SlotOutcome F)}
    (h : slate.Collects outcomes) (outcome : SlotOutcome F) :
    (slate.add n outcome).Collects (outcomes ++ [outcome]) where
  candidates := by
    rw [Slate.add, h.candidates, sampled, sampled, filterMap_append]
    cases hcandidate : outcome.candidate <;> simp [hcandidate]
  texts := by
    rw [Slate.add, flatMap_append, h.texts, stagedEvents_texts, evidence, evidence,
      flatMap_append, flatMap_singleton]
  selections := by
    rw [Slate.add, filterMap_append, h.selections, stagedEvents_selections]
    rfl
  attempts := by
    rw [Slate.add, h.attempts, evidence, evidence, flatMap_append, flatMap_singleton,
      map_append, List.map_map]
    rfl
  recombined := by
    intro i hi
    rw [Slate.add] at hi ⊢
    rw [length_append]
    split at hi
    · rename_i hsome
      obtain rfl := some.inj hi
      obtain ⟨candidate, hcandidate⟩ :=
        isSome_iff_exists.mp (Bool.and_eq_true_iff.mp hsome).1
      rw [hcandidate]
      exact Nat.lt_succ_self _
    · exact Nat.lt_add_right _ (h.recombined i hi)

/-- The slate collects every outcome. -/
theorem collect_collects (outcomes : List (SlotOutcome F)) :
    (collect n outcomes).Collects outcomes := by
  have hfold : ∀ (rest : List (SlotOutcome F)) {slate : Slate F} {before : List (SlotOutcome F)},
      slate.Collects before → (rest.foldl (Slate.add n) slate).Collects (before ++ rest) := by
    intro rest
    induction rest with
    | nil =>
      intro slate before h
      rwa [append_nil]
    | cons outcome rest ih =>
      intro slate before h
      rw [foldl_cons, ← singleton_append, ← List.append_assoc]
      exact ih (h.add outcome)
  have hempty : (⟨[], [], [], none⟩ : Slate F).Collects [] := ⟨rfl, rfl, rfl, rfl, nofun⟩
  exact hfold outcomes hempty

end Ordered

/-! ## What a trace shows -/

/-- What a trace shows: the calls of the shared hook, the error texts and the selections that are
emitted, the screens that can be used, and the calls of the critic and of the revise pass. -/
@[ext]
structure View (F : Type) where
  shared : List (Experiment F)
  texts : List (Nat × String)
  selections : List (Nat × String)
  slateScreens : List (List (CandidateScreenResult F))
  reviseScreens : List (List (CandidateScreenResult F))
  critiques : List (String × Except String String)
  revises : List (Except Raised (Experiment F))

namespace View

def empty : View F := ⟨[], [], [], [], [], [], []⟩

def append (a b : View F) : View F where
  shared := a.shared ++ b.shared
  texts := a.texts ++ b.texts
  selections := a.selections ++ b.selections
  slateScreens := a.slateScreens ++ b.slateScreens
  reviseScreens := a.reviseScreens ++ b.reviseScreens
  critiques := a.critiques ++ b.critiques
  revises := a.revises ++ b.revises

@[simp] theorem append_empty (a : View F) : a.append empty = a := by
  simp [append, empty]

@[simp] theorem empty_append (a : View F) : empty.append a = a := by
  simp [append, empty]

theorem append_assoc (a b c : View F) : (a.append b).append c = a.append (b.append c) := by
  simp [append]

end View

/-- The results of a screen that can be used. -/
def usable (slate : List (Experiment F))
    (answer : Except String (List (CandidateScreenResult F))) :
    Option (List (CandidateScreenResult F)) :=
  match answer with
  | .error _ => none
  | .ok results => if results.length = slate.length then some results else none

/-- What one action shows. -/
def Action.view : Action F → View F
  | .validate .shared candidate => { View.empty with shared := [candidate] }
  | .validate (.scratch _) _ => .empty
  | .screen .slate slate answer => { View.empty with slateScreens := (usable slate answer).toList }
  | .screen .revise slate answer =>
      { View.empty with reviseScreens := (usable slate answer).toList }
  | .screen _ _ _ => .empty
  | .revise _ outcome => { View.empty with revises := [outcome] }
  | .critique prompt answer => { View.empty with critiques := [(prompt, answer)] }
  | .emit event =>
      { View.empty with texts := event.texts, selections := event.selection?.toList }

/-- What a trace shows. -/
def view (acts : List (Action F)) : View F := acts.foldr (fun act v => act.view.append v) .empty

@[simp] theorem view_nil : view ([] : List (Action F)) = .empty := rfl

theorem view_cons (act : Action F) (acts : List (Action F)) :
    view (act :: acts) = act.view.append (view acts) := rfl

@[simp] theorem view_append (acts acts' : List (Action F)) :
    view (acts ++ acts') = (view acts).append (view acts') := by
  induction acts with
  | nil => rw [nil_append, view_nil, View.empty_append]
  | cons act acts ih => rw [cons_append, view_cons, view_cons, ih, View.append_assoc]

theorem view_singleton (act : Action F) : view [act] = act.view := View.append_empty _

theorem view_emits (events : List RoundEvent) :
    view (events.map (.emit : RoundEvent → Action F)) =
      { View.empty with
        texts := events.flatMap RoundEvent.texts
        selections := events.filterMap RoundEvent.selection? } := by
  induction events with
  | nil => rfl
  | cons event events ih =>
    rw [map_cons, view_cons, ih]
    cases h : event.selection? <;> simp [Action.view, View.append, View.empty, h]

/-- Hooks of scratch trees do not show. -/
theorem view_validateActs {calls : List (Hook × Experiment F)}
    (h : ∀ call ∈ calls, call.1 ≠ .shared) : view (validateActs calls) = .empty := by
  induction calls with
  | nil => rfl
  | cons call calls ih =>
    obtain ⟨hcall, hcalls⟩ := forall_mem_cons.mp h
    obtain ⟨hook, candidate⟩ := call
    rw [validateActs, map_cons, view_cons, ← validateActs, ih hcalls, View.append_empty]
    cases hook with
    | shared => exact absurd rfl hcall
    | scratch moment => rfl

/-- The calls of hooks show in the calls of the shared hook only. -/
theorem view_validateActs_eq (calls : List (Hook × Experiment F)) :
    ∃ shared, view (validateActs calls) = { View.empty with shared := shared } := by
  induction calls with
  | nil => exact ⟨[], rfl⟩
  | cons call calls ih =>
    obtain ⟨shared, ih⟩ := ih
    obtain ⟨hook, candidate⟩ := call
    rw [validateActs, map_cons, view_cons, ← validateActs, ih]
    cases hook with
    | shared => exact ⟨candidate :: shared, rfl⟩
    | scratch moment => exact ⟨shared, rfl⟩

/-- Events without error texts and selections do not show. -/
theorem view_of_silent {condition : Bool} {events : List RoundEvent}
    (htexts : ∀ event ∈ events, event.texts = [])
    (hselections : ∀ event ∈ events, event.selection? = none) :
    view (if condition then events.map (.emit : RoundEvent → Action F) else []) = .empty := by
  have htexts' : events.flatMap RoundEvent.texts = [] := flatMap_eq_nil_iff.mpr htexts
  have hselections' : events.filterMap RoundEvent.selection? = [] :=
    filterMap_eq_nil_iff.mpr hselections
  split
  · rw [view_emits, htexts', hselections']
    rfl
  · rfl

end Zicato.BestOfN
