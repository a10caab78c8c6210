import Zicato.JsonExact
import Zicato.SlateView

/-! # Best-of-N is sound

Each part of a proposal adds to its view in its own way only: the screen, the critic, the revise
pass, the mount.  From these the whole proposal follows. -/
open List Option
namespace Zicato.BestOfN

open Proposal (Experiment)

variable {F : Type}

/-! ## The parts of a selection -/

section Parts
variable {agent : BestOfNProposerAgent F} {ctx : Context F}

/-- What the screen says of some candidates, if it can be used. -/
def screened (ctx : Context F) (moment : Moment) (candidates : List (Experiment F)) :
    Option (List (CandidateScreenResult F)) :=
  ctx.screenCandidates.bind fun screen => usable candidates (screen moment candidates)

/-- A screen has a result for each candidate. -/
theorem length_of_screened {moment : Moment} {candidates : List (Experiment F)}
    {results : List (CandidateScreenResult F)} (h : screened ctx moment candidates = some results) :
    results.length = candidates.length := by
  obtain ⟨screen, -, husable⟩ := bind_eq_some_iff.mp h
  cases hanswer : screen moment candidates with
  | error text =>
    rw [hanswer] at husable
    cases husable
  | ok results' =>
    rw [hanswer, usable] at husable
    split at husable
    · rename_i hlength
      rwa [← some.inj husable]
    · cases husable

/-- A screen shows itself only, and never raises. -/
theorem screenSlate_eq (moment : Moment) (first : Nat) (revise : Bool)
    (candidates : List (Experiment F)) :
    ∃ acts, screenSlate ctx moment first revise candidates =
        ⟨acts, .ok (screened ctx moment candidates)⟩ ∧
      (moment = .slate →
        view acts = { View.empty with slateScreens := (screened ctx moment candidates).toList }) ∧
      (moment = .revise →
        view acts =
          { View.empty with reviseScreens := (screened ctx moment candidates).toList }) := by
  rw [screenSlate, screened]
  cases ctx.screenCandidates with
  | none => exact ⟨[], rfl, fun _ => rfl, fun _ => rfl⟩
  | some screen =>
    dsimp only [bind_some]
    rw [Traced.acting_bind]
    have hshown : ∀ acts, view acts = .empty → ∀ answer,
        (moment = .slate → view ([.screen moment candidates answer] ++ acts) =
          { View.empty with slateScreens := (usable candidates answer).toList }) ∧
        (moment = .revise → view ([.screen moment candidates answer] ++ acts) =
          { View.empty with reviseScreens := (usable candidates answer).toList }) := by
      intro acts hacts answer
      rw [view_append, view_singleton, hacts, View.append_empty]
      constructor <;> rintro rfl <;> rfl
    cases hanswer : screen moment candidates with
    | error text => exact ⟨_, rfl, hshown [] rfl _⟩
    | ok results =>
      by_cases hlength : results.length = candidates.length
      · have husable : usable candidates (.ok results) = some results := if_pos hlength
        have hacts : view ((if ctx.roundEventEmitter = true then
            (results.mapIdx fun i res => RoundEvent.candidateScreened
              (screenedEventFields (first + i) res revise)).map .emit else []) ++
            ([] : List (Action F))) = .empty := by
          rw [append_nil]
          apply view_of_silent
          · intro event hevent
            obtain ⟨i, hi, rfl⟩ := mem_mapIdx.mp hevent
            rfl
          · intro event hevent
            obtain ⟨i, hi, rfl⟩ := mem_mapIdx.mp hevent
            rfl
        refine ⟨_, ?_, hshown _ hacts _⟩
        dsimp only
        rw [if_neg (not_not_intro hlength), husable]
        rfl
      · have husable : usable candidates (.ok results) = none := if_neg hlength
        refine ⟨_, ?_, hshown [] rfl _⟩
        dsimp only
        rw [if_pos hlength, husable]
        rfl

/-- A candidate is vetoed by a screen. -/
def VetoedIn (screens : List (List (CandidateScreenResult F))) (i : Nat) : Prop :=
  ∃ results ∈ screens, ∃ res, results[i]? = some res ∧ res.vetoed = true

theorem item_of_lt {α : Type} {values : List α} {i : Nat} (h : i < values.length) :
    (item values i : Proposing F α) = pure values[i] := by
  rw [item, getElem?_eq_getElem h]

variable {indices : List Nat}

/-- The items at some indices. -/
theorem mapM_item {α : Type} {values : List α} (h : ∀ i ∈ indices, i < values.length) :
    (indices.mapM (item values) : Proposing F (List α)) =
      pure (indices.filterMap (values[·]?)) := by
  induction indices with
  | nil => rfl
  | cons i indices ih =>
    obtain ⟨hi, hindices⟩ := forall_mem_cons.mp h
    rw [mapM_cons, item_of_lt hi, ih hindices, filterMap_cons,
      getElem?_eq_getElem hi]
    rfl

theorem length_filterMap_getElem? {α : Type} {values : List α}
    (h : ∀ i ∈ indices, i < values.length) :
    (indices.filterMap (values[·]?)).length = indices.length := by
  induction indices with
  | nil => rfl
  | cons i indices ih =>
    obtain ⟨hi, hindices⟩ := forall_mem_cons.mp h
    rw [filterMap_cons, getElem?_eq_getElem hi]
    exact congrArg Nat.succ (ih hindices)

/-- An answer of the critic is heeded: a number that is offered is taken, and nothing else
selects. -/
def Heeds (digit : Char → Option Nat) (answer : Except String String) (count fallback k : Nat) :
    Prop :=
  match answer with
  | .ok response =>
      (∀ j : Nat, (criticNumber digit response).1 = some (j : Int) → j < count → k = j) ∧
      ((∀ j : Nat, (criticNumber digit response).1 = some (j : Int) → ¬ j < count) → k = fallback)
  | .error _ => k = fallback

variable {digit : Char → Option Nat}

/-- A choice is an index of the slate. -/
theorem parseCriticChoice_eq_some {response : String} {n k : Nat}
    (h : (parseCriticChoice digit response n).1 = some k) :
    (criticNumber digit response).1 = some (k : Int) ∧ k < n := by
  rw [parseCriticChoice] at h
  split at h
  · rename_i choice tail hnumber
    split at h
    · rename_i hlt
      obtain rfl := some.inj h
      exact ⟨by rw [hnumber]; rfl, hlt⟩
    · cases h
  · cases h

/-- Without a choice, the reply names no index of the slate. -/
theorem parseCriticChoice_eq_none {response : String} {n : Nat}
    (h : (parseCriticChoice digit response n).1 = none) (j : Nat)
    (hj : (criticNumber digit response).1 = some (j : Int)) : ¬ j < n := by
  intro hlt
  rw [parseCriticChoice] at h
  split at h
  · rename_i choice tail hnumber
    rw [hnumber] at hj
    have hchoice : choice = j := by simpa using hj
    rw [hchoice, if_pos hlt] at h
    cases h
  · rename_i hnumber
    exact hnumber j (criticNumber digit response).2 (Prod.ext hj rfl)

/-- The screen results that the selection is fed. -/
def fed (agent : BestOfNProposerAgent F) (indices : List Nat)
    (screenResults : Option (List (CandidateScreenResult F))) :
    Option (List (CandidateScreenResult F)) :=
  if agent.config.screenVetoOnly then none
  else screenResults.map fun results => indices.filterMap (results[·]?)

/-- What the critic is fed of the screen. -/
theorem screenFeed_eq {screenResults : Option (List (CandidateScreenResult F))}
    (h : ∀ results, screenResults = some results → ∀ i ∈ indices, i < results.length) :
    screenFeed agent indices screenResults =
      pure ((fed agent indices screenResults).map (·.map (·.scalar)),
        (fed agent indices screenResults).elim "" renderScreenNote) := by
  cases screenResults with
  | none =>
    rw [fed, map_none, ite_self]
    rfl
  | some results =>
    rw [screenFeed, fed]
    split
    · rfl
    · rw [mapM_item (h results rfl)]
      rfl

variable [PyArith F]

/-- The heuristic names an index of the slate. -/
theorem heuristicBestIndex_lt {candidates : List (Experiment F)}
    {scalars : Option (List (Option F))} (h : candidates ≠ []) :
    heuristicBestIndex ctx candidates scalars < candidates.length := by
  have hkeys : ∀ key ∈ candidates.mapIdx fun i candidate => rankKey ctx scalars candidate i,
      key.index < candidates.length := by
    intro key hkey
    obtain ⟨i, hi, rfl⟩ := mem_mapIdx.mp hkey
    exact hi
  rw [heuristicBestIndex]
  split
  · exact length_pos_iff.mpr h
  · rename_i first rest hcons
    rw [hcons] at hkeys
    obtain ⟨hfirst, hrest⟩ := forall_mem_cons.mp hkeys
    refine foldlRecOn (motive := fun best : Key F => best.index < candidates.length) rest _
      hfirst fun best hbest key hkey => ?_
    split
    · exact hrest key hkey
    · exact hbest

/-- **The critic or the heuristic** chooses among the candidates that it is given. -/
theorem selectBest_spec {candidates : List (Experiment F)} (h : candidates ≠ [])
    (scalars : Option (List (Option F))) (note : String) :
    ∃ acts k mode rationale,
      selectBest agent ctx candidates scalars note = ⟨acts, .ok (k, mode, rationale)⟩ ∧
      k < candidates.length ∧
      (acts = [] ∨ ∃ answer, acts = [.critique (critiquePrompt ctx candidates note) answer] ∧
        Heeds ctx.digit answer candidates.length
          (heuristicBestIndex ctx candidates scalars) k) := by
  have hheuristic := @heuristicBestIndex_lt _ ctx _ _ scalars h
  rw [selectBest]
  split
  · exact ⟨_, _, _, _, rfl, hheuristic, .inl rfl⟩
  · split
    · exact ⟨_, _, _, _, rfl, hheuristic, .inl rfl⟩
    · rename_i auxCallLlm _
      rw [critique, Traced.acting_bind]
      cases hanswer : auxCallLlm (critiquePrompt ctx candidates note) with
      | error text => exact ⟨_, _, _, _, rfl, hheuristic, .inr ⟨_, rfl, rfl⟩⟩
      | ok response =>
        cases hparse : parseCriticChoice ctx.digit response candidates.length with
        | mk choice rationale =>
          have hchoice := congrArg Prod.fst hparse
          cases choice with
          | none =>
            refine ⟨_, _, "heuristic", "", ?_, hheuristic,
              .inr ⟨.ok response, rfl, ?_, fun _ => rfl⟩⟩
            · dsimp only
              rw [hparse]
              rfl
            · intro j hj hlt
              exact absurd hlt (parseCriticChoice_eq_none hchoice j hj)
          | some choice =>
            obtain ⟨hnumber, hlt⟩ := parseCriticChoice_eq_some hchoice
            refine ⟨_, choice, "critique", rationale, ?_, hlt, .inr ⟨.ok response, rfl, ?_, ?_⟩⟩
            · dsimp only
              rw [hparse]
              rfl
            · intro j hj _
              rw [hnumber] at hj
              simpa using hj
            · intro hnone
              exact absurd hlt (hnone choice hnumber)

/-- What is picked among the candidates at some indices, with the calls of the critic. -/
structure Picked (agent : BestOfNProposerAgent F) (ctx : Context F)
    (candidates : List (Experiment F)) (indices : List Nat)
    (screenResults : Option (List (CandidateScreenResult F)))
    (critiques : List (String × Except String String)) (k : Nat) : Prop where
  mem : k ∈ indices
  single : critiques.length ≤ 1
  /-- The critic is shown the candidates at the indices, and its answer counts among these. -/
  heeds : ∀ call ∈ critiques, ∃ p, indices[p]? = some k ∧
    call.1 = critiquePrompt ctx (indices.filterMap (candidates[·]?))
      ((fed agent indices screenResults).elim "" renderScreenNote) ∧
    Heeds ctx.digit call.2 indices.length
      (heuristicBestIndex ctx (indices.filterMap (candidates[·]?))
        ((fed agent indices screenResults).map (·.map (·.scalar)))) p

/-- **The selection over some indices** maps the choice back. -/
theorem selectOver_spec {candidates : List (Experiment F)} {indices : List Nat}
    {screenResults : Option (List (CandidateScreenResult F))} (hne : indices ≠ [])
    (hcandidates : ∀ i ∈ indices, i < candidates.length)
    (hresults : ∀ results, screenResults = some results → ∀ i ∈ indices, i < results.length) :
    ∃ acts k mode rationale critiques,
      selectOver agent ctx candidates indices screenResults = ⟨acts, .ok (k, mode, rationale)⟩ ∧
      view acts = { View.empty with critiques := critiques } ∧
      Picked agent ctx candidates indices screenResults critiques k := by
  have hlength := length_filterMap_getElem? hcandidates
  have hsub : indices.filterMap (candidates[·]?) ≠ [] := by
    intro hnil
    rw [hnil] at hlength
    exact hne (length_eq_zero_iff.mp hlength.symm)
  obtain ⟨acts, p, mode, rationale, hbest, hp, hacts⟩ := @selectBest_spec _ agent ctx _ _ hsub
    ((fed agent indices screenResults).map (·.map (·.scalar)))
    ((fed agent indices screenResults).elim "" renderScreenNote)
  rw [hlength] at hp hacts
  have hover : selectOver agent ctx candidates indices screenResults =
      ⟨acts, .ok (indices[p], mode, rationale)⟩ := by
    rw [selectOver, mapM_item hcandidates, pure_bind, screenFeed_eq hresults, pure_bind]
    dsimp only
    rw [hbest, Traced.ok_bind]
    dsimp only
    rw [item_of_lt hp, pure_bind, Traced.pure_eq, Traced.after_mk, append_nil]
  rcases hacts with rfl | ⟨answer, rfl, hheeds⟩
  · exact ⟨_, _, _, _, [], hover, rfl, getElem_mem hp, Nat.zero_le _, nofun⟩
  · refine ⟨_, _, _, _, _, hover, view_singleton _, getElem_mem hp, Nat.le_refl _, ?_⟩
    intro call hcall
    obtain rfl := mem_singleton.mp hcall
    exact ⟨p, getElem?_eq_getElem hp, rfl, hheeds⟩

end Parts

/-! ## The selection -/

section Selection
variable {agent : BestOfNProposerAgent F} {ctx : Context F} {n : Nat}

/-- The indices that the critic is offered: all that are not vetoed, or all. -/
structure Offers (candidates : List (Experiment F))
    (screens : List (List (CandidateScreenResult F))) (indices : List Nat) : Prop where
  sorted : indices.Pairwise (· < ·)
  mem : ∀ i, i ∈ indices ↔ i < candidates.length ∧
    (VetoedIn screens i → ∀ j < candidates.length, VetoedIn screens j)

variable {results : List (CandidateScreenResult F)}

theorem vetoedIn_singleton {i : Nat} :
    VetoedIn [results] i ↔ ∃ res, results[i]? = some res ∧ res.vetoed = true := by
  simp [VetoedIn]

theorem not_vetoedIn_nil {i : Nat} :
    ¬ VetoedIn ([] : List (List (CandidateScreenResult F))) i := by
  simp [VetoedIn]

theorem mem_survivors {i : Nat} :
    i ∈ survivors results ↔ i < results.length ∧ ¬ VetoedIn [results] i := by
  rw [survivors, mem_filter, mem_range, vetoedIn_singleton, and_congr_right_iff]
  intro hi
  rw [getElem?_eq_getElem hi]
  simp

theorem pairwise_range (k : Nat) : (List.range k).Pairwise (· < ·) := pairwise_lt_range

variable {candidates : List (Experiment F)}

/-- The survivors of a screen are what is offered, if there are any. -/
theorem offers_survivors (hlength : results.length = candidates.length)
    (hne : survivors results ≠ []) : Offers candidates [results] (survivors results) where
  sorted := Pairwise.filter _ (pairwise_range _)
  mem := by
    intro i
    rw [mem_survivors, hlength, and_congr_right_iff]
    intro hi
    refine ⟨fun hnot hvetoed => absurd hvetoed hnot, fun h hvetoed => ?_⟩
    obtain ⟨j, hj⟩ := exists_mem_of_ne_nil _ hne
    obtain ⟨hlt, hnot⟩ := mem_survivors.mp hj
    exact hnot (h hvetoed j (hlength ▸ hlt))

/-- Without a screen, and when all are vetoed, all are offered. -/
theorem offers_all {screens : List (List (CandidateScreenResult F))}
    (h : ∀ i < candidates.length, VetoedIn screens i → ∀ j < candidates.length, VetoedIn screens j) :
    Offers candidates screens (List.range candidates.length) where
  sorted := pairwise_range _
  mem := by
    intro i
    rw [mem_range]
    exact ⟨fun hi => ⟨hi, h i hi⟩, And.left⟩

/-- What the revise pass does: the replacement it appends, and what its screen says. -/
theorem reviseAllVetoed_spec {candidates : List (Experiment F)}
    {results : List (CandidateScreenResult F)} :
    ∃ acts candidates' outcome shared revised reviseScreens,
      reviseAllVetoed agent ctx n candidates results = ⟨acts, .ok (candidates', outcome)⟩ ∧
      view acts = { View.empty with
        shared := shared, revises := [revised], reviseScreens := reviseScreens } ∧
      (ctx.scratchValidatorFactory.isSome = true ∨ ctx.validateExperiment = none → shared = []) ∧
      match revised, outcome with
      | .error _, .unavailable => candidates' = candidates
      | .ok replacement, .fallback =>
          candidates' = candidates ++ [replacement] ∧ VetoedIn reviseScreens 0
      | .ok replacement, .chosen =>
          candidates' = candidates ++ [replacement] ∧ ¬ VetoedIn reviseScreens 0
      | _, _ => False := by
  rw [reviseAllVetoed]
  generalize agent.inner (.revise (renderReviseFeedback results)) = run
  obtain ⟨shared, hshared⟩ := view_validateActs_eq
    (leaseCalls (slotValidateLease ctx .revise) run.validated)
  have hnone : ctx.scratchValidatorFactory.isSome = true ∨ ctx.validateExperiment = none →
      shared = [] := by
    intro hfactory
    rw [view_validateActs (leaseCalls_ne hfactory)] at hshared
    exact (congrArg View.shared hshared).symm
  dsimp only
  rw [Traced.acting_bind, Traced.acting_bind]
  cases houtcome : run.outcome with
  | error raised =>
    refine ⟨_, candidates, .unavailable, shared, .error raised, [], rfl, ?_, hnone, rfl⟩
    rw [Traced.pure_eq, Traced.after_mk, append_nil, view_append, hshared, view_singleton]
    simp [Action.view, View.append, View.empty]
  | ok replacement =>
    obtain ⟨acts, hscreen, -, hview⟩ := @screenSlate_eq _ ctx .revise candidates.length true
      [replacement]
    have hemits : view (if ctx.roundEventEmitter = true then
        [RoundEvent.candidateSampled candidates.length n false true].map .emit
        else ([] : List (Action F))) = .empty :=
      view_of_silent (by simp [RoundEvent.texts]) (by simp [RoundEvent.selection?])
    dsimp only
    rw [emitRoundEvents, Traced.acting_bind, hscreen, Traced.ok_bind]
    have hshown : view (validateActs
        (leaseCalls (slotValidateLease ctx .revise) run.validated) ++
        ([.revise (renderReviseFeedback results) (.ok replacement)] ++
          ((if ctx.roundEventEmitter = true then
            [RoundEvent.candidateSampled candidates.length n false true].map .emit else []) ++
            (acts ++ [])))) =
        { View.empty with
          shared := shared
          revises := [.ok replacement]
          reviseScreens := (screened ctx .revise [replacement]).toList } := by
      rw [view_append, view_append, view_append, view_append, hshared, view_singleton, hemits,
        hview rfl]
      simp [Action.view, View.append, View.empty]
    cases hresults : screened ctx .revise [replacement] with
    | none =>
      rw [hresults] at hshown
      exact ⟨_, _, .chosen, shared, .ok replacement, [], rfl, hshown, hnone, rfl,
        not_vetoedIn_nil⟩
    | some screenResults =>
      rw [hresults] at hshown
      obtain ⟨result, rfl⟩ := length_eq_one_iff.mp (length_of_screened hresults)
      have hvetoed : VetoedIn [[result]] 0 ↔ result.vetoed = true := by simp [VetoedIn]
      dsimp only
      by_cases hveto : result.vetoed = true
      · rw [if_pos hveto]
        exact ⟨_, _, .fallback, shared, .ok replacement, [[result]], rfl, hshown, hnone,
          rfl, hvetoed.mpr hveto⟩
      · rw [if_neg hveto]
        exact ⟨_, _, .chosen, shared, .ok replacement, [[result]], rfl, hshown, hnone,
          rfl, fun h => hveto (hvetoed.mp h)⟩

variable [PyArith F]

/-- **What is selected** among the candidates, by what the selection shows. -/
structure Selected (agent : BestOfNProposerAgent F) (ctx : Context F)
    (candidates : List (Experiment F)) (v : View F) (choice : Choice F) : Prop where
  appended : choice.candidates = candidates ++ v.revises.filterMap Except.toOption
  index : choice.index < choice.candidates.length
  /-- A vetoed candidate is the last resort. -/
  vetoed : choice.index < candidates.length → VetoedIn v.slateScreens choice.index →
    (∀ j < candidates.length, VetoedIn v.slateScreens j) ∧
      ((∃ raised, .error raised ∈ v.revises) ∨ VetoedIn v.reviseScreens 0)
  revised : candidates.length ≤ choice.index → ¬ VetoedIn v.reviseScreens 0
  reviewed : v.critiques ≠ [] → ∃ indices, Offers candidates v.slateScreens indices ∧
    Picked agent ctx candidates indices v.slateScreens.head? v.critiques choice.index
  critics : v.critiques.length ≤ 1
  revises : v.revises.length ≤ 1
  texts : v.texts = []
  selections : v.selections = []
  shared : ctx.scratchValidatorFactory.isSome = true ∨ ctx.validateExperiment = none →
    v.shared = []

variable {critiques : List (String × Except String String)}

theorem Picked.append {rest : List (Experiment F)} {indices : List Nat}
    {screenResults : Option (List (CandidateScreenResult F))} {k : Nat}
    (h : Picked agent ctx (candidates ++ rest) indices screenResults critiques k)
    (hindices : ∀ i ∈ indices, i < candidates.length) :
    Picked agent ctx candidates indices screenResults critiques k := by
  have hsame : indices.filterMap ((candidates ++ rest)[·]?) = indices.filterMap (candidates[·]?) :=
    filterMap_congr fun i hi => getElem?_append_left (hindices i hi)
  refine ⟨h.mem, h.single, ?_⟩
  rw [← hsame]
  exact h.heeds

/-- A choice without a revise pass. -/
theorem Selected.plain {candidates : List (Experiment F)}
    {screens : List (List (CandidateScreenResult F))}
    {critiques : List (String × Except String String)} {k : Nat} {mode rationale : String}
    (hindex : k < candidates.length) (hvetoed : ¬ VetoedIn screens k)
    (hcritics : critiques.length ≤ 1)
    (hreviewed : critiques ≠ [] → ∃ indices, Offers candidates screens indices ∧
      Picked agent ctx candidates indices screens.head? critiques k) :
    Selected agent ctx candidates
      { View.empty with slateScreens := screens, critiques := critiques }
      ⟨candidates, k, mode, rationale⟩ where
  appended := (append_nil _).symm
  index := hindex
  vetoed := fun _ h => absurd h hvetoed
  revised := fun h => absurd hindex (Nat.not_lt.mpr h)
  reviewed := hreviewed
  critics := hcritics
  revises := Nat.zero_le _
  texts := rfl
  selections := rfl
  shared := fun _ => rfl

/-- The selection among the candidates as they are after the revise pass. -/
theorem selectOver_vetoed {candidates rest : List (Experiment F)}
    {results : List (CandidateScreenResult F)} (hne : candidates ≠ [])
    (hlength : results.length = candidates.length) :
    ∃ acts k mode rationale critiques,
      selectOver agent ctx (candidates ++ rest) (List.range candidates.length) (some results) =
        ⟨acts, .ok (k, mode, rationale)⟩ ∧
      view acts = { View.empty with critiques := critiques } ∧
      Picked agent ctx candidates (List.range candidates.length) (some results) critiques k := by
  have hrange : range candidates.length ≠ [] := by
    intro hnil
    exact hne (length_eq_zero_iff.mp (range_eq_nil.mp hnil))
  obtain ⟨acts, k, mode, rationale, critiques, hover, hview, hpicked⟩ :=
    @selectOver_spec _ agent ctx _ (candidates ++ rest) _
      (some results) hrange
      (fun i hi => by
        rw [length_append]
        exact Nat.lt_add_right _ (mem_range.mp hi))
      (fun results' hresults i hi => by
        rw [← some.inj hresults, hlength]
        exact mem_range.mp hi)
  exact ⟨acts, k, mode, rationale, critiques, hover, hview,
    hpicked.append fun i hi => mem_range.mp hi⟩

/-- A choice after the revise pass has failed, or has been vetoed too. -/
theorem Selected.degraded {candidates' : List (Experiment F)} {shared : List (Experiment F)}
    {revised : Except Raised (Experiment F)} {reviseScreens : List (List (CandidateScreenResult F))}
    {k : Nat} {mode rationale : String}
    (happended : candidates' = candidates ++ [revised].filterMap Except.toOption)
    (hall : ∀ j < candidates.length, VetoedIn [results] j)
    (hspent : (∃ raised, revised = .error raised) ∨ VetoedIn reviseScreens 0)
    (hshared : ctx.scratchValidatorFactory.isSome = true ∨ ctx.validateExperiment = none →
      shared = [])
    (hpicked : Picked agent ctx candidates (List.range candidates.length) (some results)
      critiques k) :
    Selected agent ctx candidates
      ⟨shared, [], [], [results], reviseScreens, critiques, [revised]⟩
      ⟨candidates', k, mode, rationale⟩ where
  appended := happended
  index := by
    rw [happended, length_append]
    exact Nat.lt_add_right _ (mem_range.mp hpicked.mem)
  vetoed := by
    refine fun _ _ => ⟨hall, hspent.imp_left ?_⟩
    rintro ⟨raised, rfl⟩
    exact ⟨raised, mem_singleton_self _⟩
  revised := fun h => absurd (mem_range.mp hpicked.mem) (Nat.not_lt.mpr h)
  reviewed := fun _ => ⟨_, offers_all fun _ _ _ => hall, hpicked⟩
  critics := hpicked.single
  revises := Nat.le_refl _
  texts := rfl
  selections := rfl
  shared := hshared

/-- **The selection among a slate that is all vetoed.** -/
theorem selectVetoed_spec {candidates : List (Experiment F)}
    {results : List (CandidateScreenResult F)} (hne : candidates ≠ [])
    (hlength : results.length = candidates.length)
    (hall : ∀ j < candidates.length, VetoedIn [results] j) :
    ∃ acts choice, selectVetoed agent ctx n candidates results = ⟨acts, .ok choice⟩ ∧
      Selected agent ctx candidates
        (View.append { View.empty with slateScreens := [results] } (view acts)) choice := by
  obtain ⟨acts, candidates', outcome, shared, revised, reviseScreens, hrevise, hview, hshared,
    hspec⟩ := @reviseAllVetoed_spec _ agent ctx n
      candidates results
  rw [selectVetoed, hrevise]
  dsimp only
  rw [Traced.ok_bind]
  have happend : ∀ critiques : List (String × Except String String),
      View.append { View.empty with slateScreens := [results] }
        (View.append { View.empty with
          shared := shared, revises := [revised], reviseScreens := reviseScreens }
          { View.empty with critiques := critiques }) =
      ⟨shared, [], [], [results], reviseScreens, critiques, [revised]⟩ := fun critiques => by
    simp [View.append, View.empty]
  rcases revised with raised | replacement <;> cases outcome <;>
    first | exact hspec.elim | dsimp only at hspec
  · -- the pass itself failed
    subst hspec
    obtain ⟨acts', k, mode, rationale, critiques, hover, hview', hpicked⟩ :=
      @selectOver_vetoed _ agent ctx _ _ [] _ hne hlength
    rw [append_nil] at hover
    simp only [hover, Traced.ok_bind, Traced.pure_eq, Traced.after_mk, append_nil]
    refine ⟨_, _, rfl, ?_⟩
    rw [view_append, hview, hview', happend]
    exact .degraded (append_nil _).symm hall (.inl ⟨raised, rfl⟩) hshared hpicked
  · obtain ⟨hsame, hnot⟩ := hspec
    subst hsame
    simp only [Traced.pure_eq, Traced.after_mk, append_nil]
    refine ⟨_, _, rfl, ?_⟩
    have hlast : (candidates ++ [replacement]).length - 1 = candidates.length := by
      rw [length_append]
      exact Nat.add_sub_cancel _ 1
    rw [hview, hlast]
    exact {
      appended := rfl
      index := by
        rw [length_append]
        exact Nat.lt_succ_self _
      vetoed := fun hlt => absurd hlt (Nat.lt_irrefl _)
      revised := fun _ => by simpa [View.append, View.empty] using hnot
      reviewed := fun hne => absurd rfl hne
      critics := Nat.zero_le _
      revises := Nat.le_refl _
      texts := rfl
      selections := rfl
      shared := fun hfactory => by simp [View.append, View.empty, hshared hfactory] }
  · obtain ⟨hsame, hveto⟩ := hspec
    subst hsame
    obtain ⟨acts', k, mode, rationale, critiques, hover, hview', hpicked⟩ :=
      @selectOver_vetoed _ agent ctx _ _ [replacement] _ hne hlength
    simp only [hover, Traced.ok_bind, Traced.pure_eq, Traced.after_mk, append_nil]
    refine ⟨_, _, rfl, ?_⟩
    rw [view_append, hview, hview', happend]
    exact .degraded rfl hall (.inr hveto) hshared hpicked

/-- **The selection of a proposal** never raises. -/
theorem select_spec {candidates : List (Experiment F)} {recombinedIndex : Option Nat}
    (hne : candidates ≠ []) (hindex : ∀ i, recombinedIndex = some i → i < candidates.length) :
    ∃ acts choice, select agent ctx n candidates recombinedIndex = ⟨acts, .ok choice⟩ ∧
      Selected agent ctx candidates (view acts) choice := by
  have hpos : 0 < candidates.length := length_pos_iff.mpr hne
  rw [select]
  by_cases hsole : candidates.length = 1
  · rw [if_pos hsole]
    exact ⟨[], _, rfl, .plain hpos not_vetoedIn_nil (Nat.zero_le _) fun h => absurd rfl h⟩
  rw [if_neg hsole]
  obtain ⟨acts, hscreen, hview, -⟩ := @screenSlate_eq _ ctx .slate 0 false candidates
  have hview := hview rfl
  have happend : ∀ critiques : List (String × Except String String),
      (view acts).append { View.empty with critiques := critiques } =
        { View.empty with
          slateScreens := (screened ctx .slate candidates).toList, critiques := critiques } :=
    fun critiques => by
      rw [hview]
      simp [View.append, View.empty]
  rw [hscreen, Traced.ok_bind]
  have hrange : range candidates.length ≠ [] := fun hnil =>
    hne (length_eq_zero_iff.mp (range_eq_nil.mp hnil))
  cases hresults : screened ctx .slate candidates with
  | none =>
    rw [hresults] at hview happend
    cases hrecombined : recombinedIndex with
    | some i =>
      rw [recombinedChoice, pure_bind]
      simp only [Traced.pure_eq, Traced.after_mk, append_nil]
      refine ⟨_, _, rfl, ?_⟩
      rw [hview]
      exact .plain (hindex i hrecombined) not_vetoedIn_nil (Nat.zero_le _) fun h => absurd rfl h
    | none =>
      obtain ⟨acts', k, mode, rationale, critiques, hover, hview', hpicked⟩ :=
        @selectOver_spec _ agent ctx _ candidates _
          none hrange (fun i hi => mem_range.mp hi) (by rintro _ ⟨⟩)
      rw [recombinedChoice, pure_bind]
      simp only [hover, Traced.ok_bind, Traced.pure_eq, Traced.after_mk, append_nil]
      refine ⟨_, _, rfl, ?_⟩
      rw [view_append, hview', happend]
      exact .plain (mem_range.mp hpicked.mem) not_vetoedIn_nil hpicked.single
        fun _ => ⟨_, offers_all fun i _ h => absurd h not_vetoedIn_nil, hpicked⟩
  | some results =>
    rw [hresults] at hview happend
    have hlength := length_of_screened hresults
    have hchoice : (recombinedChoice recombinedIndex (some results) : Proposing F (Option Nat)) =
          pure none ∨
        ∃ i, recombinedIndex = some i ∧ ¬ VetoedIn [results] i ∧
          (recombinedChoice recombinedIndex (some results) : Proposing F (Option Nat)) =
            pure (some i) := by
      cases hrecombined : recombinedIndex with
      | none => exact .inl rfl
      | some i =>
        have hi : i < results.length := hlength ▸ hindex i hrecombined
        rw [recombinedChoice, item_of_lt hi, pure_bind]
        by_cases hveto : results[i].vetoed = true
        · rw [if_pos hveto]
          exact .inl rfl
        · rw [if_neg hveto]
          refine .inr ⟨i, rfl, ?_, rfl⟩
          rw [vetoedIn_singleton, getElem?_eq_getElem hi]
          simpa using hveto
    rcases hchoice with hnone | ⟨i, hi, hnot, hsome⟩
    · rw [hnone, pure_bind]
      dsimp only
      split
      · rename_i hvetoed
        have hall : ∀ j < candidates.length, VetoedIn [results] j := by
          intro j hj
          by_contra hnot
          have hmem := mem_survivors.mpr ⟨hlength ▸ hj, hnot⟩
          rw [hvetoed] at hmem
          cases hmem
        obtain ⟨acts', choice, hselect, hselected⟩ :=
          @selectVetoed_spec _ agent ctx n _ _ _ hne hlength hall
        rw [hselect]
        refine ⟨_, choice, rfl, ?_⟩
        rw [view_append, hview]
        exact hselected
      · rename_i i hsole
        simp only [Traced.pure_eq, Traced.after_mk, append_nil]
        refine ⟨_, _, rfl, ?_⟩
        rw [hview]
        obtain ⟨hi, hnot⟩ := mem_survivors.mp (hsole ▸ mem_singleton_self i)
        exact .plain (hlength ▸ hi) hnot (Nat.zero_le _) fun h => absurd rfl h
      · rename_i hnil hsole
        have hmem : ∀ i ∈ survivors results, i < results.length := fun i hi =>
          (mem_survivors.mp hi).1
        obtain ⟨acts', k, mode, rationale, critiques, hover, hview', hpicked⟩ :=
          @selectOver_spec _ agent ctx _ candidates _
            (some results) (fun h => hnil h) (fun i hi => hlength ▸ hmem i hi)
            (fun results' hsome i hi => by
              rw [← some.inj hsome]
              exact hmem i hi)
        simp only [hover, Traced.ok_bind, Traced.pure_eq, Traced.after_mk, append_nil]
        refine ⟨_, _, rfl, ?_⟩
        rw [view_append, hview', happend]
        obtain ⟨hk, hnot⟩ := mem_survivors.mp hpicked.mem
        exact .plain (hlength ▸ hk) hnot hpicked.single
          fun _ => ⟨_, offers_survivors hlength fun h => hnil h, hpicked⟩
    · rw [hsome, pure_bind]
      simp only [Traced.pure_eq, Traced.after_mk, append_nil]
      refine ⟨_, _, rfl, ?_⟩
      rw [hview]
      exact .plain (hindex i hi) hnot (Nat.zero_le _) fun h => absurd rfl h

end Selection

/-! ## The whole proposal -/

section Whole
variable {agent : BestOfNProposerAgent F} {ctx : Context F} {n : Nat}

/-- How a candidate is chosen at an index of the slate as it is then. -/
structure Chosen [PyArith F] (agent : BestOfNProposerAgent F) (ctx : Context F)
    (outcomes : List (SlotOutcome F)) (v : View F) (c : Experiment F) (i : Nat) : Prop where
  candidate : (sampled outcomes ++ v.revises.filterMap Except.toOption)[i]? = some c
  vetoed : i < (sampled outcomes).length → VetoedIn v.slateScreens i →
    (∀ j < (sampled outcomes).length, VetoedIn v.slateScreens j) ∧
      ((∃ raised, .error raised ∈ v.revises) ∨ VetoedIn v.reviseScreens 0)
  revised : (sampled outcomes).length ≤ i → ¬ VetoedIn v.reviseScreens 0
  reviewed : v.critiques ≠ [] → ∃ indices, Offers (sampled outcomes) v.slateScreens indices ∧
    Picked agent ctx (sampled outcomes) indices v.slateScreens.head? v.critiques i
  recorded : ctx.roundEventEmitter = true → ∃ mode, v.selections = [(i, mode)]

/-- **Soundness** of a proposal, by what its trace shows and what it returns or raises. -/
structure Sound [PyArith F] (agent : BestOfNProposerAgent F) (ctx : Context F)
    (outcomes : List (SlotOutcome F)) (v : View F) (outcome : Except Raised (Experiment F)) :
    Prop where
  /-- What is returned is mounted, by the last call of the hook, which finds nothing. -/
  mounted : ∀ c, outcome = .ok c → ∀ validate, ctx.validateExperiment = some validate →
    validate .mount c = .ok [] ∧
      ∃ before, v.shared = before ++ [c] ∧
        (ctx.scratchValidatorFactory.isSome = true → before = [])
  chosen : ∀ c, outcome = .ok c → ∃ i, Chosen agent ctx outcomes v c i
  critics : v.critiques.length ≤ 1
  revises : v.revises.length ≤ 1
  /-- The error texts are emitted if the slate has a candidate; then only the mount raises. -/
  emitted : sampled outcomes ≠ [] →
    (ctx.roundEventEmitter = true → v.texts = evidence outcomes) ∧
      ∀ raised, outcome = .error raised →
        ∃ i, ∃ findings : List String, raised = .proposerError (.of (findings.map (mountText i)))
  /-- They are raised if it has none. -/
  raised : sampled outcomes = [] → v.texts = [] ∧
    outcome = .error (.proposerError (.of ((evidence outcomes).map fun e => slotText e.1 e.2)))

/-- The end of a proposal: what the mount and the last event show. -/
theorem settle_spec (choice : Choice F) (hindex : choice.index < choice.candidates.length) :
    ∃ acts outcome mounted selections, settle ctx choice = ⟨acts, outcome⟩ ∧
      view acts = { View.empty with shared := mounted, selections := selections } ∧
      (outcome = .ok choice.candidates[choice.index] →
        (ctx.roundEventEmitter = true → selections = [(choice.index, choice.mode)]) ∧
        ∀ validate, ctx.validateExperiment = some validate →
          mounted = [choice.candidates[choice.index]] ∧
          validate .mount choice.candidates[choice.index] = .ok []) ∧
      (outcome = .ok choice.candidates[choice.index] ∨
        ∃ findings : List String, outcome =
          .error (.proposerError (.of (findings.map (mountText choice.index))))) := by
  have hevent : view (if ctx.roundEventEmitter = true then
      [selectedEvent choice].map .emit else ([] : List (Action F))) =
      { View.empty with selections :=
        if ctx.roundEventEmitter = true then [(choice.index, choice.mode)] else [] } := by
    split <;> rfl
  rw [settle, mountChosen]
  cases hhook : ctx.validateExperiment with
  | none =>
    rw [pure_bind, emitRoundEvents, Traced.acting_bind, item_of_lt hindex, Traced.pure_eq,
      Traced.after_mk, append_nil]
    exact ⟨_, _, [], _, rfl, hevent, fun _ => ⟨fun hemitter => if_pos hemitter, nofun⟩, .inl rfl⟩
  | some validate =>
    dsimp only
    rw [item_of_lt hindex, pure_bind, Traced.acting_bind]
    cases hfindings : revalidate (validate .mount) choice.candidates[choice.index] with
    | cons finding findings =>
      refine ⟨_, _, [choice.candidates[choice.index]], [], rfl, rfl, ?_,
        .inr ⟨finding :: findings, rfl⟩⟩
      intro hok
      cases hok
    | nil =>
      dsimp only
      simp only [Traced.pure_eq, Traced.after_mk, Traced.ok_bind, emitRoundEvents,
        Traced.acting_bind, append_nil]
      refine ⟨_, _, [choice.candidates[choice.index]],
        if ctx.roundEventEmitter = true then [(choice.index, choice.mode)] else [], rfl, ?_, ?_,
        .inl rfl⟩
      · rw [view_append, hevent, view_singleton]
        simp [Action.view, View.append, View.empty]
      · intro _
        refine ⟨fun hemitter => if_pos hemitter, ?_⟩
        intro validate' hvalidate
        obtain rfl := some.inj hvalidate
        refine ⟨rfl, ?_⟩
        rw [revalidate] at hfindings
        split at hfindings
        · rename_i findings hok
          rw [hok, hfindings]
        · cases hfindings

variable {reports : List (SlotReport F)}

/-- The hooks that the slots called. -/
theorem view_reports (hvalid : ∀ report ∈ reports, report.Valid ctx) :
    ∃ shared, view (validateActs (reports.flatMap (·.calls))) =
        { View.empty with shared := shared } ∧
      (ctx.scratchValidatorFactory.isSome = true ∨ ctx.validateExperiment = none →
        shared = []) := by
  obtain ⟨shared, hview⟩ := view_validateActs_eq (reports.flatMap (·.calls))
  refine ⟨shared, hview, fun hfactory => ?_⟩
  have hempty : view (validateActs (reports.flatMap (·.calls))) = .empty := by
    apply view_validateActs
    intro call hcall
    obtain ⟨report, hreport, hmem⟩ := mem_flatMap.mp hcall
    exact (hvalid report hreport).calls hfactory call hmem
  rw [hview] at hempty
  exact congrArg View.shared hempty

variable [PyArith F]

/-- A slate without a candidate: the error texts are raised. -/
theorem proposeFrom_empty (hne : reports ≠ []) (hvalid : ∀ report ∈ reports, report.Valid ctx)
    (hempty : sampled (reports.map (·.outcome)) = []) :
    Sound agent ctx (reports.map (·.outcome))
      (view (proposeFrom agent ctx n (.ok reports)).acts)
      (proposeFrom agent ctx n (.ok reports)).outcome := by
  have hcollects := collect_collects (n := n) (reports.map (·.outcome))
  have hcandidates := hcollects.candidates.trans hempty
  have hsaid : (collect n (reports.map (·.outcome))).slotAttempts ≠ [] := by
    rw [hcollects.attempts]
    intro hnil
    obtain ⟨report, hreport⟩ := exists_mem_of_ne_nil _ hne
    have hmem := mem_map_of_mem (f := SlotReport.outcome) hreport
    have hnone : report.outcome.candidate = none := by
      rw [sampled, filterMap_eq_nil_iff] at hempty
      exact hempty _ hmem
    have htexts := flatMap_eq_nil_iff.mp (map_eq_nil_iff.mp hnil) _ hmem
    exact (hvalid report hreport).said hnone (map_eq_nil_iff.mp htexts)
  obtain ⟨shared, hview, -⟩ := view_reports hvalid
  have hpropose : proposeFrom agent ctx n (.ok reports) =
      ⟨validateActs (reports.flatMap (·.calls)), .error (.proposerError (.of
        ((evidence (reports.map (·.outcome))).map fun e => slotText e.1 e.2)))⟩ := by
    rw [proposeFrom, Traced.acting_bind]
    dsimp only
    rw [hcandidates, if_pos isEmpty_nil, if_neg (by simpa using hsaid), hcollects.attempts,
      Traced.raise, Traced.after_mk, append_nil]
  rw [hpropose, hview]
  exact ⟨by rintro _ ⟨⟩, by rintro _ ⟨⟩, Nat.zero_le _, Nat.zero_le _, fun h => absurd hempty h,
    fun _ => ⟨rfl, rfl⟩⟩

/-- **A slate with a candidate.** -/
theorem proposeFrom_sampled (hvalid : ∀ report ∈ reports, report.Valid ctx)
    (hsampled : sampled (reports.map (·.outcome)) ≠ []) :
    Sound agent ctx (reports.map (·.outcome))
      (view (proposeFrom agent ctx n (.ok reports)).acts)
      (proposeFrom agent ctx n (.ok reports)).outcome := by
  have hcollects := collect_collects (n := n) (reports.map (·.outcome))
  have hindex := hcollects.recombined
  rw [hcollects.candidates] at hindex
  obtain ⟨shared, hview, hshared⟩ := view_reports hvalid
  obtain ⟨acts, choice, hselect, hselected⟩ :=
    @select_spec _ agent ctx n _ _ _ hsampled hindex
  obtain ⟨acts', outcome, mounted, selections, hsettle, hview', hok, hreturns⟩ :=
    @settle_spec _ ctx choice hselected.index
  have hstaged : view (if ctx.roundEventEmitter = true then
      (collect n (reports.map (·.outcome))).staged.map .emit else ([] : List (Action F))) =
      { View.empty with texts :=
        if ctx.roundEventEmitter = true then evidence (reports.map (·.outcome)) else [] } := by
    split
    · rw [view_emits, hcollects.texts, hcollects.selections]
      rfl
    · rfl
  have hpropose : proposeFrom agent ctx n (.ok reports) =
      ⟨validateActs (reports.flatMap (·.calls)) ++
        ((if ctx.roundEventEmitter = true then
          (collect n (reports.map (·.outcome))).staged.map .emit else []) ++ (acts ++ acts')),
        outcome⟩ := by
    rw [proposeFrom, Traced.acting_bind]
    dsimp only
    rw [hcollects.candidates, if_neg (by simpa using hsampled), emitRoundEvents,
      Traced.acting_bind, hselect, Traced.ok_bind, hsettle]
    rfl
  have htrace : view (proposeFrom agent ctx n (.ok reports)).acts =
      ⟨shared ++ ((view acts).shared ++ mounted),
        if ctx.roundEventEmitter = true then evidence (reports.map (·.outcome)) else [],
        selections, (view acts).slateScreens, (view acts).reviseScreens, (view acts).critiques,
        (view acts).revises⟩ := by
    rw [hpropose, view_append, view_append, view_append, hview, hstaged, hview']
    simp [View.append, View.empty, hselected.texts, hselected.selections]
  have houtcome : (proposeFrom agent ctx n (.ok reports)).outcome = outcome := by rw [hpropose]
  rw [htrace, houtcome]
  have hlt := hselected.index
  have hreturned : ∀ c, outcome = .ok c → c = choice.candidates[choice.index] := by
    intro c hc
    rcases hreturns with h | ⟨findings, h⟩
    · exact Except.ok.inj (hc.symm.trans h)
    · rw [hc] at h
      cases h
  exact {
    mounted := by
      intro c hc validate hvalidate
      obtain rfl := hreturned c hc
      obtain ⟨hmounted, hfound⟩ := (hok hc).2 validate hvalidate
      refine ⟨hfound, shared ++ (view acts).shared, ?_, fun hfactory => ?_⟩
      · rw [hmounted, List.append_assoc]
      · rw [hshared (.inl hfactory), hselected.shared (.inl hfactory)]
        rfl
    chosen := by
      intro c hc
      obtain rfl := hreturned c hc
      refine ⟨choice.index, ?_, hselected.vetoed, hselected.revised, hselected.reviewed, ?_⟩
      · rw [← hselected.appended]
        exact getElem?_eq_getElem hselected.index
      · exact fun hemitter => ⟨choice.mode, (hok hc).1 hemitter⟩
    critics := hselected.critics
    revises := hselected.revises
    emitted := by
      refine fun _ => ⟨fun hemitter => if_pos hemitter, ?_⟩
      intro raised hraised
      rcases hreturns with h | ⟨findings, h⟩
      · rw [h] at hraised
        cases hraised
      · rw [h] at hraised
        exact ⟨choice.index, findings, (Except.error.inj hraised).symm⟩
    raised := fun hempty => absurd hempty hsampled }

/-- Slots that all report are gathered. -/
theorem proposes_of_slots (hn : 1 < agent.config.bestOfN) {reports : List (SlotReport F)}
    (hslots : (List.range agent.config.bestOfN).mapM
      (fun sample => runOneSlot agent ctx sample agent.config.bestOfN) = .ok reports) :
    Proposes agent ctx (proposeFrom agent ctx agent.config.bestOfN (.ok reports)) := by
  obtain ⟨gathered, hgather⟩ := @gatherSlate_exists _ agent ctx agent.config.bestOfN _
  have hsame := gatherSlate_eq hgather
  rw [hslots] at hsame
  exact .slate hn (hsame ▸ hgather)

/-- **Best-of-N is sound**: whatever the slots give and whatever the screen, the critic, the revise
sample and the hooks do, the proposal ends, and for every parallelism and every order of completion
it leaves the same trace. -/
theorem propose_sound (hn : 1 < agent.config.bestOfN) {reports : List (SlotReport F)}
    (hslots : (List.range agent.config.bestOfN).mapM
      (fun sample => runOneSlot agent ctx sample agent.config.bestOfN) = .ok reports) :
    ∃ proposing, Proposes agent ctx proposing ∧
      Sound agent ctx (reports.map (·.outcome)) (view proposing.acts) proposing.outcome ∧
      ∀ parallelism other,
        Proposes { agent with proposeParallelism := parallelism } ctx other →
          other = proposing := by
  have hreports : ∀ report ∈ reports, report.Valid ctx := by
    intro report hreport
    obtain ⟨sample, -, hslot⟩ := (mem_of_mapM_ok hslots report).mp hreport
    exact runOneSlot_valid hslot
  have hne : reports ≠ [] := by
    rintro rfl
    obtain ⟨k, hk⟩ := Nat.exists_eq_add_of_lt hn
    rw [hk, List.range_succ_eq_map, List.mapM_cons] at hslots
    obtain ⟨report, -, hslots⟩ := bind_eq_ok hslots
    obtain ⟨rest, -, hslots⟩ := bind_eq_ok hslots
    cases hslots
  refine ⟨_, proposes_of_slots hn hslots, ?_, ?_⟩
  · by_cases hempty : sampled (reports.map (·.outcome)) = []
    · exact proposeFrom_empty hne hreports hempty
    · exact proposeFrom_sampled hreports hempty
  · intro parallelism other hother
    cases hother with
    | pass h => exact absurd hn (Nat.not_lt.mpr h)
    | slate _ hgather =>
      have hsame := gatherSlate_eq hgather
      exact congrArg (proposeFrom agent ctx agent.config.bestOfN) (hsame.trans hslots)

end Whole

/-! ## A slate, and a proposal without one -/

/-- An experiment with nothing in it but an idea. -/
def idea (text : String) : Experiment Exact where
  id := "exp"
  epochId := "e"
  generationId := "v1"
  parentGenerationId := "v0"
  proposedAt := ""
  hypothesis := ⟨text, [], "", "", "", []⟩
  patches := []

/-- The first slot fails, the others give an idea each, and the revise sample another. -/
def ideas : InnerCall → InnerRun Exact
  | .pass => ⟨[], .ok (idea "alone")⟩
  | .slot 0 _ => ⟨[], .error (.proposerError ⟨["timeout"], "failed"⟩)⟩
  | .slot 1 _ => ⟨[idea "first"], .ok (idea "first")⟩
  | .slot _ _ => ⟨[idea "second"], .ok (idea "second")⟩
  | .revise _ => ⟨[], .ok (idea "third")⟩

def ideaAgent (bestOfN : Nat) : BestOfNProposerAgent Exact where
  inner := ideas
  config := ⟨bestOfN, true, false⟩
  recombineMerge := "mechanical"
  depthCallLlm := some fun _ => .ok "7"
  mergeCall := .ok ""
  proposeParallelism := 4

/-- Every candidate is vetoed, and the shared hook finds something in the idea of a lone call. -/
def vetoing : Context Exact where
  epochId := "e"
  parentGenerationId := "v0"
  newGenerationId := "v1"
  patterns := []
  priorExperiments := []
  restrictedContext := ""
  forbiddenIds := []
  mutations := []
  customJudgeNames := []
  recombinePair := none
  validateExperiment := some fun _ candidate =>
    .ok (if candidate.hypothesis.coreIdea = "alone" then ["finding"] else [])
  scratchValidatorFactory := some fun _ _ => .ok []
  screenCandidates := some fun _ slate =>
    .ok (slate.map fun _ => ⟨true, "flip", none, 1, 1, 0, true⟩)
  roundEventEmitter := true
  interp := {
    floats := Json.exactFloats
    limited := fun _ => false
    place := fun _ => ""
    float := fun _ => none
    repr := id
    str := fun _ => ""
    violation := fun _ => ""
    uuid := toString
    now := "" }
  sum := fun values => values.foldl PyFloat.add PyFloat.zero
  digit := fun c => if c.isDigit then some (c.toNat - 48) else none

theorem propose_sound_vetoing : ∃ (reports : List (SlotReport Exact)) (proposing : _),
    Proposes (ideaAgent 3) vetoing proposing ∧
      Sound (ideaAgent 3) vetoing (reports.map SlotReport.outcome) (view proposing.acts)
        proposing.outcome ∧
      ∀ parallelism other,
        Proposes { ideaAgent 3 with proposeParallelism := parallelism } vetoing other →
          other = proposing :=
  ⟨_, @propose_sound _ (ideaAgent 3) vetoing _ (by decide) _ rfl⟩

/-- **What the slate does not do**: a single slot is passed through, though the hook has not been
called and finds something in it; without a scratch validator the slots call the hook as well;
without a hook nothing is mounted; and without an emitter no error text is emitted. -/
theorem pass_unmounted :
    (∃ proposing candidate validate, Proposes (ideaAgent 1) vetoing proposing ∧
      proposing.outcome = .ok candidate ∧ vetoing.validateExperiment = some validate ∧
      (view proposing.acts).shared = [] ∧ validate .mount candidate = .ok ["finding"]) ∧
    (∃ proposing, Proposes (ideaAgent 3) { vetoing with scratchValidatorFactory := none } proposing ∧
      proposing.outcome.isOk = true ∧ 1 < (view proposing.acts).shared.length) ∧
    (∃ proposing, Proposes (ideaAgent 3) { vetoing with validateExperiment := none } proposing ∧
      proposing.outcome.isOk = true ∧ (view proposing.acts).shared = []) ∧
    ∃ proposing, Proposes (ideaAgent 3) { vetoing with roundEventEmitter := false } proposing ∧
      proposing.outcome.isOk = true ∧ (view proposing.acts).texts = [] :=
  ⟨⟨_, idea "alone", _, .pass (Nat.le_refl 1), rfl, rfl, rfl, rfl⟩,
    ⟨_, proposes_of_slots (by decide) rfl, rfl, by decide⟩,
    ⟨_, proposes_of_slots (by decide) rfl, rfl, rfl⟩,
    ⟨_, proposes_of_slots (by decide) rfl, rfl, rfl⟩⟩

end Zicato.BestOfN
