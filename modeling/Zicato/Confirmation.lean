import Mathlib.Data.List.Induction
import Zicato.Evidence

/-! # The confirmation loop

`confirm_promotion_with_evidence` of `selection/driver.py`.  Every result is
retained with its eligibility, and its matchup id and its (generation, draw)
units are reserved, those of the selection first.  So whatever the callback
returns, the duels that the verdict counts are fresh and pairwise distinct. -/
open List
namespace Zicato.Evidence

variable {F : Type} [PyFloat F]

/-- One entry of `ci_history`. -/
structure CiEntry (F : Type) where
  pStronger : Option F
  ciOverlap : Bool
  replicatesSpent : Nat
  confirmationStatus : ConfirmationStatus
  nDuels : Nat
  deriving DecidableEq

/-- `EvidenceResolution`. -/
structure EvidenceResolution (F : Type) where
  verdict : EvidenceVerdict F
  ciHistory : List (CiEntry F)
  deriving DecidableEq

/-- The lists and sets the loop grows. -/
structure Progress (F : Type) where
  observedMatchups : List (MatchupResult F) := []
  audit : List (MatchupResult F) := []
  attempts : List (EvidenceAttempt F) := []
  ciHistory : List (CiEntry F) := []
  seenMatchupIds : List String := []
  seenDraws : List (String × MeasurementDraw) := []
  replicatesSpent : Nat := 0

/-- The (generation, draw) units of a result. -/
def units (r : MatchupResult F) : List (String × MeasurementDraw) :=
  match r.measurementDraw with
  | none => []
  | some m => [(r.leftId, m), (r.rightId, m)]

/-- The eligibility `retain` records. -/
def eligibilityOf (parentId promotedId : String) (p : Progress F) (r : MatchupResult F)
    (budgetSpent : Nat) : Eligibility :=
  if budgetSpent = 0 then .selectionOnly
  else if r.matchupId ∈ p.seenMatchupIds then .duplicate
  else if samePair r parentId promotedId = false then .unexpectedPair
  else if r.executionComplete = false then .incomplete
  else if PyFloat.isfinite r.outcome.deltaScalar = false then .nonfinite
  else if r.leftId = r.rightId then .selfComparison
  else
    match r.measurementDraw with
    | none => .missingProvenance
    | some m =>
        if m.purpose ≠ .confirmation then .wrongPurpose
        else if (units r).any (· ∈ p.seenDraws) then .repeatedMeasurement
        else if PyFloat.eq r.outcome.deltaScalar PyFloat.zero then .tie
        else .eligible

/-- `retain`: record the attempt, reserve its identities and admit it or not. -/
def retain (parentId promotedId : String) (budgetSpent : Nat) (p : Progress F)
    (r : MatchupResult F) : Progress F :=
  let eligibility := eligibilityOf parentId promotedId p r budgetSpent
  { p with
    observedMatchups := p.observedMatchups ++ [r]
    attempts := p.attempts ++
      [{ matchupId := r.matchupId
         leftId := r.leftId
         rightId := r.rightId
         eligibility := eligibility
         budgetSpent := budgetSpent
         deltaScalar :=
           if PyFloat.isfinite r.outcome.deltaScalar then some r.outcome.deltaScalar else none
         reason := r.outcome.reason
         measurementDraw := r.measurementDraw }]
    seenMatchupIds := r.matchupId :: p.seenMatchupIds
    seenDraws := units r ++ p.seenDraws
    audit := if eligibility = .eligible ∨ eligibility = .tie then p.audit ++ [r] else p.audit }

/-- What the confirmation returns; `calls` counts the calls of the callback. -/
structure Confirmation (F : Type) where
  decision : SelectionDecision F
  evidence : Option (EvidenceResolution F)
  calls : Nat

/-- `_finalize`. -/
def finalize (decision : SelectionDecision F) (verdict : EvidenceVerdict F) (p : Progress F)
    (promotedId : String) (calls : Nat) : Confirmation F :=
  let resolution := { verdict := verdict, ciHistory := p.ciHistory }
  if verdict.confirmationStatus = .satisfied then
    { decision :=
        { decision with
          promotedGenerationId := some promotedId
          decision := .promoted
          reason := verdict.reason
          matchups := p.observedMatchups }
      evidence := some resolution
      calls := calls }
  else
    { decision :=
        { decision with
          promotedGenerationId := none
          decision := .deferred
          reason := verdict.reason
          matchups := p.observedMatchups }
      evidence := some resolution
      calls := calls }

/-- The callback: the result of its n-th call, or the class of what it raises. -/
abbrev ReplicateDuel (F : Type) := Nat → Except String (MatchupResult F)

section Loop
variable (inference : Inference F) (decision : SelectionDecision F) (parentId promotedId : String)
  (preGate : EvidencePreGate F) (replicateDuel : Option (ReplicateDuel F))
  (plannedCandidates : Nat)

/-- The verdict at the head of the loop. -/
def verdictAt (p : Progress F) : EvidenceVerdict F :=
  { evidenceVerdict inference .promoted decision.reason p.audit parentId promotedId
      preGate.threshold preGate.replicateBudget p.replicatesSpent plannedCandidates with
    attempts := p.attempts }

/-- The check is entered in the history. -/
def logged (p : Progress F) (verdict : EvidenceVerdict F) : Progress F :=
  { p with
    ciHistory := p.ciHistory ++
      [{ pStronger := verdict.pStronger
         ciOverlap := verdict.ciOverlap
         replicatesSpent := p.replicatesSpent
         confirmationStatus := verdict.confirmationStatus
         nDuels := verdict.nDuels }] }

/-- The end of the loop after the runner has failed. -/
def runnerFailed (p : Progress F) (verdict : EvidenceVerdict F) (exc : String) : Confirmation F :=
  let attempts := p.attempts ++
    [{ matchupId := "", leftId := parentId, rightId := promotedId, eligibility := .error
       budgetSpent := 1, reason := exc }]
  let spent := p.replicatesSpent + 1
  finalize decision
    { verdict with
      decision := .inconclusive
      reason := s!"confirmation incomplete: runner failed ({exc})"
      replicatesSpent := spent
      attempts := attempts }
    { p with
      ciHistory := p.ciHistory ++
        (p.ciHistory.getLast?.map fun last => { last with replicatesSpent := spent }).toList }
    promotedId spent

/-- The end of the loop without a further call. -/
def unconfirmed (p : Progress F) (verdict : EvidenceVerdict F) (cause : String) : Confirmation F :=
  finalize decision
    { verdict with
      decision := .inconclusive
      reason := s!"confirmation incomplete: {cause}; {verdict.nDuels} resolved pair duels" }
    p promotedId p.replicatesSpent

/-- The loop, with `left` replicates of the budget not spent yet. -/
def confirmLoop : Nat → Progress F → Confirmation F
  | left, p =>
      let verdict := verdictAt inference decision parentId promotedId preGate plannedCandidates p
      let p := logged p verdict
      if verdict.confirmationStatus = .satisfied then
        finalize decision verdict p promotedId p.replicatesSpent
      else
        match replicateDuel, left with
        | none, _ => unconfirmed decision promotedId p verdict "runner unavailable"
        | some _, 0 => unconfirmed decision promotedId p verdict "replicate budget exhausted"
        | some duel, left + 1 =>
            match duel p.replicatesSpent with
            | .error exc => runnerFailed decision parentId promotedId p verdict exc
            | .ok extra =>
                confirmLoop left
                  (retain parentId promotedId 1
                    { p with replicatesSpent := p.replicatesSpent + 1 } extra)

end Loop

/-- `confirm_promotion_with_evidence`. -/
def confirmPromotionWithEvidence (inference : Inference F) (decision : SelectionDecision F)
    (champion : Contestant) (preGate : EvidencePreGate F)
    (replicateDuel : Option (ReplicateDuel F)) (plannedCandidates : Nat) : Confirmation F :=
  match decision.decision, decision.promotedGenerationId with
  | .promoted, some promotedId =>
      confirmLoop inference decision champion.generationId promotedId preGate replicateDuel
        plannedCandidates preGate.replicateBudget
        (decision.matchups.foldl (retain champion.generationId promotedId 0) {})
  | _, _ => { decision := decision, evidence := none, calls := 0 }

/-! ## What is admitted -/

/-- A duel that may confirm the crown: of the crowning pair, complete, with a
finite nonzero difference, measured for confirmation, and sharing neither its id
nor a unit with a duel of the selection. -/
structure FreshDuel (selection : List (MatchupResult F)) (parentId promotedId : String)
    (d : MatchupResult F) : Prop where
  sides : d.leftId ≠ d.rightId
  pair : d.leftId = parentId ∧ d.rightId = promotedId ∨
    d.leftId = promotedId ∧ d.rightId = parentId
  complete : d.executionComplete = true
  finite : PyFloat.isfinite d.outcome.deltaScalar = true
  draw : ∃ m, d.measurementDraw = some m ∧ m.purpose = .confirmation
  unselected : ∀ s ∈ selection, d.matchupId ≠ s.matchupId ∧ ∀ u ∈ units d, u ∉ units s

/-- Two duels with neither id nor draw in common. -/
def Distinct (d d' : MatchupResult F) : Prop :=
  d.matchupId ≠ d'.matchupId ∧ d.measurementDraw ≠ d'.measurementDraw

/-- The attempt of `d` is on record as eligible, for one unit of the budget. -/
def RecordedEligible (attempts : List (EvidenceAttempt F)) (d : MatchupResult F) : Prop :=
  ∃ a ∈ attempts, a.matchupId = d.matchupId ∧ a.eligibility = .eligible ∧ a.budgetSpent = 1

/-- The loop after the `results` of the callback. -/
structure Admitted (selection results : List (MatchupResult F)) (parentId promotedId : String)
    (p : Progress F) : Prop where
  observed : p.observedMatchups = selection ++ results
  spent : p.replicatesSpent = results.length
  charged : (p.attempts.filter (·.budgetSpent = 1)).length = results.length
  ids : ∀ r ∈ selection ++ results, r.matchupId ∈ p.seenMatchupIds
  draws : ∀ r ∈ selection ++ results, ∀ u ∈ units r, u ∈ p.seenDraws
  sublist : p.audit.Sublist results
  fresh : ∀ d ∈ p.audit, FreshDuel selection parentId promotedId d
  distinct : p.audit.Pairwise Distinct
  recorded : ∀ d ∈ p.audit, decisive d = true → RecordedEligible p.attempts d

variable {selection results : List (MatchupResult F)} {parentId promotedId : String}
  {p : Progress F} {r : MatchupResult F}

/-- The selection itself admits nothing and reserves everything. -/
theorem admitted_selection (selection : List (MatchupResult F)) (parentId promotedId : String) :
    Admitted selection [] parentId promotedId
      (selection.foldl (retain parentId promotedId 0) {}) := by
  induction selection using List.reverseRecOn with
  | nil => exact ⟨rfl, rfl, rfl, by simp, by simp, .slnil, by simp, .nil, by simp⟩
  | append_singleton selection r ih =>
    rw [foldl_append, foldl_cons, foldl_nil]
    have haudit : (retain parentId promotedId 0
        (selection.foldl (retain parentId promotedId 0) {}) r).audit = [] := by
      have := sublist_nil.mp ih.sublist
      simp [retain, eligibilityOf, this]
    refine ⟨?_, ih.spent, ?_, ?_, ?_, ?_, ?_, ?_, ?_⟩
    · simp [retain, ih.observed]
    · simpa [retain] using ih.charged
    · intro r' hr'
      simp only [append_nil, mem_append, mem_singleton] at hr'
      rcases hr' with hr' | rfl
      · exact mem_cons_of_mem _ (ih.ids r' (by simpa using hr'))
      · exact mem_cons_self
    · intro r' hr' u hu
      simp only [append_nil, mem_append, mem_singleton] at hr'
      rcases hr' with hr' | rfl
      · exact mem_append_right _ (ih.draws r' (by simpa using hr') u hu)
      · exact mem_append_left _ hu
    · rw [haudit]
    · rw [haudit]
      simp
    · rw [haudit]
      exact .nil
    · rw [haudit]
      simp

/-- What `retain` has checked of a result that it admits. -/
structure Admissible (parentId promotedId : String) (p : Progress F) (r : MatchupResult F) :
    Prop where
  id : r.matchupId ∉ p.seenMatchupIds
  pair : samePair r parentId promotedId = true
  complete : r.executionComplete = true
  finite : PyFloat.isfinite r.outcome.deltaScalar = true
  sides : r.leftId ≠ r.rightId
  draw : ∃ m, r.measurementDraw = some m ∧ m.purpose = .confirmation
  unseen : ∀ u ∈ units r, u ∉ p.seenDraws
  eligible : decisive r = true → eligibilityOf parentId promotedId p r 1 = .eligible

/-- What counts in the evidence loop is a duel of the pair. -/
theorem admissible_of_eligibility
    (h : eligibilityOf parentId promotedId p r 1 = .eligible ∨
      eligibilityOf parentId promotedId p r 1 = .tie) :
    Admissible parentId promotedId p r := by
  unfold eligibilityOf at h
  rw [if_neg (by decide)] at h
  split at h
  · simp at h
  rename_i hid
  split at h
  · simp at h
  rename_i hpair
  split at h
  · simp at h
  rename_i hcomplete
  split at h
  · simp at h
  rename_i hfinite
  split at h
  · simp at h
  rename_i hsides
  split at h
  · simp at h
  rename_i m hm
  split at h
  · simp at h
  rename_i hpurpose
  split at h
  · simp at h
  rename_i hunits
  rw [Bool.not_eq_false] at hpair hcomplete hfinite
  refine ⟨hid, hpair, hcomplete, hfinite, hsides, ⟨m, hm, not_not.mp hpurpose⟩, ?_, ?_⟩
  · intro u hu hseen
    exact hunits (any_eq_true.mpr ⟨u, hu, by simpa using hseen⟩)
  · intro hdecisive
    have hzero : PyFloat.eq r.outcome.deltaScalar PyFloat.zero = false := by
      simpa [decisive] using hdecisive
    unfold eligibilityOf
    rw [if_neg (by decide), if_neg hid, if_neg (by simp [hpair]), if_neg (by simp [hcomplete]),
      if_neg (by simp [hfinite]), if_neg hsides, hm]
    simp only
    rw [if_neg hpurpose, if_neg hunits, if_neg (by simp [hzero])]

omit [PyFloat F] in
theorem samePair_cases (hpair : samePair r parentId promotedId = true)
    (hsides : r.leftId ≠ r.rightId) :
    r.leftId = parentId ∧ r.rightId = promotedId ∨
      r.leftId = promotedId ∧ r.rightId = parentId := by
  simp only [samePair, Bool.and_eq_true, Bool.or_eq_true, decide_eq_true_eq] at hpair
  obtain ⟨⟨⟨hleft, hright⟩, -⟩, -⟩ := hpair
  rcases hleft with hl | hl <;> rcases hright with hr | hr
  · exact absurd (hl.trans hr.symm) hsides
  · exact Or.inl ⟨hl, hr⟩
  · exact Or.inr ⟨hl, hr⟩
  · exact absurd (hl.trans hr.symm) hsides

section
variable (h : Admissible parentId promotedId p r)
  (hp : Admitted selection results parentId promotedId p)
include h hp

/-- An admitted result is fresh, and distinct from those admitted before. -/
theorem Admissible.fresh : FreshDuel selection parentId promotedId r where
  sides := h.sides
  pair := samePair_cases h.pair h.sides
  complete := h.complete
  finite := h.finite
  draw := h.draw
  unselected s hs := by
    refine ⟨fun heq => h.id ?_, fun u hu hmem => h.unseen u hu ?_⟩
    · rw [heq]
      exact hp.ids s (by simp [hs])
    · exact hp.draws s (by simp [hs]) u hmem

/-- A recorded duel is counted once. -/
theorem Admissible.distinct : ∀ d ∈ p.audit, Distinct d r := by
  intro d hd
  have hmem : d ∈ selection ++ results := mem_append_right _ (hp.sublist.subset hd)
  refine ⟨fun heq => h.id (heq ▸ hp.ids d hmem), fun heq => ?_⟩
  -- both duels are of the crowning pair, so with the same draw they share a unit
  obtain ⟨m, hm, -⟩ := h.draw
  have hd' := hp.fresh d hd
  have hunit : (d.leftId, m) ∈ units r := by
    have hside : d.leftId = r.leftId ∨ d.leftId = r.rightId := by
      rcases hd'.pair with ⟨hl, -⟩ | ⟨hl, -⟩ <;>
        rcases samePair_cases h.pair h.sides with ⟨hl', hr'⟩ | ⟨hl', hr'⟩ <;>
        simp [hl, hl', hr']
    rcases hside with hside | hside <;> simp [units, hm, hside]
  refine h.unseen _ hunit (hp.draws d hmem _ ?_)
  simp [units, heq, hm]

end

/-- **Retaining one more result keeps what is admitted fresh and distinct.** -/
theorem Admitted.retain (hp : Admitted selection results parentId promotedId p)
    (r : MatchupResult F) :
    Admitted selection (results ++ [r]) parentId promotedId
      (Evidence.retain parentId promotedId 1
        { p with replicatesSpent := p.replicatesSpent + 1 } r) := by
  have hids : ∀ r' ∈ selection ++ (results ++ [r]), r'.matchupId ∈ r.matchupId :: p.seenMatchupIds := by
    intro r' hr'
    rw [← List.append_assoc, mem_append, mem_singleton] at hr'
    rcases hr' with hr' | rfl
    · exact mem_cons_of_mem _ (hp.ids r' hr')
    · exact mem_cons_self
  have hdraws : ∀ r' ∈ selection ++ (results ++ [r]), ∀ u ∈ units r', u ∈ units r ++ p.seenDraws := by
    intro r' hr' u hu
    rw [← List.append_assoc, mem_append, mem_singleton] at hr'
    rcases hr' with hr' | rfl
    · exact mem_append_right _ (hp.draws r' hr' u hu)
    · exact mem_append_left _ hu
  have hrecorded : ∀ d ∈ p.audit, decisive d = true →
      ∀ a, RecordedEligible (p.attempts ++ [a]) d := by
    intro d hd hdec a
    obtain ⟨a', ha', h⟩ := hp.recorded d hd hdec
    exact ⟨a', mem_append_left _ ha', h⟩
  have helig : eligibilityOf parentId promotedId
      { p with replicatesSpent := p.replicatesSpent + 1 } r 1 =
      eligibilityOf parentId promotedId p r 1 := rfl
  by_cases hadmit : eligibilityOf parentId promotedId p r 1 = .eligible ∨
      eligibilityOf parentId promotedId p r 1 = .tie
  · have hr := admissible_of_eligibility hadmit
    refine ⟨?_, ?_, ?_, hids, hdraws, ?_, ?_, ?_, ?_⟩
    · simp [Evidence.retain, hp.observed]
    · simp [Evidence.retain, hp.spent]
    · simp [Evidence.retain, hp.charged]
    · simp only [Evidence.retain, helig, hadmit, if_true]
      exact hp.sublist.append (Sublist.refl _)
    · simp only [Evidence.retain, helig, hadmit, if_true]
      intro d hd
      rcases mem_append.mp hd with hd | hd
      · exact hp.fresh d hd
      · rw [mem_singleton.mp hd]
        exact hr.fresh hp
    · simp only [Evidence.retain, helig, hadmit, if_true]
      refine pairwise_append.mpr ⟨hp.distinct, pairwise_singleton _ _, ?_⟩
      intro d hd d' hd'
      rw [mem_singleton.mp hd']
      exact hr.distinct hp d hd
    · simp only [Evidence.retain, helig, hadmit, if_true]
      intro d hd hdec
      rcases mem_append.mp hd with hd | hd
      · exact hrecorded d hd hdec _
      · obtain rfl := mem_singleton.mp hd
        exact ⟨_, mem_append_right _ (mem_singleton_self _), rfl, hr.eligible hdec, rfl⟩
  · refine ⟨?_, ?_, ?_, hids, hdraws, ?_, ?_, ?_, ?_⟩
    · simp [Evidence.retain, hp.observed]
    · simp [Evidence.retain, hp.spent]
    · simp [Evidence.retain, hp.charged]
    · simp only [Evidence.retain, helig, hadmit, if_false]
      exact hp.sublist.trans (sublist_append_left _ _)
    · simpa only [Evidence.retain, helig, hadmit, if_false] using hp.fresh
    · simpa only [Evidence.retain, helig, hadmit, if_false] using hp.distinct
    · simp only [Evidence.retain, helig, hadmit, if_false]
      exact fun d hd hdec => hrecorded d hd hdec _

/-! ## The verdict -/

/-- A decision that crowns a challenger. -/
def IsPromotion (d : SelectionDecision F) : Prop :=
  d.decision = .promoted ∧ d.promotedGenerationId.isSome = true

/-- What the callback has returned in its first `n` calls. -/
def replies (replicateDuel : Option (ReplicateDuel F)) (n : Nat) : List (MatchupResult F) :=
  match replicateDuel with
  | none => []
  | some duel => (List.range n).filterMap fun k => (duel k).toOption

/-- The verdict is satisfied on enough fresh and pairwise distinct duels. -/
structure SatisfiedOn (selection results : List (MatchupResult F)) (parentId promotedId : String)
    (verdict : EvidenceVerdict F) (duels : List (MatchupResult F)) : Prop where
  status : verdict.confirmationStatus = .satisfied
  enough : minCredibleDuels ≤ duels.length
  count : verdict.nDuels = duels.length
  returned : duels.Sublist results
  fresh : ∀ d ∈ duels, FreshDuel selection parentId promotedId d ∧ decisive d = true
  eligible : ∀ d ∈ duels, RecordedEligible verdict.attempts d
  distinct : duels.Pairwise Distinct

section Verdict
variable {inference : Inference F} {decision : SelectionDecision F}
  {preGate : EvidencePreGate F} {replicateDuel : Option (ReplicateDuel F)}
  {plannedCandidates : Nat}

/-- A satisfied verdict has its duels. -/
theorem evidenceVerdict_satisfied {audit : List (MatchupResult F)} {reason : String}
    {threshold : F} {budget spent planned : Nat}
    (h : (evidenceVerdict inference .promoted reason audit parentId promotedId threshold budget
      spent planned).confirmationStatus = .satisfied) :
    minCredibleDuels ≤ countPairDuels audit parentId promotedId ∧
      (evidenceVerdict inference .promoted reason audit parentId promotedId threshold budget
        spent planned).nDuels = countPairDuels audit parentId promotedId := by
  simp only [evidenceVerdict, ne_eq, not_true_eq_false, if_false] at h ⊢
  split at h
  · cases h
  · rename_i hcredible
    rw [not_or, not_lt] at hcredible
    refine ⟨hcredible.2, ?_⟩
    split
    · rfl
    · split <;> rfl

/-- A satisfied verdict rests on admitted duels of the pair. -/
theorem Admitted.satisfied (hp : Admitted selection results parentId promotedId p)
    (h : (verdictAt inference decision parentId promotedId preGate plannedCandidates
      p).confirmationStatus = .satisfied) :
    SatisfiedOn selection results parentId promotedId
      (verdictAt inference decision parentId promotedId preGate plannedCandidates p)
      (p.audit.filter (pairDuel parentId promotedId)) := by
  obtain ⟨henough, hcount⟩ := evidenceVerdict_satisfied h
  have hsub : (p.audit.filter (pairDuel parentId promotedId)).Sublist p.audit := filter_sublist
  have hdecisive : ∀ d ∈ p.audit.filter (pairDuel parentId promotedId),
      d ∈ p.audit ∧ decisive d = true := by
    intro d hd
    obtain ⟨hmem, hpair⟩ := mem_filter.mp hd
    exact ⟨hmem, (Bool.and_eq_true_iff.mp hpair).2⟩
  exact
    { status := h
      enough := henough
      count := hcount
      returned := hsub.trans hp.sublist
      fresh := fun d hd => ⟨hp.fresh d (hdecisive d hd).1, (hdecisive d hd).2⟩
      eligible := fun d hd => hp.recorded d (hdecisive d hd).1 (hdecisive d hd).2
      distinct := hp.distinct.sublist hsub }

/-- How the loop ends. -/
structure Concluded (decision : SelectionDecision F) (parentId promotedId : String)
    (budget : Nat) (replicateDuel : Option (ReplicateDuel F)) (c : Confirmation F) : Prop where
  calls : c.calls ≤ budget
  matchups : c.decision.matchups = decision.matchups ++ replies replicateDuel c.calls
  evidence : ∃ resolution, c.evidence = some resolution ∧
    (resolution.verdict.attempts.filter (·.budgetSpent = 1)).length = c.calls ∧
    (IsPromotion c.decision → c.decision.promotedGenerationId = some promotedId ∧
      ∃ duels, SatisfiedOn decision.matchups (replies replicateDuel c.calls) parentId promotedId
        resolution.verdict duels)

variable {verdict : EvidenceVerdict F}

theorem concluded_unconfirmed {calls : Nat} {budget : Nat}
    (hstatus : verdict.confirmationStatus ≠ .satisfied) (hcalls : calls ≤ budget)
    (hmatchups : p.observedMatchups = decision.matchups ++ replies replicateDuel calls)
    (hattempts : (verdict.attempts.filter (·.budgetSpent = 1)).length = calls) :
    Concluded decision parentId promotedId budget replicateDuel
      (finalize decision verdict p promotedId calls) := by
  unfold finalize
  rw [if_neg hstatus]
  refine ⟨hcalls, hmatchups, _, rfl, hattempts, fun hprom => ?_⟩
  exact absurd hprom.1 (by simp)

theorem Admitted.observed_replies (hp : Admitted decision.matchups results parentId promotedId p)
    (hreplies : results = replies replicateDuel results.length) :
    p.observedMatchups = decision.matchups ++ replies replicateDuel p.replicatesSpent := by
  rw [hp.observed, hp.spent, ← hreplies]

/-- The loop stops where the verdict is satisfied. -/
theorem concluded_satisfied {history : List (CiEntry F)}
    (hp : Admitted decision.matchups results parentId promotedId p)
    (hle : results.length ≤ preGate.replicateBudget)
    (hreplies : results = replies replicateDuel results.length)
    (hs : (verdictAt inference decision parentId promotedId preGate plannedCandidates
      p).confirmationStatus = .satisfied) :
    Concluded decision parentId promotedId preGate.replicateBudget replicateDuel
      (finalize decision
        (verdictAt inference decision parentId promotedId preGate plannedCandidates p)
        { p with ciHistory := history } promotedId p.replicatesSpent) := by
  unfold finalize
  rw [if_pos hs]
  refine ⟨hp.spent ▸ hle, hp.observed_replies hreplies, _, rfl, hp.charged.trans hp.spent.symm,
    fun _ => ⟨rfl, p.audit.filter (pairDuel parentId promotedId), ?_⟩⟩
  rw [hp.spent, ← hreplies]
  exact hp.satisfied hs

omit [PyFloat F] in
theorem replies_succ (duel : ReplicateDuel F) (n : Nat) :
    replies (some duel) (n + 1) = replies (some duel) n ++ (duel n).toOption.toList := by
  simp only [replies, range_succ, filterMap_append, filterMap_cons,
    filterMap_nil]
  cases (duel n).toOption <;> rfl

/-- The history of checks is not read. -/
theorem Admitted.logged (hp : Admitted selection results parentId promotedId p)
    (verdict : EvidenceVerdict F) :
    Admitted selection results parentId promotedId (Evidence.logged p verdict) :=
  ⟨hp.observed, hp.spent, hp.charged, hp.ids, hp.draws, hp.sublist, hp.fresh, hp.distinct,
    hp.recorded⟩

/-- The loop stops without a further call. -/
theorem concluded_stop (hp : Admitted decision.matchups results parentId promotedId p)
    (hle : results.length ≤ preGate.replicateBudget)
    (hreplies : results = replies replicateDuel results.length)
    (hs : verdict.confirmationStatus ≠ .satisfied) (hattempts : verdict.attempts = p.attempts)
    (cause : String) :
    Concluded decision parentId promotedId preGate.replicateBudget replicateDuel
      (unconfirmed decision promotedId (logged p verdict) verdict cause) := by
  refine concluded_unconfirmed hs (hp.spent ▸ hle) (hp.observed_replies hreplies) ?_
  change (verdict.attempts.filter _).length = p.replicatesSpent
  rw [hattempts, hp.charged, hp.spent]

/-- The failed call is charged, and adds no result. -/
theorem concluded_failed {duel : ReplicateDuel F} {exc : String}
    (hp : Admitted decision.matchups results parentId promotedId p)
    (hlt : results.length < preGate.replicateBudget)
    (hreplies : results = replies (some duel) results.length)
    (hs : verdict.confirmationStatus ≠ .satisfied) (hexc : duel p.replicatesSpent = .error exc) :
    Concluded decision parentId promotedId preGate.replicateBudget (some duel)
      (runnerFailed decision parentId promotedId (logged p verdict) verdict exc) := by
  refine concluded_unconfirmed hs ?_ ?_ ?_
  · change p.replicatesSpent + 1 ≤ _
    rw [hp.spent]
    exact hlt
  · change p.observedMatchups = _ ++ replies (some duel) (p.replicatesSpent + 1)
    rw [replies_succ, hexc, hp.observed_replies hreplies]
    simp [Except.toOption]
  · change ((p.attempts ++ [_]).filter _).length = p.replicatesSpent + 1
    rw [filter_append, length_append, hp.charged, hp.spent]
    rfl

/-- **The loop concludes**, after at most `left` further calls. -/
theorem confirmLoop_concluded (left : Nat)
    (hp : Admitted decision.matchups results parentId promotedId p)
    (hleft : results.length + left = preGate.replicateBudget)
    (hreplies : results = replies replicateDuel results.length) :
    Concluded decision parentId promotedId preGate.replicateBudget replicateDuel
      (confirmLoop inference decision parentId promotedId preGate replicateDuel plannedCandidates
        left p) := by
  induction left generalizing results p with
  | zero =>
    unfold confirmLoop
    simp only
    split
    · rename_i hs
      exact concluded_satisfied hp (by omega) hreplies hs
    · rename_i hs
      cases replicateDuel with
      | none => exact concluded_stop hp (by omega) hreplies hs rfl _
      | some duel => exact concluded_stop hp (by omega) hreplies hs rfl _
  | succ left ih =>
    unfold confirmLoop
    simp only
    split
    · rename_i hs
      exact concluded_satisfied hp (by omega) hreplies hs
    · rename_i hs
      cases replicateDuel with
      | none => exact concluded_stop hp (by omega) hreplies hs rfl _
      | some duel =>
        simp only
        split
        · rename_i exc hexc
          exact concluded_failed hp (by omega) hreplies hs hexc
        · rename_i extra hextra
          have hnext := (hp.logged (verdictAt inference decision parentId promotedId preGate
            plannedCandidates p)).retain extra
          refine ih hnext ?_ ?_
          · rw [length_append, length_singleton]
            omega
          · have hreply : duel results.length = .ok extra := hp.spent ▸ hextra
            rw [length_append, length_singleton, replies_succ, ← hreplies, hreply]
            rfl

end Verdict

/-- **A promotion is confirmed on fresh evidence or not at all.**  Whatever the
callback does, the confirmation makes at most `replicate_budget` calls; it
returns a decision that is no promotion unchanged; it keeps a promotion only if
the verdict is satisfied on at least three eligible duels of the crowning pair,
pairwise distinct and sharing nothing with the selection; and it returns the
original matchups followed by the results of its calls, each of which is on
record with one unit of the budget. -/
theorem confirm_promotion_fresh (inference : Inference F) (decision : SelectionDecision F)
    (champion : Contestant) (preGate : EvidencePreGate F)
    (replicateDuel : Option (ReplicateDuel F)) (plannedCandidates : Nat) :
    let c := confirmPromotionWithEvidence inference decision champion preGate replicateDuel
      plannedCandidates
    c.calls ≤ preGate.replicateBudget ∧
    (¬ IsPromotion decision → c.decision = decision ∧ c.calls = 0) ∧
    (IsPromotion c.decision → ∃ promotedId resolution duels,
      decision.promotedGenerationId = some promotedId ∧
      c.decision.promotedGenerationId = some promotedId ∧ c.evidence = some resolution ∧
      SatisfiedOn decision.matchups (replies replicateDuel c.calls) champion.generationId promotedId
        resolution.verdict duels) ∧
    (IsPromotion decision →
      c.decision.matchups = decision.matchups ++ replies replicateDuel c.calls ∧
      ∃ resolution, c.evidence = some resolution ∧
        (resolution.verdict.attempts.filter (·.budgetSpent = 1)).length = c.calls) := by
  intro c
  by_cases hprom : IsPromotion decision
  · obtain ⟨promotedId, hid⟩ := Option.isSome_iff_exists.mp hprom.2
    have hc : Concluded decision champion.generationId promotedId preGate.replicateBudget
        replicateDuel c := by
      simp only [c, confirmPromotionWithEvidence, hprom.1, hid]
      refine confirmLoop_concluded preGate.replicateBudget
        (admitted_selection decision.matchups champion.generationId promotedId)
        (Nat.zero_add _) ?_
      cases replicateDuel <;> rfl
    obtain ⟨resolution, hres, hcharged, hconfirmed⟩ := hc.evidence
    refine ⟨hc.calls, fun hnot => absurd hprom hnot, fun hcprom => ?_,
      fun _ => ⟨hc.matchups, resolution, hres, hcharged⟩⟩
    obtain ⟨hcid, duels, hduels⟩ := hconfirmed hcprom
    exact ⟨promotedId, resolution, duels, hid, hcid, hres, hduels⟩
  · have hc : c = { decision := decision, evidence := none, calls := 0 } := by
      simp only [c, confirmPromotionWithEvidence]
      split
      · rename_i hdec hid
        exact absurd ⟨hdec, by rw [hid]; rfl⟩ hprom
      · rfl
    rw [hc]
    exact ⟨Nat.zero_le _, fun _ => ⟨rfl, rfl⟩, fun h => absurd h hprom, fun h => absurd h hprom⟩

/-! ### Three wins of the challenger -/

/-- A fit that separates the two sides at once. -/
def strongFit : Inference Exact where
  ratingCi _ gid := some { generationId := gid, theta := .fin 0, se := .fin 0, ciLo := .fin 0,
                           ciHi := .fin 0 }
  strengthDifference _ _ _ _ n := { mean := .fin 1, se := .fin 0, ciLo := .fin 1, ciHi := .fin 1,
                                    confidenceLevel := .fin 1, comparisonCount := n }
  pStronger _ := .fin 1
  fixed _ _ := ""
  percent _ _ := ""

/-- The callback of `make_evidence_replicate_duel`, when the challenger always wins. -/
def challengerWins : ReplicateDuel Exact := fun k =>
  .ok
    { matchupId := s!"confirmation:r{k}:v0:v1"
      leftId := "v0"
      rightId := "v1"
      leftAgg := { scalar := some (.fin 1) }
      rightAgg := { scalar := some (.fin 0) }
      outcome :=
        { decision := .promoted, reason := "", deltaScalar := .fin (-1), deltaPassRate := .fin 0 }
      measurementDraw := some { purpose := .confirmation, draw := k } }

example :
    let c := confirmPromotionWithEvidence strongFit
      { promotedGenerationId := some "v1", decision := .promoted, reason := "" }
      { generationId := "v0", role := .champion } { threshold := .fin (1 / 2), replicateBudget := 4 }
      (some challengerWins) 1
    c.decision.decision = .promoted ∧ c.calls = 3 := by
  decide +kernel

end Zicato.Evidence
