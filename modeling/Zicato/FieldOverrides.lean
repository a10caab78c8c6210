import Zicato.Confirmation
import Zicato.FieldVerdict
import Zicato.PromotionHook
import Zicato.Structures

/-! # Operator overrides

What `_apply_field_overrides` makes of a decision and the claimed overrides: the
promoted set, its head and the decision that names it.  The text of an operator's
reject replaces the reason of a crown that nobody holds, and with it the deferral. -/
open List Option
namespace Zicato.Field

variable {F : Type} [PyArith F]

/-- The override forces `gid` to `verdict`. -/
def Forces (overrides : Overrides) (gid : String) (verdict : Forced) : Prop :=
  (overrides.get? gid).map (·.decision) = some verdict

/-- `gid` is promoted in the end. -/
def Stands (promotedId : Option String) (overrides : Overrides) (gid : String) : Prop :=
  (promotedId = some gid ∨ Forces overrides gid .promoted) ∧ ¬ Forces overrides gid .rejected

/-! ## Decisions of the structures -/

section
omit [PyArith F]
/-- A decision promotes whom it names. -/
def Consistent (decision : SelectionDecision F) : Prop :=
  decision.decision = .promoted ↔ decision.promotedGenerationId.isSome = true

theorem consistent_championGate (finalMatchId reason : String) (finalist : Option Contestant)
    (standings : Option String → List (Standing F)) (g : ChampionGate F) :
    Consistent (g.decision finalMatchId reason finalist standings) := by
  unfold ChampionGate.decision Consistent
  split
  · by_cases h : ‹MatchupResult F›.outcome.decision = .promoted
    · simp [h]
    · simp [h]
  · simp

end

/-- Every structure decides consistently, in whatever state it is asked. -/
theorem consistent_champion (fits : StandingsExt F) (rext : RacingExt F)
    (st : TournamentStructure F) (s : (makeStrategy fits rext st).State) :
    Consistent ((makeStrategy fits rext st).champion s) := by
  cases st with
  | gauntlet replicates =>
    change Consistent (Gauntlet.decision s)
    unfold Gauntlet.decision Consistent
    split
    · simp
    · by_cases h : ‹MatchupResult F›.outcome.decision = .promoted
      · simp [h]
      · simp [h]
  | field st =>
    cases st with
    | singleElim params | doubleElim params
    | swiss params | racing params => exact consistent_championGate _ _ _ _ _

section
omit [PyArith F]
/-- `after` is consistent if `before` is, and names nobody else. -/
def Withholds (before after : SelectionDecision F) : Prop :=
  (Consistent before → Consistent after) ∧
    ∀ gid, after.promotedGenerationId = some gid → before.promotedGenerationId = some gid

theorem withholds_finalize [PyFloat F] {decision : SelectionDecision F} {promotedId : String}
    (h : decision.promotedGenerationId = some promotedId) (verdict : Evidence.EvidenceVerdict F)
    (p : Evidence.Progress F) (calls : Nat) :
    Withholds decision (Evidence.finalize decision verdict p promotedId calls).decision := by
  unfold Evidence.finalize Withholds Consistent
  split <;> simp [h]

/-- The evidence loop keeps a decision consistent. -/
theorem consistent_confirm [PyFloat F] (inference : Evidence.Inference F)
    (decision : SelectionDecision F) (champion : Contestant)
    (preGate : Evidence.EvidencePreGate F) (replicateDuel : Option (Evidence.ReplicateDuel F))
    (plannedCandidates : Nat) :
    Withholds decision (Evidence.confirmPromotionWithEvidence inference decision champion preGate
      replicateDuel plannedCandidates).decision := by
  unfold Evidence.confirmPromotionWithEvidence
  split
  · rename_i promotedId hdecision hpromoted
    generalize (decision.matchups.foldl (Evidence.retain champion.generationId promotedId 0) {}) = p
    induction preGate.replicateBudget generalizing p with
    | zero =>
      unfold Evidence.confirmLoop
      simp only
      split
      · exact withholds_finalize hpromoted _ _ _
      · cases replicateDuel <;> exact withholds_finalize hpromoted _ _ _
    | succ left ih =>
      unfold Evidence.confirmLoop
      simp only
      split
      · exact withholds_finalize hpromoted _ _ _
      · cases replicateDuel with
        | none => exact withholds_finalize hpromoted _ _ _
        | some duel =>
          simp only
          split
          · exact withholds_finalize hpromoted _ _ _
          · exact ih _
  · exact ⟨id, fun _ => id⟩

end

/-! ## The promoted set -/

variable {overrides : Overrides} {members : List String} {gid : String}

theorem mem_applyOverride_self (ov : GateOverride) :
    gid ∈ applyOverride members (gid, ov) ↔ ov.decision = .promoted := by
  cases h : ov.decision with
  | promoted =>
    simp only [applyOverride, h, add]
    split <;> simp_all
  | rejected => simp [applyOverride, h, discard]

theorem mem_applyOverride_other {key : String} (hkey : key ≠ gid) (ov : GateOverride) :
    gid ∈ applyOverride members (key, ov) ↔ gid ∈ members := by
  cases h : ov.decision with
  | promoted =>
    simp only [applyOverride, h, add]
    split
    · rfl
    · simp [Ne.symm hkey]
  | rejected => simp [applyOverride, h, discard, Ne.symm hkey]

/-- Whom the overrides add, an override promotes. -/
theorem forced_of_mem (h : gid ∈ overrides.foldl applyOverride members) (hout : gid ∉ members) :
    ∃ ov, (gid, ov) ∈ overrides ∧ ov.decision = .promoted := by
  induction overrides generalizing members with
  | nil => exact absurd h hout
  | cons entry rest ih =>
    obtain ⟨key, ov⟩ := entry
    by_cases hin : gid ∈ applyOverride members (key, ov)
    · by_cases hkey : key = gid
      · subst hkey
        exact ⟨ov, mem_cons_self, (mem_applyOverride_self ov).mp hin⟩
      · exact absurd ((mem_applyOverride_other hkey ov).mp hin) hout
    · obtain ⟨ov', hmem, hov⟩ := ih h hin
      exact ⟨ov', mem_cons_of_mem _ hmem, hov⟩

/-- The last word on a generation is its override. -/
theorem mem_foldl_applyOverride (hnodup : overrides.keys.Nodup) :
    gid ∈ overrides.foldl applyOverride members ↔
      match overrides.get? gid with
      | some ov => ov.decision = .promoted
      | none => gid ∈ members := by
  induction overrides generalizing members with
  | nil => rfl
  | cons entry rest ih =>
    obtain ⟨key, ov⟩ := entry
    obtain ⟨hkey, hrest⟩ := nodup_cons.mp hnodup
    rw [foldl_cons, ih hrest, Dict.get?]
    by_cases h : key = gid
    · subst h
      rw [if_pos rfl, (Dict.get?_eq_none_iff rest key).mpr hkey]
      exact mem_applyOverride_self ov
    · rw [if_neg h]
      cases Dict.get? rest gid with
      | none => exact mem_applyOverride_other h ov
      | some ov' => rfl

theorem mem_promotedSet {promotedId : Option String} (hnodup : overrides.keys.Nodup) :
    gid ∈ promotedSet promotedId overrides ↔ Stands promotedId overrides gid := by
  rw [promotedSet, mem_foldl_applyOverride hnodup, Stands, Forces, Forces]
  cases h : overrides.get? gid with
  | none => simp
  | some ov => cases hd : ov.decision <;> simp [hd]

/-- Without the entries of `gid` the loop makes the same of the others. -/
theorem filter_foldl_applyOverride (gid : String) :
    (overrides.foldl applyOverride members).filter (· ≠ gid) =
      (overrides.filter (·.1 ≠ gid)).foldl applyOverride (members.filter (· ≠ gid)) := by
  induction overrides generalizing members with
  | nil => rfl
  | cons entry rest ih =>
    obtain ⟨key, ov⟩ := entry
    rw [foldl_cons, ih]
    by_cases h : key = gid
    · subst h
      rw [filter_cons_of_neg (by simp)]
      congr 1
      cases hd : ov.decision with
      | promoted =>
        simp only [applyOverride, hd, add]
        split
        · rfl
        · simp
      | rejected => simp [applyOverride, hd, discard]
    · rw [filter_cons_of_pos (by simpa using h), foldl_cons]
      congr 1
      cases hd : ov.decision with
      | promoted =>
        have hmem : key ∈ members.filter (· ≠ gid) ↔ key ∈ members := by simp [h]
        simp only [applyOverride, hd, add, hmem]
        split
        · rfl
        · simp [h]
      | rejected => simp only [applyOverride, hd, discard, List.filter_filter, Bool.and_comm]

/-- A reject of a generation outside the promoted set leaves the set as it is. -/
theorem promotedSet_reject {promotedId : Option String} {overrides' : Overrides}
    (hothers : overrides'.filter (·.1 ≠ gid) = overrides.filter (·.1 ≠ gid))
    (hout : gid ∉ promotedSet promotedId overrides)
    (hout' : gid ∉ promotedSet promotedId overrides') :
    promotedSet promotedId overrides' = promotedSet promotedId overrides := by
  have hself : ∀ {l : List String}, gid ∉ l → l.filter (· ≠ gid) = l := by
    intro l hl
    refine filter_eq_self.mpr fun a ha => decide_eq_true ?_
    rintro rfl
    exact hl ha
  rw [← hself hout, ← hself hout', promotedSet, promotedSet, filter_foldl_applyOverride,
    filter_foldl_applyOverride, hothers]

/-! ## The primary head -/

variable {order : List String → List String} {matchups : List (MatchupResult F)}
  {promotedId : Option String}

variable {key : String → F × String}

/-- The least of a list is one of it. -/
theorem minByKey_mem {l : List String} (h : minByKey key l = some gid) : gid ∈ l := by
  cases l with
  | nil => cases h
  | cons first rest =>
    obtain rfl := some.inj h
    -- the fold keeps a member of the list it has seen
    suffices hmem : ∀ (seen rest : List String) (best : String), best ∈ seen →
        rest.foldl (fun best gid => if keyLt (key gid) (key best) then gid else best) best ∈
          seen ++ rest by
      simpa using hmem [first] rest first (by simp)
    intro seen rest
    induction rest generalizing seen with
    | nil => intro best hbest; simpa using hbest
    | cons x rest ih =>
      intro best hbest
      rw [foldl_cons, append_cons]
      refine ih (seen ++ [x]) _ ?_
      split
      · simp
      · exact mem_append_left _ hbest

theorem minByKey_eq_none {l : List String} : minByKey key l = none ↔ l = [] := by
  cases l <;> simp [minByKey]

/-- The rule for the head, which without overrides keeps the leader. -/
theorem primaryHead_eq (horder : ∀ l, (order l).Perm l) (overrides : Overrides) :
    primaryHead order matchups promotedId overrides =
      match promotedId.filter (· ∈ promotedSet promotedId overrides) with
      | some leader => some leader
      | none => minByKey (fun gid => (firstScalar gid matchups, gid))
          (order (promotedSet promotedId overrides)) := by
  unfold primaryHead
  split
  · rename_i hempty
    obtain rfl := List.isEmpty_iff.mp hempty
    cases promotedId with
    | none =>
      have hnil : order [] = [] := perm_nil.mp (horder [])
      simp [promotedSet, hnil, minByKey]
    | some leader =>
      have hkept : (some leader).filter (· ∈ promotedSet (some leader) []) = some leader := by
        simp [promotedSet, Option.filter]
      rw [hkept]
  · rfl

theorem primaryHead_mem (horder : ∀ l, (order l).Perm l)
    (h : primaryHead order matchups promotedId overrides = some gid) :
    gid ∈ promotedSet promotedId overrides := by
  rw [primaryHead_eq horder] at h
  split at h
  · rename_i leader hleader
    obtain rfl := some.inj h
    simpa using (filter_eq_some_iff.mp hleader).2
  · exact (horder _).mem_iff.mp (minByKey_mem h)

/-- No head, if and only if nobody is promoted. -/
theorem primaryHead_eq_none (horder : ∀ l, (order l).Perm l) :
    primaryHead order matchups promotedId overrides = none ↔
      promotedSet promotedId overrides = [] := by
  constructor
  · intro h
    rw [primaryHead_eq horder] at h
    split at h
    · cases h
    · exact perm_nil.mp (minByKey_eq_none.mp h ▸ (horder _).symm)
  · intro h
    cases hhead : primaryHead order matchups promotedId overrides with
    | none => rfl
    | some gid =>
      have := primaryHead_mem horder hhead
      rw [h] at this
      cases this

/-! ## The effective decision -/

/-- `str(decision)`. -/
def asStr : TournamentDecision → String
  | .promoted => "promoted"
  | .rejected => "rejected"
  | .deferred => "deferred"

/-- What a round hands over with the decision of its structure: the crown after
confirmation and integrity check, and what was said against it. -/
structure Crown (F : Type) (challengers : List String) where
  decision : SelectionDecision F
  promotedId : Option String
  crowningReason : Option String
  crowningDecision : Option TournamentDecision
  /-- A structure promotes whom it names. -/
  consistent : Consistent decision
  /-- The reason of a structure is not an operator's. -/
  ownReason : ∀ reason, decision.reason ≠ overrideNote reason
  challenger : ∀ gid, promotedId = some gid → gid ∈ challengers
  /-- The confirmation overrides a decision only to take the crown away. -/
  unseated : crowningDecision ≠ some .promoted

namespace Crown
variable {challengers : List String} (c : Crown F challengers)

/-- Before any override the crown is deferred: by the structure, or by the
confirmation of its promotion. -/
def Deferred : Prop :=
  if c.decision.promotedGenerationId = none ∧
      c.crowningReason.getD c.decision.reason = c.decision.reason then
    c.decision.decision = .deferred
  else c.crowningDecision = some .deferred

/-- The overrides applied to a crowning. -/
def resolve (order : List String → List String) (now : String) (overrides : Overrides) :
    Resolution F :=
  applyFieldOverrides order now c.decision c.promotedId c.crowningReason c.crowningDecision
    overrides

end Crown

/-- The confirmation takes a crown or leaves it. -/
theorem confirmCrowning_cases (confirmFn : ConfirmFn F) (parentId : String)
    (decision : SelectionDecision F) :
    (confirmCrowningOnHoldout confirmFn parentId decision).decisionOverride ≠ some .promoted ∧
      ∀ gid, (confirmCrowningOnHoldout confirmFn parentId decision).promotedId = some gid →
        decision.promotedGenerationId = some gid := by
  unfold confirmCrowningOnHoldout
  split
  · exact ⟨by simp, fun gid h => h⟩
  · split
    · exact ⟨by simp, fun gid h => h⟩
    · split
      simp only
      split
      · exact ⟨by simp, fun gid h => h⟩
      · rename_i championAgg challengerAgg _ _
        by_cases hkept : (confirmFn ‹MatchupResult F›.outcome championAgg
            challengerAgg).outcome.decision = .promoted
        · simp [hkept]
        · simp [hkept]

/-- The crown that `resolve_field_verdict` hands over. -/
def crownOf (checks : Checks F) (parentId : String) {challengers : List String}
    (decision : SelectionDecision F) (consistent : Consistent decision)
    (ownReason : ∀ reason, decision.reason ≠ overrideNote reason)
    (challenger : ∀ gid, decision.promotedGenerationId = some gid → gid ∈ challengers) :
    Crown F challengers where
  decision := decision
  promotedId := (crowned checks (confirmCrowningOnHoldout checks.confirmFn parentId decision)).1
  crowningReason := (crowned checks (confirmCrowningOnHoldout checks.confirmFn parentId decision)).2
  crowningDecision := (confirmCrowningOnHoldout checks.confirmFn parentId decision).decisionOverride
  consistent := consistent
  ownReason := ownReason
  challenger := by
    intro gid h
    refine challenger gid ((confirmCrowning_cases checks.confirmFn parentId decision).2 gid ?_)
    unfold crowned at h
    split at h
    · cases h
    · rename_i leader hleader
      split at h
      · exact hleader.trans h
      · cases h
  unseated := (confirmCrowning_cases checks.confirmFn parentId decision).1

/-- What the verdict says the round resolved to. -/
def FieldVerdict.resolution (v : FieldVerdict F) : Resolution F :=
  ⟨v.promotedId, v.promotedIds, v.overrideProvenance, v.effectiveDecision⟩

/-- The verdict of a round is the resolution of its crown. -/
theorem resolveFieldVerdict_eq (checks : Checks F) (parentId : String) {challengers : List String}
    (decision : SelectionDecision F) (consistent : Consistent decision)
    (ownReason : ∀ reason, decision.reason ≠ overrideNote reason)
    (challenger : ∀ gid, decision.promotedGenerationId = some gid → gid ∈ challengers)
    (overrides : Overrides) :
    (resolveFieldVerdict checks parentId decision overrides).resolution =
      (crownOf checks parentId decision consistent ownReason challenger).resolve checks.order
        checks.now overrides := rfl

omit [PyArith F] in
theorem effectiveDecision_promotedGenerationId (decision : SelectionDecision F)
    (head overrideReason crowningReason : Option String)
    (crowningDecision : Option TournamentDecision) :
    (effectiveDecision decision head overrideReason crowningReason
      crowningDecision).promotedGenerationId = head := by
  simp only [effectiveDecision]
  split
  · rfl
  · rename_i hsame
    exact (not_not.mp (not_or.mp hsame).1).symm

omit [PyArith F] in
/-- The effective decision promotes exactly when it names someone. -/
theorem consistent_effectiveDecision {decision : SelectionDecision F} (h : Consistent decision)
    {crowningDecision : Option TournamentDecision} (hunseated : crowningDecision ≠ some .promoted)
    (head overrideReason crowningReason : Option String) :
    Consistent (effectiveDecision decision head overrideReason crowningReason crowningDecision) := by
  simp only [effectiveDecision]
  split
  · cases head with
    | some gid => simp [Consistent]
    | none =>
      cases crowningDecision with
      | none => simp [Consistent]
      | some verdict => cases verdict <;> grind [Consistent]
  · exact h

theorem crowned_eq {checks : Checks F} {parentId : String} {decision : SelectionDecision F}
    (h : (crowned checks (confirmCrowningOnHoldout checks.confirmFn parentId decision)).1 =
      some gid) : decision.promotedGenerationId = some gid := by
  refine (confirmCrowning_cases checks.confirmFn parentId decision).2 gid ?_
  unfold crowned at h
  split at h
  · cases h
  · rename_i leader hleader
    split at h
    · exact hleader.trans h
    · cases h

section Round
variable (inference : Evidence.Inference F) (champion : Contestant)
  (preGate : Option (Evidence.EvidencePreGate F)) (replicateDuel : Option (Evidence.ReplicateDuel F))
  (plannedCandidates : Nat) (checks : Checks F) (parentId : String) (overrides : Overrides)

/-- From the decision of the structure to the verdict: the evidence, where it is asked for,
the holdout, the integrity check and the operators. -/
def roundVerdict (decision : SelectionDecision F) : FieldVerdict F :=
  resolveFieldVerdict checks parentId
    (match preGate with
    | none => decision
    | some preGate => (Evidence.confirmPromotionWithEvidence inference decision champion preGate
        replicateDuel plannedCandidates).decision) overrides

theorem roundVerdict_spec (decision : SelectionDecision F) :
    let verdict := roundVerdict inference champion preGate replicateDuel plannedCandidates checks
      parentId overrides decision
    (Consistent decision → Consistent verdict.effectiveDecision) ∧
      ∀ gid ∈ verdict.promotedIds, decision.promotedGenerationId = some gid ∨
        ∃ ov, (gid, ov) ∈ overrides ∧ ov.decision = .promoted := by
  intro verdict
  obtain ⟨confirmed, hverdict, hconfirmed⟩ : ∃ confirmed,
      verdict = resolveFieldVerdict checks parentId confirmed overrides ∧
        Withholds decision confirmed := by
    cases preGate with
    | none => exact ⟨_, rfl, id, fun _ => id⟩
    | some preGate => exact ⟨_, rfl, consistent_confirm inference _ _ _ _ _⟩
  rw [hverdict]
  refine ⟨fun h => consistent_effectiveDecision (hconfirmed.1 h) (confirmCrowning_cases _ _ _).1
    _ _ _, fun gid hgid => ?_⟩
  by_cases hcrown : gid ∈ (crowned checks
      (confirmCrowningOnHoldout checks.confirmFn parentId confirmed)).1.toList
  · exact .inl (hconfirmed.2 gid (crowned_eq (mem_toList.mp hcrown)))
  · exact .inr (forced_of_mem hgid hcrown)

/-- The decision of a round promotes whom it names, and whoever is promoted was named by the
structure or forced by an operator. -/
theorem round_promotes_named (fits : StandingsExt F) (rext : RacingExt F)
    (st : TournamentStructure F) (s : (makeStrategy fits rext st).State) :
    let decision := (makeStrategy fits rext st).champion s
    let verdict := roundVerdict inference champion preGate replicateDuel plannedCandidates checks
      parentId overrides decision
    Consistent verdict.effectiveDecision ∧
      verdict.effectiveDecision.promotedGenerationId = verdict.promotedId ∧
      ∀ gid ∈ verdict.promotedIds, decision.promotedGenerationId = some gid ∨
        ∃ ov, (gid, ov) ∈ overrides ∧ ov.decision = .promoted := by
  intro decision verdict
  obtain ⟨hconsistent, hnamed⟩ := roundVerdict_spec inference champion preGate replicateDuel
    plannedCandidates checks parentId overrides decision
  exact ⟨hconsistent (consistent_champion fits rext st s),
    effectiveDecision_promotedGenerationId _ _ _ _ _, hnamed⟩

/-- Without an operator only the challenger that won the crowning duel is promoted. -/
theorem promoted_won_crowning_duel {finalMatchId : String} {challengers : List Contestant}
    {played : List (Duel F)} {decision : SelectionDecision F} {d : Duel F}
    (h : ChampionGate.Crowned finalMatchId champion challengers played decision d) :
    ∀ gid ∈ (roundVerdict inference champion preGate replicateDuel plannedCandidates checks
      parentId overrides decision).promotedIds,
      d.2.outcome.decision = .promoted ∧ gid = d.1.right.generationId ∨
        ∃ ov, (gid, ov) ∈ overrides ∧ ov.decision = .promoted := by
  intro gid hgid
  exact ((roundVerdict_spec _ _ _ _ _ _ _ _ _).2 gid hgid).imp_left (h.promoted gid).mp

theorem promoted_won_crowning_duel_bracket : ∃ played decision d,
    ChampionGate.Crowned SingleElim.finalMatchId incumbent [generation "v1"] played decision d ∧
      ∀ gid ∈ (roundVerdict Evidence.strongFit incumbent none none 1
        ⟨fun outcome _ _ => ⟨outcome, none, none⟩, fun _ _ => none, id, ""⟩ "v0" []
        decision).promotedIds,
        d.2.outcome.decision = .promoted ∧ gid = d.1.right.generationId ∨
          ∃ ov, (gid, ov) ∈ ([] : Overrides) ∧ ov.decision = .promoted := by
  obtain ⟨played, s, hstop, -⟩ := SingleElim.ends noRatings {} incumbent [generation "v1"]
    fun _ _ => { tiedBody with outcome := { tiedBody.outcome with decision := .promoted } }
  obtain ⟨d, hd⟩ := SingleElim.crowned noRatings {} (by simp) hstop
  exact ⟨played, _, d, hd, promoted_won_crowning_duel _ _ _ _ _ _ _ _ hd⟩

end Round

section Verdict
variable {challengers : List String} (c : Crown F challengers) {now : String}

section
omit [PyArith F]
/-- A head is named as promoted. -/
theorem Crown.decision_of_head (overrideReason : Option String) :
    (effectiveDecision c.decision (some gid) overrideReason c.crowningReason
      c.crowningDecision).decision = .promoted := by
  simp only [effectiveDecision]
  split
  · rfl
  · rename_i hsame
    have hnamed : some gid = c.decision.promotedGenerationId := not_not.mp (not_or.mp hsame).1
    exact c.consistent.mpr (by rw [← hnamed]; rfl)

/-- An operator's reject on a crown that nobody holds reads as a rejection. -/
theorem Crown.decision_of_note (reason : String) :
    (effectiveDecision c.decision none (some (overrideNote reason)) c.crowningReason
      c.crowningDecision).decision = .rejected := by
  simp only [effectiveDecision]
  have hdiffers : none ≠ c.decision.promotedGenerationId ∨
      decisionReason c.decision.reason (some (overrideNote reason)) c.crowningReason ≠
        c.decision.reason := .inr (c.ownReason reason).symm
  rw [if_pos hdiffers]
  rfl

/-- Without one it is deferred if the crown was. -/
theorem Crown.decision_of_crown :
    (effectiveDecision c.decision none none c.crowningReason c.crowningDecision).decision =
      .deferred ∧ c.Deferred ∨
    (effectiveDecision c.decision none none c.crowningReason c.crowningDecision).decision =
      .rejected ∧ ¬ c.Deferred := by
  simp only [effectiveDecision, Crown.Deferred]
  by_cases hsame : c.decision.promotedGenerationId = none ∧
      c.crowningReason.getD c.decision.reason = c.decision.reason
  · have hnone := hsame.1
    rw [if_neg (by rw [hnone, decisionReason, hsame.2]; simp), if_pos hsame]
    cases hd : c.decision.decision with
    | promoted =>
      have := c.consistent.mp hd
      rw [hnone] at this
      cases this
    | rejected => exact .inr ⟨rfl, by simp⟩
    | deferred => exact .inl ⟨rfl, rfl⟩
  · have hdiffers : none ≠ c.decision.promotedGenerationId ∨
        decisionReason c.decision.reason none c.crowningReason ≠ c.decision.reason := by
      by_cases hnone : c.decision.promotedGenerationId = none
      · exact .inr fun hreason => hsame ⟨hnone, hreason⟩
      · exact .inl fun h => hnone h.symm
    rw [if_pos hdiffers, if_neg hsame]
    cases hd : c.crowningDecision with
    | none => exact .inr ⟨rfl, by simp⟩
    | some verdict =>
      cases verdict with
      | promoted => exact absurd hd c.unseated
      | rejected => exact .inr ⟨rfl, by simp⟩
      | deferred => exact .inl ⟨rfl, rfl⟩

end

/-- The overrides claimed for the challengers of a round. -/
structure Claimed (challengers : List String) (overrides : Overrides) : Prop where
  nodup : overrides.keys.Nodup
  challenger : ∀ gid ∈ overrides.keys, gid ∈ challengers

/-- The promoted set, its head and the decision belong together. -/
structure Resolves (overrides : Overrides) (r : Resolution F) : Prop where
  set : ∀ gid, gid ∈ r.promotedIds ↔ Stands c.promotedId overrides gid
  head_mem : ∀ gid, r.promotedId = some gid → gid ∈ r.promotedIds
  head_none : r.promotedId = none ↔ r.promotedIds = []
  promoted : r.effectiveDecision.decision = .promoted ↔ r.promotedId.isSome = true
  named : r.effectiveDecision.promotedGenerationId = r.promotedId
  agrees : ∀ {O : Type} (rt : Receipt.ReceiptCodec F O) (s : Receipt.FieldSettlement F),
    s.decision = asStr r.effectiveDecision.decision →
    s.promotedGenerationId = r.effectiveDecision.promotedGenerationId →
    s.primaryPromotedGenerationId = r.promotedId → s.challengers = challengers →
    Receipt.assertCrowningAgrees rt s = .ok ()

/-- Two resolutions with the same promoted set, head and kind of verdict. -/
def SameVerdict (r r' : Resolution F) : Prop :=
  (∀ gid, gid ∈ r'.promotedIds ↔ gid ∈ r.promotedIds) ∧ r'.promotedId = r.promotedId ∧
    r'.effectiveDecision.decision = r.effectiveDecision.decision

theorem asStr_promoted {verdict : TournamentDecision} :
    (asStr verdict == "promoted") = decide (verdict = .promoted) := by
  cases verdict <;> decide

omit [PyArith F] in
variable {c} in
/-- The effective decision promotes exactly when there is a head. -/
theorem Crown.promoted_iff (overrideReason : Option String) (head : Option String)
    (hreject : head = none → ∀ note, overrideReason = some note → ∃ r, note = overrideNote r) :
    (effectiveDecision c.decision head overrideReason c.crowningReason
      c.crowningDecision).decision = .promoted ↔ head.isSome = true := by
  cases head with
  | some gid => simp [c.decision_of_head]
  | none =>
    cases overrideReason with
    | some note =>
      obtain ⟨r, rfl⟩ := hreject rfl note rfl
      simp [c.decision_of_note]
    | none =>
      rcases c.decision_of_crown with ⟨h, -⟩ | ⟨h, -⟩
      · simp [h]
      · simp [h]

theorem overrideDecisionReason_none (overrides : Overrides) (note : String)
    (h : overrideDecisionReason overrides none = some note) : ∃ r, note = overrideNote r := by
  obtain ⟨rejection, -, rfl⟩ := map_eq_some_iff.mp h
  exact ⟨_, rfl⟩

/-- **Overrides resolve to one consistent verdict.** -/
theorem Crown.resolves (hids : "" ∉ challengers) (horder : ∀ l, (order l).Perm l)
    (ho : Claimed challengers overrides) :
    Resolves c overrides (c.resolve order now overrides) := by
  have hset : ∀ gid, gid ∈ promotedSet c.promotedId overrides ↔ Stands c.promotedId overrides gid :=
    fun gid => mem_promotedSet ho.nodup
  have hmem : ∀ gid, (c.resolve order now overrides).promotedId = some gid →
      gid ∈ promotedSet c.promotedId overrides := fun gid => primaryHead_mem horder
  have hpromoted : (c.resolve order now overrides).effectiveDecision.decision = .promoted ↔
      (c.resolve order now overrides).promotedId.isSome = true := by
    refine Crown.promoted_iff _ _ fun hnone note hnote => ?_
    rw [hnone] at hnote
    exact overrideDecisionReason_none overrides note hnote
  have hnamed : (c.resolve order now overrides).effectiveDecision.promotedGenerationId =
      (c.resolve order now overrides).promotedId :=
    effectiveDecision_promotedGenerationId _ _ _ _ _
  have hchallenger : ∀ gid, (c.resolve order now overrides).promotedId = some gid →
      gid ∈ challengers := by
    intro gid hgid
    rcases ((hset gid).mp (hmem gid hgid)).1 with hleader | hforced
    · exact c.challenger gid hleader
    · obtain ⟨ov, hov, -⟩ := map_eq_some_iff.mp hforced
      exact ho.challenger gid (List.mem_map_of_mem ((Dict.get?_eq_some_iff ho.nodup gid ov).mp hov))
  refine ⟨hset, hmem, primaryHead_eq_none horder, hpromoted, hnamed, ?_⟩
  intro O rt s hdecision hnames hprimary hchallengers
  have hkind : ((s.decision == "promoted") == s.primaryPromotedGenerationId.isSome) = true := by
    rw [hdecision, asStr_promoted, hprimary, beq_iff_eq, Bool.eq_iff_iff, decide_eq_true_iff]
    exact hpromoted
  have hfilter : s.promotedGenerationId.filter (· ≠ "") = s.primaryPromotedGenerationId := by
    rw [hnames, hnamed, hprimary]
    cases hhead : (c.resolve order now overrides).promotedId with
    | none => rfl
    | some gid =>
      have hne : gid ≠ "" := fun h => hids (h ▸ hchallenger gid hhead)
      simp [Option.filter, hne]
  have hknown : s.primaryPromotedGenerationId.all s.challengers.contains = true := by
    rw [hprimary, hchallengers]
    cases hhead : (c.resolve order now overrides).promotedId with
    | none => rfl
    | some gid => simpa using hchallenger gid hhead
  unfold Receipt.assertCrowningAgrees
  simp only [hkind, hfilter, hknown, require, if_true, ok_bind, beq_self_eq_true]

omit [PyArith F] in
/-- The kind of verdict when nobody is promoted: an operator's reject, of whomever,
makes it a rejection. -/
theorem Crown.decision_of_none (hnodup : overrides.keys.Nodup) :
    (effectiveDecision c.decision none (overrideDecisionReason overrides none) c.crowningReason
        c.crowningDecision).decision = .deferred ↔
      c.Deferred ∧ ¬ ∃ gid, Forces overrides gid .rejected := by
  cases hfind : overrides.find? (·.2.decision = .rejected) with
  | some rejection =>
    have hnote : overrideDecisionReason overrides none = some (overrideNote rejection.2.reason) := by
      simp [overrideDecisionReason, hfind]
    have hforced : ∃ gid, Forces overrides gid .rejected := by
      refine ⟨rejection.1, ?_⟩
      have hget : overrides.get? rejection.1 = some rejection.2 :=
        (Dict.get?_eq_some_iff hnodup _ _).mpr (mem_of_find?_eq_some hfind)
      have hdecision := find?_some hfind
      rw [Forces, hget]
      simpa using hdecision
    rw [hnote, c.decision_of_note]
    simp [hforced]
  | none =>
    have hnote : overrideDecisionReason overrides none = none := by
      simp [overrideDecisionReason, hfind]
    have hfree : ¬ ∃ gid, Forces overrides gid .rejected := by
      rintro ⟨gid, hforced⟩
      obtain ⟨ov, hov, hdecision⟩ := map_eq_some_iff.mp hforced
      have hmem := (Dict.get?_eq_some_iff hnodup gid ov).mp hov
      have := find?_eq_none.mp hfind (gid, ov) hmem
      simp [hdecision] at this
    rw [hnote]
    rcases c.decision_of_crown with ⟨h, hdeferred⟩ | ⟨h, hdeferred⟩
    · simp [h, hdeferred, hfree]
    · simp [h, hdeferred]

theorem stands_iff_head (horder : ∀ l, (order l).Perm l) (hnodup : overrides.keys.Nodup) :
    (∃ gid, Stands c.promotedId overrides gid) ↔
      (primaryHead order c.decision.matchups c.promotedId overrides).isSome = true := by
  rw [← not_iff_not, Bool.not_eq_true, isSome_eq_false_iff, isNone_iff_eq_none,
    primaryHead_eq_none horder, eq_nil_iff_forall_not_mem]
  simp only [mem_promotedSet hnodup, not_exists]

/-- **A reject of an unpromoted challenger may change the verdict.**  The overrides
always resolve to one consistent verdict.  Rejecting in addition a challenger that is
not promoted keeps promoted set, head and kind of verdict exactly if somebody is
promoted, or somebody is rejected by the operator already, or the crown was not
deferred: a deferred crown turns into a rejection. -/
theorem overrides_verdict_iff {overrides' : Overrides} (hids : "" ∉ challengers)
    (horder : ∀ l, (order l).Perm l) (ho : Claimed challengers overrides)
    (ho' : Claimed challengers overrides') (hout : ¬ Stands c.promotedId overrides gid)
    (hreject : Forces overrides' gid .rejected)
    (hothers : overrides'.filter (·.1 ≠ gid) = overrides.filter (·.1 ≠ gid)) :
    (Resolves c overrides (c.resolve order now overrides) ∧
        SameVerdict (c.resolve order now overrides) (c.resolve order now overrides')) ↔
      (∃ g, Stands c.promotedId overrides g) ∨ (∃ g, Forces overrides g .rejected) ∨
        ¬ c.Deferred := by
  have hset : promotedSet c.promotedId overrides' = promotedSet c.promotedId overrides := by
    refine promotedSet_reject hothers ?_ ?_
    · rwa [mem_promotedSet ho.nodup]
    · rw [mem_promotedSet ho'.nodup]
      exact fun h => h.2 hreject
  have hhead : primaryHead order c.decision.matchups c.promotedId overrides' =
      primaryHead order c.decision.matchups c.promotedId overrides := by
    rw [primaryHead_eq horder, primaryHead_eq horder, hset]
  have hsame : SameVerdict (c.resolve order now overrides) (c.resolve order now overrides') ↔
      (c.resolve order now overrides').effectiveDecision.decision =
        (c.resolve order now overrides).effectiveDecision.decision := by
    refine ⟨fun h => h.2.2, fun h => ⟨fun g => ?_, hhead, h⟩⟩
    change g ∈ promotedSet c.promotedId overrides' ↔ g ∈ promotedSet c.promotedId overrides
    rw [hset]
  rw [and_iff_right (c.resolves hids horder ho), hsame, stands_iff_head c horder ho.nodup]
  simp only [Crown.resolve, applyFieldOverrides, hhead]
  cases hwinner : primaryHead order c.decision.matchups c.promotedId overrides with
  | some winner => simp [c.decision_of_head]
  | none =>
    -- with the further reject the verdict is a rejection, so it must have been one
    have hbefore := c.decision_of_none ho.nodup
    have hafter := c.decision_of_none ho'.nodup
    have hpromoted := (Crown.promoted_iff (c := c) (overrideDecisionReason overrides none) none
      fun _ note => overrideDecisionReason_none overrides note)
    have hpromoted' := (Crown.promoted_iff (c := c) (overrideDecisionReason overrides' none) none
      fun _ note => overrideDecisionReason_none overrides' note)
    generalize (effectiveDecision c.decision none (overrideDecisionReason overrides none)
      c.crowningReason c.crowningDecision).decision = before at hbefore hpromoted ⊢
    generalize (effectiveDecision c.decision none (overrideDecisionReason overrides' none)
      c.crowningReason c.crowningDecision).decision = after at hafter hpromoted' ⊢
    have hrejected : after = .rejected := by
      cases after with
      | promoted => simp at hpromoted'
      | rejected => rfl
      | deferred => exact absurd ⟨gid, hreject⟩ (hafter.mp rfl).2
    subst hrejected
    cases before with
    | promoted => simp at hpromoted
    | rejected =>
      have hnot : ¬ (c.Deferred ∧ ¬ ∃ g, Forces overrides g .rejected) := by simpa using hbefore
      simp only [Option.isSome_none, Bool.false_eq_true, false_or, true_iff]
      by_cases hforced : ∃ g, Forces overrides g .rejected
      · exact Or.inl hforced
      · exact Or.inr fun hdeferred => hnot ⟨hdeferred, hforced⟩
    | deferred =>
      obtain ⟨hdeferred, hfree⟩ := hbefore.mp rfl
      simp [hdeferred, hfree]

end Verdict

/-- The verdict of a round promotes the set that its crown and the overrides name, under a
head of that set, and the crowning agrees with it. -/
theorem resolveFieldVerdict_resolves (checks : Checks F) (parentId : String)
    {challengers : List String} (decision : SelectionDecision F) (consistent : Consistent decision)
    (ownReason : ∀ reason, decision.reason ≠ overrideNote reason)
    (challenger : ∀ gid, decision.promotedGenerationId = some gid → gid ∈ challengers)
    {overrides : Overrides} (hids : "" ∉ challengers) (horder : ∀ l, (checks.order l).Perm l)
    (ho : Claimed challengers overrides) :
    Resolves (crownOf checks parentId decision consistent ownReason challenger) overrides
      (resolveFieldVerdict checks parentId decision overrides).resolution := by
  rw [resolveFieldVerdict_eq checks parentId decision consistent ownReason challenger overrides]
  exact Crown.resolves _ hids horder ho

/-! ### A field of two -/

theorem empty_ne_overrideNote (reason : String) : "" ≠ overrideNote reason := by
  unfold overrideNote
  intro he
  have hnote := (String.append_eq_empty_iff.mp he.symm).1
  exact absurd hnote (by decide)

/-- `v2` won its crowning duel; the confirmation of its crown is `verdict`. -/
def wonByV2 (promotedId crowningReason : Option String) (verdict : Option TournamentDecision)
    (hpromoted : ∀ gid, promotedId = some gid → gid ∈ ["v2", "v3"])
    (hverdict : verdict ≠ some .promoted) : Crown Exact ["v2", "v3"] where
  decision :=
    { promotedGenerationId := some "v2", decision := .promoted, reason := ""
      crowningMatchupId := "final" }
  promotedId := promotedId
  crowningReason := crowningReason
  crowningDecision := verdict
  consistent := by simp [Consistent]
  ownReason := empty_ne_overrideNote
  challenger := hpromoted
  unseated := hverdict

/-- The holdout answer was withheld. -/
def withheldCrown : Crown Exact ["v2", "v3"] :=
  wonByV2 none (some "holdout confirmation incomplete: result withheld")
    (some .deferred) (by simp) (by simp)

/-- The holdout confirmed `v2`. -/
def confirmedCrown : Crown Exact ["v2", "v3"] := wonByV2 (some "v2") none none (by simp) (by simp)

/-- The operator rejects the other candidate. -/
def rejectV3 : Overrides := [("v3", { decision := .rejected, reason := "flaky" })]

theorem forces_rejectV3 : Forces rejectV3 "v3" .rejected := by
  simp [Forces, rejectV3, Dict.get?]

theorem overrides_verdict_confirmed :
    "" ∉ ["v2", "v3"] ∧ ¬ Stands confirmedCrown.promotedId [] "v3" ∧
      Forces rejectV3 "v3" .rejected ∧
      ((Resolves confirmedCrown [] (confirmedCrown.resolve id "" []) ∧
          SameVerdict (confirmedCrown.resolve id "" []) (confirmedCrown.resolve id "" rejectV3)) ↔
        (∃ g, Stands confirmedCrown.promotedId [] g) ∨ (∃ g, Forces [] g .rejected) ∨
          ¬ confirmedCrown.Deferred) :=
  have hids : "" ∉ ["v2", "v3"] := by decide
  have hout : ¬ Stands confirmedCrown.promotedId [] "v3" := by
    rintro ⟨h | h, -⟩
    · exact absurd (Option.some.inj h) (by decide)
    · cases h
  ⟨hids, hout, forces_rejectV3, overrides_verdict_iff confirmedCrown hids (fun _ => .refl _)
    ⟨List.nodup_nil, by simp [Dict.keys]⟩ ⟨by decide, by decide⟩ hout forces_rejectV3
    (by decide)⟩

/-- The crown of `v2` is deferred, and the reject of `v3`, which was not promoted,
turns it into a rejection. -/
theorem reject_of_other_drops_deferral :
    ¬ Stands withheldCrown.promotedId [] "v3" ∧ Forces rejectV3 "v3" .rejected ∧
      rejectV3.filter (·.1 ≠ "v3") = [] ∧
      (withheldCrown.resolve id "" []).effectiveDecision.decision = .deferred ∧
      (withheldCrown.resolve id "" rejectV3).effectiveDecision.decision = .rejected ∧
      ¬ SameVerdict (withheldCrown.resolve id "" []) (withheldCrown.resolve id "" rejectV3) := by
  have hbefore : (withheldCrown.resolve id "" []).effectiveDecision.decision = .deferred := by
    decide
  have hafter : (withheldCrown.resolve id "" rejectV3).effectiveDecision.decision = .rejected := by
    decide
  refine ⟨?_, forces_rejectV3, by decide, hbefore, hafter, ?_⟩
  · rintro ⟨h | h, -⟩
    · cases h
    · cases h
  · intro hsame
    have hkind := hsame.2.2
    rw [hbefore, hafter] at hkind
    cases hkind

end Zicato.Field
