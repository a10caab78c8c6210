import Zicato.GateEvidence

/-! # The gate decides exactly its rules

The explanation of a verdict: the list of rules is taken through the checks in the
order in which the gate makes them, and the rule that stops a duel finds every
earlier one settled.  Over exact numbers the decision is what the rules say of them. -/
open List Except
namespace Zicato.Gate

open GateNum

/-! ## The list of rules -/

/-- The order in which the gate checks its rules; the regression suite is settled
before it starts. -/
def RuleId.rank : RuleId → Nat
  | regressionSuite => 0
  | completeExecution => 1
  | finiteEvidence => 2
  | diffComplexityCeiling => 3
  | scalarMargin => 4
  | passRateMonotonicity => 5
  | namespaceMonotonicity => 6
  | holdoutConfirmation => 7

theorem RuleId.rank_inj {a b : RuleId} (h : a.rank = b.rank) : a = b := by
  cases a <;> cases b <;> first | rfl | cases h

/-- The rule did not stop the duel. -/
def RuleStatus.Settled (status : RuleStatus) : Prop :=
  status = .pass ∨ status = .unknown ∨ status = .disabled ∨ status = .skipped

/-- No rule has fired, and those before rank `k` are settled. -/
structure Ready (rules : List Rule) (k : Nat) : Prop where
  nodup : (rules.map (·.id)).Nodup
  unfired : ∀ r ∈ rules, r.fired = false
  settled : ∀ r ∈ rules, r.id.rank < k → r.status.Settled

variable {rules : List Rule} {updated active r : Rule} {k : Nat}

@[simp] theorem map_id_put (rules : List Rule) (updated : Rule) :
    (put rules updated).map (·.id) = rules.map (·.id) := by
  rw [put, map_map]
  refine map_congr_left fun r _ => ?_
  rw [Function.comp_apply]
  split
  · rename_i h
    exact h.symm
  · rfl

theorem mem_put (h : r ∈ put rules updated) : r = updated ∨ r ∈ rules ∧ r.id ≠ updated.id := by
  obtain ⟨r', hr', rfl⟩ := mem_map.mp h
  split
  · exact .inl rfl
  · rename_i hne
    exact .inr ⟨hr', hne⟩

theorem Ready.mono (h : Ready rules k) {j : Nat} (hj : j ≤ k) : Ready rules j :=
  ⟨h.nodup, h.unfired, fun r hr hrank => h.settled r hr (by omega)⟩

/-- A rule that is settled in place. -/
theorem Ready.put (h : Ready rules k) (hfired : updated.fired = false)
    (hsettled : updated.status.Settled) (hrank : updated.id.rank = k) :
    Ready (put rules updated) (k + 1) := by
  refine ⟨by simpa using h.nodup, ?_, ?_⟩
  · intro r hr
    rcases mem_put hr with rfl | ⟨hr, -⟩
    · exact hfired
    · exact h.unfired r hr
  · intro r hr hlt
    rcases mem_put hr with rfl | ⟨hr, hne⟩
    · exact hsettled
    · refine h.settled r hr ?_
      have : r.id.rank ≠ k := fun he => hne (RuleId.rank_inj (he.trans hrank.symm))
      omega

/-- A rule that was settled from the start. -/
theorem Ready.next (h : Ready rules k)
    (hsettled : ∀ r ∈ rules, r.id.rank = k → r.status.Settled) : Ready rules (k + 1) := by
  refine ⟨h.nodup, h.unfired, fun r hr hlt => ?_⟩
  by_cases hrank : r.id.rank = k
  · exact hsettled r hr hrank
  · exact h.settled r hr (by omega)

theorem Ready.concat (h : Ready rules k) (hnew : updated.id ∉ rules.map (·.id))
    (hfired : updated.fired = false) (hlate : k ≤ updated.id.rank) :
    Ready (rules ++ [updated]) k := by
  refine ⟨?_, ?_, ?_⟩
  · rw [map_append, nodup_append]
    refine ⟨h.nodup, by simp, ?_⟩
    intro a ha b hb
    obtain rfl := mem_singleton.mp hb
    rintro rfl
    exact hnew ha
  · intro r hr
    rcases mem_append.mp hr with hr | hr
    · exact h.unfired r hr
    · rw [mem_singleton.mp hr]
      exact hfired
  · intro r hr hlt
    rcases mem_append.mp hr with hr | hr
    · exact h.settled r hr hlt
    · rw [mem_singleton.mp hr] at hlt
      omega

/-! ## The rule that stops a duel -/

/-- What the explanation of a stopped duel says. -/
structure Explained (rules : List Rule) (deciding : RuleId) : Prop where
  one : (rules.filter (·.fired)).map (·.id) = [deciding]
  earlier : ∀ r ∈ rules, r.id.rank < deciding.rank → r.status.Settled

theorem filter_fired_put (hfired : updated.fired = true) (hnodup : (rules.map (·.id)).Nodup)
    (hunfired : ∀ r ∈ rules, r.fired = false) (hmem : updated.id ∈ rules.map (·.id)) :
    (put rules updated).filter (·.fired) = [updated] := by
  induction rules with
  | nil => cases hmem
  | cons r rules ih =>
    obtain ⟨hr, hnodup⟩ := nodup_cons.mp hnodup
    obtain ⟨hrf, hunfired⟩ := forall_mem_cons.mp hunfired
    by_cases he : r.id = updated.id
    · have hrest : put rules updated = rules := by
        refine (map_congr_left fun r' hr' => ?_).trans (map_id rules)
        have hne : r'.id ≠ updated.id := by
          intro h'
          refine hr (mem_map.mpr ⟨r', hr', ?_⟩)
          exact h'.trans he.symm
        rw [if_neg hne]
        rfl
      have hnone : rules.filter (·.fired) = [] :=
        filter_eq_nil_iff.mpr fun r' hr' => by simp [hunfired r' hr']
      change ((if r.id = updated.id then updated else r) :: put rules updated).filter (·.fired) = _
      rw [if_pos he, hrest, filter_cons_of_pos hfired, hnone]
    · have hmem' : updated.id ∈ rules.map (·.id) := by
        rcases mem_cons.mp hmem with h | h
        · exact absurd h.symm he
        · exact h
      change ((if r.id = updated.id then updated else r) :: put rules updated).filter (·.fired) = _
      rw [if_neg he, filter_cons_of_neg (by simp [hrf])]
      exact ih hnodup hunfired hmem'

theorem Ready.fire (h : Ready rules k) (hrank : active.id.rank ≤ k) (reason : String) :
    Explained (fire rules active reason) active.id := by
  unfold Gate.fire
  simp only
  split
  · rename_i hany
    obtain ⟨r, hr, hid⟩ := any_eq_true.mp hany
    have hmem : active.id ∈ rules.map (·.id) :=
      mem_map.mpr ⟨r, hr, by simpa using hid⟩
    refine ⟨?_, ?_⟩
    · rw [filter_fired_put (by rfl) h.nodup h.unfired (by exact hmem)]
      rfl
    · intro r hr hlt
      rcases mem_put hr with rfl | ⟨hr, -⟩
      · exact absurd hlt (by simp)
      · exact h.settled r hr (by omega)
  · have hnone : rules.filter (·.fired) = [] :=
      filter_eq_nil_iff.mpr fun r hr => by simp [h.unfired r hr]
    refine ⟨?_, ?_⟩
    · rw [filter_cons_of_pos (by rfl), hnone]
      rfl
    · intro r hr hlt
      rcases mem_cons.mp hr with rfl | hr
      · exact absurd hlt (by simp)
      · exact h.settled r hr (by omega)

/-- The closing pass writes details only. -/
theorem Explained.close {deciding : RuleId} (h : Explained rules deciding) :
    Explained (closeRules rules) deciding := by
  have hkeep : ∀ r : Rule, (if r.status = .notReached then
      { r with detail := "not reached (an earlier rule fired)" } else r).id = r.id ∧
      (if r.status = .notReached then
        { r with detail := "not reached (an earlier rule fired)" } else r).fired = r.fired ∧
      (if r.status = .notReached then
        { r with detail := "not reached (an earlier rule fired)" } else r).status = r.status := by
    intro r
    split <;> exact ⟨rfl, rfl, rfl⟩
  refine ⟨?_, ?_⟩
  · rw [closeRules, filter_map, map_map, ← h.one]
    have hfired : ∀ p : Rule → Rule, (∀ r, (p r).fired = r.fired) →
        rules.filter ((·.fired) ∘ p) = rules.filter (·.fired) := fun p hp =>
      filter_congr fun r _ => hp r
    rw [hfired _ fun r => (hkeep r).2.1]
    exact map_congr_left fun r _ => (hkeep r).1
  · intro r hr hlt
    obtain ⟨r', hr', rfl⟩ := mem_map.mp hr
    rw [(hkeep r').2.2]
    rw [(hkeep r').1] at hlt
    exact h.earlier r' hr' hlt

theorem closeRules_unfired (h : ∀ r ∈ rules, r.fired = false) :
    ∀ r ∈ closeRules rules, r.fired = false := by
  intro r hr
  obtain ⟨r', hr', rfl⟩ := mem_map.mp hr
  split
  · exact h r' hr'
  · exact h r' hr'

/-! ## The checks in order -/

section Checks
variable {F : Type} [GateNum F] {parent child : Agg F} {w : Weights F}

/-- The rule is not enabled. -/
def Off (rules : List Rule) (id : RuleId) : Prop := ∀ r ∈ rules, r.id = id → r.status = .disabled

variable {id : RuleId}

theorem Off.put (h : Off rules id) (hne : updated.id ≠ id) : Off (put rules updated) id := by
  intro r hr hid
  rcases mem_put hr with rfl | ⟨hr, -⟩
  · exact absurd hid hne
  · exact h r hr hid

theorem Ready.off (h : Ready rules id.rank) (hoff : Off rules id) : Ready rules (id.rank + 1) :=
  h.next fun r hr hrank => .inr (.inr (.inl (hoff r hr (RuleId.rank_inj hrank))))

@[simp] theorem rule_id (id : RuleId) (enabled : Bool) : (rule id enabled).id = id := by
  cases enabled <;> rfl

@[simp] theorem rule_fired (id : RuleId) (enabled : Bool) : (rule id enabled).fired = false := by
  cases enabled <;> rfl

theorem mem_openRules (h : r ∈ openRules w) :
    r.id = .regressionSuite ∧ r.fired = false ∧ r.status.Settled ∨ r = rule .scalarMargin ∨
      r = rule .passRateMonotonicity w.passRateMonotonicity ∨
      r = rule .namespaceMonotonicity (namespacesEnabled w) := by
  rcases mem_cons.mp h with rfl | h
  · refine .inl ?_
    split
    · exact ⟨rfl, rfl, .inr (.inl rfl)⟩
    · exact ⟨rfl, rfl, .inr (.inr (.inr rfl))⟩
  · exact .inr (by simpa using h)

theorem map_id_openRules (w : Weights F) : (openRules w).map (·.id) =
    [.regressionSuite, .scalarMargin, .passRateMonotonicity, .namespaceMonotonicity] := by
  unfold openRules
  cases w.regressionGateEnabled <;> simp

theorem openRules_ready (w : Weights F) : Ready (openRules w) 4 := by
  refine ⟨?_, ?_, ?_⟩
  · rw [map_id_openRules]
    decide
  · intro r hr
    rcases mem_openRules hr with ⟨-, h, -⟩ | rfl | rfl | rfl
    · exact h
    all_goals exact rule_fired _ _
  · intro r hr hrank
    rcases mem_openRules hr with ⟨-, -, h⟩ | rfl | rfl | rfl
    · exact h
    all_goals
      rw [rule_id] at hrank
      exact absurd hrank (by decide)

/-- Rule 0 goes to the front of the list when the ceiling is on. -/
theorem ceilingRules_eq (w : Weights F) :
    ceilingRules w = openRules w ∨ ceilingRules w = rule .diffComplexityCeiling :: openRules w := by
  unfold ceilingRules
  split
  · exact .inr rfl
  · exact .inl rfl

theorem ceilingRules_ready (w : Weights F) : Ready (ceilingRules w) 3 := by
  rcases ceilingRules_eq w with h | h <;> rw [h]
  · exact (openRules_ready w).mono (by decide)
  · refine ⟨?_, ?_, ?_⟩
    · rw [map_cons, map_id_openRules]
      decide
    · exact forall_mem_cons.mpr ⟨rfl, (openRules_ready w).unfired⟩
    · refine forall_mem_cons.mpr ⟨fun hrank => absurd hrank (by decide), ?_⟩
      intro r hr hrank
      exact (openRules_ready w).settled r hr (by omega)

theorem ceilingRules_off (hid : id ≠ .diffComplexityCeiling) (h : Off (openRules w) id) :
    Off (ceilingRules w) id := by
  rcases ceilingRules_eq w with he | he <;> rw [he]
  · exact h
  · exact forall_mem_cons.mpr ⟨fun he => absurd he.symm hid, h⟩

theorem holdout_notMem (w : Weights F) :
    RuleId.holdoutConfirmation ∉ (ceilingRules w).map (·.id) := by
  rcases ceilingRules_eq w with h | h
  · rw [h, map_id_openRules]
    decide
  · rw [h, map_cons, map_id_openRules]
    decide

theorem afterCeiling_ready (child : Agg F) (w : Weights F) : Ready (afterCeiling child w) 4 := by
  refine (ceilingRules_ready w).put ?_ ?_ ?_
  · split <;> rfl
  · split
    · exact .inl rfl
    · exact .inr (.inl rfl)
  · split <;> rfl

theorem scalarRules_ready (parent child : Agg F) (w : Weights F) :
    Ready (scalarRules parent child w) 5 :=
  (afterCeiling_ready child w).put rfl (.inl rfl) rfl

theorem scalarRules_off (hceiling : id ≠ .diffComplexityCeiling) (hscalar : id ≠ .scalarMargin)
    (h : Off (openRules w) id) : Off (scalarRules parent child w) id := by
  refine ((ceilingRules_off hceiling h).put ?_).put hscalar.symm
  split <;> exact hceiling.symm

theorem openRules_pass_off (h : w.passRateMonotonicity = false) :
    Off (openRules w) .passRateMonotonicity := by
  intro r hr hid
  rcases mem_openRules hr with ⟨h', -⟩ | rfl | rfl | rfl
  · rw [h'] at hid
    cases hid
  · cases hid
  · rw [h]
    rfl
  · rw [rule_id] at hid
    cases hid

theorem openRules_namespace_off (h : namespacesEnabled w = false) :
    Off (openRules w) .namespaceMonotonicity := by
  intro r hr hid
  rcases mem_openRules hr with ⟨h', -⟩ | rfl | rfl | rfl
  · rw [h'] at hid
    cases hid
  · cases hid
  · rw [rule_id] at hid
    cases hid
  · rw [h]
    rfl

theorem afterPass_ready (parent child : Agg F) (w : Weights F) :
    Ready (afterPass parent child w) 6 := by
  unfold afterPass
  split
  · exact (scalarRules_ready parent child w).put rfl (.inl rfl) rfl
  · rename_i hoff
    exact (scalarRules_ready parent child w).off
      (scalarRules_off (by decide) (by decide) (openRules_pass_off (by simpa using hoff)))

theorem afterPass_off (h : namespacesEnabled w = false) :
    Off (afterPass parent child w) .namespaceMonotonicity := by
  have hscalar : Off (scalarRules parent child w) .namespaceMonotonicity :=
    scalarRules_off (by decide) (by decide) (openRules_namespace_off h)
  unfold afterPass
  split
  · exact hscalar.put (by simp)
  · exact hscalar

theorem afterNamespaces_ready (parent child : Agg F) (w : Weights F) :
    Ready (afterNamespaces parent child w) 7 := by
  unfold afterNamespaces
  split
  · refine (afterPass_ready parent child w).put ?_ ?_ ?_
    · split <;> rfl
    · split
      · exact .inl rfl
      · exact .inr (.inl rfl)
    · split <;> rfl
  · rename_i hoff
    exact (afterPass_ready parent child w).off (afterPass_off (by simpa using hoff))

theorem map_id_afterNamespaces (parent child : Agg F) (w : Weights F) :
    (afterNamespaces parent child w).map (·.id) = (ceilingRules w).map (·.id) := by
  have hpass : (afterPass parent child w).map (·.id) = (ceilingRules w).map (·.id) := by
    unfold afterPass
    split <;> simp [scalarRules, afterCeiling]
  unfold afterNamespaces
  split
  · rw [map_id_put, hpass]
  · exact hpass

theorem holdoutRules_ready (parent child : Agg F) (w : Weights F) {entry : Rule}
    (hid : entry.id = .holdoutConfirmation) (hfired : entry.fired = false) :
    Ready (afterNamespaces parent child w ++ [entry]) 7 := by
  refine (afterNamespaces_ready parent child w).concat ?_ hfired ?_
  · rw [map_id_afterNamespaces, hid]
    exact holdout_notMem w
  · rw [hid]
    exact le_refl 7

theorem finalRules_unfired (parent child : Agg F) (w : Weights F)
    (holdoutParent holdoutChild : Option (Agg F)) :
    ∀ r ∈ finalRules parent child w holdoutParent holdoutChild, r.fired = false := by
  unfold finalRules
  split
  · exact (holdoutRules_ready parent child w rfl rfl).unfired
  · exact (afterNamespaces_ready parent child w).unfired

end Checks

/-! ## The explanation of a verdict -/

section Explain
variable {F : Type} [GateNum F] {parent child : Agg F} {w : Weights F}
  {holdoutParent holdoutChild : Option (Agg F)} {v : Verdict F}

/-- What a verdict says of itself. -/
structure SelfExplained (v : Verdict F) : Prop where
  decision : v.explanation.decision = v.outcome.decision
  reason : v.outcome.reason = "" ↔ v.outcome.decision = .promoted
  promoted : v.outcome.decision = .promoted →
    v.explanation.decidingRule = none ∧ ∀ r ∈ v.explanation.rules, r.fired = false
  stopped : v.outcome.decision ≠ .promoted →
    ∃ id, v.explanation.decidingRule = some id ∧ Explained v.explanation.rules id

theorem stopped_selfExplained {decision : TournamentDecision} {reason : String}
    {attributable : List String} (h : Ready rules active.id.rank) (hdecision : decision ≠ .promoted)
    (hreason : reason ≠ "") :
    SelfExplained (stopped parent child w decision reason active rules attributable) where
  decision := rfl
  reason := iff_of_false hreason hdecision
  promoted hpromoted := absurd hpromoted hdecision
  stopped _ := ⟨active.id, rfl, (h.fire (le_refl _) reason).close⟩

theorem rejectedBy_selfExplained {reason : String} (h : Ready rules active.id.rank)
    (hreason : reason ≠ "") : SelfExplained (rejectedBy parent child w reason active rules) :=
  stopped_selfExplained h (by simp) hreason

theorem passRule_id (parent child : Agg F) (w : Weights F) :
    (passRule parent child w).id = .passRateMonotonicity := by
  unfold passRule
  split <;> rfl

theorem evaluateRest_selfExplained (parent child : Agg F) (w : Weights F)
    (holdoutParent holdoutChild : Option (Agg F)) :
    SelfExplained (evaluateRest parent child w holdoutParent holdoutChild) := by
  unfold evaluateRest
  split
  · rename_i hpass
    refine rejectedBy_selfExplained ?_ hpass
    rw [passRule_id]
    exact scalarRules_ready parent child w
  split
  · rename_i hns
    refine rejectedBy_selfExplained ?_ hns
    rw [rule_id]
    exact afterPass_ready parent child w
  split
  · rename_i hhold
    exact rejectedBy_selfExplained (holdoutRules_ready parent child w rfl rfl) hhold
  · exact ⟨rfl, iff_of_true rfl rfl,
      fun _ => ⟨rfl, closeRules_unfired (finalRules_unfired parent child w _ _)⟩,
      fun h => absurd rfl h⟩

/-- On every return of the gate the explanation is that of the decision. -/
theorem evaluateGate_selfExplained
    (hv : evaluateGate parent child w holdoutParent holdoutChild = .ok v) : SelfExplained v := by
  unfold evaluateGate at hv
  split at hv
  · obtain rfl := ok.inj hv
    refine stopped_selfExplained ((openRules_ready w).mono (by decide)) (by simp) ?_
    intro hempty
    exact absurd (String.append_eq_empty_iff.mp hempty).2 (by decide)
  split at hv
  · rename_i hevidence
    obtain rfl := ok.inj hv
    exact rejectedBy_selfExplained ((openRules_ready w).mono (by decide)) hevidence
  obtain ⟨ceiling, -, hv⟩ := bind_eq_ok hv
  split at hv
  · rename_i hceiling
    obtain rfl := ok.inj hv
    exact rejectedBy_selfExplained (ceilingRules_ready w) hceiling
  obtain ⟨margin, -, hv⟩ := bind_eq_ok hv
  split at hv
  · rename_i hmargin
    obtain rfl := ok.inj hv
    exact rejectedBy_selfExplained ((scalarRules_ready parent child w).mono (Nat.le_succ 4)) hmargin
  obtain rfl := ok.inj hv
  exact evaluateRest_selfExplained parent child w holdoutParent holdoutChild

/-- Every return states the same two differences. -/
theorem evaluateGate_deltas
    (hv : evaluateGate parent child w holdoutParent holdoutChild = .ok v) :
    v.outcome.deltaScalar = sub child.scalar parent.scalar ∧
      v.outcome.deltaPassRate = sub (child.passRate.getD one) (parent.passRate.getD one) := by
  unfold evaluateGate at hv
  split at hv
  · obtain rfl := ok.inj hv
    exact ⟨rfl, rfl⟩
  split at hv
  · obtain rfl := ok.inj hv
    exact ⟨rfl, rfl⟩
  obtain ⟨ceiling, -, hv⟩ := bind_eq_ok hv
  split at hv
  · obtain rfl := ok.inj hv
    exact ⟨rfl, rfl⟩
  obtain ⟨margin, -, hv⟩ := bind_eq_ok hv
  split at hv
  · obtain rfl := ok.inj hv
    exact ⟨rfl, rfl⟩
  obtain rfl := ok.inj hv
  unfold evaluateRest
  split
  · exact ⟨rfl, rfl⟩
  split
  · exact ⟨rfl, rfl⟩
  split <;> exact ⟨rfl, rfl⟩

end Explain

end Zicato.Gate
