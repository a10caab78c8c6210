import Mathlib.Data.Prod.Lex
import Mathlib.Tactic.Linarith
import Zicato.ParetoRuns

/-! # Settling a round a second time

The second call is offered the candidates again that the first one refused or
displaced.  It lets one in when nobody left on the record dominates it, which can
be: whoever dominated it may have been displaced in turn by one that does not. -/
open List
namespace Zicato.Pareto

section Resettle

variable (champion : FrontierCandidate Exact) (weights : Gate.Weights Exact) (roundIndex : Int)

/-- The members the retire pass keeps. -/
def survivors (frontier : ParetoFrontier Exact) : List (FrontierMember Exact) :=
  frontier.members.filter fun m => decide (retireReason champion weights m = none)

/-- The candidates the admit pass compares with the record, in the order it does. -/
def newcomers (frontier : ParetoFrontier Exact) (candidates : List (FrontierCandidate Exact)) :
    List (FrontierMember Exact) :=
  (inTurn candidates).filterMap fun c =>
    if c.generationId ∈ (survivors champion weights frontier).map (·.generationId) ++
        [champion.generationId] then none
    else newcomer champion weights roundIndex c

/-- The surviving members and then the newcomers. -/
def arrivals (frontier : ParetoFrontier Exact) (candidates : List (FrontierCandidate Exact)) :
    List (FrontierMember Exact) :=
  survivors champion weights frontier ++ newcomers champion weights roundIndex frontier candidates

/-- Every candidate that the champion leaves in is itself among the arrivals that stand, or
dominated by one of them. -/
def Covered (frontier : ParetoFrontier Exact) (candidates : List (FrontierCandidate Exact)) : Prop :=
  ∀ c ∈ candidates, ∀ n, newcomer champion weights roundIndex c = some n →
    n.generationId ≠ champion.generationId →
      ∃ i m, (arrivals champion weights roundIndex frontier candidates)[i]? = some m ∧
        Skyline.Stands (beatsMember weights)
          (arrivals champion weights roundIndex frontier candidates)
          (survivors champion weights frontier).length i ∧
        (m.generationId = n.generationId ∨ beatsMember weights m n = true)

/-- The second of two calls with the same arguments. -/
def resettle (frontier : ParetoFrontier Exact) (candidates : List (FrontierCandidate Exact)) :
    FrontierUpdate Exact :=
  updateFrontier champion weights roundIndex
    (updateFrontier champion weights roundIndex frontier candidates).frontier candidates

/-! ## Turns that refuse -/

/-- A turn of the admit pass that changes nothing. -/
def Refused (p : Pass Exact) (c : FrontierCandidate Exact) : Prop :=
  c.generationId ∈ p.known ∨ ∀ n, newcomer champion weights roundIndex c = some n →
    ∃ m ∈ p.surviving, beatsMember weights m n = true

variable {champion weights roundIndex}

variable {p : Pass Exact} {cs : List (FrontierCandidate Exact)}

theorem admitOne_of_refused {c : FrontierCandidate Exact}
    (h : Refused champion weights roundIndex p c) :
    admitOne champion weights roundIndex p c = p := by
  rw [admitOne_eq]
  split
  · rfl
  · rename_i hknown
    split
    · rfl
    · rename_i n hn
      exact if_pos (any_eq_true.mpr (h.resolve_left hknown n hn))

/-- A candidate that is not refused is admitted. -/
theorem admittedIds_admitOne {c : FrontierCandidate Exact}
    (h : ¬Refused champion weights roundIndex p c ∨ p.admittedIds ≠ []) :
    (admitOne champion weights roundIndex p c).admittedIds ≠ [] := by
  by_cases hrefused : Refused champion weights roundIndex p c
  · rw [admitOne_of_refused hrefused]
    exact h.resolve_left (not_not_intro hrefused)
  · obtain ⟨hknown, hoffered⟩ := not_or.mp hrefused
    simp only [not_forall] at hoffered
    obtain ⟨n, hn, hfree⟩ := hoffered
    rw [admitOne_eq, if_neg hknown, hn]
    simp only
    rw [if_neg fun hany => hfree (any_eq_true.mp hany)]
    exact append_ne_nil_of_right_ne_nil _ (cons_ne_nil _ _)

theorem foldl_admitOne_of_refused (h : ∀ c ∈ cs, Refused champion weights roundIndex p c) :
    cs.foldl (admitOne champion weights roundIndex) p = p := by
  induction cs with
  | nil => rfl
  | cons c rest ih =>
    rw [foldl_cons, admitOne_of_refused (h c mem_cons_self)]
    exact ih fun c' hc' => h c' (mem_cons_of_mem _ hc')

/-- A pass that admits nobody has refused every candidate. -/
theorem refused_of_foldl_admitOne
    (h : (cs.foldl (admitOne champion weights roundIndex) p).admittedIds = []) :
    ∀ c ∈ cs, Refused champion weights roundIndex p c := by
  have hgrows : ∀ (rest : List (FrontierCandidate Exact)) (q : Pass Exact), q.admittedIds ≠ [] →
      (rest.foldl (admitOne champion weights roundIndex) q).admittedIds ≠ [] := by
    intro rest
    induction rest with
    | nil => exact fun q hq => hq
    | cons c rest ih => exact fun q hq => ih _ (admittedIds_admitOne (.inr hq))
  induction cs with
  | nil => exact fun c hc => nomatch hc
  | cons c rest ih =>
    have hc : Refused champion weights roundIndex p c := by
      by_contra hnot
      exact hgrows rest _ (admittedIds_admitOne (.inl hnot)) h
    rw [foldl_cons, admitOne_of_refused hc] at h
    intro c' hc'
    rcases mem_cons.mp hc' with rfl | hc'
    · exact hc
    · exact ih h c' hc'

/-! ## The first call -/

/-- The admit pass on candidates with ids of their own: only the ids known at its start count. -/
theorem surviving_foldl_admitOne {known : List String} (hids : (cs.map (·.generationId)).Nodup)
    (hknown : ∀ c ∈ cs, c.generationId ∈ p.known ↔ c.generationId ∈ known) :
    (cs.foldl (admitOne champion weights roundIndex) p).surviving =
      Skyline.pass (beatsMember weights) p.surviving (cs.filterMap fun c =>
        if c.generationId ∈ known then none else newcomer champion weights roundIndex c) := by
  induction cs generalizing p with
  | nil => rfl
  | cons c rest ih =>
    obtain ⟨hnew, hrest⟩ := nodup_cons.mp hids
    have hsame : ∀ c' ∈ rest, c'.generationId ≠ c.generationId := fun c' hc' heq =>
      hnew (mem_map.mpr ⟨c', hc', heq⟩)
    have hhead := hknown c mem_cons_self
    have htail : ∀ c' ∈ rest, c'.generationId ∈ p.known ↔ c'.generationId ∈ known :=
      fun c' hc' => hknown c' (mem_cons_of_mem _ hc')
    rw [foldl_cons, admitOne_eq, filterMap_cons]
    by_cases hin : c.generationId ∈ p.known
    · rw [if_pos hin, if_pos (hhead.mp hin)]
      exact ih hrest htail
    rw [if_neg hin, if_neg fun h => hin (hhead.mpr h)]
    cases hn : newcomer champion weights roundIndex c with
    | none => exact ih hrest htail
    | some n =>
      have hskip : Skyline.admitOne (beatsMember weights) p.surviving n =
          if p.surviving.any fun m => beatsMember weights m n then p.surviving
          else (letIn weights roundIndex p n).surviving := rfl
      simp only [Skyline.pass, foldl_cons, hskip]
      by_cases hany : (p.surviving.any fun m => beatsMember weights m n) = true
      · rw [if_pos hany, if_pos hany]
        exact ih hrest htail
      · rw [if_neg hany, if_neg hany]
        refine ih hrest fun c' hc' => ?_
        rw [letIn, mem_append, mem_singleton, newcomer_generationId _ _ _ hn,
          or_iff_left (hsame c' hc')]
        exact htail c' hc'

variable {frontier : ParetoFrontier Exact} {candidates : List (FrontierCandidate Exact)}

theorem surviving_settle (hids : (candidates.map (·.generationId)).Nodup) :
    (settle champion weights roundIndex frontier candidates).surviving =
      Skyline.pass (beatsMember weights) (survivors champion weights frontier)
        (newcomers champion weights roundIndex frontier candidates) := by
  have hnodup : ((inTurn candidates).map (·.generationId)).Nodup :=
    (((sorted_perm _ candidates).map _).nodup_iff).mpr hids
  rw [settle, surviving_foldl_admitOne hnodup (fun c _ => Iff.rfl), retirePass_eq]
  rfl

/-- Who is on the frontier after an update. -/
theorem members_update (hplacebo : champion.isPlacebo = false)
    (hids : (candidates.map (·.generationId)).Nodup) (m : FrontierMember Exact) :
    m ∈ (updateFrontier champion weights roundIndex frontier candidates).frontier.members ↔
      ∃ i, (arrivals champion weights roundIndex frontier candidates)[i]? = some m ∧
        Skyline.Stands (beatsMember weights)
          (arrivals champion weights roundIndex frontier candidates)
          (survivors champion weights frontier).length i := by
  rw [updateFrontier, hplacebo]
  change m ∈ sorted byGenerationId
    (settle champion weights roundIndex frontier candidates).surviving ↔ _
  rw [mem_sorted, surviving_settle hids]
  exact Skyline.mem_pass _ _ m

/-! ## The second call -/

theorem sorted_byGenerationId (l : List (FrontierMember Exact)) :
    sorted byGenerationId (sorted byGenerationId l) = sorted byGenerationId l :=
  @sorted_sorted _ _ _ FrontierMember.generationId _ (fun _ _ => rfl) l

theorem byRoundRetired_eq (a b : RetiredMember Exact) : byRoundRetired a b =
    decide (toLex (a.roundRetired, a.member.generationId) <
      toLex (b.roundRetired, b.member.generationId)) := by
  have hiff : toLex (a.roundRetired, a.member.generationId) <
      toLex (b.roundRetired, b.member.generationId) ↔ byRoundRetired a b = true := by
    rw [Prod.Lex.toLex_lt_toLex, byRoundRetired, byGenerationId, thenLt]
    by_cases h : a.roundRetired = b.roundRetired
    · simp [h]
    · simp [h]
  rw [Bool.eq_iff_iff, decide_eq_true_iff]
  exact hiff.symm

/-- The retire pass of the second call would keep every member. -/
theorem retireReason_of_mem_arrivals {m : FrontierMember Exact}
    (h : m ∈ arrivals champion weights roundIndex frontier candidates) :
    retireReason champion weights m = none := by
  rcases mem_append.mp h with h | h
  · exact of_decide_eq_true (mem_filter.mp h).2
  · obtain ⟨c, -, hc⟩ := mem_filterMap.mp h
    split at hc
    · cases hc
    · rename_i hknown
      refine retireReason_newcomer hc fun heq => hknown ?_
      rw [← newcomer_generationId _ _ _ hc, heq]
      exact mem_append_right _ mem_cons_self

/-- The pass that the second call starts from: nobody retires. -/
theorem retirePass_of_fits {f : ParetoFrontier Exact}
    (h : ∀ m ∈ f.members, retireReason champion weights m = none) :
    retirePass champion weights roundIndex f = { surviving := f.members, retired := f.retired } := by
  have hkept : (f.members.filter fun m => decide (retireReason champion weights m = none)) =
      f.members := filter_eq_self.mpr fun m hm => decide_eq_true (h m hm)
  have hnone : f.members.filterMap (retirement champion weights roundIndex) = [] :=
    filterMap_eq_nil_iff.mpr fun m hm => by rw [retirement, h m hm]; rfl
  have hdropped : (f.members.filter fun m => decide (retireReason champion weights m ≠ none)) = [] :=
    filter_eq_nil_iff.mpr fun m hm => by simp [h m hm]
  rw [retirePass_eq, hkept, hnone, hdropped, append_nil]
  rfl

variable (champion weights roundIndex frontier candidates) in
/-- The second call admits nobody, retires nobody and returns the record it was given. -/
def Unmoved : Prop :=
  (resettle champion weights roundIndex frontier candidates).admitted = [] ∧
    (resettle champion weights roundIndex frontier candidates).retired = [] ∧
    (resettle champion weights roundIndex frontier candidates).frontier =
      (updateFrontier champion weights roundIndex frontier candidates).frontier

/-- A candidate is refused exactly if a member beats it. -/
theorem covered_iff_refused (hplacebo : champion.isPlacebo = false)
    (hids : (candidates.map (·.generationId)).Nodup) (hsurviving : p.surviving =
      (updateFrontier champion weights roundIndex frontier candidates).frontier.members)
    (hknown : p.known = p.surviving.map (·.generationId) ++ [champion.generationId]) :
    Covered champion weights roundIndex frontier candidates ↔
      ∀ c ∈ candidates, Refused champion weights roundIndex p c := by
  have hmembers : ∀ m, m ∈ p.surviving ↔ _ := fun m =>
    hsurviving ▸ members_update hplacebo hids m
  refine forall_congr' fun c => imp_congr_right fun _ => ?_
  rw [Refused, hknown, mem_append, mem_singleton, mem_map]
  constructor
  · intro h
    by_cases hid : (∃ m ∈ p.surviving, m.generationId = c.generationId) ∨
        c.generationId = champion.generationId
    · exact .inl hid
    · obtain ⟨hmember, hchampion⟩ := not_or.mp hid
      refine .inr fun n hn => ?_
      have hnid := newcomer_generationId _ _ _ hn
      obtain ⟨i, m, hi, hstands, hcovers⟩ := h n hn (hnid ▸ hchampion)
      have hm := (hmembers m).mpr ⟨i, hi, hstands⟩
      rcases hcovers with heq | hbeats
      · exact absurd ⟨m, hm, heq.trans hnid⟩ hmember
      · exact ⟨m, hm, hbeats⟩
  · intro h n hn hnot
    have hnid := newcomer_generationId _ _ _ hn
    have hcovered : ∃ m ∈ p.surviving,
        m.generationId = n.generationId ∨ beatsMember weights m n = true := by
      rcases h with (⟨m, hm, heq⟩ | heq) | h
      · exact ⟨m, hm, .inl (heq.trans hnid.symm)⟩
      · exact absurd (hnid.trans heq) hnot
      · obtain ⟨m, hm, hbeats⟩ := h n hn
        exact ⟨m, hm, .inr hbeats⟩
    obtain ⟨m, hm, hcovers⟩ := hcovered
    obtain ⟨i, hi, hstands⟩ := (hmembers m).mp hm
    exact ⟨i, m, hi, hstands, hcovers⟩

variable (champion weights roundIndex frontier candidates) in
/-- What the admit pass of the second call starts from. -/
def secondStart : Pass Exact :=
  let first := (updateFrontier champion weights roundIndex frontier candidates).frontier
  { surviving := first.members
    retired := first.retired
    known := first.members.map (·.generationId) ++ [champion.generationId] }

theorem settle_second (hplacebo : champion.isPlacebo = false)
    (hids : (candidates.map (·.generationId)).Nodup) :
    settle champion weights roundIndex
        (updateFrontier champion weights roundIndex frontier candidates).frontier candidates =
      (inTurn candidates).foldl (admitOne champion weights roundIndex)
        (secondStart champion weights roundIndex frontier candidates) := by
  rw [settle, retirePass_of_fits]
  · rfl
  · intro m hm
    obtain ⟨i, hi, -⟩ := (members_update hplacebo hids m).mp hm
    exact retireReason_of_mem_arrivals (mem_of_getElem? hi)

/-- Settling a round again leaves the record alone exactly if every candidate that the
champion leaves in stands among the arrivals or is dominated by one that does. -/
theorem unmoved_iff_covered (hids : (candidates.map (·.generationId)).Nodup) :
    Unmoved champion weights roundIndex frontier candidates ↔
      champion.isPlacebo = true ∨ Covered champion weights roundIndex frontier candidates := by
  cases hplacebo : champion.isPlacebo with
  | true =>
    have hupdate : ∀ f : ParetoFrontier Exact, updateFrontier champion weights roundIndex f candidates =
        { frontier := f } := fun f => if_pos hplacebo
    refine iff_of_true ?_ (.inl rfl)
    rw [Unmoved, resettle, hupdate, hupdate]
    exact ⟨rfl, rfl, rfl⟩
  | false =>
    have hrefused : Covered champion weights roundIndex frontier candidates ↔
        ∀ c ∈ candidates, Refused champion weights roundIndex
          (secondStart champion weights roundIndex frontier candidates) c :=
      covered_iff_refused hplacebo hids rfl rfl
    have hfirst : updateFrontier champion weights roundIndex frontier candidates = _ :=
      @update_eq weights frontier ⟨champion, candidates, roundIndex⟩ hplacebo
    have hsecond : resettle champion weights roundIndex frontier candidates = _ :=
      @update_eq weights _ ⟨champion, candidates, roundIndex⟩ hplacebo
    simp only [settle_second hplacebo hids] at hsecond
    rw [or_iff_right Bool.false_ne_true, hrefused]
    constructor
    · intro h c hc
      have hadmitted := h.1
      rw [hsecond] at hadmitted
      exact refused_of_foldl_admitOne hadmitted c ((mem_sorted _ _ c).mpr hc)
    · intro h
      have hturns : ∀ c ∈ inTurn candidates, Refused champion weights roundIndex
          (secondStart champion weights roundIndex frontier candidates) c :=
        fun c hc => h c ((mem_sorted _ candidates c).mp hc)
      rw [foldl_admitOne_of_refused hturns] at hsecond
      rw [Unmoved, hsecond]
      refine ⟨rfl, rfl, ?_⟩
      rw [secondStart, hfirst]
      simp only [sorted_byGenerationId, sorted_sorted byRoundRetired_eq]

end Resettle

/-! ## A candidate that comes back -/

/-- A candidate with two charges. -/
def candidateWith (generationId : String) (cost drift : Rat) : FrontierCandidate Exact where
  generationId := generationId
  aggregate :=
    { scalar := .fin (cost + drift)
      namespaceAggregates :=
        some [("cost:", .fin cost), ("drift:", .fin drift), ("failure:", .fin 0)] }

/-- Weights on three axes. -/
def threeAxes : Gate.Weights Exact where
  promoteMargin := .fin 1
  namespaceWeights := [("cost:", .fin 1), ("drift:", .fin 1), ("failure:", .fin 1)]
  diffComplexityCeiling := .fin 0

/-- Each dominates the one before it, and the last does not dominate the first. -/
def slate : List (FrontierCandidate Exact) :=
  [candidateWith "v1" 10 10, candidateWith "v2" 9 (21 / 2), candidateWith "v3" 8 11]

/-- The member that a candidate of the slate is let in as. -/
def slateMember (generationId : String) (cost drift : Rat) : FrontierMember Exact where
  generationId := generationId
  roundAdmitted := 1
  championGenerationId := "v0"
  axisValues := [("cost:", .fin cost), ("drift:", .fin drift), ("failure:", .fin 0)]
  beatsChampionOn := ["cost:", "drift:"]
  scalar := some (.fin (cost + drift))

theorem frontierAxes_threeAxes : frontierAxes threeAxes = ["cost:", "drift:", "failure:"] := by
  have hfilter : (threeAxes.namespaceWeights.filter fun w => !PyFloat.eq w.2 PyFloat.zero).map
      Prod.fst = ["cost:", "drift:", "failure:"] := by decide
  rw [frontierAxes, hfilter]
  exact sorted_of_pairwise (by decide)

theorem newcomer_slate (generationId : String) (cost drift : Rat) (hcost : cost ≤ 11)
    (hdrift : drift ≤ 11) : newcomer (candidateWith "v0" 12 12) threeAxes 1
      (candidateWith generationId cost drift) = some (slateMember generationId cost drift) := by
  have hvalues : ∀ (gid : String) (c d : Rat), axisValues (candidateWith gid c d).aggregate
      ["cost:", "drift:", "failure:"] =
        [("cost:", .fin c), ("drift:", .fin d), ("failure:", .fin 0)] := fun _ _ _ => rfl
  have hbetter : ∀ x : Rat, x ≤ 11 → better (Exact.fin 1) (.fin x) (.fin 12) = true := by
    intro x hx
    have hmargin : PyFloat.le (Exact.fin 1) (PyFloat.sub (.fin 12) (.fin x)) = true := by
      change PyFloat.le (Exact.fin 1) (.fin (12 + -x)) = true
      rw [Exact.le_fin]
      exact decide_eq_true (by linarith)
    have hlt : PyFloat.lt (Exact.fin x) (.fin 12) = true := decide_eq_true (by linarith)
    rw [better, hmargin, hlt]
    rfl
  have hsame : better (Exact.fin 1) (.fin 0) (.fin 0) = false := by decide +kernel
  have hbeats : beatsOn [("cost:", Exact.fin cost), ("drift:", .fin drift), ("failure:", .fin 0)]
      [("cost:", .fin 12), ("drift:", .fin 12), ("failure:", .fin 0)] threeAxes.promoteMargin =
        ["cost:", "drift:"] := by
    have hkept : ([("cost:", Exact.fin cost), ("drift:", .fin drift), ("failure:", .fin 0)].filter
        fun item => (Dict.get? [("cost:", Exact.fin 12), ("drift:", .fin 12), ("failure:", .fin 0)]
          item.1).elim false (better (.fin 1) item.2)) =
          [("cost:", .fin cost), ("drift:", .fin drift)] := by
      simp [Dict.get?, hbetter cost hcost, hbetter drift hdrift, hsame]
    have hsorted : Gate.sortIds ["cost:", "drift:"] = ["cost:", "drift:"] :=
      sorted_of_pairwise (by decide)
    exact (congrArg (fun kept => Gate.sortIds (kept.map Prod.fst)) hkept).trans hsorted
  have hregressed : Gate.regressedNamespaces (candidateWith "v0" 12 12).aggregate
      (candidateWith generationId cost drift).aggregate threeAxes = [] := sorted_of_pairwise .nil
  unfold newcomer
  rw [championValues, frontierAxes_threeAxes, hvalues, hvalues, hregressed]
  dsimp only
  rw [hbeats]
  rfl

theorem displaced_candidate_comes_back : (slate.map (·.generationId)).Nodup ∧
    ¬Unmoved (candidateWith "v0" 12 12) threeAxes 1 (emptyFrontier "e") slate := by
  have hids : (slate.map (·.generationId)).Nodup := by decide
  refine ⟨hids, fun h => ?_⟩
  have hturn : inTurn slate = slate := sorted_of_pairwise (by decide)
  have hnewcomers : newcomers (candidateWith "v0" 12 12) threeAxes 1 (emptyFrontier "e") slate =
      [slateMember "v1" 10 10, slateMember "v2" 9 (21 / 2), slateMember "v3" 8 11] := by
    have h₁ := newcomer_slate "v1" 10 10 (by norm_num) (by norm_num)
    have h₂ := newcomer_slate "v2" 9 (21 / 2) (by norm_num) (by norm_num)
    have h₃ := newcomer_slate "v3" 8 11 (by norm_num) (by norm_num)
    rw [newcomers, hturn, slate, List.filterMap_cons, List.filterMap_cons, List.filterMap_cons,
      h₁, h₂, h₃]
    rfl
  have hmembers : (secondStart (candidateWith "v0" 12 12) threeAxes 1 (emptyFrontier "e")
      slate).surviving = [slateMember "v3" 8 11] := by
    have hpass : (settle (candidateWith "v0" 12 12) threeAxes 1 (emptyFrontier "e") slate).surviving =
        [slateMember "v3" 8 11] := by
      rw [surviving_settle hids, hnewcomers]
      decide +kernel
    change sorted byGenerationId
      (settle (candidateWith "v0" 12 12) threeAxes 1 (emptyFrontier "e") slate).surviving = _
    rw [hpass]
    exact sorted_of_pairwise (List.pairwise_singleton _ _)
  -- The first candidate is neither on the record nor dominated by the only one that is.
  have hrefused : Refused (candidateWith "v0" 12 12) threeAxes 1 (secondStart (candidateWith "v0" 12 12)
      threeAxes 1 (emptyFrontier "e") slate) (candidateWith "v1" 10 10) :=
    (covered_iff_refused rfl hids rfl rfl).mp
      (((unmoved_iff_covered hids).mp h).resolve_left (by decide)) _ List.mem_cons_self
  rcases hrefused with hknown | hdominated
  · change "v1" ∈ (secondStart (candidateWith "v0" 12 12) threeAxes 1 (emptyFrontier "e")
      slate).surviving.map (·.generationId) ++ ["v0"] at hknown
    rw [hmembers] at hknown
    exact absurd hknown (by decide)
  · obtain ⟨m, hm, hbeats⟩ := hdominated _ (newcomer_slate "v1" 10 10 (by norm_num) (by norm_num))
    rw [hmembers, List.mem_singleton] at hm
    rw [hm] at hbeats
    exact absurd hbeats (by decide +kernel)

theorem unmoved_iff_covered_slate :
    (slate.map (·.generationId)).Nodup ∧
      (Unmoved (candidateWith "v0" 12 12) threeAxes 1 (emptyFrontier "e") slate ↔
        (candidateWith "v0" 12 12).isPlacebo = true ∨
          Covered (candidateWith "v0" 12 12) threeAxes 1 (emptyFrontier "e") slate) :=
  ⟨by decide, unmoved_iff_covered (by decide)⟩

end Zicato.Pareto
