import Zicato.ParetoPass
import Zicato.ParetoRecord

/-! # The frontier record over rounds

After every round that has a champion, the members of the record are apart from it
and from each other, and whatever was ever on the record is still on it or retired
with a reason.  The numbers are exact, with `nan` and the infinities. -/
open List
namespace Zicato.Pareto

section Newcomer

variable {champion : FrontierCandidate Exact} {weights : Gate.Weights Exact} {roundIndex : Int}

variable {candidate : FrontierCandidate Exact} {n : FrontierMember Exact}

/-- The checks a candidate has passed, read off the member it becomes. -/
theorem newcomer_eq_some (h : newcomer champion weights roundIndex candidate = some n) :
    candidate.isPlacebo = false ∧
      n.axisValues = axisValues candidate.aggregate (frontierAxes weights) ∧
      Gate.regressedNamespaces champion.aggregate candidate.aggregate weights = [] ∧
      beatsOn n.axisValues (championValues champion weights) weights.promoteMargin ≠ [] := by
  unfold newcomer at h
  dsimp only at h
  split at h
  · cases h
  · rename_i hpassed
    obtain ⟨hplacebo, -, hregressed, hbeats⟩ : _ ∧ _ ∧ _ ∧ _ := by
      simpa only [not_or] using hpassed
    rw [← Option.some.inj h]
    exact ⟨by simpa using hplacebo, rfl, not_not.mp hregressed, hbeats⟩

/-- The retire pass would keep a newcomer that is not the champion. -/
theorem retireReason_newcomer (h : newcomer champion weights roundIndex candidate = some n)
    (hid : n.generationId ≠ champion.generationId) : retireReason champion weights n = none := by
  obtain ⟨-, hvalues, hregressed, hbeats⟩ := newcomer_eq_some h
  have hmonotone := regressedNamespaces_asAgg hvalues hregressed
  have hdominates : dominates weights.promoteMargin (championValues champion weights)
      n.axisValues = false := by
    obtain ⟨ns, value, other, hmem, hget, hbetter⟩ := exists_of_beatsOn hbeats
    have hmember : Dict.get? n.axisValues ns = some value := by
      rw [hvalues] at hmem ⊢
      exact get?_of_mem_axisValues hmem
    have hother : (ns, other) ∈ championValues champion weights :=
      (Dict.get?_eq_some_iff (nodup_keys_axisValues _ _) ns other).mp hget
    exact dominates_eq_false hother hmember hbetter (better_asymm hbetter)
  rw [retireReason, if_neg hid, hmonotone, if_neg (not_not_intro rfl), hdominates]
  rfl

/-- Who stays is not the champion, and nothing speaks against it. -/
theorem retireReason_eq_none {m : FrontierMember Exact} (h : retireReason champion weights m = none) :
    m.generationId ≠ champion.generationId ∧
      Gate.regressedNamespaces champion.aggregate (asAgg m) weights = [] ∧
      dominates weights.promoteMargin (championValues champion weights) m.axisValues = false := by
  unfold retireReason at h
  split at h
  · cases h
  · rename_i hid
    split at h
    · cases h
    · rename_i hregressed
      split at h
      · cases h
      · rename_i hdominates
        exact ⟨hid, not_not.mp hregressed, by simpa using hdominates⟩

end Newcomer

/-! ## One round -/

/-- The arguments of a call of `update_frontier` that change from round to round. -/
structure Call (F : Type) where
  champion : FrontierCandidate F
  candidates : List (FrontierCandidate F)
  roundIndex : Int

section Round

variable (weights : Gate.Weights Exact) (call : Call Exact)

/-- `update_frontier` as called. -/
def Call.update (frontier : ParetoFrontier Exact) : FrontierUpdate Exact :=
  updateFrontier call.champion weights call.roundIndex frontier call.candidates

/-- The newcomer of the round that a candidate is. -/
def Call.newcomer (candidate : FrontierCandidate Exact) : Option (FrontierMember Exact) :=
  Pareto.newcomer call.champion weights call.roundIndex candidate

/-- The round retires a member with its index, and for a reason that holds. -/
def Call.Retires (entry : RetiredMember Exact) : Prop :=
  entry.roundRetired = call.roundIndex ∧
    (retireReason call.champion weights entry.member = some entry.reason ∨
      ∃ candidate ∈ call.candidates, ∃ n, call.newcomer weights candidate = some n ∧
        dominates weights.promoteMargin n.axisValues entry.member.axisValues = true ∧
        entry.reason = dominatedByPrefix ++ n.generationId)

/-- A member that stands, or that the round has retired. -/
def Call.Accounted (surviving : List (FrontierMember Exact)) (retired : List (RetiredMember Exact))
    (m : FrontierMember Exact) : Prop :=
  m ∈ surviving ∨ ∃ entry ∈ retired, entry.member = m ∧ call.Retires weights entry

/-- What holds after every turn of the admit pass. -/
structure PassKeeps (frontier : ParetoFrontier Exact) (p : Pass Exact) : Prop where
  champion_known : call.champion.generationId ∈ p.known
  known : ∀ m ∈ p.surviving, m.generationId ∈ p.known
  unique : (p.surviving.map (·.generationId)).Nodup
  fits : ∀ m ∈ p.surviving, retireReason call.champion weights m = none
  apart : Skyline.Apart (beatsMember weights) p.surviving
  source : ∀ m ∈ p.surviving, m ∈ frontier.members ∨
    ∃ candidate ∈ call.candidates, call.newcomer weights candidate = some m
  members : ∀ m ∈ frontier.members, call.Accounted weights p.surviving p.retired m
  admitted : ∀ generationId ∈ p.admittedIds, ∃ m, m.generationId = generationId ∧
    call.Accounted weights p.surviving p.retired m
  retired : ∀ entry ∈ p.retired, entry ∈ frontier.retired ∨ entry.member ∈ frontier.members ∨
    ∃ candidate ∈ call.candidates, call.newcomer weights candidate = some entry.member
  retained : ∀ entry ∈ frontier.retired, entry ∈ p.retired

variable {weights call} {frontier : ParetoFrontier Exact} {p : Pass Exact}

/-- What the first pass leaves. -/
theorem PassKeeps.start (hunique : (frontier.members.map (·.generationId)).Nodup)
    (hapart : Skyline.Apart (beatsMember weights) frontier.members) :
    PassKeeps weights call frontier
      { retirePass call.champion weights call.roundIndex frontier with
        known := (retirePass call.champion weights call.roundIndex frontier).surviving.map
          (·.generationId) ++ [call.champion.generationId] } := by
  rw [retirePass_eq]
  refine ⟨mem_append_right _ mem_cons_self, fun m hm => ?_, ?_, fun m hm => ?_,
    hapart.sublist filter_sublist, fun m hm => .inl (mem_of_mem_filter hm),
    fun m hm => ?_, (fun _ h => nomatch h), fun entry hentry => ?_, fun entry hentry => ?_⟩
  · exact mem_append_left _ (mem_map_of_mem hm)
  · exact hunique.sublist (filter_sublist.map _)
  · exact of_decide_eq_true (mem_filter.mp hm).2
  · cases h : retireReason call.champion weights m with
    | none => exact .inl (mem_filter.mpr ⟨hm, decide_eq_true h⟩)
    | some reason =>
      refine .inr ⟨⟨m, call.roundIndex, reason⟩, mem_append_right _ ?_, rfl, rfl, .inl h⟩
      exact mem_filterMap.mpr ⟨m, hm, by rw [retirement, h]; rfl⟩
  · rcases mem_append.mp hentry with hold | hnew
    · exact .inl hold
    · obtain ⟨m, hm, hentry⟩ := mem_filterMap.mp hnew
      obtain ⟨reason, -, rfl⟩ := Option.map_eq_some_iff.mp hentry
      exact .inr (.inl hm)
  · exact mem_append_left _ hentry

variable {candidate : FrontierCandidate Exact}

variable {n : FrontierMember Exact}

theorem Call.Accounted.letIn {m : FrontierMember Exact}
    (h : call.Accounted weights p.surviving p.retired m) (hc : candidate ∈ call.candidates)
    (hn : call.newcomer weights candidate = some n) :
    call.Accounted weights (letIn weights call.roundIndex p n).surviving
      (letIn weights call.roundIndex p n).retired m := by
  rcases h with hm | ⟨entry, hentry, hrest⟩
  · cases hb : beatsMember weights n m with
    | false => exact .inl (mem_append_left _ (mem_filter.mpr ⟨hm, by simp [hb]⟩))
    | true =>
      refine .inr ⟨displacement call.roundIndex n m, mem_append_right _ ?_, rfl, rfl, .inr ?_⟩
      · exact mem_map_of_mem (mem_filter.mpr ⟨hm, hb⟩)
      · exact ⟨candidate, hc, n, hn, hb, rfl⟩
  · exact .inr ⟨entry, mem_append_left _ hentry, hrest⟩

/-- A newcomer keeps the account of the pass. -/
theorem PassKeeps.letIn (h : PassKeeps weights call frontier p) (hc : candidate ∈ call.candidates)
    (hn : call.newcomer weights candidate = some n) (hnew : n.generationId ∉ p.known)
    (hfree : p.surviving.any (fun m => beatsMember weights m n) = false) :
    PassKeeps weights call frontier (letIn weights call.roundIndex p n) := by
  have hadmit : (Pareto.letIn weights call.roundIndex p n).surviving =
      Skyline.admitOne (beatsMember weights) p.surviving n := by
    rw [Skyline.admitOne, hfree]
    rfl
  have hmem : ∀ m ∈ (Pareto.letIn weights call.roundIndex p n).surviving, m ∈ p.surviving ∨ m = n :=
    fun m hm => (mem_append.mp hm).imp mem_of_mem_filter mem_singleton.mp
  constructor
  · exact mem_append_left _ h.champion_known
  · intro m hm
    rcases hmem m hm with hm | rfl
    · exact mem_append_left _ (h.known m hm)
    · exact mem_append_right _ mem_cons_self
  · rw [Pareto.letIn, map_append]
    refine nodup_append.mpr ⟨h.unique.sublist (filter_sublist.map _), by simp, ?_⟩
    rintro a ha b hb rfl
    obtain ⟨m, hm, rfl⟩ := mem_map.mp ha
    rw [map_singleton, mem_singleton] at hb
    exact hnew (hb ▸ h.known m (mem_of_mem_filter hm))
  · intro m hm
    rcases hmem m hm with hm | rfl
    · exact h.fits m hm
    · exact retireReason_newcomer hn fun heq => hnew (heq ▸ h.champion_known)
  · exact hadmit ▸ Skyline.apart_admitOne h.apart n
  · intro m hm
    rcases hmem m hm with hm | rfl
    · exact h.source m hm
    · exact .inr ⟨candidate, hc, hn⟩
  · exact fun m hm => (h.members m hm).letIn hc hn
  · intro generationId hg
    rcases mem_append.mp hg with hg | hg
    · obtain ⟨m, hm, haccounted⟩ := h.admitted generationId hg
      exact ⟨m, hm, haccounted.letIn hc hn⟩
    · exact ⟨n, (mem_singleton.mp hg).symm, .inl (mem_append_right _ mem_cons_self)⟩
  · intro entry hentry
    rcases mem_append.mp hentry with hold | hnew
    · exact h.retired entry hold
    · obtain ⟨m, hm, rfl⟩ := mem_map.mp hnew
      exact .inr (h.source m (mem_of_mem_filter hm))
  · exact fun entry hentry => mem_append_left _ (h.retained entry hentry)

/-- A candidate keeps the account of the pass. -/
theorem PassKeeps.turn (h : PassKeeps weights call frontier p) (hc : candidate ∈ call.candidates) :
    PassKeeps weights call frontier (admitOne call.champion weights call.roundIndex p candidate) := by
  rw [admitOne_eq]
  split
  · exact h
  · rename_i hknown
    split
    · exact h
    · rename_i n hn
      split
      · exact h
      · rename_i hfree
        refine h.letIn hc hn ?_ (by simpa using hfree)
        rw [newcomer_generationId _ _ _ hn]
        exact hknown

/-- The whole pass keeps it. -/
theorem PassKeeps.settle (hunique : (frontier.members.map (·.generationId)).Nodup)
    (hapart : Skyline.Apart (beatsMember weights) frontier.members) :
    PassKeeps weights call frontier
      (settle call.champion weights call.roundIndex frontier call.candidates) := by
  have hfrom : ∀ (rest : List (FrontierCandidate Exact)) (p : Pass Exact),
      (∀ c ∈ rest, c ∈ call.candidates) → PassKeeps weights call frontier p →
        PassKeeps weights call frontier
          (rest.foldl (Pareto.admitOne call.champion weights call.roundIndex) p) := by
    intro rest
    induction rest with
    | nil => exact fun p _ h => h
    | cons c rest ih =>
      intro p hrest h
      exact ih _ (fun c' hc' => hrest c' (mem_cons_of_mem _ hc'))
        (h.turn (hrest c mem_cons_self))
  exact hfrom _ _ (fun c hc => (mem_sorted _ _ c).mp hc) (.start hunique hapart)

end Round

/-! ## Runs -/

section Runs

variable (weights : Gate.Weights Exact) (epochId : String)

/-- The record after the calls, from an empty one. -/
def run (calls : List (Call Exact)) : ParetoFrontier Exact :=
  calls.foldl (fun frontier call => (call.update weights frontier).frontier)
    (emptyFrontier epochId)

theorem run_snoc (calls : List (Call Exact)) (call : Call Exact) :
    run weights epochId (calls ++ [call]) =
      (call.update weights (run weights epochId calls)).frontier := by
  rw [run, foldl_append]
  rfl

/-- What the record promises about its members, whoever is the champion. -/
structure WellKept (f : ParetoFrontier Exact) : Prop where
  unique : (f.members.map (·.generationId)).Nodup
  apart : Skyline.Apart (beatsMember weights) f.members

/-- The record measured against a champion. -/
structure Sound (champion : FrontierCandidate Exact) (f : ParetoFrontier Exact) : Prop where
  unique : (f.members.map (·.generationId)).Nodup
  not_champion : ∀ m ∈ f.members, m.generationId ≠ champion.generationId
  not_dominated : ∀ m ∈ f.members, ∀ m' ∈ f.members, m ≠ m' →
    dominates weights.promoteMargin m.axisValues m'.axisValues = false
  champion_dominates_none : ∀ m ∈ f.members,
    dominates weights.promoteMargin (championValues champion weights) m.axisValues = false
  no_regression : ∀ m ∈ f.members,
    Gate.regressedNamespaces champion.aggregate (asAgg m) weights = []

variable {weights epochId} {f : ParetoFrontier Exact} {call : Call Exact}

theorem update_of_placebo (h : call.champion.isPlacebo = true) :
    call.update weights f = { frontier := f } := if_pos h

/-- The record that a round with a champion writes. -/
theorem update_eq (h : call.champion.isPlacebo = false) :
    let p := settle call.champion weights call.roundIndex f call.candidates
    call.update weights f =
      { frontier :=
          { epochId := f.epochId
            axes := frontierAxes weights
            margin := weights.promoteMargin
            championGenerationId := call.champion.generationId
            updatedRound := call.roundIndex
            members := sorted byGenerationId p.surviving
            retired := sorted byRoundRetired p.retired }
        admitted := p.admittedIds
        retired := p.retiredIds } := by
  rw [Call.update, updateFrontier, h]
  rfl

theorem WellKept.update (hf : WellKept weights f) (call : Call Exact) :
    WellKept weights (call.update weights f).frontier := by
  cases hplacebo : call.champion.isPlacebo with
  | true => rwa [update_of_placebo hplacebo]
  | false =>
    have hkeeps : PassKeeps weights call f _ := .settle hf.unique hf.apart
    have hperm := (sorted_perm byGenerationId
      (settle call.champion weights call.roundIndex f call.candidates).surviving).symm
    rw [update_eq hplacebo]
    exact ⟨(hperm.map _).nodup_iff.mp hkeeps.unique, hkeeps.apart.perm hperm⟩

theorem wellKept_run (calls : List (Call Exact)) : WellKept weights (run weights epochId calls) := by
  induction calls using reverseRecOn with
  | nil => exact ⟨nodup_nil, Pairwise.nil⟩
  | append_singleton calls call ih =>
    rw [run_snoc]
    exact ih.update call

/-- A round with a champion leaves a record that is sound for it. -/
theorem WellKept.sound_update (hf : WellKept weights f) (hplacebo : call.champion.isPlacebo = false) :
    Sound weights call.champion (call.update weights f).frontier := by
  have hkept := hf.update call
  have hkeeps : PassKeeps weights call f _ := .settle hf.unique hf.apart
  have hfits : ∀ m ∈ (call.update weights f).frontier.members,
      retireReason call.champion weights m = none := by
    intro m hm
    rw [update_eq hplacebo, mem_sorted] at hm
    exact hkeeps.fits m hm
  refine ⟨hkept.unique, fun m hm => (retireReason_eq_none (hfits m hm)).1, ?_,
    fun m hm => (retireReason_eq_none (hfits m hm)).2.2,
    fun m hm => (retireReason_eq_none (hfits m hm)).2.1⟩
  intro m hm m' hm' hne
  exact hkept.apart.of_ne hm hm' hne

/-! ## Nothing is lost -/

variable (weights) in
/-- On the record, or retired from it by one of the calls. -/
def OnRecord (calls : List (Call Exact)) (f : ParetoFrontier Exact) (m : FrontierMember Exact) :
    Prop :=
  m ∈ f.members ∨ ∃ entry ∈ f.retired, entry.member = m ∧
    ∃ call ∈ calls, call.Retires weights entry

variable {m : FrontierMember Exact}

theorem onRecord_of_accounted {p : Pass Exact} (h : call.Accounted weights p.surviving p.retired m)
    (hmembers : ∀ m' ∈ p.surviving, m' ∈ f.members) (hretired : ∀ e ∈ p.retired, e ∈ f.retired) :
    OnRecord weights [call] f m := by
  refine h.imp (hmembers m) ?_
  rintro ⟨entry, hentry, hm, hretires⟩
  exact ⟨entry, hretired entry hentry, hm, call, mem_cons_self, hretires⟩

variable {calls : List (Call Exact)}

theorem OnRecord.mono {calls' : List (Call Exact)} (h : OnRecord weights calls f m)
    (hsub : ∀ call ∈ calls, call ∈ calls') : OnRecord weights calls' f m := by
  refine h.imp_right ?_
  rintro ⟨entry, hentry, hm, call, hcall, hretires⟩
  exact ⟨entry, hentry, hm, call, hsub call hcall, hretires⟩

/-- What was retired stays retired. -/
theorem WellKept.retained (hf : WellKept weights f) (call : Call Exact) {entry : RetiredMember Exact}
    (h : entry ∈ f.retired) : entry ∈ (call.update weights f).frontier.retired := by
  cases hplacebo : call.champion.isPlacebo with
  | true => rwa [update_of_placebo hplacebo]
  | false =>
    rw [update_eq hplacebo, mem_sorted]
    exact (PassKeeps.settle hf.unique hf.apart).retained entry h

theorem WellKept.onRecord_of_mem (hf : WellKept weights f) (call : Call Exact)
    (hm : m ∈ f.members) : OnRecord weights [call] (call.update weights f).frontier m := by
  cases hplacebo : call.champion.isPlacebo with
  | true =>
    rw [update_of_placebo hplacebo]
    exact .inl hm
  | false =>
    have hkeeps : PassKeeps weights call f _ := .settle hf.unique hf.apart
    rw [update_eq hplacebo]
    exact onRecord_of_accounted (hkeeps.members m hm) (fun m' h => (mem_sorted _ _ m').mpr h)
      fun e h => (mem_sorted _ _ e).mpr h

/-- Whatever a round admits is on the record, or already displaced by another of the round. -/
theorem WellKept.onRecord_of_admitted (hf : WellKept weights f) (call : Call Exact)
    {generationId : String} (hg : generationId ∈ (call.update weights f).admitted) :
    ∃ m, m.generationId = generationId ∧
      OnRecord weights [call] (call.update weights f).frontier m := by
  cases hplacebo : call.champion.isPlacebo with
  | true =>
    rw [update_of_placebo hplacebo] at hg
    cases hg
  | false =>
    have hkeeps : PassKeeps weights call f _ := .settle hf.unique hf.apart
    rw [update_eq hplacebo] at hg ⊢
    obtain ⟨m, hm, haccounted⟩ := hkeeps.admitted generationId hg
    exact ⟨m, hm, onRecord_of_accounted haccounted (fun m' h => (mem_sorted _ _ m').mpr h)
      fun e h => (mem_sorted _ _ e).mpr h⟩

theorem OnRecord.update (hf : WellKept weights f) (h : OnRecord weights calls f m)
    (call : Call Exact) :
    OnRecord weights (calls ++ [call]) (call.update weights f).frontier m := by
  rcases h with hm | ⟨entry, hentry, hm, call', hcall', hretires⟩
  · exact (hf.onRecord_of_mem call hm).mono fun c hc => mem_append_right _ hc
  · exact .inr ⟨entry, hf.retained call hentry, hm, call', mem_append_left _ hcall', hretires⟩

theorem OnRecord.run {before : List (Call Exact)}
    (h : OnRecord weights calls (run weights epochId before) m) (after : List (Call Exact)) :
    OnRecord weights (calls ++ after) (run weights epochId (before ++ after)) m := by
  induction after using reverseRecOn with
  | nil => simpa using h
  | append_singleton after call ih =>
    rw [← List.append_assoc, ← List.append_assoc, run_snoc]
    exact ih.update (wellKept_run _) call

/-! ## Where members come from -/

variable (weights) in
/-- A candidate of one of the calls that passed its checks. -/
def Offered (calls : List (Call Exact)) (m : FrontierMember Exact) : Prop :=
  ∃ call ∈ calls, ∃ candidate ∈ call.candidates, call.newcomer weights candidate = some m

/-- Whoever is on the frontier was offered by a call. -/
theorem offered_run (calls : List (Call Exact)) :
    (∀ m ∈ (run weights epochId calls).members, Offered weights calls m) ∧
      ∀ entry ∈ (run weights epochId calls).retired, Offered weights calls entry.member := by
  induction calls using reverseRecOn with
  | nil => exact ⟨(fun _ h => nomatch h), (fun _ h => nomatch h)⟩
  | append_singleton calls call ih =>
    have hearlier : ∀ m, Offered weights calls m → Offered weights (calls ++ [call]) m :=
      fun m ⟨c, hc, h⟩ => ⟨c, mem_append_left _ hc, h⟩
    have hnow : ∀ m, (∃ candidate ∈ call.candidates, call.newcomer weights candidate = some m) →
        Offered weights (calls ++ [call]) m :=
      fun m h => ⟨call, mem_append_right _ mem_cons_self, h⟩
    have hf : WellKept weights (run weights epochId calls) := wellKept_run calls
    rw [run_snoc]
    cases hplacebo : call.champion.isPlacebo with
    | true =>
      rw [update_of_placebo hplacebo]
      exact ⟨fun m hm => hearlier m (ih.1 m hm), fun e he => hearlier _ (ih.2 e he)⟩
    | false =>
      have hkeeps : PassKeeps weights call (run weights epochId calls) _ :=
        .settle hf.unique hf.apart
      rw [update_eq hplacebo]
      constructor
      · intro m hm
        rcases hkeeps.source m ((mem_sorted _ _ m).mp hm) with hold | hnew
        · exact hearlier m (ih.1 m hold)
        · exact hnow m hnew
      · intro e he
        rcases hkeeps.retired e ((mem_sorted _ _ e).mp he) with hold | hold | hnew
        · exact hearlier _ (ih.2 e hold)
        · exact hearlier _ (ih.1 _ hold)
        · exact hnow _ hnew

theorem Offered.nodup_keys (h : Offered weights calls m) : (Dict.keys m.axisValues).Nodup := by
  obtain ⟨call, -, candidate, -, hm⟩ := h
  rw [(newcomer_eq_some hm).2.1]
  exact nodup_keys_axisValues _ _

theorem Offered.not_placebo (h : Offered weights calls m)
    : ∃ call ∈ calls, ∃ candidate ∈ call.candidates,
      candidate.generationId = m.generationId ∧ candidate.isPlacebo = false ∧
        m.axisValues = axisValues candidate.aggregate (frontierAxes weights) := by
  obtain ⟨call, hcall, candidate, hcandidate, hm⟩ := h
  obtain ⟨hplacebo, hvalues, -⟩ := newcomer_eq_some hm
  exact ⟨call, hcall, candidate, hcandidate, (newcomer_generationId _ _ _ hm).symm, hplacebo, hvalues⟩

theorem epochId_run (calls : List (Call Exact)) : (run weights epochId calls).epochId = epochId := by
  induction calls using reverseRecOn with
  | nil => rfl
  | append_singleton calls call ih =>
    rw [run_snoc]
    cases hplacebo : call.champion.isPlacebo with
    | true => rw [update_of_placebo hplacebo, ih]
    | false => rw [update_eq hplacebo, ih]

variable (weights epochId) in
/-- The same run, with the record written and read back after every call. -/
def runOnDisk (rt : Builtins Exact) (calls : List (Call Exact)) :
    Except DecodeError (ParetoFrontier Exact) :=
  calls.foldlM (fun frontier call =>
    frontierFromDict rt (frontierToDict (call.update weights frontier).frontier) epochId)
    (emptyFrontier epochId)

theorem runOnDisk_eq (rt : Builtins Exact) (calls : List (Call Exact)) :
    runOnDisk weights epochId rt calls = .ok (run weights epochId calls) := by
  induction calls using reverseRecOn with
  | nil => rfl
  | append_singleton calls call ih =>
    have hread := frontierFromDict_frontierToDict rt (f := run weights epochId (calls ++ [call]))
      (fun m hm => ((offered_run _).1 m hm).nodup_keys)
      fun e he => ((offered_run _).2 e he).nodup_keys
    rw [epochId_run, run_snoc] at hread
    rw [runOnDisk, foldlM_append, ← runOnDisk, ih, run_snoc]
    exact (bind_pure _).trans hread

/-- The frontier record over any rounds. -/
theorem frontier_invariant (rt : Builtins Exact) (weights : Gate.Weights Exact) (epochId : String)
    (calls : List (Call Exact)) :
    (∀ before call, calls = before ++ [call] → call.champion.isPlacebo = false →
      Sound weights call.champion (run weights epochId calls)) ∧
    (∀ m ∈ (run weights epochId calls).members, ∃ call ∈ calls, ∃ candidate ∈ call.candidates,
      candidate.generationId = m.generationId ∧ candidate.isPlacebo = false ∧
        m.axisValues = axisValues candidate.aggregate (frontierAxes weights)) ∧
    (∀ before after, calls = before ++ after → ∀ m ∈ (run weights epochId before).members,
      OnRecord weights after (run weights epochId calls) m) ∧
    (∀ before call after, calls = before ++ call :: after →
      ∀ generationId ∈ (call.update weights (run weights epochId before)).admitted,
        ∃ m, m.generationId = generationId ∧
          OnRecord weights (call :: after) (run weights epochId calls) m) ∧
    runOnDisk weights epochId rt calls = .ok (run weights epochId calls) := by
  refine ⟨?_, fun m hm => ((offered_run calls).1 m hm).not_placebo, ?_, ?_, runOnDisk_eq rt calls⟩
  · rintro before call rfl hplacebo
    rw [run_snoc]
    exact (wellKept_run before).sound_update hplacebo
  · rintro before after rfl m hm
    have hbefore : OnRecord weights [] (run weights epochId before) m := .inl hm
    exact hbefore.run after
  · rintro before call after rfl generationId hg
    obtain ⟨m, hm, honRecord⟩ := (wellKept_run before).onRecord_of_admitted call hg
    rw [← run_snoc] at honRecord
    refine ⟨m, hm, ?_⟩
    have hrun := honRecord.run after
    rwa [List.append_assoc] at hrun

end Runs

end Zicato.Pareto
