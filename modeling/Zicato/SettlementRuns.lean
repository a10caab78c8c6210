import Zicato.SettlementSteps

/-! # Runs of settlements

A run makes any calls in any order, against any records of the workspace, and
each may be cut between two of its writes. -/
namespace Zicato.Receipt

variable {F O : Type} [PyFloat F]

inductive Call (F : Type)
  | commit (intent : PyValue F) (ingest : Ingest)
  | recover (epochId : String) (ingests : String × Nat → Ingest)
  | record (epochId : String) (roundIndex : Nat) (settlementId : String) (state : HookState)
      (adapterName failureType : String)
  | acknowledge

/-- A call, what it is checked against, and what becomes of it. -/
structure Turn (F O : Type) where
  auth : Authorities F O
  call : Call F
  fate : Action.Fate

variable (rt : ReceiptCodec F O)

/-- The receipts a turn leaves. -/
def Turn.leaves (turn : Turn F O) (store : Store F) : Store F :=
  match turn.call with
  | .commit intent ingest =>
      (commitFieldSettlement rt turn.auth intent ingest store).leaves Medium.apply turn.fate store
  | .recover epochId ingests =>
      (recoverFieldSettlements rt turn.auth epochId ingests store).leaves Medium.apply turn.fate
        store
  | .record epochId roundIndex settlementId state adapterName failureType =>
      (recordPromotionHookDelivery rt turn.auth epochId roundIndex settlementId state adapterName
        failureType store).leaves Medium.apply turn.fate store
  | .acknowledge =>
      (acknowledgeRepairedSettlementIndexes rt turn.auth store).leaves Medium.apply turn.fate store

/-- The run of `turns` over the receipts of `store`. -/
def settle (store : Store F) (turns : List (Turn F O)) : Store F :=
  turns.foldl (fun store turn => turn.leaves rt store) store

variable {rt}

/-- **One turn moves the store forward**, wherever it is cut. -/
theorem Turn.forward (turn : Turn F O) (store : Store F) :
    Forward HookState.Moves rt store (turn.leaves rt store) := by
  obtain ⟨auth, call, fate⟩ := turn
  cases call with
  | commit intent ingest =>
    have h := commitFieldSettlement_ensures rt auth intent (P := fun _ => True)
      (fun _ _ => trivial) ingest store
    exact (h.keeps.leaves fate).forward.mono fun _ _ hfalse => hfalse.elim
  | recover epochId ingests =>
    have h := (recoverFieldSettlements_ensures rt auth epochId ingests store).keeps.leaves fate
    exact h.1.mono fun _ _ hfires => hfires.moves
  | record epochId roundIndex settlementId state adapterName failureType =>
    have h := recordPromotionHookDelivery_ensures rt auth epochId roundIndex settlementId state
      adapterName failureType store
    rcases h.keeps.leaves fate with hsame | hdelivered
    · dsimp only [Turn.leaves]
      rw [hsame]
      exact .refl store
    · exact hdelivered.within.1
  | acknowledge =>
    exact ((acknowledgeRepairedSettlementIndexes_ensures rt auth store).keeps.leaves fate).1

/-- **A run moves the store forward.** -/
theorem forward_settle (store : Store F) (turns : List (Turn F O)) :
    Forward HookState.Moves rt store (settle rt store turns) := by
  induction turns generalizing store with
  | nil => exact .refl store
  | cons turn turns ih => exact (turn.forward store).trans (ih _)

/-- A decision with other facts than the recorded one is refused and alters
nothing. -/
theorem commitFieldSettlement_conflict (auth : Authorities F O) {intent : PyValue F}
    (ingest : Ingest) {store : Store F} {validated recorded : SettlementReceipt F}
    (hdecode : decodeSettlementReceipt rt intent none none = .ok validated)
    (hread : readSettlementReceipt rt store validated.epochId validated.roundIndex =
      .ok (some recorded))
    (hconflict : PyValue.eq rt.intEq (.dict recorded.immutableFacts)
      (.dict validated.immutableFacts) = false) :
    Proc.Ensures (· = ·) (commitFieldSettlement rt auth intent ingest) store
      fun _ _ => False := by
  refine Proc.ensures_look (fun _ => rfl) ?_
  rintro ⟨receipt, parentId⟩ hvalidate
  obtain rfl : receipt = validated := by
    have hreceipt := decode_of_validate hvalidate
    exact Except.ok.inj (hreceipt.symm.trans hdecode)
  refine Proc.ensures_lift (fun _ => rfl) fun _ _ => ?_
  refine Proc.ensures_look (fun _ => rfl) ?_
  intro found hfound
  obtain rfl := Except.ok.inj (hfound.symm.trans hread)
  refine Proc.ensures_look (fun _ => rfl) fun _ _ => ?_
  refine Proc.ensures_lift (fun _ => rfl) ?_
  intro again hagain
  -- the recorded receipt decodes to itself, so it is its facts that are compared
  obtain rfl : again = recorded :=
    (stored_of_read hread).1.accepted.unique (decodeFields_eq_ok.mp hagain)
  refine Proc.ensures_lift (fun _ => rfl) ?_
  intro _ hrequire
  have hsame := require_ok hrequire
  rw [hconflict] at hsame
  cases hsame

/-- **Receipts across crashes.**  Whatever calls a run makes and wherever they are
cut: the facts of a receipt never change once they are written and its three
states only move forward; a conflicting second decision is refused and alters
nothing; and after a recovery that returns no receipt of the epoch is pending in
any state, and a second recovery returns 0 and writes nothing. -/
theorem settlement_receipts_across_crashes (rt : ReceiptCodec F O) (store : Store F)
    (turns : List (Turn F O)) :
    Forward HookState.Moves rt store (settle rt store turns) ∧
    (∀ (auth : Authorities F O) (intent : PyValue F) (ingest : Ingest)
        (validated recorded : SettlementReceipt F),
      decodeSettlementReceipt rt intent none none = .ok validated →
      readSettlementReceipt rt (settle rt store turns) validated.epochId validated.roundIndex =
        .ok (some recorded) →
      PyValue.eq rt.intEq (.dict recorded.immutableFacts) (.dict validated.immutableFacts) =
        false →
      (∃ e, (commitFieldSettlement rt auth intent ingest (settle rt store turns)).result =
          .error e) ∧
        ∀ fate, (commitFieldSettlement rt auth intent ingest (settle rt store turns)).leaves
          Medium.apply fate (settle rt store turns) = settle rt store turns) ∧
    ∀ (auth : Authorities F O) (epochId : String) (ingests : String × Nat → Ingest) (n : Nat),
      (recoverFieldSettlements rt auth epochId ingests (settle rt store turns)).result = .ok n →
      (∀ roundIndex r, readSettlementReceipt rt
          ((recoverFieldSettlements rt auth epochId ingests).after (settle rt store turns))
          epochId roundIndex = .ok (some r) →
        r.state ≠ .pending ∧ r.indexProjection.state ≠ .pending ∧
          r.promotionHook.state ≠ .pending) ∧
      ∀ ingests', recoverFieldSettlements rt auth epochId ingests'
          ((recoverFieldSettlements rt auth epochId ingests).after (settle rt store turns)) =
        { writes := [], result := .ok 0 } := by
  refine ⟨forward_settle store turns, ?_, ?_⟩
  · intro auth intent ingest validated recorded hdecode hread hconflict
    have h := commitFieldSettlement_conflict auth ingest hdecode hread hconflict
    constructor
    · cases hresult : (commitFieldSettlement rt auth intent ingest (settle rt store turns)).result with
      | error e => exact ⟨e, rfl⟩
      | ok u => exact (h.post u hresult).elim
    · intro fate
      exact (h.keeps.leaves fate).symm
  · intro auth epochId ingests n hresult
    have h := (recoverFieldSettlements_ensures rt auth epochId ingests
      (settle rt store turns)).post n hresult
    generalize (recoverFieldSettlements rt auth epochId ingests).after (settle rt store turns) =
      after at h
    constructor
    · intro roundIndex r hread
      obtain ⟨hstored, he, hn⟩ := stored_of_read hread
      have hne : epochId ≠ "" := by
        rw [← he]
        exact (requiredString_ok hstored.accepted.epochId).2
      have hmem : (epochId, roundIndex) ∈ storedReceiptLocations after (some epochId) := by
        refine mem_storedReceiptLocations.mpr ⟨?_, rfl⟩
        have hfile := hstored.file
        rw [he, hn] at hfile
        by_contra hnot
        rw [(Dict.get?_eq_none_iff _ _).mpr hnot] at hfile
        cases hfile
      obtain ⟨r', hstored', hkey, hstate, hindex, hhook, -⟩ := h hne _ hmem
      have hr' := hstored'.read
      obtain ⟨he', hn'⟩ := Prod.mk.inj hkey
      rw [he', hn', hread] at hr'
      obtain rfl := Option.some.inj (Except.ok.inj hr')
      exact ⟨by rw [hstate]; decide, hindex, hhook⟩
    · intro ingests'
      unfold recoverFieldSettlements
      split
      · rfl
      · rename_i hne
        rw [Proc.look_bind_ok (g := fun store =>
          .ok (storedReceiptLocations store (some epochId))) rfl]
        exact recoverReceipts_settled ingests' (h hne)

/-! ### One round

A promotion with a hook, committed by a process that dies after its first write
and recovered by the next one. -/

/-- The two fields of an outcome that are read. -/
def roundCodec : ReceiptCodec Exact (String × Option String) where
  repr _ := ""
  intEq n x := x == .fin n
  outcomeFromDict fields :=
    match str? (get fields "structure") with
    | some structure_ => .ok (structure_, str? (get fields "tournament_decision"))
    | none => .error "outcome: structure must be a string"
  structureOf := Prod.fst
  decisionOf := Prod.snd
  sameOutcome a b := a == b

def roundAuthorities : Authorities Exact (String × Option String) where
  readExperiment epochId generationId := .ok
    { id := "exp_e1_g1", epochId := epochId, generationId := generationId, roundIndex := some 0
      outcome := none, parentGenerationId := some "v0" }
  readFieldTournamentRecord _ _ _ := .ok none
  lineage := .ok fun _ => some fun _ => some
    { parentId := some "v0", createdAt := "2025-01-01T00:00:00+00:00", roundIndex := some 0 }

def roundOutcome : Fields Exact :=
  [("ran_at", .str "2025-01-01T00:00:00+00:00"), ("pass_rate_delta", .float (.fin 0)),
    ("drift_loss_delta", .float (.fin 0)), ("scalar_score_delta", .float (.fin (-1))),
    ("tournament_decision", .str "promoted"), ("rejection_reason", .str ""),
    ("metric_movements", .list []), ("structure", .str "gauntlet"), ("final_rank", .none),
    ("eliminated_in_round", .none), ("match_record", .list []),
    ("champion_eval_mode", .str "full"), ("holdout", .none), ("train_loss", .none),
    ("holdout_loss", .none), ("generalization_gap", .none), ("operator_override", .bool false),
    ("operator_override_reason", .str ""), ("evidence", .none)]

/-- The receipt of the round, under one of two settlement ids. -/
def roundIntent (settlementId : String) : PyValue Exact := .dict
  [("format_version", .int 3), ("state", .str "pending"),
    ("settlement_id", .str settlementId), ("epoch_id", .str "e1"), ("round_index", .int 0),
    ("primary_promoted_generation_id", .str "g1"),
    ("candidates", .list [.dict [("experiment_id", .str "exp_e1_g1"),
      ("generation_id", .str "g1"), ("created_at", .str "2025-01-01T00:00:00+00:00"),
      ("parent_scalar", .float (.fin 2)), ("child_scalar", .float (.fin 1)),
      ("outcome", .dict roundOutcome)]]),
    ("field_tournament_record", .none),
    ("index_projection", .dict [("state", .str "pending"), ("error_type", .str "")]),
    ("promotion_hook", .dict [("state", .str "pending"), ("adapter_name", .str "svc"),
      ("failure_type", .str "")])]

def firstId : String := "00000000000000000000000000000001"

def secondId : String := "00000000000000000000000000000002"

/-- What the dead process leaves. -/
def roundStore : Store Exact :=
  settle roundCodec {}
    [{ auth := roundAuthorities, call := .commit (roundIntent firstId) none, fate := .crashes 1 }]

/-- The second decision conflicts with the one on disk. -/
def roundConflicts : Bool :=
  match decodeSettlementReceipt roundCodec (roundIntent secondId) none none,
    readSettlementReceipt roundCodec roundStore "e1" 0 with
  | .ok validated, .ok (some recorded) =>
      validated.epochId == "e1" && validated.roundIndex == 0 &&
        !PyValue.eq roundCodec.intEq (.dict recorded.immutableFacts)
          (.dict validated.immutableFacts)
  | _, _ => false

theorem settlement_receipts_across_crashes_round :
    Forward HookState.Moves roundCodec {} roundStore ∧
      (∃ e, (commitFieldSettlement roundCodec roundAuthorities (roundIntent secondId) none
        roundStore).result = .error e) ∧
      (recoverFieldSettlements roundCodec roundAuthorities "e1" (fun _ => none)
        roundStore).result = .ok 1 ∧
      recoverFieldSettlements roundCodec roundAuthorities "e1" (fun _ => none)
        ((recoverFieldSettlements roundCodec roundAuthorities "e1" fun _ => none).after
          roundStore) = { writes := [], result := .ok 0 } := by
  obtain ⟨hforward, hconflict, hrecover⟩ := settlement_receipts_across_crashes roundCodec {}
    [{ auth := roundAuthorities, call := .commit (roundIntent firstId) none, fate := .crashes 1 }]
  have hresult : (recoverFieldSettlements roundCodec roundAuthorities "e1" (fun _ => none)
      roundStore).result = .ok 1 := ok_of_toOption (by decide +kernel)
  refine ⟨hforward, ?_, hresult, (hrecover roundAuthorities "e1" (fun _ => none) 1 hresult).2 _⟩
  have hcheck : roundConflicts = true := by decide +kernel
  unfold roundConflicts at hcheck
  split at hcheck
  · rename_i validated recorded hdecode hread
    simp only [Bool.and_eq_true, beq_iff_eq, Bool.not_eq_true'] at hcheck
    obtain ⟨⟨hepoch, hround⟩, hdiffer⟩ := hcheck
    refine (hconflict roundAuthorities (roundIntent secondId) none validated recorded hdecode ?_
      hdiffer).1
    rw [hepoch, hround]
    exact hread
  · cases hcheck

end Zicato.Receipt
