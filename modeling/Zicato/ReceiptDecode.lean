import Zicato.Receipt

/-! # What a decoded receipt says

A receipt that decodes is the dictionary it was decoded from (`toDict_eq`), and
decoding reads the facts and the three states apart: a dictionary with the same
facts and other states decodes to the same receipt with those states
(`Accepted.progress`). -/
open List Option Except
namespace Zicato

namespace Receipt

variable {F O : Type}

variable {d : Fields F} {key s : String}

theorem get_of_get? {v : PyValue F} (h : Dict.get? d key = some v) : get d key = v := by
  rw [get, h, getD_some]

/-- A value other than `None` is an item. -/
theorem get?_of_get {v : PyValue F} (h : get d key = v) (hv : v ≠ .none) :
    Dict.get? d key = some v := by
  unfold get at h
  cases hd : Dict.get? d key with
  | none =>
    rw [hd] at h
    exact absurd h.symm hv
  | some w =>
    rw [hd] at h
    exact congrArg some h

theorem update_eq_self {items : List (String × PyValue F)}
    (h : ∀ item ∈ items, Dict.get? d item.1 = some item.2) : update d items = d := by
  unfold update
  induction items with
  | nil => rfl
  | cons item items ih =>
    rw [foldl_cons, Dict.set_eq_self (h item (by simp))]
    exact ih fun i hi => h i (by simp [hi])

@[simp] theorem ReceiptState.ofStr_asStr (s : ReceiptState) : ofStr s.asStr = some s := by
  cases s <;> rfl

@[simp] theorem HookState.ofStr_asStr (s : HookState) : ofStr s.asStr = some s := by
  cases s <;> rfl

@[simp] theorem IndexState.ofStr_asStr (s : IndexState) : ofStr s.asStr = some s := by
  cases s <;> rfl

theorem ReceiptState.asStr_of_ofStr {state : ReceiptState} (h : ofStr s = some state) :
    state.asStr = s := by
  simpa using find?_some h

theorem HookState.asStr_of_ofStr {state : HookState} (h : ofStr s = some state) :
    state.asStr = s := by
  simpa using find?_some h

theorem IndexState.asStr_of_ofStr {state : IndexState} (h : ofStr s = some state) :
    state.asStr = s := by
  simpa using find?_some h

/-! ## The parts of a decoding -/

theorem requiredString_ok (h : requiredString d key = .ok s) :
    Dict.get? d key = some (.str s) ∧ s ≠ "" := by
  unfold requiredString at h
  split at h
  · rename_i s' hget
    split at h
    · cases h
    · rename_i hne
      obtain rfl := ok.inj h
      exact ⟨get?_of_get hget (by simp), hne⟩
  · cases h

/-- An accepted integer is in the record. -/
theorem requiredInt_ok {n : Nat} (h : requiredInt d key = .ok n) :
    Dict.get? d key = some (.int n) := by
  unfold requiredInt at h
  split at h
  · rename_i m hget
    split at h
    · cases h
    · rename_i hm
      obtain rfl := ok.inj h
      rw [Int.toNat_of_nonneg (by omega)]
      exact get?_of_get hget (by simp)
  · cases h

section Decode
variable {rt : ReceiptCodec F O}

variable {d : Fields F} {scan : CandidateScan F O} {e : Option String} {n : Option Nat}
  {r : SettlementReceipt F}

/-- An accepted state is in the record. -/
theorem decodeState_ok {s : ReceiptState} (h : decodeState rt d = .ok s) :
    Dict.get? d "state" = some (.str s.asStr) := by
  unfold decodeState at h
  split at h
  · rename_i text hget
    split at h
    · rename_i state hstate
      obtain rfl := ok.inj h
      rw [ReceiptState.asStr_of_ofStr hstate]
      exact get?_of_get hget (by simp)
    · cases h
  · cases h

/-- An accepted primary is in the record. -/
theorem decodePrimary_ok {p : Option String} (h : decodePrimary d = .ok p) :
    get d "primary_promoted_generation_id" = optStr p := by
  unfold decodePrimary at h
  split at h
  · rename_i hget
    obtain rfl := ok.inj h
    exact hget
  · rename_i s hget
    split at h
    · cases h
    · obtain rfl := ok.inj h
      exact hget
  · cases h

theorem PromotionHook.validate_ok {hook hook' : PromotionHook} (h : hook.validate = .ok hook') :
    hook' = hook := by
  unfold PromotionHook.validate at h
  split at h <;> split at h <;> cases h <;> rfl

theorem IndexProjection.validate_ok {index index' : IndexProjection}
    (h : index.validate = .ok index') : index' = index := by
  unfold IndexProjection.validate at h
  split at h
  · cases h
  · exact (ok.inj h).symm

/-- A decoded hook is what the dictionary holds, and passes its own check. -/
theorem decodeHook_ok {hook : PromotionHook} (h : decodeHook d = .ok hook) :
    ∃ inner, Dict.get? d "promotion_hook" = some (.dict inner) ∧
      (∀ item ∈ (hook.asDict : Fields F), Dict.get? inner item.1 = some item.2) ∧
      hook.validate = .ok hook := by
  unfold decodeHook at h
  split at h
  · rename_i inner hinner
    split at h
    · rename_i s hs
      split at h
      · rename_i state hstate
        split at h
        · rename_i adapterName failureType hname htype
          obtain rfl := PromotionHook.validate_ok h
          refine ⟨inner, get?_of_get hinner (by simp), ?_, h⟩
          intro item hitem
          simp only [PromotionHook.asDict, mem_cons, not_mem_nil, or_false] at hitem
          rcases hitem with rfl | rfl | rfl
          · rw [HookState.asStr_of_ofStr hstate]
            exact get?_of_get hs (by simp)
          · exact get?_of_get hname (by simp)
          · exact get?_of_get htype (by simp)
        · cases h
      · cases h
    · cases h
  · cases h

/-- An accepted projection is in the record. -/
theorem decodeIndex_ok {index : IndexProjection} (h : decodeIndex d = .ok index) :
    ∃ inner, Dict.get? d "index_projection" = some (.dict inner) ∧
      (∀ item ∈ (index.asDict : Fields F), Dict.get? inner item.1 = some item.2) ∧
      index.validate = .ok index := by
  unfold decodeIndex at h
  split at h
  · rename_i inner hinner
    split at h
    · rename_i s errorType hs herror
      split at h
      · rename_i state hstate
        obtain rfl := IndexProjection.validate_ok h
        refine ⟨inner, get?_of_get hinner (by simp), ?_, h⟩
        intro item hitem
        simp only [IndexProjection.asDict, mem_cons, not_mem_nil, or_false] at hitem
        rcases hitem with rfl | rfl
        · rw [IndexState.asStr_of_ofStr hstate]
          exact get?_of_get hs (by simp)
        · exact get?_of_get herror (by simp)
      · cases h
    · cases h
  · cases h

variable [PyFloat F]

/-- A checked candidate is the dictionary it came from. -/
theorem decodeCandidate_ok {scan' : CandidateScan F O} {raw : PyValue F}
    (h : decodeCandidate rt scan raw = .ok scan') :
    ∃ fields outcome, raw = .dict fields ∧ (candidateOf fields).toDict = fields ∧
      scan'.candidates = scan.candidates ++ [(fields, outcome)] := by
  unfold decodeCandidate at h
  split at h
  · rename_i fields
    split at h
    · rename_i outcomeFields houtcome
      obtain ⟨e, he, h⟩ := bind_eq_ok h
      obtain ⟨g, hg, h⟩ := bind_eq_ok h
      obtain ⟨-, h⟩ := require_bind h
      obtain ⟨c, hcreated, h⟩ := bind_eq_ok h
      obtain ⟨-, -, h⟩ := bind_eq_ok h
      obtain ⟨-, -, h⟩ := bind_eq_ok h
      obtain ⟨outcome, -, h⟩ := bind_eq_ok h
      obtain ⟨-, h⟩ := require_bind h
      obtain rfl := ok.inj h
      refine ⟨fields, outcome, rfl, ?_, rfl⟩
      have he := (requiredString_ok he).1
      have hg := (requiredString_ok hg).1
      have hcreated := (requiredString_ok hcreated).1
      refine update_eq_self fun item hitem => ?_
      obtain ⟨hitem, hpresent⟩ := mem_filter.mp hitem
      -- a scalar may be missing from the record; then it is not written back
      have hscalar : ∀ key, ((Dict.get? fields key).isSome || !isNone (get fields key)) = true →
          Dict.get? fields key = some (get fields key) := by
        intro key hkey
        cases hd : Dict.get? fields key with
        | none => simp [get, hd, isNone] at hkey
        | some v => rw [get_of_get? hd]
      simp only [candidateOf, mem_cons, not_mem_nil, or_false] at hitem
      rcases hitem with rfl | rfl | rfl | rfl | rfl | rfl
      · simp [get_of_get? he, he, str?]
      · simp [get_of_get? hg, hg, str?]
      · simp [get_of_get? hcreated, hcreated, str?]
      · exact hscalar "parent_scalar" hpresent
      · exact hscalar "child_scalar" hpresent
      · exact hscalar "outcome" hpresent
    · cases h
  · cases h

/-- The candidates of a receipt are the records it lists. -/
theorem foldlM_decodeCandidate {raws : List (PyValue F)} {scan' : CandidateScan F O}
    (h : raws.foldlM (decodeCandidate rt) scan = .ok scan') :
    scan'.candidates.map (fun c => PyValue.dict (candidateOf c.1).toDict) =
      scan.candidates.map (fun c => PyValue.dict (candidateOf c.1).toDict) ++ raws := by
  induction raws generalizing scan with
  | nil =>
    obtain rfl := ok.inj h
    simp
  | cons raw raws ih =>
    rw [foldlM_cons] at h
    obtain ⟨scan₁, hstep, hrest⟩ := bind_eq_ok h
    obtain ⟨fields, outcome, rfl, hdict, hscan⟩ := decodeCandidate_ok hstep
    rw [ih hrest, hscan, map_append, map_singleton, hdict]
    simp

theorem decodeCandidates_ok (h : decodeCandidates rt d = .ok scan) :
    Dict.get? d "candidates" =
      some (.list (scan.candidates.map fun c => .dict (candidateOf c.1).toDict)) := by
  unfold decodeCandidates at h
  split at h
  · cases h
  · rename_i raws hne hget
    rw [foldlM_decodeCandidate h]
    exact get?_of_get hget (by simp)
  · cases h

/-- Accepted candidates are in the record. -/
theorem decodeOutcomes_ok {epochId settlementId : String} {primary : Option String}
    {candidates : List (SettlementCandidate F)}
    (h : decodeOutcomes rt d epochId settlementId primary = .ok candidates) :
    Dict.get? d "candidates" = some (.list (candidates.map fun c => .dict c.toDict)) := by
  unfold decodeOutcomes at h
  obtain ⟨scan, hscan, h⟩ := bind_eq_ok h
  obtain ⟨-, -, h⟩ := bind_eq_ok h
  obtain ⟨-, h⟩ := require_bind h
  obtain ⟨_, -, h⟩ := bind_eq_ok h
  obtain ⟨-, h⟩ := require_bind h
  obtain rfl := ok.inj h
  rw [decodeCandidates_ok hscan, List.map_map]
  rfl

/-! ## Accepted dictionaries -/

variable (rt) in
/-- The checks a dictionary passed that decoded to `r`. -/
structure Accepted (intent : Fields F) (expectedEpochId : Option String)
    (expectedRoundIndex : Option Nat) (r : SettlementReceipt F) : Prop where
  format : checkRecordFormat rt intent = .ok ()
  epochId : requiredString intent "epoch_id" = .ok r.epochId
  roundIndex : requiredInt intent "round_index" = .ok r.roundIndex
  expected : checkExpected rt r.epochId r.roundIndex expectedEpochId expectedRoundIndex = .ok ()
  state : decodeState rt intent = .ok r.state
  primary : decodePrimary intent = .ok r.primaryId
  settlementId : requiredString intent "settlement_id" = .ok r.settlementId
  hook : decodeHook intent = .ok r.promotionHook
  index : decodeIndex intent = .ok r.indexProjection
  outcomes : decodeOutcomes rt intent r.epochId r.settlementId r.primaryId = .ok r.candidates
  finite : PyValue.finite (.dict intent) = true
  json : r.json = intent

/-- **What the decoder accepts.** -/
theorem decodeFields_eq_ok {intent : Fields F} :
    decodeFields rt intent e n = .ok r ↔ Accepted rt intent e n r := by
  constructor
  · intro h
    unfold decodeFields at h
    obtain ⟨⟨⟩, hformat, h⟩ := bind_eq_ok h
    obtain ⟨epochId, hepoch, h⟩ := bind_eq_ok h
    obtain ⟨roundIndex, hround, h⟩ := bind_eq_ok h
    obtain ⟨⟨⟩, hexpected, h⟩ := bind_eq_ok h
    obtain ⟨state, hstate, h⟩ := bind_eq_ok h
    obtain ⟨primary, hprimary, h⟩ := bind_eq_ok h
    obtain ⟨settlementId, hid, h⟩ := bind_eq_ok h
    obtain ⟨hook, hhook, h⟩ := bind_eq_ok h
    obtain ⟨index, hindex, h⟩ := bind_eq_ok h
    obtain ⟨candidates, hcandidates, h⟩ := bind_eq_ok h
    obtain ⟨hfinite, h⟩ := require_bind h
    obtain rfl := ok.inj h
    exact ⟨hformat, hepoch, hround, hexpected, hstate, hprimary, hid, hhook, hindex, hcandidates,
      hfinite, rfl⟩
  · rintro ⟨hformat, hepoch, hround, hexpected, hstate, hprimary, hid, hhook, hindex,
      hcandidates, hfinite, hjson⟩
    obtain ⟨epochId, roundIndex, settlementId, state, primary, candidates, hook, index, json⟩ := r
    subst hjson
    unfold decodeFields
    dsimp only at hepoch hround hexpected hstate hprimary hid hhook hindex hcandidates
    simp only [hformat, hepoch, hround, hexpected, hstate, hprimary, hid, hhook, hindex,
      hcandidates, hfinite, require, if_true, ok_bind]
    rfl

/-- **A decoded receipt is the dictionary it was decoded from.** -/
theorem Accepted.toDict_eq {intent : Fields F} (h : Accepted rt intent e n r) :
    r.toDict = intent := by
  have hbody : update r.json
      [("epoch_id", .str r.epochId), ("round_index", .int r.roundIndex),
        ("settlement_id", .str r.settlementId), ("state", .str r.state.asStr),
        ("candidates", .list (r.candidates.map fun c => .dict c.toDict))] = intent := by
    rw [h.json]
    refine update_eq_self ?_
    intro item hitem
    simp only [mem_cons, not_mem_nil, or_false] at hitem
    rcases hitem with rfl | rfl | rfl | rfl | rfl
    · exact (requiredString_ok h.epochId).1
    · exact requiredInt_ok h.roundIndex
    · exact (requiredString_ok h.settlementId).1
    · exact decodeState_ok h.state
    · exact decodeOutcomes_ok h.outcomes
  have hprimary : (if (Dict.get? intent "primary_promoted_generation_id").isSome ||
      r.primaryId.isSome then
        Dict.set intent "primary_promoted_generation_id" (optStr r.primaryId)
      else intent) = intent := by
    have hget := decodePrimary_ok h.primary
    split
    · rename_i hpresent
      refine Dict.set_eq_self ?_
      cases hd : Dict.get? intent "primary_promoted_generation_id" with
      | some v => rw [← hget, get_of_get? hd]
      | none =>
        -- a missing key is a primary of `None`
        rw [get, hd, getD_none] at hget
        cases hp : r.primaryId with
        | none => simp [hd, hp] at hpresent
        | some s => simp [hp, optStr] at hget
    · rfl
  have hnested : ∀ {key : String} {inner items : Fields F},
      Dict.get? intent key = some (.dict inner) →
      (∀ item ∈ items, Dict.get? inner item.1 = some item.2) →
      updateIn intent key items = intent := by
    intro key inner items hinner hitems
    rw [updateIn, get_of_get? hinner]
    dsimp only
    rw [update_eq_self hitems, Dict.set_eq_self hinner]
  obtain ⟨hook, hhook, hhookItems, -⟩ := decodeHook_ok h.hook
  obtain ⟨index, hindex, hindexItems, -⟩ := decodeIndex_ok h.index
  unfold SettlementReceipt.toDict
  dsimp only
  rw [hbody, hprimary, hnested hhook hhookItems, hnested hindex hindexItems]

/-- `d'` states the same facts as `d`. -/
def SameFacts (d d' : Fields F) : Prop :=
  ∀ key, key ∉ progressKeys → Dict.get? d' key = Dict.get? d key

omit [PyFloat F] in
theorem sameFacts_of_immutable {d' : Fields F} (h : immutable d' = immutable d) :
    SameFacts d d' := by
  intro key hkey
  have hkeep : ∀ d : Fields F, Dict.get? (immutable d) key = Dict.get? d key := by
    intro d
    exact Dict.get?_filter fun v => by simp [hkey]
  rw [← hkeep d', h, hkeep d]

/-- Two receipts of one decision. -/
structure Agrees (r r' : SettlementReceipt F) : Prop where
  epochId : r'.epochId = r.epochId
  roundIndex : r'.roundIndex = r.roundIndex
  settlementId : r'.settlementId = r.settlementId
  primaryId : r'.primaryId = r.primaryId
  candidates : r'.candidates = r.candidates
  fieldRecord : r'.fieldRecord = r.fieldRecord

/-- **Decoding reads the facts apart from the states**: dictionaries with the same
facts decode to receipts of one decision. -/
theorem Accepted.agrees {d' : Fields F} {e' : Option String} {n' : Option Nat}
    {r' : SettlementReceipt F} (h : Accepted rt d e n r) (h' : Accepted rt d' e' n' r')
    (hsame : SameFacts d d') : Agrees r r' := by
  have hget : ∀ key, key ∉ progressKeys → get d' key = get d key := by
    intro key hkey
    rw [get, get, hsame key hkey]
  have hepoch : r'.epochId = r.epochId := by
    have := h'.epochId
    rw [requiredString, hget "epoch_id" (by decide)] at this
    exact ok.inj (this.symm.trans h.epochId)
  have hround : r'.roundIndex = r.roundIndex := by
    have := h'.roundIndex
    rw [requiredInt, hget "round_index" (by decide)] at this
    exact ok.inj (this.symm.trans h.roundIndex)
  have hid : r'.settlementId = r.settlementId := by
    have := h'.settlementId
    rw [requiredString, hget "settlement_id" (by decide)] at this
    exact ok.inj (this.symm.trans h.settlementId)
  have hprimary : r'.primaryId = r.primaryId := by
    have := h'.primary
    rw [decodePrimary, hget "primary_promoted_generation_id" (by decide)] at this
    exact ok.inj (this.symm.trans h.primary)
  refine ⟨hepoch, hround, hid, hprimary, ?_, ?_⟩
  · have := h'.outcomes
    rw [hepoch, hid, hprimary] at this
    simp only [decodeOutcomes, decodeCandidates, checkGates, hget "candidates" (by decide),
      hsame "gate_results" (by decide), hget "field_tournament_record" (by decide)] at this
    exact ok.inj (this.symm.trans h.outcomes)
  · rw [SettlementReceipt.fieldRecord, SettlementReceipt.fieldRecord, h.toDict_eq, h'.toDict_eq,
      hget "field_tournament_record" (by decide)]

/-- What is expected of the epoch and the round is a check of its own. -/
theorem Accepted.expect (h : Accepted rt d e n r) (e' : Option String) (n' : Option Nat)
    (he : ∀ x ∈ e', x = r.epochId) (hn : ∀ x ∈ n', x = r.roundIndex) : Accepted rt d e' n' r := by
  refine { h with expected := ?_ }
  unfold checkExpected
  cases e' with
  | none =>
    cases n' with
    | none => rfl
    | some m =>
      obtain rfl := hn m rfl
      simp [require]
  | some x =>
    obtain rfl := he x rfl
    cases n' with
    | none =>
      simp [require]
    | some m =>
      obtain rfl := hn m rfl
      simp [require]

theorem Accepted.expected_eq {e : String} {n : Nat} (h : Accepted rt d (some e) (some n) r) :
    r.epochId = e ∧ r.roundIndex = n := by
  have hexp := h.expected
  unfold checkExpected at hexp
  obtain ⟨⟨⟩, he, hexp⟩ := bind_eq_ok hexp
  exact ⟨by simpa using require_ok he, by simpa using require_ok hexp⟩

end Decode

end Receipt
end Zicato
