import Zicato.SettlementRuns

/-! # The promotion hook

`zicato/evolve/settlement.py`: a session commits the decision of a round, notes
that the delivery of its hook is unknown, calls the hook of the adapter, and notes
what came of it.  The call is no write, so what a crash leaves of it is told only
by the notes around it. -/
open List Option
namespace Zicato.Receipt

variable {F O : Type}

/-! ## Sessions -/

/-- What a session settles: the decision of a round with the records that go into
its receipt. -/
structure FieldSettlement (F : Type) where
  epochId : String
  roundIndex : Nat
  settlementId : String
  decision : String
  promotedGenerationId : Option String
  primaryPromotedGenerationId : Option String
  /-- The keys of `candidates.by_id`. -/
  challengers : List String
  candidates : List (SettlementCandidate F)
  fieldRecord : Option (Fields F)
  gateResults : List (Fields F)

/-- What a session asks of its adapter. -/
structure HarnessAdapter where
  /-- `str(getattr(adapter, "name", None) or type(adapter).__name__)`. -/
  name : String
  /-- The adapter has a callable `on_promote`. -/
  onPromote : Bool

/-- What came of a call of the hook that returned to `fire_on_promote`: none, or
the type of the exception. -/
abbrev HookResult := Option String

/-- `_assert_crowning_agrees`. -/
def assertCrowningAgrees (rt : ReceiptCodec F O) (s : FieldSettlement F) : Except String Unit := do
  require ((s.decision == "promoted") == s.primaryPromotedGenerationId.isSome)
    ("crowning invariant violated: settled bracket decision " ++ rt.repr (.str s.decision) ++
      " (promoted_generation_id=" ++ rt.repr (optStr s.promotedGenerationId) ++
      ") disagrees with the champion to be crowned (" ++
      rt.repr (optStr s.primaryPromotedGenerationId) ++
      "); refusing to persist a bracket the champion pointer / lineage contradict")
  let decisionPrimary := s.promotedGenerationId.filter (· ≠ "")
  require (decisionPrimary == s.primaryPromotedGenerationId)
    ("crowning invariant violated: settled bracket names primary champion " ++
      rt.repr (optStr decisionPrimary) ++ ", but settlement would advance " ++
      rt.repr (optStr s.primaryPromotedGenerationId))
  require (s.primaryPromotedGenerationId.all s.challengers.contains)
    ("crowning invariant violated: settled bracket promotes " ++
      rt.repr (optStr s.primaryPromotedGenerationId) ++
      " but no such challenger applied this round; refusing to advance the champion to a " ++
      "generation with no snapshot")

variable [PyFloat F] (rt : ReceiptCodec F O)

/-- `new_settlement_receipt`. -/
def newSettlementReceipt (settlementId epochId : String) (roundIndex : Nat)
    (primaryId : Option String) (candidates : List (SettlementCandidate F))
    (fieldRecord : Option (Fields F)) (hookAdapterName : String) :
    Except String (SettlementReceipt F) :=
  decodeSettlementReceipt rt (.dict
    [("format_version", .int 3), ("state", .str "pending"),
      ("settlement_id", .str settlementId), ("epoch_id", .str epochId),
      ("round_index", .int roundIndex), ("primary_promoted_generation_id", optStr primaryId),
      ("candidates", .list (candidates.map fun c => .dict c.toDict)),
      ("field_tournament_record", match fieldRecord with
        | none => .none
        | some record => .dict record),
      ("index_projection", .dict [("state", .str "pending"), ("error_type", .str "")]),
      ("promotion_hook", .dict
        [("state", .str (if hookAdapterName = "" then "not_applicable" else "pending")),
          ("adapter_name", .str hookAdapterName), ("failure_type", .str "")])]) none none

/-- `_field_settlement_receipt`. -/
def fieldSettlementReceipt (s : FieldSettlement F) (adapter : HarnessAdapter) :
    Except String (Fields F) := do
  let hookIsApplicable := s.primaryPromotedGenerationId.isSome && adapter.onPromote
  let record ← newSettlementReceipt rt s.settlementId s.epochId s.roundIndex
    s.primaryPromotedGenerationId s.candidates s.fieldRecord
    (if hookIsApplicable then adapter.name else "")
  pure (Dict.set record.toDict "gate_results" (.list (s.gateResults.map .dict)))

/-- A call of `on_promote`. -/
structure HookCall (F : Type) where
  epochId : String
  roundIndex : Nat
  settlementId : String
  generationId : String
  /-- The receipts when the call was made. -/
  store : Store F
  /-- None if the process died before the call returned. -/
  result : Option HookResult

/-- The receipts on disk, and the calls that were made; no step reads the calls. -/
structure World (F : Type) where
  store : Store F
  calls : List (HookCall F) := []

/-- What one step of a session finds and what cuts it short. -/
structure Circumstance (F O : Type) where
  auth : Authorities F O
  interrupt : Option Proc.Interrupt

/-- A session: what it settles, and what happens to it. -/
structure Session (F O : Type) where
  settlement : FieldSettlement F
  adapter : HarnessAdapter
  commit : Circumstance F O
  ingest : Ingest
  before : Circumstance F O
  /-- None: the process dies, or the session is cancelled, during the call. -/
  result : Option HookResult
  after : Circumstance F O

/-- The state a call of the hook leaves. -/
def HookResult.state : HookResult → HookState
  | none => .succeeded
  | some _ => .failed

namespace Session
variable (s : Session F O)

/-- One `record_promotion_hook_delivery` of the session. -/
def record (at_ : Circumstance F O) (settlementId : String) (state : HookState)
    (failureType : String) (store : Store F) : Proc.Ending Unit × Store F :=
  (recordPromotionHookDelivery rt at_.auth s.settlement.epochId s.settlement.roundIndex
    settlementId state s.adapter.name failureType).run at_.interrupt store

/-- The call of the hook with the receipts `store`. -/
def call (settlementId promotedId : String) (store : Store F) : HookCall F :=
  { epochId := s.settlement.epochId, roundIndex := s.settlement.roundIndex
    settlementId := settlementId, generationId := promotedId, store := store
    result := s.result }

/-- `fire_on_promote` and the note of its result; an exception of the note is
caught, so that the note of before stands. -/
def fireOnPromote (settlementId promotedId : String) (w : World F) : World F :=
  let w := { w with calls := w.calls ++ [s.call settlementId promotedId w.store] }
  match s.result with
  | none => w
  | some result =>
      { w with store :=
          (s.record rt s.after settlementId result.state (result.getD "") w.store).2 }

/-- The hook is called if the note that its delivery is unknown was written. -/
def deliver (settlementId promotedId : String) (w : World F) : World F :=
  match s.record rt s.before settlementId .deliveryUnknown "" w.store with
  | (.returned _, store) => s.fireOnPromote rt settlementId promotedId { w with store := store }
  | (.raised, store) => { w with store := store }
  | (.died, store) => { w with store := store }

/-- `_commit_field_settlement` after the receipt is made. -/
def commitReceipt (receipt : Fields F) (w : World F) : World F :=
  match (commitFieldSettlement rt s.commit.auth (.dict receipt) s.ingest).run s.commit.interrupt
    w.store with
  | (.returned _, store) =>
      match s.settlement.primaryPromotedGenerationId with
      | none => { w with store := store }
      | some promotedId =>
          if s.adapter.onPromote then
            s.deliver rt ((str? (get receipt "settlement_id")).getD "") promotedId
              { w with store := store }
          else { w with store := store }
  | (.raised, store) => { w with store := store }
  | (.died, store) => { w with store := store }

/-- `_commit_field_settlement`. -/
def commitFieldSettlement (w : World F) : World F :=
  match (do
    assertCrowningAgrees rt s.settlement
    fieldSettlementReceipt rt s.settlement s.adapter) with
  | .ok receipt => s.commitReceipt rt receipt w
  | .error _ => w

end Session

/-! ## Runs -/

/-- What happens to a workspace: a session, or a recovery at a restart, or the
acknowledgement of rebuilt indexes. -/
inductive Event (F O : Type)
  | session (s : Session F O)
  | recover (epochId : String) (ingests : String × Nat → Ingest) (at_ : Circumstance F O)
  | acknowledge (at_ : Circumstance F O)

/-- What a settlement or a recovery does. -/
def Event.happen (w : World F) : Event F O → World F
  | .session s => s.commitFieldSettlement rt w
  | .recover epochId ingests at_ =>
      { w with store :=
          ((recoverFieldSettlements rt at_.auth epochId ingests).run at_.interrupt w.store).2 }
  | .acknowledge at_ =>
      { w with store :=
          ((acknowledgeRepairedSettlementIndexes rt at_.auth).run at_.interrupt w.store).2 }

/-- The run of `events` over the receipts of `store`. -/
def live (store : Store F) (events : List (Event F O)) : World F :=
  events.foldl (Event.happen rt) { store := store }

/-! ## One settlement

A settlement is named by its epoch, its round and its id. -/

/-- The receipt of a settlement on disk. -/
def settlementAt (key : String × Nat × String) (store : Store F) : Option (SettlementReceipt F) :=
  match readSettlementReceipt rt store key.1 key.2.1 with
  | .ok (some r) => if r.settlementId = key.2.2 then some r else none
  | _ => none

/-- What the hook is called for. -/
def HookCall.key (c : HookCall F) : String × Nat × String :=
  (c.epochId, c.roundIndex, c.settlementId)

/-- The calls that were made for a settlement. -/
def World.callsOf (key : String × Nat × String) (w : World F) : List (HookCall F) :=
  w.calls.filter fun c => c.key = key

variable {rt} {key : String × Nat × String} {a b : Store F}

variable {r : SettlementReceipt F} {file : Except String (PyValue F)}
  {H : HookState → HookState → Prop} {state : HookState}

/-- When the store has a settlement. -/
theorem settlementAt_eq_some {store : Store F} :
    settlementAt rt key store = some r ↔
      readSettlementReceipt rt store key.1 key.2.1 = .ok (some r) ∧ r.settlementId = key.2.2 := by
  unfold settlementAt
  split
  · rename_i found hread
    rw [hread, Except.ok.injEq, some.injEq]
    split
    · rename_i hid
      rw [some.injEq]
      constructor
      · rintro rfl
        exact ⟨rfl, hid⟩
      · exact fun h => h.1
    · rename_i hid
      constructor
      · intro h
        cases h
      · rintro ⟨rfl, hid'⟩
        exact absurd hid' hid
  · rename_i hread
    constructor
    · intro h
      cases h
    · exact fun h => absurd h.1 (hread r)

theorem Decodes.read {store : Store F} {key : String × Nat} (h : Decodes rt key file r)
    (hfile : Dict.get? store.receipts key = some file) :
    readSettlementReceipt rt store key.1 key.2 = .ok (some r) := by
  unfold Decodes at h
  simp only [readSettlementReceipt, hfile, h]

/-- Facts name the settlement. -/
theorem Advances.settlementId {k : String × Nat} {file' : Except String (PyValue F)}
    {r' : SettlementReceipt F} (h : Advances H r r') (hr : Decodes rt k file r)
    (hr' : Decodes rt k file' r') : r'.settlementId = r.settlementId := by
  obtain ⟨d, -, hacc, -⟩ := decodes_accepted hr
  obtain ⟨d', -, hacc', -⟩ := decodes_accepted hr'
  have hfacts := h.facts
  rw [SettlementReceipt.immutableFacts, SettlementReceipt.immutableFacts, hacc.toDict_eq,
    hacc'.toDict_eq] at hfacts
  exact (hacc.agrees hacc' (sameFacts_of_immutable hfacts)).settlementId

/-- A receipt moves forward under its name. -/
theorem Forward.settlementAt (h : Forward H rt a b)
    (hfile : Dict.get? a.receipts (key.1, key.2.1) = some file) :
    Option.Rel (Advances H) (settlementAt rt key a) (settlementAt rt key b) := by
  obtain ⟨file', hfile', hmove⟩ := h _ file hfile
  rcases hmove with rfl | ⟨r, r', hr, hr', hadv⟩
  · have hsame : Receipt.settlementAt rt key b = Receipt.settlementAt rt key a := by
      simp only [Receipt.settlementAt, readSettlementReceipt, hfile, hfile']
    rw [hsame]
    cases Receipt.settlementAt rt key a with
    | none => exact .none
    | some r => exact .some (.refl r)
  · have hid := hadv.settlementId hr hr'
    have hread : readSettlementReceipt rt a key.1 key.2.1 = .ok (some r) := hr.read hfile
    have hread' : readSettlementReceipt rt b key.1 key.2.1 = .ok (some r') := hr'.read hfile'
    simp only [Receipt.settlementAt, hread, hread', hid]
    split
    · exact .some hadv
    · exact .none

theorem settlementAt_none {store : Store F}
    (h : Dict.get? store.receipts (key.1, key.2.1) = none) :
    settlementAt rt key store = none := by
  simp only [settlementAt, readSettlementReceipt, h]

theorem Within.settlementAt (h : Within H rt a b) :
    Option.Rel (Advances H) (settlementAt rt key a) (settlementAt rt key b) := by
  cases hfile : Dict.get? a.receipts (key.1, key.2.1) with
  | some file => exact h.1.settlementAt hfile
  | none =>
    have hfile' := hfile
    rw [Dict.get?_eq_none_iff, ← h.2, ← Dict.get?_eq_none_iff] at hfile'
    rw [settlementAt_none hfile, settlementAt_none hfile']
    exact .none

variable (key) in
/-- A commit moves the receipt of a settlement forward, or adds it. -/
theorem Grows.settlementAt {P : HookState → Prop} (h : Grows rt P a b) :
    Option.Rel (Advances fun _ _ => False) (settlementAt rt key a) (settlementAt rt key b) ∨
      settlementAt rt key a = none ∧
        ∃ r, settlementAt rt key b = some r ∧ P r.promotionHook.state := by
  cases hfile : Dict.get? a.receipts (key.1, key.2.1) with
  | some file => exact .inl (h.forward.settlementAt hfile)
  | none =>
    rw [settlementAt_none hfile]
    cases hb : Receipt.settlementAt rt key b with
    | none => exact .inl .none
    | some r =>
      refine .inr ⟨rfl, r, rfl, ?_⟩
      obtain ⟨hread, -⟩ := settlementAt_eq_some.mp hb
      cases hfile' : Dict.get? b.receipts (key.1, key.2.1) with
      | none =>
        rw [readSettlementReceipt, hfile'] at hread
        cases hread
      | some file' =>
        obtain ⟨r', hr', hP⟩ := h.added _ _ hfile hfile'
        have hread' : readSettlementReceipt rt b key.1 key.2.1 = .ok (some r') := hr'.read hfile'
        rw [hread] at hread'
        obtain rfl := some.inj (Except.ok.inj hread')
        exact hP

/-- Recording a delivery takes the receipt of that settlement to the state. -/
theorem Delivered.settlementAt (h : Delivered rt key.1 key.2.1 key.2.2 state a b) :
    ∃ r r', settlementAt rt key a = some r ∧ settlementAt rt key b = some r' ∧
      HookState.Moves r.promotionHook.state state ∧ r'.promotionHook.state = state ∧
      r'.state = .committed := by
  obtain ⟨d, r, d', r', hstored, hkey, hid, hcommitted, hmoves, hacc, hagree, hadv, hstate, hb⟩ :=
    h
  obtain ⟨he, hn⟩ := Prod.mk.inj hkey
  have hread := hstored.read
  have hstored' := (hstored.write hacc hagree hadv).2
  rw [← hb] at hstored'
  have hread' := hstored'.read
  rw [he, hn] at hread
  rw [hagree.epochId, hagree.roundIndex, he, hn] at hread'
  refine ⟨r, r', settlementAt_eq_some.mpr ⟨hread, hid⟩, settlementAt_eq_some.mpr ⟨hread', ?_⟩,
    hmoves, hstate, hadv.committed hcommitted⟩
  rw [hagree.settlementId, hid]

variable (key) in
/-- It leaves every other settlement as it is. -/
theorem Delivered.settlementAt_other {other : String × Nat × String}
    (h : Delivered rt key.1 key.2.1 key.2.2 state a b) (hne : key ≠ other) :
    Receipt.settlementAt rt other b = Receipt.settlementAt rt other a := by
  by_cases hfile : (key.1, key.2.1) = (other.1, other.2.1)
  · -- the round has a receipt of another settlement, before and after
    obtain ⟨he, hn⟩ := Prod.mk.inj hfile
    have hid : key.2.2 ≠ other.2.2 := fun hid => hne (Prod.ext he (Prod.ext hn hid))
    obtain ⟨r, r', hr, hr', -⟩ := h.settlementAt
    obtain ⟨hread, hidr⟩ := settlementAt_eq_some.mp hr
    obtain ⟨hread', hidr'⟩ := settlementAt_eq_some.mp hr'
    rw [he, hn] at hread hread'
    simp only [Receipt.settlementAt, hread, hread', hidr, hidr', hid, if_false]
  · obtain ⟨d, r, d', r', -, hkey, -, -, -, -, hagree, -, -, rfl⟩ := h
    have hother : ¬ (r'.epochId, r'.roundIndex) = (other.1, other.2.1) := by
      rw [hagree.epochId, hagree.roundIndex, hkey]
      exact hfile
    simp only [Receipt.settlementAt, readSettlementReceipt, Medium.apply, Dict.get?_set, hother,
      if_false]

/-! ## What the state of a hook says -/

/-- What the calls were when the state of the hook is on disk. -/
def Accounts : HookState → List (HookCall F) → Prop
  | .pending, calls => calls = []
  | .notApplicable, calls => calls = []
  | .deliveryUnknown, calls => calls.length ≤ 1
  | .succeeded, calls => ∃ c, calls = [c] ∧ c.result = some none
  | .failed, calls => ∃ c failureType, calls = [c] ∧ c.result = some (some failureType)

/-- The receipt accounts for the calls of its settlement. -/
def Truthful : Option (SettlementReceipt F) → List (HookCall F) → Prop
  | none, calls => calls = []
  | some r, calls => Accounts r.promotionHook.state calls ∧ (calls = [] ∨ r.state = .committed)

variable (rt key) in
/-- The receipt of the settlement accounts for its calls, and each was made when
the receipt was committed. -/
structure Honest (w : World F) : Prop where
  truthful : Truthful (settlementAt rt key w.store) (w.callsOf key)
  committed : ∀ c ∈ w.callsOf key, ∃ r, settlementAt rt key c.store = some r ∧
    r.state = .committed

omit [PyFloat F] in
/-- A hook that accounts for its calls was called once at most. -/
theorem Accounts.length_le {calls : List (HookCall F)} (h : Accounts state calls) :
    calls.length ≤ 1 := by
  cases state with
  | pending =>
    obtain rfl : calls = [] := h
    exact Nat.zero_le 1
  | notApplicable =>
    obtain rfl : calls = [] := h
    exact Nat.zero_le 1
  | deliveryUnknown => exact h
  | succeeded =>
    obtain ⟨c, rfl, -⟩ := h
    exact Nat.le_refl 1
  | failed =>
    obtain ⟨c, _, rfl, -⟩ := h
    exact Nat.le_refl 1

omit [PyFloat F] in
/-- An advance that calls nothing stays truthful. -/
theorem Truthful.advances {t t' : Option (SettlementReceipt F)} {calls : List (HookCall F)}
    (h : Truthful t calls) (hadv : Option.Rel (Advances HookState.Fires) t t') :
    Truthful t' calls := by
  cases hadv with
  | none => exact h
  | @some r r' hadv =>
    obtain ⟨haccounts, hcommitted⟩ := h
    refine ⟨?_, hcommitted.imp_right hadv.committed⟩
    rcases hadv.hook.cases_tail with heq | ⟨between, hbefore, hfires⟩
    · rw [heq]
      exact haccounts
    · -- a recovery fires once, from a hook that was never called
      generalize r'.promotionHook.state = state at hfires
      cases hfires
      rcases hbefore.cases_tail with heq | ⟨_, -, hbefore⟩
      · rw [← heq] at haccounts
        obtain rfl : calls = [] := haccounts
        exact Nat.zero_le 1
      · cases hbefore

/-- Steps that leave the hooks or fire them keep a world honest. -/
theorem Honest.advances {w : World F} (h : Honest rt key w) {store : Store F}
    (hadv : Option.Rel (Advances HookState.Fires) (settlementAt rt key w.store)
      (settlementAt rt key store)) : Honest rt key { w with store := store } :=
  ⟨h.truthful.advances hadv, h.committed⟩

/-- A commit keeps a world honest: a new receipt has a hook that was not called. -/
theorem Honest.grows {w : World F} (h : Honest rt key w) {store : Store F}
    (hgrows : Grows rt (fun state => state = .pending ∨ state = .notApplicable) w.store store) :
    Honest rt key { w with store := store } := by
  rcases hgrows.settlementAt key with hrel | ⟨hnone, r, hsome, hstate⟩
  · refine h.advances ?_
    generalize settlementAt rt key w.store = t at hrel
    generalize settlementAt rt key store = t' at hrel
    cases hrel with
    | none => exact .none
    | some hadv => exact .some (hadv.mono fun _ _ hfalse => hfalse.elim)
  · refine ⟨?_, h.committed⟩
    have hcalls := h.truthful
    rw [hnone] at hcalls
    obtain hcalls : w.callsOf key = [] := hcalls
    change Truthful (settlementAt rt key store) (w.callsOf key)
    rw [hsome, hcalls]
    refine ⟨?_, .inl rfl⟩
    rcases hstate with hstate | hstate <;> rw [hstate] <;> rfl

/-! ### Deliveries -/

section Deliveries
variable {w : World F} {store : Store F}

/-- What does not concern the settlement keeps a world honest. -/
theorem Honest.unconcerned {w' : World F} (h : Honest rt key w)
    (hat : settlementAt rt key w'.store = settlementAt rt key w.store)
    (hcalls : w'.callsOf key = w.callsOf key) : Honest rt key w' := by
  refine ⟨?_, ?_⟩
  · rw [hat, hcalls]
    exact h.truthful
  · rw [hcalls]
    exact h.committed

/-- The note before a call can be written only when there was no call. -/
theorem Honest.noted (h : Honest rt key w)
    (hd : Delivered rt key.1 key.2.1 key.2.2 .deliveryUnknown w.store store) :
    w.callsOf key = [] ∧ Honest rt key { w with store := store } := by
  obtain ⟨r, r', hr, hr', hmoves, hstate, hcommitted⟩ := hd.settlementAt
  have htruthful := h.truthful
  rw [hr] at htruthful
  have hpending : r.promotionHook.state = .pending := by
    generalize r.promotionHook.state = state at hmoves
    cases hmoves
    rfl
  have hcalls : w.callsOf key = [] := by
    have haccounts := htruthful.1
    rw [hpending] at haccounts
    exact haccounts
  refine ⟨hcalls, ?_, h.committed⟩
  change Truthful (settlementAt rt key store) (w.callsOf key)
  rw [hr', hcalls]
  refine ⟨?_, .inl rfl⟩
  rw [hstate]
  exact Nat.zero_le 1

variable {c : HookCall F}

omit [PyFloat F] in
theorem callsOf_append (h : c.key = key) :
    ({ w with calls := w.calls ++ [c] } : World F).callsOf key = w.callsOf key ++ [c] := by
  simp [World.callsOf, filter_append, h]

omit [PyFloat F] in
theorem callsOf_append_other (h : c.key ≠ key) :
    ({ w with calls := w.calls ++ [c] } : World F).callsOf key = w.callsOf key := by
  simp [World.callsOf, filter_append, h]

/-- A first call, made with the note on disk. -/
theorem Honest.called (hcalls : w.callsOf key = []) (hat : settlementAt rt key w.store = some r)
    (hstate : r.promotionHook.state = .deliveryUnknown) (hcommitted : r.state = .committed)
    (hkey : c.key = key) (hstore : c.store = w.store) :
    Honest rt key { w with calls := w.calls ++ [c] } := by
  refine ⟨?_, ?_⟩
  · rw [callsOf_append hkey, hcalls, nil_append]
    change Truthful (settlementAt rt key w.store) _
    rw [hat]
    refine ⟨?_, .inr hcommitted⟩
    rw [hstate]
    exact Nat.le_refl 1
  · rw [callsOf_append hkey, hcalls, nil_append]
    intro c' hc'
    obtain rfl := mem_singleton.mp hc'
    exact ⟨r, by rw [hstore]; exact hat, hcommitted⟩

/-- The note of the result of the one call. -/
theorem Honest.resolved (h : Honest rt key w) (hcalls : w.callsOf key = [c]) {result : HookResult}
    (hresult : c.result = some result)
    (hd : Delivered rt key.1 key.2.1 key.2.2 result.state w.store store) :
    Honest rt key { w with store := store } := by
  obtain ⟨r, r', -, hr', -, hstate, hcommitted⟩ := hd.settlementAt
  refine ⟨?_, h.committed⟩
  change Truthful (settlementAt rt key store) (w.callsOf key)
  rw [hr', hcalls]
  refine ⟨?_, .inr hcommitted⟩
  rw [hstate]
  cases result with
  | none => exact ⟨c, rfl, hresult⟩
  | some failureType => exact ⟨c, failureType, rfl, hresult⟩

namespace Session
variable (s : Session F O)

variable (rt) in
/-- What one note of a session does. -/
theorem record_spec (at_ : Circumstance F O) (settlementId : String) (state : HookState)
    (failureType : String) (store : Store F) :
    ((s.record rt at_ settlementId state failureType store).2 = store ∨
      Delivered rt s.settlement.epochId s.settlement.roundIndex settlementId state store
        (s.record rt at_ settlementId state failureType store).2) ∧
    ∀ u, (s.record rt at_ settlementId state failureType store).1 = .returned u →
      Delivered rt s.settlement.epochId s.settlement.roundIndex settlementId state store
        (s.record rt at_ settlementId state failureType store).2 := by
  have h := recordPromotionHookDelivery_ensures rt at_.auth s.settlement.epochId
    s.settlement.roundIndex settlementId state s.adapter.name failureType store
  exact ⟨h.run_keeps at_.interrupt, fun u hu => h.run_post hu⟩

/-- A note leaves every other settlement as it is. -/
theorem record_other {at_ : Circumstance F O} {settlementId : String} {state : HookState}
    {failureType : String} (store : Store F)
    (hne : (s.settlement.epochId, s.settlement.roundIndex, settlementId) ≠ key) :
    settlementAt rt key (s.record rt at_ settlementId state failureType store).2 =
      settlementAt rt key store := by
  rcases (s.record_spec rt at_ settlementId state failureType store).1 with hsame | hd
  · rw [hsame]
  · exact Delivered.settlementAt_other
      (s.settlement.epochId, s.settlement.roundIndex, settlementId) hd hne

/-- The session of another settlement leaves the calls of this one as they are. -/
theorem deliver_other (h : Honest rt key w) {settlementId : String} (promotedId : String)
    (hne : (s.settlement.epochId, s.settlement.roundIndex, settlementId) ≠ key) :
    Honest rt key (s.deliver rt settlementId promotedId w) := by
  have hbefore : settlementAt rt key
      (s.record rt s.before settlementId .deliveryUnknown "" w.store).2 =
        settlementAt rt key w.store := s.record_other w.store hne
  unfold deliver
  split
  all_goals
    rename_i store hrecord
    rw [hrecord] at hbefore
    dsimp only at hbefore
  · have hcall : (s.call settlementId promotedId store).key ≠ key := hne
    unfold fireOnPromote
    dsimp only
    split
    · exact h.unconcerned hbefore (callsOf_append_other hcall)
    · refine h.unconcerned ?_ (callsOf_append_other hcall)
      exact (s.record_other store hne).trans hbefore
  · exact h.unconcerned hbefore rfl
  · exact h.unconcerned hbefore rfl

/-- **One delivery** keeps a world honest, wherever it is cut. -/
theorem deliver_own (h : Honest rt key w) (promotedId : String)
    (hkey : (s.settlement.epochId, s.settlement.roundIndex, key.2.2) = key) :
    Honest rt key (s.deliver rt key.2.2 promotedId w) := by
  have he : s.settlement.epochId = key.1 := congrArg Prod.fst hkey
  have hn : s.settlement.roundIndex = key.2.1 := congrArg (fun k => k.2.1) hkey
  have hspec := s.record_spec rt s.before key.2.2 .deliveryUnknown "" w.store
  rw [he, hn] at hspec
  unfold deliver
  split
  all_goals
    rename_i store hrecord
    rw [hrecord] at hspec
    obtain ⟨hkeeps, hpost⟩ := hspec
    dsimp only at hkeeps hpost
  · -- the note was written, so the call is the first
    obtain ⟨hcalls, -⟩ := h.noted (hpost _ rfl)
    obtain ⟨_, r, -, hat, -, hstate, hcommitted⟩ := (hpost _ rfl).settlementAt
    have hcall : (s.call key.2.2 promotedId store).key = key := hkey
    have hcalled : Honest rt key
        { store := store, calls := w.calls ++ [s.call key.2.2 promotedId store] } :=
      Honest.called (w := { w with store := store }) hcalls hat hstate hcommitted hcall rfl
    unfold fireOnPromote
    dsimp only
    split
    · exact hcalled
    · rename_i result hresult
      have hafter := (s.record_spec rt s.after key.2.2 result.state (result.getD "")
        store).1
      rw [he, hn] at hafter
      rcases hafter with hsame | hdelivered
      · rw [hsame]
        exact hcalled
      · have hone : ({ store := store, calls := w.calls ++ [s.call key.2.2 promotedId store] } :
            World F).callsOf key = [s.call key.2.2 promotedId store] := by
          rw [callsOf_append (w := { w with store := store }) hcall]
          exact congrArg (· ++ [s.call key.2.2 promotedId store]) hcalls
        exact hcalled.resolved hone hresult hdelivered
  all_goals
    rcases hkeeps with rfl | hdelivered
    · exact h
    · exact (h.noted hdelivered).2

theorem deliver_honest (h : Honest rt key w) (settlementId promotedId : String) :
    Honest rt key (s.deliver rt settlementId promotedId w) := by
  by_cases hkey : (s.settlement.epochId, s.settlement.roundIndex, settlementId) = key
  · obtain rfl : key.2.2 = settlementId := congrArg (fun k => k.2.2) hkey.symm
    exact s.deliver_own h promotedId hkey
  · exact s.deliver_other h promotedId hkey

/-- The receipt a session makes has a hook that was not called. -/
theorem hook_of_receipt {receipt : Fields F}
    (h : fieldSettlementReceipt rt s.settlement s.adapter = .ok receipt)
    (hdecode : decodeSettlementReceipt rt (.dict receipt) none none = .ok r) :
    r.promotionHook.state = .pending ∨ r.promotionHook.state = .notApplicable := by
  obtain ⟨record, hrecord, h⟩ := bind_eq_ok h
  obtain rfl := Except.ok.inj h
  have hacc : Accepted rt _ none none r := decodeFields_eq_ok.mp hdecode
  have hnew : Accepted rt _ none none record := decodeFields_eq_ok.mp hrecord
  rw [hnew.toDict_eq] at hacc
  generalize (if s.settlement.primaryPromotedGenerationId.isSome && s.adapter.onPromote then
    s.adapter.name else "") = name at hacc
  by_cases hname : name = ""
  · exact .inr (hacc.hook_state (s := .notApplicable) rfl (by simp [hname, HookState.asStr]; rfl))
  · exact .inl (hacc.hook_state (s := .pending) rfl (by simp [hname, HookState.asStr]; rfl))

/-- **A session keeps a world honest**, wherever it is cut. -/
theorem commitFieldSettlement_honest (h : Honest rt key w) :
    Honest rt key (s.commitFieldSettlement rt w) := by
  unfold commitFieldSettlement
  split
  · rename_i receipt hreceipt
    obtain ⟨_, -, hreceipt⟩ := bind_eq_ok hreceipt
    have hgrows := (commitFieldSettlement_ensures rt s.commit.auth (.dict receipt)
      (P := fun state => state = .pending ∨ state = .notApplicable)
      (fun _ => s.hook_of_receipt hreceipt) s.ingest w.store).run_keeps s.commit.interrupt
    have hcommitted := h.grows hgrows
    unfold commitReceipt
    split
    all_goals
      rename_i store hrun
      rw [hrun] at hcommitted
    · split
      · exact hcommitted
      · split
        · exact s.deliver_honest hcommitted _ _
        · exact hcommitted
    · exact hcommitted
    · exact hcommitted
  · exact h

end Session
end Deliveries

/-! ### Runs -/

/-- **One event keeps a world honest.** -/
theorem Event.happen_honest {w : World F} (h : Honest rt key w) (event : Event F O) :
    Honest rt key (event.happen rt w) := by
  cases event with
  | session s => exact s.commitFieldSettlement_honest h
  | recover epochId ingests at_ =>
    have hwithin := (recoverFieldSettlements_ensures rt at_.auth epochId ingests
      w.store).run_keeps at_.interrupt
    exact h.advances hwithin.settlementAt
  | acknowledge at_ =>
    have hwithin := (acknowledgeRepairedSettlementIndexes_ensures (H := HookState.Fires) rt at_.auth
      w.store).run_keeps at_.interrupt
    exact h.advances hwithin.settlementAt

theorem foldl_honest {w : World F} (h : Honest rt key w) (events : List (Event F O)) :
    Honest rt key (events.foldl (Event.happen rt) w) := by
  induction events generalizing w with
  | nil => exact h
  | cons event events ih => exact ih (event.happen_honest h)

/-- **The promotion hook is called at most once and its state is truthful.**  In
every run over receipts that do not have the settlement yet: its hook was called at
most once, and with its receipt committed on disk; a receipt that says the hook
succeeded or failed says what the call returned; and once there was a call, the
receipt is on disk, committed, and does not say pending. -/
theorem promotion_hook_at_most_once (rt : ReceiptCodec F O) (epochId : String)
    (roundIndex : Nat) (settlementId : String) (store : Store F)
    (hnew : settlementAt rt (epochId, roundIndex, settlementId) store = none)
    (events : List (Event F O)) :
    let calls := (live rt store events).callsOf (epochId, roundIndex, settlementId)
    calls.length ≤ 1 ∧
    (∀ c ∈ calls, ∃ r, readSettlementReceipt rt c.store epochId roundIndex = .ok (some r) ∧
      r.settlementId = settlementId ∧ r.state = .committed) ∧
    (∀ r, readSettlementReceipt rt (live rt store events).store epochId roundIndex =
        .ok (some r) → r.settlementId = settlementId →
      (r.promotionHook.state = .succeeded → ∃ c ∈ calls, c.result = some none) ∧
      (r.promotionHook.state = .failed →
        ∃ c ∈ calls, ∃ failureType, c.result = some (some failureType)) ∧
      (r.promotionHook.state = .pending → calls = [])) ∧
    (calls ≠ [] → ∃ r, readSettlementReceipt rt (live rt store events).store epochId roundIndex =
        .ok (some r) ∧ r.settlementId = settlementId ∧ r.state = .committed ∧
      r.promotionHook.state ≠ .pending) := by
  have hstart : Honest rt (epochId, roundIndex, settlementId) { store := store } := by
    refine ⟨?_, fun c hc => by cases hc⟩
    change Truthful (settlementAt rt (epochId, roundIndex, settlementId) store) []
    rw [hnew]
    rfl
  have h := foldl_honest hstart events
  change Honest rt _ (live rt store events) at h
  intro calls
  have htruthful : Truthful _ calls := h.truthful
  refine ⟨?_, ?_, ?_, ?_⟩
  · cases hat : settlementAt rt (epochId, roundIndex, settlementId) (live rt store events).store with
    | none =>
      rw [hat] at htruthful
      rw [show calls = [] from htruthful]
      exact Nat.zero_le 1
    | some r =>
      rw [hat] at htruthful
      exact htruthful.1.length_le
  · intro c hc
    obtain ⟨r, hr, hcommitted⟩ := h.committed c hc
    obtain ⟨hread, hid⟩ := settlementAt_eq_some.mp hr
    exact ⟨r, hread, hid, hcommitted⟩
  · intro r hread hid
    rw [settlementAt_eq_some.mpr ⟨hread, hid⟩] at htruthful
    have haccounts := htruthful.1
    refine ⟨?_, ?_, ?_⟩
    · intro hstate
      rw [hstate] at haccounts
      obtain ⟨c, hcalls, hresult⟩ := haccounts
      exact ⟨c, by rw [hcalls]; exact List.mem_singleton_self c, hresult⟩
    · intro hstate
      rw [hstate] at haccounts
      obtain ⟨c, failureType, hcalls, hresult⟩ := haccounts
      exact ⟨c, by rw [hcalls]; exact List.mem_singleton_self c, failureType, hresult⟩
    · intro hstate
      rw [hstate] at haccounts
      exact haccounts
  · intro hcalls
    cases hat : settlementAt rt (epochId, roundIndex, settlementId) (live rt store events).store with
    | none =>
      rw [hat] at htruthful
      exact absurd htruthful hcalls
    | some r =>
      rw [hat] at htruthful
      obtain ⟨hread, hid⟩ := settlementAt_eq_some.mp hat
      refine ⟨r, hread, hid, htruthful.2.resolve_left hcalls, ?_⟩
      intro hstate
      have haccounts := htruthful.1
      rw [hstate] at haccounts
      exact hcalls haccounts

/-- The round of a promotion whose hook succeeds, in a process that dies before it
has noted so. -/
def roundSession : Session Exact (String × Option String) where
  settlement :=
    { epochId := "e1", roundIndex := 0, settlementId := firstId, decision := "promoted"
      promotedGenerationId := some "g1", primaryPromotedGenerationId := some "g1"
      challengers := ["g1"]
      candidates := [{ experimentId := "exp_e1_g1", generationId := "g1"
                       createdAt := "2025-01-01T00:00:00+00:00", parentScalar := .float (.fin 2)
                       childScalar := .float (.fin 1), outcome := .dict roundOutcome, json := none }]
      fieldRecord := none, gateResults := [] }
  adapter := { name := "svc", onPromote := true }
  commit := { auth := roundAuthorities, interrupt := none }
  ingest := none
  before := { auth := roundAuthorities, interrupt := none }
  result := some none
  after := { auth := roundAuthorities, interrupt := some (.dies 0) }

/-- The session, a recovery, and the session again. -/
def roundEvents : List (Event Exact (String × Option String)) :=
  [.session roundSession,
    .recover "e1" (fun _ => none) { auth := roundAuthorities, interrupt := none },
    .session roundSession]

theorem promotion_hook_at_most_once_round :
    ((live roundCodec {} roundEvents).callsOf ("e1", 0, firstId)).length = 1 ∧
      ∃ r, readSettlementReceipt roundCodec (live roundCodec {} roundEvents).store "e1" 0 =
        .ok (some r) ∧ r.state = .committed ∧ r.promotionHook.state ≠ .pending := by
  have hone : ((live roundCodec {} roundEvents).callsOf ("e1", 0, firstId)).length = 1 := by
    decide +kernel
  obtain ⟨-, -, -, hstored⟩ :=
    promotion_hook_at_most_once roundCodec "e1" 0 firstId {} rfl roundEvents
  obtain ⟨r, hread, -, hcommitted, hstate⟩ := hstored fun hnil => by
    rw [hnil] at hone
    cases hone
  exact ⟨hone, r, hread, hcommitted, hstate⟩

end Zicato.Receipt
