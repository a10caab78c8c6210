import Mathlib.Data.List.Dedup
import Zicato.ReceiptDecode
import Zicato.Settlement

/-! # Receipts across crashes

Every step that writes a receipt read it first, changes one of its states and
writes the whole of it back.  So a receipt only ever moves forward (`Advances`),
wherever a step is cut, and the relation between the receipts before and after
(`Forward`) is the one that every step keeps. -/
open List Option Zicato.Proc Zicato.Dict Except
namespace Zicato.Receipt

open Relation (ReflTransGen)

/-! ## Moving forward -/

/-- The moves of the state of a receipt. -/
inductive ReceiptState.Moves : ReceiptState → ReceiptState → Prop
  | commit : Moves .pending .committed

/-- The moves of the state of the index projection. -/
inductive IndexState.Moves : IndexState → IndexState → Prop
  | succeed : Moves .pending .succeeded
  | fail : Moves .pending .repairRequired
  | repair : Moves .repairRequired .repaired

/-- The one move of the state of the hook that a recovery makes. -/
inductive HookState.Fires : HookState → HookState → Prop
  | fire : Fires .pending .deliveryUnknown

/-- The moves of the state of the promotion hook. -/
inductive HookState.Moves : HookState → HookState → Prop
  | skip : Moves .pending .notApplicable
  | fire : Moves .pending .deliveryUnknown
  | succeed : Moves .deliveryUnknown .succeeded
  | fail : Moves .deliveryUnknown .failed

theorem HookState.Fires.moves {a b : HookState} (h : HookState.Fires a b) :
    HookState.Moves a b := by
  cases h
  exact .fire

variable {F O : Type}

/-- `r'` is `r` later: the facts are the same and the states have moved, that of
the hook by moves of `H`. -/
structure Advances (H : HookState → HookState → Prop) (r r' : SettlementReceipt F) : Prop where
  facts : r'.immutableFacts = r.immutableFacts
  state : ReflTransGen ReceiptState.Moves r.state r'.state
  index : ReflTransGen IndexState.Moves r.indexProjection.state r'.indexProjection.state
  hook : ReflTransGen H r.promotionHook.state r'.promotionHook.state

variable {H H' : HookState → HookState → Prop}

theorem Advances.refl (r : SettlementReceipt F) : Advances H r r := ⟨rfl, .refl, .refl, .refl⟩

variable {r'' : SettlementReceipt F}

theorem Advances.trans {r r' : SettlementReceipt F} (h : Advances H r r') (h' : Advances H r' r'') :
    Advances H r r'' :=
  ⟨h'.facts.trans h.facts, h.state.trans h'.state, h.index.trans h'.index,
    h.hook.trans h'.hook⟩

theorem Advances.mono (hH : ∀ a b, H a b → H' a b) {r r' : SettlementReceipt F}
    (h : Advances H r r') : Advances H' r r' :=
  ⟨h.facts, h.state, h.index, Relation.ReflTransGen.mono hH _ _ h.hook⟩

/-- Without moves a hook stays as it is. -/
theorem Advances.hook_eq {r r' : SettlementReceipt F} (h : Advances (fun _ _ => False) r r') :
    r'.promotionHook.state = r.promotionHook.state := by
  rcases h.hook.cases_tail with heq | ⟨_, -, hfalse⟩
  · exact heq
  · exact hfalse.elim

/-- What is final stays final. -/
theorem Advances.committed {r r' : SettlementReceipt F} (h : Advances H r r')
    (hr : r.state = .committed) : r'.state = .committed := by
  have hstate := h.state
  rw [hr] at hstate
  rcases hstate.cases_head with heq | ⟨_, hmove, -⟩
  · exact heq.symm
  · cases hmove

variable [PyFloat F] (rt : ReceiptCodec F O) (auth : Authorities F O)

/-- The file at `key` is a receipt. -/
def Decodes (key : String × Nat) (file : Except String (PyValue F))
    (r : SettlementReceipt F) : Prop :=
  (file >>= fun v => decodeSettlementReceipt rt v (some key.1) (some key.2)) = .ok r

variable (H) in
/-- No file disappears; a file that changes was a receipt and is the same receipt
later. -/
def Forward (store store' : Store F) : Prop :=
  ∀ key file, Dict.get? store.receipts key = some file →
    ∃ file', Dict.get? store'.receipts key = some file' ∧
      (file' = file ∨ ∃ r r', Decodes rt key file r ∧ Decodes rt key file' r' ∧ Advances H r r')

variable {rt auth}

variable {a b : Store F}

theorem Forward.mono (hH : ∀ a b, H a b → H' a b) (h : Forward H rt a b) : Forward H' rt a b := by
  intro key file hfile
  obtain ⟨file', hfile', hmove⟩ := h key file hfile
  refine ⟨file', hfile', hmove.imp_right ?_⟩
  rintro ⟨r, r', hr, hr', hadv⟩
  exact ⟨r, r', hr, hr', hadv.mono hH⟩

theorem Forward.refl (store : Store F) : Forward H rt store store :=
  fun _ file h => ⟨file, h, .inl rfl⟩

/-- Forward is transitive. -/
theorem Forward.trans {c : Store F} (hab : Forward H rt a b) (hbc : Forward H rt b c) :
    Forward H rt a c := by
  intro key file h
  obtain ⟨file₁, h₁, hmove⟩ := hab key file h
  obtain ⟨file₂, h₂, hmove'⟩ := hbc key file₁ h₁
  refine ⟨file₂, h₂, ?_⟩
  rcases hmove with rfl | ⟨r, r₁, hr, hr₁, hadv⟩
  · exact hmove'
  · rcases hmove' with rfl | ⟨r₁', r₂, hr₁', hr₂, hadv'⟩
    · exact .inr ⟨r, r₁, hr, hr₁, hadv⟩
    · -- the file between decodes to one receipt
      obtain rfl : r₁' = r₁ := ok.inj (hr₁'.symm.trans hr₁)
      exact .inr ⟨r, r₂, hr, hr₂, hadv.trans hadv'⟩

variable (rt H) in
/-- The store has moved forward and has no new file. -/
def Within (store store' : Store F) : Prop :=
  Forward H rt store store' ∧ store'.receipts.keys = store.receipts.keys

theorem Within.refl (store : Store F) : Within H rt store store := ⟨.refl store, rfl⟩

theorem Within.trans {c : Store F} (hab : Within H rt a b) (hbc : Within H rt b c) :
    Within H rt a c :=
  ⟨hab.1.trans hbc.1, hbc.2.trans hab.2⟩

/-! ## A receipt on disk -/

variable (rt) in
/-- The receipt `r` is on disk, as the dictionary `d`. -/
structure Stored (store : Store F) (d : Fields F) (r : SettlementReceipt F) : Prop where
  file : Dict.get? store.receipts (r.epochId, r.roundIndex) = some (.ok (.dict d))
  accepted : Accepted rt d none none r

theorem Stored.decodes {store : Store F} {d : Fields F} {r : SettlementReceipt F}
    (h : Stored rt store d r) : Decodes rt (r.epochId, r.roundIndex) (.ok (.dict d)) r :=
  decodeFields_eq_ok.mpr (h.accepted.expect _ _ (by simp) (by simp))

theorem Stored.read {store : Store F} {d : Fields F} {r : SettlementReceipt F}
    (h : Stored rt store d r) :
    readSettlementReceipt rt store r.epochId r.roundIndex = .ok (some r) := by
  have := h.decodes
  unfold Decodes at this
  simp only [readSettlementReceipt, h.file, this]

theorem decodes_accepted {key : String × Nat} {file : Except String (PyValue F)}
    {r : SettlementReceipt F} (h : Decodes rt key file r) :
    ∃ d, file = .ok (.dict d) ∧ Accepted rt d none none r ∧ (r.epochId, r.roundIndex) = key := by
  obtain ⟨v, rfl, hdecode⟩ := bind_eq_ok h
  unfold decodeSettlementReceipt at hdecode
  split at hdecode
  · rename_i d
    have hacc := decodeFields_eq_ok.mp hdecode
    obtain ⟨he, hn⟩ := hacc.expected_eq
    exact ⟨d, rfl, hacc.expect _ _ (by simp) (by simp), Prod.ext he hn⟩
  · cases hdecode

/-- A receipt that is read is on disk, as what it makes of itself. -/
theorem stored_of_read {store : Store F} {epochId : String} {roundIndex : Nat}
    {r : SettlementReceipt F} (h : readSettlementReceipt rt store epochId roundIndex = .ok (some r)) :
    Stored rt store r.toDict r ∧ r.epochId = epochId ∧ r.roundIndex = roundIndex := by
  unfold readSettlementReceipt at h
  split at h
  · cases h
  · rename_i file hfile
    split at h
    · rename_i r' hr
      obtain rfl := some.inj (ok.inj h)
      have hdecodes : Decodes rt (epochId, roundIndex) file r' := hr
      obtain ⟨d, rfl, hacc, hkey⟩ := decodes_accepted hdecodes
      obtain ⟨he, hn⟩ := Prod.mk.inj hkey
      rw [hacc.toDict_eq]
      exact ⟨⟨by rw [he, hn]; exact hfile, hacc⟩, he, hn⟩
    · cases h

/-- Writing one receipt: the other files stay, and it is the receipt later. -/
theorem Stored.write {store : Store F} {d d' : Fields F} {r r' : SettlementReceipt F}
    (h : Stored rt store d r) (hacc : Accepted rt d' none none r') (hagree : Agrees r r')
    (hadv : Advances H r r') :
    Within H rt store (Medium.apply store
        { epochId := r'.epochId, roundIndex := r'.roundIndex, body := d' }) ∧
      Stored rt (Medium.apply store
        { epochId := r'.epochId, roundIndex := r'.roundIndex, body := d' }) d' r' := by
  have hstored : Stored rt (Medium.apply store
      { epochId := r'.epochId, roundIndex := r'.roundIndex, body := d' }) d' r' :=
    ⟨by simp [Medium.apply, get?_set], hacc⟩
  refine ⟨⟨?_, ?_⟩, hstored⟩
  swap
  · refine keys_set ?_
    rw [hagree.epochId, hagree.roundIndex, h.file]
    rfl
  intro key file hfile
  by_cases hkey : (r'.epochId, r'.roundIndex) = key
  · refine ⟨.ok (.dict d'), by simp [Medium.apply, get?_set, hkey], .inr ⟨r, r', ?_, ?_,
      hadv⟩⟩
    · rw [hagree.epochId, hagree.roundIndex] at hkey
      rw [← hkey, h.file] at hfile
      rw [← hkey, ← some.inj hfile]
      exact h.decodes
    · rw [← hkey]
      exact hstored.decodes
  · exact ⟨file, by simp [Medium.apply, get?_set, hkey, hfile], .inl rfl⟩

/-! ## Publishing one change -/

omit [PyFloat F] in
theorem sameFacts_set {d : Fields F} {key : String} (hkey : key ∈ progressKeys) (v : PyValue F) :
    SameFacts d (Dict.set d key v) := by
  intro other hother
  have hne : key ≠ other := fun he => hother (he ▸ hkey)
  rw [get?_set, if_neg hne]

/-- A change of a state leaves the facts as they are. -/
theorem Accepted.immutableFacts_set {d : Fields F} {key : String} {v : PyValue F}
    {r r' : SettlementReceipt F} (h : Accepted rt d none none r)
    (h' : Accepted rt (Dict.set d key v) none none r') (hkey : key ∈ progressKeys) :
    r'.immutableFacts = r.immutableFacts := by
  rw [SettlementReceipt.immutableFacts, SettlementReceipt.immutableFacts, h.toDict_eq,
    h'.toDict_eq]
  exact filter_set (by simp [hkey])

variable (rt) in
/-- `publish` writes a receipt that is accepted, and nothing else. -/
theorem publish_cases (body : Fields F) (store : Store F) :
    (∃ r, Accepted rt body none none r ∧ publish rt body store =
      { writes := [{ epochId := r.epochId, roundIndex := r.roundIndex, body := body }]
        result := .ok () }) ∨
    ∃ e, publish rt body store = { writes := [], result := .error e } := by
  cases hdecode : decodeFields rt body none none with
  | error e =>
    refine .inr ⟨e, ?_⟩
    simp only [publish, decodeSettlementReceipt, hdecode, lift_error_bind]
  | ok r =>
    have hacc := decodeFields_eq_ok.mp hdecode
    refine .inl ⟨r, hacc, ?_⟩
    simp only [publish, writeSettlementReceipt, decodeSettlementReceipt, hdecode,
      lift_ok_bind, hacc.toDict_eq]
    rfl

/-- What holds of every accepted write holds of publishing it. -/
theorem publish_ensures {R : Store F → Store F → Prop} {Q : Unit → Store F → Prop}
    (hrefl : ∀ store, R store store) {body : Fields F} {store : Store F}
    (h : ∀ r, Accepted rt body none none r →
      R store (Medium.apply store
        { epochId := r.epochId, roundIndex := r.roundIndex, body := body }) ∧
      Q () (Medium.apply store
        { epochId := r.epochId, roundIndex := r.roundIndex, body := body })) :
    Proc.Ensures R (publish rt body) store Q := by
  rcases publish_cases rt body store with ⟨r, hacc, hpub⟩ | ⟨e, hpub⟩
  · obtain ⟨hR, hQ⟩ := h r hacc
    refine ⟨fun k => ?_, fun u _ => ?_⟩
    · rw [hpub]
      cases k with
      | zero => exact hrefl store
      | succ k => simpa using hR
    · rw [Proc.after, hpub]
      exact hQ
  · refine ensures_of_no_writes hrefl (by rw [hpub]) fun u hu => ?_
    rw [hpub] at hu
    cases hu

/-- **Publishing a later version of a stored receipt** moves the store forward,
wherever it is cut, and stores it if it returns. -/
theorem Stored.publish {store : Store F} {d d' : Fields F} {r : SettlementReceipt F}
    {P : SettlementReceipt F → Prop} (h : Stored rt store d r)
    (hlater : ∀ r', Accepted rt d' none none r' → Agrees r r' ∧ Advances H r r' ∧ P r') :
    Proc.Ensures (Within H rt) (Receipt.publish rt d') store fun _ store' =>
      ∃ r', Stored rt store' d' r' ∧ Agrees r r' ∧ Advances H r r' ∧ P r' := by
  refine publish_ensures Within.refl ?_
  intro r' hacc
  obtain ⟨hagree, hadv, hP⟩ := hlater r' hacc
  obtain ⟨hwithin, hstored⟩ := h.write hacc hagree hadv
  exact ⟨hwithin, r', hstored, hagree, hadv, hP⟩

/-! ### The five changes -/

section Changes
variable {d : Fields F} {r r' : SettlementReceipt F}

variable {v : PyValue F}

/-- The states of a dictionary with another state are those of the dictionary. -/
theorem Accepted.state_of_set {key : String} (h : Accepted rt d none none r)
    (h' : Accepted rt (Dict.set d key v) none none r') (hkey : key ≠ "state") :
    r'.state = r.state := by
  have hstate := h'.state
  rw [decodeState, get, get?_set, if_neg hkey] at hstate
  exact ok.inj (hstate.symm.trans h.state)

theorem Accepted.index_of_set {key : String} (h : Accepted rt d none none r)
    (h' : Accepted rt (Dict.set d key v) none none r') (hkey : key ≠ "index_projection") :
    r'.indexProjection = r.indexProjection := by
  have hindex := h'.index
  rw [decodeIndex, get, get?_set, if_neg hkey] at hindex
  exact ok.inj (hindex.symm.trans h.index)

theorem Accepted.hook_of_set {key : String} (h : Accepted rt d none none r)
    (h' : Accepted rt (Dict.set d key v) none none r') (hkey : key ≠ "promotion_hook") :
    r'.promotionHook = r.promotionHook := by
  have hhook := h'.hook
  rw [decodeHook, get, get?_set, if_neg hkey] at hhook
  exact ok.inj (hhook.symm.trans h.hook)

variable {inner : Fields F}

section
variable (h : Accepted rt d none none r)
include h

/-- The state of the hook is what the dictionary says it is. -/
theorem Accepted.hook_state {s : HookState} (hd : Dict.get? d "promotion_hook" = some (.dict inner))
    (hs : Dict.get? inner "state" = some (.str s.asStr)) : r.promotionHook.state = s := by
  obtain ⟨inner', hinner, hitems, -⟩ := decodeHook_ok h.hook
  rw [hd] at hinner
  obtain rfl := PyValue.dict.inj (some.inj hinner)
  have hstate := hitems ("state", .str r.promotionHook.state.asStr) (by simp [PromotionHook.asDict])
  rw [hs] at hstate
  have hstr := PyValue.str.inj (some.inj hstate)
  have := HookState.ofStr_asStr s
  rw [hstr, HookState.ofStr_asStr] at this
  exact some.inj this

/-- The state of the projection is the recorded one. -/
theorem Accepted.index_state {s : IndexState}
    (hd : Dict.get? d "index_projection" = some (.dict inner))
    (hs : Dict.get? inner "state" = some (.str s.asStr)) : r.indexProjection.state = s := by
  obtain ⟨inner', hinner, hitems, -⟩ := decodeIndex_ok h.index
  rw [hd] at hinner
  obtain rfl := PyValue.dict.inj (some.inj hinner)
  have hstate := hitems ("state", .str r.indexProjection.state.asStr)
    (by simp [IndexProjection.asDict])
  rw [hs] at hstate
  have hstr := PyValue.str.inj (some.inj hstate)
  have := IndexState.ofStr_asStr s
  rw [hstr, IndexState.ofStr_asStr] at this
  exact some.inj this

/-- Committing a pending receipt. -/
theorem Accepted.commit (hpending : r.state ≠ .committed)
    (h' : Accepted rt (Dict.set d "state" (.str "committed")) none none r') :
    Agrees r r' ∧ Advances H r r' ∧ r'.state = .committed := by
  have hkey : "state" ∈ progressKeys := by decide
  have hstate : r'.state = .committed := by
    have := h'.state
    simp [decodeState, get, get?_set, ReceiptState.ofStr, ReceiptState.asStr] at this
    exact this.symm
  have hfrom : r.state = .pending := by
    cases hr : r.state with
    | pending => rfl
    | committed => exact absurd hr hpending
  refine ⟨h.agrees h' (sameFacts_set hkey _), ⟨h.immutableFacts_set h' hkey, ?_, ?_, ?_⟩, hstate⟩
  · rw [hfrom, hstate]
    exact .single .commit
  · rw [h.index_of_set h' (by decide)]
  · rw [h.hook_of_set h' (by decide)]

/-- Recording what the index refresh of a pending projection did. -/
theorem Accepted.project (hpending : r.indexProjection.state = .pending) (ingest : Ingest)
    (h' : Accepted rt (Dict.set d "index_projection" (.dict (projectSettlementIndex ingest)))
      none none r') :
    Agrees r r' ∧ Advances H r r' ∧ r'.state = r.state ∧ r'.indexProjection.state ≠ .pending := by
  have hkey : "index_projection" ∈ progressKeys := by decide
  have hmoves : IndexState.Moves r.indexProjection.state r'.indexProjection.state := by
    rw [hpending]
    cases ingest with
    | none =>
      rw [h'.index_state (s := .succeeded) (by simp [get?_set]; rfl) rfl]
      exact .succeed
    | some errorType =>
      rw [h'.index_state (s := .repairRequired) (by simp [get?_set]; rfl) rfl]
      exact .fail
  refine ⟨h.agrees h' (sameFacts_set hkey _), ⟨h.immutableFacts_set h' hkey, ?_, .single hmoves,
    ?_⟩, h.state_of_set h' (by decide), ?_⟩
  · rw [h.state_of_set h' (by decide)]
  · rw [h.hook_of_set h' (by decide)]
  · intro hp
    rw [hpending, hp] at hmoves
    cases hmoves

/-- Moving the state of the hook. -/
theorem Accepted.moveHook {s : HookState} (hmoves : H r.promotionHook.state s)
    (hs : Dict.get? inner "state" = some (.str s.asStr))
    (h' : Accepted rt (Dict.set d "promotion_hook" (.dict inner)) none none r') :
    Agrees r r' ∧ Advances H r r' ∧ r'.state = r.state ∧
      r'.indexProjection = r.indexProjection ∧ r'.promotionHook.state = s := by
  have hkey : "promotion_hook" ∈ progressKeys := by decide
  have hstate : r'.promotionHook.state = s := h'.hook_state (by simp [get?_set]) hs
  refine ⟨h.agrees h' (sameFacts_set hkey _), ⟨h.immutableFacts_set h' hkey, ?_, ?_, ?_⟩,
    h.state_of_set h' (by decide), h.index_of_set h' (by decide), hstate⟩
  · rw [h.state_of_set h' (by decide)]
  · rw [h.index_of_set h' (by decide)]
  · rw [hstate]
    exact .single hmoves

/-- A repaired index. -/
theorem Accepted.repair (hrequired : r.indexProjection.state = .repairRequired)
    (hs : Dict.get? inner "state" = some (.str IndexState.repaired.asStr))
    (h' : Accepted rt (Dict.set d "index_projection" (.dict inner)) none none r') :
    Agrees r r' ∧ Advances H r r' := by
  have hkey : "index_projection" ∈ progressKeys := by decide
  have hstate : r'.indexProjection.state = .repaired := h'.index_state (by simp [get?_set]) hs
  refine ⟨h.agrees h' (sameFacts_set hkey _), ⟨h.immutableFacts_set h' hkey, ?_, ?_, ?_⟩⟩
  · rw [h.state_of_set h' (by decide)]
  · rw [hrequired, hstate]
    exact .single .repair
  · rw [h.hook_of_set h' (by decide)]

/-- A state that is changed in place is written with the rest of its record. -/
theorem Accepted.updateIn_hook (s : HookState) :
    ∃ inner, Dict.get? inner "state" = some (.str s.asStr) ∧
      updateIn d "promotion_hook" [("state", .str s.asStr)] =
        Dict.set d "promotion_hook" (.dict inner) := by
  obtain ⟨inner, hinner, -⟩ := decodeHook_ok h.hook
  refine ⟨Dict.set inner "state" (.str s.asStr), by simp [get?_set], ?_⟩
  rw [updateIn, get_of_get? hinner]
  rfl

theorem Accepted.updateIn_index (s : IndexState) :
    ∃ inner, Dict.get? inner "state" = some (.str s.asStr) ∧
      updateIn d "index_projection" [("state", .str s.asStr)] =
        Dict.set d "index_projection" (.dict inner) := by
  obtain ⟨inner, hinner, -⟩ := decodeIndex_ok h.index
  refine ⟨Dict.set inner "state" (.str s.asStr), by simp [get?_set], ?_⟩
  rw [updateIn, get_of_get? hinner]
  rfl

/-- What replay reads of the index projection. -/
theorem Accepted.stateIn_index :
    stateIn d "index_projection" = some "pending" ↔ r.indexProjection.state = .pending := by
  obtain ⟨inner, hinner, hitems, -⟩ := decodeIndex_ok h.index
  have hstate := hitems ("state", .str r.indexProjection.state.asStr)
    (by simp [IndexProjection.asDict])
  simp only [stateIn, get_of_get? hinner, get_of_get? hstate, str?]
  cases r.indexProjection.state <;> simp [IndexState.asStr]

end

end Changes

/-! ## Validation -/

variable {e : Option String} {n : Option Nat} {parentId : String}

/-- Validation decodes what it is given. -/
theorem decode_of_validate {store : Store F} {intent : PyValue F} {r : SettlementReceipt F}
    (h : validateWorkspaceSettlement rt auth store intent e n = .ok (r, parentId)) :
    decodeSettlementReceipt rt intent e n = .ok r := by
  unfold validateWorkspaceSettlement at h
  obtain ⟨receipt, hdecode, h⟩ := bind_eq_ok h
  iterate 5 obtain ⟨_, -, h⟩ := bind_eq_ok h
  obtain ⟨rfl, -⟩ := Prod.mk.inj (ok.inj h)
  exact hdecode

theorem validate_accepted {store : Store F} {d : Fields F} {r : SettlementReceipt F}
    (h : validateWorkspaceSettlement rt auth store (.dict d) e n = .ok (r, parentId)) :
    Accepted rt d e n r :=
  decodeFields_eq_ok.mp (decode_of_validate h)

theorem Accepted.unique {d : Fields F} {e' : Option String} {n' : Option Nat}
    {r r' : SettlementReceipt F} (h : Accepted rt d e n r) (h' : Accepted rt d e' n' r') :
    r' = r := by
  have hd := decodeFields_eq_ok.mpr (h.expect none none (by simp) (by simp))
  have hd' := decodeFields_eq_ok.mpr (h'.expect none none (by simp) (by simp))
  exact ok.inj (hd'.symm.trans hd)

omit [PyFloat F] in
theorem Agrees.refl (r : SettlementReceipt F) : Agrees r r := ⟨rfl, rfl, rfl, rfl, rfl, rfl⟩

omit [PyFloat F] in
theorem Agrees.trans {r r' : SettlementReceipt F} (h : Agrees r r') (h' : Agrees r' r'') :
    Agrees r r'' :=
  ⟨h'.epochId.trans h.epochId, h'.roundIndex.trans h.roundIndex,
    h'.settlementId.trans h.settlementId, h'.primaryId.trans h.primaryId,
    h'.candidates.trans h.candidates, h'.fieldRecord.trans h.fieldRecord⟩

variable (rt auth) in
/-- The workspace does not contradict the decision of `r`, once it is final. -/
def Validates (r : SettlementReceipt F) : Prop :=
  ∃ experiments lineage parentId,
    r.candidates.mapM (fun c => auth.readExperiment r.epochId c.generationId) = .ok experiments ∧
    auth.lineage = .ok lineage ∧
    ∀ r', Agrees r r' → r'.state = .committed →
      validateSettlementRecords rt r' experiments lineage none none = .ok parentId

theorem Validates.agrees {r r' : SettlementReceipt F} (h : Validates rt auth r)
    (hagree : Agrees r r') : Validates rt auth r' := by
  obtain ⟨experiments, lineage, parentId, hexp, hlin, hval⟩ := h
  refine ⟨experiments, lineage, parentId, ?_, hlin, fun r'' h'' => hval r'' (hagree.trans h'')⟩
  rw [hagree.candidates, hagree.epochId]
  exact hexp

variable {experiments : List (Experiment O)}

omit [PyFloat F] in
/-- The experiments that pass for a pending receipt pass for a committed one. -/
theorem validateSettlementExperiments_committed {r r' : SettlementReceipt F} (hagree : Agrees r r')
    (hstate : r'.state = .committed)
    (h : validateSettlementExperiments rt r experiments = .ok parentId) :
    validateSettlementExperiments rt r' experiments = .ok parentId := by
  unfold validateSettlementExperiments at h ⊢
  rw [hagree.candidates, hagree.fieldRecord]
  obtain ⟨⟨⟩, hlength, h⟩ := bind_eq_ok h
  obtain ⟨parents, hparents, h⟩ := bind_eq_ok h
  rw [hlength, ok_bind, mapM_ok_of_imp ?_ hparents]
  · exact h
  · -- only the check of a recorded outcome reads the state
    intro pair y hy
    unfold checkExperiment at hy ⊢
    dsimp only at hy ⊢
    rw [hagree.epochId, hagree.roundIndex]
    obtain ⟨⟨⟩, hid, hy⟩ := bind_eq_ok hy
    obtain ⟨outcome, houtcome, hy⟩ := bind_eq_ok hy
    obtain ⟨⟨⟩, -, hy⟩ := bind_eq_ok hy
    rw [hid, ok_bind, houtcome, ok_bind]
    simp only [hstate, require]
    exact hy

/-- A receipt that validates pending validates committed. -/
theorem validateSettlementRecords_committed {r r' : SettlementReceipt F}
    {lineage : String → Option (String → Option LineageGeneration)} {existing : Option (Fields F)}
    {marker : Option String} (hagree : Agrees r r') (hstate : r'.state = .committed)
    (h : validateSettlementRecords rt r experiments lineage existing marker = .ok parentId) :
    validateSettlementRecords rt r' experiments lineage none none = .ok parentId := by
  unfold validateSettlementRecords at h ⊢
  obtain ⟨parent, hparent, h⟩ := bind_eq_ok h
  obtain ⟨⟨⟩, -, h⟩ := bind_eq_ok h
  have hfield : validateExistingFieldRecord rt none r'.fieldRecord = .ok () := by
    unfold validateExistingFieldRecord
    cases r'.fieldRecord <;> rfl
  rw [validateSettlementExperiments_committed hagree hstate hparent, ok_bind, hfield, ok_bind,
    hagree.epochId]
  split at h
  · cases h
  · rename_i epoch hepoch
    obtain ⟨⟨⟩, hcandidates, h⟩ := bind_eq_ok h
    obtain ⟨⟨⟩, -, h⟩ := bind_eq_ok h
    have hlineage : checkLineage rt r' parent epoch = checkLineage rt r parent epoch := by
      funext candidate
      simp only [checkLineage, hagree.roundIndex]
    have hcurrent : checkCurrentGeneration rt r' parent none = .ok () := by
      unfold checkCurrentGeneration
      split
      · rfl
      · simp [require]
    rw [hagree.candidates, hlineage, hcandidates, ok_bind, hcurrent, ok_bind]
    exact h

/-- What validated once, validates when it is committed. -/
theorem validates_of_validate {store : Store F} {d : Fields F} {r : SettlementReceipt F}
    (h : validateWorkspaceSettlement rt auth store (.dict d) e n = .ok (r, parentId)) :
    Validates rt auth r := by
  unfold validateWorkspaceSettlement at h
  obtain ⟨receipt, -, h⟩ := bind_eq_ok h
  obtain ⟨experiments, hexp, h⟩ := bind_eq_ok h
  obtain ⟨existing, -, h⟩ := bind_eq_ok h
  obtain ⟨marker, -, h⟩ := bind_eq_ok h
  obtain ⟨lineage, hlin, h⟩ := bind_eq_ok h
  obtain ⟨parent, hrecords, h⟩ := bind_eq_ok h
  obtain ⟨rfl, -⟩ := Prod.mk.inj (ok.inj h)
  exact ⟨experiments, lineage, parent, hexp, hlin, fun r' hagree hstate =>
    validateSettlementRecords_committed hagree hstate hrecords⟩

/-- A committed receipt that validates, once more. -/
theorem Validates.validate {d : Fields F} {r : SettlementReceipt F} (h : Validates rt auth r)
    (hacc : Accepted rt d e n r) (hstate : r.state = .committed) (store : Store F) :
    ∃ parentId, validateWorkspaceSettlement rt auth store (.dict d) e n = .ok (r, parentId) := by
  obtain ⟨experiments, lineage, parentId, hexp, hlin, hval⟩ := h
  refine ⟨parentId, ?_⟩
  have hdecode : decodeSettlementReceipt rt (.dict d) e n = .ok r := decodeFields_eq_ok.mpr hacc
  have hexisting : existingFieldRecord auth store r = .ok none := by
    simp [existingFieldRecord, hstate]
  have hmarker : currentMarker rt store r = .ok none := by
    simp [currentMarker, hstate]
  unfold validateWorkspaceSettlement
  rw [hdecode, ok_bind, hexp, ok_bind, hexisting, ok_bind, hmarker, ok_bind, hlin, ok_bind,
    hval r (.refl r) hstate]
  rfl

/-! ## What the steps ensure -/

section Steps
variable {store : Store F} {d : Fields F} {r : SettlementReceipt F}

/-- Publishing the outcomes commits the receipt. -/
theorem Stored.publishOutcomes (h : Stored rt store d r) :
    Proc.Ensures (Within H rt) (publishOutcomes rt r d) store fun d' store' =>
      ∃ r', Stored rt store' d' r' ∧ Agrees r r' ∧ Advances H r r' ∧ r'.state = .committed := by
  unfold Receipt.publishOutcomes
  split
  · rename_i hstate
    exact ensures_pure Within.refl ⟨r, h, .refl r, .refl r, hstate⟩
  · rename_i hstate
    refine ensures_bind (fun _ _ _ => Within.trans)
      (h.publish fun r' hacc => h.accepted.commit hstate hacc) ?_
    intro _ hpost
    exact ensures_pure Within.refl hpost

/-- A refresh leaves the projection settled. -/
theorem Stored.refreshIndex (h : Stored rt store d r) (ingest : Ingest) :
    Proc.Ensures (Within H rt) (refreshIndex rt d ingest) store fun _ store' =>
      ∃ d' r', Stored rt store' d' r' ∧ Agrees r r' ∧ Advances H r r' ∧ r'.state = r.state ∧
        r'.indexProjection.state ≠ .pending := by
  unfold Receipt.refreshIndex
  split
  · rename_i hpending
    have hstate := h.accepted.stateIn_index.mp hpending
    refine (h.publish fun r' hacc => h.accepted.project hstate ingest hacc).mono
      (fun _ hw => hw) ?_
    rintro u ⟨r', hstored, hagree, hadv, hsame, hindex⟩
    exact ⟨_, r', hstored, hagree, hadv, hsame, hindex⟩
  · rename_i hpending
    refine ensures_pure Within.refl ⟨d, r, h, .refl r, .refl r, rfl, ?_⟩
    exact fun hp => hpending (h.accepted.stateIn_index.mpr hp)

/-- **Replaying a stored receipt** moves it forward; once it returns the receipt
is committed and its index is not pending. -/
theorem Stored.replay (h : Stored rt store d r) (ingest : Ingest) :
    Proc.Ensures (Within H rt) (replayFieldSettlement rt auth d (some r.epochId)
      (some r.roundIndex) ingest) store fun _ store' =>
      ∃ d' r', Stored rt store' d' r' ∧ Agrees r r' ∧ Advances H r r' ∧ r'.state = .committed ∧
        r'.indexProjection.state ≠ .pending := by
  refine ensures_look Within.refl ?_
  rintro ⟨settlement, parentId⟩ hvalidate
  obtain rfl := h.accepted.unique (validate_accepted hvalidate)
  refine ensures_bind (fun _ _ _ => Within.trans) h.publishOutcomes ?_
  rintro receipt ⟨r₁, hstored₁, hagree₁, hadv₁, hstate₁⟩
  refine (hstored₁.refreshIndex ingest).mono (fun _ hw => hw) ?_
  rintro u ⟨d₂, r₂, hstored₂, hagree₂, hadv₂, hstate₂, hindex⟩
  exact ⟨d₂, r₂, hstored₂, hagree₁.trans hagree₂, hadv₁.trans hadv₂, hstate₂.trans hstate₁,
    hindex⟩

/-- A replay commits the receipt. -/
theorem Stored.recoverReplay (h : Stored rt store r.toDict r) (ingest : Ingest) :
    Proc.Ensures (Within H rt) (recoverReplay rt auth (r.epochId, r.roundIndex) r r ingest) store
      fun current store' => Stored rt store' current.toDict current ∧ Agrees r current ∧
        current.state = .committed ∧ current.indexProjection.state ≠ .pending := by
  unfold Receipt.recoverReplay
  split
  · refine ensures_bind (fun _ _ _ => Within.trans) (h.replay ingest) ?_
    rintro _ ⟨d', r', hstored, hagree, -, hstate, hindex⟩
    refine ensures_look Within.refl ?_
    intro found hread
    have hr' := hstored.read
    rw [hagree.epochId, hagree.roundIndex, hread] at hr'
    obtain rfl := ok.inj hr'
    refine ensures_pure Within.refl ⟨?_, hagree, hstate, hindex⟩
    rwa [hstored.accepted.toDict_eq]
  · rename_i hdone
    rw [not_or] at hdone
    refine ensures_pure Within.refl ⟨h, .refl r, ?_, hdone.2⟩
    cases hr : r.state with
    | pending => exact absurd hr hdone.1
    | committed => rfl

/-- A recovery leaves no hook pending. -/
theorem Stored.recoverHook (h : Stored rt store r.toDict r) :
    Proc.Ensures (Within HookState.Fires rt) (recoverHook rt r) store fun _ store' =>
      ∃ d' r', Stored rt store' d' r' ∧ Agrees r r' ∧ r'.state = r.state ∧
        r'.indexProjection = r.indexProjection ∧ r'.promotionHook.state ≠ .pending := by
  unfold Receipt.recoverHook
  split
  · rename_i hpending
    obtain ⟨inner, hinner, hupdate⟩ := h.accepted.updateIn_hook .deliveryUnknown
    have hmoves : HookState.Fires r.promotionHook.state .deliveryUnknown := by
      rw [hpending]
      exact .fire
    change Proc.Ensures (Within HookState.Fires rt)
      (Receipt.publish rt (updateIn r.toDict "promotion_hook"
        [("state", .str HookState.deliveryUnknown.asStr)])) store _
    rw [hupdate]
    refine (h.publish fun r' hacc => h.accepted.moveHook hmoves hinner hacc).mono
      (fun _ hw => hw) ?_
    rintro u ⟨r', hstored, hagree, -, hstate, hindex, hhook⟩
    refine ⟨_, r', hstored, hagree, hstate, hindex, ?_⟩
    rw [hhook]
    decide
  · rename_i hdone
    exact ensures_pure Within.refl ⟨_, r, h, .refl r, rfl, rfl, hdone⟩

variable (rt auth) in
/-- The receipt at `key` is published to its end, and validates. -/
def Settled (store : Store F) (key : String × Nat) : Prop :=
  ∃ r, Stored rt store r.toDict r ∧ (r.epochId, r.roundIndex) = key ∧ r.state = .committed ∧
    r.indexProjection.state ≠ .pending ∧ r.promotionHook.state ≠ .pending ∧ Validates rt auth r

variable (rt auth) in
/-- **Recovering one receipt** settles it. -/
theorem recoverReceipt_ensures {key : String × Nat} (hkey : (Dict.get? store.receipts key).isSome)
    (ingest : Ingest) :
    Proc.Ensures (Within HookState.Fires rt) (recoverReceipt rt auth key ingest) store fun _ store' =>
      Settled rt auth store' key := by
  refine ensures_look Within.refl ?_
  intro found hread
  cases found with
  | none =>
    -- the file is there, so it is read or the read raises
    obtain ⟨file, hfile⟩ := isSome_iff_exists.mp hkey
    simp only [readSettlementReceipt, hfile] at hread
    split at hread <;> cases hread
  | some stored =>
    obtain ⟨hstored, he, hn⟩ := stored_of_read hread
    obtain rfl : (stored.epochId, stored.roundIndex) = key := Prod.ext he hn
    refine ensures_look Within.refl ?_
    rintro ⟨settlement, parentId⟩ hvalidate
    obtain rfl := hstored.accepted.unique (validate_accepted hvalidate)
    refine ensures_bind (fun _ _ _ => Within.trans) (hstored.recoverReplay ingest) ?_
    rintro current ⟨hcurrent, hagree, hstate, hindex⟩
    refine ensures_bind (fun _ _ _ => Within.trans) hcurrent.recoverHook ?_
    rintro _ ⟨d', r', hstored', hagree', hstate', hindex', hhook⟩
    refine ensures_pure Within.refl ⟨r', ?_, ?_, hstate'.trans hstate, ?_, hhook, ?_⟩
    · rwa [hstored'.accepted.toDict_eq]
    · rw [hagree'.epochId, hagree'.roundIndex, hagree.epochId, hagree.roundIndex]
    · rwa [hindex']
    · exact (validates_of_validate hvalidate).agrees (hagree.trans hagree')

/-! ### Recovering all of them -/

theorem ReceiptState.Moves.committed {s : ReceiptState}
    (h : ReflTransGen ReceiptState.Moves .committed s) : s = .committed := by
  rcases h.cases_head with rfl | ⟨t, hmove, -⟩
  · rfl
  · cases hmove

theorem IndexState.Moves.ne_pending {a b : IndexState} (h : ReflTransGen IndexState.Moves a b)
    (ha : a ≠ .pending) : b ≠ .pending := by
  rintro rfl
  rcases h.cases_tail with rfl | ⟨t, -, hmove⟩
  · exact ha rfl
  · cases hmove

theorem HookState.Fires.ne_pending {a b : HookState} (h : ReflTransGen HookState.Fires a b)
    (ha : a ≠ .pending) : b ≠ .pending := by
  rintro rfl
  rcases h.cases_tail with rfl | ⟨t, -, hmove⟩
  · exact ha rfl
  · cases hmove

/-- A settled receipt stays settled. -/
theorem Settled.forward {store' : Store F} {key : String × Nat} (h : Settled rt auth store key)
    (hforward : Forward HookState.Fires rt store store') : Settled rt auth store' key := by
  obtain ⟨r, hstored, hkey, hstate, hindex, hhook, hval⟩ := h
  have hfile := hstored.file
  rw [hkey] at hfile
  obtain ⟨file', hfile', rfl | ⟨r₀, r', hr₀, hr', hadv⟩⟩ := hforward key _ hfile
  · refine ⟨r, ⟨?_, hstored.accepted⟩, hkey, hstate, hindex, hhook, hval⟩
    rw [hkey]
    exact hfile'
  · have hdecodes := hstored.decodes
    rw [hkey] at hdecodes
    obtain rfl : r₀ = r := ok.inj (hr₀.symm.trans hdecodes)
    obtain ⟨d', rfl, hacc, hkey'⟩ := decodes_accepted hr'
    have hfacts := hadv.facts
    rw [SettlementReceipt.immutableFacts, SettlementReceipt.immutableFacts, hacc.toDict_eq]
      at hfacts
    have hagree := hstored.accepted.agrees hacc (sameFacts_of_immutable hfacts)
    refine ⟨r', ⟨?_, ?_⟩, hkey', ?_, IndexState.Moves.ne_pending hadv.index hindex,
      HookState.Fires.ne_pending hadv.hook hhook, hval.agrees hagree⟩
    · rw [hkey', hacc.toDict_eq]
      exact hfile'
    · rwa [hacc.toDict_eq]
    · have hmoved := hadv.state
      rw [hstate] at hmoved
      exact ReceiptState.Moves.committed hmoved

variable {keys : List (String × Nat)}

variable (rt auth) in
/-- A recovery settles every receipt it finds. -/
theorem recoverReceipts_ensures (ingests : String × Nat → Ingest)
    (hkeys : ∀ key ∈ keys, key ∈ store.receipts.keys) :
    Proc.Ensures (Within HookState.Fires rt) (recoverReceipts rt auth ingests keys) store fun _ store' =>
      ∀ key ∈ keys, Settled rt auth store' key := by
  induction keys generalizing store with
  | nil => exact ensures_pure Within.refl (by simp)
  | cons key keys ih =>
    have hkey : (Dict.get? store.receipts key).isSome := by
      rw [isSome_iff_ne_none, Ne, get?_eq_none_iff, not_not]
      exact hkeys key (by simp)
    have hfirst := recoverReceipt_ensures rt auth hkey (ingests key)
    refine ensures_bind (fun _ _ _ => Within.trans) hfirst ?_
    intro replayed hsettled
    have hwithin := hfirst.keeps.after
    have hrest := @ih ((recoverReceipt rt auth key (ingests key)).after store) fun k hk => by
      rw [hwithin.2]
      exact hkeys k (by simp [hk])
    refine ensures_bind (fun _ _ _ => Within.trans) hrest ?_
    intro others hothers
    refine ensures_pure Within.refl ?_
    intro k hk
    rcases mem_cons.mp hk with rfl | hk
    · exact hsettled.forward hrest.keeps.after.1
    · exact hothers k hk

omit [PyFloat F] in
/-- The receipts of an epoch. -/
theorem mem_storedReceiptLocations {epochId : String} {key : String × Nat} :
    key ∈ storedReceiptLocations store (some epochId) ↔
      key ∈ store.receipts.keys ∧ key.1 = epochId := by
  obtain ⟨e, n⟩ := key
  constructor
  · intro h
    obtain ⟨m, hm, heq⟩ := mem_map.mp h
    obtain ⟨rfl, rfl⟩ := Prod.mk.inj heq
    obtain ⟨key, hkey, rfl⟩ := mem_map.mp (mem_mergeSort.mp hm)
    obtain ⟨hmem, hepoch⟩ := mem_filter.mp hkey
    obtain rfl := of_decide_eq_true hepoch
    exact ⟨hmem, rfl⟩
  · rintro ⟨hmem, rfl⟩
    refine mem_map.mpr ⟨n, mem_mergeSort.mpr (mem_map.mpr ⟨(e, n), ?_, rfl⟩), rfl⟩
    exact mem_filter.mpr ⟨hmem, decide_eq_true rfl⟩

variable (rt auth) in
/-- **A recovery that returns has settled every receipt of the epoch.** -/
theorem recoverFieldSettlements_ensures (epochId : String) (ingests : String × Nat → Ingest)
    (store : Store F) :
    Proc.Ensures (Within HookState.Fires rt) (recoverFieldSettlements rt auth epochId ingests) store
      fun _ store' => epochId ≠ "" → ∀ key ∈ storedReceiptLocations store' (some epochId),
        Settled rt auth store' key := by
  unfold recoverFieldSettlements
  split
  · rename_i hempty
    exact ensures_pure Within.refl fun hne => absurd hempty hne
  · refine ensures_look Within.refl ?_
    intro locations hlocations
    obtain rfl := ok.inj hlocations
    have hpresent : ∀ key ∈ storedReceiptLocations store (some epochId),
        key ∈ store.receipts.keys := fun key hkey => (mem_storedReceiptLocations.mp hkey).1
    have hloop := recoverReceipts_ensures rt auth ingests hpresent
    refine hloop.mono (fun _ hw => hw) ?_
    intro _ hsettled _ key hkey
    obtain ⟨hmem, hepoch⟩ := mem_storedReceiptLocations.mp hkey
    rw [hloop.keeps.after.2] at hmem
    exact hsettled key (mem_storedReceiptLocations.mpr ⟨hmem, hepoch⟩)

/-- A settled receipt is recovered by doing nothing. -/
theorem Settled.recoverReceipt {key : String × Nat} (h : Settled rt auth store key)
    (ingest : Ingest) :
    recoverReceipt rt auth key ingest store = { writes := [], result := .ok 0 } := by
  obtain ⟨r, hstored, rfl, hstate, hindex, hhook, hval⟩ := h
  obtain ⟨parentId, hvalidate⟩ := hval.validate
    (hstored.accepted.expect (some r.epochId) (some r.roundIndex) (by simp) (by simp))
    hstate store
  unfold Receipt.recoverReceipt
  rw [look_bind_ok
    (g := fun store => readSettlementReceipt rt store r.epochId r.roundIndex) hstored.read]
  dsimp only
  rw [look_bind_ok (g := fun store => validateWorkspaceSettlement rt auth store
    (.dict r.toDict) (some r.epochId) (some r.roundIndex)) hvalidate]
  have hdone : ¬ (r.state = .pending ∨ r.indexProjection.state = .pending) := by
    simp [hstate, hindex]
  have hreplay : Receipt.recoverReplay rt auth (r.epochId, r.roundIndex) r r ingest = pure r :=
    if_neg hdone
  have hskip : Receipt.recoverHook rt r = pure () := if_neg hhook
  rw [hreplay, if_neg hdone]
  change (Receipt.recoverHook rt r >>= fun _ => pure 0) store = _
  rw [hskip]
  rfl

/-- A recovery of settled receipts writes nothing. -/
theorem recoverReceipts_settled (ingests : String × Nat → Ingest)
    (h : ∀ key ∈ keys, Settled rt auth store key) :
    recoverReceipts rt auth ingests keys store = { writes := [], result := .ok 0 } := by
  induction keys with
  | nil => rfl
  | cons key keys ih =>
    have hfirst := (h key (by simp)).recoverReceipt (ingests key)
    have hrest := ih fun k hk => h k (by simp [hk])
    have hafter : (Receipt.recoverReceipt rt auth key (ingests key)).after store = store := by
      rw [Proc.after, hfirst]
      rfl
    unfold recoverReceipts
    rw [bind_ok (x := 0) (by rw [hfirst]), hafter, bind_ok (x := 0) (by rw [hrest]), hfirst,
      hrest]
    rfl

/-! ### The other steps -/

/-- A permitted update is a move of the hook. -/
theorem permitted_moves {a b : HookState} (h : (permitted a).contains b = true) :
    HookState.Moves a b := by
  cases a with
  | pending =>
    cases b with
    | notApplicable => exact .skip
    | deliveryUnknown => exact .fire
    | _ => cases h
  | deliveryUnknown =>
    cases b with
    | succeeded => exact .succeed
    | failed => exact .fail
    | _ => cases h
  | _ => cases h

variable (rt) in
/-- A delivery was recorded: the committed receipt of that settlement is rewritten
with the state of its hook moved to `state`. -/
def Delivered (epochId : String) (roundIndex : Nat) (settlementId : String) (state : HookState)
    (store store' : Store F) : Prop :=
  ∃ d r d' r', Stored rt store d r ∧ (r.epochId, r.roundIndex) = (epochId, roundIndex) ∧
    r.settlementId = settlementId ∧ r.state = .committed ∧
    HookState.Moves r.promotionHook.state state ∧
    Accepted rt d' none none r' ∧ Agrees r r' ∧ Advances HookState.Moves r r' ∧
    r'.promotionHook.state = state ∧
    store' = Medium.apply store
      { epochId := r'.epochId, roundIndex := r'.roundIndex, body := d' }

theorem Delivered.within {epochId : String} {roundIndex : Nat} {settlementId : String}
    {state : HookState} {store' : Store F}
    (h : Delivered rt epochId roundIndex settlementId state store store') :
    Within HookState.Moves rt store store' := by
  obtain ⟨d, r, d', r', hstored, -, -, -, -, hacc, hagree, hadv, -, rfl⟩ := h
  exact (hstored.write hacc hagree hadv).1

variable (rt auth) in
/-- **Recording a delivery** does nothing, or moves the state of the hook. -/
theorem recordPromotionHookDelivery_ensures (epochId : String) (roundIndex : Nat)
    (settlementId : String) (state : HookState) (adapterName failureType : String)
    (store : Store F) :
    Proc.Ensures
      (fun store store' => store' = store ∨
        Delivered rt epochId roundIndex settlementId state store store')
      (recordPromotionHookDelivery rt auth epochId roundIndex settlementId state adapterName
        failureType) store
      fun _ store' => Delivered rt epochId roundIndex settlementId state store store' := by
  have hrefl : ∀ store, store = store ∨
      Delivered rt epochId roundIndex settlementId state store store := fun _ => .inl rfl
  refine ensures_look hrefl ?_
  intro found hread
  cases found with
  | none => exact ensures_error hrefl
  | some recorded =>
    obtain ⟨hstored, he, hn⟩ := stored_of_read hread
    refine ensures_look hrefl ?_
    rintro ⟨settlement, parentId⟩ hvalidate
    obtain rfl : settlement = recorded := hstored.accepted.unique (validate_accepted hvalidate)
    refine ensures_lift hrefl ?_
    intro _ hcommitted
    have hcommitted := require_ok hcommitted
    rw [Bool.and_eq_true, beq_iff_eq, beq_iff_eq] at hcommitted
    refine ensures_lift hrefl ?_
    intro _ hpermitted
    have hmoves := permitted_moves (require_ok hpermitted)
    refine publish_ensures hrefl ?_
    intro r' hacc
    obtain ⟨hagree, hadv, -, -, hhook⟩ := hstored.accepted.moveHook hmoves rfl hacc
    have hdelivered : Delivered rt epochId roundIndex settlementId state store _ :=
      ⟨_, settlement, _, r', hstored, Prod.ext he hn, hcommitted.2, hcommitted.1, hmoves, hacc,
        hagree, hadv, hhook, rfl⟩
    exact ⟨.inr hdelivered, hdelivered⟩

/-! ### Repaired indexes -/

variable (rt H) in
/-- The update is a stored receipt later. -/
def Repairs (store : Store F) (update : SettlementReceipt F) : Prop :=
  Accepted rt update.toDict none none update ∧
    ∃ d r, Stored rt store d r ∧ Agrees r update ∧ Advances H r update

def SettlementReceipt.key (r : SettlementReceipt F) : String × Nat := (r.epochId, r.roundIndex)

variable {updates : List (SettlementReceipt F)}

/-- The updates to write are repairs. -/
theorem pendingUpdates_ok (h : pendingUpdates rt auth store keys = .ok updates) :
    (∀ u ∈ updates, Repairs H rt store u) ∧ (updates.map (·.key)).Sublist keys := by
  induction keys generalizing updates with
  | nil =>
    obtain rfl := ok.inj h
    simp
  | cons key keys ih =>
    unfold pendingUpdates at h
    obtain ⟨found, hread, h⟩ := bind_eq_ok h
    cases found with
    | none =>
      obtain ⟨hall, hsub⟩ := ih h
      exact ⟨hall, hsub.cons key⟩
    | some stored =>
      obtain ⟨hstored, he, hn⟩ := stored_of_read hread
      obtain ⟨_, -, h⟩ := bind_eq_ok h
      split at h
      · obtain ⟨hall, hsub⟩ := ih h
        exact ⟨hall, hsub.cons key⟩
      · rename_i hrequired
        rw [not_or, not_not, not_not] at hrequired
        obtain ⟨accepted, hdecode, h⟩ := bind_eq_ok h
        obtain ⟨others, hothers, h⟩ := bind_eq_ok h
        obtain rfl := ok.inj h
        obtain ⟨hall, hsub⟩ := ih hothers
        have hacc : Accepted rt _ none none accepted := decodeFields_eq_ok.mp hdecode
        obtain ⟨inner, hinner, hupdate⟩ := hstored.accepted.updateIn_index .repaired
        have hset := hacc
        rw [show (PyValue.str "repaired" : PyValue F) = .str IndexState.repaired.asStr from rfl,
          hupdate] at hset
        obtain ⟨hagree, hadv⟩ := hstored.accepted.repair hrequired.2 hinner hset
        constructor
        · intro u hu
          rcases mem_cons.mp hu with rfl | hu
          · refine ⟨?_, _, stored, hstored, hagree, hadv⟩
            rwa [hacc.toDict_eq]
          · exact hall u hu
        · have hkey : accepted.key = key := by
            rw [SettlementReceipt.key, hagree.epochId, hagree.roundIndex]
            exact Prod.ext he hn
          rw [map_cons, hkey]
          exact hsub.cons_cons key

/-- A write to one receipt leaves the others as they are. -/
theorem Stored.frame {d' : Fields F} {u : SettlementReceipt F} (h : Stored rt store d r)
    (hkey : u.key ≠ r.key) :
    Stored rt (Medium.apply store
      { epochId := u.epochId, roundIndex := u.roundIndex, body := d' }) d r := by
  refine ⟨?_, h.accepted⟩
  have hne : ¬ (u.epochId, u.roundIndex) = (r.epochId, r.roundIndex) := hkey
  simp only [Medium.apply, get?_set, hne, if_false]
  exact h.file

/-- Writing repairs keeps the store forward. -/
theorem writeReceipts_ensures (hall : ∀ u ∈ updates, Repairs H rt store u)
    (hkeys : (updates.map (·.key)).Nodup) :
    Proc.Ensures (Within H rt) (writeReceipts rt updates) store fun _ _ => True := by
  induction updates generalizing store with
  | nil => exact ensures_pure Within.refl trivial
  | cons u updates ih =>
    obtain ⟨hacc, d, r, hstored, hagree, hadv⟩ := hall u (by simp)
    rw [map_cons, nodup_cons] at hkeys
    have hdecode : decodeSettlementReceipt rt (.dict u.toDict) none none = .ok u :=
      decodeFields_eq_ok.mpr hacc
    have hwrite : writeSettlementReceipt rt u = Proc.write
        { epochId := u.epochId, roundIndex := u.roundIndex, body := u.toDict } := by
      rw [writeSettlementReceipt, hdecode, lift_ok_bind]
    obtain ⟨hwithin, -⟩ := hstored.write hacc hagree hadv
    have hhead : Proc.Ensures (Within H rt) (writeSettlementReceipt rt u) store fun _ _ => True := by
      rw [hwrite]
      exact ensures_write Within.refl hwithin trivial
    unfold writeReceipts
    refine ensures_bind (fun _ _ _ => Within.trans) hhead ?_
    intro _ _
    refine ih ?_ hkeys.2
    intro v hv
    obtain ⟨hacc', d', r', hstored', hagree', hadv'⟩ := hall v (by simp [hv])
    refine ⟨hacc', d', r', ?_, hagree', hadv'⟩
    rw [hwrite]
    refine hstored'.frame ?_
    -- the rounds are distinct
    intro heq
    refine hkeys.1 (mem_map.mpr ⟨v, hv, ?_⟩)
    rw [heq, SettlementReceipt.key, SettlementReceipt.key, hagree'.epochId, hagree'.roundIndex]

omit [PyFloat F] in
theorem Store.nodup_rounds (store : Store F) (epochId : String) :
    (store.rounds epochId).Nodup := by
  refine (mergeSort_perm _ _).nodup_iff.mpr ?_
  refine Nodup.map_on ?_ (store.nodup.filter _)
  intro a ha b hb heq
  have hea := of_decide_eq_true (mem_filter.mp ha).2
  have heb := of_decide_eq_true (mem_filter.mp hb).2
  exact Prod.ext (hea.trans heb.symm) heq

omit [PyFloat F] in
/-- No receipt is listed twice. -/
theorem nodup_storedReceiptLocations (store : Store F) :
    (storedReceiptLocations store none).Nodup := by
  refine nodup_flatMap.mpr ⟨?_, ?_⟩
  · intro epochId _
    exact (store.nodup_rounds epochId).map fun a b h => (Prod.mk.inj h).2
  · -- distinct epochs have distinct keys
    have hepochs : store.epochs.Nodup :=
      (mergeSort_perm _ _).nodup_iff.mpr (nodup_dedup _)
    refine hepochs.imp ?_
    intro a b hne key hkey hkey'
    obtain ⟨n, -, rfl⟩ := mem_map.mp hkey
    obtain ⟨m, -, heq⟩ := mem_map.mp hkey'
    exact hne (Prod.mk.inj heq).1.symm

variable (rt auth) in
theorem acknowledgeRepairedSettlementIndexes_ensures (store : Store F) :
    Proc.Ensures (Within H rt) (acknowledgeRepairedSettlementIndexes rt auth) store
      fun _ _ => True := by
  refine ensures_look Within.refl ?_
  intro updates hupdates
  obtain ⟨hall, hsub⟩ := pendingUpdates_ok hupdates
  refine ensures_bind (fun _ _ _ => Within.trans)
    (writeReceipts_ensures hall ((nodup_storedReceiptLocations store).sublist hsub)) ?_
  intro _ _
  exact ensures_pure Within.refl trivial

/-! ### Committing -/

variable (rt) in
/-- The store has moved forward without a move of a hook, and its new receipts
have a hook in a state of `P`. -/
structure Grows (P : HookState → Prop) (store store' : Store F) : Prop where
  forward : Forward (fun _ _ => False) rt store store'
  added : ∀ key file, Dict.get? store.receipts key = none →
    Dict.get? store'.receipts key = some file → ∃ r, Decodes rt key file r ∧ P r.promotionHook.state

variable {P : HookState → Prop}

theorem Grows.refl (store : Store F) : Grows rt P store store where
  forward := .refl store
  added key file hnone hsome := by
    rw [hnone] at hsome
    cases hsome

/-- Growth is transitive. -/
theorem Grows.trans {c : Store F} (hab : Grows rt P a b) (hbc : Grows rt P b c) :
    Grows rt P a c where
  forward := hab.forward.trans hbc.forward
  added key file hnone hsome := by
    cases hb : Dict.get? b.receipts key with
    | none => exact hbc.added key file hb hsome
    | some between =>
      obtain ⟨r, hr, hP⟩ := hab.added key between hnone hb
      obtain ⟨file', hfile', hmove⟩ := hbc.forward key between hb
      obtain rfl := some.inj (hfile'.symm.trans hsome)
      rcases hmove with rfl | ⟨r₁, r', hr₁, hr', hadv⟩
      · exact ⟨r, hr, hP⟩
      · obtain rfl : r₁ = r := ok.inj (hr₁.symm.trans hr)
        exact ⟨r', hr', by rw [hadv.hook_eq]; exact hP⟩

theorem Within.grows (h : Within (fun _ _ => False) rt a b) : Grows rt P a b where
  forward := h.1
  added key file hnone hsome := by
    rw [get?_eq_none_iff, ← h.2, ← get?_eq_none_iff] at hnone
    rw [hnone] at hsome
    cases hsome

/-- The first receipt of a round. -/
theorem writeSettlementReceipt_fresh (hacc : Accepted rt d none none r)
    (hP : P r.promotionHook.state)
    (hfresh : Dict.get? store.receipts (r.epochId, r.roundIndex) = none) :
    Proc.Ensures (Grows rt P) (writeSettlementReceipt rt r) store fun _ store' =>
      Stored rt store' d r := by
  have hdecode : decodeSettlementReceipt rt (.dict r.toDict) none none = .ok r := by
    rw [hacc.toDict_eq]
    exact decodeFields_eq_ok.mpr hacc
  rw [writeSettlementReceipt, hdecode, lift_ok_bind, hacc.toDict_eq]
  have hstored : Stored rt (Medium.apply store
      { epochId := r.epochId, roundIndex := r.roundIndex, body := d }) d r :=
    ⟨by simp [Medium.apply, get?_set], hacc⟩
  refine ensures_write .refl ⟨?_, ?_⟩ hstored
  · intro key file hfile
    have hne : ¬ (r.epochId, r.roundIndex) = key := by
      rintro rfl
      rw [hfresh] at hfile
      cases hfile
    exact ⟨file, by simp [Medium.apply, get?_set, hne, hfile], .inl rfl⟩
  · intro key file hnone hsome
    by_cases hkey : (r.epochId, r.roundIndex) = key
    · obtain rfl := hkey
      obtain rfl := some.inj (hstored.file.symm.trans hsome)
      exact ⟨r, hstored.decodes, hP⟩
    · simp only [Medium.apply, get?_set, hkey, if_false, hnone] at hsome
      cases hsome

variable (rt auth) in
/-- **Committing a decision** adds it or moves the same decision forward; once it
returns, the receipt of the round is that decision, committed. -/
theorem commitFieldSettlement_ensures (intent : PyValue F)
    (hP : ∀ r, decodeSettlementReceipt rt intent none none = .ok r → P r.promotionHook.state)
    (ingest : Ingest) (store : Store F) :
    Proc.Ensures (Grows rt P) (commitFieldSettlement rt auth intent ingest) store
      fun _ store' => ∃ validated d' r',
        decodeSettlementReceipt rt intent none none = .ok validated ∧ Stored rt store' d' r' ∧
          r'.key = validated.key ∧ r'.state = .committed ∧
          r'.indexProjection.state ≠ .pending := by
  refine ensures_look .refl ?_
  rintro ⟨validated, parentId⟩ hvalidate
  have hdecode := decode_of_validate hvalidate
  refine ensures_lift .refl fun _ _ => ?_
  refine ensures_look .refl ?_
  intro found hread
  cases found with
  | some recorded =>
    obtain ⟨hstored, he, hn⟩ := stored_of_read hread
    have hkey : recorded.key = validated.key := Prod.ext he hn
    refine ensures_look .refl fun _ _ => ?_
    refine ensures_lift .refl fun _ _ => ?_
    refine ensures_lift .refl fun _ _ => ?_
    split
    · rw [← he, ← hn]
      refine (hstored.replay ingest).mono (fun _ hw => hw.grows) ?_
      rintro u ⟨d', r', hstored', hagree, -, hstate, hindex⟩
      refine ⟨validated, d', r', hdecode, hstored', ?_, hstate, hindex⟩
      rw [← hkey, SettlementReceipt.key, SettlementReceipt.key, hagree.epochId, hagree.roundIndex]
    · rename_i hdone
      rw [not_or] at hdone
      refine ensures_pure .refl
        ⟨validated, _, recorded, hdecode, hstored, hkey, ?_, hdone.2⟩
      cases hr : recorded.state with
      | pending => exact absurd hr hdone.1
      | committed => rfl
  | none =>
    cases intent with
    | dict fields =>
      have hacc : Accepted rt fields none none validated := decodeFields_eq_ok.mp hdecode
      have hfresh : Dict.get? store.receipts (validated.epochId, validated.roundIndex) = none := by
        unfold readSettlementReceipt at hread
        split at hread
        · assumption
        · split at hread <;> cases hread
      refine ensures_bind (fun _ _ _ => Grows.trans)
        (writeSettlementReceipt_fresh hacc (hP validated hdecode) hfresh) ?_
      intro _ hstored
      rw [hacc.json]
      refine (hstored.replay ingest).mono (fun _ hw => hw.grows) ?_
      rintro u ⟨d', r', hstored', hagree, -, hstate, hindex⟩
      refine ⟨validated, d', r', hdecode, hstored', ?_, hstate, hindex⟩
      rw [SettlementReceipt.key, SettlementReceipt.key, hagree.epochId, hagree.roundIndex]
    | _ => cases hdecode

end Steps

end Zicato.Receipt
