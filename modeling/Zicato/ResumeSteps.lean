import Zicato.ResumeSafety

/-! # The steps of a restart

Each step of `prepare_resume` restores a sound workspace wherever it is cut.  The
steps before the discards commit every receipt, so that the nodes the lineage
shows as pending are those no receipt names. -/
open List Option Zicato.Dict Except
namespace Zicato.Resume
open Receipt (ReceiptState HookState IndexState)

/-! ## Pending nodes -/

/-- No receipt awaits its commit. -/
def AllCommitted (w : World) : Prop := ∀ r s, w.receiptAt r = some s → s.state = .committed

theorem AllCommitted.kept {w w' : World} (h : AllCommitted w) (hkept : Kept w w') :
    AllCommitted w' := by
  intro r s' hs'
  cases hs : w.receiptAt r with
  | none =>
    rw [hkept.noReceipt r hs] at hs'
    cases hs'
  | some s =>
    obtain ⟨t, ht, hadv⟩ := hkept.receipts r s hs
    obtain rfl := some.inj (ht.symm.trans hs')
    exact hadv.committed (h r s hs)

section Lineage
variable {w : World}

theorem mem_committedCandidates {r : Nat} {c : Candidate} :
    (r, c) ∈ w.committedCandidates ↔
      ∃ s, w.receiptAt r = some s ∧ s.state = .committed ∧ c ∈ s.candidates := by
  simp only [World.committedCandidates, mem_flatMap, mem_filter, List.mem_map,
    decide_eq_true_eq, Prod.mk.injEq]
  constructor
  · rintro ⟨⟨r', s⟩, ⟨hmem, hstate⟩, c', hc', rfl, rfl⟩
    exact ⟨s, World.mem_receipts.mp hmem, hstate, hc'⟩
  · rintro ⟨s, hs, hstate, hc⟩
    exact ⟨(r, s), ⟨World.mem_receipts.mpr hs, hstate⟩, c, hc, rfl, rfl⟩

theorem verdict_eq_none_iff (hw : AllCommitted w) (id : GenId) :
    w.verdict id = none ↔ ¬ Named w id := by
  rw [World.verdict, map_eq_none_iff, find?_eq_none]
  constructor
  · rintro h ⟨r, s, hs, c, hc, hid⟩
    have hmem : (r, c) ∈ w.committedCandidates :=
      mem_committedCandidates.mpr ⟨s, hs, hw r s hs, hc⟩
    exact h (r, c) (mem_reverse.mpr hmem) (by simpa using hid)
  · rintro h ⟨r, c⟩ hmem hid
    obtain ⟨s, hs, -, hc⟩ := mem_committedCandidates.mp (mem_reverse.mp hmem)
    exact h ⟨r, s, hs, c, hc, by simpa using hid⟩

theorem loadLineage_ok {rows : List Row} (h : w.loadLineage = .ok rows) :
    rows = w.lineage.rows.map w.overlay := by
  obtain ⟨_, -, h⟩ := bind_eq_ok h
  exact (ok.inj h).symm

/-- A node that is still pending after the overlay is on disk as it is read. -/
theorem overlay_pending (hw : AllCommitted w) {row : Row} :
    (w.overlay row).promoted = none ↔ row.promoted = none ∧ ¬ Named w row.id := by
  rw [← verdict_eq_none_iff hw]
  unfold World.overlay
  cases h : w.verdict row.id with
  | none => simp
  | some promoted => simp

theorem overlay_of_pending (hw : AllCommitted w) {row : Row} (hn : ¬ Named w row.id) :
    w.overlay row = row := by
  unfold World.overlay
  rw [(verdict_eq_none_iff hw row.id).mpr hn]

end Lineage

/-! ## Groups -/

section Groups

theorem getD_addToGroup (groups : Dict FieldKey (List GenId)) (row : Row) (key : FieldKey) :
    Dict.getD (addToGroup groups row) key [] =
      Dict.getD groups key [] ++ if row.fieldKey = some key then [row.id] else [] := by
  unfold addToGroup
  cases hkey : row.fieldKey with
  | none => simp
  | some k =>
    rw [getD_set]
    by_cases hk : k = key
    · simp [hk]
    · simp [hk]

theorem getD_foldl_addToGroup (rows : List Row) (groups : Dict FieldKey (List GenId))
    (key : FieldKey) :
    Dict.getD (rows.foldl addToGroup groups) key [] =
      Dict.getD groups key [] ++ (rows.filter fun row => row.fieldKey = some key).map Row.id := by
  induction rows generalizing groups with
  | nil => simp
  | cons row rows ih =>
    rw [foldl_cons, ih, getD_addToGroup, List.append_assoc]
    by_cases hkey : row.fieldKey = some key <;> simp [hkey]

theorem nodup_foldl_addToGroup (rows : List Row) {groups : Dict FieldKey (List GenId)}
    (h : groups.keys.Nodup) : (rows.foldl addToGroup groups).keys.Nodup := by
  induction rows generalizing groups with
  | nil => exact h
  | cons row rows ih =>
    refine ih ?_
    unfold addToGroup
    split
    · exact nodup_keys_set h _ _
    · exact h

variable {key : FieldKey}

theorem groupRows_mem {rows : List Row} {ids : List GenId} {id : GenId}
    (h : (key, ids) ∈ groupRows rows) :
    id ∈ ids ↔ ∃ row ∈ rows, row.promoted = none ∧ row.fieldKey = some key ∧ row.id = id := by
  have hnodup : (groupRows rows).keys.Nodup := nodup_foldl_addToGroup _ nodup_nil
  have hget : Dict.getD (groupRows rows) key [] = ids := by
    rw [Dict.getD, (get?_eq_some_iff hnodup key ids).mpr h, getD_some]
  rw [← hget, groupRows, getD_foldl_addToGroup]
  simp only [Dict.getD, get?_nil, getD_none, nil_append, List.mem_map,
    mem_filter, decide_eq_true_eq, and_assoc]

/-- A pending row is in a group. -/
theorem groupRows_exists {rows : List Row} {row : Row} (hrow : row ∈ rows)
    (hpending : row.promoted = none) (hkey : row.fieldKey = some key) :
    ∃ ids, (key, ids) ∈ groupRows rows := by
  have hnodup : (groupRows rows).keys.Nodup := nodup_foldl_addToGroup _ nodup_nil
  have hmem : row.id ∈ Dict.getD (groupRows rows) key [] := by
    rw [groupRows, getD_foldl_addToGroup]
    simp only [Dict.getD, get?_nil, getD_none, nil_append, List.mem_map,
      mem_filter, decide_eq_true_eq]
    exact ⟨row, ⟨⟨hrow, hpending⟩, hkey⟩, rfl⟩
  cases hget : Dict.get? (groupRows rows) key with
  | none => simp [Dict.getD, hget] at hmem
  | some ids => exact ⟨ids, (get?_eq_some_iff hnodup key ids).mp hget⟩

variable {w : World} {groups : Dict FieldKey (List GenId)}

/-- The ids of a pending group are those of the pending nodes of its field. -/
theorem pendingGroups_mem (hw : AllCommitted w) (h : w.pendingGroups = .ok groups)
    {ids : List GenId} (hmem : (key, ids) ∈ groups) {id : GenId} :
    id ∈ ids ↔ ∃ row ∈ w.lineage.rows,
      row.promoted = none ∧ ¬ Named w row.id ∧ row.fieldKey = some key ∧ row.id = id := by
  obtain ⟨rows, hrows, h⟩ := bind_eq_ok h
  obtain ⟨-, h⟩ := require_bind h
  obtain ⟨-, h⟩ := require_bind h
  obtain rfl := ok.inj h
  obtain ⟨group, hgroup, heq⟩ := mem_map.mp hmem
  cases heq
  rw [mem_insertionSort, groupRows_mem hgroup, loadLineage_ok hrows]
  constructor
  · rintro ⟨row', hrow', hpending, hkey, rfl⟩
    obtain ⟨row, hrow, rfl⟩ := mem_map.mp hrow'
    obtain ⟨hnone, hnamed⟩ := (overlay_pending hw).mp hpending
    rw [overlay_of_pending hw hnamed] at hkey ⊢
    exact ⟨row, hrow, hnone, hnamed, hkey, rfl⟩
  · rintro ⟨row, hrow, hnone, hnamed, hkey, rfl⟩
    have heq := overlay_of_pending hw hnamed
    exact ⟨row, mem_map.mpr ⟨row, hrow, heq⟩, hnone, hkey, rfl⟩

/-- Every pending node that no receipt names is in the group of its field. -/
theorem pendingGroups_exists (hw : AllCommitted w) (h : w.pendingGroups = .ok groups)
    {row : Row} (hrow : row ∈ w.lineage.rows) (hnone : row.promoted = none)
    (hnamed : ¬ Named w row.id) :
    ∃ key ids, row.fieldKey = some key ∧ (key, ids) ∈ groups ∧ row.id ∈ ids := by
  obtain ⟨rows, hrows, h⟩ := bind_eq_ok h
  obtain ⟨hkeys, h⟩ := require_bind h
  obtain ⟨-, h⟩ := require_bind h
  obtain rfl := ok.inj h
  have hmem : row ∈ rows := by
    rw [loadLineage_ok hrows]
    exact mem_map.mpr ⟨row, hrow, overlay_of_pending hw hnamed⟩
  have hkey := all_eq_true.mp hkeys row hmem
  rw [hnone] at hkey
  obtain ⟨key, hkey⟩ := isSome_iff_exists.mp (by simpa using hkey)
  obtain ⟨ids, hids⟩ := groupRows_exists hmem hnone hkey
  refine ⟨key, _, hkey, mem_map.mpr ⟨(key, ids), hids, rfl⟩, ?_⟩
  rw [mem_insertionSort, groupRows_mem hids]
  exact ⟨row, hmem, hnone, hkey, rfl⟩

end Groups

/-! ## Receipts -/

section Receipts
variable {w : World} {r : Nat}
open Proc

variable {s : Settlement}

/-- Publishing the outcomes commits the receipt. -/
theorem publishOutcomes_ensures (hs : w.receiptAt r = some s) :
    Ensures Restores (publishOutcomes r s) w fun s' w' =>
      w'.receiptAt r = some s' ∧ s'.state = .committed := by
  unfold publishOutcomes
  split
  · rename_i hstate
    exact ensures_pure .refl ⟨hs, hstate⟩
  · rename_i hstate
    have hwrite : Restores w (w.apply (.putReceipt r { s with state := .committed })) :=
      restores_putReceipt hs ⟨rfl, rfl, fun _ => rfl, fun h => absurd h.1 hstate⟩
    refine ensures_bind Restores.trans (Q := fun _ w' =>
      w'.receiptAt r = some { s with state := .committed })
      (ensures_write .refl hwrite ?_) fun _ hs' => ensures_pure .refl ⟨hs', rfl⟩
    exact (receiptAt_putReceipt _ r).trans (if_pos rfl)

/-- A refresh leaves a committed receipt committed. -/
theorem refreshIndex_ensures (host : Host) (hs : w.receiptAt r = some s)
    (hstate : s.state = .committed) :
    Ensures Restores (refreshIndex host r s) w fun _ w' =>
      ∀ s', w'.receiptAt r = some s' → s'.state = .committed := by
  unfold refreshIndex
  split
  · rename_i hindex
    refine ensures_write .refl
      (restores_putReceipt hs ⟨rfl, rfl, id, fun h => absurd hindex h.2.1⟩) fun s' hs' => ?_
    replace hs' := (receiptAt_putReceipt _ r).symm.trans hs'
    rw [if_pos rfl] at hs'
    obtain rfl := some.inj hs'
    exact hstate
  · refine ensures_pure .refl fun s' hs' => ?_
    obtain rfl := some.inj (hs.symm.trans hs')
    exact hstate

theorem replayFieldSettlement_ensures (host : Host) (hs : w.receiptAt r = some s) :
    Ensures Restores (replayFieldSettlement host r s) w fun _ w' =>
      ∀ s', w'.receiptAt r = some s' → s'.state = .committed :=
  ensures_look .refl fun _ _ =>
    ensures_bind Restores.trans (publishOutcomes_ensures hs) fun _ hs' =>
      refreshIndex_ensures host hs'.1 hs'.2

/-- A replay commits the receipt. -/
theorem recoverReplay_ensures (host : Host) (hs : w.receiptAt r = some s) :
    Ensures Restores (recoverReplay host r s) w fun s' w' =>
      w'.receiptAt r = some s' ∧ s'.state = .committed := by
  unfold recoverReplay
  split
  · refine ensures_bind Restores.trans (replayFieldSettlement_ensures host hs) fun _ hs' => ?_
    refine ensures_look .refl fun found hfound => ?_
    cases found with
    | none => exact ensures_error .refl
    | some s' =>
      have hget := ok.inj hfound
      exact ensures_pure .refl ⟨hget, hs' s' hget⟩
  · rename_i hdone
    refine ensures_pure .refl ⟨hs, ?_⟩
    cases hstate : s.state with
    | committed => rfl
    | pending => exact absurd (.inl hstate) hdone

/-- The hook leaves a committed receipt committed. -/
theorem recoverHook_ensures (hs : w.receiptAt r = some s) (hstate : s.state = .committed) :
    Ensures Restores (recoverHook r s) w fun _ w' =>
      ∀ s', w'.receiptAt r = some s' → s'.state = .committed := by
  unfold recoverHook
  split
  · rename_i hhook
    refine ensures_write .refl
      (restores_putReceipt hs ⟨rfl, rfl, id, fun h => absurd hhook h.2.2⟩) fun s' hs' => ?_
    replace hs' := (receiptAt_putReceipt _ r).symm.trans hs'
    rw [if_pos rfl] at hs'
    obtain rfl := some.inj hs'
    exact hstate
  · refine ensures_pure .refl fun s' hs' => ?_
    obtain rfl := some.inj (hs.symm.trans hs')
    exact hstate

/-- A recovered round is committed. -/
theorem recoverRound_ensures (host : Host) (w : World) (r : Nat) :
    Ensures Restores (recoverRound host r) w fun _ w' =>
      ∀ s, w'.receiptAt r = some s → s.state = .committed := by
  refine ensures_look .refl fun found hfound => ?_
  have hget := ok.inj hfound
  cases found with
  | none =>
    refine ensures_pure .refl fun s hs => ?_
    rw [hget] at hs
    cases hs
  | some stored =>
    refine ensures_look .refl fun _ _ => ?_
    exact ensures_bind Restores.trans (recoverReplay_ensures host hget) fun _ hs =>
      recoverHook_ensures hs.1 hs.2

/-- After recovery every receipt is committed. -/
theorem recoverFieldSettlements_ensures (host : Host) (hw : Sound w) :
    Ensures Restores (recoverFieldSettlements host) w fun _ w' => AllCommitted w' := by
  refine ensures_look .refl fun rounds hrounds => ?_
  obtain rfl := ok.inj hrounds
  -- what has been recovered stays committed through the turns that follow
  have hloop := ensures_each (f := recoverRound host) .refl Restores.trans
    (I := fun done d => Kept w d ∧ Sound d ∧
      ∀ q ∈ done, ∀ s, d.receiptAt q = some s → s.state = .committed)
    ⟨.refl w, hw, fun q hq => by cases hq⟩ fun before q (_ : q ∈ w.receipts.map Prod.fst) d hI => ?_
  · refine hloop.mono (fun _ h => h) fun _ hI q s hs => ?_
    obtain ⟨hkept, -, hdone⟩ := hI
    cases hq : w.receiptAt q with
    | none =>
      rw [hkept.noReceipt q hq] at hs
      cases hs
    | some s' =>
      exact hdone q (mem_map.mpr ⟨(q, s'), World.mem_receipts.mpr hq, rfl⟩) s hs
  · obtain ⟨hkept, hd, hdone⟩ := hI
    refine (recoverRound_ensures host d q).and_keeps.mono (fun _ h => h) fun _ h => ?_
    obtain ⟨hkept', hd'⟩ := h.1 hd
    refine ⟨hkept.trans hkept', hd', fun q' hq' s hs => ?_⟩
    rcases mem_append.mp hq' with hq' | hq'
    · cases hs' : d.receiptAt q' with
      | none =>
        rw [hkept'.noReceipt q' hs'] at hs
        cases hs
      | some s' =>
        obtain ⟨t, ht, hadv⟩ := hkept'.receipts q' s' hs'
        obtain rfl := some.inj (ht.symm.trans hs)
        exact hadv.committed (hdone q' hq' s' hs')
    · obtain rfl := mem_singleton.mp hq'
      exact h.2 s hs

end Receipts

/-! ## Removals -/

section Removals
variable {w : World} {r : Nat} {id : GenId} {ids : List GenId}
open Proc

theorem Kept.hasRecord_false {w' : World} (h : Kept w w') (hid : w.hasRecord id = false) :
    w'.hasRecord id = false := by
  cases hsome : w'.hasRecord id with
  | false => rfl
  | true =>
    rw [World.hasRecord, h.records.isSome hsome] at hid
    cases hid

/-- What a removal of the generations `ids` has done to a workspace. -/
structure Removed (ids : List GenId) (w w' : World) : Prop where
  kept : Kept w w'
  sound : Sound w'
  gone : ∀ id ∈ ids, w'.hasRecord id = false
  others : ∀ id ∉ ids, Dict.get? w'.records id = Dict.get? w.records id
  lineage : w'.lineage = w.lineage

namespace Removed
variable {w' w'' : World} {ids' : List GenId}

theorem free (h : Removed ids w w') (hid : Free w id) : Free w' id := h.kept.free h.lineage hid

theorem refl (hw : Sound w) : Removed [] w w :=
  ⟨.refl w, hw, fun _ h => absurd h not_mem_nil, fun _ _ => rfl, rfl⟩

/-- Removals one after another. -/
theorem trans (h : Removed ids w w') (h' : Removed ids' w' w'') :
    Removed (ids ++ ids') w w'' where
  kept := h.kept.trans h'.kept
  sound := h'.sound
  gone id hid := by
    rcases mem_append.mp hid with hid | hid
    · exact h'.kept.hasRecord_false (h.gone id hid)
    · exact h'.gone id hid
  others id hid := by
    rw [mem_append, not_or] at hid
    rw [h'.others id hid.2, h.others id hid.1]
  lineage := h'.lineage.trans h.lineage

/-- A write of a restart that leaves records and nodes alone. -/
theorem of_restores (hw : Sound w) (h : Restores w w') (hrecords : w'.records = w.records)
    (hlineage : w'.lineage = w.lineage) : Removed [] w w' :=
  ⟨(h hw).1, (h hw).2, fun _ h => absurd h not_mem_nil, fun _ _ => by rw [hrecords], hlineage⟩

end Removed

/-- A loop of removals. -/
theorem each_removes {f : GenId → Step Unit} (g : GenId → List GenId) (hw : Sound w)
    (hids : ∀ id ∈ ids, Free w id)
    (hstep : ∀ id ∈ ids, ∀ d, Sound d → Free d id →
      Ensures Restores (f id) d fun _ d' => Removed (g id) d d') :
    Ensures Restores (each f ids) w fun _ w' => Removed (ids.flatMap g) w w' := by
  refine ensures_each .refl Restores.trans (I := fun done d => Removed (done.flatMap g) w d)
    (.refl hw) fun before id hid d hI => ?_
  refine (hstep id hid d hI.sound (hI.free (hids id hid))).mono (fun _ h => h) fun _ h => ?_
  rw [flatMap_append, flatMap_singleton]
  exact hI.trans h

section
variable (host : Host) (hw : Sound w)
include host hw

/-- Pruning source removes what is free. -/
theorem pruneSource_ensures (hid : Free w id) :
    Ensures Restores (pruneSource host id) w fun _ w' => Removed [] w w' := by
  refine ensures_look .refl fun found hfound => ?_
  cases found with
  | false => exact ensures_pure .refl (.refl hw)
  | true =>
    have hsome : w.hasGeneration id = true := ok.inj hfound
    have hloop := ensures_each (f := fun tree => write (.putSource id tree)) (ε := String)
      .refl Restores.trans
      (I := fun _ d => Removed [] w d ∧ d.hasGeneration id = true) ⟨.refl hw, hsome⟩
      fun _ tree (_ : tree ∈ host.trees id) d hI => ?_
    · refine ensures_bind Restores.trans hloop fun _ hI => ?_
      have hdrop := restores_dropSource (hI.1.free hid)
      exact ensures_write .refl hdrop
        (hI.1.trans (.of_restores hI.1.sound hdrop rfl rfl))
    · have hput := restores_putSource tree (hI.1.free hid) hI.2
      refine ensures_write .refl hput
        ⟨hI.1.trans (.of_restores hI.1.sound hput rfl rfl), ?_⟩
      change (Dict.get? (Dict.set d.source id tree) id).isSome = true
      rw [get?_set, if_pos rfl]
      rfl

/-- Deleting a record removes what is free. -/
theorem rmtreeRecord_ensures (hid : Free w id) (hsome : w.hasRecord id = true) :
    Ensures Restores (rmtreeRecord host id) w fun _ w' => Removed [id] w w' := by
  have hloop := ensures_each (f := fun part => write (.dropPart id part)) (ε := String)
    .refl Restores.trans
    (I := fun _ d => Kept w d ∧ Sound d ∧ d.hasRecord id = true ∧ d.lineage = w.lineage ∧
      ∀ id' ≠ id, Dict.get? d.records id' = Dict.get? w.records id')
    ⟨.refl w, hw, hsome, rfl, fun _ _ => rfl⟩
    fun _ part (_ : part ∈ host.parts id) d hI => ?_
  · refine ensures_bind Restores.trans hloop fun _ hI => ?_
    obtain ⟨hkept, hd, -, hlineage, hothers⟩ := hI
    have hdrop := restores_dropRecord (hkept.free hlineage hid)
    refine ensures_write .refl hdrop ⟨hkept.trans (hdrop hd).1, (hdrop hd).2, ?_, ?_, ?_⟩
    · intro id' hid'
      obtain rfl := mem_singleton.mp hid'
      change (Dict.get? (Dict.erase _ id') id').isSome = false
      rw [get?_erase, if_pos rfl]
      rfl
    · intro id' hid'
      have hne : id' ≠ id := fun heq => hid' (mem_singleton.mpr heq)
      refine Eq.trans ?_ (hothers id' hne)
      change Dict.get? (Dict.erase _ id) id' = _
      rw [get?_erase, if_neg hne.symm]
    · exact hlineage
  · obtain ⟨hkept, hd, hsome', hlineage, hothers⟩ := hI
    have hdrop := restores_dropPart part (hkept.free hlineage hid) hsome'
    refine ensures_write .refl hdrop
      ⟨hkept.trans (hdrop hd).1, (hdrop hd).2, ?_, hlineage, fun id' hne => ?_⟩
    · change (Dict.get? (Dict.set d.records id _) id).isSome = true
      rw [get?_set, if_pos rfl]
      rfl
    · refine Eq.trans ?_ (hothers id' hne)
      change Dict.get? (Dict.set d.records id _) id' = _
      rw [get?_set, if_neg hne.symm]

/-- So does its guarded deletion. -/
theorem removeRecord_ensures (hid : Free w id) :
    Ensures Restores (removeRecord host id) w fun _ w' => Removed [id] w w' := by
  refine ensures_look .refl fun found _ => ?_
  cases found with
  | true => exact ensures_error .refl
  | false =>
    refine ensures_look .refl fun recorded hrecorded => ?_
    cases recorded with
    | true => exact rmtreeRecord_ensures host hw hid (ok.inj hrecorded)
    | false =>
      refine ensures_pure .refl ⟨.refl w, hw, fun id' hid' => ?_, fun _ _ => rfl, rfl⟩
      obtain rfl := mem_singleton.mp hid'
      exact ok.inj hrecorded

theorem pruneGenerationRecords_ensures (hids : ∀ id ∈ ids, Free w id) :
    Ensures Restores (pruneGenerationRecords host ids) w fun _ w' => Removed ids w w' := by
  refine ensures_bind Restores.trans
    (each_removes (fun _ => []) hw hids fun id _ d hd => pruneSource_ensures host hd)
    fun _ h => ?_
  refine (each_removes (fun id => [id]) h.sound (fun id hid => h.free (hids id hid)) fun id _ d hd =>
    removeRecord_ensures host hd).mono (fun _ h => h) fun _ h' => ?_
  have hnil : (ids.flatMap fun _ => ([] : List GenId)) = [] := by simp
  have hself : (ids.flatMap fun id => [id]) = ids := by simp
  have hboth := h.trans h'
  rwa [hnil, hself, nil_append] at hboth

/-- Deleting a round without a receipt. -/
theorem rmtreeRound_ensures (hr : w.receiptAt r = none)
    (hsome : (Dict.get? w.rounds r).isSome = true) :
    Ensures Restores (rmtreeRound host r) w fun _ w' => Removed [] w w' := by
  have hloop := ensures_each (f := write) (ε := String) (I := fun _ d => Removed [] w d ∧
      d.receiptAt r = none ∧ (Dict.get? d.rounds r).isSome = true)
    .refl Restores.trans ⟨.refl hw, hr, hsome⟩
    fun _ file (hfile : file ∈ if host.receiptFirst r then [.dropReceipt r, .dropLog r]
      else [.dropLog r, .dropReceipt r]) d hI => ?_
  · refine ensures_bind Restores.trans hloop fun _ hI => ?_
    have hdrop := restores_dropRound hI.2.1
    exact ensures_write .refl hdrop (hI.1.trans (.of_restores hI.1.sound hdrop rfl rfl))
  · obtain ⟨hd, hdr, hdsome⟩ := hI
    have hput : ∀ round : Round, round.receipt = none →
        Restores d (d.setRound r round) ∧ Removed [] w (d.setRound r round) ∧
          (d.setRound r round).receiptAt r = none ∧
          (Dict.get? (d.setRound r round).rounds r).isSome = true := by
      intro round hround
      have hrestores := restores_setRound hdr hround hdsome
      refine ⟨hrestores, hd.trans (.of_restores hd.sound hrestores rfl rfl), ?_, ?_⟩
      · rw [World.receiptAt, World.round_setRound, if_pos rfl, hround]
      · change (Dict.get? (Dict.set d.rounds r round) r).isSome = true
        rw [get?_set, if_pos rfl]
        rfl
    have hfiles : file = .dropReceipt r ∨ file = .dropLog r := by
      split at hfile <;> simp only [mem_cons, not_mem_nil, or_false] at hfile
      · exact hfile
      · exact hfile.symm
    rcases hfiles with rfl | rfl
    · exact ensures_write .refl (hput { d.round r with receipt := none } rfl).1
        (hput { d.round r with receipt := none } rfl).2
    · exact ensures_write .refl (hput { d.round r with log := [] } hdr).1
        (hput { d.round r with log := [] } hdr).2

theorem removeRound_ensures (hr : w.receiptAt r = none) :
    Ensures Restores (removeRound host r) w fun _ w' => Removed [] w w' := by
  refine ensures_look .refl fun found hfound => ?_
  cases found with
  | true => exact rmtreeRound_ensures host hw hr (ok.inj hfound)
  | false => exact ensures_pure .refl (.refl hw)

/-- Discarding a free field. -/
theorem discardField_ensures {field : Option Nat × List GenId} (hids : ∀ id ∈ field.2, Free w id)
    (hround : ∀ r, field.1 = some r → w.receiptAt r = none) :
    Ensures Restores (discardField host field) w fun _ w' => Removed field.2 w w' := by
  obtain ⟨roundIndex, ids⟩ := field
  refine ensures_bind Restores.trans (pruneGenerationRecords_ensures host hw hids) fun _ h => ?_
  cases roundIndex with
  | none => exact ensures_pure .refl h
  | some r =>
    have hhead : ∀ id ∈ ids.head?.toList, id ∈ ids := fun id hid =>
      mem_of_mem_head? (mem_toList.mp hid)
    refine ensures_bind Restores.trans (each_removes (fun _ => []) h.sound
      (fun id hid => h.free (hids id (hhead id hid))) fun id _ d hd hn =>
        ensures_write .refl (restores_dropTournament hn)
          (.of_restores hd (restores_dropTournament hn) rfl rfl)) fun _ h' => ?_
    have hnil : (ids.head?.toList.flatMap fun _ => ([] : List GenId)) = [] := by simp
    rw [hnil] at h'
    have hr := h'.kept.noReceipt r (h.kept.noReceipt r (hround r rfl))
    refine (removeRound_ensures host h'.sound hr).mono (fun _ h => h) fun _ h'' => ?_
    have hall := (h.trans h').trans h''
    rwa [append_nil, append_nil] at hall

end

/-- What a discard of the generations `ids` with their nodes has done to a workspace. -/
structure Discarded (ids lineaged : List GenId) (w w' : World) : Prop where
  kept : Kept w w'
  sound : Sound w'
  others : ∀ id ∉ ids, Dict.get? w'.records id = Dict.get? w.records id
  nodes : ∀ row ∈ w'.lineage.rows, row.id ∉ lineaged

/-- Discarding free rows of the lineage. -/
theorem discardPendingGenerations_ensures (hw : Sound w) (hids : ∀ id ∈ ids, Free w id)
    (hgone : ∀ id ∈ ids, w.hasRecord id = false) :
    Ensures Restores (discardPendingGenerations ids) w fun _ w' => Discarded [] ids w w' := by
  refine ensures_look .refl fun lineage hlineage => ?_
  obtain rfl := ok.inj hlineage
  refine ensures_lift .refl fun _ _ => ?_
  split
  · rename_i hnone
    refine ensures_pure .refl ⟨.refl w, hw, fun _ _ => rfl, fun row hrow hid => ?_⟩
    have hmem : row ∈ w.lineage.rows.filter fun row => row.id ∈ ids :=
      mem_filter.mpr ⟨hrow, by simpa using hid⟩
    rw [hnone] at hmem
    cases hmem
  · have hput := restores_putLineage hids hgone
    refine ensures_bind Restores.trans (Q := fun _ w' => Discarded [] ids w w')
      (ensures_write .refl hput ⟨(hput hw).1, (hput hw).2, fun _ _ => rfl, ?_⟩)
      fun _ h => ensures_pure .refl h
    intro row hrow hid
    have hnot := (mem_filter.mp hrow).2
    rw [decide_eq_true_eq] at hnot
    exact hnot hid

/-- Discarding free candidates. -/
theorem discardCandidates_ensures (host : Host) {fields : List (Option Nat × List GenId)}
    {lineaged : List GenId} (hw : Sound w)
    (hfields : ∀ field ∈ fields, (∀ id ∈ field.2, Free w id) ∧
      ∀ r, field.1 = some r → w.receiptAt r = none)
    (hlineaged : ∀ id ∈ lineaged, id ∈ fields.flatMap Prod.snd) :
    Ensures Restores (discardCandidates host fields lineaged) w fun _ w' =>
      Discarded (fields.flatMap Prod.snd) lineaged w w' := by
  refine ensures_bind Restores.trans (Q := fun _ w' => Removed (fields.flatMap Prod.snd) w w')
    ?_ fun _ h => ?_
  · refine ensures_each .refl Restores.trans
      (I := fun done d => Removed (done.flatMap Prod.snd) w d) (.refl hw)
      fun before field hfield d hI => ?_
    obtain ⟨hids, hround⟩ := hfields field hfield
    refine (discardField_ensures host hI.sound
      (fun id hid => hI.free (hids id hid)) fun r hr => hI.kept.noReceipt r (hround r hr)).mono (fun _ h => h) fun _ h => ?_
    rw [flatMap_append, flatMap_singleton]
    exact hI.trans h
  · have hfree : ∀ id ∈ lineaged, Free w id := by
      intro id hid
      obtain ⟨field, hfield, hmem⟩ := mem_flatMap.mp (hlineaged id hid)
      exact (hfields field hfield).1 id hmem
    refine ensures_bind Restores.trans (discardPendingGenerations_ensures h.sound
      (fun id hid => h.free (hfree id hid)) fun id hid => h.gone id (hlineaged id hid)) fun _ h' => ?_
    refine ensures_of_no_writes .refl rfl fun _ _ => ?_
    exact ⟨h.kept.trans h'.kept, h'.sound,
      fun id hid => (h'.others id not_mem_nil).trans (h.others id hid), h'.nodes⟩

end Removals

end Zicato.Resume
