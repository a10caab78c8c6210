import Zicato.ResumeSteps

/-! # What `prepare_resume` keeps

The discards of a restart reach only generations that no receipt names, and the
round they remove has no receipt.  A restart that returns leaves no pending node
above the candidates of all receipts without its record, and resumes only the
latest generation. -/
open List Option Except
namespace Zicato.Resume
open Proc

variable {w : World}

/-- A pending node above the candidates of all receipts has its record; those of the
generations `lost` need not. -/
def Homed (lost : List Nat) (w : World) : Prop :=
  ∀ row ∈ w.lineage.rows, ∀ n, row.id = .v n → n ∉ lost → row.promoted = none → Above w n →
    w.hasRecord (.v n) = true

/-- The latest generation is the highest recorded one. -/
theorem World.latest_eq_some {n : Nat} (h : w.latest = some n) :
    w.hasRecord (.v n) = true ∧ ∀ m, w.hasRecord (.v m) = true → m ≤ n := by
  obtain ⟨hmem, hmax⟩ := max?_eq_some_iff.mp h
  constructor
  · obtain ⟨id, hid, hnumber⟩ := mem_filterMap.mp hmem
    cases id with
    | v m =>
      cases hnumber
      exact (Dict.mem_keys_iff _ _).mp hid
    | placebo m => cases hnumber
    | other s => cases hnumber
  · intro m hm
    exact hmax m (mem_filterMap.mpr ⟨.v m, (Dict.mem_keys_iff _ _).mpr hm, rfl⟩)

/-- The latest generation lies above the candidates of all receipts, if none names it. -/
theorem above_of_latest {x : Option Nat} {lost : List Nat} (hw : SoundBut x lost w) {n : Nat} (h : w.latest = some n)
    (hn : ¬ Named w (.v n)) : Above w n := by
  intro m hm
  have hle := (World.latest_eq_some h).2 m (hw.named_hasRecord hm)
  have hne : m ≠ n := by
    rintro rfl
    exact hn hm
  omega

/-! ## What is free to go -/

/-- The lineage has one node for a generation. -/
theorem Lineage.unique {lineage : Lineage} {row row' : Row} (h : row ∈ lineage.rows)
    (h' : row' ∈ lineage.rows) (hid : row'.id = row.id) : row' = row :=
  inj_on_of_nodup_map lineage.nodup h' h hid

theorem free_of_pending {row : Row} (h : row ∈ w.lineage.rows) (hpending : row.promoted = none)
    (hnamed : ¬ Named w row.id) (hround : ∀ r, row.roundIndex = some r → w.receiptAt r = none) :
    Free w row.id where
  unnamed := hnamed
  node row' hrow' hid := by
    rw [Lineage.unique h hrow' hid]
    exact ⟨hpending, hround⟩
  experiment hnode := absurd rfl (hnode row h)

/-- A generation no receipt names reads as it was written. -/
theorem readExperiment_unnamed {id : GenId} {e : Experiment} (hn : ¬ Named w id)
    (he : (w.record id).experiment = .written e) (hid : e.generationId = id) :
    w.readExperiment id = .ok e := by
  unfold World.readExperiment
  rw [he]
  simp only [hid, beq_self_eq_true, require, if_true, ok_bind]
  cases hreceipt : w.receiptAt e.roundIndex with
  | none => rfl
  | some s =>
    dsimp only
    split
    · have hfind : s.candidates.find? (fun c => c.generationId = id) = none :=
        find?_eq_none.mpr fun c hc heq =>
          hn ⟨_, s, hreceipt, c, hc, by simpa using heq⟩
      rw [hfind]
      rfl
    · rfl

/-! ## Unrecorded source -/

theorem overlay_id (row : Row) : (w.overlay row).id = row.id := by
  unfold World.overlay
  split <;> rfl

/-- Discarding source without a record keeps what is committed. -/
theorem discardUnrecordedSource_ensures (host : Host) (hw : Sound w) :
    Ensures Restores (discardUnrecordedSource host) w fun _ w' => Kept w w' ∧ Sound w' := by
  refine ensures_look .refl fun rows hrows => ?_
  refine ensures_look .refl fun unrecorded hunrecorded => ?_
  obtain rfl := ok.inj hunrecorded
  split
  · exact ensures_pure .refl ⟨.refl w, hw⟩
  · refine ensures_bind Restores.trans
      (pruneGenerationRecords_ensures host hw fun id hid => ?_)
      fun _ h => ensures_pure .refl ⟨h.kept, h.sound⟩
    have hnot := (mem_filter.mp hid).2
    simp only [decide_eq_true_eq] at hnot
    obtain ⟨-, hrecord, hnode⟩ := hnot
    have hnone : ∀ row ∈ w.lineage.rows, row.id ≠ id := by
      intro row hrow heq
      refine hnode (mem_map.mpr ⟨w.overlay row, ?_, (overlay_id row).trans heq⟩)
      rw [loadLineage_ok hrows]
      exact mem_map_of_mem hrow
    have hno : w.hasRecord id ≠ true := fun h => hrecord ((Dict.mem_keys_iff _ _).mpr h)
    exact ⟨fun hn => hno (hw.named_hasRecord hn), fun row hrow heq => absurd heq (hnone row hrow),
      fun _ e he => absurd (World.hasRecord_of_written he) hno⟩

theorem fieldKey_round {row : Row} {key : FieldKey} (h : row.fieldKey = some key) :
    row.roundIndex = some key.1 := by
  unfold Row.fieldKey at h
  split at h
  · rename_i hr _
    rw [hr, ← some.inj h]
  · cases h

/-! ## Unrecorded fields -/

section Fields
variable {cfg : Config} {fields : List (Nat × List GenId)}

/-- The fields to discard are the pending groups that are not spared. -/
theorem mem_unrecordedFields (h : w.unrecordedFieldsWithoutReceipts cfg = .ok fields) :
    ∃ groups, w.pendingGroups = .ok groups ∧ ∀ field, field ∈ fields ↔
      ∃ group ∈ groups, w.spares cfg group = false ∧ (group.1.1, group.2) = field := by
  obtain ⟨groups, hgroups, h⟩ := bind_eq_ok h
  obtain rfl := ok.inj h
  refine ⟨groups, hgroups, fun field => ?_⟩
  rw [mem_insertionSort, List.mem_map]
  simp only [mem_filter, Bool.not_eq_eq_eq_not, Bool.not_true, and_assoc]

theorem receiptAt_of_not_spares {group : FieldKey × List GenId}
    (h : w.spares cfg group = false) : w.receiptAt group.1.1 = none := by
  unfold World.spares at h
  rw [Bool.or_eq_false_iff] at h
  exact not_isSome_iff_eq_none.mp (by rw [h.2]; exact Bool.false_ne_true)

/-- A pending node that stays is that of a spared field. -/
theorem homed_of_fields {w' : World} (hw : Sound w) (hcommitted : AllCommitted w)
    (h : w.unrecordedFieldsWithoutReceipts cfg = .ok fields)
    (hd : Discarded (fields.flatMap Prod.snd) (fields.flatMap Prod.snd) w w') :
    Homed [] w' := by
  obtain ⟨groups, hgroups, hfields⟩ := mem_unrecordedFields h
  intro row hrow' n hid _ hnone habove'
  have hrow := hd.kept.sublist.subset hrow'
  have habove : Above w n := hd.kept.sameCandidates.symm.above habove'
  have hnamed : ¬ Named w row.id := by
    rw [hid]
    exact habove.not_named
  have hstays : row.id ∉ fields.flatMap Prod.snd := hd.nodes row hrow'
  -- its field was among the pending groups, and it stayed because the field is spared
  obtain ⟨key, ids, hkey, hgroup, hmem⟩ :=
    pendingGroups_exists hcommitted hgroups hrow hnone hnamed
  cases hspares : w.spares cfg (key, ids) with
  | false =>
    exact absurd (mem_flatMap.mpr
      ⟨(key.1, ids), (hfields _).mpr ⟨(key, ids), hgroup, hspares, rfl⟩, hmem⟩) hstays
  | true =>
    unfold World.spares at hspares
    rw [Bool.or_eq_true] at hspares
    rcases hspares with hspares | hreceipt
    · -- one challenger whose cleanup has not begun
      simp only [Bool.and_eq_true, Bool.not_eq_eq_eq_not, Bool.not_true] at hspares
      have hstarted := hspares.2
      rw [World.cleanupStarted, List.any_eq_false] at hstarted
      have hrecord : w.hasRecord row.id = true := by
        have := hstarted row.id hmem
        simp only [Bool.or_eq_true, Bool.not_eq_eq_eq_not, Bool.not_true, not_or,
          Bool.not_eq_false] at this
        exact this.2
      rw [← hid, World.hasRecord, hd.others row.id hstays]
      exact hrecord
    · -- a receipt at the round of a node above all candidates
      rw [hw.pending row hrow n key.1 hid not_mem_nil hnone (fieldKey_round hkey) habove]
        at hreceipt
      cases hreceipt

/-- Discarding fields without a record keeps what is committed. -/
theorem discardUnrecordedFields_ensures (cfg : Config) (host : Host) (hw : Sound w)
    (hcommitted : AllCommitted w) :
    Ensures Restores (discardUnrecordedFields cfg host) w fun _ w' =>
      Kept w w' ∧ Sound w' ∧ Homed [] w' := by
  refine ensures_look .refl fun fields hfields => ?_
  split
  · rename_i hnil
    refine ensures_pure .refl ⟨.refl w, hw, homed_of_fields hw hcommitted hfields ?_⟩
    rw [hnil]
    exact ⟨.refl w, hw, fun _ _ => rfl, fun _ _ => not_mem_nil⟩
  · obtain ⟨groups, hgroups, hmem⟩ := mem_unrecordedFields hfields
    have hsnd : (fields.map fun field => (some field.1, field.2)).flatMap Prod.snd =
        fields.flatMap Prod.snd := by
      rw [flatMap_map]
    refine ensures_bind Restores.trans (discardCandidates_ensures host hw ?_ ?_) fun _ h => ?_
    · intro field hfield
      obtain ⟨field', hfield', rfl⟩ := List.mem_map.mp hfield
      obtain ⟨group, hgroup, hspares, rfl⟩ := (hmem field').mp hfield'
      refine ⟨fun id hid => ?_, fun r hr => ?_⟩
      · obtain ⟨row, hrow, hpending, hnamed, hkey, rfl⟩ :=
          (pendingGroups_mem hcommitted hgroups hgroup).mp hid
        refine free_of_pending hrow hpending hnamed fun r hr => ?_
        obtain rfl := some.inj ((fieldKey_round hkey).symm.trans hr)
        exact receiptAt_of_not_spares hspares
      · obtain rfl := some.inj hr
        exact receiptAt_of_not_spares hspares
    · rw [hsnd]
      exact fun _ hid => hid
    · rw [hsnd] at h
      exact ensures_pure .refl
        ⟨h.kept, h.sound, homed_of_fields hw hcommitted hfields h⟩

end Fields

/-! ## The latest generation -/

section Latest
variable {n : Nat}

/-- The generation is the latest one, no receipt names it, and it has no outcome that
reads. -/
structure Interrupted (w : World) (n : Nat) : Prop where
  sound : Sound w
  committed : AllCommitted w
  homed : Homed [] w
  above : Above w n
  minted : n ≠ 0
  waits : ∀ e, w.readExperiment (.v n) = .ok e → e.outcome = none

/-- Without a pending node it is free to go by its experiment. -/
theorem Interrupted.free (hw : Interrupted w n)
    (hnode : ∀ row ∈ w.lineage.rows, row.id = .v n → row.promoted ≠ none) : Free w (.v n) := by
  have hwaits : ∀ e, (w.record (.v n)).experiment = .written e → e.outcome = none := fun e he =>
    hw.waits e (readExperiment_unnamed hw.above.not_named he (hw.sound.genuine n e hw.minted he))
  refine ⟨hw.above.not_named, fun row hrow hid => ?_, fun _ e he => ?_⟩
  · obtain ⟨e, he, hout⟩ := hw.sound.resolved row hrow n hw.minted hid (hnode row hrow hid)
    exact absurd (hwaits e he) hout
  · exact hw.sound.stray n e (by simp) he (hwaits e he) hnode hw.above

/-- A discard with a round of its own is made only of an experiment that has no
pending node, or agrees with it. -/
theorem discardInterruptedGeneration_ensures (host : Host) (hw : Interrupted w n)
    (roundIndex : Option Nat)
    (hround : ∀ r, roundIndex = some r →
      (∀ row ∈ w.lineage.rows, row.id = .v n → row.promoted ≠ none) → w.receiptAt r = none) :
    Ensures Restores (discardInterruptedGeneration host (.v n) roundIndex) w fun _ w' =>
      Kept w w' ∧ Sound w' ∧ Homed [] w' := by
  have hfree : ¬ Named w (.v n) := hw.above.not_named
  refine ensures_look .refl fun groups hgroups => ?_
  -- the other nodes keep their records
  have hhomed : ∀ {lineaged : List GenId} {w' : World}, Discarded [.v n] lineaged w w' →
      (∀ row ∈ w'.lineage.rows, row.id = .v n → row.promoted ≠ none) → Homed [] w' := by
    intro lineaged w' hd hnode row hrow m hid hlost hnone habove
    have hne : GenId.v m ∉ [GenId.v n] := by
      intro heq
      rw [mem_singleton] at heq
      exact hnode row hrow (hid.trans heq) hnone
    rw [World.hasRecord, hd.others _ hne]
    exact hw.homed row (hd.kept.sublist.subset hrow) m hid hlost hnone
      (hd.kept.sameCandidates.symm.above habove)
  split
  · rename_i hnone
    have hnode : ∀ row ∈ w.lineage.rows, row.id = .v n → row.promoted ≠ none := by
      intro row hrow hid hpending
      obtain ⟨key, ids, -, hgroup, hmem⟩ :=
        pendingGroups_exists hw.committed hgroups hrow hpending (hid ▸ hfree)
      have hfilter : (key, ids) ∈ groups.filter fun group => .v n ∈ group.2 :=
        mem_filter.mpr ⟨hgroup, by simpa [← hid] using hmem⟩
      rw [hnone] at hfilter
      cases hfilter
    refine (discardCandidates_ensures host hw.sound ?_ ?_).mono (fun _ h => h) fun _ hd => ?_
    · intro field hfield
      obtain rfl := mem_singleton.mp hfield
      refine ⟨fun id hid => ?_, fun r hr => hround r hr hnode⟩
      rw [mem_singleton.mp hid]
      exact hw.free hnode
    · intro id hid
      cases hid
    · refine ⟨hd.kept, hd.sound, hhomed hd fun row hrow => hnode row ?_⟩
      exact hd.kept.sublist.subset hrow
  · rename_i recorded parent siblings hmatch
    refine ensures_lift .refl fun _ _ => ?_
    refine ensures_lift .refl fun _ _ => ?_
    have hgroup : ((recorded, parent), siblings) ∈ groups.filter fun group => .v n ∈ group.2 := by
      rw [hmatch]
      exact mem_cons_self
    obtain ⟨hgroup, hmem⟩ := mem_filter.mp hgroup
    rw [decide_eq_true_eq] at hmem
    obtain ⟨row, hrow, hpending, -, hkey, hid⟩ :=
      (pendingGroups_mem hw.committed hgroups hgroup).mp hmem
    have hreceipt := hw.sound.pending row hrow n recorded hid not_mem_nil hpending
      (fieldKey_round hkey) hw.above
    refine (discardCandidates_ensures host hw.sound ?_ ?_).mono (fun _ h => h) fun _ hd => ?_
    · intro field hfield
      obtain rfl := mem_singleton.mp hfield
      refine ⟨fun id' hid' => ?_, fun r hr => ?_⟩
      · rw [mem_singleton.mp hid', ← hid]
        refine free_of_pending hrow hpending (hid ▸ hfree) fun r hr => ?_
        rw [← some.inj ((fieldKey_round hkey).symm.trans hr)]
        exact hreceipt
      · rw [← some.inj hr]
        exact hreceipt
    · exact fun id hid => mem_flatMap.mpr ⟨_, mem_singleton.mpr rfl, hid⟩
    · refine ⟨hd.kept, hd.sound, hhomed hd fun row' hrow' hid' => ?_⟩
      exact absurd (mem_singleton.mpr hid') (hd.nodes row' hrow')
  · exact ensures_error .refl

/-- An experiment that reads without an outcome is the one on disk. -/
theorem readExperiment_pending {id : GenId} {e : Experiment} (h : w.readExperiment id = .ok e)
    (hout : e.outcome = none) : (w.record id).experiment = .written e := by
  unfold World.readExperiment at h
  split at h
  · cases h
  · cases h
  · rename_i stored hstored
    obtain ⟨-, h⟩ := require_bind h
    rw [hstored]
    split at h
    · exact congrArg _ (ok.inj h)
    · split at h
      · split at h
        · exact congrArg _ (ok.inj h)
        · obtain ⟨-, h⟩ := require_bind h
          obtain rfl := ok.inj h
          cases hout
      · exact congrArg _ (ok.inj h)

/-- A candidate of a receipt reads, with the outcome of its round. -/
theorem readExperiment_named {x : Option Nat} {lost : List Nat} (hw : SoundBut x lost w)
    (hcommitted : AllCommitted w)
    {r : Nat} {s : Settlement} (hs : w.receiptAt r = some s) {c : Candidate}
    (hc : c ∈ s.candidates) :
    ∃ e, w.readExperiment c.generationId = .ok e ∧ e.parentId.isSome = true ∧
      e.roundIndex = r ∧ e.outcome.isSome = true := by
  obtain ⟨e, he, hgen, -, hround, hparent⟩ := (hw.entered r s hs c hc).experiment
  -- the receipt may name the generation twice; the first candidate gives the outcome
  obtain ⟨first, hfirst⟩ : ∃ first,
      s.candidates.find? (fun c' => c'.generationId = c.generationId) = some first := by
    cases hfind : s.candidates.find? (fun c' => c'.generationId = c.generationId) with
    | some first => exact ⟨first, rfl⟩
    | none => exact absurd (find?_eq_none.mp hfind c hc) (by simp)
  have hgen' : first.generationId = c.generationId := by simpa using find?_some hfirst
  obtain ⟨e', he', -, hid, -⟩ :=
    (hw.entered r s hs first (mem_of_find?_eq_some hfirst)).experiment
  rw [hgen', he] at he'
  obtain rfl := ExperimentFile.written.inj he'
  refine ⟨{ e with outcome := some first.decision }, ?_, hparent, hround, rfl⟩
  unfold World.readExperiment
  rw [he]
  simp only [hgen, beq_self_eq_true, require, if_true, ok_bind, hround, hs, hcommitted r s hs,
    hfirst, hid]
  rfl

/-- What a restart that returns leaves. -/
structure Ready (w : World) (plan : ResumePlan) : Prop where
  sound : Sound w
  committed : AllCommitted w
  homed : Homed [] w
  resumed : ∀ n e, plan.resume = some (n, e) → w.latest = some n ∧ Above w n ∧
    ∀ row ∈ w.lineage.rows, row.id = .v n → row.promoted = none

theorem Ready.discarded {w' : World} {id : Option GenId} {classification : Classification}
    (hcommitted : AllCommitted w) (h : Kept w w' ∧ Sound w' ∧ Homed [] w') :
    Ready w' { discarded := id, classification := classification } :=
  ⟨h.2.1, hcommitted.kept h.1, h.2.2, fun _ _ h => by cases h⟩

/-- The node of a generation that is resumed is pending. -/
theorem pending_of_matches {e : Experiment} (hcommitted : AllCommitted w)
    (h : w.matchesSinglePendingLineage n e = .ok true) :
    ∀ row ∈ w.lineage.rows, row.id = .v n → row.promoted = none := by
  unfold World.matchesSinglePendingLineage at h
  split at h
  · split at h
    · cases h
    · obtain ⟨groups, hgroups, h⟩ := bind_eq_ok h
      have hget := of_decide_eq_true (ok.inj h)
      obtain ⟨row, hrow, hpending, -, -, hid⟩ :=
        (pendingGroups_mem hcommitted hgroups (Dict.mem_of_get? hget)).mp mem_cons_self
      intro row' hrow' hid'
      rw [Lineage.unique hrow hrow' (hid'.trans hid.symm)]
      exact hpending
  · cases h

/-- A resumed experiment has what its plan needs. -/
theorem resumeExperiment_ensures (host : Host) {e : Experiment} (hw : Interrupted w n)
    (hlatest : w.latest = some n) (he : w.readExperiment (.v n) = .ok e)
    (hout : e.outcome = none) :
    Ensures Restores (resumeExperiment host n e) w fun plan w' => Ready w' plan := by
  have hstray : ∀ r, some e.roundIndex = some r →
      (∀ row ∈ w.lineage.rows, row.id = .v n → row.promoted ≠ none) → w.receiptAt r = none := by
    intro r hr hnode
    rw [← some.inj hr]
    exact hw.sound.stray n e (by simp) (readExperiment_pending he hout) hout hnode hw.above
  have hcommitted := hw.committed
  refine ensures_look .refl fun w' hw' => ?_
  obtain rfl := ok.inj hw'
  split
  · exact ensures_bind Restores.trans
      (discardInterruptedGeneration_ensures host hw (some e.roundIndex) hstray) fun _ h =>
      ensures_pure .refl (.discarded hcommitted h)
  · split
    · exact ensures_bind Restores.trans
        (discardInterruptedGeneration_ensures host hw (some e.roundIndex) hstray) fun _ h =>
        ensures_pure .refl (.discarded hcommitted h)
    · refine ensures_look .refl fun single hsingle => ?_
      cases single with
      | true =>
        refine ensures_pure .refl ⟨hw.sound, hw.committed, hw.homed, fun m e' h => ?_⟩
        cases h
        exact ⟨hlatest, hw.above, pending_of_matches hcommitted hsingle⟩
      | false =>
        exact ensures_bind Restores.trans
          (discardInterruptedGeneration_ensures host hw none fun _ h => by cases h) fun _ h =>
          ensures_pure .refl (.discarded hcommitted h)

/-- So has the latest generation. -/
theorem resumeLatest_ensures (host : Host) (hw : Sound w) (hcommitted : AllCommitted w)
    (hhomed : Homed [] w) (hlatest : w.latest = some n) (hn : n ≠ 0) :
    Ensures Restores (resumeLatest host n) w fun plan w' => Ready w' plan := by
  refine ensures_look .refl fun found hfound => ?_
  have hread := ok.inj hfound
  cases found with
  -- without an experiment no receipt names the generation, and it is discarded
  | none =>
    have hfree : ¬ Named w (.v n) := by
      rintro ⟨r, s, hs, c, hc, hid⟩
      obtain ⟨e, he, -⟩ := readExperiment_named hw hcommitted hs hc
      rw [← hid, he] at hread
      cases hread
    refine ensures_look .refl fun _ _ => ?_
    have hinterrupted : Interrupted w n := by
      refine ⟨hw, hcommitted, hhomed, above_of_latest hw hlatest hfree, hn, fun e he => ?_⟩
      rw [he] at hread
      cases hread
    exact ensures_bind Restores.trans
      (discardInterruptedGeneration_ensures host hinterrupted none fun _ h => by cases h)
      fun _ h => ensures_pure .refl (.discarded hcommitted h)
  | some e =>
    have he : w.readExperiment (.v n) = .ok e := by
      cases hr : w.readExperiment (.v n) with
      | ok e' =>
        rw [hr] at hread
        exact congrArg _ (some.inj hread)
      | error msg =>
        rw [hr] at hread
        cases hread
    dsimp only
    split
    · exact ensures_pure .refl ⟨hw, hcommitted, hhomed, fun _ _ h => by cases h⟩
    -- a candidate that a committed receipt names has its outcome
    · rename_i hout
      have hnone : e.outcome = none := not_isSome_iff_eq_none.mp hout
      have hfree : ¬ Named w (.v n) := by
        rintro ⟨r, s, hs, c, hc, hid⟩
        obtain ⟨e', he', -, -, houtcome⟩ := readExperiment_named hw hcommitted hs hc
        rw [hid] at he'
        obtain rfl := ok.inj (he.symm.trans he')
        exact hout houtcome
      refine resumeExperiment_ensures host
        ⟨hw, hcommitted, hhomed, above_of_latest hw hlatest hfree, hn, fun e' he' => ?_⟩
        hlatest he hnone
      rw [← ok.inj (he.symm.trans he')]
      exact hnone

/-- **A restart of a sound workspace**, wherever it is cut. -/
theorem prepareResume_ensures (cfg : Config) (host : Host) (hw : Sound w) :
    Ensures Restores (prepareResume cfg host) w fun plan w' => Ready w' plan := by
  refine ensures_bind Restores.trans (recoverFieldSettlements_ensures host hw).and_keeps
    fun _ hrecovered => ?_
  obtain ⟨hrestores, hcommitted⟩ := hrecovered
  have hw₁ := (hrestores hw).2
  refine ensures_bind Restores.trans (discardUnrecordedSource_ensures host hw₁) fun _ hsource => ?_
  have hcommitted₂ := hcommitted.kept hsource.1
  refine ensures_bind Restores.trans
    (discardUnrecordedFields_ensures cfg host hsource.2 hcommitted₂) fun discarded hfields => ?_
  obtain ⟨hkept₃, hw₃, hhomed⟩ := hfields
  have hcommitted₃ := hcommitted₂.kept hkept₃
  cases discarded with
  | cons id rest => exact ensures_pure .refl ⟨hw₃, hcommitted₃, hhomed, fun _ _ h => by cases h⟩
  | nil =>
    refine ensures_look .refl fun latest hlatest => ?_
    have hlatest := ok.inj hlatest
    cases latest with
    | none => exact ensures_pure .refl ⟨hw₃, hcommitted₃, hhomed, fun _ _ h => by cases h⟩
    | some n =>
      dsimp only
      split
      · exact ensures_pure .refl ⟨hw₃, hcommitted₃, hhomed, fun _ _ h => by cases h⟩
      · rename_i hn
        exact resumeLatest_ensures host hw₃ hcommitted₃ hhomed hlatest hn

end Latest

end Zicato.Resume
