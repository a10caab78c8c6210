import Zicato.EvolveRounds

/-! # What rounds keep sound

The steps of a round only add to a workspace.  A candidate is in the registers
before anything names it, and its number lies above those of all candidates
before it, so what an earlier round left can no longer be the generation a
restart discards. -/
open List
namespace Zicato.Resume
open Receipt (ReceiptState HookState IndexState)
open Proc

variable {w w' : World} {x : Option Nat} {lost lost' : List Nat}

/-- What holds of the workspace still does. -/
def Preserves (I : World → Prop) (w w' : World) : Prop := I w → I w'

theorem Preserves.refl {I : World → Prop} (w : World) : Preserves I w w := id

theorem Preserves.trans {I : World → Prop} (a b c : World) (h : Preserves I a b)
    (h' : Preserves I b c) : Preserves I a c := fun ha => h' (h ha)

/-- A sound workspace stays sound. -/
abbrev Stays (lost : List Nat) : World → World → Prop := Preserves (SoundBut none lost)

/-- With more generations left out. -/
theorem SoundBut.weaken (h : SoundBut x lost w) (hlost : lost ⊆ lost') : SoundBut x lost' w where
  nonempty := h.nonempty
  entered := h.entered
  pending row hrow n r hid hn := h.pending row hrow n r hid fun hmem => hn (hlost hmem)
  stray := h.stray
  genuine := h.genuine
  resolved := h.resolved

theorem Homed.weaken (h : Homed lost w) (hlost : lost ⊆ lost') : Homed lost' w :=
  fun row hrow n hid hn => h row hrow n hid fun hmem => hn (hlost hmem)

/-! ## Writes that change nothing a restart decides by -/

/-- Receipts, nodes and experiments are the same, and no record is gone. -/
structure Calm (w w' : World) : Prop where
  receiptAt : ∀ r, w'.receiptAt r = w.receiptAt r
  lineage : w'.lineage = w.lineage
  experiment : ∀ id, (w'.record id).experiment = (w.record id).experiment
  hasRecord : ∀ id, w.hasRecord id = true → w'.hasRecord id = true

namespace Calm

theorem refl (w : World) : Calm w w := ⟨fun _ => rfl, rfl, fun _ => rfl, fun _ h => h⟩

theorem trans {w'' : World} (h : Calm w w') (h' : Calm w' w'') : Calm w w'' where
  receiptAt r := (h'.receiptAt r).trans (h.receiptAt r)
  lineage := h'.lineage.trans h.lineage
  experiment id := (h'.experiment id).trans (h.experiment id)
  hasRecord id hid := h'.hasRecord id (h.hasRecord id hid)

theorem sameCandidates (h : Calm w w') : SameCandidates w w' := fun r => by rw [h.receiptAt]

theorem above_iff (h : Calm w w') (n : Nat) : Above w' n ↔ Above w n :=
  ⟨h.sameCandidates.symm.above, h.sameCandidates.above⟩

theorem soundBut (h : Calm w w') (hw : SoundBut x lost w) : SoundBut x lost w' :=
  hw.mono h.sameCandidates (by rw [h.lineage]; exact Subset.refl _)
    (fun row hrow _ => h.lineage ▸ hrow) (fun id _ => h.experiment id)
    (fun row _ _ => h.experiment row.id) fun n e he => ⟨h.experiment (.v n) ▸ he, fun row hrow _ => h.lineage ▸ hrow⟩

theorem homed (h : Calm w w') (hw : Homed lost w) : Homed lost w' := by
  intro row hrow n hid hn hnone habove
  rw [h.lineage] at hrow
  exact h.hasRecord _ (hw row hrow n hid hn hnone ((h.above_iff n).mp habove))

variable (id : GenId)

theorem putSource (tree : String) : Calm w (w.apply (.putSource id tree)) :=
  ⟨fun _ => rfl, rfl, fun _ => rfl, fun _ h => h⟩

theorem dropSource : Calm w (w.apply (.dropSource id)) :=
  ⟨fun _ => rfl, rfl, fun _ => rfl, fun _ h => h⟩

theorem putTournament (snapshot : String) : Calm w (w.apply (.putTournament id snapshot)):=
  ⟨fun _ => rfl, rfl, fun _ => rfl, fun _ h => h⟩

theorem putLog (r : Nat) (event : String) : Calm w (w.apply (.putLog r event)) :=
  ⟨receiptAt_setRound rfl, rfl, fun _ => rfl, fun _ h => h⟩

/-- The record of a generation is rewritten without touching its experiment. -/
theorem setRecord {id : GenId} {rec : Record} (h : rec.experiment = (w.record id).experiment) :
    Calm w (w.setRecord id rec) := by
  refine ⟨fun _ => rfl, rfl, fun id' => ?_, fun id' hid' => ?_⟩
  · rw [World.record_setRecord]
    split
    · rename_i heq
      rw [h, heq]
    · rfl
  · change (Dict.get? (Dict.set w.records id rec) id').isSome = true
    rw [Dict.get?_set]
    split
    · rfl
    · exact hid'

theorem touchRecord : Calm w (w.apply (.touchRecord id)) := setRecord rfl

theorem putLosses : Calm w (w.apply (.putLosses id)) := setRecord rfl

end Calm

/-- A relation of workspaces along which calm writes go. -/
structure Lenient (R : World → World → Prop) : Prop where
  refl : ∀ w, R w w
  trans : ∀ a b c, R a b → R b c → R a c
  calm : ∀ {a b}, Calm a b → R a b

theorem Preserves.lenient {I : World → Prop} (h : ∀ {a b}, Calm a b → I a → I b) :
    Lenient (Preserves I) := ⟨.refl, Preserves.trans, h⟩

theorem Stays.lenient : Lenient (Stays lost) := Preserves.lenient Calm.soundBut

section Calm
variable {R : World → World → Prop} (hR : Lenient R)
include hR

theorem write_calm {wr : Write} (h : Calm w (w.apply wr)) :
    Ensures R (write wr : Step Unit) w fun _ w' => Calm w w' :=
  ensures_write hR.refl (hR.calm h) h

/-- A loop of calm writes. -/
theorem each_calm {α : Type} {f : α → Step Unit} {xs : List α}
    (h : ∀ a ∈ xs, ∀ d, Ensures R (f a) d fun _ d' => Calm d d') :
    Ensures R (each f xs) w fun _ w' => Calm w w' :=
  ensures_each hR.refl hR.trans (I := fun _ d => Calm w d) (.refl w) fun _ a ha d hd =>
    (h a ha d).mono (fun _ h => h) fun _ h => hd.trans h

theorem pruneSource_calm (host : Host) (id : GenId) :
    Ensures R (pruneSource host id) w fun _ w' => Calm w w' := by
  refine ensures_look hR.refl fun found _ => ?_
  cases found with
  | false => exact ensures_pure hR.refl (.refl w)
  | true =>
    refine ensures_bind hR.trans
      (each_calm hR fun _ _ _ => write_calm hR (.putSource id _)) fun _ h => ?_
    exact (write_calm hR (.dropSource id)).mono (fun _ h => h) fun _ h' => h.trans h'

theorem deriveGeneration_calm (cfg : Config) (host : Host) (id : GenId) (trees : List String) :
    Ensures R (deriveGeneration cfg host id trees) w fun _ w' => Calm w w' := by
  refine ensures_bind hR.trans (each_calm hR fun id _ _ => pruneSource_calm hR host id)
    fun _ h => ?_
  refine ensures_bind hR.trans (each_calm hR fun id _ _ => write_calm hR (.touchRecord id))
    fun _ h' => ?_
  exact (each_calm hR fun _ _ _ => write_calm hR (.putSource id _)).mono (fun _ h => h) fun _ h'' =>
    (h.trans h').trans h''

theorem measureUnit_calm (id : GenId) : Ensures R (measureUnit id) w fun _ w' => Calm w w' := by
  refine ensures_look hR.refl fun found _ => ?_
  cases found with
  | true => exact write_calm hR (.putLosses id)
  | false => exact ensures_pure hR.refl (.refl w)

/-! ## Writes of a candidate -/

theorem appendToLineage_ensures {row : Row} {Q : World → Prop}
    (h : R w (w.apply (.putLineage (w.lineage.upsert row))))
    (hQ : Q (w.apply (.putLineage (w.lineage.upsert row)))) :
    Ensures R (appendToLineage row) w fun _ w' => Q w' := by
  refine ensures_look hR.refl fun lineage hlineage => ?_
  obtain rfl := Except.ok.inj hlineage
  exact ensures_write hR.refl h hQ

theorem writeExperiment_ensures {id : GenId} {e : Experiment} {Q : World → Prop}
    (h : ∀ d, Calm w d → R d (d.apply (.putExperiment id e)) ∧ Q (d.apply (.putExperiment id e))) :
    Ensures R (writeExperiment id e) w fun _ w' => Q w' := by
  refine ensures_bind hR.trans (each_calm hR fun _ _ _ => write_calm hR (.touchRecord id))
    fun _ hcalm => ?_
  exact ensures_write hR.refl (h _ hcalm).1 (h _ hcalm).2

theorem updateExperimentOutcome_ensures {id : GenId} {decision : TournamentDecision}
    {Q : World → Prop}
    (h : ∀ existing d, w.readExperiment id = .ok existing → Calm w d →
      R d (d.apply (.putExperiment id { existing with outcome := some decision })) ∧
      Q (d.apply (.putExperiment id { existing with outcome := some decision }))) :
    Ensures R (updateExperimentOutcome id decision) w fun _ w' => Q w' :=
  ensures_look hR.refl fun existing hexisting =>
    writeExperiment_ensures hR fun d hcalm => h existing d hexisting hcalm

/-- A mint enters the pending node, then the experiment beside it. -/
theorem mintPlaceboChallenger_ensures {cfg : Config} {host : Host} {at_ : Coordinates}
    {id : GenId} {p : Proposal} {Q : World → Prop}
    (hnode : ∀ d, Calm w d → R d (d.apply (.putLineage (d.lineage.upsert (p.row at_ id none)))))
    (hexperiment : ∀ d d', Calm w d →
      Calm (d.apply (.putLineage (d.lineage.upsert (p.row at_ id none)))) d' →
      R d' (d'.apply (.putExperiment id (p.experiment at_ id))) ∧
      Q (d'.apply (.putExperiment id (p.experiment at_ id)))) :
    Ensures R (mintPlaceboChallenger cfg host at_ id p) w fun _ w' => Q w' := by
  refine ensures_bind hR.trans (deriveGeneration_calm hR cfg host id p.trees) fun _ hd => ?_
  refine ensures_bind hR.trans (appendToLineage_ensures hR
    (Q := fun d' => ∃ d, Calm w d ∧
      d' = d.apply (.putLineage (d.lineage.upsert (p.row at_ id none))))
    (hnode _ hd) ⟨_, hd, rfl⟩) fun _ hentered => ?_
  obtain ⟨d, hd, hentered⟩ := hentered
  rw [hentered]
  exact writeExperiment_ensures hR fun d' hcalm => hexperiment d d' hd hcalm

end Calm

/-! ## Nodes and experiments -/

/-- No node of the generation is resolved; the baseline is left out. -/
def Unresolved (w : World) (n : Nat) : Prop :=
  n ≠ 0 → ∀ row ∈ w.lineage.rows, row.id = .v n → row.promoted = none

/-- A row after an upsert is the new one or another id's. -/
theorem mem_upsertRows {rows : List Row} {row row' : Row} :
    row' ∈ Lineage.upsertRows rows row ↔ row' = row ∨ row' ∈ rows ∧ row'.id ≠ row.id := by
  unfold Lineage.upsertRows
  split
  · rename_i hmem
    rw [mem_map]
    constructor
    · rintro ⟨old, hold, rfl⟩
      split
      · exact .inl rfl
      · rename_i hne
        exact .inr ⟨hold, hne⟩
    · rintro (rfl | ⟨hold, hne⟩)
      · obtain ⟨old, hold, hid⟩ := mem_map.mp hmem
        exact ⟨old, hold, if_pos hid⟩
      · exact ⟨row', hold, if_neg hne⟩
  · rename_i hnot
    rw [mem_append, mem_singleton, or_comm]
    refine or_congr_right ⟨fun hold => ⟨hold, fun heq => hnot ?_⟩, And.left⟩
    exact mem_map.mpr ⟨row', hold, heq⟩

/-- A node may be written for a generation no receipt names: pending in a round without a
receipt, or resolved once the experiment has its outcome. -/
theorem SoundBut.upsert {row : Row} (h : SoundBut x lost w) (hfree : ¬ Named w row.id)
    (hpending : ∀ n r, row.id = .v n → n ∉ lost → row.promoted = none → row.roundIndex = some r →
      Above w n → w.receiptAt r = none)
    (hresolved : ∀ n, row.id = .v n → row.promoted ≠ none →
      ∃ e, (w.record (.v n)).experiment = .written e ∧ e.outcome ≠ none) :
    SoundBut x lost (w.apply (.putLineage (w.lineage.upsert row))) where
  nonempty := h.nonempty
  entered r s hs c hc := by
    have hentered := h.entered r s hs c hc
    obtain ⟨old, hold, hid, hround⟩ := hentered.node
    refine ⟨hentered.numbered, ⟨old, mem_upsertRows.mpr (.inr ⟨hold, fun heq => hfree ?_⟩), hid,
      hround⟩, hentered.experiment⟩
    rw [← heq, hid]
    exact ⟨r, s, hs, c, hc, rfl⟩
  pending old hold n r hid hn hnone hround habove := by
    rcases mem_upsertRows.mp hold with rfl | ⟨hold, -⟩
    · exact hpending n r hid hn hnone hround habove
    · exact h.pending old hold n r hid hn hnone hround habove
  stray n e hx he hout hnode habove := by
    have hrow : row ∈ (w.lineage.upsert row).rows := mem_upsertRows.mpr (.inl rfl)
    by_cases hid : row.id = .v n
    · obtain ⟨e', he', hout'⟩ := hresolved n hid (hnode row hrow hid)
      obtain rfl := ExperimentFile.written.inj (he.symm.trans he')
      exact absurd hout hout'
    · refine h.stray n e hx he hout (fun old hold hold_id => ?_) habove
      refine hnode old (mem_upsertRows.mpr (.inr ⟨hold, fun heq => hid ?_⟩)) hold_id
      rw [← heq, hold_id]
  genuine := h.genuine
  resolved old hold n hn hid hpromoted := by
    rcases mem_upsertRows.mp hold with rfl | ⟨hold, -⟩
    · exact hresolved n hid hpromoted
    · exact h.resolved old hold n hn hid hpromoted

theorem Calm.unresolved (h : Calm w w') {n : Nat} (hn : Unresolved w n) : Unresolved w' n := by
  unfold Unresolved
  rw [h.lineage]
  exact hn

/-- What reads is what was written, with an outcome at most. -/
theorem readExperiment_written {id : GenId} {e : Experiment} (h : w.readExperiment id = .ok e) :
    ∃ stored, (w.record id).experiment = .written stored ∧ stored.generationId = id ∧
      ∃ outcome, e = { stored with outcome := outcome } := by
  unfold World.readExperiment at h
  split at h
  · cases h
  · cases h
  · rename_i stored hstored
    obtain ⟨hid, h⟩ := require_bind h
    refine ⟨stored, hstored, by simpa using hid, ?_⟩
    split at h
    · exact ⟨_, (Except.ok.inj h).symm⟩
    · split at h
      · split at h
        · exact ⟨_, (Except.ok.inj h).symm⟩
        · obtain ⟨-, h⟩ := require_bind h
          exact ⟨_, (Except.ok.inj h).symm⟩
      · exact ⟨_, (Except.ok.inj h).symm⟩

theorem record_putExperiment (id id' : GenId) (e : Experiment) :
    ((w.apply (.putExperiment id e)).record id').experiment =
      if id = id' then .written e else (w.record id').experiment := by
  rw [World.apply, World.record_setRecord]
  split <;> rfl

theorem hasRecord_putExperiment (id id' : GenId) (e : Experiment) :
    (w.apply (.putExperiment id e)).hasRecord id' = (decide (id = id') || w.hasRecord id') := by
  change (Dict.get? (Dict.set w.records id _) id').isSome = _
  rw [Dict.get?_set]
  by_cases hid : id = id'
  · simp [hid]
  · simp [hid, World.hasRecord]

/-- An experiment may be written for a generation no receipt names; it has its outcome, or
the node of the generation is not resolved. -/
theorem SoundBut.putExperiment {id : GenId} {e : Experiment} (h : SoundBut x lost w)
    (hfree : ¬ Named w id) (hgen : e.generationId = id)
    (hnode : e.outcome ≠ none ∨ ∀ n, id = .v n → Unresolved w n)
    (hstray : ∀ n, id = .v n → some n ≠ x → e.outcome = none →
      (∀ row ∈ w.lineage.rows, row.id = .v n → row.promoted ≠ none) → Above w n →
      w.receiptAt e.roundIndex = none) : SoundBut x lost (w.apply (.putExperiment id e)) where
  nonempty := h.nonempty
  entered r s hs c hc := by
    have hentered := h.entered r s hs c hc
    refine ⟨hentered.numbered, hentered.node, ?_⟩
    rw [record_putExperiment, if_neg]
    · exact hentered.experiment
    · rintro rfl
      exact hfree ⟨r, s, hs, c, hc, rfl⟩
  pending := h.pending
  -- the written experiment, or one that was there
  stray n e' hx he hout hnode habove := by
    rw [record_putExperiment] at he
    split at he
    · rename_i hid
      obtain rfl := ExperimentFile.written.inj he
      exact hstray n hid hx hout hnode habove
    · exact h.stray n e' hx he hout hnode habove
  genuine n e' hn he := by
    rw [record_putExperiment] at he
    split at he
    · rename_i hid
      obtain rfl := ExperimentFile.written.inj he
      exact hgen.trans hid
    · exact h.genuine n e' hn he
  resolved row hrow n hn hid hpromoted := by
    rw [record_putExperiment]
    split
    · rename_i heq
      rcases hnode with hout | hpending
      · exact ⟨e, rfl, hout⟩
      · exact absurd (hpending n heq hn row hrow hid) hpromoted
    · exact h.resolved row hrow n hn hid hpromoted

/-! ## Receipts -/

/-- The receipts name the same candidates; nodes and records are the same. -/
structure Advanced (w w' : World) : Prop where
  candidates : SameCandidates w w'
  lineage : w'.lineage = w.lineage
  records : w'.records = w.records

namespace Advanced

theorem refl (w : World) : Advanced w w := ⟨fun _ => rfl, rfl, rfl⟩

theorem trans {w'' : World} (h : Advanced w w') (h' : Advanced w' w'') : Advanced w w'' :=
  ⟨fun r => (h'.candidates r).trans (h.candidates r), h'.lineage.trans h.lineage,
    h'.records.trans h.records⟩

theorem record (h : Advanced w w') (id : GenId) : w'.record id = w.record id := by
  rw [World.record, h.records, World.record]

theorem soundBut (h : Advanced w w') (hw : SoundBut x lost w) : SoundBut x lost w' :=
  hw.mono h.candidates (by rw [h.lineage]; exact Subset.refl _)
    (fun row hrow _ => h.lineage ▸ hrow) (fun id _ => by rw [h.record])
    (fun row _ _ => by rw [h.record]) fun n e he => ⟨h.record (.v n) ▸ he, fun row hrow _ => h.lineage ▸ hrow⟩

theorem homed (h : Advanced w w') (hw : Homed lost w) : Homed lost w' := by
  intro row hrow n hid hn hnone habove
  rw [h.lineage] at hrow
  rw [World.hasRecord, h.records]
  exact hw row hrow n hid hn hnone (h.candidates.symm.above habove)

theorem latest (h : Advanced w w') : w'.latest = w.latest := by
  rw [World.latest, h.records, World.latest]

theorem putReceipt {r : Nat} {s s' : Settlement} (hs : w.receiptAt r = some s)
    (hcandidates : s'.candidates = s.candidates) : Advanced w (w.apply (.putReceipt r s')) := by
  refine ⟨fun q => ?_, rfl, rfl⟩
  rw [receiptAt_putReceipt]
  split
  · rename_i heq
    rw [← heq, hs, Option.map_some, Option.map_some, hcandidates]
  · rfl

end Advanced

section Receipts
variable {r : Nat} {s : Settlement}

theorem write_advances {s' : Settlement} (hs : w.receiptAt r = some s)
    (hcandidates : s'.candidates = s.candidates) :
    Ensures (Stays lost) (write (.putReceipt r s') : Step Unit) w fun _ w' =>
      Advanced w w' ∧ w'.receiptAt r = some s' := by
  have h := Advanced.putReceipt hs hcandidates
  exact ensures_write .refl h.soundBut ⟨h, (receiptAt_putReceipt s' r).trans (if_pos rfl)⟩

theorem publishOutcomes_advances (hs : w.receiptAt r = some s) :
    Ensures (Stays lost) (publishOutcomes r s) w fun s' w' =>
      Advanced w w' ∧ w'.receiptAt r = some s' := by
  unfold publishOutcomes
  split
  · exact ensures_pure .refl ⟨.refl w, hs⟩
  · exact ensures_bind Preserves.trans (write_advances hs rfl) fun _ h => ensures_pure .refl h

theorem replayFieldSettlement_advances (host : Host) (hs : w.receiptAt r = some s) :
    Ensures (Stays lost) (replayFieldSettlement host r s) w fun _ w' => Advanced w w' := by
  refine ensures_look .refl fun _ _ => ?_
  refine ensures_bind Preserves.trans (publishOutcomes_advances hs) fun s' h => ?_
  unfold refreshIndex
  split
  · refine Ensures.mono (write_advances h.2 ?_) (fun _ h => h) fun _ h' => h.1.trans h'.1
    rfl
  · exact ensures_pure .refl h.1

theorem recordPromotionHookDelivery_advances (host : Host) (state : HookState) :
    Ensures (Stays lost) (recordPromotionHookDelivery host r state) w fun _ w' => Advanced w w' := by
  refine ensures_look .refl fun found hfound => ?_
  cases found with
  | none => exact ensures_error .refl
  | some recorded =>
    refine ensures_look .refl fun _ _ => ?_
    refine ensures_lift .refl fun _ _ => ?_
    refine ensures_lift .refl fun _ _ => ?_
    refine Ensures.mono (write_advances (Except.ok.inj hfound) ?_) (fun _ h => h) fun _ h => h.1
    rfl

theorem acknowledgeRepaired_advances :
    Ensures (Stays lost) (acknowledgeRepaired r) w fun _ w' => Advanced w w' := by
  refine ensures_look .refl fun found hfound => ?_
  cases found with
  | none => exact ensures_pure .refl (.refl w)
  | some s =>
    dsimp only
    split
    · refine Ensures.mono (write_advances (Except.ok.inj hfound) ?_) (fun _ h => h) fun _ h => h.1
      rfl
    · exact ensures_pure .refl (.refl w)

end Receipts

/-! ## A field -/

/-- All receipts are of earlier rounds. -/
def ReceiptsBelow (w : World) (r : Nat) : Prop := ∀ q, (w.receiptAt q).isSome = true → q < r

theorem ReceiptsBelow.sameCandidates {r : Nat} (h : ReceiptsBelow w r)
    (hsame : SameCandidates w w') : ReceiptsBelow w' r := by
  intro q hq
  cases hw : w.receiptAt q with
  | some s => exact h q (by rw [hw]; rfl)
  | none =>
    rw [hsame.receiptAt_none hw] at hq
    cases hq

theorem ReceiptsBelow.none {r : Nat} (h : ReceiptsBelow w r) : w.receiptAt r = none := by
  cases hw : w.receiptAt r with
  | none => rfl
  | some s => exact absurd (h r (by rw [hw]; rfl)) (lt_irrefl r)

theorem ReceiptsBelow.mono {r r' : Nat} (h : ReceiptsBelow w r) (hr : r ≤ r') :
    ReceiptsBelow w r' := fun q hq => (h q hq).trans_le hr

/-- A challenger of round `r` is in all registers. -/
structure Filed (w : World) (r : Nat) (a : Applied) : Prop where
  node : ∃ row ∈ w.lineage.rows, row.id = .v a.number ∧ row.promoted = none ∧
    row.roundIndex = some r
  experiment : ∃ e, (w.record (.v a.number)).experiment = .written e ∧
    e.generationId = .v a.number ∧ e.id = a.experimentId ∧ e.roundIndex = r ∧
    e.parentId.isSome = true

/-- A field of round `r` with numbers from `base` on, whose pending nodes are `mine`. -/
structure InField (lost : List Nat) (w : World) (r base : Nat) (mine : List Nat) : Prop where
  sound : SoundBut none lost w
  below : ReceiptsBelow w r
  above : Above w base
  pending : ∀ row ∈ w.lineage.rows, ∀ m, row.id = .v m → m ∉ lost → row.promoted = none →
    Above w m → m ≤ base ∧ w.hasRecord (.v m) = true ∨ m ∈ mine
  strays : ∀ n e, (w.record (.v n)).experiment = .written e → e.outcome = none →
    (∀ row ∈ w.lineage.rows, row.id = .v n → row.promoted ≠ none) → n ≤ base

section Field
variable {r base m : Nat} {mine : List Nat} {a : Applied}

theorem Calm.filed (h : Calm w w') (ha : Filed w r a) : Filed w' r a := by
  refine ⟨by rw [h.lineage]; exact ha.node, ?_⟩
  rw [h.experiment]
  exact ha.experiment

/-- A write that disturbs nothing keeps the field of a round. -/
theorem Calm.inField (h : Calm w w') (hw : InField lost w r base mine) :
    InField lost w' r base mine where
  sound := h.soundBut hw.sound
  below := hw.below.sameCandidates h.sameCandidates
  above := (h.above_iff base).mpr hw.above
  pending row hrow m hid hn hnone habove := by
    rw [h.lineage] at hrow
    refine (hw.pending row hrow m hid hn hnone ((h.above_iff m).mp habove)).imp_left fun hm => ?_
    exact ⟨hm.1, h.hasRecord _ hm.2⟩
  strays n e he hout hnode := by
    rw [h.experiment] at he
    rw [h.lineage] at hnode
    exact hw.strays n e he hout hnode

/-- With more generations left out. -/
theorem InField.weaken (hw : InField lost w r base mine) (hlost : lost ⊆ lost') :
    InField lost' w r base mine where
  sound := hw.sound.weaken hlost
  below := hw.below
  above := hw.above
  pending row hrow m hid hn := hw.pending row hrow m hid fun hmem => hn (hlost hmem)
  strays := hw.strays

/-- Numbers from the base of a field on belong to no candidate of a receipt. -/
theorem InField.free (hw : InField lost w r base mine) (hm : base ≤ m) : ¬ Named w (.v m) :=
  fun hn => absurd (hw.above m hn) (by omega)

/-- A pending row of the round joins its field. -/
theorem InField.upsertPending (row : Row) (hw : InField lost w r base mine) (hm : base ≤ m)
    (hid : row.id = .v m) (hnone : row.promoted = none) (hround : row.roundIndex = some r) :
    InField lost (w.apply (.putLineage (w.lineage.upsert row))) r base (mine ++ [m]) where
  sound := hw.sound.upsert (hid ▸ hw.free hm)
    (fun n q _ _ _ hq _ => by
      obtain rfl := Option.some.inj (hround.symm.trans hq)
      exact hw.below.none)
    fun n _ hresolved => absurd hnone hresolved
  below := hw.below
  above := hw.above
  pending old hold n hold_id hn hold_none habove := by
    rcases mem_upsertRows.mp hold with rfl | ⟨hold, -⟩
    · obtain rfl := GenId.v.inj (hid.symm.trans hold_id)
      exact .inr (mem_append_right _ mem_cons_self)
    · exact (hw.pending old hold n hold_id hn hold_none habove).imp_right (mem_append_left _)
  strays n e he hout hnode := by
    have hrow : row ∈ (w.lineage.upsert row).rows := mem_upsertRows.mpr (.inl rfl)
    refine hw.strays n e he hout fun old hold hold_id => ?_
    refine hnode old (mem_upsertRows.mpr (.inr ⟨hold, fun heq => ?_⟩)) hold_id
    exact hnode row hrow (heq ▸ hold_id) hnone

/-- A generation that is left out is none of the field. -/
theorem InField.drop (hw : InField lost w r base (mine ++ [m])) (hm : m ∈ lost) :
    InField lost w r base mine where
  sound := hw.sound
  below := hw.below
  above := hw.above
  pending row hrow n hid hn hnone habove := by
    refine (hw.pending row hrow n hid hn hnone habove).imp_right fun hmem => ?_
    refine (mem_append.mp hmem).resolve_right fun heq => hn ?_
    rw [mem_singleton.mp heq]
    exact hm
  strays := hw.strays

/-- The node of a rejected challenger is resolved once its experiment has the outcome. -/
theorem InField.upsertResolved (row : Row) (hw : InField lost w r base (mine ++ [m]))
    (hm : base ≤ m) (hid : row.id = .v m) (hresolved : row.promoted ≠ none) {e : Experiment}
    (he : (w.record (.v m)).experiment = .written e) (hout : e.outcome ≠ none) :
    InField lost (w.apply (.putLineage (w.lineage.upsert row))) r base mine where
  sound := hw.sound.upsert (hid ▸ hw.free hm) (fun n q _ _ hnone => absurd hnone hresolved)
    fun n hn _ => by
      obtain rfl := GenId.v.inj (hid.symm.trans hn)
      exact ⟨e, he, hout⟩
  below := hw.below
  above := hw.above
  pending old hold n hold_id hn hold_none habove := by
    rcases mem_upsertRows.mp hold with rfl | ⟨hold, hne⟩
    · exact absurd hold_none hresolved
    · refine (hw.pending old hold n hold_id hn hold_none habove).imp_right fun hmem => ?_
      refine (mem_append.mp hmem).resolve_right fun heq => hne ?_
      rw [hold_id, hid, mem_singleton.mp heq]
  strays n e' he' hnone hnode := by
    by_cases hn : n = m
    · subst hn
      obtain rfl := ExperimentFile.written.inj (he.symm.trans he')
      exact absurd hnone hout
    · refine hw.strays n e' he' hnone fun old hold hold_id => ?_
      refine hnode old (mem_upsertRows.mpr (.inr ⟨hold, fun heq => hn ?_⟩)) hold_id
      exact GenId.v.inj (hold_id.symm.trans (heq.trans hid))

/-- An experiment is written next to its pending node, or with its outcome. -/
theorem InField.putExperiment {e : Experiment} (hw : InField lost w r base mine)
    (hm : base ≤ m) (hgen : e.generationId = .v m)
    (hsafe : e.outcome ≠ none ∨ ∃ row ∈ w.lineage.rows, row.id = .v m ∧ row.promoted = none) :
    InField lost (w.apply (.putExperiment (.v m) e)) r base mine where
  sound := by
    refine hw.sound.putExperiment (hw.free hm) hgen ?_ fun n hn _ hout hnode _ => ?_
    · refine hsafe.imp_right fun ⟨row, hrow, hid, hnone⟩ => ?_
      intro n hn _ row' hrow' hid'
      rw [Lineage.unique hrow hrow' (hid'.trans (hn.symm.trans hid.symm))]
      exact hnone
    · rcases hsafe with hsome | ⟨row, hrow, hid, hnone⟩
      · exact absurd hout hsome
      · exact absurd hnone (hnode row hrow (hid.trans hn))
  below := hw.below
  above := hw.above
  pending row hrow n hid hn hnone habove := by
    refine (hw.pending row hrow n hid hn hnone habove).imp_left fun hle => ⟨hle.1, ?_⟩
    rw [hasRecord_putExperiment, hle.2, Bool.or_true]
  strays n e' he hout hnode := by
    rw [record_putExperiment] at he
    split at he
    · rename_i hn
      obtain rfl := ExperimentFile.written.inj he
      rcases hsafe with hsome | ⟨row, hrow, hid, hnone⟩
      · exact absurd hout hsome
      · exact absurd hnone (hnode row hrow (hid.trans hn))
    · exact hw.strays n e' he hout hnode

theorem Filed.upsert {row : Row} (ha : Filed w r a) (hne : row.id ≠ .v a.number) :
    Filed (w.apply (.putLineage (w.lineage.upsert row))) r a := by
  obtain ⟨old, hold, hid, hrest⟩ := ha.node
  refine ⟨⟨old, mem_upsertRows.mpr (.inr ⟨hold, fun heq => hne ?_⟩), hid, hrest⟩, ha.experiment⟩
  rw [← heq, hid]

theorem Filed.putExperiment {id : GenId} {e : Experiment} (ha : Filed w r a)
    (hne : id ≠ .v a.number) : Filed (w.apply (.putExperiment id e)) r a := by
  refine ⟨ha.node, ?_⟩
  rw [record_putExperiment, if_neg hne]
  exact ha.experiment

end Field

end Zicato.Resume
