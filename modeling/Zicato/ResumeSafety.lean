import Zicato.Resume

/-! # What a restart keeps

`Sound` is what every workspace satisfies that a run leaves behind: the candidates
of a receipt are in all registers, and what is left of a round without a receipt
does not point at a round with one.  `Kept` is what a restart may do to such a
workspace, wherever it is cut. -/
open List Option Zicato.Dict
namespace Zicato.Resume
open Receipt (ReceiptState HookState IndexState)

/-! ## Reading a workspace after a write -/

namespace World
variable {w : World}

theorem record_setRecord (id id' : GenId) (rec : Record) :
    (w.setRecord id rec).record id' = if id = id' then rec else w.record id' :=
  getD_set w.records id id' rec {}

theorem round_setRound (r r' : Nat) (round : Round) :
    (w.setRound r round).round r' = if r = r' then round else w.round r' :=
  getD_set w.rounds r r' round {}

theorem record_dropRecord (id id' : GenId) :
    (w.apply (.dropRecord id)).record id' = if id = id' then {} else w.record id' := by
  change (Dict.get? (Dict.erase w.records id) id').getD {} = _
  rw [get?_erase]
  split <;> rfl

theorem round_dropRound (r r' : Nat) :
    (w.apply (.dropRound r)).round r' = if r = r' then {} else w.round r' := by
  change (Dict.get? (Dict.erase w.rounds r) r').getD {} = _
  rw [get?_erase]
  split <;> rfl

theorem hasRecord_of_written {id : GenId} {e : Experiment}
    (h : (w.record id).experiment = .written e) : w.hasRecord id = true := by
  unfold hasRecord
  cases hget : Dict.get? w.records id with
  | some rec => rfl
  | none => simp [record, Dict.getD, hget] at h

/-- A receipt that is listed is that of its round. -/
theorem mem_receipts {r : Nat} {s : Settlement} : (r, s) ∈ w.receipts ↔ w.receiptAt r = some s := by
  constructor
  · intro h
    obtain ⟨q, -, hq⟩ := mem_filterMap.mp h
    obtain ⟨s', hs', heq⟩ := map_eq_some_iff.mp hq
    cases heq
    exact hs'
  · intro h
    refine mem_filterMap.mpr ⟨r, ?_, by rw [h]; rfl⟩
    rw [mem_insertionSort, mem_keys_iff]
    cases hget : Dict.get? w.rounds r with
    | some round => rfl
    | none => simp [receiptAt, round, Dict.getD, hget] at h

end World

/-! ## Candidates of a receipt -/

/-- A receipt names the generation. -/
def Named (w : World) (id : GenId) : Prop :=
  ∃ r s, w.receiptAt r = some s ∧ ∃ c ∈ s.candidates, c.generationId = id

/-- The number lies above those of all candidates a receipt names. -/
def Above (w : World) (n : Nat) : Prop := ∀ m, Named w (.v m) → m < n

theorem Above.not_named {w : World} {n : Nat} (h : Above w n) : ¬ Named w (.v n) :=
  fun hn => lt_irrefl n (h n hn)

/-- A candidate of the receipt of round `r` has its node and its experiment. -/
structure Entered (w : World) (r : Nat) (c : Candidate) : Prop where
  numbered : ∃ n, c.generationId = .v n
  node : ∃ row ∈ w.lineage.rows, row.id = c.generationId ∧ row.roundIndex = some r
  experiment : ∃ e, (w.record c.generationId).experiment = .written e ∧
    e.generationId = c.generationId ∧ e.id = c.experimentId ∧ e.roundIndex = r ∧
    e.parentId.isSome = true

/-- What a run leaves on disk.  Two fields are about the generation a restart may discard:
if its node is pending, then in a round without a receipt (`pending`), and if it has no
pending node, its experiment was born in such a round (`stray`).  The generations `lost`
are left out of the former, generation `exempt` out of the latter. -/
structure SoundBut (exempt : Option Nat) (lost : List Nat) (w : World) : Prop where
  nonempty : ∀ r s, w.receiptAt r = some s → s.candidates ≠ []
  entered : ∀ r s, w.receiptAt r = some s → ∀ c ∈ s.candidates, Entered w r c
  pending : ∀ row ∈ w.lineage.rows, ∀ n r, row.id = .v n → n ∉ lost → row.promoted = none →
    row.roundIndex = some r → Above w n → w.receiptAt r = none
  stray : ∀ n e, some n ≠ exempt → (w.record (.v n)).experiment = .written e →
    e.outcome = none → (∀ row ∈ w.lineage.rows, row.id = .v n → row.promoted ≠ none) →
    Above w n → w.receiptAt e.roundIndex = none
  genuine : ∀ n e, n ≠ 0 → (w.record (.v n)).experiment = .written e → e.generationId = .v n
  /-- Only the node of a generation that has its outcome is resolved. -/
  resolved : ∀ row ∈ w.lineage.rows, ∀ n, n ≠ 0 → row.id = .v n → row.promoted ≠ none →
    ∃ e, (w.record (.v n)).experiment = .written e ∧ e.outcome ≠ none

/-- `SoundBut` with nothing exempt and nothing lost. -/
abbrev Sound (w : World) : Prop := SoundBut none [] w

namespace SoundBut
variable {w w' : World} {x : Option Nat} {lost : List Nat}

theorem named_entered (h : SoundBut x lost w) {id : GenId} (hid : Named w id) :
    ∃ r c, c.generationId = id ∧ Entered w r c := by
  obtain ⟨r, s, hs, c, hc, rfl⟩ := hid
  exact ⟨r, c, rfl, h.entered r s hs c hc⟩

theorem named_hasRecord (h : SoundBut x lost w) {id : GenId} (hid : Named w id) :
    w.hasRecord id = true := by
  obtain ⟨r, c, rfl, hc⟩ := h.named_entered hid
  obtain ⟨e, he, -⟩ := hc.experiment
  exact World.hasRecord_of_written he

end SoundBut

/-- The receipts of two workspaces name the same candidates. -/
def SameCandidates (w w' : World) : Prop :=
  ∀ r, (w'.receiptAt r).map Settlement.candidates = (w.receiptAt r).map Settlement.candidates

namespace SameCandidates
variable {w w' : World} (h : SameCandidates w w')
include h

theorem symm : SameCandidates w' w := fun r => (h r).symm

theorem receiptAt {r : Nat} {s : Settlement} (hs : w.receiptAt r = some s) :
    ∃ s', w'.receiptAt r = some s' ∧ s'.candidates = s.candidates := by
  have hr := h r
  rw [hs, map_some] at hr
  exact map_eq_some_iff.mp hr

theorem receiptAt_none {r : Nat} (hr : w.receiptAt r = none) : w'.receiptAt r = none := by
  have := h r
  rw [hr] at this
  exact map_eq_none_iff.mp this

theorem named {id : GenId} (hid : Named w id) : Named w' id := by
  obtain ⟨r, s, hs, c, hc, hcid⟩ := hid
  obtain ⟨s', hs', heq⟩ := h.receiptAt hs
  exact ⟨r, s', hs', c, heq ▸ hc, hcid⟩

theorem above {n : Nat} (hn : Above w n) : Above w' n := fun m hm => hn m (h.symm.named hm)

end SameCandidates

/-- What only removes leftovers of rounds without a receipt keeps a workspace sound. -/
theorem SoundBut.mono {w w' : World} {x : Option Nat} {lost : List Nat} (h : SoundBut x lost w)
    (hcandidates : SameCandidates w w') (hrows : w'.lineage.rows ⊆ w.lineage.rows)
    (hnamed : ∀ row ∈ w.lineage.rows, Named w row.id → row ∈ w'.lineage.rows)
    (hrecords : ∀ id, Named w id → (w'.record id).experiment = (w.record id).experiment)
    (hresolved : ∀ row ∈ w.lineage.rows, row.promoted ≠ none →
      (w'.record row.id).experiment = (w.record row.id).experiment)
    (hstray : ∀ n e, (w'.record (.v n)).experiment = .written e →
      (w.record (.v n)).experiment = .written e ∧
        ∀ row ∈ w.lineage.rows, row.id = .v n → row ∈ w'.lineage.rows) : SoundBut x lost w' where
  nonempty r s hs := by
    obtain ⟨s', hs', heq⟩ := hcandidates.symm.receiptAt hs
    rw [← heq]
    exact h.nonempty r s' hs'
  entered r s hs c hc := by
    obtain ⟨s', hs', heq⟩ := hcandidates.symm.receiptAt hs
    rw [← heq] at hc
    have hentered := h.entered r s' hs' c hc
    have hcn : Named w c.generationId := ⟨r, s', hs', c, hc, rfl⟩
    obtain ⟨row, hrow, hid, hround⟩ := hentered.node
    refine ⟨hentered.numbered, ⟨row, hnamed row hrow (hid ▸ hcn), hid, hround⟩, ?_⟩
    rw [hrecords _ hcn]
    exact hentered.experiment
  pending row hrow n r hid hlost hpending hround habove :=
    hcandidates.receiptAt_none (h.pending row (hrows hrow) n r hid hlost hpending hround
      (hcandidates.symm.above habove))
  stray n e hx he hout hnode habove := by
    obtain ⟨he', hkept⟩ := hstray n e he
    exact hcandidates.receiptAt_none (h.stray n e hx he' hout
      (fun row hrow hid => hnode row (hkept row hrow hid) hid) (hcandidates.symm.above habove))
  genuine n e hn he := h.genuine n e hn (hstray n e he).1
  resolved row hrow n hn hid hpromoted := by
    have hsame := hresolved row (hrows hrow) hpromoted
    rw [hid] at hsame
    rw [hsame]
    exact h.resolved row (hrows hrow) n hn hid hpromoted

/-! ## What may go -/

/-- What is under a key stays, unless the key is free to lose it. -/
def Loses {κ α : Type} [DecidableEq κ] (free : κ → Prop) (d d' : Dict κ α) : Prop :=
  ∀ k, Dict.get? d' k = Dict.get? d k ∨ free k ∧ (Dict.get? d k).isSome = true

namespace Loses
variable {κ α : Type} [DecidableEq κ] {free : κ → Prop} {d d' d'' : Dict κ α}

theorem refl : Loses free d d := fun _ => .inl rfl

/-- Keeping is transitive. -/
theorem trans (h : Loses free d d') (h' : Loses free d' d'') : Loses free d d'' := by
  intro k
  rcases h k with hk | hk
  · rcases h' k with hk' | ⟨hfree, hsome⟩
    · exact .inl (hk'.trans hk)
    · exact .inr ⟨hfree, hk ▸ hsome⟩
  · exact .inr hk

theorem mono {free' : κ → Prop} (h : Loses free d d') (hfree : ∀ k, free k → free' k) :
    Loses free' d d' := fun k => (h k).imp_right fun hk => ⟨hfree k hk.1, hk.2⟩

theorem erase {k : κ} (hk : free k) : Loses free d (Dict.erase d k) := by
  intro k'
  rw [get?_erase]
  split
  · rename_i heq
    subst heq
    cases hget : Dict.get? d k with
    | none => exact .inl rfl
    | some v => exact .inr ⟨hk, rfl⟩
  · exact .inl rfl

theorem set {k : κ} {v : α} (hk : free k) (hsome : (Dict.get? d k).isSome = true) :
    Loses free d (Dict.set d k v) := by
  intro k'
  rw [get?_set]
  split
  · rename_i heq
    subst heq
    exact .inr ⟨hk, hsome⟩
  · exact .inl rfl

theorem get?_eq {k : κ} (h : Loses free d d') (hk : ¬ free k) : Dict.get? d' k = Dict.get? d k :=
  (h k).resolve_right fun hfree => hk hfree.1

theorem isSome {k : κ} (h : Loses free d d') (hk : (Dict.get? d' k).isSome = true) :
    (Dict.get? d k).isSome = true := by
  rcases h k with heq | hfree
  · exact heq ▸ hk
  · exact hfree.2

end Loses

/-- The receipt is committed and has nothing left to do. -/
def Settlement.Finished (s : Settlement) : Prop :=
  s.state = .committed ∧ s.index ≠ .pending ∧ s.hook ≠ .pending

/-- `s'` records the facts of `s`; only its progress may have advanced. -/
structure Settlement.Advances (s s' : Settlement) : Prop where
  candidates : s'.candidates = s.candidates
  body : s'.body = s.body
  committed : s.state = .committed → s'.state = .committed
  finished : s.Finished → s' = s

theorem Settlement.Advances.refl (s : Settlement) : s.Advances s := ⟨rfl, rfl, id, fun _ => rfl⟩

theorem Settlement.Advances.trans {s s' s'' : Settlement} (h : s.Advances s')
    (h' : s'.Advances s'') : s.Advances s'' where
  candidates := h'.candidates.trans h.candidates
  body := h'.body.trans h.body
  committed hs := h'.committed (h.committed hs)
  finished hs := by
    have heq := h.finished hs
    exact (h'.finished (heq ▸ hs)).trans heq

/-- The generation belongs to no round with a receipt: no receipt names it, its node is
pending in a round without one, and if it has no node, its experiment was born in such a
round. -/
structure Free (w : World) (id : GenId) : Prop where
  unnamed : ¬ Named w id
  node : ∀ row ∈ w.lineage.rows, row.id = id →
    row.promoted = none ∧ ∀ r, row.roundIndex = some r → w.receiptAt r = none
  experiment : (∀ row ∈ w.lineage.rows, row.id ≠ id) →
    ∀ e, (w.record id).experiment = .written e → w.receiptAt e.roundIndex = none

/-- What a restart may do: advance the progress of receipts, and remove source, records,
tournament snapshots and pending nodes of generations that belong to no round with a
receipt, and the directories of rounds without one. -/
structure Kept (w w' : World) : Prop where
  receipts : ∀ r s, w.receiptAt r = some s → ∃ s', w'.receiptAt r = some s' ∧ s.Advances s'
  noReceipt : ∀ r, w.receiptAt r = none → w'.receiptAt r = none
  logs : ∀ r, (w.receiptAt r).isSome = true → (w'.round r).log = (w.round r).log
  source : Loses (Free w) w.source w'.source
  records : Loses (Free w) w.records w'.records
  written : ∀ id e, (w'.record id).experiment = .written e → (w.record id).experiment = .written e
  tournaments : Loses (Free w) w.tournaments w'.tournaments
  rounds : ∀ r, Dict.get? w.rounds r = none → Dict.get? w'.rounds r = none
  sublist : w'.lineage.rows.Sublist w.lineage.rows
  nodes : ∀ row ∈ w.lineage.rows, row ∉ w'.lineage.rows → Free w row.id

namespace Kept
variable {w w' w'' : World}

theorem sameCandidates (h : Kept w w') : SameCandidates w w' := by
  intro r
  cases hs : w.receiptAt r with
  | none => rw [h.noReceipt r hs]
  | some s =>
    obtain ⟨s', hs', hadv⟩ := h.receipts r s hs
    rw [hs', map_some, map_some, hadv.candidates]

theorem named_iff (h : Kept w w') (id : GenId) : Named w' id ↔ Named w id :=
  ⟨h.sameCandidates.symm.named, h.sameCandidates.named⟩

theorem receiptAt_none (h : Kept w w') {r : Nat} (hr : w'.receiptAt r = none) :
    w.receiptAt r = none := h.sameCandidates.symm.receiptAt_none hr

/-- What belongs to no round with a receipt after a restart did not do so before. -/
theorem free_of_free (h : Kept w w') {id : GenId} (hid : Free w' id) : Free w id := by
  rcases h.records id with hsame | hfree
  · refine ⟨fun hn => hid.unnamed ((h.named_iff id).mpr hn), fun row hrow heq => ?_,
      fun hnode e he => ?_⟩
    · by_cases hrow' : row ∈ w'.lineage.rows
      · obtain ⟨hpending, hround⟩ := hid.node row hrow' heq
        exact ⟨hpending, fun r hr => h.receiptAt_none (hround r hr)⟩
      · exact (h.nodes row hrow hrow').node row hrow rfl
    · refine h.receiptAt_none (hid.experiment (fun row hrow => hnode row (h.sublist.subset hrow))
        e ?_)
      rw [World.record, Dict.getD, hsame]
      exact he
  · exact hfree.1

/-- As long as no node is removed, what was free to go still is. -/
theorem free (h : Kept w w') (hlineage : w'.lineage = w.lineage) {id : GenId}
    (hid : Free w id) : Free w' id where
  unnamed hn := hid.unnamed ((h.named_iff id).mp hn)
  node row hrow heq := by
    rw [hlineage] at hrow
    obtain ⟨hpending, hround⟩ := hid.node row hrow heq
    exact ⟨hpending, fun r hr => h.noReceipt r (hround r hr)⟩
  experiment hnode e he := by
    rw [hlineage] at hnode
    exact h.noReceipt _ (hid.experiment hnode e (h.written id e he))

theorem refl (w : World) : Kept w w where
  receipts _ s hs := ⟨s, hs, .refl s⟩
  noReceipt _ h := h
  logs _ _ := rfl
  source := .refl
  records := .refl
  written _ _ he := he
  tournaments := .refl
  rounds _ h := h
  sublist := Sublist.refl _
  nodes _ hrow hnot := absurd hrow hnot

theorem trans (h : Kept w w') (h' : Kept w' w'') : Kept w w'' where
  receipts r s hs := by
    obtain ⟨s', hs', hadv⟩ := h.receipts r s hs
    obtain ⟨s'', hs'', hadv'⟩ := h'.receipts r s' hs'
    exact ⟨s'', hs'', hadv.trans hadv'⟩
  noReceipt r hr := h'.noReceipt r (h.noReceipt r hr)
  logs r hr := by
    obtain ⟨s, hs⟩ := isSome_iff_exists.mp hr
    obtain ⟨s', hs', -⟩ := h.receipts r s hs
    rw [h'.logs r (by rw [hs']; rfl), h.logs r hr]
  source := h.source.trans (h'.source.mono fun _ => h.free_of_free)
  records := h.records.trans (h'.records.mono fun _ => h.free_of_free)
  written id e he := h.written id e (h'.written id e he)
  tournaments := h.tournaments.trans (h'.tournaments.mono fun _ => h.free_of_free)
  rounds r hr := h'.rounds r (h.rounds r hr)
  sublist := h'.sublist.trans h.sublist
  nodes row hrow hnot := by
    by_cases hrow' : row ∈ w'.lineage.rows
    · exact h.free_of_free (h'.nodes row hrow' hnot)
    · exact h.nodes row hrow hrow'

end Kept

/-- What a restart does to a sound workspace. -/
def Restores (w w' : World) : Prop := Sound w → Kept w w' ∧ Sound w'

theorem Restores.refl (w : World) : Restores w w := fun h => ⟨.refl w, h⟩

theorem Restores.trans (w w' w'' : World) (h : Restores w w') (h' : Restores w' w'') :
    Restores w w'' := by
  intro hw
  obtain ⟨hkept, hw'⟩ := h hw
  obtain ⟨hkept', hw''⟩ := h' hw'
  exact ⟨hkept.trans hkept', hw''⟩

/-! ## One write of a restart -/

section Writes
variable {w : World} {id : GenId} {r : Nat}

theorem receiptAt_putReceipt (s : Settlement) (q : Nat) :
    (w.apply (.putReceipt r s)).receiptAt q = if r = q then some s else w.receiptAt q := by
  rw [World.receiptAt, World.apply, World.round_setRound]
  split <;> rfl

/-- The receipts after a write to round `r` that leaves its receipt as it is. -/
theorem receiptAt_setRound {round : Round} (h : round.receipt = w.receiptAt r) (q : Nat) :
    (w.setRound r round).receiptAt q = w.receiptAt q := by
  rw [World.receiptAt, World.round_setRound]
  split
  · rename_i heq
    rw [h, heq]
  · rfl

/-- An advance of a receipt is a write a restart may make. -/
theorem restores_putReceipt {s s' : Settlement} (hs : w.receiptAt r = some s)
    (hadv : s.Advances s') : Restores w (w.apply (.putReceipt r s')) := by
  intro hw
  have hsame : SameCandidates w (w.apply (.putReceipt r s')) := by
    intro q
    rw [receiptAt_putReceipt]
    split
    · rename_i heq
      rw [← heq, hs, map_some, map_some, hadv.candidates]
    · rfl
  refine ⟨⟨fun q t ht => ?_, fun q hq => ?_, fun q hq => ?_, .refl, .refl, fun _ _ he => he, .refl,
    fun q hq => ?_, Sublist.refl _, fun row hrow hnot => absurd hrow hnot⟩, ?_⟩
  · rw [receiptAt_putReceipt]
    split
    · rename_i heq
      subst heq
      obtain rfl := some.inj (hs.symm.trans ht)
      exact ⟨s', rfl, hadv⟩
    · exact ⟨t, ht, .refl t⟩
  · rw [receiptAt_putReceipt, if_neg, hq]
    rintro rfl
    rw [hs] at hq
    cases hq
  · rw [World.apply, World.round_setRound]
    split
    · rename_i heq
      rw [heq]
    · rfl
  · change Dict.get? (Dict.set w.rounds r _) q = none
    rw [get?_set, if_neg, hq]
    rintro rfl
    simp [World.receiptAt, World.round, Dict.getD, hq] at hs
  · exact hw.mono hsame (Subset.refl _) (fun row hrow _ => hrow) (fun _ _ => rfl)
      (fun _ _ _ => rfl) fun n e he => ⟨he, fun row hrow _ => hrow⟩

/-- A write to the source, the records or the snapshots of a generation that belongs to no
round with a receipt. -/
theorem restores_registers {w' : World} (hrounds : w'.rounds = w.rounds)
    (hlineage : w'.lineage = w.lineage) (hsource : Loses (Free w) w.source w'.source)
    (hrecords : Loses (Free w) w.records w'.records)
    (htournaments : Loses (Free w) w.tournaments w'.tournaments)
    (hwritten : ∀ id e, (w'.record id).experiment = .written e →
      (w.record id).experiment = .written e) : Restores w w' := by
  intro hw
  have hround : ∀ q, w'.round q = w.round q := fun q => by rw [World.round, hrounds, World.round]
  have hreceipt : ∀ q, w'.receiptAt q = w.receiptAt q := fun q => by
    rw [World.receiptAt, hround, World.receiptAt]
  refine ⟨⟨fun q s hs => ⟨s, (hreceipt q).trans hs, .refl s⟩, fun q hq => (hreceipt q).trans hq,
    fun q _ => by rw [hround], hsource, hrecords, hwritten, htournaments,
    fun q hq => by rw [hrounds, hq],
    by rw [hlineage], fun row hrow hnot => absurd (hlineage ▸ hrow) hnot⟩, ?_⟩
  have hrecord : ∀ id, ¬ Free w id → w'.record id = w.record id := fun id hid => by
    rw [World.record, Dict.getD, hrecords.get?_eq hid]
    rfl
  refine hw.mono (fun q => by rw [hreceipt]) (by rw [hlineage]; exact Subset.refl _)
    (fun row hrow _ => hlineage ▸ hrow) (fun id hid => ?_) (fun row hrow hpromoted => ?_)
    fun n e he => ⟨hwritten (.v n) e he, fun row hrow _ => hlineage ▸ hrow⟩
  · rw [hrecord id fun hn => hn.unnamed hid]
  · rw [hrecord row.id fun hn => hpromoted (hn.node row hrow rfl).1]

theorem restores_putSource (tree : String) (hid : Free w id)
    (hsome : w.hasGeneration id = true) : Restores w (w.apply (.putSource id tree)) :=
  restores_registers rfl rfl (.set hid hsome) .refl .refl fun _ _ he => he

theorem restores_dropSource (hid : Free w id) : Restores w (w.apply (.dropSource id)) :=
  restores_registers rfl rfl (.erase hid) .refl .refl fun _ _ he => he

theorem restores_dropTournament (hid : Free w id) : Restores w (w.apply (.dropTournament id)) :=
  restores_registers rfl rfl .refl .refl (.erase hid) fun _ _ he => he

theorem Record.without_written {rec : Record} {part : RecordPart} {e : Experiment}
    (h : (rec.without part).experiment = .written e) : rec.experiment = .written e := by
  cases part with
  | patch =>
    cases hrec : rec.experiment <;> simp_all [Record.without]
  | experiment => cases h
  | losses => exact h

theorem restores_dropPart (part : RecordPart) (hid : Free w id)
    (hsome : w.hasRecord id = true) : Restores w (w.apply (.dropPart id part)) := by
  refine restores_registers rfl rfl .refl (.set hid hsome) .refl fun n e he => ?_
  rw [World.apply, World.record_setRecord] at he
  split at he
  · rename_i heq
    rw [← heq]
    exact Record.without_written he
  · exact he

theorem restores_dropRecord (hid : Free w id) : Restores w (w.apply (.dropRecord id)) := by
  refine restores_registers rfl rfl .refl (.erase hid) .refl fun n e he => ?_
  rw [World.record_dropRecord] at he
  split at he
  · cases he
  · exact he

/-- A write to the directory of a round without a receipt. -/
theorem restores_round {w' : World} (hsource : w'.source = w.source)
    (hrecords : w'.records = w.records) (hlineage : w'.lineage = w.lineage)
    (htournaments : w'.tournaments = w.tournaments) (hr : w.receiptAt r = none)
    (hround : ∀ q, w'.round q = if r = q then w'.round r else w.round q)
    (hreceipt : w'.receiptAt r = none)
    (hrounds : ∀ q, Dict.get? w.rounds q = none → Dict.get? w'.rounds q = none) :
    Restores w w' := by
  intro hw
  have hreceipts : ∀ q, w'.receiptAt q = w.receiptAt q := by
    intro q
    by_cases hq : r = q
    · rw [← hq, hreceipt, hr]
    · rw [World.receiptAt, hround, if_neg hq, World.receiptAt]
  have hrecord : ∀ id, w'.record id = w.record id := fun id => by
    rw [World.record, hrecords, World.record]
  refine ⟨⟨fun q s hs => ⟨s, (hreceipts q).trans hs, .refl s⟩, fun q hq => (hreceipts q).trans hq,
    fun q hq => ?_, hsource ▸ .refl, hrecords ▸ .refl, fun id e he => by rwa [hrecord] at he,
    htournaments ▸ .refl, hrounds, by rw [hlineage],
    fun row hrow hnot => absurd (hlineage ▸ hrow) hnot⟩, ?_⟩
  · rw [hround, if_neg]
    rintro rfl
    rw [hr] at hq
    cases hq
  · exact hw.mono (fun q => by rw [hreceipts]) (by rw [hlineage]; exact Subset.refl _)
      (fun row hrow _ => hlineage ▸ hrow) (fun id _ => by rw [hrecord])
      (fun row _ _ => by rw [hrecord])
      fun n e he => ⟨by rwa [hrecord] at he, fun row hrow _ => hlineage ▸ hrow⟩

theorem restores_setRound {round : Round} (hr : w.receiptAt r = none)
    (hreceipt : round.receipt = none) (hsome : (Dict.get? w.rounds r).isSome = true) :
    Restores w (w.setRound r round) := by
  refine restores_round rfl rfl rfl rfl hr (fun q => ?_) ?_ fun q hq => ?_
  · rw [World.round_setRound, World.round_setRound, if_pos rfl]
  · rw [World.receiptAt, World.round_setRound, if_pos rfl, hreceipt]
  · change Dict.get? (Dict.set w.rounds r round) q = none
    rw [get?_set, if_neg, hq]
    rintro rfl
    rw [hq] at hsome
    cases hsome

theorem restores_dropRound (hr : w.receiptAt r = none) : Restores w (w.apply (.dropRound r)) := by
  refine restores_round rfl rfl rfl rfl hr (fun q => ?_) ?_ fun q hq => ?_
  · rw [World.round_dropRound, World.round_dropRound, if_pos rfl]
  · rw [World.receiptAt, World.round_dropRound, if_pos rfl]
  · change Dict.get? (Dict.erase w.rounds r) q = none
    rw [get?_erase]
    split
    · rfl
    · exact hq

/-- Nodes go once their records are gone. -/
theorem restores_putLineage {ids : List GenId} (hfree : ∀ id ∈ ids, Free w id) (hgone : ∀ id ∈ ids, w.hasRecord id = false) :
    Restores w (w.apply (.putLineage (w.lineage.without ids))) := by
  intro hw
  refine ⟨⟨fun _ s hs => ⟨s, hs, .refl s⟩, fun _ hr => hr, fun _ _ => rfl, .refl, .refl,
    fun _ _ he => he, .refl, fun _ hr => hr, filter_sublist, fun row hrow hnot => ?_⟩, ?_⟩
  · have hid : row.id ∈ ids := by
      by_contra hid
      exact hnot (mem_filter.mpr ⟨hrow, by simpa using hid⟩)
    exact hfree _ hid
  · have hstays : ∀ row ∈ w.lineage.rows, row.id ∉ ids →
        row ∈ (w.lineage.without ids).rows := fun row hrow hid =>
      mem_filter.mpr ⟨hrow, by simpa using hid⟩
    refine hw.mono (fun _ => rfl) filter_sublist.subset
      (fun row hrow hn => hstays row hrow fun hid => (hfree _ hid).unnamed hn) (fun _ _ => rfl)
      (fun _ _ _ => rfl) fun n e he => ⟨he, fun row hrow hid => hstays row hrow fun hmem => ?_⟩
    have hsome := World.hasRecord_of_written he
    have hnone : w.hasRecord (.v n) = false := hgone _ (hid ▸ hmem)
    change w.hasRecord (.v n) = true at hsome
    rw [hnone] at hsome
    cases hsome

end Writes

end Zicato.Resume
