import Zicato.EvolveSafety

/-! # Crashes and restarts of an epoch

Every step of a process keeps its workspace sound wherever it is cut, with two
exceptions.  Between the experiment of an exhausted proposer and its outcome, the
experiment names round 0; and a placebo arm whose mint failed after its pending node
leaves that node in a round which is then settled.  A process that stops there hands
the directory of a settled round to the restarts after it. -/
open List
namespace Zicato.Resume
open Receipt (ReceiptState HookState IndexState)
open Proc

variable {cfg : Config} {host : Host} {w w' : World} {lost : List Nat}

/-! ## The steps of a field -/

section Field
variable {at_ : Coordinates} {base m : Nat} {mine : List Nat}

/-- A challenger is entered: source, pending node, experiment. -/
theorem mintPlaceboChallenger_field (hw : InField lost w at_.round base mine) (hm : base ≤ m)
    (p : Proposal) :
    Ensures (Stays lost) (mintPlaceboChallenger cfg host at_ (.v m) p) w fun _ w' =>
      InField lost w' at_.round base (mine ++ [m]) ∧ Filed w' at_.round ⟨m, p.experimentId⟩ ∧
        ∀ a, a.number ≠ m → Filed w at_.round a → Filed w' at_.round a := by
  have hnode : ∀ d, Calm w d → InField lost
      (d.apply (.putLineage (d.lineage.upsert (p.row at_ (.v m) none)))) at_.round base
      (mine ++ [m]) := fun d hd =>
    InField.upsertPending (p.row at_ (.v m) none) (hd.inField hw) hm rfl rfl rfl
  refine mintPlaceboChallenger_ensures Stays.lenient (fun d hd _ => (hnode d hd).sound)
    fun d d' hd hcalm => ?_
  have hrow : p.row at_ (.v m) none ∈ d'.lineage.rows := by
    rw [hcalm.lineage]
    exact mem_upsertRows.mpr (.inl rfl)
  have hput := (hcalm.inField (hnode d hd)).putExperiment (e := p.experiment at_ (.v m)) hm rfl
    (.inr ⟨_, hrow, rfl, rfl⟩)
  refine ⟨fun _ => hput.sound, hput, ⟨⟨_, hrow, rfl, rfl, rfl⟩, ?_⟩, fun a hne ha => ?_⟩
  · refine ⟨p.experiment at_ (.v m), ?_, rfl, rfl, rfl, rfl⟩
    rw [record_putExperiment, if_pos rfl]
  · have hkept : Filed (d.apply (.putLineage (d.lineage.upsert (p.row at_ (.v m) none))))
        at_.round a := (hd.filed ha).upsert fun heq => hne (GenId.v.inj heq).symm
    exact (hcalm.filed hkept).putExperiment fun heq => hne (GenId.v.inj heq).symm

theorem applyChallenger_field (hw : InField lost w at_.round base mine) (hm : base ≤ m)
    (p : Proposal) :
    Ensures (Stays lost) (applyChallenger cfg host at_ (.v m) p) w fun _ w' =>
      InField lost w' at_.round base (mine ++ [m]) ∧ Filed w' at_.round ⟨m, p.experimentId⟩ ∧
        ∀ a, a.number ≠ m → Filed w at_.round a → Filed w' at_.round a := by
  refine ensures_bind Preserves.trans (mintPlaceboChallenger_field hw hm p) fun _ h => ?_
  refine (write_calm Stays.lenient (.touchRecord (.v m))).mono (fun _ h => h) fun _ hcalm => ?_
  exact ⟨hcalm.inField h.1, hcalm.filed h.2.1, fun a hne ha => hcalm.filed (h.2.2 a hne ha)⟩

/-- A placebo arm that is left out leaves the field as it was, wherever its mint fails. -/
theorem mintPlaceboChallenger_fails (cfg : Config) (host : Host) {applied : List Applied}
    (hm : base ≤ m) (hlost : m ∈ lost) (happlied : ∀ a ∈ applied, a.number ≠ m) (k : Nat)
    (p : Proposal) :
    Ensures (Preserves fun d => InField lost d at_.round base mine ∧
        ∀ a ∈ applied, Filed d at_.round a)
      (bestEffort k (mintPlaceboChallenger cfg host at_ (.v m) p)) w fun _ w' =>
        (InField lost w at_.round base mine ∧ ∀ a ∈ applied, Filed w at_.round a) →
          InField lost w' at_.round base mine ∧ ∀ a ∈ applied, Filed w' at_.round a := by
  refine ensures_bestEffort k (mintPlaceboChallenger_ensures (Q := fun _ => True)
    (Preserves.lenient fun hcalm hd => ⟨hcalm.inField hd.1, fun a ha => hcalm.filed (hd.2 a ha)⟩)
    (fun d _ hd => ?_) fun d d' _ hcalm => ⟨fun hd => ?_, trivial⟩).keeps
  · have hnode := InField.upsertPending (p.row at_ (.v m) none) hd.1 hm rfl rfl rfl
    exact ⟨hnode.drop hlost, fun a ha => (hd.2 a ha).upsert
      fun heq => happlied a ha (GenId.v.inj heq).symm⟩
  · have hrow : p.row at_ (.v m) none ∈ d'.lineage.rows := by
      rw [hcalm.lineage]
      exact mem_upsertRows.mpr (.inl rfl)
    exact ⟨hd.1.putExperiment hm rfl (.inr ⟨_, hrow, rfl, rfl⟩), fun a ha =>
      (hd.2 a ha).putExperiment fun heq => happlied a ha (GenId.v.inj heq).symm⟩

/-- A challenger that repeats a sibling gets its outcome, then its node is resolved. -/
theorem persistSoftReject_field (hw : InField lost w at_.round base (mine ++ [m])) (hm : base ≤ m)
    (p : Proposal) :
    Ensures (Stays lost) (persistSoftReject at_ (.v m) p) w fun _ w' =>
      InField lost w' at_.round base mine ∧
        ∀ a, a.number ≠ m → Filed w at_.round a → Filed w' at_.round a := by
  refine ensures_bind Preserves.trans (updateExperimentOutcome_ensures Stays.lenient
    (Q := fun d => InField lost d at_.round base (mine ++ [m]) ∧
      (∃ e, (d.record (.v m)).experiment = .written e ∧ e.outcome ≠ none) ∧
      ∀ a, a.number ≠ m → Filed w at_.round a → Filed d at_.round a)
    fun existing d hexisting hcalm => ?_) fun _ h => ?_
  · obtain ⟨stored, -, hid, outcome, rfl⟩ := readExperiment_written hexisting
    have hput := (hcalm.inField hw).putExperiment (e := { stored with outcome := some .rejected })
      hm hid (.inl (by simp))
    refine ⟨fun _ => hput.sound, hput, ⟨{ stored with outcome := some .rejected }, ?_, by simp⟩,
      fun a hne ha => ?_⟩
    · rw [record_putExperiment, if_pos rfl]
    · exact (hcalm.filed ha).putExperiment fun heq => hne (GenId.v.inj heq).symm
  · obtain ⟨hfield, ⟨e, he, hout⟩, hothers⟩ := h
    have hnode := InField.upsertResolved (p.row at_ (.v m) (some false)) hfield hm rfl
      (by simp [Proposal.row]) he hout
    refine appendToLineage_ensures Stays.lenient (fun _ => hnode.sound)
      ⟨hnode, fun a hne ha => ?_⟩
    exact (hothers a hne ha).upsert fun heq => hne (GenId.v.inj heq).symm

end Field

/-- No round from `r` on has a receipt, and nothing that is left over lies in a round that
does. -/
structure Rested (lost : List Nat) (w : World) (r : Nat) : Prop where
  sound : SoundBut none lost w
  below : ReceiptsBelow w r
  homed : Homed lost w

theorem Rested.mono {r r' : Nat} (h : Rested lost w r) (hr : r ≤ r') : Rested lost w r' :=
  ⟨h.sound, h.below.mono hr, h.homed⟩

theorem Calm.rested {r : Nat} (hcalm : Calm w w') (h : Rested lost w r) : Rested lost w' r :=
  ⟨hcalm.soundBut h.sound, h.below.sameCandidates hcalm.sameCandidates, hcalm.homed h.homed⟩

theorem Advanced.rested {r : Nat} (hadv : Advanced w w') (h : Rested lost w r) :
    Rested lost w' r :=
  ⟨hadv.soundBut h.sound, h.below.sameCandidates hadv.candidates, hadv.homed h.homed⟩

/-! ## The settlement of a field -/

section Settle
variable {r base : Nat} {applied : List Applied} {s : Settlement}

theorem Settlement.Settles.candidate (h : s.Settles applied) {c : Candidate}
    (hc : c ∈ s.candidates) :
    ∃ a ∈ applied, c.generationId = .v a.number ∧ c.experimentId = a.experimentId := by
  have hmem : (c.generationId, c.experimentId) ∈
      applied.map fun a => (GenId.v a.number, a.experimentId) := by
    rw [← h.1]
    exact mem_map.mpr ⟨c, hc, rfl⟩
  obtain ⟨a, ha, heq⟩ := mem_map.mp hmem
  obtain ⟨hgen, hexp⟩ := Prod.mk.inj heq
  exact ⟨a, ha, hgen.symm, hexp.symm⟩

theorem Settlement.Settles.named (h : s.Settles applied) {a : Applied} (ha : a ∈ applied) :
    ∃ c ∈ s.candidates, c.generationId = .v a.number := by
  have hmem : (GenId.v a.number, a.experimentId) ∈
      s.candidates.map fun c => (c.generationId, c.experimentId) := by
    rw [h.1]
    exact mem_map.mpr ⟨a, ha, rfl⟩
  obtain ⟨c, hc, heq⟩ := mem_map.mp hmem
  exact ⟨c, hc, (Prod.mk.inj heq).1⟩

section
variable (hw : InField lost w r base (applied.map Applied.number)) (hnonempty : applied ≠ [])
  (happlied : ∀ a ∈ applied, base ≤ a.number ∧ Filed w r a) (hs : s.Settles applied)
include hw hnonempty happlied hs

/-- Once the receipt of a field is there, nothing that is left over lies above its
candidates. -/
theorem InField.putReceipt : Rested lost (w.apply (.putReceipt r s)) (r + 1) := by
  have hnone : w.receiptAt r = none := hw.below.none
  have hold : ∀ q t, w.receiptAt q = some t → (w.apply (.putReceipt r s)).receiptAt q = some t := by
    intro q t ht
    rw [receiptAt_putReceipt, if_neg, ht]
    rintro rfl
    rw [hnone] at ht
    cases ht
  have hnew : (w.apply (.putReceipt r s)).receiptAt r = some s :=
    (receiptAt_putReceipt s r).trans (if_pos rfl)
  have habove : ∀ n, Above (w.apply (.putReceipt r s)) n → Above w n := by
    rintro n hn m ⟨q, t, ht, c, hc, hid⟩
    exact hn m ⟨q, t, hold q t ht, c, hc, hid⟩
  have hmine : ∀ n, Above (w.apply (.putReceipt r s)) n → ∀ a ∈ applied, a.number < n := by
    intro n hn a ha
    obtain ⟨c, hc, hid⟩ := hs.named ha
    exact hn a.number ⟨r, s, hnew, c, hc, hid⟩
  obtain ⟨first, hfirst⟩ := exists_mem_of_ne_nil applied hnonempty
  have hbase : ∀ n, Above (w.apply (.putReceipt r s)) n → base < n := fun n hn =>
    (happlied first hfirst).1.trans_lt (hmine n hn first hfirst)
  -- a pending node above all candidates would be one of the field
  have hvoid : ∀ row ∈ w.lineage.rows, ∀ n, row.id = .v n → n ∉ lost → row.promoted = none →
      ¬ Above (w.apply (.putReceipt r s)) n := by
    intro row hrow n hid hlost hpending hn
    rcases hw.pending row hrow n hid hlost hpending (habove n hn) with hle | hmem
    · exact absurd (hbase n hn) (by omega)
    · obtain ⟨a, ha, rfl⟩ := mem_map.mp hmem
      exact lt_irrefl _ (hmine _ hn a ha)
  refine ⟨⟨fun q t ht => ?_, fun q t ht c hc => ?_, fun row hrow n q hid hlost hpending _ hn => ?_,
    fun n e _ he hout hnode hn => ?_, hw.sound.genuine, hw.sound.resolved⟩, fun q hq => ?_,
    fun row hrow n hid hlost hpending hn => ?_⟩
  · rw [receiptAt_putReceipt] at ht
    split at ht
    · obtain rfl := Option.some.inj ht
      obtain ⟨c, hc, -⟩ := hs.named hfirst
      exact ne_nil_of_mem hc
    · exact hw.sound.nonempty q t ht
  · rw [receiptAt_putReceipt] at ht
    split at ht
    · rename_i hq
      subst hq
      obtain rfl := Option.some.inj ht
      obtain ⟨a, ha, hgen, hexp⟩ := hs.candidate hc
      obtain ⟨row, hrow, hid, -, hround⟩ := (happlied a ha).2.node
      obtain ⟨e, he, hgid, heid, hrest⟩ := (happlied a ha).2.experiment
      refine ⟨⟨a.number, hgen⟩, ⟨row, hrow, hid.trans hgen.symm, hround⟩, ?_⟩
      rw [hgen, hexp]
      exact ⟨e, he, hgid, heid, hrest⟩
    · have hentered := hw.sound.entered q t ht c hc
      exact ⟨hentered.numbered, hentered.node, hentered.experiment⟩
  · exact absurd hn (hvoid row hrow n hid hlost hpending)
  · exact absurd (hbase n hn) (by have := hw.strays n e he hout hnode; omega)
  · rw [receiptAt_putReceipt] at hq
    split at hq
    · omega
    · have := hw.below q hq
      omega
  · exact absurd hn (hvoid row hrow n hid hlost hpending)

/-- A settlement leaves its round at rest. -/
theorem commitFieldSettlement_ensures :
    Ensures (Stays lost) (commitFieldSettlement host r s) w fun _ w' => Rested lost w' (r + 1) := by
  have hrested := hw.putReceipt hnonempty happlied hs
  refine ensures_look .refl fun _ _ => ?_
  refine ensures_look .refl fun found hfound => ?_
  have hget := Except.ok.inj hfound
  cases found with
  | some existing =>
    rw [hw.below.none] at hget
    cases hget
  | none =>
    refine ensures_bind Preserves.trans (Q := fun _ d => d = w.apply (.putReceipt r s))
      (ensures_write .refl (fun _ => hrested.sound) rfl) fun _ hd => ?_
    rw [hd]
    have hreceipt : (w.apply (.putReceipt r s)).receiptAt r = some s :=
      (receiptAt_putReceipt s r).trans (if_pos rfl)
    exact (replayFieldSettlement_advances host hreceipt).mono (fun _ h => h) fun _ h =>
      h.rested hrested

end

end Settle

/-! ## The opening of a round -/

section Open

/-- A recorded number is below the next one. -/
theorem World.lt_nextNumber {m : Nat} (h : w.hasRecord (.v m) = true) : m < w.nextNumber := by
  unfold World.nextNumber
  cases hlatest : w.latest with
  | none =>
    have hnil := max?_eq_none_iff.mp hlatest
    have hmem : m ∈ w.records.keys.filterMap GenId.number :=
      mem_filterMap.mpr ⟨.v m, (Dict.mem_keys_iff _ _).mpr h, rfl⟩
    rw [hnil] at hmem
    cases hmem
  | some n =>
    have := (World.latest_eq_some hlatest).2 m h
    dsimp only
    omega

/-- A process between rounds. -/
structure Waiting (lost : List Nat) (w : World) (r : Nat) (plan : Option (Nat × Experiment)) : Prop
    extends Rested lost w r where
  resumed : ∀ n e, plan = some (n, e) → w.latest = some n ∧ Above w n ∧
    ∀ row ∈ w.lineage.rows, row.id = .v n → row.promoted = none

theorem Rested.waiting {r : Nat} (h : Rested lost w r) : Waiting lost w r none :=
  { h with resumed := fun _ _ hplan => by cases hplan }

variable {plan : Option (Nat × Experiment)}

/-- A field starts above all candidates, and no record lies above its base. -/
theorem Waiting.inField {r : Nat} (h : Waiting lost w r plan) :
    InField lost w r (w.fieldBase cfg plan) [] := by
  have hbase : Above w (w.fieldBase cfg plan) ∧
      ∀ m, w.hasRecord (.v m) = true → m ≤ w.fieldBase cfg plan := by
    have hnext : Above w w.nextNumber ∧ ∀ m, w.hasRecord (.v m) = true → m ≤ w.nextNumber :=
      ⟨fun m hm => World.lt_nextNumber (h.sound.named_hasRecord hm),
        fun m hm => (World.lt_nextNumber hm).le⟩
    unfold World.fieldBase
    split
    · rename_i n e
      obtain ⟨hlatest, habove, -⟩ := h.resumed n e rfl
      split
      · exact ⟨habove, (World.latest_eq_some hlatest).2⟩
      · exact hnext
    · exact hnext
  refine ⟨h.sound, h.below, hbase.1, fun row hrow m hid hlost hnone habove => .inl ?_,
    fun n e he _ _ => hbase.2 n (World.hasRecord_of_written he)⟩
  have hrecord := h.homed row hrow m hid hlost hnone habove
  exact ⟨hbase.2 m hrecord, hrecord⟩

/-- The base of a field is new, or that of a generation whose node is pending. -/
theorem Waiting.unresolved {r : Nat} (h : Waiting lost w r plan) :
    Unresolved w (w.fieldBase cfg plan) := by
  have hnext : Unresolved w w.nextNumber := by
    intro hn row hrow hid
    by_contra hpromoted
    obtain ⟨e, he, -⟩ := h.sound.resolved row hrow _ hn hid hpromoted
    exact lt_irrefl _ (World.lt_nextNumber (World.hasRecord_of_written he))
  unfold World.fieldBase
  split
  · rename_i n e
    split
    · exact fun _ => (h.resumed n e rfl).2.2
    · exact hnext
  · exact hnext

theorem Waiting.calm {r : Nat} (h : Waiting lost w r plan) (hcalm : Calm w w')
    (hrecords : w'.records = w.records) : Waiting lost w' r plan where
  toRested := hcalm.rested h.toRested
  resumed n e hplan := by
    obtain ⟨hlatest, habove, hnode⟩ := h.resumed n e hplan
    refine ⟨?_, (hcalm.above_iff n).mpr habove, hcalm.lineage ▸ hnode⟩
    rw [World.latest, hrecords]
    exact hlatest

theorem Waiting.advanced {r : Nat} (h : Waiting lost w r plan) (hadv : Advanced w w') :
    Waiting lost w' r plan where
  toRested := hadv.rested h.toRested
  resumed n e hplan := by
    obtain ⟨hlatest, habove, hnode⟩ := h.resumed n e hplan
    exact ⟨hadv.latest.trans hlatest, hadv.candidates.above habove, hadv.lineage ▸ hnode⟩

/-- The next round lies above that of every experiment of a generation with a parent. -/
theorem World.lt_epochRoundBase {id : GenId} {e : Experiment} (h : w.readExperiment id = .ok e)
    (hrecord : w.hasRecord id = true) (hparent : e.parentId.isSome = true) :
    e.roundIndex < w.epochRoundBase := by
  have hkey : id ∈ w.records.keys := (Dict.mem_keys_iff _ _).mpr hrecord
  have hmem : e ∈ (w.records.keys.filterMap fun id => (w.readExperiment id).toOption).filter
      fun e => e.parentId.isSome :=
    mem_filter.mpr ⟨mem_filterMap.mpr ⟨_, hkey, by rw [h]; rfl⟩, hparent⟩
  have hle : ∀ (es : List Experiment) (best : Nat), best ≤
      es.foldl (fun best e => max best (e.roundIndex + 1)) best ∧ ∀ e ∈ es, e.roundIndex + 1 ≤
      es.foldl (fun best e => max best (e.roundIndex + 1)) best := by
    intro es
    induction es with
    | nil => exact fun best => ⟨le_refl best, fun e he => by cases he⟩
    | cons a es ih =>
      intro best
      obtain ⟨hbest, hmem⟩ := ih (max best (a.roundIndex + 1))
      rw [foldl_cons]
      refine ⟨(le_max_left _ _).trans hbest, fun e he => ?_⟩
      rcases mem_cons.mp he with rfl | he
      · exact (le_max_right _ _).trans hbest
      · exact hmem e he
  exact (hle _ 0).2 e hmem

/-- An experiment that is on disk reads. -/
theorem readExperiment_of_written {x : Option Nat} {id : GenId} {e : Experiment}
    (hw : SoundBut x lost w) (he : (w.record id).experiment = .written e)
    (hid : e.generationId = id) :
    ∃ e', w.readExperiment id = .ok e' ∧ e'.parentId = e.parentId ∧
      e'.roundIndex = e.roundIndex := by
  by_cases hn : Named w id
  · unfold World.readExperiment
    rw [he]
    simp only [hid, beq_self_eq_true, require, if_true, ok_bind]
    cases hreceipt : w.receiptAt e.roundIndex with
    | none => exact ⟨e, rfl, rfl, rfl⟩
    | some t =>
      dsimp only
      split
      · cases hfind : t.candidates.find? fun c => c.generationId = id with
        | none => exact ⟨e, rfl, rfl, rfl⟩
        | some c =>
          -- the candidate names this experiment
          have hgen : c.generationId = id := by simpa using find?_some hfind
          obtain ⟨e', he', -, hexp, -⟩ :=
            (hw.entered _ t hreceipt c (mem_of_find?_eq_some hfind)).experiment
          rw [hgen, he] at he'
          obtain rfl := ExperimentFile.written.inj he'
          simp only [hexp, beq_self_eq_true, if_true, ok_bind]
          exact ⟨_, rfl, rfl, rfl⟩
      · exact ⟨e, rfl, rfl, rfl⟩
  · exact ⟨e, readExperiment_unnamed hn he hid, rfl, rfl⟩

/-- The round after the last one with a receipt has none. -/
theorem epochRoundBase_below {x : Option Nat} (hw : SoundBut x lost w) :
    ReceiptsBelow w w.epochRoundBase := by
  intro r hr
  obtain ⟨s, hs⟩ := Option.isSome_iff_exists.mp hr
  obtain ⟨c, hc⟩ := exists_mem_of_ne_nil _ (hw.nonempty r s hs)
  obtain ⟨stored, hstored, hid, -, hround, hparent⟩ := (hw.entered r s hs c hc).experiment
  obtain ⟨e, he, hsame, hround'⟩ := readExperiment_of_written hw hstored hid
  rw [← hround, ← hround']
  exact World.lt_epochRoundBase he (World.hasRecord_of_written hstored) (hsame ▸ hparent)

end Open

/-! ## Processes -/

/-- What is known of the workspace of a running process. -/
def Process.Fits (w : World) (s : Process) : Prop :=
  match s.phase with
  | .between plan => Waiting s.lost w s.at_.round plan
  | .proposing base offset applied =>
      InField s.lost w s.at_.round base (applied.map Applied.number) ∧
        (∀ a ∈ applied, base ≤ a.number ∧ a.number < base + offset ∧ Filed w s.at_.round a) ∧
        (applied = [] → Unresolved w base)
  | .rejecting n => SoundBut (some n) s.lost w ∧ ReceiptsBelow w s.at_.round ∧
      Homed s.lost w ∧ Above w n ∧ ∃ parent, (w.record (.v n)).experiment =
        .written (rejectedProposerExperiment parent (.v n))
  | .contesting base applied => applied ≠ [] ∧
      InField s.lost w s.at_.round base (applied.map Applied.number) ∧
        ∀ a ∈ applied, base ≤ a.number ∧ Filed w s.at_.round a
  | .deferred => SoundBut none s.lost w ∧ ReceiptsBelow w s.at_.round
  | .settled _ => Rested s.lost w (s.at_.round + 1)

/-- What a process does not leave behind when it stops, and does not hand to the
reconciliation of a deferred round. -/
structure Careful (w : World) (s : Process) : Prop where
  /-- The experiment of an exhausted proposer has its outcome, or round 0, which it names,
  has no receipt; a generation that kept its pending node is discarded with the round of
  the node. -/
  rejected : ∀ n e, s.phase = .rejecting n → (w.record (.v n)).experiment = .written e →
    e.outcome = none → w.receiptAt 0 = none ∨
      ∃ row ∈ w.lineage.rows, row.id = .v n ∧ row.promoted = none
  /-- No node of a placebo arm whose mint failed is pending in a round that has been settled,
  with a number above those of all settled candidates. -/
  lost : ∀ n ∈ s.lost, ∀ row ∈ w.lineage.rows, row.id = .v n → row.promoted = none →
    ∀ r, row.roundIndex = some r → Above w n → w.receiptAt r = none

theorem Careful.sound {s : Process} (h : Careful w s) (hw : SoundBut none s.lost w) : Sound w where
  nonempty := hw.nonempty
  entered := hw.entered
  pending row hrow n r hid _ hnone hround habove := by
    by_cases hn : n ∈ s.lost
    · exact h.lost n hn row hrow hid hnone r hround habove
    · exact hw.pending row hrow n r hid hn hnone hround habove
  stray := hw.stray
  genuine := hw.genuine
  resolved := hw.resolved

/-- What holds of a process that is not between the two writes of a rejection. -/
theorem Fits.sound {s : Process} (h : s.Fits w) (hphase : ∀ n, s.phase ≠ .rejecting n) :
    SoundBut none s.lost w := by
  unfold Process.Fits at h
  split at h
  · exact h.sound
  · exact h.1.sound
  · rename_i n hn
    exact absurd hn (hphase n)
  · exact h.2.1.sound
  · exact h.1
  · exact h.sound

/-- A stop before the next write leaves a sound workspace. -/
theorem Process.Fits.stops {s : Process} (h : s.Fits w) (hstop : Careful w s) : Sound w := by
  refine hstop.sound ?_
  by_cases hphase : ∃ n, s.phase = .rejecting n
  · obtain ⟨n, hphase⟩ := hphase
    simp only [Process.Fits, hphase] at h
    obtain ⟨hsound, -, -, -, parent, he⟩ := h
    refine { hsound with stray := fun m e' _ he' hout hnode habove => ?_ }
    by_cases hm : m = n
    · subst hm
      have hzero := hstop.rejected m e' hphase he' hout
      rw [he] at he'
      obtain rfl := ExperimentFile.written.inj he'
      rcases hzero with hnone | ⟨row, hrow, hid, hpending⟩
      · exact hnone
      · exact absurd hpending (hnode row hrow hid)
    · exact hsound.stray m e' (fun heq => hm (Option.some.inj heq)) he' hout hnode habove
  · exact Fits.sound h fun n hn => hphase ⟨n, hn⟩

/-- A step leaves a sound workspace where it is cut, up to the placebo arms that are left
out, and a fitting one when it is done. -/
structure Sequel (s : Process) (p : Step Process) (w : World) : Prop where
  cut : ∀ k, 0 < k → k < (p w).writes.length ∨
      k = (p w).writes.length ∧ (∃ e, (p w).result = .error e) →
    SoundBut none s.lost (((p w).writes.take k).foldl World.apply w)
  done : ∀ s', (p w).result = .ok s' → s'.Fits (p.after w)

theorem sequel_of_ensures {s : Process} {p : Step Process} (hw : SoundBut none s.lost w)
    (h : Ensures (Stays s.lost) p w fun s' w' => s'.Fits w') : Sequel s p w :=
  ⟨fun k _ _ => h.keeps k hw, h.post⟩

/-- The same for a step that keeps more than soundness. -/
theorem sequel_of_preserves {s : Process} {p : Step Process} {I : World → Prop} (hw : I w)
    (hI : ∀ d, I d → SoundBut none s.lost d)
    (h : Ensures (Preserves I) p w fun s' w' => s'.Fits w') : Sequel s p w :=
  ⟨fun k _ _ => hI _ (h.keeps k hw), h.post⟩

section Steps
variable {s : Process}

/-- A calm write of a process that then goes on in another phase. -/
theorem calmStep {p : Step Unit} {s' : Process}
    (hp : Ensures (Stays lost) p w fun _ w' => Calm w w') (h : ∀ w', Calm w w' → s'.Fits w') :
    Ensures (Stays lost) (do
      p
      pure s') w fun s' w' => s'.Fits w' :=
  ensures_bind Preserves.trans hp fun _ hcalm => ensures_pure .refl (h _ hcalm)

/-- A write that disturbs nothing keeps the process in step. -/
theorem Fits.calm (hcalm : Calm w w') (hphase : s.phase.inRound = true) (h : s.Fits w) :
    s.Fits w' := by
  unfold Process.Fits at h ⊢
  cases hs : s.phase with
  | between plan | rejecting n | deferred => simp [hs, Phase.inRound] at hphase
  | proposing base offset applied =>
    rw [hs] at h
    refine ⟨hcalm.inField h.1, fun a ha => ?_, fun hnil => ?_⟩
    · obtain ⟨hbase, hbound, hfiled⟩ := h.2.1 a ha
      exact ⟨hbase, hbound, hcalm.filed hfiled⟩
    · exact hcalm.unresolved (h.2.2 hnil)
  | contesting base applied =>
    rw [hs] at h
    refine ⟨h.1, hcalm.inField h.2.1, fun a ha => ?_⟩
    obtain ⟨hbase, hfiled⟩ := h.2.2 a ha
    exact ⟨hbase, hcalm.filed hfiled⟩
  | settled base =>
    rw [hs] at h
    exact hcalm.rested h

/-- A challenger joins its field. -/
theorem applies_field {base offset : Nat} {applied : List Applied} {r : Nat}
    (happlied : ∀ a ∈ applied, base ≤ a.number ∧ a.number < base + offset ∧ Filed w r a)
    {id : String} (hnew : Filed w' r ⟨base + offset, id⟩)
    (hothers : ∀ a, a.number ≠ base + offset → Filed w r a → Filed w' r a) :
    ∀ a ∈ applied ++ [⟨base + offset, id⟩],
      base ≤ a.number ∧ a.number < base + (offset + 1) ∧ Filed w' r a := by
  intro a ha
  rcases mem_append.mp ha with ha | ha
  · obtain ⟨hbase, hbound, hfiled⟩ := happlied a ha
    exact ⟨hbase, by omega, hothers a (by omega) hfiled⟩
  · obtain rfl := mem_singleton.mp ha
    exact ⟨by simp, by simp, hnew⟩

theorem not_named_placebo {x : Option Nat} (hw : SoundBut x lost w) (n : Nat) :
    ¬ Named w (.placebo n) := by
  rintro ⟨r, t, ht, c, hc, hid⟩
  obtain ⟨m, hm⟩ := (hw.entered r t ht c hc).numbered
  rw [hid] at hm
  cases hm

end Steps

end Zicato.Resume
