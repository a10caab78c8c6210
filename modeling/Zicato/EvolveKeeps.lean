import Zicato.EvolveRuns

/-! # What an epoch keeps

One lemma for the steps of a process, one for a run, and what a restart of any
state of an epoch then keeps: every round with a receipt, every generation that
belongs to one, and every resolved node. -/
open Except
namespace Zicato.Resume
open Receipt (ReceiptState HookState IndexState)
open Proc

variable {cfg : Config} {host : Host} {w w' : World} {s : Process} {lost : List Nat}

/-! ## An exhausted proposer -/

section Rejected
variable {n : Nat}

/-- The outcome of the rejected experiment closes the exception. -/
theorem SoundBut.closes (h : SoundBut (some n) lost w)
    (hout : ∀ e, (w.record (.v n)).experiment = .written e → e.outcome ≠ none) :
    SoundBut none lost w :=
  { h with
    stray := fun m e _ he hnone hnode habove => by
      by_cases hm : m = n
      · subst hm
        exact absurd hnone (hout e he)
      · exact h.stray m e (fun heq => hm (Option.some.inj heq)) he hnone hnode habove }

variable {id : GenId} {e : Experiment}

theorem Homed.putExperiment (h : Homed lost w) : Homed lost (w.apply (.putExperiment id e)) := by
  intro row hrow m hid hlost hnone habove
  rw [hasRecord_putExperiment, h row hrow m hid hlost hnone habove, Bool.or_true]

/-- A field in which no challenger stands leaves only nodes that have a record. -/
theorem InField.homed {r base : Nat} (h : InField lost w r base []) : Homed lost w := by
  intro row hrow m hid hlost hnone habove
  rcases h.pending row hrow m hid hlost hnone habove with hm | hm
  · exact hm.2
  · cases hm

/-- What follows an exhausted proposer. -/
theorem exhausted_sequel {base offset : Nat} (hphase : s.phase = .proposing base offset [])
    (h : s.Fits w) :
    Sequel s (do
      writeExperiment (.v base) (rejectedProposerExperiment s.at_.parent (.v base))
      pure (s.enters (.rejecting base))) w := by
  simp only [Process.Fits, hphase] at h
  obtain ⟨hfield, -, hnode⟩ := h
  refine ⟨fun k hk hcut => ?_, fun s' hs' => ?_⟩
  · -- there is one write, and it cannot be cut
    rcases hcut with hlt | ⟨-, e, he⟩
    · exact absurd hlt (Nat.not_lt_of_ge hk)
    · cases he
  · obtain rfl := ok.inj hs'
    have hsome : SoundBut (some base) s.lost w :=
      { hfield.sound with stray := fun m e _ => hfield.sound.stray m e (by simp) }
    refine ⟨hsome.putExperiment (hfield.free le_rfl) rfl (.inr fun n hn => ?_) fun m hm hne => ?_,
      hfield.below, hfield.homed.putExperiment, hfield.above, s.at_.parent, ?_⟩
    · rw [← GenId.v.inj hn]
      exact hnode trivial
    · exact absurd (congrArg some (GenId.v.inj hm).symm) hne
    · exact (record_putExperiment (w := w) _ _ _).trans (if_pos rfl)

/-- The outcome of an experiment without patches is one write. -/
theorem updateExperimentOutcome_writes (decision : TournamentDecision)
    (hread : w.readExperiment id = .ok e) (he : e.patches = []) :
    updateExperimentOutcome id decision w =
      { writes := [.putExperiment id { e with outcome := some decision }], result := .ok () } := by
  rw [updateExperimentOutcome, look_bind_ok (g := fun w => World.readExperiment w id) hread, writeExperiment, he]
  rfl

/-- What follows a rejection. -/
theorem reject_sequel (hphase : s.phase = .rejecting n) (h : s.Fits w) :
    Sequel s (do
      updateExperimentOutcome (.v n) .rejected
      Proc.write (.putLog s.at_.round "decision_recorded")
      pure (s.next none)) w := by
  simp only [Process.Fits, hphase] at h
  obtain ⟨hbut, hbelow, hhomed, habove, parent, he⟩ := h
  cases hread : w.readExperiment (.v n) with
  | error err =>
    have hfirst : updateExperimentOutcome (.v n) .rejected w =
        { writes := [], result := .error err } := by
      rw [updateExperimentOutcome, look_bind_error (g := fun w => World.readExperiment w (.v n)) hread]
    refine ⟨fun k hk hcut => ?_, fun s' hs' => ?_⟩
    · rw [bind_error (congrArg Action.result hfirst), hfirst] at hcut
      rcases hcut with hlt | ⟨hzero, -⟩
      · cases hlt
      · exact absurd hzero hk.ne'
    · rw [bind_error (congrArg Action.result hfirst)] at hs'
      cases hs'
  | ok existing =>
    obtain ⟨stored, hstored, hid, outcome, hexisting⟩ := readExperiment_written hread
    have hgen : existing.generationId = .v n := by rw [hexisting, ← hid]
    have hpatches : existing.patches = [] := by
      obtain rfl := ExperimentFile.written.inj (he.symm.trans hstored)
      rw [hexisting]
      rfl
    have hfirst := updateExperimentOutcome_writes .rejected hread hpatches
    have hout := record_putExperiment (w := w) (.v n) (.v n)
      { existing with outcome := some .rejected }
    rw [if_pos rfl] at hout
    have hsound : SoundBut none s.lost (w.apply (.putExperiment (.v n)
        { existing with outcome := some .rejected })) := by
      refine (hbut.putExperiment (e := { existing with outcome := some .rejected })
        habove.not_named hgen (.inl (by simp)) fun _ _ _ hnone => by cases hnone).closes ?_
      intro e he'
      rw [hout] at he'
      obtain rfl := ExperimentFile.written.inj he'
      simp
    have hlog := Calm.putLog (w := w.apply (.putExperiment (.v n)
      { existing with outcome := some .rejected })) s.at_.round "decision_recorded"
    -- the only stop inside is the one between the outcome and the log
    refine ⟨fun k hk hcut => ?_, fun s' hs' => ?_⟩
    · rw [bind_ok (congrArg Action.result hfirst), hfirst] at hcut ⊢
      rcases hcut with hlt | ⟨-, e, hraised⟩
      · obtain rfl : k = 1 := by
          simp at hlt
          omega
        exact hsound
      · cases hraised
    · rw [bind_ok (congrArg Action.result hfirst)] at hs'
      obtain rfl := ok.inj hs'
      have hafter : (updateExperimentOutcome (.v n) .rejected).after w = w.apply
          (.putExperiment (.v n) { existing with outcome := some .rejected }) := by
        rw [after, hfirst]
        rfl
      rw [after_bind_ok (congrArg Action.result hfirst), hafter]
      exact Rested.waiting (hlog.rested
        ⟨hsound, hbelow.mono (Nat.le_succ _), hhomed.putExperiment⟩)

end Rejected

/-! ## A placebo duel -/

section Placebo
variable {r n : Nat}

/-- The writes for a generation outside the numbering of the epoch. -/
theorem Rested.upsertPlacebo {row : Row} (h : Rested lost w r) (hid : row.id = .placebo n) :
    Rested lost (w.apply (.putLineage (w.lineage.upsert row))) r := by
  have hno : ∀ m, row.id ≠ .v m := fun m heq => by
    rw [hid] at heq
    cases heq
  have hfree : ¬ Named w row.id := hid ▸ not_named_placebo h.sound n
  refine ⟨h.sound.upsert hfree (fun m _ heq => absurd heq (hno m))
    fun m heq => absurd heq (hno m), h.below, fun old hold m hm hlost hnone habove => ?_⟩
  rcases mem_upsertRows.mp hold with rfl | ⟨hold, -⟩
  · exact absurd hm (hno m)
  · exact h.homed old hold m hm hlost hnone habove

theorem Rested.putPlacebo {e : Experiment} (h : Rested lost w r)
    (hgen : e.generationId = .placebo n) :
    Rested lost (w.apply (.putExperiment (.placebo n) e)) r :=
  ⟨h.sound.putExperiment (not_named_placebo h.sound n) hgen (.inr fun _ hid => by cases hid)
    (fun _ hid => by cases hid), h.below, h.homed.putExperiment⟩

/-- Wherever the duel after a settled round fails, the round stays settled. -/
theorem placeboGauntlet_rested (at_ : Coordinates) (p : Proposal) (measured : List GenId)
    (decision : TournamentDecision) (k : Nat) :
    Ensures (Preserves fun d => Rested lost d r)
      (bestEffort k (placeboGauntlet cfg host at_ n p measured decision)) w fun _ w' =>
        Rested lost w r → Rested lost w' r := by
  have hI : Lenient (Preserves fun d => Rested lost d r) := Preserves.lenient Calm.rested
  refine ensures_bestEffort k (Ensures.keeps (Q := fun _ _ => True) ?_)
  refine ensures_bind hI.trans (mintPlaceboChallenger_ensures hI (Q := fun _ => True)
    (fun _ _ hd => hd.upsertPlacebo rfl) fun _ _ _ _ => ⟨fun hd => hd.putPlacebo rfl, trivial⟩)
    fun _ _ => ?_
  refine ensures_bind hI.trans (each_calm hI fun id _ _ => measureUnit_calm hI id) fun _ _ => ?_
  refine ensures_bind hI.trans (updateExperimentOutcome_ensures hI (Q := fun _ => True)
    fun existing d hexisting _ => ⟨fun hd => hd.putPlacebo ?_, trivial⟩) fun _ _ => ?_
  · obtain ⟨stored, -, hid, outcome, rfl⟩ := readExperiment_written hexisting
    exact hid
  · exact appendToLineage_ensures hI (fun hd => hd.upsertPlacebo rfl) trivial

/-- A mint that fails leaves its field to be contested without the arm. -/
theorem placeboArmFails_sequel {base offset : Nat} {applied : List Applied}
    (hphase : s.phase = .proposing base offset applied) (hne : applied ≠ []) (h : s.Fits w)
    (k : Nat) (p : Proposal) :
    Sequel s (do
      bestEffort k (mintPlaceboChallenger cfg host s.at_ (.v (base + offset)) p)
      pure { s with phase := .contesting base applied, lost := (base + offset) :: s.lost }) w := by
  simp only [Process.Fits, hphase] at h
  obtain ⟨hfield, happlied, -⟩ := h
  have hothers : ∀ a ∈ applied, a.number ≠ base + offset := fun a ha => (happlied a ha).2.1.ne
  have hcut : Ensures (Stays s.lost)
      (bestEffort k (mintPlaceboChallenger cfg host s.at_ (.v (base + offset)) p)) w
      fun _ w' => Stays s.lost w w' :=
    ensures_bestEffort k (mintPlaceboChallenger_field hfield (Nat.le_add_right _ _) p).keeps
  refine ⟨fun j _ _ => ?_, fun s' hs' => ?_⟩
  · exact (ensures_bind Preserves.trans hcut fun _ _ =>
      ensures_pure (Q := fun _ _ => True) .refl trivial).keeps j hfield.sound
  · obtain rfl := ok.inj hs'
    obtain ⟨hfield', hfiled⟩ := (mintPlaceboChallenger_fails cfg host (Nat.le_add_right base offset)
      List.mem_cons_self hothers k p).post () rfl
      ⟨hfield.weaken (List.subset_cons_self _ _), fun a ha => (happlied a ha).2.2⟩
    rw [after_bind_ok rfl]
    exact ⟨hne, hfield', fun a ha => ⟨(happlied a ha).1, hfiled a ha⟩⟩

end Placebo

/-! ## One step -/

/-- Whatever a process does next, a cut leaves a sound workspace, and the step done a
fitting one. -/
theorem can_sequel {p : Step Process} (h : Can cfg host s p) (hfits : s.Fits w)
    (hdeferred : s.phase = .deferred → Careful w s) : Sequel s p w := by
  -- what the workspace holds, by the phase the process is in
  have hbetween : ∀ {plan}, s.phase = .between plan → Waiting s.lost w s.at_.round plan := by
    intro plan hphase
    simpa only [Process.Fits, hphase] using hfits
  have hproposing : ∀ {base offset applied}, s.phase = .proposing base offset applied →
      InField s.lost w s.at_.round base (applied.map Applied.number) ∧
        (∀ a ∈ applied, base ≤ a.number ∧ a.number < base + offset ∧ Filed w s.at_.round a) ∧
        (applied = [] → Unresolved w base) := by
    intro base offset applied hphase
    simpa only [Process.Fits, hphase] using hfits
  have hcontesting : ∀ {base applied}, s.phase = .contesting base applied → applied ≠ [] ∧
      InField s.lost w s.at_.round base (applied.map Applied.number) ∧
        ∀ a ∈ applied, base ≤ a.number ∧ Filed w s.at_.round a := by
    intro base applied hphase
    simpa only [Process.Fits, hphase] using hfits
  have hsettled : ∀ {base}, s.phase = .settled base → Rested s.lost w (s.at_.round + 1) := by
    intro base hphase
    simpa only [Process.Fits, hphase] using hfits
  cases h with
  | skip hphase =>
    have hw := hbetween hphase
    exact sequel_of_ensures hw.sound (ensures_pure .refl
      (Rested.waiting (hw.toRested.mono (Nat.le_succ _))))
  | acknowledge r hphase =>
    have hw := hbetween hphase
    refine sequel_of_ensures hw.sound (ensures_bind Preserves.trans acknowledgeRepaired_advances
      fun _ hadv => ensures_pure .refl ?_)
    simp only [Process.Fits, hphase]
    exact hw.advanced hadv
  | recount hphase =>
    have hw := hbetween hphase
    refine sequel_of_ensures hw.sound (ensures_look .refl fun base hbase => ensures_pure .refl ?_)
    obtain rfl := ok.inj hbase
    simp only [Process.Fits, hphase]
    exact { hw with below := epochRoundBase_below hw.sound }
  | openRound parent hphase =>
    rename_i plan
    have hw := hbetween hphase
    -- the log names no generation, so that the numbers start where they would have
    refine sequel_of_ensures hw.sound (ensures_bind Preserves.trans
      (Q := fun _ d => Waiting s.lost d s.at_.round plan) ?_
      fun _ hd => ensures_look .refl fun base hbase => ensures_pure .refl ?_)
    · have hcalm := Calm.putLog (w := w) s.at_.round "round_opened"
      exact ensures_write .refl hcalm.soundBut (hw.calm hcalm rfl)
    · obtain rfl := ok.inj hbase
      exact ⟨hd.inField, (fun a ha => by cases ha), fun _ => hd.unresolved⟩
  | emit event hround =>
    have hsound := Fits.sound hfits fun n hn => by
      rw [hn] at hround
      cases hround
    refine sequel_of_ensures hsound (calmStep (write_calm Stays.lenient (.putLog _ _))
      fun w' hcalm => ?_)
    exact Fits.calm hcalm hround hfits
  | slotFails trees hphase _ =>
    obtain ⟨hfield, happlied, hnode⟩ := hproposing hphase
    refine sequel_of_ensures hfield.sound (calmStep (deriveGeneration_calm Stays.lenient _ _ _ _)
      fun w' hcalm => ⟨hcalm.inField hfield, fun a ha => ?_, fun hnil =>
        hcalm.unresolved (hnode hnil)⟩)
    obtain ⟨hbase, hbound, hfiled⟩ := happlied a ha
    exact ⟨hbase, by omega, hcalm.filed hfiled⟩
  | slotApplies q hphase _ =>
    obtain ⟨hfield, happlied, -⟩ := hproposing hphase
    refine sequel_of_ensures hfield.sound (ensures_bind Preserves.trans
      (applyChallenger_field hfield (Nat.le_add_right _ _) q)
      fun _ hnext => ensures_pure .refl ?_)
    obtain ⟨hfield', hnew, hothers⟩ := hnext
    refine ⟨?_, applies_field happlied hnew hothers, fun hnil => by simp at hnil⟩
    rw [List.map_append]
    exact hfield'
  | slotSoftRejected q hphase _ hne =>
    -- the candidate is applied and then rejected; the others of the field have other numbers
    obtain ⟨hfield, happlied, -⟩ := hproposing hphase
    refine sequel_of_ensures hfield.sound (ensures_bind Preserves.trans
      (applyChallenger_field hfield (Nat.le_add_right _ _) q) fun _ hnext => ?_)
    obtain ⟨hfield', -, hothers⟩ := hnext
    refine ensures_bind Preserves.trans (persistSoftReject_field hfield' (Nat.le_add_right _ _) q)
      fun _ hlast => ensures_pure .refl ⟨hlast.1, fun a ha => ?_, fun hnil => absurd hnil hne⟩
    obtain ⟨hbase, hbound, hfiled⟩ := happlied a ha
    have hother : a.number ≠ _ := hbound.ne
    exact ⟨hbase, by omega, hlast.2 a hother (hothers a hother hfiled)⟩
  | exhausted hphase _ _ => exact exhausted_sequel hphase hfits
  | outage hphase _ =>
    obtain ⟨hfield, -⟩ := hproposing hphase
    refine sequel_of_ensures hfield.sound (calmStep (write_calm Stays.lenient (.putLog _ _))
      fun w' hcalm => ?_)
    exact ⟨hcalm.soundBut hfield.sound, hfield.below.sameCandidates hcalm.sameCandidates⟩
  | nothing hphase _ =>
    obtain ⟨hfield, -⟩ := hproposing hphase
    refine sequel_of_ensures hfield.sound (calmStep (write_calm Stays.lenient (.putLog _ _))
      fun w' hcalm => ?_)
    exact Rested.waiting (hcalm.rested
      ⟨hfield.sound, hfield.below.mono (Nat.le_succ _), hfield.homed⟩)
  | reject hphase => exact reject_sequel hphase hfits
  | contest hphase _ hne =>
    obtain ⟨hfield, happlied, -⟩ := hproposing hphase
    refine sequel_of_ensures hfield.sound (ensures_pure .refl ⟨hne, hfield, fun a ha => ?_⟩)
    exact ⟨(happlied a ha).1, (happlied a ha).2.2⟩
  | placeboArm q hphase _ _ hne =>
    obtain ⟨hfield, happlied, -⟩ := hproposing hphase
    refine sequel_of_ensures hfield.sound (ensures_bind Preserves.trans
      (mintPlaceboChallenger_field hfield (Nat.le_add_right _ _) q)
      fun _ hnext => ensures_pure .refl ?_)
    obtain ⟨hfield', hnew, hothers⟩ := hnext
    refine ⟨by simp, ?_, fun a ha => ?_⟩
    · rw [List.map_append]
      exact hfield'
    · obtain ⟨hbase, -, hfiled⟩ := applies_field happlied hnew hothers a ha
      exact ⟨hbase, hfiled⟩
  | placeboArmFails k q hphase _ _ hne => exact placeboArmFails_sequel hphase hne hfits k q
  | publish snapshot hphase =>
    obtain ⟨-, hfield, -⟩ := hcontesting hphase
    refine sequel_of_ensures hfield.sound (calmStep (write_calm Stays.lenient (.putTournament _ _))
      fun w' hcalm => Fits.calm hcalm (by rw [hphase]; rfl) hfits)
  | measure id hround =>
    have hsound := Fits.sound hfits fun n hn => by
      rw [hn] at hround
      cases hround
    exact sequel_of_ensures hsound (calmStep (measureUnit_calm Stays.lenient id)
      fun w' hcalm => Fits.calm hcalm hround hfits)
  | defer hphase =>
    obtain ⟨-, hfield, -⟩ := hcontesting hphase
    refine sequel_of_ensures hfield.sound (calmStep (write_calm Stays.lenient (.putLog _ _))
      fun w' hcalm => ?_)
    exact ⟨hcalm.soundBut hfield.sound, hfield.below.sameCandidates hcalm.sameCandidates⟩
  | settle receipt hphase hsettles =>
    obtain ⟨hne, hfield, happlied⟩ := hcontesting hphase
    exact sequel_of_ensures hfield.sound (ensures_bind Preserves.trans
      (commitFieldSettlement_ensures hfield hne happlied hsettles)
      fun _ hnext => ensures_pure .refl hnext)
  | deliver state hphase =>
    have hw := hsettled hphase
    refine sequel_of_ensures hw.sound (ensures_bind Preserves.trans
      (recordPromotionHookDelivery_advances _ state) fun _ hadv => ensures_pure .refl ?_)
    simp only [Process.Fits, hphase]
    exact hadv.rested hw
  | placeboDuel k q measured decision hphase _ =>
    have hw := hsettled hphase
    refine sequel_of_preserves hw (fun _ hd => hd.sound) (ensures_bind Preserves.trans
      (placeboGauntlet_rested s.at_ q measured decision k) fun _ hnext => ensures_pure .refl ?_)
    simp only [Process.Fits, hphase]
    exact hnext hw
  | close hphase =>
    have hw := hsettled hphase
    exact sequel_of_ensures hw.sound (ensures_pure .refl hw.waiting)
  | reconcile hphase =>
    -- a restart inside the loop, which finds the workspace the deferred round has left
    have hdeferred' : SoundBut none s.lost w ∧ ReceiptsBelow w s.at_.round := by
      simpa only [Process.Fits, hphase] using hfits
    obtain ⟨hbut, hbelow⟩ := hdeferred'
    have hsound := (hdeferred hphase).sound hbut
    have hresume : Ensures (Preserves Sound) (prepareResume cfg host) w fun plan w' =>
        Restores w w' ∧ Ready w' plan :=
      (prepareResume_ensures cfg host hsound).and_keeps.mono (fun d h hw => (h hw).2) fun _ h => h
    refine sequel_of_preserves hsound (fun _ hd => hd.weaken (List.nil_subset _))
      (ensures_bind Preserves.trans hresume fun plan hready => ensures_pure .refl ?_)
    obtain ⟨hrestores, hready⟩ := hready
    have hkept := (hrestores hsound).1
    exact ⟨⟨hready.sound.weaken (List.nil_subset _),
      (hbelow.mono (Nat.le_succ _)).sameCandidates hkept.sameCandidates,
      hready.homed.weaken (List.nil_subset _)⟩, hready.resumed⟩

/-! ## Runs -/

/-- What is known of a state of an epoch. -/
def State.Safe (s : State) : Prop :=
  match s.process with
  | none => Sound s.world
  | some p => p.Fits s.world

theorem Fresh.receiptAt (h : Fresh w) (r : Nat) : w.receiptAt r = none := by
  rw [World.receiptAt, World.round, h.rounds]
  rfl

/-- A fresh workspace is sound. -/
theorem Fresh.sound (h : Fresh w) : Sound w where
  nonempty r t ht := by
    rw [h.receiptAt] at ht
    cases ht
  entered r t ht := by
    rw [h.receiptAt] at ht
    cases ht
  pending row hrow _ _ _ _ hnone _ _ := by
    rw [(h.lineage row hrow).2] at hnone
    cases hnone
  stray _ e _ _ _ _ _ := h.receiptAt e.roundIndex
  genuine n e hn he :=
    absurd (GenId.v.inj (h.records _ (World.hasRecord_of_written he))) hn
  resolved row hrow n hn hid _ :=
    absurd (GenId.v.inj (hid.symm.trans (h.lineage row hrow).1)) hn

theorem startProcess_fits {plan : ResumePlan} (h : Ready w plan) : (startProcess w plan).Fits w :=
  ⟨⟨h.sound, epochRoundBase_below h.sound, h.homed⟩, h.resumed⟩

theorem Happens.safe {a b : State} (h : Happens cfg Careful a b) (ha : a.Safe) : b.Safe := by
  cases h with
  | acts host hcan hresult hdeferred => exact (can_sequel hcan ha hdeferred).done _ hresult
  | ends host k hcan hk hdeferred hstops =>
    cases k with
    | zero => exact Process.Fits.stops ha hstops
    | succ k =>
      exact hstops.sound ((can_sequel hcan ha hdeferred).cut (k + 1) (Nat.succ_pos k) hk)
  | restarts host hresult =>
    exact startProcess_fits ((prepareResume_ensures cfg host ha).post _ hresult)
  | restartEnds host k => exact ((prepareResume_ensures cfg host ha).keeps k ha).2

theorem Reachable.safe {a : State} (h : Reachable cfg Careful a) : a.Safe := by
  induction h with
  | fresh hfresh => exact hfresh.sound
  | step _ hstep ih => exact hstep.safe ih

/-- Whenever a restart, or a deferred round, reconciles an epoch, it keeps every round with
a receipt and every generation that belongs to one, also where it is cut. -/
theorem prepareResume_keeps_committed {process : Option Process} (host : Host)
    (h : Reachable cfg Careful ⟨w, process⟩)
    (hprocess : ∀ s, process = some s → s.phase = .deferred ∧ Careful w s) (k : Nat) :
    Kept w (((prepareResume cfg host w).writes.take k).foldl World.apply w) := by
  have hsound : Sound w := by
    have hsafe := h.safe
    cases process with
    | none => exact hsafe
    | some s => exact Process.Fits.stops hsafe (hprocess s rfl).2
  exact ((prepareResume_ensures cfg host hsound).keeps k hsound).1

/-! ## Runs of one epoch -/

/-- One challenger a round. -/
def gauntlet : Config where
  fieldSize := 1
  directory := false

/-- A workspace with a baseline. -/
def seeded : World where
  source := [(.v 0, "baseline")]
  records := [(.v 0, {})]
  lineage := { rows := [⟨.v 0, none, some true, none, ""⟩], nodup := by decide }
  rounds := []
  tournaments := []

/-- The proposal of the first round. -/
def firstProposal : Proposal where
  trees := ["child"]
  experimentId := "exp"
  patches := ["patch"]

/-- Its receipt when it is staged. -/
def firstReceipt : Settlement where
  candidates := [⟨.v 1, "exp", .rejected, ""⟩]
  body := ""
  state := .pending
  index := .pending
  hook := .notApplicable

theorem seeded_fresh : Fresh seeded where
  rounds := rfl
  lineage := by
    intro row hrow
    obtain rfl := List.mem_singleton.mp hrow
    exact ⟨rfl, rfl⟩
  records := by
    intro id hid
    have := (Dict.mem_keys_iff _ _).mpr hid
    exact List.mem_singleton.mp this

variable {stops : World → Process → Prop}

theorem Reachable.acts {p : Step Process} {s' : Process}
    (h : Reachable cfg stops ⟨w, some s⟩) (host : Host) (hcan : Can cfg host s p)
    (hphase : s.phase ≠ .deferred) (hresult : (p w).result = .ok s') (hafter : p.after w = w') :
    Reachable cfg stops ⟨w', some s'⟩ := by
  subst hafter
  exact .step h (.acts host hcan hresult fun hdeferred => absurd hdeferred hphase)

/-- A process that has written everything it will write stops. -/
theorem Reachable.ends {p : Step Process} (h : Reachable cfg stops ⟨w, some s⟩) (host : Host)
    (hcan : Can cfg host s p) (hphase : s.phase ≠ .deferred) (hwrites : 0 < (p w).writes.length)
    (hstops : stops w s) : Reachable cfg stops ⟨w, none⟩ :=
  .step h (.ends host 0 hcan (.inl hwrites) (fun hdeferred => absurd hdeferred hphase) hstops)

theorem seeded_reachable :
    Reachable cfg stops ⟨seeded, some ⟨⟨0, .v 0⟩, .between none, []⟩⟩ :=
  .step (.fresh seeded_fresh) (@Happens.restarts cfg stops seeded {} {} rfl)

/-- Its receipt when it is committed. -/
def committedReceipt : Settlement := { firstReceipt with state := .committed, index := .succeeded }

/-- The workspace after round 0 of the run. -/
def settledWorld : World where
  source := [(.v 0, "baseline"), (.v 1, "child")]
  records :=
    [(.v 0, {}), (.v 1, { experiment := .written (firstProposal.experiment ⟨0, .v 0⟩ (.v 1)) })]
  lineage :=
    { rows := [⟨.v 0, none, some true, none, ""⟩, ⟨.v 1, some (.v 0), none, some 0, ""⟩]
      nodup := by decide }
  rounds := [(0, { receipt := some committedReceipt, log := ["round_opened"] })]
  tournaments := []

theorem settledWorld_reachable :
    Reachable gauntlet stops ⟨settledWorld, some ⟨⟨0, .v 0⟩, .settled 1, []⟩⟩ := by
  have h₀ : Reachable gauntlet stops _ := seeded_reachable
  have h₁ := h₀.acts {} (.openRound (.v 0) rfl) nofun rfl rfl
  have h₂ := h₁.acts {} (.slotApplies firstProposal rfl (by decide)) nofun rfl rfl
  have h₃ := h₂.acts {} (.contest rfl rfl (by simp)) nofun rfl rfl
  exact h₃.acts {} (.settle firstReceipt rfl ⟨rfl, rfl, rfl⟩) nofun rfl rfl

/-- Round 0 is settled, and the challenger of round 1 is entered. -/
def interruptedWorld : World where
  source := settledWorld.source ++ [(.v 2, "child")]
  records := settledWorld.records ++
    [(.v 2, { experiment := .written (firstProposal.experiment ⟨1, .v 0⟩ (.v 2)) })]
  lineage :=
    { rows := settledWorld.lineage.rows ++ [⟨.v 2, some (.v 0), none, some 1, ""⟩]
      nodup := by decide }
  rounds := settledWorld.rounds ++ [(1, { log := ["round_opened"] })]
  tournaments := []

/-- The process stops in round 1; the restart removes its challenger and keeps round 0. -/
theorem prepareResume_keeps_committed_interrupted :
    Reachable gauntlet Careful ⟨interruptedWorld, none⟩ ∧
    interruptedWorld.receiptAt 0 = some committedReceipt ∧
    ((prepareResume gauntlet {}).after interruptedWorld).hasRecord (.v 2) = false ∧
    Kept interruptedWorld
      (((prepareResume gauntlet {} interruptedWorld).writes.take 6).foldl World.apply
        interruptedWorld) := by
  have h₀ : Reachable gauntlet Careful _ := settledWorld_reachable
  have h₁ := h₀.acts {} (.close rfl) nofun rfl rfl
  have h₂ := h₁.acts {} (.openRound (.v 0) rfl) nofun rfl rfl
  have h₃ : Reachable gauntlet Careful ⟨interruptedWorld, some _⟩ :=
    h₂.acts {} (.slotApplies firstProposal rfl (by decide)) nofun rfl rfl
  have h₄ : Reachable gauntlet Careful ⟨interruptedWorld, none⟩ :=
    h₃.ends {} (.emit "proposal_attempted" rfl) nofun (by decide) ⟨nofun, nofun⟩
  exact ⟨h₄, rfl, by decide, prepareResume_keeps_committed {} h₄ (fun _ hs => by cases hs) 6⟩

/-! ## Runs that lose a round -/

/-- The workspace of the run when its second round stops between the experiment of its
exhausted proposer and the outcome. -/
def rejectedWorld : World where
  source := settledWorld.source
  records := Dict.set settledWorld.records (.v 2)
    { experiment := .written (rejectedProposerExperiment (.v 0) (.v 2)) }
  lineage := settledWorld.lineage
  rounds := settledWorld.rounds ++ [(1, { log := ["round_opened"] })]
  tournaments := []

theorem rejectedWorld_reachable :
    Reachable gauntlet (fun _ _ => True) ⟨rejectedWorld, none⟩ := by
  have h₀ : Reachable gauntlet (fun _ _ => True) _ := settledWorld_reachable
  have h₁ := h₀.acts {} (.close rfl) nofun rfl rfl
  have h₂ := h₁.acts {} (.openRound (.v 0) rfl) nofun rfl rfl
  have h₃ := h₂.acts {} (.slotFails [] rfl (by decide)) nofun rfl rfl
  have h₄ : Reachable gauntlet (fun _ _ => True) ⟨rejectedWorld, some _⟩ :=
    h₃.acts {} (.exhausted rfl rfl rfl) nofun rfl rfl
  exact h₄.ends {} (.reject rfl) nofun (by decide) trivial

/-- A restart takes the round of the rejected experiment, 0, for the interrupted one: the
committed round is gone. -/
theorem prepareResume_loses_round_zero :
    Reachable gauntlet (fun _ _ => True) ⟨rejectedWorld, none⟩ ∧
    rejectedWorld.receiptAt 0 = some committedReceipt ∧ committedReceipt.Finished ∧
    ((prepareResume gauntlet {}).after rejectedWorld).receiptAt 0 = none ∧
    ¬ Kept rejectedWorld ((prepareResume gauntlet {}).after rejectedWorld) := by
  have hgone : ((prepareResume gauntlet {}).after rejectedWorld).receiptAt 0 = none := by
    decide
  refine ⟨rejectedWorld_reachable, rfl, ⟨rfl, by decide, by decide⟩, hgone, fun hkept => ?_⟩
  obtain ⟨t, ht, -⟩ := hkept.receipts 0 committedReceipt rfl
  rw [hgone] at ht
  cases ht

/-- Two challengers a round. -/
def pair : Config where
  fieldSize := 2
  directory := false

/-- The workspace after a round whose placebo arm failed between its first patch and its
experiment. -/
def placeboWorld : World where
  source := settledWorld.source ++ [(.v 3, "child")]
  records := settledWorld.records ++ [(.v 3, {})]
  lineage :=
    { rows := settledWorld.lineage.rows ++ [⟨.v 3, some (.v 0), none, some 0, ""⟩]
      nodup := by decide }
  rounds := settledWorld.rounds
  tournaments := []

theorem placeboWorld_reachable :
    Reachable pair (fun _ _ => True) ⟨placeboWorld, none⟩ := by
  have h₀ : Reachable pair (fun _ _ => True) _ := seeded_reachable
  have h₁ := h₀.acts {} (.openRound (.v 0) rfl) nofun rfl rfl
  have h₂ := h₁.acts {} (.slotApplies firstProposal rfl (by decide)) nofun rfl rfl
  have h₃ := h₂.acts {} (.slotFails [] rfl (by decide)) nofun rfl rfl
  have h₄ := h₃.acts {} (.placeboArmFails 3 firstProposal rfl rfl (by decide) (by simp))
    nofun rfl rfl
  have h₅ : Reachable pair (fun _ _ => True) ⟨placeboWorld, some _⟩ :=
    h₄.acts {} (.settle firstReceipt rfl ⟨rfl, rfl, rfl⟩) nofun rfl rfl
  exact h₅.ends {} (.emit "decision_recorded" rfl) nofun (by decide) trivial

/-- The failed arm is the latest generation and its node names the settled round: the round
is gone with it. -/
theorem prepareResume_loses_placebo_round :
    Reachable pair (fun _ _ => True) ⟨placeboWorld, none⟩ ∧
    placeboWorld.receiptAt 0 = some committedReceipt ∧
    ((prepareResume pair {}).after placeboWorld).receiptAt 0 = none :=
  ⟨placeboWorld_reachable, rfl, by decide⟩

end Zicato.Resume
