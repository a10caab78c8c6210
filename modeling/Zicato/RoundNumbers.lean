import Zicato.EvolveKeeps

/-! # The numbers of rounds

`_epoch_round_base` numbers the rounds of a process from the experiments it finds,
and a process counts on from there however its rounds end.  A round that a restart
discards, or that is cut before its first candidate is on disk, leaves nothing to
count by, and its number is given again. -/
open List Except
namespace Zicato.Resume
open Receipt (ReceiptState HookState IndexState)
open Proc

variable {cfg : Config} {host : Host} {w w' : World} {s s' : Process} {b : Nat}

/-- All experiments of generations with a parent carry numbers below `b`. -/
def Numbers (b : Nat) (w : World) : Prop :=
  ∀ id e, (w.record id).experiment = .written e → e.generationId = id →
    e.parentId.isSome = true → e.roundIndex < b

theorem Numbers.mono {b' : Nat} (h : Numbers b w) (hb : b ≤ b') : Numbers b' w :=
  fun id e he hid hparent => (h id e he hid hparent).trans_le hb

/-- No receipt goes, and no experiment gets a number from `b` on. -/
structure Grows (b : Nat) (w w' : World) : Prop where
  receipts : ∀ q, (w.receiptAt q).isSome = true → (w'.receiptAt q).isSome = true
  numbers : Numbers b w → Numbers b w'

theorem Grows.refl (w : World) : Grows b w w := ⟨fun _ h => h, id⟩

theorem Grows.trans (w w' w'' : World) (h : Grows b w w') (h' : Grows b w' w'') : Grows b w w'' :=
  ⟨fun q hq => h'.receipts q (h.receipts q hq), fun hw => h'.numbers (h.numbers hw)⟩

theorem Calm.grows (h : Calm w w') : Grows b w w' where
  receipts q hq := by rwa [h.receiptAt]
  numbers hw id e he := hw id e (h.experiment id ▸ he)

theorem grows_putLineage (lineage : Lineage) : Grows b w (w.apply (.putLineage lineage)) :=
  ⟨fun _ h => h, id⟩

theorem grows_putReceipt (r : Nat) (t : Settlement) : Grows b w (w.apply (.putReceipt r t)) where
  receipts q hq := by
    rw [receiptAt_putReceipt]
    split
    · rfl
    · exact hq
  numbers := id

theorem grows_putExperiment {id : GenId} {e : Experiment}
    (h : Numbers b w → e.generationId = id → e.parentId.isSome = true → e.roundIndex < b) :
    Grows b w (w.apply (.putExperiment id e)) where
  receipts _ hq := hq
  numbers hw id' e' he hid hparent := by
    rw [record_putExperiment] at he
    split at he
    · rename_i heq
      obtain rfl := ExperimentFile.written.inj he
      exact h hw (hid.trans heq.symm) hparent
    · exact hw id' e' he hid hparent

/-! ## Steps of a round -/

theorem grows_lenient : Lenient (Grows b) := ⟨.refl, Grows.trans, Calm.grows⟩

section Steps

theorem write_grows {wr : Write} (h : Grows b w (w.apply wr)) :
    Ensures (Grows b) (write wr : Step Unit) w fun _ _ => True :=
  ensures_write .refl h trivial

/-- A step that writes nothing a process counts by. -/
theorem grows_of_calm {p : Step Unit} (h : Ensures (Grows b) p w fun _ w' => Calm w w') :
    Ensures (Grows b) p w fun _ _ => True := h.mono (fun _ h => h) fun _ _ => trivial

theorem updateExperimentOutcome_grows (id : GenId) (decision : TournamentDecision) :
    Ensures (Grows b) (updateExperimentOutcome id decision) w fun _ _ => True := by
  refine updateExperimentOutcome_ensures grows_lenient (Q := fun _ => True)
    fun existing d hexisting hcalm => ⟨grows_putExperiment fun hnumbers _ hsome => ?_, trivial⟩
  obtain ⟨stored, hstored, hid, outcome, rfl⟩ := readExperiment_written hexisting
  refine hnumbers id stored ?_ hid hsome
  rw [hcalm.experiment]
  exact hstored

theorem appendToLineage_grows (row : Row) :
    Ensures (Grows b) (appendToLineage row) w fun _ _ => True :=
  appendToLineage_ensures grows_lenient (Q := fun _ => True) (grows_putLineage _) trivial

theorem mintPlaceboChallenger_grows (at_ : Coordinates) (id : GenId) (p : Proposal)
    (h : at_.round < b) :
    Ensures (Grows b) (mintPlaceboChallenger cfg host at_ id p) w fun _ _ => True :=
  mintPlaceboChallenger_ensures grows_lenient (Q := fun _ => True)
    (fun _ _ => grows_putLineage _) fun _ _ _ _ => ⟨grows_putExperiment fun _ _ _ => h, trivial⟩

theorem applyChallenger_grows (at_ : Coordinates) (id : GenId) (p : Proposal)
    (h : at_.round < b) :
    Ensures (Grows b) (applyChallenger cfg host at_ id p) w fun _ _ => True :=
  ensures_bind Grows.trans (mintPlaceboChallenger_grows at_ id p h) fun _ _ =>
    write_grows (Calm.touchRecord id).grows

theorem persistSoftReject_grows (at_ : Coordinates) (id : GenId) (p : Proposal) :
    Ensures (Grows b) (persistSoftReject at_ id p) w fun _ _ => True :=
  ensures_bind Grows.trans (updateExperimentOutcome_grows id .rejected) fun _ _ =>
    appendToLineage_grows _

theorem placeboGauntlet_grows (at_ : Coordinates) (base : Nat) (p : Proposal)
    (measured : List GenId) (decision : TournamentDecision) (h : at_.round < b) :
    Ensures (Grows b) (placeboGauntlet cfg host at_ base p measured decision) w
      fun _ _ => True := by
  refine ensures_bind Grows.trans (mintPlaceboChallenger_grows at_ _ p h) fun _ _ => ?_
  refine ensures_bind Grows.trans
    (each_calm grows_lenient fun id _ _ => measureUnit_calm grows_lenient id) fun _ _ => ?_
  exact ensures_bind Grows.trans (updateExperimentOutcome_grows _ decision) fun _ _ =>
    appendToLineage_grows _

/-- A replay leaves the numbers growing. -/
theorem replayFieldSettlement_grows (r : Nat) (t : Settlement) :
    Ensures (Grows b) (replayFieldSettlement host r t) w fun _ _ => True := by
  refine ensures_look .refl fun _ _ => ?_
  refine ensures_bind Grows.trans (Q := fun _ _ => True) ?_ fun receipt _ => ?_
  · unfold publishOutcomes
    split
    · exact ensures_pure .refl trivial
    · exact ensures_bind Grows.trans (write_grows (grows_putReceipt r _)) fun _ _ =>
        ensures_pure .refl trivial
  · unfold refreshIndex
    split
    · exact write_grows (grows_putReceipt r _)
    · exact ensures_pure .refl trivial

/-- So does a settlement. -/
theorem commitFieldSettlement_grows (r : Nat) (intent : Settlement) :
    Ensures (Grows b) (commitFieldSettlement host r intent) w fun _ _ => True := by
  refine ensures_look .refl fun _ _ => ?_
  refine ensures_look .refl fun found _ => ?_
  cases found with
  | some existing =>
    refine ensures_look .refl fun _ _ => ?_
    refine ensures_lift .refl fun _ _ => ?_
    split
    · exact replayFieldSettlement_grows r existing
    · exact ensures_pure .refl trivial
  | none =>
    exact ensures_bind Grows.trans (write_grows (grows_putReceipt r intent)) fun _ _ =>
      replayFieldSettlement_grows r intent

theorem recordPromotionHookDelivery_grows (r : Nat) (state : HookState) :
    Ensures (Grows b) (recordPromotionHookDelivery host r state) w fun _ _ => True := by
  refine ensures_look .refl fun found _ => ?_
  cases found with
  | none => exact ensures_error .refl
  | some recorded =>
    refine ensures_look .refl fun _ _ => ?_
    refine ensures_lift .refl fun _ _ => ?_
    exact ensures_lift .refl fun _ _ => write_grows (grows_putReceipt r _)

theorem acknowledgeRepaired_grows (r : Nat) :
    Ensures (Grows b) (acknowledgeRepaired r) w fun _ _ => True := by
  refine ensures_look .refl fun found _ => ?_
  cases found with
  | none => exact ensures_pure .refl trivial
  | some t =>
    dsimp only
    split
    · exact write_grows (grows_putReceipt r _)
    · exact ensures_pure .refl trivial

/-- Numbers a process has given lie below this one. -/
def Process.bound (s : Process) : Nat :=
  match s.phase with
  | .between _ => s.at_.round
  | _ => s.at_.round + 1

/-- The step opened a round. -/
def Process.opens (s s' : Process) : Bool :=
  match s.phase, s'.phase with
  | .between _, .proposing .. => true
  | _, _ => false

/-- A process counts on: what it gives is its next number, and it never goes back. -/
structure CountsOn (s s' : Process) : Prop where
  round : s.at_.round ≤ s'.at_.round
  bound : s.bound ≤ s'.bound
  opens : s.opens s' = true → s.bound = s.at_.round ∧ s.at_.round < s'.bound

/-- A process between rounds computes its number anew. -/
structure Recounts (s s' : Process) (w' : World) : Prop where
  before : s.bound = s.at_.round
  after : s'.bound = s'.at_.round
  opens : s.opens s' = false
  round : s'.at_.round = w'.epochRoundBase

/-- A process that stays within its round. -/
theorem countsOn_within (hat : s'.at_ = s.at_) (hphase : ∀ plan, s.phase ≠ .between plan)
    (hphase' : ∀ plan, s'.phase ≠ .between plan) : CountsOn s s' := by
  have hs : s.bound = s.at_.round + 1 := by
    unfold Process.bound
    split
    · rename_i plan heq
      exact absurd heq (hphase plan)
    · rfl
  have hs' : s'.bound = s'.at_.round + 1 := by
    unfold Process.bound
    split
    · rename_i plan heq
      exact absurd heq (hphase' plan)
    · rfl
  refine ⟨by rw [hat], by rw [hs, hs', hat], fun hopens => ?_⟩
  unfold Process.opens at hopens
  split at hopens
  · rename_i plan _ _ _ heq _
    exact absurd heq (hphase plan)
  · cases hopens

theorem countsOn_enters {phase : Phase} (hphase : ∀ plan, s.phase ≠ .between plan)
    (hphase' : ∀ plan, phase ≠ .between plan) : CountsOn s (s.enters phase) :=
  countsOn_within rfl hphase hphase'

theorem countsOn_self : CountsOn s s := by
  refine ⟨le_rfl, le_rfl, fun hopens => ?_⟩
  unfold Process.opens at hopens
  split at hopens
  · rename_i h h'
    rw [h] at h'
    cases h'
  · cases hopens

theorem countsOn_next (plan : Option (Nat × Experiment)) : CountsOn s (s.next plan) := by
  refine ⟨Nat.le_succ _, ?_, fun hopens => ?_⟩
  · change s.bound ≤ s.at_.round + 1
    unfold Process.bound
    split <;> omega
  · unfold Process.opens Process.next at hopens
    split at hopens
    · rename_i h
      cases h
    · cases hopens

/-- A step that ends with the next state counts on where that does. -/
theorem counts_after {α : Type} {p : Step α} (h : Ensures (Grows b) p w fun _ _ => True)
    (hs : CountsOn s s') :
    Ensures (Grows b) (p >>= fun _ => pure s') w
      fun s' w' => CountsOn s s' ∨ Recounts s s' w' :=
  ensures_bind Grows.trans h fun _ _ => ensures_pure .refl (.inl hs)

/-- A step keeps receipts and numbers wherever it is cut, and counts on or anew; all but the
reconciliation of a deferred round. -/
theorem can_grows {p : Step Process} (h : Can cfg host s p) (hphase : s.phase ≠ .deferred) :
    Ensures (Grows s.bound) p w fun s' w' => CountsOn s s' ∨ Recounts s s' w' := by
  have hround : ∀ {phase}, s.phase = phase → (∀ plan, phase ≠ .between plan) →
      s.at_.round < s.bound := by
    rintro phase rfl hne
    unfold Process.bound
    split
    · rename_i plan heq
      exact absurd heq (hne plan)
    · exact Nat.lt_succ_self _
  cases h with
  | skip _ => exact ensures_pure .refl (.inl (countsOn_next none))
  | acknowledge r _ =>
    exact counts_after (acknowledgeRepaired_grows r) countsOn_self
  | recount hs =>
    -- the number is read off the experiments on disk, as at a start
    refine ensures_look .refl fun base hbase => ensures_pure .refl (.inr ⟨?_, ?_, ?_, ?_⟩)
    · rw [Process.bound, hs]
    · rw [Process.bound, hs]
    · rw [Process.opens, hs]
    · exact (ok.inj hbase).symm
  | openRound parent hbetween =>
    refine ensures_bind Grows.trans (write_grows (Calm.putLog _ _).grows) fun _ _ =>
      ensures_look .refl fun base _ => ensures_pure .refl (.inl ?_)
    have hbound : s.bound = s.at_.round := by rw [Process.bound, hbetween]
    exact ⟨le_rfl, hbound.trans_le (Nat.le_succ _), fun _ => ⟨hbound, Nat.lt_succ_self _⟩⟩
  | emit event _ =>
    exact counts_after (write_grows (Calm.putLog _ _).grows) countsOn_self
  | slotFails trees hs _ =>
    exact counts_after (grows_of_calm (deriveGeneration_calm grows_lenient _ _ _ _))
      (countsOn_enters (by simp [hs]) (by simp))
  | slotApplies q hs _ =>
    exact counts_after (applyChallenger_grows _ _ q (hround hs (by simp)))
      (countsOn_enters (by simp [hs]) (by simp))
  | slotSoftRejected q hs _ _ =>
    refine ensures_bind Grows.trans (applyChallenger_grows _ _ q (hround hs (by simp)))
      fun _ _ => ?_
    exact counts_after (persistSoftReject_grows _ _ q) (countsOn_enters (by simp [hs]) (by simp))
  | exhausted hs _ _ =>
    refine counts_after (writeExperiment_ensures grows_lenient (Q := fun _ => True)
      fun _ _ => ⟨grows_putExperiment fun _ _ _ => ?_, trivial⟩)
      (countsOn_enters (by simp [hs]) (by simp))
    exact Nat.zero_lt_of_lt (hround hs (by simp))
  | outage hs _ | defer hs =>
    exact counts_after (write_grows (Calm.putLog _ _).grows)
      (countsOn_enters (by simp [hs]) (by simp))
  | nothing _ _ =>
    exact counts_after (write_grows (Calm.putLog _ _).grows) (countsOn_next none)
  | reject _ =>
    refine ensures_bind Grows.trans (updateExperimentOutcome_grows _ _) fun _ _ => ?_
    exact counts_after (write_grows (Calm.putLog _ _).grows) (countsOn_next none)
  | contest hs _ _ =>
    exact ensures_pure .refl (.inl (countsOn_enters (by simp [hs]) (by simp)))
  | placeboArm q hs _ _ _ =>
    exact counts_after (mintPlaceboChallenger_grows _ _ q (hround hs (by simp)))
      (countsOn_enters (by simp [hs]) (by simp))
  | placeboArmFails k q hs _ _ _ =>
    refine counts_after ((ensures_bestEffort k
      (mintPlaceboChallenger_grows _ _ q (hround hs (by simp))).keeps).mono (fun _ h => h)
      fun _ _ => trivial) ?_
    exact countsOn_within rfl (by simp [hs]) (by simp)
  | publish snapshot _ =>
    exact counts_after (write_grows (Calm.putTournament _ _).grows) countsOn_self
  | measure id _ =>
    exact counts_after (grows_of_calm (measureUnit_calm grows_lenient id)) countsOn_self
  | settle receipt hs _ =>
    exact counts_after (commitFieldSettlement_grows _ receipt)
      (countsOn_enters (by simp [hs]) (by simp))
  | deliver state _ =>
    exact counts_after (recordPromotionHookDelivery_grows _ state) countsOn_self
  | placeboDuel k q measured decision hs _ =>
    refine counts_after ((ensures_bestEffort k (placeboGauntlet_grows s.at_ _ q measured decision
      (hround hs (by simp))).keeps).mono (fun _ h => h) fun _ _ => trivial) countsOn_self
  | close _ => exact ensures_pure .refl (.inl (countsOn_next none))
  | reconcile hs => exact absurd hs hphase

end Steps

theorem Kept.grows (h : Kept w w') : Grows b w w' where
  receipts q hq := by
    obtain ⟨t, ht⟩ := Option.isSome_iff_exists.mp hq
    obtain ⟨t', ht', -⟩ := h.receipts q t ht
    rw [ht']
    rfl
  numbers hw id e he := hw id e (h.written id e he)

/-- Every step of a process that fits its workspace. -/
theorem fits_grows {p : Step Process} (h : Can cfg host s p) (hfits : s.Fits w)
    (hdeferred : s.phase = .deferred → Careful w s) :
    Ensures (Grows s.bound) p w fun s' w' => CountsOn s s' ∨ Recounts s s' w' := by
  by_cases hphase : s.phase = .deferred
  · cases h with
    | reconcile =>
      have hsound := Process.Fits.stops hfits (hdeferred hphase)
      have hresume : Ensures (Grows s.bound) (prepareResume cfg host) w fun _ _ => True :=
        (prepareResume_ensures cfg host hsound).mono (fun d hd => (hd hsound).1.grows)
          fun _ _ => trivial
      exact ensures_bind Grows.trans hresume fun plan _ =>
        ensures_pure .refl (.inl (countsOn_next plan.resume))
    | emit event hround | measure id hround =>
      rw [hphase] at hround
      cases hround
    | _ => simp_all
  · exact can_grows h hphase

/-! ## Chronicles -/

/-- What a run leaves to count by: a process starts or goes back to a lower number, a round
opens its log, the receipt of a round is there. -/
inductive Mark
  | began
  | opened (r : Nat)
  | settled (r : Nat)
  deriving DecidableEq, Repr

/-- The rounds whose receipt was written. -/
def newReceipts (w w' : World) : List Nat :=
  w'.rounds.keys.filter fun q => (w'.receiptAt q).isSome && (w.receiptAt q).isNone

/-- What a step shows of the rounds. -/
def marks (a b : State) : List Mark :=
  match a.process, b.process with
  | none, some _ => [.began]
  | some s, some s' =>
      if s.opens s' then [.opened s.at_.round]
      else if s'.at_.round < s.at_.round then [.began]
      else (newReceipts a.world b.world).map .settled
  | _, none => (newReceipts a.world b.world).map .settled

/-- The states of an epoch, each with the marks of the run so far. -/
inductive Chronicle (cfg : Config) (stops : World → Process → Prop) : State → List Mark → Prop
  | fresh {w : World} : Fresh w → Chronicle cfg stops ⟨w, none⟩ []
  | step {a b : State} {past : List Mark} : Chronicle cfg stops a past → Happens cfg stops a b →
      Chronicle cfg stops b (past ++ marks a b)

variable {stops : World → Process → Prop} {a a' : State} {past : List Mark}

theorem Chronicle.reachable (h : Chronicle cfg stops a past) : Reachable cfg stops a := by
  induction h with
  | fresh hfresh => exact .fresh hfresh
  | step _ hstep ih => exact .step ih hstep

theorem Reachable.chronicle (h : Reachable cfg stops a) : ∃ past, Chronicle cfg stops a past := by
  induction h with
  | fresh hfresh => exact ⟨[], .fresh hfresh⟩
  | step _ hstep ih =>
    obtain ⟨past, hpast⟩ := ih
    exact ⟨_, .step hpast hstep⟩

/-- A round opens above every round that has a receipt, and above every round of its own
process since that began to count. -/
def Ordered (past : List Mark) : Prop :=
  ∀ before r after, past = before ++ .opened r :: after →
    (∀ q, .settled q ∈ before → q < r) ∧
    ∀ earlier between q, before = earlier ++ .opened q :: between → .began ∉ between → q < r

/-- What is known of a state and the marks before it. -/
structure Told (a : State) (past : List Mark) : Prop where
  receipts : ∀ q, .settled q ∈ past → (a.world.receiptAt q).isSome = true
  numbers : ∀ s, a.process = some s → Numbers s.bound a.world
  opened : ∀ s, a.process = some s → ∀ earlier between q,
    past = earlier ++ .opened q :: between → .began ∉ between → q < s.bound
  ordered : Ordered past

/-- An entry of a list of two parts is in the first or in the second. -/
theorem append_eq_split {α : Type} {xs ys before after : List α} {x : α}
    (h : xs ++ ys = before ++ x :: after) :
    (∃ after', xs = before ++ x :: after' ∧ after = after' ++ ys) ∨
      ∃ before', before = xs ++ before' ∧ ys = before' ++ x :: after := by
  rcases append_eq_append_iff.mp h with ⟨before', hbefore, hys⟩ | ⟨rest, hxs, hrest⟩
  · exact .inr ⟨before', hbefore, hys⟩
  · cases rest with
    | nil =>
      refine .inr ⟨[], ?_, hrest.symm⟩
      rw [hxs, append_nil, append_nil]
    | cons y rest =>
      obtain ⟨rfl, hafter⟩ := List.cons.inj hrest
      exact .inl ⟨rest, hxs, hafter⟩

/-- Marks other than the opening of a round keep a chronicle ordered. -/
theorem Ordered.append {more : List Mark} (h : Ordered past) (hmore : ∀ r, .opened r ∉ more) :
    Ordered (past ++ more) := by
  intro before r after heq
  rcases append_eq_split heq with ⟨after', hpast, -⟩ | ⟨before', -, hsplit⟩
  · exact h before r after' hpast
  · refine absurd ?_ (hmore r)
    rw [hsplit]
    exact mem_append_right _ mem_cons_self

/-- A round above the settled ones may open. -/
theorem Ordered.opened {r : Nat} (h : Ordered past) (hsettled : ∀ q, .settled q ∈ past → q < r)
    (hopened : ∀ earlier between q, past = earlier ++ .opened q :: between → .began ∉ between →
      q < r) : Ordered (past ++ [.opened r]) := by
  intro before r' after heq
  rcases append_eq_split heq with ⟨after', hpast, -⟩ | ⟨before', hbefore, hsplit⟩
  · exact h before r' after' hpast
  · cases before' with
    | nil =>
      obtain ⟨hr, -⟩ := List.cons.inj hsplit
      obtain rfl := Mark.opened.inj hr
      rw [append_nil] at hbefore
      rw [hbefore]
      exact ⟨hsettled, hopened⟩
    | cons m rest => simp at hsplit

theorem opened_not_mem_settled (r : Nat) (qs : List Nat) : Mark.opened r ∉ qs.map .settled := by
  intro hmem
  obtain ⟨q, -, hq⟩ := mem_map.mp hmem
  cases hq

theorem mem_newReceipts {q : Nat} (h : q ∈ newReceipts w w') :
    (w'.receiptAt q).isSome = true := by
  have := (mem_filter.mp h).2
  rw [Bool.and_eq_true] at this
  exact this.1

/-- A step that opens no round: its marks are those of new receipts. -/
theorem Told.writes {qs : List Nat} (h : Told a past)
    (hreceipts : ∀ q, (a.world.receiptAt q).isSome = true → (a'.world.receiptAt q).isSome = true)
    (hqs : ∀ q ∈ qs, (a'.world.receiptAt q).isSome = true)
    (hnumbers : ∀ s, a'.process = some s → Numbers s.bound a'.world)
    (hbound : ∀ s', a'.process = some s' → ∃ s, a.process = some s ∧ s.bound ≤ s'.bound) :
    Told a' (past ++ qs.map .settled) where
  receipts q hq := by
    rcases mem_append.mp hq with hq | hq
    · exact hreceipts q (h.receipts q hq)
    · obtain ⟨q', hq', heq⟩ := mem_map.mp hq
      cases heq
      exact hqs q hq'
  numbers := hnumbers
  opened s' hs' earlier between q heq hbegan := by
    obtain ⟨s, hs, hle⟩ := hbound s' hs'
    rcases append_eq_split heq with ⟨between', hpast, hbetween⟩ | ⟨before', -, hsplit⟩
    · refine (h.opened s hs earlier between' q hpast fun hmem => hbegan ?_).trans_le hle
      rw [hbetween]
      exact mem_append_left _ hmem
    · refine absurd ?_ (opened_not_mem_settled q qs)
      rw [hsplit]
      exact mem_append_right _ mem_cons_self
  ordered := h.ordered.append fun r => opened_not_mem_settled r qs

/-- A process starts or goes back: no round stands between the mark and what follows. -/
theorem Told.begins (h : Told a past)
    (hreceipts : ∀ q, (a.world.receiptAt q).isSome = true → (a'.world.receiptAt q).isSome = true)
    (hnumbers : ∀ s, a'.process = some s → Numbers s.bound a'.world) :
    Told a' (past ++ [.began]) where
  receipts q hq := by
    rcases mem_append.mp hq with hq | hq
    · exact hreceipts q (h.receipts q hq)
    · cases mem_singleton.mp hq
  numbers := hnumbers
  opened s hs earlier between q heq hbegan := by
    rcases append_eq_split heq with ⟨between', -, hbetween⟩ | ⟨before', -, hsplit⟩
    · refine absurd ?_ hbegan
      rw [hbetween]
      exact mem_append_right _ mem_cons_self
    · have hmem : Mark.opened q ∈ before' ++ Mark.opened q :: between :=
        mem_append_right _ mem_cons_self
      rw [← hsplit] at hmem
      cases mem_singleton.mp hmem
  ordered := h.ordered.append fun r hr => by cases mem_singleton.mp hr

/-- Opening a round is told. -/
theorem Told.opens {s' : Process} (h : Told ⟨w, some s⟩ past) (hfits : s.Fits w)
    (hgrows : Grows s.bound w w') (hcounts : CountsOn s s') (hopens : s.opens s' = true) :
    Told ⟨w', some s'⟩ (past ++ [.opened s.at_.round]) := by
  obtain ⟨hbound, hlt⟩ := hcounts.opens hopens
  have hbelow : ReceiptsBelow w s.at_.round := by
    unfold Process.opens at hopens
    split at hopens
    · rename_i plan _ _ _ hphase _
      simp only [Process.Fits, hphase] at hfits
      exact hfits.below
    · cases hopens
  have hopened : ∀ earlier between q, past = earlier ++ .opened q :: between →
      .began ∉ between → q < s.at_.round := fun earlier between q heq hbegan =>
    (h.opened s rfl earlier between q heq hbegan).trans_eq hbound
  refine ⟨fun q hq => ?_, ?_, ?_, ?_⟩
  · rcases mem_append.mp hq with hq | hq
    · exact hgrows.receipts q (h.receipts q hq)
    · cases mem_singleton.mp hq
  · rintro t ht
    cases ht
    exact (hgrows.numbers (h.numbers s rfl)).mono hcounts.bound
  · rintro t ht earlier between q heq hbegan
    cases ht
    rcases append_eq_split heq with ⟨between', hpast, hbetween⟩ | ⟨before', -, hsplit⟩
    · refine (h.opened s rfl earlier between' q hpast fun hmem => hbegan ?_).trans_le hcounts.bound
      rw [hbetween]
      exact mem_append_left _ hmem
    · have hmem : Mark.opened q ∈ [Mark.opened s.at_.round] := by
        rw [hsplit]
        exact mem_append_right _ mem_cons_self
      cases mem_singleton.mp hmem
      exact hlt
  · exact h.ordered.opened (fun q hq => hbelow q (h.receipts q hq)) hopened

theorem numbers_epochRoundBase {x : Option Nat} {lost : List Nat} (hw : SoundBut x lost w) :
    Numbers w.epochRoundBase w := by
  intro id e he hid hparent
  obtain ⟨e', hread, hparent', hround⟩ := readExperiment_of_written hw he hid
  rw [← hround]
  exact World.lt_epochRoundBase hread (World.hasRecord_of_written he) (by rw [hparent', hparent])

/-- Whatever happens is told. -/
theorem Happens.told (h : Happens cfg Careful a a') (hsafe : a.Safe) (htold : Told a past) :
    Told a' (past ++ marks a a') := by
  cases h with
  | acts host hcan hresult hdeferred =>
    rename_i w s s' p
    have hstep := fits_grows hcan hsafe hdeferred
    have hgrows : Grows s.bound w (p.after w) := hstep.keeps.after
    rcases hstep.post s' hresult with hcounts | hcounts
    -- the count goes on
    · cases hopens : s.opens s' with
      | true =>
        have hmarks : marks ⟨w, some s⟩ ⟨p.after w, some s'⟩ = [.opened s.at_.round] := by
          simp [marks, hopens]
        rw [hmarks]
        exact htold.opens hsafe hgrows hcounts hopens
      | false =>
        have hmarks : marks ⟨w, some s⟩ ⟨p.after w, some s'⟩ =
            (newReceipts w (p.after w)).map .settled := by
          simp [marks, hopens, Nat.not_lt_of_ge hcounts.round]
        rw [hmarks]
        refine htold.writes hgrows.receipts (fun q hq => mem_newReceipts hq) ?_ ?_
        · rintro t ht
          cases ht
          exact (hgrows.numbers (htold.numbers s rfl)).mono hcounts.bound
        · rintro t ht
          cases ht
          exact ⟨s, rfl, hcounts.bound⟩
    -- the count is taken anew: the numbers on disk bound it, and it may go back
    · have hfits := (can_sequel hcan hsafe hdeferred).done s' hresult
      have hnumbers : ∀ t, some s' = some t → Numbers t.bound (p.after w) := by
        rintro t ht
        cases ht
        rw [hcounts.after, hcounts.round]
        refine numbers_epochRoundBase (Fits.sound hfits fun n hn => ?_)
        have hafter := hcounts.after
        simp [Process.bound, hn] at hafter
      by_cases hlt : s'.at_.round < s.at_.round
      · have hmarks : marks ⟨w, some s⟩ ⟨p.after w, some s'⟩ = [.began] := by
          simp [marks, hcounts.opens, hlt]
        rw [hmarks]
        exact htold.begins hgrows.receipts hnumbers
      · have hmarks : marks ⟨w, some s⟩ ⟨p.after w, some s'⟩ =
            (newReceipts w (p.after w)).map .settled := by
          simp [marks, hcounts.opens, hlt]
        rw [hmarks]
        refine htold.writes hgrows.receipts (fun q hq => mem_newReceipts hq) hnumbers ?_
        rintro t ht
        cases ht
        exact ⟨s, rfl, by rw [hcounts.before, hcounts.after]; exact Nat.le_of_not_lt hlt⟩
  | ends host k hcan hk hdeferred hstops =>
    rename_i w s p
    have hgrows := (fits_grows hcan hsafe hdeferred).keeps k
    exact htold.writes hgrows.receipts (fun q hq => mem_newReceipts hq)
      (fun t ht => by cases ht) fun t ht => by cases ht
  | restarts host hresult =>
    rename_i w plan
    have hresume := prepareResume_ensures cfg host hsafe
    have hkept := (hresume.keeps.after hsafe).1
    refine htold.begins (hkept.grows (b := 0)).receipts ?_
    rintro t ht
    cases ht
    exact numbers_epochRoundBase (hresume.post plan hresult).sound
  | restartEnds host k =>
    rename_i w
    have hkept := ((prepareResume_ensures cfg host hsafe).keeps k hsafe).1
    exact htold.writes (hkept.grows (b := 0)).receipts (fun q hq => mem_newReceipts hq)
      (fun t ht => by cases ht) fun t ht => by cases ht

theorem Chronicle.told (h : Chronicle cfg Careful a past) : Told a past := by
  induction h with
  | fresh hfresh =>
    refine ⟨fun q hq => ?_, fun s hs => ?_, fun s hs => ?_, fun before r rest heq => ?_⟩
    · cases hq
    · cases hs
    · cases hs
    · simp at heq
  | step hpast hstep ih => exact hstep.told hpast.reachable.safe ih

/-- However rounds end and processes restart: a round opens above every round that has
written a receipt and above every earlier round of its process, and above the number of
every experiment of a generation with a parent that is then on disk. -/
theorem rounds_open_above (cfg : Config) :
    (∀ a past, Chronicle cfg Careful a past → Ordered past) ∧
    ∀ w s plan, Reachable cfg Careful ⟨w, some s⟩ → s.phase = .between plan →
      ∀ id e, w.readExperiment id = .ok e → e.parentId.isSome = true →
        e.roundIndex < s.at_.round := by
  refine ⟨fun a past h => h.told.ordered, fun w s plan h hphase id e he hparent => ?_⟩
  obtain ⟨past, hpast⟩ := h.chronicle
  obtain ⟨stored, hstored, hid, outcome, rfl⟩ := readExperiment_written he
  have hnumbers := hpast.told.numbers s rfl
  rw [Process.bound, hphase] at hnumbers
  exact hnumbers id stored hstored hid hparent

/-! ## Runs -/

theorem Chronicle.acts {p : Step Process} {past' : List Mark}
    (h : Chronicle cfg stops ⟨w, some s⟩ past) (host : Host) (hcan : Can cfg host s p)
    (hphase : s.phase ≠ .deferred) (hresult : (p w).result = .ok s') (hafter : p.after w = w')
    (hpast : past ++ marks ⟨w, some s⟩ ⟨w', some s'⟩ = past') :
    Chronicle cfg stops ⟨w', some s'⟩ past' := by
  subst hafter hpast
  exact .step h (.acts host hcan hresult fun hdeferred => absurd hdeferred hphase)

/-- The process stops before the next write, and another one starts. -/
theorem Chronicle.restarts {p : Step Process} {plan : ResumePlan}
    (h : Chronicle cfg stops ⟨w, some s⟩ past) (host : Host) (hcan : Can cfg host s p)
    (hphase : s.phase ≠ .deferred) (hwrites : 0 < (p w).writes.length) (hstops : stops w s)
    (hresult : (prepareResume cfg host w).result = .ok plan) :
    Chronicle cfg stops ⟨(prepareResume cfg host).after w,
      some (startProcess ((prepareResume cfg host).after w) plan)⟩ (past ++ [.began]) := by
  have hstopped : Chronicle cfg stops ⟨w, none⟩ past := by
    have hmarks : newReceipts w w = [] := filter_eq_nil_iff.mpr fun q _ => by
      cases w.receiptAt q <;> simp
    have hstep := Chronicle.step h (.ends host 0 hcan (.inl hwrites)
      (fun hdeferred => absurd hdeferred hphase) hstops)
    rw [marks] at hstep
    simpa [hmarks] using hstep
  exact .step hstopped (.restarts host hresult)

theorem seeded_chronicle :
    Chronicle gauntlet stops ⟨seeded, some ⟨⟨0, .v 0⟩, .between none, []⟩⟩ [.began] :=
  .step (.fresh seeded_fresh) (@Happens.restarts gauntlet stops seeded {} {} rfl)

/-- A settled round, one in which nothing was applied, and another one after a rubric
replacement. -/
theorem rounds_open_above_settled :
    (∃ a, Chronicle gauntlet Careful a
        [.began, .opened 0, .settled 0, .opened 1, .began, .opened 1] ∧
      Ordered [.began, .opened 0, .settled 0, .opened 1, .began, .opened 1]) ∧
    (firstProposal.experiment ⟨0, .v 0⟩ (.v 1)).roundIndex < 1 := by
  have h₀ : Chronicle gauntlet Careful _ _ := seeded_chronicle
  have h₁ := h₀.acts {} (.openRound (.v 0) rfl) nofun rfl rfl rfl
  have h₂ := h₁.acts {} (.slotApplies firstProposal rfl (by decide)) nofun rfl rfl rfl
  have h₃ := h₂.acts {} (.contest rfl rfl (by simp)) nofun rfl rfl rfl
  have h₄ : Chronicle gauntlet Careful ⟨settledWorld, some _⟩ [.began, .opened 0, .settled 0] :=
    h₃.acts {} (.settle firstReceipt rfl ⟨rfl, rfl, rfl⟩) nofun rfl rfl rfl
  have h₅ := h₄.acts {} (.close rfl) nofun rfl rfl rfl
  have h₆ := h₅.acts {} (.openRound (.v 0) rfl) nofun rfl rfl rfl
  have h₇ := h₆.acts {} (.slotFails [] rfl (by decide)) nofun rfl rfl rfl
  have h₈ := h₇.acts {} (.nothing rfl rfl) nofun rfl rfl rfl
  have h₉ := h₈.acts {} (.recount rfl) nofun rfl rfl rfl
  have h₁₀ : Chronicle gauntlet Careful _
      [.began, .opened 0, .settled 0, .opened 1, .began, .opened 1] :=
    h₉.acts {} (.openRound (.v 0) rfl) nofun rfl rfl rfl
  refine ⟨⟨_, h₁₀, (rounds_open_above gauntlet).1 _ _ h₁₀⟩, ?_⟩
  exact (rounds_open_above gauntlet).2 _ _ none h₅.reachable rfl (.v 1)
    { firstProposal.experiment ⟨0, .v 0⟩ (.v 1) with outcome := some .rejected } rfl rfl

/-- The next process gives a number again: that of a round cut right after it opened its log,
and that of a round which closed without an applied candidate. -/
theorem rounds_share_number :
    (∃ a, Chronicle gauntlet Careful a [.began, .opened 0, .began, .opened 0] ∧
      (a.world.round 0).log = ["round_opened", "round_opened"]) ∧
    (∃ a, Chronicle gauntlet Careful a [.began, .opened 0, .began, .opened 0] ∧
      (a.world.round 0).log = ["round_opened", "decision_recorded", "round_opened"]) ∧
    ¬ ∀ a past, Chronicle gauntlet Careful a past → ∀ before q between r after,
      past = before ++ .opened q :: (between ++ .opened r :: after) → q < r := by
  have h₀ : Chronicle gauntlet Careful _ _ := seeded_chronicle
  have h₁ := h₀.acts {} (.openRound (.v 0) rfl) nofun rfl rfl rfl
  have hcut : Chronicle gauntlet Careful _ [.began, .opened 0, .began] :=
    h₁.restarts {} (.emit "proposal_attempted" rfl) nofun (by decide) ⟨nofun, nofun⟩ rfl
  have hcut' := hcut.acts {} (.openRound (.v 0) rfl) nofun rfl rfl rfl
  have h₂ := h₁.acts {} (.slotFails [] rfl (by decide)) nofun rfl rfl rfl
  have h₃ := h₂.acts {} (.nothing rfl rfl) nofun rfl rfl rfl
  have hclosed : Chronicle gauntlet Careful _ [.began, .opened 0, .began] :=
    h₃.restarts {} (.openRound (.v 0) rfl) nofun (by decide) ⟨nofun, nofun⟩ rfl
  have hclosed' := hclosed.acts {} (.openRound (.v 0) rfl) nofun rfl rfl rfl
  refine ⟨⟨_, hcut', by decide⟩, ⟨_, hclosed', by decide⟩, fun hclaim => ?_⟩
  exact lt_irrefl 0 (hclaim _ _ hcut' [.began] 0 [.began] 0 [] rfl)

end Zicato.Resume
