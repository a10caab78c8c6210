import Zicato.Observer

/-! # What the observer remembers is in the ledger

A ledger states facts: decisions, contract hashes and alarms.  The observer
notes each in memory before it appends it, and it ignores what the append
returns.  So no fact is ever recorded twice (`Remembers.once`), but a fact whose
append failed may be remembered and not recorded, and stay so until the memory is
read back from the file. -/
open List Option
namespace Zicato.Observer

open Ledger WriteOnce

/-! ## Facts -/

/-- What a record of the observer states. -/
inductive Fact
  | decision (epochId generationId : String) (promoted : Bool)
  | contract (epochId contractHash : String)
  | alarm (key : String × String × String × String)
  deriving DecidableEq

/-- What the observer records once. -/
inductive Key
  | decision (epochId generationId : String)
  | contract (epochId : String)
  | alarm (key : String × String × String × String)
  deriving DecidableEq

/-- What a fact is about. -/
def Fact.key : Fact → Key
  | .decision epochId generationId _ => .decision epochId generationId
  | .contract epochId _ => .contract epochId
  | .alarm key => .alarm key

/-- The fact a record of that kind and payload states. -/
def factOf (kind : RecordKind) (payload : Json) : Option Fact :=
  let field := field payload
  match kind with
  | .decisionObserved => some (.decision (field "epoch_id") (field "generation_id")
      (field "decision" == "promote"))
  | .contractChange =>
      if field "contract_hash" = "" then none
      else some (.contract (field "epoch_id") (field "contract_hash"))
  | .historyChanged => some (.alarm
      (field "field", field "epoch_id", field "generation_id", field "observed"))
  | _ => none

variable (codec : LedgerCodec) (value : Bytes → Option Json) (io : Nat → AppendIo)

/-- The facts the ledger file states, in file order. -/
def facts (file : File) : List Fact :=
  (readRecords codec value file).filterMap fun rec => factOf rec.kind rec.payload

/-- The observer treats the fact as recorded. -/
def TransitionObserver.Holds (o : TransitionObserver) : Fact → Prop
  | .decision epochId generationId promoted =>
      o.recordedDecisions.get? (epochId, generationId) = some promoted
  | .contract epochId contractHash => o.recordedContract.get? epochId = some contractHash
  | .alarm key => key ∈ o.alarms

instance (o : TransitionObserver) : DecidablePred o.Holds
  | .decision epochId generationId promoted => inferInstanceAs
      (Decidable (o.recordedDecisions.get? (epochId, generationId) = some promoted))
  | .contract epochId contractHash => inferInstanceAs
      (Decidable (o.recordedContract.get? epochId = some contractHash))
  | .alarm key => inferInstanceAs (Decidable (key ∈ o.alarms))

/-- What the observer relies on of `serde_json`: the texts of an object's fields
read back from the bytes it was written as. -/
structure ReadsBack : Prop where
  texts : ∀ {fields raw}, (Dict.keys fields).Nodup → codec.toRawValue (.obj fields) = .ok raw →
    ∃ payload, value raw = some payload ∧ ∀ key, text payload key = text (.obj fields) key

variable {codec value io}

/-! ## Noting a fact -/

section Noting
variable {o : TransitionObserver}

/-- Recording a new decision adds one fact. -/
theorem notes_decision {epochId generationId : String} {promoted : Bool}
    (h : o.recordedDecisions.get? (epochId, generationId) = none) :
    Notes Fact.key o.Holds (.decision epochId generationId promoted)
      { o with
        recordedDecisions :=
          o.recordedDecisions.set (epochId, generationId) promoted }.Holds where
  fresh g hg heq := by
    cases g with
    | decision e g' p =>
      obtain ⟨rfl, rfl⟩ := Key.decision.inj heq
      rw [TransitionObserver.Holds, h] at hg
      cases hg
    | contract e hash => cases heq
    | alarm key => cases heq
  adds g := by
    cases g with
    | decision e g' p =>
      simp only [TransitionObserver.Holds, Dict.get?_set]
      by_cases hkey : (epochId, generationId) = (e, g')
      · obtain ⟨rfl, rfl⟩ := Prod.mk.inj hkey
        simp [h, eq_comm]
      · have hne : ¬ (e = epochId ∧ g' = generationId) := by
          rintro ⟨rfl, rfl⟩
          exact hkey rfl
        rw [if_neg hkey]
        simp only [Fact.decision.injEq]
        tauto
    | contract e hash => simp [TransitionObserver.Holds]
    | alarm key => simp [TransitionObserver.Holds]

/-- Recording a new contract adds one fact. -/
theorem notes_contract {epochId contractHash : String}
    (h : o.recordedContract.get? epochId = none) :
    Notes Fact.key o.Holds (.contract epochId contractHash)
      { o with recordedContract := o.recordedContract.set epochId contractHash }.Holds where
  fresh g hg heq := by
    cases g with
    | decision e g' p => cases heq
    | contract e hash =>
      obtain rfl := Key.contract.inj heq
      rw [TransitionObserver.Holds, h] at hg
      cases hg
    | alarm key => cases heq
  adds g := by
    cases g with
    | decision e g' p => simp [TransitionObserver.Holds]
    | contract e hash =>
      simp only [TransitionObserver.Holds, Dict.get?_set]
      by_cases hkey : epochId = e
      · subst hkey
        simp [h, eq_comm]
      · have hne : ¬ e = epochId := fun he => hkey he.symm
        rw [if_neg hkey]
        simp [hne]
    | alarm key => simp [TransitionObserver.Holds]

/-- Recording a new alarm adds one fact. -/
theorem notes_alarm {key : String × String × String × String} (h : key ∉ o.alarms) :
    Notes Fact.key o.Holds (.alarm key) { o with alarms := o.alarms.insert key }.Holds where
  fresh g hg heq := by
    cases g with
    | decision e g' p => cases heq
    | contract e hash => cases heq
    | alarm key' =>
      obtain rfl := Key.alarm.inj heq
      exact h hg
  adds g := by
    cases g with
    | decision e g' p => simp [TransitionObserver.Holds]
    | contract e hash => simp [TransitionObserver.Holds]
    | alarm key' => simp [TransitionObserver.Holds, or_comm]

end Noting

/-! ## Loading -/

variable {history : LedgerHistory}

/-- A record without a fact leaves the observer as it is. -/
theorem loadRecord_none {rec : Record} (h : factOf rec.kind rec.payload = none) :
    (history.loadRecord rec).observer = history.observer := by
  unfold LedgerHistory.loadRecord
  cases hkind : rec.kind <;> rw [hkind] at h <;> simp_all [factOf]

/-- A record with a fact the observer does not know adds it. -/
theorem loadRecord_some {rec : Record} {f : Fact} (h : factOf rec.kind rec.payload = some f)
    (hnew : ∀ g, history.observer.Holds g → g.key ≠ f.key) :
    Notes Fact.key history.observer.Holds f (history.loadRecord rec).observer.Holds := by
  unfold LedgerHistory.loadRecord
  cases hkind : rec.kind with
  | decisionObserved =>
    rw [hkind] at h
    obtain rfl := some.inj h
    have hfree : history.observer.recordedDecisions.get?
        (field rec.payload "epoch_id", field rec.payload "generation_id") = none := by
      rw [eq_none_iff_forall_ne_some]
      intro p hp
      exact hnew (.decision _ _ p) hp rfl
    simp only [Dict.setdefault, hfree]
    exact notes_decision hfree
  | contractChange =>
    rw [hkind] at h
    simp only [factOf] at h
    split at h
    · cases h
    · rename_i hhash
      obtain rfl := some.inj h
      have hfree : history.observer.recordedContract.get? (field rec.payload "epoch_id") =
          none := by
        rw [eq_none_iff_forall_ne_some]
        intro hash hp
        exact hnew (.contract _ hash) hp rfl
      simp only [hhash, if_false, Dict.setdefault, hfree]
      exact notes_contract hfree
  | historyChanged =>
    rw [hkind] at h
    obtain rfl := some.inj h
    exact notes_alarm fun hin => hnew (.alarm _) hin rfl
  | _ =>
    rw [hkind] at h
    cases h

/-- **Loading reads the facts of the file back**, if none is stated twice. -/
theorem load_holds (file : File) (honce : ((facts codec value file).map Fact.key).Nodup)
    (f : Fact) :
    (LedgerHistory.load codec value file).observer.Holds f ↔ f ∈ facts codec value file := by
  unfold facts at honce ⊢
  unfold LedgerHistory.load
  -- the records read so far, and the memory they have made
  generalize readRecords codec value file = recs at honce ⊢
  induction recs using reverseRecOn generalizing f with
  | nil => cases f <;> simp [TransitionObserver.Holds]
  | append_singleton recs rec ih =>
    rw [filterMap_append, map_append, nodup_append] at honce
    obtain ⟨hrecs, -, hdisjoint⟩ := honce
    rw [foldl_append, foldl_cons, foldl_nil, filterMap_append]
    cases hfact : factOf rec.kind rec.payload with
    | none => simp [loadRecord_none hfact, ih f hrecs, hfact]
    | some g =>
      have hnew : ∀ g', (recs.foldl LedgerHistory.loadRecord {}).observer.Holds g' →
          g'.key ≠ g.key := by
        intro g' hg'
        exact hdisjoint g'.key (mem_map_of_mem ((ih g' hrecs).mp hg')) g.key
          (by simp [hfact])
      rw [(loadRecord_some hfact hnew).adds, ih f hrecs]
      simp [hfact]

/-! ## The fact of an appended record -/

theorem kindOfStr_asStr (kind : RecordKind) : kindOfStr kind.asStr = some kind := by
  cases kind <;> rfl

/-- The fact depends on the texts of the payload only. -/
theorem factOf_congr (kind : RecordKind) {payload payload' : Json}
    (h : ∀ key, text payload key = text payload' key) :
    factOf kind payload = factOf kind payload' := by
  have hfield : field payload = field payload' := by
    funext key
    rw [field, field, h]
  unfold factOf
  rw [hfield]

variable {kind : RecordKind} {line : Line}

theorem factOf_other (h : observed kind = false) (payload : Json) : factOf kind payload = none := by
  cases kind <;> first | rfl | cases h

variable (value) in
/-- The fact a line states. -/
def lineFact (line : Line) : Option Fact :=
  (Record.ofLine value line).bind fun rec => factOf rec.kind rec.payload

theorem facts_eq (file : File) :
    facts codec value file = (fileRecords codec file).filterMap (lineFact value) := by
  rw [facts, readRecords, filterMap_filterMap]
  rfl

theorem lineFact_of_kind (h : line.kind = kind.asStr) :
    lineFact value line = (value line.payload).bind (factOf kind) := by
  rw [lineFact, Record.ofLine, h, kindOfStr_asStr]
  cases value line.payload <;> rfl

theorem lineFact_other (h : line.kind = kind.asStr) (hkind : observed kind = false) :
    lineFact value line = none := by
  rw [lineFact_of_kind h]
  cases value line.payload with
  | none => rfl
  | some payload => exact factOf_other hkind payload

theorem ReadsBack.lineFact (hv : ReadsBack codec value) {fields : List (String × Json)}
    (hkeys : (Dict.keys fields).Nodup) (hraw : codec.toRawValue (.obj fields) = .ok line.payload)
    (h : line.kind = kind.asStr) : Observer.lineFact value line = factOf kind (.obj fields) := by
  obtain ⟨payload, hvalue, htexts⟩ := hv.texts hkeys hraw
  rw [lineFact_of_kind h, hvalue]
  exact factOf_congr kind htexts

variable (value) in
/-- The facts of a file after an append. -/
theorem facts_of_append (hc : LawfulCodec codec) (tail : Tail) (file : File) (kind : RecordKind)
    (payload : Json) (ts : String) (outcome : WriteOutcome) :
    facts codec value (Ledger.append codec tail file kind payload ts outcome).file =
      facts codec value file ++
        (survivors (Ledger.append codec tail file kind payload ts outcome).attempt.toList).filterMap
          (lineFact value) := by
  rw [facts_eq, facts_eq, records_of_append hc, filterMap_append]

/-- A record of another kind states nothing. -/
theorem facts_other (hc : LawfulCodec codec) (tail : Tail) (file : File)
    (hkind : observed kind = false) (payload : Json) (ts : String) (outcome : WriteOutcome) :
    facts codec value (Ledger.append codec tail file kind payload ts outcome).file =
      facts codec value file := by
  rw [facts_of_append value hc, append_right_eq_self]
  rcases @append_cases codec tail file kind payload ts outcome with happ | ⟨raw, text, -, -, happ⟩
  · rw [happ]
    rfl
  · rw [happ]
    dsimp only [Option.toList]
    rw [survivors_singleton]
    split
    · refine filterMap_eq_nil_iff.mpr fun line hline => ?_
      have hline' : line.kind = kind.asStr := by rw [mem_singleton.mp hline]; rfl
      exact lineFact_other hline' hkind
    · rfl

/-- **The fact of an append** is in the file after it, or the append has returned `None`
or the process is dead. -/
theorem facts_append (hc : LawfulCodec codec) (hv : ReadsBack codec value) (tail : Tail)
    (file : File) {fields : List (String × Json)} (hkeys : (Dict.keys fields).Nodup) {f : Fact}
    (hf : factOf kind (.obj fields) = some f) (ts : String) (outcome : WriteOutcome) :
    facts codec value (Ledger.append codec tail file kind (.obj fields) ts outcome).file =
        facts codec value file ++ [f] ∨
      facts codec value (Ledger.append codec tail file kind (.obj fields) ts outcome).file =
        facts codec value file ∧
      ((Ledger.append codec tail file kind (.obj fields) ts outcome).tail.isSome = true →
        returns (Ledger.append codec tail file kind (.obj fields) ts outcome) = some none) := by
  rw [facts_of_append value hc]
  rcases @append_cases codec tail file kind (.obj fields) ts outcome with
    happ | ⟨raw, text, hraw, -, happ⟩
  · rw [happ]
    exact .inr ⟨append_nil _, fun _ => rfl⟩
  rw [happ]
  dsimp only [Option.toList]
  rw [survivors_singleton]
  have hline : lineFact value (nextLine codec tail kind ts raw) = some f :=
    (hv.lineFact hkeys hraw rfl).trans hf
  split
  · left
    rw [filterMap_cons, hline, filterMap_nil]
  · rename_i hlost
    refine .inr ⟨append_nil _, ?_⟩
    cases outcome with
    | done => exact absurd rfl hlost
    | refused | failed | left k => exact fun _ => rfl
    | diedBefore | died k => exact fun halive => nomatch halive

/-! ## The invariant -/

variable (codec value) in
/-- The memory of the observer and the file, up to appends that failed. -/
def Consistent (w : Watch) : Prop :=
  Remembers Fact.key (facts codec value w.ledger.file) w.observer.Holds
    (w.ledger.ledger.isSome = true) (none ∈ w.returned)

section Steps
variable {w : Watch}

section
variable (hc : LawfulCodec codec) (hv : ReadsBack codec value)
include hc hv

/-- **Noting a fact and appending its record** keeps the invariant, whatever
becomes of the append. -/
theorem Consistent.append (h : Consistent codec value w) {fields : List (String × Json)}
    (hkeys : (Dict.keys fields).Nodup) {f : Fact} (hf : factOf kind (.obj fields) = some f)
    {o : TransitionObserver} (hn : Notes Fact.key w.observer.Holds f o.Holds) :
    Consistent codec value
      (Watch.append codec io { w with observer := o } kind (.obj fields)) := by
  cases hledger : w.ledger.ledger with
  | none =>
    -- a dead process: nothing is appended and nothing is alive to be wrong
    have hdead : Watch.append codec io { w with observer := o } kind (.obj fields) =
        { w with observer := o } := by
      simp only [Watch.append, hledger]
    rw [hdead]
    refine h.lost hn fun halive => ?_
    change w.ledger.ledger.isSome = true at halive
    rw [hledger] at halive
    cases halive
  | some ledger =>
    simp only [Watch.append, hledger, Ledger.step, Consistent]
    rcases facts_append hc hv ledger.tail w.ledger.file hkeys hf (io w.calls).ts
      (io w.calls).outcome with hlogged | ⟨hlost, hreturns⟩
    · rw [hlogged]
      exact Remembers.logged h hn (fun _ => by rw [hledger]; rfl) fun hfailed => mem_append_left _ hfailed
    · rw [hlost, isSome_map]
      refine Remembers.lost h hn fun halive => ?_
      simp [hreturns halive]

theorem Consistent.alarm (h : Consistent codec value w) (field epochId : String)
    (generationId : Option String) (recorded observed : String) : Consistent codec value
      (w.alarm codec io field epochId generationId recorded observed) := by
  unfold Watch.alarm
  dsimp only
  split
  · exact h
  · rename_i hnew
    refine h.append hc hv (by simp [Dict.keys]) ?_ (notes_alarm hnew)
    cases generationId <;> simp [factOf, Observer.field, text, Dict.get?, optStr]

/-- Absences leave memory and file in agreement. -/
theorem Consistent.absences (h : Consistent codec value w) (field : String)
    (missing : List (String × Option String × String)) :
    Consistent codec value (w.absences codec io field missing) := by
  have hloop : Consistent codec value
      (missing.foldl (Watch.absence codec io field) (w, [])).1 := by
    refine foldlRecOn missing _
      (motive := fun acc : Watch × _ => Consistent codec value acc.1) h ?_
    intro acc hacc m _
    unfold Watch.absence
    dsimp only
    split
    · exact hacc.alarm hc hv field m.1 m.2.1 m.2.2 "absent"
    · exact hacc
  exact hloop

/-- A decision leaves memory and file in agreement. -/
theorem Consistent.decision {acc : Observing} (h : Consistent codec value acc.watch)
    (generation : String × String × Option Bool) :
    Consistent codec value (acc.decision codec io generation).watch := by
  obtain ⟨epochId, generationId, promoted⟩ := generation
  cases promoted with
  | none => exact h
  | some promoted =>
    unfold Observing.decision
    dsimp only
    split
    · split
      · exact h.alarm hc hv _ _ _ _ _
      · exact h
    · rename_i hnew
      refine h.append hc hv (by simp [Dict.keys]) ?_ (notes_decision hnew)
      cases promoted <;> simp [factOf, field, text, Dict.get?, decisionLabel]

theorem Consistent.observeDecisions (h : Consistent codec value w)
    (generations : List (String × String × Option Bool)) (order : HashOrder) :
    Consistent codec value (w.observeDecisions codec io generations order).1 := by
  refine Consistent.absences hc hv ?_ _ _
  refine foldlRecOn generations _
    (motive := fun acc : Observing => Consistent codec value acc.watch) h ?_
  intro acc hacc generation _
  exact hacc.decision hc hv generation

/-- A contract leaves memory and file in agreement. -/
theorem Consistent.observeContract (h : Consistent codec value w) (epochId contractHash : String) :
    Consistent codec value (w.observeContract codec io epochId contractHash).1 := by
  unfold Watch.observeContract
  split
  · exact h
  · rename_i hhash
    split
    · split
      · exact h.alarm hc hv _ _ _ _ _
      · exact h
    · rename_i hnew
      refine h.append hc hv (by simp [Dict.keys]) ?_ (notes_contract hnew)
      simp [factOf, field, text, Dict.get?, hhash]

/-- Contracts leave memory and file in agreement. -/
theorem Consistent.observeContracts (h : Consistent codec value w)
    (epochs : List (String × Option String)) :
    Consistent codec value (w.observeContracts codec io epochs) := by
  refine Consistent.absences hc hv ?_ _ _
  refine foldlRecOn epochs _
    (motive := fun acc : Watch × _ => Consistent codec value acc.1) h ?_
  intro acc hacc epoch _
  unfold Watch.contract
  split
  · exact hacc.observeContract hc hv _ _
  · exact hacc
  · exact hacc

/-- **A tick of the observer keeps the invariant.** -/
theorem Consistent.observeTransitions (h : Consistent codec value w) (view : View) :
    Consistent codec value (w.observeTransitions codec io view) :=
  (h.observeDecisions hc hv view.generations view.order).observeContracts hc hv _

end

/-- `check` may record a break of the chain, which is no fact. -/
theorem Consistent.check (hc : LawfulCodec codec) (h : Consistent codec value w)
    (call : AppendIo) : Consistent codec value (w.check codec call) := by
  unfold Watch.check
  split
  · exact h
  · rename_i ledger hledger
    have halive : w.ledger.ledger.isSome = true := by rw [hledger]; rfl
    have hfile : facts codec value (Ledger.check codec ledger w.ledger.file call.ts call.outcome).file =
        facts codec value w.ledger.file := by
      rcases @check_cases codec ledger w.ledger.file call.ts call.outcome with
        ⟨hsame, -⟩ | ⟨payload, happ, -⟩
      · rw [hsame]
      · rw [happ]
        exact facts_other hc _ _ rfl ..
    unfold Consistent
    rw [hfile]
    exact Remembers.dies h fun _ => halive

end Steps

/-! ## Runs -/

variable (codec value) in
/-- What holds of the loop between events: no fact twice, and the memory if one is
carried. -/
structure Loop.Inv (s : Loop) : Prop where
  once : ((facts codec value s.watch.ledger.file).map Fact.key).Nodup
  memory : s.loaded = true → Consistent codec value s.watch

theorem Consistent.inv {w : Watch} (h : Consistent codec value w) (loaded : Bool) :
    Loop.Inv codec value { watch := w, loaded := loaded } :=
  ⟨h.once, fun _ => h⟩

variable (value) in
/-- An event of the ledger that appends only other kinds adds no fact. -/
theorem facts_step (hc : LawfulCodec codec) (s : State) (event : Ledger.Event)
    (hkind : ∀ kind ts outcome, event.Writes kind ts outcome → observed kind = false) :
    facts codec value (Ledger.step codec s event).file = facts codec value s.file := by
  refine step_induction (P := fun file _ _ => facts codec value file = facts codec value s.file)
    event rfl (fun io _ => ?_) (fun file tail history kind payload ts outcome hw h => ?_)
  · rw [facts_eq, facts_eq, records_repair hc]
  · rw [facts_other hc tail file (hkind kind ts outcome hw), h]

/-- Every event keeps memory and file in agreement. -/
theorem Loop.Inv.step (hc : LawfulCodec codec) (hv : ReadsBack codec value) {s : Loop}
    (h : Loop.Inv codec value s) (event : Event) :
    Loop.Inv codec value (s.step codec value io event) := by
  cases event with
  | starts call =>
    have hfacts := facts_step value hc s.watch.ledger (.opens call) fun kind _ _ hw => by
      rw [hw.1]
      rfl
    refine ⟨?_, fun hloaded => nomatch hloaded⟩
    change ((facts codec value (Ledger.step codec s.watch.ledger (.opens call)).file).map
      Fact.key).Nodup
    rw [hfacts]
    exact h.once
  | ticks view =>
    simp only [Loop.step]
    split
    · refine Consistent.inv ((Consistent.check hc ?_ _).observeTransitions hc hv view) true
      split
      · rename_i hloaded
        exact h.memory hloaded
      · have hread := Remembers.read h.once (load_holds _ h.once)
          (s.watch.ledger.ledger.isSome = true)
        simpa [Consistent] using hread
    · exact h
  | panics => exact ⟨h.once, fun hloaded => nomatch hloaded⟩
  | appends kind hkind payload ts outcome =>
    have hfacts := facts_step value hc s.watch.ledger (.appends kind payload ts outcome)
      fun kind' _ _ hw => by rw [hw.1]; exact hkind
    have halive : (Ledger.step codec s.watch.ledger (.appends kind payload ts
        outcome)).ledger.isSome = true → s.watch.ledger.ledger.isSome = true := by
      cases hledger : s.watch.ledger.ledger with
      | none => simp [Ledger.step, hledger]
      | some ledger => exact fun _ => rfl
    unfold Loop.step
    refine ⟨?_, fun hloaded => ?_⟩
    · dsimp only
      rw [hfacts]
      exact h.once
    · unfold Consistent
      dsimp only
      rw [hfacts]
      exact (h.memory hloaded).dies halive

variable (io) in
theorem inv_run (hc : LawfulCodec codec) (hv : ReadsBack codec value) (events : List Event) :
    Loop.Inv codec value (Loop.run codec value io events) := by
  refine foldlRecOn events _ (motive := Loop.Inv codec value) ?_ ?_
  · have hnone : facts codec value none = [] := by
      rw [facts_eq]
      exact congrArg (List.filterMap _) (records_blank hc (by
        simp [Lines.split, trimAscii, trimAsciiEnd]))
    refine ⟨by simp [hnone], fun hloaded => ?_⟩
    cases hloaded
  · intro s hs event _
    exact hs.step hc hv event

/-- The digest of the record. -/
def decisionDigest : String := "fff820c7c7721c263ce8d3b824323a948bf3b91f3e3644ff426a705c5fa89109"

/-- The payload of the decision. -/
def decisionPayload : Bytes :=
  utf8 "\x7b\"decision\":\"promote\",\"epoch_id\":\"e1\",\"generation_id\":\"g1\"\x7d"

/-- The record of the decision. -/
def decisionLine : Line where
  seq := 0
  prev := genesisPrev
  ts := "2025-01-01T00:00:00+00:00"
  kind := "decision_observed"
  payload := decisionPayload
  digest := decisionDigest

/-- The record and its text. -/
def decisionTable : List (Line × Bytes) :=
  [(decisionLine, List.flatMap utf8 ["\x7b\"seq\":0,\"prev\":\"", genesisPrev,
    "\",\"ts\":\"2025-01-01T00:00:00+00:00\",\"kind\":\"decision_observed\",\"payload\":"] ++
    decisionPayload ++ List.flatMap utf8 [",\"digest\":\"", decisionDigest, "\"\x7d"])]

/-- A codec that knows the text. -/
def decisionCodec : LedgerCodec :=
  tableCodec decisionTable []
    (fun payload =>
      match payload with
      | .obj [("epoch_id", .str "e1"), ("generation_id", .str "g1"),
          ("decision", .str "promote")] => .ok decisionPayload
      | _ => .error "out of range")
    (fun _ => "")

/-- The payload, parsed. -/
def decisionValue (raw : Bytes) : Option Json :=
  if raw = decisionPayload then
    some (.obj [("decision", .str "promote"), ("epoch_id", .str "e1"),
      ("generation_id", .str "g1")])
  else none

theorem lawful_decisionCodec : LawfulCodec decisionCodec :=
  lawful_table (by decide +kernel) (by decide +kernel)

/-- The demonstrated payload reads back. -/
theorem readsBack_decision : ReadsBack decisionCodec decisionValue where
  texts {fields raw} _ h := by
    simp only [decisionCodec, tableCodec] at h
    split at h
    · rename_i heq
      obtain rfl := Except.ok.inj h
      obtain rfl := Json.obj.inj heq
      refine ⟨_, if_pos rfl, ?_⟩
      intro key
      simp only [text, Dict.get?]
      by_cases hd : "decision" = key
      · subst hd
        rfl
      · by_cases he : "epoch_id" = key
        · subst he
          rfl
        · by_cases hg : "generation_id" = key
          · subst hg
            rfl
          · simp [hd, he, hg]
    · cases h

/-- A fresh supervisor sees one promotion, twice. -/
def decisionEvents : List Event :=
  [.starts { integrityTs := "", integrityOutcome := .done, breakTs := "", breakOutcome := .done },
    .ticks decisionView, .ticks decisionView]
where
  decisionView : View :=
    { generations := [("e1", "g1", some true)], currentEpoch := none
      contractHash := fun _ => none, order := ⟨id, fun _ => .refl _⟩
      check := { ts := "", outcome := .done } }

/-- The disk refuses the first append of the run, or none. -/
def decisionIo (refused : Bool) (n : Nat) : AppendIo where
  ts := "2025-01-01T00:00:00+00:00"
  outcome := if refused ∧ n = 0 then .refused else .done

/-- The run of `decisionEvents`. -/
def decisionRun (refused : Bool) : Loop :=
  Loop.run decisionCodec decisionValue (decisionIo refused) decisionEvents

end Zicato.Observer
