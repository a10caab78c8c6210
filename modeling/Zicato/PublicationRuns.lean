import Zicato.ContractPublication

/-! # What publications keep

Over every run of the writer, the readers and the operator: captures do not cross a publication,
a publication that has returned is whole, a refusal writes nothing, no edit is overwritten, and a
publication that is completed changes nothing more. -/
open List Option
namespace Zicato.Publication

variable {it : Interp}

/-! ## Runs -/

/-- A workspace between calls, whatever its files and its record. -/
structure Initial (s : State) : Prop where
  writer : s.writer = none
  captures : ∀ reader, s.captures reader = none
  revisions : ∀ record, s.world.record = some record → record.revision ∈ s.revisions
  completions : ∀ revision,
    revision ∈ s.completions ↔ s.world.record = some ⟨revision, .complete⟩

/-- No payload is published again once the record of another publication has replaced its own. -/
def Orderly (s : State) : Action → Prop
  | .publishPrepared (some record) =>
      record.revision ∈ s.revisions → s.world.record.map Record.revision = some record.revision
  | _ => True

/-- The states of the runs whose steps are all orderly. -/
inductive Reach (it : Interp) : State → Prop
  | initial {s : State} (h : Initial s) : Reach it s
  | step {s s' : State} {a : Action} {o : Outcome} (h : Reach it s) (ha : Orderly s a)
      (hstep : s.step it a = some (s', o)) : Reach it s'

/-! ## The invariant -/

/-- What holds where the writer's call is. -/
def StageInv (it : Interp) (s : State) (begun : Nat) : Stage → Prop
  | .announce record =>
      s.written = begun ∧ record.revision ∉ s.revisions ∧ record.state ≠ .complete
  | .recover => s.written = begun
  | .write revision writes rest =>
      s.world.record = some ⟨revision, .pending writes⟩ ∧ writes.map Write.component = COMPONENTS ∧
      (writes.map Write.path).Nodup ∧ ∃ done, writes = done ++ rest ∧
        (∀ write ∈ done, s.world.files write.path = .text write.text) ∧
        ∀ write ∈ rest, sourceFits it s.world false write = true

/-- What holds of a capture: no publication has written a file while the record is still the one
that it started from, and a pending record is not. -/
structure CaptureInv (s : State) (c : Capture) : Prop where
  known : ∀ revision, c.revision = some revision → revision ∈ s.revisions
  same : complete? s.world.record = some c.revision → s.written = c.since
  pending : complete? s.world.record = none →
    c.revision ≠ s.world.record.map Record.revision

/-- What a run of publications and captures keeps. -/
structure Inv (it : Interp) (s : State) : Prop where
  known : ∀ record, s.world.record = some record → record.revision ∈ s.revisions
  completions : ∀ record, s.world.record = some record → record.revision ∈ s.completions →
    record.state = .complete
  completed : ∀ revision ∈ s.completions, revision ∈ s.revisions
  stage : ∀ stage begun, s.writer = some (stage, begun) → StageInv it s begun stage
  capture : ∀ reader c, s.captures reader = some c → CaptureInv s c

variable {s : State}

/-- The invariant holds at the start. -/
theorem Initial.inv (h : Initial s) : Inv it s where
  known := h.revisions
  completions record hrecord hmem := by
    rw [h.completions, hrecord] at hmem
    exact congrArg Record.state (Option.some.inj hmem)
  completed revision hmem := h.revisions _ ((h.completions revision).mp hmem)
  stage stage begun hstage := by
    rw [h.writer] at hstage
    cases hstage
  capture reader c hc := by
    rw [h.captures reader] at hc
    cases hc

/-! ## What the parts of a step keep -/

theorem Inv.release (h : Inv it s) : Inv it s.release where
  known := h.known
  completions := h.completions
  completed := h.completed
  stage _ _ hstage := by cases hstage
  capture reader c hc :=
    ⟨(h.capture reader c hc).known, (h.capture reader c hc).same, (h.capture reader c hc).pending⟩

variable {stage : Stage} {begun : Nat}

/-- A writer's call at another place. -/
theorem Inv.setWriter (h : Inv it s) (hstage : StageInv it s begun stage) :
    Inv it (s.setWriter stage begun) where
  known := h.known
  completions := h.completions
  completed := h.completed
  stage stage' begun' heq := by
    cases heq
    cases stage <;> exact hstage
  capture reader c hc :=
    ⟨(h.capture reader c hc).known, (h.capture reader c hc).same, (h.capture reader c hc).pending⟩

/-- A reader's capture keeps the invariant. -/
theorem Inv.setCapture (h : Inv it s) {reader : Nat} {capture : Option Capture}
    (hcapture : ∀ c, capture = some c → CaptureInv s c) : Inv it (s.setCapture reader capture) where
  known := h.known
  completions := h.completions
  completed := h.completed
  stage stage begun hstage := by
    have hinv := h.stage stage begun hstage
    cases stage <;> exact hinv
  capture reader' c hc := by
    have hc' : CaptureInv s c := by
      change (if reader' = reader then capture else s.captures reader') = some c at hc
      split at hc
      · exact hcapture c hc
      · exact h.capture reader' c hc
    exact ⟨hc'.known, hc'.same, hc'.pending⟩

/-- The operator's edits leave the record alone. -/
theorem Inv.edited (h : Inv it s) (hidle : s.writer = none) (world : World)
    (hrecord : world.record = s.world.record) : Inv it { s with world := world } where
  known record hr := h.known record (hrecord ▸ hr)
  completions record hr := h.completions record (hrecord ▸ hr)
  completed := h.completed
  stage stage begun hstage := by
    rw [hidle] at hstage
    cases hstage
  capture reader c hc := by
    obtain ⟨hknown, hsame, hpending⟩ := h.capture reader c hc
    exact ⟨hknown, fun heq => hsame (hrecord ▸ heq),
      fun hnone => hrecord ▸ hpending (hrecord ▸ hnone)⟩

variable {world : World} {record : Record} {writes : List Write}

/-- What is accepted to be published. -/
theorem validatePrepared_eq_some (h : validatePrepared it world record = some writes) :
    record.state = .pending writes ∧ validatedWrites it world writes = true ∧
      mayFollow world record = true ∧
      requireSources it world writes (completed world record) = true := by
  rw [validatePrepared] at h
  cases hstate : record.state with
  | complete =>
    rw [hstate] at h
    cases h
  | pending writes' =>
    rw [hstate] at h
    simp only at h
    split at h
    · rename_i hall
      cases h
      rw [Bool.and_eq_true, Bool.and_eq_true] at hall
      exact ⟨rfl, hall.1.1, hall.1.2, hall.2⟩
    · cases h

theorem validatedWrites_shape (h : validatedWrites it world writes = true) :
    writes.map Write.component = COMPONENTS ∧ (writes.map Write.path).Nodup := by
  simp only [validatedWrites, Bool.and_eq_true, decide_eq_true_eq] at h
  exact ⟨h.1.1.1.1.1, h.1.2⟩

/-- Whether a destination fits depends on that file alone. -/
theorem sourceFits_congr {world' : World} {completed : Bool} {write : Write}
    (h : world.files write.path = world'.files write.path) :
    sourceFits it world completed write = sourceFits it world' completed write := by
  rw [sourceFits, sourceFits, h]

/-- How a publication begins: it refuses, it has been completed before, or its writes follow. -/
theorem begin_cases (it : Interp) (s : State) (record : Record) :
    s.begin it record = (s, .refused) ∨
    (∃ writes, validatePrepared it s.world record = some writes ∧
      completed s.world record = true ∧ s.begin it record = (s, .published writes)) ∨
    (∃ writes, validatePrepared it s.world record = some writes ∧
      completed s.world record = false ∧
      s.world.record.map Record.revision = some record.revision ∧
      s.begin it record = (s.setWriter .recover s.written, .running)) ∨
    (∃ writes, validatePrepared it s.world record = some writes ∧
      s.world.record.map Record.revision ≠ some record.revision ∧
      s.begin it record = (s.setWriter (.announce record) s.written, .running)) := by
  rw [State.begin]
  cases hvalid : validatePrepared it s.world record with
  | none => exact .inl rfl
  | some writes =>
    simp only
    by_cases hrevision : s.world.record.map Record.revision = some record.revision
    · rw [if_pos hrevision]
      cases hcompleted : completed s.world record with
      | true => exact .inr (.inl ⟨writes, rfl, rfl, rfl⟩)
      | false => exact .inr (.inr (.inl ⟨writes, rfl, rfl, hrevision, rfl⟩))
    · rw [if_neg hrevision]
      exact .inr (.inr (.inr ⟨writes, rfl, hrevision, rfl⟩))

variable {s' : State} {o : Outcome}

/-- The begin of a publication keeps the invariant. -/
theorem Inv.begin (h : Inv it s) (hfresh : record.revision ∈ s.revisions →
      s.world.record.map Record.revision = some record.revision)
    (hstep : s.begin it record = (s', o)) : Inv it s' := by
  rcases begin_cases it s record with heq | ⟨writes, -, -, heq⟩ |
    ⟨writes, -, -, -, heq⟩ | ⟨writes, hvalid, hrevision, heq⟩
  · rw [heq] at hstep
    cases hstep
    exact h
  · rw [heq] at hstep
    cases hstep
    exact h
  · rw [heq] at hstep
    cases hstep
    exact h.setWriter rfl
  · rw [heq] at hstep
    cases hstep
    obtain ⟨hstate, -⟩ := validatePrepared_eq_some hvalid
    exact h.setWriter ⟨rfl, fun hmem => hrevision (hfresh hmem), by rw [hstate]; simp⟩

/-- The pending record of a publication that is new. -/
theorem Inv.announce (h : Inv it s) (hstage : StageInv it s begun (.announce record)) :
    Inv it ((s.setRecord record).setWriter .recover begun) := by
  obtain ⟨hbegun, hfresh, hpending⟩ := hstage
  have hnone : complete? (s.setRecord record).world.record = none := by
    cases hstate : record.state with
    | complete => exact absurd hstate hpending
    | pending writes => simp [State.setRecord, complete?, hstate]
  have hkept : (s.setRecord record).completions = s.completions := by
    cases hstate : record.state with
    | complete => exact absurd hstate hpending
    | pending writes => simp [State.setRecord, hstate]
  constructor
  · intro record' heq
    cases heq
    exact mem_cons_self
  · intro record' heq hmem
    cases heq
    exact absurd (h.completed _ (hkept ▸ hmem)) hfresh
  · intro revision hmem
    exact mem_cons_of_mem _ (h.completed revision (hkept ▸ hmem))
  · intro stage begun' heq
    cases heq
    exact hbegun
  · intro reader c hc
    obtain ⟨hknown, -, -⟩ := h.capture reader c hc
    refine ⟨fun revision hrevision => mem_cons_of_mem _ (hknown revision hrevision), ?_, ?_⟩
    · intro heq
      exact absurd (heq.symm.trans hnone) (by simp)
    · intro _ heq
      exact hfresh (hknown record.revision heq)

/-- One file of a publication is written, or holds its text already. -/
theorem Inv.write (h : Inv it s) {revision : String} {rest : List Write} {write : Write}
    (hstage : StageInv it s begun (.write revision writes (write :: rest))) :
    Inv it (s.advance it (.write revision writes (write :: rest)) begun).1 := by
  obtain ⟨hrecord, hcomponents, hnodup, done, rfl, hdone, hrest⟩ := hstage
  have hnone : complete? s.world.record = none := by rw [hrecord]; rfl
  obtain ⟨-, hrest'⟩ := forall_mem_cons.mp hrest
  rw [map_append, map_cons, nodup_middle, nodup_cons] at hnodup
  obtain ⟨hother, hnodup'⟩ := hnodup
  have hne {write' : Write} (hmem : write' ∈ done ++ rest) : write'.path ≠ write.path := fun heq =>
    hother (by rw [← heq, ← map_append]; exact List.mem_map_of_mem hmem)
  have hnodup'' : ((done ++ write :: rest).map Write.path).Nodup := by
    rw [map_append, map_cons, nodup_middle, nodup_cons]
    exact ⟨hother, hnodup'⟩
  rw [State.advance]
  by_cases hsame : s.world.files write.path = .text write.text
  · rw [if_pos hsame]
    refine h.setWriter ⟨hrecord, hcomponents, hnodup'', done ++ [write], by simp, ?_, hrest'⟩
    intro write' hmem
    rcases mem_append.mp hmem with hmem | hmem
    · exact hdone write' hmem
    · rw [mem_singleton.mp hmem]
      exact hsame
  · rw [if_neg hsame]
    constructor
    · exact h.known
    · exact h.completions
    · exact h.completed
    · intro stage' begun' heq
      cases heq
      refine ⟨hrecord, hcomponents, hnodup'', done ++ [write], by simp, ?_, ?_⟩
      · intro write' hmem
        rcases mem_append.mp hmem with hmem | hmem
        · change (if write'.path = write.path then _ else s.world.files write'.path) = _
          rw [if_neg (hne (mem_append_left _ hmem))]
          exact hdone write' hmem
        · rw [mem_singleton.mp hmem]
          exact if_pos rfl
      · intro write' hmem
        have hfile : (if write'.path = write.path then File.text write.text
            else s.world.files write'.path) = s.world.files write'.path :=
          if_neg (hne (mem_append_right _ hmem))
        exact (sourceFits_congr hfile).trans (hrest' write' hmem)
    · intro reader c hc
      obtain ⟨hknown, -, hpending⟩ := h.capture reader c hc
      exact ⟨hknown, fun heq => absurd (heq.symm.trans hnone) (by simp), hpending⟩

/-- The complete record of a publication: no capture has started from it. -/
theorem Inv.finish (h : Inv it s) {revision : String}
    (hstage : StageInv it s begun (.write revision writes [])) :
    Inv it (s.setRecord ⟨revision, .complete⟩).release := by
  obtain ⟨hrecord, -⟩ := hstage
  have hnone : complete? s.world.record = none := by rw [hrecord]; rfl
  constructor
  · intro record heq
    cases heq
    exact mem_cons_self
  · intro record heq _
    cases heq
    rfl
  · intro revision' hmem
    rcases mem_cons.mp hmem with rfl | hmem
    · exact mem_cons_self
    · exact mem_cons_of_mem _ (h.completed revision' hmem)
  · intro stage begun' heq
    cases heq
  · intro reader c hc
    obtain ⟨hknown, -, hpending⟩ := h.capture reader c hc
    refine ⟨fun r hr => mem_cons_of_mem _ (hknown r hr), fun heq => ?_, fun heq => ?_⟩
    · have hrevision : some revision = c.revision := some.inj heq
      have hne := hpending hnone
      rw [hrecord] at hne
      exact absurd hrevision.symm hne
    · cases heq

/-! ## Steps -/

/-- A step of the writer keeps the invariant. -/
theorem Inv.advance (h : Inv it s) (hwriter : s.writer = some (stage, begun))
    (hstep : s.advance it stage begun = (s', o)) : Inv it s' := by
  have hstage := h.stage stage begun hwriter
  cases stage with
  | announce record =>
    cases hstep
    exact h.announce hstage
  | recover =>
    rw [State.advance] at hstep
    cases hrecord : s.world.record with
    | none =>
      rw [hrecord] at hstep
      cases hstep
      exact h.release
    | some record =>
      obtain ⟨revision, state⟩ := record
      rw [hrecord] at hstep
      cases state with
      | complete =>
        cases hstep
        exact h.release
      | pending writes =>
        simp only at hstep
        split at hstep
        · rename_i hvalid
          cases hstep
          rw [Bool.and_eq_true, requireSources, List.all_eq_true] at hvalid
          obtain ⟨hcomponents, hnodup⟩ := validatedWrites_shape hvalid.1
          exact h.setWriter ⟨hrecord, hcomponents, hnodup, [], rfl, by simp, hvalid.2⟩
        · cases hstep
          exact h.release
  | write revision writes rest =>
    cases rest with
    | nil =>
      cases hstep
      exact h.finish hstage
    | cons write rest =>
      have hinv := h.write hstage
      rw [hstep] at hinv
      exact hinv

variable {revision : Option String}

/-- A capture starts from a record that is complete. -/
theorem CaptureInv.start (h : Inv it s) (hrevision : complete? s.world.record = some revision)
    (stage : CaptureStage) : CaptureInv s ⟨revision, s.written, stage⟩ where
  known r hr := by
    cases hrecord : s.world.record with
    | none =>
      rw [hrecord] at hrevision
      cases hrevision
      cases hr
    | some record =>
      obtain ⟨r', state⟩ := record
      rw [hrecord] at hrevision
      cases state with
      | complete =>
        cases hrevision
        cases hr
        exact h.known _ hrecord
      | pending writes => cases hrevision
  same _ := rfl
  pending hnone := by
    rw [hrevision] at hnone
    cases hnone

variable {a : Action}

/-- **Every step keeps the invariant.** -/
theorem Inv.step (h : Inv it s) (ha : Orderly s a) (hstep : s.step it a = some (s', o)) :
    Inv it s' := by
  cases a with
  | edit path file | editProposer proposer =>
    simp only [State.step, isNone_iff_eq_none] at hstep
    split at hstep
    · rename_i hidle
      cases hstep
      exact h.edited hidle _ rfl
    · cases hstep
  | publish source accepted revision =>
    simp only [State.step] at hstep
    split at hstep
    · rename_i hfresh
      split at hstep
      · cases hstep
        exact h
      · rename_i record hprepare
        have hrevision : record.revision = revision := by
          simp only [prepare] at hprepare
          split at hprepare
          · cases hprepare
            rfl
          · cases hprepare
        exact h.begin (fun hmem => absurd (hrevision ▸ hmem) hfresh.2) (some.inj hstep)
    · cases hstep
  | publishPrepared payload =>
    simp only [State.step] at hstep
    split at hstep
    · cases payload with
      | none =>
        cases hstep
        exact h
      | some record => exact h.begin ha (some.inj hstep)
    · cases hstep
  | recover =>
    simp only [State.step] at hstep
    split at hstep
    · cases hstep
      exact h.setWriter rfl
    · cases hstep
  | advance =>
    obtain ⟨⟨stage, begun⟩, hwriter, heq⟩ := map_eq_some_iff.mp hstep
    exact h.advance hwriter heq
  | crash =>
    cases hstep
    exact h.release
  | capture reader =>
    simp only [State.step] at hstep
    split at hstep
    · cases hstep
      exact h
    · rename_i revision hrevision
      cases hstep
      refine h.setCapture fun c hc => ?_
      cases hc
      exact .start h hrevision _
  | read reader =>
    obtain ⟨c, hc, heq⟩ := map_eq_some_iff.mp hstep
    have hcapture := h.capture reader c hc
    split at heq
    · cases heq
      exact h.setCapture (by simp)
    · cases heq
      refine h.setCapture fun c' hc' => ?_
      cases hc'
      exact ⟨hcapture.known, hcapture.same, hcapture.pending⟩
    · cases heq
      exact h.setCapture (by simp)

theorem Reach.inv (h : Reach it s) : Inv it s := by
  induction h with
  | initial h => exact h.inv
  | step _ ha hstep ih => exact ih.step ha hstep

/-! ## What a step may do -/

/-- What one step of a run keeps. -/
structure Kept (it : Interp) (s : State) (a : Action) (s' : State) (o : Outcome) : Prop where
  /-- No publication has written a file since the capture that returns began, and none is
  pending. -/
  captured : ∀ source, o = .captured source → ∃ reader c, a = .read reader ∧
    s.captures reader = some c ∧ s.written = c.since ∧ complete? s.world.record = some c.revision
  /-- The files of a publication that has returned hold its texts. -/
  published : ∀ writes, o = .published writes → writes.map Write.component = COMPONENTS ∧
    (writes.map Write.path).Nodup ∧ ∀ write ∈ writes, s'.world.files write.path = .text write.text
  /-- A call that refuses has written no file. -/
  refused : o = .refused → s'.world.files = s.world.files ∧
    ∀ stage begun, s.writer = some (stage, begun) → a = .advance → s.written = begun
  /-- A file changes by an edit, or from the expected text to the accepted one of the publication
  that is pending. -/
  overwritten : ∀ path, s'.world.files path ≠ s.world.files path →
    (∃ file, a = .edit path file) ∨
      ∃ revision writes write content, s.world.record = some ⟨revision, .pending writes⟩ ∧
        write ∈ writes ∧ write.path = path ∧ s'.world.files path = .text write.text ∧
        (s.world.files path).read = some content ∧ content.map it.sha256 = write.expected
  /-- A payload whose publication is completed changes nothing more. -/
  again : ∀ record, a = .publishPrepared (some record) → record.revision ∈ s.completions → s' = s
  /-- Neither does a recovery without a pending record. -/
  recovered : a = .recover ∨ (∃ begun, s.writer = some (.recover, begun) ∧ a = .advance) →
    (∀ record, s.world.record = some record → record.state = .complete) → s'.world = s.world

variable {source : ContractSource}

/-- A capture returns where the record is complete. -/
theorem next_inr {stage : CaptureStage} (h : stage.next it world revision = some (.inr source)) :
    complete? world.record = some revision := by
  cases stage with
  | recheckRevision source' =>
    simp only [CaptureStage.next] at h
    split at h
    · assumption
    · cases h
  | loadConfig =>
    obtain ⟨config, -, h⟩ := bind_eq_some_iff.mp h
    split at h <;> cases h
  | loadText config =>
    obtain ⟨text, -, h⟩ := bind_eq_some_iff.mp h
    split at h <;> cases h
  | resolve text found =>
    simp only [CaptureStage.next] at h
    split at h
    · obtain ⟨r, -, h⟩ := map_eq_some_iff.mp h
      cases h
    · cases h
  | resolveConfig text =>
    obtain ⟨config, -, h⟩ := bind_eq_some_iff.mp h
    obtain ⟨inputs, -, h⟩ := bind_eq_some_iff.mp h
    cases h
  | loadFiles inputs text paths read =>
    cases paths with
    | nil => cases h
    | cons p paths =>
      obtain ⟨content, -, h⟩ := bind_eq_some_iff.mp h
      cases h
  | hashProposer inputs read => cases h
  | recheck source' =>
    obtain ⟨r, -, h⟩ := map_eq_some_iff.mp h
    cases h
  | compare source' rest changed =>
    cases rest with
    | nil => cases h
    | cons file rest =>
      obtain ⟨content, -, h⟩ := bind_eq_some_iff.mp h
      cases h
  | compareProposer source' changed =>
    simp only [CaptureStage.next] at h
    split at h <;> cases h

/-- A destination that fits a completed write holds its text. -/
theorem text_of_fits (hsha : Function.Injective it.sha256) {write : Write}
    (h : sourceFits it world true write = true) : world.files write.path = .text write.text := by
  rw [sourceFits] at h
  cases hfile : world.files write.path with
  | absent => simp [hfile, File.read] at h
  | binary => simp [hfile, File.read] at h
  | text content =>
    simp only [hfile, File.read, Bool.not_true, Bool.false_and, Bool.or_false,
      decide_eq_true_eq, map_some, some.injEq] at h
    rw [hsha h]

/-- A destination that fits holds the accepted text, or the expected one. -/
theorem expected_of_fits {write : Write} (h : sourceFits it world false write = true)
    (hsha : Function.Injective it.sha256) (hne : world.files write.path ≠ .text write.text) :
    ∃ content, (world.files write.path).read = some content ∧
      content.map it.sha256 = write.expected := by
  rw [sourceFits] at h
  cases hread : (world.files write.path).read with
  | none => simp [hread] at h
  | some content =>
    simp only [hread, Bool.not_false, Bool.true_and, Bool.or_eq_true, decide_eq_true_eq] at h
    rcases h with h | h
    · obtain ⟨text, rfl, htext⟩ := map_eq_some_iff.mp h
      refine absurd ?_ hne
      cases hfile : world.files write.path with
      | text content =>
        rw [hfile, File.read, some.injEq, some.injEq] at hread
        rw [hread, hsha htext]
      | absent => rw [hfile] at hread; cases hread
      | binary => rw [hfile] at hread; cases hread
    · exact ⟨content, rfl, h⟩

/-- A step that is no writer's changes no contract file and publishes nothing. -/
theorem Kept.quiet (hfiles : s'.world.files = s.world.files)
    (hworld : a = .recover → s'.world = s.world) (hadvance : a ≠ .advance)
    (hagain : ∀ record, a ≠ .publishPrepared (some record)) : Kept it s a s' .running where
  captured := by simp
  published := by simp
  refused := by simp
  overwritten path hne := absurd (congrFun hfiles path) hne
  again record heq := absurd heq (hagain record)
  recovered h _ := h.elim hworld fun h => absurd h.choose_spec.2 hadvance

/-- A call that refuses before it has begun. -/
theorem Kept.refusal (hadvance : a ≠ .advance) : Kept it s a s .refused where
  captured := by simp
  published := by simp
  refused _ := ⟨rfl, fun _ _ _ heq => absurd heq hadvance⟩
  overwritten path hne := absurd rfl hne
  again _ _ _ := rfl
  recovered _ _ := rfl

/-- A payload whose revision is the one recorded as complete. -/
theorem Inv.completed_eq (h : Inv it s)
    (hcurrent : s.world.record.map Record.revision = some record.revision)
    (hmem : record.revision ∈ s.completions) : Publication.completed s.world record = true := by
  obtain ⟨current, hrecord, hrevision⟩ := map_eq_some_iff.mp hcurrent
  have hstate := h.completions current hrecord (hrevision ▸ hmem)
  obtain ⟨revision, state⟩ := current
  rw [Publication.completed, decide_eq_true_eq, hrecord]
  cases hstate
  cases hrevision
  rfl

/-- What the begin of a publication keeps. -/
theorem Kept.begin (hsha : Function.Injective it.sha256) (h : Inv it s) (hadvance : a ≠ .advance)
    (ha : ∀ record', a = .publishPrepared (some record') → record' = record ∧ Orderly s a)
    (hstep : s.begin it record = (s', o)) : Kept it s a s' o := by
  rcases begin_cases it s record with heq | ⟨writes, hvalid, hcompleted, heq⟩ |
    ⟨writes, hvalid, hnot, hrevision, heq⟩ | ⟨writes, hvalid, hrevision, heq⟩
  · rw [heq] at hstep
    cases hstep
    exact .refusal hadvance
  · rw [heq] at hstep
    cases hstep
    obtain ⟨-, hwrites, -, hsources⟩ := validatePrepared_eq_some hvalid
    rw [hcompleted, requireSources, List.all_eq_true] at hsources
    obtain ⟨hcomponents, hnodup⟩ := validatedWrites_shape hwrites
    constructor
    · simp
    · intro writes' heq'
      cases heq'
      exact ⟨hcomponents, hnodup, fun write hmem => text_of_fits hsha (hsources write hmem)⟩
    · simp
    · exact fun path hne => absurd rfl hne
    · exact fun _ _ _ => rfl
    · exact fun _ _ => rfl
  · rw [heq] at hstep
    cases hstep
    constructor
    · simp
    · simp
    · simp
    · exact fun path hne => absurd rfl hne
    · intro record' heq' hmem
      obtain ⟨rfl, -⟩ := ha record' heq'
      rw [h.completed_eq hrevision hmem] at hnot
      cases hnot
    · exact fun _ _ => rfl
  · rw [heq] at hstep
    cases hstep
    constructor
    · simp
    · simp
    · simp
    · exact fun path hne => absurd rfl hne
    · intro record' heq' hmem
      obtain ⟨rfl, horderly⟩ := ha record' heq'
      subst heq'
      exact absurd (horderly (h.completed _ hmem)) hrevision
    · exact fun _ _ => rfl

/-- What a step of the writer keeps. -/
theorem Kept.advance (hsha : Function.Injective it.sha256) (h : Inv it s)
    (hwriter : s.writer = some (stage, begun)) (hstep : s.advance it stage begun = (s', o)) :
    Kept it s .advance s' o := by
  have hstage := h.stage stage begun hwriter
  -- the clause about recovery says nothing of a step in another stage
  have hrecovered {stage' : Stage} (hne : stage' ≠ .recover) (heq : stage = stage') {world : World}
      (hx : Action.advance = .recover ∨
        ∃ begun, s.writer = some (.recover, begun) ∧ Action.advance = .advance) :
      world = s.world := by
    rcases hx with hx | ⟨begun', hx, -⟩
    · cases hx
    · rw [hwriter] at hx
      cases hx
      exact absurd heq.symm hne
  cases stage with
  | announce record =>
    cases hstep
    constructor
    · simp
    · simp
    · simp
    · exact fun path hne => absurd rfl hne
    · exact fun _ heq => nomatch heq
    · exact fun hx _ => hrecovered (by simp) rfl hx
  | recover =>
    rw [State.advance] at hstep
    cases hrecord : s.world.record with
    | none =>
      rw [hrecord] at hstep
      cases hstep
      exact ⟨by simp, by simp, by simp, fun path hne => absurd rfl hne, by simp, fun _ _ => rfl⟩
    | some record =>
      obtain ⟨revision, state⟩ := record
      rw [hrecord] at hstep
      cases state with
      | complete =>
        cases hstep
        exact ⟨by simp, by simp, by simp, fun path hne => absurd rfl hne, by simp, fun _ _ => rfl⟩
      | pending writes =>
        simp only at hstep
        split at hstep
        · cases hstep
          exact ⟨by simp, by simp, by simp, fun path hne => absurd rfl hne, by simp,
            fun _ _ => rfl⟩
        · cases hstep
          refine ⟨by simp, by simp, fun _ => ⟨rfl, fun stage' begun' heq _ => ?_⟩,
            fun path hne => absurd rfl hne, by simp, fun _ _ => rfl⟩
          rw [hwriter] at heq
          cases heq
          exact hstage
  | write revision writes rest =>
    obtain ⟨hrecord, hcomponents, hnodup, done, hsplit, hdone, hrest⟩ := hstage
    cases rest with
    | nil =>
      cases hstep
      rw [append_nil] at hsplit
      subst hsplit
      constructor
      · simp
      · intro writes' heq
        cases heq
        exact ⟨hcomponents, hnodup, hdone⟩
      · simp
      · exact fun path hne => absurd rfl hne
      · exact fun _ heq => nomatch heq
      · exact fun hx _ => hrecovered (by simp) rfl hx
    | cons write rest =>
      rw [State.advance] at hstep
      by_cases hsame : s.world.files write.path = .text write.text
      · rw [if_pos hsame] at hstep
        cases hstep
        exact ⟨by simp, by simp, by simp, fun path hne => absurd rfl hne, by simp,
          fun hx _ => hrecovered (by simp) rfl hx⟩
      · rw [if_neg hsame] at hstep
        cases hstep
        refine ⟨by simp, by simp, by simp, fun path hne => .inr ?_, by simp,
          fun hx _ => hrecovered (by simp) rfl hx⟩
        change (if path = write.path then File.text write.text else s.world.files path) ≠ _ at hne
        by_cases hpath : path = write.path
        · subst hpath
          obtain ⟨content, hread, hexpected⟩ :=
            expected_of_fits (hrest write mem_cons_self) hsha hsame
          exact ⟨revision, writes, write, content, hrecord, by simp [hsplit], rfl, if_pos rfl,
            hread, hexpected⟩
        · rw [if_neg hpath] at hne
          exact absurd rfl hne

/-- In every run whose steps are all orderly, every step keeps the contract whole. -/
theorem publication_kept (hsha : Function.Injective it.sha256) {s s' : State} {a : Action}
    {o : Outcome} (h : Reach it s) (ha : Orderly s a) (hstep : s.step it a = some (s', o)) :
    Kept it s a s' o := by
  have hinv := h.inv
  cases a with
  | edit path file =>
    simp only [State.step] at hstep
    split at hstep
    · cases hstep
      refine ⟨by simp, by simp, by simp, fun path' hne => ?_, by simp, ?_⟩
      · change (if path' = path then file else s.world.files path') ≠ _ at hne
        by_cases hpath : path' = path
        · exact .inl ⟨file, by rw [hpath]⟩
        · rw [if_neg hpath] at hne
          exact absurd rfl hne
      · rintro (heq | ⟨begun, -, heq⟩) <;> cases heq
    · cases hstep
  | editProposer proposer =>
    simp only [State.step] at hstep
    split at hstep
    · cases hstep
      exact .quiet rfl (by simp) (by simp) (by simp)
    · cases hstep
  | publish source accepted revision =>
    simp only [State.step] at hstep
    split at hstep
    · split at hstep
      · cases hstep
        exact .refusal (by simp)
      · exact .begin hsha hinv (by simp) (by simp) (Option.some.inj hstep)
    · cases hstep
  | publishPrepared payload =>
    simp only [State.step] at hstep
    split at hstep
    · cases payload with
      | none =>
        cases hstep
        exact .refusal (by simp)
      | some record =>
        refine .begin hsha hinv (by simp) (fun record' heq => ?_) (Option.some.inj hstep)
        cases heq
        exact ⟨rfl, ha⟩
    · cases hstep
  | recover =>
    simp only [State.step] at hstep
    split at hstep
    · cases hstep
      exact .quiet rfl (fun _ => rfl) (by simp) (by simp)
    · cases hstep
  | advance =>
    obtain ⟨⟨stage, begun⟩, hwriter, heq⟩ := Option.map_eq_some_iff.mp hstep
    exact .advance hsha hinv hwriter heq
  | crash =>
    cases hstep
    exact .quiet rfl (by simp) (by simp) (by simp)
  | capture reader =>
    simp only [State.step] at hstep
    split at hstep
    · cases hstep
      exact .refusal (by simp)
    · cases hstep
      exact .quiet rfl (by simp) (by simp) (by simp)
  | read reader =>
    obtain ⟨c, hc, heq⟩ := Option.map_eq_some_iff.mp hstep
    split at heq
    · cases heq
      exact ⟨by simp, by simp, fun _ => ⟨rfl, by simp⟩, fun path hne => absurd rfl hne, by simp,
        by simp⟩
    · cases heq
      exact .quiet rfl (by simp) (by simp) (by simp)
    · rename_i source hnext
      cases heq
      have hcomplete := next_inr hnext
      refine ⟨fun source' heq => ?_, by simp, by simp, fun path hne => absurd rfl hne, by simp,
        by simp⟩
      cases heq
      exact ⟨reader, c, rfl, hc, (hinv.capture reader c hc).same hcomplete, hcomplete⟩

/-! ## A payload that is published again -/

/-- The steps of a run. -/
def State.steps (it : Interp) : State → List Action → Option (State × Outcome)
  | s, [] => some (s, .running)
  | s, [a] => s.step it a
  | s, a :: b :: rest => do (← s.step it a).1.steps it (b :: rest)

/-- Sixty-four times a digit. -/
def repeated (c : Char) : String := String.ofList (List.replicate 64 c)

/-- An interpreter whose digests are the texts. -/
def plain : Interp where
  sha256 text := text
  resolve path := path
  isAbsolute _ := true
  configPath := "config.json"
  readsConfig _ := true
  sameConfig _ _ := true
  inputs _ := some ⟨"board", "brief", "scoring", none⟩
  defaults := ⟨"board", "brief", "scoring", none⟩
  contract _ :=
    some [("board_path", "board"), ("brief_path", "brief"), ("scoring_path", "scoring")]

/-- A payload that replaces the board and the brief. -/
def payload (revision : String) (old new : Char) : Record where
  revision := revision
  state := .pending [
    ⟨"board", "board", some (repeated old), repeated new, repeated new⟩,
    ⟨"brief", "brief", some (repeated old), repeated new, repeated new⟩,
    ⟨"scoring", "scoring", some (repeated 'c'), repeated 'c', repeated 'c'⟩,
    ⟨"config", "config.json", some (repeated 'd'), repeated 'd', repeated 'd'⟩]

/-- The four files, before any publication. -/
def workspace : State where
  world := {
    files := fun path =>
      if path = "board" ∨ path = "brief" then .text (repeated '0')
      else if path = "scoring" then .text (repeated 'c') else .text (repeated 'd')
    proposer := fun _ => ""
    record := none }
  writer := none
  captures := fun _ => none
  written := 0
  revisions := []
  completions := []

/-- A whole publication of a payload. -/
def publication (record : Record) : List Action :=
  .publishPrepared (some record) :: List.replicate 7 .advance

/-- A publication, a capture that reads the configuration and the board, the publication back,
the capture's other reads and its check of the board after the first payload has been published
again as far as the board, and the rest of that publication before the check of the revision. -/
def crossing : List Action :=
  publication (payload "a" '0' '1') ++ .capture 0 :: List.replicate 5 (.read 0) ++
    publication (payload "b" '1' '0') ++ List.replicate 5 (.read 0) ++
    .publishPrepared (some (payload "a" '0' '1')) :: List.replicate 3 .advance ++
    List.replicate 6 (.read 0) ++ List.replicate 4 .advance ++ [.read 0]

theorem workspace_initial : Initial workspace :=
  ⟨rfl, fun _ => rfl, by simp [workspace], by simp [workspace]⟩

/-- What a completed capture returned. -/
def Outcome.source? : Outcome → Option ContractSource
  | .captured source => some source
  | _ => none

theorem Outcome.mem_source? : source ∈ o.source? ↔ o = .captured source := by
  cases o <;> simp [Outcome.source?, eq_comm]

/-- A capture returns the board of one publication and the brief of another, and a payload that
was published before has replaced both files again. -/
theorem republication_mixes : ∃ s source,
    workspace.steps plain crossing = some (s, .captured source) ∧
    source.files.map ContractSourceFile.text =
      [some (repeated '1'), some (repeated '0'), some (repeated 'c'), some (repeated 'd')] ∧
    s.world.files "board" = .text (repeated '1') ∧ s.world.files "brief" = .text (repeated '1') ∧
    s.world.record = some ⟨"a", .complete⟩ ∧ s.completions = ["a", "b", "a"] := by
  have hrun : ∃ run ∈ workspace.steps plain crossing, ∃ source ∈ run.2.source?,
      source.files.map ContractSourceFile.text =
        [some (repeated '1'), some (repeated '0'), some (repeated 'c'), some (repeated 'd')] ∧
      run.1.world.files "board" = .text (repeated '1') ∧
      run.1.world.files "brief" = .text (repeated '1') ∧
      run.1.world.record = some ⟨"a", .complete⟩ ∧ run.1.completions = ["a", "b", "a"] := by
    decide
  obtain ⟨⟨s, o⟩, hsteps, source, hsource, hread⟩ := hrun
  obtain rfl := Outcome.mem_source?.mp hsource
  exact ⟨s, source, hsteps, hread⟩

/-- A run goes on through steps that hand over no payload. -/
theorem Reach.steps {actions : List Action} (h : Reach it s)
    (ha : ∀ a ∈ actions, ∀ record, a ≠ .publishPrepared (some record))
    (hsteps : s.steps it actions = some (s', o)) : Reach it s' := by
  have horderly {s : State} {a : Action} (ha : ∀ record, a ≠ .publishPrepared (some record)) :
      Orderly s a := by
    cases a with
    | publishPrepared payload =>
      cases payload with
      | none => trivial
      | some record => exact absurd rfl (ha record)
    | _ => trivial
  induction actions generalizing s with
  | nil =>
    cases hsteps
    exact h
  | cons a rest ih =>
    cases rest with
    | nil => exact .step h (horderly (ha a mem_cons_self)) hsteps
    | cons b rest =>
      obtain ⟨⟨s₁, o₁⟩, hstep, hrest⟩ := Option.bind_eq_some_iff.mp hsteps
      exact ih (.step h (horderly (ha a mem_cons_self)) hstep)
        (fun c hc => ha c (mem_cons_of_mem _ hc)) hrest

/-- The writes of a publication that returned. -/
def Outcome.writes? : Outcome → Option (List Write)
  | .published writes => some writes
  | _ => none

theorem Outcome.mem_writes? {writes : List Write} : writes ∈ o.writes? ↔ o = .published writes := by
  cases o <;> simp [Outcome.writes?, eq_comm]

/-- A publication returns and then a capture, with the four texts of the payload. -/
theorem publication_kept_workspace : ∃ s₁ s₂ writes s₃ s₄ source,
    s₁.step plain .advance = some (s₂, .published writes) ∧
    Kept plain s₁ .advance s₂ (.published writes) ∧
    writes.map Write.component = COMPONENTS ∧
    s₃.step plain (.read 0) = some (s₄, .captured source) ∧
    Kept plain s₃ (.read 0) s₄ (.captured source) ∧
    source.files.map ContractSourceFile.text =
      [some (repeated '1'), some (repeated '1'), some (repeated 'c'), some (repeated 'd')] := by
  have hrun : (do
      let begun ← workspace.step plain (.publishPrepared (some (payload "a" '0' '1')))
      let written ← begun.1.steps plain (List.replicate 6 .advance)
      let published ← written.1.step plain .advance
      let writes ← published.2.writes?
      let reading ← published.1.steps plain (.capture 0 :: List.replicate 16 (.read 0))
      let captured ← reading.1.step plain (.read 0)
      let source ← captured.2.source?
      some (writes.map Write.component, source.files.map ContractSourceFile.text)) =
      some (COMPONENTS,
        [some (repeated '1'), some (repeated '1'), some (repeated 'c'), some (repeated 'd')]) := by
    decide
  simp only [Option.bind_eq_bind, Option.bind_eq_some_iff, Option.some.injEq, Prod.mk.injEq] at hrun
  obtain ⟨⟨s, o⟩, hfirst, ⟨s₁, o₁⟩, hwritten, ⟨s₂, _⟩, hpublished, writes, hwrites, ⟨s₃, o₃⟩,
    hreading, ⟨s₄, _⟩, hcaptured, source, hsource, hcomponents, htexts⟩ := hrun
  obtain rfl := Outcome.mem_writes?.mp hwrites
  obtain rfl := Outcome.mem_source?.mp hsource
  have horderly : Orderly workspace (.publishPrepared (some (payload "a" '0' '1'))) := by
    intro hmem
    cases hmem
  have hadvance : Orderly s₁ .advance := trivial
  have h₁ : Reach plain s₁ :=
    .steps (.step (.initial workspace_initial) horderly hfirst) (by simp) hwritten
  have h₃ : Reach plain s₃ := .steps (.step h₁ hadvance hpublished) (by simp) hreading
  exact ⟨s₁, s₂, writes, s₃, s₄, source, hpublished,
    publication_kept (fun _ _ h => h) h₁ trivial hpublished, hcomponents, hcaptured,
    publication_kept (fun _ _ h => h) h₃ trivial hcaptured, htexts⟩

end Zicato.Publication
