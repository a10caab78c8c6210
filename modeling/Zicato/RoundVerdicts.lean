import Zicato.RoundIntegrity

/-! # What the verdict of a round depends on

The verdict is that of the span from the last opening on.  More call-boundary errors leave a
measured round measured, and can only turn the rest void. -/
open List
namespace Zicato.Integrity

variable {F : Type} {it : Interp}

/-! ## The span of the final attempt -/

/-- The events from the last opening on; all of them, if there is none. -/
inductive FinalSpan : List (Envelope F) → List (Envelope F) → Prop
  | opened (before : List (Envelope F)) {e : Envelope F} {rest : List (Envelope F)}
      (he : e.opens = true) (hrest : ∀ e' ∈ rest, e'.opens = false) :
      FinalSpan (e :: rest) (before ++ e :: rest)
  | whole {events : List (Envelope F)} (hnone : ∀ e ∈ events, e.opens = false) :
      FinalSpan events events

variable {events : List (Envelope F)}

theorem lastOpen_of_none (h : ∀ e ∈ events, e.opens = false) (index : Nat) (last : Option Nat) :
    lastOpen index last events = last := by
  induction events generalizing index with
  | nil => rfl
  | cons e rest ih =>
    obtain ⟨he, hrest⟩ := forall_mem_cons.mp h
    rw [lastOpen, he, if_neg (by simp)]
    exact ih hrest _

theorem lastOpen_of_opened {before rest : List (Envelope F)} {e : Envelope F}
    (he : e.opens = true) (hrest : ∀ e' ∈ rest, e'.opens = false) (index : Nat)
    (last : Option Nat) :
    lastOpen index last (before ++ e :: rest) = some (index + before.length) := by
  induction before generalizing index last with
  | nil =>
    rw [nil_append, lastOpen, if_pos he, lastOpen_of_none hrest]
    rfl
  | cons b before ih =>
    rw [cons_append, lastOpen, ih, length_cons, Nat.add_right_comm, Nat.add_assoc]

variable {span : List (Envelope F)}

theorem FinalSpan.eq (h : FinalSpan span events) : finalAttemptEvents events = span := by
  rw [finalAttemptEvents]
  cases h with
  | opened before he hrest =>
    rw [lastOpen_of_opened he hrest, Nat.zero_add]
    exact drop_left
  | whole hnone => rw [lastOpen_of_none hnone]

theorem exists_finalSpan (events : List (Envelope F)) : ∃ span, FinalSpan span events := by
  induction events with
  | nil => exact ⟨[], .whole (by simp)⟩
  | cons e rest ih =>
    obtain ⟨span, h⟩ := ih
    cases h with
    | opened before he hrest => exact ⟨_, .opened (e :: before) he hrest⟩
    | whole hnone =>
      cases he : e.opens with
      | true => exact ⟨_, .opened [] he hnone⟩
      | false => exact ⟨_, .whole (forall_mem_cons.mpr ⟨he, hnone⟩)⟩

theorem FinalSpan.self (h : FinalSpan span events) : FinalSpan span span := by
  cases h with
  | opened before he hrest => exact .opened [] he hrest
  | whole hnone => exact .whole hnone

/-! ## What the fold records -/

theorem foldl_opened (events : List (Envelope F)) (r : RoundRecord F) :
    (events.foldl RoundRecord.next r).opened = (r.opened || events.any (·.opens)) := by
  induction events generalizing r with
  | nil => simp
  | cons e rest ih =>
    rw [foldl_cons, ih, any_cons, ← Bool.or_assoc]
    congr 1
    rw [RoundRecord.next, Envelope.opens]
    cases e.event with
    | none => simp
    | some event => cases event <;> simp [RoundRecord.add]

/-- `isinstance(event, RoundClosed)`. -/
def Envelope.closes (e : Envelope F) : Bool :=
  match e.event with
  | some .roundClosed => true
  | _ => false

theorem foldl_closed (events : List (Envelope F)) (r : RoundRecord F) :
    (events.foldl RoundRecord.next r).closed = (r.closed || events.any (·.closes)) := by
  induction events generalizing r with
  | nil => simp
  | cons e rest ih =>
    rw [foldl_cons, ih, any_cons, ← Bool.or_assoc]
    congr 1
    rw [RoundRecord.next, Envelope.closes]
    cases e.event with
    | none => simp
    | some event => cases event <;> simp [RoundRecord.add]

/-- The gates that an event brings. -/
def Envelope.gates (e : Envelope F) : List (GateEvaluated F) :=
  match e.event with
  | some (.gateEvaluated gate) => [gate]
  | _ => []

theorem foldl_gates (events : List (Envelope F)) (r : RoundRecord F) :
    (events.foldl RoundRecord.next r).gates = r.gates ++ events.flatMap (·.gates) := by
  induction events generalizing r with
  | nil => simp
  | cons e rest ih =>
    rw [foldl_cons, ih, flatMap_cons, ← List.append_assoc]
    congr 1
    rw [RoundRecord.next, Envelope.gates]
    cases e.event with
    | none => simp
    | some event => cases event <;> simp [RoundRecord.add]

/-! ## The verdict -/

/-- Nothing is lost. -/
theorem mem_dedup {texts : List String} {text : String} : text ∈ dedup texts ↔ text ∈ texts := by
  suffices h : ∀ out, text ∈ texts.foldl
      (fun out text => if out.contains text then out else out ++ [text]) out ↔
        text ∈ out ∨ text ∈ texts by simpa [dedup] using h []
  induction texts with
  | nil => simp
  | cons t rest ih =>
    intro out
    rw [foldl_cons, ih]
    by_cases ht : t ∈ out
    · rw [if_pos (contains_iff_mem.mpr ht)]
      constructor
      · exact Or.imp id (mem_cons_of_mem _)
      · rintro (h | h)
        · exact .inl h
        · rcases mem_cons.mp h with rfl | h
          · exact .inl ht
          · exact .inr h
    · rw [if_neg (by simpa using ht), mem_append, mem_singleton, mem_cons, or_assoc]

variable {infraMarkers : List String}

theorem matchedMarkers_eq_nil_iff {texts : List String} :
    matchedMarkers it infraMarkers texts = [] ↔
      ∀ text ∈ texts, isHardInfraError it infraMarkers text = false := by
  rw [matchedMarkers, eq_nil_iff_forall_not_mem]
  simp only [mem_dedup, mem_filter, not_and, Bool.not_eq_true]

/-- The verdict, rule by rule. -/
theorem verdict_cases (it : Interp) (record : RoundRecord F) (markers : List String) :
    ((record.opened && record.closed) = false ∧ (verdict it record markers).1 = .void) ∨
    ((record.opened && record.closed) = true ∧ record.gates ≠ [] ∧
      (verdict it record markers).1 = .complete) ∨
    ((record.opened && record.closed) = true ∧ record.gates = [] ∧ markers ≠ [] ∧
      (verdict it record markers).1 = .void) ∨
    ((record.opened && record.closed) = true ∧ record.gates = [] ∧ markers = [] ∧
      (proposerReached record && invalidPatch it record) = true ∧
      (verdict it record markers).1 = .settledDegraded) ∨
    ((record.opened && record.closed) = true ∧ record.gates = [] ∧ markers = [] ∧
      (proposerReached record && invalidPatch it record) = false ∧
      (verdict it record markers).1 = .void) := by
  simp only [verdict]
  cases hsettled : record.opened && record.closed with
  | false => exact .inl ⟨rfl, rfl⟩
  | true =>
    rw [if_neg (by simp)]
    cases hgates : record.gates with
    | cons gate rest => exact .inr (.inl ⟨rfl, by simp, rfl⟩)
    | nil =>
      rw [if_neg (by simp)]
      cases markers with
      | cons marker rest => exact .inr (.inr (.inl ⟨rfl, rfl, by simp, rfl⟩))
      | nil =>
        cases hrule : proposerReached record && invalidPatch it record with
        | true => exact .inr (.inr (.inr (.inl ⟨rfl, rfl, rfl, rfl, rfl⟩)))
        | false =>
          refine .inr (.inr (.inr (.inr ⟨rfl, rfl, rfl, rfl, ?_⟩)))
          simp only [Bool.false_eq_true, if_false]
          split
          · rfl
          · split <;> rfl

variable {record : RoundRecord F}

theorem verdict_complete_iff {markers : List String} :
    (verdict it record markers).1 = .complete ↔
      record.opened = true ∧ record.closed = true ∧ record.gates ≠ [] := by
  rcases verdict_cases it record markers with ⟨hs, hv⟩ | ⟨hs, hg, hv⟩ | ⟨hs, hg, -, hv⟩ |
    ⟨hs, hg, -, -, hv⟩ | ⟨hs, hg, -, -, hv⟩ <;> rw [hv] <;> simp_all

theorem verdict_settledDegraded_iff {markers : List String} :
    (verdict it record markers).1 = .settledDegraded ↔
      (record.opened && record.closed) = true ∧ record.gates = [] ∧ markers = [] ∧
        (proposerReached record && invalidPatch it record) = true := by
  rcases verdict_cases it record markers with ⟨hs, hv⟩ | ⟨hs, hg, hv⟩ | ⟨hs, hg, hm, hv⟩ |
    ⟨hs, hg, hm, hr, hv⟩ | ⟨hs, hg, hm, hr, hv⟩ <;> rw [hv] <;> simp_all

/-! ## More outage evidence -/

/-- The events with more proposal attempts among them, whose errors are all of the call
boundary. -/
inductive Widened (it : Interp) : List (Envelope F) → List (Envelope F) → Prop
  | nil : Widened it [] []
  | keep (e : Envelope F) {events events' : List (Envelope F)} (h : Widened it events events') :
      Widened it (e :: events) (e :: events')
  | add {e : Envelope F} {errors : List String} {events events' : List (Envelope F)}
      (he : e.event = some (.proposalAttempted errors))
      (herrors : ∀ text ∈ errors, isCallBoundary it text = true) (h : Widened it events events') :
      Widened it events (e :: events')

/-- The records of a round agree but for call-boundary errors of the second. -/
structure Grown (it : Interp) (r r' : RoundRecord F) : Prop where
  opened : r'.opened = r.opened
  closed : r'.closed = r.closed
  gates : r'.gates = r.gates
  generationIds : r'.generationIds = r.generationIds
  findings : r'.validationFindings = r.validationFindings
  sampled : r'.proposal.candidatesSampled = r.proposal.candidatesSampled
  recombined : r'.proposal.recombinedSampled = r.proposal.recombinedSampled
  experiments : r'.proposal.experimentIds = r.proposal.experimentIds
  kept : ∀ text ∈ r.proposal.errors, text ∈ r'.proposal.errors
  more : ∀ text ∈ r'.proposal.errors, text ∈ r.proposal.errors ∨ isCallBoundary it text = true

theorem Grown.refl (r : RoundRecord F) : Grown it r r where
  opened := rfl
  closed := rfl
  gates := rfl
  generationIds := rfl
  findings := rfl
  sampled := rfl
  recombined := rfl
  experiments := rfl
  kept _ := id
  more _ := .inl

variable {r r' : RoundRecord F}

/-- The same event keeps the records so. -/
theorem Grown.next (h : Grown it r r') (e : Envelope F) : Grown it (r.next e) (r'.next e) := by
  obtain ⟨hopened, hclosed, hgates, hgen, hfind, hsampled, hrec, hexp, hkept, hmore⟩ := h
  rw [RoundRecord.next, RoundRecord.next]
  cases e.event with
  | none => exact ⟨hopened, hclosed, hgates, hgen, hfind, hsampled, hrec, hexp, hkept, hmore⟩
  | some event =>
    cases event with
    | proposalAttempted errors =>
      refine ⟨hopened, hclosed, hgates, hgen, hfind, hsampled, hrec, hexp, fun text ht => ?_,
        fun text ht => ?_⟩
      · rcases mem_append.mp ht with ht | ht
        · exact mem_append_left _ (hkept text ht)
        · exact mem_append_right _ ht
      · rcases mem_append.mp ht with ht | ht
        · exact (hmore text ht).imp (mem_append_left _) id
        · exact .inl (mem_append_right _ ht)
    | roundOpened hash =>
      exact ⟨rfl, hclosed, hgates, hgen, hfind, hsampled, hrec, hexp, hkept, hmore⟩
    | candidateSampled recombined =>
      refine ⟨hopened, hclosed, hgates, hgen, hfind, congrArg (· + 1) hsampled, ?_, hexp, hkept,
        hmore⟩
      cases recombined
      · exact hrec
      · exact congrArg (· + 1) hrec
    | experimentMinted id =>
      exact ⟨hopened, hclosed, hgates, hgen, hfind, hsampled, hrec, congrArg (· ++ [id]) hexp, hkept,
        hmore⟩
    | patchesApplied id =>
      exact ⟨hopened, hclosed, hgates, congrArg (· ++ [id]) hgen, hfind, hsampled, hrec, hexp, hkept,
        hmore⟩
    | validationFailed findings =>
      exact ⟨hopened, hclosed, hgates, hgen, congrArg (· ++ findings) hfind, hsampled, hrec, hexp,
        hkept, hmore⟩
    | gateEvaluated gate =>
      exact ⟨hopened, hclosed, congrArg (· ++ [gate]) hgates, hgen, hfind, hsampled, hrec, hexp,
        hkept, hmore⟩
    | roundClosed =>
      exact ⟨hopened, rfl, hgates, hgen, hfind, hsampled, hrec, hexp, hkept, hmore⟩
    | _ => exact ⟨hopened, hclosed, hgates, hgen, hfind, hsampled, hrec, hexp, hkept, hmore⟩

/-- An attempt at the call boundary keeps them so. -/
theorem Grown.attempt (h : Grown it r r') {e : Envelope F} {errors : List String}
    (he : e.event = some (.proposalAttempted errors))
    (herrors : ∀ text ∈ errors, isCallBoundary it text = true) : Grown it r (r'.next e) := by
  obtain ⟨hopened, hclosed, hgates, hgen, hfind, hsampled, hrec, hexp, hkept, hmore⟩ := h
  rw [RoundRecord.next, he]
  refine ⟨hopened, hclosed, hgates, hgen, hfind, hsampled, hrec, hexp, fun text ht => ?_,
    fun text ht => ?_⟩
  · exact mem_append_left _ (hkept text ht)
  · rcases mem_append.mp ht with ht | ht
    · exact hmore text ht
    · exact .inr (herrors text ht)

variable {events' : List (Envelope F)}

theorem Widened.grown (h : Widened it events events') (hr : Grown it r r') :
    Grown it (events.foldl RoundRecord.next r) (events'.foldl RoundRecord.next r') := by
  induction h generalizing r r' with
  | nil => exact hr
  | keep e _ ih => exact ih (hr.next e)
  | add he herrors _ ih => exact ih (hr.attempt he herrors)

theorem Grown.proposerReached (h : Grown it r r') : proposerReached r' = proposerReached r := by
  rw [Integrity.proposerReached, Integrity.proposerReached, h.sampled, h.recombined, h.experiments,
    h.generationIds]

/-- An error of the call boundary is no evidence of a patch. -/
theorem Grown.invalidPatch (h : Grown it r r') : invalidPatch it r' = invalidPatch it r := by
  rw [Integrity.invalidPatch, Integrity.invalidPatch, h.findings]
  congr 1
  rw [Bool.eq_iff_iff, any_eq_true, any_eq_true]
  constructor
  · rintro ⟨text, hmem, hcontent⟩
    rcases h.more text hmem with hmem | hboundary
    · exact ⟨text, hmem, hcontent⟩
    · simp [hboundary] at hcontent
  · rintro ⟨text, hmem, hcontent⟩
    exact ⟨text, h.kept text hmem, hcontent⟩

/-- What was matched is matched still. -/
theorem Grown.markers (h : Grown it r r')
    (hnone : matchedMarkers it infraMarkers r'.proposal.errors = []) :
    matchedMarkers it infraMarkers r.proposal.errors = [] := by
  rw [matchedMarkers_eq_nil_iff] at hnone ⊢
  exact fun text hmem => hnone text (h.kept text hmem)

/-- The status of a record. -/
def statusOf (it : Interp) (infraMarkers : List String) (record : RoundRecord F) : RoundStatus :=
  (verdict it record (matchedMarkers it infraMarkers record.proposal.errors)).1

theorem Grown.complete_iff (h : Grown it r r') :
    statusOf it infraMarkers r' = .complete ↔ statusOf it infraMarkers r = .complete := by
  rw [statusOf, statusOf, verdict_complete_iff, verdict_complete_iff, h.opened, h.closed, h.gates]

/-- A degraded arm was one before. -/
theorem Grown.settledDegraded (h : Grown it r r')
    (hstatus : statusOf it infraMarkers r' = .settledDegraded) :
    statusOf it infraMarkers r = .settledDegraded := by
  rw [statusOf, verdict_settledDegraded_iff] at hstatus ⊢
  obtain ⟨hsettled, hgates, hmarkers, hrule⟩ := hstatus
  refine ⟨?_, h.gates ▸ hgates, h.markers hmarkers, ?_⟩
  · rw [← h.opened, ← h.closed, hsettled]
  · rw [← h.proposerReached, ← h.invalidPatch, hrule]

/-- More outage evidence never clears a round. -/
theorem Grown.status (h : Grown it r r') (infraMarkers : List String) :
    statusOf it infraMarkers r' = statusOf it infraMarkers r ∨
      statusOf it infraMarkers r = .settledDegraded ∧ statusOf it infraMarkers r' = .void := by
  cases hr : statusOf it infraMarkers r <;> cases hr' : statusOf it infraMarkers r'
  case settledDegraded.void => exact .inr ⟨rfl, rfl⟩
  case complete.complete => exact .inl rfl
  case settledDegraded.settledDegraded => exact .inl rfl
  case void.void => exact .inl rfl
  case void.settledDegraded =>
    rw [h.settledDegraded hr'] at hr
    cases hr
  all_goals
    have hcomplete :
        statusOf it infraMarkers r' = .complete ↔ statusOf it infraMarkers r = .complete :=
      h.complete_iff
    simp_all

/-! ## The final attempt of a round with more evidence -/

/-- The final attempt starts at the last opening. -/
theorem finalAttemptEvents_cons (e : Envelope F) (rest : List (Envelope F)) :
    finalAttemptEvents (e :: rest) =
      if rest.any (·.opens) then finalAttemptEvents rest else e :: rest := by
  obtain ⟨span, hspan⟩ := exists_finalSpan rest
  rw [hspan.eq]
  cases hspan with
  | @opened before e' rest' he' hrest =>
    rw [if_pos (by simp [he'])]
    exact (FinalSpan.opened (e :: before) he' hrest).eq
  | whole hnone =>
    rw [if_neg (by simpa using hnone)]
    cases he : e.opens with
    | true => exact (FinalSpan.opened [] he hnone).eq
    | false => exact (FinalSpan.whole (forall_mem_cons.mpr ⟨he, hnone⟩)).eq

theorem finalAttemptEvents_of_none (h : events.any (·.opens) = false) :
    finalAttemptEvents events = events :=
  (FinalSpan.whole (by simpa using h)).eq

/-- An attempt opens no round. -/
theorem Widened.opens (h : Widened it events events') :
    events'.any (·.opens) = events.any (·.opens) := by
  induction h with
  | nil => rfl
  | keep e _ ih => rw [any_cons, any_cons, ih]
  | @add e errors _ _ he _ _ ih =>
    have hopens : e.opens = false := by rw [Envelope.opens, he]
    rw [any_cons, hopens, Bool.false_or, ih]

/-- A widened log has a widened final attempt. -/
theorem Widened.final (h : Widened it events events') :
    Widened it (finalAttemptEvents events) (finalAttemptEvents events') := by
  induction h with
  | nil => exact .nil
  | @keep e events events' h ih =>
    rw [finalAttemptEvents_cons, finalAttemptEvents_cons, h.opens]
    by_cases hopen : events.any (·.opens) = true
    · rw [if_pos hopen, if_pos hopen]
      exact ih
    · rw [if_neg hopen, if_neg hopen]
      exact .keep e h
  | @add e errors events events' he herrors h ih =>
    rw [finalAttemptEvents_cons e events', h.opens]
    by_cases hopen : events.any (·.opens) = true
    · rw [if_pos hopen]
      exact ih
    · rw [if_neg hopen, finalAttemptEvents_of_none (by simpa using hopen)]
      exact .add he herrors h

/-! ## An outage of the proposer -/

/-- The errors of the proposals that an event brings. -/
def Envelope.errors (e : Envelope F) : List String :=
  match e.event with
  | some (.proposalAttempted errors) => errors
  | _ => []

/-- The errors of a record are those of its events. -/
theorem foldl_errors (events : List (Envelope F)) (r : RoundRecord F) :
    (events.foldl RoundRecord.next r).proposal.errors =
      r.proposal.errors ++ events.flatMap (·.errors) := by
  induction events generalizing r with
  | nil => simp
  | cons e rest ih =>
    rw [foldl_cons, ih, flatMap_cons, ← List.append_assoc]
    congr 1
    rw [RoundRecord.next, Envelope.errors]
    cases e.event with
    | none => simp
    | some event => cases event <;> simp [RoundRecord.add]

theorem isHardInfraError_mono {infraMarkers' : List String} (hsub : infraMarkers ⊆ infraMarkers')
    {text : String} (h : isHardInfraError it infraMarkers text = true) :
    isHardInfraError it infraMarkers' text = true := by
  rw [isHardInfraError, Bool.and_eq_true, any_eq_true] at h ⊢
  obtain ⟨hboundary, marker, hmem, hmarker⟩ := h
  exact ⟨hboundary, marker, hsub hmem, hmarker⟩

/-- Errors that defer a round have a marker among them. -/
theorem markers_of_outage {attempts : List String} (hsub : HARD_INFRA_MARKERS ⊆ infraMarkers)
    (h : infrastructureOutage it attempts = true) :
    matchedMarkers it infraMarkers attempts ≠ [] := by
  rw [infrastructureOutage, Bool.and_eq_true, Bool.not_eq_true', all_eq_true] at h
  obtain ⟨hsome, hall⟩ := h
  obtain ⟨text, hmem⟩ := exists_mem_of_ne_nil attempts (by simpa using hsome)
  intro hnil
  have hhard := isHardInfraError_mono hsub (hall text hmem)
  rw [matchedMarkers_eq_nil_iff.mp hnil text hmem] at hhard
  cases hhard

theorem verdict_void_of_markers {markers : List String} (hgates : record.gates = [])
    (hmarkers : markers ≠ []) : (verdict it record markers).1 = .void := by
  rcases verdict_cases it record markers with ⟨-, hv⟩ | ⟨-, hg, -⟩ | ⟨-, -, -, hv⟩ |
    ⟨-, -, hm, -⟩ | ⟨-, -, hm, -⟩
  · exact hv
  · exact absurd hgates hg
  · exact hv
  · exact absurd hm hmarkers
  · exact absurd hm hmarkers

/-! ## The status of a log -/

/-- The status that the log of a round is given. -/
def status (it : Interp) (infraMarkers : List String) (events : List (Envelope F)) : RoundStatus :=
  (roundIntegrity it events 0 "" infraMarkers).status

theorem status_eq (infraMarkers : List String) (events : List (Envelope F)) :
    status it infraMarkers events =
      statusOf it infraMarkers (foldRoundRecord (finalAttemptEvents events)) := rfl

theorem status_complete_iff (h : FinalSpan span events) :
    status it infraMarkers events = .complete ↔
      (∃ e ∈ span, e.opens = true) ∧ (∃ e ∈ span, e.closes = true) ∧
        ∃ e ∈ span, e.gates ≠ [] := by
  rw [status_eq, h.eq, statusOf, verdict_complete_iff, foldRoundRecord, foldl_opened, foldl_closed,
    foldl_gates]
  simp

/-- The status of a round is that of its final attempt, complete if and only if that opened, was
gated and closed; more call-boundary errors leave it or turn a degraded arm void; and without a
gate, errors that defer a round make it void. -/
theorem status_sound (it : Interp) (infraMarkers : List String) (events : List (Envelope F))
    (roundIndex : Int) (logPath : String) :
    (roundIntegrity it events roundIndex logPath infraMarkers).status =
        status it infraMarkers events ∧
      ∃ span, FinalSpan span events ∧
        status it infraMarkers events = status it infraMarkers span ∧
        (status it infraMarkers events = .complete ↔
          (∃ e ∈ span, e.opens = true) ∧ (∃ e ∈ span, e.closes = true) ∧
            ∃ e ∈ span, e.gates ≠ []) ∧
        (∀ events', Widened it events events' →
          status it infraMarkers events' = status it infraMarkers events ∨
            status it infraMarkers events = .settledDegraded ∧
              status it infraMarkers events' = .void) ∧
        (HARD_INFRA_MARKERS ⊆ infraMarkers → (∀ e ∈ span, e.gates = []) →
          infrastructureOutage it (span.flatMap (·.errors)) = true →
            status it infraMarkers events = .void) := by
  obtain ⟨span, hspan⟩ := exists_finalSpan events
  refine ⟨rfl, span, hspan, ?_, status_complete_iff hspan, fun events' hwide => ?_,
    fun hsub hgates houtage => ?_⟩
  · rw [status_eq, status_eq, hspan.eq, hspan.self.eq]
  · rw [status_eq, status_eq]
    exact (hwide.final.grown (Grown.refl _)).status infraMarkers
  · rw [status_eq, hspan.eq, statusOf]
    apply verdict_void_of_markers
    · rw [foldRoundRecord, foldl_gates]
      simpa using hgates
    · rw [foldRoundRecord, foldl_errors, List.nil_append]
      exact markers_of_outage hsub houtage

/-- The lower case of ASCII, and its digits. -/
def ascii : Interp where
  lower := String.toLower
  decimal := Char.isDigit

/-- A round deferred for want of a credential. -/
def deferred : List (Envelope Unit) :=
  [⟨1, some (.roundOpened "c")⟩,
    ⟨2, some (.proposalAttempted ["Slot 0: The proposal episode failed: invalid_api_key"])⟩,
    ⟨3, some .roundClosed⟩]

theorem status_sound_deferred : status ascii HARD_INFRA_MARKERS deferred = .void := by
  obtain ⟨-, span, hspan, -, -, -, hvoid⟩ :=
    status_sound ascii HARD_INFRA_MARKERS deferred 0 ""
  have hfinal : FinalSpan deferred deferred :=
    .opened [] rfl (by simp [Envelope.opens])
  obtain rfl : span = deferred := hspan.eq.symm.trans hfinal.eq
  exact hvoid (List.Subset.refl _) (by simp [deferred, Envelope.gates]) (by decide +kernel)

end Zicato.Integrity
