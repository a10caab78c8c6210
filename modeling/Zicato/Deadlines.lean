import Zicato.Watchdog

/-! # When a run is overdue

The deadline and the staleness of a run record.  Dates and durations are those of
`Chrono`: an addition that leaves the range of dates panics, and a panic ends the
task that watches every run. -/
namespace Zicato.Watchdog
open Chrono

/-- The overflows of `chrono` that panic. -/
inductive Panic
  | dateOverflow
  | durationOverflow
  deriving DecidableEq, Repr

/-- The thresholds of the run watchdog. -/
structure Thresholds where
  runStaleWarn : Duration
  runStaleKill : Duration
  /-- The grace of a stale run. -/
  grace : Duration
  /-- The grace of a run terminated for any other reason. -/
  runKillGrace : Duration
  maxRunSeconds : Duration
  runDeadlineKillDisabled : Bool

/-- `RunAction`. -/
inductive RunAction
  | nothing
  | warn
  | kill (pid : Int)
  deriving DecidableEq, Repr

/-- `RunDeadlineAction`. -/
inductive RunDeadlineAction
  | none
  | sigterm (pid : Int)
  | sigkill (pid : Int)
  deriving DecidableEq, Repr

/-- `a.signed_duration_since(b)` -/
def since (a b : DateTime) : Except Panic TimeDelta :=
  match a.checkedSince b with
  | some d => .ok d
  | none => .error .durationOverflow

/-- `t + d` -/
def later (t : DateTime) (d : Duration) : Except Panic DateTime :=
  match t.checkedAdd d with
  | some u => .ok u
  | none => .error .dateOverflow

/-- `a.min(b)` -/
def earlier (a b : DateTime) : DateTime := if a.reading ≤ b.reading then a else b

/-- The verdict on a run whose reference is that many seconds old: twice the
budget of the record, or the configured limit, is fatal. -/
def staleness (run : ActiveRun) (t : Thresholds) (ageSecs : Nat) : RunAction :=
  let effectiveKillSecs :=
    match run.wallClockBudgetSeconds with
    | some budget => budget.twiceCeil
    | none => t.runStaleKill.secs
  if effectiveKillSecs ≤ ageSecs then
    match run.pid with
    | some pid => .kill pid
    | none => .warn
  else if t.runStaleWarn.secs ≤ ageSecs then .warn
  else .nothing

/-- `decide_run`. -/
def decideRun (run : ActiveRun) (now : DateTime) (t : Thresholds) : Except Panic RunAction :=
  match run.lastProgress.or run.startedAt with
  | none => .ok .nothing
  | some reference => do
    let elapsed ← since now reference
    .ok (staleness run t (max elapsed.numSeconds 0).toNat)

/-- The cap on the deadline; no cap when the configured length does not fit. -/
def ceiling (written started : DateTime) (maxRunSeconds : Duration) : Except Panic DateTime :=
  match TimeDelta.fromStd maxRunSeconds with
  | some _ => later started maxRunSeconds
  | none => .ok written

/-- `effective_deadline`. -/
def effectiveDeadline (run : ActiveRun) (maxRunSeconds : Duration) :
    Except Panic (Option DateTime) :=
  match run.deadline with
  | none => .ok none
  | some written =>
    match run.startedAt with
    | none => .ok (some written)
    | some started => do
      let ceiling ← ceiling written started maxRunSeconds
      .ok (some (earlier written ceiling))

/-- What is decided once the deadline has passed. -/
def overdue (run : ActiveRun) (overrun : TimeDelta) (grace : Duration) (protected_ : List Int) :
    Look RunDeadlineAction := do
  match ← decideRunKillRequest run protected_ with
  | none => pure .none
  | some pid =>
    let grace := (TimeDelta.fromStd grace).getD TimeDelta.zero
    if TimeDelta.lt grace overrun then pure (.sigkill pid) else pure (.sigterm pid)

/-- `decide_run_deadline`. -/
def decideRunDeadline (run : ActiveRun) (now : DateTime) (grace maxRunSeconds : Duration)
    (protected_ : List Int) : Except Panic (Look RunDeadlineAction) := do
  match ← effectiveDeadline run maxRunSeconds with
  | none => .ok (pure .none)
  | some deadline =>
    if now.reading ≤ deadline.reading then .ok (pure .none)
    else
      let overrun ← since now deadline
      .ok (overdue run overrun grace protected_)

/-! ## What a date can be capped by -/

theorem since_eq (a b : DateTime) : since a b = .ok (a.reading.signedDurationSince b.reading) := by
  rw [since, DateTime.checkedSince_eq]

theorem earlier_reading (a b : DateTime) : (earlier a b).reading = min a.reading b.reading := by
  unfold earlier
  split
  · rename_i h
    exact (min_eq_left h).symm
  · rename_i h
    exact (min_eq_right (le_of_lt (not_le.1 h))).symm

/-- A duration that does not fit reaches past every date. -/
theorem le_plus_of_long {d : Duration} (h : TimeDelta.fromStd d = none) (a b : DateTime) :
    a.reading ≤ b.reading.plus d := by
  have hlong : TimeDelta.maxSecs ≤ d.secs := by
    unfold TimeDelta.fromStd at h
    split at h
    · cases h
    · rename_i hnot
      omega
  have hplus := b.reading.le_plus_secs d
  have hb := b.min_le
  have ha := a.le_max
  refine Instant.le_iff.2 (.inl ?_)
  unfold TimeDelta.maxSecs at hlong
  unfold minSecs at hb
  unfold maxDateSecs at ha
  omega

section
variable (run : ActiveRun) (maxRunSeconds : Duration)

/-- The cap of the record lies in the range of dates, where there is one. -/
def CapInRange : Prop :=
  ∀ deadline started, run.deadline = some deadline → run.startedAt = some started →
    (TimeDelta.fromStd maxRunSeconds).isSome = true →
    (started.reading.plus maxRunSeconds).secs ≤ maxDateSecs

/-- The decisions return, and the deadline they enforce is capped. -/
structure Clamps (now : DateTime) (grace : Duration) (t : Thresholds) (protected_ : List Int) :
    Prop where
  stale : ∃ action, decideRun run now t = .ok action
  deadline : ∃ deadline, effectiveDeadline run maxRunSeconds = .ok deadline
  decides : ∃ action, decideRunDeadline run now grace maxRunSeconds protected_ = .ok action
  capped : ∀ written started, run.deadline = some written → run.startedAt = some started →
    ∃ deadline, effectiveDeadline run maxRunSeconds = .ok (some deadline) ∧
      deadline.reading = min written.reading (started.reading.plus maxRunSeconds)
  /-- Past the cap only the request itself can still refuse. -/
  enforced : ∀ written started, run.deadline = some written → run.startedAt = some started →
    started.reading.plus maxRunSeconds < now.reading →
    ∃ overrun, decideRunDeadline run now grace maxRunSeconds protected_ =
      .ok (overdue run overrun grace protected_)

end

variable {run : ActiveRun} {maxRunSeconds : Duration}

theorem decideRun_ok (run : ActiveRun) (now : DateTime) (t : Thresholds) :
    ∃ action, decideRun run now t = .ok action := by
  unfold decideRun
  cases hreference : run.lastProgress.or run.startedAt with
  | none => exact ⟨_, rfl⟩
  | some reference =>
    simp only [since_eq]
    exact ⟨_, rfl⟩

/-- With its cap in range the deadline is computed. -/
theorem effectiveDeadline_ok (h : CapInRange run maxRunSeconds) :
    ∃ deadline, effectiveDeadline run maxRunSeconds = .ok deadline ∧
      ∀ written started, run.deadline = some written → run.startedAt = some started →
        ∃ e, deadline = some e ∧
          e.reading = min written.reading (started.reading.plus maxRunSeconds) := by
  unfold effectiveDeadline
  cases hwritten : run.deadline with
  | none => exact ⟨none, rfl, by simp⟩
  | some written =>
    cases hstarted : run.startedAt with
    | none => exact ⟨some written, rfl, by simp⟩
    | some started =>
      have hceiling : ∃ c, ceiling written started maxRunSeconds = .ok c ∧
          min written.reading c.reading =
            min written.reading (started.reading.plus maxRunSeconds) := by
        unfold ceiling
        cases hfit : TimeDelta.fromStd maxRunSeconds with
        | none =>
          refine ⟨written, rfl, ?_⟩
          rw [min_self, min_eq_left (le_plus_of_long hfit written started)]
        | some d =>
          have hrange := h written started hwritten hstarted (by rw [hfit]; rfl)
          unfold later
          cases hadd : started.checkedAdd maxRunSeconds with
          | none =>
            have hover := DateTime.checkedAdd_eq_none.1 hadd
            omega
          | some u => exact ⟨u, rfl, by rw [DateTime.checkedAdd_eq_some hadd]⟩
      obtain ⟨c, hc, hmin⟩ := hceiling
      refine ⟨some (earlier written c), by simp only [hc]; rfl, ?_⟩
      intro written' started' hw hs
      cases hw
      cases hs
      exact ⟨_, rfl, by rw [earlier_reading, hmin]⟩

/-- Out of range there is none. -/
theorem effectiveDeadline_panics {written started : DateTime} (hwritten : run.deadline = some written)
    (hstarted : run.startedAt = some started)
    (hfit : (TimeDelta.fromStd maxRunSeconds).isSome = true)
    (hover : maxDateSecs < (started.reading.plus maxRunSeconds).secs) :
    effectiveDeadline run maxRunSeconds = .error .dateOverflow := by
  obtain ⟨d, hd⟩ := Option.isSome_iff_exists.1 hfit
  simp only [effectiveDeadline, hwritten, hstarted, ceiling, hd, later,
    DateTime.checkedAdd_eq_none.2 hover]
  rfl

/-- **The timing decisions return and cap the deadline exactly when the cap itself
is a date.**  Otherwise the addition panics. -/
theorem clamps_iff (run : ActiveRun) (now : DateTime) (grace maxRunSeconds : Duration)
    (t : Thresholds) (protected_ : List Int) :
    Clamps run maxRunSeconds now grace t protected_ ↔ CapInRange run maxRunSeconds := by
  constructor
  · intro h written started hwritten hstarted hfit
    by_contra hover
    obtain ⟨deadline, hdeadline⟩ := h.deadline
    rw [effectiveDeadline_panics hwritten hstarted hfit (by omega)] at hdeadline
    cases hdeadline
  · intro h
    obtain ⟨deadline, hdeadline, hcapped⟩ := effectiveDeadline_ok h
    have hdecides : ∀ e, deadline = some e → ¬ now.reading ≤ e.reading →
        decideRunDeadline run now grace maxRunSeconds protected_ =
          .ok (overdue run (now.reading.signedDurationSince e.reading) grace protected_) := by
      rintro e rfl hlate
      simp only [decideRunDeadline, hdeadline, since_eq]
      exact if_neg hlate
    constructor
    case stale => exact decideRun_ok run now t
    case deadline => exact ⟨deadline, hdeadline⟩
    case decides =>
      cases deadline with
      | none => exact ⟨_, by simp only [decideRunDeadline, hdeadline]; rfl⟩
      | some e =>
        by_cases hle : now.reading ≤ e.reading
        · refine ⟨pure .none, ?_⟩
          simp only [decideRunDeadline, hdeadline]
          exact if_pos hle
        · exact ⟨_, hdecides e rfl hle⟩
    case capped =>
      intro written started hwritten hstarted
      obtain ⟨e, rfl, he⟩ := hcapped written started hwritten hstarted
      exact ⟨e, hdeadline, he⟩
    case enforced =>
      intro written started hwritten hstarted hpast
      obtain ⟨e, rfl, he⟩ := hcapped written started hwritten hstarted
      refine ⟨_, hdecides e rfl ?_⟩
      rw [he, not_le]
      exact lt_of_le_of_lt (min_le_right _ _) hpast

/-- The last second of the year 262142. -/
def lastSecond : DateTime where
  reading := ⟨maxDateSecs, 0⟩
  min_le := by decide
  le_max := by decide
  nanos_lt := by decide
  leap := by decide

/-- A record that started then, with a deadline. -/
def lateRun : ActiveRun where
  runId := "run-1"
  pid := some 200
  producerPid := none
  producerStartTime := none
  pidStartTime := some (F64.ofTicks 5)
  pgid := some 200
  snapshotPath := none
  startedAt := some lastSecond
  lastProgress := none
  deadline := some lastSecond
  wallClockBudgetSeconds := none

/-- The default cap of six hours. -/
def sixHours : Duration where
  secs := 6 * 3600
  nanos := 0
  secs_lt := by decide
  nanos_lt := by decide

/-- The watchdog panics on this record. -/
theorem late_start_panics :
    effectiveDeadline lateRun sixHours = .error .dateOverflow ∧
      ¬ ∀ (run : ActiveRun) (now : DateTime) (grace maxRunSeconds : Duration) (t : Thresholds)
        (protected_ : List Int), Clamps run maxRunSeconds now grace t protected_ := by
  have hpanics : effectiveDeadline lateRun sixHours = .error .dateOverflow :=
    effectiveDeadline_panics rfl rfl (by decide) (by decide)
  refine ⟨hpanics, fun h => ?_⟩
  obtain ⟨deadline, hdeadline⟩ := (h lateRun lastSecond sixHours sixHours
    { runStaleWarn := sixHours, runStaleKill := sixHours, grace := sixHours,
      runKillGrace := sixHours, maxRunSeconds := sixHours,
      runDeadlineKillDisabled := false } []).deadline
  rw [hpanics] at hdeadline
  cases hdeadline

end Zicato.Watchdog
