import Zicato.LedgerRuns

/-! # Sequence numbers of the ledger in 64 bits

`seed_tail` adds one to the number of every line that parses and `append` to the
number it has written, in `u64` with overflow checks.  The file may hold any bytes, so
a line may carry any number of 64 bits. -/
open List
namespace Zicato.Ledger

variable (codec : LedgerCodec)

/-! ## The code with checked additions

`none` is a panic. -/

/-- `n + 1` in `u64`. -/
def succU64 (n : Nat) : Option Nat := if n + 1 < 2 ^ 64 then some (n + 1) else none

/-- `seed_tail`. -/
def seedTailU64 (file : File) : Option Tail :=
  (Lines.split newline (file.getD [])).foldlM (fun tail line =>
    match codec.lineFromSlice line with
    | .ok rec => (succU64 rec.seq).map fun next => { nextSeq := next, prev := rec.digest }
    | .error _ => some tail) { nextSeq := 0, prev := genesisPrev }

/-- `append`: the addition follows the write. -/
def appendU64 (tail : Tail) (file : File) (kind : RecordKind) (payload : Json) (ts : String)
    (outcome : WriteOutcome) : Option Appended :=
  match codec.toRawValue payload with
  | .error _ => some { file := file, tail := some tail, attempt := none }
  | .ok raw =>
      let line := nextLine codec tail kind ts raw
      match codec.lineToString line with
      | .error _ => some { file := file, tail := some tail, attempt := none }
      | .ok text =>
          let written : Appended :=
            { file := writeLine file (text ++ [newline]) outcome
              tail := none
              attempt := some { line := line, text := text, before := file, outcome := outcome } }
          match outcome with
          | .done => (succU64 tail.nextSeq).map fun next =>
              { written with tail := some { nextSeq := next, prev := line.digest } }
          | outcome => some { written with tail := outcome.cursor tail line }

/-- `check`. -/
def checkU64 (ledger : AuditLedger) (file : File) (ts : String) (outcome : WriteOutcome) :
    Option Opened :=
  let report := verify codec ledger file
  if report.intact then
    some { file := file, ledger := some { ledger with breakLogged := false }, attempts := [] }
  else if ledger.recordedBreaks.contains report.firstBreakSeq then
    some { file := file, ledger := some { ledger with breakLogged := true }, attempts := [] }
  else
    (appendU64 codec ledger.tail file .ledgerIntegrity (chainBreakPayload report) ts outcome).map
      fun appended =>
        { file := appended.file
          ledger := appended.tail.map fun tail =>
            { ledger with
              tail := tail, breakLogged := true
              recordedBreaks := ledger.recordedBreaks ++ [report.firstBreakSeq] }
          attempts := appended.attempt.toList }

/-- `open`. -/
def openU64 (file : File) (io : OpenIo) : Option Opened := do
  let (removed, file) := repairTornTail codec file io.repaired
  let tail ← seedTailU64 codec file
  let ledger : AuditLedger :=
    { tail := tail
      partialFinalLine := removed.map fun bytes =>
        s!"removed a {bytes.length}-byte partial final line when the ledger was opened"
      recordedBreaks := (Lines.split newline (file.getD [])).filterMap codec.breakOfSlice }
  match removed with
  | none => checkU64 codec ledger file io.breakTs io.breakOutcome
  | some bytes =>
      let appended ← appendU64 codec ledger.tail file .ledgerIntegrity
        (partialLinePayload codec bytes) io.integrityTs io.integrityOutcome
      match appended.tail with
      | none =>
          some { file := appended.file, ledger := none, attempts := appended.attempt.toList }
      | some tail =>
          (checkU64 codec { ledger with tail := tail } appended.file io.breakTs io.breakOutcome).map
            fun checked => { checked with attempts := appended.attempt.toList ++ checked.attempts }

/-- One event. -/
def stepU64 (s : State) : Event → Option State
  | .opens io => (openU64 codec s.file io).map fun opened =>
      { file := opened.file, ledger := opened.ledger, history := s.history ++ opened.attempts }
  | .appends kind payload ts outcome =>
      match s.ledger with
      | none => some s
      | some ledger =>
          (appendU64 codec ledger.tail s.file kind payload ts outcome).map fun appended =>
            { file := appended.file
              ledger := appended.tail.map fun tail => { ledger with tail := tail }
              history := s.history ++ appended.attempt.toList }

/-- The arguments and the outcome of an append. -/
structure AppendCall where
  kind : RecordKind
  payload : Json
  ts : String
  outcome : WriteOutcome

/-- The call as an event of the ledger. -/
def AppendCall.event (c : AppendCall) : Event := .appends c.kind c.payload c.ts c.outcome

/-- An open of a file and appends. -/
def sessionEvents (io : OpenIo) (calls : List AppendCall) : List Event :=
  .opens io :: calls.map AppendCall.event

/-- The session with numbers that do not overflow. -/
def session (file : File) (io : OpenIo) (calls : List AppendCall) : State :=
  (sessionEvents io calls).foldl (step codec) { file := file }

/-- A session whose counter is a `u64`. -/
def sessionU64 (file : File) (io : OpenIo) (calls : List AppendCall) : Option State :=
  (sessionEvents io calls).foldlM (stepU64 codec) { file := file }

/-! ## Panics

The checked code computes what the unbounded one does, or panics. -/

/-- The numbers after these records are in range. -/
def RecordsFit (lines : List Line) : Prop := ∀ rec ∈ lines, rec.seq + 1 < 2 ^ 64

instance (lines : List Line) : Decidable (RecordsFit lines) :=
  inferInstanceAs (Decidable (∀ rec ∈ lines, rec.seq + 1 < 2 ^ 64))

/-- The appends that wrote their record. -/
def successes (attempts : List Attempt) : List Line :=
  (attempts.filter fun a => decide (a.outcome = .done)).map (·.line)

variable {codec}

theorem succU64_of_lt {n : Nat} (h : n + 1 < 2 ^ 64) : succU64 n = some (n + 1) := if_pos h

theorem succU64_of_not_lt {n : Nat} (h : ¬n + 1 < 2 ^ 64) : succU64 n = none := if_neg h

theorem recordsFit_cons {rec : Line} {lines : List Line} :
    RecordsFit (rec :: lines) ↔ rec.seq + 1 < 2 ^ 64 ∧ RecordsFit lines := forall_mem_cons

theorem recordsFit_append {lines lines' : List Line} :
    RecordsFit (lines ++ lines') ↔ RecordsFit lines ∧ RecordsFit lines' := forall_mem_append

@[simp] theorem successes_append (attempts attempts' : List Attempt) :
    successes (attempts ++ attempts') = successes attempts ++ successes attempts' := by
  simp [successes]

/-- The machine's tail is the exact one, or it overflows. -/
theorem seedTailU64_eq (file : File) : seedTailU64 codec file =
    if RecordsFit (fileRecords codec file) then some (seedTail codec file) else none := by
  unfold seedTailU64 seedTail fileRecords
  generalize (⟨0, genesisPrev⟩ : Tail) = tail
  induction Lines.split newline (file.getD []) generalizing tail with
  | nil => exact (if_pos fun _ h => nomatch h).symm
  | cons line lines ih =>
    rw [foldlM_cons, foldl_cons, filterMap_cons, tailStep]
    cases codec.lineFromSlice line with
    | error e => exact ih tail
    | ok rec =>
      simp only [Except.toOption, recordsFit_cons]
      by_cases hfit : rec.seq + 1 < 2 ^ 64
      · rw [succU64_of_lt hfit]
        simp only [hfit, true_and]
        exact ih _
      · rw [succU64_of_not_lt hfit, if_neg fun h => hfit h.1]
        rfl

/-- An append of the machine is the exact one, or it overflows. -/
theorem appendU64_eq (tail : Tail) (file : File) (kind : RecordKind) (payload : Json) (ts : String)
    (outcome : WriteOutcome) : appendU64 codec tail file kind payload ts outcome =
      if RecordsFit (successes (append codec tail file kind payload ts outcome).attempt.toList)
      then some (append codec tail file kind payload ts outcome) else none := by
  unfold appendU64 append
  cases codec.toRawValue payload with
  | error e => rfl
  | ok raw =>
    simp only
    cases codec.lineToString (nextLine codec tail kind ts raw) with
    | error e => rfl
    | ok text =>
      cases outcome with
      | done =>
        have hfit : RecordsFit [nextLine codec tail kind ts raw] ↔ tail.nextSeq + 1 < 2 ^ 64 :=
          forall_mem_singleton
        by_cases h : tail.nextSeq + 1 < 2 ^ 64
        · rw [succU64_of_lt h]
          exact (if_pos (hfit.mpr h)).symm
        · rw [succU64_of_not_lt h]
          exact (if_neg fun h' => h (hfit.mp h')).symm
      | refused | failed | left k | diedBefore | died k => rfl

/-- A check of the machine is the exact one, or it overflows. -/
theorem checkU64_eq (ledger : AuditLedger) (file : File) (ts : String) (outcome : WriteOutcome) :
    checkU64 codec ledger file ts outcome =
      if RecordsFit (successes (check codec ledger file ts outcome).attempts)
      then some (check codec ledger file ts outcome) else none := by
  unfold checkU64 check
  simp only [contains_iff_mem]
  by_cases hintact : (verify codec ledger file).intact = true
  · rw [if_pos hintact, if_pos hintact]
    rfl
  rw [if_neg hintact, if_neg hintact]
  by_cases hrecorded : (verify codec ledger file).firstBreakSeq ∈ ledger.recordedBreaks
  · rw [if_pos hrecorded, if_pos hrecorded]
    rfl
  rw [if_neg hrecorded, if_neg hrecorded, appendU64_eq]
  split <;> rfl

/-- Opening on the machine is exact, or it overflows. -/
theorem openU64_eq (file : File) (io : OpenIo) : openU64 codec file io =
    if RecordsFit (fileRecords codec (repairTornTail codec file io.repaired).2) ∧
        RecordsFit (successes (openLedger codec file io).attempts)
    then some (openLedger codec file io) else none := by
  unfold openU64 openLedger
  obtain ⟨removed, file⟩ := repairTornTail codec file io.repaired
  simp only [seedTailU64_eq]
  by_cases hfile : RecordsFit (fileRecords codec file)
  swap
  · rw [if_neg hfile, if_neg fun h => hfile h.1]
    rfl
  rw [if_pos hfile]
  simp only [hfile, true_and]
  cases removed with
  | none => exact checkU64_eq _ _ _ _
  | some bytes =>
    simp only [Option.bind_eq_bind, Option.bind_some, appendU64_eq]
    generalize append codec (seedTail codec file) file .ledgerIntegrity (partialLinePayload codec bytes)
      io.integrityTs io.integrityOutcome = appended
    obtain ⟨written, tail, attempt⟩ := appended
    cases tail with
    | none => split <;> rfl
    | some tail =>
      simp only [successes_append, recordsFit_append, checkU64_eq]
      split <;> rename_i hfit
      · simp only [Option.bind_some, hfit, true_and]
        split <;> rfl
      · simp [hfit]

theorem stepU64_append (s : State) (c : AppendCall) : ∃ attempts : List Attempt,
    (step codec s c.event).history = s.history ++ attempts ∧
      stepU64 codec s c.event =
        if RecordsFit (successes attempts) then some (step codec s c.event) else none := by
  obtain ⟨file, ledger, history⟩ := s
  cases ledger with
  | none => exact ⟨[], (append_nil _).symm, rfl⟩
  | some ledger =>
    refine ⟨_, rfl, ?_⟩
    simp only [stepU64, AppendCall.event, appendU64_eq]
    split <;> rfl

theorem history_appends (s : State) (calls : List AppendCall) : ∃ attempts : List Attempt,
    ((calls.map AppendCall.event).foldl (step codec) s).history = s.history ++ attempts := by
  induction calls generalizing s with
  | nil => exact ⟨[], (append_nil _).symm⟩
  | cons c rest ih =>
    obtain ⟨attempts, hstep, -⟩ := @stepU64_append codec s c
    obtain ⟨later, hlater⟩ := ih (step codec s c.event)
    refine ⟨attempts ++ later, ?_⟩
    rw [map_cons, foldl_cons, hlater, hstep, List.append_assoc]

/-- A session on the machine is exact, or it overflows. -/
theorem appendsU64_eq (s : State) (calls : List AppendCall) (h : RecordsFit (successes s.history)) :
    (calls.map AppendCall.event).foldlM (stepU64 codec) s =
      if RecordsFit (successes ((calls.map AppendCall.event).foldl (step codec) s).history)
      then some ((calls.map AppendCall.event).foldl (step codec) s) else none := by
  induction calls generalizing s with
  | nil => exact (if_pos h).symm
  | cons c rest ih =>
    obtain ⟨attempts, hhistory, hstep⟩ := @stepU64_append codec s c
    rw [map_cons, foldlM_cons, foldl_cons, hstep]
    by_cases hfit : RecordsFit (successes attempts)
    · rw [if_pos hfit]
      refine ih _ ?_
      rw [hhistory, successes_append]
      exact recordsFit_append.mpr ⟨h, hfit⟩
    · obtain ⟨later, hlater⟩ := @history_appends codec (step codec s c.event) rest
      rw [if_neg hfit, hlater, hhistory, successes_append, successes_append, if_neg]
      · rfl
      · exact fun hall => hfit (recordsFit_append.mp (recordsFit_append.mp hall).1).2

/-- The session panics exactly if a number of the file or of one of its records is the last
of 64 bits. -/
theorem sessionU64_eq (file : File) (io : OpenIo) (calls : List AppendCall) :
    sessionU64 codec file io calls =
      if RecordsFit (fileRecords codec (repairTornTail codec file io.repaired).2) ∧
          RecordsFit (successes (session codec file io calls).history)
      then some (session codec file io calls) else none := by
  rw [sessionU64, sessionEvents, foldlM_cons, stepU64, openU64_eq]
  have hsession : session codec file io calls = (calls.map AppendCall.event).foldl (step codec)
      { file := (openLedger codec file io).file
        ledger := (openLedger codec file io).ledger
        history := (openLedger codec file io).attempts } := rfl
  obtain ⟨later, hlater⟩ := @history_appends codec
    { file := (openLedger codec file io).file
      ledger := (openLedger codec file io).ledger
      history := (openLedger codec file io).attempts } calls
  by_cases hopen : RecordsFit (fileRecords codec (repairTornTail codec file io.repaired).2) ∧
      RecordsFit (successes (openLedger codec file io).attempts)
  · have happends := @appendsU64_eq codec
      { file := (openLedger codec file io).file
        ledger := (openLedger codec file io).ledger
        history := (openLedger codec file io).attempts } calls hopen.2
    rw [if_pos hopen, hsession]
    simp only [hopen.1, true_and]
    exact happends
  · rw [if_neg hopen, if_neg]
    · rfl
    · rintro ⟨hfile, hall⟩
      rw [hsession, hlater, successes_append] at hall
      exact hopen ⟨hfile, (recordsFit_append.mp hall).1⟩

/-! ## The chain on disk -/

variable (codec) in
/-- The append put its record on a line of its own, the last one of the file, and chained it
to the record before. -/
structure Chained (a : Attempt) : Prop where
  last : ∃ lines, Lines.split newline
    ((writeLine a.before (a.text ++ [newline]) .done).getD []) = lines ++ [a.text, []]
  parses : codec.lineFromSlice a.text = .ok a.line
  follows : match (fileRecords codec a.before).getLast? with
    | some rec => a.line.seq = rec.seq + 1 ∧ a.line.prev = rec.digest
    | none => a.line.seq = 0 ∧ a.line.prev = genesisPrev

theorem seedTail_getLast (file : File) : seedTail codec file =
    match (fileRecords codec file).getLast? with
    | some rec => { nextSeq := rec.seq + 1, prev := rec.digest }
    | none => { nextSeq := 0, prev := genesisPrev } := by
  rw [seedTail_eq]
  rcases eq_nil_or_concat' (fileRecords codec file) with hnil | ⟨lines, line, hconcat⟩
  · rw [hnil]
    rfl
  · rw [hconcat, tailAfter_concat, getLast?_concat]
    rfl

/-- What a successful append has written is chained exactly if the cursor was where the
file ends. -/
theorem chained_iff (hc : LawfulCodec codec) {a : Attempt} (hw : Written codec a.line a.text) :
    Chained codec a ↔ a.line.seq = (seedTail codec a.before).nextSeq ∧
      a.line.prev = (seedTail codec a.before).prev := by
  have hfollows : (match (fileRecords codec a.before).getLast? with
      | some rec => a.line.seq = rec.seq + 1 ∧ a.line.prev = rec.digest
      | none => a.line.seq = 0 ∧ a.line.prev = genesisPrev) ↔
      a.line.seq = (seedTail codec a.before).nextSeq ∧
        a.line.prev = (seedTail codec a.before).prev := by
    rw [seedTail_getLast]
    cases (fileRecords codec a.before).getLast? <;> rfl
  rw [← hfollows]
  refine ⟨fun h => h.follows, fun h => ⟨?_, hc.roundTrip hw, h⟩⟩
  obtain ⟨lead, lines, hpend, -, -, hsplit⟩ := pendingWrite_lead a.before (a.text ++ [newline])
  refine ⟨lines, ?_⟩
  rw [writeLine, Option.getD_some, hpend, hsplit, Lines.split_piece (hc.noNewline hw)]
  rfl

/-- A failed write has left its whole line. -/
def Attempt.strays (a : Attempt) : Bool :=
  match a.outcome with
  | .left _ => a.survives
  | _ => false

/-- No append succeeds after a failed one has left its whole line. -/
def Orderly (attempts : List Attempt) : Prop :=
  attempts.Pairwise fun a b => a.strays = true → b.outcome ≠ .done

instance (attempts : List Attempt) : Decidable (Orderly attempts) :=
  inferInstanceAs (Decidable (attempts.Pairwise _))

theorem orderly_concat {attempts : List Attempt} {a : Attempt} : Orderly (attempts ++ [a]) ↔
    Orderly attempts ∧ (a.outcome = .done → ∀ b ∈ attempts, b.strays = false) := by
  rw [Orderly, pairwise_append]
  simp only [pairwise_singleton, true_and, mem_singleton, forall_eq]
  refine and_congr_right fun _ => ⟨fun h hdone b hb => ?_, fun h b hb hstrays hdone => ?_⟩
  · exact Bool.eq_false_iff.mpr fun hstrays => h b hb hstrays hdone
  · exact Bool.eq_false_iff.mp (h hdone b hb) hstrays

variable (codec) in
/-- A process and what it has written: while the writes are orderly its cursor is where
the file ends, or one record before a line that was left behind. -/
structure InStep (seed : Nat) (file : File) (tail : Option Tail) (attempts : List Attempt) :
    Prop where
  next : ∀ t, tail = some t → t.nextSeq = seed + (successes attempts).length
  seqs : (successes attempts).map (·.seq) = List.range' seed (successes attempts).length
  chained : (∀ a ∈ attempts, a.outcome = .done → Chained codec a) ↔ Orderly attempts
  cursor : ∀ t, tail = some t → Orderly attempts →
    ((∀ a ∈ attempts, a.strays = false) → t = seedTail codec file) ∧
    ∀ a ∈ attempts, a.strays = true → (seedTail codec file).nextSeq = t.nextSeq + 1

section InStep
variable {seed : Nat} {file file' : File} {tail : Tail} {tail' : Option Tail}
  {attempts : List Attempt} {a : Attempt}

theorem successes_concat : successes (attempts ++ [a]) =
    successes attempts ++ if a.outcome = .done then [a.line] else [] := by
  rw [successes_append]
  refine congrArg _ ?_
  by_cases h : a.outcome = .done <;> simp [successes, h]

/-- The write succeeded. -/
theorem InStep.success (hc : LawfulCodec codec) (h : InStep codec seed file (some tail) attempts)
    (hdone : a.outcome = .done) (hw : Written codec a.line a.text) (hbefore : a.before = file)
    (hseq : a.line.seq = tail.nextSeq) (hprev : a.line.prev = tail.prev)
    (hseed : seedTail codec file' = a.line.advance) :
    InStep codec seed file' (some a.line.advance) (attempts ++ [a]) := by
  have hnext := h.next tail rfl
  have hstill : a.strays = false := by rw [Attempt.strays, hdone]
  refine ⟨fun t ht => ?_, ?_, ?_, fun t ht hord => ?_⟩
  · obtain rfl := Option.some.inj ht
    rw [successes_concat, if_pos hdone, length_append, length_singleton, Line.advance, hseq, hnext]
    exact Nat.add_assoc ..
  · rw [successes_concat, if_pos hdone, map_append, h.seqs, length_append, length_singleton,
      range'_1_concat, ← hnext, ← hseq]
    rfl
  -- chained on the last line exactly when no failed append has left one above the cursor
  · rw [orderly_concat, ← h.chained]
    simp only [mem_append, mem_singleton, or_imp, forall_and, forall_eq, hdone, forall_const]
    refine and_congr_right fun hall => ?_
    obtain ⟨hin, hbehind⟩ := h.cursor tail rfl (h.chained.mp hall)
    rw [chained_iff hc hw, hbefore]
    constructor
    · intro hchained b hb
      refine Bool.eq_false_iff.mpr fun hstrays => ?_
      have := hbehind b hb hstrays
      omega
    · intro hnone
      rw [← hin hnone]
      exact ⟨hseq, hprev⟩
  · obtain rfl := Option.some.inj ht
    obtain ⟨-, hnone⟩ := orderly_concat.mp hord
    refine ⟨fun _ => hseed.symm, fun b hb hstrays => ?_⟩
    rcases mem_append.mp hb with hb | hb
    · rw [hnone hdone b hb] at hstrays
      cases hstrays
    · rw [mem_singleton.mp hb, hstill] at hstrays
      cases hstrays

/-- The write failed, or the process died in it. -/
theorem InStep.failure (h : InStep codec seed file (some tail) attempts)
    (hdone : a.outcome ≠ .done) (htail : ∀ t, tail' = some t → t = tail)
    (hleft : tail' ≠ none → if a.strays then (seedTail codec file').nextSeq = tail.nextSeq + 1
      else seedTail codec file' = seedTail codec file) :
    InStep codec seed file' tail' (attempts ++ [a]) := by
  have hsame : successes (attempts ++ [a]) = successes attempts := by
    rw [successes_concat, if_neg hdone, append_nil]
  have hord : Orderly (attempts ++ [a]) ↔ Orderly attempts := by
    rw [orderly_concat, and_iff_left fun hd => absurd hd hdone]
  refine ⟨fun t ht => ?_, by rw [hsame, h.seqs], ?_, fun t ht horderly => ?_⟩
  · rw [hsame, htail t ht, h.next tail rfl]
  · rw [hord, ← h.chained]
    simp only [mem_append, mem_singleton, or_imp, forall_and, forall_eq, hdone, false_imp_iff,
      and_true]
  · obtain rfl := htail t ht
    have hleft := hleft (by simp [ht])
    obtain ⟨hin, hbehind⟩ := h.cursor _ rfl (hord.mp horderly)
    cases hstrays : a.strays with
    | true =>
      rw [hstrays, if_pos rfl] at hleft
      refine ⟨fun hall => ?_, fun _ _ _ => hleft⟩
      rw [hall a (by simp)] at hstrays
      cases hstrays
    | false =>
      rw [hstrays, if_neg (by simp)] at hleft
      rw [hleft]
      refine ⟨fun hall => hin fun b hb => hall b (by simp [hb]), fun b hb hs => ?_⟩
      rcases mem_append.mp hb with hb | hb
      · exact hbehind b hb hs
      · rw [mem_singleton.mp hb, hstrays] at hs
        cases hs

/-- **An append keeps the process in step.** -/
theorem InStep.append (hc : LawfulCodec codec) (h : InStep codec seed file (some tail) attempts)
    (kind : RecordKind) (payload : Json) (ts : String) (outcome : WriteOutcome) :
    InStep codec seed (Ledger.append codec tail file kind payload ts outcome).file
      (Ledger.append codec tail file kind payload ts outcome).tail
      (attempts ++ (Ledger.append codec tail file kind payload ts outcome).attempt.toList) := by
  have hseed : seedTail codec (Ledger.append codec tail file kind payload ts outcome).file =
      tailAfter genesis (fileRecords codec file ++
        survivors (Ledger.append codec tail file kind payload ts outcome).attempt.toList) := by
    rw [seedTail_eq, records_of_append hc]
  rcases @append_cases codec tail file kind payload ts outcome with happ | ⟨raw, text, -, hw, happ⟩
  · rw [happ]
    simpa using h
  rw [happ] at hseed ⊢
  dsimp only [Option.toList] at hseed ⊢
  rw [survivors_singleton] at hseed
  have hlost : ∀ {a : Attempt} {file'}, a.survives = false → seedTail codec file' = tailAfter genesis
      (fileRecords codec file ++ if a.survives then [a.line] else []) →
      seedTail codec file' = seedTail codec file := by
    intro a file' ha hseed'
    rw [hseed', ha, seedTail_eq]
    exact congrArg _ (append_nil _)
  cases outcome with
  | done =>
    refine h.success (a := ⟨nextLine codec tail kind ts raw, text, file, .done⟩) hc rfl hw rfl rfl
      rfl ?_
    rw [hseed]
    exact tailAfter_concat ..
  | refused | failed =>
    exact h.failure (by simp) (fun t ht => (Option.some.inj ht).symm) fun _ => hlost rfl hseed
  | diedBefore | died k =>
    refine h.failure (by simp) (fun t ht => ?_) fun hne => absurd rfl hne
    cases ht
  | left k =>
    refine h.failure (by simp) (fun t ht => (Option.some.inj ht).symm) fun _ => ?_
    split
    · rename_i hwhole
      have hsurvives : Attempt.survives ⟨nextLine codec tail kind ts raw, text, file, .left k⟩ =
          true := hwhole
      rw [hseed, if_pos hsurvives, tailAfter_concat]
      rfl
    · rename_i hpart
      exact hlost (a := ⟨nextLine codec tail kind ts raw, text, file, .left k⟩)
        (Bool.eq_false_iff.mpr hpart) hseed

/-- **A session keeps the process in step**, from what the open finds on. -/
theorem inStep_session (hc : LawfulCodec codec) (file : File) (io : OpenIo)
    (calls : List AppendCall) :
    InStep codec (seedTail codec file).nextSeq (session codec file io calls).file
      ((session codec file io calls).ledger.map (·.tail)) (session codec file io calls).history := by
  have hstart : ∀ file' tail, (∀ t, tail = some t → t = seedTail codec file) →
      seedTail codec file' = seedTail codec file →
      InStep codec (seedTail codec file).nextSeq file' tail [] := by
    intro file' tail htail hseed
    refine ⟨fun t ht => ?_, rfl, iff_of_true (by simp) (by simp [Orderly]), fun t ht _ => ?_⟩
    · rw [htail t ht]
      rfl
    · exact ⟨fun _ => (htail t ht).trans hseed.symm, by simp⟩
  have hrepair : seedTail codec (repairTornTail codec file io.repaired).2 = seedTail codec file := by
    rw [seedTail_eq, seedTail_eq, records_repair hc]
  rw [session, sessionEvents, foldl_cons]
  generalize hopened : step codec { file := file } (.opens io) = opened
  have hopen : InStep codec (seedTail codec file).nextSeq opened.file
      (opened.ledger.map (·.tail)) opened.history := by
    subst hopened
    refine step_induction (s := { file := file }) (.opens io) ?_ ?_ ?_
    · exact hstart file none (fun _ ht => nomatch ht) rfl
    · intro io' he
      obtain rfl := Event.opens.inj he
      exact hstart _ _ (fun t ht => (Option.some.inj ht).symm.trans hrepair) hrepair
    · intro file tail history kind payload ts outcome _ h
      exact h.append hc kind payload ts outcome
  clear hopened
  induction calls generalizing opened with
  | nil => exact hopen
  | cons c rest ih =>
    refine ih _ (step_induction c.event hopen (fun io' he => nomatch he) ?_)
    intro file tail history kind payload ts outcome _ h
    exact h.append hc kind payload ts outcome

end InStep

/-! ## Totality -/

variable (codec) in
/-- Nothing panics, and every record that an append wrote is chained on disk. -/
def Total (file : File) (io : OpenIo) (calls : List AppendCall) : Prop :=
  ∃ final, sessionU64 codec file io calls = some final ∧
    ∀ a ∈ final.history, a.outcome = .done → Chained codec a

/-- The numbers that a session writes fit if the last one does. -/
theorem InStep.fit_iff {seed : Nat} {file : File} {tail : Option Tail} {attempts : List Attempt}
    (h : InStep codec seed file tail attempts) (hseed : seed < 2 ^ 64) :
    RecordsFit (successes attempts) ↔ seed + (successes attempts).length < 2 ^ 64 := by
  have hmap : RecordsFit (successes attempts) ↔
      ∀ n ∈ range' seed (successes attempts).length, n + 1 < 2 ^ 64 := by
    rw [← h.seqs]
    simp [RecordsFit]
  rw [hmap]
  simp only [mem_range'_1]
  constructor
  · intro hall
    by_cases hzero : (successes attempts).length = 0
    · omega
    · have := hall (seed + (successes attempts).length - 1) (by omega)
      omega
  · intro hlast n hn
    omega

/-- A record with the last number of 64 bits. -/
def lastLine : Line := { startLine with seq := 2 ^ 64 - 1, digest := genesisPrev }

/-- The text of the last record a `u64` can number. -/
def lastText : Bytes := lineText "18446744073709551615" lastLine "null"

/-- A codec that knows this text. -/
def lastCodec : LedgerCodec :=
  tableCodec [(lastLine, lastText)] [] (fun _ => .error "out of range") (fun _ => "")

/-- A success, a failure that leaves a part of its line, and a success after it. -/
def startCalls : List AppendCall :=
  [⟨.supervisorStart, .null, "2025-01-01T00:00:00+00:00", .done⟩,
    ⟨.supervisorStart, .null, "2025-01-01T00:01:00+00:00", .left 7⟩,
    ⟨.supervisorStart, .null, "2025-01-01T00:01:00+00:00", .done⟩]

end Zicato.Ledger
