import Zicato.Events

/-! # Which event logs are read

The reader skips what `json.loads` refuses, and raises where a conversion of an accepted
value is not guarded: a timestamp beyond the range of a float, a token count that is not
finite, nesting deeper than the stack.  Then the records of every other line are lost. -/
open List
namespace Zicato.Events

variable {F : Type} (it : Interp F)

/-! ## Lines -/

section Lines

variable {α : Type} {decode : Dict String (PyValue F) → Except Raised (Option α)}

/-- A blank line, or one that is read without an error. -/
def Readable (decode : Dict String (PyValue F) → Except Raised (Option α)) (line : Text) : Prop :=
  Text.strip line = [] ∨ ∃ record, readLine it decode line = .ok record

/-- The record of a line, if it is read and has one. -/
def recordAt (decode : Dict String (PyValue F) → Except Raised (Option α)) (line : Text) :
    Option α :=
  if Text.strip line = [] then none
  else
    match readLine it decode line with
    | .ok record => record
    | .error _ => none

/-- A line that is read adds its record, if it has one. -/
theorem readStep_ok {log log' : Log α} {line : Text}
    (h : readStep it decode log line = .ok log') :
    Readable it decode line ∧ log'.records = log.records ++ (recordAt it decode line).toList := by
  rw [readStep] at h
  rw [Readable, recordAt]
  split at h
  · rename_i hblank
    cases h
    rw [if_pos hblank]
    exact ⟨.inl hblank, (append_nil _).symm⟩
  · rename_i hblank
    obtain ⟨record, hrecord, h⟩ := bind_eq_ok h
    rw [if_neg hblank, hrecord]
    refine ⟨.inr ⟨record, rfl⟩, ?_⟩
    cases record <;> cases h
    · exact (append_nil _).symm
    · rfl

theorem exists_readStep_iff (log : Log α) (line : Text) :
    (∃ log', readStep it decode log line = .ok log') ↔ Readable it decode line := by
  refine ⟨fun ⟨log', h⟩ => (readStep_ok it h).1, fun h => ?_⟩
  rw [readStep]
  split
  · exact ⟨_, rfl⟩
  · rename_i hblank
    obtain ⟨record, hrecord⟩ := h.resolve_left hblank
    rw [hrecord]
    cases record <;> exact ⟨_, rfl⟩

/-- The records of a file are those of its lines. -/
theorem foldlM_readStep_records {lines : List Text} {log log' : Log α}
    (h : lines.foldlM (readStep it decode) log = .ok log') :
    log'.records = log.records ++ lines.filterMap (recordAt it decode) := by
  induction lines generalizing log with
  | nil =>
    cases h
    simp
  | cons line rest ih =>
    rw [foldlM_cons] at h
    obtain ⟨mid, hmid, h⟩ := bind_eq_ok h
    rw [ih h, (readStep_ok it hmid).2, List.append_assoc, filterMap_cons]
    cases recordAt it decode line <;> rfl

end Lines

/-! ## Values -/

variable [PyArith F]

/-- Infinity, which no integer is. -/
def Infinite (v : PyValue F) : Prop :=
  ∃ x, v = .float x ∧ PyFloat.isfinite x = false ∧ PyFloat.eq x x = true

/-- The conversion of a timestamp leaves the range of a float. -/
def Overflows (seconds nanos : PyValue F) : Prop :=
  Infinite seconds ∨
    ∃ s, intOf it seconds = .ok s ∧
      (Infinite nanos ∨ ∃ n, intOf it nanos = .ok n ∧ it.total s n = none)

/-- The field of a timestamp, or zero where it is neither a number nor a string. -/
def nanosOf (raw : Dict String (PyValue F)) : PyValue F :=
  if isNumberOrStr (Dict.getD raw "nanos" (.int 0)) then Dict.getD raw "nanos" (.int 0) else .int 0

/-- A proto timestamp in the event is within the range of a float. -/
def TimestampFits (event : Dict String (PyValue F)) : Prop :=
  ∀ raw, Dict.get? event "emitted_at" = some (.dict raw) →
    isNumberOrStr (Dict.getD raw "seconds" (.int 0)) = true →
      ¬ Overflows it (Dict.getD raw "seconds" (.int 0)) (nanosOf raw)

/-- The token counts of a model call are finite. -/
def TokensFinite (case : String) (payload : Dict String (PyValue F)) : Prop :=
  case = "goldfive_llm_call_end" →
    ∀ name ∈ TOKEN_KEYS, ∀ x, Dict.get? payload name = some (.float x) → PyFloat.isfinite x = true

/-- `int` overflows on an infinity only. -/
theorem intOf_overflow_iff {v : PyValue F} :
    intOf it v = .error .overflowError ↔ Infinite v := by
  constructor
  · intro h
    cases v with
    | float x =>
      rw [intOf] at h
      split at h
      · cases h
      rename_i hfinite
      split at h
      · rename_i heq
        exact ⟨x, rfl, by simpa using hfinite, heq⟩
      · cases h
    | str s =>
      rw [intOf] at h
      split at h <;> cases h
    | _ => cases h
  · rintro ⟨x, rfl, hfinite, heq⟩
    rw [intOf, hfinite, heq]
    rfl

/-- `int` does not recurse. -/
theorem intOf_ne_recursion (v : PyValue F) : intOf it v ≠ .error .recursionError := by
  intro h
  cases v with
  | float x =>
    rw [intOf] at h
    split at h
    · cases h
    split at h <;> cases h
  | str s =>
    rw [intOf] at h
    split at h <;> cases h
  | _ => cases h

/-- When the seconds of a timestamp overflow. -/
theorem totalOf_overflow_iff {seconds nanos : PyValue F} :
    totalOf it seconds nanos = .error .overflowError ↔ Overflows it seconds nanos := by
  rw [totalOf, Overflows]
  cases hs : intOf it seconds with
  | error e =>
    have hinf := (intOf_overflow_iff it (v := seconds)).symm
    rw [hs] at hinf
    rw [hinf]
    change Except.error e = Except.error Raised.overflowError ↔ _
    constructor
    · intro h
      exact .inl (congrArg _ (Except.error.inj h))
    · rintro (h | ⟨s, hs', -⟩)
      · exact congrArg _ (Except.error.inj h)
      · cases hs'
  | ok s =>
    have hfinite : ¬ Infinite seconds := by
      intro hinf
      rw [(intOf_overflow_iff it).mpr hinf] at hs
      cases hs
    rw [ok_bind]
    cases hn : intOf it nanos with
    | error e =>
      have hinf := (intOf_overflow_iff it (v := nanos)).symm
      rw [hn] at hinf
      change Except.error e = Except.error Raised.overflowError ↔ _
      constructor
      · intro h
        exact .inr ⟨s, rfl, .inl (hinf.mpr (congrArg _ (Except.error.inj h)))⟩
      · rintro (h | ⟨s', hs', h | ⟨n, hn', -⟩⟩)
        · exact absurd h hfinite
        · exact congrArg _ (Except.error.inj (hinf.mp h))
        · cases hn'
    | ok n =>
      have hfinite' : ¬ Infinite nanos := by
        intro hinf
        rw [(intOf_overflow_iff it).mpr hinf] at hn
        cases hn
      rw [ok_bind]
      constructor
      · intro h
        refine .inr ⟨s, rfl, .inr ⟨n, rfl, ?_⟩⟩
        split at h
        · cases h
        · assumption
      · rintro (h | ⟨s', hs', h | ⟨n', hn', htotal⟩⟩)
        · exact absurd h hfinite
        · exact absurd h hfinite'
        · cases hs'
          cases hn'
          rw [htotal]

/-- A timestamp does not recurse. -/
theorem totalOf_ne_recursion (seconds nanos : PyValue F) :
    totalOf it seconds nanos ≠ .error .recursionError := by
  intro h
  rw [totalOf] at h
  cases hs : intOf it seconds with
  | error e =>
    rw [hs] at h
    cases h
    exact intOf_ne_recursion it _ hs
  | ok s =>
    rw [hs, ok_bind] at h
    cases hn : intOf it nanos with
    | error e =>
      rw [hn] at h
      cases h
      exact intOf_ne_recursion it _ hn
    | ok n =>
      rw [hn, ok_bind] at h
      split at h <;> cases h

/-- When the time of an event is read. -/
theorem emittedAtOf_ok_iff (event : Dict String (PyValue F)) :
    (∃ at?, emittedAtOf it event = .ok at?) ↔ TimestampFits it event := by
  rw [emittedAtOf, TimestampFits]
  split
  · rename_i s hget
    simp [hget]
  · rename_i raw hget
    rw [hget]
    simp only [Option.some.injEq, PyValue.dict.injEq, forall_eq']
    by_cases hnum : isNumberOrStr (Dict.getD raw "seconds" (.int 0)) = true
    · rw [if_pos hnum, ← totalOf_overflow_iff, ← nanosOf]
      have hrec := totalOf_ne_recursion it (Dict.getD raw "seconds" (.int 0)) (nanosOf raw)
      cases htotal : totalOf it (Dict.getD raw "seconds" (.int 0)) (nanosOf raw) with
      | ok t => simp
      | error e =>
        rw [htotal] at hrec
        cases e <;> simp_all
    · rw [if_neg hnum]
      exact ⟨fun _ h => absurd h hnum, fun _ => ⟨none, rfl⟩⟩
  · rename_i hother
    refine ⟨fun _ raw hget => absurd hget (hother raw), fun _ => ⟨none, rfl⟩⟩

/-- When an object is parsed. -/
theorem parseEvent_ok_iff (obj : Dict String (PyValue F)) :
    (∃ record, parseEvent it obj = .ok record) ↔
      depth (.dict obj) ≤ it.stack ∧ TimestampFits it (snakeDict obj) := by
  rw [parseEvent, ← emittedAtOf_ok_iff]
  split
  · rename_i hdeep
    refine ⟨?_, fun h => absurd h.1 (by omega)⟩
    rintro ⟨record, h⟩
    cases h
  · rename_i hdeep
    refine ⟨?_, ?_⟩
    · rintro ⟨record, h⟩
      obtain ⟨emittedAt, hat, -⟩ := bind_eq_ok h
      exact ⟨by omega, emittedAt, hat⟩
    · rintro ⟨-, emittedAt, hat⟩
      rw [recordOf, hat]
      exact ⟨_, rfl⟩

/-! ## Signals -/

/-- When a token count is added. -/
theorem addTokens_ok_iff (payload : Dict String (PyValue F)) (count : Int) (name : String) :
    (∃ count', addTokens it payload count name = .ok count') ↔
      ∀ x, Dict.get? payload name = some (.float x) → PyFloat.isfinite x = true := by
  rw [addTokens]
  cases hget : Dict.get? payload name with
  | none => simp
  | some v =>
    cases v with
    | float x =>
      have hx : (∀ y, some (PyValue.float x) = some (PyValue.float y) →
          PyFloat.isfinite y = true) ↔ PyFloat.isfinite x = true := by simp
      rw [hx]
      by_cases hfinite : PyFloat.isfinite x = true
      · simp [isNumber, intOf, hfinite, Except.map]
      · by_cases heq : PyFloat.eq x x = true <;> simp [isNumber, intOf, hfinite, heq, Except.map]
    | _ => simp [isNumber, intOf, Except.map]

/-- When the reducer takes an event. -/
theorem walkStep_ok_iff (w : Walk) (evt : EventRecord F) :
    (∃ w', walkStep it w evt = .ok w') ↔ TokensFinite evt.case evt.payload := by
  rw [walkStep, walkCase, TokensFinite]
  by_cases hcase : evt.case = "goldfive_llm_call_end"
  · rw [hcase]
    simp only [String.reduceEq, if_false, if_true, forall_const]
    have hfold := exists_foldlM_ok_iff (addTokens_ok_iff it evt.payload) TOKEN_KEYS w.tokenCount
    rw [← hfold]
    constructor
    · rintro ⟨w', h⟩
      obtain ⟨tokens, htokens, -⟩ := bind_eq_ok h
      exact ⟨tokens, htokens⟩
    · rintro ⟨tokens, htokens⟩
      rw [htokens]
      exact ⟨_, rfl⟩
  · refine ⟨fun _ h => absurd h hcase, fun _ => ?_⟩
    split
    · split <;> exact ⟨_, rfl⟩
    split
    · split <;> exact ⟨_, rfl⟩
    split
    · exact ⟨_, rfl⟩
    split
    · exact ⟨_, rfl⟩
    split
    · exact ⟨_, rfl⟩
    split <;> exact ⟨_, rfl⟩

theorem goldfiveSignals_ok_iff (events : List (EventRecord F)) :
    (∃ signals, goldfiveSignals it events = .ok signals) ↔
      ∀ evt ∈ events, TokensFinite evt.case evt.payload := by
  rw [← exists_foldlM_ok_iff (walkStep_ok_iff it) events {}, goldfiveSignals]
  constructor
  · rintro ⟨signals, h⟩
    obtain ⟨w, hw, -⟩ := bind_eq_ok h
    exact ⟨w, hw⟩
  · rintro ⟨w, hw⟩
    rw [hw]
    exact ⟨_, rfl⟩

/-! ## Files -/

/-- The parse of a line that is well formed. -/
def lineRecord (line : Text) : Option (EventRecord F) :=
  if Text.strip line = [] then none
  else
    match it.loads line with
    | .ok (.dict obj) => (parseEvent it obj).toOption
    | _ => none

/-- The values of an event are within the bounds of what converts them. -/
def Fits (obj : Dict String (PyValue F)) : Prop :=
  depth (.dict obj) ≤ it.stack ∧ TimestampFits it (snakeDict obj) ∧
    TokensFinite (caseAndPayload (snakeDict obj)).1 (caseAndPayload (snakeDict obj)).2

/-- A line that is blank, or that `json.loads` refuses as malformed, or whose event fits. -/
def Benign (line : Text) : Prop :=
  Text.strip line = [] ∨
    match it.loads line with
    | .ok (.dict obj) => Fits it obj
    | .ok _ => True
    | .error .decode => True
    | .error (.raised _) => False

/-- Reading the file and reducing it return, and the records are the parses of its
well-formed lines. -/
def Tolerant (content : Text) : Prop :=
  ∃ log signals, readEventLog it (some content) = .ok log ∧
    goldfiveSignals it log.records = .ok signals ∧
    log.records = (fileLines content).filterMap (lineRecord it)

theorem parseEvent_case {obj : Dict String (PyValue F)} {record : EventRecord F}
    (h : parseEvent it obj = .ok record) :
    record.case = (caseAndPayload (snakeDict obj)).1 ∧
      record.payload = (caseAndPayload (snakeDict obj)).2 := by
  rw [parseEvent] at h
  split at h
  · cases h
  · obtain ⟨emittedAt, -, h⟩ := bind_eq_ok h
    cases h
    exact ⟨rfl, rfl⟩

theorem recordAt_eq (line : Text) :
    recordAt it (fun obj => (parseEvent it obj).map some) line = lineRecord it line := by
  rw [recordAt, lineRecord, readLine]
  split
  · rfl
  · cases it.loads line with
    | error e => cases e <;> rfl
    | ok v =>
      cases v with
      | dict obj => cases h : parseEvent it obj <;> simp [h, Except.map, Except.toOption]
      | _ => rfl

/-- A line is benign where it is read and its record is reduced. -/
theorem benign_iff (line : Text) :
    Benign it line ↔ Readable it (fun obj => (parseEvent it obj).map some) line ∧
      ∀ record ∈ lineRecord it line, TokensFinite record.case record.payload := by
  rw [Benign, Readable, lineRecord, readLine]
  by_cases hblank : Text.strip line = []
  · simp [hblank]
  simp only [hblank, false_or, if_false]
  cases it.loads line with
  | error e => cases e <;> simp
  | ok v =>
    cases v with
    | dict obj =>
      simp only [Fits]
      have hparse := parseEvent_ok_iff it obj
      cases hrecord : parseEvent it obj with
      | error e =>
        rw [hrecord] at hparse
        have hfalse : ¬ (depth (.dict obj) ≤ it.stack ∧ TimestampFits it (snakeDict obj)) := by
          rw [← hparse]
          simp
        simp only [Except.map, reduceCtorEq, exists_false, false_and, iff_false]
        exact fun h => hfalse ⟨h.1, h.2.1⟩
      | ok record =>
        rw [hrecord] at hparse
        obtain ⟨hdepth, hstamp⟩ := hparse.mp ⟨record, rfl⟩
        obtain ⟨hcase, hpayload⟩ := parseEvent_case it hrecord
        simp [Except.map, Except.toOption, hdepth, hstamp, hcase, hpayload]
    | _ => simp

/-- A file of benign lines is read whole. -/
theorem tolerant_of_benign {content : Text} (h : ∀ line ∈ fileLines content, Benign it line) :
    Tolerant it content := by
  have hread := (exists_foldlM_ok_iff (exists_readStep_iff it)
    (fileLines content) ({} : Log (EventRecord F))).mpr
      fun line hline => ((benign_iff it line).mp (h line hline)).1
  obtain ⟨log, hlog⟩ := hread
  have hrecords : log.records = (fileLines content).filterMap (lineRecord it) := by
    rw [foldlM_readStep_records it hlog, nil_append]
    exact filterMap_congr fun line _ => recordAt_eq it line
  have hsignals := (goldfiveSignals_ok_iff it log.records).mpr fun evt hevt => by
    rw [hrecords, mem_filterMap] at hevt
    obtain ⟨line, hline, hevt⟩ := hevt
    exact ((benign_iff it line).mp (h line hline)).2 evt hevt
  obtain ⟨signals, hsignals⟩ := hsignals
  exact ⟨log, signals, hlog, hsignals, hrecords⟩

theorem benign_of_tolerant {content : Text} (h : Tolerant it content) :
    ∀ line ∈ fileLines content, Benign it line := by
  obtain ⟨log, signals, hlog, hsignals, hrecords⟩ := h
  intro line hline
  refine (benign_iff it line).mpr ⟨?_, fun record hrecord => ?_⟩
  · exact (exists_foldlM_ok_iff (exists_readStep_iff it)
      (fileLines content) ({} : Log (EventRecord F))).mp ⟨log, hlog⟩ line hline
  · refine (goldfiveSignals_ok_iff it log.records).mp ⟨signals, hsignals⟩ record ?_
    rw [hrecords, mem_filterMap]
    exact ⟨line, hline, hrecord⟩

/-- Another line in the place of one leaves the records of the other lines. -/
def Local (content content' : Text) : Prop :=
  ∀ front line line' back, fileLines content = front ++ line :: back →
    fileLines content' = front ++ line' :: back →
      ∃ log log', readEventLog it (some content) = .ok log ∧
        readEventLog it (some content') = .ok log' ∧
        log.records = front.filterMap (lineRecord it) ++ (lineRecord it line).toList ++
          back.filterMap (lineRecord it) ∧
        log'.records = front.filterMap (lineRecord it) ++ (lineRecord it line').toList ++
          back.filterMap (lineRecord it)

theorem filterMap_insert {α β : Type} (f : α → Option β) (front : List α) (a : α) (back : List α) :
    (front ++ a :: back).filterMap f =
      front.filterMap f ++ (f a).toList ++ back.filterMap f := by
  rw [filterMap_append, List.append_assoc, filterMap_cons]
  cases f a <;> rfl

/-- A file is read and reduced where every line is benign, and one line for another
leaves the rest where both are. -/
theorem tolerant_iff_benign :
    (∀ content, Tolerant it content ↔ ∀ line ∈ fileLines content, Benign it line) ∧
      ∀ content content', Tolerant it content → Tolerant it content' →
        Local it content content' := by
  refine ⟨fun content => ⟨benign_of_tolerant it, tolerant_of_benign it⟩, ?_⟩
  rintro content content' ⟨log, -, hlog, -, hrecords⟩ ⟨log', -, hlog', -, hrecords'⟩
  intro front line line' back hlines hlines'
  rw [hlines, filterMap_insert] at hrecords
  rw [hlines', filterMap_insert] at hrecords'
  exact ⟨log, log', hlog, hlog', hrecords, hrecords'⟩

/-- A plan revision. -/
def revisedLine : Text := "\x7b\"planRevised\": \x7b\x7d\x7d".toList

/-- An event emitted at no moment. -/
def stampLine : Text := "\x7b\"emittedAt\": \x7b\"seconds\": Infinity\x7d\x7d".toList

/-- The interpreter on these two lines. -/
def stampInterp : Interp Exact :=
  { plainInterp with
    loads := fun line =>
      if line = revisedLine then .ok (.dict [("planRevised", .dict [])])
      else if line = stampLine then .ok (.dict [("emittedAt", .dict [("seconds", .float .pinf)])])
      else .error .decode }

/-- A line between two plan revisions. -/
def between (line : Text) : Text := revisedLine ++ '\n' :: line ++ '\n' :: revisedLine

/-- The lines around the replaced one are benign. -/
theorem benign_between {line : Text} (hline : Benign stampInterp line)
    (hlines : fileLines (between line) = [revisedLine, line, revisedLine]) :
    ∀ l ∈ fileLines (between line), Benign stampInterp l := by
  have hrevised : Benign stampInterp revisedLine := by
    have hloads : stampInterp.loads revisedLine = .ok (.dict [("planRevised", .dict [])]) := by
      simp [stampInterp]
    rw [Benign, hloads]
    have hstamp : Dict.get? (snakeDict [("planRevised", (.dict [] : PyValue Exact))]) "emitted_at" =
        none := by decide
    refine .inr ⟨by decide, fun raw hraw => ?_, fun hcase => absurd hcase (by decide)⟩
    rw [hstamp] at hraw
    cases hraw
  rw [hlines]
  simp [hrevised, hline]

/-- A torn line in the place of a malformed one. -/
theorem tolerant_iff_benign_malformed : Local stampInterp (between ['x']) (between ['\x7b']) :=
  (tolerant_iff_benign stampInterp).2 _ _
    (tolerant_of_benign stampInterp (benign_between (.inr trivial) (by decide)))
    (tolerant_of_benign stampInterp (benign_between (.inr trivial) (by decide)))

/-- The infinite timestamp of one event costs the record of the other. -/
theorem infinite_stamp_raises : ¬ Tolerant stampInterp (revisedLine ++ '\n' :: stampLine) := by
  rintro ⟨log, signals, hlog, -⟩
  have hraises : (readEventLog stampInterp
      (some (revisedLine ++ '\n' :: stampLine))).toBool = false := by decide +kernel
  rw [hlog] at hraises
  cases hraises

end Zicato.Events
