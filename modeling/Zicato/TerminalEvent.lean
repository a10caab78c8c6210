import Zicato.EventTolerance
import Zicato.JsonAscii
import Zicato.JsonExact

/-! # The terminal event of a killed run

`zicato/telemetry/terminal_event.py`: the frame that is appended where no terminal event
is in the file.  It is appended to the text as it is, so it goes to the line the killed
writer has left open, and is read only where that line holds nothing but the white space
of JSON. -/
open List
namespace Zicato.Events

open Json (Floats)

def WALL_CLOCK_REASON : String := "wall_clock_budget_exceeded"

/-- The payload cases that end a run. -/
def TERMINAL_CASES : List String := ["conversation_ended", "run_aborted", "run_completed"]

variable {F : Type} [PyArith F] (it : Interp F)

/-- A record of one of the terminal cases is there. -/
def hasTerminal (records : List (EventRecord F)) : Bool :=
  records.any fun r => TERMINAL_CASES.contains r.case

/-- `_file_already_has_terminal`. -/
def fileAlreadyHasTerminal (content : Option Text) : Except Raised Bool :=
  match content with
  | none => .ok false
  | some _ => (readEventLog it content).map fun log => hasTerminal log.records

/-- One turn of the loop of `_highest_seen`. -/
def seenStep (seen : String × Int) (record : EventRecord F) : String × Int :=
  (if record.runId = "" then seen.1 else record.runId,
    match record.sequence with
    | some n => if seen.2 < n then n else seen.2
    | none => seen.2)

/-- `_highest_seen`. -/
def highestSeen (content : Option Text) : Except Raised (String × Int) :=
  (readEventLog it content).map fun log => log.records.foldl seenStep ("", -1)

/-- The run and the sequence to fold in: they are scanned for where one is not given. -/
def seenBefore (content : Option Text) (runId : String) (sequence : Option Int) :
    Except Raised (String × Int) :=
  if runId = "" ∨ sequence = none then highestSeen it content else .ok (runId, -1)

/-- The envelope where the goldfive stubs cannot be imported. -/
def envelope (runId : String) (sequence : Int) (reason : String) : Dict String (PyValue F) :=
  [("run_aborted", .dict [("reason", .str reason)]), ("run_id", .str runId),
    ("sequence", .int sequence)]

/-- What `_proto_run_aborted_line` uses: `MessageToJson` of the goldfive event, if the
stubs can be imported, and whether `str` writes an integer. -/
structure Stubs (F : Type) where
  floats : Floats F
  goldfive : Option (String → Int → String → Except Raised Text)
  /-- The integer has no more digits than `sys.int_max_str_digits`. -/
  writes : Int → Bool

variable (stubs : Stubs F)

/-- `_proto_run_aborted_line`. -/
def protoRunAbortedLine (runId : String) (sequence : Int) (reason : String) :
    Except Raised Text :=
  match stubs.goldfive with
  | some line => line runId sequence reason
  | none =>
      if stubs.writes sequence then
        .ok (Json.dumps stubs.floats .default (.dict (envelope runId sequence reason)))
      else .error .valueError

/-- `ensure_run_aborted_event` where the write succeeds: what it returns, and what the
file holds then. -/
def ensureRunAbortedEvent (content : Option Text) (reason runId : String)
    (sequence : Option Int) : Except Raised (Bool × Option Text) := do
  if ← fileAlreadyHasTerminal it content then .ok (false, content)
  else
    match content with
    | none => .ok (false, none)
    | some text =>
        let seen ← seenBefore it content runId sequence
        let line ← protoRunAbortedLine stubs (if runId = "" then seen.1 else runId)
          (sequence.getD (if 0 ≤ seen.2 then seen.2 + 1 else 0)) reason
        .ok (true, some (text ++ line ++ ['\n']))

/-! ## What the write relies on -/

/-- `json.loads` is the reader of JSON, or exceeds a limit of the interpreter. -/
def ReadsJson (fl : Floats F) : Prop :=
  ∀ text, (∃ e, it.loads text = .error (.raised e)) ∨
    it.loads text = (Json.loads fl text).mapError fun _ => .decode

/-- No limit of the interpreter is met in the line, with or without blanks before it. -/
def Within (line : Text) : Prop :=
  ∀ blank, (∀ c ∈ blank, Json.isWs c = true) → ∀ e, it.loads (blank ++ line) ≠ .error (.raised e)

/-- The text of an object that is an event of a terminal case. -/
def IsTerminalLine (fl : Floats F) (line : Text) : Prop :=
  ∃ k v rest c s, line = Json.dumps fl .default (.dict ((k, v) :: rest)) ∧
    k.toList = c :: s ∧ c.isAlpha = true ∧ Json.Keyed (.dict ((k, v) :: rest)) ∧
    ∃ record, parseEvent it ((k, v) :: rest) = .ok record ∧ record.case ∈ TERMINAL_CASES

/-- What the frame that is written relies on. -/
structure Stubs.Sound (stubs : Stubs F) : Prop where
  json : ReadsJson it stubs.floats
  stack : 3 ≤ it.stack
  envelope : ∀ runId n reason, stubs.writes n = true →
    Within it (Json.dumps stubs.floats .default (.dict (envelope runId n reason)))
  goldfive : ∀ f, stubs.goldfive = some f → ∀ runId n reason line, f runId n reason = .ok line →
    IsTerminalLine it stubs.floats line ∧ Within it line

/-- A written envelope is a terminal line. -/
theorem isTerminalLine_envelope (fl : Floats F) (hstack : 3 ≤ it.stack) (runId : String) (n : Int)
    (reason : String) :
    IsTerminalLine it fl (Json.dumps fl .default (.dict (envelope runId n reason))) := by
  have hdepth : ¬ it.stack < depth (.dict (envelope (F := F) runId n reason)) := by
    have h3 : depth (.dict (envelope (F := F) runId n reason)) = 3 := rfl
    omega
  have hsnake : snakeDict (envelope (F := F) runId n reason) = envelope runId n reason := by
    have hreason : toSnake "reason" = "reason" := by decide
    have haborted : toSnake "run_aborted" = "run_aborted" := by decide
    have hrun : toSnake "run_id" = "run_id" := by decide
    have hsequence : toSnake "sequence" = "sequence" := by decide
    simp only [snakeDict, envelope, snakeFields, snakeDeep, hreason, haborted, hrun, hsequence]
    rfl
  have hparse : ∃ record, parseEvent it (envelope runId n reason) = .ok record ∧
      record.case = "run_aborted" := by
    rw [parseEvent, if_neg hdepth, hsnake]
    exact ⟨_, rfl, rfl⟩
  refine ⟨_, _, _, 'r', "un_aborted".toList, rfl, by decide, rfl, ?_, ?_⟩
  · have hkeys : ["run_aborted", "run_id", "sequence"].Nodup := by decide
    have hinner : ["reason"].Nodup := by decide
    exact ⟨hkeys, trivial, ⟨hinner, trivial, trivial, trivial⟩, trivial, trivial, trivial, trivial,
      trivial⟩
  · obtain ⟨record, hrecord, hcase⟩ := hparse
    refine ⟨record, hrecord, ?_⟩
    rw [hcase]
    decide

/-- A line that could be written is a terminal line. -/
theorem isTerminalLine_of_ok {stubs : Stubs F} (hs : stubs.Sound it) {runId reason : String}
    {n : Int} {line : Text} (h : protoRunAbortedLine stubs runId n reason = .ok line) :
    IsTerminalLine it stubs.floats line ∧ Within it line := by
  rw [protoRunAbortedLine] at h
  split at h
  · rename_i f hf
    exact hs.goldfive f hf _ _ _ _ h
  · split at h
    · rename_i hwrites
      cases h
      exact ⟨isTerminalLine_envelope it stubs.floats hs.stack _ _ _, hs.envelope _ _ _ hwrites⟩
    · cases h

/-! ## What a call does -/

/-- A call finds a terminal record and writes nothing, or appends a line. -/
theorem ensureRunAbortedEvent_cases {stubs : Stubs F} {raw reason runId : _}
    {sequence : Option Int} {appended : Bool} {content : Option Text}
    (h : ensureRunAbortedEvent it stubs (some raw) reason runId sequence = .ok (appended, content)) :
    ∃ log, readEventLog it (some raw) = .ok log ∧
      ((hasTerminal log.records = true ∧ appended = false ∧ content = some raw) ∨
        (hasTerminal log.records = false ∧ appended = true ∧ ∃ runId n line,
          protoRunAbortedLine stubs runId n reason = .ok line ∧
            content = some (raw ++ line ++ ['\n']))) := by
  obtain ⟨found, hfound, h⟩ := bind_eq_ok h
  rw [fileAlreadyHasTerminal] at hfound
  cases hlog : readEventLog it (some raw) with
  | error e =>
    rw [hlog] at hfound
    cases hfound
  | ok log =>
    rw [hlog] at hfound
    obtain rfl : hasTerminal log.records = found := Except.ok.inj hfound
    refine ⟨log, rfl, ?_⟩
    split at h
    · rename_i hterminal
      cases h
      exact .inl ⟨hterminal, rfl, rfl⟩
    · rename_i hterminal
      obtain ⟨seen, -, h⟩ := bind_eq_ok h
      obtain ⟨line, hline, h⟩ := bind_eq_ok h
      cases h
      exact .inr ⟨by simpa using hterminal, rfl, _, _, line, hline, rfl⟩

variable {log : Log (EventRecord F)}

theorem fileAlreadyHasTerminal_eq {raw : Text} (h : readEventLog it (some raw) = .ok log) :
    fileAlreadyHasTerminal it (some raw) = .ok (hasTerminal log.records) := by
  rw [fileAlreadyHasTerminal, h]
  rfl

/-- Where a terminal record is there, a call changes nothing. -/
theorem ensureRunAbortedEvent_of_terminal (stubs : Stubs F) {raw : Text}
    (h : fileAlreadyHasTerminal it (some raw) = .ok true) (reason runId : String)
    (sequence : Option Int) :
    ensureRunAbortedEvent it stubs (some raw) reason runId sequence = .ok (false, some raw) := by
  rw [ensureRunAbortedEvent, h]
  rfl

/-! ## The line that is written -/

section Write

variable {raw line : Text}

/-- The file is read as its closed lines and the line that is open. -/
theorem fileLines_open (raw : Text) :
    fileLines raw = Text.splitLines (Text.closedLines (Text.universalNewlines raw)) ++
      Text.splitLines (Text.openLine (Text.universalNewlines raw)) := by
  have hsplit := Text.splitLines_open (Text.notMem_universalNewlines raw) []
  rw [append_nil, append_nil] at hsplit
  exact hsplit

/-- A line that is appended goes to the line that is open. -/
theorem fileLines_append (hline : ∀ c ∈ line, Text.isLineBreak c = false) (hne : line ≠ [])
    (raw : Text) :
    fileLines (raw ++ line ++ ['\n']) =
      Text.splitLines (Text.closedLines (Text.universalNewlines raw)) ++
        [Text.openLine (Text.universalNewlines raw) ++ line] := by
  have hbreak {c : Char} (hc : Text.isLineBreak c = true) : c ∉ line := fun hmem => by
    rw [hline c hmem] at hc
    cases hc
  have hreturn : '\r' ∉ line ++ ['\n'] := by
    rw [mem_append, not_or]
    exact ⟨hbreak (by decide), by decide⟩
  have hhead : (line ++ ['\n']).head? ≠ some '\n' := by
    obtain ⟨c, rest, rfl⟩ := exists_cons_of_ne_nil hne
    intro heq
    cases heq
    exact hbreak (by decide) mem_cons_self
  have hopen : ∀ c ∈ Text.openLine (Text.universalNewlines raw) ++ line,
      Text.isLineBreak c = false := by
    intro c hc
    exact (mem_append.mp hc).elim (Text.isLineBreak_openLine _ c) (hline c)
  rw [fileLines, List.append_assoc, Text.universalNewlines_append fun h => hhead h.2,
    Text.universalNewlines_of_notMem hreturn,
    Text.splitLines_open (Text.notMem_universalNewlines raw), ← List.append_assoc,
    Text.splitLines_newline hopen]

end Write

/-! ## Reading it back -/

/-- The decoder of `read_event_log`. -/
def eventOf (obj : Dict String (PyValue F)) : Except Raised (Option (EventRecord F)) :=
  (parseEvent it obj).map some

theorem brace_mem_of_isTerminalLine {fl : Floats F} {line : Text} (h : IsTerminalLine it fl line) :
    '{' ∈ line := by
  obtain ⟨k, v, rest, c, s, rfl, -⟩ := h
  exact mem_cons_self

theorem isLineBreak_of_isTerminalLine {fl : Floats F} {line : Text}
    (h : IsTerminalLine it fl line) : ∀ c ∈ line, Text.isLineBreak c = false := by
  obtain ⟨k, v, rest, c, s, rfl, -⟩ := h
  intro d hd
  exact (Json.printable_dumps rfl Json.Layout.plain_default _ d hd).isLineBreak

theorem strip_ne_nil {blank line : Text} (h : '{' ∈ line) : Text.strip (blank ++ line) ≠ [] := by
  intro hstrip
  have hskip : Text.skipSpace (blank ++ line) = [] := by
    by_contra hne
    have hhead : Text.isSpace ((Text.skipSpace (blank ++ line)).head hne) = false :=
      Bool.not_eq_true _ ▸ head_dropWhile_not Text.isSpace hne
    rw [Text.strip, rdropWhile_eq_nil_iff] at hstrip
    rw [hstrip _ (head_mem hne)] at hhead
    cases hhead
  have hspace := dropWhile_eq_nil_iff.mp hskip '{' (mem_append_right blank h)
  exact absurd hspace (by decide)

/-- After blanks the line is read as its record. -/
theorem readStep_terminal {stubs : Stubs F} (hs : stubs.Sound it) {blank line : Text}
    (hline : IsTerminalLine it stubs.floats line) (hwithin : Within it line)
    (hblank : ∀ c ∈ blank, Json.isWs c = true) (log : Log (EventRecord F)) :
    ∃ record, record.case ∈ TERMINAL_CASES ∧
      readStep it (eventOf it) log (blank ++ line) =
        .ok ⟨log.records ++ [record], log.malformedLineCount, true⟩ := by
  have hstrip := @strip_ne_nil blank _ (brace_mem_of_isTerminalLine it hline)
  obtain ⟨k, v, rest, c, s, rfl, hk, hc, hkeyed, record, hrecord, hcase⟩ := hline
  have hjson := @Json.loads_dumps _ stubs.floats _ Json.Layout.plain_default _ hkeyed blank [] hblank (by simp)
  rw [append_nil] at hjson
  have hloads : it.loads (blank ++ Json.dumps stubs.floats .default (.dict ((k, v) :: rest))) =
      .ok (.dict ((k, v) :: rest)) := by
    rcases hs.json (blank ++ Json.dumps stubs.floats .default (.dict ((k, v) :: rest))) with h | h
    · obtain ⟨e, he⟩ := h
      exact absurd he (hwithin blank hblank e)
    · rw [h, hjson]
      rfl
  refine ⟨record, hcase, ?_⟩
  rw [readStep, if_neg hstrip, readLine, hloads]
  dsimp only
  rw [eventOf, hrecord]
  rfl

/-- After anything else nothing is read. -/
theorem readStep_merged {stubs : Stubs F} (hs : stubs.Sound it) {torn line : Text}
    (hline : IsTerminalLine it stubs.floats line) (htorn : ∃ c ∈ torn, Json.isWs c = false)
    {log' : Log (EventRecord F)} (h : readStep it (eventOf it) log (torn ++ line) = .ok log') :
    log'.records = log.records := by
  have hstrip := @strip_ne_nil torn _ (brace_mem_of_isTerminalLine it hline)
  obtain ⟨k, v, rest, c, s, rfl, hk, hc, hkeyed, -⟩ := hline
  obtain ⟨tl, htl, hframe⟩ :=
    @Json.exists_frame _ stubs.floats _ Json.Layout.plain_default _ _ _ hkeyed _ _ hk hc
  have hmerged := Json.loads_merged hframe htorn
  rw [htl] at h hstrip
  rw [readStep, if_neg hstrip, readLine] at h
  rcases hs.json (torn ++ '{' :: '"' :: c :: tl) with hloads | hloads
  · obtain ⟨e, he⟩ := hloads
    rw [he] at h
    cases h
  · cases hjson : Json.loads stubs.floats (torn ++ '{' :: '"' :: c :: tl) with
    | ok w => exact absurd hjson (hmerged w)
    | error e =>
      rw [hloads, hjson] at h
      cases h
      rfl

/-! ## When the run ends with a terminal event -/

/-- The file holds a terminal record, the records from before the call in their order,
and a second call changes nothing. -/
def Terminated (stubs : Stubs F) (raw raw' : Text) : Prop :=
  ∃ before after, readEventLog it (some raw) = .ok before ∧
    readEventLog it (some raw') = .ok after ∧ hasTerminal after.records = true ∧
    before.records.Sublist after.records ∧
    ∀ reason runId sequence,
      ensureRunAbortedEvent it stubs (some raw') reason runId sequence = .ok (false, some raw')

omit [PyArith F] in
theorem hasTerminal_append (records : List (EventRecord F)) {record : EventRecord F}
    (h : record.case ∈ TERMINAL_CASES) : hasTerminal (records ++ [record]) = true := by
  rw [hasTerminal, any_append]
  simp [h]

theorem terminated_of_terminal (stubs : Stubs F) {raw : Text}
    (hlog : readEventLog it (some raw) = .ok log) (h : hasTerminal log.records = true) :
    Terminated it stubs raw raw := by
  refine ⟨log, log, hlog, hlog, h, Sublist.refl _, fun reason runId sequence => ?_⟩
  exact ensureRunAbortedEvent_of_terminal it stubs
    (by rw [fileAlreadyHasTerminal_eq it hlog, h]) reason runId sequence

/-- The frame that follows blanks is there, and nothing that was there is lost. -/
theorem terminated_of_blank {stubs : Stubs F} (hs : stubs.Sound it) {raw line : Text}
    (hlog : readEventLog it (some raw) = .ok log) (hline : IsTerminalLine it stubs.floats line)
    (hwithin : Within it line)
    (hblank : ∀ c ∈ Text.openLine (Text.universalNewlines raw), Json.isWs c = true) :
    Terminated it stubs raw (raw ++ line ++ ['\n']) := by
  have hbrace := brace_mem_of_isTerminalLine it hline
  have hopen (log : Log (EventRecord F)) :
      (Text.splitLines (Text.openLine (Text.universalNewlines raw))).foldlM
        (readStep it (eventOf it)) log = .ok log := by
    have hspace : Text.strip (Text.openLine (Text.universalNewlines raw)) = [] := by
      have hskip : Text.skipSpace (Text.openLine (Text.universalNewlines raw)) = [] := by
        refine dropWhile_eq_nil_iff.mpr fun c hc => ?_
        have hc : c = ' ' ∨ c = '\t' ∨ c = '\n' ∨ c = '\r' := by
          simpa [Json.isWs, or_assoc] using hblank c hc
        rcases hc with rfl | rfl | rfl | rfl <;> decide
      rw [Text.strip, hskip]
      rfl
    rw [Text.splitLines_unbroken (Text.isLineBreak_openLine _)]
    split
    · rfl
    · rw [foldlM_cons, readStep, if_pos hspace]
      rfl
  have hclosed : (Text.splitLines (Text.closedLines (Text.universalNewlines raw))).foldlM
      (readStep it (eventOf it)) {} = .ok log := by
    have hread := hlog
    change (fileLines raw).foldlM (readStep it (eventOf it)) {} = .ok log at hread
    rw [fileLines_open, foldlM_append] at hread
    obtain ⟨mid, hmid, hread⟩ := bind_eq_ok hread
    rw [hopen] at hread
    cases hread
    exact hmid
  obtain ⟨record, hcase, hstep⟩ := readStep_terminal it hs hline hwithin hblank log
  have hafter : readEventLog it (some (raw ++ line ++ ['\n'])) =
      .ok ⟨log.records ++ [record], log.malformedLineCount, true⟩ := by
    change (fileLines (raw ++ line ++ ['\n'])).foldlM (readStep it (eventOf it)) {} = _
    rw [fileLines_append (isLineBreak_of_isTerminalLine it hline) (ne_nil_of_mem hbrace),
      foldlM_append, hclosed, ok_bind, foldlM_cons, hstep]
    rfl
  have hterminal := hasTerminal_append log.records hcase
  refine ⟨log, _, hlog, hafter, hterminal, sublist_append_left _ _,
    fun reason runId sequence => ?_⟩
  exact ensureRunAbortedEvent_of_terminal it stubs
    (by rw [fileAlreadyHasTerminal_eq it hafter, hterminal]) reason runId sequence

/-- The frame that follows anything else is never read. -/
theorem not_terminated_of_torn {stubs : Stubs F} (hs : stubs.Sound it) {raw line : Text}
    (hlog : readEventLog it (some raw) = .ok log) (hnone : hasTerminal log.records = false)
    (hline : IsTerminalLine it stubs.floats line)
    (htorn : ∃ c ∈ Text.openLine (Text.universalNewlines raw), Json.isWs c = false) :
    ¬ Terminated it stubs raw (raw ++ line ++ ['\n']) := by
  rintro ⟨before, after, -, hafter, hterminal, -⟩
  have hbrace := brace_mem_of_isTerminalLine it hline
  change (fileLines raw).foldlM (readStep it (eventOf it)) {} = .ok log at hlog
  rw [fileLines_open, foldlM_append] at hlog
  obtain ⟨mid, hmid, hlog⟩ := bind_eq_ok hlog
  change (fileLines (raw ++ line ++ ['\n'])).foldlM (readStep it (eventOf it)) {} = _ at hafter
  rw [fileLines_append (isLineBreak_of_isTerminalLine it hline) (ne_nil_of_mem hbrace),
    foldlM_append, hmid, ok_bind, foldlM_cons] at hafter
  obtain ⟨last, hlast, hafter⟩ := bind_eq_ok hafter
  cases hafter
  -- The records are those of the closed lines, which the first reading had too.
  rw [readStep_merged it hs hline htorn hlast] at hterminal
  have hrecords := foldlM_readStep_records it hlog
  rw [hasTerminal, hrecords, any_append, Bool.or_eq_false_iff] at hnone
  rw [hasTerminal, hnone.1] at hterminal
  cases hterminal

/-- A killed run ends with a terminal event where one is there already, and where the
line that was open holds white space alone. -/
theorem terminated_iff {stubs : Stubs F} (hs : stubs.Sound it) {raw raw' reason runId : _}
    {sequence : Option Int} {appended : Bool}
    (h : ensureRunAbortedEvent it stubs (some raw) reason runId sequence =
      .ok (appended, some raw')) :
    Terminated it stubs raw raw' ↔ fileAlreadyHasTerminal it (some raw) = .ok true ∨
      ∀ c ∈ Text.openLine (Text.universalNewlines raw), Json.isWs c = true := by
  obtain ⟨log, hlog, ⟨hterminal, -, heq⟩ | ⟨hnone, -, runId', n, line, hwritten, heq⟩⟩ :=
    ensureRunAbortedEvent_cases it h
  · obtain rfl := Option.some.inj heq
    refine iff_of_true (terminated_of_terminal it stubs hlog hterminal) (.inl ?_)
    rw [fileAlreadyHasTerminal_eq it hlog, hterminal]
  · obtain rfl := Option.some.inj heq
    obtain ⟨hline, hwithin⟩ := isTerminalLine_of_ok it hs hwritten
    have hfound : fileAlreadyHasTerminal it (some raw) ≠ .ok true := by
      rw [fileAlreadyHasTerminal_eq it hlog, hnone]
      exact fun heq => Bool.false_ne_true (Except.ok.inj heq)
    refine ⟨fun hdone => .inr ?_, fun hblank => ?_⟩
    · by_contra hblank
      push Not at hblank
      obtain ⟨c, hc, hws⟩ := hblank
      exact not_terminated_of_torn it hs hlog hnone hline
        ⟨c, hc, Bool.eq_false_iff.mpr hws⟩ hdone
    · exact terminated_of_blank it hs hlog hline hwithin (hblank.resolve_left hfound)

/-- An interpreter without limits on JSON. -/
def jsonInterp : Interp Exact :=
  { plainInterp with
    loads := fun text => (Json.loads Json.exactFloats text).mapError fun _ => .decode }

/-- No stubs can be imported. -/
def plainStubs : Stubs Exact where
  floats := Json.exactFloats
  goldfive := none
  writes _ := true

/-- The demonstrated stubs are sound. -/
theorem plainStubs_sound : plainStubs.Sound jsonInterp where
  json _ := .inr rfl
  stack := by decide
  envelope _ _ _ _ blank _ e h := by
    change Except.mapError _ (Json.loads Json.exactFloats _) = _ at h
    cases hloads : Json.loads Json.exactFloats (blank ++
        Json.dumps plainStubs.floats .default (.dict (envelope _ _ _))) with
    | error e =>
      rw [hloads] at h
      cases h
    | ok v =>
      rw [hloads] at h
      cases h
  goldfive _ h := by cases h

/-- A line that was cut inside a value. -/
def tornLine : Text := "\x7b\"run_id\": \"r\"".toList

/-- Two blanks behind an event. -/
def blankEnd : Text := "\x7b\"run_id\": \"r\"\x7d\n \t".toList

theorem terminated_iff_blank : ∃ raw', Terminated jsonInterp plainStubs blankEnd raw' := by
  have hcall : (ensureRunAbortedEvent jsonInterp plainStubs (some blankEnd) WALL_CLOCK_REASON
      "" none).toBool = true := by decide +kernel
  obtain ⟨⟨appended, content⟩, h⟩ := ok_of_toBool hcall
  obtain ⟨log, -, ⟨-, -, rfl⟩ | ⟨-, -, runId, n, line, -, rfl⟩⟩ :=
    ensureRunAbortedEvent_cases jsonInterp h
  all_goals exact ⟨_, (terminated_iff jsonInterp plainStubs_sound h).mpr (.inr (by decide))⟩

/-- The frame that completes a torn line is never read. -/
theorem torn_line_hides_frame : ∃ raw',
    ensureRunAbortedEvent jsonInterp plainStubs (some tornLine) WALL_CLOCK_REASON "" none =
      .ok (true, some raw') ∧ ¬ Terminated jsonInterp plainStubs tornLine raw' := by
  have hcall : ((ensureRunAbortedEvent jsonInterp plainStubs (some tornLine) WALL_CLOCK_REASON
      "" none).map Prod.fst).toOption = some true := by decide +kernel
  cases h : ensureRunAbortedEvent jsonInterp plainStubs (some tornLine) WALL_CLOCK_REASON "" none with
  | error e =>
    rw [h] at hcall
    cases hcall
  | ok result =>
    obtain ⟨appended, content⟩ := result
    rw [h] at hcall
    obtain rfl : appended = true := Option.some.inj hcall
    obtain ⟨log, hlog, ⟨-, hfalse, -⟩ | ⟨hnone, -, runId, n, line, hwritten, rfl⟩⟩ :=
      ensureRunAbortedEvent_cases jsonInterp h
    · cases hfalse
    · have hline := (isTerminalLine_of_ok jsonInterp plainStubs_sound hwritten).1
      refine ⟨_, rfl, not_terminated_of_torn jsonInterp plainStubs_sound hlog hnone hline ?_⟩
      have hany : (Text.openLine (Text.universalNewlines tornLine)).any (!Json.isWs ·) = true := by
        decide
      obtain ⟨c, hc, hws⟩ := List.any_eq_true.mp hany
      exact ⟨c, hc, by simpa using hws⟩

end Zicato.Events
