import Zicato.Lines

/-! # The supervisor's audit ledger

`crates/supervisor/src/ledger.rs`: an append-only file of JSON lines, each
carrying the digest of its predecessor.  Reading a file is a function of its
bytes; writing takes the outcome of the system calls as an argument, so that a
run may refuse a write, fail it halfway, fail to cut it back or die in the middle
of it.

`LedgerCodec` names what the ledger calls outside this file: SHA-256 and the
serialisation of `serde_json`.  What is used of the latter is `LawfulCodec`. -/
namespace Zicato

/-- The contents of a file. -/
abbrev Bytes := List UInt8

/-- `s.as_bytes()`. -/
def utf8 (s : String) : Bytes := s.toUTF8.data.toList

/-- `u8::is_ascii_whitespace`. -/
def isAsciiWhitespace (b : UInt8) : Bool := b == 32 || b == 9 || b == 10 || b == 12 || b == 13

/-- `trim_ascii_end`. -/
def trimAsciiEnd (bytes : Bytes) : Bytes := bytes.rdropWhile isAsciiWhitespace

/-- `trim_ascii`. -/
def trimAscii (bytes : Bytes) : Bytes := (trimAsciiEnd bytes).dropWhile isAsciiWhitespace

/-- A `serde_json::Value`, as the ledger builds its own payloads. -/
inductive Json
  | null
  | bool (b : Bool)
  | num (n : Nat)
  | str (s : String)
  | arr (items : List Json)
  | obj (fields : List (String × Json))

namespace Ledger

/-- The byte that ends a record. -/
def newline : UInt8 := 10

/-- The unit separator between the fields of a preimage. -/
def unitSep : UInt8 := 0x1f

/-- `GENESIS_PREV`: the all-zero digest the first record links back to. -/
def genesisPrev : String := "0000000000000000000000000000000000000000000000000000000000000000"

/-- `REMOVED_TEXT_LIMIT`. -/
def removedTextLimit : Nat := 4096

/-- `RecordKind`. -/
inductive RecordKind
  | supervisorStart
  | watchdogAction
  | decisionObserved
  | contractChange
  | diffContainmentAlert
  | promotionContradiction
  | divergenceFinding
  | historyChanged
  | ledgerIntegrity
  deriving DecidableEq, Repr

/-- `as_str`. -/
def RecordKind.asStr : RecordKind → String
  | supervisorStart => "supervisor_start"
  | watchdogAction => "watchdog_action"
  | decisionObserved => "decision_observed"
  | contractChange => "contract_change"
  | diffContainmentAlert => "diff_containment_alert"
  | promotionContradiction => "promotion_contradiction"
  | divergenceFinding => "divergence_finding"
  | historyChanged => "history_changed"
  | ledgerIntegrity => "ledger_integrity"

/-- One ledger line, the payload kept as the bytes that were hashed. -/
structure Line where
  seq : Nat
  prev : String
  ts : String
  kind : String
  payload : Bytes
  digest : String
  deriving DecidableEq

/-- The code the ledger calls. -/
structure LedgerCodec where
  /-- `sha256::hex_digest`. -/
  hexDigest : Bytes → String
  /-- `serde_json::value::to_raw_value`. -/
  toRawValue : Json → Except String Bytes
  /-- `serde_json::to_string` of a line. -/
  lineToString : Line → Except String Bytes
  /-- `serde_json::from_slice::<Line>`. -/
  lineFromSlice : Bytes → Except String Line
  /-- What `open` keeps of a line in `recorded_breaks`: the `first_break_seq` of
  a `ledger_integrity` record that has one. -/
  breakOfSlice : Bytes → Option (Option Nat)
  /-- `String::from_utf8_lossy`. -/
  fromUtf8Lossy : Bytes → String

/-- `seq.to_be_bytes()`. -/
def toBeBytes (seq : Nat) : Bytes :=
  (List.range 8).map fun i => UInt8.ofNat (seq / 256 ^ (7 - i))

/-- The hashed bytes of a record: its fields joined by the unit separator. -/
def preimage (seq : Nat) (prev ts kind : String) (payload : Bytes) : Bytes :=
  toBeBytes seq ++ unitSep :: (utf8 prev ++ unitSep :: (utf8 ts ++ unitSep ::
    (utf8 kind ++ unitSep :: payload)))

/-- `Tail`. -/
structure Tail where
  /-- The seq the next appended record will carry. -/
  nextSeq : Nat
  /-- The digest the next record links to. -/
  prev : String
  deriving DecidableEq

/-- The outcome of verifying a chain. -/
structure VerifyReport where
  intact : Bool := false
  records : Nat := 0
  firstBreakSeq : Option Nat := none
  breakReason : Option String := none
  partialFinalLine : Option String := none
  deriving DecidableEq

/-- The in-memory half of an open ledger. -/
structure AuditLedger where
  tail : Tail
  partialFinalLine : Option String := none
  breakLogged : Bool := false
  recordedBreaks : List (Option Nat) := []

/-- The ledger file: absent, or its bytes. -/
abbrev File := Option Bytes

variable (codec : LedgerCodec)

/-- `compute_digest`. -/
def computeDigest (seq : Nat) (prev ts kind : String) (payload : Bytes) : String :=
  codec.hexDigest (preimage seq prev ts kind payload)

/-! ## Reading -/

/-- The offset where the final line with a non-blank byte starts. -/
def tailStart (bytes : Bytes) : Option Nat :=
  ((Lines.splitInclusive newline bytes).foldl
    (fun (acc : Nat × Option Nat) line =>
      (acc.1 + line.length, if line.any (!isAsciiWhitespace ·) then some acc.1 else acc.2))
    (0, none)).2

/-- `repair_torn_tail`: the removed bytes, if any, and the file left; `cut` says
whether the file can be opened and cut. -/
def repairTornTail (file : File) (cut : Bool) : Option Bytes × File :=
  match file with
  | none => (none, none)
  | some bytes =>
      match tailStart bytes with
      | none => (none, some bytes)
      | some start =>
          match codec.lineFromSlice (trimAsciiEnd (bytes.drop start)) with
          | .ok _ => (none, some bytes)
          | .error _ =>
              if cut then (some (bytes.drop start), some (bytes.take start)) else (none, some bytes)

/-- The tail after one more line of the file, which counts when it parses. -/
def tailStep (tail : Tail) (line : Bytes) : Tail :=
  match codec.lineFromSlice line with
  | .ok rec => { nextSeq := rec.seq + 1, prev := rec.digest }
  | .error _ => tail

/-- `seed_tail`: the tail of the last line that parses, else genesis. -/
def seedTail (file : File) : Tail :=
  (Lines.split newline (file.getD [])).foldl (tailStep codec) { nextSeq := 0, prev := genesisPrev }

/-- The report of a break. -/
def broken (records seq : Nat) (reason : String) : VerifyReport :=
  { intact := false, records := records, firstBreakSeq := some seq, breakReason := some reason }

/-- The walk of `verify_chain` over the remaining lines. -/
def verifyLines : Nat → Nat → String → List Bytes → VerifyReport
  | _, records, _, [] => { intact := true, records := records }
  | index, records, expectedPrev, raw :: rest =>
      if (trimAscii raw).isEmpty then verifyLines (index + 1) records expectedPrev rest
      else
        match codec.lineFromSlice raw with
        | .error e => broken records records s!"line {index + 1} is not a valid record: {e}"
        | .ok rec =>
            if rec.seq ≠ records then
              broken records records s!"seq discontinuity: expected {records}, found {rec.seq}"
            else if rec.prev ≠ expectedPrev then
              broken records rec.seq s!"seq {rec.seq} prev-link broken"
            else if computeDigest codec rec.seq rec.prev rec.ts rec.kind rec.payload ≠ rec.digest then
              broken records rec.seq s!"seq {rec.seq} digest mismatch (record altered)"
            else verifyLines (index + 1) (records + 1) rec.digest rest

/-- `verify_chain`: an absent file is intact with no records. -/
def verifyChain (file : File) : VerifyReport :=
  match file with
  | none => { intact := true }
  | some bytes => verifyLines codec 0 0 genesisPrev (Lines.split newline bytes)

/-- The records of a file: the lines that parse. -/
def fileRecords (file : File) : List Line :=
  (Lines.split newline (file.getD [])).filterMap fun raw => (codec.lineFromSlice raw).toOption

/-- `AuditLedger::verify`: the chain of the file, which may not be shorter than
this process knows it to be. -/
def verify (ledger : AuditLedger) (file : File) : VerifyReport :=
  let report := { verifyChain codec file with partialFinalLine := ledger.partialFinalLine }
  let held := ledger.tail.nextSeq
  if report.intact ∧ report.records < held then
    { report with
      intact := false
      firstBreakSeq := some report.records
      breakReason := some <|
        if file.isSome then
          s!"ledger ends after {report.records} records, but it held {held} while this supervisor ran; records were removed from the end"
        else s!"ledger file is missing, but it held {held} records while this supervisor ran" }
  else report

/-! ## Writing -/

/-- How the system calls of one `write_line` go. -/
inductive WriteOutcome
  /-- All bytes are written and synced. -/
  | done
  /-- The file cannot be opened or its length not read. -/
  | refused
  /-- Reading the last byte, a write, the flush or the sync fails, after any
  number of bytes, and `set_len` cuts the file back to its length before. -/
  | failed
  /-- The same, after `reached` bytes, and `set_len` fails too: they stay. -/
  | left (reached : Nat)
  /-- The process dies before the file is opened. -/
  | diedBefore
  /-- The process dies after `reached` bytes have reached the file. -/
  | died (reached : Nat)
  deriving DecidableEq, Repr

/-- The bytes `write_line` sends: a newline first when the file does not end in
one. -/
def pendingWrite (file : File) (bytes : Bytes) : Bytes :=
  match (file.getD []).getLast? with
  | none => bytes
  | some last => if last ≠ newline then newline :: bytes else bytes

/-- `write_line`: the file it leaves. -/
def writeLine (file : File) (bytes : Bytes) : WriteOutcome → File
  | .done => some (file.getD [] ++ pendingWrite file bytes)
  | .refused => file
  | .failed => some (file.getD [])
  | .left reached => some (file.getD [] ++ (pendingWrite file bytes).take reached)
  | .diedBefore => file
  | .died reached => some (file.getD [] ++ (pendingWrite file bytes).take reached)

/-- One append as an observer of the whole machine sees it: the record it tried
to write and the outcome of the write. -/
structure Attempt where
  line : Line
  /-- The line as it was to be written, without its newline. -/
  text : Bytes
  /-- The file before the write. -/
  before : File
  outcome : WriteOutcome

/-- What an append leaves: the file, the tail (`none` when the process died) and
the attempt (`none` when the record could not be serialised). -/
structure Appended where
  file : File
  tail : Option Tail
  attempt : Option Attempt

/-- The record `append` builds on `tail`. -/
def nextLine (tail : Tail) (kind : RecordKind) (ts : String) (payload : Bytes) : Line where
  seq := tail.nextSeq
  prev := tail.prev
  ts := ts
  kind := kind.asStr
  payload := payload
  digest := computeDigest codec tail.nextSeq tail.prev ts kind.asStr payload

/-- The cursor after a write of `line`; it advances only after a success. -/
def WriteOutcome.cursor (tail : Tail) (line : Line) : WriteOutcome → Option Tail
  | .done => some { nextSeq := tail.nextSeq + 1, prev := line.digest }
  | .refused => some tail
  | .failed => some tail
  | .left _ => some tail
  | .diedBefore => none
  | .died _ => none

/-- `append`. -/
def append (tail : Tail) (file : File) (kind : RecordKind) (payload : Json) (ts : String)
    (outcome : WriteOutcome) : Appended :=
  match codec.toRawValue payload with
  | .error _ => { file := file, tail := some tail, attempt := none }
  | .ok raw =>
      let line := nextLine codec tail kind ts raw
      match codec.lineToString line with
      | .error _ => { file := file, tail := some tail, attempt := none }
      | .ok text =>
          { file := writeLine file (text ++ [newline]) outcome
            tail := outcome.cursor tail line
            attempt := some { line := line, text := text, before := file, outcome := outcome } }

/-! ## Opening -/

/-- The payload of the record that keeps a removed partial line. -/
def partialLinePayload (bytes : Bytes) : Json :=
  .obj [("finding", .str "partial_final_line"), ("removed_bytes", .num bytes.length),
    ("removed_sha256", .str (codec.hexDigest bytes)),
    ("removed_text", .str (codec.fromUtf8Lossy (bytes.take (min bytes.length removedTextLimit))))]

/-- An optional number as JSON. -/
def optNat : Option Nat → Json
  | none => .null
  | some n => .num n

/-- The payload of the record of a chain break. -/
def chainBreakPayload (report : VerifyReport) : Json :=
  .obj [("finding", .str "chain_break"), ("first_break_seq", optNat report.firstBreakSeq),
    ("detail", match report.breakReason with | none => .null | some r => .str r)]

/-- The clock and the system calls of one `open`. -/
structure OpenIo where
  /-- A torn line can be cut off. -/
  repaired : Bool := true
  integrityTs : String
  integrityOutcome : WriteOutcome
  breakTs : String
  breakOutcome : WriteOutcome

/-- What an open leaves; `ledger` is `none` when the process died in it. -/
structure Opened where
  file : File
  ledger : Option AuditLedger
  attempts : List Attempt

/-- `check`: a break that is not recorded yet is recorded. -/
def check (ledger : AuditLedger) (file : File) (ts : String) (outcome : WriteOutcome) : Opened :=
  let report := verify codec ledger file
  if report.intact then
    { file := file, ledger := some { ledger with breakLogged := false }, attempts := [] }
  else if report.firstBreakSeq ∈ ledger.recordedBreaks then
    { file := file, ledger := some { ledger with breakLogged := true }, attempts := [] }
  else
    let appended := append codec ledger.tail file .ledgerIntegrity (chainBreakPayload report) ts
      outcome
    { file := appended.file
      ledger := appended.tail.map fun tail =>
        { ledger with
          tail := tail, breakLogged := true
          recordedBreaks := ledger.recordedBreaks ++ [report.firstBreakSeq] }
      attempts := appended.attempt.toList }

/-- `open`: repair the tail, seed the chain, record what was removed, check. -/
def openLedger (file : File) (io : OpenIo) : Opened :=
  let (removed, file) := repairTornTail codec file io.repaired
  let ledger : AuditLedger :=
    { tail := seedTail codec file
      partialFinalLine := removed.map fun bytes =>
        s!"removed a {bytes.length}-byte partial final line when the ledger was opened"
      recordedBreaks := (Lines.split newline (file.getD [])).filterMap codec.breakOfSlice }
  match removed with
  | none => check codec ledger file io.breakTs io.breakOutcome
  | some bytes =>
      let appended := append codec ledger.tail file .ledgerIntegrity
        (partialLinePayload codec bytes) io.integrityTs io.integrityOutcome
      match appended.tail with
      | none => { file := appended.file, ledger := none, attempts := appended.attempt.toList }
      | some tail =>
          let checked := check codec { ledger with tail := tail } appended.file io.breakTs
            io.breakOutcome
          { checked with attempts := appended.attempt.toList ++ checked.attempts }

end Ledger
end Zicato
