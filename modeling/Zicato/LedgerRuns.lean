import Zicato.LedgerWrites

/-! # Runs of the ledger

A run opens the ledger and appends to it, in any order and any number of times,
with any outcome of every write.  The records of the file are then those that
reached it whole, in the order of their appends (`records_run`).  They are a chain
from genesis, unless a write failed whose bytes could not be cut off (`Chain`); and
up to then every line of the file is whole, save the last one after a crash
(`Whole`), which the next open removes. -/
open List Option Zicato.Lines
namespace Zicato.Ledger

variable (codec : LedgerCodec)

/-! ## The machine -/

/-- The disk, the process if one runs, and every append so far. -/
structure State where
  file : File := none
  ledger : Option AuditLedger := none
  history : List Attempt := []

/-- A supervisor opens the ledger, or appends to it. -/
inductive Event
  | opens (io : OpenIo)
  | appends (kind : RecordKind) (payload : Json) (ts : String) (outcome : WriteOutcome)

/-- One event; an append needs a running process. -/
def step (s : State) : Event → State
  | .opens io =>
      let opened := openLedger codec s.file io
      { file := opened.file, ledger := opened.ledger, history := s.history ++ opened.attempts }
  | .appends kind payload ts outcome =>
      match s.ledger with
      | none => s
      | some ledger =>
          let appended := append codec ledger.tail s.file kind payload ts outcome
          { file := appended.file
            ledger := appended.tail.map fun tail => { ledger with tail := tail }
            history := s.history ++ appended.attempt.toList }

/-- The run of `events` from an absent file. -/
def run (events : List Event) : State := events.foldl (step codec) {}

/-! ## Invariants

An invariant speaks of the file, of the cursor of a running process and of the
appends so far.  It is one of all runs if an open and every append keep it. -/

/-- The event appends a record of that kind, at that time and with that outcome. -/
def Event.Writes (kind : RecordKind) (ts : String) (outcome : WriteOutcome) : Event → Prop
  | .opens io => kind = .ledgerIntegrity ∧
      ((ts, outcome) = (io.integrityTs, io.integrityOutcome) ∨
        (ts, outcome) = (io.breakTs, io.breakOutcome))
  | .appends kind' _ ts' outcome' => kind = kind' ∧ ts = ts' ∧ outcome = outcome'

variable {codec} {s : State} {file : File} {tail : Tail} {line : Line} {text : Bytes}
  {P : File → Option Tail → List Attempt → Prop}

/-- The check of a ledger appends nothing, or a break. -/
theorem check_cases (ledger : AuditLedger) (file : File) (ts : String) (outcome : WriteOutcome) :
    ((check codec ledger file ts outcome).file = file ∧
      (check codec ledger file ts outcome).ledger.map (·.tail) = some ledger.tail ∧
      (check codec ledger file ts outcome).attempts = []) ∨
    ∃ payload, (check codec ledger file ts outcome).file =
        (append codec ledger.tail file .ledgerIntegrity payload ts outcome).file ∧
      (check codec ledger file ts outcome).ledger.map (·.tail) =
        (append codec ledger.tail file .ledgerIntegrity payload ts outcome).tail ∧
      (check codec ledger file ts outcome).attempts =
        (append codec ledger.tail file .ledgerIntegrity payload ts outcome).attempt.toList := by
  unfold check
  dsimp only
  split
  · exact .inl ⟨rfl, rfl, rfl⟩
  · split
    · exact .inl ⟨rfl, rfl, rfl⟩
    · refine .inr ⟨_, rfl, ?_, rfl⟩
      simp only [Option.map_map, Function.comp_def, Option.map_id']

/-- **What every append keeps, a step keeps.** -/
theorem step_induction (event : Event) (h : P s.file (s.ledger.map (·.tail)) s.history)
    (hopen : ∀ io, event = .opens io → P (repairTornTail codec s.file io.repaired).2
      (some (seedTail codec (repairTornTail codec s.file io.repaired).2)) s.history)
    (happend : ∀ file tail history kind payload ts outcome, event.Writes kind ts outcome →
      P file (some tail) history →
      P (append codec tail file kind payload ts outcome).file
        (append codec tail file kind payload ts outcome).tail
        (history ++ (append codec tail file kind payload ts outcome).attempt.toList)) :
    P (step codec s event).file ((step codec s event).ledger.map (·.tail))
      (step codec s event).history := by
  cases event with
  | appends kind payload ts outcome =>
    cases hledger : s.ledger with
    | none =>
      rw [hledger] at h
      simpa only [step, hledger] using h
    | some ledger =>
      rw [hledger] at h
      have hnext := happend _ ledger.tail _ kind payload ts outcome ⟨rfl, rfl, rfl⟩ h
      simpa only [step, hledger, Option.map_map, Function.comp_def, Option.map_id'] using hnext
  | opens io =>
    have hfirst := hopen io rfl
    have hcheck : ∀ (ledger : AuditLedger) file history, P file (some ledger.tail) history →
        P (check codec ledger file io.breakTs io.breakOutcome).file
          ((check codec ledger file io.breakTs io.breakOutcome).ledger.map (·.tail))
          (history ++ (check codec ledger file io.breakTs io.breakOutcome).attempts) := by
      intro ledger file history hP
      rcases check_cases ledger file io.breakTs io.breakOutcome with
        ⟨hfile, htail, hattempts⟩ | ⟨payload, hfile, htail, hattempts⟩
      · rw [hfile, htail, hattempts, append_nil]
        exact hP
      · rw [hfile, htail, hattempts]
        exact happend _ _ _ _ payload _ _ ⟨rfl, .inr rfl⟩ hP
    change P (openLedger codec s.file io).file ((openLedger codec s.file io).ledger.map (·.tail))
      (s.history ++ (openLedger codec s.file io).attempts)
    unfold openLedger
    generalize repairTornTail codec s.file io.repaired = repaired at hfirst ⊢
    obtain ⟨removed, file⟩ := repaired
    -- a repair that cut bytes off is recorded before the check is
    cases removed with
    | none => exact hcheck ⟨seedTail codec file, _, _, _⟩ _ _ hfirst
    | some bytes =>
      have hnext := happend _ _ _ .ledgerIntegrity (partialLinePayload codec bytes) _ _
        ⟨rfl, .inl rfl⟩ hfirst
      dsimp only at hnext ⊢
      generalize append codec (seedTail codec file) file .ledgerIntegrity
        (partialLinePayload codec bytes) io.integrityTs io.integrityOutcome = appended at hnext ⊢
      obtain ⟨written, tail, attempt⟩ := appended
      cases tail with
      | none => exact hnext
      | some tail =>
        rw [← List.append_assoc]
        exact hcheck ⟨tail, _, _, _⟩ _ _ hnext

variable (codec) in
/-- **What an open and every append keep, a run keeps.** -/
theorem run_induction (events : List Event) (h : P none none [])
    (hopen : ∀ file tail history io, .opens io ∈ events → P file tail history →
      P (repairTornTail codec file io.repaired).2
        (some (seedTail codec (repairTornTail codec file io.repaired).2)) history)
    (happend : ∀ event ∈ events, ∀ file tail history kind payload ts outcome,
      event.Writes kind ts outcome → P file (some tail) history →
      P (append codec tail file kind payload ts outcome).file
        (append codec tail file kind payload ts outcome).tail
        (history ++ (append codec tail file kind payload ts outcome).attempt.toList)) :
    P (run codec events).file ((run codec events).ledger.map (·.tail))
      (run codec events).history := by
  induction events using reverseRecOn with
  | nil => exact h
  | append_singleton events event ih =>
    have hrun := ih (fun file tail history io he => hopen file tail history io (by simp [he]))
      (fun e he => happend e (by simp [he]))
    rw [run, foldl_append, foldl_cons, foldl_nil]
    exact step_induction event hrun
      (fun io he => hopen _ _ _ io (by simp [he]) hrun) (happend event (by simp))

/-! ## Appending -/

/-- **What an append does**: nothing but read its arguments, or one write of the record
that chains onto the cursor. -/
theorem append_cases (tail : Tail) (file : File) (kind : RecordKind) (payload : Json) (ts : String)
    (outcome : WriteOutcome) :
    append codec tail file kind payload ts outcome = ⟨file, some tail, none⟩ ∨
    ∃ raw text, codec.toRawValue payload = .ok raw ∧
      Written codec (nextLine codec tail kind ts raw) text ∧
      append codec tail file kind payload ts outcome =
        ⟨writeLine file (text ++ [newline]) outcome,
          outcome.cursor tail (nextLine codec tail kind ts raw),
          some ⟨nextLine codec tail kind ts raw, text, file, outcome⟩⟩ := by
  unfold append
  cases hraw : codec.toRawValue payload with
  | error e => exact .inl rfl
  | ok raw =>
    dsimp only
    cases htext : codec.lineToString (nextLine codec tail kind ts raw) with
    | error e => exact .inl rfl
    | ok text => exact .inr ⟨raw, text, rfl, ⟨⟨payload, hraw⟩, htext⟩, rfl⟩

/-- **An append adds the record that survives it**, to any file. -/
theorem records_of_append (hc : LawfulCodec codec) (tail : Tail) (file : File) (kind : RecordKind)
    (payload : Json) (ts : String) (outcome : WriteOutcome) :
    fileRecords codec (append codec tail file kind payload ts outcome).file =
      fileRecords codec file ++
        survivors (append codec tail file kind payload ts outcome).attempt.toList := by
  rcases @append_cases codec tail file kind payload ts outcome with happ | ⟨raw, text, -, hw, happ⟩
  · rw [happ]
    exact (append_nil _).symm
  · rw [happ, fileRecords_eq, (wrote (hc.noNewline hw) _ file outcome).records hc hw]
    exact congrArg _ (survivors_singleton _).symm

/-- **The records of the file of a run** are those that survived, in the order of
their appends. -/
theorem records_run (hc : LawfulCodec codec) (events : List Event) :
    fileRecords codec (run codec events).file = survivors (run codec events).history := by
  refine run_induction codec (P := fun file _ history => fileRecords codec file = survivors history)
    events ?_ ?_ ?_
  · exact records_blank hc (by simp [Lines.split, trimAscii, trimAsciiEnd])
  · intro file _ history io _ h
    rw [records_repair hc, h]
  · intro _ _ file tail history kind payload ts outcome _ h
    rw [records_of_append hc, h, survivors_append]

/-! ## Chains -/

/-- The tail of an empty ledger. -/
def genesis : Tail := { nextSeq := 0, prev := genesisPrev }

variable (codec) in
/-- `line` chains onto `tail`. -/
structure Follows (tail : Tail) (line : Line) : Prop where
  seq : line.seq = tail.nextSeq
  prev : line.prev = tail.prev
  digest : line.digest = computeDigest codec line.seq line.prev line.ts line.kind line.payload

/-- The tail after `line`. -/
def Line.advance (line : Line) : Tail := { nextSeq := line.seq + 1, prev := line.digest }

variable (codec) in
/-- Every line follows the one before it. -/
def Linked : Tail → List Line → Prop
  | _, [] => True
  | tail, line :: rest => Follows codec tail line ∧ Linked line.advance rest

/-- The tail after a chain. -/
def tailAfter (tail : Tail) (lines : List Line) : Tail :=
  lines.foldl (fun _ line => line.advance) tail

variable (codec) in
theorem linked_concat (tail : Tail) (lines : List Line) (line : Line) :
    Linked codec tail (lines ++ [line]) ↔
      Linked codec tail lines ∧ Follows codec (tailAfter tail lines) line := by
  induction lines generalizing tail with
  | nil => simp [Linked, tailAfter]
  | cons l lines ih =>
    simp only [cons_append, Linked, ih, and_assoc]
    rfl

theorem tailAfter_concat (tail : Tail) (lines : List Line) (line : Line) :
    tailAfter tail (lines ++ [line]) = line.advance := by
  simp [tailAfter]

/-- A chain numbers its records from the tail's seq on. -/
theorem Linked.seqs {tail : Tail} {lines : List Line}
    (h : Linked codec tail lines) :
    lines.map (·.seq) = List.range' tail.nextSeq lines.length := by
  induction lines generalizing tail with
  | nil => rfl
  | cons l lines ih =>
    rw [map_cons, ih h.2, length_cons, range'_succ, h.1.seq, Line.advance, h.1.seq]

theorem tailAfter_nextSeq {tail : Tail} {lines : List Line} (hl : Linked codec tail lines) :
    (tailAfter tail lines).nextSeq = tail.nextSeq + lines.length := by
  induction lines generalizing tail with
  | nil => rfl
  | cons l lines ih =>
    change (tailAfter l.advance lines).nextSeq = _
    rw [ih hl.2]
    simp only [Line.advance, hl.1.seq, length_cons]
    omega

/-- The walk of `verify_chain` passes a line that chains onto its tail. -/
theorem verifyLines_follows {tail : Tail} {raw : Bytes} (hf : Follows codec tail line)
    (hblank : (trimAscii raw).isEmpty = false) (hparse : codec.lineFromSlice raw = .ok line)
    (index : Nat) (rest : List Bytes) :
    verifyLines codec index tail.nextSeq tail.prev (raw :: rest) =
      verifyLines codec (index + 1) line.advance.nextSeq line.advance.prev rest := by
  rw [verifyLines, hblank, hparse]
  simp only [Bool.false_eq_true, if_false]
  rw [if_neg (not_not.mpr hf.seq), if_neg (not_not.mpr hf.prev),
    if_neg (not_not.mpr hf.digest.symm), Line.advance, hf.seq]

/-- The tail of a file is the tail behind its records. -/
theorem seedTail_eq (file : File) :
    seedTail codec file = tailAfter genesis (fileRecords codec file) := by
  rw [fileRecords_eq]
  unfold seedTail records
  change (pieces file).foldl _ genesis = _
  induction pieces file using reverseRecOn with
  | nil => rfl
  | append_singleton lines raw ih =>
    rw [foldl_append, ih, foldl_cons, foldl_nil, filterMap_append, tailStep]
    cases hraw : codec.lineFromSlice raw with
    | error e => simp [hraw, Except.toOption]
    | ok rec => simp [hraw, Except.toOption, tailAfter, Line.advance]

variable (codec) in
/-- The records are a chain from genesis and a running process knows its tail.  Once a
failed write may have left its line (`strays`), a cursor may be behind instead, and a
number repeated. -/
structure Chain (strays : Prop) (records : List Line) (tail : Option Tail) : Prop where
  linked : Linked codec genesis records ∨
    strays ∧ (tailAfter genesis records).nextSeq < records.length
  cursor : ∀ t, tail = some t → (Linked codec genesis records ∧ t = tailAfter genesis records) ∨
    strays ∧ t.nextSeq < records.length

section Chain
variable {strays : Prop} {records : List Line} {outcome : WriteOutcome}

theorem chain_nil : Chain codec strays [] none := ⟨.inl trivial, fun _ h => nomatch h⟩

/-- The records go on with the one that chains onto the cursor. -/
theorem Chain.linked_concat (h : Chain codec strays records (some tail))
    (hf : Follows codec tail line) : Linked codec genesis (records ++ [line]) ∨
      strays ∧ (tailAfter genesis (records ++ [line])).nextSeq < (records ++ [line]).length := by
  rw [Ledger.linked_concat, tailAfter_concat, Line.advance, hf.seq, length_append,
    length_singleton]
  rcases h.cursor tail rfl with ⟨hl, rfl⟩ | ⟨hs, hlt⟩
  · exact .inl ⟨hl, hf⟩
  · exact .inr ⟨hs, by simpa using hlt⟩

/-- The cursor after a success. -/
theorem Chain.advance (h : Chain codec strays records (some tail)) (hf : Follows codec tail line) :
    Chain codec strays (records ++ [line]) (some line.advance) := by
  refine ⟨h.linked_concat hf, fun t ht => ?_⟩
  obtain rfl := some.inj ht
  rcases h.linked_concat hf with hl | ⟨hs, hlt⟩
  · exact .inl ⟨hl, (tailAfter_concat _ _ _).symm⟩
  · exact .inr ⟨hs, by rwa [tailAfter_concat] at hlt⟩

/-- The cursor behind the records. -/
theorem Chain.stay (h : Chain codec strays records (some tail)) (hf : Follows codec tail line)
    (hs : strays) : Chain codec strays (records ++ [line]) (some tail) := by
  refine ⟨h.linked_concat hf, fun t ht => .inr ⟨hs, ?_⟩⟩
  obtain rfl := some.inj ht
  rw [length_append, length_singleton]
  rcases h.cursor _ rfl with ⟨hl, ht⟩ | ⟨-, hlt⟩
  · have hseq := tailAfter_nextSeq hl
    rw [← ht] at hseq
    simp only [genesis] at hseq
    omega
  · omega

theorem Chain.dies {tail : Option Tail} (h : Chain codec strays records tail) :
    Chain codec strays records none :=
  ⟨h.linked, fun _ ht => nomatch ht⟩

/-- **A new process continues the records**, whatever they are. -/
theorem Chain.open {tail : Option Tail} (h : Chain codec strays records tail) :
    Chain codec strays records (some (tailAfter genesis records)) := by
  refine ⟨h.linked, fun t ht => ?_⟩
  obtain rfl := some.inj ht
  exact h.linked.imp (fun hl => ⟨hl, rfl⟩) id

/-- Of a write that has put down nothing, no line survives. -/
theorem survives_left_zero (hc : LawfulCodec codec) (hw : Written codec line text) (file : File) :
    Attempt.survives ⟨line, text, file, .left 0⟩ = false := by
  obtain ⟨lead, lines, hpend, -⟩ := pendingWrite_lead file (text ++ [newline])
  have hpos := length_pos_of_ne_nil (hc.nonempty hw)
  refine decide_eq_false ?_
  rw [hpend, length_append, length_append, length_singleton]
  omega

/-- **An append keeps the chain** unless its line stays although it failed. -/
theorem Chain.append (hc : LawfulCodec codec) {file : File}
    (h : Chain codec strays (fileRecords codec file) (some tail)) (kind : RecordKind)
    (payload : Json) (ts : String) (hout : ∀ k, outcome = .left (k + 1) → strays) :
    Chain codec strays (fileRecords codec (append codec tail file kind payload ts outcome).file)
      (append codec tail file kind payload ts outcome).tail := by
  rw [records_of_append hc]
  rcases @append_cases codec tail file kind payload ts outcome with happ | ⟨raw, text, -, hw, happ⟩
  · rw [happ]
    simpa [survivors] using h
  rw [happ]
  dsimp only [Option.toList]
  rw [survivors_singleton]
  have hf : Follows codec tail (nextLine codec tail kind ts raw) := ⟨rfl, rfl, rfl⟩
  have hlost : ∀ {a : Attempt}, a.survives = false → ∀ {t : Option Tail},
      Chain codec strays (fileRecords codec file) t →
        Chain codec strays (fileRecords codec file ++ if a.survives then [a.line] else []) t := by
    intro a ha t ht
    simpa [ha] using ht
  cases outcome with
  | done => exact h.advance hf
  | refused | failed => exact hlost rfl h
  | diedBefore => exact hlost rfl h.dies
  | left k =>
    split
    · rename_i hwhole
      -- the record is in the file while the tail has not moved
      refine h.stay hf ?_
      cases k with
      | succ k => exact hout k rfl
      | zero => cases (survives_left_zero hc hw file).symm.trans hwhole
    · rw [append_nil]
      exact h
  | died k =>
    split
    · exact (h.advance hf).dies
    · rw [append_nil]
      exact h.dies

end Chain

/-! ## Whole lines -/

variable (codec) in
/-- The text of a record, or nothing. -/
def Complete (p : Bytes) : Prop := p = [] ∨ ∃ line, Written codec line p

variable (codec) in
/-- The text of a record without its end. -/
def Cut (p : Bytes) : Prop :=
  ∃ line text k, Written codec line text ∧ 0 < k ∧ k < text.length ∧ p = text.take k

variable (codec) in
/-- Every line of the file is whole, save the last one if the process is dead. -/
def Whole (file : File) (tail : Option Tail) : Prop :=
  (∀ p ∈ pieces file, Complete codec p) ∨
    tail = none ∧ ∃ lines p, pieces file = lines ++ [p] ∧ (∀ q ∈ lines, Complete codec q) ∧
      Cut codec p

section Whole
variable (hc : LawfulCodec codec)
include hc

/-- A written line starts and ends in a byte that is not blank. -/
theorem Written.trimAsciiEnd_eq (hw : Written codec line text) : trimAsciiEnd text = text := by
  refine rdropWhile_eq_self_iff.mpr fun hl => ?_
  have := hc.last hw (getLast?_eq_some_getLast hl)
  simp [this]

theorem Written.not_blank (hw : Written codec line text) {k : Nat} (hk : 0 < k) :
    ¬ Blank (text.take k) := by
  intro h
  cases htext : text with
  | nil => exact hc.nonempty hw htext
  | cons b rest =>
    have hb : isAsciiWhitespace b = false := hc.first hw (by rw [htext]; rfl)
    obtain ⟨j, rfl⟩ := Nat.exists_eq_add_of_lt hk
    rw [h b (by simp [htext])] at hb
    cases hb

theorem Written.trimAscii_isEmpty (hw : Written codec line text) :
    (trimAscii text).isEmpty = false := by
  rw [trimAscii, hw.trimAsciiEnd_eq hc]
  cases htext : text with
  | nil => exact absurd htext (hc.nonempty hw)
  | cons b rest =>
    have hb : isAsciiWhitespace b = false := hc.first hw (by rw [htext]; rfl)
    simp [hb]

/-- What `trim_ascii_end` leaves of a strict prefix is a shorter prefix. -/
theorem Cut.error {p : Bytes} (h : Cut codec p) :
    ∃ e, codec.lineFromSlice (trimAsciiEnd p) = .error e := by
  obtain ⟨line, text, k, hw, -, hk, rfl⟩ := h
  have hcut : trimAsciiEnd (text.take k) <+: text.take k := rdropWhile_prefix _ _
  have hpre : trimAsciiEnd (text.take k) <+: text := hcut.trans <| take_prefix k text
  have hlen : (trimAsciiEnd (text.take k)).length < text.length := by
    have := hcut.length_le
    rw [length_take] at this
    omega
  rw [prefix_iff_eq_take.mp hpre]
  exact hc.cut hw hlen

/-- **A repair leaves whole lines.** -/
theorem Whole.repair {file : File} {tail tail' : Option Tail} (h : Whole codec file tail) :
    Whole codec (repairTornTail codec file true).2 tail' := by
  left
  rcases h with hall | ⟨-, lines, p, hpieces, hlines, hcut⟩
  · rcases @repair_cases codec file true with
      ⟨hsame, -⟩ | ⟨init, q, blanks, e, hq, -, -, hleft, -⟩
    · rwa [hsame]
    · rw [hleft]
      intro r hr
      rcases mem_append.mp hr with hr | hr
      · exact hall r (by rw [hq]; exact mem_append_left _ hr)
      · exact .inl (mem_singleton.mp hr)
  · obtain ⟨e, he⟩ := hcut.error hc
    have hblank : ¬ Blank p := by
      obtain ⟨line, text, k, hw, hk, -, rfl⟩ := hcut
      exact hw.not_blank hc hk
    -- the last line that is not blank is the cut one
    have hlast : ∀ {init q blanks}, pieces file = init ++ q :: blanks → (∀ b ∈ blanks, Blank b) →
        init = lines ∧ q = p := by
      intro init q blanks heq hblanks
      rw [hpieces] at heq
      cases blanks using reverseRecOn with
      | nil =>
        obtain ⟨rfl, hqp⟩ := append_inj' heq rfl
        exact ⟨rfl, (List.cons.inj hqp).1.symm⟩
      | append_singleton blanks b =>
        rw [← cons_append, ← List.append_assoc] at heq
        obtain ⟨-, hpb⟩ := append_inj' heq rfl
        rw [(List.cons.inj hpb).1] at hblank
        exact absurd (hblanks b (by simp)) hblank
    rcases @repair_cases codec file true with
      ⟨-, hkept⟩ | ⟨init, q, blanks, e', hq, -, hblanks, hleft, -⟩
    · rcases hkept rfl with hall | ⟨init, q, blanks, rec, hq, hblanks, hrec⟩
      · exact absurd (hall p (by simp [hpieces])) hblank
      · obtain ⟨-, rfl⟩ := hlast hq hblanks
        rw [he] at hrec
        cases hrec
    · obtain ⟨rfl, -⟩ := hlast hq hblanks
      rw [hleft]
      intro r hr
      rcases mem_append.mp hr with hr | hr
      · exact hlines r hr
      · exact .inl (mem_singleton.mp hr)

/-- **An append keeps the lines whole**, if what it fails to write is cut off. -/
theorem Whole.append {file : File} {outcome : WriteOutcome} (h : Whole codec file (some tail))
    (kind : RecordKind) (payload : Json) (ts : String) (hout : ∀ k, outcome ≠ .left (k + 1)) :
    Whole codec (append codec tail file kind payload ts outcome).file
      (append codec tail file kind payload ts outcome).tail := by
  -- a process that runs has no torn line behind it
  have hall := h.resolve_right fun h => nomatch h.1
  rcases @append_cases codec tail file kind payload ts outcome with happ | ⟨raw, text, -, hw, happ⟩
  · rwa [happ]
  rw [happ]
  have hlines : ∀ {lines}, pieces file = lines ∨ pieces file = lines ++ [[]] →
      ∀ q ∈ lines, Complete codec q := by
    intro lines hpieces q hq
    rcases hpieces with hpieces | hpieces <;> exact hall q (by simp [hpieces, hq])
  have hwrote := wrote (hc.noNewline hw) (nextLine codec tail kind ts raw) file outcome
  generalize Attempt.survives _ = whole at hwrote
  cases hwrote with
  | nothing hpieces => exact .inl (hpieces ▸ hall)
  | part lines hbefore j hj hcause hpieces =>
    cases j with
    | zero =>
      refine .inl fun q hq => ?_
      rw [hpieces] at hq
      rcases mem_append.mp hq with hq | hq
      · exact hlines hbefore q hq
      · exact .inl (mem_singleton.mp hq)
    | succ j =>
      rcases hcause with ⟨k, hk⟩ | ⟨k, rfl⟩
      · exact absurd hk (hout k)
      -- a crash in the line, and the next open cuts it off
      · exact .inr ⟨rfl, lines, _, hpieces, hlines hbefore, _, text, j + 1, hw, j.succ_pos, hj, rfl⟩
  | whole lines hbefore hpieces =>
    refine .inl fun q hq => ?_
    have hmem : q ∈ lines ∨ q = text ∨ q = [] := by
      rcases hpieces with hpieces | hpieces <;> rw [hpieces] at hq <;> simp at hq <;> tauto
    rcases hmem with hq | rfl | rfl
    · exact hlines hbefore q hq
    · exact .inr ⟨_, hw⟩
    · exact .inl rfl

/-- The walk of `verify_chain` passes whole lines whose records are a chain. -/
theorem verifyLines_whole {lines : List Bytes} (h : ∀ p ∈ lines, Complete codec p)
    (hl : Linked codec tail (records codec lines)) (index : Nat) :
    verifyLines codec index tail.nextSeq tail.prev lines =
      { intact := true, records := tail.nextSeq + (records codec lines).length } := by
  induction lines generalizing tail index with
  | nil => rfl
  | cons p lines ih =>
    have hrest : ∀ q ∈ lines, Complete codec q := fun q hq => h q (by simp [hq])
    have hsplit : records codec (p :: lines) = records codec [p] ++ records codec lines :=
      records_append [p] lines
    rcases h p (by simp) with rfl | ⟨line, hw⟩
    · have hnil : records codec [[]] = [] := records_blank hc (by simp [trimAscii, trimAsciiEnd])
      rw [hsplit, hnil, nil_append] at hl ⊢
      exact ih hrest hl (index + 1)
    · rw [hsplit, records_ok (hc.roundTrip hw), singleton_append] at hl ⊢
      obtain ⟨hf, hl⟩ := hl
      rw [verifyLines_follows hf (hw.trimAscii_isEmpty hc) (hc.roundTrip hw), ih hrest hl]
      simp only [Line.advance, hf.seq, length_cons]
      congr 1
      omega

/-- **Whole lines whose records are a chain verify.** -/
theorem verifyChain_whole {file : File} (h : ∀ p ∈ pieces file, Complete codec p)
    (hl : Linked codec genesis (fileRecords codec file)) :
    verifyChain codec file = { intact := true, records := (fileRecords codec file).length } := by
  cases file with
  | none =>
    have hnil : fileRecords codec none = [] := records_blank hc (by simp [Lines.split, trimAscii,
      trimAsciiEnd])
    rw [hnil]
    rfl
  | some bytes =>
    have hwalk := verifyLines_whole hc h hl 0
    rwa [genesis, Nat.zero_add] at hwalk

end Whole

/-! ## Durability -/

/-- A write that fails leaves none of its bytes. -/
def WriteOutcome.Undone (outcome : WriteOutcome) : Prop := ∀ k, outcome ≠ .left (k + 1)

/-- No cut of the file fails in the event: neither the one after a failed write nor the
repair of a torn line. -/
def Event.Sound : Event → Prop
  | .opens io => io.repaired = true ∧ io.integrityOutcome.Undone ∧ io.breakOutcome.Undone
  | .appends _ _ _ outcome => outcome.Undone

theorem Event.Sound.undone {event : Event} (h : event.Sound) {kind : RecordKind} {ts : String}
    {outcome : WriteOutcome} (hw : event.Writes kind ts outcome) : outcome.Undone := by
  cases event with
  | opens io =>
    rcases hw.2 with heq | heq
    · exact (Prod.mk.inj heq).2 ▸ h.2.1
    · exact (Prod.mk.inj heq).2 ▸ h.2.2
  | appends kind' payload ts' outcome' => exact hw.2.2 ▸ h

/-- What is undone survives only if its append returned `Some`, or in a crash. -/
theorem append_survives (hc : LawfulCodec codec) {file : File} {kind : RecordKind} {payload : Json}
    {ts : String} {outcome : WriteOutcome} (hout : outcome.Undone) :
    ∀ a ∈ (append codec tail file kind payload ts outcome).attempt, a.survives = true →
      a.outcome = .done ∨ ∃ reached, a.outcome = .died reached ∧
        (pendingWrite a.before (a.text ++ [newline])).length ≤ reached + 1 := by
  rcases @append_cases codec tail file kind payload ts outcome with happ | ⟨raw, text, -, hw, happ⟩
  · simp [happ]
  rw [happ]
  intro a ha hs
  obtain rfl := some.inj ha
  cases outcome with
  | done => exact .inl rfl
  | died reached => exact .inr ⟨reached, rfl, of_decide_eq_true hs⟩
  | left k =>
    cases k with
    | zero => cases (survives_left_zero hc hw file).symm.trans hs
    | succ k => exact absurd rfl (hout k)
  | refused | failed | diedBefore => cases hs

/-- The bytes a record's digest is taken over. -/
def Line.hashed (line : Line) : Bytes :=
  preimage line.seq line.prev line.ts line.kind line.payload

/-- A codec of the records of a table. -/
def tableCodec (table : List (Line × Bytes)) (digests : List (Bytes × String))
    (raw : Json → Except String Bytes) (lossy : Bytes → String) : LedgerCodec where
  hexDigest bytes := (((table.map fun e => (e.1.hashed, e.1.digest)) ++ digests).find?
    (·.1 = bytes)).elim "" (·.2)
  toRawValue := raw
  lineToString line := (table.find? (·.1 = line)).elim (.error "out of range") (.ok ·.2)
  lineFromSlice bytes := (table.find? (·.2 = bytes)).elim (.error "expected value") (.ok ·.1)
  breakOfSlice _ := none
  fromUtf8Lossy := lossy

/-- A record of the table is one that may be read back. -/
structure Readable (e : Line × Bytes) : Prop where
  newline : newline ∉ e.2
  nonempty : e.2 ≠ []
  first : e.2.head?.any isAsciiWhitespace = false
  last : e.2.getLast?.any isAsciiWhitespace = false
  seq : e.1.seq < 2 ^ 64

instance (e : Line × Bytes) : Decidable (Readable e) :=
  decidable_of_iff (newline ∉ e.2 ∧ e.2 ≠ [] ∧ e.2.head?.any isAsciiWhitespace = false ∧
      e.2.getLast?.any isAsciiWhitespace = false ∧ e.1.seq < 2 ^ 64)
    ⟨fun ⟨h1, h2, h3, h4, h5⟩ => ⟨h1, h2, h3, h4, h5⟩,
      fun h => ⟨h.newline, h.nonempty, h.first, h.last, h.seq⟩⟩

/-- **A table of readable records is lawful** if none begins another. -/
theorem lawful_table {table : List (Line × Bytes)} {digests : List (Bytes × String)}
    {raw : Json → Except String Bytes} {lossy : Bytes → String}
    (hread : ∀ e ∈ table, Readable e)
    (hlead : ∀ e ∈ table, ∀ e' ∈ table, e'.2 <+: e.2 → e' = e) :
    LawfulCodec (tableCodec table digests raw lossy) := by
  have hok : ∀ {bytes line}, (tableCodec table digests raw lossy).lineFromSlice bytes = .ok line →
      (line, bytes) ∈ table := by
    intro bytes line h
    simp only [tableCodec] at h
    cases hfind : table.find? (·.2 = bytes) with
    | none => simp [hfind] at h
    | some e =>
      have hbytes : e.2 = bytes := by simpa using find?_some hfind
      simp only [hfind, Option.elim_some, Except.ok.injEq] at h
      rw [← h, ← hbytes]
      exact mem_of_find?_eq_some hfind
  have herror : ∀ {bytes}, (∀ line, (line, bytes) ∉ table) →
      ∃ e, (tableCodec table digests raw lossy).lineFromSlice bytes = .error e := by
    intro bytes h
    cases hline : (tableCodec table digests raw lossy).lineFromSlice bytes with
    | error e => exact ⟨e, rfl⟩
    | ok line => exact absurd (hok hline) (h line)
  have hmem : ∀ {line text}, (line, text) ∈ table →
      (tableCodec table digests raw lossy).lineFromSlice text = .ok line := by
    intro line text h
    simp only [tableCodec]
    cases hfind : table.find? (·.2 = text) with
    | none => simpa using find?_eq_none.mp hfind _ h
    | some e =>
      have htext : e.2 = text := by simpa using find?_some hfind
      have he := hlead _ h e (mem_of_find?_eq_some hfind) (htext ▸ prefix_rfl)
      rw [he]
      rfl
  have hw : ∀ {line text}, Written (tableCodec table digests raw lossy) line text →
      (line, text) ∈ table := by
    intro line text h
    have htext := h.2
    simp only [tableCodec] at htext
    cases hfind : table.find? (·.1 = line) with
    | none => simp [hfind] at htext
    | some e =>
      have hline : e.1 = line := by simpa using find?_some hfind
      simp only [hfind, Option.elim_some, Except.ok.injEq] at htext
      rw [← htext, ← hline]
      exact mem_of_find?_eq_some hfind
  have hend : ∀ {line text}, (line, text) ∈ table → trimAsciiEnd text = text := by
    intro line text h
    refine rdropWhile_eq_self_iff.mpr fun hl hb => ?_
    have hlast := (hread _ h).last
    rw [getLast?_eq_some_getLast hl] at hlast
    simp [hb] at hlast
  refine ⟨?_, fun h => hmem (hw h), fun h => (hread _ (hw h)).newline,
    fun h => (hread _ (hw h)).nonempty, ?_, ?_, ?_, ?_, fun h => (hread _ (hok h)).seq⟩
  · intro bytes hblank
    refine herror fun line hline => ?_
    rw [trimAscii, hend hline] at hblank
    have hfirst := (hread _ hline).first
    cases hbytes : bytes with
    | nil => exact (hread _ hline).nonempty hbytes
    | cons b rest =>
      rw [hbytes] at hfirst hblank
      simp only [head?_cons, Option.any_some] at hfirst
      simp [hfirst] at hblank
  · intro line text b h hb
    have hfirst := (hread _ (hw h)).first
    rw [hb] at hfirst
    simpa using hfirst
  · intro line text b h hb
    have hlast := (hread _ (hw h)).last
    rw [hb] at hlast
    simpa using hlast
  · intro line text k h hk
    refine herror fun line' hline => ?_
    have heq := hlead _ (hw h) _ hline <| take_prefix k text
    have hlen : (text.take k).length = text.length := by rw [(Prod.mk.inj heq).2]
    rw [length_take] at hlen
    omega
  · intro bytes line h
    exact ⟨line, by rw [hend (hok h)]; exact h⟩

/-- The digest of the first record. -/
def startDigest : String := "811aba2d1da3b69bbfd5ec39f4c7a84278ba7b60fcda9aae6c5d00f8ca1302f9"

/-- The supervisor starts. -/
def startLine : Line where
  seq := 0
  prev := genesisPrev
  ts := "2025-01-01T00:00:00+00:00"
  kind := "supervisor_start"
  payload := utf8 "null"
  digest := startDigest

/-- The text of a record whose payload is `payload`. -/
def lineText (seq : String) (line : Line) (payload : String) : Bytes :=
  utf8 ("\x7b\"seq\":" ++ seq ++ ",\"prev\":\"" ++ line.prev ++ "\",\"ts\":\"" ++ line.ts ++
    "\",\"kind\":\"" ++ line.kind ++ "\",\"payload\":" ++ payload ++ ",\"digest\":\"" ++
    line.digest ++ "\"\x7d")

/-- It starts again. -/
def againLine : Line :=
  { startLine with
    seq := 1, prev := startDigest, ts := "2025-01-01T00:01:00+00:00"
    digest := "34d0f338d00e1ccf8ca414d3abd9dc6bdc56ead5db5e377aa6629e5bfaeede92" }

/-- The digest of the torn line. -/
def removedDigest : String := "f4e5f00d85edb04a0bae35a8efc4b8c4f682c43b4959a8fcdc0e64e4bad0c2a2"

/-- The payload that records the repair. -/
def removedPayload : String :=
  "\x7b\"finding\":\"partial_final_line\",\"removed_bytes\":7,\"removed_sha256\":\"" ++
    removedDigest ++ "\",\"removed_text\":\"\x7b\\\"seq\\\":\"\x7d"

/-- Seven bytes of a record were removed. -/
def removedLine : Line where
  seq := 1
  prev := startDigest
  ts := "2025-01-01T00:02:00+00:00"
  kind := "ledger_integrity"
  payload := utf8 removedPayload
  digest := "2eb665c1c279fc1aef82cbf10b7fe1092f42a04650afaaadab61a28ae4867693"

/-- The records and their texts. -/
def startTable : List (Line × Bytes) :=
  [(startLine, lineText "0" startLine "null"), (againLine, lineText "1" againLine "null"),
    (removedLine, lineText "1" removedLine removedPayload)]

/-- A codec that knows these texts. -/
def startCodec : LedgerCodec :=
  tableCodec startTable [(utf8 "\x7b\"seq\":", removedDigest)]
    (fun payload =>
      match payload with
      | .null => .ok (utf8 "null")
      | .obj (("finding", .str "partial_final_line") :: ("removed_bytes", .num 7) :: _) =>
          .ok (utf8 removedPayload)
      | _ => .error "out of range")
    (fun _ => "\x7b\"seq\":")

theorem lawful_startCodec : LawfulCodec startCodec :=
  lawful_table (by decide +kernel) (by decide +kernel)

/-- The clock and the system calls of an open that goes well. -/
def calm : OpenIo where
  integrityTs := "2025-01-01T00:02:00+00:00"
  integrityOutcome := .done
  breakTs := ""
  breakOutcome := .done

/-- One record, an append that fails, one that a crash cuts, and an open. -/
def startEvents : List Event :=
  [.opens calm, .appends .supervisorStart .null "2025-01-01T00:00:00+00:00" .done,
    .appends .supervisorStart .null "2025-01-01T00:01:00+00:00" .failed,
    .appends .supervisorStart .null "2025-01-01T00:01:00+00:00" (.died 7), .opens calm]

theorem startEvents_sound : ∀ event ∈ startEvents, event.Sound := by
  simp [startEvents, calm, Event.Sound, WriteOutcome.Undone]

theorem survivors_startEvents :
    survivors (run startCodec startEvents).history = [startLine, removedLine] := by
  decide +kernel

end Zicato.Ledger
