import Zicato.RoundLog
import Zicato.TextLines

/-! # The round log is durable

Whatever becomes of the appends, the file is the lines of the records that reached
it whole, then at most the beginning of one more; a writer that keeps a sequence
number stands behind complete lines. -/
open List Option
namespace Zicato.RoundLog

open Ledger (File newline)

variable {F : Type} {rt : JsonRuntime F}

/-- What the log relies on of `json`: ASCII output without control characters, an
object between braces, and that reading it back gives the same object. -/
structure LawfulJson (rt : JsonRuntime F) : Prop where
  roundTrip : ∀ {fields text}, rt.dumps (.dict fields) = some text →
    rt.loads text = some (.dict fields)
  printable : ∀ {value text}, rt.dumps value = some text →
    ∀ c ∈ text, 32 ≤ c.toNat ∧ c.toNat ≤ 126
  braces : ∀ {fields text}, rt.dumps (.dict fields) = some text →
    text.head? = some '\x7b' ∧ text.getLast? = some '\x7d'

/-! ## A record reads back -/

theorem ofToken?_token (type : EventType) : EventType.ofToken? type.token = some type := by
  cases type <;> decide

theorem nodup_defaults (type : EventType) :
    (type.defaults : Dict String (PyValue F)).keys.Nodup := by
  cases type <;> simp [EventType.defaults, Dict.keys]

/-- Each field of an event is found in its own payload. -/
theorem build_values (event : RoundEvent F) : event.type.build event.values = event := by
  obtain ⟨type, values, names⟩ := event
  refine RoundEvent.ext rfl ?_
  have hnodup := nodup_defaults (F := F) type
  rw [← names] at hnodup
  change type.defaults.map (fun f => (f.1, values.getD f.1 f.2)) = values
  refine ext_getElem (by simpa [Dict.keys] using (congrArg length names).symm) ?_
  intro i hi hi'
  rw [length_map] at hi
  have hname : (type.defaults[i]).1 = (values[i]).1 := by
    have := congrArg (·[i]?) names
    simpa [Dict.keys, hi, hi'] using this.symm
  have hget : values.get? (values[i]).1 = some (values[i]).2 :=
    (Dict.get?_eq_some_iff hnodup _ _).mpr (getElem_mem hi')
  simp only [getElem_map, hname, Dict.getD, hget, getD_some]

theorem decodeEvent_values (event : RoundEvent F) :
    decodeEvent event.type.token event.values = some event := by
  rw [decodeEvent, ofToken?_token, map_some, build_values]

theorem envelopeOf_value {record : Record F} {fields : Dict String (PyValue F)}
    (h : record.value = .dict fields) : envelopeOf rt fields = .ok (record.reread rt) := by
  obtain rfl := PyValue.dict.inj h
  simp [envelopeOf, Dict.get?, Dict.getD, JsonRuntime.strOf, JsonRuntime.intOf,
    decodeEvent_values, Record.reread, Record.envelope]

/-! ## Lines -/

/-- A text `json.dumps` made of a record. -/
def Written (rt : JsonRuntime F) (record : Record F) (text : Text) : Prop :=
  rt.dumps record.value = some text

variable {record : Record F} {text : Text} {entries : List (Record F × Text)}

section
variable (hj : LawfulJson rt) (hw : Written rt record text)
include hj hw

theorem Written.isLineBreak : ∀ c ∈ text, Text.isLineBreak c = false:= by
  intro c hc
  have hprint := hj.printable hw c hc
  simp only [Text.isLineBreak, Bool.or_eq_false_iff, Bool.and_eq_false_iff, decide_eq_false_iff_not,
    beq_eq_false_iff_ne]
  omega

/-- A written line has no blanks around it. -/
theorem Written.strip_eq : text.strip = text:= by
  obtain ⟨hhead, hlast⟩ := hj.braces hw
  have hskip : text.skipSpace = text := by
    cases text with
    | nil => rfl
    | cons c rest =>
      obtain rfl : c = '\x7b' := by simpa using hhead
      rfl
  rw [Text.strip, hskip]
  refine rdropWhile_eq_self_iff.mpr fun hne => ?_
  rw [getLast?_eq_some_getLast hne] at hlast
  rw [some.inj hlast]
  decide

theorem Written.ne_nil : text ≠ [] := by
  rintro rfl
  cases (hj.braces hw).1

theorem Written.decodeLine (index : Nat) :
    RoundLog.decodeLine rt text index = .ok (record.reread rt) := by
  rw [RoundLog.decodeLine, hj.roundTrip hw]
  exact envelopeOf_value rfl

end

/-- The lines of a text are the lines it was built from. -/
theorem splitLines_text {texts : List Text} (h : ∀ t ∈ texts, ∀ c ∈ t, Text.isLineBreak c = false) :
    Text.splitLines (Lines.text '\n' texts) = texts := by
  induction texts with
  | nil => rfl
  | cons t texts ih =>
    obtain ⟨ht, hrest⟩ := forall_mem_cons.mp h
    have hkeep : Text.splitLinesKeep (Lines.text '\n' (t :: texts)) =
        (t ++ ['\n']) :: Text.splitLinesKeep (Lines.text '\n' texts) := by
      have hcons : Lines.text '\n' (t :: texts) = t ++ '\n' :: Lines.text '\n' texts := by
        simp [Lines.text]
      have hinner : ∀ c ∈ t, Text.isLineBreak c = false ∧ c ≠ '\r' := by
        intro c hc
        refine ⟨ht c hc, ?_⟩
        rintro rfl
        exact absurd (ht '\r' hc) (by decide)
      rw [hcons, Text.splitLinesKeep, Lines.splitEnds_append hinner]
      change Lines.prepend t (Text.splitLinesKeep _) = _
      rw [Text.splitLinesKeep_end (fun hpair => absurd hpair.1 (by decide)) (by decide)]
      rfl
    have hrdrop : (t ++ ['\n']).rdropWhile Text.isLineBreak = t :=
      Text.rdropWhile_append (by decide) ht
    rw [Text.splitLines, hkeep, map_cons, hrdrop]
    exact congrArg (t :: ·) (ih hrest)

/-- The file that holds the lines of `entries`. -/
def bytesOf (entries : List (Record F × Text)) : Bytes :=
  Text.encode (Lines.text '\n' (entries.map Prod.snd))

theorem bytesOf_concat (e : Record F × Text) :
    bytesOf (entries ++ [e]) = bytesOf entries ++ lineBytes e.2 := by
  rw [bytesOf, map_append, map_singleton, Lines.text_concat, Text.encode_append]
  rfl

theorem bytesOf_terminated : bytesOf entries = [] ∨ (bytesOf entries).getLast? = some newline := by
  rcases eq_nil_or_concat entries with rfl | ⟨init, e, rfl⟩
  · exact Or.inl rfl
  · right
    rw [concat_eq_append, bytesOf_concat, lineBytes, Text.encode_append, ← List.append_assoc]
    exact getLast?_concat

/-- The complete lines before a torn one. -/
theorem complete_bytesOf {torn : Bytes} (h : newline ∉ torn) :
    complete (bytesOf entries ++ torn) = bytesOf entries := by
  have hdrop : ∀ b ∈ torn.reverse, (decide (b ≠ newline)) = true := by
    intro b hb
    refine decide_eq_true ?_
    rintro rfl
    exact h (mem_reverse.mp hb)
  rw [complete, rdropWhile, reverse_append, dropWhile_append_of_pos hdrop]
  change (bytesOf entries).rdropWhile _ = _
  refine rdropWhile_eq_self_iff.mpr fun hne => ?_
  rcases (bytesOf_terminated : bytesOf entries = [] ∨ _) with hnil | hlast
  · exact absurd hnil hne
  · rw [getLast?_eq_some_getLast hne] at hlast
    simp [some.inj hlast]

/-- Every entry is the record its text was made of. -/
def AllWritten (rt : JsonRuntime F) (entries : List (Record F × Text)) : Prop :=
  ∀ e ∈ entries, Written rt e.1 e.2

theorem mapM_decodeLine (hj : LawfulJson rt) (hw : AllWritten rt entries) (index : Nat) :
    ((entries.map Prod.snd).zipIdx index).mapM
        (fun line => decodeLine rt line.1.strip line.2) =
      .ok (entries.map (·.1.reread rt)) := by
  induction entries generalizing index with
  | nil => rfl
  | cons e entries ih =>
    obtain ⟨he, hrest⟩ := forall_mem_cons.mp hw
    rw [map_cons, zipIdx_cons, mapM_cons, he.strip_eq hj, he.decodeLine hj, ok_bind,
      ih hrest]
    rfl

/-- **Reading returns the records of the complete lines.** -/
theorem read_bytesOf (hj : LawfulJson rt) (hw : AllWritten rt entries) {torn : Bytes}
    (h : newline ∉ torn) :
    read rt (some (bytesOf entries ++ torn)) = .ok (entries.map (·.1.reread rt)) := by
  have hbreaks : ∀ t ∈ entries.map Prod.snd, ∀ c ∈ t, Text.isLineBreak c = false := by
    intro t ht
    obtain ⟨e, he, rfl⟩ := mem_map.mp ht
    exact (hw e he).isLineBreak hj
  have hkept : ((entries.map Prod.snd).zipIdx.filter fun item => !item.1.strip.isEmpty) =
      (entries.map Prod.snd).zipIdx := by
    refine filter_eq_self.mpr ?_
    rintro ⟨line, i⟩ hline
    obtain ⟨e, he, rfl⟩ := mem_map.mp (fst_mem_of_mem_zipIdx hline)
    simp only [(hw e he).strip_eq hj]
    simpa using (hw e he).ne_nil hj
  have hdecode : Text.decode (bytesOf entries) = some (Lines.text '\n' (entries.map Prod.snd)) :=
    Text.decode_encode _
  simp only [read, complete_bytesOf h, hdecode, splitLines_text hbreaks, hkept]
  exact mapM_decodeLine hj hw 0

/-! ## What the file holds -/

variable {file file' : File}

/-- Complete lines, then at most the beginning of one more. -/
def Holds (entries : List (Record F × Text)) (file : File) : Prop :=
  ∃ torn, newline ∉ torn ∧ file.getD [] = bytesOf entries ++ torn

/-- Complete lines only. -/
def Whole (entries : List (Record F × Text)) (file : File) : Prop :=
  file.getD [] = bytesOf entries

theorem Whole.holds (h : Whole entries file) : Holds entries file :=
  ⟨[], by simp, by rw [h, append_nil]⟩

theorem eq_nil_of_bytesOf (h : bytesOf entries = []) : entries = [] := by
  rcases eq_nil_or_concat entries with rfl | ⟨init, e, rfl⟩
  · rfl
  · rw [concat_eq_append, bytesOf_concat, lineBytes, Text.encode_append] at h
    simp [Text.encode, String.utf8EncodeChar] at h

theorem Holds.read (hj : LawfulJson rt) (hw : AllWritten rt entries) (h : Holds entries file) :
    RoundLog.read rt file = .ok (entries.map (·.1.reread rt)) := by
  obtain ⟨torn, htorn, hfile⟩ := h
  cases file with
  | none =>
    obtain rfl := eq_nil_of_bytesOf (append_eq_nil_iff.mp hfile.symm).1
    rfl
  | some bytes =>
    rw [getD_some] at hfile
    rw [hfile, read_bytesOf hj hw htorn]

theorem Holds.truncate (h : Holds entries file) : Whole entries (truncateTornTail file) := by
  obtain ⟨torn, htorn, hfile⟩ := h
  cases file with
  | none => exact (append_eq_nil_iff.mp hfile.symm).1.symm
  | some bytes =>
    rw [getD_some] at hfile
    rw [hfile]
    exact complete_bytesOf htorn

theorem Whole.unterminated (h : Whole entries file) : RoundLog.unterminated file = false := by
  rw [RoundLog.unterminated, h]
  rcases (bytesOf_terminated : bytesOf entries = [] ∨ _) with hnil | hlast
  · rw [hnil]
    rfl
  · rw [hlast]
    simp

/-- The part of a line that is not all of it has no newline. -/
theorem newline_notMem_take (hj : LawfulJson rt) (hw : Written rt record text) {reached : Nat}
    (h : reached < (lineBytes text).length) : newline ∉ (lineBytes text).take reached := by
  have hline : lineBytes text = Text.encode text ++ [newline] := by
    rw [lineBytes, Text.encode_append]
    rfl
  rw [hline, length_append, length_singleton] at h
  rw [hline, take_append_of_le_length (by omega)]
  intro hmem
  obtain ⟨c, hc, hb⟩ := mem_flatMap.mp (mem_of_mem_take hmem)
  have hprint := hj.printable hw c hc
  have hle : c.toNat ≤ 127 := by omega
  have hascii : newline = UInt8.ofNat c.toNat := by
    simpa [String.utf8EncodeChar, hle] using hb
  have hval := congrArg UInt8.toNat hascii
  rw [UInt8.toNat_ofNat'] at hval
  change 10 = _ at hval
  omega

/-! ## The invariant -/

/-- The records are numbered from 1. -/
def Numbered (records : List (Record F)) : Prop :=
  records.map (·.seq) = (List.range records.length).map fun i : Nat => (i : Int) + 1

theorem Numbered.concat {records : List (Record F)} (h : Numbered records)
    (hseq : record.seq = records.length + 1) : Numbered (records ++ [record]) := by
  rw [Numbered, map_append, h, length_append, length_singleton, range_succ,
    map_append, map_singleton, map_singleton, hseq]

/-- A writer that keeps a sequence number may append at once. -/
def Ready (entries : List (Record F × Text)) (file : File) (writer : Option Writer) : Prop :=
  ∀ w n, writer = some w → w.nextSeq = some n → Whole entries file ∧ n = entries.length + 1

/-- What holds of a log between two appends. -/
structure Kept (rt : JsonRuntime F) (entries : List (Record F × Text)) (s : State F) : Prop where
  written : AllWritten rt entries
  records : entries.map Prod.fst = landed s.history
  numbered : Numbered (landed s.history)
  holds : Holds entries s.file
  ready : Ready entries s.file s.writer
  returned : ∀ a ∈ s.history, ∀ e, a.returned = some e → e = a.record.envelope ∧ a.reached = true

variable {s : State F} {writer : Option Writer}

theorem landed_append (history more : List (Attempt F)) :
    landed (history ++ more) = landed history ++ landed more := by
  simp [landed]

theorem Kept.length_eq (h : Kept rt entries s) : (landed s.history).length = entries.length := by
  rw [← h.records, length_map]

/-- A line that reached the file whole is one more record. -/
theorem Kept.extend (h : Kept rt entries s) (hw : Written rt record text)
    (hseq : record.seq = entries.length + 1) (hfile : Whole entries file)
    {returned : Option (Envelope F)} (hreturned : ∀ e, returned = some e → e = record.envelope)
    (hwriter : ∀ w n, writer = some w → w.nextSeq = some n → n = record.seq + 1) :
    Kept rt (entries ++ [(record, text)])
      { file := some (file.getD [] ++ lineBytes text)
        writer := writer
        history := s.history ++ [{ record := record, reached := true, returned := returned }] } := by
  have hwhole : Whole (entries ++ [(record, text)]) (some (file.getD [] ++ lineBytes text)) := by
    rw [Whole, bytesOf_concat, getD_some, hfile]
  have hlanded : landed (s.history ++ [{ record := record, reached := true, returned := returned }]) =
      landed s.history ++ [record] := landed_append _ _
  constructor
  · exact forall_mem_append.mpr ⟨h.written, by simpa using hw⟩
  · rw [hlanded, map_append, h.records]
    rfl
  · rw [hlanded]
    exact h.numbered.concat (by rw [hseq, h.length_eq])
  · exact hwhole.holds
  · intro w n hw' hn
    refine ⟨hwhole, ?_⟩
    rw [hwriter w n hw' hn, hseq, length_append]
    rfl
  · intro a ha e he
    rcases mem_append.mp ha with ha | ha
    · exact h.returned a ha e he
    · obtain rfl := mem_singleton.mp ha
      exact ⟨hreturned e he, rfl⟩

/-- An append that put no whole line into the file leaves the records as they were. -/
theorem Kept.drop (h : Kept rt entries s) (hfile : Holds entries file')
    (hready : Ready entries file' writer) {attempts : List (Attempt F)}
    (hattempts : ∀ a ∈ attempts, a.reached = false ∧ a.returned = none) :
    Kept rt entries { file := file', writer := writer, history := s.history ++ attempts } := by
  have hlanded : landed (s.history ++ attempts) = landed s.history := by
    have hnone : attempts.filter (·.reached) = [] :=
      filter_eq_nil_iff.mpr fun a ha => by simp [(hattempts a ha).1]
    rw [landed_append, landed, landed, hnone, map_nil, append_nil]
  constructor
  · exact h.written
  · rw [hlanded, h.records]
  · rw [hlanded]
    exact h.numbered
  · exact hfile
  · exact hready
  · intro a ha e he
    rcases mem_append.mp ha with ha | ha
    · exact h.returned a ha e he
    · rw [(hattempts a ha).2] at he
      cases he

/-! ## One append -/

/-- A writer after an append is ready for the next. -/
theorem ready_writer {fate : Fate} {nextSeq : Option Int}
    (h : ∀ n, nextSeq = some n → Whole entries file ∧ n = entries.length + 1) :
    Ready entries file (fate.writer nextSeq) := by
  intro w n hw hn
  cases fate with
  | dies stop => cases hw
  | returns =>
    obtain rfl := some.inj hw
    exact h n hn
  | raises stop =>
    obtain rfl := some.inj hw
    exact h n hn

variable {w : Writer}

theorem Fate.of_writer {fate : Fate} {nextSeq : Option Int} {n : Int}
    (hw : fate.writer nextSeq = some w) (hn : w.nextSeq = some n) : nextSeq = some n := by
  cases fate with
  | dies stop => cases hw
  | returns =>
    obtain rfl := some.inj hw
    exact hn
  | raises stop =>
    obtain rfl := some.inj hw
    exact hn

/-- The writer continues behind the last complete line. -/
theorem prepare_eq (hj : LawfulJson rt) (hw : AllWritten rt entries)
    (hnum : Numbered (entries.map Prod.fst)) (hfile : Holds entries file)
    (hready : Ready entries file (some w)) :
    ∃ file', prepare rt w file = .ok ((entries.length : Int) + 1, file') ∧ Whole entries file' := by
  cases hn : w.nextSeq with
  | some n =>
    obtain ⟨hwhole, rfl⟩ := hready w n rfl hn
    exact ⟨file, by rw [prepare, hn], hwhole⟩
  | none =>
    refine ⟨truncateTornTail file, ?_, hfile.truncate⟩
    have hseq : seqAfter (entries.map (·.1.reread rt)).getLast? = (entries.length : Int) + 1 := by
      rcases eq_nil_or_concat entries with rfl | ⟨init, e, rfl⟩
      · rfl
      · have hlast := congrArg getLast? hnum
        simp only [concat_eq_append, map_append, map_singleton, getLast?_concat,
          length_append, length_singleton, length_map, range_succ,
          some.injEq] at hlast ⊢
        change e.1.seq + 1 = _
        rw [hlast]
        push_cast
        rfl
    simp only [prepare, hn, tail, hfile.read hj hw, Except.map, ok_bind, hseq]

/-- A committed record is kept. -/
theorem Kept.commit (hj : LawfulJson rt) (h : Kept rt entries s) (hfile : Whole entries file)
    (hseq : record.seq = entries.length + 1) (fate : Fate) :
    ∃ entries', Kept rt entries'
      { file := (RoundLog.commit rt record file fate).file
        writer := (RoundLog.commit rt record file fate).writer
        history := s.history ++ (RoundLog.commit rt record file fate).attempt.toList } := by
  have hforget : Ready entries file (fate.writer none) := ready_writer fun n hn => nomatch hn
  rw [RoundLog.commit]
  split
  · exact ⟨entries, h.drop hfile.holds hforget (by simp)⟩
  rename_i text htext
  have hw : Written rt record text := htext
  rw [hfile.unterminated, if_neg (by decide)]
  split
  · refine ⟨_, h.extend hw hseq hfile (fun e he => (some.inj he).symm) ?_⟩
    intro w n hw' hn
    exact (some.inj (Fate.of_writer hw' hn)).symm
  · rename_i reached hstop
    have hwriter : ∀ w n, fate.writer none = some w → w.nextSeq = some n → n = record.seq + 1 :=
      fun w n hw' hn => nomatch Fate.of_writer hw' hn
    by_cases hall : (lineBytes text).length ≤ reached
    · rw [take_of_length_le hall, decide_eq_true hall]
      exact ⟨_, h.extend hw hseq hfile (fun e he => nomatch he) hwriter⟩
    · rw [decide_eq_false hall]
      refine ⟨entries, h.drop ?_ ?_ ?_⟩
      · refine ⟨(lineBytes text).take reached, newline_notMem_take hj hw (by omega), ?_⟩
        rw [getD_some, hfile]
      · exact ready_writer fun n hn => nomatch hn
      · simp
  · refine ⟨_, h.extend hw hseq hfile (fun e he => nomatch he) ?_⟩
    intro w n hw' hn
    exact (some.inj (Fate.of_writer hw' hn)).symm

/-- **An append keeps the log**, wherever it stops. -/
theorem Kept.append (hj : LawfulJson rt) (h : Kept rt entries s) (hwriter : s.writer = some w)
    (event : RoundEvent F) (scope : ScopeArg F) (ts : String) (fate : Fate) :
    ∃ entries', Kept rt entries'
      { file := (RoundLog.append rt w s.file event scope ts fate).file
        writer := (RoundLog.append rt w s.file event scope ts fate).writer
        history := s.history ++
          (RoundLog.append rt w s.file event scope ts fate).attempt.toList } := by
  have hready : Ready entries s.file (some w) := hwriter ▸ h.ready
  have hnum : Numbered (entries.map Prod.fst) := h.records ▸ h.numbered
  obtain ⟨file', hprepare, hwhole⟩ := prepare_eq hj h.written hnum h.holds hready
  rw [RoundLog.append]
  split
  · exact ⟨entries, h.drop h.holds (ready_writer fun n hn => hready w n rfl hn) (by simp)⟩
  rw [hprepare]
  dsimp only
  split
  · refine ⟨entries, h.drop hwhole.holds (ready_writer fun n hn => ?_) (by simp)⟩
    exact ⟨hwhole, (hready w n rfl hn).2⟩
  · refine ⟨entries, h.drop hwhole.holds (ready_writer fun n hn => ?_) (by simp)⟩
    exact ⟨hwhole, (some.inj hn).symm⟩
  · have hforget : Ready entries file' (fate.writer none) := ready_writer fun n hn => nomatch hn
    exact ⟨entries, h.drop hwhole.holds hforget (by simp)⟩
  · exact h.commit hj hwhole rfl fate

/-! ## Runs -/

/-- Every event keeps the records. -/
theorem Kept.step (hj : LawfulJson rt) (h : Kept rt entries s) (event : Event F) :
    ∃ entries', Kept rt entries' (RoundLog.step rt s event) := by
  cases event with
  | opens =>
    refine ⟨entries, h.written, h.records, h.numbered, h.holds, ?_, h.returned⟩
    intro w n hw hn
    obtain rfl := some.inj hw
    cases hn
  | appends event scope ts fate =>
    cases hwriter : s.writer with
    | none => exact ⟨entries, by simpa [RoundLog.step, hwriter] using h⟩
    | some w =>
      obtain ⟨entries', hkept⟩ := h.append hj hwriter event scope ts fate
      exact ⟨entries', by simpa [RoundLog.step, hwriter] using hkept⟩

theorem kept_run (hj : LawfulJson rt) (events : List (Event F)) :
    ∃ entries, Kept rt entries (run rt events) := by
  induction events using reverseRecOn with
  | nil =>
    refine ⟨[], by simp [AllWritten], rfl, rfl, ⟨[], by simp, rfl⟩, ?_, by simp [run]⟩
    intro w n hw
    cases hw
  | append_singleton events event ih =>
    obtain ⟨entries, h⟩ := ih
    rw [run, foldl_append]
    exact h.step hj event

/-- The append that follows puts the next record behind the others. -/
theorem Kept.append_returns (hj : LawfulJson rt) (h : Kept rt entries s)
    (hready : Ready entries s.file (some w)) (event : RoundEvent F) (scope : ScopeArg F)
    (ts : String) (hrecord : record =
      { seq := entries.length + 1, ts := ts, event := event, scope := scope.resolve rt })
    (hw : Written rt record text) :
    (RoundLog.append rt w s.file event scope ts .returns).attempt =
        some { record := record, reached := true, returned := some record.envelope } ∧
      Whole (entries ++ [(record, text)])
        (RoundLog.append rt w s.file event scope ts .returns).file := by
  have hnum : Numbered (entries.map Prod.fst) := h.records ▸ h.numbered
  obtain ⟨file', hprepare, hwhole⟩ := prepare_eq hj h.written hnum h.holds hready
  have happend : RoundLog.append rt w s.file event scope ts .returns =
      { file := some (file'.getD [] ++ lineBytes text)
        writer := some { nextSeq := some (record.seq + 1) }
        attempt := some
          { record := record, reached := true, returned := some record.envelope } } := by
    have hdumps : rt.dumps record.value = some text := hw
    rw [RoundLog.append, if_neg (by decide), hprepare]
    simp only [Fate.stop, ← hrecord, RoundLog.commit, hdumps, hwhole.unterminated]
    rw [if_neg (by decide)]
    subst hrecord
    rfl
  rw [happend]
  refine ⟨rfl, ?_⟩
  rw [Whole, bytesOf_concat, getD_some, hwhole]

/-- **The round log is durable.**  In every run of appends that return, raise or are
cut anywhere, and of new writers, from an absent file: the log can be read, and has
the records whose line reached the file whole, in the order of their appends and
numbered 1, 2, …; among them is every record whose append returned.  The next
append that JSON can serialise returns the next number and its record is read back
behind the others.  What a reader sees in the middle of an append is what it sees
after a crash there. -/
theorem round_log_durable (hj : LawfulJson rt) (events : List (Event F)) :
    read rt (run rt events).file =
        .ok ((landed (run rt events).history).map (·.reread rt)) ∧
      (landed (run rt events).history).map (·.seq) =
        (List.range (landed (run rt events).history).length).map (fun i : Nat => (i : Int) + 1) ∧
      (∀ a ∈ (run rt events).history, ∀ e, a.returned = some e →
        e = a.record.envelope ∧ a.reached = true) ∧
      ∀ w, (run rt events).writer = some w ∨ w = {} → ∀ event scope ts record,
        record =
          { seq := (landed (run rt events).history).length + 1, ts := ts, event := event,
            scope := ScopeArg.resolve rt scope } →
        (rt.dumps record.value).isSome = true →
        (append rt w (run rt events).file event scope ts .returns).attempt =
            some { record := record, reached := true, returned := some record.envelope } ∧
          read rt (append rt w (run rt events).file event scope ts .returns).file =
            .ok ((landed (run rt events).history ++ [record]).map (·.reread rt)) := by
  obtain ⟨entries, h⟩ := kept_run hj events
  refine ⟨?_, h.numbered, h.returned, ?_⟩
  · rw [h.holds.read hj h.written, ← h.records, List.map_map]
    rfl
  intro w hwriter event scope ts record hrecord hsome
  obtain ⟨text, htext⟩ := Option.isSome_iff_exists.mp hsome
  have hw : Written rt record text := htext
  have hready : Ready entries (run rt events).file (some w) := by
    rcases hwriter with hlive | rfl
    · exact hlive ▸ h.ready
    · intro w' n hw' hn
      obtain rfl := Option.some.inj hw'
      cases hn
  rw [h.length_eq] at hrecord
  obtain ⟨hattempt, hwhole⟩ := h.append_returns hj hready event scope ts hrecord hw
  refine ⟨hattempt, ?_⟩
  have hall : AllWritten rt (entries ++ [(record, text)]) :=
    List.forall_mem_append.mpr ⟨h.written, by simpa using hw⟩
  rw [hwhole.holds.read hj hall, List.map_append, List.map_append, ← h.records, List.map_map]
  rfl

/-! ### One real record -/

/-- The event that opens a round. -/
def openedEvent : RoundEvent Empty where
  type := .roundOpened
  values := [("contract_hash", .str "c0ffee")]
  names := rfl

/-- Its time. -/
def openedTs : String := "2026-01-01T00:00:00+00:00"

/-- Its line. -/
def openedText : Text :=
  ("\x7b\"seq\":1,\"ts\":\"2026-01-01T00:00:00+00:00\",\"type\":\"round_opened\"," ++
    "\"scope\":\x7b\x7d,\"payload\":\x7b\"contract_hash\":\"c0ffee\"\x7d\x7d").toList

/-- The record of the line. -/
def openedRecord : Record Empty where
  seq := 1
  ts := openedTs
  event := openedEvent
  scope := {}

/-- `json` on the one record. -/
def openedJson : JsonRuntime Empty where
  dumps
    | .dict [("seq", .int 1), ("ts", .str "2026-01-01T00:00:00+00:00"),
        ("type", .str "round_opened"), ("scope", .dict []),
        ("payload", .dict [("contract_hash", .str "c0ffee")])] => some openedText
    | _ => none
  loads text := if text = openedText then some openedRecord.value else none
  str _ := ""
  int _ := none
  truthy x := nomatch x

theorem dumps_openedJson {value : PyValue Empty} {text : Text}
    (h : openedJson.dumps value = some text) : value = openedRecord.value ∧ text = openedText := by
  simp only [openedJson] at h
  split at h
  · exact ⟨rfl, (some.inj h).symm⟩
  · cases h

/-- The demonstrated encoder is lawful. -/
theorem lawful_openedJson : LawfulJson openedJson where
  roundTrip h := by
    obtain ⟨hvalue, rfl⟩ := dumps_openedJson h
    rw [hvalue]
    show (if openedText = openedText then some openedRecord.value else none) = _
    exact if_pos rfl
  printable h := by
    obtain ⟨-, rfl⟩ := dumps_openedJson h
    decide +kernel
  braces h := by
    obtain ⟨-, rfl⟩ := dumps_openedJson h
    decide +kernel

/-- An append cut after seven bytes, and the next one by a new writer. -/
def openedEvents : List (Event Empty) :=
  [.opens, .appends openedEvent (.wire .none) openedTs (.dies (.wrote 7)),
    .opens, .appends openedEvent (.wire .none) openedTs .returns]

theorem round_log_durable_opened :
    (landed (run openedJson openedEvents).history).length = 1 ∧
      read openedJson (run openedJson openedEvents).file =
        .ok ((landed (run openedJson openedEvents).history).map (·.reread openedJson)) :=
  ⟨by decide +kernel, (round_log_durable lawful_openedJson openedEvents).1⟩

end Zicato.RoundLog
