import Mathlib.Data.Rat.Encodable
import Mathlib.Logic.Encodable.Pi
import Zicato.GenScore
import Zicato.TextLines

/-! # The history of a generation survives crashes

Whatever calls are cut and wherever, the history is the lines of the measurements
that reached it whole, then at most the beginning of one more; the flat aggregate
is that of one of them. -/
open List Option Zicato.Lines
namespace Zicato

namespace GenScore
set_option linter.unusedSectionVars false
open PyValue (sortKeys sorted_dict get?_sortKeys mem_sortKeys)
variable {F : Type} [PyFloat F] {rt : ScoreJson F}

/-- What the scores rely on of `json`: ASCII output without control characters, an object
between braces that no proper beginning closes, an object that serialises if its values
do, and that reading back gives the same object. -/
structure LawfulScoreJson (rt : ScoreJson F) : Prop where
  roundTrip : ∀ {fields text}, rt.dumps (.dict fields) = some text →
    rt.loads text = some (.dict (sortKeys fields)) ∧
      rt.loads (text ++ ['\n']) = some (.dict (sortKeys fields))
  roundTripIndent : ∀ {fields text}, rt.dumpsIndent (.dict fields) = some text →
    rt.loads (text ++ ['\n']) = some (.dict (sortKeys fields))
  unfinished : ∀ {fields text beginning}, rt.dumps (.dict fields) = some text →
    beginning <+: text → beginning ≠ text → rt.loads beginning = none
  printable : ∀ {fields text}, rt.dumps (.dict fields) = some text →
    ∀ c ∈ text, 32 ≤ c.toNat ∧ c.toNat ≤ 126
  braces : ∀ {fields text}, rt.dumps (.dict fields) = some text →
    text.head? = some '\x7b' ∧ text.getLast? = some '\x7d'
  items : ∀ fields, (rt.dumps (.dict fields)).isSome = true ↔
    ∀ field ∈ fields, (rt.dumps field.2).isSome = true
  sorted : ∀ value, (rt.dumps value.sorted).isSome = (rt.dumps value).isSome
  indent : ∀ value, (rt.dumpsIndent value).isSome = (rt.dumps value).isSome
  count : ∀ n : Nat, (rt.dumps (.int n)).isSome = true
  null : (rt.dumps .none).isSome = true

/-! ## What is read back is accepted -/

theorem forM_ok_iff {α ε : Type} {f : α → Except ε Unit} {xs : List α} :
    xs.forM f = .ok () ↔ ∀ x ∈ xs, f x = .ok () := by
  induction xs with
  | nil => simp [pure, Except.pure]
  | cons x xs ih =>
    change (f x >>= fun _ => xs.forM f) = .ok () ↔ _
    rw [bind_eq_ok_iff, forall_mem_cons, ← ih]
    constructor
    · rintro ⟨u, hx, hxs⟩
      exact ⟨hx, hxs⟩
    · exact fun h => ⟨(), h⟩

theorem unit_bind_ok_iff {ε β : Type} {x : Except ε Unit} {f : Unit → Except ε β} {b : β} :
    (x >>= f) = .ok b ↔ x = .ok () ∧ f () = .ok b := by
  rw [bind_eq_ok_iff]
  exact ⟨fun ⟨_, hx, hf⟩ => ⟨hx, hf⟩, fun ⟨hx, hf⟩ => ⟨(), hx, hf⟩⟩

/-- A check that sorted keys make no difference to. -/
def Stable (check : Option (PyValue F) → Except String Unit) : Prop :=
  ∀ value, check (value.map PyValue.sorted) = .ok () ↔ check value = .ok ()

theorem stable_ifPresent {check : PyValue F → Except String Unit}
    (h : ∀ v, check v.sorted = .ok () ↔ check v = .ok ()) : Stable (ifPresent check) := by
  intro value
  cases value with
  | none => exact Iff.rfl
  | some v => exact h v

theorem scoreNumber_sorted (name : String) (nullable : Bool) (v : PyValue F) :
    scoreNumber name nullable v.sorted = .ok () ↔ scoreNumber name nullable v = .ok () := by
  cases v <;> simp [PyValue.sorted, scoreNumber]

theorem scoreCount_sorted (name : String) (v : PyValue F) :
    scoreCount name v.sorted = .ok () ↔ scoreCount name v = .ok () := by
  cases v <;> simp [PyValue.sorted, scoreCount]

theorem checkMapping_sorted {key : String} {check : String → PyValue F → Except String Unit}
    (h : ∀ name v, check name v.sorted = .ok () ↔ check name v = .ok ()) (v : PyValue F) :
    checkMapping key check v.sorted = .ok () ↔ checkMapping key check v = .ok () := by
  cases v with
  | dict items =>
    rw [sorted_dict, checkMapping, checkMapping, forM_ok_iff, forM_ok_iff]
    constructor
    · intro hsorted item hitem
      exact (h _ _).mp (hsorted _ (mem_sortKeys.mpr ⟨item, hitem, rfl⟩))
    · intro hitems item hitem
      obtain ⟨f, hf, rfl⟩ := mem_sortKeys.mp hitem
      exact (h _ _).mpr (hitems f hf)
  | _ => simp [PyValue.sorted, checkMapping]

/-- A check does not look at the order of keys. -/
theorem checkEntry_sorted (name : String) (v : PyValue F) :
    checkEntry name v.sorted = .ok () ↔ checkEntry name v = .ok () := by
  cases v with
  | dict fields =>
    rw [sorted_dict, checkEntry, checkEntry]
    have hnumber : ∀ nullable key, Stable (ifPresent (scoreNumber (F := F) key nullable)) :=
      fun nullable key => stable_ifPresent (scoreNumber_sorted key nullable)
    simp only [get?_sortKeys, unit_bind_ok_iff, hnumber _ _ _]
    refine and_congr_right fun _ => and_congr_right fun _ => and_congr_right fun _ => ?_
    cases Dict.get? fields "pass_fail" with
    | none => exact Iff.rfl
    | some v => cases v <;> simp [PyValue.sorted]
  | _ => simp [PyValue.sorted, checkEntry]

/-- Nor does any check of a row. -/
theorem checks_stable (id : String) : ∀ entry ∈ checks rt id, Stable entry.2 := by
  have hcount : ∀ key, Stable (ifPresent (scoreCount (F := F) key)) :=
    fun key => stable_ifPresent (scoreCount_sorted key)
  have hnumber : ∀ key, Stable (ifPresent (scoreNumber (F := F) key true)) :=
    fun key => stable_ifPresent (scoreNumber_sorted key true)
  have hstring : ∀ key, Stable (ifPresent (checkString (F := F) key)) :=
    fun key => stable_ifPresent fun v => by cases v <;> simp [PyValue.sorted, checkString]
  intro entry hentry
  simp only [checks, mem_cons, not_mem_nil, or_false] at hentry
  rcases hentry with rfl | rfl | rfl | rfl | rfl | rfl | rfl | rfl | rfl | rfl | rfl | rfl | rfl |
    rfl | rfl | rfl
  · intro value
    cases value with
    | none => exact Iff.rfl
    | some v => cases v <;> simp [PyValue.sorted, checkRecordFormat]
  · intro value
    cases value with
    | none => exact Iff.rfl
    | some v => cases v <;> simp [PyValue.sorted, checkGenerationId]
  · intro value
    cases value with
    | none => exact Iff.rfl
    | some v => exact scoreNumber_sorted "scalar" false v
  · exact hnumber _
  · exact hnumber _
  · exact hnumber _
  · exact hcount _
  · exact hcount _
  · exact stable_ifPresent (checkMapping_sorted fun _ => scoreNumber_sorted _ false)
  · exact stable_ifPresent (checkMapping_sorted fun _ => scoreNumber_sorted _ false)
  · exact stable_ifPresent (checkMapping_sorted fun _ => scoreCount_sorted _)
  · exact stable_ifPresent (checkMapping_sorted checkEntry_sorted)
  · exact hstring _
  · exact hstring _
  · exact hstring _
  · exact stable_ifPresent fun v => by cases v <;> simp [PyValue.sorted, checkBool]

/-- The keys that `decode_gen_score` reads are not those of the history. -/
theorem checks_keys (id : String) :
    ∀ entry ∈ checks rt id, entry.1 ≠ "seq" ∧ entry.1 ≠ "round_index" := by
  simp [checks]

theorem decode_ok_iff {id : String} {fields : Dict String (PyValue F)} {score : Score F} :
    decodeGenScore rt id (.dict fields) = .ok score ↔
      (∀ entry ∈ checks rt id, entry.2 (Dict.get? fields entry.1) = .ok ()) ∧
      (rt.dumps (.dict fields)).isSome = true ∧ fields = score := by
  rw [decodeGenScore, unit_bind_ok_iff, unit_bind_ok_iff, forM_ok_iff, require_eq_ok_iff]
  refine and_congr_right fun _ => and_congr_right fun _ => ?_
  exact ⟨Except.ok.inj, congrArg _⟩

/-- An object that differs from an accepted one in the order of keys and in the keys of the
history is accepted if it serialises. -/
theorem decode_reread {id : String} {fields fields' : Dict String (PyValue F)} {score : Score F}
    (h : decodeGenScore rt id (.dict fields) = .ok score)
    (hget : ∀ key, key ≠ "seq" → key ≠ "round_index" →
      Dict.get? fields' key = (Dict.get? fields key).map PyValue.sorted)
    (hdumps : (rt.dumps (.dict fields')).isSome = true) :
    decodeGenScore rt id (.dict fields') = .ok fields' := by
  obtain ⟨hchecks, -, -⟩ := decode_ok_iff.mp h
  refine decode_ok_iff.mpr ⟨fun entry hentry => ?_, hdumps, rfl⟩
  obtain ⟨hseq, hround⟩ := checks_keys id entry hentry
  rw [hget _ hseq hround]
  exact (checks_stable id entry hentry _).mpr (hchecks entry hentry)

/-! ## What the files hold -/

/-- The call passes the checks on its own arguments. -/
def Acceptable (rt : ScoreJson F) (id : String) (call : Call F) : Prop :=
  decodeGenScore rt id (.dict (call.payload id)) = .ok (call.payload id) ∧
    ∀ n, call.roundIndex = some n → 0 ≤ n

/-- The record of the call as the `seq`-th measurement. -/
def Call.record (id : String) (call : Call F) (seq : Nat) : Dict String (PyValue F) :=
  GenScore.record (call.payload id) seq call.roundIndex

/-- The texts of the measurements, each with its place. -/
inductive Texts (rt : ScoreJson F) (id : String) : List (Call F) → List Text → Prop
  | nil : Texts rt id [] []
  | snoc {calls texts call text} : Texts rt id calls texts → Acceptable rt id call →
      rt.dumps (.dict (call.record id calls.length)) = some text →
      Texts rt id (calls ++ [call]) (texts ++ [text])

/-- The measurement is that of the call: its place, its round, and its aggregate but for the
keys that the history keeps for itself. -/
structure Records (id : String) (seq : Nat) (call : Call F) (row : Measurement F) : Prop where
  seq : row.seq = seq
  roundIndex : row.roundIndex = call.roundIndex.map Int.toNat
  score : ∀ key, key ≠ "seq" → key ≠ "round_index" →
    Dict.get? row.score key = (Dict.get? (call.payload id) key).map PyValue.sorted
  seq_free : Dict.get? row.score "seq" = none
  round_free : Dict.get? row.score "round_index" = none

/-- The measurements of the calls, in order. -/
def Retains (id : String) (calls : List (Call F)) (rows : List (Measurement F)) : Prop :=
  rows.length = calls.length ∧
    ∀ i call row, calls[i]? = some call → rows[i]? = some row → Records id i call row

/-- The aggregate without its coordinates. -/
theorem get?_withoutCoordinates (fields : Dict String (PyValue F)) (key : String) :
    Dict.get? (withoutCoordinates fields) key =
      if key = "seq" ∨ key = "round_index" then none else Dict.get? fields key := by
  induction fields with
  | nil => simp [withoutCoordinates, Dict.get?]
  | cons e rest ih =>
    change Dict.get? (filter _ (e :: rest)) key = _
    rw [filter_cons]
    by_cases hkeep : e.1 = "seq" ∨ e.1 = "round_index"
    · have hdrop : (! ["seq", "round_index"].contains e.1) = false := by
        rcases hkeep with hkeep | hkeep <;> simp [hkeep]
      rw [hdrop, if_neg Bool.false_ne_true]
      change Dict.get? (withoutCoordinates rest) key = _
      rw [ih]
      by_cases hkey : key = "seq" ∨ key = "round_index"
      · rw [if_pos hkey, if_pos hkey]
      · have hne : e.1 ≠ key := by
          rintro rfl
          exact hkey hkeep
        rw [if_neg hkey, if_neg hkey, Dict.get?, if_neg hne]
    · have hstay : (! ["seq", "round_index"].contains e.1) = true := by simpa using hkeep
      rw [hstay, if_pos rfl, Dict.get?, Dict.get?]
      change (if e.1 = key then some e.2 else Dict.get? (withoutCoordinates rest) key) = _
      rw [ih]
      by_cases hkey : e.1 = key
      · rw [if_pos hkey, if_pos hkey, if_neg (hkey ▸ hkeep)]
      · rw [if_neg hkey, if_neg hkey]

theorem get?_record (score : Score F) (seq : Nat) (roundIndex : Option Int) (key : String) :
    Dict.get? (record score seq roundIndex) key =
      if "round_index" = key then some (roundValue roundIndex)
      else if "seq" = key then some (.int seq) else Dict.get? score key := by
  rw [record, Dict.get?_set, Dict.get?_set]

section Reading
variable {id : String} {call : Call F} {text : Text} {seq : Nat}

/-- A line of the history decodes to its measurement. -/
theorem decodeRow_record (hj : LawfulScoreJson rt) (haccept : Acceptable rt id call)
    (htext : rt.dumps (.dict (call.record id seq)) = some text) (index : Nat) :
    ∃ row, decodeRow rt id index seq (.dict (sortKeys (call.record id seq))) = .ok row ∧
      Records id seq call row := by
  have hget : ∀ key, Dict.get? (sortKeys (call.record id seq)) key =
      (Dict.get? (call.record id seq) key).map PyValue.sorted := get?_sortKeys _
  have hbody : ∀ key, key ≠ "seq" → key ≠ "round_index" →
      Dict.get? (withoutCoordinates (sortKeys (call.record id seq))) key =
        (Dict.get? (call.payload id) key).map PyValue.sorted := by
    intro key hseq hround
    rw [get?_withoutCoordinates, if_neg (not_or.mpr ⟨hseq, hround⟩), hget, Call.record, get?_record,
      if_neg (Ne.symm hround), if_neg (Ne.symm hseq)]
  have hdumps : (rt.dumps (.dict (withoutCoordinates (sortKeys (call.record id seq))))).isSome =
      true := by
    rw [hj.items]
    intro field hfield
    have hsome : (rt.dumps (PyValue.dict (call.record id seq)).sorted).isSome = true := by
      rw [hj.sorted, htext]
      rfl
    rw [sorted_dict, hj.items] at hsome
    exact hsome field (mem_filter.mp hfield).1
  have hdecode := decode_reread haccept.1 hbody hdumps
  have hseq : Dict.get? (sortKeys (call.record id seq)) "seq" = some (.int seq) := by
    rw [hget, Call.record, get?_record]
    rfl
  have hround : Dict.get? (sortKeys (call.record id seq)) "round_index" =
      some (roundValue call.roundIndex) := by
    rw [hget, Call.record, get?_record]
    cases call.roundIndex <;> rfl
  refine ⟨⟨withoutCoordinates (sortKeys (call.record id seq)), seq,
    call.roundIndex.map Int.toNat⟩, ?_, rfl, rfl, hbody, ?_, ?_⟩
  · rw [decodeRow, hdecode, ok_bind, Dict.getD, hseq, hround]
    have hcount : ∀ n : Nat, scoreCount "seq" (.int n : PyValue F) = .ok () := by
      intro n
      simp [scoreCount, require]
    simp only [getD_some, hcount, ok_bind, require, beq_self_eq_true, if_true]
    cases hindex : call.roundIndex with
    | none => rfl
    | some n =>
      have hn := haccept.2 n hindex
      simp [roundValue, scoreCount, require, hn]
  · rw [get?_withoutCoordinates, if_pos (.inl rfl)]
  · rw [get?_withoutCoordinates, if_pos (.inr rfl)]

/-- A text of `json.dumps` has no line break. -/
theorem notBreak_of_dumps (hj : LawfulScoreJson rt) {fields : Dict String (PyValue F)}
    (htext : rt.dumps (.dict fields) = some text) :
    ∀ c ∈ text, Text.isLineBreak c = false ∧ c ≠ '\r' := by
  intro c hc
  obtain ⟨hlow, hhigh⟩ := hj.printable htext c hc
  refine ⟨?_, ?_⟩
  · simp only [Text.isLineBreak, Bool.or_eq_false_iff, Bool.and_eq_false_iff, decide_eq_false_iff_not,
      beq_eq_false_iff_ne]
    omega
  · rintro rfl
    exact absurd hlow (by decide)

/-- The lines of whole texts with a tail behind them. -/
theorem splitLinesKeep_texts {texts : List Text} {tail : Text}
    (htexts : ∀ t ∈ texts, ∀ c ∈ t, Text.isLineBreak c = false ∧ c ≠ '\r')
    (htail : ∀ c ∈ tail, Text.isLineBreak c = false ∧ c ≠ '\r') :
    Text.splitLinesKeep (Lines.text '\n' texts ++ tail) =
      texts.map (· ++ ['\n']) ++ (if tail = [] then [] else [tail]) := by
  induction texts with
  | nil =>
    have hlines : Text.splitLinesKeep (tail ++ []) = Lines.prepend tail [] :=
      splitEnds_append htail
    rw [append_nil] at hlines
    exact hlines
  | cons t texts ih =>
    obtain ⟨ht, hrest⟩ := forall_mem_cons.mp htexts
    have hcons : Lines.text '\n' (t :: texts) ++ tail =
        t ++ '\n' :: (Lines.text '\n' texts ++ tail) := by
      simp [Lines.text]
    rw [hcons, Text.splitLinesKeep, splitEnds_append ht]
    change Lines.prepend t (Text.splitLinesKeep _) = _
    rw [Text.splitLinesKeep_end (fun hpair => absurd hpair.1 (by decide)) (by decide), ih hrest]
    rfl

/-- A line that holds something is not blank. -/
theorem strip_ne_nil {line : Text} (h : line.head? = some '\x7b') : line.strip ≠ [] := by
  cases line with
  | nil => cases h
  | cons c rest =>
    obtain rfl : c = '\x7b' := by simpa using h
    have hskip : Text.skipSpace ('\x7b' :: rest) = '\x7b' :: rest := rfl
    rw [Text.strip, hskip]
    intro hnil
    have hall := rdropWhile_eq_nil_iff.mp hnil '\x7b' mem_cons_self
    exact absurd hall (by decide)

theorem head?_line (hj : LawfulScoreJson rt) {fields : Dict String (PyValue F)}
    (htext : rt.dumps (.dict fields) = some text) (more : Text) :
    (text ++ more).head? = some '\x7b' := by
  have hhead := (hj.braces htext).1
  cases text with
  | nil => cases hhead
  | cons c rest => exact hhead

theorem Texts.notBreak (hj : LawfulScoreJson rt) {calls : List (Call F)} {texts : List Text}
    (h : Texts rt id calls texts) : ∀ t ∈ texts, ∀ c ∈ t, Text.isLineBreak c = false ∧ c ≠ '\r' := by
  induction h with
  | nil => exact fun t ht => by cases ht
  | snoc _ _ htext ih =>
    intro t ht
    rcases mem_append.mp ht with ht | ht
    · exact ih t ht
    · obtain rfl := mem_singleton.mp ht
      exact notBreak_of_dumps hj htext

variable {rows : List (Measurement F)}

/-- One call more is one row more. -/
theorem Retains.snoc {calls : List (Call F)} {row : Measurement F} (h : Retains id calls rows)
    (hrow : Records id calls.length call row) : Retains id (calls ++ [call]) (rows ++ [row]) := by
  obtain ⟨hlength, hrecords⟩ := h
  refine ⟨by rw [length_append, length_append, hlength]; rfl, ?_⟩
  intro i call' row' hcall' hrow'
  by_cases hi : i < calls.length
  · rw [getElem?_append_left hi] at hcall'
    rw [getElem?_append_left (hlength ▸ hi)] at hrow'
    exact hrecords i call' row' hcall' hrow'
  · rw [getElem?_append_right (by omega)] at hcall'
    rw [getElem?_append_right (by omega)] at hrow'
    have hzero : i = calls.length := by
      have := (List.getElem?_eq_some_iff.mp hcall').1
      simp at this
      omega
    subst hzero
    rw [Nat.sub_self] at hcall'
    rw [hlength, Nat.sub_self] at hrow'
    obtain rfl : call = call' := by simpa using hcall'
    obtain rfl : row = row' := by simpa using hrow'
    exact hrow

/-- The complete lines are read one after the other. -/
theorem historyLines_texts (hj : LawfulScoreJson rt) {calls : List (Call F)} {texts : List Text}
    (h : Texts rt id calls texts) (rest : List Text) :
    ∃ rows, Retains id calls rows ∧
      historyLines rt id (texts.map (· ++ ['\n']) ++ rest) 0 [] [] =
        historyLines rt id rest calls.length rows (Lines.text '\n' texts) := by
  induction h generalizing rest with
  | nil =>
    refine ⟨[], ⟨rfl, fun i call row hcall => ?_⟩, rfl⟩
    simp at hcall
  | snoc htexts haccept htext ih =>
    rename_i calls texts call text
    obtain ⟨rows, hrows, hread⟩ := ih ((text ++ ['\n']) :: rest)
    obtain ⟨row, hrow, hrecords⟩ := decodeRow_record hj haccept htext calls.length
    refine ⟨rows ++ [row], hrows.snoc hrecords, ?_⟩
    rw [map_append, List.append_assoc]
    refine hread.trans ?_
    rw [historyLines, if_neg (strip_ne_nil (head?_line hj htext ['\n'])), (hj.roundTrip htext).2]
    dsimp only
    rw [hrows.1, hrow, ok_bind, length_append, text_concat]
    rfl

/-- What the history file holds of the calls. -/
inductive History (rt : ScoreJson F) (id : String) : List (Call F) → Option Text → Prop
  | absent : History rt id [] none
  | whole {calls texts} : Texts rt id calls texts →
      History rt id calls (some (Lines.text '\n' texts))
  /-- The last line has lost its newline only. -/
  | unended {calls texts call text} : Texts rt id calls texts → Acceptable rt id call →
      rt.dumps (.dict (call.record id calls.length)) = some text →
      History rt id (calls ++ [call]) (some (Lines.text '\n' texts ++ text))
  | torn {calls texts fields text beginning} : Texts rt id calls texts →
      rt.dumps (.dict fields) = some text → beginning <+: text → beginning ≠ [] →
      beginning ≠ text → History rt id calls (some (Lines.text '\n' texts ++ beginning))

/-- An appended line, cut after `k` bytes. -/
theorem History.appended {calls : List (Call F)} {texts : List Text}
    (h : Texts rt id calls texts) (haccept : Acceptable rt id call)
    (htext : rt.dumps (.dict (call.record id calls.length)) = some text) (k : Nat) :
    History rt id (if text.length ≤ k then calls ++ [call] else calls)
      (some (Lines.text '\n' texts ++ (text ++ ['\n']).take k)) := by
  rcases Nat.lt_trichotomy k text.length with hlt | heq | hgt
  · rw [if_neg (by omega), take_append_of_le_length hlt.le]
    cases k with
    | zero =>
      rw [take_zero, append_nil]
      exact .whole h
    | succ k =>
      refine .torn h htext ?_ ?_ ?_
      · exact take_prefix _ _
      · rw [Ne, take_eq_nil_iff]
        rintro (hzero | hnil)
        · cases hzero
        · rw [hnil] at hlt
          cases hlt
      · intro hwhole
        have := congrArg length hwhole
        rw [length_take] at this
        omega
  · rw [if_pos heq.ge, heq, take_left]
    exact .unended h haccept htext
  · rw [if_pos hgt.le, take_of_length_le (by simp; omega), ← text_concat]
    exact .whole (h.snoc haccept htext)

/-- What a reader makes of the history. -/
structure Reads (rt : ScoreJson F) (id : String) (calls : List (Call F)) (files : Files)
    (rows : List (Measurement F)) (kept : Text) (torn : Bool) : Prop where
  read : readHistory rt id files = .ok (rows, kept, torn)
  retains : Retains id calls rows

/-- Whole lines are read as the rows they record. -/
theorem readHistory_texts (hj : LawfulScoreJson rt) {calls : List (Call F)} {texts : List Text}
    (h : Texts rt id calls texts) (flat : Option Text) :
    ∃ rows, Reads rt id calls ⟨flat, some (Lines.text '\n' texts)⟩ rows (Lines.text '\n' texts)
      false := by
  obtain ⟨rows, hrows, hread⟩ := historyLines_texts hj h []
  have hempty : ∀ c ∈ ([] : Text), Text.isLineBreak c = false ∧ c ≠ '\r' := fun c hc => by cases hc
  have hsplit := splitLinesKeep_texts (h.notBreak hj) hempty
  rw [if_pos rfl, append_nil, append_nil] at hsplit
  rw [append_nil] at hread
  refine ⟨rows, ?_, hrows⟩
  dsimp only [readHistory]
  rw [hsplit, hread]
  simp [historyLines]

/-- A last line without its newline is read too. -/
theorem readHistory_unended (hj : LawfulScoreJson rt) {calls : List (Call F)} {texts : List Text}
    (h : Texts rt id calls texts) (haccept : Acceptable rt id call)
    (htext : rt.dumps (.dict (call.record id calls.length)) = some text) (flat : Option Text) :
    ∃ rows, Reads rt id (calls ++ [call]) ⟨flat, some (Lines.text '\n' texts ++ text)⟩ rows
      (Lines.text '\n' texts ++ text) false := by
  obtain ⟨rows, hrows, hread⟩ := historyLines_texts hj h [text]
  have hhead := head?_line hj htext []
  rw [append_nil] at hhead
  have hne : text ≠ [] := by
    rintro rfl
    cases hhead
  have hsplit := splitLinesKeep_texts (h.notBreak hj) (notBreak_of_dumps hj htext)
  rw [if_neg hne] at hsplit
  obtain ⟨row, hrow, hrecords⟩ := decodeRow_record hj haccept htext calls.length
  refine ⟨rows ++ [row], ?_, hrows.snoc hrecords⟩
  dsimp only [readHistory]
  rw [hsplit, hread, historyLines, if_neg (strip_ne_nil hhead), (hj.roundTrip htext).1]
  dsimp only
  rw [hrows.1, hrow]
  simp [historyLines]

/-- A torn last line is left out and reported. -/
theorem readHistory_torn (hj : LawfulScoreJson rt) {calls : List (Call F)} {texts : List Text}
    {fields : Dict String (PyValue F)} {beginning : Text} (h : Texts rt id calls texts)
    (htext : rt.dumps (.dict fields) = some text) (hpref : beginning <+: text)
    (hne : beginning ≠ []) (hproper : beginning ≠ text) (flat : Option Text) :
    ∃ rows, Reads rt id calls ⟨flat, some (Lines.text '\n' texts ++ beginning)⟩ rows
      (Lines.text '\n' texts) true := by
  obtain ⟨rows, hrows, hread⟩ := historyLines_texts hj h [beginning]
  have hbreak : ∀ c ∈ beginning, Text.isLineBreak c = false ∧ c ≠ '\r' := fun c hc =>
    notBreak_of_dumps hj htext c (hpref.subset hc)
  have hsplit := splitLinesKeep_texts (h.notBreak hj) hbreak
  rw [if_neg hne] at hsplit
  have hhead : beginning.head? = some '\x7b' := by
    obtain ⟨more, hmore⟩ := hpref
    have := (hj.braces htext).1
    rw [← hmore] at this
    cases beginning with
    | nil => exact absurd rfl hne
    | cons c rest => exact this
  have hends : beginning.endsWith "\n" = false := by
    rw [Text.endsWith, Bool.eq_false_iff]
    intro hsuffix
    have hmem := (isSuffixOf_iff_suffix.mp hsuffix).subset (mem_singleton.mpr rfl)
    exact absurd (hbreak '\n' hmem).1 (by decide)
  refine ⟨rows, ?_, hrows⟩
  dsimp only [readHistory]
  rw [hsplit, hread, historyLines, if_neg (strip_ne_nil hhead),
    hj.unfinished htext hpref hproper]
  simp [hends, hne]

/-! ## Calls -/

/-- What the flat file holds: the aggregate of one of the calls. -/
def FlatOf (rt : ScoreJson F) (id : String) (call : Call F) (flat : Option Text) : Prop :=
  Acceptable rt id call ∧ ∃ page, rt.dumpsIndent (.dict (call.payload id)) = some page ∧
    flat = some (page ++ ['\n'])

variable {files : Files}

/-- The snapshot reads back as its aggregate. -/
theorem FlatOf.read (hj : LawfulScoreJson rt) (h : FlatOf rt id call files.flat) :
    readGenScore rt id files = .ok (some (sortKeys (call.payload id))) := by
  obtain ⟨haccept, page, hpage, hflat⟩ := h
  have hdumps : (rt.dumps (.dict (sortKeys (call.payload id)))).isSome = true := by
    rw [← sorted_dict, hj.sorted, ← hj.indent, hpage]
    rfl
  rw [readGenScore, hflat]
  dsimp only
  rw [hj.roundTripIndent hpage]
  dsimp only
  rw [decode_reread haccept.1 (fun key _ _ => get?_sortKeys _ key) hdumps]
  rfl

/-- The files hold the calls. -/
structure Holds (rt : ScoreJson F) (id : String) (calls : List (Call F)) (files : Files) : Prop where
  history : History rt id calls files.history
  flat : files.flat = none ∨ ∃ call ∈ calls, FlatOf rt id call files.flat

/-- The record of an accepted call serialises. -/
theorem dumps_record (hj : LawfulScoreJson rt) (h : Acceptable rt id call) (seq : Nat) :
    ∃ text, rt.dumps (.dict (call.record id seq)) = some text := by
  refine isSome_iff_exists.mp ((hj.items _).mpr fun field hfield => ?_)
  obtain ⟨-, hdumps, -⟩ := decode_ok_iff.mp h.1
  have hitems := (hj.items _).mp hdumps
  have hround : (rt.dumps (roundValue call.roundIndex)).isSome = true := by
    cases hindex : call.roundIndex with
    | none => exact hj.null
    | some n =>
      have hn := h.2 n hindex
      have := hj.count n.toNat
      rwa [Int.toNat_of_nonneg hn] at this
  rcases Dict.mem_set hfield with rfl | hfield
  · exact hround
  · rcases Dict.mem_set hfield with rfl | hfield
    · exact hj.count seq
    · exact hitems field hfield

/-- A plan and what it leaves, wherever it is cut. -/
structure Continues (rt : ScoreJson F) (id : String) (calls : List (Call F)) (call : Call F)
    (files : Files) (plan : Plan) : Prop where
  history : ∀ stop, History rt id (if plan.reaches stop then calls ++ [call] else calls)
    (plan.leaves files stop).history
  flat : FlatOf rt id call (some plan.flat)

/-- The newline a text still lacks. -/
def lacking (kept : Text) : Text :=
  if kept ≠ [] ∧ kept.endsWith "\n" = false then ['\n'] else []

theorem endsWith_text {texts : List Text} (h : texts ≠ []) :
    Text.endsWith (Lines.text '\n' texts) "\n" = true := by
  obtain ⟨front, last, rfl⟩ := (eq_nil_or_concat texts).resolve_left h
  rw [Text.endsWith, isSuffixOf_iff_suffix, concat_eq_append, text_concat]
  exact ⟨_, List.append_assoc _ _ _⟩

theorem lacking_text (texts : List Text) : lacking (Lines.text '\n' texts) = [] := by
  rw [lacking, if_neg]
  rintro ⟨hne, hends⟩
  rw [endsWith_text] at hends
  · cases hends
  · rintro rfl
    exact hne rfl

/-- A call that passes its own checks goes through those on the files. -/
theorem prepare_eq (hj : LawfulScoreJson rt) {calls : List (Call F)} {kept : Text} {torn : Bool}
    (haccept : Acceptable rt id call)
    (hflat : files.flat = none ∨ ∃ call ∈ calls, FlatOf rt id call files.flat)
    (hread : Reads rt id calls files rows kept torn)
    (htext : rt.dumps (.dict (call.record id calls.length)) = some text) :
    ∃ page, rt.dumpsIndent (.dict (call.payload id)) = some page ∧
      prepare rt id files call = .ok
        { line := lacking kept ++ text ++ ['\n'], kept := kept
          replaces := torn || files.history.isNone, flat := page ++ ['\n'] } := by
  obtain ⟨page, hpage⟩ := isSome_iff_exists.mp
    ((hj.indent _).trans (decode_ok_iff.mp haccept.1).2.1)
  refine ⟨page, hpage, ?_⟩
  obtain ⟨score, hscore⟩ : ∃ score, readGenScore rt id files = .ok score := by
    rcases hflat with hnone | ⟨call', -, hcall'⟩
    · exact ⟨none, by rw [readGenScore, hnone]⟩
    · exact ⟨_, hcall'.read hj⟩
  have hrecord : rt.dumps (.dict (record (call.payload id) rows.length call.roundIndex)) =
      some text := by
    rw [hread.retains.1]
    exact htext
  unfold prepare
  cases hindex : call.roundIndex with
  | none =>
    rw [hindex] at hrecord
    dsimp only
    rw [haccept.1, ok_bind, hscore, ok_bind, hread.read, ok_bind]
    dsimp only
    rw [hrecord, hpage]
    rfl
  | some n =>
    have hcount : scoreCount "round_index" (.int n : PyValue F) = .ok () := by
      simp [scoreCount, require, haccept.2 n hindex]
    rw [hindex] at hrecord
    dsimp only
    rw [hcount, ok_bind, haccept.1, ok_bind, hscore, ok_bind, hread.read, ok_bind]
    dsimp only
    rw [hrecord, hpage]
    rfl

variable {plan : Plan}

theorem reaches_append (hreplaces : plan.replaces = false) (k : Nat) :
    plan.reaches (.inLine k) = decide (plan.line.length ≤ k + 1) := by
  rw [Plan.reaches, hreplaces, Bool.not_false, Bool.true_and]

/-- The next measurement, appended behind whole lines. -/
theorem continues_whole {calls : List (Call F)} {texts : List Text} {flat : Option Text}
    (h : Texts rt id calls texts) (haccept : Acceptable rt id call)
    (htext : rt.dumps (.dict (call.record id calls.length)) = some text)
    (hline : plan.line = text ++ ['\n']) (hreplaces : plan.replaces = false) (stop : Stop) :
    History rt id (if plan.reaches stop then calls ++ [call] else calls)
      (plan.leaves ⟨flat, some (Lines.text '\n' texts)⟩ stop).history := by
  have hwhole : plan.history ⟨flat, some (Lines.text '\n' texts)⟩ =
      Lines.text '\n' (texts ++ [text]) := by
    rw [Plan.history, hreplaces, hline, text_concat]
    rfl
  cases stop with
  | inLine k =>
    have hreach : plan.reaches (.inLine k) = decide (text.length ≤ k) := by
      rw [reaches_append hreplaces, hline, length_append]
      simp
    have happended := History.appended h haccept htext k
    simp only [Plan.leaves, hreplaces, Bool.false_eq_true, if_false, hreach, decide_eq_true_eq,
      hline]
    exact happended
  | between | never =>
    simp only [Plan.leaves, Plan.reaches, if_true, hwhole]
    exact .whole (h.snoc haccept htext)

/-- The next measurement, written with the whole history. -/
theorem continues_replaced {calls : List (Call F)} {texts : List Text} (h : Texts rt id calls texts)
    (hfiles : History rt id calls files.history) (haccept : Acceptable rt id call)
    (htext : rt.dumps (.dict (call.record id calls.length)) = some text)
    (hline : plan.line = text ++ ['\n']) (hkept : plan.kept = Lines.text '\n' texts)
    (hreplaces : plan.replaces = true) (stop : Stop) :
    History rt id (if plan.reaches stop then calls ++ [call] else calls)
      (plan.leaves files stop).history := by
  have hwhole : plan.history files = Lines.text '\n' (texts ++ [text]) := by
    rw [Plan.history, hreplaces, hline, hkept, text_concat]
    rfl
  cases stop with
  | inLine k =>
    simp only [Plan.leaves, Plan.reaches, hreplaces, Bool.not_true, Bool.false_and,
      Bool.false_eq_true, if_false, if_true]
    exact hfiles
  | between | never =>
    simp only [Plan.leaves, Plan.reaches, if_true, hwhole]
    exact .whole (h.snoc haccept htext)

/-- The next measurement, appended behind a line that lacks its newline. -/
theorem continues_unended {calls : List (Call F)} {texts : List Text} {flat : Option Text}
    {last : Call F} {lastText : Text} (h : Texts rt id calls texts) (hlast : Acceptable rt id last)
    (hlastText : rt.dumps (.dict (last.record id calls.length)) = some lastText)
    (haccept : Acceptable rt id call)
    (htext : rt.dumps (.dict (call.record id (calls ++ [last]).length)) = some text)
    (hline : plan.line = '\n' :: (text ++ ['\n'])) (hreplaces : plan.replaces = false)
    (stop : Stop) :
    History rt id (if plan.reaches stop then calls ++ [last] ++ [call] else calls ++ [last])
      (plan.leaves ⟨flat, some (Lines.text '\n' texts ++ lastText)⟩ stop).history := by
  have hall := h.snoc hlast hlastText
  have hwhole : plan.history ⟨flat, some (Lines.text '\n' texts ++ lastText)⟩ =
      Lines.text '\n' (texts ++ [lastText] ++ [text]) := by
    rw [Plan.history, hreplaces, hline, text_concat, text_concat]
    simp
  cases stop with
  | inLine k =>
    have hreach : plan.reaches (.inLine k) = decide (text.length + 1 ≤ k) := by
      rw [reaches_append hreplaces, hline]
      simp
    simp only [Plan.leaves, hreplaces, Bool.false_eq_true, if_false, hreach, decide_eq_true_eq,
      hline, getD_some]
    cases k with
    | zero =>
      rw [if_neg (Nat.not_succ_le_zero _), take_zero, append_nil]
      exact .unended h hlast hlastText
    | succ k =>
      have happended := History.appended hall haccept htext k
      rw [text_concat] at happended
      simpa [take_succ_cons, Nat.succ_le_succ_iff] using happended
  | between | never =>
    simp only [Plan.leaves, Plan.reaches, if_true, hwhole]
    exact .whole (hall.snoc haccept htext)

/-- Every later call with an acceptable aggregate succeeds. -/
theorem Holds.prepare (hj : LawfulScoreJson rt) {calls : List (Call F)}
    (h : Holds rt id calls files) (haccept : Acceptable rt id call) :
    ∃ plan, GenScore.prepare rt id files call = .ok plan ∧ Continues rt id calls call files plan := by
  obtain ⟨text, htext⟩ := dumps_record hj haccept calls.length
  obtain ⟨history, hflat⟩ := h
  obtain ⟨flat, file⟩ := files
  cases history with
  | absent =>
    have hread : Reads rt id [] ⟨flat, none⟩ ([] : List (Measurement F)) [] false :=
      ⟨rfl, rfl, fun i call row hcall => by simp at hcall⟩
    obtain ⟨page, hpage, hprepare⟩ := prepare_eq hj haccept hflat hread htext
    exact ⟨_, hprepare, continues_replaced .nil .absent haccept htext rfl rfl rfl,
      haccept, page, hpage, rfl⟩
  | whole htexts =>
    obtain ⟨rows, hread⟩ := readHistory_texts hj htexts flat
    obtain ⟨page, hpage, hprepare⟩ := prepare_eq hj haccept hflat hread htext
    refine ⟨_, hprepare, continues_whole htexts haccept htext ?_ rfl, haccept, page, hpage, rfl⟩
    rw [lacking_text]
    rfl
  | unended htexts hlast hlastText =>
    rename_i calls texts last lastText
    obtain ⟨rows, hread⟩ := readHistory_unended hj htexts hlast hlastText flat
    obtain ⟨page, hpage, hprepare⟩ := prepare_eq hj haccept hflat hread htext
    refine ⟨_, hprepare, continues_unended htexts hlast hlastText haccept htext ?_ rfl, haccept,
      page, hpage, rfl⟩
    have hends : Text.endsWith (Lines.text '\n' texts ++ lastText) "\n" = false := by
      rw [Text.endsWith, Bool.eq_false_iff]
      intro hsuffix
      have hlastChar := (hj.braces hlastText).2
      obtain ⟨front, hfront⟩ := isSuffixOf_iff_suffix.mp hsuffix
      have := congrArg getLast? hfront
      rw [getLast?_append, getLast?_append, hlastChar] at this
      exact absurd (some.inj this) (by decide)
    have hne : Lines.text '\n' texts ++ lastText ≠ [] := by
      intro hnil
      have := (hj.braces hlastText).1
      rw [(append_eq_nil_iff.mp hnil).2] at this
      cases this
    rw [lacking, if_pos ⟨hne, hends⟩]
    rfl
  | torn htexts hfields hpref hne hproper =>
    obtain ⟨rows, hread⟩ := readHistory_torn hj htexts hfields hpref hne hproper flat
    obtain ⟨page, hpage, hprepare⟩ := prepare_eq hj haccept hflat hread htext
    refine ⟨_, hprepare, continues_replaced htexts (.torn htexts hfields hpref hne hproper)
      haccept htext ?_ rfl rfl, haccept, page, hpage, rfl⟩
    rw [lacking_text]
    rfl

/-- A call that gets past its checks passes those on its arguments. -/
theorem acceptable_of_prepare (h : prepare rt id files call = .ok plan) :
    Acceptable rt id call := by
  unfold prepare at h
  cases hindex : call.roundIndex with
  | none =>
    rw [hindex] at h
    obtain ⟨score, hscore, -⟩ := bind_eq_ok_iff.mp h
    obtain ⟨-, -, rfl⟩ := decode_ok_iff.mp hscore
    exact ⟨hscore, fun n hn => by rw [hindex] at hn; cases hn⟩
  | some m =>
    rw [hindex] at h
    obtain ⟨hcount, hrest⟩ := unit_bind_ok_iff.mp h
    obtain ⟨score, hscore, -⟩ := bind_eq_ok_iff.mp hrest
    obtain ⟨-, -, rfl⟩ := decode_ok_iff.mp hscore
    refine ⟨hscore, fun n hn => ?_⟩
    rw [hindex] at hn
    obtain rfl := some.inj hn
    exact of_decide_eq_true (require_eq_ok_iff.mp hcount)

/-- What a call does to the files and to the list of what is in them. -/
theorem turn_cases (call : Call F) (hj : LawfulScoreJson rt) {calls : List (Call F)}
    (h : Holds rt id calls files) (stop : Stop) :
    (¬ Acceptable rt id call ∧ turn rt id (files, calls) (call, stop) = (files, calls)) ∨
    (Acceptable rt id call ∧ ∃ plan, Continues rt id calls call files plan ∧
      turn rt id (files, calls) (call, stop) =
        (plan.leaves files stop, if plan.reaches stop then calls ++ [call] else calls)) := by
  by_cases haccept : Acceptable rt id call
  · obtain ⟨plan, hplan, hcontinues⟩ := h.prepare hj haccept
    refine .inr ⟨haccept, plan, hcontinues, ?_⟩
    rw [turn, hplan]
  · refine .inl ⟨haccept, ?_⟩
    cases hplan : prepare rt id files call with
    | error _ => rw [turn, hplan]
    | ok plan => exact absurd (acceptable_of_prepare hplan) haccept

/-- A call that stops anywhere leaves files of one of two kinds. -/
theorem Holds.continues {calls : List (Call F)} (h : Holds rt id calls files)
    (hplan : Continues rt id calls call files plan) (stop : Stop) :
    Holds rt id (if plan.reaches stop then calls ++ [call] else calls) (plan.leaves files stop) := by
  refine ⟨hplan.history stop, ?_⟩
  -- only a call that is not cut replaces the flat file
  have hold : (plan.leaves files stop).flat = files.flat →
      (plan.leaves files stop).flat = none ∨
        ∃ c ∈ if plan.reaches stop then calls ++ [call] else calls,
          FlatOf rt id c (plan.leaves files stop).flat := by
    intro hflat
    rw [hflat]
    refine h.flat.imp_right fun ⟨c, hc, hflatOf⟩ => ⟨c, ?_, hflatOf⟩
    split
    · exact mem_append_left _ hc
    · exact hc
  cases stop with
  | inLine k =>
    refine hold ?_
    rw [Plan.leaves]
    split <;> rfl
  | between => exact hold rfl
  | never =>
    exact .inr ⟨call, by simp [Plan.reaches], hplan.flat⟩

/-- The call passes the checks on its own arguments, decided. -/
def Call.accepted (rt : ScoreJson F) (id : String) (call : Call F) : Bool :=
  (decodeGenScore rt id (.dict (call.payload id))).toOption.isSome &&
    call.roundIndex.all fun n => decide (0 ≤ n)

theorem accepted_iff : call.accepted rt id = true ↔ Acceptable rt id call := by
  rw [Call.accepted, Bool.and_eq_true]
  refine and_congr ?_ ?_
  · constructor
    · intro hsome
      cases hscore : decodeGenScore rt id (.dict (call.payload id)) with
      | error _ => rw [hscore] at hsome; cases hsome
      | ok score =>
        obtain ⟨-, -, rfl⟩ := decode_ok_iff.mp hscore
        rfl
    · intro hscore
      rw [hscore]
      rfl
  · cases call.roundIndex <;> simp

/-- The calls that were accepted and ran to their end. -/
def completed (rt : ScoreJson F) (id : String) (steps : List (Call F × Stop)) : List (Call F) :=
  (steps.filter fun step => decide (step.2 = .never) && step.1.accepted rt id).map Prod.fst

/-- What a run has left: the files hold the calls that reached the history, among them all
that were completed. -/
structure Left (rt : ScoreJson F) (id : String) (steps : List (Call F × Stop))
    (state : Files × List (Call F)) : Prop where
  holds : Holds rt id state.2 state.1
  completed : (completed rt id steps).Sublist state.2
  made : state.2.Sublist (steps.map Prod.fst)

/-- One call more keeps the files in order. -/
theorem Left.turn (hj : LawfulScoreJson rt) {steps : List (Call F × Stop)}
    {state : Files × List (Call F)} (h : Left rt id steps state) (step : Call F × Stop) :
    Left rt id (steps ++ [step]) (turn rt id state step) := by
  obtain ⟨hholds, hcompleted, hmade⟩ := h
  obtain ⟨files, calls⟩ := state
  obtain ⟨call, stop⟩ := step
  rcases turn_cases call hj hholds stop with ⟨hrefused, hturn⟩ | ⟨haccept, plan, hplan, hturn⟩
  · rw [hturn]
    refine ⟨hholds, ?_, ?_⟩
    · have hnone : (call.accepted rt id) = false :=
        Bool.eq_false_iff.mpr fun h => hrefused (accepted_iff.mp h)
      simpa [GenScore.completed, filter_append, hnone] using hcompleted
    · rw [map_append]
      exact hmade.trans (sublist_append_left _ _)
  · rw [hturn]
    refine ⟨hholds.continues hplan stop, ?_, ?_⟩
    · rw [GenScore.completed, filter_append, map_append]
      by_cases hstop : stop = .never
      · subst hstop
        rw [if_pos (by rfl)]
        refine hcompleted.append ?_
        simp [accepted_iff.mpr haccept]
      · have hcut : filter (fun step : Call F × Stop =>
            decide (step.2 = .never) && step.1.accepted rt id) [(call, stop)] = [] := by
          simp [hstop]
        rw [hcut, map_nil, append_nil]
        refine hcompleted.trans ?_
        split
        · exact sublist_append_left _ _
        · exact .refl _
    · rw [map_append]
      dsimp only
      split
      · exact hmade.append (.refl _)
      · exact hmade.trans (sublist_append_left _ _)

theorem run_concat (steps : List (Call F × Stop)) (step : Call F × Stop) :
    run rt id (steps ++ [step]) = turn rt id (run rt id steps) step := by
  rw [run, foldl_append]
  rfl

theorem run_left (id : String) (hj : LawfulScoreJson rt) (steps : List (Call F × Stop)) :
    Left rt id steps (run rt id steps) := by
  induction steps using reverseRecOn with
  | nil => exact ⟨⟨.absent, .inl rfl⟩, .slnil, .slnil⟩
  | append_singleton steps step ih =>
    rw [run_concat]
    exact ih.turn hj step

/-- Any history can be read. -/
theorem History.reads (hj : LawfulScoreJson rt) {calls : List (Call F)}
    (h : History rt id calls files.history) :
    ∃ rows kept torn, Reads rt id calls files rows kept torn := by
  obtain ⟨flat, file⟩ := files
  cases h with
  | absent => exact ⟨[], [], false, rfl, rfl, fun i call row hcall => by simp at hcall⟩
  | whole htexts =>
    obtain ⟨rows, hread⟩ := readHistory_texts hj htexts flat
    exact ⟨_, _, _, hread⟩
  | unended htexts hlast hlastText =>
    obtain ⟨rows, hread⟩ := readHistory_unended hj htexts hlast hlastText flat
    exact ⟨_, _, _, hread⟩
  | torn htexts hfields hpref hne hproper =>
    obtain ⟨rows, hread⟩ := readHistory_torn hj htexts hfields hpref hne hproper flat
    exact ⟨_, _, _, hread⟩

/-- Two aggregates that differ at most in the keys the history keeps for itself. -/
def Agrees (score score' : Score F) : Prop :=
  ∀ key, key ≠ "seq" → key ≠ "round_index" → Dict.get? score key = Dict.get? score' key

theorem Records.agrees {row : Measurement F} (h : Records id seq call row) :
    Agrees (sortKeys (call.payload id)) row.score := by
  intro key hseq hround
  rw [get?_sortKeys, h.score key hseq hround]

theorem Retains.exists {calls : List (Call F)} (h : Retains id calls rows) {i : Nat}
    (hi : calls[i]? = some call) : ∃ row, rows[i]? = some row ∧ Records id i call row := by
  have hlt : i < rows.length := h.1 ▸ (List.getElem?_eq_some_iff.mp hi).1
  exact ⟨rows[i], getElem?_eq_getElem hlt, h.2 i call _ hi (getElem?_eq_getElem hlt)⟩

/-- After a call that ran to its end, its measurement is the last and its aggregate the flat
one. -/
theorem Holds.finished (hj : LawfulScoreJson rt) {calls : List (Call F)}
    (h : Holds rt id calls files) (haccept : Acceptable rt id call) :
    ∃ plan rows row kept torn, GenScore.prepare rt id files call = .ok plan ∧
      readGenScore rt id (plan.leaves files .never) = .ok (some (sortKeys (call.payload id))) ∧
      readHistory rt id (plan.leaves files .never) = .ok (rows ++ [row], kept, torn) ∧
      Retains id (calls ++ [call]) (rows ++ [row]) ∧ Records id calls.length call row := by
  obtain ⟨plan, hprepare, hcontinues⟩ := h.prepare hj haccept
  have hnext : History rt id (calls ++ [call]) (plan.leaves files .never).history :=
    hcontinues.history .never
  obtain ⟨rows, kept, torn, hread, hretains⟩ := hnext.reads hj
  have hlast : (calls ++ [call])[calls.length]? = some call := getElem?_concat_length
  obtain ⟨row, hrow, hrecords⟩ := hretains.exists hlast
  obtain ⟨front, last, rfl⟩ := (eq_nil_or_concat rows).resolve_left fun hnil => by
    rw [hnil] at hrow
    cases hrow
  rw [concat_eq_append] at hrow hread hretains
  have hlength : front.length = calls.length := by
    simpa using hretains.1
  rw [← hlength, getElem?_concat_length] at hrow
  obtain rfl := some.inj hrow
  exact ⟨plan, front, last, kept, torn, hprepare, FlatOf.read hj hcontinues.flat, hread, hretains,
    hrecords⟩

/-- Whatever calls were cut and wherever, the next acceptable call succeeds and is then the
last measurement and the flat aggregate; the history holds in order the measurements whose text
reached it, every completed call among them, and the flat aggregate is one of these. -/
theorem history_survives_cuts (hj : LawfulScoreJson rt) (id : String)
    (steps : List (Call F × Stop)) :
    (∃ rows kept torn, readHistory rt id (run rt id steps).1 = .ok (rows, kept, torn) ∧
      Retains id (run rt id steps).2 rows ∧
      (readGenScore rt id (run rt id steps).1 = .ok none ∨
        ∃ score row, readGenScore rt id (run rt id steps).1 = .ok (some score) ∧ row ∈ rows ∧
          Agrees score row.score)) ∧
    (completed rt id steps).Sublist (run rt id steps).2 ∧
    (run rt id steps).2.Sublist (steps.map Prod.fst) ∧
    ∀ call, Acceptable rt id call →
      (∃ plan, prepare rt id (run rt id steps).1 call = .ok plan) ∧
      (run rt id (steps ++ [(call, .never)])).2 = (run rt id steps).2 ++ [call] ∧
      ∃ score row rows kept torn,
        readGenScore rt id (run rt id (steps ++ [(call, .never)])).1 = .ok (some score) ∧
        readHistory rt id (run rt id (steps ++ [(call, .never)])).1 =
          .ok (rows ++ [row], kept, torn) ∧
        Retains id ((run rt id steps).2 ++ [call]) (rows ++ [row]) ∧ Agrees score row.score := by
  obtain ⟨⟨hhistory, hflat⟩, hcompleted, hmade⟩ := run_left id hj steps
  refine ⟨?_, hcompleted, hmade, fun call haccept => ?_⟩
  · obtain ⟨rows, kept, torn, hread, hretains⟩ := hhistory.reads hj
    refine ⟨rows, kept, torn, hread, hretains, ?_⟩
    rcases hflat with hnone | ⟨call, hcall, hflat⟩
    · exact .inl (by rw [readGenScore, hnone])
    · obtain ⟨i, hi⟩ := List.mem_iff_getElem?.mp hcall
      obtain ⟨row, hrow, hrecords⟩ := hretains.exists hi
      exact .inr ⟨_, row, hflat.read hj, List.mem_of_getElem? hrow, hrecords.agrees⟩
  · have hholds : Holds rt id (run rt id steps).2 (run rt id steps).1 := ⟨hhistory, hflat⟩
    obtain ⟨plan, rows, row, kept, torn, hprepare, hscore, hread, hretains, hrecords⟩ :=
      hholds.finished hj haccept
    have hafter : run rt id (steps ++ [(call, .never)]) =
        (plan.leaves (run rt id steps).1 .never, (run rt id steps).2 ++ [call]) := by
      rw [run_concat, turn, hprepare]
      rfl
    rw [hafter]
    exact ⟨⟨plan, hprepare⟩, rfl, _, row, rows, kept, torn, hscore, hread, hretains,
      hrecords.agrees⟩

end Reading

/-! ## One generation -/

/-- A code for an exact number. -/
def exactNumber : Exact → Nat
  | .pinf => 0
  | .ninf => 1
  | .nan => 2
  | .fin p => Encodable.encode p + 3

theorem exactNumber_inj {x y : Exact} (h : exactNumber x = exactNumber y) : x = y := by
  cases x <;> cases y <;> simp [exactNumber] at h ⊢
  exact h

mutual
/-- A number that tells the value. -/
def number : PyValue Exact → Nat
  | .none => Nat.pair 0 0
  | .bool b => Nat.pair 1 (Encodable.encode b)
  | .int n => Nat.pair 2 (Encodable.encode n)
  | .float x => Nat.pair 3 (exactNumber x)
  | .str s => Nat.pair 4 (Encodable.encode (s.toList.map Char.toNat))
  | .list items => Nat.pair 5 (numberItems items)
  | .dict fields => Nat.pair 6 (numberFields fields)

/-- A code for a list of values. -/
def numberItems : List (PyValue Exact) → Nat
  | [] => 0
  | v :: rest => Nat.pair (number v) (numberItems rest) + 1

/-- A code for a dict. -/
def numberFields : List (String × PyValue Exact) → Nat
  | [] => 0
  | (k, v) :: rest =>
      Nat.pair (Encodable.encode (k.toList.map Char.toNat)) (Nat.pair (number v) (numberFields rest)) + 1
end

theorem chars_inj {s s' : String} (h : s.toList.map Char.toNat = s'.toList.map Char.toNat) :
    s = s' :=
  String.toList_inj.mp (map_injective_iff.mpr (fun _ _ => Char.toNat_inj.mp) h)

mutual
/-- Different values have different codes. -/
theorem number_inj {v w : PyValue Exact} (h : number v = number w) : v = w := by
  have htags : ∀ {a b m n : Nat}, Nat.pair a m = Nat.pair b n → a = b ∧ m = n :=
    Nat.pair_eq_pair.mp
  cases v with
  | none => cases w <;> simp_all [number]
  | bool b => cases w <;> simp_all [number]
  | int n => cases w <;> simp_all [number]
  | float x =>
    cases w <;> simp only [number] at h
    all_goals first | exact absurd (htags h).1 (by decide) | skip
    rw [exactNumber_inj (htags h).2]
  | str s =>
    cases w <;> simp only [number] at h
    all_goals first | exact absurd (htags h).1 (by decide) | skip
    rw [chars_inj (Encodable.encode_injective (htags h).2)]
  | list items =>
    cases w <;> simp only [number] at h
    all_goals first | exact absurd (htags h).1 (by decide) | skip
    rw [numberItems_inj (htags h).2]
  | dict fields =>
    cases w <;> simp only [number] at h
    all_goals first | exact absurd (htags h).1 (by decide) | skip
    rw [numberFields_inj (htags h).2]

theorem numberItems_inj : ∀ {l m : List (PyValue Exact)}, numberItems l = numberItems m → l = m
  | [], [], _ => rfl
  | [], _ :: _, h => by simp [numberItems] at h
  | _ :: _, [], h => by simp [numberItems] at h
  | v :: l, w :: m, h => by
    rw [numberItems, numberItems, Nat.add_right_cancel_iff, Nat.pair_eq_pair] at h
    rw [number_inj h.1, numberItems_inj h.2]

theorem numberFields_inj :
    ∀ {l m : List (String × PyValue Exact)}, numberFields l = numberFields m → l = m
  | [], [], _ => rfl
  | [], _ :: _, h => by simp [numberFields] at h
  | _ :: _, [], h => by simp [numberFields] at h
  | (k, v) :: l, (k', w) :: m, h => by
    rw [numberFields, numberFields, Nat.add_right_cancel_iff, Nat.pair_eq_pair, Nat.pair_eq_pair] at h
    rw [chars_inj (Encodable.encode_injective h.1), number_inj h.2.1, numberFields_inj h.2.2]
end

/-- The text of a value that is none of those below. -/
def numeral (v : PyValue Exact) : Text :=
  '\x7b' :: (List.replicate (number v) '0' ++ ['\x7d'])

/-- The measurement of a scalar of 1, as it is read back. -/
def sampleRecord (seq : Int) : PyValue Exact :=
  .dict [("format_version", .int 1), ("generation_id", .str "v1"), ("round_index", .none),
    ("scalar", .int 1), ("seq", .int seq)]

/-- The line of the first call. -/
def firstText : Text :=
  ("\x7b\"format_version\": 1, \"generation_id\": \"v1\", \"round_index\": null, " ++
    "\"scalar\": 1, \"seq\": 0\x7d").toList

/-- The line of the same call once more. -/
def secondText : Text :=
  ("\x7b\"format_version\": 1, \"generation_id\": \"v1\", \"round_index\": null, " ++
    "\"scalar\": 1, \"seq\": 1\x7d").toList

/-- Its aggregate, and one that carries a key of the history. -/
def samplePlain : PyValue Exact :=
  .dict [("format_version", .int 1), ("generation_id", .str "v1"), ("scalar", .int 1)]

/-- A row whose aggregate has a key of its own called `seq`. -/
def sampleKeyed : PyValue Exact :=
  .dict [("format_version", .int 1), ("generation_id", .str "v1"), ("scalar", .int 1),
    ("seq", .int 7)]

/-- The snapshot of a plain aggregate. -/
def plainPage : Text :=
  ("\x7b\n  \"format_version\": 1,\n  \"generation_id\": \"v1\",\n  \"scalar\": 1\n" ++
    "\x7d").toList

/-- The snapshot of an aggregate with a `seq`. -/
def keyedPage : Text :=
  ("\x7b\n  \"format_version\": 1,\n  \"generation_id\": \"v1\",\n  \"scalar\": 1,\n" ++
    "  \"seq\": 7\n\x7d").toList

/-- The one-line text of a value with sorted keys. -/
def lineText : PyValue Exact → Text
  | .dict [("format_version", .int 1), ("generation_id", .str "v1"), ("round_index", .none),
      ("scalar", .int 1), ("seq", .int 0)] => firstText
  | .dict [("format_version", .int 1), ("generation_id", .str "v1"), ("round_index", .none),
      ("scalar", .int 1), ("seq", .int 1)] => secondText
  | v => numeral v

/-- The texts of these two snapshots. -/
def pageText : PyValue Exact → Text
  | .dict [("format_version", .int 1), ("generation_id", .str "v1"), ("scalar", .int 1)] =>
      plainPage
  | .dict [("format_version", .int 1), ("generation_id", .str "v1"), ("scalar", .int 1),
      ("seq", .int 7)] => keyedPage
  | v => numeral v

open Classical in
/-- The value of a text without its last newline. -/
noncomputable def sampleValue (text : Text) : Option (PyValue Exact) :=
  if text = firstText then some (sampleRecord 0)
  else if text = secondText then some (sampleRecord 1)
  else if text = plainPage then some samplePlain
  else if text = keyedPage then some sampleKeyed
  else if h : ∃ v, text = numeral v then some h.choose
  else none

/-- `json` on the measurements of the samples. -/
noncomputable def sampleJson : ScoreJson Exact where
  dumps v := some (lineText v.sorted)
  dumpsIndent v := some (pageText v.sorted)
  loads text := sampleValue (if text.getLast? = some '\n' then text.dropLast else text)
  repr _ := ""

/-- The four texts are told apart by their first characters, and each closes its object. -/
theorem sample_texts :
    (firstText ≠ secondText ∧ firstText ≠ plainPage ∧ firstText ≠ keyedPage ∧
      secondText ≠ plainPage ∧ secondText ≠ keyedPage ∧ plainPage ≠ keyedPage) ∧
    (∀ text ∈ [firstText, secondText, plainPage, keyedPage],
      text.getLast? = some '\x7d' ∧ text[1]? ≠ some '0' ∧ text[1]? ≠ some '\x7d') ∧
    ∀ text ∈ [firstText, secondText], (∀ c ∈ text, 32 ≤ c.toNat ∧ c.toNat ≤ 126) ∧
      text = text.dropLast ++ ['\x7d'] ∧ text.dropLast.head? = some '\x7b' ∧
      '\x7d' ∉ text.dropLast := by
  decide +kernel

variable (v : PyValue Exact)

/-- A coded value is read back. -/
theorem sampleValue_numeral : sampleValue (numeral v) = some v := by
  have hsecond : (numeral v)[1]? = some '0' ∨ (numeral v)[1]? = some '\x7d' := by
    rw [numeral, getElem?_cons_succ]
    cases number v with
    | zero => exact .inr rfl
    | succ n => exact .inl rfl
  have hne : ∀ text ∈ [firstText, secondText, plainPage, keyedPage], numeral v ≠ text := by
    rintro text htext rfl
    obtain ⟨-, hzero, hclose⟩ := sample_texts.2.1 _ htext
    exact hsecond.elim hzero hclose
  simp only [forall_mem_cons, not_mem_nil, false_implies, implies_true, and_true] at hne
  obtain ⟨hfirst, hnext, hplain, hkeyed⟩ := hne
  have hself : ∃ w, numeral v = numeral w := ⟨v, rfl⟩
  rw [sampleValue, if_neg hfirst, if_neg hnext, if_neg hplain, if_neg hkeyed, dif_pos hself]
  have hnumber : number v = number hself.choose := by
    have hlength := congrArg length hself.choose_spec
    simpa [numeral] using hlength
  rw [← number_inj hnumber]

theorem sampleValue_lineText : sampleValue (lineText v) = some v := by
  unfold lineText
  split
  · exact if_pos rfl
  · rw [sampleValue, if_neg sample_texts.1.1.symm]
    exact if_pos rfl
  · exact sampleValue_numeral v

theorem sampleValue_pageText : sampleValue (pageText v) = some v := by
  obtain ⟨-, hplain, hkeyed, hplain', hkeyed', hpages⟩ := sample_texts.1
  unfold pageText
  split
  · rw [sampleValue, if_neg hplain.symm, if_neg hplain'.symm]
    exact if_pos rfl
  · rw [sampleValue, if_neg hkeyed.symm, if_neg hkeyed'.symm, if_neg hpages.symm]
    exact if_pos rfl
  · exact sampleValue_numeral v

theorem numeral_chars : ∀ c ∈ numeral v, c = '\x7b' ∨ c = '0' ∨ c = '\x7d':= by
  intro c hc
  rw [numeral, mem_cons, mem_append, mem_replicate, mem_singleton] at hc
  rcases hc with rfl | ⟨-, rfl⟩ | rfl
  · exact .inl rfl
  · exact .inr (.inl rfl)
  · exact .inr (.inr rfl)

/-- A line is printable, and only its last character closes the object. -/
theorem lineText_closed : (∀ c ∈ lineText v, 32 ≤ c.toNat ∧ c.toNat ≤ 126) ∧
    ∃ front, lineText v = front ++ ['\x7d'] ∧ front.head? = some '\x7b' ∧ '\x7d' ∉ front := by
  unfold lineText
  split
  · obtain ⟨hprintable, hclosed⟩ := sample_texts.2.2 firstText mem_cons_self
    exact ⟨hprintable, _, hclosed⟩
  · obtain ⟨hprintable, hclosed⟩ :=
      sample_texts.2.2 secondText (mem_cons_of_mem _ mem_cons_self)
    exact ⟨hprintable, _, hclosed⟩
  · refine ⟨fun c hc => ?_, '\x7b' :: replicate (number v) '0', rfl, rfl, ?_⟩
    · rcases numeral_chars v c hc with rfl | rfl | rfl <;> decide
    · rw [mem_cons, mem_replicate]
      rintro (hopen | ⟨-, hzero⟩)
      · exact absurd hopen (by decide)
      · exact absurd hzero (by decide)

theorem getLast?_of_sampleValue {text : Text} (h : (sampleValue text).isSome = true) :
    text.getLast? = some '\x7d' := by
  by_cases hsample : text ∈ [firstText, secondText, plainPage, keyedPage]
  · exact (sample_texts.2.1 text hsample).1
  · simp only [mem_cons, not_mem_nil, or_false, not_or] at hsample
    obtain ⟨hfirst, hnext, hplain, hkeyed⟩ := hsample
    rw [sampleValue, if_neg hfirst, if_neg hnext, if_neg hplain, if_neg hkeyed] at h
    split at h
    · rename_i heq
      obtain ⟨v, rfl⟩ := heq
      rw [numeral, getLast?_cons, getLast?_concat]
      rfl
    · cases h

/-- The demonstrated encoder is lawful. -/
theorem lawful_sampleJson : LawfulScoreJson sampleJson := by
  have hdumps : ∀ {v text}, sampleJson.dumps v = some text → text = lineText v.sorted :=
    fun h => (some.inj h).symm
  -- the newline that ends a line or a page is cut off
  have hended : ∀ {text : Text}, sampleJson.loads (text ++ ['\n']) = sampleValue text := by
    intro text
    simp only [sampleJson, getLast?_concat, if_true, dropLast_concat]
  refine ⟨?_, ?_, ?_, ?_, ?_, fun _ => ?_, fun _ => rfl, fun _ => rfl, fun _ => rfl, rfl⟩
  · intro fields text h
    rw [hended, hdumps h, sampleValue_lineText, ← sorted_dict]
    refine ⟨?_, rfl⟩
    obtain ⟨-, front, hfront, -⟩ := lineText_closed (PyValue.dict fields).sorted
    have hlast : (lineText (PyValue.dict fields).sorted).getLast? ≠ some '\n' := by
      rw [hfront, getLast?_concat]
      decide
    simp only [sampleJson, if_neg hlast, sampleValue_lineText]
  · intro fields text h
    rw [hended, ← (some.inj h), sampleValue_pageText, sorted_dict]
  · intro fields text beginning h hpref hne
    obtain ⟨-, front, hfront, -, hopen⟩ := lineText_closed (PyValue.dict fields).sorted
    rw [hdumps h, hfront] at hpref hne
    have hmem : ∀ c ∈ beginning, c ≠ '\x7d' := by
      rcases prefix_concat_iff.mp hpref with hwhole | hinner
      · exact absurd hwhole hne
      · exact fun c hc heq => hopen (heq ▸ hinner.subset hc)
    rw [← not_isSome_iff_eq_none]
    intro hvalue
    have hlast := mem_of_getLast? (getLast?_of_sampleValue hvalue)
    split at hlast
    · exact hmem _ (dropLast_subset _ hlast) rfl
    · exact hmem _ hlast rfl
  · intro fields text h
    rw [hdumps h]
    exact (lineText_closed _).1
  · intro fields text h
    obtain ⟨-, front, hfront, hhead, -⟩ := lineText_closed (PyValue.dict fields).sorted
    rw [hdumps h, hfront, getLast?_concat, head?_append, hhead]
    exact ⟨rfl, rfl⟩
  · exact ⟨fun _ _ _ => rfl, fun _ => rfl⟩

/-- A call with a plain aggregate. -/
def plainCall : Call Exact where
  aggregate := [("scalar", .int 1)]

/-- A call whose aggregate has a `seq`. -/
def keyedCall : Call Exact where
  aggregate := [("scalar", .int 1), ("seq", .int 7)]

theorem acceptable_plainCall : Acceptable sampleJson "v1" plainCall := by
  refine ⟨decode_ok_iff.mpr ⟨?_, rfl, rfl⟩, fun n hn => by cases hn⟩
  decide

theorem acceptable_keyedCall : Acceptable sampleJson "v1" keyedCall := by
  refine ⟨decode_ok_iff.mpr ⟨?_, rfl, rfl⟩, fun n hn => by cases hn⟩
  decide

/-- The second of three calls is cut after seven bytes of its line. -/
def cutSteps : List (Call Exact × Stop) :=
  [(plainCall, .never), (plainCall, .inLine 7), (plainCall, .never)]

theorem completed_cutSteps : completed sampleJson "v1" cutSteps = [plainCall, plainCall] := by
  simp [completed, cutSteps, accepted_iff.mpr acceptable_plainCall]

theorem history_survives_cuts_cutSteps :
    (∃ rows kept torn, readHistory sampleJson "v1" (run sampleJson "v1" cutSteps).1 =
        .ok (rows, kept, torn) ∧ Retains "v1" (run sampleJson "v1" cutSteps).2 rows) ∧
      [plainCall, plainCall].Sublist (run sampleJson "v1" cutSteps).2 ∧
      ∃ plan, prepare sampleJson "v1" (run sampleJson "v1" cutSteps).1 plainCall = .ok plan := by
  obtain ⟨⟨rows, kept, torn, hread, hretains, -⟩, hcompleted, -, hnext⟩ :=
    history_survives_cuts lawful_sampleJson "v1" cutSteps
  rw [completed_cutSteps] at hcompleted
  exact ⟨⟨rows, kept, torn, hread, hretains⟩, hcompleted, (hnext plainCall acceptable_plainCall).1⟩

/-- An aggregate may carry the key under which the history keeps the place of a measurement;
the flat file then holds what no measurement does. -/
theorem flat_aggregate_not_recorded :
    LawfulScoreJson sampleJson ∧ Acceptable sampleJson "v1" keyedCall ∧
      ∃ score rows kept torn,
        readGenScore sampleJson "v1" (run sampleJson "v1" [(keyedCall, .never)]).1 =
          .ok (some score) ∧
        readHistory sampleJson "v1" (run sampleJson "v1" [(keyedCall, .never)]).1 =
          .ok (rows, kept, torn) ∧
        Dict.get? score "seq" = some (.int 7) ∧ rows.length = 1 ∧
        ∀ row ∈ rows, Dict.get? row.score "seq" = none := by
  refine ⟨lawful_sampleJson, acceptable_keyedCall, ?_⟩
  have hholds : Holds sampleJson "v1" [] {} := ⟨.absent, .inl rfl⟩
  obtain ⟨plan, rows, row, kept, torn, hprepare, hscore, hread, hretains, hrecords⟩ :=
    hholds.finished lawful_sampleJson acceptable_keyedCall
  have hrun : (run sampleJson "v1" [(keyedCall, .never)]).1 = plan.leaves {} .never := by
    rw [run, List.foldl_cons, turn, hprepare]
    rfl
  have hnil : rows = [] := List.eq_nil_of_length_eq_zero (by simpa using hretains.1)
  rw [hrun]
  refine ⟨_, _, kept, torn, hscore, hread, ?_, hretains.1, ?_⟩
  · rw [get?_sortKeys]
    rfl
  · rw [hnil, List.nil_append, List.forall_mem_singleton]
    exact hrecords.seq_free

end GenScore
end Zicato
