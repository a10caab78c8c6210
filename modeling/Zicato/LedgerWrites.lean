import Zicato.Ledger

/-! # What a write leaves of the ledger

One write adds a whole line to the lines of the file, or a part of one, or nothing
(`wrote`); a repair takes away the last line that is not blank, or nothing
(`repair_cases`).  Both hold of any file, so the records of a file are those it held
and the one that was written whole. -/
open List Option Zicato.Lines
namespace Zicato.Ledger

variable (codec : LedgerCodec)

/-- A line the ledger can write, with its text. -/
def Written (line : Line) (text : Bytes) : Prop :=
  (∃ payload, codec.toRawValue payload = .ok line.payload) ∧ codec.lineToString line = .ok text

/-- What the ledger relies on of `serde_json`: a compact JSON object on one line
reads back, no strict prefix of it reads as anything, white space after a value is
skipped, and `seq` is a `u64`. -/
structure LawfulCodec : Prop where
  blank : ∀ {raw}, (trimAscii raw).isEmpty = true → ∃ e, codec.lineFromSlice raw = .error e
  roundTrip : ∀ {line text}, Written codec line text → codec.lineFromSlice text = .ok line
  noNewline : ∀ {line text}, Written codec line text → newline ∉ text
  nonempty : ∀ {line text}, Written codec line text → text ≠ []
  first : ∀ {line text b}, Written codec line text → text.head? = some b →
    isAsciiWhitespace b = false
  last : ∀ {line text b}, Written codec line text → text.getLast? = some b →
    isAsciiWhitespace b = false
  cut : ∀ {line text k}, Written codec line text → k < text.length →
    ∃ e, codec.lineFromSlice (text.take k) = .error e
  trim : ∀ {raw line}, codec.lineFromSlice raw = .ok line →
    ∃ line', codec.lineFromSlice (trimAsciiEnd raw) = .ok line'
  seq : ∀ {raw line}, codec.lineFromSlice raw = .ok line → line.seq < 2 ^ 64

/-! ## Survivors -/

/-- The append returned `Some`, or every byte of the line had reached the file when a
crash cut it or a failure that could not be cut back; only the newline that ends it
may be missing. -/
def Attempt.survives (a : Attempt) : Bool :=
  match a.outcome with
  | .done => true
  | .left reached => decide ((pendingWrite a.before (a.text ++ [newline])).length ≤ reached + 1)
  | .died reached => decide ((pendingWrite a.before (a.text ++ [newline])).length ≤ reached + 1)
  | _ => false

/-- The records a run has to keep, in the order of their appends. -/
def survivors (history : List Attempt) : List Line :=
  (history.filter (·.survives)).map (·.line)

theorem survivors_append (history attempts : List Attempt) :
    survivors (history ++ attempts) = survivors history ++ survivors attempts := by
  rw [survivors, filter_append, map_append]
  rfl

theorem survivors_singleton (a : Attempt) :
    survivors [a] = if a.survives then [a.line] else [] := by
  unfold survivors
  cases h : a.survives <;> simp [h]

variable {codec} {line : Line} {text : Bytes}

/-! ## The lines of a file -/

/-- The lines of a file, without their newlines. -/
abbrev pieces (file : File) : List Bytes := Lines.split newline (file.getD [])

variable (codec) in
/-- The lines that parse. -/
def records (lines : List Bytes) : List Line :=
  lines.filterMap fun raw => (codec.lineFromSlice raw).toOption

theorem fileRecords_eq (file : File) : fileRecords codec file = records codec (pieces file) := rfl

@[simp] theorem records_append (lines others : List Bytes) :
    records codec (lines ++ others) = records codec lines ++ records codec others :=
  filterMap_append

theorem records_ok {raw : Bytes} (h : codec.lineFromSlice raw = .ok line) :
    records codec [raw] = [line] := by
  simp [records, h, Except.toOption]

theorem records_error {raw : Bytes} {e : String} (h : codec.lineFromSlice raw = .error e) :
    records codec [raw] = [] := by
  simp [records, h, Except.toOption]

theorem records_blank (hc : LawfulCodec codec) {lines : List Bytes}
    (h : ∀ p ∈ lines, (trimAscii p).isEmpty = true) : records codec lines = [] := by
  refine filterMap_eq_nil_iff.mpr fun p hp => ?_
  obtain ⟨e, he⟩ := hc.blank (h p hp)
  rw [he]
  rfl

/-- What a write puts down first ends the last line of the file. -/
theorem pendingWrite_lead (file : File) (bytes : Bytes) : ∃ lead lines,
    pendingWrite file bytes = lead ++ bytes ∧ lead.length ≤ 1 ∧
      (pieces file = lines ∨ pieces file = lines ++ [[]]) ∧
      ∀ rest, Lines.split newline (file.getD [] ++ (lead ++ rest)) =
        lines ++ Lines.split newline rest := by
  rw [pendingWrite]
  unfold pieces
  cases file.getD [] using reverseRecOn with
  | nil => exact ⟨[], [], rfl, by simp, .inr rfl, fun rest => rfl⟩
  | append_singleton bytes' last =>
    rw [getLast?_concat]
    dsimp only
    by_cases hlast : last = newline
    · subst hlast
      refine ⟨[], Lines.split newline bytes', by simp, by simp, .inr ?_, fun rest => ?_⟩
      · exact split_append bytes' []
      · rw [nil_append, List.append_assoc, singleton_append, split_append]
    · rw [if_pos hlast]
      exact ⟨[newline], _, rfl, by simp, .inl rfl, fun rest => split_append _ rest⟩

/-- What a write of one line leaves of the lines of the file; the last argument says
whether it left the line whole. -/
inductive Wrote (text : Bytes) (outcome : WriteOutcome) (before after : List Bytes) : Bool → Prop
  | nothing (h : after = before) : Wrote text outcome before after false
  | part (lines : List Bytes) (hlines : before = lines ∨ before = lines ++ [[]]) (j : Nat)
      (hj : j < text.length)
      (hout : (∃ k, outcome = .left (k + 1)) ∨ ∃ k, outcome = .died k)
      (h : after = lines ++ [text.take j]) : Wrote text outcome before after false
  | whole (lines : List Bytes) (hlines : before = lines ∨ before = lines ++ [[]])
      (h : after = lines ++ [text] ∨ after = lines ++ [text, []]) :
      Wrote text outcome before after true

/-- A write that stops after so many bytes has left a prefix of its text. -/
theorem wrote_take (htext : newline ∉ text) (file : File) (outcome : WriteOutcome) (k : Nat)
    (hout : outcome = .left k ∨ outcome = .died k ∨
      (pendingWrite file (text ++ [newline])).length ≤ k + 1) :
    Wrote text outcome (pieces file)
      (pieces (some (file.getD [] ++ (pendingWrite file (text ++ [newline])).take k)))
      (decide ((pendingWrite file (text ++ [newline])).length ≤ k + 1)) := by
  obtain ⟨lead, lines, hpend, hlead, hlines, hsplit⟩ := pendingWrite_lead file (text ++ [newline])
  rw [hpend, length_append, length_append, length_singleton] at hout ⊢
  have hpieces : ∀ rest, pieces (some (file.getD [] ++ (lead ++ rest))) =
      lines ++ Lines.split newline rest := hsplit
  -- the line is read whole with or without the newline that ends it
  by_cases hall : lead.length + (text.length + 1) ≤ k + 1
  · rw [decide_eq_true hall]
    refine .whole lines hlines ?_
    rw [take_append, take_of_length_le (by omega)]
    rcases Nat.lt_or_ge (k - lead.length) (text.length + 1) with hlt | hge
    · left
      have hk : k - lead.length = text.length := by omega
      rw [hk, take_left, hpieces, split_last htext]
    · right
      rw [take_of_length_le (by simpa using hge), hpieces, split_piece htext]
      rfl
  · rw [decide_eq_false hall]
    have hleft := (or_assoc.mpr hout).resolve_right hall
    cases k with
    | zero =>
      rw [take_zero, append_nil]
      exact .nothing rfl
    | succ k =>
      refine .part lines hlines (k + 1 - lead.length) (by omega) ?_ ?_
      · exact hleft.imp (fun h => ⟨k, h⟩) (fun h => ⟨k + 1, h⟩)
      · rw [take_append, take_of_length_le (by omega), take_append_of_le_length (by omega), hpieces,
          split_last fun hm => htext (mem_of_mem_take hm)]

/-- **What a write leaves**, whatever its outcome and whatever the file was. -/
theorem wrote (htext : newline ∉ text) (line : Line) (file : File) (outcome : WriteOutcome) :
    Wrote text outcome (pieces file) (pieces (writeLine file (text ++ [newline]) outcome))
      (Attempt.survives ⟨line, text, file, outcome⟩) := by
  cases outcome with
  | done =>
    have hdone := wrote_take htext file .done (pendingWrite file (text ++ [newline])).length
      (.inr (.inr (Nat.le_succ _)))
    rwa [take_length, decide_eq_true (Nat.le_succ _)] at hdone
  | refused | failed | diedBefore => exact .nothing rfl
  | left k => exact wrote_take htext file _ k (.inl rfl)
  | died k => exact wrote_take htext file _ k (.inr (.inl rfl))

/-- What is readable after a write. -/
theorem Wrote.records {outcome : WriteOutcome} {before after : List Bytes} {whole : Bool}
    (h : Wrote text outcome before after whole) (hc : LawfulCodec codec)
    (hw : Written codec line text) :
    Ledger.records codec after =
      Ledger.records codec before ++ if whole then [line] else [] := by
  have hblank : Ledger.records codec [[]] = [] := records_blank hc (by simp [trimAscii, trimAsciiEnd])
  have hlines : ∀ {lines}, before = lines ∨ before = lines ++ [[]] →
      Ledger.records codec lines = Ledger.records codec before := by
    rintro lines (rfl | rfl)
    · rfl
    · rw [records_append, hblank, append_nil]
  cases h with
  | nothing h => simp [h]
  | part lines hbefore j hj hout h =>
    obtain ⟨e, he⟩ := hc.cut hw hj
    rw [h, records_append, records_error he, hlines hbefore]
    simp
  | whole lines hbefore h =>
    have htext : Ledger.records codec [text] = [line] := records_ok (hc.roundTrip hw)
    rcases h with rfl | rfl
    · rw [records_append, htext, hlines hbefore]
      rfl
    · rw [append_cons, records_append, records_append, htext, hblank, hlines hbefore]
      simp

/-! ## Repairing the tail -/


/-- Nothing but white space. -/
def Blank (p : Bytes) : Prop := ∀ b ∈ p, isAsciiWhitespace b = true

theorem any_nonblank {p : Bytes} : p.any (!isAsciiWhitespace ·) = true ↔ ¬ Blank p := by
  simp [Blank]

theorem Blank.trimAscii_isEmpty {p : Bytes} (h : Blank p) : (trimAscii p).isEmpty = true := by
  have hend : trimAsciiEnd p = [] := rdropWhile_eq_nil_iff.mpr h
  rw [trimAscii, hend]
  rfl

theorem trimAsciiEnd_append {p q : Bytes} (hq : Blank q) : trimAsciiEnd (p ++ q) = trimAsciiEnd p := by
  unfold trimAsciiEnd rdropWhile
  rw [reverse_append, dropWhile_append_of_pos]
  exact fun b hb => hq b (mem_reverse.mp hb)

/-- Bytes are whole lines and a last one without its newline. -/
theorem exists_text (bytes : Bytes) : ∃ lines last, bytes = Lines.text newline lines ++ last ∧
    (∀ p ∈ lines, newline ∉ p) ∧ newline ∉ last := by
  induction bytes with
  | nil => exact ⟨[], [], rfl, by simp, by simp⟩
  | cons b bytes ih =>
    obtain ⟨lines, last, rfl, hlines, hlast⟩ := ih
    by_cases hb : newline = b
    · subst hb
      exact ⟨[] :: lines, last, rfl, by simpa using hlines, hlast⟩
    · cases lines with
      | nil => exact ⟨[], b :: last, rfl, by simp, by simp [hb, hlast]⟩
      | cons p lines =>
        simp only [mem_cons, forall_eq_or_imp] at hlines
        exact ⟨(b :: p) :: lines, last, rfl, by simpa [hb] using hlines, hlast⟩

/-- Pieces are blank, or one of them is the last that is not. -/
theorem blank_or_last (pieces : List Bytes) : (∀ p ∈ pieces, Blank p) ∨
    ∃ lines p blanks, pieces = lines ++ p :: blanks ∧ ¬ Blank p ∧ ∀ q ∈ blanks, Blank q := by
  induction pieces using reverseRecOn with
  | nil => exact .inl (by simp)
  | append_singleton pieces q ih =>
    by_cases hq : Blank q
    · rcases ih with hall | ⟨lines, p, blanks, rfl, hp, hblanks⟩
      · refine .inl fun p hp => ?_
        rcases mem_append.mp hp with hp | hp
        · exact hall p hp
        · exact mem_singleton.mp hp ▸ hq
      · refine .inr ⟨lines, p, blanks ++ [q], by simp, hp, fun r hr => ?_⟩
        rcases mem_append.mp hr with hr | hr
        · exact hblanks r hr
        · exact mem_singleton.mp hr ▸ hq
    · exact .inr ⟨pieces, q, [], rfl, hq, by simp⟩

theorem Blank.append {p q : Bytes} (hp : Blank p) (hq : Blank q) : Blank (p ++ q) := by
  intro b hb
  exact (mem_append.mp hb).elim (hp b) (hq b)

theorem blank_newline : Blank [newline] := by
  intro b hb
  rw [mem_singleton.mp hb]
  rfl

/-- Blank lines do not move the start of the tail. -/
theorem tailStart_skip {blanks : List Bytes} (h : ∀ q ∈ blanks, Blank q) (acc : Nat × Option Nat) :
    (blanks.foldl (fun (acc : Nat × Option Nat) line =>
      (acc.1 + line.length, if line.any (!isAsciiWhitespace ·) then some acc.1 else acc.2))
      acc).2 = acc.2 := by
  induction blanks generalizing acc with
  | nil => rfl
  | cons p ps ih =>
    rw [foldl_cons, ih fun q hq => h q (by simp [hq])]
    exact if_neg fun hany => any_nonblank.mp hany (h p (by simp))

/-- The last line that is not blank starts after all the pieces before it. -/
theorem tailStart_append {bytes last : Bytes} {pieces blanks : List Bytes}
    (hs : Lines.splitInclusive newline bytes = pieces ++ last :: blanks) (hlast : ¬ Blank last)
    (hblanks : ∀ q ∈ blanks, Blank q) : tailStart bytes = some pieces.flatten.length := by
  have hoffset : ∀ (ps : List Bytes) (acc : Nat × Option Nat), (ps.foldl
      (fun (acc : Nat × Option Nat) line =>
        (acc.1 + line.length, if line.any (!isAsciiWhitespace ·) then some acc.1 else acc.2))
      acc).1 = acc.1 + ps.flatten.length := by
    intro ps
    induction ps with
    | nil => intro acc; rfl
    | cons p ps ih =>
      intro acc
      rw [foldl_cons, ih, flatten_cons, length_append, Nat.add_assoc]
  rw [tailStart, hs, foldl_append, foldl_cons, tailStart_skip hblanks]
  rw [if_pos (any_nonblank.mpr hlast), hoffset, Nat.zero_add]

/-- What a text without a newline splits into is the text. -/
theorem eq_of_mem_splitInclusive {last : Bytes} (hlast : newline ∉ last) {q : Bytes}
    (hq : q ∈ Lines.splitInclusive newline last) : q = last := by
  by_cases hnil : last = []
  · simp [hnil, Lines.splitInclusive] at hq
  · rw [splitInclusive_last hlast hnil] at hq
    exact mem_singleton.mp hq

/-- **The last line that is not blank**, with its end and the blank lines after it. -/
theorem splitInclusive_blanks {lines init blanks : List Bytes} {last p : Bytes}
    (hlines : ∀ q ∈ lines, newline ∉ q) (hlast : newline ∉ last)
    (heq : lines ++ [last] = init ++ p :: blanks) (hp : ¬ Blank p) (hblanks : ∀ q ∈ blanks, Blank q) :
    ∃ line rest, Lines.splitInclusive newline (Lines.text newline lines ++ last) =
        init.map (· ++ [newline]) ++ line :: rest ∧ ¬ Blank line ∧ (∀ q ∈ rest, Blank q) ∧
      trimAsciiEnd (line ++ rest.flatten) = trimAsciiEnd p := by
  have hs := splitInclusive_text hlines last
  cases blanks using reverseRecOn with
  | nil =>
    obtain ⟨rfl, hlastp⟩ := append_inj' heq rfl
    obtain rfl := (List.cons.inj hlastp).1
    refine ⟨last, [], ?_, hp, by simp, by simp⟩
    rw [hs, splitInclusive_last hlast]
    rintro rfl
    exact hp (by simp [Blank])
  | append_singleton blanks q =>
    -- the line has a newline, and the blank lines end in the text behind the last newline
    rw [← cons_append, ← List.append_assoc] at heq
    obtain ⟨rfl, hlastq⟩ := append_inj' heq rfl
    obtain rfl := (List.cons.inj hlastq).1
    have hrest : ∀ q ∈ blanks.map (· ++ [newline]) ++ Lines.splitInclusive newline last,
        Blank q := by
      intro q hq
      rcases mem_append.mp hq with hq | hq
      · obtain ⟨r, hr, rfl⟩ := mem_map.mp hq
        exact (hblanks r (by simp [hr])).append blank_newline
      · exact eq_of_mem_splitInclusive hlast hq ▸ hblanks last (by simp)
    refine ⟨p ++ [newline], _, ?_, fun h => hp fun b hb => h b (by simp [hb]), hrest, ?_⟩
    · rw [hs, map_append, map_cons, List.append_assoc, cons_append]
    · rw [List.append_assoc]
      refine trimAsciiEnd_append (blank_newline.append fun b hb => ?_)
      obtain ⟨q, hq, hb⟩ := mem_flatten.mp hb
      exact hrest q hq b hb

/-- Without a line that is not blank there is nothing to repair. -/
theorem tailStart_blank {lines : List Bytes} {last : Bytes} (hlines : ∀ q ∈ lines, newline ∉ q)
    (hlast : newline ∉ last) (h : ∀ q ∈ lines ++ [last], Blank q) :
    tailStart (Lines.text newline lines ++ last) = none := by
  rw [tailStart, splitInclusive_text hlines last]
  refine tailStart_skip (fun q hq => ?_) (0, none)
  rcases mem_append.mp hq with hq | hq
  · obtain ⟨r, hr, rfl⟩ := mem_map.mp hq
    exact (h r (by simp [hr])).append blank_newline
  · exact eq_of_mem_splitInclusive hlast hq ▸ h last (by simp)

/-- **What a repair leaves**: the file as it is, or the lines before its last one that
is not blank, and that one does not parse. -/
theorem repair_cases (file : File) (cut : Bool) :
    ((repairTornTail codec file cut).2 = file ∧ (cut = true → (∀ p ∈ pieces file, Blank p) ∨
      ∃ lines p blanks rec, pieces file = lines ++ p :: blanks ∧ (∀ q ∈ blanks, Blank q) ∧
        codec.lineFromSlice (trimAsciiEnd p) = .ok rec)) ∨
    ∃ lines p blanks e, pieces file = lines ++ p :: blanks ∧ ¬ Blank p ∧ (∀ q ∈ blanks, Blank q) ∧
      pieces (repairTornTail codec file cut).2 = lines ++ [[]] ∧
      codec.lineFromSlice (trimAsciiEnd p) = .error e := by
  cases file with
  | none => exact .inl ⟨rfl, fun _ => .inl (by simp [Lines.split, Blank])⟩
  | some bytes =>
    obtain ⟨lines, last, rfl, hlines, hlast⟩ := exists_text bytes
    have hpieces : pieces (some (Lines.text newline lines ++ last)) = lines ++ [last] := by
      rw [pieces, Option.getD_some, split_text hlines, split_last hlast]
    rcases blank_or_last (lines ++ [last]) with hall | ⟨init, p, blanks, heq, hp, hblanks⟩
    · refine .inl ⟨?_, fun _ => .inl (hpieces ▸ hall)⟩
      rw [repairTornTail, tailStart_blank hlines hlast hall]
    · obtain ⟨line, rest, hsplit, hline, hrest, htrim⟩ :=
        splitInclusive_blanks hlines hlast heq hp hblanks
      have hstart := tailStart_append hsplit hline hrest
      have hbytes : Lines.text newline lines ++ last =
          (init.map (· ++ [newline])).flatten ++ (line ++ rest.flatten) := by
        rw [← flatten_cons, ← flatten_append, ← hsplit, flatten_splitInclusive]
      have hinit : (init.map (· ++ [newline])).flatten = Lines.text newline init ++ [] := by
        rw [append_nil, Lines.text, flatMap_def]
      have hno : ∀ q ∈ init, newline ∉ q := by
        intro q hq
        have hmem : q ∈ lines ++ [last] := by
          rw [heq]
          simp [hq]
        rcases mem_append.mp hmem with hmem | hmem
        · exact hlines q hmem
        · exact mem_singleton.mp hmem ▸ hlast
      rw [hpieces, repairTornTail, hstart]
      dsimp only
      rw [hbytes, drop_left, take_left, htrim]
      -- a last line that parses stays, another is cut off
      cases hparse : codec.lineFromSlice (trimAsciiEnd p) with
      | ok rec =>
        rw [← hbytes]
        exact .inl ⟨rfl, fun _ => .inr ⟨init, p, blanks, rec, heq, hblanks, hparse⟩⟩
      | error e =>
        cases cut with
        | false =>
          rw [← hbytes]
          exact .inl ⟨rfl, fun h => by cases h⟩
        | true =>
          refine .inr ⟨init, p, blanks, e, heq, hp, hblanks, ?_, hparse⟩
          rw [if_pos rfl, pieces, Option.getD_some, hinit, split_text hno]
          rfl

/-- A repair keeps every record. -/
theorem records_repair (hc : LawfulCodec codec) (file : File) (cut : Bool) :
    fileRecords codec (repairTornTail codec file cut).2 = fileRecords codec file := by
  rcases @repair_cases codec file cut with
    ⟨hsame, -⟩ | ⟨lines, p, blanks, e, hpieces, -, hblanks, hleft, hparse⟩
  · rw [hsame]
  · have hp : records codec [p] = [] := by
      cases hrec : codec.lineFromSlice p with
      | error e => exact records_error hrec
      | ok rec =>
        obtain ⟨rec', htrim⟩ := hc.trim hrec
        rw [hparse] at htrim
        cases htrim
    have hnone : records codec blanks = [] :=
      records_blank hc fun q hq => (hblanks q hq).trimAscii_isEmpty
    have hnil : records codec [[]] = [] := records_blank hc (by simp [trimAscii, trimAsciiEnd])
    rw [fileRecords_eq, fileRecords_eq, hleft, hpieces, records_append, append_cons lines p blanks,
      records_append, records_append, hp, hnone, hnil, append_nil, append_nil]

end Zicato.Ledger
