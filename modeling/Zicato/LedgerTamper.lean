import Zicato.LedgerRuns

/-! # Tamper evidence

A file that `verify_chain` accepts is a chain from genesis, and a chain is fixed
by its last digest: the digest fixes the hashed bytes, these fix the fields, and
the `prev` field is the digest of the record before.  The fields of a record the
supervisor wrote are free of the unit separator, so the hashed bytes fix them
even against a record whose fields are not. -/
open List
namespace Zicato.Ledger

variable (codec : LedgerCodec)

/-! ## The hashed bytes fix the fields -/

/-- The fields the separators delimit. -/
def Line.fields (line : Line) : List Bytes :=
  [utf8 line.prev, utf8 line.ts, utf8 line.kind, line.payload]

/-- No field of the record holds the separator. -/
def Line.Clean (line : Line) : Prop := ∀ f ∈ line.fields, unitSep ∉ f

theorem utf8_injective : Function.Injective utf8 := by
  intro a b h
  refine String.toByteArray_inj.mp ?_
  exact ByteArray.ext (Array.toList_inj.mp h)

theorem length_toBeBytes (seq : Nat) : (toBeBytes seq).length = 8 := by
  simp [toBeBytes]

theorem Line.hashed_eq (line : Line) :
    line.hashed = toBeBytes line.seq ++ unitSep :: [unitSep].intercalate line.fields := by
  simp [hashed, preimage, fields, intercalate, intersperse]

theorem mod_pow_eq_of_digits {m n k : Nat}
    (h : ∀ i < k, m / 256 ^ i % 256 = n / 256 ^ i % 256) : m % 256 ^ k = n % 256 ^ k := by
  induction k with
  | zero => simp [Nat.mod_one]
  | succ k ih =>
    rw [Nat.mod_pow_succ, Nat.mod_pow_succ, ih fun i hi => h i (by omega), h k (by omega)]

/-- Two sequence numbers of 64 bits with the same bytes are equal. -/
theorem toBeBytes_inj {m n : Nat} (hm : m < 2 ^ 64) (hn : n < 2 ^ 64)
    (h : toBeBytes m = toBeBytes n) : m = n := by
  have hdigit : ∀ i < 8, m / 256 ^ i % 256 = n / 256 ^ i % 256 := by
    intro i hi
    have hbyte := map_inj_left.mp h (7 - i) (mem_range.mpr (by omega))
    rw [show 7 - (7 - i) = i by omega] at hbyte
    simpa using congrArg UInt8.toNat hbyte
  have hmod := mod_pow_eq_of_digits hdigit
  have hpow : (256 : Nat) ^ 8 = 2 ^ 64 := by decide
  rwa [hpow, Nat.mod_eq_of_lt hm, Nat.mod_eq_of_lt hn] at hmod

variable {line : Line}

/-- **No bytes can move between adjacent fields** of a clean record. -/
theorem Line.Clean.fields_eq {other : Line} (hline : line.Clean) (h : other.hashed = line.hashed) :
    toBeBytes other.seq = toBeBytes line.seq ∧ other.prev = line.prev ∧ other.ts = line.ts ∧
      other.kind = line.kind ∧ other.payload = line.payload := by
  rw [hashed_eq, hashed_eq] at h
  obtain ⟨hseq, hrest⟩ := append_inj h
    ((length_toBeBytes _).trans (length_toBeBytes _).symm)
  have hfields : other.fields = line.fields :=
    Lines.intercalate_inj rfl hline (List.cons.inj hrest).2
  simp only [fields, List.cons.injEq, and_true] at hfields
  obtain ⟨hprev, hts, hkind, hpayload⟩ := hfields
  exact ⟨hseq, utf8_injective hprev, utf8_injective hts, utf8_injective hkind, hpayload⟩

/-! ## What the supervisor writes is clean -/

/-- A hexadecimal digest and compact JSON hold no control character. -/
structure SeparatorFree : Prop where
  hexDigest : ∀ bytes, unitSep ∉ utf8 (codec.hexDigest bytes)
  toRawValue : ∀ {payload raw}, codec.toRawValue payload = .ok raw → unitSep ∉ raw

/-- The readings of the clock an event may use. -/
def Event.stamps : Event → List String
  | .opens io => [io.integrityTs, io.breakTs]
  | .appends _ _ ts _ => [ts]

variable {codec}

theorem RecordKind.asStr_clean (kind : RecordKind) : unitSep ∉ utf8 kind.asStr := by
  cases kind <;> decide

theorem Event.Writes.mem_stamps {event : Event} {kind : RecordKind} {ts : String}
    {outcome : WriteOutcome} (h : event.Writes kind ts outcome) : ts ∈ event.stamps := by
  cases event with
  | opens io =>
    rcases h.2 with heq | heq <;> simp [Event.stamps, (Prod.mk.inj heq).1]
  | appends kind' payload ts' outcome' => simp [Event.stamps, h.2.1]

variable (codec) in
/-- A clean record under the digest of its own bytes. -/
structure Line.Sealed (line : Line) : Prop where
  clean : line.Clean
  digest : line.digest = codec.hexDigest line.hashed

theorem Follows.digest_eq {tail : Tail} (h : Follows codec tail line) :
    line.digest = codec.hexDigest line.hashed := h.digest

/-- The last digest of a file. -/
def head (lines : List Line) : Option String := lines.getLast?.map (·.digest)

theorem tailAfter_prev (lines : List Line) :
    (tailAfter genesis lines).prev = (head lines).getD genesisPrev := by
  rcases eq_nil_or_concat' lines with rfl | ⟨lines, line, rfl⟩
  · rfl
  · rw [tailAfter_concat, head, getLast?_concat]
    rfl

/-- What is chained onto sealed records is sealed under a clean digest. -/
theorem tailAfter_clean (hsep : SeparatorFree codec) {lines : List Line}
    (h : ∀ line ∈ lines, line.Sealed codec) : unitSep ∉ utf8 (tailAfter genesis lines).prev := by
  rcases eq_nil_or_concat' lines with rfl | ⟨lines, line, rfl⟩
  · decide
  · rw [tailAfter_concat, Line.advance, (h line (by simp)).digest]
    exact hsep.hexDigest _

/-- **The records of a run are sealed**, and a chain from genesis unless a line that was
left behind has brought a number twice. -/
theorem run_records (hc : LawfulCodec codec) (hsep : SeparatorFree codec) (events : List Event)
    (hts : ∀ event ∈ events, ∀ ts ∈ event.stamps, unitSep ∉ utf8 ts) :
    (Linked codec genesis (fileRecords codec (run codec events).file) ∨
      (tailAfter genesis (fileRecords codec (run codec events).file)).nextSeq <
        (fileRecords codec (run codec events).file).length) ∧
      ∀ line ∈ fileRecords codec (run codec events).file, line.Sealed codec := by
  obtain ⟨hchain, hsealed, -⟩ := run_induction codec
    (P := fun file tail _ => Chain codec True (fileRecords codec file) tail ∧
      (∀ line ∈ fileRecords codec file, line.Sealed codec) ∧
      ∀ t, tail = some t → unitSep ∉ utf8 t.prev)
    events
    (by
      have hnil : fileRecords codec none = [] := records_blank hc (by
        simp [Lines.split, trimAscii, trimAsciiEnd])
      rw [hnil]
      exact ⟨chain_nil, by simp, by simp⟩)
    (fun file tail history io _ h => by
      obtain ⟨hchain, hsealed, -⟩ := h
      rw [seedTail_eq, records_repair hc]
      exact ⟨hchain.open, hsealed, fun t ht => Option.some.inj ht ▸ tailAfter_clean hsep hsealed⟩)
    (fun event he file tail history kind payload ts outcome hw h => by
      obtain ⟨hchain, hsealed, hprev⟩ := h
      refine ⟨hchain.append hc kind payload ts fun _ _ => trivial, ?_⟩
      rw [records_of_append hc]
      rcases @append_cases codec tail file kind payload ts outcome with
        happ | ⟨raw, text, hraw, hwritten, happ⟩
      · rw [happ]
        exact ⟨by simpa [survivors] using hsealed, hprev⟩
      -- no field of a new line can hold the separator, so that its digest tells them apart
      have hline : (nextLine codec tail kind ts raw).Sealed codec := by
        refine ⟨fun f hf => ?_, rfl⟩
        simp only [Line.fields, nextLine, mem_cons, not_mem_nil, or_false] at hf
        rcases hf with rfl | rfl | rfl | rfl
        · exact hprev tail rfl
        · exact hts event he _ hw.mem_stamps
        · exact kind.asStr_clean
        · exact hsep.toRawValue hraw
      rw [happ]
      dsimp only [Option.toList]
      rw [survivors_singleton]
      constructor
      · intro line hmem
        rcases mem_append.mp hmem with hmem | hmem
        · exact hsealed line hmem
        · split at hmem
          · exact mem_singleton.mp hmem ▸ hline
          · cases hmem
      · intro t ht
        cases outcome with
        | done =>
          rw [← Option.some.inj ht]
          change unitSep ∉ utf8 (nextLine codec tail kind ts raw).digest
          rw [hline.digest]
          exact hsep.hexDigest _
        | refused | failed | left k => exact hprev t ht
        | diedBefore | died k => cases ht)
  exact ⟨hchain.linked.imp_right And.right, hsealed⟩

/-! ## What verifies is a chain -/

variable {tail : Tail} {file : File}

/-- The walk goes past a line only if it is blank or chains onto the tail. -/
theorem verifyLines_cases {index : Nat} {raw : Bytes} {raws : List Bytes}
    (h : (verifyLines codec index tail.nextSeq tail.prev (raw :: raws)).intact = true) :
    (trimAscii raw).isEmpty = true ∨ ∃ line, (trimAscii raw).isEmpty = false ∧
      codec.lineFromSlice raw = .ok line ∧ Follows codec tail line := by
  rw [verifyLines] at h
  split at h
  · rename_i hblank
    exact .inl hblank
  · rename_i hblank
    right
    split at h
    · cases h
    · rename_i line hline
      split at h
      · cases h
      · rename_i hseq
        split at h
        · cases h
        · rename_i hprev
          split at h
          · cases h
          · rename_i hdigest
            exact ⟨line, Bool.eq_false_iff.mpr hblank, hline, not_not.mp hseq, not_not.mp hprev,
              (not_not.mp hdigest).symm⟩

/-- Lines that verify are a chain. -/
theorem verifyLines_intact (hc : LawfulCodec codec) {raws : List Bytes} {index : Nat} {tail : Tail}
    (h : (verifyLines codec index tail.nextSeq tail.prev raws).intact = true) :
    Linked codec tail (raws.filterMap fun raw => (codec.lineFromSlice raw).toOption) ∧
      (verifyLines codec index tail.nextSeq tail.prev raws).records =
        tail.nextSeq + (raws.filterMap fun raw => (codec.lineFromSlice raw).toOption).length := by
  induction raws generalizing index tail with
  | nil => exact ⟨trivial, rfl⟩
  | cons raw raws ih =>
    rcases verifyLines_cases h with hblank | ⟨line, hblank, hline, hf⟩
    · -- a blank line is passed over, and is no record either
      obtain ⟨e, he⟩ := hc.blank hblank
      rw [verifyLines, if_pos hblank] at h ⊢
      rw [filterMap_cons, he]
      exact ih h
    · rw [verifyLines_follows hf hblank hline] at h ⊢
      obtain ⟨hl, hn⟩ := ih h
      rw [filterMap_cons, hline]
      refine ⟨⟨hf, hl⟩, ?_⟩
      rw [hn, Line.advance, hf.seq]
      simp only [Except.toOption, length_cons]
      omega

/-- **What `verify_chain` accepts is a chain from genesis**, of as many records
as it reports. -/
theorem verifyChain_intact (hc : LawfulCodec codec) (h : (verifyChain codec file).intact = true) :
    Linked codec genesis (fileRecords codec file) ∧
      (verifyChain codec file).records = (fileRecords codec file).length := by
  cases file with
  | none =>
    obtain ⟨e, he⟩ : ∃ e, codec.lineFromSlice [] = .error e := hc.blank rfl
    have hnil : fileRecords codec none = [] := by
      simp [fileRecords, Lines.split, he, Except.toOption]
    rw [hnil]
    exact ⟨trivial, rfl⟩
  | some bytes =>
    obtain ⟨hl, hn⟩ := @verifyLines_intact codec hc (Lines.split newline bytes) 0 genesis h
    exact ⟨hl, hn.trans (Nat.zero_add _)⟩

/-! ## A chain is fixed by its head -/

variable (codec) in
/-- The two files hold no two records with one digest and different hashed bytes. -/
def CollisionFree (lines others : List Line) : Prop :=
  ∀ line ∈ lines, ∀ other ∈ others,
    codec.hexDigest other.hashed = codec.hexDigest line.hashed → other.hashed = line.hashed

/-- Two chains of one length under one digest are one chain. -/
theorem Linked.eq_of_prev_eq {lines others : List Line} (hl : Linked codec genesis lines)
    (ho : Linked codec genesis others) (hclean : ∀ line ∈ lines, line.Clean)
    (hfree : CollisionFree codec lines others) (hlen : others.length = lines.length)
    (hhead : (tailAfter genesis others).prev = (tailAfter genesis lines).prev) :
    others = lines := by
  -- backwards over the chain: each record fixes the digest of the one before
  induction lines using reverseRecOn generalizing others with
  | nil => exact length_eq_zero_iff.mp hlen
  | append_singleton lines line ih =>
    rcases eq_nil_or_concat' others with rfl | ⟨others, other, rfl⟩
    · simp at hlen
    · obtain ⟨hl, hf⟩ := (linked_concat codec genesis lines line).mp hl
      obtain ⟨ho, hf'⟩ := (linked_concat codec genesis others other).mp ho
      have hlen' : others.length = lines.length := by simpa using hlen
      have hdigest : other.digest = line.digest := by
        rw [tailAfter_concat, tailAfter_concat] at hhead
        exact hhead
      have hhashed : other.hashed = line.hashed := by
        refine hfree line (by simp) other (by simp) ?_
        rw [← hf.digest_eq, ← hf'.digest_eq, hdigest]
      obtain ⟨-, hprev, hts, hkind, hpayload⟩ := (hclean line (by simp)).fields_eq hhashed
      have hseq : other.seq = line.seq := by
        rw [hf.seq, hf'.seq, tailAfter_nextSeq hl, tailAfter_nextSeq ho, hlen']
      have hline : other = line := by
        cases other
        cases line
        simp only [Line.mk.injEq]
        exact ⟨hseq, hprev, hts, hkind, hpayload, hdigest⟩
      have hrest : others = lines := by
        refine ih hl ho (fun l hmem => hclean l (by simp [hmem])) ?_ hlen' ?_
        · exact fun l hmem o homem => hfree l (by simp [hmem]) o (by simp [homem])
        · rw [← hf.prev, ← hf'.prev, hprev]
      rw [hrest, hline]

/-- No chain has the last digest of records that repeat a number. -/
theorem Linked.not_behind (hc : LawfulCodec codec) {other : File} {lines : List Line}
    (ho : Linked codec genesis (fileRecords codec other)) (hsealed : ∀ line ∈ lines, line.Sealed codec)
    (hfree : CollisionFree codec lines (fileRecords codec other))
    (hlen : (fileRecords codec other).length = lines.length)
    (hhead : head (fileRecords codec other) = head lines) :
    ¬ (tailAfter genesis lines).nextSeq < lines.length := by
  intro hlt
  have hnext := tailAfter_nextSeq ho
  rcases eq_nil_or_concat' lines with rfl | ⟨lines, line, rfl⟩
  · cases hlt
  obtain ⟨others, last, hothers⟩ := (eq_nil_or_concat' (fileRecords codec other)).resolve_left (by
    intro hnil
    rw [hnil] at hlen
    simp at hlen)
  have hlast : last ∈ fileRecords codec other := by simp [hothers]
  -- a record read from a file has a number of eight bytes
  have hseq : last.seq < 2 ^ 64 := by
    obtain ⟨raw, -, hraw⟩ := mem_filterMap.mp hlast
    cases hparse : codec.lineFromSlice raw with
    | error e => simp [hparse, Except.toOption] at hraw
    | ok rec =>
      rw [hparse] at hraw
      exact Option.some.inj hraw ▸ hc.seq hparse
  rw [hothers, tailAfter_concat] at hnext
  rw [tailAfter_concat] at hlt
  rw [hothers, head, head, getLast?_concat, getLast?_concat] at hhead
  have hf : Follows codec (tailAfter genesis others) last := by
    rw [hothers] at ho
    exact ((linked_concat codec genesis others last).mp ho).2
  have hline := hsealed line (by simp)
  have hdigest : last.digest = line.digest := Option.some.inj hhead
  -- equal digests are digests of equal bytes, and these begin with the number
  have hhashed := hfree line (by simp) last hlast (by rw [← hline.digest, ← hf.digest_eq, hdigest])
  have hbytes := (hline.clean.fields_eq hhashed).1
  simp only [hothers, length_append, length_singleton] at hlen hnext
  simp only [Line.advance, genesis, length_append, length_singleton] at hlt hnext
  have hsame := toBeBytes_inj hseq (by omega) hbytes
  omega

/-- **The ledger is tamper evident.**  A file that verifies with as many records
and the same last digest as the file of a run holds the records of the run; and
no other fields than a record's own have its hashed bytes. -/
theorem ledger_tamper_evident (hc : LawfulCodec codec) (hsep : SeparatorFree codec)
    (events : List Event) (hts : ∀ event ∈ events, ∀ ts ∈ event.stamps, unitSep ∉ utf8 ts)
    (other : File)
    (hfree : CollisionFree codec (fileRecords codec (run codec events).file)
      (fileRecords codec other))
    (hintact : (verifyChain codec other).intact = true)
    (hcount : (verifyChain codec other).records =
      (fileRecords codec (run codec events).file).length)
    (hhead : head (fileRecords codec other) = head (fileRecords codec (run codec events).file)) :
    fileRecords codec other = fileRecords codec (run codec events).file ∧
      ∀ line ∈ fileRecords codec (run codec events).file, line.seq < 2 ^ 64 →
        ∀ seq < 2 ^ 64, ∀ prev ts kind payload,
          preimage seq prev ts kind payload =
              preimage line.seq line.prev line.ts line.kind line.payload →
            seq = line.seq ∧ prev = line.prev ∧ ts = line.ts ∧ kind = line.kind ∧
              payload = line.payload := by
  obtain ⟨hl, hsealed⟩ := run_records hc hsep events hts
  obtain ⟨ho, hrecords⟩ := verifyChain_intact hc hintact
  constructor
  · have hlen := hrecords.symm.trans hcount
    -- a record that a failed cut-back has left puts the tail behind the count
    have hlinked := hl.resolve_right (ho.not_behind hc hsealed hfree hlen hhead)
    refine hlinked.eq_of_prev_eq ho (fun line hline => (hsealed line hline).clean) hfree hlen ?_
    rw [tailAfter_prev, tailAfter_prev, hhead]
  · intro line hline hseq seq hseq' prev ts kind payload heq
    let moved : Line :=
      { seq := seq, prev := prev, ts := ts, kind := kind, payload := payload, digest := "" }
    have hmoved : moved.hashed = line.hashed := heq
    have hfields := (hsealed line hline).clean.fields_eq hmoved
    exact ⟨toBeBytes_inj hseq' hseq hfields.1, hfields.2⟩

/-! ### The same records with a blank line between them -/

/-- A file of two records, with a blank line between them. -/
def startFile : File :=
  some (lineText "0" startLine "null" ++ [newline, newline] ++ lineText "1" removedLine removedPayload)

/-- The demonstrated digests have no separator. -/
theorem separatorFree_startCodec : SeparatorFree startCodec where
  hexDigest bytes := by
    simp only [startCodec, tableCodec]
    generalize hfound : List.find? _ _ = found
    cases found with
    | none => decide
    | some e =>
      have hclean : ∀ e ∈ startTable.map (fun e => (e.1.hashed, e.1.digest)) ++
          [(utf8 "\x7b\"seq\":", removedDigest)], unitSep ∉ utf8 e.2 := by decide +kernel
      exact hclean e (mem_of_find?_eq_some hfound)
  toRawValue {payload raw} h := by
    have hclean : unitSep ∉ utf8 "null" ∧ unitSep ∉ utf8 removedPayload := by decide +kernel
    simp only [startCodec, tableCodec] at h
    split at h
    · exact Except.ok.inj h ▸ hclean.1
    · exact Except.ok.inj h ▸ hclean.2
    · cases h

theorem startFile_records :
    fileRecords startCodec startFile = [startLine, removedLine] ∧
      fileRecords startCodec (run startCodec startEvents).file = [startLine, removedLine] := by
  decide +kernel

theorem ledger_tamper_evident_start :
    (verifyChain startCodec startFile).intact = true ∧
      startFile ≠ (run startCodec startEvents).file ∧
      fileRecords startCodec startFile =
        fileRecords startCodec (run startCodec startEvents).file := by
  have hfree : CollisionFree startCodec (fileRecords startCodec (run startCodec startEvents).file)
      (fileRecords startCodec startFile) := by
    rw [startFile_records.1, startFile_records.2, CollisionFree]
    decide +kernel
  have hintact : (verifyChain startCodec startFile).intact = true := by decide +kernel
  exact ⟨hintact, by decide +kernel,
    (ledger_tamper_evident lawful_startCodec separatorFree_startCodec startEvents
      (by decide +kernel) startFile hfree hintact (by decide +kernel) (by decide +kernel)).1⟩

end Zicato.Ledger
