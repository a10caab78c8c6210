import Zicato.JsonAscii
import Zicato.JsonExact
import Zicato.StoreAgreement
import Zicato.UnitArchive

/-! # Re-measuring a unit loses no evidence

Over every run of measurements and stops: each measurement whose result was written stays in its
slot or in an archive that holds all of it, and the loss history names it once. -/
open List Option
namespace Zicato

/-! ## Sorted keys -/

namespace PyValue

variable {F : Type} {P : String → Prop}

theorem keys_sortedFields (fields : List (String × PyValue F)) :
    Dict.keys (sortedFields fields) = Dict.keys fields := by
  induction fields with
  | nil => rfl
  | cons e rest ih => rw [sortedFields, Dict.keys, map_cons, ← Dict.keys, ih]; rfl

mutual
/-- Sorting keeps the keys. -/
theorem hasKeys_sorted : ∀ v : PyValue F, HasKeys P v → HasKeys P v.sorted
  | .none, _ => trivial
  | .bool _, _ => trivial
  | .int _, _ => trivial
  | .float _, _ => trivial
  | .str _, _ => trivial
  | .list items, h => hasKeys_sortedItems items h
  | .dict fields, h => by
      rw [sorted_dict, sortKeys]
      have hperm := perm_insertionSort (fun a b : String × PyValue F => a.1 ≤ b.1)
        (sortedFields fields)
      refine ⟨?_, hasKeysFields_iff.mpr fun e he => ?_⟩
      · rw [Dict.keys, (hperm.map Prod.fst).nodup_iff, ← Dict.keys, keys_sortedFields]
        exact h.1
      · exact hasKeysFields_iff.mp (hasKeys_sortedFields fields h.2) e (hperm.mem_iff.mp he)

theorem hasKeys_sortedItems : ∀ items : List (PyValue F), HasKeysItems P items →
    HasKeysItems P (sortedItems items)
  | [], _ => trivial
  | v :: rest, h => ⟨hasKeys_sorted v h.1, hasKeys_sortedItems rest h.2⟩

theorem hasKeys_sortedFields : ∀ fields : List (String × PyValue F), HasKeysFields P fields →
    HasKeysFields P (sortedFields fields)
  | [], _ => trivial
  | (_, v) :: rest, h => ⟨h.1, hasKeys_sorted v h.2.1, hasKeys_sortedFields rest h.2.2⟩
end

end PyValue

namespace UnitArchive

open GenerationStores

variable {F P : Type} {it : Interp F P}

/-! ## The digest names its files -/

theorem length_toBytes8 {n : Nat} {bytes : Bytes} (h : toBytes8 n = some bytes) :
    bytes.length = 8 := by
  rw [toBytes8] at h
  split at h
  · cases h
    rfl
  · cases h

/-- A number is told by its eight bytes. -/
theorem toBytes8_injective {n m : Nat} {bytes : Bytes} (hn : toBytes8 n = some bytes)
    (hm : toBytes8 m = some bytes) : n = m := by
  rw [toBytes8] at hn hm
  split at hn
  · split at hm
    · rename_i hlt hlt'
      have hbytes := some.inj (hn.trans hm.symm)
      have hdigit : ∀ x : Nat, (UInt8.ofNat (x % 256)).toNat = x % 256 := fun x => by
        simp
      have hdigits : ∀ i ∈ [7, 6, 5, 4, 3, 2, 1, 0], n / 256 ^ i % 256 = m / 256 ^ i % 256 := by
        intro i hi
        have hbyte := map_inj_left.mp hbytes i hi
        rw [← hdigit, hbyte, hdigit]
      simp only [forall_mem_cons] at hdigits
      obtain ⟨h7, h6, h5, h4, h3, h2, h1, h0, -⟩ := hdigits
      -- the quotients by rising powers agree from the highest byte down
      have hstep : ∀ {a b p : Nat}, a / (p * 256) = b / (p * 256) → a / p % 256 = b / p % 256 →
          a / p = b / p := by
        intro a b p hq hr
        rw [← Nat.div_div_eq_div_mul, ← Nat.div_div_eq_div_mul] at hq
        omega
      have htop : n / 256 ^ 8 = m / 256 ^ 8 := by
        have hpower : 256 ^ 8 = 2 ^ 64 := rfl
        rw [hpower, Nat.div_eq_of_lt hlt, Nat.div_eq_of_lt hlt']
      simpa using hstep (hstep (hstep (hstep (hstep (hstep (hstep (hstep htop h7) h6) h5) h4) h3) h2)
        h1) h0
    · cases hm
  · cases hn

variable {e : Path × Bytes} {framed : Bytes}

theorem frame_eq_some (h : frame e = some framed) :
    ∃ a b, toBytes8 e.1.text.length = some a ∧ toBytes8 e.2.length = some b ∧
      framed = a ++ (e.1.text ++ (b ++ e.2)) := by
  simp only [frame, encodePath, bind_eq_bind, bind_eq_some_iff] at h
  obtain ⟨relative, hrelative, a, ha, b, hb, hframed⟩ := h
  split at hrelative
  · cases hrelative
    cases hframed
    exact ⟨a, b, ha, hb, by simp⟩
  · cases hrelative

/-- What a file adds to the digest tells where it ends. -/
theorem frame_append_inj {e' : Path × Bytes} {framed' rest rest' : Bytes}
    (h : frame e = some framed) (h' : frame e' = some framed')
    (heq : framed ++ rest = framed' ++ rest') : e = e' ∧ rest = rest' := by
  obtain ⟨a, b, ha, hb, rfl⟩ := frame_eq_some h
  obtain ⟨a', b', ha', hb', rfl⟩ := frame_eq_some h'
  simp only [List.append_assoc] at heq
  obtain ⟨rfl, htail⟩ := append_inj heq ((length_toBytes8 ha).trans (length_toBytes8 ha').symm)
  obtain ⟨htext, hbodies⟩ := append_inj htail (toBytes8_injective ha ha')
  obtain ⟨rfl, hend⟩ := append_inj hbodies
    ((length_toBytes8 hb).trans (length_toBytes8 hb').symm)
  obtain ⟨hbody, hrest⟩ := append_inj hend (toBytes8_injective hb hb')
  exact ⟨Prod.ext (Path.text_injective htext) hbody, hrest⟩

theorem frame_ne_nil (h : frame e = some framed) : framed ≠ [] := by
  obtain ⟨a, b, ha, -, rfl⟩ := frame_eq_some h
  intro hnil
  have hlength := length_toBytes8 ha
  rw [(append_eq_nil_iff.mp hnil).1] at hlength
  cases hlength

/-- The framed files are read back from what the digest takes. -/
theorem frames_injective {staged staged' : Files} {frames frames' : List Bytes}
    (h : staged.mapM frame = some frames) (h' : staged'.mapM frame = some frames')
    (heq : frames.flatten = frames'.flatten) : staged = staged' := by
  induction staged generalizing staged' frames frames' with
  | nil =>
    cases h
    cases staged' with
    | nil => rfl
    | cons e' rest' =>
      simp only [mapM_cons, bind_eq_bind, bind_eq_some_iff] at h'
      obtain ⟨framed', hframed', rest, -, hpure⟩ := h'
      cases hpure
      exact absurd (append_eq_nil_iff.mp heq.symm).1 (frame_ne_nil hframed')
  | cons e rest ih =>
    simp only [mapM_cons, bind_eq_bind, bind_eq_some_iff] at h
    obtain ⟨framed, hframed, tail, htail, hpure⟩ := h
    cases hpure
    cases staged' with
    | nil =>
      cases h'
      exact absurd (append_eq_nil_iff.mp heq).1 (frame_ne_nil hframed)
    | cons e' rest' =>
      simp only [mapM_cons, bind_eq_bind, bind_eq_some_iff] at h'
      obtain ⟨framed', hframed', tail', htail', hpure'⟩ := h'
      cases hpure'
      obtain ⟨rfl, hrest⟩ := frame_append_inj hframed hframed' heq
      rw [ih htail htail' hrest]

theorem digest_injective (hsha : Function.Injective it.sha256) {staged staged' : Files}
    {name : String} (h : digest it staged = some name) (h' : digest it staged' = some name) :
    staged = staged' := by
  obtain ⟨frames, hframes, rfl⟩ := map_eq_some_iff.mp h
  obtain ⟨frames', hframes', heq⟩ := map_eq_some_iff.mp h'
  exact frames_injective hframes hframes' (hsha heq.symm)

/-! ## The history tells its records apart -/

open Json (Printable)

theorem splitLinesKeep_line {line : Text} (h : ∀ c ∈ line, Printable c) (rest : Text) :
    Text.splitLinesKeep (line ++ '\n' :: rest) = (line ++ ['\n']) :: Text.splitLinesKeep rest := by
  have hline : ∀ c ∈ line, Text.isLineBreak c = false ∧ c ≠ '\r' := fun c hc =>
    ⟨(h c hc).isLineBreak, fun heq => absurd (heq ▸ (h c hc).isLineBreak) (by decide)⟩
  rw [Text.splitLinesKeep, Lines.splitEnds_append hline, ← Text.splitLinesKeep,
    Text.splitLinesKeep_end (by simp) (by decide)]
  rfl

/-- The lines of a history are those that it was made of. -/
theorem splitLines_text {lines : List Text} (h : ∀ line ∈ lines, ∀ c ∈ line, Printable c) :
    Text.splitLines (Text.universalNewlines (Lines.text '\n' lines)) = lines := by
  have hreturn : '\r' ∉ Lines.text '\n' lines := by
    intro hmem
    obtain ⟨line, hline, hc⟩ := mem_flatMap.mp hmem
    rcases mem_append.mp hc with hc | hc
    · exact absurd (h line hline _ hc) (by decide)
    · cases mem_singleton.mp hc
  rw [Text.universalNewlines_of_notMem hreturn]
  clear hreturn
  induction lines with
  | nil => rfl
  | cons line lines ih =>
    obtain ⟨hline, hlines⟩ := forall_mem_cons.mp h
    have hbreak : ∀ c ∈ line, Text.isLineBreak c = false := fun c hc => (hline c hc).isLineBreak
    have hkeep := splitLinesKeep_line hline (Lines.text '\n' lines)
    have ih := ih hlines
    rw [Text.splitLines] at ih
    rw [Lines.text, flatMap_cons, List.append_assoc, singleton_append, ← Lines.text,
      Text.splitLines, hkeep, map_cons, ih, Text.rdropWhile_append (by decide) hbreak]

/-- The decoder of profiles reads the fields by their names. -/
def ByName (it : Interp F P) : Prop :=
  ∀ fields, it.profile (PyValue.sortKeys fields) = it.profile fields

theorem strip_brace (rest : Text) : Text.strip ('{' :: rest) ≠ [] := by
  have hskip : Text.skipSpace ('{' :: rest) = '{' :: rest := dropWhile_cons_of_neg (by decide)
  rw [Text.strip, hskip]
  intro hnil
  exact absurd (rdropWhile_eq_nil_iff.mp hnil '{' mem_cons_self) (by decide)

variable {fields : Dict String (PyValue F)}

theorem keyed_record (seq : Nat) (h : Json.Keyed (.dict fields)) :
    Json.Keyed (record it seq fields) := by
  have hmeasurement : Json.Keyed ((Dict.get? fields "measurement").getD .none) :=
    Dict.getD_induction trivial fun e he => (PyValue.hasKeysFields_iff.mp h.2 e he).2
  refine ⟨by simp [Dict.keys], PyValue.hasKeysFields_iff.mpr ?_⟩
  simp only [forall_mem_cons]
  exact ⟨⟨trivial, trivial⟩, ⟨trivial, trivial⟩, ⟨trivial, hmeasurement⟩, ⟨trivial, h⟩, nofun⟩

/-- A record is read back as the profile that it was made of. -/
theorem readLine_record (hname : ByName it) (seq : Nat) (h : Json.Keyed (.dict fields)) :
    readLine it (Json.dumps it.floats .default (record it seq fields).sorted) =
      it.profile fields := by
  have hkeyed : Json.Keyed (record it seq fields).sorted :=
    PyValue.hasKeys_sorted _ (keyed_record seq h)
  have hloads : Json.loads it.floats
      ([] ++ Json.dumps it.floats .default (record it seq fields).sorted ++ []) =
      .ok (record it seq fields).sorted :=
    Json.loads_dumps Json.Layout.plain_default hkeyed (by simp) (by simp)
  rw [nil_append, append_nil] at hloads
  have hsorted : (record it seq fields).sorted = .dict (PyValue.sortKeys [("seq", .int seq),
      ("slot", .str it.lossName),
      ("measurement", (Dict.get? fields "measurement").getD .none), ("profile", .dict fields)]) :=
    PyValue.sorted_dict _
  have hstrip : Text.strip (Json.dumps it.floats .default (record it seq fields).sorted) ≠ [] := by
    rw [hsorted, Json.dumps, Json.dumpsWith]
    exact strip_brace _
  rw [readLine, if_neg hstrip, hloads, hsorted]
  simp only [Except.toOption, PyValue.get?_sortKeys, readLine.profileOf]
  have hfields := hname fields
  rw [PyValue.sortKeys] at hfields
  simpa [Dict.get?, PyValue.sorted] using hfields

/-! ## What holds of the files -/

/-- The files of a measurement, whose result has been written. -/
abbrev Measured := Slot

/-- A published directory holds all files of the measurement. -/
def State.Archived (it : Interp F P) (s : State) (m : Measured) : Prop :=
  ∃ e ∈ s.attempts, ∀ f ∈ slotFiles it m KINDS, f ∈ e.2

/-- The history has one record for each of the measurements, in their order. -/
def Logged (it : Interp F P) (history : Text) (done : List Measured) : Prop :=
  ∃ lines : List Text, history = Lines.text '\n' lines ∧
    (∀ line ∈ lines, ∀ c ∈ line, Printable c) ∧
    lines.map (readLine it) = done.map fun m => readLoss it (m .loss)

/-- A loss that a worker has written. -/
def Written (it : Interp F P) (loss : Option Content) : Prop :=
  ∃ file : LossFile it, loss = some (.file file.bytes)

/-- The file can be copied, and the digest takes it. -/
def Takes (it : Interp F P) (f : Path × Bytes) : Prop := it.fits f.1 = true ∧ (frame f).isSome

/-- The archive takes every file of the slot. -/
def Framed (it : Interp F P) (s : State) : Prop :=
  ∀ kind content, s.slot kind = some content → ∀ f ∈ content.files (it.names kind), Takes it f

/-- A state in which the loss of the slot is not the loss of a measurement whose result is still to
be written, and is not in the history already. -/
def State.Settled (s : State) : Prop :=
  match s.stage with
  | .appending _ _ => s.slot .loss = none
  | .clearing (.loss :: _) => s.slot .loss = none
  | .reduced => False
  | _ => True

/-- What a run is to keep, of the measurements whose result has been written. -/
structure Kept (it : Interp F P) (done : List Measured) (s : State) (outcome : Outcome) : Prop where
  /-- The archive raises nothing. -/
  raises : outcome ≠ .raised
  /-- Every file is in its slot, or in a directory that holds the whole measurement. -/
  evidence : ∀ m ∈ done, (∀ kind, s.slot kind = m kind) ∨ s.Archived it m
  /-- A loss in the slot has its companions. -/
  companions : s.slot .loss ≠ none → s.stage ≠ .reduced →
    ∃ m, done.getLast? = some m ∧ ∀ kind, s.slot kind = m kind
  /-- The history has the profiles in order, the slot's last. -/
  history : s.Settled →
    (s.readHistory it).map some = done.map fun m => readLoss it (m .loss)

/-! ## Runs -/

def State.fresh : State := ⟨fun _ => none, [], [], .idle⟩

/-- A stop falls between settled states, no operation fails, and the archive takes what the worker
writes. -/
def Orderly (s : State) : Action it → Prop
  | .stop => s.Settled
  | .fail => False
  | .write kind content => ∀ c, content = some c → ∀ f ∈ c.files (it.names kind), Takes it f
  | .reduce loss => ∀ f ∈ (Content.file loss.bytes).files (it.names .loss), Takes it f
  | .finish bytes => ∀ f ∈ (Content.file bytes).files (it.names .result), Takes it f
  | _ => True

/-- The measurements whose result has been written, after a step to a state. -/
def measured (done : List Measured) (s : State) : Outcome → List Measured
  | .measured => done ++ [s.slot]
  | _ => done

/-- The states of the runs whose steps are all orderly. -/
inductive Run (it : Interp F P) : List Measured → State → Prop
  | fresh : Run it [] .fresh
  | step {done : List Measured} {s s' : State} {action : Action it} {outcome : Outcome}
      (h : Run it done s) (ho : Orderly s action) (hs : s.step it action = some (s', outcome)) :
      Run it (measured done s' outcome) s'

/-! ## The invariant -/

/-- The slot is that of the last measurement, which is not in the history yet. -/
def Occupied (it : Interp F P) (done : List Measured) (s : State) : Prop :=
  ∃ before, done = before ++ [s.slot] ∧ (∀ m ∈ before, s.Archived it m) ∧
    Logged it s.history before ∧ Written it (s.slot .loss)

/-- Every measurement is in the archive and in the history. -/
def Retired (it : Interp F P) (done : List Measured) (s : State) : Prop :=
  s.slot .loss = none ∧ (∀ m ∈ done, s.Archived it m) ∧ Logged it s.history done

/-- What holds where a measurement is. -/
def Stage.Fits (it : Interp F P) (done : List Measured) (s : State) : Stage → Prop
  | .idle => Occupied it done s ∨ Retired it done s
  | .copying staged rest sources =>
      (Occupied it done s ∨ Retired it done s) ∧ sources = s.sources ∧
        ∃ copied, sources = copied ++ rest ∧ staged = slotFiles it s.slot copied
  | .publishing staged sources =>
      (Occupied it done s ∨ Retired it done s) ∧ sources = s.sources ∧
        ∀ f, f ∈ staged ↔ f ∈ slotFiles it s.slot KINDS
  | .appending rest sources =>
      sources = s.sources ∧ (∀ m ∈ done, s.Archived it m) ∧ Logged it (s.history ++ rest) done ∧
        ((∃ before, done = before ++ [s.slot] ∧ Written it (s.slot .loss)) ∨
          s.slot .loss = none ∧ rest = [])
  | .clearing sources =>
      (∀ m ∈ done, s.Archived it m) ∧ Logged it s.history done ∧
        ((∃ before rest, done = before ++ [s.slot] ∧ sources = .loss :: rest ∧
            Written it (s.slot .loss)) ∨
          s.slot .loss = none)
  | .working => Retired it done s
  | .reduced =>
      Written it (s.slot .loss) ∧ (∀ m ∈ done, s.Archived it m) ∧ Logged it s.history done

structure Inv (it : Interp F P) (done : List Measured) (s : State) : Prop where
  framed : Framed it s
  named : ∀ e ∈ s.attempts, digest it e.2 = some e.1
  read : ∀ m ∈ done, (readLoss it (m .loss)).isSome
  stage : s.stage.Fits it done s

section Steps

variable {done : List Measured} {s s' : State} {kind : Kind}

/-! ### The slot -/

/-- The files of a slot. -/
theorem mem_slotFiles {slot : Slot} {kinds : List Kind} {f : Path × Bytes} :
    f ∈ slotFiles it slot kinds ↔
      ∃ kind ∈ kinds, ∃ content, slot kind = some content ∧ f ∈ content.files (it.names kind) := by
  rw [slotFiles, mem_flatMap]
  constructor
  · rintro ⟨kind, hkind, hf⟩
    cases hslot : slot kind with
    | none =>
      rw [hslot] at hf
      cases hf
    | some content =>
      rw [hslot] at hf
      exact ⟨kind, hkind, content, hslot, hf⟩
  · rintro ⟨kind, hkind, content, hslot, hf⟩
    refine ⟨kind, hkind, ?_⟩
    rw [hslot]
    exact hf

/-- The sources hold all files of the slot. -/
theorem mem_slotFiles_sources {f : Path × Bytes} :
    f ∈ slotFiles it s.slot s.sources ↔ f ∈ slotFiles it s.slot KINDS := by
  rw [mem_slotFiles, mem_slotFiles]
  constructor
  · rintro ⟨kind, hkind, content, hslot, hf⟩
    exact ⟨kind, mem_of_mem_filter hkind, content, hslot, hf⟩
  · rintro ⟨kind, hkind, content, hslot, hf⟩
    refine ⟨kind, mem_filter.mpr ⟨hkind, ?_⟩, content, hslot, hf⟩
    rw [hslot]
    rfl

theorem isSome_of_mem_sources (h : kind ∈ s.sources) : ∃ content, s.slot kind = some content :=
  isSome_iff_exists.mp (mem_filter.mp h).2

/-- The loss is the first of the sources. -/
theorem sources_of_loss {content : Content} (h : s.slot .loss = some content) :
    ∃ rest, s.sources = .loss :: rest := by
  rw [State.sources, KINDS, filter_cons_of_pos (by rw [h]; rfl)]
  exact ⟨_, rfl⟩

theorem setSlot_self (content : Option Content) : (s.setSlot kind content).slot kind = content :=
  if_pos rfl

theorem setSlot_ne {k : Kind} (content : Option Content) (h : k ≠ kind) :
    (s.setSlot kind content).slot k = s.slot k := if_neg h

theorem Framed.setSlot (h : Framed it s) {content : Option Content}
    (hcontent : ∀ c, content = some c → ∀ f ∈ c.files (it.names kind), Takes it f) :
    Framed it (s.setSlot kind content) := by
  intro k c hk f hf
  by_cases heq : k = kind
  · subst heq
    rw [setSlot_self] at hk
    exact hcontent c hk f hf
  · rw [setSlot_ne content heq] at hk
    exact h k c hk f hf

/-! ### The history -/

theorem Logged.nil : Logged it [] [] := ⟨[], rfl, nofun, rfl⟩

/-- The record of an outgoing loss is one more line. -/
theorem Logged.append (hname : ByName it) {history : Text} (h : Logged it history done)
    {m : Measured} (hloss : Written it (m .loss)) :
    Logged it (history ++ outgoingLine it history (m .loss)) (done ++ [m]) := by
  obtain ⟨lines, rfl, hlines, hread⟩ := h
  obtain ⟨file, hfile⟩ := hloss
  have hline : outgoingLine it (Lines.text '\n' lines) (m .loss) =
      Json.dumps it.floats .default
        (record it (nextSeq (Lines.text '\n' lines)) file.fields).sorted ++ ['\n'] := by
    rw [outgoingLine, hfile, file.reads]
  have hprofile : readLoss it (m .loss) = it.profile file.fields := by
    rw [readLoss, hfile, file.reads, bind_some]
  refine ⟨lines ++ [_], by rw [hline, Lines.text_concat], fun line hmem => ?_, ?_⟩
  · rcases mem_append.mp hmem with hmem | hmem
    · exact hlines line hmem
    · rw [mem_singleton.mp hmem]
      exact Json.printable_dumps rfl Json.Layout.plain_default _
  · rw [map_append, map_append, hread, map_singleton, map_singleton,
      readLine_record hname _ file.keyed, hprofile]

theorem outgoingLine_none (history : Text) : outgoingLine it history none = [] := rfl

theorem map_some_filterMap {α β : Type} {f : α → Option β} {l : List α}
    (h : ∀ a ∈ l, (f a).isSome) : (l.filterMap f).map some = l.map f := by
  induction l with
  | nil => rfl
  | cons a l ih =>
    obtain ⟨ha, hl⟩ := forall_mem_cons.mp h
    obtain ⟨b, hb⟩ := isSome_iff_exists.mp ha
    rw [filterMap_cons_some hb, map_cons, map_cons, ih hl, hb]

/-- The history reads back the profiles of its measurements, then the slot's. -/
theorem map_readHistory {logged : List Measured} (h : Logged it s.history logged)
    (hread : ∀ m ∈ logged, (readLoss it (m .loss)).isSome) :
    (s.readHistory it).map some =
      (logged.map fun m => readLoss it (m .loss)) ++
        (readLoss it (s.slot .loss)).toList.map some := by
  obtain ⟨lines, hhistory, hlines, hmap⟩ := h
  have hprofiles : (lines.filterMap (readLine it)).map some =
      logged.map fun m => readLoss it (m .loss) := by
    rw [← hmap]
    refine map_some_filterMap fun line hline => ?_
    obtain ⟨m, hm, heq⟩ := mem_map.mp (hmap ▸ mem_map_of_mem hline)
    exact heq ▸ hread m hm
  rw [State.readHistory, hhistory, splitLines_text hlines, map_append, hprofiles]

/-! ### What the invariant says -/

theorem readLoss_none : readLoss it none = none := rfl

theorem Retired.history (h : Retired it done s)
    (hread : ∀ m ∈ done, (readLoss it (m .loss)).isSome) :
    (s.readHistory it).map some = done.map fun m => readLoss it (m .loss) := by
  rw [map_readHistory h.2.2 hread, h.1, readLoss_none]
  exact append_nil _

theorem Occupied.history (h : Occupied it done s)
    (hread : ∀ m ∈ done, (readLoss it (m .loss)).isSome) :
    (s.readHistory it).map some = done.map fun m => readLoss it (m .loss) := by
  obtain ⟨before, rfl, -, hlogged, -⟩ := h
  have hslot := hread s.slot (mem_append_right _ (mem_singleton_self _))
  obtain ⟨profile, hprofile⟩ := isSome_iff_exists.mp hslot
  rw [map_readHistory hlogged fun m hm => hread m (mem_append_left _ hm), map_append,
    map_singleton, hprofile]
  rfl

theorem Occupied.evidence (h : Occupied it done s) :
    ∀ m ∈ done, (∀ kind, s.slot kind = m kind) ∨ s.Archived it m := by
  obtain ⟨before, rfl, harchived, -, -⟩ := h
  intro m hm
  rcases mem_append.mp hm with hm | hm
  · exact .inr (harchived m hm)
  · rw [mem_singleton.mp hm]
    exact .inl fun _ => rfl

theorem Occupied.companions (h : Occupied it done s) :
    ∃ m, done.getLast? = some m ∧ ∀ kind, s.slot kind = m kind := by
  obtain ⟨before, rfl, -⟩ := h
  exact ⟨s.slot, getLast?_concat, fun _ => rfl⟩

variable {outcome : Outcome}

/-- Before anything is cleared. -/
theorem Kept.resting (h : Occupied it done s ∨ Retired it done s)
    (hread : ∀ m ∈ done, (readLoss it (m .loss)).isSome) (houtcome : outcome ≠ .raised) :
    Kept it done s outcome where
  raises := houtcome
  evidence := by
    rcases h with h | h
    · exact h.evidence
    · exact fun m hm => .inr (h.2.1 m hm)
  companions hloss _ := by
    rcases h with h | h
    · exact h.companions
    · exact absurd h.1 hloss
  history _ := by
    rcases h with h | h
    · exact h.history hread
    · exact h.history hread

/-- The invariant gives what a run is to keep. -/
theorem Inv.kept (h : Inv it done s) (houtcome : outcome ≠ .raised) : Kept it done s outcome := by
  have hstage := h.stage
  cases hs : s.stage with
  | idle =>
    rw [hs] at hstage
    exact Kept.resting hstage h.read houtcome
  | copying staged rest sources | publishing staged sources =>
    rw [hs] at hstage
    exact Kept.resting hstage.1 h.read houtcome
  | appending rest sources =>
    rw [hs] at hstage
    obtain ⟨-, harchived, hlogged, hslot⟩ := hstage
    refine ⟨houtcome, fun m hm => .inr (harchived m hm), fun hloss _ => ?_, fun hsettled => ?_⟩
    · rcases hslot with ⟨before, rfl, -⟩ | ⟨hnone, -⟩
      · exact ⟨s.slot, getLast?_concat, fun _ => rfl⟩
      · exact absurd hnone hloss
    · simp only [State.Settled, hs] at hsettled
      rcases hslot with ⟨before, -, file, hfile⟩ | ⟨hnone, rfl⟩
      · cases hfile.symm.trans hsettled
      · rw [append_nil] at hlogged
        exact Retired.history ⟨hnone, harchived, hlogged⟩ h.read
  | clearing sources =>
    rw [hs] at hstage
    obtain ⟨harchived, hlogged, hslot⟩ := hstage
    refine ⟨houtcome, fun m hm => .inr (harchived m hm), fun hloss _ => ?_, fun hsettled => ?_⟩
    · rcases hslot with ⟨before, rest, rfl, -⟩ | hnone
      · exact ⟨s.slot, getLast?_concat, fun _ => rfl⟩
      · exact absurd hnone hloss
    · have hnone : s.slot .loss = none := by
        rcases hslot with ⟨before, rest, -, rfl, -⟩ | hnone
        · simpa only [State.Settled, hs] using hsettled
        · exact hnone
      exact Retired.history ⟨hnone, harchived, hlogged⟩ h.read
  | working =>
    rw [hs] at hstage
    exact Kept.resting (.inr hstage) h.read houtcome
  | reduced =>
    rw [hs] at hstage
    refine ⟨houtcome, fun m hm => .inr (hstage.2.1 m hm), fun _ hne => absurd hs hne, ?_⟩
    intro hsettled
    simp [State.Settled, hs] at hsettled

/-! ### One step of the archive -/

theorem isSome_mapM {α β : Type} {f : α → Option β} {l : List α} (h : ∀ a ∈ l, (f a).isSome) :
    ∃ bs, l.mapM f = some bs := by
  induction l with
  | nil => exact ⟨[], rfl⟩
  | cons a l ih =>
    obtain ⟨ha, hl⟩ := forall_mem_cons.mp h
    obtain ⟨b, hb⟩ := isSome_iff_exists.mp ha
    obtain ⟨bs, hbs⟩ := ih hl
    exact ⟨b :: bs, by rw [mapM_cons, hb, hbs]; rfl⟩

variable {staged : Files}

/-- The digest takes what the slot holds. -/
theorem Framed.digest (h : Framed it s) (hstaged : ∀ f ∈ staged, f ∈ slotFiles it s.slot KINDS) :
    ∃ name, digest it staged = some name := by
  obtain ⟨frames, hframes⟩ := isSome_mapM fun f hf => by
    obtain ⟨kind, -, content, hslot, hmem⟩ := mem_slotFiles.mp (hstaged f hf)
    exact (h kind content hslot f hmem).2
  exact ⟨it.sha256 frames.flatten, by rw [UnitArchive.digest, hframes]; rfl⟩

/-- The directories after a publication. -/
def published (attempts : Dict String Files) (name : String) (staged : Files) :
    Dict String Files :=
  if (Dict.get? attempts name).isSome then attempts else Dict.set attempts name staged

/-- The staged files are under the name of their digest, whether or not they were before. -/
theorem mem_published (hsha : Function.Injective it.sha256) {attempts : Dict String Files}
    (hnamed : ∀ e ∈ attempts, digest it e.2 = some e.1) {name : String}
    (hdigest : digest it staged = some name) :
    (name, staged) ∈ published attempts name staged ∧
      (∀ e ∈ attempts, e ∈ published attempts name staged) ∧
      ∀ e ∈ published attempts name staged, digest it e.2 = some e.1 := by
  rw [published]
  cases hget : Dict.get? attempts name with
  | some files =>
    have hmem := Dict.mem_of_get? hget
    have hsame := digest_injective hsha hdigest (hnamed _ hmem)
    exact ⟨hsame ▸ hmem, fun _ he => he, hnamed⟩
  | none =>
    simp only [isSome_none, Bool.false_eq_true, if_false]
    rw [Dict.set_append _ _ _ ((Dict.get?_eq_none_iff _ _).mp hget)]
    refine ⟨by simp, fun e he => mem_append_left _ he, fun e he => ?_⟩
    rcases mem_append.mp he with he | he
    · exact hnamed e he
    · rw [mem_singleton.mp he]
      exact hdigest

/-- The attempt of the slot is published. -/
theorem Inv.publish (hname : ByName it) (hsha : Function.Injective it.sha256) (h : Inv it done s)
    (hresting : Occupied it done s ∨ Retired it done s)
    (hstaged : ∀ f, f ∈ staged ↔ f ∈ slotFiles it s.slot KINDS) {name : String}
    (hdigest : digest it staged = some name) :
    Inv it done { s with
      attempts := published s.attempts name staged
      stage := .appending (outgoingLine it s.history (s.slot .loss)) s.sources } := by
  obtain ⟨hmem, hmono, hnamed⟩ := mem_published hsha h.named hdigest
  have harchived : ∀ m, s.Archived it m →
      State.Archived it { s with
        attempts := published s.attempts name staged
        stage := .appending (outgoingLine it s.history (s.slot .loss)) s.sources } m :=
    fun m ⟨e, he, hfiles⟩ => ⟨e, hmono e he, hfiles⟩
  refine ⟨h.framed, hnamed, h.read, rfl, ?_⟩
  rcases hresting with ⟨before, rfl, hbefore, hlogged, hwritten⟩ | ⟨hnone, hdone, hlogged⟩
  · refine ⟨fun m hm => ?_, hlogged.append hname hwritten, .inl ⟨before, rfl, hwritten⟩⟩
    rcases mem_append.mp hm with hm | hm
    · exact harchived m (hbefore m hm)
    · rw [mem_singleton.mp hm]
      exact ⟨(name, staged), hmem, fun f hf => (hstaged f).mpr hf⟩
  · have hline : outgoingLine it s.history (s.slot .loss) = [] := by
      rw [hnone]
      exact outgoingLine_none _
    refine ⟨fun m hm => harchived m (hdone m hm), ?_, .inr ⟨hnone, hline⟩⟩
    rw [hline, append_nil]
    exact hlogged

/-- A kind of file is cleared; the loss is the first. -/
theorem Inv.clear (h : Inv it done s) {rest : List Kind}
    (hstage : s.stage = .clearing (kind :: rest)) :
    Inv it done { s.setSlot kind none with stage := .clearing rest } := by
  have hfits := h.stage
  rw [hstage] at hfits
  obtain ⟨harchived, hlogged, hslot⟩ := hfits
  refine ⟨h.framed.setSlot nofun, h.named, h.read, harchived, hlogged, .inr ?_⟩
  by_cases hloss : Kind.loss = kind
  · subst hloss
    exact (setSlot_self none : (s.setSlot .loss none).slot .loss = none)
  · refine (setSlot_ne none hloss).trans ?_
    rcases hslot with ⟨before, rest', -, heq, -⟩ | hnone
    · exact absurd (List.cons.inj heq).1.symm hloss
    · exact hnone

/-- A file of the artifacts is removed. -/
theorem Inv.shrink (h : Inv it done s) {rest : List Kind}
    (hstage : s.stage = .clearing (kind :: rest)) {file : Path × Bytes} {files : Files}
    (hdir : s.slot kind = some (.dir (file :: files))) :
    Inv it done { s.setSlot kind (some (.dir files)) with stage := .clearing (kind :: rest) } := by
  have hfits := h.stage
  rw [hstage] at hfits
  obtain ⟨harchived, hlogged, hslot⟩ := hfits
  have hframed : ∀ c, some (Content.dir files) = some c →
      ∀ f ∈ c.files (it.names kind), Takes it f := by
    intro c hc f hf
    cases hc
    exact h.framed kind _ hdir f (mem_cons_of_mem _ hf)
  refine ⟨h.framed.setSlot hframed, h.named, h.read, harchived, hlogged, .inr ?_⟩
  rcases hslot with ⟨before, rest', -, heq, loss, hloss⟩ | hnone
  · rw [(List.cons.inj heq).1, hloss] at hdir
    cases hdir
  · have hne : Kind.loss ≠ kind := by
      rintro rfl
      cases hnone.symm.trans hdir
    exact (setSlot_ne _ hne).trans hnone

/-- What one step of the archive keeps. -/
theorem Inv.advance (hname : ByName it) (hsha : Function.Injective it.sha256) (h : Inv it done s)
    (hs : s.advance it s.stage = some (s', outcome)) : outcome = .running ∧ Inv it done s' := by
  have hfits := h.stage
  cases hstage : s.stage with
  | copying staged rest sources =>
    rw [hstage] at hs hfits
    obtain ⟨hresting, rfl, copied, hsources, rfl⟩ := hfits
    -- the files of the kinds copied so far are staged, those of the rest are not
    cases rest with
    | nil =>
      cases hs
      refine ⟨rfl, h.framed, h.named, h.read, hresting, rfl, fun f => ?_⟩
      rw [append_nil] at hsources
      rw [sortPaths, mem_insertionSort, ← hsources]
      exact mem_slotFiles_sources
    | cons kind rest =>
      have hmem : kind ∈ s.sources := hsources ▸ mem_append_right _ mem_cons_self
      obtain ⟨content, hcontent⟩ := isSome_of_mem_sources hmem
      have hfits : (content.files (it.names kind)).all (fun f => it.fits f.1) = true :=
        all_eq_true.mpr fun f hf => (h.framed kind content hcontent f hf).1
      simp only [State.advance, hcontent, if_pos hfits] at hs
      cases hs
      refine ⟨rfl, h.framed, h.named, h.read, hresting, rfl, copied ++ [kind], ?_, ?_⟩
      · rw [List.append_assoc]
        exact hsources
      · change _ = slotFiles it s.slot (copied ++ [kind])
        simp [slotFiles, hcontent]
  | publishing staged sources =>
    rw [hstage] at hs hfits
    obtain ⟨hresting, rfl, hstaged⟩ := hfits
    obtain ⟨name, hdigest⟩ := h.framed.digest fun f hf => (hstaged f).mp hf
    simp only [State.advance, hdigest] at hs
    cases hs
    exact ⟨rfl, h.publish hname hsha hresting hstaged hdigest⟩
  | appending rest sources =>
    rw [hstage] at hs hfits
    obtain ⟨rfl, harchived, hlogged, hslot⟩ := hfits
    cases rest with
    | nil =>
      cases hs
      rw [append_nil] at hlogged
      refine ⟨rfl, h.framed, h.named, h.read, harchived, hlogged, ?_⟩
      rcases hslot with ⟨before, hdone, hwritten⟩ | ⟨hnone, -⟩
      · obtain ⟨file, hfile⟩ := hwritten
        obtain ⟨rest, hrest⟩ := sources_of_loss hfile
        exact .inl ⟨before, rest, hdone, hrest, file, hfile⟩
      · exact .inr hnone
    -- the history line is appended character by character
    | cons c rest =>
      cases hs
      refine ⟨rfl, h.framed, h.named, h.read, rfl, harchived, ?_, ?_⟩
      · change Logged it ((s.history ++ [c]) ++ rest) done
        rw [List.append_assoc]
        exact hlogged
      · rcases hslot with hwritten | ⟨-, hnil⟩
        · exact .inl hwritten
        · cases hnil
  | clearing sources =>
    rw [hstage] at hs hfits
    cases sources with
    | nil =>
      obtain ⟨harchived, hlogged, ⟨before, rest, -, hnil, -⟩ | hnone⟩ := hfits
      · cases hnil
      · cases hs
        exact ⟨rfl, h.framed, h.named, h.read, hnone, harchived, hlogged⟩
    | cons kind rest =>
      simp only [State.advance] at hs
      split at hs
      · rename_i hdir
        cases hs
        exact ⟨rfl, h.shrink hstage hdir⟩
      · cases hs
        exact ⟨rfl, h.clear hstage⟩
  | idle | working | reduced =>
    rw [hstage] at hs
    cases hs

end Steps

/-! ## Runs keep the evidence -/

section Runs

variable {done : List Measured} {s s' : State} {action : Action it} {outcome : Outcome}

theorem Inv.fresh : Inv it [] .fresh :=
  ⟨nofun, nofun, nofun, .inr ⟨rfl, nofun, Logged.nil⟩⟩

/-- A measurement starts. -/
theorem Inv.measure (h : Inv it done s) (hstage : s.stage = .idle) :
    Inv it done { s with
      stage := if s.sources = [] then .working else .copying [] s.sources s.sources } := by
  have hfits := h.stage
  rw [hstage] at hfits
  refine ⟨h.framed, h.named, h.read, ?_⟩
  by_cases hsources : s.sources = []
  · rcases hfits with ⟨before, -, -, -, loss, hloss⟩ | hretired
    · obtain ⟨rest, hrest⟩ := sources_of_loss hloss
      cases hsources.symm.trans hrest
    · simp only [hsources, if_true]
      exact hretired
  · simp only [hsources, if_false]
    exact ⟨hfits, rfl, [], rfl, rfl⟩

/-- What the worker writes before the loss. -/
theorem Inv.write (h : Inv it done s) (hstage : s.stage = .working) {kind : Kind}
    (hkind : kind ≠ .loss) {content : Option Content}
    (hcontent : ∀ c, content = some c → ∀ f ∈ c.files (it.names kind), Takes it f) :
    Inv it done (s.setSlot kind content) := by
  have hfits := h.stage
  rw [hstage] at hfits
  refine ⟨h.framed.setSlot hcontent, h.named, h.read, ?_⟩
  change (s.stage).Fits it done (s.setSlot kind content)
  rw [hstage]
  exact ⟨(setSlot_ne content hkind.symm).trans hfits.1, hfits.2⟩

/-- The worker writes the loss. -/
theorem Inv.reduce (h : Inv it done s) (hstage : s.stage = .working) (loss : LossFile it)
    (hloss : ∀ f ∈ (Content.file loss.bytes).files (it.names .loss), Takes it f) :
    Inv it done { s.setSlot .loss (some (.file loss.bytes)) with stage := .reduced } := by
  have hfits := h.stage
  rw [hstage] at hfits
  have hself : (s.setSlot .loss (some (.file loss.bytes))).slot .loss =
      some (.file loss.bytes) := setSlot_self _
  refine ⟨h.framed.setSlot fun c hc => ?_, h.named, h.read, ⟨loss, hself⟩, hfits.2⟩
  cases hc
  exact hloss

/-- The worker writes the result. -/
theorem Inv.finish (h : Inv it done s) (hstage : s.stage = .reduced) {bytes : Bytes}
    (hbytes : ∀ f ∈ (Content.file bytes).files (it.names .result), Takes it f) :
    Inv it (done ++ [(s.setSlot .result (some (.file bytes))).slot])
      { s.setSlot .result (some (.file bytes)) with stage := .idle } := by
  have hfits := h.stage
  rw [hstage] at hfits
  obtain ⟨⟨loss, hloss⟩, harchived, hlogged⟩ := hfits
  have hslot : (s.setSlot .result (some (.file bytes))).slot .loss = some (.file loss.bytes) :=
    (setSlot_ne _ (by decide)).trans hloss
  refine ⟨h.framed.setSlot fun c hc => ?_, h.named, fun m hm => ?_,
    .inl ⟨done, rfl, harchived, hlogged, loss, hslot⟩⟩
  · cases hc
    exact hbytes
  · rcases mem_append.mp hm with hm | hm
    · exact h.read m hm
    · rw [mem_singleton.mp hm, hslot, readLoss, loss.reads, bind_some, loss.decodes]
      rfl

/-- A stop between settled states. -/
theorem Inv.stop (h : Inv it done s) (hsettled : s.Settled) :
    Inv it done { s with stage := .idle } := by
  have hfits := h.stage
  refine ⟨h.framed, h.named, h.read, ?_⟩
  cases hstage : s.stage with
  | idle =>
    rw [hstage] at hfits
    exact hfits
  | copying staged rest sources =>
    rw [hstage] at hfits
    exact hfits.1
  | publishing staged sources =>
    rw [hstage] at hfits
    exact hfits.1
  | appending rest sources =>
    rw [hstage] at hfits
    obtain ⟨-, harchived, hlogged, ⟨before, -, loss, hloss⟩ | ⟨hnone, rfl⟩⟩ := hfits
    · simp only [State.Settled, hstage] at hsettled
      cases hloss.symm.trans hsettled
    · rw [append_nil] at hlogged
      exact .inr ⟨hnone, harchived, hlogged⟩
  | clearing sources =>
    rw [hstage] at hfits
    obtain ⟨harchived, hlogged, ⟨before, rest, -, rfl, loss, hloss⟩ | hnone⟩ := hfits
    · simp only [State.Settled, hstage] at hsettled
      cases hloss.symm.trans hsettled
    · exact .inr ⟨hnone, harchived, hlogged⟩
  | working =>
    rw [hstage] at hfits
    exact .inr hfits
  | reduced => simp [State.Settled, hstage] at hsettled

/-- What one action keeps. -/
theorem State.step_inv (hname : ByName it) (hsha : Function.Injective it.sha256)
    (h : Inv it done s) (ho : Orderly s action) (hs : s.step it action = some (s', outcome)) :
    outcome ≠ .raised ∧ Inv it (measured done s' outcome) s' := by
  cases action with
  | measure =>
    cases hstage : s.stage with
    | idle =>
      simp only [State.step, hstage] at hs
      cases hs
      exact ⟨nofun, h.measure hstage⟩
    | _ =>
      simp only [State.step, hstage] at hs
      cases hs
  | advance =>
    obtain ⟨rfl, hinv⟩ := h.advance hname hsha hs
    exact ⟨nofun, hinv⟩
  | write kind content =>
    cases hstage : s.stage with
    | working =>
      simp only [State.step, hstage] at hs
      split at hs
      · cases hs
      · rename_i hkind
        cases hs
        exact ⟨nofun, h.write hstage (fun heq => hkind (.inl heq)) ho⟩
    | _ =>
      simp only [State.step, hstage] at hs
      cases hs
  | reduce loss =>
    cases hstage : s.stage with
    | working =>
      simp only [State.step, hstage] at hs
      cases hs
      exact ⟨nofun, h.reduce hstage loss ho⟩
    | _ =>
      simp only [State.step, hstage] at hs
      cases hs
  | finish bytes =>
    cases hstage : s.stage with
    | reduced =>
      simp only [State.step, hstage] at hs
      cases hs
      exact ⟨nofun, h.finish hstage ho⟩
    | _ =>
      simp only [State.step, hstage] at hs
      cases hs
  | fail => exact ho.elim
  | stop =>
    cases hs
    exact ⟨nofun, h.stop ho⟩

theorem Run.inv (hname : ByName it) (hsha : Function.Injective it.sha256) (h : Run it done s) :
    Inv it done s := by
  induction h with
  | fresh => exact Inv.fresh
  | step _ ho hs ih => exact (State.step_inv hname hsha ih ho hs).2

/-- In a run whose stops fall between settled states, whose artifacts have names that encode and
copies with paths that are not too long, and in which no file operation fails, no evidence is
lost. -/
theorem archive_kept (hname : ByName it) (hsha : Function.Injective it.sha256) (h : Run it done s)
    (ho : Orderly s action) (hs : s.step it action = some (s', outcome)) :
    Kept it (measured done s' outcome) s' outcome := by
  obtain ⟨houtcome, hinv⟩ := State.step_inv hname hsha (h.inv hname hsha) ho hs
  exact hinv.kept houtcome

end Runs

/-! ## A name that does not encode -/

def nameOf (bytes : Bytes) (h : bytes ≠ [] ∧ (47 : UInt8) ∉ bytes ∧ bytes ≠ [46, 46]) : Name :=
  ⟨bytes, h.1, h.2.1, h.2.2⟩

/-- The slot of the first tournament draw; of a profile the identity of its run is read. -/
def firstDraw : Interp Exact String where
  names
    | .loss => nameOf (utf8 "loss.tournament.r0.json") (by decide)
    | .events => nameOf (utf8 "events.tournament.r0.jsonl") (by decide)
    | .result => nameOf (utf8 "result.tournament.r0.json") (by decide)
    | .judgeIo => nameOf (utf8 "judge_io.tournament.r0.jsonl") (by decide)
    | .artifacts => nameOf (utf8 "artifacts.tournament.r0") (by decide)
    | .manifest => nameOf (utf8 "artifacts.tournament.r0.json") (by decide)
  fits path := decide (path.text.length < 4000)
  lossName := "loss.tournament.r0.json"
  floats := Json.exactFloats
  profile fields := (Dict.get? fields "run_id").bind PyValue.str?
  sha256 bytes := String.ofList (bytes.map fun b => Char.ofNat b.toNat)

theorem firstDraw_byName : ByName firstDraw := by
  intro fields
  change (Dict.get? (PyValue.sortKeys fields) "run_id").bind _ = (Dict.get? fields "run_id").bind _
  rw [PyValue.get?_sortKeys]
  cases Dict.get? fields "run_id" with
  | none => rfl
  | some v => cases v <;> rfl

theorem firstDraw_injective : Function.Injective firstDraw.sha256 := by
  have hchar : Function.Injective fun b : UInt8 => Char.ofNat b.toNat := by
    intro a b h
    have hvalid : ∀ n < 2 ^ 8, (Char.ofNat n).toNat = n := by decide +kernel
    have hnat := congrArg Char.toNat h
    simp only [hvalid _ (UInt8.toNat_lt _)] at hnat
    exact UInt8.toNat_inj.mp hnat
  intro a b h
  exact map_injective_iff.mpr hchar (String.ofList_inj.mp h)

/-- The loss file of a profile of one field. -/
def firstLoss : LossFile firstDraw where
  bytes := Text.encode
    (Json.dumps firstDraw.floats .default (.dict [("run_id", .str "r1")]) ++ ['\n'])
  fields := [("run_id", .str "r1")]
  profile := "r1"
  reads := by
    have hkeyed : Json.Keyed (.dict [("run_id", .str "r1")] : PyValue Exact) :=
      ⟨by simp [Dict.keys], trivial, trivial, trivial⟩
    have hloads : Json.loads firstDraw.floats
        ([] ++ Json.dumps firstDraw.floats .default (.dict [("run_id", .str "r1")]) ++ ['\n']) =
        .ok (.dict [("run_id", .str "r1")]) :=
      Json.loads_dumps Json.Layout.plain_default hkeyed (by simp) (by decide)
    rw [nil_append] at hloads
    simp only [lossObject, Text.decode_encode, bind_eq_bind, bind_some, hloads]
    rfl
  keyed := ⟨by simp [Dict.keys], trivial, trivial, trivial⟩
  decodes := rfl

section Follow

variable {done : List Measured} {s s' : State} {outcome outcome' : Outcome}

/-- A run goes on through actions that are orderly in every state. -/
theorem Run.follow {actions : List (Action it)} (h : Run it done s)
    (ho : ∀ action ∈ actions, ∀ s, Orderly s action)
    (hs : s.follow it outcome actions = some (s', outcome')) :
    ∃ later, Run it (done ++ later) s' := by
  induction actions generalizing done s outcome with
  | nil =>
    cases hs
    exact ⟨[], by rwa [append_nil]⟩
  | cons action rest ih =>
    obtain ⟨⟨s₁, outcome₁⟩, hstep, hrest⟩ := Option.bind_eq_some_iff.mp hs
    have h₁ := h.step (ho action mem_cons_self s) hstep
    have hdone : ∃ more, measured done s₁ outcome₁ = done ++ more := by
      cases outcome₁ with
      | measured => exact ⟨[s₁.slot], rfl⟩
      | _ => exact ⟨[], (append_nil done).symm⟩
    obtain ⟨more, hmore⟩ := hdone
    rw [hmore] at h₁
    obtain ⟨later, hrun⟩ := ih h₁ (fun a ha => ho a (mem_cons_of_mem _ ha)) hrest
    exact ⟨more ++ later, by rwa [← List.append_assoc]⟩

/-- The line of the history is appended to its end. -/
theorem State.follow_appending (o : Outcome) {rest : Text} {sources : List Kind}
    (h : s.stage = .appending rest sources) :
    s.follow it o (List.replicate (rest.length + 1) .advance) =
      some ({ s with history := s.history ++ rest, stage := .clearing sources }, .running) := by
  induction rest generalizing s o with
  | nil => simp [List.replicate, State.follow, State.step, State.advance, h, State.go]
  | cons c rest ih =>
    have hstep : s.step it .advance = some ({ s with
        history := s.history ++ [c]
        stage := .appending rest sources }, .running) := by
      simp only [State.step, State.advance, h, State.go]
    rw [length_cons, replicate_succ, State.follow, hstep, bind_eq_bind, bind_some]
    dsimp only
    rw [ih .running rfl, List.append_assoc, singleton_append]

theorem State.step_clearing {kind : Kind} {rest : List Kind} {bytes : Bytes}
    (h : s.stage = .clearing (kind :: rest)) (hfile : s.slot kind = some (.file bytes)) :
    s.step it .advance = some ({ s.setSlot kind none with stage := .clearing rest }, .running) := by
  change s.advance it s.stage = _
  rw [h]
  simp only [State.advance, hfile]
  rfl

end Follow

/-- What is about to be published. -/
def Stage.publishing? : Stage → Option (Files × List Kind)
  | .publishing staged sources => some (staged, sources)
  | .idle | .copying _ _ _ | .appending _ _ | .clearing _ | .working | .reduced => none

/-- The bytes of a file. -/
def Content.bytes? : Content → Option Bytes
  | .file bytes => some bytes
  | .dir _ => none

theorem Stage.publishing?_eq_some {stage : Stage} {published : Files × List Kind}
    (h : stage.publishing? = some published) : stage = .publishing published.1 published.2 := by
  cases stage <;> simp [publishing?] at h
  rw [← h]

theorem Content.bytes?_eq_some {content : Content} {bytes : Bytes}
    (h : content.bytes? = some bytes) : content = .file bytes := by
  cases content <;> simp [bytes?] at h
  rw [h]

/-- A unit is measured again, and the loss of its measurement has been cleared. -/
theorem run_kept_measure : ∃ (done : List Measured) (m : Measured) (s s' : State),
    m ∈ done ∧ (m .loss).isSome = true ∧ s.step firstDraw .advance = some (s', .running) ∧
    s'.slot .loss = none ∧ Kept firstDraw done s' .running := by
  have hrun : (do
      let reduced ← State.fresh.follow firstDraw .stopped [.measure, .reduce firstLoss]
      let measured ← reduced.1.step firstDraw (.finish [])
      let staged ← measured.1.follow firstDraw .stopped (.measure :: List.replicate 3 .advance)
      let published ← staged.1.stage.publishing?
      let loss ← staged.1.slot .loss
      let _ ← loss.bytes?
      some (measured.2, published.2, (measured.1.slot .loss).isSome)) =
        some (.measured, [.loss, .result], true) := by
    decide +kernel
  simp only [bind_eq_bind, bind_eq_some_iff, some.injEq, Prod.mk.injEq] at hrun
  obtain ⟨⟨s₁, o₁⟩, hreduced, ⟨s₂, o₂⟩, hmeasured, ⟨s₃, o₃⟩, hstaged, ⟨staged, sources⟩,
    hpublished, loss, hslot, bytes, hbytes, rfl, rfl, hloss⟩ := hrun
  have hpublishing := Stage.publishing?_eq_some hpublished
  have hfile := hslot.trans <| congrArg some <| Content.bytes?_eq_some hbytes
  have hadvance : ∀ n, ∀ action ∈ List.replicate n (.advance : Action firstDraw),
      ∀ s, Orderly s action := by
    intro n action hmem s
    rw [eq_of_mem_replicate hmem]
    trivial
  have hreduce : ∀ f ∈ (Content.file firstLoss.bytes).files (firstDraw.names .loss),
      Takes firstDraw f := by
    intro f hf
    obtain rfl := mem_singleton.mp hf
    exact ⟨by decide +kernel, by decide +kernel⟩
  have hfinish : ∀ f ∈ (Content.file []).files (firstDraw.names .result), Takes firstDraw f := by
    intro f hf
    obtain rfl := mem_singleton.mp hf
    exact ⟨by decide +kernel, by decide +kernel⟩
  have hfirst : ∀ action ∈ [.measure, .reduce firstLoss], ∀ s, Orderly s action := by
    intro action hmem s
    rcases mem_pair.mp hmem with rfl | rfl
    · trivial
    · exact hreduce
  have hagain : ∀ action ∈ .measure :: List.replicate 3 (.advance : Action firstDraw),
      ∀ s, Orderly s action := by
    intro action hmem s
    rcases mem_cons.mp hmem with rfl | hmem
    · trivial
    · exact hadvance 3 action hmem s
  obtain ⟨done, h₁⟩ := Run.fresh.follow hfirst hreduced
  have hfinished : Orderly s₁ (.finish [] : Action firstDraw) := hfinish
  obtain ⟨later, h₃⟩ := (h₁.step hfinished hmeasured).follow hagain hstaged
  -- the digest takes the files, so that they are published
  have horderly : ∀ s, Orderly s (.advance : Action firstDraw) := fun _ => trivial
  have hpublish : s₃.step firstDraw .advance =
      s₃.advance firstDraw (.publishing staged [.loss, .result]) := by
    rw [← hpublishing]
    rfl
  simp only [State.advance] at hpublish
  split at hpublish
  · exact absurd rfl
      (archive_kept firstDraw_byName firstDraw_injective h₃ (horderly s₃) hpublish).raises
  obtain ⟨last, h₅⟩ := (h₃.step (horderly s₃) hpublish).follow (hadvance _)
    (State.follow_appending .running rfl)
  obtain ⟨all, s₅, hmem, hstage, hslot, hrun⟩ : ∃ (all : List Measured) (s₅ : State),
      s₂.slot ∈ all ∧ s₅.stage = .clearing [.loss, .result] ∧ s₅.slot = s₃.slot ∧
        Run firstDraw all s₅ := by
    refine ⟨_, _, ?_, ?_, ?_, h₅⟩
    · exact mem_append_left _ (mem_append_left _ (mem_append_right _ mem_cons_self))
    · rfl
    · rfl
  have hclear : s₅.step firstDraw .advance = some (_, .running) :=
    State.step_clearing hstage ((congrFun hslot .loss).trans hfile)
  have hcleared : (s₅.setSlot .loss none).slot .loss = none := setSlot_self none
  exact ⟨all, s₂.slot, s₅, _, hmem, hloss, hclear, hcleared,
    archive_kept firstDraw_byName firstDraw_injective hrun (horderly s₅) hclear⟩

/-- A worker is stopped after it has captured a file whose name is not UTF-8, and the unit is
measured again. -/
def undecodable : List (Action firstDraw) :=
  [.measure, .write .artifacts (some (.dir [(⟨[], nameOf [255] (by decide)⟩, [])])), .stop,
    .measure, .advance, .advance, .advance]

/-- The archive raises at a name that does not encode. -/
theorem undecodable_name_raises :
    ¬ ∀ (actions : List (Action firstDraw)) (s : State) (outcome : Outcome),
      State.fresh.follow firstDraw .stopped actions = some (s, outcome) → outcome ≠ .raised := by
  intro h
  have hraised : ((State.fresh.follow firstDraw .stopped undecodable).map Prod.snd) =
      some .raised := by decide
  obtain ⟨⟨s, outcome⟩, hs, rfl⟩ := Option.map_eq_some_iff.mp hraised
  exact h undecodable s _ hs rfl

end UnitArchive
end Zicato
