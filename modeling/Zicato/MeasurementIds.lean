import Mathlib.Logic.Equiv.Basic
import Zicato.JsonAscii
import Zicato.JsonExact
import Zicato.Measurement
import Zicato.TextLines

/-! # Ids decode to what was encoded

Each decoder accepts exactly the spelling its encoder writes, so two draws never share
a run id or an artifact path. -/
open List Option
namespace Zicato

namespace Measurement

/-- `0|[1-9][0-9]*` matches what `str` writes of a natural number. -/
theorem isNumeral_toDigits (n : Nat) : isNumeral (Nat.toDigits 10 n) = true := by
  by_cases hn : n = 0
  · rw [hn]
    rfl
  · have hhead : (Nat.toDigits 10 n).head? ≠ some '0' := fun h => hn (PyInt.head_toDigits h)
    have hne : (Nat.toDigits 10 n).isEmpty = false := by simp
    rw [isNumeral, hne]
    simp [hhead]

/-- A numeral is what `str` writes of its value. -/
theorem toDigits_ofDigitChars {text : Text} (hdigits : ∀ c ∈ text, c.isDigit = true)
    (h : isNumeral text = true) : Nat.toDigits 10 (Nat.ofDigitChars 10 text 0) = text := by
  have hvalue : ∀ c : Char, c.isDigit = true →
      c.toNat - '0'.toNat < 10 ∧ Nat.digitChar (c.toNat - '0'.toNat) = c := by
    intro c hc
    have hrange : 48 ≤ c.toNat ∧ c.toNat ≤ 57 := by
      simpa [Char.isDigit, UInt32.le_iff_toNat_le] using hc
    have hzero : '0'.toNat = 48 := rfl
    refine ⟨by omega, ?_⟩
    have hchar : ∀ k : Nat, k < 10 → Nat.digitChar k = Char.ofNat (48 + k) := by decide
    rw [hchar _ (by omega), show 48 + (c.toNat - '0'.toNat) = c.toNat by omega, Char.ofNat_toNat]
  induction text using reverseRecOn with
  | nil => cases h
  | append_singleton text c ih =>
    obtain ⟨hlt, hchar⟩ := hvalue c (hdigits c (by simp))
    rw [Nat.ofDigitChars_append, Nat.ofDigitChars_cons, Nat.ofDigitChars_nil]
    cases text with
    | nil =>
      rw [Nat.ofDigitChars_nil, Nat.mul_zero, Nat.zero_add, Nat.toDigits_of_lt_base hlt, hchar]
      rfl
    | cons a rest =>
      have hhead : a ≠ '0' := by
        rintro rfl
        simp [isNumeral] at h
      have hpref := ih (fun x hx => hdigits x (mem_append_left _ hx)) (by simp [isNumeral, hhead])
      have hpos : 0 < Nat.ofDigitChars 10 (a :: rest) 0 := by
        refine Nat.pos_of_ne_zero fun hzero => hhead ?_
        rw [hzero] at hpref
        exact (List.cons.inj hpref).1.symm
      rw [← Nat.toDigits_append_toDigits (by decide) hpos hlt, hpref,
        Nat.toDigits_of_lt_base hlt, hchar]

/-! ## Purposes -/

theorem of?_text (p : MeasurementPurpose) : MeasurementPurpose.of? p.text = some p := by
  cases p <;> decide

example : MeasurementPurpose.of? "candidate_screen".toList = some .screen := by decide +kernel

theorem text_of? {text : Text} {p : MeasurementPurpose}
    (h : MeasurementPurpose.of? text = some p) : p.text = text := by
  have hfound := find?_some h
  simpa using hfound

theorem purpose_text_inj {p q : MeasurementPurpose} (h : p.text = q.text) : p = q := by
  have hp := of?_text p
  rw [h, of?_text q] at hp
  exact (some.inj hp).symm

theorem purpose_chars (p : MeasurementPurpose) :
    p.text ≠ [] ∧ ∀ c ∈ p.text, isPurposeChar c = true := by
  cases p <;> decide

theorem notMem_of_class {cls : Char → Bool} {text : Text} (h : ∀ c ∈ text, cls c = true) {c : Char}
    (hc : cls c = false) : c ∉ text := by
  intro hmem
  rw [h c hmem] at hc
  cases hc

theorem notMem_purpose {c : Char} (hc : isPurposeChar c = false) (p : MeasurementPurpose) :
    c ∉ p.text := notMem_of_class (purpose_chars p).2 hc

theorem digits_isDigit (n : Nat) : ∀ c ∈ Nat.toDigits 10 n, c.isDigit = true := fun _ hc =>
  Nat.isDigit_of_mem_toDigits (by decide) (by decide) hc

theorem append_cons_inj {x y a b : Text} {c : Char} (hx : c ∉ x) (hy : c ∉ y)
    (h : x ++ c :: a = y ++ c :: b) : x = y ∧ a = b := by
  have hsplit := congrArg (Lines.split c) h
  rw [Lines.split_piece hx, Lines.split_piece hy] at hsplit
  obtain rfl := (List.cons.inj hsplit).1
  exact ⟨rfl, (List.cons.inj (append_cancel_left h)).2⟩

theorem toDigits_inj {a b : Nat} (h : Nat.toDigits 10 a = Nat.toDigits 10 b) : a = b := by
  rw [← Nat.ofDigitChars_ten_toDigits (n := a), h, Nat.ofDigitChars_ten_toDigits]

/-! ## Seeds -/

section Seeds

theorem toList_seed : "seed-".toList = ['s', 'e', 'e', 'd', '-'] ∧
    "seed-none".toList = ['s', 'e', 'e', 'd', '-', 'n', 'o', 'n', 'e'] :=
  ⟨String.toList_ofList, String.toList_ofList⟩

theorem seedQualifier_none : seedQualifier (.known none) = "seed-none".toList := rfl

theorem seedQualifier_some (n : Int) :
    seedQualifier (.known (some n)) = "seed-".toList ++ PyInt.str n := rfl

theorem notMem_seedQualifier {c : Char} (hc : c ∈ ['.', '/']) (seed : Option Int) :
    c ∉ seedQualifier (.known seed) := by
  have hpref : ∀ c ∈ ['.', '/'], c ∉ "seed-".toList ∧ c ∉ "seed-none".toList ∧
      c.isDigit = false ∧ c ≠ '-' := by decide
  obtain ⟨hplain, hnone, hdigit, hminus⟩ := hpref c hc
  cases seed with
  | none => exact hnone
  | some n => exact fun h => (mem_append.mp h).elim hplain (PyInt.notMem_str hdigit hminus n)

/-- Different seeds have different qualifiers. -/
theorem seedQualifier_inj {s s' : Option Int}
    (h : seedQualifier (.known s) = seedQualifier (.known s')) : s = s' := by
  have hne : ∀ n : Int, "seed-".toList ++ PyInt.str n ≠ "seed-none".toList := by
    intro n heq
    rw [toList_seed.1, toList_seed.2] at heq
    have hstr : PyInt.str n = ['n', 'o', 'n', 'e'] := append_cancel_left heq
    exact PyInt.notMem_str (by decide) (by decide) n (hstr ▸ mem_cons_self)
  cases s with
  | none =>
    cases s' with
    | none => rfl
    | some n => exact absurd h.symm (hne n)
  | some n =>
    cases s' with
    | none => exact absurd h (hne n)
    | some n' => exact congrArg some (PyInt.str_inj (append_cancel_left h))

variable {rt : Runtime}

/-- A qualifier reads back as its seed. -/
theorem seedFromQualifier_qualifier (hd : PyInt.ReadsAscii rt.digit) (seed : Option Int) :
    seedFromQualifier rt (seedQualifier (.known seed)) = .ok seed := by
  cases seed with
  | none =>
    rw [seedFromQualifier]
    exact if_pos rfl
  | some n =>
    have hne : seedQualifier (.known (some n)) ≠ "seed-none".toList := by
      intro h
      have hnone : some n = none := seedQualifier_inj h
      cases hnone
    have hafter : Text.after? "seed-" (seedQualifier (.known (some n))) = some (PyInt.str n) :=
      List.dropPrefix?_eq_some.mpr rfl
    rw [seedFromQualifier, if_neg hne, hafter]
    simp only [PyInt.ofText_str hd, if_true]

/-- The qualifier that is read is the one that is written. -/
theorem qualifier_of_seedFromQualifier {value : Text} {seed : Option Int}
    (h : seedFromQualifier rt value = .ok seed) : value = seedQualifier (.known seed) := by
  unfold seedFromQualifier at h
  dsimp only at h
  split at h
  · rename_i hnone
    rw [← Except.ok.inj h, hnone]
    rfl
  · split at h
    · cases h
    · split at h
      · cases h
      · split at h
        · rename_i heq
          rw [← Except.ok.inj h, heq]
        · cases h

end Seeds

/-! ## Artifact names -/

section Names

theorem takeWhile_append_cons {cls : Char → Bool} {text : Text} {c : Char}
    (h : ∀ x ∈ text, cls x = true) (hc : cls c = false) (rest : Text) :
    (text ++ c :: rest).takeWhile cls = text ∧ (text ++ c :: rest).dropWhile cls = c :: rest := by
  constructor
  · rw [takeWhile_append_of_pos h, takeWhile_cons_of_neg (by simp [hc]), append_nil]
  · rw [dropWhile_append_of_pos h, dropWhile_cons_of_neg (by simp [hc])]

/-- The pattern matches exactly the names of its form. -/
theorem matchName_eq_some {artifact name purpose number : Text} :
    matchName artifact name = some (purpose, number) ↔
      name = artifact ++ '.' :: (purpose ++ '.' :: 'r' :: (number ++ '.' :: extension artifact)) ∧
        purpose ≠ [] ∧ (∀ c ∈ purpose, isPurposeChar c = true) ∧
        (∀ c ∈ number, c.isDigit = true) ∧ isNumeral number = true := by
  have hr : ".r".toList = ['.', 'r'] := String.toList_ofList
  constructor
  · intro h
    obtain ⟨rest, hrest, h⟩ := bind_eq_some_iff.mp h
    obtain ⟨rest', hrest', h⟩ := bind_eq_some_iff.mp h
    rw [List.dropPrefix?_eq_some] at hrest hrest'
    rw [hr] at hrest'
    dsimp only at h
    split at h
    · rename_i hpassed
      obtain ⟨hne, hnumeral, hextension⟩ := hpassed
      obtain ⟨rfl, rfl⟩ := Prod.ext_iff.mp (some.inj h)
      refine ⟨?_, hne, fun c hc => mem_takeWhile_imp hc, fun c hc => mem_takeWhile_imp hc,
        hnumeral⟩
      have hsplit : rest = rest.takeWhile isPurposeChar ++ '.' :: 'r' ::
          (rest'.takeWhile (·.isDigit) ++ '.' :: extension artifact) := by
        rw [← hextension, takeWhile_append_dropWhile]
        conv_lhs => rw [← takeWhile_append_dropWhile (p := isPurposeChar) (l := rest), hrest']
        rfl
      rw [hrest, List.append_assoc, singleton_append, ← hsplit]
    · cases h
  · rintro ⟨rfl, hne, hpurpose, hnumber, hnumeral⟩
    have hfirst : dropPrefix? (artifact ++ '.' :: (purpose ++ '.' :: 'r' ::
        (number ++ '.' :: extension artifact))) (artifact ++ ['.']) =
          some (purpose ++ '.' :: 'r' :: (number ++ '.' :: extension artifact)) := by
      rw [List.dropPrefix?_eq_some]
      simp
    obtain ⟨htake, hdrop⟩ := takeWhile_append_cons hpurpose (c := '.') (by decide)
      ('r' :: (number ++ '.' :: extension artifact))
    obtain ⟨htake', hdrop'⟩ := takeWhile_append_cons hnumber (c := '.') (by decide)
      (extension artifact)
    have hsecond : dropPrefix? ('.' :: 'r' :: (number ++ '.' :: extension artifact)) ".r".toList =
        some (number ++ '.' :: extension artifact) := by
      rw [List.dropPrefix?_eq_some, hr]
      rfl
    rw [matchName, hfirst]
    simp only [bind_eq_bind, bind_some, hdrop, hsecond, htake, htake', hdrop']
    rw [if_pos ⟨hne, hnumeral, trivial⟩]

variable {rt : Runtime} {artifact : Text}

/-- A name reads back as its measurement, less the seed. -/
theorem artifactMeasurement_unitArtifactName (hd : PyInt.ReadsAscii rt.digit) (m : MeasurementDraw) :
    artifactMeasurement rt (unitArtifactName artifact m) artifact =
      some { m with baseSeed := none } := by
  have hmatch : matchName artifact (unitArtifactName artifact m) =
      some (m.purpose.text, Nat.toDigits 10 m.draw) :=
    matchName_eq_some.mpr ⟨rfl, (purpose_chars m.purpose).1, (purpose_chars m.purpose).2,
      digits_isDigit m.draw, isNumeral_toDigits m.draw⟩
  have hread : PyInt.ofText rt.digit (Nat.toDigits 10 m.draw) = some (m.draw : Int) :=
    PyInt.ofText_str hd (.ofNat m.draw)
  rw [artifactMeasurement, hmatch]
  simp only [bind_eq_bind, bind_some, of?_text, hread]
  rfl

/-- A name that is read is the one that is written. -/
theorem unitArtifactName_of_artifactMeasurement (hd : PyInt.ReadsAscii rt.digit) {name : Text}
    {m : MeasurementDraw} (h : artifactMeasurement rt name artifact = some m) :
    name = unitArtifactName artifact m := by
  obtain ⟨⟨purpose, number⟩, hmatch, h⟩ := bind_eq_some_iff.mp h
  obtain ⟨p, hp, h⟩ := bind_eq_some_iff.mp h
  obtain ⟨draw, hdraw, h⟩ := bind_eq_some_iff.mp h
  obtain ⟨hname, -, -, hdigits, hnumeral⟩ := matchName_eq_some.mp hmatch
  have hnumber := toDigits_ofDigitChars hdigits hnumeral
  have hread : PyInt.ofText rt.digit number = some (Nat.ofDigitChars 10 number 0 : Int) := by
    have hstr := PyInt.ofText_str hd (.ofNat (Nat.ofDigitChars 10 number 0))
    rwa [PyInt.str, hnumber] at hstr
  obtain rfl := some.inj (hdraw.symm.trans hread)
  have hm : m = ⟨p, Nat.ofDigitChars 10 number 0, none⟩ := (some.inj h).symm
  rw [hname, hm, unitArtifactName, hnumber, text_of? hp]

end Names

/-! ## Artifact paths -/

section PathFacts

variable {rt : Runtime} {artifact : Text} {runDir path : PurePath}

theorem join_of_plain {text : Text} (p : PurePath) (hslash : '/' ∉ text) (hne : text ≠ [])
    (hdot : text ≠ ['.']) : p.join text = { p with parts := p.parts ++ [text] } := by
  have hhead : text.head? ≠ some '/' := fun h => hslash (mem_of_mem_head? h)
  have hsegments : PurePath.segments text = [text] := by
    rw [PurePath.segments, Lines.split_last hslash]
    simp [hne, hdot]
  rw [PurePath.join, if_neg hhead, hsegments]

/-- A name without a dot or a slash. -/
def Plain (artifact : Text) : Prop := '.' ∉ artifact ∧ '/' ∉ artifact

/-- The path of an artifact. -/
theorem measurementArtifactPath_eq (hslash : '/' ∉ artifact) (runDir : PurePath)
    (m : MeasurementDraw) : measurementArtifactPath runDir artifact m =
      { runDir with parts := runDir.parts ++ [seedQualifier (.known m.baseSeed),
        unitArtifactName artifact m] } := by
  have hseed : seedQualifier (.known m.baseSeed) ≠ [] ∧ seedQualifier (.known m.baseSeed) ≠ ['.'] := by
    have hhead : (seedQualifier (.known m.baseSeed)).head? = some 's' := by
      cases m.baseSeed with
      | none =>
        rw [seedQualifier_none, toList_seed.2]
        rfl
      | some n =>
        rw [seedQualifier_some, toList_seed.1]
        rfl
    constructor <;> intro h <;> rw [h] at hhead <;> cases hhead
  have hextension : '/' ∉ extension artifact ∧ 1 ≤ (extension artifact).length := by
    unfold extension
    split <;> decide
  have hname : '/' ∉ unitArtifactName artifact m := by
    simp only [unitArtifactName, mem_append, mem_cons, not_or]
    exact ⟨hslash, by decide, notMem_purpose (by decide) _, by decide, by decide,
      notMem_of_class (digits_isDigit m.draw) (by decide), by decide, hextension.1⟩
  have hlength : 2 ≤ (unitArtifactName artifact m).length := by
    simp only [unitArtifactName, length_append, length_cons]
    omega
  rw [measurementArtifactPath, seedOf,
    join_of_plain _ (notMem_seedQualifier (by simp) _) hseed.1 hseed.2, join_of_plain _ hname]
  · simp
  · rintro h
    rw [h] at hlength
    exact absurd hlength (by decide)
  · rintro h
    rw [h] at hlength
    exact absurd hlength (by decide)

/-- A recorded measurement is the one of the path. -/
theorem recordedArtifactMeasurement_path (hd : PyInt.ReadsAscii rt.digit) (hslash : '/' ∉ artifact)
    (runDir : PurePath) (m : MeasurementDraw) :
    recordedArtifactMeasurement rt runDir (measurementArtifactPath runDir artifact m) (some m) artifact =
      .ok m := by
  have hpath := measurementArtifactPath_eq hslash runDir m
  have hname : (measurementArtifactPath runDir artifact m).name = unitArtifactName artifact m := by
    rw [hpath, PurePath.name]
    simp
  have hparent : (measurementArtifactPath runDir artifact m).parent =
      { runDir with parts := runDir.parts ++ [seedQualifier (.known m.baseSeed)] } := by
    rw [hpath, PurePath.parent]
    simp
  have hseed : (measurementArtifactPath runDir artifact m).parent.name =
      seedQualifier (.known m.baseSeed) := by
    rw [hparent, PurePath.name]
    simp
  have hrun : (measurementArtifactPath runDir artifact m).parent.parent = runDir := by
    rw [hparent, PurePath.parent]
    simp
  rw [recordedArtifactMeasurement, hname, artifactMeasurement_unitArtifactName hd]
  simp only
  rw [if_neg (not_not_intro hrun), hseed, seedFromQualifier_qualifier hd, ok_bind]
  exact if_pos rfl

theorem parts_eq_of_name {p : PurePath} {name : Text} (h : p.name = name) (hne : name ≠ []) :
    p.parts = p.parent.parts ++ [name] := by
  have hlast : p.parts.getLast? = some name := by
    rw [PurePath.name] at h
    cases hget : p.parts.getLast? with
    | none =>
      rw [hget] at h
      exact absurd h.symm hne
    | some last =>
      rw [hget] at h
      exact congrArg some h
  exact (dropLast_append_getLast? name hlast).symm

/-- A recorded draw is accepted only beside the artifact of its own path. -/
theorem path_of_recordedArtifactMeasurement (hd : PyInt.ReadsAscii rt.digit)
    (hslash : '/' ∉ artifact) {measurement : Option MeasurementDraw} {m : MeasurementDraw}
    (h : recordedArtifactMeasurement rt runDir path measurement artifact = .ok m) :
    measurement = some m ∧ path = measurementArtifactPath runDir artifact m := by
  unfold recordedArtifactMeasurement at h
  cases hname : artifactMeasurement rt path.name artifact with
  | none =>
    rw [hname] at h
    cases h
  | some expected =>
    rw [hname] at h
    simp only at h
    split at h
    · cases h
    · rename_i hrun
      obtain ⟨seed, hseed, h⟩ := bind_eq_ok h
      split at h
      · rename_i hmeasurement
        have hm : { expected with baseSeed := seed } = m := Except.ok.inj h
        subst hm
        refine ⟨hmeasurement, ?_⟩
        have hfile := unitArtifactName_of_artifactMeasurement hd hname
        have hdir := qualifier_of_seedFromQualifier hseed
        have hfileNe : unitArtifactName artifact expected ≠ [] := by
          rw [unitArtifactName]
          exact append_ne_nil_of_right_ne_nil _ (cons_ne_nil _ _)
        have hdirNe : seedQualifier (.known seed) ≠ [] := by
          cases seed with
          | none =>
            rw [seedQualifier_none, toList_seed.2]
            exact cons_ne_nil _ _
          | some n =>
            rw [seedQualifier_some, toList_seed.1]
            exact cons_ne_nil _ _
        have hparts := parts_eq_of_name hfile hfileNe
        rw [parts_eq_of_name hdir hdirNe, not_not.mp hrun, List.append_assoc] at hparts
        rw [measurementArtifactPath_eq hslash]
        obtain ⟨root, parts⟩ := path
        exact PurePath.mk.injEq .. ▸ ⟨congrArg PurePath.root (not_not.mp hrun), hparts⟩
      · cases h

theorem unitArtifactName_inj {artifact artifact' : Text} (hdot : '.' ∉ artifact)
    (hdot' : '.' ∉ artifact') {m m' : MeasurementDraw}
    (h : unitArtifactName artifact m = unitArtifactName artifact' m') :
    artifact = artifact' ∧ m.purpose = m'.purpose ∧ m.draw = m'.draw := by
  have hpurpose := fun p : MeasurementPurpose => notMem_purpose (c := '.') (by decide) p
  have hdraw := fun n : Nat => notMem_of_class (digits_isDigit n) (c := '.') (by decide)
  obtain ⟨hartifact, h⟩ := append_cons_inj hdot hdot' h
  obtain ⟨htext, h⟩ := append_cons_inj (hpurpose _) (hpurpose _) h
  obtain ⟨hdigits, -⟩ := append_cons_inj (hdraw _) (hdraw _) (List.cons.inj h).2
  exact ⟨hartifact, purpose_text_inj htext, toDigits_inj hdigits⟩

/-- Distinct draws, and distinct artifacts, have distinct paths. -/
theorem measurementArtifactPath_inj {artifact' : Text} {runDir' : PurePath} {m m' : MeasurementDraw}
    (hplain : Plain artifact) (hplain' : Plain artifact')
    (h : measurementArtifactPath runDir artifact m = measurementArtifactPath runDir' artifact' m') :
    runDir = runDir' ∧ artifact = artifact' ∧ m = m' := by
  rw [measurementArtifactPath_eq hplain.2, measurementArtifactPath_eq hplain'.2,
    PurePath.mk.injEq] at h
  obtain ⟨hparts, hlast⟩ := append_inj' h.2 rfl
  obtain ⟨hseed, hname⟩ := cons_eq_cons.mp hlast
  obtain ⟨hartifact, hpurpose, hdraw⟩ := unitArtifactName_inj hplain.1 hplain'.1
    (List.cons.inj hname).1
  obtain ⟨root, parts⟩ := runDir
  obtain ⟨root', parts'⟩ := runDir'
  obtain ⟨purpose, draw, seed⟩ := m
  obtain ⟨purpose', draw', seed'⟩ := m'
  refine ⟨?_, hartifact, ?_⟩
  · rw [PurePath.mk.injEq]
    exact ⟨h.1, hparts⟩
  · rw [MeasurementDraw.mk.injEq]
    exact ⟨hpurpose, hdraw, seedQualifier_inj hseed⟩

end PathFacts

/-! ## Run ids -/

section RunIds

variable {rt : Runtime}

theorem splitMax_cons {text : Text} (h : '.' ∉ text) (n : Nat) (rest : Text) :
    splitMax '.' (n + 1) (text ++ '.' :: rest) = text :: splitMax '.' n rest := by
  have hclass : ∀ c ∈ text, (c != '.') = true := by
    intro c hc
    rw [bne_iff_ne]
    rintro rfl
    exact h hc
  obtain ⟨htake, hdrop⟩ := takeWhile_append_cons hclass (c := '.') (by decide) rest
  rw [splitMax, hdrop, htake]

/-- A run id reads back as its measurement. -/
theorem measurementFromRunId_runIdForUnit (hd : PyInt.ReadsAscii rt.digit)
    (generationId entryId epochId : Text) (m : MeasurementDraw) :
    measurementFromRunId rt generationId entryId
      (runIdForUnit rt generationId entryId m epochId) epochId = some m := by
  have hsplit : splitMax '.' 3 (runIdForUnit rt generationId entryId m epochId) =
      [seedQualifier (.known m.baseSeed), m.purpose.text, 'r' :: Nat.toDigits 10 m.draw,
        rt.sha256 (rt.dumps [epochId, generationId, entryId])] := by
    have hdraw : '.' ∉ 'r' :: Nat.toDigits 10 m.draw :=
      not_mem_cons_of_ne_of_not_mem (by decide)
        (notMem_of_class (digits_isDigit m.draw) (by decide))
    rw [runIdForUnit, seedOf, splitMax_cons (notMem_seedQualifier (by simp) _),
      splitMax_cons (notMem_purpose (by decide) _), ← cons_append, splitMax_cons hdraw]
    rfl
  have hafter : Text.after? "r" ('r' :: Nat.toDigits 10 m.draw) = some (Nat.toDigits 10 m.draw) :=
    List.dropPrefix?_eq_some.mpr rfl
  have hread : PyInt.ofText rt.digit (Nat.toDigits 10 m.draw) = some (m.draw : Int) :=
    PyInt.ofText_str hd (.ofNat m.draw)
  rw [measurementFromRunId, hsplit]
  simp only [hafter, getD_some, of?_text, hread, seedFromQualifier_qualifier hd,
    bind_eq_bind, bind_some, Except.toOption]
  exact if_pos rfl

/-- A run id that is read is the one of its measurement. -/
theorem measurementFromRunId_eq_some (hd : PyInt.ReadsAscii rt.digit)
    {generationId entryId epochId runId : Text} {m : MeasurementDraw} :
    measurementFromRunId rt generationId entryId runId epochId = some m ↔
      runId = runIdForUnit rt generationId entryId m epochId := by
  constructor
  · intro h
    unfold measurementFromRunId at h
    split at h
    · obtain ⟨purpose, -, h⟩ := bind_eq_some_iff.mp h
      obtain ⟨draw, -, h⟩ := bind_eq_some_iff.mp h
      obtain ⟨seed, -, h⟩ := bind_eq_some_iff.mp h
      obtain ⟨m', -, h⟩ := bind_eq_some_iff.mp h
      split at h
      · rename_i heq
        rw [heq, some.inj h]
      · cases h
    · cases h
  · rintro rfl
    exact measurementFromRunId_runIdForUnit hd generationId entryId epochId m

/-- Distinct draws of any entries have distinct run ids. -/
theorem runIdForUnit_inj {generationId entryId epochId generationId' entryId' epochId' : Text}
    {m m' : MeasurementDraw} (hsha : Function.Injective rt.sha256)
    (hdumps : Function.Injective rt.dumps)
    (h : runIdForUnit rt generationId entryId m epochId =
      runIdForUnit rt generationId' entryId' m' epochId') :
    m = m' ∧ epochId = epochId' ∧ generationId = generationId' ∧ entryId = entryId' := by
  have hpurpose := fun p : MeasurementPurpose => notMem_purpose (c := '.') (by decide) p
  have hdraw := fun n : Nat => notMem_of_class (digits_isDigit n) (c := '.') (by decide)
  obtain ⟨hseed, h⟩ := append_cons_inj (notMem_seedQualifier (by simp) _)
    (notMem_seedQualifier (by simp) _) h
  obtain ⟨htext, h⟩ := append_cons_inj (hpurpose _) (hpurpose _) h
  obtain ⟨hdigits, h⟩ := append_cons_inj (hdraw _) (hdraw _) (List.cons.inj h).2
  have hcoordinates := hdumps (hsha h)
  simp only [List.cons.injEq, and_true] at hcoordinates
  refine ⟨?_, hcoordinates⟩
  obtain ⟨purpose, draw, seed⟩ := m
  obtain ⟨purpose', draw', seed'⟩ := m'
  rw [MeasurementDraw.mk.injEq]
  exact ⟨purpose_text_inj htext, toDigits_inj hdigits, seedQualifier_inj hseed⟩

end RunIds

/-- A measurement survives JSON. -/
theorem fromJson_toJson {F : Type} (m : MeasurementDraw) :
    fromJson (toJson m : PyValue F) = .ok m := by
  obtain ⟨purpose, draw, seed⟩ := m
  have hpurpose : purposeOf (.str purpose.value : PyValue F) = .ok purpose := by
    have hof := of?_text purpose
    rw [MeasurementPurpose.text] at hof
    rw [purposeOf, hof]
  have hkeys : sameKeys [("purpose", (.str purpose.value : PyValue F)), ("draw", .int draw),
      ("base_seed", (seed.map PyValue.int).getD .none)] ["purpose", "draw", "base_seed"] = true := by
    have hnames : Dict.keys [("purpose", (.str purpose.value : PyValue F)), ("draw", .int draw),
        ("base_seed", (seed.map PyValue.int).getD .none)] = ["purpose", "draw", "base_seed"] := rfl
    rw [sameKeys, hnames]
    decide
  rw [toJson, fromJson, if_pos hkeys]
  have hget : Dict.getD [("purpose", (.str purpose.value : PyValue F)), ("draw", .int draw),
      ("base_seed", (seed.map PyValue.int).getD .none)] "purpose" .none = .str purpose.value := rfl
  rw [hget, hpurpose, ok_bind]
  cases seed <;> rfl

/-! ## All of them -/

/-- What the ids use: digits of ASCII are read as such, and neither the encoding nor the
hash has two inputs with one output. -/
structure LawfulRuntime (rt : Runtime) : Prop where
  digits : PyInt.ReadsAscii rt.digit
  dumps : Function.Injective rt.dumps
  sha256 : Function.Injective rt.sha256

/-- **Measurement ids decode exactly what was encoded**; the name of an artifact alone does
not tell the seed. -/
theorem measurement_ids_decode {F : Type} {rt : Runtime} (h : LawfulRuntime rt) :
    (∀ generationId entryId epochId runId m,
      measurementFromRunId rt generationId entryId runId epochId = some m ↔
        runId = runIdForUnit rt generationId entryId m epochId) ∧
    (∀ artifact m, artifactMeasurement rt (unitArtifactName artifact m) artifact =
      some { m with baseSeed := none }) ∧
    (∀ runDir artifact m, Plain artifact →
      recordedArtifactMeasurement rt runDir (measurementArtifactPath runDir artifact m) (some m)
        artifact = .ok m) ∧
    (∀ runDir path measurement artifact m, Plain artifact →
      recordedArtifactMeasurement rt runDir path measurement artifact = .ok m →
        measurement = some m ∧ path = measurementArtifactPath runDir artifact m) ∧
    (∀ runDir runDir' artifact artifact' m m', Plain artifact → Plain artifact' →
      measurementArtifactPath runDir artifact m = measurementArtifactPath runDir' artifact' m' →
        runDir = runDir' ∧ artifact = artifact' ∧ m = m') ∧
    (∀ generationId generationId' entryId entryId' epochId epochId' m m',
      runIdForUnit rt generationId entryId m epochId =
          runIdForUnit rt generationId' entryId' m' epochId' →
        m = m' ∧ epochId = epochId' ∧ generationId = generationId' ∧ entryId = entryId') ∧
    (∀ m, fromJson (toJson m : PyValue F) = .ok m) := by
  refine ⟨?_, ?_, ?_, ?_, ?_, ?_, fromJson_toJson⟩
  · exact fun _ _ _ _ _ => measurementFromRunId_eq_some h.digits
  · exact fun _ m => artifactMeasurement_unitArtifactName h.digits m
  · exact fun runDir _ m hplain => recordedArtifactMeasurement_path h.digits hplain.2 runDir m
  · exact fun _ _ _ _ _ hplain hok => path_of_recordedArtifactMeasurement h.digits hplain.2 hok
  · exact fun _ _ _ _ _ _ hplain hplain' heq => measurementArtifactPath_inj hplain hplain' heq
  · exact fun _ _ _ _ _ _ _ _ heq => runIdForUnit_inj h.sha256 h.dumps heq

/-- The list that is hashed. -/
def coordinates (texts : List Text) : PyValue Exact :=
  .list (texts.map fun text => .str (String.ofList text))

theorem keyed_coordinates (texts : List Text) : Json.Keyed (coordinates texts) := by
  rw [coordinates, Json.Keyed, PyValue.HasKeys]
  induction texts with
  | nil => trivial
  | cons text rest ih => exact ⟨trivial, ih⟩

/-- The coordinates as JSON. -/
def plainCoordinates : Text := "[\"a\", \"v1\", \"e1\"]".toList

/-- Their digest. -/
def plainDigest : Text :=
  "eae15d0ed66ec842d9ab4d7251a7a807c2081ce8ae0a9fcac169b398bfe8a6ca".toList

/-- The texts of `json`, and the digest of one of them. -/
def plainRuntime : Runtime where
  digit c := if c.isDigit then some (c.toNat - '0'.toNat) else none
  dumps texts := Json.dumps Json.exactFloats .default (coordinates texts)
  sha256 := Equiv.swap plainCoordinates plainDigest
  repr text := String.ofList text

/-- The demonstrated runtime is lawful. -/
theorem lawful_plainRuntime : LawfulRuntime plainRuntime where
  digits c hc := if_pos hc
  dumps := by
    intro texts texts' h
    have hread : ∀ texts, Json.loads Json.exactFloats ([] ++ plainRuntime.dumps texts ++ []) =
        .ok (coordinates texts) := fun texts =>
      Json.loads_dumps Json.Layout.plain_default (keyed_coordinates texts)
        (by simp) (by simp)
    have hcoordinates : coordinates texts = coordinates texts' := by
      have hloads := hread texts
      rw [h, hread texts'] at hloads
      exact (Except.ok.inj hloads).symm
    refine map_injective_iff.mpr ?_ (PyValue.list.inj hcoordinates)
    exact fun x y hxy => String.ofList_inj.mp (PyValue.str.inj hxy)
  sha256 := (Equiv.swap _ _).injective

example : plainRuntime.sha256 (plainRuntime.dumps ["a".toList, "v1".toList, "e1".toList]) =
    plainDigest := by decide +kernel

theorem measurement_ids_decode_plain : LawfulRuntime plainRuntime ∧
    measurementFromRunId plainRuntime "v1".toList "e1".toList
      (runIdForUnit plainRuntime "v1".toList "e1".toList ⟨.screen, 3, some (-5)⟩ "a".toList)
      "a".toList = some ⟨.screen, 3, some (-5)⟩ :=
  ⟨lawful_plainRuntime, ((@measurement_ids_decode Nat _ lawful_plainRuntime).1 _ _ _ _ _).mpr rfl⟩

/-- A seeded draw is not what its artifact name decodes to. -/
theorem artifact_name_loses_seed :
    artifactMeasurement plainRuntime (unitArtifactName "loss".toList ⟨.tournament, 0, some 5⟩)
      "loss".toList ≠ some ⟨.tournament, 0, some 5⟩ := by
  rw [artifactMeasurement_unitArtifactName lawful_plainRuntime.digits]
  decide

end Measurement

end Zicato
