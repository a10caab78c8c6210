import Mathlib.Tactic.NormNum
import Zicato.CodecRetraction
import Zicato.ScoringDocument

/-! # The defaults of the scoring document

Each declared default is a value of its own field, so that the complete form of a document
that leaves fields out is read as what it was written from. -/
open List Zicato.Dict
namespace Zicato.ScoringDocument

open Codec

variable {F : Type} [PyArith F] {it : Interp F}

/-- What the defaults of the declarations need of the float literals. -/
class LawfulLiterals (F : Type) [PyArith F] : Prop where
  finite : ∀ q : Rat, |q| ≤ 100 → PyFloat.isfinite (PyArith.lit q : F) = true
  not_lt : ∀ p q : Rat, p ≤ q → PyFloat.lt (PyArith.lit q : F) (PyArith.lit p) = false
  ne : ∀ p q : Rat, |p| ≤ 100 → |q| ≤ 100 → 1 / 10 ≤ |p - q| →
    PyFloat.eq (PyArith.lit p : F) (PyArith.lit q) = false

/-! ## Checks -/

omit [PyArith F] in
theorem firstError_eq_none_iff {checks : List (Option PostError)} :
    firstError checks = none ↔ ∀ c ∈ checks, c = none := by
  rw [firstError, findSome?_eq_none_iff]
  rfl

theorem valueError_eq_none_iff {text : Option String} : valueError text = none ↔ text = none := by
  cases text <;> simp [valueError]

/-! ## Declarations -/

/-- `P` of a field, and of the classes of its annotation. -/
def Declares (P : FieldInfo F → Ann F → Prop)
    (Q : List (FieldInfo F × Ann F) →
      (List (Attr × Val F) → Except PostError (List (Attr × Val F))) → Prop)
    (f : FieldInfo F × Ann F) : Prop :=
  P f.1 f.2 ∧ Everywhere P Q f.2

variable {fields : List (FieldInfo F × Ann F)}

omit [PyArith F] in
theorem everyField_iff {P : FieldInfo F → Ann F → Prop} {Q : List (FieldInfo F × Ann F) →
      (List (Attr × Val F) → Except PostError (List (Attr × Val F))) → Prop} :
    EveryField P Q fields ↔ ∀ f ∈ fields, Declares P Q f := by
  induction fields with
  | nil => simp [EveryField]
  | cons f rest ih =>
    obtain ⟨info, a⟩ := f
    rw [EveryField, forall_mem_cons, ih, Declares, and_assoc]

/-- A field that reads its default again. -/
abbrev SoundField (it : Interp F) (f : FieldInfo F × Ann F) : Prop :=
  Declares (FieldSound it) (PostSettles it) f

variable {name : String}

variable {constraint : Option KnobConstraint}

/-- A knob whose default passes its check is sound. -/
theorem sound_knob {key : String} {a : Ann F} {default : Val F} (ha : Sound it a)
    (hdefault : Stable it a default) (hcheck : ∀ c ∈ constraint, c.check it name default = none) :
    SoundField it (knob it name a default constraint key) := by
  refine ⟨⟨?_, fun h => nomatch h⟩, ha⟩
  rintro d ⟨⟩ location
  refine checkedValue_ok.mpr ⟨?_, ?_⟩
  · have hsupplied : supplied it false (encode default) = encode default := by
      cases encode default <;> rfl
    exact hsupplied.symm ▸ hdefault location
  · cases constraint with
    | none => rfl
    | some c => exact hcheck c rfl

theorem sound_bool {b : Bool} : SoundField it (bool it name b) :=
  sound_knob (by rw [Sound, Everywhere] <;> simp) (fun _ => by rw [encode, decode, decodeScalar])
    (by simp)

variable {c : KnobConstraint}

theorem sound_int {n : Int} (h : c.check it name (.int n) = none) :
    SoundField it (int it name n c) :=
  sound_knob (by rw [Sound, Everywhere] <;> simp) (fun _ => by rw [encode, decode, decodeScalar])
    (by simpa using h)

theorem sound_float {q : Rat} (hq : PyFloat.isfinite (PyArith.lit q : F) = true)
    (h : c.check it name (.float (PyArith.lit q)) = none) : SoundField it (float it name q c) :=
  sound_knob (by rw [Sound, Everywhere] <;> simp)
    (fun _ => by rw [encode, decode, decodeScalar, if_pos hq]) (by simpa using h)

theorem sound_unset {s : Scalar} (h : c.allowNone = true) : SoundField it (unset it name s c) :=
  sound_knob (by rw [Sound, Everywhere, Everywhere] <;> simp)
    (fun _ => by rw [encode, decode_optional_null])
    (by simp [KnobConstraint.check, KnobConstraint.exempts, h])

theorem sound_text {s : String} {choices : Option (List String)} (h : ∀ l ∈ choices, s ∈ l) :
    SoundField it (text it name s choices) := by
  refine sound_knob (by rw [Sound, Everywhere] <;> simp)
    (fun _ => by rw [encode, decode, decodeScalar]) ?_
  intro c hc
  obtain ⟨l, hl, rfl⟩ := Option.map_eq_some_iff.mp hc
  simp [KnobConstraint.check, KnobConstraint.exempts, among, h l hl]

theorem sound_word {s : String} {words : List String} (h : s ∈ words)
    (hc : ∀ c ∈ constraint, c.check it name (.str s) = none) :
    SoundField it (word it name s words constraint) := by
  refine sound_knob (by rw [Sound, Everywhere] <;> simp) (fun path => ?_) hc
  rw [encode, decode]
  exact decodeLiteral_ok_iff.mpr ⟨.str s, mem_map_of_mem h, rfl, rfl⟩

/-- A mapping is read again if its values are. -/
theorem stable_map {a : Ann F} {entries : List (String × Val F)}
    (h : ∀ e ∈ entries, Stable it a e.2) : Stable it (.map a) (.dict entries) := by
  intro path
  have hvalues : decodeValues (decode it a) path (encodeDict entries) = .ok entries := by
    induction entries with
    | nil => rfl
    | cons e rest ih =>
      obtain ⟨he, hrest⟩ := forall_mem_cons.mp h
      rw [encodeDict, decodeValues, he, ok_bind, ih hrest, ok_bind]
  rw [encode, decode, hvalues, ok_bind]

theorem sound_weights {entries : List (String × Rat)}
    (h : ∀ e ∈ entries, PyFloat.isfinite (PyArith.lit e.2 : F) = true) :
    SoundField it (weights it name entries) := by
  refine sound_knob (by rw [Sound, Everywhere, Everywhere] <;> simp) (stable_map ?_) (by simp)
  intro e he path
  obtain ⟨entry, hentry, rfl⟩ := mem_map.mp he
  rw [encode, decode, decodeScalar, if_pos (h entry hentry)]

/-! ### Classes whose checks only refuse -/

variable {check : List (Attr × Val F) → Option PostError}

omit [PyArith F] in
theorem checking_ok_iff {vs ws : List (Attr × Val F)} :
    checking check vs = .ok ws ↔ check vs = none ∧ ws = vs := by
  rw [checking]
  cases check vs <;> simp [eq_comm]

theorem checking_settles : PostSettles it fields (checking check) :=
  OnlyValidates.settles fun _ _ h => (checking_ok_iff.mp h).2

theorem sound_knobClass {cls : String} (hkeys : (keysOf fields).Nodup)
    (hfields : ∀ f ∈ fields, SoundField it f) : Sound it (knobClass cls fields) := by
  rw [knobClass, Sound, Everywhere]
  exact ⟨hkeys, checking_settles, everyField_iff.mpr hfields⟩

/-- The names of the fields of an instance. -/
def namesOf (fields : List (FieldInfo F × Ann F)) : List String := fields.map fun f => f.1.attr.name

omit [PyArith F] in
theorem valueOf_defaultsOf (hnames : (namesOf fields).Nodup) {f : FieldInfo F × Ann F}
    (hf : f ∈ fields) : valueOf (defaultsOf fields) f.1.attr.name = f.1.default.getD .none := by
  induction fields with
  | nil => cases hf
  | cons g rest ih =>
    obtain ⟨hg, hrest⟩ := nodup_cons.mp hnames
    rw [valueOf, defaultsOf, map_cons, find?_cons]
    rcases mem_cons.mp hf with rfl | hmem
    · simp
    · have hne : (g.1.attr.name == f.1.attr.name) = false := by
        rw [beq_eq_false_iff_ne]
        exact fun heq => hg (mem_map.mpr ⟨f, hmem, heq.symm⟩)
      simp only [hne]
      exact ih hrest hmem

/-- The defaults are settled. -/
theorem settled_defaultsOf (hfields : ∀ f ∈ fields, SoundField it f)
    (hdefault : ∀ f ∈ fields, f.1.default.isSome = true) :
    Settled it fields (defaultsOf fields) := by
  induction fields with
  | nil => exact .nil
  | cons f rest ih =>
    obtain ⟨hf, hrest⟩ := forall_mem_cons.mp hfields
    obtain ⟨hd, hds⟩ := forall_mem_cons.mp hdefault
    obtain ⟨d, hd⟩ := Option.isSome_iff_exists.mp hd
    refine .cons ⟨rfl, ?_⟩ (ih hrest hds)
    change FieldStable it f.1 f.2 (f.1.default.getD .none)
    rw [hd]
    exact hf.1.default d hd

theorem validateKnobs_defaultsOf (hnames : (namesOf fields).Nodup)
    (hfields : ∀ f ∈ fields, SoundField it f) (hdefault : ∀ f ∈ fields, f.1.default.isSome = true) :
    validateKnobs fields (defaultsOf fields) = none := by
  rw [validateKnobs, firstError_eq_none_iff, forall_mem_map]
  intro f hf
  obtain ⟨d, hd⟩ := Option.isSome_iff_exists.mp (hdefault f hf)
  rw [valueError_eq_none_iff, valueOf_defaultsOf hnames hf, hd]
  exact (checkedValue_ok.mp ((hfields f hf).1.default d hd "")).2

/-- An instance of the defaults is read again. -/
theorem stable_knobDefault {cls : String} (hkeys : (keysOf fields).Nodup)
    (hfields : ∀ f ∈ fields, SoundField it f) (hdefault : ∀ f ∈ fields, f.1.default.isSome = true)
    (hcheck : check (defaultsOf fields) = none) :
    Stable it (.dataclass cls fields (checking check)) (knobDefault cls fields) :=
  stable_object hkeys (settled_defaultsOf hfields hdefault) rfl (checking_ok_iff.mpr ⟨hcheck, rfl⟩)

/-! ## The nested blocks -/

section Blocks

variable [LawfulLiterals F]

theorem isfinite_lit {q : Rat} (h : |q| ≤ 100) : PyFloat.isfinite (PyArith.lit q : F) = true :=
  LawfulLiterals.finite q h

variable {name : String}

/-- A finite number at least as great as the lower bound. -/
theorem check_minimum {q : Rat} {bound : Int} (hq : |q| ≤ 100) (h : (bound : Rat) ≤ q) :
    KnobConstraint.check it { minimum := some bound } name (.float (PyArith.lit q)) = none := by
  simp [KnobConstraint.check, KnobConstraint.exempts, checkNumber, requireFiniteNumber,
    isfinite_lit hq, belowMinimum, below, aboveMaximum, LawfulLiterals.not_lt _ _ h]

theorem check_any {q : Rat} (hq : |q| ≤ 100) :
    KnobConstraint.check it {} name (.float (PyArith.lit q)) = none := by
  simp [KnobConstraint.check, KnobConstraint.exempts, checkNumber, requireFiniteNumber,
    isfinite_lit hq, belowMinimum, aboveMaximum]

omit [LawfulLiterals F] in
theorem check_int_minimum {n bound : Int} {label : String} (h : bound ≤ n) :
    KnobConstraint.check it { minimum := some bound, label := label } name (.int n) = none := by
  simp [KnobConstraint.check, KnobConstraint.exempts, checkNumber, requireFiniteNumber,
    belowMinimum, below, aboveMaximum, h]

/-- A block whose fields are all written under their own names and have defaults. -/
structure Block (fields : List (FieldInfo F × Ann F)) (spelled : List String) : Prop where
  names : namesOf fields = spelled
  keys : keysOf fields = spelled
  nodup : spelled.Nodup
  default : ∀ f ∈ fields, f.1.default.isSome = true

section
omit [LawfulLiterals F]
theorem ladder_block : Block (ladderFields it) ["enabled", "threshold", "budget"] where
  names := rfl
  keys := rfl
  nodup := by decide
  default := by
    simp only [ladderFields, forall_mem_cons]
    exact ⟨rfl, rfl, rfl, by simp⟩

theorem overfitting_block : Block (overfittingFields it)
    ["enabled", "holdout_fraction", "min_board_size_for_split", "restrict_proposer_visibility",
      "ladder", "rotate_holdout"] where
  names := rfl
  keys := rfl
  nodup := by decide
  default := by
    simp only [overfittingFields, forall_mem_cons]
    exact ⟨rfl, rfl, rfl, rfl, rfl, rfl, by simp⟩

theorem proposerQuality_block : Block (proposerQualityFields it)
    ["best_of_n", "critique_enabled", "screen_entries", "screen_veto_only"] where
  names := rfl
  keys := rfl
  nodup := by decide
  default := by
    simp only [proposerQualityFields, forall_mem_cons]
    exact ⟨rfl, rfl, rfl, rfl, by simp⟩

theorem experimental_block : Block (experimentalFields it)
    ["tournament_structures", "max_generations_per_contract", "random_baseline_every_n",
      "process_exemplars", "recombine", "genealogy", "calibration_feedback", "recombine_merge",
      "diff_complexity_weight", "diff_complexity_ceiling", "cross_epoch_memory",
      "standing_rating", "resolver"] where
  names := rfl
  keys := rfl
  nodup := by decide
  default := by
    simp only [experimentalFields, forall_mem_cons]
    exact ⟨rfl, rfl, rfl, rfl, rfl, rfl, rfl, rfl, rfl, rfl, rfl, rfl, rfl, by simp⟩

theorem Block.sound {spelled : List String} (h : Block fields spelled) {cls : String}
    (hfields : ∀ f ∈ fields, SoundField it f) :
    Sound it (knobClass cls fields) ∧
      Stable it (knobClass cls fields) (knobDefault cls fields) := by
  have hkeys : (keysOf fields).Nodup := h.keys ▸ h.nodup
  have hnames : (namesOf fields).Nodup := h.names ▸ h.nodup
  exact ⟨sound_knobClass hkeys hfields, stable_knobDefault hkeys hfields h.default
    (validateKnobs_defaultsOf hnames hfields h.default)⟩

theorem ladder_sound : ∀ f ∈ ladderFields it, SoundField it f := by
  simp only [ladderFields, forall_mem_cons]
  exact ⟨sound_bool, sound_unset rfl, sound_int (check_int_minimum (by decide)), by simp⟩

end

/-- The fields of the block are sound. -/
theorem overfitting_sound : ∀ f ∈ overfittingFields it, SoundField it f := by
  simp only [overfittingFields, forall_mem_cons]
  refine ⟨sound_bool, sound_float (isfinite_lit (by norm_num)) ?_,
    sound_int (check_int_minimum (by decide)), sound_bool,
    sound_knob (ladder_block.sound ladder_sound).1 (ladder_block.sound ladder_sound).2 (by simp),
    sound_bool, by simp⟩
  have hlow := LawfulLiterals.not_lt (F := F) 0 (3 / 10) (by norm_num)
  have hhigh := LawfulLiterals.not_lt (F := F) (3 / 10) 1 (by norm_num)
  have hne0 := LawfulLiterals.ne (F := F) (3 / 10) 0 (by norm_num) (by norm_num) (by norm_num)
  have hne1 := LawfulLiterals.ne (F := F) (3 / 10) 1 (by norm_num) (by norm_num) (by norm_num)
  have hfin := isfinite_lit (F := F) (q := 3 / 10) (by norm_num)
  simp [KnobConstraint.check, KnobConstraint.exempts, checkNumber, requireFiniteNumber, hfin,
    belowMinimum, below, aboveMaximum, above, equals, hlow, hhigh, hne0, hne1]

omit [LawfulLiterals F] in
theorem proposerQuality_sound : ∀ f ∈ proposerQualityFields it, SoundField it f := by
  simp only [proposerQualityFields, forall_mem_cons]
  exact ⟨sound_int (check_int_minimum (by decide)), sound_bool,
    sound_int (check_int_minimum (by decide)), sound_bool, by simp⟩

theorem experimental_sound : ∀ f ∈ experimentalFields it, SoundField it f := by
  simp only [experimentalFields, forall_mem_cons]
  have hzero : ∀ name, KnobConstraint.check it { minimum := some 0 } name
      (.float (PyArith.lit 0)) = none := fun name => check_minimum (by norm_num) (by norm_num)
  exact ⟨sound_bool, sound_unset rfl, sound_int (check_int_minimum (by decide)),
    sound_int (check_int_minimum (by decide)), sound_bool,
    sound_int (check_int_minimum (by decide)), sound_int (check_int_minimum (by decide)),
    sound_text (by simp [RECOMBINE_MERGE_MODES]), sound_float (isfinite_lit (by norm_num)) (hzero _),
    sound_float (isfinite_lit (by norm_num)) (hzero _), sound_bool,
    sound_word (by decide) (by simp), sound_word (by decide) (by simp), by simp⟩

theorem experimentalCheck_defaultsOf :
    experimentalCheck it (defaultsOf (experimentalFields it)) = none := by
  have hblock : Block (experimentalFields it) _ := experimental_block
  have hnames : (namesOf (experimentalFields it)).Nodup := hblock.names ▸ hblock.nodup
  rw [experimentalCheck, firstError_eq_none_iff]
  simp only [forall_mem_cons]
  exact ⟨validateKnobs_defaultsOf hnames experimental_sound experimental_block.default,
    rfl, rfl, by simp⟩

/-- `ExperimentalConfig` as an annotation. -/
def experimentalAnn (it : Interp F) : Ann F :=
  .dataclass "ExperimentalConfig" (experimentalFields it) (checking (experimentalCheck it))

theorem experimentalAnn_sound : Sound it (experimentalAnn it) ∧
    Stable it (experimentalAnn it) (knobDefault "ExperimentalConfig" (experimentalFields it)) := by
  have hblock : Block (experimentalFields it) _ := experimental_block
  have hkeys : (keysOf (experimentalFields it)).Nodup := hblock.keys ▸ hblock.nodup
  refine ⟨?_, stable_knobDefault hkeys experimental_sound hblock.default
    experimentalCheck_defaultsOf⟩
  rw [experimentalAnn, Sound, Everywhere]
  exact ⟨hkeys, checking_settles, everyField_iff.mpr experimental_sound⟩

end Blocks

/-! ## The tournament block -/

section Tournament

/-- The attribute `structure`. -/
def structureAttr : Attr := ⟨"structure", "structure"⟩

/-- The attribute `params`. -/
def paramsAttr : Attr := ⟨"params", "params"⟩

/-- The parameters with the budget that a threshold calls for. -/
def confirmed (params : Dict String (Val F)) : Except PostError (Dict String (Val F)) :=
  if hasThreshold params then
    (readReplicateBudget params).map fun n => Dict.set params BUDGET (.int n)
  else .ok params

variable {params : Dict String (Val F)}

theorem tournamentPost_eq {s : Val F} :
    tournamentPost it [(structureAttr, s), (paramsAttr, .dict params)] =
      match tournamentCheck it [(structureAttr, s), (paramsAttr, .dict params)] with
      | some e => .error e
      | none => (confirmed params).map fun p => [(structureAttr, s), (paramsAttr, .dict p)] := by
  have hparams : paramsOf [(structureAttr, s), (paramsAttr, .dict params)] = params := rfl
  rw [tournamentPost, hparams, confirmed]
  cases tournamentCheck it [(structureAttr, s), (paramsAttr, .dict params)] with
  | some e => rfl
  | none =>
    by_cases h : hasThreshold params = true
    · rw [if_pos h]
      simp only [if_pos h]
      cases readReplicateBudget params <;> rfl
    · rw [if_neg h]
      simp only [if_neg h]
      rfl

omit [PyArith F] in
/-- A budget is not negative. -/
theorem readReplicateBudget_nonneg {n : Int} (h : readReplicateBudget params = .ok n) : 0 ≤ n := by
  rw [readReplicateBudget] at h
  split at h
  · cases h
    decide
  · cases h
    decide
  · split at h
    · cases h
    · cases h
      omega
  · cases h

variable {p : Dict String (Val F)}

/-- The budget is written where a threshold is set, and is found there. -/
theorem confirmed_confirmed (h : confirmed params = .ok p) : confirmed p = .ok p := by
  rw [confirmed] at h
  by_cases hset : hasThreshold params = true
  · rw [if_pos hset] at h
    cases hbudget : readReplicateBudget params with
    | error e =>
      rw [hbudget] at h
      cases h
    | ok n =>
      rw [hbudget] at h
      cases h
      have hget : Dict.get? (Dict.set params BUDGET (.int n)) BUDGET = some (.int n) := by
        rw [get?_set, if_pos rfl]
      have hthreshold : hasThreshold (Dict.set params BUDGET (Val.int n)) = true := by
        rw [hasThreshold, get?_set, if_neg (by decide)]
        exact hset
      have hagain : readReplicateBudget (Dict.set params BUDGET (Val.int n)) = .ok n := by
        rw [readReplicateBudget, hget]
        exact if_neg (not_lt.mpr (readReplicateBudget_nonneg hbudget))
      change confirmed (Dict.set params BUDGET (Val.int n)) = _
      rw [confirmed, if_pos hthreshold, hagain]
      exact congrArg Except.ok (set_eq_self hget)
  · rw [if_neg hset] at h
    cases h
    rw [confirmed, if_neg hset]

/-- The parameters after the budget is confirmed. -/
theorem mem_confirmed (h : confirmed params = .ok p) {e : String × Val F} (he : e ∈ p) :
    e ∈ params ∨ ∃ n : Int, 0 ≤ n ∧ e = (BUDGET, .int n) := by
  rw [confirmed] at h
  split at h
  · cases hbudget : readReplicateBudget params with
    | error e =>
      rw [hbudget] at h
      cases h
    | ok n =>
      rw [hbudget] at h
      cases h
      rcases mem_set he with heq | hmem
      · exact .inr ⟨n, readReplicateBudget_nonneg hbudget, heq⟩
      · exact .inl hmem
  · cases h
    exact .inl he

theorem stable_of_stable_map {a : Ann F} {entries : List (String × Val F)}
    (h : ∀ path, decodeValues (decode it a) path (encodeDict entries) = .ok entries) :
    ∀ e ∈ entries, ∀ path, decode it a (encode e.2) (path ++ "." ++ e.1) = .ok e.2 := by
  induction entries with
  | nil => exact fun _ he => nomatch he
  | cons e rest ih =>
    obtain ⟨key, v⟩ := e
    have hstep (path : String) : decode it a (encode v) (path ++ "." ++ key) = .ok v ∧
        decodeValues (decode it a) path (encodeDict rest) = .ok rest := by
      obtain ⟨v', hv', h'⟩ := bind_eq_ok (h path)
      obtain ⟨rest', hrest', h'⟩ := bind_eq_ok h'
      cases h'
      exact ⟨hv', hrest'⟩
    exact forall_mem_cons.mpr ⟨fun path => (hstep path).1, ih fun path => (hstep path).2⟩

/-- The parameters with their budget are free values still. -/
theorem stable_confirmed (hparams : Stable it (.map .any) (.dict params))
    (h : confirmed params = .ok p) : Stable it (.map .any) (.dict p) := by
  have hvalues : ∀ path, decodeValues (decode it .any) path (encodeDict params) = .ok params := by
    intro path
    have hpath := hparams path
    rw [encode, decode] at hpath
    obtain ⟨values, hvalues, heq⟩ := bind_eq_ok hpath
    cases heq
    exact hvalues
  refine stable_map fun e he path => ?_
  rcases mem_confirmed h he with hmem | ⟨n, -, rfl⟩
  · have hany := stable_of_stable_map hvalues e hmem ""
    rw [decode] at hany ⊢
    exact (decodeAny_ok hany).2 path
  · rw [encode, decode, decodeAny]

/-- The checks of the block pass on the parameters with their budget. -/
theorem tournamentCheck_confirmed {s : Val F}
    (hcheck : tournamentCheck it [(structureAttr, s), (paramsAttr, .dict params)] = none)
    (h : confirmed params = .ok p) :
    tournamentCheck it [(structureAttr, s), (paramsAttr, .dict p)] = none := by
  rw [tournamentCheck, firstError_eq_none_iff] at hcheck ⊢
  simp only [forall_mem_cons] at hcheck ⊢
  obtain ⟨hstructure, -, hparams, -⟩ := hcheck
  refine ⟨hstructure, rfl, ?_, by simp⟩
  rw [firstError_eq_none_iff, forall_mem_map] at hparams ⊢
  intro e he
  have hold : (Dict.get? params e.1).bind (fun v => valueError (e.2.check it e.1 v)) = none :=
    hparams e he
  change (Dict.get? p e.1).bind (fun v => valueError (e.2.check it e.1 v)) = none
  rw [confirmed] at h
  split at h
  · cases hbudget : readReplicateBudget params with
    | error e =>
      rw [hbudget] at h
      cases h
    | ok n =>
      rw [hbudget] at h
      cases h
      rw [get?_set]
      by_cases hkey : BUDGET = e.1
      · -- The budget that is written is a nonnegative integer.
        rw [if_pos hkey]
        have heq : e = (BUDGET, budgetConstraint) := by
          have hmem := he
          simp only [TOURNAMENT_PARAM_CONSTRAINTS, mem_cons, not_mem_nil, or_false] at hmem
          rcases hmem with rfl | rfl | rfl
          · exact absurd hkey (by decide)
          · exact absurd hkey (by decide)
          · rfl
        subst heq
        have hnonneg := readReplicateBudget_nonneg hbudget
        simp [KnobConstraint.check, KnobConstraint.exempts, budgetConstraint, checkNumber,
          requireFiniteNumber, belowMinimum, below, aboveMaximum, valueError, hnonneg]
      · rw [if_neg hkey]
        exact hold
  · cases h
    exact hold

/-- `TournamentStructure` writes what it reads as itself. -/
theorem tournamentPost_settles : PostSettles it (tournamentFields it) (tournamentPost it) := by
  intro vs ws hvs hpost
  -- The two fields of the block.
  obtain ⟨s, p, hs, hp, rfl⟩ : ∃ s p, FieldStable it (structureField it).1 (.scalar .str) s ∧
      FieldStable it (paramsField it).1 (.map .any) p ∧
      vs = [(structureAttr, s), (paramsAttr, p)] := by
    cases hvs with
    | cons hs hrest =>
      cases hrest with
      | cons hp hnil =>
        cases hnil
        rename_i e e'
        obtain ⟨attr, s⟩ := e
        obtain ⟨attr', p⟩ := e'
        obtain ⟨rfl, hs⟩ := hs
        obtain ⟨rfl, hp⟩ := hp
        exact ⟨s, p, hs, hp, rfl⟩
  have hstable : Stable it (.map .any) p := by
    intro path
    have hdecode := (checkedValue_ok.mp (hp path)).1
    have hsupplied : supplied it false (encode p) = encode p := by
      cases encode p <;> rfl
    exact hsupplied ▸ hdecode
  obtain ⟨entries, params, -, -, rfl⟩ := decode_map_ok (hstable "")
  rw [tournamentPost_eq] at hpost
  split at hpost
  · cases hpost
  · rename_i hcheck
    cases hconfirmed : confirmed params with
    | error e =>
      rw [hconfirmed] at hpost
      cases hpost
    | ok p =>
      rw [hconfirmed] at hpost
      cases hpost
      refine ⟨[(structureAttr, s), (paramsAttr, .dict p)],
        .cons ⟨rfl, hs⟩ (.cons ⟨rfl, ?_⟩ .nil), rfl, ?_⟩
      · intro location
        exact checkedValue_ok.mpr ⟨stable_confirmed hstable hconfirmed location, rfl⟩
      · rw [tournamentPost_eq, tournamentCheck_confirmed hcheck hconfirmed]
        simp only [confirmed_confirmed hconfirmed]
        rfl

theorem tournamentAnn_sound : Sound it (tournamentAnn it) := by
  have hkeys : keysOf (tournamentFields it) = ["structure", "params"] := rfl
  have hstructure : SoundField it (structureField it) :=
    ⟨⟨fun _ hd => (nomatch hd), fun h => (nomatch h)⟩, by rw [structureField, Everywhere] <;> simp⟩
  have hparams : SoundField it (paramsField it) :=
    sound_knob (by rw [Sound, Everywhere, Everywhere] <;> simp) (stable_map fun e he => nomatch he)
      (by simp)
  rw [tournamentAnn, Sound, Everywhere]
  refine ⟨by rw [hkeys]; decide, tournamentPost_settles, everyField_iff.mpr ?_⟩
  simp only [tournamentFields, forall_mem_cons]
  exact ⟨hstructure, hparams, by simp⟩

/-- The default parameters are confirmed. -/
theorem confirmed_defaultParams [LawfulLiterals F] :
    confirmed (defaultParams : Dict String (Val F)) = .ok defaultParams := by
  have hne := LawfulLiterals.ne (F := F) (8 / 10) 0 (by norm_num) (by norm_num) (by norm_num)
  have hget : Dict.get? (defaultParams : Dict String (Val F)) BUDGET =
      some (.int DEFAULT_CONFIRMATION_BUDGET) := rfl
  have hset : hasThreshold (defaultParams : Dict String (Val F)) = true := by
    change (!PyFloat.eq (PyArith.lit (8 / 10) : F) (PyArith.lit ((0 : Int) : Rat))) = true
    rw [Int.cast_zero, hne]
    rfl
  have hbudget : readReplicateBudget (defaultParams : Dict String (Val F)) =
      .ok DEFAULT_CONFIRMATION_BUDGET := by
    rw [readReplicateBudget, hget]
    rfl
  rw [confirmed, if_pos hset, hbudget]
  exact congrArg Except.ok (set_eq_self hget)

/-- The default tournament passes its check. -/
theorem tournamentCheck_default [LawfulLiterals F] :
    tournamentCheck it [(structureAttr, .str DEFAULT_STRUCTURE), (paramsAttr, .dict defaultParams)] =
      none := by
  have hfin := isfinite_lit (F := F) (q := 8 / 10) (by norm_num)
  have hlow := LawfulLiterals.not_lt (F := F) 0 (8 / 10) (by norm_num)
  have hhigh := LawfulLiterals.not_lt (F := F) (8 / 10) 1 (by norm_num)
  have hne := LawfulLiterals.ne (F := F) (8 / 10) 1 (by norm_num) (by norm_num) (by norm_num)
  rw [tournamentCheck, firstError_eq_none_iff]
  simp only [forall_mem_cons]
  refine ⟨rfl, rfl, ?_, by simp⟩
  rw [firstError_eq_none_iff, forall_mem_map]
  simp only [TOURNAMENT_PARAM_CONSTRAINTS, forall_mem_cons]
  refine ⟨?_, rfl, rfl, by simp⟩
  change valueError (thresholdConstraint.check it THRESHOLD (.float (PyArith.lit (8 / 10)))) = none
  simp [KnobConstraint.check, KnobConstraint.exempts, thresholdConstraint, checkNumber,
    requireFiniteNumber, hfin, belowMinimum, below, aboveMaximum, above, equals, hlow, hhigh, hne,
    valueError]

/-- The block of an epoch that names none is read again. -/
theorem defaultTournament_stable [LawfulLiterals F] :
    Stable it (tournamentAnn it) defaultTournament := by
  have hkeys : keysOf (tournamentFields it) = ["structure", "params"] := rfl
  have hfloat {q : Rat} (hq : |q| ≤ 100) : Stable it .any (.float (PyArith.lit q : F)) := by
    intro path
    rw [encode, decode, decodeAny, if_pos (isfinite_lit hq)]
  have hint (n : Int) : Stable it .any (.int n : Val F) := by
    intro path
    rw [encode, decode, decodeAny]
  have hparams : Stable it (.map .any) (.dict defaultParams) := by
    refine stable_map ?_
    simp only [defaultParams, forall_mem_cons]
    exact ⟨hint _, hint _, hfloat (by norm_num), hint _, hfloat (by norm_num), hint _, by simp⟩
  refine stable_object (by rw [hkeys]; decide) (.cons ⟨rfl, ?_⟩ (.cons ⟨rfl, ?_⟩ .nil)) rfl ?_
  · intro location
    refine checkedValue_ok.mpr ⟨?_, rfl⟩
    change decode it (.scalar .str) (.str DEFAULT_STRUCTURE) location = _
    rw [decode, decodeScalar]
  · intro location
    exact checkedValue_ok.mpr ⟨hparams location, rfl⟩
  · change tournamentPost it [(structureAttr, .str DEFAULT_STRUCTURE),
      (paramsAttr, .dict defaultParams)] = _
    rw [tournamentPost_eq, tournamentCheck_default]
    simp only [confirmed_defaultParams]
    rfl

end Tournament

/-! ## The weights -/

section Freeze

omit [PyArith F]

mutual
theorem encode_freezeJson : ∀ v : Val F, encode (freezeJson v) = encode v
  | .dict fields => by rw [freezeJson, encode, encode, encodeDict_freezeEntries fields]
  | .list items => by rw [freezeJson, encode, encode, encodeItems_freezeItems items]
  | .tuple items => by rw [freezeJson, encode, encode, encodeItems_freezeItems items]
  | .none | .bool _ | .int _ | .float _ | .str _ | .path _ | .member _ _ | .object _ _ => by
    rw [freezeJson] <;> simp

theorem encodeItems_freezeItems : ∀ items : List (Val F),
    encodeItems (freezeItems items) = encodeItems items
  | [] => rfl
  | v :: rest => by
    rw [freezeItems, encodeItems, encodeItems, encode_freezeJson v, encodeItems_freezeItems rest]

theorem encodeDict_freezeEntries : ∀ fields : List (String × Val F),
    encodeDict (freezeEntries fields) = encodeDict fields
  | [] => rfl
  | (k, v) :: rest => by
    rw [freezeEntries, encodeDict, encodeDict, encode_freezeJson v, encodeDict_freezeEntries rest]
end

variable {vs : List (Attr × Val F)}

theorem encodeFields_setValue {v : Val F} (h : ∀ e ∈ vs, e.1.name = name → encode v = encode e.2) :
    encodeFields (setValue vs name v) = encodeFields vs := by
  induction vs with
  | nil => rfl
  | cons e rest ih =>
    obtain ⟨a, w⟩ := e
    obtain ⟨ha, hrest⟩ := forall_mem_cons.mp h
    rw [setValue, map_cons]
    by_cases hname : a.name = name
    · rw [if_pos hname, encodeFields, encodeFields, ha hname]
      exact congrArg _ (ih hrest)
    · rw [if_neg hname, encodeFields, encodeFields]
      exact congrArg _ (ih hrest)

/-- The value of an attribute is its own. -/
theorem valueOf_of_mem (hnames : (vs.map fun e => e.1.name).Nodup) {e : Attr × Val F}
    (he : e ∈ vs) : valueOf vs e.1.name = e.2 := by
  induction vs with
  | nil => cases he
  | cons e' rest ih =>
    obtain ⟨hhead, hrest⟩ := nodup_cons.mp hnames
    rw [valueOf, find?_cons]
    rcases mem_cons.mp he with rfl | hmem
    · simp
    · have hne : (e'.1.name == e.1.name) = false := by
        rw [beq_eq_false_iff_ne]
        exact fun heq => hhead (mem_map.mpr ⟨e, hmem, heq.symm⟩)
      simp only [hne]
      exact ih hrest hmem

end Freeze

theorem Settled.names {values : List (Attr × Val F)} (h : Settled it fields values) :
    (values.map fun e => e.1.name) = namesOf fields := by
  induction h with
  | nil => rfl
  | cons hf _ ih => rw [map_cons, ih, hf.1, namesOf, namesOf, map_cons]

/-- The names of the fields of `ScoringWeights`. -/
def scoringNames : List String :=
  ["pass_weight", "severity_weights", "per_kind_weights", "per_judge_weights",
    "default_judge_weight", "plan_revision_weight", "task_failure_weight",
    "not_completed_weight", "promote_margin", "holdout_margin",
    "holdout_entry_regression_budget", "pass_rate_monotonicity", "pass_rate_monotonicity_scope",
    "regression_gate_enabled", "regression_test_command", "regression_timeout_s",
    "namespace_weights", "namespace_monotonicity", "tournament_structure", "overfitting",
    "proposer_quality", "experimental", "goldfive", "outcome_summarizer_spec", "pass_transform",
    "drift_kind_aggregation", "drift_reducer", "scalar_fn", "telemetry_dialect",
    "block_on_containment_violation", "block_on_gate_contradiction", "mutation_surface"]

theorem namesOf_scoringFields : namesOf (scoringFields it) = scoringNames := rfl

theorem keysOf_scoringFields : keysOf (scoringFields it) =
    scoringNames.map fun name => if name = "tournament_structure" then "tournament" else name :=
  rfl

/-- Freezing the integration block leaves the document as it is. -/
theorem scoringPost_settles : PostSettles it (scoringFields it) (scoringPost it) := by
  intro vs ws hvs hpost
  have hnames : (vs.map fun e => e.1.name).Nodup := by
    rw [Settled.names hvs, namesOf_scoringFields]
    decide
  refine ⟨vs, hvs, ?_, hpost⟩
  obtain ⟨-, rfl⟩ := checking_ok_iff.mp hpost
  refine (encodeFields_setValue fun e he hname => ?_).symm
  rw [encode_freezeJson, ← hname, valueOf_of_mem hnames he]

section Weights

variable [LawfulLiterals F]

/-- **Every field of the contract is sound.** -/
theorem scoring_sound : ∀ f ∈ scoringFields it, SoundField it f := by
  have hany {name : String} {q : Rat} (hq : |q| ≤ 100) : SoundField it (float it name q {}) :=
    sound_float (isfinite_lit hq) (check_any hq)
  have hmap {name : String} : SoundField it (plain it name (.map (.map .any)) (.dict []) none) :=
    sound_knob (by rw [Sound, Everywhere, Everywhere, Everywhere] <;> simp)
      (stable_map fun e he => nomatch he) (by simp)
  have hoptional {name : String} : SoundField it (plain it name (.optional (.map .any)) .none none) :=
    sound_knob (by rw [Sound, Everywhere, Everywhere, Everywhere] <;> simp)
      (fun path => by rw [encode, decode_optional_null]) (by simp)
  have hfloats {l : List (String × Rat)} (hl : ∀ e ∈ l, |e.2| ≤ 100) {name : String} :
      SoundField it (weights it name l) := sound_weights fun e he => isfinite_lit (hl e he)
  have hcommand : Stable it (.seq true (.scalar .str))
      (.tuple [.str "pytest", .str "tests/", .str "-q"]) := by
    intro path
    rw [encode, decode]
    rfl
  have hflags : Stable it (.map (.scalar .bool))
      (.dict (defaultNamespaceMonotonicity.map fun e => (e.1, .bool e.2))) := by
    refine stable_map fun e he path => ?_
    obtain ⟨entry, -, rfl⟩ := mem_map.mp he
    rw [encode, decode, decodeScalar]
  simp only [scoringFields, forall_mem_cons]
  exact ⟨hany (by norm_num),
    hfloats (by simp only [defaultSeverityWeights, forall_mem_cons]; norm_num),
    hfloats (by simp), hfloats (by simp), hany (by norm_num), hany (by norm_num),
    hany (by norm_num), hany (by norm_num),
    sound_float (isfinite_lit (by norm_num)) (check_minimum (by norm_num) (by norm_num)),
    sound_unset rfl, sound_int (check_int_minimum (by decide)), sound_bool,
    sound_word (by decide) (by simp [KnobConstraint.check, KnobConstraint.exempts, among]),
    sound_bool, sound_knob (by rw [Sound, Everywhere, Everywhere] <;> simp) hcommand (by simp),
    sound_int (check_int_minimum (by decide)),
    hfloats (by simp only [defaultNamespaceWeights, forall_mem_cons]; norm_num),
    sound_knob (by rw [Sound, Everywhere, Everywhere] <;> simp) hflags (by simp),
    sound_knob tournamentAnn_sound defaultTournament_stable (by simp),
    sound_knob (overfitting_block.sound overfitting_sound).1
      (overfitting_block.sound overfitting_sound).2 (by simp),
    sound_knob (proposerQuality_block.sound proposerQuality_sound).1
      (proposerQuality_block.sound proposerQuality_sound).2 (by simp),
    sound_knob experimentalAnn_sound.1 experimentalAnn_sound.2 (by simp),
    hoptional, sound_text (by simp), hoptional, hmap, sound_text (by simp), sound_text (by simp),
    sound_text (by simp [KNOWN_TELEMETRY_DIALECTS]), sound_bool, sound_bool, hmap, by simp⟩

/-- `ScoringWeights` reads its defaults, and so do the blocks within it. -/
theorem scoringAnn_sound : Sound it (scoringAnn it) := by
  rw [scoringAnn, Sound, Everywhere]
  refine ⟨?_, scoringPost_settles, everyField_iff.mpr scoring_sound⟩
  rw [keysOf_scoringFields]
  decide

end Weights

end Zicato.ScoringDocument
