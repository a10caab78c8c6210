import Zicato.JsonExact
import Zicato.ResponseTried

/-! # What a parsed experiment keeps to

A response is refused or parsed, and what is parsed is within its bounds, unless a text or a
number of the response is beyond a limit of the interpreter or no finite number at all. -/
open List Option Zicato.JsonSchema
namespace Zicato.Proposal

variable {F : Type} {it : Interp F}

/-! ## How a check settles -/

/-- A check returns, with such a result, if `returns`; it raises what the retry does not catch
if `raises`; and it refuses otherwise. -/
inductive Settles {α : Type} (returns raises : Prop) (result : α → Prop) :
    Except Fault α → Prop
  | ok {a : α} (h : returns) (hr : ¬ raises) (ha : result a) : Settles returns raises result (.ok a)
  | refused (message : String) (h : ¬ returns) (hr : ¬ raises) :
      Settles returns raises result (refuse message)
  | raised (h : ¬ returns) (hr : raises) : Settles returns raises result (.error .other)

section Settles

variable {α β : Type} {P P' Q R R' S : Prop} {V V' : α → Prop} {W : β → Prop}

variable {x : Except Fault α} {f : α → Except Fault β}

theorem Settles.imp (h : Settles P R V x) (hP : P ↔ P') (hR : R ↔ R') (hV : ∀ a, V a → V' a) :
    Settles P' R' V' x := by
  cases h with
  | ok h hr ha => exact .ok (hP.mp h) (mt hR.mpr hr) (hV _ ha)
  | refused message h hr => exact .refused message (mt hP.mpr h) (mt hR.mpr hr)
  | raised h hr => exact .raised (mt hP.mpr h) (hR.mp hr)

/-- Checks in turn: the second one counts only if the first has returned. -/
theorem Settles.bind (h : Settles P R V x) (hf : P → ∀ a, V a → Settles Q S W (f a)) :
    Settles (P ∧ Q) (R ∨ P ∧ S) W (x >>= f) := by
  cases h with
  | ok h hr ha =>
    exact (hf h _ ha).imp ⟨fun hq => ⟨h, hq⟩, And.right⟩
      ⟨fun hs => .inr ⟨h, hs⟩, fun hs => hs.elim (absurd · hr) And.right⟩ fun _ => id
  | refused message h hr =>
    exact .refused message (fun hpq => h hpq.1) fun hs => hs.elim hr fun hps => h hps.1
  | raised h hr => exact .raised (fun hpq => h hpq.1) (.inl hr)

/-- A check without a way to raise, before another one. -/
theorem Settles.andThen (h : Settles P False V x) (hf : P → ∀ a, V a → Settles Q S W (f a)) :
    Settles (P ∧ Q) (P ∧ S) W (x >>= f) :=
  (h.bind hf).imp Iff.rfl (by simp) fun _ => id

/-- A refusal under a condition. -/
theorem settles_refuseIf (condition : Prop) [Decidable condition] (message : String) :
    Settles (¬ condition) False (fun _ => True) (refuseIf condition message) := by
  rw [refuseIf]
  by_cases h : condition
  · rw [if_pos h]
    exact .refused message (not_not_intro h) id
  · rw [if_neg h]
    exact .ok h id trivial

theorem settles_pure {a : α} (ha : V a) : Settles True False V (.ok a : Except Fault α) :=
  .ok trivial id ha

/-- A loop of checks. -/
theorem settles_mapM {p : α → Prop} {l : List α}
    (h : ∀ a ∈ l, Settles (p a) False (fun _ => True) (f a)) :
    Settles (∀ a ∈ l, p a) False (fun _ => True) (l.mapM f) := by
  induction l with
  | nil => exact .ok (by simp) id trivial
  | cons a l ih =>
    obtain ⟨ha, hl⟩ := forall_mem_cons.mp h
    rw [mapM_cons]
    refine (ha.andThen fun _ b _ => (ih hl).andThen fun _ bs _ =>
      settles_pure (V := fun _ => True) trivial).imp ?_ (by simp) fun _ => id
    simp

end Settles

/-! ## Reading what the schema has promised -/

variable {fields : Dict String (PyValue F)} {key s : String} {v raw : PyValue F}
  {judgeNames : List String}

theorem text_eq (h : Dict.get? fields key = some (.str s)) : text fields key = .ok s := by
  rw [text, item, h]
  rfl

theorem items_eq {values : List (PyValue F)} (h : Dict.get? fields key = some (.list values)) :
    items fields key = .ok values := by
  rw [items, item, h]
  rfl

theorem item_eq (h : Dict.get? fields key = some v) : item fields key = .ok v := by
  rw [item, h]

theorem textOf_eq {patch : Dict String (PyValue F)} {field : String}
    (h : Dict.get? patch field = some (.str s)) : textOf patch field = some s := by
  rw [textOf, h]
  rfl

/-! ## Hypotheses -/

/-- The name of a metric that the board and the taxonomy have. -/
structure NamesMetric (judgeNames : List String) (metricName : String) : Prop where
  named : (metricName.toList.dropWhile (· ≠ ':')).tail ≠ []
  notCustom : metricName.toList.takeWhile (· ≠ ':') ≠ "custom".toList
  drift : metricName.toList.takeWhile (· ≠ ':') = "drift".toList →
    String.ofList (metricName.toList.dropWhile (· ≠ ':')).tail ∈ GOLDFIVE_DRIFT_KINDS
  judge : metricName.toList.takeWhile (· ≠ ':') = "judge".toList →
    String.ofList (metricName.toList.dropWhile (· ≠ ':')).tail ∈ judgeNames

/-- When a metric name is accepted. -/
theorem settles_metricName (judgeNames : List String) (metricName : String) :
    Settles (NamesMetric judgeNames metricName) False (fun _ => True)
      (validateMetricName it judgeNames metricName) := by
  refine ((settles_refuseIf _ _).andThen fun _ _ _ => (settles_refuseIf _ _).andThen fun _ _ _ =>
    (settles_refuseIf _ _).andThen fun _ _ _ => settles_refuseIf _ _).imp ?_ (by simp)
    fun _ => id
  constructor
  · rintro ⟨hnamed, hcustom, hdrift, hjudge⟩
    exact ⟨hnamed, hcustom, fun h => Decidable.by_contra fun hn => hdrift ⟨h, hn⟩,
      fun h => Decidable.by_contra fun hn => hjudge ⟨h, hn⟩⟩
  · rintro ⟨hnamed, hcustom, hdrift, hjudge⟩
    exact ⟨hnamed, hcustom, fun h => h.2 (hdrift h.1), fun h => h.2 (hjudge h.1)⟩

/-- A movement whose metric is named so. -/
def MovementAccepted (judgeNames : List String) (raw : PyValue F) : Prop :=
  ∀ mv name, raw = .dict mv → Dict.get? mv "metric_name" = some (.str name) →
    NamesMetric judgeNames name

/-- When a movement is accepted. -/
theorem settles_movement (h : movementSchema.accepts raw = true) :
    Settles (MovementAccepted judgeNames raw) False (fun _ => True)
      (parseMovement it judgeNames raw) := by
  obtain ⟨mv, rfl, -, -, hkeys⟩ := object_of_accepts h
  obtain ⟨name, hname⟩ := text_of_accepts "metric_name" 1 h (by simp) (by simp)
  obtain ⟨direction, -, hdirection⟩ :=
    word_of_accepts "direction" DIRECTION_ENUM h (by simp) (by simp)
  obtain ⟨magnitude, -, hmagnitude⟩ :=
    word_of_accepts "magnitude" MAGNITUDE_ENUM h (by simp) (by simp)
  have hall : (Dict.keys mv).all (["metric_name", "direction", "magnitude"].contains ·) = true :=
    List.all_eq_true.mpr fun key hkey =>
      contains_iff_mem.mpr (by simpa using hkeys rfl key hkey)
  rw [parseMovement, object, ok_bind, text_eq hname, ok_bind, text_eq hdirection,
    text_eq hmagnitude, hall]
  refine ((settles_metricName judgeNames name).andThen fun _ _ _ =>
    settles_pure (V := fun _ => True) trivial).imp ?_ (by simp) fun _ => id
  constructor
  · rintro ⟨hnames, -⟩ mv' name' heq hname'
    cases heq
    rw [hname] at hname'
    cases hname'
    exact hnames
  · exact fun hnames => ⟨hnames mv name rfl hname, trivial⟩

/-- A mutation point that there is. -/
def PointAccepted (mutationsById : Dict String MutationPoint) (raw : PyValue F) : Prop :=
  ∀ ident, raw = .str ident → Dict.get? mutationsById ident ≠ none

/-- When a modulated point is accepted. -/
theorem settles_modulating {mutationsById : Dict String MutationPoint}
    (h : (JsonSchema.string 1).accepts raw = true) :
    Settles (PointAccepted mutationsById raw) False (fun _ => True)
      (parseModulating it mutationsById raw) := by
  obtain ⟨ident, rfl⟩ := string_of_accepts h
  rw [parseModulating]
  refine ((settles_refuseIf _ _).andThen fun _ _ _ =>
    settles_pure (V := fun _ => True) trivial).imp ?_ (by simp) fun _ => id
  constructor
  · rintro ⟨hsome, -⟩ ident' heq
    cases heq
    exact hsome
  · exact fun hsome => ⟨hsome ident rfl, trivial⟩

/-- A hypothesis of known metrics and mutation points. -/
structure HypothesisAccepted (mutationsById : Dict String MutationPoint) (judgeNames : List String)
    (hyp : Dict String (PyValue F)) : Prop where
  movements : ∀ values, Dict.get? hyp "expected_metric_movements" = some (.list values) →
    ∀ raw ∈ values, MovementAccepted judgeNames raw
  modulating : ∀ values, Dict.get? hyp "modulating" = some (.list values) →
    ∀ raw ∈ values, PointAccepted mutationsById raw

/-- When a hypothesis is accepted. -/
theorem settles_hypothesis {mutationsById : Dict String MutationPoint}
    {hyp : Dict String (PyValue F)} (h : hypothesisSchema.accepts (.dict hyp) = true) :
    Settles (HypothesisAccepted mutationsById judgeNames hyp) False (fun _ => True)
      (parseHypothesis it mutationsById judgeNames hyp) := by
  obtain ⟨movements, hmovements, hall⟩ :=
    items_of_accepts "expected_metric_movements" movementSchema 1 h (by simp) (by simp)
  obtain ⟨modulating, hmodulating, hall'⟩ :=
    items_of_accepts "modulating" (.string 1) 1 h (by simp) (by simp)
  obtain ⟨coreIdea, hcore⟩ := text_of_accepts "core_idea" 1 h (by simp) (by simp)
  obtain ⟨why, hwhy⟩ := text_of_accepts "why" 1 h (by simp) (by simp)
  obtain ⟨delta, hdelta⟩ :=
    text_of_accepts "expected_pass_rate_delta" 1 h (by simp) (by simp)
  rw [parseHypothesis, items_eq hmovements, items_eq hmodulating, text_eq hcore, text_eq hwhy,
    text_eq hdelta]
  refine ((settles_mapM fun raw hraw => settles_movement (hall raw hraw)).andThen fun _ _ _ =>
    (settles_mapM fun raw hraw => settles_modulating (hall' raw hraw)).andThen fun _ _ _ =>
      settles_pure (V := fun _ => True) trivial).imp ?_ (by simp) fun _ => id
  constructor
  · rintro ⟨hmoves, hpoints, -⟩
    refine ⟨fun values hvalues => ?_, fun values hvalues => ?_⟩
    · rw [hmovements] at hvalues
      cases hvalues
      exact hmoves
    · rw [hmodulating] at hvalues
      cases hvalues
      exact hpoints
  · exact fun hacc => ⟨hacc.movements _ hmovements, hacc.modulating _ hmodulating, trivial⟩

/-! ## Patches -/

theorem settles_mustNotSet (patch : Dict String (PyValue F)) (idx : Nat) (op field : String) :
    Settles (Dict.get? patch field = none) False (fun _ => True)
      (mustNotSet patch idx op field) :=
  (settles_refuseIf _ _).imp not_not Iff.rfl fun _ => id

theorem settles_requireText {patch : Dict String (PyValue F)} {field : String}
    (h : ∀ v, Dict.get? patch field = some v → ∃ s, v = .str s) (idx : Nat) (op : String) :
    Settles (∃ s, Dict.get? patch field = some (.str s) ∧ s ≠ "") False (fun _ => True)
      (requireText patch idx op field) := by
  rw [requireText]
  cases hv : Dict.get? patch field with
  | none => exact .refused _ (by simp) id
  | some v =>
    obtain ⟨s, rfl⟩ := h v hv
    exact (settles_refuseIf (s = "") _).imp (by simp) Iff.rfl fun _ => id

theorem settles_against (limit : Option F) (violated : F → Bool) (message : F → String) :
    Settles (∀ b, limit = some b → violated b = false) False (fun _ => True)
      (against limit violated message) := by
  cases limit with
  | none => exact .ok (by simp) id trivial
  | some b => exact (settles_refuseIf _ _).imp (by simp) Iff.rfl fun _ => id

variable [PyFloat F]

/-- The value is beyond neither bound that the point declares. -/
structure InRange (it : Interp F) (point : MutationPoint) (value : F) : Prop where
  min : ∀ lo, bound it point "min" = some lo → PyFloat.lt value lo = false
  max : ∀ hi, bound it point "max" = some hi → PyFloat.lt hi value = false

/-- The value is a member of the domain that the point declares, if it declares one. -/
def InDomain (point : MutationPoint) (value : String) : Prop :=
  enumDomain point ≠ [] → value ∈ enumDomain point

/-- The fields of a patch are those that its operation takes, with a value that may be set. -/
inductive Payload (it : Interp F) (point : MutationPoint) (patch : Dict String (PyValue F)) : Prop
  | replace {s : String} (op : Dict.get? patch "op" = some (.str "replace"))
      (content : Dict.get? patch "new_content" = some (.str s)) (nonempty : s ≠ "")
      (numeric : Dict.get? patch "new_numeric" = none) (enum : Dict.get? patch "new_enum" = none)
  | setNumeric {v : PyValue F} {x : F} (op : Dict.get? patch "op" = some (.str "set_numeric"))
      (numeric : Dict.get? patch "new_numeric" = some v) (value : toFloat v = .ok x)
      (content : Dict.get? patch "new_content" = none) (enum : Dict.get? patch "new_enum" = none)
      (range : InRange it point x)
  | setEnum {s : String} (op : Dict.get? patch "op" = some (.str "set_enum"))
      (enum : Dict.get? patch "new_enum" = some (.str s)) (nonempty : s ≠ "")
      (content : Dict.get? patch "new_content" = none)
      (numeric : Dict.get? patch "new_numeric" = none) (domain : InDomain point s)

/-- The patch sets a whole number that no float can hold. -/
structure Huge (patch : Dict String (PyValue F)) : Prop where
  op : Dict.get? patch "op" = some (.str "set_numeric")
  content : Dict.get? patch "new_content" = none
  enum : Dict.get? patch "new_enum" = none
  number : ∃ n, Dict.get? patch "new_numeric" = some (.int n) ∧ PyFloat.ofInt n = (none : Option F)

/-- What the patch sets, if it is a number, is finite. -/
def FiniteNumber (patch : Dict String (PyValue F)) : Prop :=
  Dict.get? patch "op" = some (.str "set_numeric") →
    ∀ v x, Dict.get? patch "new_numeric" = some v → toFloat v = .ok x → PyFloat.isfinite x = true

/-- A patch sets the payload of its operation, within the bounds of a point of the manifest. -/
structure Bounded (it : Interp F) (point : MutationPoint) (p : Patch F) : Prop where
  replace : p.op = .replace →
    (∃ s, p.newContent = some s) ∧ p.newNumeric = none ∧ p.newEnum = none
  setNumeric : p.op = .setNumeric → p.newContent = none ∧ p.newEnum = none ∧
    ∃ x, p.newNumeric = some x ∧ PyFloat.isfinite x = true ∧ InRange it point x
  setEnum : p.op = .setEnum → p.newContent = none ∧ p.newNumeric = none ∧
    ∃ s, p.newEnum = some s ∧ InDomain point s

/-- A number converts, unless it is whole and beyond the floats. -/
theorem settles_toFloat (h : JsonSchema.number.accepts v = true) :
    Settles (∃ x, toFloat v = .ok x) (∃ n, v = .int n ∧ PyFloat.ofInt n = (none : Option F))
      (fun x => toFloat v = .ok x) (toFloat v) := by
  rcases number_of_accepts h with ⟨n, rfl⟩ | ⟨x, rfl⟩
  · cases hn : (PyFloat.ofInt n : Option F) with
    | none =>
      have hv : toFloat (.int n : PyValue F) = .error .other := by rw [toFloat, hn]
      rw [hv]
      exact .raised (by simp) ⟨n, rfl, hn⟩
    | some x =>
      have hv : toFloat (.int n : PyValue F) = .ok x := by rw [toFloat, hn]
      rw [hv]
      exact .ok ⟨x, rfl⟩ (by rintro ⟨n', heq, hn'⟩; cases heq; rw [hn] at hn'; cases hn') rfl
  · exact .ok ⟨x, rfl⟩ (by simp) rfl

section Operations

variable {patch : Dict String (PyValue F)} (hschema : patchSchema.accepts (.dict patch) = true)

include hschema in
omit [PyFloat F] in
/-- The fields of a replacement. -/
theorem settles_fields_replace (hop : Dict.get? patch "op" = some (.str "replace")) (idx : Nat) :
    Settles ((∃ s, Dict.get? patch "new_content" = some (.str s) ∧ s ≠ "") ∧
        Dict.get? patch "new_numeric" = none ∧ Dict.get? patch "new_enum" = none)
      False (· = .replace) (validateOpFields it patch idx) := by
  have hcontent : ∀ v, Dict.get? patch "new_content" = some v → ∃ s, v = .str s := fun v hv =>
    string_of_accepts
      (optional_of_accepts "new_content" (.string 0) hschema (by simp) hv)
  rw [validateOpFields, text_eq hop, ok_bind, if_pos rfl]
  refine ((settles_requireText hcontent idx _).andThen fun _ _ _ =>
    (settles_mustNotSet patch idx _ _).andThen fun _ _ _ =>
      (settles_mustNotSet patch idx _ _).andThen fun _ _ _ => settles_pure rfl).imp ?_ (by simp)
    fun _ => Eq.symm
  simp

omit [PyFloat F] in
theorem settles_fields_numeric (hop : Dict.get? patch "op" = some (.str "set_numeric"))
    (idx : Nat) :
    Settles (Dict.get? patch "new_numeric" ≠ none ∧ Dict.get? patch "new_content" = none ∧
        Dict.get? patch "new_enum" = none)
      False (· = .setNumeric) (validateOpFields it patch idx) := by
  rw [validateOpFields, text_eq hop, ok_bind, if_neg (by decide), if_pos rfl]
  refine ((settles_refuseIf _ _).andThen fun _ _ _ =>
    (settles_mustNotSet patch idx _ _).andThen fun _ _ _ =>
      (settles_mustNotSet patch idx _ _).andThen fun _ _ _ => settles_pure rfl).imp ?_ (by simp)
    fun _ => Eq.symm
  simp

include hschema in
omit [PyFloat F] in
/-- The fields of a `set_enum`. -/
theorem settles_fields_enum (hop : Dict.get? patch "op" = some (.str "set_enum")) (idx : Nat) :
    Settles ((∃ s, Dict.get? patch "new_enum" = some (.str s) ∧ s ≠ "") ∧
        Dict.get? patch "new_content" = none ∧ Dict.get? patch "new_numeric" = none)
      False (· = .setEnum) (validateOpFields it patch idx) := by
  have henum : ∀ v, Dict.get? patch "new_enum" = some v → ∃ s, v = .str s := fun v hv =>
    string_of_accepts
      (optional_of_accepts "new_enum" (.string 0) hschema (by simp) hv)
  rw [validateOpFields, text_eq hop, ok_bind, if_neg (by decide), if_neg (by decide), if_pos rfl]
  refine ((settles_requireText henum idx _).andThen fun _ _ _ =>
    (settles_mustNotSet patch idx _ _).andThen fun _ _ _ =>
      (settles_mustNotSet patch idx _ _).andThen fun _ _ _ => settles_pure rfl).imp ?_ (by simp)
    fun _ => Eq.symm
  simp

end Operations

/-- When a number lies in the range of its point. -/
theorem settles_range {patch : Dict String (PyValue F)}
    (hv : Dict.get? patch "new_numeric" = some v) (hnumber : JsonSchema.number.accepts v = true)
    (point : MutationPoint) (idx : Nat) :
    Settles (∃ x, toFloat v = .ok x ∧ InRange it point x)
      (∃ n, v = .int n ∧ PyFloat.ofInt n = (none : Option F)) (fun _ => True)
      (validateNumericRange it patch point idx) := by
  rw [validateNumericRange, item_eq hv, ok_bind]
  refine ((settles_toFloat hnumber).bind (Q := ∃ x, toFloat v = .ok x ∧ InRange it point x)
    (S := False) fun _ x hx => ((settles_against _ _ _).andThen fun _ _ _ =>
      settles_against _ _ _).imp ?_ (by simp) fun _ => id).imp ?_ (by simp) fun _ => id
  · constructor
    · rintro ⟨hmin, hmax⟩
      exact ⟨x, hx, hmin, hmax⟩
    · rintro ⟨x', hx', hrange⟩
      rw [hx] at hx'
      cases hx'
      exact ⟨hrange.min, hrange.max⟩
  · constructor
    · exact And.right
    · rintro ⟨x, hx, hrange⟩
      exact ⟨⟨x, hx⟩, x, hx, hrange⟩

omit [PyFloat F] in
theorem settles_domain {patch : Dict String (PyValue F)}
    (hs : Dict.get? patch "new_enum" = some (.str s)) (point : MutationPoint) (idx : Nat) :
    Settles (InDomain point s) False (fun _ => True) (validateEnumDomain it patch point idx) := by
  rw [validateEnumDomain, text_eq hs, ok_bind]
  refine (settles_refuseIf _ _).imp ?_ Iff.rfl fun _ => id
  rw [InDomain, not_and, not_not]

omit [PyFloat F] in
theorem other_op {patch : Dict String (PyValue F)} {op op' : String}
    (h : Dict.get? patch "op" = some (.str op)) (h' : Dict.get? patch "op" = some (.str op'))
    (hne : op ≠ op') : False := by
  rw [h, some.injEq, PyValue.str.injEq] at h'
  exact hne h'

section Known

variable {patch : Dict String (PyValue F)} (hschema : patchSchema.accepts (.dict patch) = true)
  {mutationId : String} (hid : Dict.get? patch "mutation_id" = some (.str mutationId))
  {mutationsById : Dict String MutationPoint} {point : MutationPoint}
  (hpoint : Dict.get? mutationsById mutationId = some point) (idx : Nat)

include hschema hid hpoint

/-- When a replacement is accepted. -/
theorem settles_replace (hop : Dict.get? patch "op" = some (.str "replace")) :
    Settles (Payload it point patch) (Huge patch)
      (fun p => p.mutationId = mutationId ∧ (Bounded it point p ↔ FiniteNumber patch))
      (parsePatch it mutationsById idx (.dict patch)) := by
  simp only [parsePatch, object, ok_bind, text_eq hid, hpoint]
  obtain ⟨rationale, hrationale⟩ :=
    text_of_accepts "rationale" 1 hschema (by simp) (by simp)
  refine ((settles_fields_replace hschema hop idx).andThen (Q := True) (S := False)
    fun hfields op heq => ?_).imp ?_ ?_ fun _ => id
  · subst heq
    obtain ⟨⟨s, hs, -⟩, -⟩ := hfields
    simp only [validatePayload, ok_bind, reduceCtorEq, if_false, pure_bind, text_eq hrationale]
    refine settles_pure ⟨rfl, fun _ hset => ?_, fun _ => ⟨fun _ => ⟨⟨s, ?_⟩, rfl, rfl⟩, ?_, ?_⟩⟩
    · exact (other_op hop hset (by decide)).elim
    · simp only [if_true, textOf_eq hs]
    · simp
    · simp
  · constructor
    · rintro ⟨⟨⟨s, hs, hne⟩, hnumeric, henum⟩, -⟩
      exact .replace hop hs hne hnumeric henum
    · intro hpayload
      cases hpayload with
      | replace _ hs hne hnumeric henum => exact ⟨⟨⟨_, hs, hne⟩, hnumeric, henum⟩, trivial⟩
      | setNumeric hop' => exact (other_op hop hop' (by decide)).elim
      | setEnum hop' => exact (other_op hop hop' (by decide)).elim
  · exact ⟨fun h => h.2.elim, fun hhuge => (other_op hop hhuge.op (by decide)).elim⟩

/-- When a `set_numeric` is accepted. -/
theorem settles_numeric (hop : Dict.get? patch "op" = some (.str "set_numeric")) :
    Settles (Payload it point patch) (Huge patch)
      (fun p => p.mutationId = mutationId ∧ (Bounded it point p ↔ FiniteNumber patch))
      (parsePatch it mutationsById idx (.dict patch)) := by
  simp only [parsePatch, object, ok_bind, text_eq hid, hpoint]
  obtain ⟨rationale, hrationale⟩ :=
    text_of_accepts "rationale" 1 hschema (by simp) (by simp)
  refine ((settles_fields_numeric hop idx).andThen
    (Q := ∃ v x, Dict.get? patch "new_numeric" = some v ∧ toFloat v = .ok x ∧
      InRange it point x)
    (S := ∃ n, Dict.get? patch "new_numeric" = some (.int n) ∧
      PyFloat.ofInt n = (none : Option F)) fun hfields op heq => ?_).imp ?_ ?_ fun _ => id
  · subst heq
    obtain ⟨hsome, hcontent, henum⟩ := hfields
    obtain ⟨v, hv⟩ := ne_none_iff_exists'.mp hsome
    have hnumber := optional_of_accepts "new_numeric" .number hschema (by simp) hv
    simp only [validatePayload, if_true, item_eq hv, text_eq hrationale, reduceCtorEq, if_false]
    refine ((settles_range hv hnumber point idx).bind (Q := True) (S := False)
      fun hreturns _ _ => ?_).imp ?_ ?_ fun _ => id
    · obtain ⟨x, hx, hrange⟩ := hreturns
      have hfloat : (toFloat =<< (Except.ok v : Except Fault (PyValue F))) = .ok x := hx
      rw [hfloat]
      refine settles_pure ⟨rfl, fun hbounded _ v' x' hv' hx' => ?_, fun hfinite =>
        ⟨?_, fun _ => ⟨rfl, rfl, x, rfl, hfinite hop v x hv hx, hrange⟩, ?_⟩⟩
      · obtain ⟨-, -, x'', heq, hfinite, -⟩ := hbounded.setNumeric rfl
        rw [hv] at hv'
        cases hv'
        rw [hx] at hx'
        cases hx'
        cases heq
        exact hfinite
      · simp
      · simp
    · constructor
      · rintro ⟨⟨x, hx, hrange⟩, -⟩
        exact ⟨v, x, hv, hx, hrange⟩
      · rintro ⟨v', x, hv', hx, hrange⟩
        rw [hv] at hv'
        cases hv'
        exact ⟨⟨x, hx, hrange⟩, trivial⟩
    · constructor
      · rintro (⟨n, rfl, hn⟩ | ⟨-, hfalse⟩)
        · exact ⟨n, hv, hn⟩
        · exact hfalse.elim
      · rintro ⟨n, hv', hn⟩
        rw [hv] at hv'
        cases hv'
        exact .inl ⟨n, rfl, hn⟩
  · constructor
    · rintro ⟨⟨-, hcontent, henum⟩, v, x, hv, hx, hrange⟩
      exact .setNumeric hop hv hx hcontent henum hrange
    · intro hpayload
      cases hpayload with
      | replace hop' => exact (other_op hop hop' (by decide)).elim
      | setNumeric _ hv hx hcontent henum hrange =>
        exact ⟨⟨by simp [hv], hcontent, henum⟩, _, _, hv, hx, hrange⟩
      | setEnum hop' => exact (other_op hop hop' (by decide)).elim
  · constructor
    · rintro ⟨⟨-, hcontent, henum⟩, hnumber⟩
      exact ⟨hop, hcontent, henum, hnumber⟩
    · rintro ⟨-, hcontent, henum, n, hv, hn⟩
      exact ⟨⟨by simp [hv], hcontent, henum⟩, n, hv, hn⟩

/-- When a `set_enum` is accepted. -/
theorem settles_enum (hop : Dict.get? patch "op" = some (.str "set_enum")) :
    Settles (Payload it point patch) (Huge patch)
      (fun p => p.mutationId = mutationId ∧ (Bounded it point p ↔ FiniteNumber patch))
      (parsePatch it mutationsById idx (.dict patch)) := by
  simp only [parsePatch, object, ok_bind, text_eq hid, hpoint]
  obtain ⟨rationale, hrationale⟩ :=
    text_of_accepts "rationale" 1 hschema (by simp) (by simp)
  refine ((settles_fields_enum hschema hop idx).andThen
    (Q := ∃ s, Dict.get? patch "new_enum" = some (.str s) ∧ InDomain point s) (S := False)
    fun hfields op heq => ?_).imp ?_ ?_ fun _ => id
  · subst heq
    obtain ⟨⟨s, hs, -⟩, -⟩ := hfields
    simp only [validatePayload, reduceCtorEq, if_false, if_true, pure_bind, text_eq hrationale]
    refine ((settles_domain hs point idx).andThen (Q := True) (S := False)
      fun hdomain _ _ => ?_).imp ?_ (by simp) fun _ => id
    · refine settles_pure ⟨rfl, fun _ hset => ?_, fun _ => ⟨?_, ?_, fun _ =>
        ⟨rfl, rfl, s, textOf_eq hs, hdomain⟩⟩⟩
      · exact (other_op hop hset (by decide)).elim
      · simp
      · simp
    · constructor
      · rintro ⟨hdomain, -⟩
        exact ⟨s, hs, hdomain⟩
      · rintro ⟨s', hs', hdomain⟩
        rw [hs] at hs'
        cases hs'
        exact ⟨hdomain, trivial⟩
  · constructor
    · rintro ⟨⟨⟨s, hs, hne⟩, hcontent, hnumeric⟩, s', hs', hdomain⟩
      rw [hs] at hs'
      cases hs'
      exact .setEnum hop hs hne hcontent hnumeric hdomain
    · intro hpayload
      cases hpayload with
      | replace hop' => exact (other_op hop hop' (by decide)).elim
      | setNumeric hop' => exact (other_op hop hop' (by decide)).elim
      | setEnum _ hs hne hcontent hnumeric hdomain =>
        exact ⟨⟨⟨_, hs, hne⟩, hcontent, hnumeric⟩, _, hs, hdomain⟩
  · exact ⟨fun h => h.2.elim, fun hhuge => (other_op hop hhuge.op (by decide)).elim⟩

/-- A patch that conforms, of a known point: it is parsed if it may be, and is within its bounds
if the number that it sets is finite. -/
theorem settles_known :
    Settles (Payload it point patch) (Huge patch)
      (fun p => p.mutationId = mutationId ∧ (Bounded it point p ↔ FiniteNumber patch))
      (parsePatch it mutationsById idx (.dict patch)) := by
  obtain ⟨op, hmem, hop⟩ := word_of_accepts "op"
    ["replace", "set_numeric", "set_enum"] hschema (by simp) (by simp)
  simp only [mem_cons, not_mem_nil, or_false] at hmem
  rcases hmem with rfl | rfl | rfl
  · exact settles_replace hschema hid hpoint idx hop
  · exact settles_numeric hschema hid hpoint idx hop
  · exact settles_enum hschema hid hpoint idx hop

end Known

variable {mutationsById : Dict String MutationPoint}

/-! ## Lists of patches -/

/-- The patch is of a known point, and may be set there. -/
def PatchAccepted (it : Interp F) (mutationsById : Dict String MutationPoint)
    (raw : PyValue F) : Prop :=
  ∃ patch mutationId point, raw = .dict patch ∧
    Dict.get? patch "mutation_id" = some (.str mutationId) ∧
    Dict.get? mutationsById mutationId = some point ∧ Payload it point patch

/-- The patch is of a known point, and sets a whole number that no float can hold. -/
def Overflows (mutationsById : Dict String MutationPoint) (raw : PyValue F) : Prop :=
  ∃ patch mutationId point, raw = .dict patch ∧
    Dict.get? patch "mutation_id" = some (.str mutationId) ∧
    Dict.get? mutationsById mutationId = some point ∧ Huge patch

/-- What the patch sets, if it is a number, is neither a `nan` nor infinite. -/
def SetsFinite (raw : PyValue F) : Prop := ∀ patch, raw = .dict patch → FiniteNumber patch

/-- The patch targets a point of the manifest, within its bounds. -/
def PatchBounded (it : Interp F) (mutationsById : Dict String MutationPoint) (p : Patch F) : Prop :=
  ∃ point, Dict.get? mutationsById p.mutationId = some point ∧ Bounded it point p

/-- When a patch is accepted. -/
theorem settles_patch (h : patchSchema.accepts raw = true) (idx : Nat) :
    Settles (PatchAccepted it mutationsById raw) (Overflows mutationsById raw)
      (fun p => PatchBounded it mutationsById p ↔ SetsFinite raw)
      (parsePatch it mutationsById idx raw) := by
  obtain ⟨patch, rfl, -⟩ := object_of_accepts h
  obtain ⟨mutationId, hid⟩ :=
    text_of_accepts "mutation_id" 1 h (by simp) (by simp)
  have hknown {patch' : Dict String (PyValue F)} {mutationId' : String} {point : MutationPoint}
      (heq : PyValue.dict patch = .dict patch')
      (hid' : Dict.get? patch' "mutation_id" = some (.str mutationId'))
      (hpoint : Dict.get? mutationsById mutationId' = some point) :
      patch' = patch ∧ Dict.get? mutationsById mutationId = some point := by
    cases heq
    rw [hid, some.injEq, PyValue.str.injEq] at hid'
    exact ⟨rfl, hid' ▸ hpoint⟩
  cases hpoint : Dict.get? mutationsById mutationId with
  | none =>
    simp only [parsePatch, object, ok_bind, text_eq hid, hpoint]
    refine .refused _ ?_ ?_
    all_goals
      rintro ⟨patch', mutationId', point, heq, hid', hpoint', -⟩
      obtain ⟨-, hsome⟩ := hknown heq hid' hpoint'
      rw [hpoint] at hsome
      cases hsome
  | some point =>
    refine (settles_known h hid hpoint idx).imp ?_ ?_ fun p hp => ?_
    · constructor
      · exact fun hpayload => ⟨patch, mutationId, point, rfl, hid, hpoint, hpayload⟩
      · rintro ⟨patch', mutationId', point', heq, hid', hpoint', hpayload⟩
        obtain ⟨rfl, hsome⟩ := hknown heq hid' hpoint'
        rw [hpoint] at hsome
        cases hsome
        exact hpayload
    · constructor
      · exact fun hhuge => ⟨patch, mutationId, point, rfl, hid, hpoint, hhuge⟩
      · rintro ⟨patch', mutationId', point', heq, hid', hpoint', hhuge⟩
        obtain ⟨rfl, -⟩ := hknown heq hid' hpoint'
        exact hhuge
    · obtain ⟨hmutation, hbounded⟩ := hp
      constructor
      · rintro ⟨point', hpoint', hb⟩ patch' heq
        cases heq
        rw [hmutation, hpoint] at hpoint'
        cases hpoint'
        exact hbounded.mp hb
      · exact fun hfinite => ⟨point, hmutation ▸ hpoint, hbounded.mpr (hfinite patch rfl)⟩

/-- A whole number that no float can hold comes after patches that are all accepted. -/
def Breaks (it : Interp F) (mutationsById : Dict String MutationPoint)
    (raws : List (PyValue F)) : Prop :=
  ∃ before raw after, raws = before ++ raw :: after ∧
    (∀ raw ∈ before, PatchAccepted it mutationsById raw) ∧ Overflows mutationsById raw

/-- The first patch that overflows ends the parse. -/
theorem breaks_cons {rest : List (PyValue F)} :
    Breaks it mutationsById (raw :: rest) ↔
      Overflows mutationsById raw ∨
        PatchAccepted it mutationsById raw ∧ Breaks it mutationsById rest := by
  constructor
  · rintro ⟨before, raw', after, heq, hbefore, hover⟩
    cases before with
    | nil =>
      cases heq
      exact .inl hover
    | cons b before =>
      cases heq
      obtain ⟨hb, hbefore⟩ := forall_mem_cons.mp hbefore
      exact .inr ⟨hb, before, raw', after, rfl, hbefore, hover⟩
  · rintro (hover | ⟨haccepted, before, raw', after, rfl, hbefore, hover⟩)
    · exact ⟨[], raw, rest, rfl, by simp, hover⟩
    · exact ⟨raw :: before, raw', after, rfl, forall_mem_cons.mpr ⟨haccepted, hbefore⟩, hover⟩

/-- When a list of patches is accepted. -/
theorem settles_patches {raws : List (PyValue F)}
    (h : ∀ raw ∈ raws, patchSchema.accepts raw = true) (idx : Nat) :
    Settles (∀ raw ∈ raws, PatchAccepted it mutationsById raw) (Breaks it mutationsById raws)
      (fun ps => (∀ p ∈ ps, PatchBounded it mutationsById p) ↔ ∀ raw ∈ raws, SetsFinite raw)
      (parsePatchList it mutationsById idx raws) := by
  induction raws generalizing idx with
  | nil => exact .ok (by simp) (by simp [Breaks]) (by simp)
  | cons raw rest ih =>
    obtain ⟨hraw, hrest⟩ := forall_mem_cons.mp h
    rw [parsePatchList]
    refine ((settles_patch hraw idx).bind fun _ p hp => ((ih hrest (idx + 1)).bind
      (Q := True) (S := False) fun _ ps hps => settles_pure ?_).imp (by simp) (by simp)
        fun _ => id).imp forall_mem_cons.symm breaks_cons.symm fun _ => id
    rw [forall_mem_cons, forall_mem_cons, hp, hps]

/-! ## Documents -/

/-- The document conforms to the schema, its hypothesis is accepted, and these are its patches. -/
structure Proposes (mutationsById : Dict String MutationPoint) (judgeNames : List String)
    (data : PyValue F) (raws : List (PyValue F)) : Prop where
  conforms : EXPERIMENT_JSON_SCHEMA.accepts data = true
  parts : ∃ fields hyp, data = .dict fields ∧ Dict.get? fields "hypothesis" = some (.dict hyp) ∧
    HypothesisAccepted mutationsById judgeNames hyp ∧ Dict.get? fields "patches" = some (.list raws)

omit [PyFloat F] in
theorem Proposes.unique {data : PyValue F}
    {raws raws' : List (PyValue F)} (h : Proposes mutationsById judgeNames data raws)
    (h' : Proposes mutationsById judgeNames data raws') : raws' = raws := by
  obtain ⟨fields, hyp, rfl, -, -, hraws⟩ := h.parts
  obtain ⟨fields', hyp', heq, -, -, hraws'⟩ := h'.parts
  cases heq
  rw [hraws] at hraws'
  cases hraws'
  rfl

/-- When a response is accepted. -/
theorem settles_document {data : PyValue F}
    (epochId parentGen newGen : String) :
    Settles
      (∃ raws, Proposes mutationsById judgeNames data raws ∧
        ∀ raw ∈ raws, PatchAccepted it mutationsById raw)
      (∃ raws, Proposes mutationsById judgeNames data raws ∧ Breaks it mutationsById raws)
      (fun e => (∀ p ∈ e.patches, PatchBounded it mutationsById p) ↔
        ∃ raws, Proposes mutationsById judgeNames data raws ∧ ∀ raw ∈ raws, SetsFinite raw)
      (parseDocument it epochId parentGen newGen mutationsById judgeNames data) := by
  rw [parseDocument]
  cases hconforms : EXPERIMENT_JSON_SCHEMA.accepts data with
  | false =>
    rw [refuseIf, if_pos rfl]
    refine .refused _ ?_ ?_
    all_goals
      rintro ⟨raws, hproposes, -⟩
      rw [hproposes.conforms] at hconforms
      cases hconforms
  | true =>
    obtain ⟨fields, rfl, -⟩ := object_of_accepts hconforms
    obtain ⟨v, hhyp, hv⟩ := field_of_accepts "hypothesis" hypothesisSchema hconforms
      (by simp) (by simp)
    obtain ⟨hyp, rfl, -⟩ := object_of_accepts hv
    obtain ⟨raws, hraws, hall⟩ :=
      items_of_accepts "patches" patchSchema 1 hconforms (by simp)
        (by simp [PATCHES_JSON_SCHEMA])
    have hproposes (h : HypothesisAccepted mutationsById judgeNames hyp) :
        Proposes mutationsById judgeNames (.dict fields) raws :=
      ⟨hconforms, fields, hyp, rfl, hhyp, h, hraws⟩
    have hparts {raws' : List (PyValue F)}
        (h : Proposes mutationsById judgeNames (.dict fields) raws') :
        HypothesisAccepted mutationsById judgeNames hyp ∧ raws' = raws := by
      obtain ⟨fields', hyp', heq, hhyp', hacc, hraws'⟩ := h.parts
      cases heq
      rw [hhyp] at hhyp'
      cases hhyp'
      rw [hraws] at hraws'
      cases hraws'
      exact ⟨hacc, rfl⟩
    rw [refuseIf, if_neg (by simp), ok_bind]
    simp only [object, ok_bind, item_eq hhyp, items_eq hraws]
    refine ((settles_hypothesis hv).andThen (Q := ∀ raw ∈ raws, PatchAccepted it mutationsById raw)
      (S := Breaks it mutationsById raws) fun hacc _ _ => ((settles_patches hall 0).bind
        (Q := True) (S := False) fun _ ps hps => settles_pure ?_).imp (by simp) (by simp)
          fun _ => id).imp ?_ ?_ fun _ => id
    · constructor
      · exact fun hbounded => ⟨raws, hproposes hacc, hps.mp hbounded⟩
      · rintro ⟨raws', hprop, hfinite⟩
        obtain ⟨-, rfl⟩ := hparts hprop
        exact hps.mpr hfinite
    · constructor
      · rintro ⟨hacc, hpatches⟩
        exact ⟨raws, hproposes hacc, hpatches⟩
      · rintro ⟨raws', hprop, hpatches⟩
        obtain ⟨hacc, rfl⟩ := hparts hprop
        exact ⟨hacc, hpatches⟩
    · constructor
      · rintro ⟨hacc, hbreaks⟩
        exact ⟨raws, hproposes hacc, hbreaks⟩
      · rintro ⟨raws', hprop, hbreaks⟩
        obtain ⟨hacc, rfl⟩ := hparts hprop
        exact ⟨hacc, hbreaks⟩

/-! ## Responses -/

/-- An experiment whose patches are all within their bounds, or the error that is documented. -/
def Answered (it : Interp F) (mutationsById : Dict String MutationPoint) :
    Except Fault (Experiment F) → Prop
  | .ok e => ∀ p ∈ e.patches, PatchBounded it mutationsById p
  | .error (.parse _) => True
  | .error _ => False

theorem Settles.answered {P R Q : Prop}
    {x : Except Fault (Experiment F)}
    (h : Settles P R (fun e => (∀ p ∈ e.patches, PatchBounded it mutationsById p) ↔ Q) x) :
    Answered it mutationsById x ↔ ¬ R ∧ (P → Q) := by
  cases h with
  | ok h hr ha =>
    rw [Answered, ha]
    exact ⟨fun hq => ⟨hr, fun _ => hq⟩, fun hq => hq.2 h⟩
  | refused message h hr => exact ⟨fun _ => ⟨hr, fun hp => absurd hp h⟩, fun _ => trivial⟩
  | raised h hr => exact ⟨False.elim, fun hq => hq.1 hr⟩

/-- What a response may not hold: a text, among those that are tried, beyond the interpreter's
limits; a whole number that no float can hold, at a patch that is reached; and, if every patch is
accepted, a `nan` or an infinity. -/
structure Tame (it : Interp F) (mutationsById : Dict String MutationPoint)
    (judgeNames : List String) (responseText : Text) : Prop where
  limits : ∀ text ∈ tried it (stages responseText), it.limited text = false
  numbers : ∀ found data raws, recovered it (stages responseText) = some found →
    Json.loads it.floats found = .ok data → Proposes mutationsById judgeNames data raws →
      ¬ Breaks it mutationsById raws ∧
        ((∀ raw ∈ raws, PatchAccepted it mutationsById raw) → ∀ raw ∈ raws, SetsFinite raw)

/-- A response is answered so exactly if it is tame; a blank one is refused. -/
theorem answered_iff_tame (it : Interp F) (responseText : Text) (epochId parentGen newGen : String)
    (mutationsById : Dict String MutationPoint) (judgeNames : List String) :
    Answered it mutationsById
        (parseExperimentJson it responseText epochId parentGen newGen mutationsById judgeNames) ↔
      (responseText.strip ≠ [] → Tame it mutationsById judgeNames responseText) := by
  rw [parseExperimentJson, refuseIf, extractJsonObject_eq]
  by_cases hblank : responseText.strip = []
  · rw [if_pos hblank]
    exact ⟨fun _ hne => absurd hblank hne, fun _ => trivial⟩
  · rw [if_neg hblank, ok_bind, forall_prop_of_true hblank]
    by_cases hlimited : (tried it (stages responseText)).any it.limited = true
    · rw [if_pos hlimited]
      refine ⟨False.elim, fun htame => ?_⟩
      obtain ⟨text, hmem, htext⟩ := List.any_eq_true.mp hlimited
      rw [htame.limits text hmem] at htext
      cases htext
    · have hlimits : ∀ text ∈ tried it (stages responseText), it.limited text = false := by
        simpa using hlimited
      rw [if_neg hlimited, ok_bind]
      cases hfound : recovered it (stages responseText) with
      | none => exact ⟨fun _ => ⟨hlimits, by simp [hfound]⟩, fun _ => trivial⟩
      | some found =>
        obtain ⟨hmem, hreads⟩ := recovered_reads hfound
        rw [readsObject] at hreads
        cases hloads : Json.loads it.floats found with
        | error message => simp [hloads] at hreads
        | ok data =>
          have hdata : it.loads found = .ok data := by
            rw [Interp.loads, if_neg (by simp [hlimits found hmem]), hloads]
          simp only [hdata]
          rw [(settles_document epochId parentGen newGen).answered]
          constructor
          · rintro ⟨hbreaks, hfinite⟩
            refine ⟨hlimits, fun found' data' raws hfound' hloads' hproposes => ?_⟩
            rw [hfound] at hfound'
            cases hfound'
            rw [hloads] at hloads'
            cases hloads'
            refine ⟨fun h => hbreaks ⟨raws, hproposes, h⟩, fun haccepted => ?_⟩
            obtain ⟨raws', hproposes', h⟩ := hfinite ⟨raws, hproposes, haccepted⟩
            exact hproposes.unique hproposes' ▸ h
          · intro htame
            refine ⟨?_, ?_⟩
            · rintro ⟨raws, hproposes, hbreaks⟩
              exact (htame.numbers found data raws hfound hloads hproposes).1 hbreaks
            · rintro ⟨raws, hproposes, haccepted⟩
              exact ⟨raws, hproposes,
                (htame.numbers found data raws hfound hloads hproposes).2 haccepted⟩

/-- An interpreter with exact floats and without limits. -/
def exact : Interp Exact where
  floats := Json.exactFloats
  limited _ := false
  place _ := ""
  float := fun _ => some (.fin 1)
  repr s := s
  str _ := ""
  violation _ := ""
  uuid := toString
  now := ""

theorem toList_concat {t : String} {l m : Text} (hs : s.toList = l) (ht : t.toList = m) :
    (s ++ t).toList = l ++ m := by
  rw [String.toList_append, hs, ht]

/-- A response that sets a `nan`. -/
def nanResponse : Text :=
  ("\x7b\"hypothesis\": \x7b\"core_idea\": \"i\", \"modulating\": [\"m\"], \"why\": \"w\", " ++
    "\"expected_pass_rate_delta\": \"d\", \"expected_metric_movements\": [\x7b\"metric_name\": " ++
    "\"drift:off_topic\", \"direction\": \"decrease\", \"magnitude\": \"small\"\x7d]\x7d, " ++
    "\"patches\": [\x7b\"mutation_id\": \"m\", \"op\": \"set_numeric\", " ++
    "\"new_numeric\": NaN, \"rationale\": \"r\"\x7d]\x7d").toList

/-- A point whose values lie between one and one. -/
def boundedPoint : Dict String MutationPoint := [("m", ⟨"m", [("min", "1"), ("max", "1")]⟩)]

set_option maxRecDepth 2000 in
/-- The `nan` passes both bounds. -/
theorem nan_not_answered :
    ¬ Answered exact boundedPoint
      (parseExperimentJson exact nanResponse "e" "v0" "v1" boundedPoint []) := by
  -- the kernel reads a literal's characters in quadratic time, so they are given to it
  obtain ⟨text, htext, hparsed⟩ : ∃ text, nanResponse = text ∧
      (match parseExperimentJson exact text "e" "v0" "v1" boundedPoint [] with
      | .ok e => e.patches.any fun p => p.op = .setNumeric ∧ p.newNumeric = some .nan
      | .error _ => false) = true := by
    refine ⟨_, toList_concat (toList_concat (toList_concat (toList_concat String.toList_ofList
      String.toList_ofList) String.toList_ofList) String.toList_ofList) String.toList_ofList, ?_⟩
    decide
  rw [htext]
  cases hresult : parseExperimentJson exact text "e" "v0" "v1" boundedPoint [] with
  | error fault => simp [hresult] at hparsed
  | ok e =>
    rw [hresult] at hparsed
    obtain ⟨p, hp, hop⟩ := List.any_eq_true.mp hparsed
    obtain ⟨hop, hnan⟩ := of_decide_eq_true hop
    intro hbounded
    obtain ⟨point, -, hpoint⟩ := hbounded p hp
    obtain ⟨-, -, x, hx, hfinite, -⟩ := hpoint.setNumeric hop
    rw [hnan] at hx
    cases hx
    cases hfinite

end Zicato.Proposal
