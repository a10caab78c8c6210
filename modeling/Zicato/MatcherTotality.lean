import Zicato.Matchers

/-! # Which outcome checks return a result

A check returns a result, and a score of it is within its range, unless a conversion
outside the guards raises: a metric of a scorer that is no number, an integer beyond the
range of a float, an answer of the judge that is no string, or what a library raises
other than its own error. -/
namespace Zicato.Matchers

/-! ## Scores -/

/-- The order of the doubles as far as the clamp uses it. -/
class LawfulUnit (F : Type) [PyArith F] : Prop where
  zero_lt_one : PyFloat.lt PyFloat.zero (PyArith.lit 1 : F) = true
  isfinite_zero : PyFloat.isfinite (PyFloat.zero : F) = true
  isfinite_one : PyFloat.isfinite (PyArith.lit 1 : F) = true
  le_self : ∀ x : F, PyFloat.isfinite x = true → PyFloat.le x x = true
  le_of_lt : ∀ x y : F, PyFloat.lt x y = true → PyFloat.le x y = true
  /-- What lies strictly between two numbers is a number. -/
  isfinite_between : ∀ x : F, PyFloat.lt PyFloat.zero x = true →
    PyFloat.lt x (PyArith.lit 1) = true → PyFloat.isfinite x = true

variable {F : Type} [PyArith F]

/-- A finite number between zero and one. -/
structure InUnit (x : F) : Prop where
  finite : PyFloat.isfinite x = true
  nonneg : PyFloat.le PyFloat.zero x = true
  le_one : PyFloat.le x (PyArith.lit 1) = true

/-- A result has no score, or one in the unit interval that its verdict follows. -/
def ExpectationResult.Sound (r : ExpectationResult F) : Prop :=
  ∀ s, r.score = some s → InUnit s ∧ r.passed = PyFloat.lt PyFloat.zero s

theorem inUnit_zero [LawfulUnit F] : InUnit (PyFloat.zero : F) where
  finite := LawfulUnit.isfinite_zero
  nonneg := LawfulUnit.le_self _ LawfulUnit.isfinite_zero
  le_one := LawfulUnit.le_of_lt _ _ LawfulUnit.zero_lt_one

/-- A clamped score lies in the unit interval. -/
theorem inUnit_clamp [LawfulUnit F] (x : F) : InUnit (clamp x) := by
  rw [clamp]
  split
  · rw [maxZero, minOne]
    by_cases hone : PyFloat.lt x (PyArith.lit 1) = true
    · rw [if_pos hone]
      by_cases hzero : PyFloat.lt PyFloat.zero x = true
      · rw [if_pos hzero]
        exact ⟨LawfulUnit.isfinite_between x hzero hone, LawfulUnit.le_of_lt _ _ hzero,
          LawfulUnit.le_of_lt _ _ hone⟩
      · rw [if_neg hzero]
        exact inUnit_zero
    · rw [if_neg hone, if_pos LawfulUnit.zero_lt_one]
      exact ⟨LawfulUnit.isfinite_one, LawfulUnit.le_of_lt _ _ LawfulUnit.zero_lt_one,
        LawfulUnit.le_self _ LawfulUnit.isfinite_one⟩
  · exact inUnit_zero

/-- A result without a score is sound. -/
theorem sound_of_none {r : ExpectationResult F} (h : r.score = none) : r.Sound := by
  intro s hs
  rw [h] at hs
  cases hs

theorem sound_scoredResult [LawfulUnit F] (metrics : Option (Dict String F)) (score : F) :
    (scoredResult metrics score).Sound := by
  intro s hs
  obtain rfl := Option.some.inj hs
  exact ⟨inUnit_clamp score, rfl⟩

/-- The check returns a result, and it is sound. -/
def Returns (x : Except PyException (ExpectationResult F)) : Prop := ∃ r, x = .ok r ∧ r.Sound

theorem returns_failing (kind : ExpectationKind) (detail : String) :
    Returns (F := F) (.ok (failing kind detail)) := ⟨_, rfl, sound_of_none rfl⟩

theorem not_returns_error (e : PyException) : ¬ Returns (F := F) (.error e) := by
  rintro ⟨r, h, -⟩
  cases h

/-! ## Predicates and scorers -/

variable (env : Env F)

/-- `float` converts the value. -/
def Converts (v : PyValue F) : Prop := ∃ x, float env v = .ok x

/-- `float` does not leave its range. -/
def InRange (v : PyValue F) : Prop := float env v ≠ .error .overflowError

/-- What a callable returns can be recorded: every metric of a score is a number, and the
score itself is in the range of a float. -/
def Recordable : Outcome F → Prop
  | .tuple [rawScore, .dict metrics] =>
      isNumber rawScore = true → InRange env rawScore ∧ ∀ e ∈ metrics, Converts env e.2
  | .value v => isNumber v = true → InRange env v
  | _ => True

theorem floatOf_ok_iff {v : PyValue F} {x : F} : floatOf env v = .ok x ↔ float env v = .ok x := by
  rw [floatOf]
  cases float env v <;> simp [Except.mapError]

theorem converts_of_isNumber {v : PyValue F} (h : isNumber v = true) :
    Converts env v ↔ InRange env v := by
  rw [Converts, InRange]
  cases v with
  | int n =>
    rw [float]
    cases PyFloat.ofInt (F := F) n <;> simp
  | float x => simp [float]
  | _ => cases h

theorem exists_metricOf_iff (e : String × PyValue F) :
    (∃ y, metricOf env e = .ok y) ↔ Converts env e.2 := by
  constructor
  · rintro ⟨y, h⟩
    obtain ⟨x, hx, -⟩ := bind_eq_ok h
    exact ⟨x, (floatOf_ok_iff env).mp hx⟩
  · rintro ⟨x, hx⟩
    refine ⟨(e.1, x), ?_⟩
    rw [metricOf, (floatOf_ok_iff env).mpr hx]
    rfl

variable (spec : String)

/-- When a number is a result. -/
theorem returns_number [LawfulUnit F] (metrics : Option (Dict String F)) {v : PyValue F}
    (hv : isNumber v = true) : Returns (valueResult env spec metrics (.value v)) ↔ InRange env v:= by
  rw [← converts_of_isNumber env hv]
  cases v with
  | int n =>
    constructor
    · rintro ⟨r, h, -⟩
      obtain ⟨x, hx, -⟩ := bind_eq_ok h
      exact ⟨x, (floatOf_ok_iff env).mp hx⟩
    · rintro ⟨x, hx⟩
      refine ⟨_, ?_, sound_scoredResult metrics x⟩
      rw [valueResult, (floatOf_ok_iff env).mpr hx]
      rfl
  | float x => exact iff_of_true ⟨_, rfl, sound_scoredResult metrics x⟩ ⟨x, rfl⟩
  | _ => cases hv

theorem returns_value [LawfulUnit F] (v : PyValue F) :
    Returns (valueResult env spec none (.value v)) ↔ Recordable env (.value v) := by
  by_cases hv : isNumber v = true
  · rw [returns_number env spec none hv]
    exact ⟨fun h _ => h, fun h => h hv⟩
  · refine iff_of_true ?_ fun h => absurd h hv
    cases v with
    | int n => exact absurd rfl hv
    | float x => exact absurd rfl hv
    | bool b => exact ⟨_, rfl, sound_of_none rfl⟩
    | _ => exact returns_failing _ _

/-- When an outcome is a result. -/
theorem returns_outcome [LawfulUnit F] (outcome : Outcome F) :
    Returns (predicateOutcomeToResult env spec outcome) ↔ Recordable env outcome := by
  rw [predicateOutcomeToResult.eq_def]
  split
  · rename_i rawScore rawMetrics
    split
    · rename_i hscore
      split
      · rename_i fields
        constructor
        · rintro ⟨r, h, hr⟩ -
          obtain ⟨pairs, hpairs, h⟩ := bind_eq_ok h
          refine ⟨(returns_number env spec _ hscore).mp ⟨r, h, hr⟩, fun e he => ?_⟩
          exact (exists_metricOf_iff env e).mp (exists_mapM_ok_iff.mp ⟨pairs, hpairs⟩ e he)
        · intro h
          obtain ⟨hrange, hmetrics⟩ := h hscore
          obtain ⟨pairs, hpairs⟩ := exists_mapM_ok_iff.mpr fun e he =>
            (exists_metricOf_iff env e).mpr (hmetrics e he)
          rw [hpairs, ok_bind]
          exact (returns_number env spec _ hscore).mpr hrange
      · rename_i hdict
        refine iff_of_true (returns_failing _ _) ?_
        cases rawMetrics with
        | dict fields => exact absurd rfl (hdict fields)
        | _ => trivial
    · rename_i hscore
      refine iff_of_true (returns_failing _ _) ?_
      cases rawMetrics with
      | dict fields => exact fun h => absurd h hscore
      | _ => trivial
  · rename_i hpair
    cases outcome with
    | value v => exact returns_value env spec v
    | tuple items =>
      refine iff_of_true (returns_failing _ _) ?_
      rcases items with - | ⟨a, - | ⟨b, - | ⟨c, rest⟩⟩⟩
      · trivial
      · trivial
      · exact absurd rfl (hpair a b)
      · cases b <;> trivial

/-- What the import and the call of a predicate give can be recorded. -/
def HandledPredicate (spec : String) (result : RunResult) : Prop :=
  match env.importPath spec with
  | .callable call => ∀ outcome, call result = .ok outcome → Recordable env outcome
  | .raised _ => False
  | _ => True

/-- When a predicate returns. -/
theorem returns_predicate [LawfulUnit F] (result : RunResult) :
    Returns (evalPredicate env spec result) ↔ HandledPredicate env spec result := by
  rw [evalPredicate, HandledPredicate]
  cases env.importPath spec with
  | refused text => exact iff_of_true (returns_failing _ _) trivial
  | object => exact iff_of_true (returns_failing _ _) trivial
  | raised e => exact iff_of_false (not_returns_error e) id
  | callable call =>
    dsimp only
    cases call result with
    | error e =>
      refine iff_of_true (returns_failing _ _) fun outcome h => ?_
      cases h
    | ok outcome =>
      refine (returns_outcome env spec outcome).trans ⟨fun h outcome' heq => ?_, fun h => h _ rfl⟩
      cases heq
      exact h

/-! ## Patterns and schemas -/

/-- `json.loads` raises nothing but its own error. -/
def Loads (text : Text) : Prop := ∀ e, env.loads text ≠ .error (.raised e)

/-- `re.compile` raises nothing but its own error. -/
def HandledRegex (spec : String) : Prop := ∀ e, env.compile spec ≠ .error (.raised e)

/-- When a regex returns. -/
theorem returns_regex (result : RunResult) :
    Returns (evalRegex env spec result) ↔ HandledRegex env spec := by
  rw [evalRegex, HandledRegex]
  cases env.compile spec with
  | error e =>
    cases e with
    | raised e => exact iff_of_false (not_returns_error e) fun h => h e rfl
    | invalid text => exact iff_of_true (returns_failing _ _) (by simp)
  | ok search =>
    refine iff_of_true ?_ (by simp)
    dsimp only
    cases search result.finalOutput with
    | none => exact returns_failing _ _
    | some span => exact ⟨_, rfl, sound_of_none rfl⟩

/-- The schema and the output load, and the validator raises nothing but its own errors. -/
def HandledJsonSchema (spec : String) (result : RunResult) : Prop :=
  Loads env spec.toList ∧
    ∀ schema, env.loads spec.toList = .ok schema →
      Loads env result.finalOutput.toList ∧
        ∀ payload, env.loads result.finalOutput.toList = .ok payload →
          ∀ e, env.validate payload schema ≠ .raised e

/-- When a schema returns. -/
theorem returns_jsonSchema (result : RunResult) :
    Returns (evalJsonSchema env spec result) ↔ HandledJsonSchema env spec result := by
  rw [evalJsonSchema, HandledJsonSchema, Loads, Loads]
  cases env.loads spec.toList with
  | error e =>
    cases e with
    | raised e => exact iff_of_false (not_returns_error e) fun h => h.1 e rfl
    | decode msg => exact iff_of_true (returns_failing _ _) (by simp)
  | ok schema =>
    dsimp only
    cases env.loads result.finalOutput.toList with
    | error e =>
      cases e with
      | raised e => exact iff_of_false (not_returns_error e) fun h => (h.2 schema rfl).1 e rfl
      | decode msg => exact iff_of_true (returns_failing _ _) (by simp)
    | ok payload =>
      dsimp only
      cases hvalid : env.validate payload schema with
      | raised e =>
        exact iff_of_false (not_returns_error e) fun h => (h.2 schema rfl).2 payload rfl e hvalid
      | failed path message =>
        exact iff_of_true (returns_failing _ _) (by simp [hvalid])
      | badSchema message => exact iff_of_true (returns_failing _ _) (by simp [hvalid])
      | valid => exact iff_of_true ⟨_, rfl, sound_of_none rfl⟩ (by simp [hvalid])

/-! ## Rubrics -/

/-- The dimensions and the threshold of a graded answer are in the range of a float. -/
def Gradable (threshold : PyValue F) (data : Dict String (PyValue F)) : Prop :=
  (∀ fields, Dict.getD data "dimensions" (.dict []) = .dict fields →
    ∀ e ∈ fields, InRange env e.2) ∧ InRange env threshold

theorem exists_dimensionStep_iff (dimensions : Dict String F) (e : String × PyValue F) :
    (∃ d, dimensionStep env dimensions e = .ok d) ↔ InRange env e.2 := by
  rw [dimensionStep, InRange]
  cases float env e.2 with
  | ok x => exact iff_of_true ⟨_, rfl⟩ (by simp)
  | error err =>
    cases err with
    | overflowError => exact iff_of_false (fun ⟨_, h⟩ => by cases h) fun h => h rfl
    | typeError => exact iff_of_true ⟨_, rfl⟩ (by simp)
    | valueError => exact iff_of_true ⟨_, rfl⟩ (by simp)

/-- When the dimensions are read. -/
theorem exists_dimensionsOf_iff (data : Dict String (PyValue F)) :
    (∃ d, dimensionsOf env data = .ok d) ↔
      ∀ fields, Dict.getD data "dimensions" (.dict []) = .dict fields →
        ∀ e ∈ fields, InRange env e.2 := by
  rw [dimensionsOf]
  cases Dict.getD data "dimensions" (.dict []) with
  | dict fields =>
    refine (exists_foldlM_ok_iff (exists_dimensionStep_iff env) fields []).trans ?_
    constructor
    · intro h fields' heq
      cases heq
      exact h
    · exact fun h => h fields rfl
  | _ => exact iff_of_true ⟨_, rfl⟩ (by simp)

/-- A threshold of none is in no range at all, and a check of it raises nothing. -/
theorem passes_overflow_iff (threshold : PyValue F) (score : F) :
    passes env threshold score = .error .overflowError ↔ ¬ InRange env threshold := by
  rw [InRange, not_not]
  cases threshold with
  | none => simp [passes, float]
  | _ =>
    rw [passes]
    · cases float env _ <;> simp [Except.map]
    · simp

/-- When a graded reply is a result. -/
theorem returns_graded (threshold : PyValue F) (data : Dict String (PyValue F)) (score : F) :
    Returns (gradedResult env threshold data score) ↔ Gradable env threshold data := by
  rw [Gradable, ← exists_dimensionsOf_iff]
  constructor
  · rintro ⟨r, h, -⟩
    obtain ⟨dimensions, hdimensions, h⟩ := bind_eq_ok h
    refine ⟨⟨dimensions, hdimensions⟩, ?_⟩
    by_contra hrange
    rw [(passes_overflow_iff env threshold score).mpr hrange] at h
    cases h
  · rintro ⟨⟨dimensions, hdimensions⟩, hrange⟩
    rw [gradedResult, hdimensions, ok_bind]
    cases hpasses : passes env threshold score with
    | ok passed => exact ⟨_, rfl, sound_of_none rfl⟩
    | error e =>
      cases e with
      | overflowError => exact absurd hrange ((passes_overflow_iff env threshold score).mp hpasses)
      | typeError => exact returns_failing _ _
      | valueError => exact returns_failing _ _

/-- The answer is a string that loads, and the numbers of the object it holds are in the
range of a float. -/
def HandledAnswer (threshold answer : PyValue F) : Prop :=
  ∃ raw, answer = .str raw ∧ Loads env (stripCodeFences raw.toList) ∧
    ∀ data score, env.loads (stripCodeFences raw.toList) = .ok (.dict data) →
      Dict.get? data "score" = some score →
        InRange env score ∧ (Converts env score → Gradable env threshold data)

theorem handledAnswer_str_iff {threshold : PyValue F} {raw : String} :
    HandledAnswer env threshold (.str raw) ↔ Loads env (stripCodeFences raw.toList) ∧
      ∀ data score, env.loads (stripCodeFences raw.toList) = .ok (.dict data) →
        Dict.get? data "score" = some score →
          InRange env score ∧ (Converts env score → Gradable env threshold data) := by
  constructor
  · rintro ⟨raw', heq, h⟩
    cases heq
    exact h
  · exact fun h => ⟨raw, rfl, h⟩

/-- When the answer of a judge is a result. -/
theorem returns_answer (threshold answer : PyValue F) :
    Returns (answerResult env threshold answer) ↔ HandledAnswer env threshold answer := by
  cases answer with
  | str raw =>
    rw [handledAnswer_str_iff, answerResult, Loads]
    cases env.loads (stripCodeFences raw.toList) with
    | error e =>
      cases e with
      | raised e => exact iff_of_false (not_returns_error e) fun h => h.1 e rfl
      | decode msg => exact iff_of_true (returns_failing _ _) (by simp)
    | ok parsed =>
      cases parsed with
      | dict data =>
        dsimp only
        cases hscore : Dict.get? data "score" with
        | none =>
          refine iff_of_true (returns_failing _ _) ⟨by simp, fun data' score' heq hscore' => ?_⟩
          cases heq
          rw [hscore] at hscore'
          cases hscore'
        | some score =>
          have hgraded : (∀ data' score', Except.ok (PyValue.dict data) =
                (Except.ok (.dict data') : Except LoadError (PyValue F)) →
              Dict.get? data' "score" = some score' →
                InRange env score' ∧ (Converts env score' → Gradable env threshold data')) ↔
              InRange env score ∧ (Converts env score → Gradable env threshold data) := by
            constructor
            · exact fun h => h data score rfl hscore
            · intro h data' score' heq hscore'
              cases heq
              rw [hscore] at hscore'
              cases hscore'
              exact h
          rw [hgraded]
          dsimp only
          rw [InRange, Converts]
          cases float env score with
          | ok x =>
            dsimp only
            rw [returns_graded]
            simp
          | error e =>
            cases e with
            | overflowError => exact iff_of_false (not_returns_error _) fun h => h.2.1 rfl
            | typeError => exact iff_of_true (returns_failing _ _) (by simp)
            | valueError => exact iff_of_true (returns_failing _ _) (by simp)
      | _ => exact iff_of_true (returns_failing _ _) (by simp)
  | _ =>
    refine iff_of_false (not_returns_error _) ?_
    rintro ⟨raw, heq, -⟩
    cases heq

/-- The spec loads, the bounds of its scale are numbers, and so is what the judge is
graded by. -/
def HandledRubric (spec : String) (result : RunResult) (auxCallLlm : Option (AuxCall F)) : Prop :=
  ∀ call, auxCallLlm = some call →
    Loads env spec.toList ∧
      ∀ parsed rubric threshold lo hi, env.loads spec.toList = .ok parsed →
        rubricSpec env parsed = .ok (rubric, threshold, lo, hi) →
          ∃ lo' hi', float env lo = .ok lo' ∧ float env hi = .ok hi' ∧
            ∀ answer,
              call SYSTEM_PROMPT (userPrompt env rubric lo' hi' (selectTranscript result)) "" =
                .returned answer → HandledAnswer env threshold answer

/-- When a rubric returns. -/
theorem returns_rubric (result : RunResult) (auxCallLlm : Option (AuxCall F)) :
    Returns (evaluateRubricJudge env spec result auxCallLlm) ↔
      HandledRubric env spec result auxCallLlm := by
  rw [evaluateRubricJudge.eq_def]
  cases auxCallLlm with
  | none => exact iff_of_true (returns_failing _ _) fun call h => by cases h
  | some call =>
    rw [HandledRubric]
    simp only [Option.some.injEq, forall_eq', Loads]
    cases env.loads spec.toList with
    | error e =>
      cases e with
      | raised e => exact iff_of_false (not_returns_error e) fun h => h.1 e rfl
      | decode msg => exact iff_of_true (returns_failing _ _) (by simp)
    | ok parsed =>
      dsimp only
      cases hspec : rubricSpec env parsed with
      | error detail =>
        refine iff_of_true (returns_failing _ _) ⟨by simp, ?_⟩
        intro parsed' _ _ _ _ heq hok
        cases heq
        rw [hspec] at hok
        cases hok
      | ok parts =>
        obtain ⟨rubric, threshold, lo, hi⟩ := parts
        constructor
        · rintro ⟨r, h, hr⟩
          obtain ⟨lo', hlo, h⟩ := bind_eq_ok h
          obtain ⟨hi', hhi, h⟩ := bind_eq_ok h
          refine ⟨by simp, fun parsed' rubric' threshold' lo1 hi1 heq hok => ?_⟩
          cases heq
          rw [hspec] at hok
          cases hok
          refine ⟨lo', hi', (floatOf_ok_iff env).mp hlo, (floatOf_ok_iff env).mp hhi,
            fun answer hanswer => ?_⟩
          rw [hanswer] at h
          exact (returns_answer env threshold answer).mp ⟨r, h, hr⟩
        · rintro ⟨-, h⟩
          obtain ⟨lo', hi', hlo, hhi, hanswer⟩ := h parsed rubric threshold lo hi rfl hspec
          dsimp only
          rw [(floatOf_ok_iff env).mpr hlo, ok_bind, (floatOf_ok_iff env).mpr hhi, ok_bind]
          cases hcalled : call SYSTEM_PROMPT
              (userPrompt env rubric lo' hi' (selectTranscript result)) "" with
          | timeout => exact returns_failing _ _
          | raised e => exact returns_failing _ _
          | returned answer => exact (returns_answer env threshold answer).mpr (hanswer answer hcalled)

/-! ## All kinds -/

/-- What a check of each kind meets raises nothing outside its guards. -/
def Handled (expectation : Expectation) (result : RunResult)
    (auxCallLlm : Option (AuxCall F)) : Prop :=
  match expectation.kind with
  | .predicate => HandledPredicate env expectation.spec result
  | .expectedText => True
  | .regex => HandledRegex env expectation.spec
  | .jsonSchema => HandledJsonSchema env expectation.spec result
  | .rubric => HandledRubric env expectation.spec result auxCallLlm

theorem returns_expectedText (result : RunResult) : Returns (.ok (evalExpectedText env spec result)):= by
  rw [evalExpectedText]
  split
  · exact returns_failing _ _
  · exact ⟨_, rfl, sound_of_none rfl⟩

/-- An outcome check returns a sound result where everything it meets is handled. -/
theorem returns_iff_handled [LawfulUnit F] (expectation : Expectation) (result : RunResult)
    (auxCallLlm : Option (AuxCall F)) :
    Returns (evaluateExpectation env expectation result auxCallLlm) ↔
      Handled env expectation result auxCallLlm := by
  rw [evaluateExpectation, Handled]
  cases expectation.kind with
  | predicate => exact returns_predicate env _ result
  | expectedText => exact iff_of_true (returns_expectedText env _ result) trivial
  | regex => exact returns_regex env _ result
  | jsonSchema => exact returns_jsonSchema env _ result
  | rubric => exact returns_rubric env _ result auxCallLlm

instance : LawfulUnit Exact where
  zero_lt_one := by decide
  isfinite_zero := rfl
  isfinite_one := rfl
  le_self x hx := by
    cases x with
    | fin q => simp [PyFloat.le, Exact.eq]
    | _ => cases hx
  le_of_lt x y h := by
    change (Exact.lt x y || Exact.eq x y) = true
    rw [show Exact.lt x y = true from h, Bool.true_or]
  isfinite_between x hzero hone := by
    cases x with
    | fin q => rfl
    | nan => cases hzero
    | ninf => cases hzero
    | pinf => cases hone

/-- An interpreter whose predicate returns an outcome. -/
def scorerEnv (outcome : Outcome Exact) : Env Exact where
  loads _ := .error (.decode "Expecting value")
  float _ := none
  str _ := ""
  repr _ := ""
  importPath _ := .callable fun _ => .ok outcome
  compile _ := .error (.invalid "")
  validate _ _ := .valid

/-- An expectation that a function of the repository scores. -/
def scorer : Expectation := ⟨.predicate, "board.scorers:f1"⟩

/-- A score with its precision. -/
theorem returns_iff_handled_scorer :
    Returns (evaluateExpectation
      (scorerEnv (.tuple [.float (.fin (1 / 2)), .dict [("precision", .int 1)]]))
      scorer ⟨"", []⟩ none) := by
  refine (returns_iff_handled _ scorer ⟨"", []⟩ none).mpr fun outcome h => ?_
  cases h
  intro _
  refine ⟨fun h => (by cases h), fun e he => ?_⟩
  rw [List.mem_singleton.mp he]
  exact ⟨_, rfl⟩

/-- A precision of none raises. -/
theorem missing_metric_raises :
    ¬ Returns (evaluateExpectation
      (scorerEnv (.tuple [.float (.fin (1 / 2)), .dict [("precision", .none)]]))
      scorer ⟨"", []⟩ none) :=
  not_returns_error _

end Zicato.Matchers
