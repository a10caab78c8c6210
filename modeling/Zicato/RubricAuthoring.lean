import Zicato.MatcherTotality

/-! # Rubric specs at authoring time

`_rubric_spec_problem` of `contract_draft/operations.py` beside the judge that reads the
same spec later.  The check lets a null scale through, which the judge refuses, and
integers that no double holds, on which its conversions raise. -/
namespace Zicato.Matchers

variable {F : Type} [PyArith F] (env : Env F)

/-- A number, or none. -/
def optionalNumber : PyValue F → Bool
  | .none => true
  | v => isNumber v

/-- The checks of the fields; no text is no problem. -/
def rubricFieldsProblem (fields : Dict String (PyValue F)) : String :=
  match Dict.getD fields "rubric" .none with
  | .str rubric =>
      if (Text.strip rubric.toList).isEmpty then "is missing a non-empty string 'rubric'"
      else if optionalNumber (Dict.getD fields "threshold" .none) then
        match Dict.getD fields "scale" .none with
        | .none => ""
        | .list [lo, hi] =>
            if isNumber lo && isNumber hi then ""
            else "'scale' entries must be numbers, got " ++ env.repr (.list [lo, hi])
        | scale => "'scale' must be a 2-element [lo, hi] list, got " ++ env.repr scale
      else "'threshold' must be a number or null, got " ++
        env.repr (Dict.getD fields "threshold" .none)
  | _ => "is missing a non-empty string 'rubric'"

/-- `_rubric_spec_problem`; `describe` is the text of a `JSONDecodeError`. -/
def rubricSpecProblem (describe : String → String) (spec : String) : Except PyException String :=
  match env.loads spec.toList with
  | .error (.decode msg) => .ok ("is not valid JSON (" ++ describe msg ++ ")")
  | .error (.raised e) =>
      if e.name = "TypeError" then .ok ("is not valid JSON (" ++ e.text ++ ")") else .error e
  | .ok (.dict fields) => .ok (rubricFieldsProblem env fields)
  | .ok parsed => .ok ("must be a JSON object, got " ++ typeName parsed)

variable {env} {fields data : Dict String (PyValue F)} {score threshold : PyValue F}

/-- What the check lets through: the judge reads two numbers as the scale, unless it is
null. -/
theorem rubricSpec_of_checked (h : rubricFieldsProblem env fields = "") :
    optionalNumber (Dict.getD fields "threshold" .none) = true ∧
      ((Dict.get? fields "scale" = some .none ∧ ∃ detail,
          rubricSpec env (.dict fields) = .error detail) ∨
        Dict.get? fields "scale" ≠ some .none ∧ ∃ rubric lo hi,
          rubricSpec env (.dict fields) =
            .ok (rubric, Dict.getD fields "threshold" .none, lo, hi) ∧
          isNumber lo = true ∧ isNumber hi = true) := by
  unfold rubricFieldsProblem at h
  split at h
  · rename_i rubric hrubric
    replace hrubric : Dict.get? fields "rubric" = some (.str rubric) := by
      rw [Dict.getD] at hrubric
      cases hget : Dict.get? fields "rubric" <;> simp_all
    split at h
    · simp at h
    · split at h
      · rename_i hthreshold
        refine ⟨hthreshold, ?_⟩
        simp only [rubricSpec, hrubric]
        cases hget : Dict.get? fields "scale" with
        | none =>
          simp only [Dict.getD, hget, Option.getD_none]
          exact .inr ⟨by simp, _, _, _, rfl, rfl, rfl⟩
        | some scale =>
          simp only [Dict.getD, hget, Option.getD_some] at h ⊢
          split at h
          · exact .inl ⟨rfl, _, rfl⟩
          · split at h
            · rename_i hnumbers
              exact .inr ⟨by simp, _, _, _, rfl, Bool.and_eq_true_iff.mp hnumbers⟩
            · simp at h
          · simp at h
      · simp at h
  · simp at h

/-- A score passes, or the comparison overflows. -/
theorem passes_cases (h : optionalNumber threshold = true) (s : F) :
    passes env threshold s = .error .overflowError ∨
      ∃ p, passes env threshold s = .ok p ∧ (p = true ↔
        threshold = .none ∨ ∃ t, float env threshold = .ok t ∧ PyFloat.le t s = true) := by
  cases threshold with
  | none => exact .inr ⟨true, rfl, by simp⟩
  | float x => exact .inr ⟨PyFloat.le x s, rfl, by simp [float]⟩
  | int n =>
    simp only [passes, float]
    cases PyFloat.ofInt (F := F) n with
    | none => exact .inl rfl
    | some x => exact .inr ⟨PyFloat.le x s, rfl, by simp⟩
  | _ => cases h

/-- A graded answer has the verdict of the threshold. -/
theorem graded_ok {r : ExpectationResult F} {s : F} (h : optionalNumber threshold = true)
    (hr : gradedResult env threshold data s = .ok r) :
    r.score = none ∧ (r.passed = true ↔
      threshold = .none ∨ ∃ t, float env threshold = .ok t ∧ PyFloat.le t s = true) := by
  obtain ⟨dimensions, -, hr⟩ := bind_eq_ok hr
  rcases passes_cases h s with hpasses | ⟨p, hpasses, hp⟩
  · rw [hpasses] at hr
    cases hr
  · rw [hpasses] at hr
    cases hr
    exact ⟨rfl, hp⟩

section Value
variable (value : F → Exact)

/-- The value of a number. -/
def exact : PyValue F → Exact
  | .int n => .fin n
  | .float x => value x
  | _ => .nan

/-- The threshold is absent or null, or at most the score. -/
def AtMost (threshold score : PyValue F) : Prop :=
  threshold = .none ∨ PyFloat.le (exact value threshold) (exact value score) = true

/-- Converting two numbers to doubles keeps their order. -/
def Rounds (env : Env F) : Prop :=
  ∀ a b x y, isNumber a = true → isNumber b = true → float env a = .ok x →
    float env b = .ok y → PyFloat.le (exact value a) (exact value b) = true →
      PyFloat.le x y = true

/-- What the check leaves to the run: a scale that is not null, numbers in the range of a
double, and a threshold that stays above a lower score when both become doubles. -/
structure Fits (env : Env F) (fields data : Dict String (PyValue F)) (score : PyValue F) :
    Prop where
  scale : Dict.get? fields "scale" ≠ some .none
  bounds : ∀ rubric threshold lo hi,
    rubricSpec env (.dict fields) = .ok (rubric, threshold, lo, hi) →
      InRange env lo ∧ InRange env hi
  inRange : InRange env score
  graded : Gradable env (Dict.getD fields "threshold" .none) data
  separates : ∀ t s, float env (Dict.getD fields "threshold" .none) = .ok t →
    float env score = .ok s → PyFloat.le t s = true →
      PyFloat.le (exact value (Dict.getD fields "threshold" .none)) (exact value score) = true

/-- Of a spec that passes the check, the judge gives the verdict of the threshold exactly
where the numbers fit. -/
theorem authoring_check_agrees_iff (env : Env F) (hround : Rounds value env)
    (describe : String → String) (spec : String) (result : RunResult) (call : AuxCall F)
    (raw : String) (fields data : Dict String (PyValue F)) (score : PyValue F)
    (hcheck : rubricSpecProblem env describe spec = .ok "")
    (hspec : env.loads spec.toList = .ok (.dict fields))
    (hcall : ∀ prompt, call SYSTEM_PROMPT prompt "" = .returned (.str raw))
    (hreply : env.loads (stripCodeFences raw.toList) = .ok (.dict data))
    (hscore : Dict.get? data "score" = some score) (hnumber : isNumber score = true) :
    ((∀ detail, rubricSpec env (.dict fields) ≠ .error detail) ∧
      ∃ r, evaluateRubricJudge env spec result (some call) = .ok r ∧
        (r.passed = true ↔ AtMost value (Dict.getD fields "threshold" .none) score)) ↔
      Fits value env fields data score := by
  rw [rubricSpecProblem, hspec] at hcheck
  obtain ⟨hthreshold, ⟨hscale, detail, hrefused⟩ | ⟨hscale, rubric, lo, hi, hread, hlo, hhi⟩⟩ :=
    rubricSpec_of_checked (Except.ok.inj hcheck)
  · exact iff_of_false (fun h => h.1 detail hrefused) fun h => h.scale hscale
  simp only [evaluateRubricJudge, hspec, hread, hcall, answerResult, hreply, hscore]
  constructor
  · rintro ⟨-, r, hr, hverdict⟩
    obtain ⟨x, hx, hr⟩ := bind_eq_ok hr
    obtain ⟨y, hy, hr⟩ := bind_eq_ok hr
    cases hs : float env score with
    | error e =>
      have hrange : ¬ InRange env score := by
        rw [← converts_of_isNumber env hnumber, Converts, hs]
        simp
      rw [InRange, not_not, hs] at hrange
      cases hrange
      rw [hs] at hr
      cases hr
    | ok s =>
      rw [hs] at hr
      obtain ⟨hnone, hpassed⟩ := graded_ok hthreshold hr
      refine ⟨hscale, ?_, ?_, (returns_graded env _ data s).mp ⟨r, hr, sound_of_none hnone⟩, ?_⟩
      · rintro rubric' threshold' lo' hi' heq
        cases hread.symm.trans heq
        exact ⟨(converts_of_isNumber env hlo).mp ⟨x, (floatOf_ok_iff env).mp hx⟩,
          (converts_of_isNumber env hhi).mp ⟨y, (floatOf_ok_iff env).mp hy⟩⟩
      · exact (converts_of_isNumber env hnumber).mp ⟨s, hs⟩
      · rintro t s' ht hs' hle
        cases hs.symm.trans hs'
        rcases hverdict.mp (hpassed.mpr (Or.inr ⟨t, ht, hle⟩)) with hnull | hatMost
        · rw [hnull] at ht
          cases ht
        · exact hatMost
  · intro h
    have hnumbers : Dict.getD fields "threshold" .none ≠ .none →
        isNumber (Dict.getD fields "threshold" .none) = true := by
      intro hne
      revert hthreshold hne
      cases Dict.getD fields "threshold" .none <;> simp [optionalNumber, isNumber]
    obtain ⟨⟨x, hx⟩, y, hy⟩ := (h.bounds _ _ _ _ hread).imp (converts_of_isNumber env hlo).mpr
      (converts_of_isNumber env hhi).mpr
    obtain ⟨s, hs⟩ := (converts_of_isNumber env hnumber).mpr h.inRange
    obtain ⟨r, hr, -⟩ := (returns_graded env _ data s).mpr h.graded
    refine ⟨by simp, r, ?_, (graded_ok hthreshold hr).2.trans (or_congr_right' fun hne => ?_)⟩
    · rw [(floatOf_ok_iff env).mpr hx, ok_bind, (floatOf_ok_iff env).mpr hy, ok_bind, hs]
      exact hr
    · constructor
      · rintro ⟨t, ht, hle⟩
        exact h.separates t s ht hs hle
      · intro hatMost
        obtain ⟨t, ht⟩ := (converts_of_isNumber env (hnumbers hne)).mpr h.graded.2
        exact ⟨t, ht, hround _ _ t s (hnumbers hne) hnumber ht hs hatMost⟩

end Value

/-- A spec whose scale is null. -/
def nullSpec : String := "\x7b\"rubric\": \"brief\", \"scale\": null\x7d"

/-- A spec with a scale and a threshold. -/
def tensSpec : String :=
  "\x7b\"rubric\": \"brief\", \"scale\": [0, 10], \"threshold\": 6\x7d"

/-- A reply with a score. -/
def scoredReply : String := "\x7b\"score\": 7\x7d"

/-- An interpreter that reads the three texts. -/
def rubricEnv : Env Exact :=
  { scorerEnv (.value .none) with
    loads := fun text =>
      if text = scoredReply.toList then .ok (.dict [("score", .int 7)])
      else if text = nullSpec.toList then
        .ok (.dict [("rubric", .str "brief"), ("scale", .none)])
      else if text = tensSpec.toList then
        .ok (.dict [("rubric", .str "brief"), ("scale", .list [.int 0, .int 10]),
          ("threshold", .int 6)])
      else .error (.decode "Expecting value") }

/-- A judge that gives this reply. -/
def scoring : AuxCall Exact := fun _ _ _ => .returned (.str scoredReply)

/-- The demonstrated environment rounds. -/
theorem rounds_rubricEnv : Rounds id rubricEnv := by
  have hexact : ∀ a x, isNumber a = true → float rubricEnv a = .ok x → exact id a = x := by
    intro a x ha hx
    cases a with
    | int n =>
      cases hx
      rfl
    | float y =>
      cases hx
      rfl
    | _ => cases ha
  intro a b x y ha hb hx hy hle
  rwa [hexact a x ha hx, hexact b y hb hy] at hle

theorem authoring_check_agrees_iff_tens :
    ∃ r, evaluateRubricJudge rubricEnv tensSpec ⟨"", []⟩ (some scoring) = .ok r ∧
      (r.passed = true ↔ AtMost id (.int 6) (.int 7)) := by
  have hint : ∀ n, InRange rubricEnv (.int n) := by simp [InRange, float, PyFloat.ofInt]
  refine ((authoring_check_agrees_iff id _ rounds_rubricEnv id tensSpec ⟨"", []⟩ scoring
    scoredReply _ _ _ rfl rfl (fun _ => rfl) rfl rfl rfl).mpr
    ⟨by simp [Dict.get?], ?_, hint 7, ⟨?_, hint 6⟩, ?_⟩).2
  · rintro rubric threshold lo hi h
    cases h
    exact ⟨hint 0, hint 10⟩
  · rintro fields h e he
    cases h
    cases he
  · rintro t s ht hs -
    cases ht
    cases hs
    decide

/-- Without a threshold every score passes; under a null scale none does. -/
theorem null_scale_fails :
    rubricSpecProblem rubricEnv id nullSpec = .ok "" ∧
      AtMost id (.none : PyValue Exact) (.int 7) ∧
      ∃ r, evaluateRubricJudge rubricEnv nullSpec ⟨"", []⟩ (some scoring) = .ok r ∧
        r.passed = false :=
  ⟨rfl, Or.inl rfl, _, rfl, rfl⟩

end Zicato.Matchers
