import Zicato.ExperimentParse

/-! # The texts that are tried

`extract_json_object` raises only at a limit that one of the texts it tries is beyond, and what
it finds parses to an object. -/
open List Option
namespace Zicato.Proposal

variable {F : Type} {it : Interp F}

/-- The text parses to an object. -/
def readsObject (it : Interp F) (text : Text) : Bool :=
  match Json.loads it.floats text with
  | .ok (.dict _) => true
  | _ => false

theorem isObject_eq (text : Text) :
    isObject it text = if it.limited text then .error .other else .ok (readsObject it text) := by
  rw [isObject, Interp.loads, readsObject]
  by_cases hlimited : it.limited text = true
  · rw [if_pos hlimited, if_pos hlimited]
  · rw [if_neg hlimited, if_neg hlimited]
    cases Json.loads it.floats text with
    | error message => rfl
    | ok v => cases v <;> rfl

/-- The text that is preferred among some. -/
def choose (it : Interp F) (candidates : List Text) : Option Text :=
  let objects := candidates.filter (readsObject it)
  (objects.find? (looksLikeExperiment it)).or objects.head?

/-- The candidates that are objects. -/
theorem objectsAmong_eq (candidates : List Text) :
    objectsAmong it candidates =
      if candidates.any it.limited then .error .other
      else .ok (candidates.filter (readsObject it)) := by
  induction candidates with
  | nil => rfl
  | cons text rest ih =>
    rw [objectsAmong, ih, isObject_eq, any_cons]
    by_cases hlimited : it.limited text = true
    · rw [if_pos hlimited, hlimited, Bool.true_or, if_pos rfl]
      rfl
    · rw [if_neg hlimited, Bool.eq_false_iff.mpr hlimited, Bool.false_or, ok_bind]
      by_cases hrest : rest.any it.limited = true
      · rw [if_pos hrest, if_pos hrest]
        rfl
      · rw [if_neg hrest, if_neg hrest, ok_bind, filter_cons]
        rfl

theorem preferred_eq (candidates : List Text) :
    preferred it candidates =
      if candidates.any it.limited then .error .other else .ok (choose it candidates) := by
  rw [preferred, objectsAmong_eq]
  by_cases hlimited : candidates.any it.limited = true
  · rw [if_pos hlimited, if_pos hlimited]
    rfl
  · rw [if_neg hlimited, if_neg hlimited]
    rfl

/-- The one text of the clean path, if it is not empty. -/
def cleanTexts (text : Text) : List Text := [(stripFences text).strip].filter (· ≠ [])

/-- The object preferred on the clean path. -/
theorem cleanPath_eq (text : Text) : cleanPath it text = preferred it (cleanTexts text) := by
  rw [preferred_eq, cleanPath, cleanTexts]
  by_cases hempty : (stripFences text).strip = []
  · rw [hempty]
    rfl
  · simp only [ne_eq, hempty, not_false_eq_true, if_true, filter_cons, decide_true,
      filter_nil, any_cons, any_nil, Bool.or_false, isObject_eq]
    by_cases hlimited : it.limited (stripFences text).strip = true
    · rw [if_pos hlimited, if_pos hlimited]
      rfl
    · rw [if_neg hlimited, if_neg hlimited, choose]
      cases hreads : readsObject it (stripFences text).strip with
      | false => simp [hreads]; rfl
      | true =>
        simp only [hreads, filter_cons, filter_nil, if_true, find?_cons,
          find?_nil, head?_cons]
        cases looksLikeExperiment it (stripFences text).strip <;> rfl

/-- The texts of the five fallbacks. -/
def stages (text : Text) : List (List Text) :=
  let dethought := stripReasoningWrappers text
  [cleanTexts text,
    if dethought ≠ text then cleanTexts dethought else [],
    ((anyFences dethought.length dethought).map Text.strip).filter (· ≠ []),
    scanBraceObjects dethought,
    scanAnchored dethought.length dethought]

/-- The texts that are tried: all of a fallback, as long as none before it has found one. -/
def tried (it : Interp F) : List (List Text) → List Text
  | [] => []
  | stage :: rest => stage ++ if (choose it stage).isSome then [] else tried it rest

/-- The text that is found. -/
def recovered (it : Interp F) : List (List Text) → Option Text
  | [] => none
  | stage :: rest => (choose it stage).or (recovered it rest)

/-- The fallbacks in turn. -/
def search (it : Interp F) : List (List Text) → Except Fault (Option Text)
  | [] => .ok none
  | stage :: rest => do
      match ← preferred it stage with
      | some found => return some found
      | none => search it rest

/-- What a search through fallbacks finds. -/
theorem search_eq (fallbacks : List (List Text)) :
    search it fallbacks =
      if (tried it fallbacks).any it.limited then .error .other
      else .ok (recovered it fallbacks) := by
  induction fallbacks with
  | nil => rfl
  | cons stage rest ih =>
    rw [search, preferred_eq, tried, recovered, any_append]
    by_cases hlimited : stage.any it.limited = true
    · rw [if_pos hlimited, hlimited, Bool.true_or, if_pos rfl]
      rfl
    · rw [if_neg hlimited, Bool.eq_false_iff.mpr hlimited, Bool.false_or, ok_bind]
      cases choose it stage with
      | some found => rfl
      | none => exact ih

/-- One fallback before the others. -/
theorem search_cons {stage : List Text} {rest : List (List Text)}
    {onward : Option Text → Except Fault (Option Text)}
    (hsome : ∀ found, onward (some found) = .ok (some found))
    (hnone : onward none = search it rest) :
    (preferred it stage >>= onward) = search it (stage :: rest) := by
  rw [search]
  refine congrArg (preferred it stage >>= ·) (funext fun found => ?_)
  cases found with
  | some found => exact hsome found
  | none => exact hnone

theorem search_nil_cons (rest : List (List Text)) : search it ([] :: rest) = search it rest := rfl

/-- **The extraction is a search through its stages.** -/
theorem extractJsonObject_eq_search (text : Text) :
    extractJsonObject it text = search it (stages text) := by
  have hlast (texts : List Text) : preferred it texts = search it [texts] := by
    rw [search]
    cases preferred it texts with
    | error fault => rfl
    | ok found => cases found <;> rfl
  simp only [extractJsonObject, cleanPath_eq, stages]
  refine search_cons (fun _ => rfl) ?_
  by_cases hsame : stripReasoningWrappers text = text
  · rw [if_neg (not_not_intro hsame), if_neg (not_not_intro hsame), search_nil_cons]
    exact search_cons (fun _ => rfl) (search_cons (fun _ => rfl) (hlast _))
  · rw [if_pos hsame, if_pos hsame]
    exact search_cons (fun _ => rfl) (search_cons (fun _ => rfl)
      (search_cons (fun _ => rfl) (hlast _)))

/-- The extraction raises at a limit of the interpreter only. -/
theorem extractJsonObject_eq (text : Text) :
    extractJsonObject it text =
      if (tried it (stages text)).any it.limited then .error .other
      else .ok (recovered it (stages text)) := by
  rw [extractJsonObject_eq_search, search_eq]

/-- What is found was tried, and parses to an object. -/
theorem recovered_reads {fallbacks : List (List Text)} {found : Text}
    (h : recovered it fallbacks = some found) :
    found ∈ tried it fallbacks ∧ readsObject it found = true := by
  induction fallbacks with
  | nil => cases h
  | cons stage rest ih =>
    rw [recovered] at h
    rw [tried, mem_append]
    cases hchoose : choose it stage with
    | none =>
      rw [hchoose, none_or] at h
      exact ⟨.inr (ih h).1, (ih h).2⟩
    | some found' =>
      rw [hchoose, some_or] at h
      obtain rfl := some.inj h
      have hmem : found' ∈ stage.filter (readsObject it) := by
        rw [choose, or_eq_some_iff] at hchoose
        rcases hchoose with hfind | ⟨-, hhead⟩
        · exact mem_of_find?_eq_some hfind
        · exact mem_of_head? hhead
      obtain ⟨hstage, hreads⟩ := mem_filter.mp hmem
      exact ⟨.inl hstage, hreads⟩

end Zicato.Proposal
