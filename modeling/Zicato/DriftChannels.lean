import Zicato.Events
import Zicato.TextLines

/-! # Drift events and the channels they are charged in

The walk of `_goldfive_signals` pairs a drift event of kind `custom` with the judge
that spoke last; `builtin_drift_loss` and `compute_per_judge_loss` then share the
drift metrics between them.  The arithmetic is exact. -/
open List Zicato.Dict
namespace Zicato.Events

open Scoring (MetricSeverity MetricCount JudgeLoss)

variable {F : Type}

/-! ## Counting under keys -/

section Tally

variable {κ : Type} [DecidableEq κ]

/-- `d[k] = d.get(k, 0) + 1`. -/
def bump (d : Dict κ Nat) (k : κ) : Dict κ Nat := Dict.set d k (Dict.getD d k 0 + 1)

/-- How often each key occurs. -/
def tally (keys : List κ) : Dict κ Nat := keys.foldl bump []

variable (keys : List κ)

theorem tally_concat (k : κ) : tally (keys ++ [k]) = bump (tally keys) k := by
  rw [tally, foldl_append]
  rfl

/-- How often a key occurs. -/
def occurrences (keys : List κ) (k : κ) : Nat := keys.countP fun k' => decide (k' = k)

theorem getD_tally (k : κ) : Dict.getD (tally keys) k 0 = occurrences keys k:= by
  induction keys using reverseRecOn with
  | nil => rfl
  | append_singleton keys k' ih =>
    rw [tally_concat, bump, getD_set, occurrences, countP_append, countP_singleton,
      ← occurrences, ← ih]
    by_cases h : k' = k
    · subst h
      simp
    · simp [h]

theorem nodup_keys_tally : (Dict.keys (tally keys)).Nodup := by
  induction keys using reverseRecOn with
  | nil => exact nodup_nil
  | append_singleton keys k ih =>
    rw [tally_concat]
    exact nodup_keys_set ih _ _

/-- A bump adds one to the sum. -/
theorem sum_bump (d : Dict κ Nat) (k : κ) :
    ((bump d k).map Prod.snd).sum = (d.map Prod.snd).sum + 1 := by
  have hset : ∀ (d : Dict κ Nat) (n : Nat), Dict.getD d k 0 ≤ n →
      ((Dict.set d k n).map Prod.snd).sum = (d.map Prod.snd).sum + (n - Dict.getD d k 0) := by
    intro d n
    induction d with
    | nil => simp [Dict.set, Dict.getD]
    | cons e rest ih =>
      obtain ⟨k', m⟩ := e
      intro hn
      by_cases h : k' = k
      · simp only [Dict.getD, Dict.get?, if_pos h, Option.getD_some] at hn ⊢
        simp only [Dict.set, if_pos h, map_cons, sum_cons]
        omega
      · have hrest : Dict.getD ((k', m) :: rest) k 0 = Dict.getD rest k 0 := by
          rw [Dict.getD, Dict.get?, if_neg h, Dict.getD]
        rw [hrest] at hn ⊢
        simp only [Dict.set, if_neg h, map_cons, sum_cons, ih hn]
        omega
  rw [bump, hset d _ (Nat.le_add_right _ _)]
  omega

theorem sum_tally : ((tally keys).map Prod.snd).sum = keys.length := by
  induction keys using reverseRecOn with
  | nil => rfl
  | append_singleton keys k ih => rw [tally_concat, sum_bump, ih, length_append]; rfl

/-- What is counted under a key is how often it occurs. -/
theorem mem_tally {keys : List κ} {k : κ} {n : Nat} :
    (k, n) ∈ tally keys ↔ k ∈ keys ∧ n = occurrences keys k := by
  have hkeys : ∀ k, k ∈ Dict.keys (tally keys) ↔ k ∈ keys := by
    intro k
    induction keys using reverseRecOn with
    | nil => exact Iff.rfl
    | append_singleton keys k' ih =>
      rw [tally_concat, bump, mem_keys_set, ih, mem_append, mem_singleton]
  rw [← hkeys, ← getD_tally, ← get?_eq_some_iff (nodup_keys_tally keys),
    mem_keys_iff, Dict.getD]
  cases h : Dict.get? (tally keys) k with
  | none => simp
  | some m => simp [eq_comm]

end Tally

/-! ## Attribution -/

section Attribution

variable [PyArith F] (it : Interp F)

/-- The judge of a drift-flavoured judgement. -/
def judgementOf (evt : EventRecord F) : Option String :=
  if evt.case = "judgement_emitted" then judgementJudgeName it evt.payload else none

/-- The last drift-flavoured judgement of `before` that follows its last drift event. -/
def pairedJudge (before : List (EventRecord F)) : Option String :=
  (before.reverse.takeWhile fun evt => decide (evt.case ≠ "drift_detected")).findSome?
    (judgementOf it)

/-- What a drift event after `before` is counted under, if its kind and severity are
recognised. -/
def keyOf (before : List (EventRecord F)) (evt : EventRecord F) :
    Option (String × MetricSeverity) :=
  if evt.case = "drift_detected" then driftKey it (pairedJudge it before) evt.payload else none

/-- What the drift events are counted under, one by one. -/
def driftKeys (events : List (EventRecord F)) : List (String × MetricSeverity) :=
  (List.range events.length).filterMap fun i =>
    (events[i]?).bind (keyOf it (events.take i))

/-- A drift event whose kind and severity are recognised. -/
def recognised (evt : EventRecord F) : Bool :=
  evt.case = "drift_detected" && (extractDriftBuckets it evt.payload).1.isSome &&
    (extractDriftBuckets it evt.payload).2.isSome

variable (events : List (EventRecord F))

theorem pairedJudge_concat (evt : EventRecord F) : pairedJudge it (events ++ [evt]) =
      if evt.case = "drift_detected" then none
      else (judgementOf it evt).or (pairedJudge it events) := by
  rw [pairedJudge, reverse_concat, takeWhile_cons]
  by_cases h : evt.case = "drift_detected"
  · simp [h]
  · simp only [h, ne_eq, not_false_eq_true, decide_true, if_true, if_false, findSome?_cons]
    cases judgementOf it evt <;> rfl

theorem driftKeys_concat (evt : EventRecord F) :
    driftKeys it (events ++ [evt]) = driftKeys it events ++ (keyOf it events evt).toList := by
  rw [driftKeys, length_append, length_singleton, range_succ,
    filterMap_append]
  congr 1
  · refine filterMap_congr fun i hi => ?_
    have hlt : i < events.length := mem_range.mp hi
    rw [getElem?_append_left hlt, take_append_of_le_length hlt.le]
  · rw [filterMap_cons, filterMap_nil, getElem?_concat_length,
      take_left' rfl, Option.bind_some]
    cases keyOf it events evt <;> rfl

/-- One key for each recognised event. -/
theorem length_driftKeys : (driftKeys it events).length = events.countP (recognised it):= by
  induction events using reverseRecOn with
  | nil => rfl
  | append_singleton events evt ih =>
    rw [driftKeys_concat, length_append, ih, countP_append, countP_singleton]
    congr 1
    rw [keyOf, recognised, driftKey]
    by_cases h : evt.case = "drift_detected"
    · rw [if_pos h, h]
      rcases extractDriftBuckets it evt.payload with ⟨_ | kind, _ | sev⟩ <;> rfl
    · rw [if_neg h]
      simp [h]

/-- The variables of the walk that the drift metrics depend on. -/
structure Walked (events : List (EventRecord F)) (w : Walk) : Prop where
  bucket : w.driftBucket = tally (driftKeys it events)
  pending : w.pendingJudgeName = pairedJudge it events

/-- What one event adds. -/
theorem Walked.step {events : List (EventRecord F)} {evt : EventRecord F} {w w' : Walk}
    (hw : Walked it events w) (h : walkStep it w evt = .ok w') :
    Walked it (events ++ [evt]) w' := by
  have key (hkey : w'.driftBucket =
        (keyOf it events evt).elim w.driftBucket (bump w.driftBucket))
      (hpending : w'.pendingJudgeName = pairedJudge it (events ++ [evt])) :
      Walked it (events ++ [evt]) w' := by
    refine ⟨?_, hpending⟩
    rw [hkey, driftKeys_concat, hw.bucket]
    cases keyOf it events evt with
    | none => simp
    | some k => exact (tally_concat _ k).symm
  rw [walkStep, walkCase] at h
  split at h
  · rename_i hcase
    have hdrift : evt.case ≠ "drift_detected" := by
      rw [hcase]
      decide
    have hnone : keyOf it events evt = none := if_neg hdrift
    have hpaired := pairedJudge_concat it events evt
    rw [if_neg hdrift, judgementOf, if_pos hcase] at hpaired
    split at h <;> rename_i hname <;> cases h <;> refine key (by rw [hnone]; rfl) ?_
    · rw [hpaired, hname]
      rfl
    · rw [hpaired, hname]
      exact hw.pending
  split at h
  · rename_i hjudge hcase
    have hkey : keyOf it events evt = driftKey it w.pendingJudgeName evt.payload := by
      rw [keyOf, if_pos hcase, hw.pending]
    have hpaired := pairedJudge_concat it events evt
    rw [if_pos hcase] at hpaired
    dsimp only at h
    split at h <;> rename_i hname <;> cases h <;> refine key ?_ hpaired.symm
    · rw [hkey, hname]
      rfl
    · rw [hkey, hname]
      rfl
  -- No other case touches the buckets or the pending judge.
  · rename_i hjudge hdrift
    have hnone : keyOf it events evt = none := if_neg hdrift
    have hpaired : pairedJudge it (events ++ [evt]) = pairedJudge it events := by
      rw [pairedJudge_concat, if_neg hdrift, judgementOf, if_neg hjudge, Option.none_or]
    have hsame : w'.driftBucket = w.driftBucket ∧ w'.pendingJudgeName = w.pendingJudgeName := by
      split at h
      · cases h; exact ⟨rfl, rfl⟩
      split at h
      · cases h; exact ⟨rfl, rfl⟩
      split at h
      · cases h; exact ⟨rfl, rfl⟩
      split at h
      · obtain ⟨tokens, -, h⟩ := bind_eq_ok h
        cases h
        exact ⟨rfl, rfl⟩
      split at h <;> cases h <;> exact ⟨rfl, rfl⟩
    refine key ?_ ?_
    · rw [hnone, hsame.1]
      rfl
    · rw [hpaired, hsame.2, hw.pending]

/-- What a whole log adds. -/
theorem Walked.run {events : List (EventRecord F)} {w : Walk}
    (h : events.foldlM (walkStep it) {} = .ok w) : Walked it events w := by
  induction events using reverseRecOn generalizing w with
  | nil =>
    cases h
    exact ⟨rfl, rfl⟩
  | append_singleton events evt ih =>
    rw [foldlM_append] at h
    obtain ⟨w', hw', hstep⟩ := bind_eq_ok h
    rw [foldlM_cons] at hstep
    obtain ⟨w'', hw'', hlast⟩ := bind_eq_ok hstep
    cases hlast
    exact (ih hw').step it hw''

end Attribution

/-! ## The two channels -/

/-- What the drift and judge channels read of `ScoringWeights`. -/
structure DriftWeights where
  severityWeights : Dict String ℚ
  perKindWeights : Dict String ℚ := []
  planRevisionWeight : ℚ := 0
  perJudgeWeights : Dict String ℚ := []
  defaultJudgeWeight : ℚ := 1

/-- `name.removeprefix("drift:")`, if the name starts so. -/
def driftKind? (name : String) : Option String :=
  (Text.after? "drift:" name.toList).map String.ofList

/-- `is_judge_attributed_kind`. -/
def isJudgeAttributedKind (kind : String) : Bool :=
  kind == "custom" || Text.startsWith kind.toList "custom:"

/-- `split_judge_attributed_kind`. -/
def splitJudgeAttributedKind (kind : String) : Bool × String :=
  if kind = CUSTOM_DRIFT_KIND then (true, "")
  else
    match Text.after? (CUSTOM_DRIFT_KIND ++ JUDGE_KIND_SEP) kind.toList with
    | some name => (true, String.ofList name)
    | none => (false, "")

section Channels

variable (weights : DriftWeights)

/-- `severity_weights.get(severity, 0.0)`. -/
def severityWeight (severity : MetricSeverity) : ℚ :=
  Dict.getD weights.severityWeights (severityValue severity) 0

/-- `_kind_multiplier`. -/
def kindMultiplier (kind : String) : ℚ := Dict.getD weights.perKindWeights kind 1

/-- The term of a drift metric that no judge is charged with. -/
def driftTerm (c : MetricCount) : Option ℚ :=
  match driftKind? c.name with
  | some kind =>
      if isJudgeAttributedKind kind then none
      else some (severityWeight weights c.severity * kindMultiplier weights kind * c.count)
  | none => none

/-- `builtin_drift_loss`. -/
def builtinDriftLoss (counts : List MetricCount) (planRevisions : Nat) : ℚ :=
  max 0 ((counts.filterMap (driftTerm weights)).sum + weights.planRevisionWeight * planRevisions)

/-- The judge a metric is charged to, and what it adds. -/
def judgeTerm (c : MetricCount) : Option (String × ℚ) :=
  match driftKind? c.name with
  | some kind =>
      if (splitJudgeAttributedKind kind).1 then
        some ((splitJudgeAttributedKind kind).2, severityWeight weights c.severity * c.count)
      else none
  | none => none

/-- One turn of the loop of `compute_per_judge_loss`. -/
def chargeJudge (raw : Dict String ℚ) (c : MetricCount) : Dict String ℚ :=
  match judgeTerm weights c with
  | some (name, loss) => Dict.set raw name (Dict.getD raw name 0 + loss)
  | none => raw

/-- `raw_by_judge`. -/
def rawByJudge (counts : List MetricCount) : Dict String ℚ :=
  counts.foldl (chargeJudge weights) []

/-- `compute_per_judge_loss`. -/
def computePerJudgeLoss (counts : List MetricCount) : List JudgeLoss :=
  (sorted (fun a b => decide (a < b)) (rawByJudge weights counts).keys).map fun judgeName =>
    let rawLoss := Dict.getD (rawByJudge weights counts) judgeName 0
    let weight := Dict.getD weights.perJudgeWeights judgeName weights.defaultJudgeWeight
    { judgeName := judgeName, rawLoss := rawLoss, weight := weight, weightedLoss := rawLoss * weight }

/-- The severity- and kind-weighted count of a drift metric; a kind that is attributed to
a judge weighs one. -/
def weightedCount (c : MetricCount) : ℚ :=
  match driftKind? c.name with
  | some kind =>
      severityWeight weights c.severity *
        (if isJudgeAttributedKind kind then 1 else kindMultiplier weights kind) * c.count
  | none => 0

end Channels

/-- The two tests of a kind agree. -/
theorem splitJudgeAttributedKind_fst (kind : String) :
    (splitJudgeAttributedKind kind).1 = isJudgeAttributedKind kind := by
  have hpref : (CUSTOM_DRIFT_KIND ++ JUDGE_KIND_SEP).toList = "custom:".toList := by decide
  rw [splitJudgeAttributedKind, isJudgeAttributedKind, CUSTOM_DRIFT_KIND] at *
  by_cases h : kind = "custom"
  · simp [h]
  · rw [if_neg h, Bool.or_eq_right_iff_imp.mpr (by simp [h]), Text.after?, Text.startsWith, hpref]
    cases hdrop : kind.toList.dropPrefix? "custom:".toList with
    | some rest =>
      have := List.dropPrefix?_eq_some.mp hdrop
      rw [this]
      simp
    | none =>
      symm
      rw [Bool.eq_false_iff]
      intro hpre
      obtain ⟨rest, hrest⟩ := isPrefixOf_iff_prefix.mp hpre
      rw [List.dropPrefix?_eq_some.mpr hrest.symm] at hdrop
      cases hdrop

/-- The name of the judge comes back, stripped. -/
theorem split_judgeAttributedKind (name : String) :
    splitJudgeAttributedKind (judgeAttributedKind name) =
      (true, String.ofList (Text.strip name.toList)) := by
  rw [judgeAttributedKind]
  by_cases h : Text.strip name.toList = []
  · rw [if_pos h, h]
    rfl
  · rw [if_neg h, splitJudgeAttributedKind]
    have hne : CUSTOM_DRIFT_KIND ++ JUDGE_KIND_SEP ++ String.ofList (Text.strip name.toList) ≠
        CUSTOM_DRIFT_KIND := by
      intro heq
      have := congrArg (fun s => s.toList.length) heq
      simp [String.toList_append, JUDGE_KIND_SEP] at this
    have hdrop : Text.after? (CUSTOM_DRIFT_KIND ++ JUDGE_KIND_SEP)
        (CUSTOM_DRIFT_KIND ++ JUDGE_KIND_SEP ++ String.ofList (Text.strip name.toList)).toList =
          some (Text.strip name.toList) := by
      rw [Text.after?, List.dropPrefix?_eq_some, String.toList_append, String.toList_ofList]
    rw [if_neg hne, hdrop]

section Split

variable {weights : DriftWeights}

/-- A metric is charged in one channel: each drift metric, and no other. -/
theorem term_xor (c : MetricCount) :
    ((driftTerm weights c).isSome = true ∧ (judgeTerm weights c).isSome = false ∨
        (driftTerm weights c).isSome = false ∧ (judgeTerm weights c).isSome = true) ↔
      (driftKind? c.name).isSome = true := by
  rw [driftTerm, judgeTerm]
  cases driftKind? c.name with
  | none => simp
  | some kind =>
    simp only [splitJudgeAttributedKind_fst]
    cases isJudgeAttributedKind kind <;> simp

theorem weightedCount_eq (c : MetricCount) :
    weightedCount weights c =
      ((judgeTerm weights c).map Prod.snd).getD 0 + (driftTerm weights c).getD 0 := by
  rw [weightedCount, driftTerm, judgeTerm]
  cases driftKind? c.name with
  | none => simp
  | some kind =>
    simp only [splitJudgeAttributedKind_fst]
    cases isJudgeAttributedKind kind <;> simp

theorem total_chargeJudge (raw : Dict String ℚ) (c : MetricCount) :
    Dict.total (chargeJudge weights raw c) =
      Dict.total raw + ((judgeTerm weights c).map Prod.snd).getD 0 := by
  rw [chargeJudge]
  cases judgeTerm weights c with
  | none => simp
  | some term =>
    rw [total_set, add_sub_cancel_left]
    rfl

theorem nodup_chargeJudge {raw : Dict String ℚ} (h : (Dict.keys raw).Nodup) (c : MetricCount) :
    (Dict.keys (chargeJudge weights raw c)).Nodup := by
  rw [chargeJudge]
  split
  · exact nodup_keys_set h _ _
  · exact h

variable (counts : List MetricCount)

theorem nodup_rawByJudge : (Dict.keys (rawByJudge weights counts)).Nodup:= by
  induction counts using reverseRecOn with
  | nil => exact nodup_nil
  | append_singleton counts c ih =>
    rw [rawByJudge, foldl_append]
    exact nodup_chargeJudge ih c

/-- The channels together charge what the drift metrics weigh. -/
theorem total_channels :
    Dict.total (rawByJudge weights counts) + (counts.filterMap (driftTerm weights)).sum =
      (counts.map (weightedCount weights)).sum := by
  induction counts using reverseRecOn with
  | nil => simp [rawByJudge, Dict.total]
  | append_singleton counts c ih =>
    have hraw : rawByJudge weights (counts ++ [c]) =
        chargeJudge weights (rawByJudge weights counts) c := by
      rw [rawByJudge, foldl_append]
      rfl
    have hterm : ([c].filterMap (driftTerm weights)).sum = (driftTerm weights c).getD 0 := by
      rw [filterMap_cons]
      cases driftTerm weights c <;> simp
    rw [hraw, total_chargeJudge, filterMap_append, sum_append, hterm, map_append,
      sum_append, ← ih, map_singleton, sum_singleton, weightedCount_eq]
    abel

theorem sum_rawLoss : ((computePerJudgeLoss weights counts).map JudgeLoss.rawLoss).sum =
      Dict.total (rawByJudge weights counts) := by
  rw [computePerJudgeLoss, map_map, total_eq_sum (nodup_rawByJudge counts)]
  exact ((sorted_perm _ _).map _).sum_eq

end Split

/-! ## Every drift event once -/

/-- The metrics count each recognised drift event once, under its kind and severity. -/
structure CountedOnce [PyArith F] (it : Interp F) (events : List (EventRecord F))
    (metrics : List MetricCount) : Prop where
  total : (metrics.map MetricCount.count).sum = (events.countP (recognised it) : ℚ)
  counted : ∀ kind severity n, (⟨"drift:" ++ kind, severity, n⟩ : MetricCount) ∈ metrics ↔
    (kind, severity) ∈ driftKeys it events ∧ n = (occurrences (driftKeys it events) (kind, severity) : ℚ)
  attributed : ∀ i evt severity, events[i]? = some evt → evt.case = "drift_detected" →
    extractDriftBuckets it evt.payload = (some CUSTOM_DRIFT_KIND, some severity) →
      keyOf it (events.take i) evt =
        some (judgeAttributedKind ((pairedJudge it (events.take i)).getD ""), severity)

/-- A drift metric is charged to a judge or to the drift channel, and neither charges
anything else. -/
structure ChargedOnce (weights : DriftWeights) : Prop where
  one : ∀ c, ((driftTerm weights c).isSome = true ∧ (judgeTerm weights c).isSome = false ∨
      (driftTerm weights c).isSome = false ∧ (judgeTerm weights c).isSome = true) ↔
    (driftKind? c.name).isSome = true
  sum : ∀ counts, ((computePerJudgeLoss weights counts).map JudgeLoss.rawLoss).sum +
      (counts.filterMap (driftTerm weights)).sum = (counts.map (weightedCount weights)).sum
  split : ∀ name, splitJudgeAttributedKind (judgeAttributedKind name) =
    (true, String.ofList (Text.strip name.toList))

theorem sum_driftMetrics (bucket : Dict (String × MetricSeverity) Nat) :
    ((driftMetrics bucket).map MetricCount.count).sum = ((bucket.map Prod.snd).sum : ℚ) := by
  rw [driftMetrics, map_map]
  refine (((sorted_perm bucketLt bucket).map _).sum_eq).trans ?_
  induction bucket with
  | nil => rfl
  | cons e rest ih =>
    rw [map_cons, sum_cons, ih, map_cons, sum_cons, Nat.cast_add]
    rfl

/-- A drift metric is the count of its kind and severity. -/
theorem mem_driftMetrics {bucket : Dict (String × MetricSeverity) Nat} {kind : String}
    {severity : MetricSeverity} {n : ℚ} :
    (⟨"drift:" ++ kind, severity, n⟩ : MetricCount) ∈ driftMetrics bucket ↔
      ∃ m : Nat, ((kind, severity), m) ∈ bucket ∧ n = m := by
  rw [driftMetrics, mem_map]
  constructor
  · rintro ⟨⟨⟨kind', severity'⟩, m⟩, hmem, heq⟩
    obtain ⟨hname, rfl, rfl⟩ := MetricCount.mk.inj heq
    have hkind : kind' = kind := by
      have := congrArg String.toList hname
      rw [String.toList_append, String.toList_append] at this
      exact String.toList_inj.mp (append_cancel_left this)
    subst hkind
    exact ⟨m, (mem_sorted _ _ _).mp hmem, rfl⟩
  · rintro ⟨m, hmem, rfl⟩
    exact ⟨((kind, severity), m), (mem_sorted _ _ _).mpr hmem, rfl⟩

/-- **Every drift event is counted once.** -/
theorem countedOnce_of_walked [PyArith F] {it : Interp F} {events : List (EventRecord F)}
    {w : Walk} (hw : Walked it events w) : CountedOnce it events (driftMetrics w.driftBucket) where
  total := by
    rw [sum_driftMetrics, hw.bucket, sum_tally, length_driftKeys]
  counted kind severity n := by
    rw [mem_driftMetrics, hw.bucket]
    constructor
    · rintro ⟨m, hmem, rfl⟩
      obtain ⟨hkey, rfl⟩ := mem_tally.mp hmem
      exact ⟨hkey, rfl⟩
    · rintro ⟨hkey, rfl⟩
      exact ⟨_, mem_tally.mpr ⟨hkey, rfl⟩, rfl⟩
  attributed i evt severity _ hcase hextract := by
    rw [keyOf, if_pos hcase, driftKey, hextract]
    dsimp only
    rw [if_pos rfl]

theorem chargedOnce (weights : DriftWeights) : ChargedOnce weights where
  one := term_xor
  sum counts := by rw [sum_rawLoss, total_channels]
  split := split_judgeAttributedKind

/-- Every drift event is counted once and charged in exactly one channel. -/
theorem drift_charged_once [PyArith F] (it : Interp F) {events : List (EventRecord F)}
    {signals : DialectSignals F} (h : goldfiveSignals it events = .ok signals)
    (weights : DriftWeights) :
    CountedOnce it events signals.metricCounts ∧ ChargedOnce weights := by
  obtain ⟨w, hw, hsignals⟩ := bind_eq_ok h
  cases hsignals
  exact ⟨countedOnce_of_walked (Walked.run it hw), chargedOnce weights⟩

/-- A judgement and the drift event it is paired with. -/
def toneEvents : List (EventRecord Exact) :=
  [{ case := "judgement_emitted"
     payload := [("verdict_kind", .str "drift"), ("judge_name", .str " tone ")] },
    { case := "drift_detected", payload := [("kind", .str "custom"), ("severity", .str "warning")] }]

theorem drift_charged_once_tone : ∃ signals, goldfiveSignals plainInterp toneEvents = .ok signals ∧
    CountedOnce plainInterp toneEvents signals.metricCounts ∧
      ChargedOnce { severityWeights := [("warning", 2)] } := by
  obtain ⟨signals, h⟩ := ok_of_toBool
    (show (goldfiveSignals plainInterp toneEvents).toBool = true by decide +kernel)
  exact ⟨signals, h, drift_charged_once plainInterp h _⟩

end Zicato.Events
