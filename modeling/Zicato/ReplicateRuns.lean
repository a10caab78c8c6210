import Mathlib.Algebra.Order.BigOperators.Group.List
import Zicato.ReplicateScores

/-! # The aggregates of a fold

Summing a mean over the entries is summing over all runs: a channel that is
folded by means has the same aggregate over the folded profiles as over every
replicate run. -/
open List
namespace Zicato.Scoring

variable {β : Type} {weights : ScoringWeights}

/-- Replicate runs of one board. -/
structure SameEntries (runs : List (Dict String (LossProfile β))) : Prop where
  nodup : ∀ run ∈ runs, run.keys.Nodup
  same : ∀ run ∈ runs, ∀ run' ∈ runs, run.keys.Perm run'.keys

/-- Every run of every entry. -/
def individualRuns (runs : List (Dict String (LossProfile β))) : List (LossProfile β) :=
  runs.flatMap fun run => run.map Prod.snd

/-- The folded profiles. -/
def foldedProfiles (runs : List (Dict String (LossProfile β))) : List (LossProfile β) :=
  (averageReplicateLosses runs).map Prod.snd

/-! ## Dictionaries built over a list of keys -/

section Comprehension
variable {γ δ : Type} [DecidableEq γ] (g : γ → Option δ)

/-- `{k: g(k) for k in keys if ...}`. -/
def comprehension (keys : List γ) : Dict γ δ :=
  keys.filterMap fun k => (g k).map fun value => (k, value)

/-- What a comprehension has under a key. -/
theorem get?_comprehension (keys : List γ) (k : γ) :
    Dict.get? (comprehension g keys) k = if k ∈ keys then g k else none := by
  induction keys with
  | nil => rfl
  | cons k₀ rest ih =>
    rw [comprehension, filterMap_cons]
    cases hg : g k₀ with
    | none =>
      refine ih.trans ?_
      by_cases hk : k = k₀
      · rw [hk, hg, if_pos mem_cons_self, ite_self]
      · simp [hk]
    | some value =>
      rw [Option.map_some, Dict.get?]
      by_cases hk : k₀ = k
      · rw [if_pos hk, ← hk, if_pos mem_cons_self, hg]
      · rw [if_neg hk]
        refine ih.trans ?_
        simp [Ne.symm hk]

variable {g}

omit [DecidableEq γ] in
/-- A sum over the values, when every key has one. -/
theorem map_comprehension {keys : List γ} (h : ∀ k ∈ keys, (g k).isSome) (f : δ → ℚ) :
    ((comprehension g keys).map Prod.snd).map f = keys.map fun k => ((g k).map f).getD 0 := by
  induction keys with
  | nil => rfl
  | cons k rest ih =>
    obtain ⟨hk, hrest⟩ := forall_mem_cons.mp h
    obtain ⟨value, hvalue⟩ := Option.isSome_iff_exists.mp hk
    rw [comprehension, filterMap_cons, hvalue, Option.map_some, map_cons, map_cons,
      map_cons, hvalue]
    exact congrArg (f value :: ·) (ih hrest)

end Comprehension

/-- The values under some order of the keys. -/
theorem sum_values {γ δ : Type} [DecidableEq γ] {d : Dict γ δ} {keys : List γ}
    (hnodup : d.keys.Nodup) (hkeys : d.keys.Perm keys) (f : δ → ℚ) :
    (keys.map fun k => ((d.get? k).map f).getD 0).sum = ((d.map Prod.snd).map f).sum := by
  have hmapped : Dict.keys (d.map fun item => (item.1, f item.2)) = d.keys := by
    rw [Dict.keys, map_map]
    rfl
  have htotal := Dict.total_eq_sum (hmapped ▸ hnodup)
  rw [hmapped, Dict.total, map_map] at htotal
  have hget : ∀ k, Dict.getD (d.map fun item => (item.1, f item.2)) k 0 =
      ((d.get? k).map f).getD 0 := fun k => by rw [Dict.getD, get?_map]
  simp only [hget] at htotal
  rw [map_map, ← (hkeys.map fun k => ((d.get? k).map f).getD 0).sum_eq]
  exact htotal.symm

/-! ## The profiles of one entry -/

section Profiles
variable {runs : List (Dict String (LossProfile β))} {entryId : String}

theorem length_profilesOf (h : ∀ run ∈ runs, entryId ∈ run.keys) :
    (profilesOf runs entryId).length = runs.length := by
  induction runs with
  | nil => rfl
  | cons run rest ih =>
    obtain ⟨hrun, hrest⟩ := forall_mem_cons.mp h
    rw [profilesOf, filterMap_cons]
    cases hget : run.get? entryId with
    | none => exact absurd hrun ((Dict.get?_eq_none_iff _ _).mp hget)
    | some p => exact congrArg (· + 1) (ih hrest)

theorem sum_profilesOf (f : LossProfile β → ℚ) :
    ((profilesOf runs entryId).map f).sum =
      (runs.map fun run => ((run.get? entryId).map f).getD 0).sum := by
  induction runs with
  | nil => rfl
  | cons run rest ih =>
    rw [profilesOf, filterMap_cons, map_cons, sum_cons, ← ih]
    cases run.get? entryId with
    | none => exact (zero_add _).symm
    | some p => rfl

theorem mem_profilesOf_iff (hnodup : ∀ run ∈ runs, run.keys.Nodup) {p : LossProfile β} :
    p ∈ profilesOf runs entryId ↔ ∃ run ∈ runs, (entryId, p) ∈ run := by
  rw [profilesOf, mem_filterMap]
  refine exists_congr fun run => and_congr_right fun hrun => ?_
  exact Dict.get?_eq_some_iff (hnodup run hrun) entryId p

theorem mem_individualRuns_iff {p : LossProfile β} :
    p ∈ individualRuns runs ↔ ∃ run ∈ runs, ∃ entryId, (entryId, p) ∈ run := by
  rw [individualRuns, mem_flatMap]
  refine exists_congr fun run => and_congr_right fun _ => ?_
  rw [mem_map]
  constructor
  · rintro ⟨item, hitem, rfl⟩
    exact ⟨item.1, hitem⟩
  · rintro ⟨entryId, hitem⟩
    exact ⟨_, hitem, rfl⟩

theorem PlainNames.mono {l l' : List (LossProfile β)} (h : PlainNames l')
    (hsub : ∀ p ∈ l, p ∈ l') : PlainNames l where
  measured p hp mc hmc q hq := h.measured p (hsub p hp) mc hmc q (hsub q hq)
  judges p hp := h.judges p (hsub p hp)

end Profiles

/-! ## The fold of a board -/

section Board
variable {first : Dict String (LossProfile β)} {rest : List (Dict String (LossProfile β))}

theorem averageReplicateLosses_cons : averageReplicateLosses (first :: rest) =
    comprehension (fun entryId => foldOf (profilesOf (first :: rest) entryId)) first.keys := rfl

variable (hentries : SameEntries (first :: rest))
include hentries

theorem mem_keys_of_mem {entryId : String} (h : entryId ∈ first.keys) :
    ∀ run ∈ first :: rest, entryId ∈ run.keys := fun run hrun =>
  (hentries.same first mem_cons_self run hrun).mem_iff.mp h

/-- The profile of an entry, and the replicates that it folds. -/
theorem fold_of_entry {entryId : String} (h : entryId ∈ first.keys) :
    ∃ p ps, profilesOf (first :: rest) entryId = p :: ps ∧ ps.length = rest.length ∧
      (averageReplicateLosses (first :: rest)).get? entryId = some (foldProfiles p ps) := by
  have hlength := length_profilesOf (mem_keys_of_mem hentries h)
  rw [averageReplicateLosses_cons, get?_comprehension, if_pos h]
  cases hprofiles : profilesOf (first :: rest) entryId with
  | nil =>
    rw [hprofiles] at hlength
    cases hlength
  | cons p ps =>
    rw [hprofiles] at hlength
    exact ⟨p, ps, rfl, Nat.succ.inj hlength, rfl⟩

theorem foldOf_profilesOf {entryId : String} (h : entryId ∈ first.keys) :
    (foldOf (profilesOf (first :: rest) entryId)).isSome := by
  obtain ⟨p, ps, hprofiles, -, -⟩ := fold_of_entry hentries h
  rw [hprofiles]
  rfl

theorem length_individualRuns :
    (individualRuns (first :: rest)).length = (rest.length + 1) * first.keys.length := by
  have hrun : ∀ run ∈ first :: rest, (run.map Prod.snd).length = first.keys.length := by
    intro run hrun
    rw [(hentries.same first mem_cons_self run hrun).length_eq, length_map,
      Dict.keys, length_map]
  rw [individualRuns, length_flatMap, map_congr_left hrun, map_const',
    sum_replicate_nat, length_cons]

variable (f : LossProfile β → ℚ)

/-- The total of means over the entries is the total over the runs, divided by their number. -/
theorem sum_means :
    (first.keys.map fun entryId => mean ((profilesOf (first :: rest) entryId).map f)).sum =
      ((individualRuns (first :: rest)).map f).sum / (rest.length + 1 : ℕ) := by
  have hmean : ∀ entryId ∈ first.keys, mean ((profilesOf (first :: rest) entryId).map f) =
      ((first :: rest).map fun run => ((run.get? entryId).map f).getD 0).sum *
        ((rest.length + 1 : ℕ) : ℚ)⁻¹ := by
    intro entryId h
    rw [mean, sum_profilesOf, length_map, length_profilesOf (mem_keys_of_mem hentries h),
      length_cons, div_eq_mul_inv]
  have hrun : ∀ run ∈ first :: rest,
      (first.keys.map fun entryId => ((run.get? entryId).map f).getD 0).sum =
        ((run.map Prod.snd).map f).sum := fun run hrun =>
    sum_values (hentries.nodup run hrun) (hentries.same run hrun first mem_cons_self) f
  rw [map_congr_left hmean, sum_map_mul_right, sum_sum_comm, map_congr_left hrun,
    individualRuns, sum_flatMap, div_eq_mul_inv]

theorem meanOver_individualRuns :
    meanOver ((individualRuns (first :: rest)).map f).sum (individualRuns (first :: rest)).length =
      meanOver (first.keys.map fun entryId =>
        mean ((profilesOf (first :: rest) entryId).map f)).sum first.keys.length := by
  rw [sum_means hentries, length_individualRuns hentries, meanOver, meanOver]
  rcases Nat.eq_zero_or_pos first.keys.length with hzero | hpos
  · rw [hzero, Nat.mul_zero]
    rfl
  · rw [if_pos (Nat.mul_pos (Nat.succ_pos _) hpos), if_pos hpos, Nat.cast_mul, div_div]

theorem meanOver_foldedProfiles :
    meanOver ((foldedProfiles (first :: rest)).map f).sum (foldedProfiles (first :: rest)).length =
      meanOver (first.keys.map fun entryId =>
        ((foldOf (profilesOf (first :: rest) entryId)).map f).getD 0).sum first.keys.length := by
  have hmap := fun f : LossProfile β → ℚ =>
    map_comprehension (fun _ hkey => foldOf_profilesOf hentries hkey) f
  have hlength := (length_map f).symm.trans
    ((congrArg List.length (hmap f)).trans (length_map _))
  rw [foldedProfiles, averageReplicateLosses_cons, hmap, hlength]

variable (hnames : PlainNames (individualRuns (first :: rest)))
include hnames

theorem plainNames_profilesOf (entryId : String) :
    PlainNames (profilesOf (first :: rest) entryId) := by
  refine hnames.mono fun p hp => ?_
  obtain ⟨run, hrun, hitem⟩ := (mem_profilesOf_iff hentries.nodup).mp hp
  exact mem_individualRuns_iff.mpr ⟨run, hrun, entryId, hitem⟩

/-- The names that the folded profiles score are those that the runs score. -/
theorem names_foldedProfiles (name : String) :
    (∃ p ∈ foldedProfiles (first :: rest), name ∈ (scoringMetrics p).map MetricCount.name) ↔
      ∃ p ∈ individualRuns (first :: rest), name ∈ (scoringMetrics p).map MetricCount.name := by
  constructor
  · rintro ⟨p, hp, hname⟩
    obtain ⟨item, hitem, rfl⟩ := mem_map.mp hp
    obtain ⟨entryId, hentry, hitem⟩ := mem_filterMap.mp hitem
    obtain ⟨q, qs, hprofiles, -, -⟩ := fold_of_entry hentries hentry
    have hplain := plainNames_profilesOf hentries hnames entryId
    rw [hprofiles] at hitem hplain
    obtain rfl := Option.some.inj hitem
    obtain ⟨replicate, hreplicate, hname⟩ := (mem_names_foldProfiles hplain name).mp hname
    rw [← hprofiles, mem_profilesOf_iff hentries.nodup] at hreplicate
    obtain ⟨run, hrun, hitem⟩ := hreplicate
    exact ⟨replicate, mem_individualRuns_iff.mpr ⟨run, hrun, entryId, hitem⟩, hname⟩
  · rintro ⟨p, hp, hname⟩
    obtain ⟨run, hrun, entryId, hitem⟩ := mem_individualRuns_iff.mp hp
    have hentry : entryId ∈ first.keys :=
      (hentries.same run hrun first mem_cons_self).mem_iff.mp
        (mem_map.mpr ⟨_, hitem, rfl⟩)
    obtain ⟨q, qs, hprofiles, -, -⟩ := fold_of_entry hentries hentry
    have hplain := plainNames_profilesOf hentries hnames entryId
    have hreplicate := (mem_profilesOf_iff hentries.nodup).mpr ⟨run, hrun, hitem⟩
    rw [hprofiles] at hreplicate hplain
    refine ⟨foldProfiles q qs, ?_, (mem_names_foldProfiles hplain name).mpr ⟨p, hreplicate, hname⟩⟩
    refine mem_map.mpr ⟨(entryId, foldProfiles q qs), ?_, rfl⟩
    exact mem_filterMap.mpr ⟨entryId, hentry, by rw [hprofiles]; rfl⟩

/-- Folding adds no namespace and drops none. -/
theorem namespace_foldedProfiles {ns : String} :
    Namespace (foldedProfiles (first :: rest)) weights ns ↔
      Namespace (individualRuns (first :: rest)) weights ns := by
  have hmap : ∀ l : List (LossProfile β),
      (∃ p ∈ l, ∃ mc ∈ scoringMetrics p, namespaceOf mc.name = ns) ↔
        ∃ name, (∃ p ∈ l, name ∈ (scoringMetrics p).map MetricCount.name) ∧
          namespaceOf name = ns := by
    intro l
    constructor
    · rintro ⟨p, hp, mc, hmc, hns⟩
      exact ⟨mc.name, ⟨p, hp, mem_map_of_mem hmc⟩, hns⟩
    · rintro ⟨name, ⟨p, hp, hname⟩, hns⟩
      obtain ⟨mc, hmc, rfl⟩ := mem_map.mp hname
      exact ⟨p, hp, mc, hmc, hns⟩
  rw [Namespace, Namespace, hmap, hmap]
  simp only [names_foldedProfiles hentries hnames]

/-- A channel folded by means has the same aggregate. -/
theorem aggregateOf_foldedProfiles {ns : String} (hfailure : ns ≠ "failure:")
    (hruntime : ns ≠ "runtime:") :
    aggregateOf (foldedProfiles (first :: rest)) weights ns =
      aggregateOf (individualRuns (first :: rest)) weights ns := by
  rw [aggregateOf, aggregateOf, meanOver_individualRuns hentries, meanOver_foldedProfiles hentries]
  have hfold : ∀ entryId ∈ first.keys,
      ((foldOf (profilesOf (first :: rest) entryId)).map (channel weights ns)).getD 0 =
        mean ((profilesOf (first :: rest) entryId).map (channel weights ns)) := by
    intro entryId hentry
    obtain ⟨q, qs, hprofiles, -, -⟩ := fold_of_entry hentries hentry
    have hplain := plainNames_profilesOf hentries hnames entryId
    rw [hprofiles] at hplain ⊢
    exact channel_foldProfiles hplain hfailure hruntime
  rw [map_congr_left hfold]

/-- The fold is charged at least what the runs are charged. -/
theorem aggregateOf_failure_le (hweight : 0 ≤ Dict.getD weights.namespaceWeights "failure:" 0)
    (hcharge : 0 ≤ weights.notCompletedWeight) :
    aggregateOf (individualRuns (first :: rest)) weights "failure:" ≤
      aggregateOf (foldedProfiles (first :: rest)) weights "failure:" := by
  rw [aggregateOf, aggregateOf, meanOver_individualRuns hentries, meanOver_foldedProfiles hentries]
  refine mul_le_mul_of_nonneg_left ?_ hweight
  have hsum : (first.keys.map fun entryId =>
      mean ((profilesOf (first :: rest) entryId).map (channel weights "failure:"))).sum ≤
        (first.keys.map fun entryId => ((foldOf (profilesOf (first :: rest) entryId)).map
          (channel weights "failure:")).getD 0).sum := by
    refine sum_le_sum fun entryId hentry => ?_
    obtain ⟨q, qs, hprofiles, -, -⟩ := fold_of_entry hentries hentry
    have hplain := plainNames_profilesOf hentries hnames entryId
    rw [hprofiles] at hplain ⊢
    exact channel_failure_foldProfiles hplain hcharge
  rw [meanOver, meanOver]
  split
  · exact div_le_div_of_nonneg_right hsum (Nat.cast_nonneg _)
  · exact le_refl _

end Board

end Zicato.Scoring
