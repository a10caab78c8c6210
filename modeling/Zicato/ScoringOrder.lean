import Zicato.CodecOrder
import Zicato.ScoringDefaults

/-! # The scoring document and the order of keys

No check of the contract depends on the order in which a mapping was filled, and what a
`__post_init__` changes it changes alike. -/
open List Option
namespace Zicato.ScoringDocument

open Codec

variable {F : Type} [PyArith F] {it : Interp F}

/-! ## Declarations -/

/-- A field whose checks do not depend on the order of keys. -/
abbrev OrderlyField (f : FieldInfo F × Ann F) : Prop := Declares CheckOrderly PostOrderly f

/-- A value without mappings is the only one that is equal to it. -/
def Flat (v : Val F) : Prop := ∀ v', Same v v' → v' = v

section
omit [PyArith F]
theorem flat_none : Flat (.none : Val F) := by
  intro v' h
  cases v' <;> simp_all [Same, Val.sorted]

theorem flat_bool (b : Bool) : Flat (.bool b : Val F) := by
  intro v' h
  cases v' <;> simp_all [Same, Val.sorted]

theorem flat_int (n : Int) : Flat (.int n : Val F) := by
  intro v' h
  cases v' <;> simp_all [Same, Val.sorted]

theorem flat_float (x : F) : Flat (.float x : Val F) := by
  intro v' h
  cases v' <;> simp_all [Same, Val.sorted]

theorem flat_str (s : String) : Flat (.str s : Val F) := by
  intro v' h
  cases v' <;> simp_all [Same, Val.sorted]

end

variable {name key : String} {v default v' : Val F} {c : KnobConstraint}
  {constraint : Option KnobConstraint} {fields : List (FieldInfo F × Ann F)}
  {params params' spec spec' : Dict String (Val F)}

/-- What a finite number is required of is one. -/
theorem requireFiniteNumber_flat (h : requireFiniteNumber it name v = none) : Flat v := by
  cases v with
  | int n => exact flat_int n
  | float x => exact flat_float x
  | _ => cases h

theorem checkNumber_flat {shown : String} (h : checkNumber it c shown v = none) : Flat v := by
  rw [checkNumber, or_eq_none_iff, or_eq_none_iff] at h
  exact requireFiniteNumber_flat h.1.1

/-- A constraint accepts scalars only. -/
theorem check_flat (h : c.check it name v = none) : Flat v := by
  cases v with
  | none => exact flat_none
  | bool b => exact flat_bool b
  | int n => exact flat_int n
  | float x => exact flat_float x
  | str s => exact flat_str s
  | _ =>
    -- Neither a choice nor a number.
    rw [KnobConstraint.check] at h
    simp only [KnobConstraint.exempts, among, Bool.false_eq_true, if_false] at h
    split at h
    · cases h
    · exact checkNumber_flat h

theorem knob_orderly {a : Ann F} : CheckOrderly (knob it name a default constraint key).1 a := by
  intro v v' hsame h
  rw [knob] at h ⊢
  cases constraint with
  | none => rfl
  | some c =>
    obtain rfl := check_flat h v' hsame
    exact h

theorem orderly_knob {a : Ann F} (ha : Orderly a) :
    OrderlyField (knob it name a default constraint key) :=
  ⟨knob_orderly, ha⟩

section
omit [PyArith F]
theorem valueOf_same {vs vs' : List (Attr × Val F)} (h : SameAttrs vs vs') (name : String) :
    Same (valueOf vs name) (valueOf vs' name) := by
  induction vs generalizing vs' with
  | nil =>
    cases vs' with
    | nil => rfl
    | cons e rest => simp [SameAttrs, sortedAttrs] at h
  | cons e rest ih =>
    cases vs' with
    | nil => simp [SameAttrs, sortedAttrs] at h
    | cons e' rest' =>
      simp only [SameAttrs, sortedAttrs, List.cons.injEq, Prod.mk.injEq] at h
      obtain ⟨⟨hattr, hv⟩, hrest⟩ := h
      rw [valueOf, valueOf, find?_cons, find?_cons, hattr]
      cases e'.1.name == name with
      | true => exact hv
      | false => exact ih hrest

theorem checking_orderly {check : List (Attr × Val F) → Option PostError}
    (h : ∀ vs vs', SameAttrs vs vs' → check vs = none → check vs' = none) :
    PostOrderly fields (checking check) := by
  intro vs vs' ws hsame hpost
  obtain ⟨hcheck, rfl⟩ := checking_ok_iff.mp hpost
  exact ⟨vs', checking_ok_iff.mpr ⟨h _ _ hsame hcheck, rfl⟩, hsame⟩

theorem validateKnobs_orderly (hfields : ∀ f ∈ fields, OrderlyField f)
    (vs vs' : List (Attr × Val F)) (hsame : SameAttrs vs vs') (h : validateKnobs fields vs = none) :
    validateKnobs fields vs' = none := by
  rw [validateKnobs, firstError_eq_none_iff, List.forall_mem_map] at h ⊢
  intro f hf
  rw [valueError_eq_none_iff]
  exact (hfields f hf).1 _ _ (valueOf_same hsame _) (valueError_eq_none_iff.mp (h f hf))

theorem orderly_knobClass {cls : String} (hkeys : (keysOf fields).Nodup)
    (hfields : ∀ f ∈ fields, OrderlyField f) : Orderly (knobClass cls fields) := by
  rw [knobClass, Orderly, Everywhere]
  exact ⟨hkeys, checking_orderly (validateKnobs_orderly hfields), everyField_iff.mpr hfields⟩

end

/-! ### Annotations without classes -/

section Annotations

omit [PyArith F]

theorem orderly_scalar (s : Scalar) : Orderly (.scalar s : Ann F) := by
  rw [Orderly, Everywhere] <;> simp

theorem orderly_literal (l : List Lit) : Orderly (.literal l : Ann F) := by
  rw [Orderly, Everywhere] <;> simp

theorem orderly_any : Orderly (.any : Ann F) := by
  rw [Orderly, Everywhere] <;> simp

theorem orderly_optional {a : Ann F} (ha : Orderly a) : Orderly (.optional a) := by
  rw [Orderly, Everywhere]
  exact ha

theorem orderly_map {a : Ann F} (ha : Orderly a) : Orderly (.map a) := by
  rw [Orderly, Everywhere]
  exact ha

theorem orderly_seq {isTuple : Bool} {a : Ann F} (ha : Orderly a) : Orderly (.seq isTuple a) := by
  rw [Orderly, Everywhere]
  exact ha

end Annotations

/-! ## What the checks read -/

section Reading

omit [PyArith F]

variable {v v' : Val F}

theorem entriesOf_same (h : Same v v') : SameEntries (entriesOf v) (entriesOf v') := by
  cases v <;> cases v' <;> first | exact same_dict_iff.mp h | rfl | simp [Same, Val.sorted] at h

theorem fieldsOf_same (h : Same v v') : SameAttrs (fieldsOf v) (fieldsOf v') := by
  cases v <;> cases v' <;> simp_all [Same, Val.sorted, fieldsOf, SameAttrs]

variable {vs vs' : List (Attr × Val F)}

theorem paramsOf_same (h : SameAttrs vs vs') :
    SameEntries (paramsOf vs) (paramsOf vs') := entriesOf_same (valueOf_same h "params")

theorem among_same (h : Same v v') (choices : List String) :
    among choices v' = among choices v := by
  cases v <;> cases v' <;> simp_all [Same, Val.sorted, among]

theorem flagged_same (h : Same v v') : flagged v' = flagged v := by
  cases v <;> cases v' <;> simp_all [Same, Val.sorted, flagged]

/-- Setting a value respects the order of keys. -/
theorem setValue_same (h : SameAttrs vs vs') (name : String) (hv : Same v v') :
    SameAttrs (setValue vs name v) (setValue vs' name v') := by
  induction vs generalizing vs' with
  | nil =>
    cases vs' with
    | nil => rfl
    | cons e rest => simp [SameAttrs, sortedAttrs] at h
  | cons e rest ih =>
    cases vs' with
    | nil => simp [SameAttrs, sortedAttrs] at h
    | cons e' rest' =>
      obtain ⟨a, w⟩ := e
      obtain ⟨a', w'⟩ := e'
      simp only [SameAttrs, sortedAttrs, List.cons.injEq, Prod.mk.injEq] at h
      obtain ⟨⟨rfl, hw⟩, hrest⟩ := h
      rw [setValue, setValue, map_cons, map_cons]
      by_cases hname : a.name = name
      · rw [if_pos hname, if_pos hname, SameAttrs, sortedAttrs, sortedAttrs, hv]
        exact congrArg _ (ih hrest)
      · rw [if_neg hname, if_neg hname, SameAttrs, sortedAttrs, sortedAttrs, hw]
        exact congrArg _ (ih hrest)

end Reading

theorem above_same (h : Same v v') (bound : Int) : above v' bound = above v bound := by
  cases v <;> cases v' <;> simp_all [Same, Val.sorted, above]

theorem equals_same (h : Same v v') (bound : Int) : equals v' bound = equals v bound := by
  cases v <;> cases v' <;> simp_all [Same, Val.sorted, equals]

/-! ### The tournament block -/

/-- The constraints of the parameters look at single values. -/
theorem constraints_same (h : SameEntries params params')
    (hc : (Dict.get? params key).bind (fun v => valueError (c.check it key v)) = none) :
    (Dict.get? params' key).bind (fun v => valueError (c.check it key v)) = none := by
  cases hget : Dict.get? params key with
  | none => rw [h.get?_none hget, bind_none]
  | some v =>
    rw [hget, bind_some, valueError_eq_none_iff] at hc
    obtain ⟨v', hv', hsame⟩ := h.get?_some hget
    obtain rfl := check_flat hc v' hsame
    rw [hv', bind_some, valueError_eq_none_iff]
    exact hc

/-- The check does not look at the order of keys. -/
theorem tournamentCheck_same {vs vs' : List (Attr × Val F)} (h : SameAttrs vs vs')
    (hcheck : tournamentCheck it vs = none) : tournamentCheck it vs' = none := by
  rw [tournamentCheck, firstError_eq_none_iff] at hcheck ⊢
  simp only [forall_mem_cons] at hcheck ⊢
  obtain ⟨hstructure, hmapping, hparams, -⟩ := hcheck
  refine ⟨?_, ?_, ?_, by simp⟩
  · rw [among_same (valueOf_same h "structure")]
    split at hstructure
    · rw [if_pos ‹_›]
    · cases hstructure
  · have hsame := valueOf_same h "params"
    cases hv : valueOf vs "params" with
    | dict params =>
      rw [hv] at hsame
      cases hv' : valueOf vs' "params" with
      | dict params' => rfl
      | _ =>
        rw [hv'] at hsame
        simp [Same, Val.sorted] at hsame
    | _ =>
      rw [hv] at hmapping
      cases hmapping
  · rw [firstError_eq_none_iff, List.forall_mem_map] at hparams ⊢
    exact fun e he => constraints_same (paramsOf_same h) (hparams e he)

theorem hasThreshold_same (h : SameEntries params params') :
    hasThreshold params' = hasThreshold params := by
  rw [hasThreshold, hasThreshold]
  cases hget : Dict.get? params THRESHOLD with
  | none => rw [h.get?_none hget]
  | some v =>
    obtain ⟨v', hv', hsame⟩ := h.get?_some hget
    rw [hv']
    cases v with
    | none => rw [flat_none v' hsame]
    | _ =>
      cases v' with
      | none => exact absurd (flat_none _ hsame.symm) (by simp)
      | _ => simp only [equals_same hsame]

omit [PyArith F] in
/-- Nor does the budget. -/
theorem readReplicateBudget_same (h : SameEntries params params') {n : Int}
    (hn : readReplicateBudget params = .ok n) : readReplicateBudget params' = .ok n := by
  rw [readReplicateBudget] at hn ⊢
  cases hget : Dict.get? params BUDGET with
  | none =>
    rw [hget] at hn
    rw [h.get?_none hget]
    exact hn
  | some v =>
    obtain ⟨v', hv', hsame⟩ := h.get?_some hget
    rw [hget] at hn
    rw [hv']
    cases v with
    | none => exact flat_none v' hsame ▸ hn
    | int m => exact flat_int m v' hsame ▸ hn
    | _ => cases hn

/-- Nor does the hook of the tournament. -/
theorem tournamentPost_orderly : PostOrderly (tournamentFields it) (tournamentPost it) := by
  intro vs vs' ws h hpost
  rw [tournamentPost] at hpost ⊢
  split at hpost
  · cases hpost
  · rename_i hcheck
    rw [tournamentCheck_same h hcheck]
    simp only [hasThreshold_same (paramsOf_same h)]
    by_cases hset : hasThreshold (paramsOf vs) = true
    · rw [if_pos hset] at hpost ⊢
      cases hbudget : readReplicateBudget (paramsOf vs) with
      | error e =>
        rw [hbudget] at hpost
        cases hpost
      | ok n =>
        rw [hbudget] at hpost
        cases hpost
        rw [readReplicateBudget_same (paramsOf_same h) hbudget]
        refine ⟨_, rfl, setValue_same h "params" (same_dict_iff.mpr ?_)⟩
        exact (paramsOf_same h).set BUDGET (.refl _)
    · rw [if_neg hset] at hpost ⊢
      cases hpost
      exact ⟨vs', rfl, h⟩

theorem tournamentAnn_orderly : Orderly (tournamentAnn it) := by
  have hkeys : keysOf (tournamentFields it) = ["structure", "params"] := rfl
  have hstructure : OrderlyField (structureField it) := by
    refine ⟨fun v v' hsame h => ?_, by rw [structureField, Everywhere] <;> simp⟩
    obtain rfl := check_flat h v' hsame
    exact h
  rw [tournamentAnn, Orderly, Everywhere]
  refine ⟨by rw [hkeys]; decide, tournamentPost_orderly, everyField_iff.mpr ?_⟩
  simp only [tournamentFields, forall_mem_cons]
  exact ⟨hstructure, orderly_knob (orderly_map orderly_any), by simp⟩

/-! ### The weights -/

section Freeze

omit [PyArith F]

theorem freezeEntries_eq_map (l : List (String × Val F)) :
    freezeEntries l = l.map fun e => (e.1, freezeJson e.2) := by
  induction l with
  | nil => rfl
  | cons e rest ih => rw [freezeEntries, ih, map_cons]

mutual
theorem sorted_freezeJson : ∀ v : Val F, (freezeJson v).sorted = freezeJson v.sorted
  | .dict fields => by
    rw [freezeJson, Codec.sorted_dict, Codec.sorted_dict, freezeJson, sortedEntries_freeze fields,
      freezeEntries_eq_map, freezeEntries_eq_map, map_byKey]
  | .list items => by
    rw [freezeJson, Val.sorted, Val.sorted, freezeJson, sortedVals_freeze items]
  | .tuple items => by
    rw [freezeJson, Val.sorted, Val.sorted, freezeJson, sortedVals_freeze items]
  | .none | .bool _ | .int _ | .float _ | .str _ | .path _ | .member _ _ => by
    rw [freezeJson, Val.sorted, freezeJson] <;> simp
  | .object cls fields => by rw [freezeJson, Val.sorted, freezeJson] <;> simp

theorem sortedVals_freeze : ∀ items : List (Val F),
    sortedVals (freezeItems items) = freezeItems (sortedVals items)
  | [] => rfl
  | v :: rest => by
    rw [freezeItems, sortedVals, sortedVals, freezeItems, sorted_freezeJson v,
      sortedVals_freeze rest]

theorem sortedEntries_freeze : ∀ fields : List (String × Val F),
    sortedEntries (freezeEntries fields) = freezeEntries (sortedEntries fields)
  | [] => rfl
  | (k, v) :: rest => by
    rw [freezeEntries, sortedEntries, sortedEntries, freezeEntries, sorted_freezeJson v,
      sortedEntries_freeze rest]
end

theorem freezeJson_same (h : Same v v') : Same (freezeJson v) (freezeJson v') := by
  rw [Same, sorted_freezeJson, sorted_freezeJson, h]

end Freeze

variable {vs vs' : List (Attr × Val F)}

theorem requireFiniteMapping_same (h : SameAttrs vs vs')
    (hcheck : requireFiniteMapping it vs name = none) :
    requireFiniteMapping it vs' name = none := by
  rw [requireFiniteMapping, firstError_eq_none_iff, List.forall_mem_map] at hcheck ⊢
  intro e' he'
  obtain ⟨v, hmem, hsame⟩ := (entriesOf_same (valueOf_same h name)).mem he'
  have hv := hcheck _ hmem
  rw [valueError_eq_none_iff] at hv ⊢
  exact requireFiniteNumber_flat hv _ hsame ▸ hv

/-- Nor does the check of the failure weight. -/
theorem failureWeightCheck_same (h : SameAttrs vs vs') (hcheck : failureWeightCheck it vs = none) :
    failureWeightCheck it vs' = none := by
  have hentries := entriesOf_same (valueOf_same h "namespace_weights")
  have hweight : Same (Dict.getD (entriesOf (valueOf vs "namespace_weights")) "failure:"
        (.float PyFloat.zero))
      (Dict.getD (entriesOf (valueOf vs' "namespace_weights")) "failure:" (.float PyFloat.zero)) := by
    rw [Dict.getD, Dict.getD]
    cases hget : Dict.get? (entriesOf (valueOf vs "namespace_weights")) "failure:" with
    | none => rw [hentries.get?_none hget]; rfl
    | some v =>
      obtain ⟨v', hv', hsame⟩ := hentries.get?_some hget
      rw [hv']
      exact hsame
  rw [failureWeightCheck] at hcheck ⊢
  split at hcheck
  · rename_i hpositive
    rw [positive, ← above_same hweight] at hpositive
    exact if_pos hpositive
  · cases hcheck

omit [PyArith F] in
theorem customKindCheck_same (h : SameAttrs vs vs') (hcheck : customKindCheck vs = none) :
    customKindCheck vs' = none := by
  have hkeys := (entriesOf_same (valueOf_same h "per_kind_weights")).mem_keys_iff "custom"
  rw [customKindCheck] at hcheck ⊢
  split at hcheck
  · cases hcheck
  · rename_i hnot
    rw [contains_iff_mem] at hnot
    rw [if_neg (by rwa [contains_iff_mem, ← hkeys])]

/-- Nor does the check of a parameter. -/
theorem transformParamCheck_same {op : String} (h : SameEntries spec spec')
    (hcheck : transformParamCheck it op spec name = none) :
    transformParamCheck it op spec' name = none ∧
      (Dict.get? spec' name).bind numberOf = (Dict.get? spec name).bind numberOf := by
  rw [transformParamCheck] at hcheck ⊢
  cases hget : Dict.get? spec name with
  | none =>
    rw [hget] at hcheck
    cases hcheck
  | some v =>
    obtain ⟨v', hv', hsame⟩ := h.get?_some hget
    rw [hget] at hcheck
    rw [hv']
    cases v with
    | int n =>
      obtain rfl := flat_int n v' hsame
      exact ⟨hcheck, rfl⟩
    | float x =>
      obtain rfl := flat_float x v' hsame
      exact ⟨hcheck, rfl⟩
    | _ => cases hcheck

theorem clipCheck_same {op : String}
    (hlo : op = "clip" → (Dict.get? spec' "lo").bind numberOf = (Dict.get? spec "lo").bind numberOf)
    (hhi : op = "clip" → (Dict.get? spec' "hi").bind numberOf = (Dict.get? spec "hi").bind numberOf)
    (hcheck : clipCheck it op spec = none) : clipCheck it op spec' = none := by
  rw [clipCheck] at hcheck ⊢
  by_cases hop : op = "clip"
  · rw [if_pos hop] at hcheck ⊢
    rw [hlo hop, hhi hop]
    split at hcheck
    · split at hcheck
      · cases hcheck
      · exact if_neg ‹_›
    · rfl
  · exact if_neg hop

omit [PyArith F] in
theorem unknownParams_same (h : SameEntries spec spec') {required : List String}
    (hcheck : (unknownParams spec required).isEmpty = true) :
    (unknownParams spec' required).isEmpty = true := by
  rw [List.isEmpty_iff, unknownParams, filter_eq_nil_iff] at hcheck ⊢
  exact fun k hk => hcheck k ((h.mem_keys_iff k).mpr hk)

/-- A transform is looked up, never iterated. -/
theorem transformCheck_same (h : Same v v') (hcheck : transformCheck it v = none) :
    transformCheck it v' = none := by
  cases v with
  | dict spec =>
    cases v' with
    | dict spec' =>
      have hentries := same_dict_iff.mp h
      rw [transformCheck] at hcheck ⊢
      cases hget : Dict.get? spec "op" with
      | none =>
        rw [hget] at hcheck
        cases hcheck
      | some w =>
        obtain ⟨w', hw', hsame⟩ := hentries.get?_some hget
        rw [hget] at hcheck
        rw [hw']
        cases w with
        | str op =>
          obtain rfl := flat_str op w' hsame
          simp only at hcheck ⊢
          cases hrequired : Dict.get? REQUIRED_PARAMS op with
          | none =>
            rw [hrequired] at hcheck
            cases hcheck
          | some required =>
            rw [hrequired] at hcheck
            simp only [firstError_eq_none_iff] at hcheck ⊢
            rw [cons_append, forall_mem_cons, forall_mem_append,
              List.forall_mem_map] at hcheck ⊢
            obtain ⟨hunknown, hparams, hclip⟩ := hcheck
            refine ⟨?_, fun name hname => (transformParamCheck_same hentries (hparams name hname)).1,
              ?_⟩
            · split at hunknown
              · rw [if_pos (unknownParams_same hentries ‹_›)]
              · cases hunknown
            · have hnumber {name : String} (hname : op = "clip" → name ∈ required) (hop : op = "clip") :
                  (Dict.get? spec' name).bind numberOf = (Dict.get? spec name).bind numberOf :=
                (transformParamCheck_same hentries (hparams name (hname hop))).2
              have hclips (hop : op = "clip") : required = ["lo", "hi"] := by
                subst hop
                exact (some.inj hrequired).symm
              rw [forall_mem_singleton] at hclip ⊢
              refine clipCheck_same (hnumber fun hop => ?_) (hnumber fun hop => ?_) hclip
              · rw [hclips hop]
                exact .head _
              · rw [hclips hop]
                exact .tail _ (.head _)
        | _ => cases hcheck
    | _ => simp [Same, Val.sorted] at h
  | _ => cases hcheck

/-- Nor does that of the pass transform. -/
theorem passTransformCheck_same (h : SameAttrs vs vs') (hcheck : passTransformCheck it vs = none) :
    passTransformCheck it vs' = none := by
  have hsame := valueOf_same h "pass_transform"
  rw [passTransformCheck] at hcheck ⊢
  split at hcheck
  · rename_i hnone
    rw [hnone] at hsame
    rw [flat_none _ hsame]
  · have hagain := transformCheck_same hsame hcheck
    split
    · rfl
    · exact hagain

theorem aggregationCheck_same (h : SameAttrs vs vs') (hcheck : aggregationCheck it vs = none) :
    aggregationCheck it vs' = none := by
  rw [aggregationCheck, firstError_eq_none_iff, List.forall_mem_map] at hcheck ⊢
  intro e' he'
  obtain ⟨v, hmem, hsame⟩ := (entriesOf_same (valueOf_same h "drift_kind_aggregation")).mem he'
  have hv := hcheck _ hmem
  rw [map_eq_none_iff] at hv ⊢
  exact transformCheck_same hsame hv

section
omit [PyArith F]
theorem pluginCheck_same (h : SameAttrs vs vs') (hcheck : pluginCheck vs name = none) :
    pluginCheck vs' name = none := by
  have hsame := valueOf_same h name
  rw [pluginCheck] at hcheck ⊢
  split at hcheck
  · rename_i s hs
    rw [hs] at hsame
    rw [flat_str s _ hsame]
  · cases hcheck

theorem movedCheck_same (h : SameAttrs vs vs') {target : String}
    (hcheck : movedCheck vs key target = none) : movedCheck vs' key target = none := by
  have hkeys := (paramsOf_same (fieldsOf_same (valueOf_same h "tournament_structure"))).mem_keys_iff
    key
  rw [movedCheck] at hcheck ⊢
  split at hcheck
  · cases hcheck
  · rename_i hnot
    rw [contains_iff_mem] at hnot
    rw [if_neg (by rwa [contains_iff_mem, ← hkeys])]

theorem structureCheck_same (h : SameAttrs vs vs') (hcheck : structureCheck it vs = none) :
    structureCheck it vs' = none := by
  have hchosen := valueOf_same (fieldsOf_same (valueOf_same h "tournament_structure")) "structure"
  have henabled :=
    valueOf_same (fieldsOf_same (valueOf_same h "experimental")) "tournament_structures"
  rw [structureCheck] at hcheck ⊢
  rw [among_same hchosen, flagged_same henabled]
  split at hcheck
  · cases hcheck
  · rw [if_neg ‹_›]

end

theorem orderly_value {s : Scalar} :
    OrderlyField (knob it name (.scalar s) default constraint key) :=
  orderly_knob (orderly_scalar s)

theorem ladder_orderly : ∀ f ∈ ladderFields it, OrderlyField f := by
  simp only [ladderFields, forall_mem_cons]
  exact ⟨orderly_value, orderly_knob (orderly_optional (orderly_scalar _)), orderly_value, by simp⟩

theorem overfitting_orderly : ∀ f ∈ overfittingFields it, OrderlyField f := by
  have hladder : Block (ladderFields it) _ := ladder_block
  simp only [overfittingFields, forall_mem_cons]
  exact ⟨orderly_value, orderly_value, orderly_value, orderly_value,
    orderly_knob (orderly_knobClass (hladder.keys ▸ hladder.nodup) ladder_orderly), orderly_value,
    by simp⟩

theorem proposerQuality_orderly : ∀ f ∈ proposerQualityFields it, OrderlyField f := by
  simp only [proposerQualityFields, forall_mem_cons]
  exact ⟨orderly_value, orderly_value, orderly_value, orderly_value, by simp⟩

theorem experimental_orderly : ∀ f ∈ experimentalFields it, OrderlyField f := by
  simp only [experimentalFields, forall_mem_cons]
  exact ⟨orderly_value, orderly_knob (orderly_optional (orderly_scalar _)), orderly_value,
    orderly_value, orderly_value, orderly_value, orderly_value, orderly_value, orderly_value,
    orderly_value, orderly_value, orderly_knob (orderly_literal _),
    orderly_knob (orderly_literal _), by simp⟩

theorem experimentalAnn_orderly : Orderly (experimentalAnn it) := by
  have hblock : Block (experimentalFields it) _ := experimental_block
  rw [experimentalAnn, Orderly, Everywhere]
  refine ⟨hblock.keys ▸ hblock.nodup, checking_orderly fun vs vs' h hcheck => ?_,
    everyField_iff.mpr experimental_orderly⟩
  rw [experimentalCheck, firstError_eq_none_iff] at hcheck ⊢
  simp only [forall_mem_cons] at hcheck ⊢
  rw [among_same (valueOf_same h "standing_rating"), among_same (valueOf_same h "resolver")]
  exact ⟨validateKnobs_orderly experimental_orderly _ _ h hcheck.1, hcheck.2⟩

/-- **No field of the contract looks at the order of keys.** -/
theorem scoring_orderly : ∀ f ∈ scoringFields it, OrderlyField f := by
  have hoverfitting : Block (overfittingFields it) _ := overfitting_block
  have hproposer : Block (proposerQualityFields it) _ := proposerQuality_block
  simp only [scoringFields, forall_mem_cons]
  exact ⟨orderly_value, orderly_knob (orderly_map (orderly_scalar _)),
    orderly_knob (orderly_map (orderly_scalar _)), orderly_knob (orderly_map (orderly_scalar _)),
    orderly_value, orderly_value, orderly_value, orderly_value, orderly_value,
    orderly_knob (orderly_optional (orderly_scalar _)), orderly_value, orderly_value,
    orderly_knob (orderly_literal _), orderly_value, orderly_knob (orderly_seq (orderly_scalar _)),
    orderly_value, orderly_knob (orderly_map (orderly_scalar _)),
    orderly_knob (orderly_map (orderly_scalar _)), orderly_knob tournamentAnn_orderly,
    orderly_knob (orderly_knobClass (hoverfitting.keys ▸ hoverfitting.nodup) overfitting_orderly),
    orderly_knob (orderly_knobClass (hproposer.keys ▸ hproposer.nodup) proposerQuality_orderly),
    orderly_knob experimentalAnn_orderly,
    orderly_knob (orderly_optional (orderly_map orderly_any)), orderly_value,
    orderly_knob (orderly_optional (orderly_map orderly_any)),
    orderly_knob (orderly_map (orderly_map orderly_any)), orderly_value, orderly_value,
    orderly_value, orderly_value, orderly_value,
    orderly_knob (orderly_map (orderly_map orderly_any)), by simp⟩

/-- Every check of the contract passes whatever the order of keys. -/
theorem scoringChecks_same (h : SameAttrs vs vs')
    (hcheck : firstError (scoringChecks it vs) = none) :
    firstError (scoringChecks it vs') = none := by
  rw [firstError_eq_none_iff, scoringChecks] at hcheck ⊢
  simp only [forall_mem_cons] at hcheck ⊢
  obtain ⟨hknobs, hseverity, hkind, hjudge, hnamespace, hfailure, hcustom, hpass, haggregation,
    hreducer, hscalar, hrating, hresolver, hstructure, hnil⟩ := hcheck
  exact ⟨validateKnobs_orderly scoring_orderly _ _ h hknobs, requireFiniteMapping_same h hseverity,
    requireFiniteMapping_same h hkind, requireFiniteMapping_same h hjudge,
    requireFiniteMapping_same h hnamespace, failureWeightCheck_same h hfailure,
    customKindCheck_same h hcustom, passTransformCheck_same h hpass,
    aggregationCheck_same h haggregation, pluginCheck_same h hreducer, pluginCheck_same h hscalar,
    movedCheck_same h hrating, movedCheck_same h hresolver, structureCheck_same h hstructure, hnil⟩

theorem scoringAnn_orderly : Orderly (scoringAnn it) := by
  rw [scoringAnn, Orderly, Everywhere]
  refine ⟨?_, ?_, everyField_iff.mpr scoring_orderly⟩
  · rw [keysOf_scoringFields]
    decide
  · intro vs vs' ws h hpost
    obtain ⟨hcheck, rfl⟩ := checking_ok_iff.mp hpost
    have hsame := setValue_same h "goldfive" (freezeJson_same (valueOf_same h "goldfive"))
    exact ⟨_, checking_ok_iff.mpr ⟨scoringChecks_same hsame hcheck, rfl⟩, hsame⟩

end Zicato.ScoringDocument
