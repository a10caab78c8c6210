import Zicato.JsonExact
import Zicato.ScoringOrder

/-! # The frozen scoring document

An epoch freezes the complete form of the document it was opened with, written with sorted
keys.  The frozen document and the one it was resolved from are read as the same weights,
and have the same canonical form. -/
open List Option
namespace Zicato.ScoringDocument

open Codec

variable {F : Type} [PyArith F] {it : Interp F}

/-! ## The tournament block is resolved once -/

/-- Decoded fields have the declared attributes. -/
theorem attrs_of_decodeFields : ∀ {fields : List (FieldInfo F × Ann F)}
    {entries : Dict String (PyValue F)} {path : String} {values : List (Attr × Val F)},
    decodeFields it fields entries path = .ok values →
      values.map Prod.fst = fields.map fun f => f.1.attr
  | [], _, _, _, h => by
    rw [decodeFields] at h
    cases h
    rfl
  | (info, a) :: rest, entries, path, values, h => by
    rw [decodeFields] at h
    obtain ⟨v, hv, h⟩ := bind_eq_ok h
    obtain ⟨values', hvalues, h⟩ := bind_eq_ok h
    cases h
    rw [map_cons, map_cons, attrs_of_decodeFields hvalues]

omit [PyArith F] in
theorem attrs_setValue (vs : List (Attr × Val F)) (name : String) (v : Val F) :
    (setValue vs name v).map Prod.fst = vs.map Prod.fst := by
  rw [setValue, List.map_map]
  refine map_congr_left fun e _ => ?_
  by_cases h : e.1.name = name <;> simp [h]

/-- The hook leaves the attributes. -/
theorem attrs_of_tournamentPost {vs ws : List (Attr × Val F)} (h : tournamentPost it vs = .ok ws) :
    ws.map Prod.fst = vs.map Prod.fst := by
  rw [tournamentPost] at h
  split at h
  · cases h
  · split at h
    · split at h
      · cases h
        exact attrs_setValue _ _ _
      · cases h
    · cases h
      rfl

variable {raw : PyValue F}

/-- A tournament block is written with both its fields. -/
theorem encode_tournament {path : String} {v : Val F}
    (h : decode it (tournamentAnn it) raw path = .ok v) :
    ∃ entries : Dict String (PyValue F), encode v = .dict entries ∧
      Dict.keys entries = ["structure", "params"] := by
  obtain ⟨_, values, ws, -, -, hvalues, hws, rfl⟩ := decode_dataclass_ok h
  refine ⟨encodeFields ws, by rw [encode], ?_⟩
  have hattrs : ws.map Prod.fst = [structureAttr, paramsAttr] := by
    rw [attrs_of_tournamentPost hws, attrs_of_decodeFields hvalues]
    rfl
  have hkeys : (ws.map fun e => e.1.key) = (ws.map Prod.fst).map Attr.key := by
    rw [List.map_map]
    rfl
  rw [keys_encodeFields, hkeys, hattrs]
  rfl

/-- A document whose tournament block is complete. -/
def Complete (raw : PyValue F) : Prop :=
  ∃ d t, raw = .dict d ∧ Dict.get? d "tournament" = some (.dict t) ∧
    (Dict.get? t "structure").isSome = true ∧ (Dict.get? t "params").isSome = true

omit [PyArith F] in
theorem Complete.sorted (h : Complete raw) : Complete raw.sorted := by
  obtain ⟨d, t, rfl, ht, hstructure, hparams⟩ := h
  refine ⟨PyValue.sortKeys d, PyValue.sortKeys t, PyValue.sorted_dict d, ?_, ?_, ?_⟩
  · rw [PyValue.get?_sortKeys, ht, map_some, PyValue.sorted_dict]
  · rw [PyValue.get?_sortKeys, isSome_map, hstructure]
  · rw [PyValue.get?_sortKeys, isSome_map, hparams]

omit [PyArith F] in
theorem setdefault_of_isSome {d : Dict String (PyValue F)} {k : String} {v : PyValue F}
    (h : (Dict.get? d k).isSome = true) : Dict.setdefault d k v = d := by
  obtain ⟨w, hw⟩ := isSome_iff_exists.mp h
  rw [Dict.setdefault, hw]

theorem Complete.resolve (h : Complete raw) : resolve raw = raw := by
  obtain ⟨d, t, rfl, ht, hstructure, hparams⟩ := h
  have hsame : resolveTournament t = t := by
    rw [resolveTournament, setdefault_of_isSome hstructure]
    exact setdefault_of_isSome hparams
  rw [ScoringDocument.resolve, ht]
  simp only [hsame]
  rw [Dict.set_eq_self ht]

omit [PyArith F] in
theorem Settled.exists_mem {fields : List (FieldInfo F × Ann F)} {values : List (Attr × Val F)}
    [PyArith F] (h : Settled it fields values) {f : FieldInfo F × Ann F} (hf : f ∈ fields) :
    ∃ e ∈ values, e.1 = f.1.attr ∧ FieldStable it f.1 f.2 e.2 := by
  induction h with
  | nil => cases hf
  | cons hhead _ ih =>
    rcases mem_cons.mp hf with rfl | hrest
    · exact ⟨_, .head _, hhead⟩
    · obtain ⟨e, he, hstable⟩ := ih hrest
      exact ⟨e, .tail _ he, hstable⟩

section Weights

variable [LawfulLiterals F]

variable {raw : PyValue F}

/-- What an instance of `ScoringWeights` holds. -/
theorem weights_ok (hit : it.Lawful) {w : Val F} {path : String}
    (h : decode it (scoringAnn it) raw path = .ok w) :
    ∃ us ws, w = .object "ScoringWeights" ws ∧ Settled it (scoringFields it) us ∧
      encodeFields us = encodeFields ws := by
  have hsound : Sound it (scoringAnn it) := scoringAnn_sound
  rw [scoringAnn, Sound, Everywhere] at hsound
  obtain ⟨-, hpost, hfields⟩ := hsound
  obtain ⟨_, values, ws, -, -, hvalues, hws, rfl⟩ := decode_dataclass_ok h
  obtain ⟨us, hus, hencode, -⟩ := hpost _ _ (settled_of_decodeFields hit hfields hvalues) hws
  exact ⟨us, ws, rfl, hus, hencode⟩

/-- An instance is written as a complete document. -/
theorem complete_encode (hit : it.Lawful) {w : Val F} {path : String}
    (h : decode it (scoringAnn it) raw path = .ok w) : Complete (encode w) := by
  obtain ⟨us, ws, rfl, hus, hencode⟩ := weights_ok hit h
  have hmem : knob it "tournament_structure" (tournamentAnn it) defaultTournament none "tournament" ∈
      scoringFields it := by
    simp only [scoringFields, mem_cons, true_or, or_true]
  obtain ⟨e, he, hattr, hstable⟩ := Settled.exists_mem hus hmem
  have hdecode := (checkedValue_ok.mp (hstable "")).1
  obtain ⟨entries, hentries, hkeys⟩ := encode_tournament hdecode
  have hnodup : (Dict.keys (encodeFields us)).Nodup := by
    rw [keys_encodeFields, hus.keys, keysOf_scoringFields]
    decide
  have hkey : e.1.key = "tournament" := by rw [hattr]; rfl
  have hget : Dict.get? (encodeFields us) "tournament" = some (.dict entries) := by
    rw [← hkey, ← hentries]
    exact (Dict.get?_eq_some_iff hnodup _ _).mpr (mem_encodeFields he)
  refine ⟨encodeFields ws, entries, by rw [encode], hencode ▸ hget, ?_, ?_⟩
  · rw [← Dict.mem_keys_iff, hkeys]
    decide
  · rw [← Dict.mem_keys_iff, hkeys]
    decide

/-- The complete document is read as the weights it was written from, and so is its frozen
copy. -/
theorem frozen_reads (hit : it.Lawful) {w : Val F} (h : scoringWeightsFromDict it raw = .ok w) :
    scoringWeightsFromDict it (encode w) = .ok w ∧
      ∃ w', scoringWeightsFromDict it (encode w).sorted = .ok w' ∧ Same w w' := by
  have hcomplete := complete_encode hit h
  have hagain := stable_of_decode hit scoringAnn_sound h "scoring"
  rw [scoringWeightsFromDict, hcomplete.resolve, scoringWeightsFromDict, hcomplete.sorted.resolve]
  exact ⟨hagain, decode_respects scoringAnn_orderly _ _ _ hagain⟩

end Weights

/-! ## The canonical form -/

/-- The integration reads its document whatever the order of keys, and writes its sections in
one order. -/
def Grading.Lawful (g : Grading F) : Prop :=
  ∀ d d', PyValue.sortKeys d = PyValue.sortKeys d' →
    (g.normalizeConfig d).map PyValue.sortedFields = (g.normalizeConfig d').map PyValue.sortedFields

/-- Two calls with equal outcomes. -/
theorem outcomes_of_map_eq {ε α β : Type} {f : α → β} {x y : Except ε α} (h : x.map f = y.map f) :
    (∃ e, x = .error e ∧ y = .error e) ∨ ∃ a b, x = .ok a ∧ y = .ok b ∧ f a = f b := by
  cases x with
  | error e =>
    cases y with
    | error e' =>
      cases h
      exact .inl ⟨e, rfl, rfl⟩
    | ok b => cases h
  | ok a =>
    cases y with
    | error e' => cases h
    | ok b => exact .inr ⟨a, b, rfl, rfl, Except.ok.inj h⟩

section Canon

omit [PyArith F]

theorem sortedFields_set (d : Dict String (PyValue F)) (k : String) (v : PyValue F) :
    PyValue.sortedFields (Dict.set d k v) = Dict.set (PyValue.sortedFields d) k v.sorted := by
  induction d with
  | nil => rfl
  | cons e rest ih =>
    obtain ⟨k₀, v₀⟩ := e
    rw [Dict.set, PyValue.sortedFields, Dict.set]
    split
    · rw [PyValue.sortedFields]
    · rw [PyValue.sortedFields, ih]

theorem get?_sortedFields (d : Dict String (PyValue F)) (k : String) :
    Dict.get? (PyValue.sortedFields d) k = (Dict.get? d k).map PyValue.sorted := by
  induction d with
  | nil => rfl
  | cons e rest ih =>
    obtain ⟨k₀, v₀⟩ := e
    rw [PyValue.sortedFields, Dict.get?, Dict.get?, ih]
    split <;> rfl

variable {g : Grading F} {out out' : Dict String (PyValue F)}

theorem get?_same (h : PyValue.sortedFields out = PyValue.sortedFields out') (k : String) :
    (Dict.get? out k).map PyValue.sorted = (Dict.get? out' k).map PyValue.sorted := by
  rw [← get?_sortedFields, ← get?_sortedFields, h]

theorem canonDottedSpec_same {v v' : PyValue F} (h : v.sorted = v'.sorted) :
    canonDottedSpec g v = canonDottedSpec g v' := by
  cases v <;> cases v' <;> simp_all [PyValue.sorted, canonDottedSpec]

/-- A step does not look at the order of keys. -/
theorem canonStep_same (h : PyValue.sortedFields out = PyValue.sortedFields out') (name : String) :
    PyValue.sortedFields (canonStep g out name) = PyValue.sortedFields (canonStep g out' name) := by
  have hget := get?_same h name
  rw [canonStep, canonStep]
  cases hv : Dict.get? out name with
  | none =>
    rw [hv, map_none] at hget
    rw [map_eq_none_iff.mp hget.symm]
    exact h
  | some v =>
    rw [hv, map_some] at hget
    obtain ⟨v', hv', hsame⟩ := map_eq_some_iff.mp hget.symm
    rw [hv', sortedFields_set, sortedFields_set, h, canonDottedSpec_same hsame]

theorem canonSteps_same (names : List String)
    (h : PyValue.sortedFields out = PyValue.sortedFields out') :
    PyValue.sortedFields (names.foldl (canonStep g) out) =
      PyValue.sortedFields (names.foldl (canonStep g) out') := by
  induction names generalizing out out' with
  | nil => exact h
  | cons name rest ih => exact ih (canonStep_same h name)

theorem encodeFields_same {fs fs' : List (Attr × Val F)} (h : SameAttrs fs fs') :
    PyValue.sortedFields (encodeFields fs) = PyValue.sortedFields (encodeFields fs') := by
  rw [← sortedFields_encode fs, ← sortedFields_encode fs', h]

theorem scoringToCanon_same {w w' : Val F} (h : Same w w') :
    PyValue.sortedFields (scoringToCanon g w) = PyValue.sortedFields (scoringToCanon g w') :=
  canonSteps_same _ (encodeFields_same (fieldsOf_same h))

theorem identified_same {n n' : Dict String (PyValue F)}
    (h : PyValue.sortedFields n = PyValue.sortedFields n') :
    (identified n).sorted = (identified n').sorted := by
  rw [identified, identified, PyValue.sorted, PyValue.sorted, sortedFields_set, sortedFields_set, h]

/-- The canonical form with the integration block, if it is one. -/
def integrated (g : Grading F) (out : Dict String (PyValue F)) :
    Except Raised (Dict String (PyValue F)) :=
  match Dict.get? out "goldfive" with
  | some (.dict goldfive) => do
      let normalized ← g.normalizeConfig goldfive
      .ok (Dict.set out "goldfive" (identified normalized))
  | _ => .error (.other "TypeError")

/-- Nor does the integration. -/
theorem integrated_same (hg : g.Lawful)
    (h : PyValue.sortedFields out = PyValue.sortedFields out') :
    (integrated g out).map PyValue.sortedFields = (integrated g out').map PyValue.sortedFields := by
  have hget := get?_same h "goldfive"
  rw [integrated, integrated]
  cases hv : Dict.get? out "goldfive" with
  | none =>
    rw [hv, map_none] at hget
    rw [map_eq_none_iff.mp hget.symm]
  | some v =>
    rw [hv, map_some] at hget
    obtain ⟨v', hv', hsame⟩ := map_eq_some_iff.mp hget.symm
    rw [hv']
    cases v <;> cases v' <;> try (simp [PyValue.sorted] at hsame)
    case dict.dict d d' =>
      simp only
      obtain ⟨e, hd, hd'⟩ | ⟨n, n', hd, hd', hn⟩ := outcomes_of_map_eq (hg d d' hsame.symm)
      · rw [hd, hd']
        rfl
      · rw [hd, hd']
        refine congrArg Except.ok ?_
        rw [sortedFields_set, sortedFields_set, h, identified_same hn]
    all_goals rfl

theorem scoringContractToCanon_eq {w : Val F} (h : valueOf (fieldsOf w) "goldfive" ≠ .none) :
    scoringContractToCanon g w = integrated g (scoringToCanon g w) := by
  rw [scoringContractToCanon]
  split
  · exact absurd ‹_› h
  · rfl

/-- Equal weights have the same canonical form. -/
theorem scoringContractToCanon_same (hg : g.Lawful) {w w' : Val F} (h : Same w w') :
    (scoringContractToCanon g w).map PyValue.sortedFields =
      (scoringContractToCanon g w').map PyValue.sortedFields := by
  have hcanon := scoringToCanon_same (g := g) h
  have hgold := valueOf_same (fieldsOf_same h) "goldfive"
  by_cases hnone : valueOf (fieldsOf w) "goldfive" = .none
  · rw [hnone] at hgold
    rw [scoringContractToCanon, scoringContractToCanon, hnone, flat_none _ hgold]
    exact congrArg Except.ok hcanon
  · have hnone' : valueOf (fieldsOf w') "goldfive" ≠ .none := by
      intro hw'
      rw [hw'] at hgold
      exact hnone (flat_none _ hgold.symm)
    rw [scoringContractToCanon_eq hnone, scoringContractToCanon_eq hnone']
    exact integrated_same hg hcanon

end Canon

/-- The canonical text of weights. -/
def canonText (g : Grading F) (fl : Json.Floats F) (w : Val F) : Except Raised Text := do
  let canon ← scoringContractToCanon g w
  .ok (Json.dumps fl Json.Layout.default (PyValue.dict canon).sorted)

omit [PyArith F] in
theorem canonText_same {g : Grading F} (hg : g.Lawful) (fl : Json.Floats F) {w w' : Val F}
    (h : Same w w') : canonText g fl w = canonText g fl w' := by
  rw [canonText, canonText]
  obtain ⟨e, hw, hw'⟩ | ⟨c, c', hw, hw', hc⟩ :=
    outcomes_of_map_eq (scoringContractToCanon_same hg h)
  · rw [hw, hw']
  · have hsorted : (PyValue.dict c).sorted = (PyValue.dict c').sorted := by
      rw [PyValue.sorted, PyValue.sorted, hc]
    rw [hw, hw', ok_bind, ok_bind, hsorted]

/-- The frozen copy has the canonical form of the document it was resolved from. -/
theorem frozen_canon [LawfulLiterals F] (hit : it.Lawful) {g : Grading F} (hg : g.Lawful)
    (fl : Json.Floats F) {w : Val F} (h : scoringWeightsFromDict it raw = .ok w) :
    canonicalScoringJson it g fl (encode w).sorted = canonicalScoringJson it g fl raw := by
  obtain ⟨-, w', hw', hsame⟩ := frozen_reads hit h
  rw [canonicalScoringJson, canonicalScoringJson, h, hw', ok_bind, ok_bind]
  exact (canonText_same hg fl hsame).symm

/-! ## What the codec retracts -/

/-- An accepted document is written as one that is read as the same instance.  For the scoring
weights so is the frozen copy, and its canonical form is that of the document. -/
theorem codec_retracts [LawfulLiterals F] (hit : it.Lawful) :
    (∀ a : Ann F, Everywhere (FieldSound it) OnlyValidates a → ∀ raw path v,
      decode it a raw path = .ok v → ∀ path', decode it a (encode v) path' = .ok v) ∧
    ∀ g : Grading F, g.Lawful → ∀ (fl : Json.Floats F) raw w,
      scoringWeightsFromDict it raw = .ok w →
        scoringWeightsFromDict it (encode w) = .ok w ∧
        (∃ w', scoringWeightsFromDict it (encode w).sorted = .ok w' ∧ Same w w') ∧
        canonicalScoringJson it g fl (encode w).sorted = canonicalScoringJson it g fl raw := by
  constructor
  · intro a ha raw path v h
    have hsound : Sound it a := ha.imp (fun _ _ => id) fun _ _ => OnlyValidates.settles
    exact stable_of_decode hit hsound h
  · intro g hg fl raw w h
    obtain ⟨hagain, hfrozen⟩ := frozen_reads hit h
    exact ⟨hagain, hfrozen, frozen_canon hit hg fl h⟩

section Concrete

instance : LawfulLiterals Exact where
  finite _ _ := rfl
  not_lt p q h := by
    change decide (q < p) = false
    simpa using h
  ne p q _ _ h := by
    change decide (Exact.fin p = Exact.fin q) = false
    rw [decide_eq_false_iff_not, Exact.fin.injEq]
    rintro rfl
    rw [sub_self, abs_zero] at h
    norm_num at h

/-- An interpreter with one home directory. -/
def homeInterp : Interp Exact where
  upper s := String.ofList (s.toList.map Char.toUpper)
  expanduser s :=
    match s.toList with
    | '~' :: rest => some (String.ofList ("/home/u".toList ++ rest))
    | _ => some s
  repr _ := ""
  types _ := ""
  literals _ := ""
  members _ := ""

theorem toUpper_toUpper (c : Char) : c.toUpper.toUpper = c.toUpper := by
  have hlower : ¬ ('a'.val ≤ c.toUpper.val ∧ c.toUpper.val ≤ 'z'.val) := by
    unfold Char.toUpper
    split <;> grind [UInt32.toNat_add]
  rw [Char.toUpper.eq_def c.toUpper, dif_neg hlower]

/-- The demonstrated runtime is lawful. -/
theorem homeInterp_lawful : homeInterp.Lawful where
  upper_upper s := by
    simp only [homeInterp, String.toList_ofList, List.map_map]
    congr 2
    funext c
    exact toUpper_toUpper c
  expanduser_expanded {s p} h := by
    simp only [homeInterp] at h ⊢
    split at h
    · cases h
      rw [String.toList_ofList]
      rfl
    · rename_i hs
      cases h
      split
      · exact absurd ‹_› (hs _)
      · rfl

/-- An integration that keeps its section. -/
def keptGrading : Grading Exact where
  sourceHash _ := none
  normalizeConfig d := .ok (PyValue.sortKeys d)

theorem exists_of_isOk {ε α : Type} {x : Except ε α} (h : x.isOk = true) : ∃ a, x = .ok a := by
  cases x with
  | error e => cases h
  | ok a => exact ⟨a, rfl⟩

/-- A block of the scoring weights only validates. -/
theorem ladder_declares :
    Everywhere (FieldSound homeInterp) OnlyValidates
      (knobClass "LadderConfig" (ladderFields homeInterp)) := by
  rw [knobClass, Everywhere]
  refine ⟨by decide, fun vs ws h => (checking_ok_iff.mp h).2, everyField_iff.mpr fun f hf => ?_⟩
  refine ⟨(ladder_sound f hf).1, ?_⟩
  simp only [ladderFields, mem_cons, not_mem_nil, or_false] at hf
  rcases hf with rfl | rfl | rfl <;> simp [bool, unset, int, knob, plain, Everywhere]

/-- A document with a margin and with a threshold that brings its budget along. -/
def partialDocument : PyValue Exact :=
  .dict [("promote_margin", .float (.fin (1 / 20))),
    ("tournament", .dict [("params", .dict [("field_size", .int 3),
      ("promote_confidence_threshold", .float (.fin (9 / 10)))])])]

theorem codec_retracts_partial :
    (∃ v, decode homeInterp (knobClass "LadderConfig" (ladderFields homeInterp))
        (.dict [("budget", .int 3)]) "ladder" = .ok v ∧
      decode homeInterp (knobClass "LadderConfig" (ladderFields homeInterp)) (encode v) "ladder" =
        .ok v) ∧
    (∃ v, decode homeInterp (.enum expectationKind) (.str "rubric") "kind" = .ok v ∧
      decode homeInterp (.enum expectationKind) (encode v) "kind" = .ok v) ∧
    ∃ w, scoringWeightsFromDict homeInterp partialDocument = .ok w ∧
      scoringWeightsFromDict homeInterp (encode w) = .ok w := by
  have hboth := codec_retracts homeInterp_lawful
  refine ⟨?_, ?_, ?_⟩
  · have hread : (decode homeInterp (knobClass "LadderConfig" (ladderFields homeInterp))
        (.dict [("budget", .int 3)]) "ladder").isOk = true := by decide
    obtain ⟨v, hv⟩ := exists_of_isOk hread
    exact ⟨v, hv, hboth.1 _ ladder_declares _ _ _ hv "ladder"⟩
  · exact ⟨_, rfl, hboth.1 (.enum expectationKind) trivial (.str "rubric") "kind" _ rfl "kind"⟩
  · have hread : (scoringWeightsFromDict homeInterp partialDocument).isOk = true := by
      decide +kernel
    obtain ⟨w, hw⟩ := exists_of_isOk hread
    have hkept : keptGrading.Lawful := fun d d' hsame => congrArg _ (congrArg Except.ok hsame)
    exact ⟨w, hw, (hboth.2 keptGrading hkept Json.exactFloats partialDocument w hw).1⟩

/-- A field whose default is no finite number. -/
def limitsAnn : Ann Exact :=
  .dataclass "Limits"
    [({ attr := ⟨"limit", "limit"⟩, default := some (.float .pinf) }, .scalar .float)] .ok

/-- A field of a path without case. -/
def rootsAnn : Ann Exact :=
  .dataclass "Roots"
    [({ attr := ⟨"root", "root"⟩, default := none, caseless := true }, .scalar .path)] .ok

/-- Neither the class with the default nor the class with the path is read again. -/
theorem default_refused :
    (Everywhere (fun _ _ => True) OnlyValidates limitsAnn ∧
      ¬ ∀ raw v, decode homeInterp limitsAnn raw "config" = .ok v →
        decode homeInterp limitsAnn (encode v) "config" = .ok v) ∧
    (Everywhere (fun _ _ => True) OnlyValidates rootsAnn ∧
      ¬ ∀ raw v, decode homeInterp rootsAnn raw "config" = .ok v →
        decode homeInterp rootsAnn (encode v) "config" = .ok v) := by
  have hpost (fields : List (FieldInfo Exact × Ann Exact)) : OnlyValidates fields .ok :=
    fun _ _ h => (Except.ok.inj h).symm
  refine ⟨⟨?_, fun h => ?_⟩, ?_, fun h => ?_⟩
  · simp [limitsAnn, Everywhere, EveryField, keysOf, hpost]
  · cases h (.dict []) (.object "Limits" [(⟨"limit", "limit"⟩, .float .pinf)]) rfl
  · simp [rootsAnn, Everywhere, EveryField, keysOf, hpost]
  · have hread := h (.dict [("root", .str "~/x")])
      (.object "Roots" [(⟨"root", "root"⟩, .path "/home/u/X")]) rfl
    have hagain : decode homeInterp rootsAnn (.dict [("root", .str "/home/u/X")]) "config" =
        .ok (.object "Roots" [(⟨"root", "root"⟩, .path "/HOME/U/X")]) := rfl
    rw [encode, encodeFields, encode, encodeFields, hagain] at hread
    simp at hread

end Concrete

end Zicato.ScoringDocument
