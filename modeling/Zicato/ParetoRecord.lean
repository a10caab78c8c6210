import Zicato.Pareto
import Zicato.PyExcept
import Zicato.PyValue

/-! # The frontier record on disk

`frontier_to_dict` and `frontier_from_dict` of `zicato/epoch/pareto.py`. -/
open List
namespace Zicato.Pareto

open PyFloat

variable {F : Type} [PyArith F]

/-! ## Conversions of a parsed value -/

/-- Why a decoder raises. -/
inductive DecodeError
  | recordFormat (message : String)
  | typeError
  | valueError
  | overflowError
  deriving DecidableEq

/-- What the decoder uses of the builtins on values the encoder never writes there. -/
structure Builtins (F : Type) where
  /-- `float(s)` of a string; none when it raises. -/
  floatOfStr : String → Option F
  /-- `int(s)` of a string. -/
  intOfStr : String → Option Int
  /-- `str(value)` of one that is no string. -/
  strOf : PyValue F → String
  repr : PyValue F → String

variable (rt : Builtins F)

/-- `bool(value)`. -/
def truthy : PyValue F → Bool
  | .none => false
  | .bool b => b
  | .int n => decide (n ≠ 0)
  | .float x => !eq x zero
  | .str s => decide (s ≠ "")
  | .list items => !items.isEmpty
  | .dict fields => !fields.isEmpty

/-- `body.get(key) or default`. -/
def getOr (body : Dict String (PyValue F)) (key : String) (default : PyValue F) : PyValue F :=
  let value := Dict.getD body key .none
  if truthy value then value else default

/-- `str(value)`. -/
def toStr : PyValue F → String
  | .str s => s
  | value => rt.strOf value

/-- `int(value)`. -/
def toInt : PyValue F → Except DecodeError Int
  | .int n => .ok n
  | .bool b => .ok (if b then 1 else 0)
  | .float x =>
      if isfinite x then .ok (PyArith.trunc x)
      else if eq x x then .error .overflowError else .error .valueError
  | .str s => ((rt.intOfStr s).map Except.ok).getD (.error .valueError)
  | _ => .error .typeError

/-- `float(value)`. -/
def toFloat : PyValue F → Except DecodeError F
  | .float x => .ok x
  | .int n => ((ofInt n).map Except.ok).getD (.error .overflowError)
  | .bool b => ((ofInt (if b then 1 else 0)).map Except.ok).getD (.error .overflowError)
  | .str s => ((rt.floatOfStr s).map Except.ok).getD (.error .valueError)
  | _ => .error .typeError

/-- `float(value)` with `except (TypeError, ValueError)`: none when one of them is raised. -/
def tryFloat (value : PyValue F) : Except DecodeError (Option F) :=
  match toFloat rt value with
  | .ok x => .ok (some x)
  | .error .typeError => .ok none
  | .error .valueError => .ok none
  | .error e => .error e

/-- The items of a loop over a value. -/
def iterate : PyValue F → Except DecodeError (List (PyValue F))
  | .list items => .ok items
  | .dict fields => .ok (fields.map fun item => .str item.1)
  | .str s => .ok (s.toList.map fun c => .str (String.singleton c))
  | _ => .error .typeError

/-- A tuple of strings; anything but a list is empty. -/
def strings : PyValue F → List String
  | .list items => items.map (toStr rt)
  | _ => []

/-! ## Members -/

/-- `_member_to_dict`. -/
def memberToDict (member : FrontierMember F) : Dict String (PyValue F) :=
  [("generation_id", .str member.generationId),
    ("round_admitted", .int member.roundAdmitted),
    ("champion_generation_id", .str member.championGenerationId),
    ("axis_values", .dict (member.axisValues.map fun item => (item.1, .float item.2))),
    ("beats_champion_on", .list (member.beatsChampionOn.map .str)),
    ("scalar", (member.scalar.map PyValue.float).getD .none)]

/-- The loop of `_member_from_dict` over `axis_values`. -/
def readAxisValues : List (String × PyValue F) → Values F → Except DecodeError (Values F)
  | [], values => .ok values
  | (ns, value) :: rest, values => do
      match ← tryFloat rt value with
      | some x => readAxisValues rest (Dict.set values ns x)
      | none => readAxisValues rest values

/-- `raw_values`: anything but an object holds no values. -/
def axisValuesOf : PyValue F → Except DecodeError (Values F)
  | .dict items => readAxisValues rt items []
  | _ => .ok []

/-- `raw_scalar`. -/
def scalarOf : PyValue F → Except DecodeError (Option F)
  | .none => .ok none
  | raw => tryFloat rt raw

/-- `_member_from_dict`. -/
def memberFromDict (body : Dict String (PyValue F)) : Except DecodeError (FrontierMember F) := do
  let values ← axisValuesOf rt (getOr body "axis_values" (.dict []))
  let scalar ← scalarOf rt (Dict.getD body "scalar" .none)
  let roundAdmitted ← toInt rt (getOr body "round_admitted" (.int 0))
  .ok {
    generationId := toStr rt (Dict.getD body "generation_id" (.str ""))
    roundAdmitted := roundAdmitted
    championGenerationId := toStr rt (getOr body "champion_generation_id" (.str ""))
    axisValues := values
    beatsChampionOn := strings rt (getOr body "beats_champion_on" (.list []))
    scalar := scalar }

/-! ## The record -/

/-- The file of the frontier. -/
def frontierFilename : String := "pareto_frontier.json"

/-- A retired member on disk. -/
def retiredToDict (entry : RetiredMember F) : Dict String (PyValue F) :=
  memberToDict entry.member ++
    [("round_retired", .int entry.roundRetired), ("reason", .str entry.reason)]

/-- `frontier_to_dict`. -/
def frontierToDict (frontier : ParetoFrontier F) : Dict String (PyValue F) :=
  [("format_version", .int 1),
    ("epoch_id", .str frontier.epochId),
    ("axes", .list (frontier.axes.map .str)),
    ("margin", .float frontier.margin),
    ("champion_generation_id", .str frontier.championGenerationId),
    ("updated_round", .int frontier.updatedRound),
    ("members", .list (frontier.members.map fun m => .dict (memberToDict m))),
    ("retired", .list (frontier.retired.map fun entry => .dict (retiredToDict entry)))]

/-- `check_record_format`. -/
def checkRecordFormat (body : Dict String (PyValue F)) : Except DecodeError Unit :=
  let raw := Dict.getD body "format_version" .none
  require (decide (raw.int? = some 1)) (.recordFormat
    s!"{frontierFilename}: unsupported format_version {rt.repr raw}; expected integer 1")

/-- The objects of a list; anything else in it is passed over. -/
def objects (items : List (PyValue F)) : List (Dict String (PyValue F)) :=
  items.filterMap fun
    | .dict fields => some fields
    | _ => none

/-- A retired member, read back. -/
def retiredFromDict (body : Dict String (PyValue F)) : Except DecodeError (RetiredMember F) := do
  let member ← memberFromDict rt body
  let roundRetired ← toInt rt (getOr body "round_retired" (.int 0))
  .ok ⟨member, roundRetired, toStr rt (getOr body "reason" (.str ""))⟩

/-- `frontier_from_dict`. -/
def frontierFromDict (body : Dict String (PyValue F)) (epochId : String) :
    Except DecodeError (ParetoFrontier F) := do
  checkRecordFormat rt body
  let axes := strings rt (getOr body "axes" (.list []))
  let members ← (objects (← iterate (getOr body "members" (.list [])))).mapM (memberFromDict rt)
  let retired ← (objects (← iterate (getOr body "retired" (.list [])))).mapM (retiredFromDict rt)
  let margin ← tryFloat rt (getOr body "margin" (.float zero))
  let updatedRound ← toInt rt (getOr body "updated_round" (.int 0))
  .ok {
    epochId := toStr rt (getOr body "epoch_id" (.str epochId))
    axes := axes
    margin := margin.getD zero
    championGenerationId := toStr rt (getOr body "champion_generation_id" (.str ""))
    updatedRound := updatedRound
    members := members
    retired := retired }

/-! ## What is written is read back -/

section Getters

variable {body : Dict String (PyValue F)} {key : String}

theorem toStr_getOr {s default : String} (h : Dict.getD body key .none = .str s) :
    toStr rt (getOr body key (.str default)) = if s = "" then default else s := by
  rw [getOr, h]
  by_cases hs : s = "" <;> simp [truthy, toStr, hs]

theorem toInt_getOr {n : Int} (h : Dict.getD body key .none = .int n) :
    toInt rt (getOr body key (.int 0)) = .ok n := by
  rw [getOr, h]
  by_cases hn : n = 0 <;> simp [truthy, toInt, hn]

theorem strings_getOr {items : List String} (h : Dict.getD body key .none = .list (items.map .str)) :
    strings rt (getOr body key (.list [])) = items := by
  rw [getOr, h]
  cases items with
  | nil => rfl
  | cons item rest =>
    have hmap : ∀ l : List String, (l.map PyValue.str).map (toStr rt) = l := by
      intro l
      rw [map_map]
      exact map_id l
    exact hmap (item :: rest)

theorem iterate_getOr {items : List (PyValue F)} (h : Dict.getD body key .none = .list items) :
    iterate (getOr body key (.list [])) = .ok items := by
  rw [getOr, h]
  cases items <;> rfl

end Getters

/-- Written axis values are read back. -/
theorem readAxisValues_map (rest values : Values F) (h : (Dict.keys (values ++ rest)).Nodup) :
    readAxisValues rt (rest.map fun item => (item.1, .float item.2)) values =
      .ok (values ++ rest) := by
  induction rest generalizing values with
  | nil => rw [append_nil]; rfl
  | cons item rest ih =>
    obtain ⟨ns, value⟩ := item
    have hnew : ns ∉ Dict.keys values := by
      intro hmem
      rw [Dict.keys, map_append] at h
      exact (nodup_append.mp h).2.2 ns hmem ns mem_cons_self rfl
    have hset : Dict.set values ns value = values ++ [(ns, value)] := Dict.set_append values ns value hnew
    have happend : values ++ (ns, value) :: rest = values ++ [(ns, value)] ++ rest := by simp
    rw [happend] at h ⊢
    rw [← hset] at h ⊢
    exact ih _ h

theorem axisValuesOf_getOr {body : Dict String (PyValue F)} {values : Values F}
    (hget : Dict.getD body "axis_values" .none =
      .dict (values.map fun item => (item.1, .float item.2)))
    (h : (Dict.keys values).Nodup) :
    axisValuesOf rt (getOr body "axis_values" (.dict [])) = .ok values := by
  rw [getOr, hget]
  cases values with
  | nil => rfl
  | cons item rest => exact readAxisValues_map rt (item :: rest) [] h

/-- A member is read back. -/
theorem memberFromDict_memberToDict {m : FrontierMember F} (h : (Dict.keys m.axisValues).Nodup)
    (extra : Dict String (PyValue F)) :
    memberFromDict rt (memberToDict m ++ extra) = .ok m := by
  have hscalar : scalarOf rt (Dict.getD (memberToDict m ++ extra) "scalar" .none) = .ok m.scalar := by
    have hget : Dict.getD (memberToDict m ++ extra) "scalar" .none =
        (m.scalar.map PyValue.float).getD .none := rfl
    rw [hget]
    cases m.scalar <;> rfl
  have hchampion : toStr rt (getOr (memberToDict m ++ extra) "champion_generation_id" (.str "")) =
      m.championGenerationId := by
    rw [toStr_getOr rt (s := m.championGenerationId) rfl, ite_eq_right_iff]
    exact Eq.symm
  rw [memberFromDict, axisValuesOf_getOr rt rfl h, ok_bind, hscalar, ok_bind,
    toInt_getOr rt (n := m.roundAdmitted) rfl, ok_bind, hchampion,
    @strings_getOr _ _ rt _ _ m.beatsChampionOn rfl]
  rfl

theorem retiredFromDict_retiredToDict {entry : RetiredMember F}
    (h : (Dict.keys entry.member.axisValues).Nodup) :
    retiredFromDict rt (retiredToDict entry) = .ok entry := by
  have hreason : toStr rt (getOr (retiredToDict entry) "reason" (.str "")) = entry.reason := by
    rw [toStr_getOr rt (s := entry.reason) rfl, ite_eq_right_iff]
    exact Eq.symm
  have hmember : memberFromDict rt (retiredToDict entry) = .ok entry.member :=
    memberFromDict_memberToDict rt h _
  rw [retiredFromDict, hmember, ok_bind, toInt_getOr rt (n := entry.roundRetired) rfl, ok_bind,
    hreason]

omit [PyArith F] in
theorem objects_map {α : Type} (f : α → Dict String (PyValue F)) (l : List α) :
    objects (l.map fun x => .dict (f x)) = l.map f := by
  rw [objects, filterMap_map]
  exact congrFun (filterMap_eq_map (f := f)) l

theorem mapM_ok {α β : Type} {f : α → Except DecodeError β} {g : β → α} {l : List β}
    (h : ∀ x ∈ l, f (g x) = .ok x) : (l.map g).mapM f = .ok l := by
  induction l with
  | nil => rfl
  | cons x rest ih =>
    rw [map_cons, mapM_cons, h x mem_cons_self, ok_bind,
      ih fun y hy => h y (mem_cons_of_mem _ hy)]
    rfl

/-- A record whose members have each axis once is read back as it was. -/
theorem frontierFromDict_frontierToDict (rt : Builtins Exact) {f : ParetoFrontier Exact}
    (hmembers : ∀ m ∈ f.members, (Dict.keys m.axisValues).Nodup)
    (hretired : ∀ entry ∈ f.retired, (Dict.keys entry.member.axisValues).Nodup) :
    frontierFromDict rt (frontierToDict f) f.epochId = .ok f := by
  have hread : ∀ m ∈ f.members, memberFromDict rt (memberToDict m) = .ok m := fun m hm =>
    (congrArg (memberFromDict rt) (append_nil _).symm).trans
      (memberFromDict_memberToDict rt (hmembers m hm) [])
  have hmargin : tryFloat rt (getOr (frontierToDict f) "margin" (.float zero)) =
      .ok (some f.margin) := by
    have hget : Dict.getD (frontierToDict f) "margin" .none = .float f.margin := rfl
    rw [getOr, hget]
    by_cases hzero : f.margin = .fin 0
    · rw [hzero]
      rfl
    · have htruthy : truthy (PyValue.float f.margin) = true := by
        cases hm : f.margin with
        | fin q =>
          have hq : q ≠ 0 := fun h => hzero (hm.trans (congrArg Exact.fin h))
          simp [truthy, eq, Exact.eq, zero, hq]
        | nan => rfl
        | pinf => rfl
        | ninf => rfl
      rw [htruthy]
      rfl
  have hepoch : toStr rt (getOr (frontierToDict f) "epoch_id" (.str f.epochId)) = f.epochId := by
    rw [toStr_getOr rt (s := f.epochId) rfl, ite_self]
  have hchampion : toStr rt (getOr (frontierToDict f) "champion_generation_id" (.str "")) =
      f.championGenerationId := by
    rw [toStr_getOr rt (s := f.championGenerationId) rfl, ite_eq_right_iff]
    exact Eq.symm
  have hformat : checkRecordFormat rt (frontierToDict f) = .ok () := rfl
  rw [frontierFromDict, hformat, ok_bind, iterate_getOr rfl, ok_bind, objects_map, mapM_ok hread,
    ok_bind, iterate_getOr rfl, ok_bind, objects_map,
    mapM_ok fun entry hentry => retiredFromDict_retiredToDict rt (hretired entry hentry), ok_bind,
    hmargin, ok_bind, toInt_getOr rt (n := f.updatedRound) rfl, ok_bind, hepoch, hchampion,
    @strings_getOr _ _ rt _ _ f.axes rfl]
  rfl

end Zicato.Pareto
