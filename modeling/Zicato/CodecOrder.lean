import Zicato.CodecRetraction

/-! # The order of keys

A file is written with sorted keys, and two instances are equal whatever the order in which
their mappings were filled.  Decoding and encoding respect that equality. -/
open List Option
namespace Zicato.Codec

variable {F : Type}

/-! ## Values up to the order of keys -/

mutual
/-- The value with the keys of its mappings in order. -/
def Val.sorted : Val F → Val F
  | .none => .none
  | .bool b => .bool b
  | .int n => .int n
  | .float x => .float x
  | .str s => .str s
  | .path s => .path s
  | .member cls value => .member cls value
  | .list items => .list (sortedVals items)
  | .tuple items => .tuple (sortedVals items)
  | .dict fields => .dict ((sortedEntries fields).insertionSort fun a b => a.1 ≤ b.1)
  | .object cls fields => .object cls (sortedAttrs fields)

/-- `Val.sorted` of every value. -/
def sortedVals : List (Val F) → List (Val F)
  | [] => []
  | v :: rest => v.sorted :: sortedVals rest

/-- `Val.sorted` of every value of a dict. -/
def sortedEntries : List (String × Val F) → List (String × Val F)
  | [] => []
  | (k, v) :: rest => (k, v.sorted) :: sortedEntries rest

/-- `Val.sorted` of every attribute. -/
def sortedAttrs : List (Attr × Val F) → List (Attr × Val F)
  | [] => []
  | (a, v) :: rest => (a, v.sorted) :: sortedAttrs rest
end

/-- `v == v'` of values with the same mappings, each filled in some order. -/
def Same (v v' : Val F) : Prop := v.sorted = v'.sorted

/-- The same fields, each with the same value. -/
def SameAttrs (vs vs' : List (Attr × Val F)) : Prop := sortedAttrs vs = sortedAttrs vs'

theorem Same.refl (v : Val F) : Same v v := rfl

section ByKey

variable {α β : Type}

/-- The items by key. -/
abbrev byKey (l : List (String × α)) : List (String × α) := l.insertionSort fun a b => a.1 ≤ b.1

theorem map_byKey (f : α → β) (l : List (String × α)) :
    ((byKey l).map fun e => (e.1, f e.2)) = byKey (l.map fun e => (e.1, f e.2)) :=
  map_insertionSort _ _ _ l fun _ _ _ _ => Iff.rfl

theorem byKey_byKey (l : List (String × α)) : byKey (byKey l) = byKey l := by
  have htotal : Std.Total fun a b : String × α => a.1 ≤ b.1 := ⟨fun a b => le_total a.1 b.1⟩
  have htrans : IsTrans (String × α) fun a b => a.1 ≤ b.1 := ⟨fun _ _ _ h h' => le_trans h h'⟩
  exact Pairwise.insertionSort_eq (pairwise_insertionSort _ l)

end ByKey

theorem sortedEntries_eq_map (l : List (String × Val F)) :
    sortedEntries l = l.map fun e => (e.1, e.2.sorted) := by
  induction l with
  | nil => rfl
  | cons e rest ih => rw [sortedEntries, ih, map_cons]

theorem sortedFields_eq_map (l : List (String × PyValue F)) :
    PyValue.sortedFields l = l.map fun e => (e.1, e.2.sorted) := by
  induction l with
  | nil => rfl
  | cons e rest ih => rw [PyValue.sortedFields, ih, map_cons]

theorem encodeDict_eq_map (l : List (String × Val F)) :
    encodeDict l = l.map fun e => (e.1, encode e.2) := by
  induction l with
  | nil => rfl
  | cons e rest ih => rw [encodeDict, ih, map_cons]

theorem sorted_dict (fields : List (String × Val F)) :
    (Val.dict fields).sorted = .dict (byKey (sortedEntries fields)) := by
  rw [Val.sorted]

/-! ### Items by key -/

section ByKeyItems

variable {α : Type}

theorem mem_byKey {l : List (String × α)} {e : String × α} : e ∈ byKey l ↔ e ∈ l :=
  mem_insertionSort _

/-- What an ordered insertion leaves under a key. -/
theorem get?_orderedInsert (key key' : String) (v : α) (d : Dict String α) :
    Dict.get? (d.orderedInsert (fun a b => a.1 ≤ b.1) (key, v)) key' =
      if key = key' then some v else Dict.get? d key' := by
  induction d with
  | nil => rfl
  | cons e rest ih =>
    rw [orderedInsert_cons]
    by_cases hle : key ≤ e.1
    · rw [if_pos hle]
      rfl
    · rw [if_neg hle, Dict.get?, Dict.get?, ih]
      have hne : e.1 ≠ key := fun heq => hle (le_of_eq heq.symm)
      by_cases hkey : key = key'
      · rw [if_pos hkey, if_pos hkey, if_neg (hkey ▸ hne)]
      · rw [if_neg hkey, if_neg hkey]

/-- The order of the items changes no lookup. -/
theorem get?_byKey (d : Dict String α) (key : String) :
    Dict.get? (byKey d) key = Dict.get? d key := by
  induction d with
  | nil => rfl
  | cons e rest ih =>
    rw [byKey, insertionSort_cons, get?_orderedInsert, Dict.get?]
    split
    · rfl
    · exact ih

theorem set_orderedInsert_self (k : String) (v v' : α) (l : Dict String α) :
    Dict.set (l.orderedInsert (fun a b => a.1 ≤ b.1) (k, v)) k v' =
      l.orderedInsert (fun a b => a.1 ≤ b.1) (k, v') := by
  induction l with
  | nil => simp [Dict.set]
  | cons e rest ih =>
    rw [orderedInsert_cons, orderedInsert_cons]
    by_cases hle : k ≤ e.1
    · rw [if_pos hle, if_pos hle, Dict.set, if_pos rfl]
    · have hne : e.1 ≠ k := fun heq => hle (le_of_eq heq.symm)
      rw [if_neg hle, if_neg hle, Dict.set, if_neg hne, ih]

variable {k : String}

theorem set_orderedInsert {k' : String} (hne : k' ≠ k) (v v' : α) {l : Dict String α}
    (hk : k ∈ Dict.keys l) :
    Dict.set (l.orderedInsert (fun a b => a.1 ≤ b.1) (k', v')) k v =
      (Dict.set l k v).orderedInsert (fun a b => a.1 ≤ b.1) (k', v') := by
  induction l with
  | nil => cases hk
  | cons e rest ih =>
    obtain ⟨k₀, v₀⟩ := e
    rw [orderedInsert_cons]
    by_cases hle : k' ≤ k₀
    · rw [if_pos hle, Dict.set, if_neg hne]
      by_cases h : k₀ = k
      · rw [Dict.set, if_pos h, orderedInsert_cons, if_pos hle]
      · rw [Dict.set, if_neg h, orderedInsert_cons, if_pos hle]
    · rw [if_neg hle]
      by_cases h : k₀ = k
      · rw [Dict.set, if_pos h, Dict.set, if_pos h, orderedInsert_cons, if_neg hle]
      · have hrest : k ∈ Dict.keys rest := (mem_cons.mp hk).resolve_left fun heq => h heq.symm
        rw [Dict.set, if_neg h, ih hrest, Dict.set, if_neg h, orderedInsert_cons, if_neg hle]

/-- The order of two insertions does not matter. -/
theorem orderedInsert_comm {e e' : String × α} (hne : e.1 ≠ e'.1) (l : List (String × α)) :
    (l.orderedInsert (fun a b => a.1 ≤ b.1) e').orderedInsert (fun a b => a.1 ≤ b.1) e =
      (l.orderedInsert (fun a b => a.1 ≤ b.1) e).orderedInsert (fun a b => a.1 ≤ b.1) e' := by
  induction l with
  | nil =>
    rcases lt_or_gt_of_ne hne with h | h
    · simp [orderedInsert, h.le, not_le.mpr h]
    · simp [orderedInsert, h.le, not_le.mpr h]
  | cons a rest ih =>
    by_cases h : e.1 ≤ a.1 <;> by_cases h' : e'.1 ≤ a.1
    · rcases lt_or_gt_of_ne hne with hlt | hlt
      · simp [orderedInsert, h, h', hlt.le, not_le.mpr hlt]
      · simp [orderedInsert, h, h', hlt.le, not_le.mpr hlt]
    · have hlt : e.1 < e'.1 := lt_of_le_of_lt h (not_le.mp h')
      simp [orderedInsert, h, h', not_le.mpr hlt]
    · have hlt : e'.1 < e.1 := lt_of_le_of_lt h' (not_le.mp h)
      simp [orderedInsert, h, h', not_le.mpr hlt]
    · simp [orderedInsert, h, h', ih]

/-- A value that is written in place is written in place among the sorted items. -/
theorem byKey_set_of_mem {d : Dict String α} (h : k ∈ Dict.keys d) (v : α) :
    byKey (Dict.set d k v) = Dict.set (byKey d) k v := by
  induction d with
  | nil => cases h
  | cons e rest ih =>
    obtain ⟨k₀, v₀⟩ := e
    by_cases hk : k₀ = k
    · subst hk
      rw [Dict.set, if_pos rfl, byKey, insertionSort_cons, byKey, insertionSort_cons,
        set_orderedInsert_self]
    · have hrest : k ∈ Dict.keys rest := (mem_cons.mp h).resolve_left fun heq => hk heq.symm
      have hsorted : k ∈ Dict.keys (byKey rest) := by
        rw [Dict.mem_keys_iff, get?_byKey, ← Dict.mem_keys_iff]
        exact hrest
      rw [Dict.set, if_neg hk, byKey, insertionSort_cons, byKey, insertionSort_cons,
        set_orderedInsert hk _ _ hsorted]
      exact congrArg _ (ih hrest)

/-- A new key is put in its place among the sorted items. -/
theorem byKey_set_of_notMem {d : Dict String α} (h : k ∉ Dict.keys d) (v : α) :
    byKey (Dict.set d k v) = (byKey d).orderedInsert (fun a b => a.1 ≤ b.1) (k, v) := by
  induction d with
  | nil => rfl
  | cons e rest ih =>
    obtain ⟨k₀, v₀⟩ := e
    obtain ⟨hk, hrest⟩ := not_or.mp (mt mem_cons.mpr h)
    have hne : k₀ ≠ k := fun heq => hk heq.symm
    rw [Dict.set, if_neg hne, byKey, insertionSort_cons, byKey, insertionSort_cons,
      orderedInsert_comm (Ne.symm hne)]
    exact congrArg _ (ih hrest)

end ByKeyItems

/-! ### Mappings up to the order of keys -/

/-- The same items, each with the same value. -/
def SameEntries (d d' : Dict String (Val F)) : Prop :=
  byKey (sortedEntries d) = byKey (sortedEntries d')

variable {d d' : Dict String (Val F)}

theorem same_dict_iff : Same (.dict d) (.dict d') ↔ SameEntries d d' := by
  rw [Same, sorted_dict, sorted_dict, SameEntries, Val.dict.injEq]

theorem get?_sortedEntries (d : Dict String (Val F)) (k : String) :
    Dict.get? (sortedEntries d) k = (Dict.get? d k).map Val.sorted := by
  induction d with
  | nil => rfl
  | cons e rest ih =>
    obtain ⟨k₀, v₀⟩ := e
    rw [sortedEntries, Dict.get?, Dict.get?, ih]
    split <;> rfl

theorem SameEntries.get? (h : SameEntries d d') (k : String) :
    (Dict.get? d k).map Val.sorted = (Dict.get? d' k).map Val.sorted := by
  rw [← get?_sortedEntries, ← get?_sortedEntries, ← get?_byKey, h, get?_byKey]

theorem SameEntries.get?_some (h : SameEntries d d') {k : String} {v : Val F}
    (hv : Dict.get? d k = some v) : ∃ v', Dict.get? d' k = some v' ∧ Same v v' := by
  have hmap := h.get? k
  rw [hv, map_some] at hmap
  obtain ⟨v', hv', hsame⟩ := map_eq_some_iff.mp hmap.symm
  exact ⟨v', hv', hsame.symm⟩

theorem SameEntries.get?_none (h : SameEntries d d') {k : String} (hv : Dict.get? d k = none) :
    Dict.get? d' k = none := by
  have hmap := h.get? k
  rw [hv, map_none] at hmap
  exact map_eq_none_iff.mp hmap.symm

theorem SameEntries.mem_keys_iff (h : SameEntries d d') (k : String) :
    k ∈ Dict.keys d ↔ k ∈ Dict.keys d' := by
  have hmap := congrArg Option.isSome (h.get? k)
  rw [isSome_map, isSome_map] at hmap
  rw [Dict.mem_keys_iff, Dict.mem_keys_iff, hmap]

theorem SameEntries.mem (h : SameEntries d d') {e' : String × Val F} (he : e' ∈ d') :
    ∃ v, (e'.1, v) ∈ d ∧ Same v e'.2 := by
  have hmem : (e'.1, e'.2.sorted) ∈ byKey (sortedEntries d') := by
    rw [mem_byKey, sortedEntries_eq_map]
    exact mem_map.mpr ⟨e', he, rfl⟩
  rw [← h, mem_byKey, sortedEntries_eq_map] at hmem
  obtain ⟨e, he, heq⟩ := mem_map.mp hmem
  obtain ⟨hk, hv⟩ := Prod.mk.inj heq
  exact ⟨e.2, hk ▸ he, hv⟩

theorem sortedEntries_set (d : Dict String (Val F)) (k : String) (v : Val F) :
    sortedEntries (Dict.set d k v) = Dict.set (sortedEntries d) k v.sorted := by
  induction d with
  | nil => rfl
  | cons e rest ih =>
    obtain ⟨k₀, v₀⟩ := e
    rw [Dict.set, sortedEntries, Dict.set]
    split
    · rw [sortedEntries]
    · rw [sortedEntries, ih]

theorem SameEntries.set (h : SameEntries d d') (k : String) {v v' : Val F} (hv : Same v v') :
    SameEntries (Dict.set d k v) (Dict.set d' k v') := by
  have hkeys (d : Dict String (Val F)) : k ∈ Dict.keys (sortedEntries d) ↔ k ∈ Dict.keys d := by
    rw [Dict.mem_keys_iff, get?_sortedEntries, isSome_map, ← Dict.mem_keys_iff]
  rw [SameEntries, sortedEntries_set, sortedEntries_set, hv]
  by_cases hk : k ∈ Dict.keys d
  · have hk' := (h.mem_keys_iff k).mp hk
    rw [byKey_set_of_mem ((hkeys d).mpr hk), byKey_set_of_mem ((hkeys d').mpr hk'), h]
  · have hk' := mt (h.mem_keys_iff k).mpr hk
    rw [byKey_set_of_notMem (mt (hkeys d).mp hk), byKey_set_of_notMem (mt (hkeys d').mp hk'), h]

/-! ## Encoding -/

mutual
theorem sorted_encode_sorted : ∀ v : Val F, (encode v.sorted).sorted = (encode v).sorted
  | .none | .bool _ | .int _ | .float _ | .str _ | .path _ | .member _ _ => by rw [Val.sorted]
  | .list items => by
    rw [Val.sorted, encode, encode, PyValue.sorted, PyValue.sorted, sortedItems_encode items]
  | .tuple items => by
    rw [Val.sorted, encode, encode, PyValue.sorted, PyValue.sorted, sortedItems_encode items]
  | .dict fields => by
    have hmap : PyValue.sortedFields (encodeDict (byKey (sortedEntries fields))) =
        byKey (PyValue.sortedFields (encodeDict (sortedEntries fields))) := by
      rw [encodeDict_eq_map, encodeDict_eq_map, sortedFields_eq_map, sortedFields_eq_map,
        map_byKey, map_byKey]
    rw [sorted_dict, encode, encode, PyValue.sorted, PyValue.sorted, hmap]
    change PyValue.dict (byKey (byKey _)) = .dict (byKey _)
    rw [byKey_byKey, sortedFields_encodeDict fields]
  | .object cls fields => by
    rw [Val.sorted, encode, encode, PyValue.sorted, PyValue.sorted, sortedFields_encode fields]

theorem sortedItems_encode : ∀ items : List (Val F),
    PyValue.sortedItems (encodeItems (sortedVals items)) = PyValue.sortedItems (encodeItems items)
  | [] => by rw [sortedVals]
  | v :: rest => by
    rw [sortedVals, encodeItems, encodeItems, PyValue.sortedItems, PyValue.sortedItems,
      sorted_encode_sorted v, sortedItems_encode rest]

theorem sortedFields_encodeDict : ∀ fields : List (String × Val F),
    PyValue.sortedFields (encodeDict (sortedEntries fields)) =
      PyValue.sortedFields (encodeDict fields)
  | [] => by rw [sortedEntries]
  | (k, v) :: rest => by
    rw [sortedEntries, encodeDict, encodeDict, PyValue.sortedFields, PyValue.sortedFields,
      sorted_encode_sorted v, sortedFields_encodeDict rest]

theorem sortedFields_encode : ∀ fields : List (Attr × Val F),
    PyValue.sortedFields (encodeFields (sortedAttrs fields)) =
      PyValue.sortedFields (encodeFields fields)
  | [] => by rw [sortedAttrs]
  | (a, v) :: rest => by
    rw [sortedAttrs, encodeFields, encodeFields, PyValue.sortedFields, PyValue.sortedFields,
      sorted_encode_sorted v, sortedFields_encode rest]
end

/-- Equal values are written as the same text with sorted keys. -/
theorem Same.encode {v v' : Val F} (h : Same v v') : (encode v).sorted = (encode v').sorted := by
  rw [← sorted_encode_sorted v, ← sorted_encode_sorted v', h]

/-! ## Decoding -/

section Decode

variable [PyArith F] {it : Interp F}

/-- Whatever the order of the keys of the value, it is decoded as the same value. -/
def Respects (g : PyValue F → String → Except Raised (Val F)) (raw : PyValue F) : Prop :=
  ∀ path v, g raw path = .ok v → ∃ v', g raw.sorted path = .ok v' ∧ Same v v'

variable {g : PyValue F → String → Except Raised (Val F)} {path : String}

omit [PyArith F] in
/-- Items with their keys sorted decode to the same values. -/
theorem decodeItems_sorted {items : List (PyValue F)} (hg : ∀ raw ∈ items, Respects g raw)
    {index : Nat} {values : List (Val F)} (h : decodeItems g path index items = .ok values) :
    ∃ values', decodeItems g path index (PyValue.sortedItems items) = .ok values' ∧
      sortedVals values = sortedVals values' := by
  induction items generalizing index values with
  | nil =>
    cases h
    exact ⟨[], rfl, rfl⟩
  | cons raw rest ih =>
    obtain ⟨hraw, hrest⟩ := forall_mem_cons.mp hg
    obtain ⟨v, hv, h⟩ := bind_eq_ok h
    obtain ⟨values', hvalues, h⟩ := bind_eq_ok h
    cases h
    obtain ⟨v', hv', hsame⟩ := hraw _ v hv
    obtain ⟨values'', hvalues', hsames⟩ := ih hrest hvalues
    refine ⟨v' :: values'', ?_, ?_⟩
    · rw [PyValue.sortedItems, decodeItems, hv', ok_bind, hvalues', ok_bind]
    · rw [sortedVals, sortedVals, hsame, hsames]

variable {values : List (String × Val F)} {entries : List (String × PyValue F)} {raw : PyValue F}

section
omit [PyArith F]
/-- Fields with their keys sorted decode to the same values. -/
theorem decodeValues_sortedFields (hg : ∀ e ∈ entries, Respects g e.2)
    (h : decodeValues g path entries = .ok values) :
    ∃ values', decodeValues g path (PyValue.sortedFields entries) = .ok values' ∧
      sortedEntries values = sortedEntries values' := by
  induction entries generalizing values with
  | nil =>
    cases h
    exact ⟨[], rfl, rfl⟩
  | cons e rest ih =>
    obtain ⟨key, raw⟩ := e
    obtain ⟨hraw, hrest⟩ := forall_mem_cons.mp hg
    obtain ⟨v, hv, h⟩ := bind_eq_ok h
    obtain ⟨values', hvalues, h⟩ := bind_eq_ok h
    cases h
    obtain ⟨v', hv', hsame⟩ := hraw _ v hv
    obtain ⟨values'', hvalues', hsames⟩ := ih hrest hvalues
    refine ⟨(key, v') :: values'', ?_, ?_⟩
    · rw [PyValue.sortedFields, decodeValues, hv', ok_bind, hvalues', ok_bind]
    · rw [sortedEntries, sortedEntries, hsame, hsames]

/-- Decoding commutes with an ordered insertion. -/
theorem decodeValues_orderedInsert {key : String} {v : Val F}
    (hv : g raw (path ++ "." ++ key) = .ok v) (h : decodeValues g path entries = .ok values) :
    decodeValues g path (entries.orderedInsert (fun a b => a.1 ≤ b.1) (key, raw)) =
      .ok (values.orderedInsert (fun a b => a.1 ≤ b.1) (key, v)) := by
  induction entries generalizing values with
  | nil =>
    cases h
    rw [orderedInsert_nil, decodeValues, hv]
    rfl
  | cons e rest ih =>
    obtain ⟨key', raw'⟩ := e
    obtain ⟨v', hv', h'⟩ := bind_eq_ok h
    obtain ⟨values', hvalues, h'⟩ := bind_eq_ok h'
    cases h'
    rw [orderedInsert_cons, orderedInsert_cons]
    by_cases hle : key ≤ key'
    · rw [if_pos hle, if_pos hle, decodeValues, hv, ok_bind, h, ok_bind]
    · rw [if_neg hle, if_neg hle, decodeValues, hv', ok_bind, ih hvalues, ok_bind]

theorem decodeValues_byKey (h : decodeValues g path entries = .ok values) :
    decodeValues g path (byKey entries) = .ok (byKey values) := by
  induction entries generalizing values with
  | nil =>
    cases h
    rfl
  | cons e rest ih =>
    obtain ⟨v, hv, h⟩ := bind_eq_ok h
    obtain ⟨values', hvalues, h⟩ := bind_eq_ok h
    cases h
    exact decodeValues_orderedInsert hv (ih hvalues)

theorem decodeValues_sorted (hg : ∀ e ∈ entries, Respects g e.2)
    (h : decodeValues g path entries = .ok values) :
    ∃ values', decodeValues g path (byKey (PyValue.sortedFields entries)) = .ok values' ∧
      Same (.dict values) (.dict values') := by
  obtain ⟨values', hvalues, hsame⟩ := decodeValues_sortedFields hg h
  refine ⟨byKey values', decodeValues_byKey hvalues, ?_⟩
  rw [Same, sorted_dict, sorted_dict, hsame, sortedEntries_eq_map (byKey _),
    map_byKey, byKey_byKey, sortedEntries_eq_map]

end

theorem decodeAnyItems_eq {items : List (PyValue F)} {index : Nat} :
    decodeAnyItems items path index = decodeItems decodeAny path index items := by
  induction items generalizing index with
  | nil => rw [decodeAnyItems, decodeItems]
  | cons raw rest ih => simp only [decodeAnyItems, decodeItems, ih]

theorem decodeAnyFields_eq {fields : List (String × PyValue F)} :
    decodeAnyFields fields path = decodeValues decodeAny path fields := by
  induction fields with
  | nil => rw [decodeAnyFields, decodeValues]
  | cons e rest ih => simp only [decodeAnyFields, decodeValues, ih]

mutual
theorem decodeAny_respects : ∀ raw : PyValue F, Respects decodeAny raw
  | .none | .bool _ | .int _ | .float _ | .str _ => by
    intro path v h
    exact ⟨v, by rwa [PyValue.sorted], .refl v⟩
  | .list items => by
    intro path v h
    rw [decodeAny, decodeAnyItems_eq] at h
    obtain ⟨values, hvalues, h⟩ := bind_eq_ok h
    cases h
    obtain ⟨values', hvalues', hsame⟩ :=
      decodeItems_sorted (decodeAny_respects_items items) hvalues
    refine ⟨.list values', ?_, ?_⟩
    · rw [PyValue.sorted, decodeAny, decodeAnyItems_eq, hvalues', ok_bind]
    · rw [Same, Val.sorted, Val.sorted, hsame]
  | .dict fields => by
    intro path v h
    rw [decodeAny, decodeAnyFields_eq] at h
    obtain ⟨values, hvalues, h⟩ := bind_eq_ok h
    cases h
    obtain ⟨values', hvalues', hsame⟩ :=
      decodeValues_sorted (decodeAny_respects_fields fields) hvalues
    refine ⟨.dict values', ?_, hsame⟩
    rw [PyValue.sorted, decodeAny, decodeAnyFields_eq, hvalues', ok_bind]

theorem decodeAny_respects_items : ∀ items : List (PyValue F), ∀ raw ∈ items,
    Respects decodeAny raw
  | [] => fun _ h => nomatch h
  | raw :: rest =>
    forall_mem_cons.mpr ⟨decodeAny_respects raw, decodeAny_respects_items rest⟩

theorem decodeAny_respects_fields : ∀ fields : List (String × PyValue F), ∀ e ∈ fields,
    Respects decodeAny e.2
  | [] => fun _ h => nomatch h
  | (_, raw) :: rest =>
    forall_mem_cons.mpr ⟨decodeAny_respects raw, decodeAny_respects_fields rest⟩
end

/-! ### Annotations -/

/-- The constraint of a field does not depend on the order of keys. -/
def CheckOrderly (info : FieldInfo F) (_ : Ann F) : Prop :=
  ∀ v v', Same v v' → info.check v = none → info.check v' = none

/-- Nor does `__post_init__`. -/
def PostOrderly (_ : List (FieldInfo F × Ann F))
    (post : List (Attr × Val F) → Except PostError (List (Attr × Val F))) : Prop :=
  ∀ vs vs' ws, SameAttrs vs vs' → post vs = .ok ws → ∃ ws', post vs' = .ok ws' ∧ SameAttrs ws ws'

/-- No check or hook in an annotation looks at the order of keys. -/
abbrev Orderly (a : Ann F) : Prop := Everywhere CheckOrderly PostOrderly a

theorem Reads.sorted {s : Scalar} {v : Val F} (h : Reads it s raw v) : raw.sorted = raw := by
  cases h <;> rw [PyValue.sorted]

section
omit [PyArith F]
theorem sorted_toRaw (l : Lit) : (l.toRaw : PyValue F).sorted = l.toRaw := by
  cases l <;> rw [Lit.toRaw, PyValue.sorted]

theorem sameType_sorted (raw v : PyValue F) : sameType raw.sorted v = sameType raw v := by
  cases raw <;> rw [PyValue.sorted] <;> cases v <;> rfl

theorem sorted_eq_none_iff : raw.sorted = .none ↔ raw = .none := by
  cases raw <;> rw [PyValue.sorted] <;> simp

theorem supplied_sorted (caseless : Bool) (raw : PyValue F) :
    supplied it caseless raw.sorted = (supplied it caseless raw).sorted := by
  cases raw <;> simp only [PyValue.sorted, supplied]
  cases caseless <;> simp [PyValue.sorted]

theorem knownKeys_sorted {keys : List String} {entries : Dict String (PyValue F)}
    (h : knownKeys keys path entries = .ok ()) :
    knownKeys keys path (PyValue.sortKeys entries) = .ok () := by
  refine knownKeys_ok_iff.mpr fun e he => ?_
  obtain ⟨f, hf, rfl⟩ := PyValue.mem_sortKeys.mp he
  exact knownKeys_ok_iff.mp h f hf

end

mutual
/-- A value with sorted keys is decoded as the same value. -/
theorem decode_respects : ∀ {a : Ann F}, Orderly a → ∀ raw, Respects (decode it a) raw
  | .scalar s, _, raw => by
    intro path v h
    rw [decode] at h ⊢
    exact ⟨v, by rwa [(decodeScalar_ok_iff.mp h).sorted], .refl v⟩
  | .union args, _, raw => by
    intro path v h
    rw [decode] at h ⊢
    refine ⟨v, ?_, .refl v⟩
    by_cases hraw : raw = .none
    · subst hraw
      rwa [PyValue.sorted]
    · rw [decodeUnion_eq hraw] at h
      obtain ⟨before, s, after, hl, hbefore, hs⟩ := firstOf_ok_iff.mp h
      rw [hs.sorted, decodeUnion_eq hraw]
      exact h
  | .optional a, ha, raw => by
    intro path v h
    rw [Orderly, Everywhere] at ha
    by_cases hraw : raw = .none
    · subst hraw
      exact ⟨v, by rwa [PyValue.sorted], .refl v⟩
    · rw [decode_optional_eq hraw] at h
      rw [decode_optional_eq (mt sorted_eq_none_iff.mp hraw)]
      exact decode_respects ha raw path v h
  | .literal values, _, raw => by
    intro path v h
    rw [decode] at h ⊢
    obtain ⟨l, hl, rfl, rfl⟩ := decodeLiteral_ok_iff.mp h
    exact ⟨l.toVal, by rwa [sorted_toRaw], .refl _⟩
  | .enum e, _, raw => by
    intro path v h
    rw [decode] at h ⊢
    refine ⟨v, ?_, .refl v⟩
    rw [decodeEnum] at h ⊢
    rw [e.lookup_sorted, funext (sameType_sorted raw)]
    exact h
  | .dataclass cls fields post, ha, raw => by
    intro path v h
    rw [Orderly, Everywhere] at ha
    obtain ⟨-, hpost, hfields⟩ := ha
    obtain ⟨entries, values, ws, rfl, hknown, hvalues, hws, rfl⟩ := decode_dataclass_ok h
    obtain ⟨values', hvalues', hsame⟩ := decodeFields_respects hfields hvalues
    obtain ⟨ws', hws', hsames⟩ := hpost _ _ _ hsame hws
    refine ⟨.object cls ws', ?_, ?_⟩
    · rw [PyValue.sorted_dict, decode, knownKeys_sorted hknown, ok_bind, hvalues', ok_bind,
        construct, hws']
    · rw [Same, Val.sorted, Val.sorted, hsames]
  | .seq isTuple a, ha, raw => by
    intro path v h
    rw [Orderly, Everywhere] at ha
    obtain ⟨items, values, rfl, hvalues, rfl⟩ := decode_seq_ok h
    obtain ⟨values', hvalues', hsame⟩ :=
      decodeItems_sorted (fun raw _ => decode_respects ha raw) hvalues
    refine ⟨if isTuple then .tuple values' else .list values', ?_, ?_⟩
    · rw [PyValue.sorted, decode, hvalues', ok_bind]
    · cases isTuple <;> simp only [Same, Val.sorted, Bool.false_eq_true, if_true, if_false, hsame]
  | .map a, ha, raw => by
    intro path v h
    rw [Orderly, Everywhere] at ha
    obtain ⟨entries, values, rfl, hvalues, rfl⟩ := decode_map_ok h
    obtain ⟨values', hvalues', hsame⟩ :=
      decodeValues_sorted (fun e _ => decode_respects ha e.2) hvalues
    refine ⟨.dict values', ?_, hsame⟩
    rw [PyValue.sorted, decode, hvalues', ok_bind]
  | .any, _, raw => by
    intro path v h
    rw [decode] at h ⊢
    exact decodeAny_respects raw path v h

theorem decodeFields_respects : ∀ {fields : List (FieldInfo F × Ann F)}
    {entries : Dict String (PyValue F)} {path : String} {values : List (Attr × Val F)},
    EveryField CheckOrderly PostOrderly fields → decodeFields it fields entries path = .ok values →
      ∃ values', decodeFields it fields (PyValue.sortKeys entries) path = .ok values' ∧
        SameAttrs values values'
  | [], _, _, _, _, h => by
    rw [decodeFields] at h
    cases h
    exact ⟨[], by rw [decodeFields], rfl⟩
  | (info, a) :: rest, entries, path, values, hfields, h => by
    rw [EveryField] at hfields
    obtain ⟨hcheck, ha, hrest⟩ := hfields
    rw [decodeFields] at h
    obtain ⟨v, hv, h⟩ := bind_eq_ok h
    obtain ⟨values', hvalues, h⟩ := bind_eq_ok h
    cases h
    obtain ⟨values'', hvalues', hsames⟩ := decodeFields_respects hrest hvalues
    have hfield : ∃ v', fieldValue it info (decode it a) (PyValue.sortKeys entries) path = .ok v' ∧
        Same v v' := by
      rw [fieldValue] at hv ⊢
      rw [PyValue.get?_sortKeys]
      split at hv
      · rename_i raw hraw
        rw [hraw]
        obtain ⟨hdecode, hnone⟩ := checkedValue_ok.mp hv
        obtain ⟨v', hv', hsame⟩ := decode_respects ha _ _ _ hdecode
        rw [← supplied_sorted] at hv'
        exact ⟨v', checkedValue_ok.mpr ⟨hv', hcheck _ _ hsame hnone⟩, hsame⟩
      · rename_i hraw
        rw [hraw]
        exact ⟨v, hv, .refl v⟩
    obtain ⟨v', hv', hsame⟩ := hfield
    refine ⟨(info.attr, v') :: values'', ?_, ?_⟩
    · rw [decodeFields, hv', ok_bind, hvalues', ok_bind]
    · rw [SameAttrs, sortedAttrs, sortedAttrs, hsame, hsames]
end

end Decode

end Zicato.Codec
