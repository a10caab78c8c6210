import Zicato.Codec

/-! # Reading back what is written

`dataclass_to_jsonable` writes an instance as what `_decode` reads as the same instance,
if the declared defaults are values that the declarations themselves accept.  The
induction is on the annotation. -/
open List Except
namespace Zicato.Codec

variable {F : Type} [PyArith F]

/-- The laws of the interpreter that a second reading relies on. -/
structure Interp.Lawful (it : Interp F) : Prop where
  upper_upper : ∀ s, it.upper (it.upper s) = it.upper s
  expanduser_expanded : ∀ {s p}, it.expanduser s = some p → it.expanduser p = some p

variable {it : Interp F}

/-! ## Scalars -/

/-- What a scalar type makes of a value. -/
inductive Reads (it : Interp F) : Scalar → PyValue F → Val F → Prop
  | bool (b : Bool) : Reads it .bool (.bool b) (.bool b)
  | int (n : Int) : Reads it .int (.int n) (.int n)
  | str (s : String) : Reads it .str (.str s) (.str s)
  | none : Reads it .none .none .none
  | path {s p : String} (h : it.expanduser s = some p) : Reads it .path (.str s) (.path p)
  | whole {n : Int} {x : F} (h : PyFloat.ofInt n = some x) (hx : PyFloat.isfinite x = true) :
      Reads it .float (.int n) (.float x)
  | float {x : F} (hx : PyFloat.isfinite x = true) : Reads it .float (.float x) (.float x)

/-- A scalar type refuses a value with a `ConfigurationError`. -/
def Refuses (it : Interp F) (s : Scalar) (raw : PyValue F) : Prop :=
  ∀ path, ∃ e, decodeScalar it s raw path = .error (.configuration e)

variable {s : Scalar} {raw : PyValue F} {path : String} {v : Val F} {args : List Scalar}
  {values : List (Attr × Val F)} {fields : List (FieldInfo F × Ann F)}
  {post : List (Attr × Val F) → Except PostError (List (Attr × Val F))} {a : Ann F}

/-- What a scalar annotation accepts. -/
theorem decodeScalar_ok_iff : decodeScalar it s raw path = .ok v ↔ Reads it s raw v := by
  constructor
  · intro h
    cases s <;> cases raw <;> simp only [decodeScalar, refuse, reduceCtorEq, ok.injEq] at h
    case bool.bool b => exact h ▸ .bool b
    case int.int n => exact h ▸ .int n
    case str.str s => exact h ▸ .str s
    case none.none => exact h ▸ .none
    case float.int n =>
      split at h
      · split at h
        · exact ok.inj h ▸ .whole ‹_› ‹_›
        · cases h
      · cases h
    case float.float x =>
      split at h
      · exact ok.inj h ▸ .float ‹_›
      · cases h
    case path.str s =>
      split at h
      · exact ok.inj h ▸ .path ‹_›
      · cases h
  · rintro (_ | _ | _ | _ | h | ⟨h, hx⟩ | hx) <;> simp [decodeScalar, *]

/-- A second reading finds the same value. -/
theorem Reads.again (hit : it.Lawful) (h : Reads it s raw v) : Reads it s (encode v) v := by
  cases h with
  | bool b => exact .bool b
  | int n => exact .int n
  | str s => exact .str s
  | none => exact .none
  | path h => exact .path (hit.expanduser_expanded h)
  | whole _ hx => exact .float hx
  | float hx => exact .float hx

/-- What refuses the first value refuses the second. -/
theorem Refuses.again {s' : Scalar} (h : Reads it s raw v) (hs : Refuses it s' raw) :
    Refuses it s' (encode v) := by
  have hnot {w : Val F} : ¬ Reads it s' raw w := by
    intro hw
    obtain ⟨e, he⟩ := hs ""
    rw [decodeScalar_ok_iff.mpr hw] at he
    cases he
  intro path
  obtain ⟨e, he⟩ := hs path
  cases h with
  | bool b => exact ⟨e, he⟩
  | int n => exact ⟨e, he⟩
  | str s => exact ⟨e, he⟩
  | none => exact ⟨e, he⟩
  | float hx => exact ⟨e, he⟩
  | path h =>
    cases s' with
    | path => simp [decodeScalar, h] at he
    | str => exact absurd (.str _) hnot
    | _ => exact ⟨_, rfl⟩
  | whole h hx =>
    cases s' with
    | float => exact absurd (.whole h hx) hnot
    | _ => exact ⟨_, rfl⟩

theorem Reads.none_of_encode (h : Reads it s raw v) (hv : encode v = .none) : raw = .none := by
  cases h <;> simp_all [encode]

theorem refuses_of_error {e : ConfigurationError}
    (h : decodeScalar it s raw path = .error (.configuration e)) : Refuses it s raw := by
  intro path'
  cases s <;> cases raw <;> simp only [decodeScalar, refuse, reduceCtorEq] at h ⊢ <;>
    try exact ⟨_, rfl⟩
  case float.int n =>
    split at h
    · split at h
      · cases h
      · rw [if_neg ‹_›]
        exact ⟨_, rfl⟩
    · exact ⟨_, rfl⟩
  case float.float x =>
    split at h
    · cases h
    · rw [if_neg ‹_›]
      exact ⟨_, rfl⟩
  case path.str s => split at h <;> cases h

/-! ## Unions -/

/-- A candidate reads a value that those before it refuse. -/
theorem firstOf_ok_iff {candidates l : List Scalar} :
    firstOf it candidates raw path l = .ok v ↔
      ∃ before s after, l = before ++ s :: after ∧ (∀ s' ∈ before, Refuses it s' raw) ∧
        Reads it s raw v := by
  induction l with
  | nil => simp [firstOf, refuse]
  | cons s l ih =>
    rw [firstOf]
    constructor
    · intro h
      split at h
      · rename_i w hw
        cases h
        exact ⟨[], s, l, rfl, by simp, decodeScalar_ok_iff.mp hw⟩
      · rename_i e he
        obtain ⟨before, s', after, rfl, hbefore, hs'⟩ := ih.mp h
        exact ⟨s :: before, s', after, rfl,
          forall_mem_cons.mpr ⟨refuses_of_error he, hbefore⟩, hs'⟩
      · cases h
    · rintro ⟨before, s', after, hl, hbefore, hs'⟩
      cases before with
      | nil =>
        obtain ⟨rfl, rfl⟩ := List.cons.inj hl
        rw [decodeScalar_ok_iff.mpr hs']
      | cons s'' before =>
        obtain ⟨rfl, rfl⟩ := List.cons.inj hl
        obtain ⟨hs, hbefore⟩ := forall_mem_cons.mp hbefore
        obtain ⟨e, he⟩ := hs path
        rw [he]
        exact ih.mpr ⟨before, s', after, rfl, hbefore, hs'⟩

theorem decodeUnion_eq (h : raw ≠ .none) : decodeUnion it args raw path =
      firstOf it (args.filter (· ≠ .none)) raw path (args.filter (· ≠ .none)) := by
  cases raw <;> first | rfl | exact absurd rfl h

theorem decodeUnion_null (h : decodeUnion it args .none path = .ok v) :
    args.contains .none = true ∧ v = .none := by
  rw [decodeUnion] at h
  split at h
  · exact ⟨‹_›, (ok.inj h).symm⟩
  · obtain ⟨before, s, after, hl, -, hs⟩ := firstOf_ok_iff.mp h
    have hmem : s ∈ args.filter (· ≠ .none) := hl ▸ mem_append_right _ (.head _)
    cases hs
    simp at hmem

/-- The value is encoded to what an annotation reads as this value again. -/
def Stable (it : Interp F) (a : Ann F) (v : Val F) : Prop :=
  ∀ path, decode it a (encode v) path = .ok v

theorem stable_scalar (hit : it.Lawful) (h : decode it (.scalar s) raw path = .ok v) :
    Stable it (.scalar s) v := by
  intro path'
  rw [decode] at h ⊢
  exact decodeScalar_ok_iff.mpr ((decodeScalar_ok_iff.mp h).again hit)

/-- What a union has decoded, it decodes again. -/
theorem stable_union (hit : it.Lawful) (h : decode it (.union args) raw path = .ok v) :
    Stable it (.union args) v := by
  intro path'
  rw [decode] at h ⊢
  by_cases hraw : raw = .none
  · subst hraw
    obtain ⟨hargs, rfl⟩ := decodeUnion_null h
    rw [encode, decodeUnion, if_pos hargs]
  · rw [decodeUnion_eq hraw] at h
    obtain ⟨before, s, after, hl, hbefore, hs⟩ := firstOf_ok_iff.mp h
    have hnone : encode v ≠ .none := fun hv => hraw (hs.none_of_encode hv)
    rw [decodeUnion_eq hnone]
    exact firstOf_ok_iff.mpr
      ⟨before, s, after, hl, fun s' hs' => (hbefore s' hs').again hs, hs.again hit⟩

/-! ## Literals, enumerations and free values -/

section
omit [PyArith F]
theorem litOf_eq_some_iff {l : Lit} : litOf raw = some l ↔ raw = l.toRaw := by
  cases raw <;> cases l <;> simp [litOf, Lit.toRaw]

theorem encode_toVal (l : Lit) : encode (l.toVal : Val F) = l.toRaw := by
  cases l <;> rfl

/-- A value of a closed set is written as it was read. -/
theorem decodeLiteral_ok_iff {values : List Lit} :
    decodeLiteral it values raw path = .ok v ↔ ∃ l ∈ values, raw = l.toRaw ∧ v = l.toVal := by
  rw [decodeLiteral]
  constructor
  · intro h
    split at h
    · rename_i l hl
      split at h
      · rename_i hmem
        exact ⟨l, contains_iff_mem.mp hmem, litOf_eq_some_iff.mp hl, (ok.inj h).symm⟩
      · cases h
    · cases h
  · rintro ⟨l, hl, rfl, rfl⟩
    rw [litOf_eq_some_iff.mpr rfl]
    exact if_pos (contains_iff_mem.mpr hl)

theorem sameType_refl (v : PyValue F) : sameType v v = true := by
  cases v <;> rfl

theorem decodeEnum_ok {e : EnumClass F} (h : decodeEnum it e raw path = .ok v) :
    ∃ value, e.lookup raw = some value ∧ v = .member e.name value := by
  rw [decodeEnum] at h
  split at h
  · split at h
    · exact ⟨_, ‹_›, (ok.inj h).symm⟩
    · cases h
  · cases h

end

theorem stable_enum {e : EnumClass F} (h : decode it (.enum e) raw path = .ok v) :
    Stable it (.enum e) v := by
  intro path'
  rw [decode] at h ⊢
  obtain ⟨value, hvalue, rfl⟩ := decodeEnum_ok h
  have hsame : e.values.any (sameType value) = true :=
    any_eq_true.mpr ⟨value, e.lookup_mem hvalue, sameType_refl value⟩
  rw [encode, decodeEnum, if_pos hsame, e.lookup_value hvalue]

mutual
/-- A free value is written as it was read. -/
theorem decodeAny_ok : ∀ {raw : PyValue F} {path : String} {v : Val F},
    decodeAny raw path = .ok v → encode v = raw ∧ ∀ path', decodeAny raw path' = .ok v
  | .none, _, v, h | .bool _, _, v, h | .int _, _, v, h | .str _, _, v, h => by
    rw [decodeAny] at h
    cases h
    exact ⟨rfl, fun _ => by rw [decodeAny]⟩
  | .float x, _, v, h => by
    rw [decodeAny] at h
    split at h
    · cases h
      refine ⟨rfl, fun _ => ?_⟩
      rw [decodeAny, if_pos ‹_›]
    · cases h
  | .list items, path, v, h => by
    rw [decodeAny] at h
    obtain ⟨values, hvalues, h⟩ := bind_eq_ok h
    cases h
    obtain ⟨hencode, hagain⟩ := decodeAnyItems_ok hvalues
    refine ⟨by rw [encode, hencode], fun path' => ?_⟩
    rw [decodeAny, hagain, ok_bind]
  | .dict fields, path, v, h => by
    rw [decodeAny] at h
    obtain ⟨values, hvalues, h⟩ := bind_eq_ok h
    cases h
    obtain ⟨hencode, hagain⟩ := decodeAnyFields_ok hvalues
    refine ⟨by rw [encode, hencode], fun path' => ?_⟩
    rw [decodeAny, hagain, ok_bind]

theorem decodeAnyItems_ok : ∀ {items : List (PyValue F)} {path : String} {index : Nat}
    {values : List (Val F)}, decodeAnyItems items path index = .ok values →
      encodeItems values = items ∧
        ∀ path' index', decodeAnyItems items path' index' = .ok values
  | [], _, _, values, h => by
    rw [decodeAnyItems] at h
    cases h
    exact ⟨rfl, fun _ _ => by rw [decodeAnyItems]⟩
  | raw :: rest, path, index, values, h => by
    rw [decodeAnyItems] at h
    obtain ⟨v, hv, h⟩ := bind_eq_ok h
    obtain ⟨values', hvalues, h⟩ := bind_eq_ok h
    cases h
    obtain ⟨hraw, hagain⟩ := decodeAny_ok hv
    obtain ⟨hrest, hagain'⟩ := decodeAnyItems_ok hvalues
    refine ⟨by rw [encodeItems, hraw, hrest], fun path' index' => ?_⟩
    rw [decodeAnyItems, hagain, ok_bind, hagain', ok_bind]

theorem decodeAnyFields_ok : ∀ {fields : List (String × PyValue F)} {path : String}
    {values : List (String × Val F)}, decodeAnyFields fields path = .ok values →
      encodeDict values = fields ∧ ∀ path', decodeAnyFields fields path' = .ok values
  | [], _, values, h => by
    rw [decodeAnyFields] at h
    cases h
    exact ⟨rfl, fun _ => by rw [decodeAnyFields]⟩
  | (key, raw) :: rest, path, values, h => by
    rw [decodeAnyFields] at h
    obtain ⟨v, hv, h⟩ := bind_eq_ok h
    obtain ⟨values', hvalues, h⟩ := bind_eq_ok h
    cases h
    obtain ⟨hraw, hagain⟩ := decodeAny_ok hv
    obtain ⟨hrest, hagain'⟩ := decodeAnyFields_ok hvalues
    refine ⟨by rw [encodeDict, hraw, hrest], fun path' => ?_⟩
    rw [decodeAnyFields, hagain, ok_bind, hagain', ok_bind]
end

/-! ## Instances, sequences and mappings -/

/-- A decoded object, taken apart. -/
theorem decode_dataclass_ok {cls : String}
    (h : decode it (.dataclass cls fields post) raw path = .ok v) :
    ∃ entries values ws, raw = .dict entries ∧ knownKeys (keysOf fields) path entries = .ok () ∧
      decodeFields it fields entries path = .ok values ∧ post values = .ok ws ∧
      v = .object cls ws := by
  cases raw <;> rw [decode] at h
  case dict entries =>
    obtain ⟨⟨⟩, hkeys, h⟩ := bind_eq_ok h
    obtain ⟨values, hvalues, h⟩ := bind_eq_ok h
    rw [construct] at h
    split at h
    · exact ⟨entries, values, _, rfl, hkeys, hvalues, ‹_›, (ok.inj h).symm⟩
    · cases h
    · cases h
  all_goals cases h

theorem decode_seq_ok {isTuple : Bool} (h : decode it (.seq isTuple a) raw path = .ok v) :
    ∃ items values, raw = .list items ∧ decodeItems (decode it a) path 0 items = .ok values ∧
      v = if isTuple then .tuple values else .list values := by
  cases raw <;> rw [decode] at h
  case list items =>
    obtain ⟨values, hvalues, h⟩ := bind_eq_ok h
    exact ⟨items, values, rfl, hvalues, (ok.inj h).symm⟩
  all_goals cases h

theorem decode_map_ok (h : decode it (.map a) raw path = .ok v) :
    ∃ entries values, raw = .dict entries ∧ decodeValues (decode it a) path entries = .ok values ∧
      v = .dict values := by
  cases raw <;> rw [decode] at h
  case dict entries =>
    obtain ⟨values, hvalues, h⟩ := bind_eq_ok h
    exact ⟨entries, values, rfl, hvalues, (ok.inj h).symm⟩
  all_goals cases h

theorem decode_optional_eq (h : raw ≠ .none) :
    decode it (.optional a) raw path = decode it a raw path := by
  rw [decode]
  exact h

theorem decode_optional_null : decode it (.optional a) .none path = .ok .none := by
  rw [decode]

omit [PyArith F] in
theorem encode_seq {isTuple : Bool} {values : List (Val F)} :
    encode (if isTuple then .tuple values else .list values) = .list (encodeItems values) := by
  cases isTuple <;> rw [encode.eq_def] <;> rfl

/-- A value that is written as null was read from null. -/
theorem none_of_encode : ∀ {a : Ann F} {raw : PyValue F} {path : String} {v : Val F},
    decode it a raw path = .ok v → encode v = .none → raw = .none
  | .scalar s, raw, path, v, h, hv => by
    rw [decode] at h
    exact (decodeScalar_ok_iff.mp h).none_of_encode hv
  | .union args, raw, path, v, h, hv => by
    by_contra hraw
    rw [decode, decodeUnion_eq hraw] at h
    obtain ⟨_, s, _, -, -, hs⟩ := firstOf_ok_iff.mp h
    exact hraw (hs.none_of_encode hv)
  | .optional a, raw, path, v, h, hv => by
    by_contra hraw
    rw [decode_optional_eq hraw] at h
    exact hraw (none_of_encode h hv)
  | .literal values, raw, path, v, h, hv => by
    rw [decode] at h
    obtain ⟨l, -, rfl, rfl⟩ := decodeLiteral_ok_iff.mp h
    rw [← encode_toVal, hv]
  | .enum e, raw, path, v, h, hv => by
    rw [decode] at h
    obtain ⟨value, hvalue, rfl⟩ := decodeEnum_ok h
    rw [encode] at hv
    exact e.lookup_none (hv ▸ hvalue)
  | .dataclass cls fields post, raw, path, v, h, hv => by
    obtain ⟨_, _, _, -, -, -, -, rfl⟩ := decode_dataclass_ok h
    rw [encode] at hv
    cases hv
  | .seq isTuple a, raw, path, v, h, hv => by
    obtain ⟨_, _, -, -, rfl⟩ := decode_seq_ok h
    rw [encode_seq] at hv
    cases hv
  | .map a, raw, path, v, h, hv => by
    obtain ⟨_, _, -, -, rfl⟩ := decode_map_ok h
    rw [encode] at hv
    cases hv
  | .any, raw, path, v, h, hv => by
    rw [decode] at h
    rw [← (decodeAny_ok h).1, hv]

/-- A path is nowhere at the top of the annotation. -/
def PathFree : Ann F → Prop
  | .scalar s => s ≠ .path
  | .union args => .path ∉ args
  | .optional a => PathFree a
  | _ => True

theorem Reads.str_of_encode {t : String} (h : Reads it s raw v) (hs : s ≠ .path)
    (hv : encode v = .str t) : raw = .str t := by
  cases h with
  | path => exact absurd rfl hs
  | _ => simp_all [encode]

/-- Without paths a value that is written as a string was read from that string. -/
theorem str_of_encode : ∀ {a : Ann F} {raw : PyValue F} {path : String} {v : Val F} {t : String},
    PathFree a → decode it a raw path = .ok v → encode v = .str t → raw = .str t
  | .scalar s, raw, path, v, t, ha, h, hv => by
    rw [decode] at h
    exact (decodeScalar_ok_iff.mp h).str_of_encode ha hv
  | .union args, raw, path, v, t, ha, h, hv => by
    rw [decode] at h
    by_cases hraw : raw = .none
    · subst hraw
      obtain ⟨-, rfl⟩ := decodeUnion_null h
      cases hv
    · rw [decodeUnion_eq hraw] at h
      obtain ⟨before, s, after, hl, -, hs⟩ := firstOf_ok_iff.mp h
      have hmem : s ∈ args.filter (· ≠ .none) := hl ▸ mem_append_right _ (.head _)
      refine hs.str_of_encode (fun hpath => ha ?_) hv
      exact hpath ▸ (mem_filter.mp hmem).1
  | .optional a, raw, path, v, t, ha, h, hv => by
    by_cases hraw : raw = .none
    · subst hraw
      rw [decode_optional_null] at h
      cases h
      cases hv
    · rw [decode_optional_eq hraw] at h
      exact str_of_encode (a := a) ha h hv
  | .literal values, raw, path, v, t, _, h, hv => by
    rw [decode] at h
    obtain ⟨l, -, rfl, rfl⟩ := decodeLiteral_ok_iff.mp h
    rw [← encode_toVal, hv]
  | .enum e, raw, path, v, t, _, h, hv => by
    rw [decode] at h
    obtain ⟨value, hvalue, rfl⟩ := decodeEnum_ok h
    rw [encode] at hv
    exact e.lookup_str (hv ▸ hvalue)
  | .dataclass cls fields post, raw, path, v, t, _, h, hv => by
    obtain ⟨_, _, _, -, -, -, -, rfl⟩ := decode_dataclass_ok h
    rw [encode] at hv
    cases hv
  | .seq isTuple a, raw, path, v, t, _, h, hv => by
    obtain ⟨_, _, -, -, rfl⟩ := decode_seq_ok h
    rw [encode_seq] at hv
    cases hv
  | .map a, raw, path, v, t, _, h, hv => by
    obtain ⟨_, _, -, -, rfl⟩ := decode_map_ok h
    rw [encode] at hv
    cases hv
  | .any, raw, path, v, t, _, h, hv => by
    rw [decode] at h
    rw [← (decodeAny_ok h).1, hv]

/-! ## Fields -/

/-- The field reads its value, as it is written, as this value again. -/
def FieldStable (it : Interp F) (info : FieldInfo F) (a : Ann F) (v : Val F) : Prop :=
  ∀ location, checkedValue it info (decode it a) (encode v) location = .ok v

/-- Each field holds a value that it reads again. -/
def Settled (it : Interp F) (fields : List (FieldInfo F × Ann F)) (values : List (Attr × Val F)) :
    Prop :=
  List.Forall₂ (fun f e => e.1 = f.1.attr ∧ FieldStable it f.1 f.2 e.2) fields values

/-- What `__post_init__` makes of settled fields it makes of them again. -/
def PostSettles (it : Interp F) (fields : List (FieldInfo F × Ann F))
    (post : List (Attr × Val F) → Except PostError (List (Attr × Val F))) : Prop :=
  ∀ vs ws, Settled it fields vs → post vs = .ok ws →
    ∃ us, Settled it fields us ∧ encodeFields us = encodeFields ws ∧ post us = .ok ws

mutual
/-- Every class of the annotation has distinct persisted names, `P` of its fields and `Q` of
its `__post_init__`. -/
def Everywhere (P : FieldInfo F → Ann F → Prop)
    (Q : List (FieldInfo F × Ann F) →
      (List (Attr × Val F) → Except PostError (List (Attr × Val F))) → Prop) : Ann F → Prop
  | .optional a => Everywhere P Q a
  | .dataclass _ fields post => (keysOf fields).Nodup ∧ Q fields post ∧ EveryField P Q fields
  | .seq _ a => Everywhere P Q a
  | .map a => Everywhere P Q a
  | _ => True

/-- `Everywhere` for the fields of a class. -/
def EveryField (P : FieldInfo F → Ann F → Prop)
    (Q : List (FieldInfo F × Ann F) →
      (List (Attr × Val F) → Except PostError (List (Attr × Val F))) → Prop) :
    List (FieldInfo F × Ann F) → Prop
  | [] => True
  | (info, a) :: rest => P info a ∧ Everywhere P Q a ∧ EveryField P Q rest
end

/-- The field reads its default again, and no path where it ignores case. -/
structure FieldSound (it : Interp F) (info : FieldInfo F) (a : Ann F) : Prop where
  default : ∀ d, info.default = some d → FieldStable it info a d
  pathFree : info.caseless = true → PathFree a

/-- `__post_init__` only validates. -/
def OnlyValidates (_ : List (FieldInfo F × Ann F))
    (post : List (Attr × Val F) → Except PostError (List (Attr × Val F))) : Prop :=
  ∀ vs ws, post vs = .ok ws → ws = vs

theorem OnlyValidates.settles (h : OnlyValidates fields post) : PostSettles it fields post := by
  intro vs ws hvs hpost
  obtain rfl := h vs ws hpost
  exact ⟨_, hvs, rfl, hpost⟩

section Everywhere

omit [PyArith F]

variable {P P' : FieldInfo F → Ann F → Prop}
  {Q Q' : List (FieldInfo F × Ann F) →
    (List (Attr × Val F) → Except PostError (List (Attr × Val F))) → Prop}

mutual
theorem Everywhere.imp (hP : ∀ info a, P info a → P' info a)
    (hQ : ∀ fields post, Q fields post → Q' fields post) :
    ∀ {a : Ann F}, Everywhere P Q a → Everywhere P' Q' a
  | .optional a, h => by
    rw [Everywhere] at h ⊢
    exact Everywhere.imp hP hQ h
  | .dataclass _ fields post, h => by
    rw [Everywhere] at h ⊢
    exact ⟨h.1, hQ _ _ h.2.1, EveryField.imp hP hQ h.2.2⟩
  | .seq _ a, h => by
    rw [Everywhere] at h ⊢
    exact Everywhere.imp hP hQ h
  | .map a, h => by
    rw [Everywhere] at h ⊢
    exact Everywhere.imp hP hQ h
  | .scalar _, _ | .union _, _ | .literal _, _ | .enum _, _ | .any, _ => by
    rw [Everywhere] <;> simp

theorem EveryField.imp (hP : ∀ info a, P info a → P' info a)
    (hQ : ∀ fields post, Q fields post → Q' fields post) :
    ∀ {fields : List (FieldInfo F × Ann F)}, EveryField P Q fields → EveryField P' Q' fields
  | [], _ => by
    rw [EveryField]
    trivial
  | (info, a) :: rest, h => by
    rw [EveryField] at h ⊢
    exact ⟨hP _ _ h.1, Everywhere.imp hP hQ h.2.1, EveryField.imp hP hQ h.2.2⟩
end

end Everywhere

/-- A class whose fields read their defaults, and whose `__post_init__` is settled, as are
those within it. -/
abbrev Sound (it : Interp F) (a : Ann F) : Prop := Everywhere (FieldSound it) (PostSettles it) a

section
omit [PyArith F]
/-- A field is accepted if it decodes and its check passes. -/
theorem checkedValue_ok {info : FieldInfo F} {decode : PyValue F → String → Except Raised (Val F)}
    {location : String} :
    checkedValue it info decode raw location = .ok v ↔
      decode (supplied it info.caseless raw) location = .ok v ∧ info.check v = none := by
  rw [checkedValue, bind_eq_ok_iff]
  constructor
  · rintro ⟨w, hw, h⟩
    split at h
    · cases h
    · cases h
      exact ⟨hw, ‹_›⟩
  · rintro ⟨hv, hcheck⟩
    refine ⟨v, hv, ?_⟩
    rw [hcheck]

theorem supplied_of_not_str {caseless : Bool} (h : ∀ s, raw ≠ .str s) :
    supplied it caseless raw = raw := by
  cases raw with
  | str s => exact absurd rfl (h s)
  | _ => rfl

end

/-- A field reads again what it has read. -/
theorem fieldStable_of_checkedValue (hit : it.Lawful) {info : FieldInfo F} {location : String}
    (ha : ∀ {raw path v}, decode it a raw path = .ok v → Stable it a v)
    (hcase : info.caseless = true → PathFree a)
    (h : checkedValue it info (decode it a) raw location = .ok v) : FieldStable it info a v := by
  intro location'
  obtain ⟨hv, hcheck⟩ := checkedValue_ok.mp h
  refine checkedValue_ok.mpr ⟨?_, hcheck⟩
  have hsame : supplied it info.caseless (encode v) = encode v := by
    by_cases hstr : ∃ s, encode v = .str s
    · obtain ⟨s, hs⟩ := hstr
      rw [hs, supplied]
      by_cases hless : info.caseless = true
      · -- The value was read from this very string, which is in upper case.
        rw [if_pos hless]
        have hraw := str_of_encode (hcase hless) hv hs
        rw [hless] at hraw
        cases raw with
        | str r =>
          rw [supplied, if_pos rfl] at hraw
          rw [← PyValue.str.inj hraw, hit.upper_upper]
        | _ => cases hraw
      · rw [if_neg hless]
    · exact supplied_of_not_str fun s hs => hstr ⟨s, hs⟩
  rw [hsame]
  exact ha hv location'

variable {entries : List (String × PyValue F)}

section
omit [PyArith F]
/-- No unknown key. -/
theorem knownKeys_ok_iff {keys : List String} :
    knownKeys keys path entries = .ok () ↔ ∀ e ∈ entries, e.1 ∈ keys := by
  induction entries with
  | nil => simp [knownKeys]
  | cons e rest ih =>
    obtain ⟨key, raw⟩ := e
    rw [knownKeys, forall_mem_cons, ← ih]
    by_cases h : key ∈ keys
    · rw [if_pos (contains_iff_mem.mpr h)]
      simp [h]
    · rw [if_neg (by rwa [contains_iff_mem])]
      simp [h, refuse]

theorem keys_encodeFields (values : List (Attr × Val F)) :
    Dict.keys (encodeFields values) = values.map fun e => e.1.key := by
  induction values with
  | nil => rfl
  | cons e rest ih =>
    obtain ⟨a, v⟩ := e
    rw [encodeFields, map_cons, ← ih]
    rfl

end

theorem Settled.keys (h : Settled it fields values) :
    (values.map fun e => e.1.key) = keysOf fields := by
  induction h with
  | nil => rfl
  | cons hf _ ih => rw [map_cons, ih, hf.1, keysOf, keysOf, map_cons]

omit [PyArith F] in
theorem mem_encodeFields {a : Attr} (h : (a, v) ∈ values) :
    (a.key, encode v) ∈ encodeFields values := by
  induction values with
  | nil => cases h
  | cons e rest ih =>
    obtain ⟨a', v'⟩ := e
    rw [encodeFields]
    rcases mem_cons.mp h with heq | hrest
    · cases heq
      exact .head _
    · exact .tail _ (ih hrest)

/-- Settled fields are read from any object that holds what is written of them. -/
theorem Settled.decodeFields (h : Settled it fields values) {entries : Dict String (PyValue F)}
    (hentries : ∀ e ∈ values, Dict.get? entries e.1.key = some (encode e.2)) :
    decodeFields it fields entries path = .ok values := by
  induction h with
  | nil => rw [Codec.decodeFields]
  | @cons f e fields values hf _ ih =>
    obtain ⟨info, a⟩ := f
    obtain ⟨attr, v⟩ := e
    obtain ⟨rfl, hstable⟩ := hf
    obtain ⟨hget, hentries⟩ := forall_mem_cons.mp hentries
    rw [Codec.decodeFields, fieldValue]
    simp only at hget
    rw [hget]
    change (checkedValue it info _ _ _ >>= _) = _
    rw [hstable, ok_bind, ih hentries, ok_bind]

/-- An instance of settled fields is read again. -/
theorem stable_object {cls : String} {us ws : List (Attr × Val F)} (hkeys : (keysOf fields).Nodup)
    (hus : Settled it fields us) (hencode : encodeFields us = encodeFields ws)
    (hpost : post us = .ok ws) : Stable it (.dataclass cls fields post) (.object cls ws) := by
  intro path
  have hnodup : (Dict.keys (encodeFields us)).Nodup := by
    rw [keys_encodeFields, hus.keys]
    exact hkeys
  have hknown : knownKeys (keysOf fields) path (encodeFields us) = .ok () := by
    refine knownKeys_ok_iff.mpr fun e he => ?_
    rw [← hus.keys, ← keys_encodeFields]
    exact mem_map_of_mem he
  have hfields : decodeFields it fields (encodeFields us) path = .ok us := by
    refine hus.decodeFields fun e he => ?_
    exact (Dict.get?_eq_some_iff hnodup _ _).mpr (mem_encodeFields he)
  rw [encode, ← hencode, decode, hknown, ok_bind, hfields, ok_bind, construct, hpost]

/-- Decoded items decode again to themselves. -/
theorem decodeItems_again (ha : ∀ {raw path v}, decode it a raw path = .ok v → Stable it a v)
    {items : List (PyValue F)} {index : Nat} {values : List (Val F)}
    (h : decodeItems (decode it a) path index items = .ok values) (path' : String) (index' : Nat) :
    decodeItems (decode it a) path' index' (encodeItems values) = .ok values := by
  induction items generalizing index index' values with
  | nil =>
    cases h
    rfl
  | cons raw rest ih =>
    obtain ⟨v, hv, h⟩ := bind_eq_ok h
    obtain ⟨values', hvalues, h⟩ := bind_eq_ok h
    cases h
    rw [encodeItems, decodeItems, ha hv, ok_bind, ih hvalues, ok_bind]

/-- Decoded values decode again to themselves. -/
theorem decodeValues_again (ha : ∀ {raw path v}, decode it a raw path = .ok v → Stable it a v)
    {values : List (String × Val F)} (h : decodeValues (decode it a) path entries = .ok values)
    (path' : String) : decodeValues (decode it a) path' (encodeDict values) = .ok values := by
  induction entries generalizing values with
  | nil =>
    cases h
    rfl
  | cons e rest ih =>
    obtain ⟨v, hv, h⟩ := bind_eq_ok h
    obtain ⟨values', hvalues, h⟩ := bind_eq_ok h
    cases h
    rw [encodeDict, decodeValues, ha hv, ok_bind, ih hvalues, ok_bind]

mutual
/-- What is read is written as what is read as the same value. -/
theorem stable_of_decode (hit : it.Lawful) : ∀ {a : Ann F} {raw : PyValue F} {path : String}
    {v : Val F}, Sound it a → decode it a raw path = .ok v → Stable it a v
  | .scalar _, _, _, _, _, h => stable_scalar hit h
  | .union _, _, _, _, _, h => stable_union hit h
  | .enum _, _, _, _, _, h => stable_enum h
  | .optional a, raw, path, v, ha, h => by
    intro path'
    rw [Sound, Everywhere] at ha
    by_cases hraw : raw = .none
    · subst hraw
      rw [decode_optional_null] at h
      cases h
      exact decode_optional_null
    · rw [decode_optional_eq hraw] at h
      rw [decode_optional_eq fun hv => hraw (none_of_encode h hv)]
      exact stable_of_decode hit ha h path'
  | .literal values, raw, path, v, _, h => by
    intro path'
    rw [decode] at h ⊢
    obtain ⟨l, hl, rfl, rfl⟩ := decodeLiteral_ok_iff.mp h
    exact decodeLiteral_ok_iff.mpr ⟨l, hl, encode_toVal l, rfl⟩
  | .dataclass cls fields post, raw, path, v, ha, h => by
    rw [Sound, Everywhere] at ha
    obtain ⟨hkeys, hpost, hfields⟩ := ha
    obtain ⟨entries, values, ws, rfl, -, hvalues, hws, rfl⟩ := decode_dataclass_ok h
    obtain ⟨us, hus, hencode, hws⟩ := hpost _ _ (settled_of_decodeFields hit hfields hvalues) hws
    exact stable_object hkeys hus hencode hws
  | .seq isTuple a, raw, path, v, ha, h => by
    intro path'
    rw [Sound, Everywhere] at ha
    obtain ⟨items, values, rfl, hvalues, rfl⟩ := decode_seq_ok h
    have hagain := decodeItems_again (fun h => stable_of_decode hit ha h) hvalues path' 0
    rw [encode_seq, decode, hagain, ok_bind]
  | .map a, raw, path, v, ha, h => by
    intro path'
    rw [Sound, Everywhere] at ha
    obtain ⟨entries, values, rfl, hvalues, rfl⟩ := decode_map_ok h
    have hagain := decodeValues_again (fun h => stable_of_decode hit ha h) hvalues path'
    rw [encode, decode, hagain, ok_bind]
  | .any, raw, path, v, _, h => by
    intro path'
    rw [decode] at h ⊢
    obtain ⟨hraw, hagain⟩ := decodeAny_ok h
    rw [hraw]
    exact hagain path'

/-- Decoded fields are settled. -/
theorem settled_of_decodeFields (hit : it.Lawful) : ∀ {fields : List (FieldInfo F × Ann F)}
    {raw : Dict String (PyValue F)} {path : String} {values : List (Attr × Val F)},
    EveryField (FieldSound it) (PostSettles it) fields → decodeFields it fields raw path = .ok values →
      Settled it fields values
  | [], _, _, _, _, h => by
    rw [decodeFields] at h
    cases h
    exact .nil
  | (info, a) :: rest, raw, path, values, ha, h => by
    rw [EveryField] at ha
    obtain ⟨⟨hdefault, hcase⟩, ha, hrest⟩ := ha
    rw [decodeFields] at h
    obtain ⟨v, hv, h⟩ := bind_eq_ok h
    obtain ⟨values', hvalues, h⟩ := bind_eq_ok h
    cases h
    refine .cons ⟨rfl, ?_⟩ (settled_of_decodeFields hit hrest hvalues)
    rw [fieldValue] at hv
    split at hv
    · exact fieldStable_of_checkedValue hit (fun h => stable_of_decode hit ha h) hcase hv
    · split at hv
      · cases hv
        exact hdefault _ ‹_›
      · cases hv
end

end Zicato.Codec
