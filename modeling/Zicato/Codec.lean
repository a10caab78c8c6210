import Zicato.PyExcept
import Zicato.PySort
import Zicato.PyValue

/-! # The typed configuration codec

`zicato/core/configuration.py`: authored JSON is decoded by the annotations of a
dataclass, and an instance is copied back to JSON under its persisted names.  An
annotation is data here, and so is a dataclass: its fields, their defaults and checks,
and what its `__post_init__` does. -/
namespace Zicato.Codec

/-- `ConfigurationError`. -/
structure ConfigurationError where
  path : String
  category : String
  detail : String
  deriving DecidableEq, Repr

/-- What decoding raises: a `ConfigurationError`, or an exception of another type. -/
inductive Raised
  | configuration (e : ConfigurationError)
  | other (name : String)
  deriving DecidableEq, Repr

/-- A field of an instance: its name, and its spelling in JSON. -/
structure Attr where
  name : String
  key : String
  deriving DecidableEq, Repr

/-- A value of an instance. -/
inductive Val (F : Type)
  | none
  | bool (b : Bool)
  | int (n : Int)
  | float (x : F)
  | str (s : String)
  | path (s : String)
  /-- A member of an enumeration, by its value. -/
  | member (cls : String) (value : PyValue F)
  | list (items : List (Val F))
  | tuple (items : List (Val F))
  | dict (fields : List (String × Val F))
  | object (cls : String) (fields : List (Attr × Val F))

/-- A type that is no class of this program. -/
inductive Scalar
  | bool
  | int
  | float
  | str
  | none
  | path
  deriving DecidableEq, Repr

/-- An argument of `Literal`. -/
inductive Lit
  | none
  | bool (b : Bool)
  | int (n : Int)
  | str (s : String)
  deriving DecidableEq, Repr

variable {F : Type}

/-- An enumeration.  Calling it with a value finds the member that has an equal value, so
it finds a member by the member's own value. -/
structure EnumClass (F : Type) where
  name : String
  values : List (PyValue F)
  lookup : PyValue F → Option (PyValue F)
  lookup_mem : ∀ {raw v}, lookup raw = some v → v ∈ values
  lookup_value : ∀ {raw v}, lookup raw = some v → lookup v = some v
  /-- Nothing but null equals null. -/
  lookup_none : ∀ {raw}, lookup raw = some .none → raw = .none
  /-- Nothing but a string equals a string. -/
  lookup_str : ∀ {raw s}, lookup raw = some (.str s) → raw = .str s
  /-- Objects are equal whatever the order of their keys. -/
  lookup_sorted : ∀ raw, lookup raw.sorted = lookup raw

/-- A `StrEnum`. -/
def EnumClass.ofStrings (name : String) (tokens : List String) : EnumClass F where
  name := name
  values := tokens.map .str
  lookup
    | .str s => if s ∈ tokens then some (.str s) else none
    | _ => none
  lookup_mem {raw v} h := by
    cases raw <;> simp at h
    obtain ⟨hs, rfl⟩ := h
    exact List.mem_map_of_mem hs
  lookup_value {raw v} h := by
    cases raw <;> simp at h
    obtain ⟨hs, rfl⟩ := h
    exact if_pos hs
  lookup_none {raw} h := by cases raw <;> simp at h
  lookup_str {raw s} h := by
    cases raw <;> simp at h
    rw [h.2]
  lookup_sorted raw := by cases raw <;> simp [PyValue.sorted]

/-- `ExpectationKind`. -/
def expectationKind : EnumClass F :=
  .ofStrings "ExpectationKind" ["expected_text", "regex", "json_schema", "predicate", "rubric"]

/-- What the declaration of a field says besides its annotation. -/
structure FieldInfo (F : Type) where
  attr : Attr
  /-- The default, or what the factory gives. -/
  default : Option (Val F)
  /-- `case_insensitive`. -/
  caseless : Bool := false
  /-- The text with which the constraint of the field refuses a value. -/
  check : Val F → Option String := fun _ => none

/-- What `__post_init__` raises. -/
inductive PostError
  | value (text : String)
  | raised (e : Raised)

/-- An annotation.  `post` is `__post_init__`, which returns the fields as it leaves
them. -/
inductive Ann (F : Type)
  | scalar (s : Scalar)
  /-- A union of scalar types, null perhaps among them. -/
  | union (args : List Scalar)
  /-- One type, or null. -/
  | optional (a : Ann F)
  | literal (values : List Lit)
  | enum (e : EnumClass F)
  | dataclass (cls : String) (fields : List (FieldInfo F × Ann F))
      (post : List (Attr × Val F) → Except PostError (List (Attr × Val F)))
  | seq (isTuple : Bool) (item : Ann F)
  | map (value : Ann F)
  | any

/-- What the decoder uses of the interpreter. -/
structure Interp (F : Type) where
  upper : String → String
  /-- `str(Path(text).expanduser())`, if it does not raise. -/
  expanduser : String → Option String
  repr : PyValue F → String
  /-- The text of a list of types. -/
  types : List Scalar → String
  /-- The text of the arguments of `Literal`. -/
  literals : List Lit → String
  /-- The text of the members of an enumeration. -/
  members : String → String

/-- A `ConfigurationError` is raised. -/
def refuse {α : Type} (path category detail : String) : Except Raised α :=
  .error (.configuration ⟨path, category, detail⟩)

/-! ## Encoding -/

mutual
/-- `_json_value`. -/
def encode : Val F → PyValue F
  | .none => .none
  | .bool b => .bool b
  | .int n => .int n
  | .float x => .float x
  | .str s => .str s
  | .path s => .str s
  | .member _ value => value
  | .list items => .list (encodeItems items)
  | .tuple items => .list (encodeItems items)
  | .dict fields => .dict (encodeDict fields)
  | .object _ fields => .dict (encodeFields fields)

/-- `encode` of every item. -/
def encodeItems : List (Val F) → List (PyValue F)
  | [] => []
  | v :: rest => encode v :: encodeItems rest

/-- `encode` of every value of a dict. -/
def encodeDict : List (String × Val F) → List (String × PyValue F)
  | [] => []
  | (k, v) :: rest => (k, encode v) :: encodeDict rest

/-- `dataclass_to_jsonable`, whose keys are distinct. -/
def encodeFields : List (Attr × Val F) → List (String × PyValue F)
  | [] => []
  | (a, v) :: rest => (a.key, encode v) :: encodeFields rest
end

/-! ## Decoding -/

section Decode

variable [PyArith F] (it : Interp F)

/-- A value of a scalar type. -/
def decodeScalar (s : Scalar) (raw : PyValue F) (path : String) : Except Raised (Val F) :=
  match s, raw with
  | .bool, .bool b => .ok (.bool b)
  | .bool, _ => refuse path "type" "expected a boolean"
  | .int, .int n => .ok (.int n)
  | .int, _ => refuse path "type" "expected an integer"
  | .str, .str s => .ok (.str s)
  | .str, _ => refuse path "type" "expected a string"
  | .none, .none => .ok .none
  | .none, _ => refuse path "type" "expected null"
  | .path, .str s =>
      match it.expanduser s with
      | some p => .ok (.path p)
      | none => .error (.other "RuntimeError")
  | .path, _ => refuse path "type" "expected a path string"
  | .float, .int n =>
      match PyFloat.ofInt n with
      | some x =>
          if PyFloat.isfinite x then .ok (.float x)
          else refuse path "range" "expected a finite number"
      | none => refuse path "range" "expected a finite number"
  | .float, .float x =>
      if PyFloat.isfinite x then .ok (.float x)
      else refuse path "range" "expected a finite number"
  | .float, _ => refuse path "type" "expected a finite number"

/-- The first candidate that does not refuse the value. -/
def firstOf (candidates : List Scalar) (raw : PyValue F) (path : String) :
    List Scalar → Except Raised (Val F)
  | [] => refuse path "type" ("expected one of " ++ it.types candidates)
  | s :: rest =>
      match decodeScalar it s raw path with
      | .ok v => .ok v
      | .error (.configuration _) => firstOf candidates raw path rest
      | .error e => .error e

/-- A value of a union of scalar types. -/
def decodeUnion (args : List Scalar) (raw : PyValue F) (path : String) : Except Raised (Val F) :=
  match raw with
  | .none =>
      if args.contains .none then .ok .none
      else firstOf it (args.filter (· ≠ .none)) .none path (args.filter (· ≠ .none))
  | raw => firstOf it (args.filter (· ≠ .none)) raw path (args.filter (· ≠ .none))

/-- A literal as a decoded value. -/
def Lit.toVal : Lit → Val F
  | .none => .none
  | .bool b => .bool b
  | .int n => .int n
  | .str s => .str s

/-- A literal as a raw value. -/
def Lit.toRaw : Lit → PyValue F
  | .none => .none
  | .bool b => .bool b
  | .int n => .int n
  | .str s => .str s

/-- The argument of `Literal` that a value is, type and all. -/
def litOf : PyValue F → Option Lit
  | .none => some .none
  | .bool b => some (.bool b)
  | .int n => some (.int n)
  | .str s => some (.str s)
  | _ => none

/-- The branch of `decode` for a `Literal`. -/
def decodeLiteral (values : List Lit) (raw : PyValue F) (path : String) :
    Except Raised (Val F) :=
  match litOf raw with
  | some l =>
      if values.contains l then .ok l.toVal
      else refuse path "value" ("expected one of " ++ it.literals values ++ "; got " ++ it.repr raw)
  | none => refuse path "value" ("expected one of " ++ it.literals values ++ "; got " ++ it.repr raw)

/-- `type(a) is type(b)`. -/
def sameType : PyValue F → PyValue F → Bool
  | .none, .none => true
  | .bool _, .bool _ => true
  | .int _, .int _ => true
  | .float _, .float _ => true
  | .str _, .str _ => true
  | .list _, .list _ => true
  | .dict _, .dict _ => true
  | _, _ => false

/-- The branch of `decode` for an enum. -/
def decodeEnum (e : EnumClass F) (raw : PyValue F) (path : String) : Except Raised (Val F) :=
  if e.values.any (sameType raw) then
    match e.lookup raw with
    | some v => .ok (.member e.name v)
    | none => refuse path "value" ("expected one of " ++ it.members e.name)
  else refuse path "type" "expected an enum value of its declared type"

mutual
/-- A value of the annotation `Any`. -/
def decodeAny : PyValue F → String → Except Raised (Val F)
  | .none, _ => .ok .none
  | .bool b, _ => .ok (.bool b)
  | .int n, _ => .ok (.int n)
  | .str s, _ => .ok (.str s)
  | .float x, path =>
      if PyFloat.isfinite x then .ok (.float x)
      else refuse path "type" "expected a finite JSON value"
  | .list items, path => do
      let values ← decodeAnyItems items path 0
      .ok (.list values)
  | .dict fields, path => do
      let values ← decodeAnyFields fields path
      .ok (.dict values)

/-- `Any` for every item of a list. -/
def decodeAnyItems : List (PyValue F) → String → Nat → Except Raised (List (Val F))
  | [], _, _ => .ok []
  | raw :: rest, path, index => do
      let v ← decodeAny raw (path ++ "[" ++ toString index ++ "]")
      let values ← decodeAnyItems rest path (index + 1)
      .ok (v :: values)

/-- `Any` for every value of a dict. -/
def decodeAnyFields : List (String × PyValue F) → String → Except Raised (List (String × Val F))
  | [], _ => .ok []
  | (key, raw) :: rest, path => do
      let v ← decodeAny raw (path ++ "." ++ key)
      let values ← decodeAnyFields rest path
      .ok ((key, v) :: values)
end

/-- The items of a sequence, each decoded by `decode`. -/
def decodeItems (decode : PyValue F → String → Except Raised (Val F)) (path : String) :
    Nat → List (PyValue F) → Except Raised (List (Val F))
  | _, [] => .ok []
  | index, raw :: rest => do
      let v ← decode raw (path ++ "[" ++ toString index ++ "]")
      let values ← decodeItems decode path (index + 1) rest
      .ok (v :: values)

/-- The items of a mapping, each decoded by `decode`. -/
def decodeValues (decode : PyValue F → String → Except Raised (Val F)) (path : String) :
    List (String × PyValue F) → Except Raised (List (String × Val F))
  | [] => .ok []
  | (key, raw) :: rest => do
      let v ← decode raw (path ++ "." ++ key)
      let values ← decodeValues decode path rest
      .ok ((key, v) :: values)

/-- `str.upper` of a string that is supplied for a field without case. -/
def supplied (caseless : Bool) (raw : PyValue F) : PyValue F :=
  match raw with
  | .str s => if caseless then .str (it.upper s) else .str s
  | raw => raw

/-- The value of a field that is supplied. -/
def checkedValue (info : FieldInfo F) (decode : PyValue F → String → Except Raised (Val F))
    (raw : PyValue F) (location : String) : Except Raised (Val F) := do
  let v ← decode (supplied it info.caseless raw) location
  match info.check v with
  | some text => refuse location "range" text
  | none => .ok v

/-- The value of a field, or its default. -/
def fieldValue (info : FieldInfo F) (decode : PyValue F → String → Except Raised (Val F))
    (raw : Dict String (PyValue F)) (path : String) : Except Raised (Val F) :=
  match Dict.get? raw info.attr.key with
  | some v => checkedValue it info decode v (path ++ "." ++ info.attr.key)
  | none =>
      match info.default with
      | some d => .ok d
      | none => refuse (path ++ "." ++ info.attr.key) "missing" "required field is absent"

/-- The persisted names of the fields. -/
def keysOf (fields : List (FieldInfo F × Ann F)) : List String :=
  fields.map fun f => f.1.attr.key

/-- A key that no field has is refused. -/
def knownKeys (keys : List String) (path : String) :
    List (String × PyValue F) → Except Raised Unit
  | [] => .ok ()
  | (key, _) :: rest =>
      if keys.contains key then knownKeys keys path rest
      else
        refuse (path ++ "." ++ key) "unknown" ("unknown field; accepted: " ++
          ", ".intercalate (sorted (fun a b => decide (a < b)) keys))

/-- The instance with these values, if its `__post_init__` accepts them. -/
def construct (cls : String)
    (post : List (Attr × Val F) → Except PostError (List (Attr × Val F)))
    (values : List (Attr × Val F)) (path : String) : Except Raised (Val F) :=
  match post values with
  | .ok fields => .ok (.object cls fields)
  | .error (.value text) => refuse path "value" text
  | .error (.raised e) => .error e

mutual
/-- `_decode`. -/
def decode : Ann F → PyValue F → String → Except Raised (Val F)
  | .scalar s, raw, path => decodeScalar it s raw path
  | .union args, raw, path => decodeUnion it args raw path
  | .optional a, raw, path =>
      match raw with
      | .none => .ok .none
      | raw => decode a raw path
  | .literal values, raw, path => decodeLiteral it values raw path
  | .enum e, raw, path => decodeEnum it e raw path
  | .dataclass cls fields post, raw, path =>
      match raw with
      | .dict entries => do
          knownKeys (keysOf fields) path entries
          let values ← decodeFields fields entries path
          construct cls post values path
      | _ => refuse path "type" "expected an object"
  | .seq isTuple a, raw, path =>
      match raw with
      | .list items => do
          let values ← decodeItems (decode a) path 0 items
          .ok (if isTuple then .tuple values else .list values)
      | _ => refuse path "type" "expected an array"
  | .map a, raw, path =>
      match raw with
      | .dict entries => do
          let values ← decodeValues (decode a) path entries
          .ok (.dict values)
      | _ => refuse path "type" "expected an object"
  | .any, raw, path => decodeAny raw path

/-- The values of the fields, in the order of their declaration. -/
def decodeFields : List (FieldInfo F × Ann F) → Dict String (PyValue F) → String →
    Except Raised (List (Attr × Val F))
  | [], _, _ => .ok []
  | (info, a) :: rest, raw, path => do
      let v ← fieldValue it info (decode a) raw path
      let values ← decodeFields rest raw path
      .ok ((info.attr, v) :: values)
end

end Decode

end Zicato.Codec
