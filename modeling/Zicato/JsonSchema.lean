import Zicato.PyValue

/-! # JSON Schema

The part of the schema language that the program's schemas use, and what a document that a
schema accepts looks like. -/
open List
namespace Zicato

/-- A schema: `additionalProperties` is a flag here. -/
inductive JsonSchema
  | object (required : List String) (properties : List (String × JsonSchema)) (additional : Bool)
  | array (items : JsonSchema) (minItems : Nat)
  | string (minLength : Nat)
  | number
  | enum (values : List String)

namespace JsonSchema

variable {F : Type}

mutual
/-- The document conforms; a boolean is no number. -/
@[grind =] def accepts : JsonSchema → PyValue F → Bool
  | .object required properties additional, .dict fields =>
      required.all (fun key => (Dict.get? fields key).isSome) &&
        acceptsProperties properties fields &&
        (additional || (Dict.keys fields).all fun key => (properties.map Prod.fst).contains key)
  | .array items minItems, .list values =>
      decide (minItems ≤ values.length) && values.all items.accepts
  | .string minLength, .str s => decide (minLength ≤ s.length)
  | .number, .int _ => true
  | .number, .float _ => true
  | .enum values, .str s => values.contains s
  | _, _ => false

/-- The properties that are there conform. -/
@[grind =] def acceptsProperties : List (String × JsonSchema) → Dict String (PyValue F) → Bool
  | [], _ => true
  | (key, schema) :: rest, fields =>
      (match Dict.get? fields key with
      | some v => schema.accepts v
      | none => true) && acceptsProperties rest fields
end

/-- Every property that is there is accepted. -/
theorem acceptsProperties_iff {properties : List (String × JsonSchema)}
    {fields : Dict String (PyValue F)} :
    acceptsProperties properties fields = true ↔
      ∀ p ∈ properties, ∀ v, Dict.get? fields p.1 = some v → p.2.accepts v = true := by
  induction properties with
  | nil => simp [acceptsProperties]
  | cons p rest ih =>
    obtain ⟨key, schema⟩ := p
    rw [acceptsProperties, Bool.and_eq_true, ih, forall_mem_cons]
    refine and_congr_left fun _ => ?_
    cases Dict.get? fields key with
    | none => simp
    | some v => simp

/-- A document that conforms to the schema of an object. -/
theorem object_of_accepts {required : List String} {properties : List (String × JsonSchema)}
    {additional : Bool} {v : PyValue F}
    (h : (object required properties additional).accepts v = true) :
    ∃ fields, v = .dict fields ∧ (∀ key ∈ required, ∃ x, Dict.get? fields key = some x) ∧
      (∀ p ∈ properties, ∀ x, Dict.get? fields p.1 = some x → p.2.accepts x = true) ∧
      (additional = false → ∀ key ∈ Dict.keys fields, key ∈ properties.map Prod.fst) := by
  cases v with
  | dict fields =>
    rw [accepts, Bool.and_eq_true, Bool.and_eq_true, all_eq_true, acceptsProperties_iff] at h
    obtain ⟨⟨hrequired, hproperties⟩, hadditional⟩ := h
    refine ⟨fields, rfl, fun key hkey => Option.isSome_iff_exists.mp (hrequired key hkey),
      hproperties, fun hclosed key hkey => ?_⟩
    rw [hclosed, Bool.false_or, all_eq_true] at hadditional
    exact contains_iff_mem.mp (hadditional key hkey)
  | _ => simp [accepts] at h

section Fields

variable {required : List String} {properties : List (String × JsonSchema)} {additional : Bool}
  {fields : Dict String (PyValue F)}

variable (key : String)

/-- The field that a schema requires conforms to what it says of it. -/
theorem field_of_accepts (schema : JsonSchema)
    (h : (object required properties additional).accepts (.dict fields) = true)
    (hkey : key ∈ required) (hschema : (key, schema) ∈ properties) :
    ∃ x, Dict.get? fields key = some x ∧ schema.accepts x = true := by
  obtain ⟨fields', heq, hrequired, hproperties, -⟩ := object_of_accepts h
  cases heq
  obtain ⟨x, hx⟩ := hrequired key hkey
  exact ⟨x, hx, hproperties _ hschema x hx⟩

/-- A text that a schema requires. -/
theorem text_of_accepts (minLength : Nat)
    (h : (object required properties additional).accepts (.dict fields) = true)
    (hkey : key ∈ required) (hschema : (key, .string minLength) ∈ properties) :
    ∃ s, Dict.get? fields key = some (.str s) := by
  obtain ⟨x, hx, hs⟩ := field_of_accepts key _ h hkey hschema
  cases x with
  | str s => exact ⟨s, hx⟩
  | _ => simp [accepts] at hs

/-- A word of a list that a schema requires. -/
theorem word_of_accepts (values : List String)
    (h : (object required properties additional).accepts (.dict fields) = true)
    (hkey : key ∈ required) (hschema : (key, .enum values) ∈ properties) :
    ∃ s ∈ values, Dict.get? fields key = some (.str s) := by
  obtain ⟨x, hx, hs⟩ := field_of_accepts key _ h hkey hschema
  cases x with
  | str s =>
    rw [accepts] at hs
    exact ⟨s, contains_iff_mem.mp hs, hx⟩
  | _ => simp [accepts] at hs

/-- The items of an array that a schema requires. -/
theorem items_of_accepts (items : JsonSchema) (minItems : Nat)
    (h : (object required properties additional).accepts (.dict fields) = true)
    (hkey : key ∈ required) (hschema : (key, .array items minItems) ∈ properties) :
    ∃ values, Dict.get? fields key = some (.list values) ∧
      ∀ x ∈ values, items.accepts x = true := by
  obtain ⟨x, hx, hs⟩ := field_of_accepts key _ h hkey hschema
  cases x with
  | list values =>
    rw [accepts, Bool.and_eq_true, all_eq_true] at hs
    exact ⟨values, hx, hs.2⟩
  | _ => simp [accepts] at hs

/-- The field that a schema describes conforms, if it is there. -/
theorem optional_of_accepts (schema : JsonSchema)
    (h : (object required properties additional).accepts (.dict fields) = true)
    (hschema : (key, schema) ∈ properties) {x : PyValue F} (hx : Dict.get? fields key = some x) :
    schema.accepts x = true := by
  obtain ⟨fields', heq, -, hproperties, -⟩ := object_of_accepts h
  cases heq
  exact hproperties _ hschema x hx

end Fields

theorem string_of_accepts {minLength : Nat} {v : PyValue F}
    (h : (string minLength).accepts v = true) : ∃ s, v = .str s := by
  cases v with
  | str s => exact ⟨s, rfl⟩
  | _ => simp [accepts] at h

theorem number_of_accepts {v : PyValue F} (h : number.accepts v = true) :
    (∃ n, v = .int n) ∨ ∃ x, v = .float x := by
  cases v with
  | int n => exact .inl ⟨n, rfl⟩
  | float x => exact .inr ⟨x, rfl⟩
  | _ => simp [accepts] at h

end JsonSchema

end Zicato
