import Mathlib.Data.List.Sort
import Mathlib.Data.String.Basic
import Zicato.Dict

/-! # Parsed JSON

What `json.loads` returns.  A decoder that refuses a value of the wrong type
takes a `PyValue`, so that its checks are part of the model. -/
open List
namespace Zicato

/-- What JSON and Python literals decode to. -/
inductive PyValue (F : Type)
  | none
  | bool (b : Bool)
  | int (n : Int)
  | float (x : F)
  | str (s : String)
  | list (items : List (PyValue F))
  | dict (fields : List (String × PyValue F))

namespace PyValue
variable {F : Type}

/-- The value, if `type(value) is int`. -/
def int? : PyValue F → Option Int
  | .int n => some n
  | _ => Option.none

/-- The text of a string. -/
def str? : PyValue F → Option String
  | .str s => some s
  | _ => Option.none

/-- The items of a list. -/
def list? : PyValue F → Option (List (PyValue F))
  | .list items => some items
  | _ => Option.none

/-! ## Keys -/

mutual
/-- Every dictionary in the value has distinct keys, all of which satisfy `P`. -/
def HasKeys (P : String → Prop) : PyValue F → Prop
  | .list items => HasKeysItems P items
  | .dict fields => (Dict.keys fields).Nodup ∧ HasKeysFields P fields
  | _ => True

/-- `HasKeys` of every item. -/
def HasKeysItems (P : String → Prop) : List (PyValue F) → Prop
  | [] => True
  | v :: rest => HasKeys P v ∧ HasKeysItems P rest

/-- `HasKeys` of every value, and `P` of its key. -/
def HasKeysFields (P : String → Prop) : List (String × PyValue F) → Prop
  | [] => True
  | (k, v) :: rest => P k ∧ HasKeys P v ∧ HasKeysFields P rest
end

theorem hasKeysFields_iff {P : String → Prop} {fields : List (String × PyValue F)} :
    HasKeysFields P fields ↔ ∀ e ∈ fields, P e.1 ∧ HasKeys P e.2 := by
  induction fields with
  | nil => simp [HasKeysFields]
  | cons e rest ih => rw [HasKeysFields, ih, forall_mem_cons, and_assoc]

/-! ## Sorted keys -/

mutual
/-- The value with the keys of its dictionaries in order. -/
def sorted : PyValue F → PyValue F
  | .none => .none
  | .bool b => .bool b
  | .int n => .int n
  | .float x => .float x
  | .str s => .str s
  | .list items => .list (sortedItems items)
  | .dict fields => .dict ((sortedFields fields).insertionSort fun a b => a.1 ≤ b.1)

/-- `sorted` of every item. -/
def sortedItems : List (PyValue F) → List (PyValue F)
  | [] => []
  | v :: rest => sorted v :: sortedItems rest

/-- `sorted` of every value. -/
def sortedFields : List (String × PyValue F) → List (String × PyValue F)
  | [] => []
  | (k, v) :: rest => (k, sorted v) :: sortedFields rest
end

/-- The items of a dictionary read back from a text with sorted keys. -/
def sortKeys (fields : Dict String (PyValue F)) : Dict String (PyValue F) :=
  (sortedFields fields).insertionSort fun a b => a.1 ≤ b.1

theorem sorted_dict (fields : Dict String (PyValue F)) :
    (PyValue.dict fields).sorted = .dict (sortKeys fields) := by
  rw [sorted, sortKeys]

/-- What an ordered insertion leaves under a key. -/
theorem get?_orderedInsert (key key' : String) (v : PyValue F) (d : Dict String (PyValue F)) :
    Dict.get? (d.orderedInsert (fun a b => a.1 ≤ b.1) (key, v)) key' =
      if key = key' then some v else Dict.get? d key' := by
  induction d with
  | nil => rfl
  | cons e rest ih =>
    rw [orderedInsert_cons]
    split
    · rfl
    · rename_i hlt
      have hne : e.1 ≠ key := fun heq => hlt (le_of_eq heq.symm)
      rw [Dict.get?, Dict.get?, ih]
      by_cases hkey : key = key'
      · rw [if_pos hkey, if_pos hkey, if_neg (hkey ▸ hne)]
      · rw [if_neg hkey, if_neg hkey]

/-- Sorting changes no lookup, except in the value found. -/
theorem get?_sortKeys (fields : Dict String (PyValue F)) (key : String) :
    Dict.get? (sortKeys fields) key = (Dict.get? fields key).map sorted := by
  induction fields with
  | nil => rfl
  | cons e rest ih =>
    rw [sortKeys, sortedFields, insertionSort_cons, get?_orderedInsert]
    change (if e.1 = key then _ else Dict.get? (sortKeys rest) key) = _
    rw [ih, Dict.get?]
    split <;> rfl

theorem mem_sortKeys {fields : Dict String (PyValue F)} {e : String × PyValue F} :
    e ∈ sortKeys fields ↔ ∃ f ∈ fields, e = (f.1, f.2.sorted) := by
  rw [sortKeys, mem_insertionSort]
  induction fields with
  | nil => simp [sortedFields]
  | cons f rest ih =>
    rw [sortedFields, mem_cons, ih, exists_mem_cons_iff]

end PyValue

/-- `set(fields) == expected`. -/
def sameKeys {F : Type} (fields : Dict String (PyValue F)) (expected : List String) : Bool :=
  fields.keys.all (expected.contains ·) && expected.all (fields.keys.contains ·)

end Zicato
