import Zicato.Paths
import Zicato.Watchdog

/-! # Which directory an orphan's record may have removed

A record names the working copy of its run; the reaper removes the `ztw-snap-*`
directory above it.  The recorded path is canonicalised when it exists and taken
as it is written otherwise, and it is then compared with the temporary directory
component by component. -/
open List
namespace Zicato.Watchdog
open Paths

def snapshotPrefix : Name := ['z', 't', 'w', '-', 's', 'n', 'a', 'p', '-']

/-- The file name starts with the prefix; `..` is no file name. -/
def isSnapshot : Component → Bool
  | .normal name => snapshotPrefix.isPrefixOf name
  | .parent => false

/-- The path the guard looks at. -/
def resolvedPath (fs : FileSystem) (snapshotPath : List Char) : List Component :=
  match fs.canonicalize snapshotPath with
  | some place => plain place
  | none => components snapshotPath

def reapableSnapshotRoot (fs : FileSystem) (snapshotPath : List Char) (tempDir : List Name) :
    Option (List Component) :=
  if snapshotPath.isEmpty then none
  else if snapshotPath.head? ≠ some '/' then none
  else
    match (ancestors (resolvedPath fs snapshotPath)).find? fun a => a.getLast?.any isSnapshot with
    | none => none
    | some root =>
      if root = plain tempDir ∨ ¬ plain tempDir <+: root then none
      else if ¬ root.getLast?.any isSnapshot then none
      else some root

/-- `remove_dir_all`: all of the tree goes, or an error leaves some of it. -/
def removeDirAll (fs : FileSystem) (place : List Name) (left : Option (List Name → Bool)) :
    FileSystem where
  isDir p := fs.isDir p && (!place.isPrefixOf p || left.any fun stays => stays p)
  isFile p := fs.isFile p && (!place.isPrefixOf p || left.any fun stays => stays p)

/-- Whether a root was removed, and the file system after it; `left` is what an
error of the removal leaves behind. -/
def reapOrphanedSnapshot (fs : FileSystem) (tempDir : List Name)
    (left : Option (List Name → Bool)) (run : ActiveRun) : Bool × FileSystem :=
  match run.snapshotPath with
  | none => (false, fs)
  | some snapshotPath =>
    match reapableSnapshotRoot fs snapshotPath.toList tempDir with
    | none => (false, fs)
    | some root =>
      match fs.reach [] root with
      | none => (true, fs)
      | some place =>
        if fs.isDir place then (left.isNone, removeDirAll fs place left) else (false, fs)

/-! ## What may be removed -/

/-- A directory strictly below the temporary one, with the prefix in its name. -/
def Reapable (tempDir place : List Name) : Prop :=
  tempDir <+: place ∧ place ≠ tempDir ∧ ∃ name, place.getLast? = some name ∧ snapshotPrefix <+: name

section
variable (fs : FileSystem) (snapshotPath : String) (tempDir : List Name)

/-- Whatever the guard lets through names such a directory, and nothing outside
one is removed. -/
structure Confined : Prop where
  root : ∀ root, reapableSnapshotRoot fs snapshotPath.toList tempDir = some root →
    Reapable tempDir (resolve root)
  removal : ∀ (run : ActiveRun) (left : Option (List Name → Bool)) (place : List Name),
    run.snapshotPath = some snapshotPath → fs.has place = true →
    (reapOrphanedSnapshot fs tempDir left run).2.has place = false →
    ∃ tree, Reapable tempDir tree ∧ tree <+: place

/-- The path as it is written, up to its last component with the prefix. -/
def writtenRoot : List Component :=
  (components snapshotPath.toList).rdropWhile fun c => !isSnapshot c

/-- An absolute path that does not exist, that begins with the temporary directory
as it is written, and whose `..` components lead out of it. -/
structure Climbs : Prop where
  absolute : snapshotPath.toList.head? = some '/'
  absent : fs.canonicalize snapshotPath.toList = none
  inside : plain tempDir <+: writtenRoot snapshotPath
  strict : writtenRoot snapshotPath ≠ plain tempDir
  outside : ¬ (tempDir <+: resolve (writtenRoot snapshotPath) ∧
    resolve (writtenRoot snapshotPath) ≠ tempDir)

end

variable {fs : FileSystem} {tempDir : List Name}

/-- A path cut behind its last component with the prefix ends in that component. -/
theorem cut_eq_concat {path : List Component}
    (h : path.rdropWhile (fun c => !isSnapshot c) ≠ []) :
    ∃ before name, path.rdropWhile (fun c => !isSnapshot c) = before ++ [.normal name] ∧
      snapshotPrefix <+: name := by
  have hlast := rdropWhile_last_not (fun c => !isSnapshot c) path h
  have hconcat := dropLast_append_getLast h
  cases hc : (path.rdropWhile fun c => !isSnapshot c).getLast h with
  | parent =>
    rw [hc] at hlast
    exact absurd rfl hlast
  | normal name =>
    rw [hc] at hlast hconcat
    refine ⟨_, name, hconcat.symm, isPrefixOf_iff_prefix.1 ?_⟩
    simpa [isSnapshot] using hlast

variable {root : List Component}

/-- When a root may be removed. -/
theorem reapable_eq_some {path : List Char} :
    reapableSnapshotRoot fs path tempDir = some root ↔
      path.head? = some '/' ∧ root ≠ [] ∧
      root = (resolvedPath fs path).rdropWhile (fun c => !isSnapshot c) ∧
      plain tempDir <+: root ∧ root ≠ plain tempDir := by
  unfold reapableSnapshotRoot
  rw [find_ancestors]
  by_cases habs : path.head? = some '/'
  · have hne : path.isEmpty = false := by
      cases path with
      | nil => cases habs
      | cons c path => rfl
    simp only [hne, habs, ne_eq, not_true_eq_false, if_false, Bool.false_eq_true, true_and]
    by_cases hnil : (resolvedPath fs path).rdropWhile (fun c => !isSnapshot c) = []
    · simp only [hnil, if_true, reduceCtorEq, false_iff]
      rintro ⟨hroot, rfl, -⟩
      exact hroot rfl
    · simp only [hnil, if_false]
      obtain ⟨before, name, hcut, hname⟩ := cut_eq_concat hnil
      have hlast : ((resolvedPath fs path).rdropWhile fun c => !isSnapshot c).getLast?.any
          isSnapshot = true := by
        rw [hcut]
        simpa [isSnapshot] using isPrefixOf_iff_prefix.2 hname
      simp only [hlast, not_true_eq_false, if_false]
      constructor
      · intro h
        split at h
        · cases h
        · rename_i hguard
          push Not at hguard
          cases Option.some.inj h
          exact ⟨hnil, rfl, hguard.2, hguard.1⟩
      · rintro ⟨-, rfl, hin, hstrict⟩
        rw [if_neg]
        push Not
        exact ⟨hstrict, hin⟩
  · simp [habs]

/-- An existing path is compared as the place it is: nothing escapes. -/
theorem reapable_of_canonical {path : List Char} {place : List Name}
    (hplace : fs.canonicalize path = some place)
    (h : reapableSnapshotRoot fs path tempDir = some root) : Reapable tempDir (resolve root) := by
  obtain ⟨-, hne, hroot, hin, hstrict⟩ := reapable_eq_some.1 h
  simp only [resolvedPath, hplace] at hroot
  obtain ⟨before, name, hcut, hname⟩ := cut_eq_concat (hroot ▸ hne)
  obtain ⟨part, hpart⟩ := eq_plain_of_prefix
    (List.rdropWhile_prefix (fun c => !isSnapshot c) (plain place))
  rw [← hroot] at hcut hpart
  subst hpart
  rw [resolve_plain]
  refine ⟨plain_prefix_iff.1 hin, fun heq => hstrict (plain_inj.2 heq), name, ?_, hname⟩
  have hresolved := congrArg resolve hcut
  rw [resolve_plain, resolve_concat_normal] at hresolved
  rw [hresolved, getLast?_concat]

/-- The written path of a record that was let through. -/
theorem writtenRoot_eq {snapshotPath : String} (habsent : fs.canonicalize snapshotPath.toList = none) :
    (resolvedPath fs snapshotPath.toList).rdropWhile (fun c => !isSnapshot c) =
      writtenRoot snapshotPath := by
  simp only [resolvedPath, habsent, writtenRoot]

/-- A path that does not climb ends below the directory. -/
theorem reapable_of_not_climbs {snapshotPath : String} (h : ¬ Climbs fs snapshotPath tempDir)
    (hroot : reapableSnapshotRoot fs snapshotPath.toList tempDir = some root) :
    Reapable tempDir (resolve root) := by
  cases hplace : fs.canonicalize snapshotPath.toList with
  | some place => exact reapable_of_canonical hplace hroot
  | none =>
    obtain ⟨habs, hne, heq, hin, hstrict⟩ := reapable_eq_some.1 hroot
    rw [writtenRoot_eq hplace] at heq
    subst heq
    have hinside : tempDir <+: resolve (writtenRoot snapshotPath) ∧
        resolve (writtenRoot snapshotPath) ≠ tempDir := by
      by_contra houtside
      exact h ⟨habs, hplace, hin, hstrict, houtside⟩
    obtain ⟨before, name, hcut, hname⟩ := cut_eq_concat hne
    refine ⟨hinside.1, hinside.2, name, ?_, hname⟩
    rw [writtenRoot, hcut, resolve_concat_normal, getLast?_concat]

/-- What the reaper removes is in the tree the guard let through. -/
theorem removed_under_root {left : Option (List Name → Bool)} {run : ActiveRun} {place : List Name}
    (hhas : fs.has place = true)
    (hgone : (reapOrphanedSnapshot fs tempDir left run).2.has place = false) :
    ∃ snapshotPath root, run.snapshotPath = some snapshotPath ∧
      reapableSnapshotRoot fs snapshotPath.toList tempDir = some root ∧ resolve root <+: place := by
  have hsame : ∀ {b : Bool}, ((b, fs) : Bool × FileSystem).2.has place = false → False := by
    intro b h
    rw [hhas] at h
    cases h
  unfold reapOrphanedSnapshot at hgone
  cases hpath : run.snapshotPath with
  | none =>
    rw [hpath] at hgone
    exact (hsame hgone).elim
  | some snapshotPath =>
    rw [hpath] at hgone
    simp only at hgone
    cases hroot : reapableSnapshotRoot fs snapshotPath.toList tempDir with
    | none =>
      rw [hroot] at hgone
      exact (hsame hgone).elim
    | some root =>
      rw [hroot] at hgone
      simp only at hgone
      cases hreach : fs.reach [] root with
      | none =>
        rw [hreach] at hgone
        exact (hsame hgone).elim
      | some target =>
        rw [hreach] at hgone
        simp only at hgone
        split at hgone
        · refine ⟨snapshotPath, root, rfl, hroot, ?_⟩
          rw [resolve, ← FileSystem.reach_eq_resolve hreach]
          by_contra hout
          have hpref : target.isPrefixOf place = false := by
            rw [← Bool.not_eq_true, isPrefixOf_iff_prefix]
            exact hout
          simp only [FileSystem.has, removeDirAll, hpref, Bool.not_false, Bool.true_or,
            Bool.and_true] at hgone hhas
          rw [hgone] at hhas
          cases hhas
        · exact (hsame hgone).elim

/-- **The reaper is confined exactly when the recorded path does not climb out of
the temporary directory by `..` components that were never resolved.** -/
theorem confined_iff (fs : FileSystem) (snapshotPath : String) (tempDir : List Name) :
    Confined fs snapshotPath tempDir ↔ ¬ Climbs fs snapshotPath tempDir := by
  constructor
  · intro h hclimbs
    have hne : writtenRoot snapshotPath ≠ [] := by
      intro hnil
      have hin := hclimbs.inside
      have hstrict := hclimbs.strict
      rw [hnil] at hin hstrict
      exact hstrict (List.prefix_nil.1 hin).symm
    have hroot : reapableSnapshotRoot fs snapshotPath.toList tempDir =
        some (writtenRoot snapshotPath) :=
      reapable_eq_some.2 ⟨hclimbs.absolute, hne, (writtenRoot_eq hclimbs.absent).symm,
        hclimbs.inside, hclimbs.strict⟩
    have hreapable := h.root _ hroot
    exact hclimbs.outside ⟨hreapable.1, hreapable.2.1⟩
  · intro h
    refine ⟨fun root hroot => reapable_of_not_climbs h hroot, ?_⟩
    intro run left place hpath hhas hgone
    obtain ⟨path, root, hpath', hroot, hunder⟩ := removed_under_root hhas hgone
    rw [hpath] at hpath'
    cases hpath'
    exact ⟨resolve root, reapable_of_not_climbs h hroot, hunder⟩

/-- The directories `/tmp/x` and `/home/ztw-snap-a`. -/
def demoFileSystem : FileSystem where
  isDir place := place ∈ [[], ["tmp".toList], ["tmp".toList, "x".toList], ["home".toList],
    ["home".toList, "ztw-snap-a".toList]]
  isFile _ := false

/-- The record of a run with this snapshot path. -/
def snapshotRun (snapshotPath : String) : ActiveRun where
  runId := "run-1"
  pid := none
  producerPid := none
  producerStartTime := none
  pidStartTime := none
  pgid := none
  snapshotPath := some snapshotPath
  startedAt := none
  lastProgress := none
  deadline := none
  wallClockBudgetSeconds := none

/-- The record has the directory under `/home` removed. -/
theorem climbing_path_escapes :
    ¬ Confined demoFileSystem "/tmp/x/../../home/ztw-snap-a/gone" ["tmp".toList] ∧
      demoFileSystem.isDir ["home".toList, "ztw-snap-a".toList] = true ∧
      (reapOrphanedSnapshot demoFileSystem ["tmp".toList] none
        (snapshotRun "/tmp/x/../../home/ztw-snap-a/gone")).2.has
          ["home".toList, "ztw-snap-a".toList] = false := by
  have hgone : (reapOrphanedSnapshot demoFileSystem ["tmp".toList] none
      (snapshotRun "/tmp/x/../../home/ztw-snap-a/gone")).2.has
        ["home".toList, "ztw-snap-a".toList] = false := by decide
  refine ⟨fun h => ?_, by decide, hgone⟩
  obtain ⟨tree, ⟨hin, -, -⟩, hunder⟩ := h.removal (snapshotRun _) none _ rfl (by decide) hgone
  have htemp : ¬ ["tmp".toList] <+: ["home".toList, "ztw-snap-a".toList] := by decide
  exact htemp (hin.trans hunder)

end Zicato.Watchdog
