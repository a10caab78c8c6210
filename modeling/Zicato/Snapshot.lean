import Zicato.Dict
import Zicato.PySort
import Zicato.Ledger

/-! # Generation snapshots

A generation's source tree as `mutation/policy.py` reads it.  The tree is kept
as the list of its nodes by relative path; `snapshot_scope.py` says which names
are never part of a generation, wherever in a path they stand. -/
namespace Zicato

/-- The parts of a `/`-separated path. -/
def pathParts (path : String) : List String :=
  (Lines.split '/' path.toList).map String.ofList

/-- `ARTIFACT_NAMES`. -/
def artifactNames : List String :=
  [".git", ".hg", ".ipynb_checkpoints", ".mypy_cache", ".pytest_cache", ".ruff_cache", ".tox",
    ".venv", ".zicato-scratch", "__pycache__", "node_modules", "output"]

/-- `ARTIFACT_SUFFIXES`. -/
def artifactSuffixes : List String := [".pyc", ".pyo", ".pyd"]

/-- `is_artifact` of a basename. -/
def isArtifact (name : String) : Bool :=
  artifactNames.contains name || artifactSuffixes.any (name.endsWith ·)

/-- A node that the walk below does not enter: some part of its path is an
artifact name. -/
def underArtifact (path : String) : Bool := (pathParts path).any isArtifact

/-- A node that is not a directory. -/
inductive Node
  | file (bytes : Bytes) (executable : Bool)
  /-- A symbolic link or a special file. -/
  | special
  /-- A node whose `lstat` or read fails. -/
  | unreadable (error : String)
  deriving DecidableEq

def Node.isFile : Node → Bool
  | .file _ _ => true
  | _ => false

/-- A source tree: its nodes by relative path. -/
structure Snapshot where
  nodes : Dict String Node
  nodup : (Dict.keys nodes).Nodup
  /-- The path exists below the root and does not resolve to a place outside. -/
  resolves : String → Bool

/-- Canonical file identity: relative path, bytes, and executable state. -/
structure SourceFile where
  path : String
  sha256 : String
  executable : Bool
  deriving DecidableEq, Repr

namespace Snapshot

/-- What a generation holds at a path: bytes and executable state. -/
def content (s : Snapshot) (path : String) : Option (Bytes × Bool) :=
  if underArtifact path then none
  else
    match s.nodes.get? path with
    | some (.file bytes executable) => some (bytes, executable)
    | _ => none

/-- `(root / path).read_bytes()`, empty where the walk lists no such file. -/
def readBytes (s : Snapshot) (path : String) : Bytes :=
  match s.content path with
  | some (bytes, _) => bytes
  | none => []

/-- The entry of a node that is not an artifact; anything but a regular file that
can be read is refused. -/
def sourceFile (sha256 : Bytes → String) (path : String) : Node → Except String SourceFile
  | .file bytes executable =>
      .ok { path := path, sha256 := sha256 bytes, executable := executable }
  | .special => .error s!"unsupported source file type: {path}"
  | .unreadable error => .error error

/-- The walk of `source_files` over the nodes in its order. -/
def visit (sha256 : Bytes → String) : List (String × Node) → Except String (List SourceFile)
  | [] => .ok []
  | e :: rest =>
      if underArtifact e.1 then visit sha256 rest
      else
        match sourceFile sha256 e.1 e.2, visit sha256 rest with
        | .error error, _ => .error error
        | .ok _, .error error => .error error
        | .ok f, .ok files => .ok (f :: files)

/-- `source_files`.  Every directory is visited in the order of its names, so the
whole walk is in the order of the parts of the paths. -/
def sourceFiles (sha256 : Bytes → String) (s : Snapshot) : Except String (List SourceFile) :=
  visit sha256 (sorted (fun a b => decide (pathParts a.1 < pathParts b.1)) s.nodes)

/-- `{entry.path: entry for entry in files}`. -/
def byPath (files : List SourceFile) : Dict String SourceFile := files.map fun f => (f.path, f)

/-! ## What the walk lists -/

variable {sha256 : Bytes → String}

variable {files : List SourceFile}

/-- The first node is an artifact and skipped, or a file and recorded. -/
theorem visit_cons_ok {e : String × Node} {rest : List (String × Node)}
    (h : visit sha256 (e :: rest) = .ok files) :
    (underArtifact e.1 = true ∧ visit sha256 rest = .ok files) ∨
      (underArtifact e.1 = false ∧ ∃ bytes executable files', e.2 = .file bytes executable ∧
        visit sha256 rest = .ok files' ∧
        files = { path := e.1, sha256 := sha256 bytes, executable := executable } :: files') := by
  rw [visit] at h
  split at h
  · exact Or.inl ⟨‹_›, h⟩
  · rename_i hart
    split at h
    · cases h
    · cases h
    · rename_i f files' hf hrest
      cases h
      refine Or.inr ⟨by simpa using hart, ?_⟩
      obtain ⟨path, node⟩ := e
      cases node with
      | file bytes executable =>
        cases hf
        exact ⟨bytes, executable, files', rfl, hrest, rfl⟩
      | special => cases hf
      | unreadable error => cases hf

/-- A snapshot lists the files that are no artifacts. -/
theorem mem_visit {nodes : List (String × Node)} (h : visit sha256 nodes = .ok files)
    (f : SourceFile) :
    f ∈ files ↔ underArtifact f.path = false ∧
      ∃ bytes, (f.path, Node.file bytes f.executable) ∈ nodes ∧ f.sha256 = sha256 bytes := by
  induction nodes generalizing files with
  | nil =>
    cases h
    simp
  | cons e rest ih =>
    obtain ⟨path, node⟩ := e
    rcases visit_cons_ok h with ⟨hart, hrest⟩ | ⟨hart, bytes, executable, files', hnode, hrest, rfl⟩
    · rw [ih hrest]
      refine and_congr_right fun hf => exists_congr fun bytes => ?_
      have hne : ¬ f.path = path := fun he => by simp_all
      simp [hne]
    · rw [List.mem_cons, ih hrest]
      constructor
      · rintro (rfl | ⟨hf, bytes', hmem, hsha⟩)
        · exact ⟨hart, bytes, by simp_all, rfl⟩
        · exact ⟨hf, bytes', List.mem_cons_of_mem _ hmem, hsha⟩
      · rintro ⟨hf, bytes', hmem, hsha⟩
        rcases List.mem_cons.mp hmem with heq | hmem
        · left
          cases f
          simp_all
        · exact Or.inr ⟨hf, bytes', hmem, hsha⟩

theorem visit_sublist {nodes : List (String × Node)} (h : visit sha256 nodes = .ok files) :
    (files.map (·.path)).Sublist (nodes.map Prod.fst) := by
  induction nodes generalizing files with
  | nil =>
    cases h
    exact .slnil
  | cons e rest ih =>
    rcases visit_cons_ok h with ⟨-, hrest⟩ | ⟨-, bytes, executable, files', -, hrest, rfl⟩
    · exact (ih hrest).cons e.1
    · exact (ih hrest).cons_cons e.1

/-- The listed entry of a path is the identity of the generation's content there. -/
theorem get?_sourceFiles {s : Snapshot} (h : sourceFiles sha256 s = .ok files) (path : String) :
    (byPath files).get? path =
      (s.content path).map fun c => { path := path, sha256 := sha256 c.1, executable := c.2 } := by
  have hkeys : Dict.keys (byPath files) = files.map (·.path) := by
    simp [byPath, Dict.keys, Function.comp_def]
  have hnodup : (Dict.keys (byPath files)).Nodup := by
    rw [hkeys]
    refine (visit_sublist h).nodup ?_
    exact ((sorted_perm _ s.nodes).map Prod.fst).nodup_iff.mpr s.nodup
  have hmem : ∀ f, (path, f) ∈ byPath files ↔ f ∈ files ∧ f.path = path := by
    intro f
    simp only [byPath, List.mem_map, Prod.mk.injEq]
    constructor
    · rintro ⟨f', hf', hpath, rfl⟩
      exact ⟨hf', hpath⟩
    · rintro ⟨hf, hpath⟩
      exact ⟨f, hf, hpath, rfl⟩
  apply Option.ext
  intro f
  rw [Dict.get?_eq_some_iff hnodup, hmem, mem_visit h, Option.map_eq_some_iff]
  simp only [mem_sorted, ← Dict.get?_eq_some_iff s.nodup, content]
  constructor
  · rintro ⟨⟨hart, bytes, hget, hsha⟩, rfl⟩
    refine ⟨(bytes, f.executable), by simp [hart, hget], ?_⟩
    rw [← hsha]
  · rintro ⟨⟨bytes, executable⟩, hcontent, rfl⟩
    split at hcontent
    · cases hcontent
    · rename_i hart
      split at hcontent
      · rename_i hget
        cases hcontent
        exact ⟨⟨by simpa using hart, bytes, hget, rfl⟩, rfl⟩
      · cases hcontent

end Snapshot
end Zicato
