import Zicato.Snapshot

/-! # The two generation stores

`seed_generation`, `derive_generation`, `list_tree` and `read_file` of `DirectoryGenerationStore`
(`epoch/genstore.py`) and of `GitGenerationStore` (`epoch/git_genstore.py`).  Names are byte
strings, as the file system has them; a tree is the list of its regular files, and the order in
which a store lists them is left out. -/
namespace Zicato.GenerationStores

/-- A generation: its epoch and its id. -/
abbrev Key := String × String

/-! ## Trees -/

/-- A name as bytes. -/
def utf8 (s : String) : Bytes := s.toUTF8.data.toList

/-- The name of an entry of a directory. -/
structure Name where
  bytes : Bytes
  nonempty : bytes ≠ []
  slash : (47 : UInt8) ∉ bytes
  dots : bytes ≠ [46, 46]
  deriving DecidableEq

/-- The path of a file below the root of a tree. -/
structure Path where
  dirs : List Name
  name : Name
  deriving DecidableEq

namespace Path

/-- The components of a path. -/
def parts (path : Path) : List Name := path.dirs ++ [path.name]

/-- The parts joined with `/`. -/
def text (path : Path) : Bytes := [47].intercalate (path.parts.map Name.bytes)

/-- The path of a file of a directory that is copied under a name. -/
def under (name : Name) (path : Path) : Path := ⟨name :: path.dirs, path.name⟩

end Path

/-- A regular file: its bytes, and whether its owner and anyone else may execute it. -/
structure File where
  bytes : Bytes
  owner : Bool
  others : Bool
  deriving DecidableEq

/-- The files of a tree. -/
abbrev Tree := List (Path × File)

/-- `is_artifact`. -/
def isArtifact (name : Bytes) : Bool :=
  (artifactNames.map utf8).contains name || (artifactSuffixes.map utf8).any (·.isSuffixOf name)

/-- `copytree_ignore` keeps the name. -/
def Name.kept (name : Name) : Bool := !isArtifact name.bytes

/-- `shutil.copytree(..., ignore=copytree_ignore())`. -/
def copytree (tree : Tree) : Tree := tree.filter fun e => e.1.parts.all Name.kept

/-- The name git reads its ignore rules from. -/
def GITIGNORE : Name := ⟨utf8 ".gitignore", by decide, by decide, by decide⟩

/-- `is_generation_source_path`. -/
def isGenerationSourcePath (path : Bytes) : Bool :=
  path != GITIGNORE.bytes && !(path.splitOn 47).any isArtifact

/-! ## Seed sources -/

/-- What stands at the path of a source. -/
inductive Content
  | missing
  /-- Neither a file nor a directory. -/
  | other
  | file (file : File)
  | dir (tree : Tree)

/-- A source of a seed. -/
structure Source where
  name : Name
  content : Content

/-- `validated_seed_sources`, after the names of the sources before. -/
def validatedSeedSources (excludedNames : List Bytes) (names : List Bytes) :
    List Source → Option (List Source)
  | [] => some []
  | source :: rest =>
      if source.name.bytes ∈ excludedNames then validatedSeedSources excludedNames names rest
      else
        match source.content with
        | .missing | .other => none
        | _ =>
            if source.name.bytes ∈ names then none
            else (validatedSeedSources excludedNames (source.name.bytes :: names) rest).map
              (source :: ·)

/-- What `prepare_seed_sources` copies of a source. -/
def Source.prepared (source : Source) : Tree :=
  match source.content with
  | .file file => [(⟨[], source.name⟩, file)]
  | .dir tree => (copytree tree).map fun e => (e.1.under source.name, e.2)
  | _ => []

/-- `prepare_seed_sources`. -/
def prepareSeedSources (sources : List Source) : Tree := sources.flatMap Source.prepared

/-! ## Patches -/

/-- What the checks and the edits of a patch set come to. -/
inductive Edits
  /-- The files that are rewritten. -/
  | applied (files : List (Path × Bytes))
  /-- A `ValueError`: the copy is removed. -/
  | refused
  /-- Any other exception: the copy stays, with these files rewritten. -/
  | raised (files : List (Path × Bytes))

/-- What the stores use of the applier and of git; `P` is a patch set. -/
structure Interp (P : Type) where
  /-- `validate_patches` and `apply_patches_unchecked`, on the source files of the copy. -/
  edits : List (Path × Bytes) → P → Edits
  /-- Some `.gitignore` file of the tree excludes the path. -/
  excluded : Tree → Path → Bool

/-- The bytes of the source files. -/
def sourceBytes (tree : Tree) : List (Path × Bytes) :=
  (tree.filter fun e => isGenerationSourcePath e.1.text).map fun e => (e.1, e.2.bytes)

/-- Patches write files that exist, and leave the permission to execute alone. -/
def rewrite (files : List (Path × Bytes)) (tree : Tree) : Tree :=
  tree.map fun e => (e.1, { e.2 with bytes := (files.lookup e.1).getD e.2.bytes })

/-- What applying the patches to a tree ends in. -/
inductive Applied
  | applied (tree : Tree)
  | refused
  | raised (left : Tree)

variable {P : Type}

/-- `apply_patches`. -/
def Interp.applyPatches (it : Interp P) (source : Tree) (patches : P) : Applied :=
  match it.edits (sourceBytes (copytree source)) patches with
  | .applied files => .applied (rewrite files (copytree source))
  | .refused => .refused
  | .raised files => .raised (rewrite files (copytree source))

/-- A call of a store. -/
inductive Call (P : Type)
  | seed (key : Key) (sources : List Source)
  | derive (epoch parent child : String) (patches : P)

/-- A file of a tree that is listed. -/
structure Entry where
  path : Bytes
  size : Nat
  executable : Bool
  deriving DecidableEq

/-! ## The directory store -/

/-- The files of `DirectoryGenerationStore`. -/
structure Directory where
  /-- The files of the directories `snapshot/`. -/
  snapshots : Key → Option Tree
  /-- The directories of the generations that exist. -/
  dirs : Key → Bool

namespace Directory

/-- The tree of a generation written. -/
def set (d : Directory) (key : Key) (tree : Option Tree) : Directory where
  snapshots k := if k = key then tree else d.snapshots k
  dirs k := if k = key then true else d.dirs k

/-- A call, and whether it returns. -/
def call (it : Interp P) (d : Directory) : Call P → Directory × Bool
  | .seed key sources =>
      match validatedSeedSources [] [] sources with
      | none => (d, false)
      | some resolved =>
          if d.dirs key then (d, false) else (d.set key (some (prepareSeedSources resolved)), true)
  | .derive epoch parent child patches =>
      if d.snapshots (epoch, parent) = none then (d, false)
      else
        -- The child is removed first; the parent with it where it is the child.
        match (d.set (epoch, child) none).snapshots (epoch, parent) with
        | none => (d.set (epoch, child) none, false)
        | some source =>
            match it.applyPatches source patches with
            | .applied tree => (d.set (epoch, child) (some tree), true)
            | .refused => (d.set (epoch, child) none, false)
            | .raised left => (d.set (epoch, child) (some left), false)

/-- The file entries of `list_tree`. -/
def listTree (d : Directory) (key : Key) : Option (List Entry) := do
  let tree ← d.snapshots key
  some ((tree.filter fun e => isGenerationSourcePath e.1.text).map fun e =>
    ⟨e.1.text, e.2.bytes.length, e.2.owner || e.2.others⟩)

/-- `read_file`, at the path of a file entry. -/
def readFile (d : Directory) (key : Key) (relPath : Bytes) : Option Bytes := do
  let tree ← d.snapshots key
  let e ← tree.find? fun e => e.1.text = relPath
  some e.2.bytes

end Directory

/-! ## The git store -/

/-- `gitignore_lines`. -/
def gitignoreLines : List String :=
  ["# zicato: generation snapshots are code-only — see snapshot_scope.py"] ++ artifactNames ++
    artifactSuffixes.map ("*" ++ ·)

/-- The `.gitignore` of the repository. -/
def gitignore : File := ⟨utf8 ("\n".intercalate gitignoreLines ++ "\n"), false, false⟩

/-- `_replace_working_tree`: the top is copied as it is, its directories are filtered. -/
def replaceWorkingTree (newTree : Tree) : Tree :=
  let copied := newTree.filter fun e => e.1.parts.tail.all Name.kept
  if copied.any fun e => e.1.parts.head? = some GITIGNORE then copied
  else copied ++ [(⟨[], GITIGNORE⟩, gitignore)]

/-- `_stage_working_tree` and `_commit`: git keeps the owner's permission to execute. -/
def commitTree (it : Interp P) (working : Tree) : Tree :=
  (working.filter fun e => !it.excluded working e.1).map fun e =>
    (e.1, { e.2 with others := e.2.owner })

/-- The trees of the tagged commits.  No call makes the directory of a generation, where records
go. -/
structure Git where
  tags : Key → Option Tree

/-- The text of a command's output: `\r\n` and `\r` are read as `\n`. -/
def universalNewlines : Bytes → Bytes
  | 13 :: 10 :: rest => 10 :: universalNewlines rest
  | 13 :: rest => 10 :: universalNewlines rest
  | b :: rest => b :: universalNewlines rest
  | [] => []

/-- `str.strip("/")`. -/
def stripSlashes (path : Bytes) : Bytes := (path.dropWhile (· = 47)).rdropWhile (· = 47)

namespace Git

/-- `GIT_ADMIN_BASENAMES`. -/
def GIT_ADMIN_BASENAMES : List Bytes := [utf8 ".git", utf8 ".gitignore"]

/-- The commit of a generation tagged. -/
def tag (g : Git) (key : Key) (tree : Tree) : Git where
  tags k := if k = key then some tree else g.tags k

/-- A call, and whether it returns. -/
def call (it : Interp P) (g : Git) : Call P → Git × Bool
  | .seed key sources =>
      match validatedSeedSources GIT_ADMIN_BASENAMES [] sources with
      | none => (g, false)
      | some resolved =>
          if (g.tags key).isSome then (g, false)
          else
            (g.tag key (commitTree it (replaceWorkingTree (prepareSeedSources resolved))), true)
  | .derive epoch parent child patches =>
      match g.tags (epoch, parent) with
      | none => (g, false)
      | some source =>
          match it.applyPatches source patches with
          | .applied tree => (g.tag (epoch, child) (commitTree it (replaceWorkingTree tree)), true)
          | .refused | .raised _ => (g, false)

/-- The file entries of `list_tree`; the output of `git ls-tree` is decoded strictly. -/
def listTree (g : Git) (key : Key) : Option (List Entry) := do
  let tree ← g.tags key
  if tree.all fun e => (ByteArray.mk e.1.text.toArray).validateUTF8 then
    some ((tree.filter fun e => isGenerationSourcePath (universalNewlines e.1.text)).map fun e =>
      ⟨universalNewlines e.1.text, e.2.bytes.length, e.2.owner⟩)
  else none

/-- `read_file`. -/
def readFile (g : Git) (key : Key) (relPath : Bytes) : Option Bytes := do
  let tree ← g.tags key
  let norm := stripSlashes (relPath.map fun b => if b = 92 then 47 else b)
  if norm = [] ∨ [46, 46] ∈ norm.splitOn 47 then none
  else
    let e ← tree.find? fun e => e.1.text = norm
    some e.2.bytes

end Git

end Zicato.GenerationStores
