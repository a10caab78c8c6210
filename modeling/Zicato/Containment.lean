import Zicato.PyExcept
import Zicato.Snapshot
import Zicato.Splice

/-! # Containment manifests

`epoch/containment.py`: the record of an accepted parent-to-child edit in byte
ranges, and its verifier.  The verifier trusts the recorded mutation intervals
once they agree with the policy retained before the proposal, and checks
everything else against the two source trees.

A field that the verifier tests with `type(value) is ...` is a `Raw` value here;
the others have the type their record declares.  SHA-256, `repr` and the parsing
of the two kinds of JSON record are the `Runtime`. -/
namespace Zicato.Containment

open Splice

/-- A decoded JSON value. -/
inductive Raw
  | null
  | bool (b : Bool)
  | int (n : Int)
  /-- A `float`, by its `repr`. -/
  | float (repr : String)
  | str (s : String)
  /-- A list or an object, by its text. -/
  | nested (text : String)
  deriving DecidableEq, Repr

namespace Raw

/-- `bool(value)`. -/
def truthy : Raw → Bool
  | null => false
  | bool b => b
  | int n => n != 0
  | float repr => repr != "0.0" && repr != "-0.0"
  | str s => s != ""
  | nested text => text != "[]" && text != "\x7b\x7d"

/-- The value, if `type(value) is int`. -/
def int? : Raw → Option Int
  | int n => some n
  | _ => none

/-- `isinstance(value, bool)`. -/
def isBool : Raw → Bool
  | bool _ => true
  | _ => false

/-- `a <= b`, which the verifier asks of integers only. -/
def le : Raw → Raw → Bool
  | int a, int b => decide (a ≤ b)
  | _, _ => false

/-- `a < b`, of integers only. -/
def lt : Raw → Raw → Bool
  | int a, int b => decide (a < b)
  | _, _ => false

end Raw

/-- `ByteChange`. -/
structure ByteChange where
  parentStart : Raw
  parentEnd : Raw
  childStart : Raw
  childEnd : Raw
  deriving DecidableEq, Repr

/-- `MutationSpan`. -/
structure MutationSpan where
  id : String
  kind : String
  op : String
  start : Raw
  stop : Raw
  sourceSha256 : String
  childStart : Raw
  childEnd : Raw
  childSourceSha256 : Option String
  contentHash : String
  metadata : List (List String)
  forbidden : Raw
  deriving DecidableEq, Repr

/-- `FileContainment`. -/
structure FileContainment where
  path : String
  parentSha256 : Option String
  childSha256 : Option String
  parentExecutable : Raw
  childExecutable : Raw
  spans : List MutationSpan
  changes : List ByteChange
  deriving DecidableEq, Repr

/-- `PatchBinding`. -/
structure PatchBinding where
  id : String
  sha256 : String
  deriving DecidableEq, Repr

/-- `ContainmentManifest`. -/
structure ContainmentManifest where
  epochId : String
  parentGenerationId : String
  generationId : String
  parentSource : String
  childSource : String
  patches : List PatchBinding
  files : List FileContainment
  policySha256 : String
  formatVersion : Raw := .int 1
  deriving DecidableEq, Repr

/-- The codes of a `ContainmentFinding`. -/
inductive FindingCode
  | manifestShape
  | manifestVersion
  | manifestCoordinates
  | manifestSource
  | sourceUnreadable
  | policyBinding
  | patchBinding
  | sourceInventory
  | mutationSnapshot
  | manifestPath
  | sourceBinding
  | fileSet
  | metadata
  | forbidden
  | byteCoverage
  | outsideMutation
  deriving DecidableEq, Repr

/-- `ContainmentFinding`. -/
structure ContainmentFinding where
  code : FindingCode
  path : String
  detail : String
  deriving DecidableEq, Repr

/-- The status of an attestation. -/
inductive Status
  | contained
  | violated
  | unverified
  deriving DecidableEq, Repr

/-- `RangeAttestation`. -/
structure RangeAttestation where
  status : Status
  findings : List ContainmentFinding := []
  deriving DecidableEq, Repr

/-- One mutation point of the retained policy: a span of the manifest without its
child coordinates, under its file. -/
structure PolicyPoint where
  path : String
  id : String
  kind : String
  op : String
  start : Raw
  stop : Raw
  sourceSha256 : String
  contentHash : String
  metadata : List (List String)
  forbidden : Raw
  deriving DecidableEq, Repr

/-- The retained policy record.  A field that has no such shape is `none`; for
the points it is the text of what sorting and comparing them raises. -/
structure PolicyBody where
  formatVersion : Raw
  epochId : Raw
  parentGenerationId : Raw
  parentSource : Raw
  sourceFiles : Option (List SourceFile)
  enumerationRoots : Option (List String)
  briefSha256 : Raw
  scoringSha256 : Raw
  points : Except String (List PolicyPoint)

/-- The fields of a patch record that the verifier reads; `none` is a missing key. -/
structure PatchBody where
  id : Option Raw
  mutationId : Option Raw
  op : Option Raw
  deriving DecidableEq, Repr

/-- The code the verifier calls. -/
structure Runtime where
  /-- `_hash`. -/
  sha256 : Bytes → String
  repr : String → String
  /-- `json.loads` of a policy record, which has exactly the expected fields. -/
  loadPolicy : Bytes → Except String PolicyBody
  /-- `json.loads` of a patch record, `none` when that or a lookup in it fails. -/
  loadPatch : Bytes → Option PatchBody

/-- The files of the workspace that the verifier reads besides the two trees. -/
structure Workspace where
  /-- `layout.mutation_policy(epoch_id, parent_generation_id, digest)`. -/
  mutationPolicy : String → String → String → Except String Bytes
  brief : String → Except String Bytes
  scoring : String → Except String Bytes

/-- The arguments of `verify_manifest`.  A location is the source directory
relative to the workspace root, if it lies inside. -/
structure Selection where
  workspace : Workspace
  parentRoot : Snapshot
  childRoot : Snapshot
  parentLocation : Option String
  childLocation : Option String
  epochId : String
  parentGenerationId : String
  generationId : String
  patchRecords : Dict String Bytes
  patchIds : List String

/-! ## The shape of a record -/

/-- A lower-case hexadecimal SHA-256. -/
def isDigest (value : String) : Bool :=
  value.length == 64 && value.toList.all ("0123456789abcdef".toList.contains ·)

/-- `safe_relative_path`. -/
def safeRelativePath (value : String) : Bool :=
  value != "" && !value.toList.contains '\\' && !value.toList.contains '\x00' &&
    !value.toList.head? == some '/' && (pathParts value).all (! ["", ".", ".."].contains ·)

/-- A side of a record: a file with hash and executable state, or none. -/
def validSide (hashed : Option String) (executable : Raw) : Bool :=
  match hashed with
  | none => executable == .null
  | some digest => isDigest digest && executable.isBool

/-- `_valid_fields`. -/
def validFields (manifest : ContainmentManifest) : Bool :=
  manifest.epochId != "" && manifest.parentGenerationId != "" && manifest.generationId != "" &&
    manifest.patches.all (fun patch => patch.id != "" && isDigest patch.sha256) &&
    manifest.files.all fun record =>
      safeRelativePath record.path && validSide record.parentSha256 record.parentExecutable &&
        validSide record.childSha256 record.childExecutable &&
        record.spans.all fun span =>
          span.id != "" && isDigest span.contentHash && span.metadata.all (·.length == 2)

/-! ## The retained policy -/

/-- The point of the policy that a recorded span must be. -/
def MutationSpan.policyPoint (path : String) (span : MutationSpan) : PolicyPoint where
  path := path
  id := span.id
  kind := span.kind
  op := span.op
  start := span.start
  stop := span.stop
  sourceSha256 := span.sourceSha256
  contentHash := span.contentHash
  metadata := span.metadata
  forbidden := span.forbidden

/-- The points a manifest claims. -/
def ContainmentManifest.points (manifest : ContainmentManifest) : List PolicyPoint :=
  manifest.files.flatMap fun record => record.spans.map (MutationSpan.policyPoint record.path)

/-- `<` on the key `(path, id, op)`. -/
def pointKeyLt (a b : PolicyPoint) : Bool :=
  thenLt (decide (a.path = b.path)) (decide (a.path < b.path)) <|
    thenLt (decide (a.id = b.id)) (decide (a.id < b.id)) (decide (a.op < b.op))

/-- `(parent / path).is_relative_to(parent / root)`. -/
def insideRoot (path root : String) : Bool :=
  root == "." || (pathParts root).isPrefixOf (pathParts path)

/-- Whether a recorded root can be an enumeration root of the parent. -/
def validRoot (parent : Snapshot) (path : String) : Bool :=
  (path == "." || safeRelativePath path) && parent.resolves path

/-- `_verify_policy`. -/
def verifyPolicy (rt : Runtime) (sel : Selection) (manifest : ContainmentManifest)
    (parentFiles : List SourceFile) : Except String Unit := do
  require (isDigest manifest.policySha256)
    "manifest has no valid retained mutation policy identity"
  let data ← sel.workspace.mutationPolicy manifest.epochId manifest.parentGenerationId
    manifest.policySha256
  require (rt.sha256 data == manifest.policySha256)
    "retained mutation policy differs from its content hash"
  let body ← rt.loadPolicy data
  require (body.formatVersion == .int 1) "retained mutation policy is malformed or unsupported"
  require (body.epochId == .str manifest.epochId &&
      body.parentGenerationId == .str manifest.parentGenerationId &&
      body.parentSource == .str manifest.parentSource)
    "retained mutation policy names a different parent"
  require (body.sourceFiles == some parentFiles)
    "retained mutation policy names different source bytes or executable state"
  let roots := body.enumerationRoots.getD []
  require (!roots.isEmpty && roots.all (validRoot sel.parentRoot))
    "retained mutation policy has invalid enumeration roots"
  let brief ← sel.workspace.brief manifest.epochId
  require (body.briefSha256 == .str (rt.sha256 brief))
    "retained mutation policy differs from frozen contract inputs"
  let scoring ← sel.workspace.scoring manifest.epochId
  require (body.scoringSha256 == .str (rt.sha256 scoring))
    "retained mutation policy differs from frozen contract inputs"
  let points ← body.points
  require (sorted pointKeyLt points == sorted pointKeyLt manifest.points)
    "manifest permissions differ from the retained mutation policy"
  require (points.all fun point => roots.any (insideRoot point.path))
    "retained mutation points escape the selected enumeration roots"

/-! ## The walk over one file -/

/-- `_within`. -/
def within (change : ByteChange) (span : MutationSpan) : Bool :=
  span.start.le change.parentStart && change.parentStart.le change.parentEnd &&
    change.parentEnd.le span.stop && span.childStart != .null && span.childEnd != .null &&
    span.childStart.le change.childStart && change.childStart.le change.childEnd &&
    change.childEnd.le span.childEnd

/-- `_overlaps`. -/
def overlaps (change : ByteChange) (span : MutationSpan) : Bool :=
  if change.parentStart = change.parentEnd then
    (span.start.lt change.parentStart && change.parentStart.lt span.stop) ||
      (span.start == span.stop && span.stop == change.parentStart)
  else change.parentStart.lt span.stop && span.start.lt change.parentEnd

/-- The two ends of a range of `bytes`, if they are integers inside it. -/
def bounds? (bytes : Bytes) (start stop : Raw) : Option (Nat × Nat) :=
  match start.int?, stop.int? with
  | some a, some b =>
      if 0 ≤ a ∧ a ≤ b ∧ b ≤ bytes.length then some (a.toNat, b.toNat) else none
  | _, _ => none

/-- A range of `bytes` that carries the hash recorded for it. -/
def hashedRange (rt : Runtime) (bytes : Bytes) (start stop : Raw) (sha256 : String) : Bool :=
  match bounds? bytes start stop with
  | some (a, b) => rt.sha256 (slice bytes a b) == sha256
  | none => false

/-- The child side of a span: none at all, or a range with its hash. -/
def validChild (rt : Runtime) (after : Bytes) (span : MutationSpan) : Bool :=
  match span.childSourceSha256 with
  | none => span.childStart == .null && span.childEnd == .null
  | some sha256 => hashedRange rt after span.childStart span.childEnd sha256

/-- What a recorded span has to be for the files it is in. -/
def validSpan (rt : Runtime) (before after : Bytes) (operationIds : List (String × String))
    (span : MutationSpan) : Bool :=
  !operationIds.contains (span.id, span.op) &&
    ["replace", "set_numeric", "set_enum"].contains span.op && span.id != "" &&
    ["span", "file", "code"].contains span.kind && span.forbidden.isBool &&
    hashedRange rt before span.start span.stop span.sourceSha256 && validChild rt after span

/-- The finding for a span that is not valid. -/
def spanFinding (path : String) : ContainmentFinding :=
  ⟨.mutationSnapshot, path, "invalid, repeated, or mismatched mutation span"⟩

/-- The findings of the spans of a file, each checked against the ids before it. -/
def spanFindings (rt : Runtime) (path : String) (before after : Bytes) :
    List (String × String) → List MutationSpan → List ContainmentFinding
  | _, [] => []
  | ids, span :: rest =>
      (if validSpan rt before after ids span then [] else [spanFinding path]) ++
        spanFindings rt path before after (ids ++ [(span.id, span.op)]) rest

/-- The four coordinates of a change that follows the offsets inside both files. -/
def hunk? (before after : Bytes) (parentOffset childOffset : Nat) (change : ByteChange) :
    Option Hunk :=
  match change.parentStart.int?, change.parentEnd.int?, change.childStart.int?,
      change.childEnd.int? with
  | some a, some b, some c, some d =>
      if (parentOffset : Int) ≤ a ∧ a ≤ b ∧ b ≤ before.length ∧ (childOffset : Int) ≤ c ∧ c ≤ d ∧
          d ≤ after.length then some ⟨a.toNat, b.toNat, c.toNat, d.toNat⟩
      else none
  | _, _, _, _ => none

/-- What one change inside the files is reported for. -/
def changeFindings (path : String) (before after : Bytes) (spans : List MutationSpan)
    (parentOffset childOffset : Nat) (change : ByteChange) (hunk : Hunk) :
    List ContainmentFinding :=
  (if slice before parentOffset hunk.start ≠ slice after childOffset hunk.otherStart then
    [⟨.byteCoverage, path, "unrecorded source bytes changed"⟩] else []) ++
  (if !spans.any (fun span => !span.forbidden.truthy && within change span) then
    [⟨.outsideMutation, path, "changed bytes are outside allowed mutation units"⟩] else []) ++
  (if spans.any (fun span => span.forbidden.truthy && overlaps change span) then
    [⟨.forbidden, path, "changed bytes overlap a forbidden mutation unit"⟩] else [])

/-- The finding for a change behind the last recorded one. -/
def suffixFindings (path : String) (before after : Bytes) (parentOffset childOffset : Nat) :
    List ContainmentFinding :=
  if before.drop parentOffset ≠ after.drop childOffset then
    [⟨.byteCoverage, path, "unrecorded source suffix changed"⟩] else []

/-- The walk over the changes of a file, to its end or to the first change whose
coordinates are wrong; then the suffix behind it. -/
def walkChanges (path : String) (before after : Bytes) (spans : List MutationSpan) :
    Nat → Nat → List ByteChange → List ContainmentFinding
  | parentOffset, childOffset, [] => suffixFindings path before after parentOffset childOffset
  | parentOffset, childOffset, change :: rest =>
      match hunk? before after parentOffset childOffset change with
      | none =>
          ⟨.byteCoverage, path, "invalid or overlapping change coordinates"⟩ ::
            suffixFindings path before after parentOffset childOffset
      | some hunk =>
          changeFindings path before after spans parentOffset childOffset change hunk ++
            walkChanges path before after spans hunk.stop hunk.otherStop rest

/-- The two inventories, by path. -/
structure Inventories where
  left : Dict String SourceFile
  right : Dict String SourceFile

/-- What the trees hold at a record's path is what the record says. -/
def observed (inv : Inventories) (record : FileContainment) : Bool :=
  (inv.left.get? record.path).map (·.sha256) == record.parentSha256 &&
    (inv.right.get? record.path).map (·.sha256) == record.childSha256 &&
    ((inv.left.get? record.path).elim Raw.null fun f => .bool f.executable) ==
      record.parentExecutable &&
    ((inv.right.get? record.path).elim Raw.null fun f => .bool f.executable) ==
      record.childExecutable

/-- A record whose spans and changes the verifier looks at. -/
def bound (inv : Inventories) (record : FileContainment) : Bool :=
  safeRelativePath record.path && observed inv record

/-- What the verifier reports for the spans and changes of a record. -/
def rangeFindings (rt : Runtime) (before after : Bytes) (ids : List (String × String))
    (record : FileContainment) : List ContainmentFinding :=
  match spanFindings rt record.path before after ids record.spans with
  | [] =>
      (if record.spans.any fun span =>
          span.forbidden.truthy && some span.sourceSha256 != span.childSourceSha256 then
        [⟨.forbidden, record.path, "a forbidden mutation unit's bytes changed"⟩] else []) ++
      walkChanges record.path before after record.spans 0 0 record.changes
  | findings => findings

/-- What the verifier reports for one record, given the operation ids before it. -/
def fileFindings (rt : Runtime) (sel : Selection) (inv : Inventories)
    (ids : List (String × String)) (record : FileContainment) : List ContainmentFinding :=
  if !safeRelativePath record.path then
    [⟨.manifestPath, record.path, "invalid source path"⟩]
  else if !observed inv record then
    [⟨.sourceBinding, record.path, "observed source hashes or executable state differ"⟩]
  else
    (if (inv.left.get? record.path).isNone || (inv.right.get? record.path).isNone then
      [⟨.fileSet, record.path, "patches do not authorize file creation or deletion"⟩] else []) ++
    (if record.parentExecutable ≠ record.childExecutable then
      [⟨.metadata, record.path, "patches do not authorize executable state changes"⟩] else []) ++
    rangeFindings rt (sel.parentRoot.readBytes record.path) (sel.childRoot.readBytes record.path)
      ids record

/-- The loop over the records: the findings and the operation ids so far. -/
structure Walk where
  findings : List ContainmentFinding := []
  operationIds : List (String × String) := []
  childOperationIds : List (String × String) := []

/-- One record of the manifest. -/
def Walk.step (rt : Runtime) (sel : Selection) (inv : Inventories) (walk : Walk)
    (record : FileContainment) : Walk where
  findings := walk.findings ++ fileFindings rt sel inv walk.operationIds record
  operationIds :=
    if bound inv record then
      walk.operationIds ++ record.spans.map fun span => (span.id, span.op)
    else walk.operationIds
  childOperationIds :=
    if bound inv record then
      walk.childOperationIds ++
        (record.spans.filter (·.childStart != .null)).map fun span => (span.id, span.op)
    else walk.childOperationIds

/-! ## The attestation -/

/-- The patch records and the patches the manifest binds. -/
def patchFindings (rt : Runtime) (sel : Selection) (manifest : ContainmentManifest) :
    List ContainmentFinding :=
  (if manifest.patches.map (·.id) ≠ sel.patchIds ∨ ¬ sel.patchIds.Nodup then
    [⟨.patchBinding, "", "patch identities differ from the experiment"⟩] else []) ++
  manifest.patches.flatMap fun patch =>
    if (sel.patchRecords.get? patch.id).map rt.sha256 = some patch.sha256 then []
    else [⟨.patchBinding, "", s!"patch record {rt.repr patch.id} differs from the manifest"⟩]

/-- `recorded != left.keys() | right.keys()`, or a path recorded twice. -/
def inventoryFindings (inv : Inventories) (manifest : ContainmentManifest) :
    List ContainmentFinding :=
  let recorded := manifest.files.map (·.path)
  if recorded.Nodup ∧ (∀ path ∈ recorded, path ∈ inv.left.keys ++ inv.right.keys) ∧
      ∀ path ∈ inv.left.keys ++ inv.right.keys, path ∈ recorded then []
  else [⟨.sourceInventory, "", "manifest does not cover the complete observed file inventory"⟩]

/-- A manifest must bind patches and spans. -/
def snapshotFindings (manifest : ContainmentManifest) : List ContainmentFinding :=
  if manifest.patches.isEmpty || !manifest.files.any (!·.spans.isEmpty) then
    [⟨.mutationSnapshot, "", "accepted patches and their mutation snapshot are required"⟩] else []

/-- The finding for a patch that cannot be read. -/
def malformedPatch : ContainmentFinding :=
  ⟨.patchBinding, "", "patch record is missing or malformed"⟩

/-- The finding for a patch without a span. -/
def unresolvedPatch : ContainmentFinding :=
  ⟨.patchBinding, "", "patch does not resolve against the mutation snapshot"⟩

/-- The operation a patch record names, if both values can be in a set of ids. -/
def PatchBody.operation (body : PatchBody) : Except ContainmentFinding (String × String) :=
  match body.mutationId, body.op with
  | some (.str mutationId), some (.str op) => .ok (mutationId, op)
  | none, _ => .error malformedPatch
  | _, none => .error malformedPatch
  | some (.nested _), _ => .error malformedPatch
  | _, some (.nested _) => .error malformedPatch
  | _, _ => .error unresolvedPatch

/-- What the verifier reports for one patch record. -/
def patchOperationFindings (rt : Runtime) (sel : Selection) (walk : Walk)
    (forbiddenIds : List String) (patch : PatchBinding) : List ContainmentFinding :=
  match (sel.patchRecords.get? patch.id).bind rt.loadPatch with
  | none => [malformedPatch]
  | some body =>
      match body.id with
      | none => [malformedPatch]
      | some id =>
          if id ≠ .str patch.id then [unresolvedPatch]
          else
            match body.operation with
            | .error finding => [finding]
            | .ok operation =>
                if !walk.operationIds.contains operation then [unresolvedPatch]
                else if !walk.childOperationIds.contains operation then
                  [⟨.mutationSnapshot, "", "patched operation no longer resolves in the child"⟩]
                else if forbiddenIds.contains operation.1 then
                  [⟨.forbidden, "", "patch targets a forbidden mutation unit"⟩]
                else []

/-- The codes that a sound record may carry when an edit left its bounds. -/
def violations : List FindingCode := [.outsideMutation, .forbidden, .metadata, .fileSet]

/-- The status of a list of findings. -/
def attestation (findings : List ContainmentFinding) : RangeAttestation where
  status :=
    if findings.isEmpty then .contained
    else if findings.all (violations.contains ·.code) then .violated else .unverified
  findings := findings

/-- A finding that ends the verification. -/
def refuse (code : FindingCode) (detail : String) : RangeAttestation :=
  { status := .unverified, findings := [⟨code, "", detail⟩] }

/-- The findings once both trees have been listed. -/
def sourceFindings (rt : Runtime) (sel : Selection) (manifest : ContainmentManifest)
    (left right : List SourceFile) : List ContainmentFinding :=
  let inv : Inventories := ⟨Snapshot.byPath left, Snapshot.byPath right⟩
  let forbiddenIds := manifest.files.flatMap fun record =>
    (record.spans.filter (·.forbidden.truthy)).map (·.id)
  let walk := manifest.files.foldl (Walk.step rt sel inv) {}
  (match verifyPolicy rt sel manifest left with
    | .ok () => []
    | .error error => [⟨.policyBinding, "", error⟩]) ++
  patchFindings rt sel manifest ++ inventoryFindings inv manifest ++ snapshotFindings manifest ++
  walk.findings ++
  manifest.patches.flatMap (patchOperationFindings rt sel walk forbiddenIds)

/-- `verify_manifest`. -/
def verifyManifest (rt : Runtime) (sel : Selection) (manifest : ContainmentManifest) :
    RangeAttestation :=
  if !validFields manifest then refuse .manifestShape "invalid record fields"
  else if manifest.formatVersion ≠ .int 1 then refuse .manifestVersion "unsupported version"
  else if (manifest.epochId, manifest.parentGenerationId, manifest.generationId) ≠
      (sel.epochId, sel.parentGenerationId, sel.generationId) then
    refuse .manifestCoordinates "manifest does not name the selected parent and child"
  else if !(safeRelativePath manifest.parentSource && safeRelativePath manifest.childSource) then
    refuse .manifestSource "source locations must be relative paths inside the workspace"
  else if (sel.parentLocation, sel.childLocation) ≠
      (some manifest.parentSource, some manifest.childSource) then
    refuse .manifestSource "manifest source locations differ from the selected generation store"
  else
    match sel.parentRoot.sourceFiles rt.sha256, sel.childRoot.sourceFiles rt.sha256 with
    | .error error, _ => refuse .sourceUnreadable error
    | .ok _, .error error => refuse .sourceUnreadable error
    | .ok left, .ok right => attestation (sourceFindings rt sel manifest left right)

end Zicato.Containment
