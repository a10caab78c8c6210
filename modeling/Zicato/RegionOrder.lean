import Zicato.RegionPatches

/-! # The order of two region patches

Two patches on regions of one text file go either way round, and each leaves the
rest of the file alone, as long as neither makes the file one that the next
enumeration passes over. -/
open List
namespace Zicato.Mutation

open Text

section Properties

variable (py : Python) (surface : Surface) (roots : List String) (tree : Snapshot)

/-- Both orders end, and with the same tree. -/
def Commute (a b : Patch) : Prop :=
  ∃ final, applyPatchesIntoTree py surface roots tree [a, b] = (final, .ok ()) ∧
    applyPatchesIntoTree py surface roots tree [b, a] = (final, .ok ())

/-- The regions of the tree with other ids: file, id and body. -/
def others (id : String) : List (String × String × Text) :=
  ((enumerateMutations py surface tree roots).filterMap MutationPoint.part).filter (·.2.1 != id)

/-- The lines outside the region are the same, in the bytes and for the scan. -/
def LinesKept (p : MutationPoint) (text new : Text) : Prop :=
  (∃ middle, new = ((splitLinesKeep text).take (p.lineStart - 1)).flatten ++ middle ++
      ((splitLinesKeep text).drop p.lineEnd).flatten) ∧
    ∃ middle, scanLines new = (scanLines text).take (p.lineStart - 1) ++ middle ++
      (scanLines text).drop p.lineEnd

/-- The patch changes lines of its region alone, and every other region keeps its id
and its body. -/
def Local (patch : Patch) (p : MutationPoint) : Prop :=
  ∃ tree' text new, applyPatch py surface roots tree patch = .ok tree' ∧
    readSource tree p.file = .ok text ∧ readSource tree' p.file = .ok new ∧
    LinesKept p text new ∧
    (others py surface roots tree' p.id).Perm (others py surface roots tree p.id)

/-- The new content makes no sentinel and no file that is too long. -/
def KeepsFile (grammar : MarkerSyntax) (text : Text) (p : MutationPoint) (content : Text) : Prop :=
  Harmless py grammar (splitLinesKeep text) (p.lineStart - 2) (p.lineEnd + 1 - p.lineStart) content

end Properties

variable {py : Python} {surface : Surface} {roots : List String} {tree : Snapshot} {path : String}
  {grammar : MarkerSyntax} {text : Text}

theorem Commute.symm {a b : Patch} (h : Commute py surface roots tree a b) :
    Commute py surface roots tree b a := by
  obtain ⟨final, hab, hba⟩ := h
  exact ⟨final, hba, hab⟩

variable {above : Nat} {parsed : ParsedMarker} {body : List Text}

theorem keepsFile_iff {p : MutationPoint} (hat : p.At above parsed body) (content : Text) :
    KeepsFile py grammar text p content ↔
      Harmless py grammar (splitLinesKeep text) above body.length content := by
  have habove : p.lineStart - 2 = above := by
    rw [hat.lineStart]
    omega
  have hlength : p.lineEnd + 1 - p.lineStart = body.length := by
    rw [hat.lineEnd, hat.lineStart]
    omega
  rw [KeepsFile, habove, hlength]

/-- A patch set of two goes through both steps. -/
theorem applyPatchesIntoTree_pair {a b : Patch} {middle final : Snapshot}
    (ha : applyPatch py surface roots tree a = .ok middle)
    (hb : applyPatch py surface roots middle b = .ok final) :
    applyPatchesIntoTree py surface roots tree [a, b] = (final, .ok ()) := by
  rw [applyPatchesIntoTree, ha]
  dsimp only
  rw [applyPatchesIntoTree, hb]
  rfl

/-- A patch on one region, and where it was found. -/
structure OnRegion (py : Python) (surface : Surface) (roots : List String) (tree : Snapshot)
    (path : String) (patch : Patch) (p : MutationPoint) (content : Text) : Prop where
  target : pointOf (enumerateMutations py surface tree roots) patch.mutationId = some p
  kind : p.kind = .code
  file : p.file = path
  op : patch.op = .replace
  content : patch.newContent = some content
  unique : ((enumerateMutations py surface tree roots).map (·.id)).count patch.mutationId ≤ 1

variable {a b patch : Patch} {p q : MutationPoint} {content content' : Text}

section
variable (h : OnRegion py surface roots tree path patch p content)
include h

theorem OnRegion.mem : p ∈ enumerateMutations py surface tree roots:= (pointOf_some h.target).1

theorem OnRegion.id : p.id = patch.mutationId:= (pointOf_some h.target).2

theorem OnRegion.apply (htext : SurfaceText surface tree path grammar text)
    (hat : p.At above parsed body) : applyPatch py surface roots tree patch =
      .ok (writeFile tree path (encode (rewriteText grammar text above body.length content))) :=
  htext.applyPatch h.target h.op h.content h.file hat

end

/-! ## Locality -/

/-- Writing the file with a harmless rewriting keeps the other regions of the tree. -/
theorem others_written (htext : SurfaceText surface tree path grammar text)
    (haside : surface.Aside tree roots path) {new : Text} {id : String}
    (hparts : ∀ file sourceRoot,
      ((enumerateFile py file sourceRoot grammar (encode new)).filterMap
          MutationPoint.part).filter (·.2.1 != id) =
        ((enumerateFile py file sourceRoot grammar (encode text)).filterMap
          MutationPoint.part).filter (·.2.1 != id)) :
    (others py surface roots (writeFile tree path (encode new)) id).Perm
      (others py surface roots tree id) := by
  have hmanifest : ∀ tree', (surface.manifestPoints tree' roots).filterMap MutationPoint.part = [] := by
    intro tree'
    refine filterMap_eq_nil_iff.mpr fun p hp => ?_
    rw [MutationPoint.part, haside.spans tree' p hp]
    rfl
  have hexpand : ∀ tree', (others py surface roots tree' id).Perm
      ((scans surface.table tree' roots).flatMap fun s =>
        ((s.points py).filterMap MutationPoint.part).filter (·.2.1 != id)) := by
    intro tree'
    refine (((enumerateMutations_perm py surface tree' roots).filterMap _).filter _).trans ?_
    rw [filterMap_append, hmanifest, append_nil, filterMap_flatMap, filter_flatMap]
  refine (hexpand _).trans (Perm.trans (Perm.of_eq ?_) (hexpand tree).symm)
  rw [scans_writeFile, flatMap_map]
  refine flatMap_congr fun s hs => ?_
  rw [Scan.write]
  by_cases hpath : s.path = path
  · obtain ⟨hgrammar, hbytes⟩ := htext.scan hs hpath
    rw [if_pos hpath, Scan.points, Scan.points, hgrammar, hbytes]
    exact hparts s.path s.sourceRoot
  · rw [if_neg hpath]

/-- A harmless patch is local. -/
theorem local_of_keepsFile (htext : SurfaceText surface tree path grammar text)
    (haside : surface.Aside tree roots path)
    (hpatch : OnRegion py surface roots tree path patch p content)
    (hkeeps : KeepsFile py grammar text p content) : Local py surface roots tree patch p := by
  obtain ⟨ds, hwalk⟩ := exists_walk grammar 0 (scanLines text)
  obtain ⟨hsize, hgraded, above, parsed, body, hmem, hat⟩ :=
    htext.found haside hpatch.mem hpatch.kind hpatch.file hwalk
  obtain ⟨pre, post, rfl⟩ := append_of_mem hmem
  rw [keepsFile_iff hat] at hkeeps
  obtain ⟨kept, -, -, hrewritten, -⟩ :=
    enumerateFile_rewritten htext.notPython hgraded hwalk hkeeps
  have hstart : p.lineStart - 1 = above + 1 := by
    rw [hat.lineStart]
    omega
  refine ⟨_, text, rewriteText grammar text above body.length content, hpatch.apply htext hat, ?_, ?_,
    ⟨?_, kept, ?_⟩, ?_⟩
  · rw [hpatch.file]
    exact htext.readSource
  · rw [hpatch.file]
    exact (htext.write _).readSource
  · rw [hstart, hat.lineEnd]
    exact ⟨_, rfl⟩
  · rw [hstart, hat.lineEnd]
    exact hrewritten.lines
  · rw [hat.id]
    exact others_written htext haside
      (other_parts htext.notPython hsize hgraded hwalk hkeeps)

/-! ## Either way round -/

/-- After a harmless rewriting of one region another one is found where it is. -/
theorem OnRegion.found_after (hpatch : OnRegion py surface roots tree path patch p content)
    (htext : SurfaceText surface tree path grammar text) (haside : surface.Aside tree roots path)
    (hsize : (encode text).length ≤ maxTextFileBytes)
    (hgraded : gradedLines py.isWord grammar (scanLines text) = false) {pre post : List Declared}
    (hwalk : Walk grammar 0 (scanLines text) (pre ++ .region above parsed body :: post))
    (hbody : body ≠ [])
    (hharmless : Harmless py grammar (splitLinesKeep text) above body.length content')
    {ds : List Declared} (hpoints : ∀ file sourceRoot, enumerateFile py file sourceRoot grammar
        (encode (rewriteText grammar text above body.length content')) =
      ds.filterMap (·.point py (textFile file sourceRoot grammar (universalNewlines
        (rewriteText grammar text above body.length content'))))) {above' : Nat}
    {parsed' : ParsedMarker} {body' : List Text} (hmem : .region above' parsed' body' ∈ ds)
    (hbody' : body' ≠ []) (hid : p.id = parsed'.id) :
    applyPatch py surface roots
        (writeFile tree path (encode (rewriteText grammar text above body.length content'))) patch =
      .ok (writeFile tree path (encode (rewriteText grammar
        (rewriteText grammar text above body.length content') above' body'.length content))) := by
  obtain ⟨s, hs, hpath, -⟩ := exists_scan haside hpatch.mem hpatch.kind hpatch.file
  have hunique := hpatch.unique
  rw [← hpatch.id, hid] at hunique
  obtain ⟨q, hq, hqfile, hat⟩ := htext.pointOf_written haside hpoints hmem hbody'
    (fun file sourceRoot => count_ids_le htext.notPython hsize hgraded hwalk hbody hharmless
      file sourceRoot parsed'.id) hunique hs hpath
  rw [← hid, hpatch.id] at hq
  rw [(htext.write _).applyPatch hq hpatch.op hpatch.content hqfile hat, writeFile_writeFile]

section
variable (htext : SurfaceText surface tree path grammar text)
  (haside : surface.Aside tree roots path) (ha : OnRegion py surface roots tree path a p content)
  (hb : OnRegion py surface roots tree path b q content')
include htext haside ha hb

/-- Two harmless patches commute, the one on the upper region first. -/
theorem commute_of_above (hsize : (encode text).length ≤ maxTextFileBytes)
    (hgraded : gradedLines py.isWord grammar (scanLines text) = false)
    {pre mid post : List Declared} {above' : Nat} {parsed' : ParsedMarker} {body' : List Text}
    (hwalk : Walk grammar 0 (scanLines text)
      (pre ++ .region above parsed body :: (mid ++ .region above' parsed' body' :: post)))
    (hp : p.At above parsed body) (hq : q.At above' parsed' body')
    (hakeeps : KeepsFile py grammar text p content)
    (hbkeeps : KeepsFile py grammar text q content') : Commute py surface roots tree a b := by
  rw [keepsFile_iff hp] at hakeeps
  rw [keepsFile_iff hq] at hbkeeps
  obtain ⟨kept, base, hbase, hrewritten, -, hpoints⟩ :=
    enumerateFile_rewritten htext.notPython hgraded hwalk hakeeps
  -- the lower region moves by the lines that the upper one gained or lost
  have hlower : Declared.region (above' - body.length + kept.length) parsed' body' ∈
      pre ++ .region above parsed kept :: base.map (·.lower (above + kept.length + 2)) := by
    have hmem : Declared.region above' parsed' body' ∈
        base.map (·.lower (above + body.length + 2)) := by
      rw [← hbase]
      simp
    obtain ⟨d, hd, heq⟩ := mem_map.mp hmem
    cases d with
    | file other => cases heq
    | region x other lines =>
      simp only [Declared.lower, Declared.region.injEq] at heq
      obtain ⟨hx, rfl, rfl⟩ := heq
      refine mem_append_right _ (mem_cons_of_mem _ (mem_map.mpr ⟨_, hd, ?_⟩))
      simp only [Declared.lower, Declared.region.injEq, and_true]
      omega
  have hwalk' : Walk grammar 0 (scanLines text)
      ((pre ++ .region above parsed body :: mid) ++ .region above' parsed' body' :: post) := by
    rw [List.append_assoc, cons_append]
    exact hwalk
  obtain ⟨kept', base', -, -, -, hpoints'⟩ :=
    enumerateFile_rewritten htext.notPython hgraded hwalk' hbkeeps
  have hupper : Declared.region above parsed body ∈ (pre ++ .region above parsed body :: mid) ++
      .region above' parsed' kept' :: base'.map (·.lower (above' + kept'.length + 2)) := by simp
  obtain ⟨-, hcomm⟩ := @rewriteText_comm _ _ _ _ content' _ _ _ _ _ _ _ _ _ _ hwalk hrewritten
  refine ⟨_, applyPatchesIntoTree_pair (ha.apply htext hp)
    (hb.found_after htext haside hsize hgraded hwalk hp.body hakeeps hpoints hlower hq.body hq.id), ?_⟩
  rw [hcomm]
  exact applyPatchesIntoTree_pair (hb.apply htext hq)
    (ha.found_after htext haside hsize hgraded hwalk' hq.body hbkeeps hpoints' hupper hp.body hp.id)

/-- After a rewriting that is not harmless no other region is found. -/
theorem not_commute (hkeeps : ¬ KeepsFile py grammar text p content) : ¬ Commute py surface roots tree a b := by
  rintro ⟨final, hab, -⟩
  obtain ⟨ds, hwalk⟩ := exists_walk grammar 0 (scanLines text)
  obtain ⟨-, hgraded, above, parsed, body, hmem, hat⟩ :=
    htext.found haside ha.mem ha.kind ha.file hwalk
  obtain ⟨pre, post, rfl⟩ := append_of_mem hmem
  rw [keepsFile_iff hat] at hkeeps
  obtain ⟨s, hs, hpath, hqs⟩ := exists_scan haside hb.mem hb.kind hb.file
  have hunique := hb.unique
  rw [← hb.id] at hunique
  have hzero := htext.count_written_zero haside
    (enumerateFile_harmed htext.notPython hgraded hwalk hkeeps) hs hpath hqs hunique
  rw [hb.id] at hzero
  rw [applyPatchesIntoTree, ha.apply htext hat] at hab
  dsimp only at hab
  have hfails : applyPatch py surface roots
      (writeFile tree path (encode (rewriteText grammar text above body.length content))) b =
        .error (.valueError
          s!"Patch {py.repr b.id}: mutation_id {py.repr b.mutationId} not found in target_root") := by
    simp only [applyPatch, patchedFile, hb.op, hb.content, Patch.require, Patch.point,
      pointOf_eq_none hzero, ok_bind]
    rfl
  rw [applyPatchesIntoTree, hfails] at hab
  cases hab

end

/-- **When the patches of two regions are local and commute**: exactly if the content of
each keeps the file. -/
theorem region_patches_commute_iff (py : Python) (surface : Surface) (roots : List String)
    (tree : Snapshot) (path : String) (grammar : MarkerSyntax) (text : Text) (a b : Patch)
    (p q : MutationPoint) (content content' : Text)
    (htext : SurfaceText surface tree path grammar text) (haside : surface.Aside tree roots path)
    -- `validate_patches` has accepted the two targets
    (hunique : ambiguousTargets [a, b] (enumerateMutations py surface tree roots) = [])
    (ha : pointOf (enumerateMutations py surface tree roots) a.mutationId = some p)
    (hb : pointOf (enumerateMutations py surface tree roots) b.mutationId = some q)
    (hp : p.kind = .code ∧ p.file = path) (hq : q.kind = .code ∧ q.file = path) (hne : p ≠ q)
    (hacontent : a.op = .replace ∧ a.newContent = some content)
    (hbcontent : b.op = .replace ∧ b.newContent = some content') :
    (Commute py surface roots tree a b ∧ Local py surface roots tree a p ∧
        Local py surface roots tree b q) ↔
      KeepsFile py grammar text p content ∧ KeepsFile py grammar text q content' := by
  have hona : OnRegion py surface roots tree path a p content :=
    ⟨ha, hp.1, hp.2, hacontent.1, hacontent.2, count_le_of_unambiguous hunique (by simp)⟩
  have honb : OnRegion py surface roots tree path b q content' :=
    ⟨hb, hq.1, hq.2, hbcontent.1, hbcontent.2, count_le_of_unambiguous hunique (by simp)⟩
  constructor
  · rintro ⟨hcommute, -, -⟩
    constructor
    · by_contra hkeeps
      exact not_commute htext haside hona honb hkeeps hcommute
    · by_contra hkeeps
      exact not_commute htext haside honb hona hkeeps hcommute.symm
  · rintro ⟨hakeeps, hbkeeps⟩
    refine ⟨?_, local_of_keepsFile htext haside hona hakeeps, local_of_keepsFile htext haside honb hbkeeps⟩
    obtain ⟨ds, hwalk⟩ := exists_walk grammar 0 (scanLines text)
    obtain ⟨hsize, hgraded, above, parsed, body, hmem, hat⟩ :=
      htext.found haside hona.mem hp.1 hp.2 hwalk
    obtain ⟨-, -, above', parsed', body', hmem', hat'⟩ :=
      htext.found haside honb.mem hq.1 hq.2 hwalk
    -- the ids tell the regions apart
    have hids : a.mutationId ≠ b.mutationId := by
      intro hid
      rw [hid, hb] at ha
      exact hne (Option.some.inj ha).symm
    have hparsed : parsed' ≠ parsed := by
      rintro rfl
      exact hids (by rw [← hona.id, ← honb.id, hat.id, hat'.id])
    obtain ⟨pre, post, rfl⟩ := List.append_of_mem hmem
    rcases List.mem_append.mp hmem' with hbefore | hafter
    · obtain ⟨first, mid, rfl⟩ := List.append_of_mem hbefore
      rw [List.append_assoc, List.cons_append] at hwalk
      exact (commute_of_above htext haside honb hona hsize hgraded hwalk hat' hat hbkeeps hakeeps).symm
    · rcases List.mem_cons.mp hafter with heq | hafter
      · cases heq
        exact absurd rfl hparsed
      · obtain ⟨mid, last, rfl⟩ := List.append_of_mem hafter
        exact commute_of_above htext haside hona honb hsize hgraded hwalk hat hat' hakeeps hbkeeps

/-! ### A sentinel among the new lines -/

/-- A file of two regions. -/
def regionFile : Text := List.flatMap String.toList
  ["# zicato:mutable:code id=\"limits\"\n", "limit = 1\n", "# zicato:mutable:end\n",
    "# zicato:mutable:code id=\"style\"\n", "style = \"plain\"\n", "# zicato:mutable:end\n"]

/-- A tree with one configuration file. -/
def regionTree : Snapshot where
  nodes := [("agent.cfg", .file (encode regionFile) false)]
  nodup := by simp [Dict.keys]
  resolves path := path == "." || path == "agent.cfg"

/-- A contract that declares the suffix. -/
def regionSurface : Surface where
  table := [(pythonSuffix, pythonSyntax), (".cfg", { suffix := ".cfg", leaders := ["#"] })]
  manifestPoints _ _ := []

/-- The digests of their bodies. -/
def regionPython : Python where
  sha256 data :=
    if data = utf8 "limit = 1\n" then
      "60d1ff31afd06761b3bea9d55dd21960329fcc734e7a63ddccf96f5280d3ef1a"
    else if data = utf8 "style = \"plain\"\n" then
      "8784557bdce76824ec33ee2927fdfe2e534be6cb95872a96318ec2ed4c3d48a8"
    else ""
  parse _ := .error "invalid syntax"
  isStringExpression _ := false
  reprStr s := '\'' :: s ++ ['\'']
  isWord c := c.isAlphanum || c == '_'

/-- A replacement of a region. -/
def regionPatch (mutationId content : String) : Patch :=
  { id := mutationId, mutationId := mutationId, op := .replace, newContent := some content.toList }

/-- The point of a region of one line. -/
def regionPoint (id : String) (line : Nat) (content hash : String) : MutationPoint where
  id := id
  kind := .code
  file := "agent.cfg"
  sourceRoot := "."
  lineStart := line
  lineEnd := line
  content := content.toList
  contentHash := hash
  metadata := []

/-- The first region. -/
def limitsPoint : MutationPoint := regionPoint "limits" 2 "limit = 1\n"
  "60d1ff31afd06761b3bea9d55dd21960329fcc734e7a63ddccf96f5280d3ef1a"

/-- The second region. -/
def stylePoint : MutationPoint := regionPoint "style" 5 "style = \"plain\"\n"
  "8784557bdce76824ec33ee2927fdfe2e534be6cb95872a96318ec2ed4c3d48a8"

theorem enumerate_regions :
    enumerateMutations regionPython regionSurface regionTree ["."] = [limitsPoint, stylePoint] := by
  have hall : (["."].filter regionTree.resolves).flatMap
      (enumerateRoot regionPython regionSurface.table regionTree) ++
        regionSurface.manifestPoints regionTree ["."] = [limitsPoint, stylePoint] := by decide +kernel
  rw [enumerateMutations, hall]
  exact sorted_of_pairwise (by decide)

theorem find_limits : pointOf (enumerateMutations regionPython regionSurface regionTree ["."])
    "limits" = some limitsPoint := by
  rw [enumerate_regions]
  rfl

theorem find_style : pointOf (enumerateMutations regionPython regionSurface regionTree ["."])
    "style" = some stylePoint := by
  rw [enumerate_regions]
  rfl

theorem region_text : SurfaceText regionSurface regionTree "agent.cfg"
    { suffix := ".cfg", leaders := ["#"] } regionFile where
  syntaxOf := rfl
  notPython := by decide
  suffix := by decide +kernel
  node := ⟨false, rfl⟩

theorem region_aside : regionSurface.Aside regionTree ["."] "agent.cfg" where
  spans _ p hp := by cases hp
  ids _ := rfl

theorem region_unambiguous (content content' : String) :
    ambiguousTargets [regionPatch "limits" content, regionPatch "style" content']
      (enumerateMutations regionPython regionSurface regionTree ["."]) = [] := by
  rw [enumerate_regions]
  exact (by decide +kernel : ambiguousTargets [regionPatch "limits" "", regionPatch "style" ""]
    [limitsPoint, stylePoint] = [])

/-- The line is kept, the file is passed over from then on, and the other patch
finds no region. -/
theorem sentinel_hides_region :
    validatePatches regionPython
        [regionPatch "limits" "limit = 2\n# zicato:grading\n", regionPatch "style" "style = 1\n"]
        (enumerateMutations regionPython regionSurface regionTree ["."]) = [] ∧
      ¬ Commute regionPython regionSurface ["."] regionTree
        (regionPatch "limits" "limit = 2\n# zicato:grading\n") (regionPatch "style" "style = 1\n") := by
  constructor
  · rw [enumerate_regions]
    decide +kernel
  · have hunique := region_unambiguous "limit = 2\n# zicato:grading\n" "style = 1\n"
    refine not_commute region_text region_aside
      ⟨find_limits, rfl, rfl, rfl, rfl, count_le_of_unambiguous hunique (by simp)⟩
      ⟨find_style, rfl, rfl, rfl, rfl, count_le_of_unambiguous hunique (by simp)⟩ ?_
    rintro ⟨hkept, -⟩
    exact absurd (hkept "# zicato:grading".toList (by decide +kernel)) (by decide +kernel)

theorem region_patches_commute_iff_limits :
    Commute regionPython regionSurface ["."] regionTree (regionPatch "limits" "limit = 2\n")
        (regionPatch "style" "style = 1\n") ∧
      Local regionPython regionSurface ["."] regionTree (regionPatch "limits" "limit = 2\n")
        limitsPoint ∧
      Local regionPython regionSurface ["."] regionTree (regionPatch "style" "style = 1\n")
        stylePoint := by
  refine (region_patches_commute_iff regionPython regionSurface ["."] regionTree "agent.cfg" _
    regionFile (regionPatch "limits" "limit = 2\n") (regionPatch "style" "style = 1\n") limitsPoint
    stylePoint _ _ region_text region_aside (region_unambiguous _ _) find_limits find_style
    ⟨rfl, rfl⟩ ⟨rfl, rfl⟩ (by decide) ⟨rfl, rfl⟩ ⟨rfl, rfl⟩).mpr ⟨⟨?_, ?_⟩, ⟨?_, ?_⟩⟩
  · decide +kernel
  · decide +kernel
  · decide +kernel
  · decide +kernel

end Zicato.Mutation
