import Mathlib.Data.Bool.AllAny
import Zicato.GenerationStores

/-! # The two generation stores agree

Over every sequence of calls that keeps clear of what the two stores treat differently, they accept
the same calls and show the same files. -/
open List
namespace Zicato.GenerationStores

variable {P : Type}

/-! ## Paths -/

namespace Path

variable (path : Path)

theorem parts_ne_nil : path.parts.map Name.bytes ≠ [] := by simp [parts]

theorem slash_notMem : ∀ part ∈ path.parts.map Name.bytes, (47 : UInt8) ∉ part := by
  intro part hpart
  obtain ⟨name, -, rfl⟩ := mem_map.mp hpart
  exact name.slash

/-- The parts of a path are read back from its text. -/
theorem splitOn_text : path.text.splitOn 47 = path.parts.map Name.bytes :=
  splitOn_intercalate _ path.slash_notMem path.parts_ne_nil

/-- Different paths have different texts. -/
theorem text_injective {path path' : Path} (h : path.text = path'.text) : path = path' := by
  have hparts : path.parts.map Name.bytes = path'.parts.map Name.bytes := by
    rw [← splitOn_text, ← splitOn_text, h]
  have hinj : Function.Injective Name.bytes := by
    rintro ⟨a, _, _, _⟩ ⟨b, _, _, _⟩ rfl
    rfl
  have hnames : path.parts = path'.parts := map_injective_iff.mpr hinj hparts
  obtain ⟨hdirs, hname⟩ := append_inj' hnames rfl
  obtain ⟨dirs, name⟩ := path
  obtain ⟨dirs', name'⟩ := path'
  cases hdirs
  cases hname
  rfl

theorem text_nil (name : Name) : text ⟨[], name⟩ = name.bytes := by
  simp [text, parts, intercalate]

theorem text_cons (dir : Name) (dirs : List Name) (name : Name) :
    text ⟨dir :: dirs, name⟩ = dir.bytes ++ 47 :: text ⟨dirs, name⟩ := by
  have hparts := parts_ne_nil ⟨dirs, name⟩
  rw [parts] at hparts
  simp only [text, parts, cons_append, map_cons]
  cases h : (dirs ++ [name]).map Name.bytes with
  | nil => exact absurd h hparts
  | cons part rest => simp [intercalate]

/-- A path neither starts nor ends with a slash. -/
theorem stripSlashes_text : stripSlashes path.text = path.text := by
  have hhead : ∀ name : Name, ∀ rest : Bytes,
      (name.bytes ++ rest).dropWhile (· = 47) = name.bytes ++ rest := by
    intro name rest
    obtain ⟨bytes, hne, hslash, _⟩ := name
    cases bytes with
    | nil => exact absurd rfl hne
    | cons b bytes =>
      have hb : b ≠ 47 := fun h => hslash (h ▸ mem_cons_self)
      simp [hb]
  have hlast : ∃ rest : Bytes, path.text = rest ++ path.name.bytes := by
    obtain ⟨dirs, name⟩ := path
    induction dirs with
    | nil => exact ⟨[], text_nil name⟩
    | cons dir dirs ih =>
      obtain ⟨rest, hrest⟩ := ih
      exact ⟨dir.bytes ++ 47 :: rest, by rw [text_cons, hrest]; simp⟩
  have hdrop : path.text.dropWhile (· = 47) = path.text := by
    obtain ⟨dirs, name⟩ := path
    cases dirs with
    | nil => simpa [text_nil] using hhead name []
    | cons dir dirs => rw [text_cons, hhead]
  rw [stripSlashes, hdrop, rdropWhile_eq_self_iff]
  intro hne
  obtain ⟨rest, hrest⟩ := hlast
  have hmem : path.text.getLast hne ∈ path.name.bytes := by
    simp only [hrest]
    rw [getLast_append_of_ne_nil _ path.name.nonempty]
    exact getLast_mem path.name.nonempty
  have hslash : path.text.getLast hne ≠ 47 := by
    intro h
    exact path.name.slash (h ▸ hmem)
  simpa using hslash

/-- A path is source unless it is the repository's `.gitignore` or some part is an artifact. -/
theorem isGenerationSourcePath_text :
    isGenerationSourcePath path.text = (path.text != GITIGNORE.bytes && path.parts.all Name.kept) := by
  rw [isGenerationSourcePath, splitOn_text]
  congr 1
  rw [any_map, ← Bool.not_not (path.parts.all Name.kept), not_all_eq_any_not]
  congr 2
  funext name
  simp [Name.kept]

end Path

/-! ## What a store shows -/

/-- A source file, as a store shows it. -/
structure Shown where
  path : Path
  bytes : Bytes
  executable : Bool
  deriving DecidableEq

/-- The source files of a tree. -/
def view (tree : Tree) : List Shown :=
  (tree.filter fun e => isGenerationSourcePath e.1.text).map fun e =>
    ⟨e.1, e.2.bytes, e.2.owner || e.2.others⟩

/-- The path reads the same in the output of git and in a command line. -/
structure Path.Plain (path : Path) : Prop where
  decodes : (ByteArray.mk path.text.toArray).validateUTF8 = true
  returns : (13 : UInt8) ∉ path.text
  backslash : (92 : UInt8) ∉ path.text

/-- Git excludes what the copies exclude. -/
def Admitted (it : Interp P) (working : Tree) : Prop :=
  ∀ e ∈ working, it.excluded working e.1 = !e.1.parts.all Name.kept

/-! ## Copies, patches and commits -/

variable {it : Interp P} {tree tree' working : Tree}

theorem kept_of_source {path : Path} (h : isGenerationSourcePath path.text = true) :
    path.parts.all Name.kept = true := by
  rw [path.isGenerationSourcePath_text, Bool.and_eq_true] at h
  exact h.2

theorem view_filter {keep : Path × File → Bool}
    (h : ∀ e ∈ tree, isGenerationSourcePath e.1.text = true → keep e = true) :
    view (tree.filter keep) = view tree := by
  rw [view, view, filter_filter]
  congr 1
  refine filter_congr fun e he => ?_
  cases hs : isGenerationSourcePath e.1.text with
  | false => rfl
  | true => rw [h e he hs, Bool.and_true]

theorem view_copytree (tree : Tree) : view (copytree tree) = view tree :=
  view_filter fun _ _ hs => kept_of_source hs

theorem sourceBytes_eq (tree : Tree) :
    sourceBytes tree = (view tree).map fun s => (s.path, s.bytes) := by
  rw [sourceBytes, view, map_map]
  rfl

theorem view_rewrite (files : List (Path × Bytes)) (tree : Tree) :
    view (rewrite files tree) =
      (view tree).map fun s => { s with bytes := (files.lookup s.path).getD s.bytes } := by
  simp only [view, rewrite, filter_map, map_map]
  rfl

theorem view_append (tree tree' : Tree) : view (tree ++ tree') = view tree ++ view tree' := by
  rw [view, filter_append, map_append]
  rfl

/-- The path of the repository's `.gitignore`. -/
def ignorePath : Path := ⟨[], GITIGNORE⟩

theorem ignorePath_notSource : isGenerationSourcePath ignorePath.text = false := by
  rw [Path.isGenerationSourcePath_text, ignorePath, Path.text_nil]
  simp

theorem view_replaceWorkingTree (tree : Tree) : view (replaceWorkingTree tree) = view tree := by
  have hcopied : view (tree.filter fun e => e.1.parts.tail.all Name.kept) = view tree := by
    refine view_filter fun e _ hs => all_eq_true.mpr fun name hname => ?_
    exact all_eq_true.mp (kept_of_source hs) name (mem_of_mem_tail hname)
  rw [replaceWorkingTree]
  split
  · exact hcopied
  · have hignore : view [(ignorePath, gitignore)] = [] := by
      simp [view, ignorePath_notSource]
    rw [view_append, hcopied]
    exact (congrArg _ hignore).trans (append_nil _)

/-- A commit shows what its working tree shows. -/
theorem view_commitTree (hadmitted : Admitted it working)
    (howned : ∀ e ∈ working, isGenerationSourcePath e.1.text = true → e.2.others = true →
      e.2.owner = true) : view (commitTree it working) = view working := by
  have hfilter : view (working.filter fun e => !it.excluded working e.1) = view working :=
    view_filter fun e he hs => by rw [hadmitted e he, kept_of_source hs]; rfl
  rw [← hfilter, commitTree, view, view, filter_map, map_map]
  refine map_congr_left fun e he => ?_
  obtain ⟨he, hs⟩ := mem_filter.mp he
  have howner := howned e (mem_of_mem_filter he) hs
  obtain ⟨path, bytes, owner, others⟩ := e
  cases owner <;> cases others <;> simp_all

/-- Who may execute a committed file is its owner. -/
theorem others_of_mem_commitTree {e : Path × File} (h : e ∈ commitTree it working) :
    e.2.others = e.2.owner := by
  obtain ⟨e', -, rfl⟩ := mem_map.mp h
  rfl

/-- The `.gitignore` is the only file of a working tree that git keeps and the stores hide. -/
theorem source_of_mem_commitTree (hadmitted : Admitted it working) {e : Path × File}
    (h : e ∈ commitTree it working) :
    (∃ e' ∈ working, e'.1 = e.1) ∧
      (isGenerationSourcePath e.1.text = true ∨ e.1 = ignorePath) := by
  obtain ⟨e', he', rfl⟩ := mem_map.mp h
  obtain ⟨hmem, hkeep⟩ := mem_filter.mp he'
  refine ⟨⟨e', hmem, rfl⟩, ?_⟩
  have hkept : e'.1.parts.all Name.kept = true := by simpa [hadmitted e' hmem] using hkeep
  by_cases htext : e'.1.text = GITIGNORE.bytes
  · refine .inr (Path.text_injective (htext.trans ?_))
    exact (Path.text_nil _).symm
  · refine .inl ?_
    rw [Path.isGenerationSourcePath_text, hkept]
    simpa using htext

/-! ## Calls -/

/-- The stores show the same, and git's commits are read back as they were made. -/
structure Agree (d : Directory) (g : Git) : Prop where
  views : ∀ key, (d.snapshots key).map view = (g.tags key).map view
  dirs : ∀ key, (d.snapshots key).isSome → d.dirs key = true
  plain : ∀ key tree, g.tags key = some tree → ∀ e ∈ tree, e.1.Plain
  owned : ∀ key tree, g.tags key = some tree → ∀ e ∈ tree, e.2.others = e.2.owner

/-- A call keeps clear of what the stores treat differently. -/
def Orderly (it : Interp P) (d : Directory) (g : Git) : Call P → Prop
  | .seed key sources =>
      (∀ source ∈ sources, source.name.bytes ∉ Git.GIT_ADMIN_BASENAMES) ∧
      ∀ resolved, validatedSeedSources [] [] sources = some resolved →
        if d.dirs key then (d.snapshots key).isSome
        else
          (∀ e ∈ prepareSeedSources resolved, isGenerationSourcePath e.1.text = true →
            e.1.Plain ∧ (e.2.others = true → e.2.owner = true)) ∧
          Admitted it (replaceWorkingTree (prepareSeedSources resolved))
  | .derive epoch parent child patches =>
      ∀ source, g.tags (epoch, parent) = some source →
        parent ≠ child ∧
        match it.applyPatches source patches with
        | .applied tree => Admitted it (replaceWorkingTree tree)
        | .refused => d.snapshots (epoch, child) = none
        | .raised _ => False

section Calls

variable {d : Directory} {g : Git}

theorem Agree.isSome_iff (h : Agree d g) (key : Key) :
    (d.snapshots key).isSome = (g.tags key).isSome := by
  have hviews := congrArg Option.isSome (h.views key)
  simpa using hviews

/-- A generation that both stores have made. -/
theorem Agree.made (h : Agree d g) {key : Key} (hview : view tree = view tree')
    (hplain : ∀ e ∈ tree', e.1.Plain) (howned : ∀ e ∈ tree', e.2.others = e.2.owner) :
    Agree (d.set key (some tree)) (g.tag key tree') where
  views k := by
    simp only [Directory.set, Git.tag]
    split
    · exact congrArg some hview
    · exact h.views k
  dirs k hk := by
    simp only [Directory.set] at hk ⊢
    split at hk
    · rename_i heq
      rw [if_pos heq]
    · rename_i hne
      rw [if_neg hne]
      exact h.dirs k hk
  plain k tree₀ htag := by
    simp only [Git.tag] at htag
    split at htag
    · cases htag
      exact hplain
    · exact h.plain k tree₀ htag
  owned k tree₀ htag := by
    simp only [Git.tag] at htag
    split at htag
    · cases htag
      exact howned
    · exact h.owned k tree₀ htag

/-- A generation that neither store has, after a refusal. -/
theorem Agree.refused (h : Agree d g) {key : Key} (hnone : d.snapshots key = none) :
    Agree (d.set key none) g where
  views k := by
    simp only [Directory.set]
    split
    · rename_i heq
      rw [← h.views k, heq, hnone]
    · exact h.views k
  dirs k hk := by
    simp only [Directory.set] at hk ⊢
    split at hk
    · cases hk
    · rename_i hne
      rw [if_neg hne]
      exact h.dirs k hk
  plain := h.plain
  owned := h.owned

/-- No source is left out where none is named like git's own files. -/
theorem validatedSeedSources_excluded {excludedNames : List Bytes} {sources : List Source}
    (h : ∀ source ∈ sources, source.name.bytes ∉ excludedNames) (names : List Bytes) :
    validatedSeedSources excludedNames names sources = validatedSeedSources [] names sources := by
  induction sources generalizing names with
  | nil => rfl
  | cons source rest ih =>
    obtain ⟨hsource, hrest⟩ := forall_mem_cons.mp h
    rw [validatedSeedSources, validatedSeedSources, if_neg hsource, if_neg not_mem_nil]
    simp only [ih hrest]

theorem ignorePath_plain : ignorePath.Plain where
  decodes := by decide
  returns := by decide
  backslash := by decide

/-- The paths of a commit are plain where those of its source files are. -/
theorem plain_of_mem_commitTree (hadmitted : Admitted it (replaceWorkingTree tree))
    (hplain : ∀ e ∈ tree, isGenerationSourcePath e.1.text = true → e.1.Plain)
    {e : Path × File} (he : e ∈ commitTree it (replaceWorkingTree tree)) : e.1.Plain := by
  obtain ⟨⟨e', he', hpath⟩, hsource | heq⟩ := source_of_mem_commitTree hadmitted he
  · have hmem : e' ∈ tree := by
      rw [replaceWorkingTree] at he'
      split at he'
      · exact mem_of_mem_filter he'
      · rcases mem_append.mp he' with hcopied | hignore
        · exact mem_of_mem_filter hcopied
        · rw [mem_singleton.mp hignore] at hpath
          rw [← hpath] at hsource
          cases hsource.symm.trans ignorePath_notSource
    rw [← hpath]
    exact hplain e' hmem (hpath ▸ hsource)
  · exact heq ▸ ignorePath_plain

/-- A replaced tree keeps the owner's bits. -/
theorem owned_replaceWorkingTree
    (h : ∀ e ∈ tree, isGenerationSourcePath e.1.text = true → e.2.others = true →
      e.2.owner = true) :
    ∀ e ∈ replaceWorkingTree tree, isGenerationSourcePath e.1.text = true → e.2.others = true →
      e.2.owner = true := by
  intro e he hs
  rw [replaceWorkingTree] at he
  split at he
  · exact h e (mem_of_mem_filter he) hs
  · rcases mem_append.mp he with hcopied | hignore
    · exact h e (mem_of_mem_filter hcopied) hs
    · rw [mem_singleton.mp hignore]
      exact nofun

/-- What both stores make of trees that show the same. -/
theorem Agree.publish (h : Agree d g) {key : Key} (hview : view tree = view tree')
    (hadmitted : Admitted it (replaceWorkingTree tree'))
    (hplain : ∀ e ∈ tree', isGenerationSourcePath e.1.text = true → e.1.Plain)
    (howned : ∀ e ∈ tree', isGenerationSourcePath e.1.text = true → e.2.others = true →
      e.2.owner = true) :
    Agree (d.set key (some tree)) (g.tag key (commitTree it (replaceWorkingTree tree'))) := by
  refine h.made ?_ (fun _ he => plain_of_mem_commitTree hadmitted hplain he)
    fun _ he => others_of_mem_commitTree he
  rw [view_commitTree hadmitted (owned_replaceWorkingTree howned), view_replaceWorkingTree, hview]

/-- Rewritten files keep their paths and permissions. -/
theorem mem_rewrite_copytree {files : List (Path × Bytes)} {e : Path × File}
    (h : e ∈ rewrite files (copytree tree)) :
    ∃ e' ∈ tree, e'.1 = e.1 ∧ e'.2.owner = e.2.owner ∧ e'.2.others = e.2.others := by
  obtain ⟨e', he', rfl⟩ := mem_map.mp h
  exact ⟨e', mem_of_mem_filter he', rfl, rfl, rfl⟩

/-- What one call keeps. -/
theorem call_agree (h : Agree d g) {call : Call P} (ho : Orderly it d g call) :
    (d.call it call).2 = (g.call it call).2 ∧ Agree (d.call it call).1 (g.call it call).1 := by
  cases call with
  | seed key sources =>
    obtain ⟨hnames, ho⟩ := ho
    simp only [Directory.call, Git.call, validatedSeedSources_excluded hnames]
    split
    · exact ⟨rfl, h⟩
    · rename_i resolved hresolved
      have ho := ho resolved hresolved
      by_cases hdir : d.dirs key = true
      · rw [if_pos hdir] at ho
        rw [if_pos hdir, if_pos (h.isSome_iff key ▸ ho)]
        exact ⟨rfl, h⟩
      · have hnone : ¬ (g.tags key).isSome = true := fun hsome =>
          hdir (h.dirs key ((h.isSome_iff key).trans hsome))
        rw [if_neg hdir] at ho
        rw [if_neg hdir, if_neg hnone]
        exact ⟨rfl, h.publish rfl ho.2 (fun e he hs => (ho.1 e he hs).1)
          fun e he hs => (ho.1 e he hs).2⟩
  | derive epoch parent child patches =>
    have hviews := h.views (epoch, parent)
    cases hsource : g.tags (epoch, parent) with
    | none =>
      have hparent : d.snapshots (epoch, parent) = none := by
        rwa [hsource, Option.map_none, Option.map_eq_none_iff] at hviews
      simp only [Directory.call, Git.call, hsource, hparent]
      exact ⟨rfl, h⟩
    | some source =>
      obtain ⟨source', hsource', hview⟩ : ∃ source', d.snapshots (epoch, parent) = some source' ∧
          view source' = view source := by
        rw [hsource] at hviews
        exact Option.map_eq_some_iff.mp hviews
      obtain ⟨hne, ho⟩ := ho source hsource
      have hkey : (epoch, parent) ≠ (epoch, child) := fun heq => hne (Prod.mk.inj heq).2
      have hkept : (d.set (epoch, child) none).snapshots (epoch, parent) = some source' :=
        (if_neg hkey).trans hsource'
      have hbytes : sourceBytes (copytree source') = sourceBytes (copytree source) := by
        rw [sourceBytes_eq, sourceBytes_eq, view_copytree, view_copytree, hview]
      simp only [Directory.call, Git.call, hsource, hsource', hkept, Interp.applyPatches,
        hbytes, reduceCtorEq, if_false] at ho ⊢
      cases hedits : it.edits (sourceBytes (copytree source)) patches with
      | applied files =>
        rw [hedits] at ho
        refine ⟨rfl, h.publish ?_ ho (fun e he _ => ?_) fun e he _ hothers => ?_⟩
        · rw [view_rewrite, view_rewrite, view_copytree, view_copytree, hview]
        · obtain ⟨e', he', hpath, -, -⟩ := mem_rewrite_copytree he
          exact hpath ▸ h.plain _ source hsource e' he'
        · obtain ⟨e', he', -, howner, hothers'⟩ := mem_rewrite_copytree he
          rw [← howner, ← h.owned _ source hsource e' he', hothers', hothers]
      | refused =>
        rw [hedits] at ho
        exact ⟨rfl, h.refused ho⟩
      | raised left =>
        rw [hedits] at ho
        exact ho.elim

/-! ## Reading -/

/-- The entry that lists a file. -/
def Shown.entry (s : Shown) : Entry := ⟨s.path.text, s.bytes.length, s.executable⟩

theorem universalNewlines_eq {bytes : Bytes} (h : (13 : UInt8) ∉ bytes) :
    universalNewlines bytes = bytes := by
  fun_induction universalNewlines bytes with
  | case1 rest ih => exact absurd mem_cons_self h
  | case2 rest _ ih => exact absurd mem_cons_self h
  | case3 b rest _ _ ih => rw [ih fun hrest => h (mem_cons_of_mem _ hrest)]
  | case4 => rfl

theorem Directory.listTree_eq (d : Directory) (key : Key) :
    d.listTree key = (d.snapshots key).map fun tree => (view tree).map Shown.entry := by
  cases htree : d.snapshots key with
  | none => simp [Directory.listTree, htree]
  | some tree =>
    simp only [Directory.listTree, htree, view, map_map]
    rfl

/-- The files a commit lists. -/
theorem Agree.git_listTree_eq (h : Agree d g) (key : Key) :
    g.listTree key = (g.tags key).map fun tree => (view tree).map Shown.entry := by
  cases htree : g.tags key with
  | none => simp [Git.listTree, htree]
  | some tree =>
    have hplain := h.plain key tree htree
    have hdecodes : (tree.all fun e => (ByteArray.mk e.1.text.toArray).validateUTF8) = true :=
      all_eq_true.mpr fun e he => (hplain e he).decodes
    have hfilter : (tree.filter fun e => isGenerationSourcePath (universalNewlines e.1.text)) =
        tree.filter fun e => isGenerationSourcePath e.1.text :=
      filter_congr fun e he => by rw [universalNewlines_eq (hplain e he).returns]
    simp only [Git.listTree, htree, Option.bind_eq_bind, Option.bind_some, hdecodes, if_true,
      hfilter, Option.map_some, view, map_map, Option.some.injEq]
    refine map_congr_left fun e he => ?_
    have hmem := mem_of_mem_filter he
    simp [Shown.entry, universalNewlines_eq (hplain e hmem).returns, h.owned key tree htree e hmem]

/-- The bytes that a tree holds at the path of a source file. -/
theorem find?_text {path : Path} (h : isGenerationSourcePath path.text = true) (tree : Tree) :
    (tree.find? fun e => decide (e.1.text = path.text)).map (fun e => e.2.bytes) =
      ((view tree).find? fun s => decide (s.path = path)).map Shown.bytes := by
  induction tree with
  | nil => rfl
  | cons e rest ih =>
    by_cases heq : e.1 = path
    · subst heq
      simp [view, h]
    · have htext : e.1.text ≠ path.text := fun ht => heq (Path.text_injective ht)
      rw [find?_cons_of_neg (by simpa using htext), ih, view, view]
      cases hs : isGenerationSourcePath e.1.text with
      | false => rw [filter_cons_of_neg (by simp [hs])]
      | true => simp [hs, heq]

/-- The stores return the same bytes for a file that they list. -/
theorem Agree.readFile_eq (h : Agree d g) {key : Key} {entries : List Entry}
    (hlist : d.listTree key = some entries) {entry : Entry} (hentry : entry ∈ entries) :
    d.readFile key entry.path = g.readFile key entry.path := by
  rw [d.listTree_eq] at hlist
  obtain ⟨tree, htree, rfl⟩ := Option.map_eq_some_iff.mp hlist
  have hviews := h.views key
  rw [htree] at hviews
  obtain ⟨tree', htree', hview⟩ := Option.map_eq_some_iff.mp hviews.symm
  obtain ⟨s, hs, rfl⟩ := mem_map.mp hentry
  have hmem := hview ▸ hs
  obtain ⟨e, he, rfl⟩ := mem_map.mp hmem
  obtain ⟨he, hsource⟩ := mem_filter.mp he
  have hplain := h.plain key tree' htree' e he
  have hmap : e.1.text.map (fun b => if b = 92 then 47 else b) = e.1.text := by
    refine (map_congr_left fun b hb => ?_).trans (map_id _)
    refine if_neg fun hb' => hplain.backslash ?_
    rwa [← hb']
  have hguard : ¬ (e.1.text = [] ∨ [46, 46] ∈ e.1.text.splitOn 47) := by
    rw [Path.splitOn_text]
    rintro (hnil | hdots)
    · have hparts := e.1.splitOn_text
      rw [hnil] at hparts
      obtain ⟨name, -, hname⟩ := mem_map.mp
        (hparts ▸ (by simp : ([] : Bytes) ∈ splitOn 47 ([] : Bytes)))
      exact name.nonempty hname
    · obtain ⟨name, -, hname⟩ := mem_map.mp hdots
      exact name.dots hname
  have hread := (find?_text hsource tree).trans (hview ▸ (find?_text hsource tree').symm)
  have hbind : ∀ found : Option (Path × File), (found.bind fun e => some e.2.bytes) =
      found.map fun e => e.2.bytes := fun found => by cases found <;> rfl
  have hpath : d.readFile key e.1.text = g.readFile key e.1.text := by
    simp only [Directory.readFile, Git.readFile, htree, htree', Option.bind_eq_bind,
      Option.bind_some, hmap, Path.stripSlashes_text, if_neg hguard, hbind]
    exact hread
  exact hpath

end Calls

/-! ## Runs -/

def Directory.fresh : Directory := ⟨fun _ => none, fun _ => false⟩

def Git.fresh : Git := ⟨fun _ => none⟩

/-- The states that the stores reach by the same orderly calls. -/
inductive Run (it : Interp P) : Directory → Git → Prop
  | fresh : Run it .fresh .fresh
  | call {d : Directory} {g : Git} (h : Run it d g) {call : Call P} (ho : Orderly it d g call) :
      Run it (d.call it call).1 (g.call it call).1

theorem Run.agree {d : Directory} {g : Git} (h : Run it d g) : Agree d g := by
  induction h with
  | fresh => exact ⟨fun _ => rfl, nofun, nofun, nofun⟩
  | call _ ho ih => exact (call_agree ih ho).2

/-- What a reader sees of the two stores is the same. -/
def SameSources (d : Directory) (g : Git) (key : Key) : Prop :=
  d.listTree key = g.listTree key ∧ ∀ entries, d.listTree key = some entries →
    ∀ entry ∈ entries, d.readFile key entry.path = g.readFile key entry.path

theorem Agree.sameSources {d : Directory} {g : Git} (h : Agree d g) (key : Key) :
    SameSources d g key := by
  refine ⟨?_, fun entries hlist entry hentry => h.readFile_eq hlist hentry⟩
  have hviews := congrArg (Option.map (List.map Shown.entry)) (h.views key)
  rw [Option.map_map, Option.map_map] at hviews
  rw [d.listTree_eq, h.git_listTree_eq]
  exact hviews

/-- In a run of orderly calls the stores accept the same calls and hold the same sources. -/
theorem stores_agree {d : Directory} {g : Git} (h : Run it d g) {call : Call P}
    (ho : Orderly it d g call) :
    (d.call it call).2 = (g.call it call).2 ∧
      ∀ key, SameSources (d.call it call).1 (g.call it call).1 key := by
  obtain ⟨haccept, hagree⟩ := call_agree h.agree ho
  exact ⟨haccept, hagree.sameSources⟩

/-! ## A control file below the root -/

/-- A line of a `.gitignore` file that is a name, or `*` and the end of a name. -/
def matchesLine (name line : Bytes) : Bool :=
  line = name || (line.head? = some 42 && line.tail.isSuffixOf name)

/-- Git, for `.gitignore` files with such lines; the one patch ends every file with a
newline. -/
def nameLines : Interp Unit where
  edits files _ := .applied (files.map fun f => (f.1, f.2 ++ [10]))
  excluded tree path := tree.any fun e =>
    e.1.name = GITIGNORE && e.1.dirs.isPrefixOf path.dirs &&
      (path.parts.drop e.1.dirs.length).any fun name =>
        (e.2.bytes.splitOn 10).any (matchesLine name.bytes)

def agentName : Name := ⟨utf8 "agent", by decide, by decide, by decide⟩

def dataName : Name := ⟨utf8 "data.txt", by decide, by decide, by decide⟩

def cacheName : Name := ⟨utf8 "data.pyc", by decide, by decide, by decide⟩

/-- A directory with a file and a cached one. -/
def agentSeed : Call Unit :=
  .seed ("e1", "v0") [⟨agentName, .dir
    [(⟨[], dataName⟩, ⟨[1], true, true⟩), (⟨[], cacheName⟩, ⟨[2], false, false⟩)]⟩]

theorem run_agentSeed : Run nameLines (Directory.fresh.call nameLines agentSeed).1
    (Git.fresh.call nameLines agentSeed).1 := by
  refine .call .fresh ⟨by decide, fun resolved hresolved => ?_⟩
  cases hresolved
  refine ⟨fun e he _ => ?_, by unfold Admitted; decide⟩
  obtain rfl : e = (⟨[agentName], dataName⟩, ⟨[1], true, true⟩) := List.mem_singleton.mp he
  exact ⟨⟨by decide, by decide, by decide⟩, fun _ => rfl⟩

/-- A generation that is derived from a seeded directory. -/
theorem stores_agree_derive :
    SameSources
      ((Directory.fresh.call nameLines agentSeed).1.call nameLines (.derive "e1" "v0" "v1" ())).1
      ((Git.fresh.call nameLines agentSeed).1.call nameLines (.derive "e1" "v0" "v1" ())).1
      ("e1", "v1") := by
  refine (stores_agree run_agentSeed ?_).2 _
  rintro source hsource
  obtain rfl := Option.some.inj hsource
  refine ⟨by decide, ?_⟩
  change Admitted nameLines (replaceWorkingTree (rewrite _ _))
  unfold Admitted
  decide

/-- A `.gitignore` file inside a seed tree keeps a file out of git's commit alone. -/
theorem nested_gitignore_differs :
    ¬ ∀ (key : Key) (sources : List Source),
      (∀ source ∈ sources, source.name.bytes ∉ Git.GIT_ADMIN_BASENAMES) →
      SameSources (Directory.fresh.call nameLines (.seed key sources)).1
        (Git.fresh.call nameLines (.seed key sources)).1 key := by
  intro h
  refine absurd (h ("e1", "v0") [⟨agentName, .dir
    [(⟨[], GITIGNORE⟩, ⟨utf8 "data.txt\n", false, false⟩), (⟨[], dataName⟩, ⟨[1], false, false⟩)]⟩]
    (by decide)).1 ?_
  decide

end Zicato.GenerationStores
