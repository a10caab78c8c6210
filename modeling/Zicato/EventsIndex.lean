import Zicato.Events
import Zicato.Ledger

/-! # The index of the events files

`query/events_index.py`: the path of the events file that carries a run id.  What was
read of a file is kept with its inode, time and size, and an append keeps the id.  An
append can change it: the id may stand in a line that is not complete yet.  The branch
that answers from the record of an active run, before the index is asked, is left out. -/
open List Option Zicato.Dict
namespace Zicato.EventsIndex

open Events (Unread truthy)

/-- What the lookup uses of the interpreter and of the layout of a workspace. -/
structure Env (F : Type) where
  /-- The lines of a file read as text; no line where the decoding raises. -/
  lines : Bytes → List (Option Text)
  loads : Text → Except Unread (PyValue F)
  /-- Whether the glob of an epoch, or of all, lists the path. -/
  inEpoch : String → String → Bool
  pathLt : String → String → Bool

/-- A current events file. -/
structure File where
  inode : Nat × Nat
  mtime : Nat
  bytes : Bytes
  deriving DecidableEq

/-- `_RunIdFileState`. -/
structure FileState where
  inode : Nat × Nat
  mtime : Nat
  size : Nat
  runId : Option String
  deriving DecidableEq

/-- The cached states and the cached index of an epoch. -/
abbrev Entry := Dict String FileState × Dict String String

/-- The epochs directory, the current events files and the cache. -/
structure State where
  isDir : Bool := false
  files : Dict String File := []
  cache : Dict String Entry := []
  deriving DecidableEq

variable {F : Type} [PyArith F] (env : Env F)

/-- The run id an event carries. -/
def recordId (evt : Dict String (PyValue F)) : Option String :=
  let runId := Dict.getD evt "runId" .none
  match if truthy runId then runId else Dict.getD evt "run_id" .none with
  | .str rid => if rid = "" then none else some rid
  | _ => none

/-- The run id of the first line that carries one, unless reading fails. -/
def scan : List (Option Text) → Option (Option String)
  | [] => some none
  | none :: _ => none
  | some raw :: rest =>
      if (Text.strip raw).isEmpty then scan rest
      else
        match env.loads (Text.strip raw) with
        | .error .decode => some none
        | .error (.raised _) => none
        | .ok (.dict evt) =>
            match recordId evt with
            | some rid => some (some rid)
            | none => scan rest
        | .ok _ => scan rest

/-- `_run_id_of_events_file`; no value where it raises. -/
def runIdOfEventsFile (bytes : Bytes) : Option (Option String) :=
  scan env ((env.lines bytes).take 64)

/-- What the cache keeps of a file. -/
def File.state (f : File) (runId : Option String) : FileState :=
  ⟨f.inode, f.mtime, f.bytes.length, runId⟩

/-- The state of a file that is read. -/
def parsed (f : File) : Option (Option FileState) :=
  (runIdOfEventsFile env f.bytes).map fun rid => some (f.state rid)

/-- `_run_id_file_state`. -/
def runIdFileState (file : Option File) (cached : Option FileState) :
    Option (Option FileState) :=
  match file, cached with
  | none, _ => some none
  | some f, none => parsed env f
  | some f, some c =>
      if f.state c.runId = c ∨ c.runId.isSome ∧ f.inode = c.inode ∧ c.size < f.bytes.length then
        some (some (f.state c.runId))
      else parsed env f

/-- `_current_events_files`. -/
def currentEventsFiles (files : Dict String File) (epoch : String) : List String :=
  sorted env.pathLt (files.keys.filter (env.inEpoch epoch))

/-- The id names the path, unless it names one. -/
def note (index : Dict String String) (path : String) : Option String → Dict String String
  | some rid => if rid = "" then index else Dict.setdefault index rid path
  | none => index

/-- The turn of one file in `_build_run_id_index`. -/
def indexStep (files : Dict String File) (cached : Dict String FileState) (built : Entry)
    (path : String) : Option Entry :=
  (runIdFileState env (files.get? path) (cached.get? path)).map fun
    | none => built
    | some state => (built.1.set path state, note built.2 path state.runId)

/-- The cached entry of an epoch. -/
def State.entry (s : State) (epoch : String) : Entry := (s.cache.get? epoch).getD ([], [])

/-- The entry of an epoch replaced. -/
def State.keep (s : State) (epoch : String) (entry : Entry) : State :=
  { s with cache := s.cache.set epoch entry }

/-- `_build_run_id_index`. -/
def buildRunIdIndex (s : State) (epoch : String) : Option (Dict String String × State) :=
  if s.isDir then
    ((currentEventsFiles env s.files epoch).foldlM (indexStep env s.files (s.entry epoch).1)
      ([], [])).map fun built => (built.2, s.keep epoch built)
  else some ([], s)

/-- A lookup in an index built afresh. -/
def rebuild (s : State) (runId epoch : String) : Option (Option String × State) :=
  (buildRunIdIndex env s epoch).map fun built => (built.1.get? runId, built.2)

/-- `_find_run_events_in_index`. -/
def findRunEventsInIndex (s : State) (runId epoch : String) : Option (Option String × State) :=
  let entry := s.entry epoch
  match entry.2.get? runId with
  | none => rebuild env s runId epoch
  | some path =>
      (runIdFileState env (s.files.get? path) (entry.1.get? path)).bind fun
        | none => rebuild env (s.keep epoch (entry.1.erase path, entry.2.erase runId)) runId epoch
        | some state =>
            if state.runId = some runId then
              some (some path, s.keep epoch (entry.1.set path state, entry.2))
            else
              rebuild env (s.keep epoch (entry.1.set path state,
                note (entry.2.erase runId) path state.runId)) runId epoch

/-- `find_run_events_path` where no active record names the run. -/
def findRunEventsPath (s : State) (runId epoch : String) : Option (Option String × State) :=
  (findRunEventsInIndex env s runId epoch).map fun found =>
    (found.1.filter fun path => (s.files.get? path).isSome, found.2)

/-- One step of the file system, or of a lookup. -/
inductive Act
  /-- A new file, in the place of the one that was there. -/
  | create (path : String) (file : File)
  | append (path : String) (bytes : Bytes) (mtime : Nat)
  /-- The file is removed, or renamed to its archive. -/
  | remove (path : String)
  | find (runId epoch : String)
  | build (epoch : String)

/-- What a writer or a reader does. -/
def State.act (s : State) : Act → Option State
  | .create path file => some { s with isDir := true, files := s.files.set path file }
  | .append path bytes mtime => (s.files.get? path).map fun f =>
      { s with files := s.files.set path { f with mtime := mtime, bytes := f.bytes ++ bytes } }
  | .remove path => some { s with files := s.files.erase path }
  | .find runId epoch => (findRunEventsPath env s runId epoch).map Prod.snd
  | .build epoch => (buildRunIdIndex env s epoch).map Prod.snd

/-- A file can be read. -/
def Reads (bytes : Bytes) : Prop := (runIdOfEventsFile env bytes).isSome

/-- The id that a read of the file finds. -/
def idAt (files : Dict String File) (path : String) : Option String :=
  (files.get? path).bind fun f => (runIdOfEventsFile env f.bytes).join

/-- What the writers keep to: every file can be read, a new one has an inode that no cached
state of its path has, and an append after an id leaves the lines before it. -/
def Fits (s : State) : Act → Prop
  | .create path file => Reads env file.bytes ∧
      ∀ epoch c, (s.entry epoch).1.get? path = some c → c.inode ≠ file.inode
  | .append path bytes _ => ∀ f, s.files.get? path = some f →
      Reads env (f.bytes ++ bytes) ∧ ((idAt env s.files path).isSome →
        env.lines f.bytes <+: env.lines (f.bytes ++ bytes))
  | _ => True

/-- The states of the runs that begin with no file. -/
inductive Reached : State → Prop
  | start : Reached {}
  | act {s s' : State} {a : Act} (hs : Reached s) (hfits : Fits env s a)
      (hact : s.act env a = some s') : Reached s'

/-- What a lookup may return: a file of the epoch where a read finds the id, and nothing
only if there is none. -/
structure Answers (files : Dict String File) (runId epoch : String) (found : Option String) :
    Prop where
  carries : ∀ path, found = some path → env.inEpoch epoch path ∧ idAt env files path = some runId
  complete : found = none → ∀ path, env.inEpoch epoch path → idAt env files path ≠ some runId

variable {env} {s s' : State} {files : Dict String File} {f : File} {c : FileState}
  {path runId epoch : String} {entry : Entry} {id : Option String} {index : Dict String String}

/-! ## A read -/

theorem scan_ne_empty {lines : List (Option Text)} : scan env lines ≠ some (some "") := by
  fun_induction scan env lines with
  | case6 _ _ _ _ _ rid hid =>
    rintro ⟨⟩
    unfold recordId at hid
    grind
  | _ => simp_all

theorem scan_append {lines : List (Option Text)} {rid : String}
    (h : scan env lines = some (some rid)) (more : List (Option Text)) :
    scan env (lines ++ more) = some (some rid) := by
  fun_induction scan env lines <;> simp_all [scan]

/-- An append keeps the id. -/
theorem read_append {bytes more : Bytes} (hlines : env.lines bytes <+: env.lines (bytes ++ more))
    {rid : String} (h : runIdOfEventsFile env bytes = some (some rid)) :
    runIdOfEventsFile env (bytes ++ more) = some (some rid) := by
  obtain ⟨rest, hrest⟩ := hlines.take 64
  rw [runIdOfEventsFile, ← hrest]
  exact scan_append h rest

theorem Reads.spec (h : Reads env f.bytes) (hf : files.get? path = some f) :
    ∃ id, runIdOfEventsFile env f.bytes = some id ∧ id ≠ some "" ∧ idAt env files path = id ∧
      runIdFileState env (some f) none = some (some (f.state id)) := by
  obtain ⟨id, hid⟩ := isSome_iff_exists.mp h
  refine ⟨id, hid, ?_, by simp [idAt, hf, hid], by simp [runIdFileState, parsed, hid]⟩
  rintro rfl
  exact scan_ne_empty hid

theorem isSome_of_idAt (h : idAt env files path = some runId) : (files.get? path).isSome := by
  cases hf : files.get? path with
  | none => simp [idAt, hf] at h
  | some f => rfl

/-! ## The cache -/

/-- A state that a read of the file would give. -/
def Known (env : Env F) (f : File) (c : FileState) : Prop :=
  c.inode = f.inode → c.size ≤ f.bytes.length ∧ (c.size = f.bytes.length ∨ c.runId.isSome →
    runIdOfEventsFile env f.bytes = some c.runId)

/-- An index names files of the epoch only. -/
def Listed (env : Env F) (epoch : String) (index : Dict String String) : Prop :=
  ∀ rid path, index.get? rid = some path → env.inEpoch epoch path

/-- The entry of an epoch in the cache, for the files that there are. -/
structure Entry.Valid (env : Env F) (files : Dict String File) (epoch : String)
    (entry : Entry) : Prop where
  known : ∀ path c f, entry.1.get? path = some c → files.get? path = some f → Known env f c
  listed : Listed env epoch entry.2

theorem Entry.Valid.empty (files : Dict String File) (epoch : String) :
    Entry.Valid env files epoch ([], []) := ⟨by simp, by simp [Listed]⟩

/-- A cached state is that of a read. -/
theorem Entry.Valid.fileState (h : entry.Valid env files epoch) (path : String) :
    runIdFileState env (files.get? path) (entry.1.get? path) =
      runIdFileState env (files.get? path) none := by
  cases hf : files.get? path with
  | none => rfl
  | some f =>
    cases hc : entry.1.get? path with
    | none => rfl
    | some c =>
      have hknown := h.known path c f hc hf
      simp only [runIdFileState]
      split
      · rename_i hkeep
        have hread : runIdOfEventsFile env f.bytes = some c.runId := by
          rcases hkeep with heq | ⟨hid, hinode, -⟩
          · have hinode : f.inode = c.inode := congrArg FileState.inode heq
            exact (hknown hinode.symm).2 (.inl (congrArg FileState.size heq).symm)
          · exact (hknown hinode.symm).2 (.inr hid)
        rw [parsed, hread]
        rfl
      · rfl

/-- A file that was read may be cached. -/
theorem Entry.Valid.read (h : entry.Valid env files epoch) (hf : files.get? path = some f)
    (hid : runIdOfEventsFile env f.bytes = some id) (hindex : Listed env epoch index) :
    Entry.Valid env files epoch (entry.1.set path (f.state id), index) := by
  refine ⟨fun path' c f' hc hf' => ?_, hindex⟩
  rw [get?_set] at hc
  split at hc
  · rename_i heq
    subst heq
    obtain rfl := some.inj hc
    obtain rfl := some.inj (hf.symm.trans hf')
    exact fun _ => ⟨le_rfl, fun _ => hid⟩
  · exact h.known path' c f' hc hf'

theorem get?_note (hid : id ≠ some "") (path rid : String) : (note index path id).get? rid =
    (index.get? rid).or (if id = some rid then some path else none) := by
  cases id with
  | none => simp [note]
  | some r =>
    rw [note, if_neg (by simpa using hid), Dict.setdefault]
    by_cases heq : r = rid
    · subst heq
      cases h : Dict.get? index r <;> simp [h, get?_set]
    · split <;> simp [heq, get?_set]

omit [PyArith F] in
theorem Listed.note (hindex : Listed env epoch index) (hid : id ≠ some "")
    (hpath : env.inEpoch epoch path) : Listed env epoch (note index path id) := by
  intro rid path' h
  rw [get?_note hid, or_eq_some_iff] at h
  grind [hindex rid path']

omit [PyArith F] in
theorem Listed.erase (hindex : Listed env epoch index) (runId : String) :
    Listed env epoch (index.erase runId) := by
  intro rid path h
  rw [get?_erase] at h
  grind [hindex rid path]

/-- The files can be read, and the cache is of reads. -/
structure Inv (env : Env F) (s : State) : Prop where
  reads : ∀ path f, s.files.get? path = some f → Reads env f.bytes
  isDir : s.isDir = false → s.files = []
  cache : ∀ epoch, (s.entry epoch).Valid env s.files epoch

theorem Inv.keep (h : Inv env s) (hentry : entry.Valid env s.files epoch) :
    Inv env (s.keep epoch entry) := by
  refine ⟨h.reads, h.isDir, fun epoch' => ?_⟩
  by_cases heq : epoch = epoch'
  · subst heq
    simpa [State.entry, State.keep, get?_set] using hentry
  · simpa [State.entry, State.keep, get?_set, heq] using h.cache epoch'

/-! ## A build -/

/-- A scan of readable files keeps the cache valid. -/
theorem foldlM_indexStep (hreads : ∀ path f, files.get? path = some f → Reads env f.bytes)
    {paths : List String} {built : Entry}
    (hpaths : ∀ path ∈ paths, env.inEpoch epoch path ∧ (files.get? path).isSome)
    (hbuilt : built.Valid env files epoch) :
    ∃ built', paths.foldlM (indexStep env files []) built = some built' ∧
      built'.Valid env files epoch ∧ ∀ rid, built'.2.get? rid =
        (built.2.get? rid).or (paths.find? fun path => idAt env files path = some rid) := by
  induction paths generalizing built with
  | nil => exact ⟨built, rfl, hbuilt, fun rid => by simp⟩
  | cons path rest ih =>
    obtain ⟨⟨hepoch, hfile⟩, hrest⟩ := forall_mem_cons.mp hpaths
    obtain ⟨f, hf⟩ := isSome_iff_exists.mp hfile
    obtain ⟨id, hid, hne, hat, hstate⟩ := (hreads path f hf).spec hf
    have hstep : indexStep env files [] built path =
        some (built.1.set path (f.state id), note built.2 path id) := by
      simp [indexStep, hf, hstate, File.state]
    obtain ⟨built', hfold, hvalid, hget⟩ :=
      ih hrest (hbuilt.read hf hid (hbuilt.listed.note hne hepoch))
    refine ⟨built', by rw [foldlM_cons, hstep]; exact hfold, hvalid, fun rid => ?_⟩
    rw [hget rid, get?_note hne, Option.or_assoc, List.find?_cons, hat]
    by_cases heq : id = some rid <;> simp [heq]

/-- A build answers every lookup as the files do. -/
theorem build_spec (h : Inv env s) (epoch : String) :
    ∃ index s', buildRunIdIndex env s epoch = some (index, s') ∧ Inv env s' ∧
      s'.files = s.files ∧ ∀ runId, Answers env s.files runId epoch (index.get? runId) := by
  cases hdir : s.isDir with
  | false =>
    refine ⟨[], s, by simp [buildRunIdIndex, hdir], h, rfl, fun runId => ⟨by simp, ?_⟩⟩
    rintro - path -
    simp [idAt, h.isDir hdir]
  | true =>
    have hmem : ∀ path, path ∈ currentEventsFiles env s.files epoch ↔
        (s.files.get? path).isSome ∧ env.inEpoch epoch path := by
      intro path
      rw [currentEventsFiles, mem_sorted, mem_filter, mem_keys_iff]
    obtain ⟨built, hfold, hbuilt, hget⟩ :=
      foldlM_indexStep h.reads (fun path hpath => ((hmem path).mp hpath).symm) (.empty s.files epoch)
    have hcached : indexStep env s.files (s.entry epoch).1 = indexStep env s.files [] := by
      funext built path
      rw [indexStep, (h.cache epoch).fileState]
      rfl
    refine ⟨built.2, s.keep epoch built, ?_, h.keep hbuilt, rfl, fun runId => ?_⟩
    · rw [buildRunIdIndex, if_pos hdir, hcached, hfold]
      rfl
    rw [hget runId, Dict.get?_nil, none_or]
    refine ⟨fun path hpath => ?_, fun hnone path hepoch hat => ?_⟩
    · exact ⟨((hmem path).mp (mem_of_find?_eq_some hpath)).2,
        by simpa using find?_some hpath⟩
    · have hmem := (hmem path).mpr ⟨isSome_of_idAt hat, hepoch⟩
      simpa [hat] using find?_eq_none.mp hnone path hmem

/-! ## A lookup -/

/-- The outcome of a lookup. -/
def Finds (env : Env F) (s : State) (runId epoch : String)
    (outcome : Option (Option String × State)) : Prop :=
  ∃ found s', outcome = some (found, s') ∧ Inv env s' ∧ s'.files = s.files ∧
    Answers env s.files runId epoch found

theorem rebuild_spec (h : Inv env s) (runId epoch : String) :
    Finds env s runId epoch (rebuild env s runId epoch) := by
  obtain ⟨index, s', hbuild, hinv, hfiles, hanswers⟩ := build_spec h epoch
  exact ⟨index.get? runId, s', by rw [rebuild, hbuild]; rfl, hinv, hfiles, hanswers runId⟩

/-- A lookup in the cached index finds what a fresh read finds. -/
theorem index_spec (h : Inv env s) (runId epoch : String) :
    Finds env s runId epoch (findRunEventsInIndex env s runId epoch) := by
  have hcache := h.cache epoch
  rw [findRunEventsInIndex]
  cases hpath : (s.entry epoch).2.get? runId with
  | none => exact rebuild_spec h runId epoch
  | some path =>
    have hepoch := hcache.listed runId path hpath
    simp only [hcache.fileState path]
    cases hf : s.files.get? path with
    | none =>
      refine rebuild_spec (h.keep ⟨fun path' c f hc hf' => ?_, ?_⟩) runId epoch
      · rw [get?_erase] at hc
        grind [hcache.known path' c f]
      · exact hcache.listed.erase runId
    | some f =>
      obtain ⟨id, hid, hne, hat, hstate⟩ := (h.reads path f hf).spec hf
      simp only [hstate, bind_some]
      by_cases hrun : id = some runId
      · refine ⟨some path, _, if_pos hrun, h.keep (hcache.read hf hid hcache.listed), rfl, ?_,
          by simp⟩
        rintro _ ⟨⟩
        exact ⟨hepoch, hat.trans hrun⟩
      · rw [if_neg (by exact hrun)]
        exact rebuild_spec (h.keep (hcache.read hf hid
          ((hcache.listed.erase runId).note hne hepoch))) runId epoch

theorem find_spec (h : Inv env s) (runId epoch : String) :
    Finds env s runId epoch (findRunEventsPath env s runId epoch) := by
  obtain ⟨found, s', hfind, hinv, hfiles, hanswers⟩ := index_spec h runId epoch
  have hexists : (found.filter fun path => (s.files.get? path).isSome) = found := by
    cases found with
    | none => rfl
    | some path => exact if_pos (isSome_of_idAt (hanswers.carries path rfl).2)
  exact ⟨found, s', by rw [findRunEventsPath, hfind]; simpa using hexists, hinv, hfiles, hanswers⟩

/-! ## The runs -/

/-- A file written keeps the invariant if no cached state takes it for its own. -/
theorem Inv.write {isDir : Bool} (h : Inv env s) (hdir : isDir = true)
    (hreads : Reads env f.bytes)
    (hknown : ∀ epoch c, (s.entry epoch).1.get? path = some c → Known env f c) :
    Inv env { s with isDir := isDir, files := s.files.set path f } := by
  refine ⟨fun path' f' hf => ?_, by simp [hdir], fun epoch => ⟨fun path' c f' hc hf => ?_,
    (h.cache epoch).listed⟩⟩
  all_goals rw [get?_set] at hf; split at hf
  · exact some.inj hf ▸ hreads
  · exact h.reads path' f' hf
  · rename_i heq
    subst heq
    exact some.inj hf ▸ hknown epoch c hc
  · exact (h.cache epoch).known path' c f' hc hf

/-- An act that keeps to what the writers do keeps the invariant. -/
theorem Inv.act {a : Act} (h : Inv env s) (hfits : Fits env s a)
    (hact : s.act env a = some s') : Inv env s' := by
  cases a with
  | create path file =>
    obtain rfl := some.inj hact
    exact h.write rfl hfits.1 fun epoch c hc hinode => absurd hinode (hfits.2 epoch c hc)
  | append path bytes mtime =>
    obtain ⟨f, hf, rfl⟩ := map_eq_some_iff.mp hact
    obtain ⟨hreads, hlines⟩ := hfits f hf
    have hdir : s.isDir = true := by
      by_contra hdir
      simp [h.isDir (by simpa using hdir)] at hf
    refine h.write hdir hreads fun epoch c hc hinode => ?_
    obtain ⟨hsize, hread⟩ := (h.cache epoch).known path c f hc hf hinode
    refine ⟨by simp; omega, fun hkeep => ?_⟩
    rcases hkeep with heq | hid
    · have hnil : bytes = [] := by
        simp only [length_append] at heq
        exact length_eq_zero_iff.mp (by omega)
      subst hnil
      simpa using hread (.inl (by simpa using heq))
    · obtain ⟨rid, hrid⟩ := isSome_iff_exists.mp hid
      rw [hrid] at hread ⊢
      exact read_append (hlines (by simp [idAt, hf, hread (.inr rfl)])) (hread (.inr rfl))
  | remove path =>
    obtain rfl := some.inj hact
    refine ⟨fun path' f hf => ?_, fun hdir => ?_, fun epoch => ⟨fun path' c f hc hf => ?_,
      (h.cache epoch).listed⟩⟩
    · rw [get?_erase] at hf
      grind [h.reads path' f]
    · simp [h.isDir hdir, Dict.erase]
    · rw [get?_erase] at hf
      split at hf
      · cases hf
      · exact (h.cache epoch).known path' c f hc hf
  | find runId epoch =>
    obtain ⟨found, s₁, hfind, hinv, -⟩ := find_spec h runId epoch
    rw [State.act, hfind] at hact
    exact some.inj hact ▸ hinv
  | build epoch =>
    obtain ⟨index, s₁, hbuild, hinv, -⟩ := build_spec h epoch
    rw [State.act, hbuild] at hact
    exact some.inj hact ▸ hinv

theorem Reached.inv (h : Reached env s) : Inv env s := by
  induction h with
  | start => exact ⟨by simp, fun _ => rfl, fun epoch => .empty [] epoch⟩
  | act _ hfits hact ih => exact ih.act hfits hact

/-- Whatever was cached, a lookup does not raise, changes no file, and finds a file of the
epoch that carries the id if there is one. -/
theorem find_answers (h : Reached env s) (runId epoch : String) :
    ∃ found s', findRunEventsPath env s runId epoch = some (found, s') ∧
      s'.files = s.files ∧ Answers env s.files runId epoch found := by
  obtain ⟨found, s', hfind, -, hfiles, hanswers⟩ := find_spec h.inv runId epoch
  exact ⟨found, s', hfind, hfiles, hanswers⟩

/-- Files read as text, split into lines and parsed as JSON. -/
def plainEnv : Env Exact where
  lines bytes :=
    match Text.decode bytes with
    | some text => (Lines.splitInclusive '\n' (Text.universalNewlines text)).map some
    | none => [none]
  loads text :=
    if text = "\x7b\"runId\":\"a\"\x7d".toList then .ok (.dict [("runId", .str "a")])
    else .error .decode
  inEpoch epoch path := ("epochs/" ++ epoch).toList.isPrefixOf path.toList
  pathLt a b := a < b

/-- The file of the run. -/
def eventsPath : String := "epochs/e1/generations/v1/runs/r1/events.jsonl"

/-- A file whose first line carries the run id `a`. -/
def firstLine : File :=
  ⟨(1, 2), 3, "\x7b\"runId\":\"a\"\x7d\n".toUTF8.data.toList⟩

/-- An event appended later. -/
def secondLine : Bytes := "\x7b\x7d\n".toUTF8.data.toList

/-- The file with one more line, and what the lookup before the append has cached. -/
def oneFile : State where
  isDir := true
  files := [(eventsPath, { firstLine with mtime := 4, bytes := firstLine.bytes ++ secondLine })]
  cache := [("e1", [(eventsPath, firstLine.state (some "a"))], [("a", eventsPath)])]

theorem reached_oneFile : Reached plainEnv oneFile := by
  have hread : runIdOfEventsFile plainEnv firstLine.bytes = some (some "a") := by decide +kernel
  have hcreate : Reached plainEnv ⟨true, [(eventsPath, firstLine)], []⟩ :=
    .act (a := .create eventsPath firstLine) .start
      ⟨by rw [Reads, hread]; rfl, by simp [State.entry]⟩ rfl
  have hfind : Reached plainEnv ⟨true, [(eventsPath, firstLine)], oneFile.cache⟩ :=
    .act (a := .find "a" "e1") hcreate trivial (by decide +kernel)
  refine .act (a := .append eventsPath secondLine 4) hfind ?_ rfl
  rintro f hf
  cases hf
  exact ⟨isSome_iff_exists.mpr ⟨_, read_append (by decide +kernel) hread⟩, fun _ => by decide +kernel⟩

/-- A lookup that the cached state of a file answers, which has grown since. -/
theorem find_answers_oneFile :
    ∃ found s', findRunEventsPath plainEnv oneFile "a" "e1" = some (found, s') ∧
      s'.files = oneFile.files ∧ Answers plainEnv oneFile.files "a" "e1" found :=
  find_answers reached_oneFile "a" "e1"

end Zicato.EventsIndex
