import Zicato.Dict

/-! # The git generation store

`seed_generation`, `derive_generation`, `materialize_snapshot` and `prune_generations` of
`epoch/git_genstore.py`: every `git` command is one step, except that `worktree add` first makes
the directory with its `HEAD` and then writes the files one by one. -/
namespace Zicato.GitStore

/-- A generation: its epoch and its id. -/
abbrev Key := String × String

/-- A commit is its content: the parent, the message, the files and the time. -/
inductive Commit (α : Type)
  | root (files : List α)
  | node (parent : Commit α) (key : Key) (message : String) (files : List α) (time : Nat)
  deriving DecidableEq

variable {α P S : Type}

/-- The files that a commit holds. -/
def Commit.tree : Commit α → List α
  | .root files => files
  | .node _ _ _ files _ => files

/-- A directory where the worktree of a generation goes: whether it holds the `.git` pointer, and
the files that it holds besides. -/
structure Checkout (α : Type) where
  pointer : Bool
  files : List α

/-- What the store uses of the seed sources, of the applier and of the index. -/
structure Interp (α P S : Type) where
  /-- The files of a repository's root commit. -/
  rootFiles : List α
  /-- `validated_seed_sources` and `prepare_seed_sources`. -/
  prepare : S → Option (List α)
  /-- `apply_patches`, which may refuse. -/
  apply : List α → P → Option (List α)
  /-- What `_replace_working_tree` and `_stage_working_tree` make of a tree. -/
  staged : List α → List α
  /-- `_format_commit_message`, without the generation. -/
  message : Option String → Option P → String

/-! ## Calls -/

/-- A commit to be made, with the branch of its generation checked out. -/
structure CommitJob (α : Type) where
  key : Key
  derived : Bool
  message : String
  files : List α

/-- `derive_generation`, as it was called. -/
structure Derivation (P : Type) where
  epoch : String
  parent : String
  child : String
  patches : P

/-- `prune_generations`, as it was called, and the commits that it discards. -/
structure PruneJob (α : Type) where
  epoch : String
  ids : List String
  commits : List (Commit α)

/-- What follows when a worktree is there: the call returns it, or a child is derived from it. -/
abbrev Next (P : Type) := Option (Derivation P)

/-- Where a call is: what it does next. -/
inductive Stage (α P : Type)
  | seedInit (job : CommitJob α)
  | seedRoot (job : CommitJob α)
  | seedBranch (job : CommitJob α)
  | seedCheckout (job : CommitJob α)
  | deriveCheckout (d : Derivation P)
  | deriveReset (d : Derivation P)
  | commit (job : CommitJob α)
  | tag (job : CommitJob α)
  /-- `derive_generation` removes the worktree of an earlier attempt. -/
  | drop (key : Key)
  | look (key : Key) (next : Next P)
  | remove (key : Key) (next : Next P)
  | sweep (key : Key) (next : Next P)
  | add (key : Key) (next : Next P)
  | fill (key : Key) (rest : List α) (next : Next P)
  | pruneBranch (job : PruneJob α)
  | pruneWorktrees (job : PruneJob α) (todo : List (Key × Commit α))
  | pruneDirs (job : PruneJob α) (rest : List String)
  | pruneSweep (job : PruneJob α)
  | pruneTags (job : PruneJob α) (rest : List String)

/-- The private repository, the directories of the worktrees, and the call. -/
structure State (α P : Type) where
  repo : Bool
  root : Option (Commit α)
  branches : Dict String (Commit α)
  tags : Key → Option (Commit α)
  checkouts : Key → Option (Checkout α)
  /-- The worktrees that are registered, each with its `HEAD`. -/
  registered : Dict Key (Commit α)
  stage : Option (Stage α P)

/-- What a store is asked, and what can stop it. -/
inductive Action (α P S : Type)
  | seed (key : Key) (sources : S)
  | derive (d : Derivation P)
  | materialize (key : Key)
  | prune (epoch : String) (ids : List String) (dryRun : Bool)
  /-- The call goes on, at a time of the clock. -/
  | advance (time : Nat)
  /-- `shutil.rmtree` has removed something of the directory that it removes. -/
  | dismantle (left : Checkout α)
  /-- A crash, or a command that fails. -/
  | stop

/-- How a call stands. -/
inductive Outcome
  | running
  | refused
  | returned (key : Key)
  /-- A prune that only counted bytes. -/
  | counted
  | pruned

namespace State

/-- `git rev-parse HEAD` in the directory. -/
def headOf (s : State α P) (key : Key) : Option (Commit α) :=
  match s.checkouts key with
  | some checkout => if checkout.pointer then Dict.get? s.registered key else none
  | none => none

/-- `has_generation`. -/
def hasGeneration (s : State α P) (key : Key) : Bool := s.repo && (s.tags key).isSome

/-- The call goes on to a stage. -/
def go (s : State α P) (stage : Stage α P) : State α P × Outcome :=
  ({ s with stage := some stage }, .running)

/-- The call ends. -/
def finish (s : State α P) (outcome : Outcome) : State α P × Outcome :=
  ({ s with stage := none }, outcome)

/-- The tag of a generation replaced. -/
def setTag (s : State α P) (key : Key) (commit : Option (Commit α)) : State α P :=
  { s with tags := fun k => if k = key then commit else s.tags k }

/-- The worktree of a generation replaced. -/
def setCheckout (s : State α P) (key : Key) (checkout : Option (Checkout α)) : State α P :=
  { s with checkouts := fun k => if k = key then checkout else s.checkouts k }

/-- The branch of an epoch replaced. -/
def setBranch (s : State α P) (epoch : String) (commit : Commit α) : State α P :=
  { s with branches := Dict.set s.branches epoch commit }

/-- Whether the directory still holds its pointer. -/
def pointed (s : State α P) (key : Key) : Bool :=
  match s.checkouts key with
  | some checkout => checkout.pointer
  | none => false

/-- `git worktree prune`: the registrations whose pointer is gone are dropped. -/
def sweepRegistered (s : State α P) : State α P :=
  { s with registered := s.registered.filter fun e => s.pointed e.1 }

end State

/-! ## Pruning -/

/-- The prune selects the generation. -/
def PruneJob.selects (job : PruneJob α) (key : Key) : Prop := key.1 = job.epoch ∧ key.2 ∈ job.ids

instance (job : PruneJob α) (key : Key) : Decidable (job.selects key) :=
  inferInstanceAs (Decidable (_ ∧ _))

section Steps

variable [DecidableEq α]

/-- The first ancestor that is not discarded; the parent of a root does not parse. -/
@[grind =] def firstKept (commits : List (Commit α)) : Commit α → Option (Commit α)
  | .root files => if .root files ∈ commits then none else some (.root files)
  | .node parent key message files time =>
      if .node parent key message files time ∈ commits then firstKept commits parent
      else some (.node parent key message files time)

/-- The start of `prune_generations`. -/
def State.pruneJob (s : State α P) (epoch : String) (ids : List String) : PruneJob α where
  epoch := epoch
  ids := ids
  commits := ids.filterMap fun id => s.tags (epoch, id)

/-! ## Steps -/

variable (it : Interp α P S)

/-- The worktree of a generation is there. -/
def State.arrive (s : State α P) (key : Key) : Next P → State α P × Outcome
  | none => s.finish (.returned key)
  | some d =>
      match s.checkouts key with
      | none => s.finish .refused
      | some checkout =>
          match it.apply checkout.files d.patches with
          | none => s.finish .refused
          | some files =>
              s.go (.commit ⟨(d.epoch, d.child), true, it.message (some d.parent) (some d.patches),
                it.staged files⟩)

/-- The next step of a call. -/
def State.advance (s : State α P) (time : Nat) : Stage α P → State α P × Outcome
  | .seedInit job =>
      if s.repo then s.go (.seedBranch job) else { s with repo := true }.go (.seedRoot job)
  | .seedRoot job => { s with root := some (.root it.rootFiles) }.go (.seedBranch job)
  | .seedBranch job =>
      match Dict.get? s.branches job.key.1, s.root with
      | some _, _ => s.go (.seedCheckout job)
      | none, some root => (s.setBranch job.key.1 root).go (.seedCheckout job)
      | none, none => s.finish .refused
  | .seedCheckout job => s.go (.commit job)
  | .deriveCheckout d =>
      if (Dict.get? s.branches d.epoch).isSome then s.go (.deriveReset d) else s.finish .refused
  | .deriveReset d =>
      match s.tags (d.epoch, d.parent) with
      | some commit => (s.setBranch d.epoch commit).go (.look (d.epoch, d.parent) (some d))
      | none => s.finish .refused
  | .commit job =>
      match Dict.get? s.branches job.key.1 with
      | some parent =>
          (s.setBranch job.key.1 (.node parent job.key job.message job.files time)).go (.tag job)
      | none => s.finish .refused
  | .tag job =>
      match Dict.get? s.branches job.key.1 with
      | some commit =>
          (s.setTag job.key (some commit)).go
            (if job.derived then .drop job.key else .look job.key none)
      | none => s.finish .refused
  | .drop key => (s.setCheckout key none).go (.look key none)
  | .look key next =>
      match s.checkouts key with
      | none => s.go (.sweep key next)
      | some _ =>
          if s.headOf key = s.tags key then s.arrive it key next else s.go (.remove key next)
  | .remove key next => (s.setCheckout key none).go (.sweep key next)
  | .sweep key next => s.sweepRegistered.go (.add key next)
  | .add key next =>
      match s.tags key with
      | some commit =>
          { s.setCheckout key (some ⟨true, []⟩) with
            registered := Dict.set s.registered key commit }.go (.fill key commit.tree next)
      | none => s.finish .refused
  | .fill key (file :: rest) next =>
      match s.checkouts key with
      | some checkout =>
          (s.setCheckout key (some ⟨checkout.pointer, checkout.files ++ [file]⟩)).go
            (.fill key rest next)
      | none => s.finish .refused
  | .fill key [] next => s.arrive it key next
  | .pruneBranch job =>
      let todo := s.registered.filter fun e => e.2 ∈ job.commits
      match Dict.get? s.branches job.epoch with
      | some head =>
          if head ∈ job.commits then
            match firstKept job.commits head with
            | some kept => (s.setBranch job.epoch kept).go (.pruneWorktrees job todo)
            | none => s.finish .refused
          else s.go (.pruneWorktrees job todo)
      | none => s.go (.pruneWorktrees job todo)
  | .pruneWorktrees job ((key, _) :: todo) =>
      -- A registered worktree at a discarded commit is a selected one, and still has its pointer
      -- or is gone.
      if ¬ job.selects key ∨ ((s.checkouts key).isSome ∧ s.pointed key = false) then
        s.finish .refused
      else
        { s.setCheckout key none with registered := Dict.erase s.registered key }.go
          (.pruneWorktrees job todo)
  | .pruneWorktrees job [] => s.go (.pruneDirs job job.ids)
  | .pruneDirs job (id :: rest) =>
      (s.setCheckout (job.epoch, id) none).go (.pruneDirs job rest)
  | .pruneDirs job [] => s.go (.pruneSweep job)
  | .pruneSweep job =>
      if s.sweepRegistered.registered.any fun e => e.2 ∈ job.commits then
        s.sweepRegistered.finish .refused
      else s.sweepRegistered.go (.pruneTags job job.ids)
  | .pruneTags job (id :: rest) => (s.setTag (job.epoch, id) none).go (.pruneTags job rest)
  | .pruneTags job [] =>
      if job.ids.any fun id => s.hasGeneration (job.epoch, id) then s.finish .refused
      else s.finish .pruned

/-- The directory that a call is removing. -/
def Stage.removing : Stage α P → Option Key
  | .drop key => some key
  | .remove key _ => some key
  | .pruneDirs job (id :: _) => some (job.epoch, id)
  | _ => none

/-- What `shutil.rmtree` may leave of a directory. -/
def Checkout.leaves (checkout left : Checkout α) : Bool :=
  left.files.isSublist checkout.files && (checkout.pointer || !left.pointer)

/-- One action; there is one call at a time. -/
def State.step (s : State α P) : Action α P S → Option (State α P × Outcome)
  | .seed key sources =>
      if s.stage.isNone then
        match it.prepare sources with
        | none => some (s, .refused)
        | some files =>
            if s.hasGeneration key then some (s, .refused)
            else some (s.go (.seedInit ⟨key, false, it.message none none, it.staged files⟩))
      else none
  | .derive d =>
      if s.stage.isNone then
        if s.hasGeneration (d.epoch, d.parent) then some (s.go (.deriveCheckout d))
        else some (s, .refused)
      else none
  | .materialize key =>
      if s.stage.isNone then
        if s.hasGeneration key then some (s.go (.look key none)) else some (s, .refused)
      else none
  | .prune epoch ids dryRun =>
      if s.stage.isNone then
        if dryRun ∨ s.repo = false then some (s, .counted)
        else some (s.go (.pruneBranch (s.pruneJob epoch ids)))
      else none
  | .advance time => s.stage.map (s.advance it time)
  | .dismantle left => do
      let key ← (← s.stage).removing
      let checkout ← s.checkouts key
      if checkout.leaves left then some (s.setCheckout key (some left), .running) else none
  | .stop => some (s.finish .refused)

end Steps

end Zicato.GitStore
