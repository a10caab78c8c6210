import Zicato.GitStore

/-! # What the git generation store keeps

Over every run of the calls with a crash at any step: a worktree that a call returns holds the
files of its generation's commit, a tag moves only when its generation is derived again, and a
prune spares the other generations. -/
open List Option Zicato.Dict
namespace Zicato.GitStore

variable {α P S : Type}

/-! ## What holds of a store -/

/-- The worktree of a generation holds the files of the commit that the tag names. -/
def State.Standing (s : State α P) (key : Key) : Prop :=
  ∃ commit checkout, s.tags key = some commit ∧ s.headOf key = some commit ∧
    s.checkouts key = some checkout ∧ checkout.files = commit.tree

/-- A worktree that would be reused is complete. -/
def State.Whole (s : State α P) (key : Key) : Prop :=
  s.headOf key = s.tags key → (s.tags key).isSome → s.Standing key

/-- The generations that a prune does not select are as they were. -/
structure Spared (s₀ s : State α P) (epoch : String) (ids : List String) : Prop where
  tags : ∀ key, ¬ (key.1 = epoch ∧ key.2 ∈ ids) → s.tags key = s₀.tags key
  checkouts : ∀ key, ¬ (key.1 = epoch ∧ key.2 ∈ ids) → s.checkouts key = s₀.checkouts key
  heads : ∀ key, ¬ (key.1 = epoch ∧ key.2 ∈ ids) → s.headOf key = s₀.headOf key

/-- The branch of an epoch is not at a commit that is pruned. -/
def Rewound (s₀ s : State α P) (epoch : String) (ids : List String) : Prop :=
  ∀ head, Dict.get? s.branches epoch = some head → ∀ id ∈ ids, s₀.tags (epoch, id) ≠ some head

/-- The generation that a call returns the worktree of. -/
def Action.target : Action α P S → Option Key
  | .seed key _ => some key
  | .derive d => some (d.epoch, d.child)
  | .materialize key => some key
  | _ => none

/-- The call that was made last, and the state that it was made in. -/
abbrev Last (α P S : Type) := Option (Action α P S × State α P)

/-- The call that was made last, after an action. -/
def Action.after (s : State α P) (last : Last α P S) : Action α P S → Last α P S
  | .advance _ | .dismantle _ | .stop => last
  | call => some (call, s)

/-- What holds of a step, under the call that was made last. -/
structure Kept (last : Last α P S) (s s' : State α P) (outcome : Outcome) : Prop where
  returned : ∀ key, outcome = .returned key →
    ∃ call s₀, last = some (call, s₀) ∧ call.target = some key ∧ s'.Standing key
  retagged : ∀ key commit commit', s.tags key = some commit → s'.tags key = some commit' →
    commit ≠ commit' → ∃ d s₀, last = some (.derive d, s₀) ∧ (d.epoch, d.child) = key
  untagged : ∀ key, s.tags key ≠ none → s'.tags key = none →
    ∃ epoch ids s₀, last = some (.prune epoch ids false, s₀) ∧ key.1 = epoch ∧ key.2 ∈ ids
  pruned : outcome = .pruned →
    ∃ epoch ids s₀, last = some (.prune epoch ids false, s₀) ∧
      Spared s₀ s' epoch ids ∧ Rewound s₀ s' epoch ids

/-! ## Runs -/

/-- The empty store. -/
def State.fresh : State α P where
  repo := false
  root := none
  branches := []
  tags := fun _ => none
  checkouts := fun _ => none
  registered := []
  stage := none

/-- A crash does not fall inside a `worktree add`, nor inside the removal of an earlier attempt's
worktree that is at the very commit that the tag has been moved to. -/
def Orderly (s : State α P) : Action α P S → Prop
  | .stop =>
      match s.stage with
      | some (.fill _ (_ :: _) _) => False
      | some (.drop key) => s.Whole key
      | _ => True
  | _ => True

theorem orderly_advance (s : State α P) (time : Nat) :
    Orderly s (.advance time : Action α P S) := trivial

/-- The states of the runs whose steps are all orderly, with the call that was made last. -/
inductive Run [DecidableEq α] (it : Interp α P S) : Last α P S → State α P → Prop
  | fresh : Run it none State.fresh
  | step {last : Last α P S} {s s' : State α P} {action : Action α P S} {outcome : Outcome}
      (h : Run it last s) (ho : Orderly s action) (hs : s.step it action = some (s', outcome)) :
      Run it (action.after s last) s'

/-! ## The invariant -/

/-- What the making of a commit relies on. -/
def CommitJob.Fits (job : CommitJob α) (call : Action α P S) (s : State α P) : Prop :=
  if job.derived then ∃ d, call = .derive d ∧ (d.epoch, d.child) = job.key
  else call.target = some job.key ∧ s.tags job.key = none

/-- The worktree is checked out for the call. -/
def Serves (call : Action α P S) (key : Key) : Next P → Prop
  | none => call.target = some key
  | some d => call = .derive d

/-- What holds all through a prune. -/
structure PruneJob.Fits (job : PruneJob α) (call : Action α P S) (s₀ s : State α P) : Prop where
  call : call = .prune job.epoch job.ids false
  commits : job.commits = job.ids.filterMap fun id => s₀.tags (job.epoch, id)
  spared : Spared s₀ s job.epoch job.ids

/-- The directories of the selected generations are gone, except for some. -/
def PruneJob.Cleared (job : PruneJob α) (s : State α P) (rest : List String) : Prop :=
  ∀ id ∈ job.ids, id ∉ rest → s.checkouts (job.epoch, id) = none

/-- What holds where a call is. -/
def Stage.Fits (call : Action α P S) (s₀ s : State α P) : Stage α P → Prop
  | .seedInit job | .seedRoot job | .seedBranch job | .seedCheckout job | .commit job | .tag job =>
      job.Fits call s
  | .deriveCheckout d | .deriveReset d => call = .derive d
  | .drop key => call.target = some key ∧ (s.tags key).isSome
  | .look key next => Serves call key next ∧ (s.tags key).isSome
  | .remove key next =>
      Serves call key next ∧ (s.tags key).isSome ∧ s.headOf key ≠ s.tags key
  | .sweep key next | .add key next =>
      Serves call key next ∧ (s.tags key).isSome ∧ s.checkouts key = none
  | .fill key rest next =>
      Serves call key next ∧ ∃ commit done, s.tags key = some commit ∧
        Dict.get? s.registered key = some commit ∧ s.checkouts key = some ⟨true, done⟩ ∧
        commit.tree = done ++ rest
  | .pruneBranch job => job.Fits call s₀ s ∧ s.tags = s₀.tags
  | .pruneWorktrees job todo =>
      job.Fits call s₀ s ∧ s.tags = s₀.tags ∧ Rewound s₀ s job.epoch job.ids ∧
        ∀ e ∈ s.registered, e.2 ∈ job.commits → e ∈ todo
  | .pruneDirs job rest =>
      job.Fits call s₀ s ∧ s.tags = s₀.tags ∧ Rewound s₀ s job.epoch job.ids ∧
        (∀ e ∈ s.registered, e.2 ∉ job.commits) ∧ (∀ id ∈ rest, id ∈ job.ids) ∧
        job.Cleared s rest
  | .pruneSweep job =>
      job.Fits call s₀ s ∧ Rewound s₀ s job.epoch job.ids ∧ job.Cleared s []
  | .pruneTags job rest =>
      job.Fits call s₀ s ∧ Rewound s₀ s job.epoch job.ids ∧ (∀ id ∈ rest, id ∈ job.ids) ∧
        job.Cleared s []

/-- The generation whose worktree is not whole while a call is there. -/
def Stage.opens : Stage α P → Option Key
  | .drop key | .fill key _ _ => some key
  | _ => none

/-- What a run of calls and crashes keeps. -/
structure Inv (last : Last α P S) (s : State α P) : Prop where
  whole : ∀ key, s.stage.bind Stage.opens ≠ some key → s.Whole key
  clean : ∀ key, s.tags key = none → s.checkouts key = none
  stage : ∀ stage, s.stage = some stage →
    ∃ call s₀, last = some (call, s₀) ∧ stage.Fits call s₀ s

theorem Inv.fresh : Inv (none : Last α P S) (State.fresh : State α P) where
  whole key _ _ hsome := by cases hsome
  clean key _ := rfl
  stage stage hstage := by cases hstage

/-! ## What the updates of a store change -/

section Updates

variable {s s' : State α P} {key k : Key}

theorem headOf_of_none (h : s.checkouts key = none) : s.headOf key = none := by
  rw [State.headOf, h]

theorem headOf_of_some {files : List α} (h : s.checkouts key = some ⟨true, files⟩) :
    s.headOf key = Dict.get? s.registered key := by
  rw [State.headOf, h]
  rfl

theorem headOf_congr (hc : s'.checkouts key = s.checkouts key)
    (hr : Dict.get? s'.registered key = Dict.get? s.registered key) :
    s'.headOf key = s.headOf key := by
  rw [State.headOf, State.headOf, hc, hr]

/-- The entry that gives a worktree its `HEAD`. -/
theorem mem_registered_of_headOf {commit : Commit α} (h : s.headOf key = some commit) :
    (key, commit) ∈ s.registered := by
  rw [State.headOf] at h
  split at h
  · split at h
    · exact mem_of_get? h
    · cases h
  · cases h

theorem setCheckout_self (checkout : Option (Checkout α)) :
    (s.setCheckout k checkout).checkouts k = checkout := if_pos rfl

theorem setCheckout_ne (checkout : Option (Checkout α)) (h : key ≠ k) :
    (s.setCheckout k checkout).checkouts key = s.checkouts key := if_neg h

theorem setTag_self (commit : Option (Commit α)) : (s.setTag k commit).tags k = commit :=
  if_pos rfl

theorem setTag_ne (commit : Option (Commit α)) (h : key ≠ k) :
    (s.setTag k commit).tags key = s.tags key := if_neg h

/-- `git worktree prune` changes no `HEAD` that can be read. -/
theorem headOf_sweepRegistered (s : State α P) (key : Key) :
    s.sweepRegistered.headOf key = s.headOf key := by
  cases hc : s.checkouts key with
  | none =>
    rw [headOf_of_none hc]
    exact headOf_of_none hc
  | some checkout =>
    obtain ⟨pointer, files⟩ := checkout
    cases pointer with
    | false => simp [State.headOf, State.sweepRegistered, hc]
    | true =>
      refine headOf_congr rfl (get?_filter fun _ => ?_)
      simp [State.pointed, hc]

/-- Completeness is about one generation's tag, directory and `HEAD`. -/
theorem State.Whole.congr (h : s.Whole key) (htags : s'.tags key = s.tags key)
    (hcheckouts : s'.checkouts key = s.checkouts key) (hheads : s'.headOf key = s.headOf key) :
    s'.Whole key := by
  unfold State.Whole State.Standing
  rw [htags, hcheckouts, hheads]
  exact h

/-- A generation without a directory is whole. -/
theorem whole_of_none (h : s.checkouts key = none) : s.Whole key := by
  intro heq hsome
  rw [headOf_of_none h] at heq
  rw [← heq] at hsome
  cases hsome

theorem whole_of_ne (h : s.headOf key ≠ s.tags key) : s.Whole key := fun heq => absurd heq h

theorem whole_of_standing (h : s.Standing key) : s.Whole key := fun _ _ => h

/-- No worktree stands without a tag, and each that would be reused is complete. -/
structure State.Tidy (s : State α P) : Prop where
  whole : ∀ key, s.Whole key
  clean : ∀ key, s.tags key = none → s.checkouts key = none

/-- A directory is made only for a tagged generation. -/
theorem clean_setCheckout (hclean : ∀ key, s.tags key = none → s.checkouts key = none)
    {checkout : Option (Checkout α)} (h : checkout = none ∨ (s.tags key).isSome) (k : Key)
    (hnone : s.tags k = none) : (s.setCheckout key checkout).checkouts k = none := by
  by_cases hk : k = key
  · subst hk
    rcases h with rfl | hsome
    · exact setCheckout_self none
    · rw [hnone] at hsome
      cases hsome
  · exact (setCheckout_ne _ hk).trans (hclean k hnone)

end Updates

/-! ## One step of a call -/

section Advance

variable {call : Action α P S} {s₀ s s' : State α P} {outcome : Outcome}

/-- What a step of a call is to keep. -/
def Sound (call : Action α P S) (s₀ s : State α P) (result : State α P × Outcome) : Prop :=
  Kept (some (call, s₀)) s result.1 result.2 ∧ Inv (some (call, s₀)) result.1

/-- A step that moves no tag and returns nothing. -/
theorem Kept.quiet {last : Last α P S} (htags : s'.tags = s.tags)
    (ho : outcome = .running ∨ outcome = .refused ∨ outcome = .counted) :
    Kept last s s' outcome where
  returned key hr := by
    rcases ho with rfl | rfl | rfl <;> cases hr
  retagged key commit commit' hbefore hafter hne := by
    rw [htags, hbefore, some.injEq] at hafter
    exact absurd hafter hne
  untagged key hbefore hafter := by
    rw [htags] at hafter
    exact absurd hafter hbefore
  pruned hp := by
    rcases ho with rfl | rfl | rfl <;> cases hp

theorem Spared.congr {epoch : String} {ids : List String} (h : Spared s₀ s epoch ids)
    (htags : ∀ key, ¬ (key.1 = epoch ∧ key.2 ∈ ids) → s'.tags key = s.tags key)
    (hcheckouts : ∀ key, ¬ (key.1 = epoch ∧ key.2 ∈ ids) → s'.checkouts key = s.checkouts key)
    (hheads : ∀ key, ¬ (key.1 = epoch ∧ key.2 ∈ ids) → s'.headOf key = s.headOf key) :
    Spared s₀ s' epoch ids where
  tags key hkey := (htags key hkey).trans (h.tags key hkey)
  checkouts key hkey := (hcheckouts key hkey).trans (h.checkouts key hkey)
  heads key hkey := (hheads key hkey).trans (h.heads key hkey)

theorem PruneJob.Fits.congr {job : PruneJob α} (h : job.Fits call s₀ s)
    (htags : ∀ key, ¬ job.selects key → s'.tags key = s.tags key)
    (hcheckouts : ∀ key, ¬ job.selects key → s'.checkouts key = s.checkouts key)
    (hheads : ∀ key, ¬ job.selects key → s'.headOf key = s.headOf key) :
    job.Fits call s₀ s' where
  call := h.call
  commits := h.commits
  spared := h.spared.congr htags hcheckouts hheads

theorem PruneJob.Fits.same {job : PruneJob α} (h : job.Fits call s₀ s) (htags : s'.tags = s.tags)
    (hcheckouts : s'.checkouts = s.checkouts) (hheads : s'.headOf = s.headOf) :
    job.Fits call s₀ s' :=
  h.congr (fun _ _ => congrFun htags _) (fun _ _ => congrFun hcheckouts _) fun _ _ =>
    congrFun hheads _

variable {stage : Stage α P}

/-- What holds where a call is, is about the store. -/
theorem Stage.Fits.go {stage' : Stage α P} (h : stage.Fits call s₀ s) :
    stage.Fits call s₀ (s.go stage').1 := by
  cases stage with
  | pruneBranch | pruneWorktrees | pruneDirs | pruneSweep | pruneTags =>
    exact ⟨h.1.same rfl rfl rfl, h.2⟩
  | _ => exact h

/-- A call that goes on. -/
theorem Inv.go (hwhole : ∀ key, stage.opens ≠ some key → s.Whole key)
    (hclean : ∀ key, s.tags key = none → s.checkouts key = none) (hfits : stage.Fits call s₀ s) :
    Inv (some (call, s₀)) (s.go stage).1 where
  whole key hopens := hwhole key fun heq => hopens (by simpa [State.go] using heq)
  clean := hclean
  stage stage' heq := by
    cases heq
    exact ⟨call, s₀, rfl, hfits.go⟩

/-- A call that is over. -/
theorem Inv.finish {last : Last α P S} (ht : s.Tidy) : Inv last (s.finish outcome).1 where
  whole key _ := ht.whole key
  clean := ht.clean
  stage stage heq := by cases heq

/-- A step that changes neither a tag nor a worktree. -/
theorem Sound.go (htags : s'.tags = s.tags) (hcheckouts : s'.checkouts = s.checkouts)
    (hheads : s'.headOf = s.headOf) (ht : s.Tidy) (hfits : stage.Fits call s₀ s') :
    Sound call s₀ s (s'.go stage) := by
  refine ⟨Kept.quiet htags (.inl rfl), Inv.go (fun key _ => ?_) (fun key hnone => ?_) hfits⟩
  · exact (ht.whole key).congr (congrFun htags key) (congrFun hcheckouts key) (congrFun hheads key)
  · rw [hcheckouts]
    exact ht.clean key (by rw [← hnone, htags])

theorem Sound.refused (ht : s.Tidy) : Sound call s₀ s (s.finish .refused) :=
  ⟨Kept.quiet rfl (.inr (.inl rfl)), Inv.finish ht⟩

/-- The worktree of a generation that is there is returned, or a child is made of it. -/
theorem Sound.arrive [DecidableEq α] (it : Interp α P S) {key : Key} {next : Next P}
    (hserves : Serves call key next) (hstanding : s.Standing key) (ht : s.Tidy) :
    Sound call s₀ s (s.arrive it key next) := by
  cases next with
  | none =>
    refine ⟨⟨?_, ?_, ?_, ?_⟩, Inv.finish ht⟩
    · intro key' heq
      cases heq
      exact ⟨call, s₀, rfl, hserves, hstanding⟩
    · intro key' commit commit' hbefore hafter hne
      exact absurd (some.inj (hbefore.symm.trans hafter)) hne
    · intro key' hbefore hafter
      exact absurd hafter hbefore
    · intro heq
      cases heq
  | some d =>
    obtain ⟨commit, checkout, -, -, hcheckout, -⟩ := hstanding
    simp only [State.arrive, hcheckout]
    split
    · exact Sound.refused ht
    · exact Sound.go rfl rfl rfl ht ⟨d, hserves, rfl⟩

/-- The branch of the new commit is tagged. -/
theorem Sound.tag {job : CommitJob α} {commit : Commit α} (hjob : job.Fits call s) (ht : s.Tidy) :
    Sound call s₀ s ((s.setTag job.key (some commit)).go
      (if job.derived then .drop job.key else .look job.key none)) := by
  have hother : ∀ key, key ≠ job.key → (s.setTag job.key (some commit)).Whole key :=
    fun key hne => (ht.whole key).congr (setTag_ne _ hne) rfl rfl
  have hclean' : ∀ key, (s.setTag job.key (some commit)).tags key = none →
      s.checkouts key = none := by
    intro key hnone
    by_cases hkey : key = job.key
    · rw [hkey, setTag_self] at hnone
      cases hnone
    · rw [setTag_ne _ hkey] at hnone
      exact ht.clean key hnone
  have hsome : ((s.setTag job.key (some commit)).tags job.key).isSome := by
    rw [setTag_self]
    rfl
  unfold CommitJob.Fits at hjob
  refine ⟨⟨?_, ?_, ?_, ?_⟩, ?_⟩
  · intro key heq
    cases heq
  · intro key before after hbefore hafter hne
    by_cases hkey : key = job.key
    · subst hkey
      split at hjob
      · obtain ⟨d, rfl, hkey⟩ := hjob
        exact ⟨d, s₀, rfl, hkey⟩
      · rw [hjob.2] at hbefore
        cases hbefore
    · have hsame := (setTag_ne (some commit) hkey).symm.trans hafter
      exact absurd (some.inj (hbefore.symm.trans hsame)) hne
  · intro key hbefore hafter
    by_cases hkey : key = job.key
    · have hself := hkey ▸ hafter
      change (s.setTag job.key (some commit)).tags job.key = none at hself
      rw [setTag_self] at hself
      cases hself
    · exact absurd ((setTag_ne (some commit) hkey).symm.trans hafter) hbefore
  · intro heq
    cases heq
  · cases hderived : job.derived with
    | true =>
      rw [hderived, if_pos rfl] at hjob
      obtain ⟨d, rfl, hkey⟩ := hjob
      refine Inv.go (fun key hopens => hother key fun heq => hopens (heq ▸ rfl)) hclean'
        ⟨?_, hsome⟩
      exact congrArg some hkey
    | false =>
      rw [hderived, if_neg Bool.false_ne_true] at hjob
      refine Inv.go (fun key _ => ?_) hclean' ⟨hjob.1, hsome⟩
      by_cases hkey : key = job.key
      · exact whole_of_none (hkey ▸ ht.clean job.key hjob.2)
      · exact hother key hkey

/-- A worktree that is not whole, or is of another commit, is removed. -/
theorem Sound.clear {key : Key} (hwhole : ∀ k, k ≠ key → s.Whole k)
    (hclean : ∀ key, s.tags key = none → s.checkouts key = none)
    (hfits : stage.Fits call s₀ (s.setCheckout key none)) :
    Sound call s₀ s ((s.setCheckout key none).go stage) := by
  refine ⟨Kept.quiet rfl (.inl rfl),
    Inv.go (fun k _ => ?_) (clean_setCheckout hclean (.inl rfl)) hfits⟩
  by_cases hk : k = key
  · exact whole_of_none (hk ▸ setCheckout_self none)
  · have hsame := setCheckout_ne (s := s) none hk
    exact (hwhole k hk).congr rfl hsame (headOf_congr hsame rfl)

/-- `git worktree add` makes the directory. -/
theorem Sound.add {key : Key} {next : Next P} {commit : Commit α} (hserves : Serves call key next)
    (htag : s.tags key = some commit) (ht : s.Tidy) :
    Sound call s₀ s (State.go { s.setCheckout key (some ⟨true, []⟩) with
      registered := Dict.set s.registered key commit } (.fill key commit.tree next)) := by
  refine ⟨Kept.quiet rfl (.inl rfl), Inv.go (fun k hopens => ?_)
    (clean_setCheckout ht.clean (.inr (by rw [htag]; rfl)))
    ⟨hserves, commit, [], htag, ?_, setCheckout_self _, rfl⟩⟩
  · have hk : k ≠ key := fun heq => hopens (heq ▸ rfl)
    have hsame := setCheckout_ne (s := s) (some ⟨true, []⟩) hk
    refine (ht.whole k).congr rfl hsame (headOf_congr hsame ?_)
    exact (get?_set ..).trans (if_neg (Ne.symm hk))
  · exact (get?_set ..).trans (if_pos rfl)

/-- `git worktree add` writes a file. -/
theorem Sound.fill {key : Key} {next : Next P} {file : α} {rest done : List α}
    {commit : Commit α} (hserves : Serves call key next) (htag : s.tags key = some commit)
    (hregistered : Dict.get? s.registered key = some commit)
    (htree : commit.tree = done ++ file :: rest) (hwhole : ∀ k, k ≠ key → s.Whole k)
    (hclean : ∀ key, s.tags key = none → s.checkouts key = none) :
    Sound call s₀ s ((s.setCheckout key (some ⟨true, done ++ [file]⟩)).go
      (.fill key rest next)) := by
  refine ⟨Kept.quiet rfl (.inl rfl), Inv.go (fun k hopens => ?_)
    (clean_setCheckout hclean (.inr (by rw [htag]; rfl)))
    ⟨hserves, commit, done ++ [file], htag, hregistered, setCheckout_self _, by simp [htree]⟩⟩
  have hk : k ≠ key := fun heq => hopens (heq ▸ rfl)
  have hsame := setCheckout_ne (s := s) (some ⟨true, done ++ [file]⟩) hk
  exact (hwhole k hk).congr rfl hsame (headOf_congr hsame rfl)

end Advance

/-! ## One step of a prune -/

section Prune

variable {call : Action α P S} {s₀ s : State α P} {job : PruneJob α}

/-- The discarded commits are those that the tags named when the prune was called. -/
theorem PruneJob.Fits.mem_commits (h : job.Fits call s₀ s) (commit : Commit α) :
    commit ∈ job.commits ↔ ∃ id ∈ job.ids, s₀.tags (job.epoch, id) = some commit := by
  rw [h.commits, mem_filterMap]

theorem PruneJob.Fits.rewound (h : job.Fits call s₀ s)
    (hhead : ∀ head, Dict.get? s.branches job.epoch = some head → head ∉ job.commits) :
    Rewound s₀ s job.epoch job.ids := fun head hbranch id hid htag =>
  hhead head hbranch ((h.mem_commits head).mpr ⟨id, hid, htag⟩)

/-- Only what the job selects has been changed. -/
theorem PruneJob.Fits.setCheckout (h : job.Fits call s₀ s) {key : Key} (hkey : job.selects key)
    (registered : Dict Key (Commit α))
    (hregistered : ∀ k, k ≠ key → Dict.get? registered k = Dict.get? s.registered k)
    (checkout : Option (Checkout α)) :
    job.Fits call s₀ { s.setCheckout key checkout with registered := registered } := by
  have hne : ∀ k, ¬ job.selects k → k ≠ key := by
    rintro k hk rfl
    exact hk hkey
  refine h.congr (fun _ _ => rfl) (fun k hk => setCheckout_ne checkout (hne k hk)) fun k hk => ?_
  exact headOf_congr (setCheckout_ne checkout (hne k hk)) (hregistered k (hne k hk))

theorem PruneJob.Cleared.setCheckout {rest : List String} (h : job.Cleared s rest) (key : Key)
    (checkout : Option (Checkout α)) (hcheckout : checkout = none ∨ key.2 ∈ rest) :
    job.Cleared (s.setCheckout key checkout) rest := by
  intro id hid hrest
  by_cases hkey : (job.epoch, id) = key
  · rcases hcheckout with rfl | hmem
    · exact hkey ▸ setCheckout_self none
    · subst hkey
      exact absurd hmem hrest
  · exact (setCheckout_ne checkout hkey).trans (h id hid hrest)

/-- No kept ancestor is discarded. -/
theorem firstKept_notMem [DecidableEq α] {commits : List (Commit α)} {commit kept : Commit α}
    (h : firstKept commits commit = some kept) : kept ∉ commits := by
  induction commit with
  | root files =>
    rw [firstKept] at h
    split at h
    · cases h
    · cases h
      assumption
  | node parent key message files time ih =>
    rw [firstKept] at h
    split at h
    · exact ih h
    · cases h
      assumption

variable {time : Nat}

variable {it : Interp α P S}

/-- The branch is rewound, or stays. -/
theorem Sound.pruneBranch [DecidableEq α]
    (hfits : (Stage.pruneBranch job : Stage α P).Fits call s₀ s) (ht : s.Tidy) :
    Sound call s₀ s (s.advance it time (.pruneBranch job)) := by
  obtain ⟨hjob, htags⟩ := hfits
  have htodo : ∀ e ∈ s.registered, e.2 ∈ job.commits →
      e ∈ s.registered.filter fun e => e.2 ∈ job.commits :=
    fun e he hcommit => mem_filter.mpr ⟨he, decide_eq_true hcommit⟩
  simp only [State.advance]
  split
  · rename_i head hhead
    split
    · split
      · rename_i kept hkept
        have hjob' : job.Fits call s₀ (s.setBranch job.epoch kept) :=
          hjob.same rfl rfl rfl
        refine Sound.go rfl rfl rfl ht ⟨hjob', htags, hjob'.rewound ?_, htodo⟩
        intro head' hhead'
        change Dict.get? (Dict.set s.branches job.epoch kept) job.epoch = some head' at hhead'
        rw [get?_set, if_pos rfl, some.injEq] at hhead'
        exact hhead' ▸ firstKept_notMem hkept
      · exact Sound.refused ht
    · rename_i hkeep
      refine Sound.go rfl rfl rfl ht ⟨hjob, htags, hjob.rewound ?_, htodo⟩
      intro head' hhead'
      rw [hhead, some.injEq] at hhead'
      exact hhead' ▸ hkeep
  · rename_i hnone
    refine Sound.go rfl rfl rfl ht ⟨hjob, htags, hjob.rewound ?_, htodo⟩
    intro head' hhead'
    rw [hnone] at hhead'
    cases hhead'

/-- A registered worktree at a discarded commit is removed. -/
theorem Sound.pruneWorktree [DecidableEq α] {e : Key × Commit α} {todo : List (Key × Commit α)}
    (hfits : (Stage.pruneWorktrees job (e :: todo) : Stage α P).Fits call s₀ s) (ht : s.Tidy) :
    Sound call s₀ s (s.advance it time (.pruneWorktrees job (e :: todo))) := by
  obtain ⟨hjob, htags, hrewound, htodo⟩ := hfits
  obtain ⟨key, commit⟩ := e
  simp only [State.advance]
  split
  · exact Sound.refused ht
  · rename_i hcond
    have hkey : job.selects key := by
      by_contra hkey
      exact hcond (.inl hkey)
    have herase : ∀ k, k ≠ key →
        Dict.get? (Dict.erase s.registered key) k = Dict.get? s.registered k := fun k hk => by
      rw [get?_erase, if_neg (Ne.symm hk)]
    refine ⟨Kept.quiet rfl (.inl rfl), Inv.go (fun k _ => ?_)
      (clean_setCheckout ht.clean (.inl rfl))
      ⟨hjob.setCheckout hkey _ herase none, htags, hrewound, fun e he hcommit => ?_⟩⟩
    · by_cases hk : k = key
      · exact whole_of_none (hk ▸ setCheckout_self none)
      · have hsame := setCheckout_ne (s := s) none hk
        exact (ht.whole k).congr rfl hsame (headOf_congr hsame (herase k hk))
    · obtain ⟨hmem, hne⟩ := mem_filter.mp he
      rcases mem_cons.mp (htodo e hmem hcommit) with rfl | htail
      · simp at hne
      · exact htail

/-- What `worktree prune` leaves is inspected. -/
theorem Sound.pruneSweep [DecidableEq α] (hfits : (Stage.pruneSweep job : Stage α P).Fits call s₀ s)
    (ht : s.Tidy) : Sound call s₀ s (s.advance it time (.pruneSweep job)) := by
  obtain ⟨hjob, hrewound, hcleared⟩ := hfits
  simp only [State.advance]
  split
  · refine ⟨Kept.quiet rfl (.inr (.inl rfl)), Inv.finish ⟨fun key => ?_, ht.clean⟩⟩
    exact (ht.whole key).congr rfl rfl (headOf_sweepRegistered s key)
  · exact Sound.go rfl rfl (funext (headOf_sweepRegistered s)) ht
      ⟨hjob.same rfl rfl (funext (headOf_sweepRegistered s)), hrewound, fun _ hid => hid, hcleared⟩

/-- A tag is deleted. -/
theorem Sound.untag {id : String} {rest : List String}
    (hfits : (Stage.pruneTags job (id :: rest) : Stage α P).Fits call s₀ s) (ht : s.Tidy) :
    Sound call s₀ s ((s.setTag (job.epoch, id) none).go (.pruneTags job rest)) := by
  obtain ⟨hjob, hrewound, hrest, hcleared⟩ := hfits
  have hid : id ∈ job.ids := hrest id mem_cons_self
  have hne : ∀ k, ¬ job.selects k → k ≠ (job.epoch, id) := by
    rintro k hk rfl
    exact hk ⟨rfl, hid⟩
  refine ⟨⟨?_, ?_, ?_, ?_⟩, Inv.go (fun k _ => ?_) (fun k hnone => ?_) ⟨?_, hrewound, ?_, hcleared⟩⟩
  · intro key heq
    cases heq
  · intro key before after hbefore hafter hchange
    by_cases hkey : key = (job.epoch, id)
    · subst hkey
      cases (setTag_self none).symm.trans hafter
    · exact absurd (some.inj (hbefore.symm.trans ((setTag_ne none hkey).symm.trans hafter)))
        hchange
  · intro key hbefore hafter
    by_cases hkey : key = (job.epoch, id)
    · subst hkey
      exact ⟨job.epoch, job.ids, s₀, by rw [hjob.call], rfl, hid⟩
    · exact absurd ((setTag_ne none hkey).symm.trans hafter) hbefore
  · intro heq
    cases heq
  · by_cases hk : k = (job.epoch, id)
    · subst hk
      exact whole_of_none (hcleared id hid not_mem_nil)
    · exact (ht.whole k).congr (setTag_ne none hk) rfl rfl
  · by_cases hk : k = (job.epoch, id)
    · subst hk
      exact hcleared id hid not_mem_nil
    · exact ht.clean k ((setTag_ne none hk).symm.trans hnone)
  · exact hjob.congr (fun k hk => setTag_ne none (hne k hk)) (fun _ _ => rfl) fun _ _ => rfl
  · exact fun id' hid' => hrest id' (mem_cons_of_mem _ hid')

end Prune

/-! ## Every step -/

section Steps

variable [DecidableEq α] {it : Interp α P S} {last : Last α P S} {call : Action α P S}
  {s₀ s s' : State α P} {outcome : Outcome}

/-- What a call keeps wherever it is. -/
theorem Inv.advance (h : Inv (some (call, s₀)) s) {stage : Stage α P}
    (hstage : s.stage = some stage) (time : Nat) : Sound call s₀ s (s.advance it time stage) := by
  have hclean := h.clean
  have hfits : stage.Fits call s₀ s := by
    obtain ⟨call', s₀', heq, hfits⟩ := h.stage stage hstage
    cases heq
    exact hfits
  have hother : ∀ key, stage.opens ≠ some key → s.Whole key := fun key hopens =>
    h.whole key (by rwa [hstage])
  have hall : stage.opens = none → s.Tidy := fun hopens =>
    ⟨fun key => hother key (by rw [hopens]; exact (some_ne_none key).symm), hclean⟩
  cases stage with
  | seedInit job =>
    have ht := hall rfl
    simp only [State.advance]
    split
    · exact Sound.go rfl rfl rfl ht hfits
    · exact Sound.go rfl rfl rfl ht hfits
  | seedRoot job => exact Sound.go rfl rfl rfl (hall rfl) hfits
  | seedBranch job =>
    have ht := hall rfl
    simp only [State.advance]
    split
    · exact Sound.go rfl rfl rfl ht hfits
    · exact Sound.go rfl rfl rfl ht hfits
    · exact Sound.refused ht
  | seedCheckout job => exact Sound.go rfl rfl rfl (hall rfl) hfits
  | deriveCheckout d | commit job =>
    have ht := hall rfl
    simp only [State.advance]
    split
    · exact Sound.go rfl rfl rfl ht hfits
    · exact Sound.refused ht
  | deriveReset d =>
    have ht := hall rfl
    simp only [State.advance]
    split
    · rename_i commit hcommit
      refine Sound.go rfl rfl rfl ht ⟨hfits, ?_⟩
      exact isSome_iff_exists.mpr ⟨commit, hcommit⟩
    · exact Sound.refused ht
  | tag job =>
    have ht := hall rfl
    simp only [State.advance]
    split
    · exact Sound.tag hfits ht
    · exact Sound.refused ht
  | drop key =>
    refine Sound.clear (fun k hk => hother k fun heq => ?_) hclean hfits
    exact hk (some.inj heq).symm
  | look key next =>
    have ht := hall rfl
    simp only [State.advance]
    split
    · rename_i hnone
      exact Sound.go rfl rfl rfl ht ⟨hfits.1, hfits.2, hnone⟩
    · split
      · rename_i hhead
        exact Sound.arrive it hfits.1 (ht.whole key hhead hfits.2) ht
      · rename_i hhead
        exact Sound.go rfl rfl rfl ht ⟨hfits.1, hfits.2, hhead⟩
  | remove key next =>
    exact Sound.clear (fun k _ => (hall rfl).whole k) hclean ⟨hfits.1, hfits.2.1, setCheckout_self none⟩
  | sweep key next =>
    exact Sound.go rfl rfl (funext (headOf_sweepRegistered s)) (hall rfl) hfits
  | add key next =>
    have ht := hall rfl
    simp only [State.advance]
    split
    · rename_i commit hcommit
      exact Sound.add hfits.1 hcommit ht
    · exact Sound.refused ht
  | fill key rest next =>
    obtain ⟨hserves, commit, done, htag, hregistered, hcheckout, htree⟩ := hfits
    have hne : ∀ k, k ≠ key → s.Whole k := fun k hk =>
      hother k fun heq => hk (some.inj heq).symm
    cases rest with
    | nil =>
      have hstanding : s.Standing key := by
        refine ⟨commit, _, htag, ?_, hcheckout, ?_⟩
        · rw [headOf_of_some hcheckout, hregistered]
        · rw [htree, append_nil]
      refine Sound.arrive it hserves hstanding ⟨fun k => ?_, hclean⟩
      by_cases hk : k = key
      · exact hk ▸ whole_of_standing hstanding
      · exact hne k hk
    | cons file rest =>
      simp only [State.advance, hcheckout]
      exact Sound.fill hserves htag hregistered htree hne hclean
  | pruneBranch job => exact Sound.pruneBranch hfits (hall rfl)
  | pruneWorktrees job todo =>
    have ht := hall rfl
    cases todo with
    | nil =>
      obtain ⟨hjob, htags, hrewound, htodo⟩ := hfits
      refine Sound.go rfl rfl rfl ht
        ⟨hjob, htags, hrewound, fun e he hcommit => ?_, fun _ hid => hid, ?_⟩
      · cases htodo e he hcommit
      · exact fun id hid hrest => absurd hid hrest
    | cons e todo => exact Sound.pruneWorktree hfits ht
  | pruneDirs job rest =>
    obtain ⟨hjob, htags, hrewound, hregistered, hrest, hcleared⟩ := hfits
    have ht := hall rfl
    cases rest with
    | nil => exact Sound.go rfl rfl rfl ht ⟨hjob, hrewound, hcleared⟩
    | cons id rest =>
      have hid : job.selects (job.epoch, id) := ⟨rfl, hrest id mem_cons_self⟩
      refine Sound.clear (fun k _ => ht.whole k) hclean
        ⟨hjob.setCheckout hid s.registered (fun _ _ => rfl) none, htags, hrewound, hregistered,
          fun id' hid' => hrest id' (mem_cons_of_mem _ hid'), fun id' hid' hrest' => ?_⟩
      by_cases hkey : id' = id
      · exact hkey ▸ setCheckout_self none
      · refine (setCheckout_ne none fun heq => hkey (Prod.mk.inj heq).2).trans ?_
        exact hcleared id' hid' (not_mem_cons_of_ne_of_not_mem hkey hrest')
  | pruneSweep job => exact Sound.pruneSweep hfits (hall rfl)
  | pruneTags job rest =>
    have ht := hall rfl
    cases rest with
    | nil =>
      simp only [State.advance]
      split
      · exact Sound.refused ht
      · obtain ⟨hjob, hrewound, -, -⟩ := hfits
        refine ⟨⟨?_, ?_, ?_, ?_⟩, Inv.finish ht⟩
        · intro key heq
          cases heq
        · intro key before after hbefore hafter hne
          exact absurd (some.inj (hbefore.symm.trans hafter)) hne
        · intro key hbefore hafter
          exact absurd hafter hbefore
        · intro _
          have hdone : job.Fits call s₀ (s.finish .pruned).1 := hjob.same rfl rfl rfl
          exact ⟨job.epoch, job.ids, s₀, by rw [hdone.call], hdone.spared, hrewound⟩
    | cons id rest => exact Sound.untag hfits ht

end Steps

/-! ## Crashes -/

section Crashes

variable {last : Last α P S} {s : State α P}

/-- What is left of a directory has the `HEAD` that it had, or none. -/
theorem headOf_left [DecidableEq α] {key : Key} {checkout left : Checkout α}
    (hcheckout : s.checkouts key = some checkout) (hleft : checkout.leaves left = true) :
    (s.setCheckout key (some left)).headOf key = s.headOf key ∨
      (s.setCheckout key (some left)).headOf key = none := by
  obtain ⟨pointer, files⟩ := left
  cases pointer with
  | false =>
    refine .inr ?_
    simp [State.headOf, setCheckout_self]
  | true =>
    refine .inl ?_
    have hpointer : checkout.pointer = true := by
      simp only [Checkout.leaves, Bool.and_eq_true] at hleft
      simpa using hleft.2
    have hbefore : s.headOf key = Dict.get? s.registered key := by
      simp [State.headOf, hcheckout, hpointer]
    rw [hbefore]
    exact headOf_of_some (setCheckout_self _)

/-- What `shutil.rmtree` leaves is not reused, except in `derive_generation`. -/
theorem Inv.dismantle [DecidableEq α] (h : Inv last s) {stage : Stage α P}
    (hstage : s.stage = some stage) {key : Key} (hkey : stage.removing = some key) {checkout left : Checkout α}
    (hcheckout : s.checkouts key = some checkout) (hleft : checkout.leaves left = true) :
    Inv last (s.setCheckout key (some left)) := by
  obtain ⟨call, s₀, rfl, hfits⟩ := h.stage stage hstage
  have htag : (s.tags key).isSome := by
    rw [isSome_iff_ne_none]
    intro hnone
    rw [h.clean key hnone] at hcheckout
    cases hcheckout
  have hother : ∀ k, k ≠ key → stage.opens ≠ some k → (s.setCheckout key (some left)).Whole k := by
    intro k hk hopens
    have hsame := setCheckout_ne (s := s) (some left) hk
    exact (h.whole k (by rwa [hstage])).congr rfl hsame (headOf_congr hsame rfl)
  have hopens : ∀ k, (s.setCheckout key (some left)).stage.bind Stage.opens ≠ some k →
      stage.opens ≠ some k := fun k hk => by
    change s.stage.bind Stage.opens ≠ some k at hk
    rwa [hstage] at hk
  have hstep : ∀ {stage' : Stage α P}, stage' = stage →
      stage'.Fits call s₀ (s.setCheckout key (some left)) →
      (∀ k, stage.opens ≠ some k → (s.setCheckout key (some left)).Whole k) →
      Inv (some (call, s₀)) (s.setCheckout key (some left)) := by
    rintro _ rfl hfits' hwhole
    refine ⟨fun k hk => hwhole k (hopens k hk), clean_setCheckout h.clean (.inr htag),
      fun stage' hstage' => ?_⟩
    cases hstage.symm.trans hstage'
    exact ⟨call, s₀, rfl, hfits'⟩
  cases stage with
  | drop key' =>
    cases hkey
    exact hstep rfl hfits fun k hk => hother k (fun heq => hk (heq ▸ rfl)) hk
  | remove key' next =>
    cases hkey
    have hhead : (s.setCheckout key (some left)).headOf key ≠
        (s.setCheckout key (some left)).tags key := by
      change _ ≠ s.tags key
      rcases headOf_left hcheckout hleft with heq | heq
      · exact heq ▸ hfits.2.2
      · rw [heq]
        intro hnone
        rw [← hnone] at htag
        cases htag
    refine hstep rfl ⟨hfits.1, hfits.2.1, hhead⟩ fun k hk => ?_
    by_cases hkey : k = key
    · subst hkey
      exact whole_of_ne hhead
    · exact hother k hkey hk
  | pruneDirs job rest =>
    cases rest with
    | nil => cases hkey
    | cons id rest =>
      cases hkey
      obtain ⟨hjob, htags, hrewound, hregistered, hrest, hcleared⟩ := hfits
      have hid : job.selects (job.epoch, id) := ⟨rfl, hrest id mem_cons_self⟩
      refine hstep rfl ⟨hjob.setCheckout hid s.registered (fun _ _ => rfl) _, htags, hrewound,
        hregistered, hrest, hcleared.setCheckout _ _ (.inr mem_cons_self)⟩ fun k hk => ?_
      by_cases hkey : k = (job.epoch, id)
      · -- A `HEAD` at the tag would be a registered worktree at a discarded commit.
        subst hkey
        refine whole_of_ne fun heq => ?_
        obtain ⟨commit, hcommit⟩ := isSome_iff_exists.mp htag
        have hhead : (s.setCheckout (job.epoch, id) (some left)).headOf (job.epoch, id) =
          some commit := heq.trans hcommit
        refine hregistered (_, commit)
          (mem_registered_of_headOf (s := s.setCheckout _ (some left)) hhead) ?_
        exact (hjob.mem_commits commit).mpr ⟨id, hid.2, htags ▸ hcommit⟩
      · exact hother k hkey hk
  | _ => cases hkey

/-- A crash leaves every worktree whole, where it does not fall into one of two gaps. -/
theorem Inv.stop (h : Inv last s) (ho : Orderly s (.stop : Action α P S)) :
    Inv last (s.finish .refused).1 := by
  refine Inv.finish ⟨fun key => ?_, h.clean⟩
  by_cases hopens : s.stage.bind Stage.opens = some key
  · cases hstage : s.stage with
    | none => simp [hstage] at hopens
    | some stage =>
      rw [hstage] at hopens
      obtain ⟨call, s₀, rfl, hfits⟩ := h.stage stage hstage
      simp only [Orderly, hstage] at ho
      cases stage with
      | drop key' =>
        cases hopens
        exact ho
      | fill key' rest next =>
        cases hopens
        cases rest with
        | nil =>
          obtain ⟨-, commit, done, htag, hregistered, hcheckout, htree⟩ := hfits
          refine whole_of_standing ⟨commit, _, htag, ?_, hcheckout, ?_⟩
          · rw [headOf_of_some hcheckout, hregistered]
          · rw [htree, append_nil]
        | cons file rest => exact ho.elim
      | _ => cases hopens
  · exact h.whole key hopens

end Crashes

/-! ## Runs keep the property -/

section Runs

variable {it : Interp α P S} {last : Last α P S} {action : Action α P S} {s s' : State α P}
  {outcome : Outcome}

/-- A call that ends at once. -/
theorem Inv.idle {last' : Last α P S} (h : Inv last s) (hidle : s.stage.isNone) : Inv last' s where
  whole := h.whole
  clean := h.clean
  stage stage hstage := by
    rw [hstage] at hidle
    cases hidle

/-- A call that starts. -/
theorem Inv.start {call : Action α P S} {stage : Stage α P} (h : Inv last s)
    (hidle : s.stage.isNone) (hfits : stage.Fits call s s) : Sound call s s (s.go stage) := by
  refine Sound.go rfl rfl rfl ⟨fun key => h.whole key ?_, h.clean⟩ hfits
  rw [isNone_iff_eq_none.mp hidle]
  nofun

theorem tags_of_hasGeneration {key : Key} (h : s.hasGeneration key = true) :
    (s.tags key).isSome := by
  rw [State.hasGeneration, Bool.and_eq_true] at h
  exact h.2

/-- Before there is a repository there is no tag, and only a seed goes on. -/
def Born (s : State α P) : Prop :=
  s.repo = true ∨ (∀ key, s.tags key = none) ∧
    ∀ stage, s.stage = some stage → ∃ job, stage = .seedInit job

theorem Born.tags_eq_none {key : Key} (h : Born s) (hgeneration : ¬ s.hasGeneration key) :
    s.tags key = none := by
  rcases h with hrepo | ⟨htags, -⟩
  · simpa [State.hasGeneration, hrepo] using hgeneration
  · exact htags key

theorem repo_of_hasGeneration {key : Key} (h : s.hasGeneration key = true) : s.repo = true := by
  rw [State.hasGeneration, Bool.and_eq_true] at h
  exact h.1

theorem repo_arrive [DecidableEq α] (s : State α P) (key : Key) (next : Next P) :
    (s.arrive it key next).1.repo = s.repo := by
  unfold State.arrive
  split
  · rfl
  · split
    · rfl
    · split <;> rfl

variable [DecidableEq α]

/-- A repository stays. -/
theorem repo_advance (hrepo : s.repo = true) (time : Nat) (stage : Stage α P) :
    (s.advance it time stage).1.repo = true := by
  have harrive : ∀ key next, (s.arrive it key next).1.repo = true := fun key next =>
    (repo_arrive s key next).trans hrepo
  unfold State.advance
  split
  all_goals first | exact hrepo | exact harrive _ _ | skip
  all_goals repeat' split
  all_goals first | exact hrepo | exact harrive _ _

/-- A generation keeps the commit it was born with. -/
theorem Born.step (h : Born s) (hs : s.step it action = some (s', outcome)) : Born s' := by
  cases action with
  | seed key sources =>
    simp only [State.step] at hs
    split at hs
    · split at hs
      · cases hs
        exact h
      · split at hs
        · cases hs
          exact h
        · cases hs
          refine h.imp id fun ⟨htags, _⟩ => ⟨htags, fun stage hstage => ?_⟩
          cases hstage
          exact ⟨_, rfl⟩
    · cases hs
  | derive d | materialize key =>
    simp only [State.step] at hs
    split at hs
    · split at hs
      · rename_i hgeneration
        cases hs
        exact .inl (repo_of_hasGeneration hgeneration)
      · cases hs
        exact h
    · cases hs
  | prune epoch ids dryRun =>
    simp only [State.step] at hs
    split at hs
    · split at hs
      · cases hs
        exact h
      · rename_i hcond
        cases hs
        exact .inl (Bool.not_eq_false _ ▸ (not_or.mp hcond).2)
    · cases hs
  | advance time =>
    obtain ⟨stage, hstage, heq⟩ := map_eq_some_iff.mp hs
    refine .inl ?_
    rw [show s' = (s.advance it time stage).1 by rw [heq]]
    rcases h with hrepo | ⟨-, hseed⟩
    · exact repo_advance hrepo time stage
    · obtain ⟨job, rfl⟩ := hseed stage hstage
      simp only [State.advance]
      split
      · assumption
      · rfl
  | dismantle left =>
    simp only [State.step, bind_eq_bind, bind_eq_some_iff] at hs
    obtain ⟨stage, hstage, key, hkey, checkout, hcheckout, hs⟩ := hs
    split at hs
    · cases hs
      exact h
    · cases hs
  | stop =>
    cases hs
    exact h.imp id fun ⟨htags, _⟩ => ⟨htags, nofun⟩

/-- What one action keeps. -/
theorem State.step_kept (h : Inv last s) (hborn : Born s) (ho : Orderly s action)
    (hs : s.step it action = some (s', outcome)) :
    Kept (action.after s last) s s' outcome ∧ Inv (action.after s last) s' := by
  have hrefused : ∀ {call : Action α P S}, s.stage.isNone → Sound call s s (s, .refused) :=
    fun hidle => ⟨Kept.quiet rfl (.inr (.inl rfl)), h.idle hidle⟩
  cases action with
  | seed key sources =>
    simp only [State.step] at hs
    split at hs
    · rename_i hidle
      split at hs
      · cases hs
        exact hrefused hidle
      · rename_i files hfiles
        split at hs
        · cases hs
          exact hrefused hidle
        · cases hs
          rename_i hgeneration
          exact h.start hidle ⟨rfl, hborn.tags_eq_none hgeneration⟩
    · cases hs
  | derive d =>
    simp only [State.step] at hs
    split at hs
    · rename_i hidle
      split at hs
      · cases hs
        exact h.start hidle rfl
      · cases hs
        exact hrefused hidle
    · cases hs
  | materialize key =>
    simp only [State.step] at hs
    split at hs
    · rename_i hidle
      split at hs
      · rename_i hgeneration
        cases hs
        exact h.start hidle ⟨rfl, tags_of_hasGeneration hgeneration⟩
      · cases hs
        exact hrefused hidle
    · cases hs
  | prune epoch ids dryRun =>
    simp only [State.step] at hs
    split at hs
    · rename_i hidle
      split at hs
      · cases hs
        exact ⟨Kept.quiet rfl (.inr (.inr rfl)), h.idle hidle⟩
      · rename_i hcond
        cases hs
        obtain ⟨hdry, -⟩ := not_or.mp hcond
        rw [Bool.not_eq_true] at hdry
        refine h.start hidle ⟨⟨?_, rfl, ⟨fun _ _ => rfl, fun _ _ => rfl, fun _ _ => rfl⟩⟩, rfl⟩
        rw [hdry]
        rfl
    · cases hs
  | advance time =>
    obtain ⟨stage, hstage, heq⟩ := map_eq_some_iff.mp hs
    obtain ⟨call, s₀, rfl, -⟩ := h.stage stage hstage
    have hsound : Sound call s₀ s (s.advance it time stage) := h.advance hstage time
    rw [heq] at hsound
    exact hsound
  | dismantle left =>
    simp only [State.step, bind_eq_bind, bind_eq_some_iff] at hs
    obtain ⟨stage, hstage, key, hkey, checkout, hcheckout, hs⟩ := hs
    split at hs
    · rename_i hleft
      cases hs
      exact ⟨Kept.quiet rfl (.inl rfl), h.dismantle hstage hkey hcheckout hleft⟩
    · cases hs
  | stop =>
    cases hs
    exact ⟨Kept.quiet rfl (.inr (.inl rfl)), h.stop ho⟩

/-- What every run keeps. -/
theorem Run.inv (h : Run it last s) : Inv last s ∧ Born s := by
  induction h with
  | fresh => exact ⟨Inv.fresh, .inr ⟨fun _ => rfl, nofun⟩⟩
  | step _ ho hs ih => exact ⟨(State.step_kept ih.1 ih.2 ho hs).2, ih.2.step hs⟩

/-- In a run whose crashes fall into neither gap, a worktree that a call returns holds the files of
the commit that its tag names, a tag moves only when its generation is derived again, and a prune
spares the other generations. -/
theorem stores_kept (h : Run it last s) (ho : Orderly s action)
    (hs : s.step it action = some (s', outcome)) : Kept (action.after s last) s s' outcome :=
  (State.step_kept h.inv.1 h.inv.2 ho hs).1

/-- Actions taken one after another: the last state and the last outcome. -/
def State.follow (it : Interp α P S) :
    State α P → Outcome → List (Action α P S) → Option (State α P × Outcome)
  | s, outcome, [] => some (s, outcome)
  | s, _, action :: rest => do
      let (s', outcome') ← s.step it action
      s'.follow it outcome' rest

/-- Runs without a crash are orderly. -/
theorem Run.follow (h : Run it last s) (outcome outcome' : Outcome) (actions : List (Action α P S))
    (hcrash : ∀ action ∈ actions, action = .stop → False)
    (hs : s.follow it outcome actions = some (s', outcome')) : ∃ last', Run it last' s' := by
  induction actions generalizing last s outcome with
  | nil =>
    cases hs
    exact ⟨last, h⟩
  | cons action rest ih =>
    simp only [State.follow, bind_eq_bind, bind_eq_some_iff] at hs
    obtain ⟨⟨s₁, outcome₁⟩, hstep, hrest⟩ := hs
    have ho : Orderly s action := by
      cases action with
      | stop => exact (hcrash _ mem_cons_self rfl).elim
      | _ => trivial
    exact ih (h.step ho hstep) _ (fun a ha => hcrash a (mem_cons_of_mem _ ha)) hrest

end Runs

/-! ## A crash inside `worktree add` -/

/-- A tree of two files. -/
def twoFiles : Interp String Unit (List String) where
  rootFiles := [".gitignore"]
  prepare := some
  apply files _ := some files
  staged files := files
  message _ _ := ""

/-- A seed generation, up to the worktree's directory and its first file. -/
def seedToFirstFile : List (Action String Unit (List String)) :=
  .seed ("e1", "v0") ["a.py", "b.py"] :: List.replicate 10 (.advance 0)

/-- `stores_kept` at the return of a seed that no crash interrupts. -/
theorem run_kept_seed : ∃ (last : Last String Unit (List String)) (s s' : State String Unit),
    s.step twoFiles (.advance 0) = some (s', .returned ("e1", "v0")) ∧
      Kept last s s' (.returned ("e1", "v0")) := by
  have hstart : Run twoFiles none State.fresh := .fresh
  obtain ⟨last, hrun⟩ := hstart.follow .running .running
    (seedToFirstFile ++ [.advance 0]) (by simp [seedToFirstFile]) rfl
  exact ⟨last, _, _, rfl, stores_kept hrun (orderly_advance _ 0) rfl⟩

/-- The worktree that a crash has left half filled has the right `HEAD`, and is returned. -/
theorem half_filled_returned :
    ¬ ∀ (actions : List (Action String Unit (List String))) (s : State String Unit) (key : Key),
      State.fresh.follow twoFiles .running actions = some (s, .returned key) → s.Standing key := by
  intro h
  obtain ⟨commit, checkout, htag, -, hcheckout, hfiles⟩ := h
    (seedToFirstFile ++ [.stop, .materialize ("e1", "v0"), .advance 1]) _ ("e1", "v0") rfl
  cases htag
  cases hcheckout
  cases hfiles

end Zicato.GitStore
