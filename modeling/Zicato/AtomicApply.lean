import Zicato.EditFrame

/-! # All or nothing

`apply_patches` removes its copy when it refuses a patch set.  It does so where a
`ValueError` ends the application.  A copy that could not be completed goes past it, and
so do the `OverflowError` of an infinite number and whatever the parser, the manifest
bridge or the file system raises; and the removal itself ignores its errors. -/
namespace Zicato.Mutation

open Text

variable {py : Python} {surface : Surface} {roots : List String}

/-! ## What a patch can raise -/

section Raises

variable {α β : Type}

/-- Nothing but a `ValueError` is raised. -/
def ValueErrors (x : Except PyError α) : Prop := ∀ e, x = .error e → ∃ message, e = .valueError message

theorem ValueErrors.ok (a : α) : ValueErrors (.ok a : Except PyError α) := by
  intro e h
  cases h

theorem ValueErrors.error (message : String) :
    ValueErrors (.error (.valueError message) : Except PyError α) := by
  intro e h
  cases h
  exact ⟨message, rfl⟩

theorem ValueErrors.bind {x : Except PyError α} {f : α → Except PyError β} (hx : ValueErrors x)
    (hf : ∀ a, x = .ok a → ValueErrors (f a)) : ValueErrors (x >>= f) := by
  intro e h
  cases x with
  | ok a => exact hf a rfl e h
  | error e' =>
    cases h
    exact hx e rfl

end Raises

variable {table : SyntaxTable} {tree : Snapshot}

theorem readSource_raises (path : String) : ValueErrors (readSource tree path) := by
  rw [readSource]
  split
  · exact .ok _
  · exact .error _

theorem resolveMarkerLine_raises (path id : String) :
    ValueErrors (resolveMarkerLine table tree path id) := by
  rw [resolveMarkerLine]
  split
  · exact .ok _
  · exact (readSource_raises path).bind fun _ _ => .ok _

theorem findConstantAfter_raises (path : String) (markerLine : Nat) (kind : ConstantKind) :
    ValueErrors (findConstantAfter py tree path markerLine kind) := by
  refine (readSource_raises path).bind fun text _ => ?_
  split
  · exact .ok _
  · exact .ok _

theorem spanNode_raises (point : MutationPoint) : ValueErrors (spanNode py table tree point) := by
  rw [spanNode]
  split
  · refine (resolveMarkerLine_raises _ _).bind fun marker _ => ?_
    cases marker with
    | none => exact .ok _
    | some markerLine => exact findConstantAfter_raises _ _ _
  · exact .ok _

theorem byteColumnToCharacterIndex_raises (line : Text) (col : Nat) :
    ValueErrors (byteColumnToCharacterIndex line col) := by
  rw [byteColumnToCharacterIndex]
  split
  · exact .ok _
  · exact .error _

theorem replaceNodeText_raises (text : Text) (node : NodeSpan) (newText : Text) :
    ValueErrors (replaceNodeText text node newText) :=
  (byteColumnToCharacterIndex_raises _ _).bind fun _ _ =>
    (byteColumnToCharacterIndex_raises _ _).bind fun _ _ => .ok _

/-- A replacement that raises raises a `ValueError`. -/
theorem applySpanReplace_raises (point : MutationPoint) (content : Text) :
    ValueErrors (applySpanReplace py table tree point content) := by
  refine (readSource_raises _).bind fun text _ => ?_
  dsimp only
  split
  · exact .ok _
  refine (spanNode_raises point).bind fun found _ => ?_
  cases found with
  | some node => exact replaceNodeText_raises _ _ _
  | none =>
    dsimp only
    split
    · split
      · exact .error _
      · exact .ok _
    · exact .ok _

theorem constantNode_raises (patch : Patch) (point : MutationPoint) (kind : ConstantKind)
    (name : String) : ValueErrors (constantNode py table tree patch point kind name) := by
  refine (resolveMarkerLine_raises _ _).bind fun marker _ => ?_
  cases marker with
  | none => exact .error _
  | some markerLine =>
    refine (findConstantAfter_raises _ _ _).bind fun found _ => ?_
    cases found with
    | none => exact .error _
    | some node => exact .ok _

theorem require_raises {α : Type} (patch : Patch) (payload : Option α) :
    ValueErrors (patch.require py payload) := by
  unfold Patch.require
  split
  · exact .ok _
  · exact .error _

theorem point_raises (patch : Patch) (points : List MutationPoint) :
    ValueErrors (patch.point py points) := by
  rw [Patch.point]
  split
  · exact .ok _
  · exact .error _

/-- The patch comes to write an infinite number. -/
def WritesInfinity (py : Python) (surface : Surface) (roots : List String) (tree : Snapshot)
    (patch : Patch) : Prop :=
  patch.op = .setNumeric ∧ patch.newNumeric = some .infinity ∧
    ∃ point node, patch.point py (enumerateMutations py surface tree roots) = .ok point ∧
      constantNode py surface.table tree patch point .numeric "numeric" = .ok node

/-- A patch raises a `ValueError`, or it comes to write an infinite number. -/
theorem applyPatch_raises {patch : Patch}
    (h : ¬ WritesInfinity py surface roots tree patch) :
    ValueErrors (applyPatch py surface roots tree patch) := by
  refine ValueErrors.bind ?_ fun written _ => .ok _
  rw [patchedFile]
  split
  · refine (require_raises _ _).bind fun content _ => (point_raises _ _).bind fun point _ => ?_
    exact (applySpanReplace_raises _ _).bind fun _ _ => .ok _
  · rename_i hop
    refine (require_raises _ _).bind fun value hvalue => (point_raises _ _).bind fun point hpoint => ?_
    refine (constantNode_raises _ _ _ _).bind fun node hnode => (readSource_raises _).bind fun _ _ => ?_
    have hfinite : value ≠ .infinity := by
      rintro rfl
      refine h ⟨hop, ?_, point, node, hpoint, hnode⟩
      unfold Patch.require at hvalue
      split at hvalue
      · rename_i value' hsome
        rw [hsome, Except.ok.inj hvalue]
      · cases hvalue
    have hformat : ValueErrors (formatNumeric value) := by
      cases value with
      | infinity => exact absurd rfl hfinite
      | nan => exact .error _
      | _ => exact .ok _
    exact hformat.bind fun _ _ => (replaceNodeText_raises _ _ _).bind fun _ _ => .ok _
  · refine (require_raises _ _).bind fun value _ => (point_raises _ _).bind fun point _ => ?_
    refine (constantNode_raises _ _ _ _).bind fun node _ => (readSource_raises _).bind fun _ _ => ?_
    exact (replaceNodeText_raises _ _ _).bind fun _ _ => .ok _

/-- An infinite number that is to be written raises an `OverflowError`. -/
theorem applyPatch_infinity {patch : Patch} (h : WritesInfinity py surface roots tree patch) :
    applyPatch py surface roots tree patch =
      .error (.overflowError "cannot convert float infinity to integer") := by
  obtain ⟨hop, hvalue, point, node, hpoint, hnode⟩ := h
  obtain ⟨markerLine, -, hfind⟩ := constantNode_ok hnode
  obtain ⟨text, htext, -⟩ := bind_eq_ok hfind
  simp only [applyPatch, patchedFile, hop, hvalue, Patch.require, hpoint, hnode, htext, bind,
    Except.bind, formatNumeric]

/-! ## What a run of patches comes to -/

/-- The patches lead to a tree where `P` holds of what is left of them. -/
def Reaches (py : Python) (surface : Surface) (roots : List String)
    (P : Snapshot → List Patch → Prop) : Snapshot → List Patch → Prop
  | tree, [] => P tree []
  | tree, patch :: patches =>
      P tree (patch :: patches) ∨
        ∃ tree', applyPatch py surface roots tree patch = .ok tree' ∧
          Reaches py surface roots P tree' patches

/-- A run ends in the only tree where a condition on the patch that fails can hold. -/
theorem reaches_iff {P : Snapshot → List Patch → Prop}
    (hP : ∀ tree patch rest tree', applyPatch py surface roots tree patch = .ok tree' →
      ¬ P tree (patch :: rest)) (patches : List Patch) {left : Snapshot} {ended : Except PyError Unit} :
    applyPatchesIntoTree py surface roots tree patches = (left, ended) →
    match ended with
    | .ok () => Reaches py surface roots P tree patches ↔ P left []
    | .error e => ∃ patch rest, applyPatch py surface roots left patch = .error e ∧
        (Reaches py surface roots P tree patches ↔ P left (patch :: rest)) := by
  intro h
  induction patches generalizing tree with
  | nil =>
    cases h
    exact Iff.rfl
  | cons patch patches ih =>
    rw [applyPatchesIntoTree] at h
    cases hpatch : applyPatch py surface roots tree patch with
    | error e =>
      rw [hpatch] at h
      cases h
      exact ⟨patch, patches, hpatch, by simp [Reaches, hpatch]⟩
    | ok tree' =>
      rw [hpatch] at h
      -- a patch that goes through is not the one `P` speaks of
      have hreaches : Reaches py surface roots P tree (patch :: patches) ↔
          Reaches py surface roots P tree' patches := by
        simp [Reaches, hpatch, hP tree patch patches tree' hpatch]
      simpa only [hreaches] using ih h

/-- The `except` clause of the call catches it. -/
def PyError.caught : PyError → Bool
  | .valueError _ => true
  | _ => false

/-- A file parsed before the batch and does not parse after it. -/
def Breaks (py : Python) (copy tree : Snapshot) : Prop :=
  ∃ f ∈ unparseablePyFiles py tree, f.1 ∉ (unparseablePyFiles py copy).map (·.1)

/-- The call ends with this tree, or what the patch or the strike makes of it, at the
target: an exception goes past the removal, or the removal leaves some of it. -/
def Spoils (py : Python) (surface : Surface) (roots : List String) (host : Host)
    (patches : List Patch) (copy : Snapshot) : Snapshot → List Patch → Prop
  | tree, patch :: _ =>
      WritesInfinity py surface roots tree patch ∨
        ((∃ message, applyPatch py surface roots tree patch = .error (.valueError message)) ∧
          (host.rmtree tree).isSome)
  | tree, [] =>
      match host.strikeIn patches with
      | some s => s.error.caught = true → (host.rmtree (s.left tree)).isSome
      | none => host.gate.isSome ∨ (Breaks py copy tree ∧ (host.rmtree tree).isSome)

/-- Without an error, a stopped application has come as far as the host lets it. -/
theorem applyUntilStruck_ends {host : Host} {patches : List Patch} {copy left : Snapshot}
    {ended : Except PyError Unit} :
    applyUntilStruck py surface roots host tree patches = (left, ended) →
    match ended with
    | .ok () => Reaches py surface roots (Spoils py surface roots host patches copy) tree
          (host.reached patches) ↔
        (host.gate.isSome ∨ (Breaks py copy left ∧ (host.rmtree left).isSome))
    | .error e => Reaches py surface roots (Spoils py surface roots host patches copy) tree
          (host.reached patches) ↔ (e.caught = true → (host.rmtree left).isSome) := by
  intro h
  -- a patch that is applied has not spoilt the call
  have hP : ∀ tree patch rest tree', applyPatch py surface roots tree patch = .ok tree' →
      ¬ Spoils py surface roots host patches copy tree (patch :: rest) := by
    rintro tree patch rest tree' hok (hinfinity | ⟨⟨message, herror⟩, -⟩)
    · rw [applyPatch_infinity hinfinity] at hok
      cases hok
    · rw [herror] at hok
      cases hok
  rw [applyUntilStruck] at h
  cases hrun : applyPatchesIntoTree py surface roots tree (host.reached patches) with
  | mk tree' result =>
  have hreaches := reaches_iff hP _ hrun
  rw [hrun] at h
  cases result with
  | error e =>
    -- a patch has ended the run before the strike
    cases h
    obtain ⟨patch, rest, hpatch, hreaches⟩ := hreaches
    refine hreaches.trans ⟨?_, fun hleft => ?_⟩
    · rintro (hinfinity | ⟨-, hleft⟩) hcaught
      · rw [applyPatch_infinity hinfinity] at hpatch
        cases hpatch
        cases hcaught
      · exact hleft
    · by_cases hinfinity : WritesInfinity py surface roots left patch
      · exact .inl hinfinity
      · obtain ⟨message, rfl⟩ := applyPatch_raises hinfinity _ hpatch
        exact .inr ⟨⟨message, hpatch⟩, hleft rfl⟩
  | ok u =>
    -- every patch before the strike is applied: the strike decides, or else the gate
    have hspoils : Spoils py surface roots host patches copy tree' [] ↔
        match host.strikeIn patches with
        | some s => s.error.caught = true → (host.rmtree (s.left tree')).isSome
        | none => host.gate.isSome ∨ (Breaks py copy tree' ∧ (host.rmtree tree').isSome) := Iff.rfl
    cases hstrike : host.strikeIn patches with
    | some s =>
      rw [hstrike] at h hspoils
      cases h
      exact hreaches.trans hspoils
    | none =>
      rw [hstrike] at h hspoils
      cases h
      exact hreaches.trans hspoils

/-! ## The call on a disk -/

/-- The directories of a disk by path. -/
abbrev Disk := String → Option Snapshot

/-- `apply_patches(source, patches, target)`. -/
def applyPatchesAt (py : Python) (surface : Surface) (disk : Disk) (source : String)
    (patches : List Patch) (target : String) (roots : List String) (host : Host := .calm) :
    Disk × Except PyError Unit :=
  match disk source with
  | none =>
      (disk, .error (.valueError
        "mutation enumeration roots must exist inside the parent snapshot"))
  | some tree =>
      let applied := applyPatches py surface tree patches (disk target) roots host
      (Function.update disk target applied.target, applied.result)

/-- A call that raises leaves the disk as it was.  It raises a `ValueError`, unless the
directory of the target could not be made. -/
def AllOrNothing (host : Host) (disk : Disk) (after : Disk × Except PyError Unit) : Prop :=
  ∀ e, after.2 = .error e →
    after.1 = disk ∧ (host.makedirs = some e ∨ ∃ message, e = .valueError message)

/-- The roots are in the tree and the directory of the target is made.  Then a node of the
tree cannot be copied; or an exception is raised outside the `try` of the call; or the
copy is to be removed, and some of it cannot be; or the patches lead to such an end. -/
def GoesWrong (py : Python) (surface : Surface) (host : Host) (tree : Snapshot)
    (patches : List Patch) (roots : List String) : Prop :=
  let copy := (copytree host tree).1
  roots.isEmpty = false ∧ roots.all tree.resolves = true ∧ host.makedirs = none ∧
    ((copytree host tree).2 ≠ [] ∨ host.precheck.isSome ∨
      if validatePatches py patches (enumerateMutations py surface copy roots) = [] then
        host.baseline.isSome ∨
          if roots.all copy.resolves = true then
            Reaches py surface roots (Spoils py surface roots host patches copy) copy
              (host.reached patches)
          else (host.rmtree copy).isSome
      else (host.rmtree copy).isSome)

/-- A call for a new target leaves nothing there and raises, or it succeeds, or it goes
wrong and something stays. -/
def Ends (host : Host) (wrong : Prop) (applied : Applied) : Prop :=
  (¬ wrong ∧ (applied.result = .ok () ∨ (applied.target = none ∧ ∃ e, applied.result = .error e ∧
    (host.makedirs = some e ∨ ∃ message, e = .valueError message)))) ∨
  (wrong ∧ ∃ left e, applied = ⟨some left, .error e⟩)

theorem Ends.stays {host : Host} {wrong : Prop} (h : wrong) (left : Snapshot) (e : PyError) :
    Ends host wrong ⟨some left, .error e⟩ := .inr ⟨h, left, e, rfl⟩

/-- A refusal goes wrong where the removal leaves something. -/
theorem Ends.removed {host : Host} {wrong : Prop} {left : Snapshot} (message : String)
    (h : wrong ↔ (host.rmtree left).isSome) :
    Ends host wrong ⟨host.rmtree left, .error (.valueError message)⟩ := by
  cases hleft : host.rmtree left with
  | some left' => exact .stays (h.mpr (by rw [hleft]; rfl)) _ _
  | none =>
    rw [hleft] at h
    exact .inl ⟨by simp [h], .inr ⟨rfl, _, rfl, .inr ⟨message, rfl⟩⟩⟩

theorem applyChecked_ends {host : Host} {copy : Snapshot} {patches : List Patch} {wrong : Prop}
    (h : wrong ↔ (host.baseline.isSome ∨
      if roots.all copy.resolves = true then
        Reaches py surface roots (Spoils py surface roots host patches copy) copy
          (host.reached patches)
      else (host.rmtree copy).isSome)) :
    Ends host wrong (applyPatches.applyChecked py surface patches roots host copy) := by
  rw [applyPatches.applyChecked]
  -- the baseline scan, the roots, the patches and the gate, in the order of the code
  split
  · rename_i e he
    exact .stays (h.mpr (.inl (by rw [he]; rfl))) _ _
  rename_i hbaseline
  rw [hbaseline, Option.isSome_none, Bool.false_eq_true, false_or] at h
  split
  · rename_i hroots
    rw [if_neg (by simpa using hroots)] at h
    exact .removed _ h
  rename_i hroots
  rw [if_pos (by simpa using hroots)] at h
  split
  · rename_i left message hrun
    exact .removed _ (h.trans ((applyUntilStruck_ends hrun).trans (by simp [PyError.caught])))
  · rename_i left e hcaught hrun
    -- an error that is no `ValueError` is not caught, and the copy stays
    refine .stays (h.mpr ((applyUntilStruck_ends hrun).mpr fun hvalue => ?_)) _ _
    cases e with
    | valueError message => exact absurd rfl (hcaught message)
    | _ => cases hvalue
  · rename_i left hrun
    replace h := h.trans (applyUntilStruck_ends hrun)
    split
    · rename_i e he
      exact .stays (h.mpr (.inl (by rw [he]; rfl))) _ _
    rename_i hgate
    rw [hgate, Option.isSome_none, Bool.false_eq_true, false_or] at h
    have hbreaks : Breaks py copy left ↔ (!((unparseablePyFiles py left).filter fun f =>
        !((unparseablePyFiles py copy).map (·.1)).contains f.1).isEmpty) = true := by
      simp [Breaks, List.filter_eq_nil_iff]
    rw [hbreaks] at h
    dsimp only
    split
    · rename_i hbroken
      exact .removed _ (h.trans (and_iff_right hbroken))
    · rename_i hbroken
      exact .inl ⟨fun hwrong => hbroken (h.mp hwrong).1, .inl rfl⟩

/-- How an application of patches ends on any host. -/
theorem applyPatches_ends (py : Python) (surface : Surface) (host : Host) (tree : Snapshot)
    (patches : List Patch) (roots : List String) :
    Ends host (GoesWrong py surface host tree patches roots)
      (applyPatches py surface tree patches none roots host) := by
  rw [applyPatches]
  split
  · rename_i hroots
    refine .inl ⟨fun h => ?_, .inr ⟨rfl, _, rfl, .inr ⟨_, rfl⟩⟩⟩
    simp [h.1, h.2.1] at hroots
  rename_i hroots
  simp only [Bool.or_eq_true, Bool.not_eq_true', not_or, Bool.not_eq_true, Bool.not_eq_false] at hroots
  rw [if_neg (by simp)]
  have hwrong := Iff.refl (GoesWrong py surface host tree patches roots)
  conv at hwrong => rhs; rw [GoesWrong]
  simp only [hroots.1, hroots.2, true_and] at hwrong
  cases hmake : host.makedirs with
  | some e =>
    refine .inl ⟨fun h => ?_, .inr ⟨rfl, _, rfl, .inl hmake⟩⟩
    rw [hmake] at hwrong
    exact nomatch (hwrong.mp h).1
  | none =>
  rw [hmake] at hwrong
  simp only [true_and] at hwrong
  cases hcopy : copytree host tree with
  | mk copy failed =>
  simp only [hcopy] at hwrong
  cases failed with
  -- `shutil.Error` names the nodes that were not copied, and leaves the others
  | cons path paths => exact .stays (hwrong.mpr (.inl (List.cons_ne_nil _ _))) _ _
  | nil =>
    rw [ne_self_iff_false, false_or] at hwrong
    dsimp only
    split
    · rename_i e he
      exact .stays (hwrong.mpr (.inl (by rw [he]; rfl))) _ _
    rename_i hprecheck
    rw [hprecheck, Option.isSome_none, Bool.false_eq_true, false_or] at hwrong
    split
    · rename_i hproblems
      rw [if_neg (by simpa using hproblems)] at hwrong
      exact .removed _ hwrong
    · rename_i hproblems
      rw [if_pos (by simpa using hproblems)] at hwrong
      exact applyChecked_ends hwrong

/-- A marked literal, and a number below it. -/
def numericFile : Text := List.flatMap String.toList
  ["# zicato:mutable id=\"tone\"\n", "TONE = \"y\"\n", "LIMIT = 1\n"]

/-- The digest and the number texts of the two files. -/
def numericPython : Python where
  sha256 data :=
    if data = utf8 "TONE = \"y\"\n" then
      "10b4c8e37bda209ff3ecd673ac4af0620c5292db4683f09ff63d048cab6c8fa9"
    else ""
  parse text :=
    if text = numericFile then
      .ok { constants := [⟨.string, ⟨2, 7, 2, 10⟩⟩, ⟨.numeric, ⟨3, 8, 3, 9⟩⟩], signs := [] }
    else .error "invalid syntax"
  isStringExpression _ := false
  reprStr s := '\'' :: s ++ ['\'']
  isWord c := c.isAlphanum || c == '_'

/-- A `set_numeric` patch. -/
def numericPatch (mutationId : String) (value : Numeric) : Patch :=
  { id := "p1", mutationId := mutationId, op := .setNumeric, newNumeric := some value }

/-- A disk with the parent's tree. -/
def numericDisk : Disk := fun path => if path = "v0" then some (literalTree numericFile) else none

/-- A parser that would run out of its stack in the walk after the first patch. -/
def deepHost : Host := { strike := some ⟨1, .other "RecursionError" "", id⟩ }

end Zicato.Mutation
