import Mathlib.Data.List.Induction
import Zicato.LineageRecord

/-! # What every run leaves in the lineage

A typed graph of epochs and generations, whose document the mutators read and
write; what `decode_lineage` refuses of such a document is what makes the graph
invalid.  Each mutator is a change of the graph. -/
open List Except Zicato.Dict Function
namespace Zicato.LineageRecord
set_option linter.unusedSectionVars false
variable {F : Type} [PyFloat F]

/-! ## The typed graph -/

/-- A generation with all its fields. -/
structure Node (F : Type) where
  id : String
  parentId : Option String
  promoted : Option Bool
  createdAt : String
  roundIndex : Int
  reason : String
  parentScalar : Option (Number F)
  childScalar : Option (Number F)
  deltaScalar : Option (Number F)

/-- The row of a generation. -/
def Node.row (n : Node F) : Row F :=
  [("id", .str n.id), ("parent_id", optional .str n.parentId),
    ("promoted", optional .bool n.promoted), ("created_at", .str n.createdAt),
    ("round_index", .int n.roundIndex), ("rejection_reason", .str n.reason),
    ("parent_scalar", optional Number.value n.parentScalar),
    ("child_scalar", optional Number.value n.childScalar),
    ("delta_scalar", optional Number.value n.deltaScalar)]

/-- An epoch with its generations. -/
structure EpochNode (F : Type) where
  id : String
  name : String
  startedAt : String
  closedAt : String
  v0Parent : Option String
  nodes : List (Node F)

/-- The row of an epoch. -/
def EpochNode.row (e : EpochNode F) : Row F :=
  [("id", .str e.id), ("name", .str e.name), ("started_at", .str e.startedAt),
    ("closed_at", .str e.closedAt), ("v0_parent", optional .str e.v0Parent),
    ("generations", .list (e.nodes.map fun n => .dict n.row))]

/-- What a lineage says. -/
abbrev Graph (F : Type) := List (EpochNode F)

namespace Graph

/-- The document of a lineage. -/
def raw (g : Graph F) : Row F :=
  [("format_version", .int 1), ("epochs", .list (g.map fun e => .dict e.row))]

end Graph

/-- What `_load_raw` gives of the generation. -/
def Node.decoded (n : Node F) : LineageGeneration F where
  id := n.id
  parentId := n.parentId
  promoted := n.promoted
  createdAt := n.createdAt
  roundIndex := some n.roundIndex
  rejectionReason := some n.reason
  parentScalar := n.parentScalar
  childScalar := n.childScalar
  deltaScalar := n.deltaScalar
  json := n.row

/-- An epoch as it is read back. -/
def EpochNode.decoded (e : EpochNode F) : LineageEpoch F where
  id := e.id
  name := e.name
  startedAt := e.startedAt
  closedAt := e.closedAt
  v0Parent := e.v0Parent
  generations := e.nodes.map Node.decoded
  json := e.row

/-- A lineage as it is read back. -/
def Graph.decoded (g : Graph F) : Lineage F where
  epochs := g.map EpochNode.decoded
  json := g.raw

/-! ## One entry of a list -/

section Modify
variable {α : Type} {key : α → String} {id : String} {f : α → α} {xs : List α}

/-- A change of the first entry with that key. -/
@[grind =] def modify (key : α → String) (id : String) (f : α → α) : List α → List α
  | [] => []
  | x :: xs => if key x = id then f x :: xs else x :: modify key id f xs

example : modify Prod.fst "a" (fun _ => ("a", 1)) [("b", 0), ("a", 0), ("a", 0)] =
    [("b", 0), ("a", 1), ("a", 0)] := by decide +kernel

/-- An element after a change is an old one, or the changed one. -/
theorem mem_modify {y : α} (h : y ∈ modify key id f xs) :
    y ∈ xs ∨ ∃ x ∈ xs, key x = id ∧ y = f x := by
  induction xs with
  | nil => cases h
  | cons x xs ih =>
    rw [modify] at h
    split at h
    · rename_i hkey
      rcases mem_cons.mp h with rfl | h
      · exact .inr ⟨x, mem_cons_self, hkey, rfl⟩
      · exact .inl (mem_cons_of_mem _ h)
    · rcases mem_cons.mp h with rfl | h
      · exact .inl mem_cons_self
      · rcases ih h with h | ⟨z, hz, hkey, rfl⟩
        · exact .inl (mem_cons_of_mem _ h)
        · exact .inr ⟨z, mem_cons_of_mem _ hz, hkey, rfl⟩

theorem modify_of_absent (h : ∀ x ∈ xs, key x ≠ id) : modify key id f xs = xs := by
  induction xs with
  | nil => rfl
  | cons x xs ih =>
    obtain ⟨hx, hxs⟩ := forall_mem_cons.mp h
    rw [modify, if_neg hx, ih hxs]

theorem modify_id (h : ∀ x ∈ xs, key x = id → f x = x) : modify key id f xs = xs := by
  induction xs with
  | nil => rfl
  | cons x xs ih =>
    obtain ⟨hx, hxs⟩ := forall_mem_cons.mp h
    rw [modify]
    split
    · rename_i hkey
      rw [hx hkey]
    · rw [ih hxs]

theorem modify_congr {f' : α → α} (h : ∀ x ∈ xs, key x = id → f x = f' x) :
    modify key id f xs = modify key id f' xs := by
  induction xs with
  | nil => rfl
  | cons x xs ih =>
    obtain ⟨hx, hxs⟩ := forall_mem_cons.mp h
    rw [modify, modify]
    split
    · rename_i hkey
      rw [hx hkey]
    · rw [ih hxs]

/-- The change of an entry that is the first of its key. -/
theorem modify_append {x : α} (h : ∀ y ∈ xs, key y ≠ id) (hx : key x = id) :
    modify key id f (xs ++ [x]) = xs ++ [f x] := by
  induction xs with
  | nil => rw [nil_append, modify, if_pos hx, nil_append]
  | cons y xs ih =>
    obtain ⟨hy, hxs⟩ := forall_mem_cons.mp h
    rw [cons_append, modify, if_neg hy, ih hxs, cons_append]

/-- The other entries stay, in their order. -/
theorem filter_modify (hkey : ∀ x, key (f x) = key x) :
    (modify key id f xs).filter (fun x => decide (key x ≠ id)) =
      xs.filter fun x => decide (key x ≠ id) := by
  induction xs with
  | nil => rfl
  | cons x xs ih =>
    rw [modify]
    split
    · rename_i hx
      rw [filter_cons, filter_cons, hkey]
      simp [hx]
    · rw [filter_cons, filter_cons, ih]

/-- The element of a key is changed. -/
theorem mem_modify_of_key {x : α} (hdistinct : (xs.map key).Nodup) (hx : x ∈ xs) (hid : key x = id) :
    f x ∈ modify key id f xs := by
  induction xs with
  | nil => cases hx
  | cons y xs ih =>
    rw [map_cons, nodup_cons] at hdistinct
    rw [modify]
    rcases mem_cons.mp hx with rfl | hx
    · rw [if_pos hid]
      exact mem_cons_self
    · have hy : key y ≠ id := by
        rintro hy
        exact hdistinct.1 (hy.trans hid.symm ▸ mem_map_of_mem hx)
      rw [if_neg hy]
      exact mem_cons_of_mem _ (ih hdistinct.2 hx)

/-- The same change in the rows. -/
theorem updateFirst_rows {row : α → Row F} {f' : Row F → Row F}
    (hid : ∀ x, Dict.get? (row x) "id" = some (.str (key x))) (hrow : ∀ x, f' (row x) = row (f x)) :
    updateFirst id f' (xs.map fun x => .dict (row x)) =
      (modify key id f xs).map fun x => .dict (row x) := by
  induction xs with
  | nil => rfl
  | cons x xs ih =>
    rw [map_cons, updateFirst, modify, hasId, hid]
    simp only [decide_eq_true_eq]
    split
    · rw [map_cons, hrow]
    · rw [map_cons, ih]

theorem any_hasId {row : α → Row F} (hid : ∀ x, Dict.get? (row x) "id" = some (.str (key x))) :
    (xs.map fun x => PyValue.dict (row x)).any (hasId id) = true ↔ ∃ x ∈ xs, key x = id := by
  rw [any_map, any_eq_true]
  simp only [comp_apply, hasId, hid, decide_eq_true_eq]

end Modify

/-! ## A call as a change of the graph -/

/-- A recorded generation after a call. -/
def Appended.updated (a : Appended F) (delta : Option (Number F)) (n : Node F) : Node F where
  id := n.id
  parentId := a.parentId
  promoted := a.verdict
  createdAt := a.createdAt
  roundIndex := a.roundIndex
  reason :=
    if a.reason ≠ "" then a.reason else if a.verdict ≠ some false then "" else n.reason
  parentScalar := a.parentScalar.or n.parentScalar
  childScalar := a.childScalar.or n.childScalar
  deltaScalar := delta.or n.deltaScalar

/-- A generation the call enters. -/
def Appended.node (a : Appended F) (delta : Option (Number F)) : Node F where
  id := a.id
  parentId := a.parentId
  promoted := a.verdict
  createdAt := a.createdAt
  roundIndex := a.roundIndex
  reason := a.reason
  parentScalar := a.parentScalar
  childScalar := a.childScalar
  deltaScalar := delta

/-- An epoch with the generation updated or entered. -/
def Appended.entered (a : Appended F) (delta : Option (Number F)) (e : EpochNode F) :
    EpochNode F where
  id := e.id
  name := e.name
  startedAt := e.startedAt
  closedAt := e.closedAt
  v0Parent := e.v0Parent
  nodes :=
    if ∃ n ∈ e.nodes, n.id = a.id then modify Node.id a.id (a.updated delta) e.nodes
    else e.nodes ++ [a.node delta]

/-- The epoch a registration enters. -/
def EpochConfig.node (cfg : EpochConfig) (parentEpochId : Option String) : EpochNode F where
  id := cfg.id
  name := cfg.name
  startedAt := cfg.createdAt
  closedAt := cfg.closedAt
  v0Parent := parentEpochId
  nodes := []

/-- The epoch of a call that comes before its registration. -/
def Appended.thin (a : Appended F) (epochId : String) : EpochNode F where
  id := epochId
  name := ""
  startedAt := a.createdAt
  closedAt := ""
  v0Parent := none
  nodes := []

/-- A call that has returned, as a change of the graph. -/
inductive Moves : Graph F → Op F → Graph F → Prop
  | registers {g cfg parentEpochId} : (∀ e ∈ g, e.id ≠ cfg.id) →
      Moves g (.registerEpoch cfg parentEpochId)
        (g ++ [cfg.node parentEpochId])
  | registered {g cfg parentEpochId} : (∃ e ∈ g, e.id = cfg.id) →
      Moves g (.registerEpoch cfg parentEpochId) g
  | closes {g epochId closedAt} : Moves g (.markClosed epochId closedAt)
      (modify EpochNode.id epochId (fun e => { e with closedAt := closedAt }) g)
  | appends {g epochId a delta} : a.delta = .ok delta → Moves g (.appendToLineage epochId a)
      (modify EpochNode.id epochId (a.entered delta)
        (if ∃ e ∈ g, e.id = epochId then g else g ++ [a.thin epochId]))
  | discards {g epochId ids} :
      (∀ e ∈ g, e.id = epochId → ∀ n ∈ e.nodes, n.id ∈ ids → n.promoted = none) →
      Moves g (.discardPendingGenerations epochId ids)
        (modify EpochNode.id epochId
          (fun e => { e with nodes := e.nodes.filter fun n => !ids.contains n.id }) g)

/-! ## Decoding a graph -/

/-- `math.isfinite`. -/
def Number.Finite : Number F → Prop
  | .int n => (PyFloat.ofInt n : Option F).isSome = true
  | .float x => PyFloat.isfinite x = true

/-- A recorded number is finite. -/
def FiniteIfAny (n : Option (Number F)) : Prop := ∀ x, n = some x → x.Finite

/-- What reading back requires of a generation. -/
structure Node.Valid (n : Node F) : Prop where
  id : n.id ≠ ""
  parentId : n.parentId ≠ some ""
  roundIndex : 0 ≤ n.roundIndex
  parentScalar : FiniteIfAny n.parentScalar
  childScalar : FiniteIfAny n.childScalar
  deltaScalar : FiniteIfAny n.deltaScalar

/-- What reading back requires of an epoch. -/
structure EpochNode.Valid (e : EpochNode F) : Prop where
  id : e.id ≠ ""
  v0Parent : e.v0Parent ≠ some ""
  nodes : ∀ n ∈ e.nodes, n.Valid
  distinct : (e.nodes.map Node.id).Nodup

/-- What reading back requires of a lineage. -/
structure Graph.Valid (g : Graph F) : Prop where
  epochs : ∀ e ∈ g, e.Valid
  distinct : (g.map EpochNode.id).Nodup

theorem finiteIfAny_some {x : Number F} : FiniteIfAny (some x) ↔ x.Finite :=
  ⟨fun h => h x rfl, fun h _ hy => Option.some.inj hy ▸ h⟩

theorem serialises_optional {n : Option (Number F)} (h : FiniteIfAny n) :
    serialises (optional Number.value n) = true := by
  cases n with
  | none => rfl
  | some x =>
    cases x with
    | int n => rfl
    | float x => exact h _ rfl

/-- A value that passes a check. -/
theorem ite_ok_iff {α : Type} {p : Prop} [Decidable p] {a b : α} {e : String} :
    (if p then Except.ok a else .error e) = .ok b ↔ p ∧ b = a := by
  split
  · rename_i hp
    exact ⟨fun h => ⟨hp, (ok.inj h).symm⟩, fun h => congrArg _ h.2.symm⟩
  · rename_i hp
    exact iff_of_false (by simp) fun h => hp h.1

variable {row : Row F} {ids : List String}

theorem string_ok_iff {key s t : String} {required : Bool} (h : Dict.get? row key = some (.str s)) :
    string row key required = .ok t ↔ (required = true → s ≠ "") ∧ t = s := by
  rw [string, Dict.getD, h]
  simp only [Option.getD_some]
  rw [← ite_not, ite_ok_iff, not_and]

theorem parent_ok_iff {key : String} {s t : Option String}
    (h : Dict.get? row key = some (optional .str s)) :
    parent row key = .ok t ↔ s ≠ some "" ∧ t = s := by
  rw [parent, Dict.getD, h]
  cases s with
  | none => exact ⟨fun heq => ⟨by simp, (ok.inj heq).symm⟩, fun heq => congrArg _ heq.2.symm⟩
  | some s =>
    simp only [Option.getD_some, optional]
    rw [← ite_not, ite_ok_iff, Ne, Option.some.injEq]

/-- When a scalar is read. -/
theorem scalar_ok_iff {key : String} {n m : Option (Number F)}
    (h : Dict.get? row key = some (optional Number.value n)) :
    scalar row key = .ok m ↔ FiniteIfAny n ∧ m = n := by
  rw [scalar, Dict.getD, h]
  cases n with
  | none =>
    refine ⟨fun heq => ⟨by rintro _ ⟨⟩, (ok.inj heq).symm⟩, ?_⟩
    exact fun heq => congrArg _ heq.2.symm
  | some x =>
    rw [finiteIfAny_some]
    cases x with
    | int n | float x =>
      simp only [Option.getD_some, optional, Number.value]
      exact ite_ok_iff

theorem verdict_row (n : Node F) : verdict n.row n.id = .ok n.promoted := by
  obtain ⟨id, parentId, promoted, createdAt, roundIndex, reason, ps, cs, ds⟩ := n
  cases promoted <;> rfl

theorem birthRound_ok_iff {n : Node F} {r : Option Int} :
    birthRound n.row n.id = .ok r ↔ 0 ≤ n.roundIndex ∧ r = some n.roundIndex := by
  have hget : Dict.getD n.row "round_index" .none = .int n.roundIndex := rfl
  rw [birthRound, hget]
  exact ite_ok_iff

theorem serialises_row {n : Node F} (h : n.Valid) : serialises (.dict n.row) = true := by
  obtain ⟨id, parentId, promoted, createdAt, roundIndex, reason, ps, cs, ds⟩ := n
  have hfree : serialises (optional .str parentId : PyValue F) = true := by cases parentId <;> rfl
  have hverdict : serialises (optional .bool promoted : PyValue F) = true := by
    cases promoted <;> rfl
  have hps := serialises_optional h.parentScalar
  have hcs := serialises_optional h.childScalar
  have hds := serialises_optional h.deltaScalar
  simp only [Node.row, serialises, serialisesFields, hfree, hverdict, hps, hcs, hds, Bool.and_self]

theorem require_true (error : String) : require true error = .ok () := rfl

/-- A row decodes if it is valid and new. -/
theorem decodeGeneration_row {epochId : String} {n : Node F} {g : LineageGeneration F} :
    decodeGeneration epochId ids (.dict n.row) = .ok g ↔
      n.Valid ∧ n.id ∉ ids ∧ g = n.decoded := by
  have hreason : rejectionReason n.row = .ok (some n.reason) := rfl
  have hcreated : string n.row "created_at" false = .ok n.createdAt := rfl
  have hid : ∀ t, string n.row "id" true = .ok t ↔ n.id ≠ "" ∧ t = n.id := fun t =>
    (string_ok_iff rfl).trans (by simp)
  have hparent : ∀ t, parent n.row "parent_id" = .ok t ↔ n.parentId ≠ some "" ∧ t = n.parentId :=
    fun t => parent_ok_iff rfl
  have hscalars : ∀ t, (scalar n.row "parent_scalar" = .ok t ↔
        FiniteIfAny n.parentScalar ∧ t = n.parentScalar) ∧
      (scalar n.row "child_scalar" = .ok t ↔ FiniteIfAny n.childScalar ∧ t = n.childScalar) ∧
      (scalar n.row "delta_scalar" = .ok t ↔ FiniteIfAny n.deltaScalar ∧ t = n.deltaScalar) :=
    fun t => ⟨scalar_ok_iff rfl, scalar_ok_iff rfl, scalar_ok_iff rfl⟩
  constructor
  · intro h
    obtain ⟨id, hstring, h⟩ := bind_eq_ok_iff.mp h
    obtain ⟨hne, rfl⟩ := (hid id).mp hstring
    obtain ⟨hnew, h⟩ := require_bind h
    rw [verdict_row, ok_bind] at h
    obtain ⟨r, hround, h⟩ := bind_eq_ok_iff.mp h
    obtain ⟨hpositive, rfl⟩ := birthRound_ok_iff.mp hround
    rw [hreason, ok_bind] at h
    obtain ⟨p, hp, h⟩ := bind_eq_ok_iff.mp h
    obtain ⟨hne', rfl⟩ := (hparent p).mp hp
    rw [hcreated, ok_bind] at h
    obtain ⟨ps, hps, h⟩ := bind_eq_ok_iff.mp h
    obtain ⟨hparentScalar, rfl⟩ := (hscalars ps).1.mp hps
    obtain ⟨cs, hcs, h⟩ := bind_eq_ok_iff.mp h
    obtain ⟨hchildScalar, rfl⟩ := (hscalars cs).2.1.mp hcs
    obtain ⟨ds, hds, h⟩ := bind_eq_ok_iff.mp h
    obtain ⟨hdeltaScalar, rfl⟩ := (hscalars ds).2.2.mp hds
    obtain ⟨-, h⟩ := require_bind h
    exact ⟨⟨hne, hne', hpositive, hparentScalar, hchildScalar, hdeltaScalar⟩, by simpa using hnew,
      (ok.inj h).symm⟩
  · rintro ⟨hvalid, hnew, rfl⟩
    have hnew' : (!ids.contains n.id) = true := by simpa using hnew
    rw [decodeGeneration, (hid _).mpr ⟨hvalid.id, rfl⟩, ok_bind, hnew', require_true, ok_bind,
      verdict_row, ok_bind, birthRound_ok_iff.mpr ⟨hvalid.roundIndex, rfl⟩, ok_bind, hreason, ok_bind,
      (hparent _).mpr ⟨hvalid.parentId, rfl⟩, ok_bind, hcreated, ok_bind,
      (hscalars _).1.mpr ⟨hvalid.parentScalar, rfl⟩, ok_bind,
      (hscalars _).2.1.mpr ⟨hvalid.childScalar, rfl⟩, ok_bind,
      (hscalars _).2.2.mpr ⟨hvalid.deltaScalar, rfl⟩, ok_bind, serialises_row hvalid, require_true,
      ok_bind]
    rfl

/-- Ids that are new and differ from each other. -/
theorem fresh_cons {α : Type} {key : α → String} {x : α} {xs : List α} :
    ((∀ y ∈ x :: xs, key y ∉ ids) ∧ ((x :: xs).map key).Nodup) ↔
      key x ∉ ids ∧ (∀ y ∈ xs, key y ∉ ids ++ [key x]) ∧ (xs.map key).Nodup := by
  rw [forall_mem_cons, map_cons, nodup_cons]
  constructor
  · rintro ⟨⟨hx, hxs⟩, hnotin, hdistinct⟩
    refine ⟨hx, fun y hy hmem => ?_, hdistinct⟩
    rcases mem_append.mp hmem with hmem | hmem
    · exact hxs y hy hmem
    · exact hnotin (mem_singleton.mp hmem ▸ mem_map_of_mem hy)
  · rintro ⟨hx, hxs, hdistinct⟩
    refine ⟨⟨hx, fun y hy hmem => hxs y hy (mem_append_left _ hmem)⟩, fun hmem => ?_, hdistinct⟩
    obtain ⟨y, hy, heq⟩ := mem_map.mp hmem
    exact hxs y hy (mem_append_right _ (mem_singleton.mpr heq))

/-- Rows decode if they are valid and distinct. -/
theorem decodeGenerations_rows {epochId : String} {nodes : List (Node F)}
    {gs : List (LineageGeneration F)} :
    decodeGenerations epochId ids (nodes.map fun n => .dict n.row) = .ok gs ↔
      (∀ n ∈ nodes, n.Valid) ∧ ((∀ n ∈ nodes, n.id ∉ ids) ∧ (nodes.map Node.id).Nodup) ∧
        gs = nodes.map Node.decoded := by
  induction nodes generalizing ids gs with
  | nil => simp [decodeGenerations, eq_comm]
  | cons n rest ih =>
    rw [map_cons, decodeGenerations, fresh_cons, forall_mem_cons, map_cons]
    constructor
    · intro h
      obtain ⟨g, hg, h⟩ := bind_eq_ok_iff.mp h
      obtain ⟨hvalid, hnew, rfl⟩ := decodeGeneration_row.mp hg
      obtain ⟨gs', hgs, h⟩ := bind_eq_ok_iff.mp h
      obtain ⟨hvalids, ⟨hfresh, hdistinct⟩, rfl⟩ := ih.mp hgs
      exact ⟨⟨hvalid, hvalids⟩, ⟨hnew, hfresh, hdistinct⟩, (ok.inj h).symm⟩
    · rintro ⟨⟨hvalid, hvalids⟩, ⟨hnew, hfresh, hdistinct⟩, rfl⟩
      have hid : n.decoded.id = n.id := rfl
      rw [decodeGeneration_row.mpr ⟨hvalid, hnew, rfl⟩, ok_bind, hid,
        ih.mpr ⟨hvalids, ⟨hfresh, hdistinct⟩, rfl⟩]
      rfl

theorem serialisesItems_iff {items : List (PyValue F)} :
    serialisesItems items = true ↔ ∀ v ∈ items, serialises v = true := by
  induction items with
  | nil => simp [serialisesItems]
  | cons v rest ih => rw [serialisesItems, Bool.and_eq_true, ih, forall_mem_cons]

theorem serialises_rows {α : Type} {row : α → Row F} {xs : List α}
    (h : ∀ x ∈ xs, serialises (.dict (row x)) = true) :
    serialises (.list (xs.map fun x => .dict (row x))) = true := by
  rw [serialises, serialisesItems_iff]
  intro v hv
  obtain ⟨x, hx, rfl⟩ := mem_map.mp hv
  exact h x hx

theorem EpochNode.serialises_row {e : EpochNode F} (h : ∀ n ∈ e.nodes, n.Valid) :
    serialises (.dict e.row) = true := by
  have hfree : serialises (optional .str e.v0Parent : PyValue F) = true := by
    cases e.v0Parent <;> rfl
  have hnodes : serialises (.list (e.nodes.map fun n => .dict n.row)) = true :=
    serialises_rows fun n hn => LineageRecord.serialises_row (h n hn)
  rw [EpochNode.row, serialises, serialisesFields, serialisesFields, serialisesFields,
    serialisesFields, serialisesFields, serialisesFields, serialisesFields, hfree, hnodes]
  rfl

/-- An epoch decodes if it is valid and new. -/
theorem decodeEpoch_row {e : EpochNode F} {l : LineageEpoch F} :
    decodeEpoch ids (.dict e.row) = .ok l ↔ e.Valid ∧ e.id ∉ ids ∧ l = e.decoded := by
  have hid : ∀ t, string e.row "id" true = .ok t ↔ e.id ≠ "" ∧ t = e.id := fun t =>
    (string_ok_iff rfl).trans (by simp)
  have hparent : ∀ t, parent e.row "v0_parent" = .ok t ↔ e.v0Parent ≠ some "" ∧ t = e.v0Parent :=
    fun t => parent_ok_iff rfl
  have hname : string e.row "name" false = .ok e.name := rfl
  have hstarted : string e.row "started_at" false = .ok e.startedAt := rfl
  have hclosed : string e.row "closed_at" false = .ok e.closedAt := rfl
  have hrows : Dict.get? e.row "generations" = some (.list (e.nodes.map fun n => .dict n.row)) :=
    rfl
  rw [decodeEpoch, hrows]
  dsimp only
  constructor
  · intro h
    obtain ⟨id, hstring, h⟩ := bind_eq_ok_iff.mp h
    obtain ⟨hne, rfl⟩ := (hid id).mp hstring
    obtain ⟨hnew, h⟩ := require_bind h
    obtain ⟨gs, hgs, h⟩ := bind_eq_ok_iff.mp h
    obtain ⟨hnodes, ⟨-, hdistinct⟩, rfl⟩ := decodeGenerations_rows.mp hgs
    rw [hname, ok_bind, hstarted, ok_bind, hclosed, ok_bind] at h
    obtain ⟨p, hp, h⟩ := bind_eq_ok_iff.mp h
    obtain ⟨hne', rfl⟩ := (hparent p).mp hp
    obtain ⟨-, h⟩ := require_bind h
    exact ⟨⟨hne, hne', hnodes, hdistinct⟩, by simpa using hnew, (ok.inj h).symm⟩
  · rintro ⟨hvalid, hnew, rfl⟩
    have hnew' : (!ids.contains e.id) = true := by simpa using hnew
    rw [(hid _).mpr ⟨hvalid.id, rfl⟩, ok_bind, hnew', require_true, ok_bind,
      decodeGenerations_rows.mpr ⟨hvalid.nodes, ⟨fun _ _ => not_mem_nil, hvalid.distinct⟩, rfl⟩,
      ok_bind, hname, ok_bind, hstarted, ok_bind, hclosed, ok_bind,
      (hparent _).mpr ⟨hvalid.v0Parent, rfl⟩, ok_bind, EpochNode.serialises_row hvalid.nodes,
      require_true, ok_bind]
    rfl

/-- Epochs decode if they are valid and distinct. -/
theorem decodeEpochs_rows {g : Graph F} {es : List (LineageEpoch F)} :
    decodeEpochs ids (g.map fun e => .dict e.row) = .ok es ↔
      (∀ e ∈ g, e.Valid) ∧ ((∀ e ∈ g, e.id ∉ ids) ∧ (g.map EpochNode.id).Nodup) ∧
        es = g.map EpochNode.decoded := by
  induction g generalizing ids es with
  | nil => simp [decodeEpochs, eq_comm]
  | cons e rest ih =>
    rw [map_cons, decodeEpochs, fresh_cons, forall_mem_cons, map_cons]
    constructor
    · intro h
      obtain ⟨l, hl, h⟩ := bind_eq_ok_iff.mp h
      obtain ⟨hvalid, hnew, rfl⟩ := decodeEpoch_row.mp hl
      obtain ⟨es', hes, h⟩ := bind_eq_ok_iff.mp h
      obtain ⟨hvalids, ⟨hfresh, hdistinct⟩, rfl⟩ := ih.mp hes
      exact ⟨⟨hvalid, hvalids⟩, ⟨hnew, hfresh, hdistinct⟩, (ok.inj h).symm⟩
    · rintro ⟨⟨hvalid, hvalids⟩, ⟨hnew, hfresh, hdistinct⟩, rfl⟩
      have hid : e.decoded.id = e.id := rfl
      rw [decodeEpoch_row.mpr ⟨hvalid, hnew, rfl⟩, ok_bind, hid,
        ih.mpr ⟨hvalids, ⟨hfresh, hdistinct⟩, rfl⟩]
      rfl

/-- `decode_lineage` accepts the document of a graph iff the graph is valid. -/
theorem decodeLineage_raw {g : Graph F} {l : Lineage F} :
    decodeLineage (.dict (Graph.raw g)) = .ok l ↔ Graph.Valid g ∧ l = Graph.decoded g := by
  have hrows : Dict.get? (Graph.raw g) "epochs" = some (.list (g.map fun e => .dict e.row)) := rfl
  have hformat : checkRecordFormat (Graph.raw g) = .ok () := rfl
  rw [decodeLineage, hrows]
  dsimp only
  rw [hformat, ok_bind]
  constructor
  · intro h
    obtain ⟨es, hes, h⟩ := bind_eq_ok_iff.mp h
    obtain ⟨hvalid, ⟨-, hdistinct⟩, rfl⟩ := decodeEpochs_rows.mp hes
    obtain ⟨-, h⟩ := require_bind h
    exact ⟨⟨hvalid, hdistinct⟩, (ok.inj h).symm⟩
  · rintro ⟨⟨hvalid, hdistinct⟩, rfl⟩
    have hserialises : serialises (.dict (Graph.raw g)) = true := by
      have hepochs : serialises (.list (g.map fun e => .dict e.row)) = true :=
        serialises_rows fun e he => EpochNode.serialises_row (hvalid e he).nodes
      rw [Graph.raw, serialises, serialisesFields, serialisesFields, serialisesFields, hepochs]
      rfl
    rw [decodeEpochs_rows.mpr ⟨hvalid, ⟨fun _ _ => not_mem_nil, hdistinct⟩, rfl⟩, ok_bind,
      hserialises, require_true, ok_bind]
    rfl

/-! ## Reading and writing a graph -/

theorem project_self {body : Row F} {key : String} {value : PyValue F} {isDefault : Bool}
    (h : Dict.get? body key = some value) : project body key value isDefault = body := by
  rw [project, h, if_pos (.inl rfl), set_eq_self h]

/-- A generation is written back as its row. -/
theorem Node.decoded_toDict (n : Node F) : n.decoded.toDict = n.row := by
  have hid : Dict.get? n.row "id" = some (.str n.id) := rfl
  have hparent : Dict.get? n.row "parent_id" = some (optional .str n.parentId) := rfl
  have hpromoted : Dict.get? n.row "promoted" = some (optional .bool n.promoted) := rfl
  have hcreated : Dict.get? n.row "created_at" = some (.str n.createdAt) := rfl
  have hround : Dict.get? n.row "round_index" = some (optional .int (some n.roundIndex)) := rfl
  have hreason : Dict.get? n.row "rejection_reason" = some (optional .str (some n.reason)) := rfl
  have hps : Dict.get? n.row "parent_scalar" = some (optional Number.value n.parentScalar) := rfl
  have hcs : Dict.get? n.row "child_scalar" = some (optional Number.value n.childScalar) := rfl
  have hds : Dict.get? n.row "delta_scalar" = some (optional Number.value n.deltaScalar) := rfl
  simp only [LineageGeneration.toDict, Node.decoded, project_self hid, project_self hparent,
    project_self hpromoted, project_self hcreated, project_self hround, project_self hreason,
    project_self hps, project_self hcs, project_self hds]

variable (e : EpochNode F)

/-- An epoch is written back as its row. -/
theorem EpochNode.decoded_toDict : e.decoded.toDict = e.row := by
  have hnodes : (e.decoded.generations.map fun g => PyValue.dict g.toDict) =
      e.nodes.map fun n => .dict n.row := by
    rw [EpochNode.decoded, map_map]
    exact map_congr_left fun n _ => by rw [comp_apply, n.decoded_toDict]
  have hrows : Dict.get? e.row "generations" = some (.list (e.nodes.map fun n => .dict n.row)) :=
    rfl
  have hid : Dict.get? e.row "id" = some (.str e.id) := rfl
  have hname : Dict.get? e.row "name" = some (.str e.name) := rfl
  have hstarted : Dict.get? e.row "started_at" = some (.str e.startedAt) := rfl
  have hclosed : Dict.get? e.row "closed_at" = some (.str e.closedAt) := rfl
  have hparent : Dict.get? e.row "v0_parent" = some (optional .str e.v0Parent) := rfl
  rw [LineageEpoch.toDict, hnodes]
  simp only [EpochNode.decoded, project_self hid, project_self hname, project_self hstarted,
    project_self hclosed, project_self hparent]
  exact set_eq_self hrows

theorem Graph.decoded_toDict (g : Graph F) : (Graph.decoded g).toDict = Graph.raw g := by
  have hepochs : ((Graph.decoded g).epochs.map fun e => PyValue.dict e.toDict) =
      g.map fun e => .dict e.row := by
    rw [Graph.decoded, map_map]
    exact map_congr_left fun e _ => by rw [comp_apply, e.decoded_toDict]
  have hrows : Dict.get? (Graph.raw g) "epochs" = some (.list (g.map fun e => .dict e.row)) := rfl
  rw [Lineage.toDict, hepochs]
  exact set_eq_self hrows

/-- The document of a graph. -/
def Graph.file (g : Graph F) : File F := some (.dict (Graph.raw g))

theorem loadRaw_file {g : Graph F} (h : Graph.Valid g) :
    loadRaw (Graph.file g) = .ok (Graph.raw g) := by
  rw [Graph.file, loadRaw, decodeLineage_raw.mpr ⟨h, rfl⟩, Except.map, Graph.decoded_toDict]

/-- A graph that is written is valid. -/
theorem saveRaw_raw {g : Graph F} {file : File F} :
    saveRaw (Graph.raw g) = .ok file ↔ Graph.Valid g ∧ file = Graph.file g := by
  have hformat : Dict.set (Graph.raw g) "format_version" (.int 1) = Graph.raw g :=
    set_eq_self rfl
  rw [saveRaw, hformat]
  constructor
  · intro h
    obtain ⟨l, hl, h⟩ := bind_eq_ok_iff.mp h
    obtain ⟨hvalid, rfl⟩ := decodeLineage_raw.mp hl
    rw [Graph.decoded_toDict, decodeLineage_raw.mpr ⟨hvalid, rfl⟩, ok_bind, Graph.decoded_toDict] at h
    exact ⟨hvalid, (ok.inj h).symm⟩
  · rintro ⟨hvalid, rfl⟩
    rw [decodeLineage_raw.mpr ⟨hvalid, rfl⟩, ok_bind, Graph.decoded_toDict,
      decodeLineage_raw.mpr ⟨hvalid, rfl⟩, ok_bind, Graph.decoded_toDict]
    rfl

/-! ## What the mutators do to the graph -/

theorem Node.row_id (n : Node F) : Dict.get? n.row "id" = some (.str n.id) := rfl

theorem EpochNode.row_id : Dict.get? e.row "id" = some (.str e.id) := rfl

theorem listOf_raw (g : Graph F) : listOf (Graph.raw g) "epochs" = g.map fun e => .dict e.row := rfl

theorem set_raw (g g' : Graph F) :
    Dict.set (Graph.raw g) "epochs" (.list (g'.map fun e => .dict e.row)) = Graph.raw g' := rfl

theorem listOf_row : listOf e.row "generations" = e.nodes.map fun n => .dict n.row:= rfl

theorem set_row (nodes : List (Node F)) :
    Dict.set e.row "generations" (.list (nodes.map fun n => .dict n.row)) =
      EpochNode.row { e with nodes := nodes } := rfl

theorem setdefault_self {key : String} {v w : PyValue F} (h : Dict.get? row key = some v) :
    Dict.setdefault row key w = row := by
  rw [Dict.setdefault, h]

theorem setPresent_or {key : String} {n m : Option (Number F)}
    (h : Dict.get? row key = some (optional Number.value m)) :
    setPresent row key n = Dict.set row key (optional Number.value (n.or m)) := by
  cases n with
  | none => rw [setPresent, Option.none_or, set_eq_self h]
  | some n => rfl

/-- An update of a row is one of its generation. -/
theorem Appended.update_row (a : Appended F) (delta : Option (Number F)) (n : Node F) :
    a.update delta n.row = (a.updated delta n).row := by
  have hfacts : Dict.set (Dict.set (Dict.set (Dict.set n.row "parent_id" (optional .str a.parentId))
      "promoted" (optional .bool a.verdict)) "created_at" (.str a.createdAt)) "round_index"
        (.int a.roundIndex) =
      Node.row { n with parentId := a.parentId, promoted := a.verdict, createdAt := a.createdAt,
                        roundIndex := a.roundIndex } := rfl
  have hreason : ∀ m : Node F,
      (if a.reason ≠ "" then Dict.set m.row "rejection_reason" (.str a.reason)
        else if a.verdict ≠ some false then Dict.set m.row "rejection_reason" (.str "")
        else m.row) =
      Node.row { m with reason := if a.reason ≠ "" then a.reason
                                  else if a.verdict ≠ some false then "" else m.reason } := by
    intro m
    split
    · rfl
    split <;> rfl
  have hkept : ∀ m : Node F,
      Dict.get? m.row "rejection_reason" = some (.str m.reason) ∧
      Dict.get? m.row "parent_scalar" = some (optional Number.value m.parentScalar) ∧
      Dict.get? m.row "child_scalar" = some (optional Number.value m.childScalar) ∧
      Dict.get? m.row "delta_scalar" = some (optional Number.value m.deltaScalar) :=
    fun m => ⟨rfl, rfl, rfl, rfl⟩
  have hparent : ∀ m : Node F, Dict.set m.row "parent_scalar"
      (optional Number.value (a.parentScalar.or m.parentScalar)) =
        Node.row { m with parentScalar := a.parentScalar.or m.parentScalar } := fun _ => rfl
  have hchild : ∀ m : Node F, Dict.set m.row "child_scalar"
      (optional Number.value (a.childScalar.or m.childScalar)) =
        Node.row { m with childScalar := a.childScalar.or m.childScalar } := fun _ => rfl
  have hdelta : ∀ m : Node F, Dict.set m.row "delta_scalar"
      (optional Number.value (delta.or m.deltaScalar)) =
        Node.row { m with deltaScalar := delta.or m.deltaScalar } := fun _ => rfl
  simp only [Appended.update]
  rw [hfacts, hreason, setdefault_self (hkept _).1, setPresent_or (hkept _).2.1, hparent,
    setPresent_or (hkept _).2.2.1, hchild, setPresent_or (hkept _).2.2.2, hdelta,
    setdefault_self (hkept _).2.1, setdefault_self (hkept _).2.2.1,
    setdefault_self (hkept _).2.2.2]
  rfl

theorem Appended.node_row (a : Appended F) (delta : Option (Number F)) :
    a.row delta = (a.node delta).row := rfl

/-- An entry into a row is one into its epoch. -/
theorem Appended.enter_row (a : Appended F) (delta : Option (Number F)) (e : EpochNode F) :
    a.enter delta e.row = (a.entered delta e).row := by
  rw [Appended.enter, listOf_row]
  by_cases hknown : ∃ n ∈ e.nodes, n.id = a.id
  · rw [if_pos ((any_hasId Node.row_id).mpr hknown),
      updateFirst_rows Node.row_id (a.update_row delta), set_row, Appended.entered, if_pos hknown]
  · rw [if_neg fun h => hknown ((any_hasId Node.row_id).mp h), a.node_row, Appended.entered,
      if_neg hknown]
    have happend : (e.nodes.map fun n => PyValue.dict n.row) ++ [.dict (a.node delta).row] =
        (e.nodes ++ [a.node delta]).map fun n => .dict n.row := by
      rw [map_append]
      rfl
    rw [happend, set_row]

section Calls
variable {g : Graph F} {file' : File F}

/-- `register_epoch` moves the lineage. -/
theorem registerEpoch_moves (hvalid : Graph.Valid g) {cfg : EpochConfig} {parentEpochId : Option String}
    (h : registerEpoch (Graph.file g) cfg parentEpochId = .ok file') :
    ∃ g', Moves g (.registerEpoch cfg parentEpochId) g' ∧ Graph.Valid g' ∧ file' = Graph.file g' := by
  rw [registerEpoch, loadRaw_file hvalid, ok_bind, listOf_raw] at h
  split at h
  · rename_i hknown
    have hknown := (any_hasId EpochNode.row_id).mp hknown
    exact ⟨g, .registered hknown, hvalid, (ok.inj h).symm⟩
  · rename_i hknown
    have hfree : ∀ e ∈ g, e.id ≠ cfg.id := fun e he heq =>
      hknown ((any_hasId EpochNode.row_id).mpr ⟨e, he, heq⟩)
    have happend : (g.map fun e => PyValue.dict e.row) ++
          [.dict [("id", .str cfg.id), ("name", .str cfg.name), ("started_at", .str cfg.createdAt),
            ("closed_at", .str cfg.closedAt), ("v0_parent", optional .str parentEpochId),
            ("generations", .list [])]] =
        (g ++ [cfg.node parentEpochId]).map fun e : EpochNode F => PyValue.dict e.row := by
      rw [map_append]
      rfl
    rw [happend, set_raw] at h
    exact ⟨_, .registers hfree, saveRaw_raw.mp h⟩

variable {epochId : String}

/-- `mark_closed` moves the lineage. -/
theorem markClosed_moves (hvalid : Graph.Valid g) {closedAt : String}
    (h : markClosed (Graph.file g) epochId closedAt = .ok file') :
    ∃ g', Moves g (.markClosed epochId closedAt) g' ∧ Graph.Valid g' ∧ file' = Graph.file g' := by
  rw [markClosed, loadRaw_file hvalid, ok_bind, listOf_raw] at h
  split at h
  · have hrow : ∀ e : EpochNode F, Dict.set e.row "closed_at" (.str closedAt) =
        EpochNode.row { e with closedAt := closedAt } := fun _ => rfl
    rw [updateFirst_rows EpochNode.row_id hrow, set_raw] at h
    exact ⟨_, .closes, saveRaw_raw.mp h⟩
  · rename_i hunknown
    have habsent : ∀ e ∈ g, e.id ≠ epochId := fun e he heq =>
      hunknown ((any_hasId EpochNode.row_id).mpr ⟨e, he, heq⟩)
    have hmoves : Moves g (.markClosed epochId closedAt) _ := .closes
    rw [modify_of_absent habsent] at hmoves
    exact ⟨g, hmoves, hvalid, (ok.inj h).symm⟩

/-- `append_to_lineage` moves the lineage. -/
theorem appendToLineage_moves (hvalid : Graph.Valid g) {a : Appended F}
    (h : appendToLineage (Graph.file g) epochId a = .ok file') :
    ∃ g', Moves g (.appendToLineage epochId a) g' ∧ Graph.Valid g' ∧ file' = Graph.file g' := by
  rw [appendToLineage, loadRaw_file hvalid, ok_bind, listOf_raw] at h
  dsimp only at h
  obtain ⟨delta, hdelta, h⟩ := bind_eq_ok_iff.mp h
  have hentries : (if (g.map fun e => PyValue.dict e.row).any (hasId epochId) = true
        then g.map fun e => PyValue.dict e.row
        else (g.map fun e => PyValue.dict e.row) ++ [.dict [("id", .str epochId), ("name", .str ""),
          ("started_at", .str a.createdAt), ("closed_at", .str ""), ("v0_parent", .none),
          ("generations", .list [])]]) =
      (if ∃ e ∈ g, e.id = epochId then g else g ++ [a.thin epochId]).map
        fun e => PyValue.dict e.row := by
    by_cases hknown : ∃ e ∈ g, e.id = epochId
    · rw [if_pos ((any_hasId EpochNode.row_id).mpr hknown), if_pos hknown]
    · rw [if_neg fun h => hknown ((any_hasId EpochNode.row_id).mp h), if_neg hknown, map_append]
      rfl
  rw [hentries, updateFirst_rows EpochNode.row_id (a.enter_row delta), set_raw] at h
  exact ⟨_, .appends hdelta, saveRaw_raw.mp h⟩

theorem find?_rows (epochId : String) :
    (g.map fun e => PyValue.dict e.row).find? (hasId epochId) =
      (g.find? fun e => decide (e.id = epochId)).map fun e => .dict e.row := by
  rw [find?_map]
  rfl

theorem any_hasId_iff {ids : List String} {n : Node F} :
    (ids.any fun id => hasId id (.dict n.row)) = ids.contains n.id := by
  rw [Bool.eq_iff_iff, any_eq_true, contains_iff_mem]
  simp only [hasId, n.row_id, decide_eq_true_eq]
  constructor
  · rintro ⟨id, hid, rfl⟩
    exact hid
  · exact fun h => ⟨_, h, rfl⟩

/-- `discard_pending_generations` moves the lineage. -/
theorem discardPendingGenerations_moves (hvalid : Graph.Valid g) {ids removed : List String}
    (h : discardPendingGenerations (Graph.file g) epochId ids = .ok (file', removed)) :
    ∃ g', Moves g (.discardPendingGenerations epochId ids) g' ∧ Graph.Valid g' ∧
      file' = Graph.file g' := by
  -- nothing to remove
  have hstays : (∀ e ∈ g, e.id = epochId → ∀ n ∈ e.nodes, n.id ∉ ids) → file' = Graph.file g →
      ∃ g', Moves g (.discardPendingGenerations epochId ids) g' ∧ Graph.Valid g' ∧
        file' = Graph.file g' := by
    intro hnone hfile
    have hmoves : Moves g (.discardPendingGenerations epochId ids) _ :=
      .discards fun e he hid n hn hmem => absurd hmem (hnone e he hid n hn)
    rw [modify_id] at hmoves
    · exact ⟨g, hmoves, hvalid, hfile⟩
    · intro e he hid
      have hall : e.nodes.filter (fun n => !ids.contains n.id) = e.nodes :=
        filter_eq_self.mpr fun n hn => by simpa using hnone e he hid n hn
      rw [hall]
  rw [discardPendingGenerations] at h
  split at h
  · rename_i hempty
    refine hstays (fun e _ _ n _ => ?_) (congrArg Prod.fst (ok.inj h)).symm
    rw [hempty]
    exact not_mem_nil
  rw [loadRaw_file hvalid, ok_bind, listOf_raw, find?_rows] at h
  cases hfind : g.find? fun e => decide (e.id = epochId) with
  | none =>
    rw [hfind] at h
    refine hstays (fun e he hid => ?_) (congrArg Prod.fst (ok.inj h)).symm
    exact absurd (decide_eq_true hid) (by simpa using find?_eq_none.mp hfind e he)
  | some e =>
    rw [hfind] at h
    dsimp only [Option.map_some] at h
    obtain ⟨he, hid⟩ : e ∈ g ∧ e.id = epochId :=
      ⟨mem_of_find?_eq_some hfind, by simpa using find?_some hfind⟩
    -- the ids differ, so there is no other epoch of that id
    have honly : ∀ e' ∈ g, e'.id = epochId → e' = e := fun e' he' hid' =>
      inj_on_of_nodup_map hvalid.distinct he' he (hid'.trans hid.symm)
    rw [listOf_row] at h
    split at h
    · cases h
    rename_i hpending
    have hnone : ∀ n ∈ e.nodes, n.id ∈ ids → n.promoted = none := by
      intro n hn hmem
      by_contra hresolved
      refine hpending (any_eq_true.mpr ⟨_, mem_map_of_mem hn, ?_⟩)
      rw [namedResolved, any_hasId_iff, Bool.and_eq_true]
      refine ⟨contains_iff_mem.mpr hmem, ?_⟩
      cases hpromoted : n.promoted with
      | none => exact absurd hpromoted hresolved
      | some b =>
        have hget : Dict.get? n.row "promoted" = some (optional .bool n.promoted) := rfl
        rw [Dict.getD, hget, hpromoted]
        rfl
    split at h
    · rename_i hremoved
      refine hstays (fun e' he' hid' n hn hmem => ?_) (congrArg Prod.fst (ok.inj h)).symm
      rw [honly e' he' hid'] at hn
      have hin : n.id ∈ ((e.nodes.map fun n => PyValue.dict n.row).filter fun row =>
          ids.any fun id => hasId id row).filterMap idOf := by
        refine mem_filterMap.mpr ⟨.dict n.row, mem_filter.mpr
          ⟨mem_map_of_mem hn, ?_⟩, rfl⟩
        rw [any_hasId_iff]
        exact contains_iff_mem.mpr hmem
      rw [hremoved] at hin
      cases hin
    · obtain ⟨saved, hsaved, h⟩ := bind_eq_ok_iff.mp h
      obtain rfl : saved = file' := congrArg Prod.fst (ok.inj h)
      have hkept : (e.nodes.map fun n => PyValue.dict n.row).filter (fun row =>
            !ids.any fun id => hasId id row) =
          (e.nodes.filter fun n => !ids.contains n.id).map fun n => PyValue.dict n.row := by
        rw [filter_map]
        refine congrArg _ (filter_congr fun n _ => ?_)
        rw [comp_apply, any_hasId_iff]
      have hrow : ∀ x : EpochNode F, Dict.set x.row "generations" (.list
            ((e.nodes.filter fun n => !ids.contains n.id).map fun n => PyValue.dict n.row)) =
          EpochNode.row { x with nodes := e.nodes.filter fun n => !ids.contains n.id } :=
        fun x => set_row x _
      rw [hkept, updateFirst_rows EpochNode.row_id hrow, set_raw] at hsaved
      have hmoves : Moves g (.discardPendingGenerations epochId ids) _ :=
        .discards fun e' he' hid' => honly e' he' hid' ▸ hnone
      have hsame : modify EpochNode.id epochId
            (fun x => { x with nodes := x.nodes.filter fun n => !ids.contains n.id }) g =
          modify EpochNode.id epochId
            (fun x => { x with nodes := e.nodes.filter fun n => !ids.contains n.id }) g :=
        modify_congr fun e' he' hid' => by rw [honly e' he' hid']
      rw [hsame] at hmoves
      exact ⟨_, hmoves, saveRaw_raw.mp hsaved⟩

/-- Every operation moves the lineage, and leaves it valid. -/
theorem call_moves (hvalid : Graph.Valid g) {op : Op F} (h : op.call (Graph.file g) = .ok file') :
    ∃ g', Moves g op g' ∧ Graph.Valid g' ∧ file' = Graph.file g' := by
  cases op with
  | registerEpoch cfg parentEpochId => exact registerEpoch_moves hvalid h
  | markClosed epochId closedAt => exact markClosed_moves hvalid h
  | appendToLineage epochId a => exact appendToLineage_moves hvalid h
  | discardPendingGenerations epochId ids =>
    rw [Op.call] at h
    cases hcall : discardPendingGenerations (Graph.file g) epochId ids with
    | error _ => rw [hcall] at h; cases h
    | ok result =>
      rw [hcall] at h
      obtain rfl := ok.inj h
      exact discardPendingGenerations_moves hvalid hcall

end Calls

/-! ## What holds of every generation -/

/-- A reason is that of a rejection, and a difference needs both of its sides. -/
structure LineageGeneration.Sound (g : LineageGeneration F) : Prop where
  reason : ∀ r, g.rejectionReason = some r → r ≠ "" → g.promoted = some false
  absent : g.parentScalar = none ∨ g.childScalar = none → g.deltaScalar = none

/-- The recorded difference is that of the recorded scalars. -/
def LineageGeneration.Coupled (g : LineageGeneration F) : Prop :=
  ∀ p c, g.parentScalar = some p → g.childScalar = some c →
    ∃ d, c.sub p = some d ∧ g.deltaScalar = some d

/-- A call that passes one scalar of the two leaves the difference right: the other is not
recorded, or the difference is the recorded one. -/
def Appended.Keeps (a : Appended F) (g : LineageGeneration F) : Prop :=
  (∀ c p, a.parentScalar = none → a.childScalar = some c → g.parentScalar = some p →
    ∃ d, c.sub p = some d ∧ g.deltaScalar = some d) ∧
  ∀ p c, a.parentScalar = some p → a.childScalar = none → g.childScalar = some c →
    ∃ d, c.sub p = some d ∧ g.deltaScalar = some d

section Appending
variable {a : Appended F} {delta : Option (Number F)} {n : Node F}

theorem Appended.verdict_of_reason (h : a.reason ≠ "") : a.verdict = some false := by
  by_contra hverdict
  exact h (if_neg hverdict)

/-- The difference of a call is that of its two scalars, or absent. -/
theorem Appended.delta_cases (h : a.delta = .ok delta) :
    (∃ c p d, a.childScalar = some c ∧ a.parentScalar = some p ∧ c.sub p = some d ∧
      delta = some d) ∨
    ((a.childScalar = none ∨ a.parentScalar = none) ∧ delta = none) := by
  rw [Appended.delta] at h
  cases hchild : a.childScalar with
  | none =>
    rw [hchild] at h
    exact .inr ⟨.inl rfl, (ok.inj h).symm⟩
  | some c =>
    cases hparent : a.parentScalar with
    | none =>
      rw [hchild, hparent] at h
      exact .inr ⟨.inr rfl, (ok.inj h).symm⟩
    | some p =>
      rw [hchild, hparent] at h
      dsimp only at h
      cases hsub : c.sub p with
      | none => rw [hsub] at h; cases h
      | some d =>
        rw [hsub] at h
        exact .inl ⟨c, p, d, rfl, rfl, hsub, (ok.inj h).symm⟩

theorem Appended.node_sound (hdelta : a.delta = .ok delta) : (a.node delta).decoded.Sound where
  reason r hr hne := by
    obtain rfl := Option.some.inj hr
    exact a.verdict_of_reason hne
  absent habsent := by
    rcases Appended.delta_cases hdelta with ⟨c, p, d, hchild, hparent, -, -⟩ | ⟨-, hnone⟩
    · rcases habsent with habsent | habsent
      · exact absurd (hparent.symm.trans habsent) (by simp)
      · exact absurd (hchild.symm.trans habsent) (by simp)
    · exact hnone

/-- A new generation has its delta. -/
theorem Appended.node_coupled (hdelta : a.delta = .ok delta) : (a.node delta).decoded.Coupled := by
  intro p c hparent hchild
  have hparent : a.parentScalar = some p := hparent
  have hchild : a.childScalar = some c := hchild
  rcases Appended.delta_cases hdelta with ⟨c', p', d, hchild', hparent', hsub, hd⟩ | ⟨hnone, -⟩
  · rw [hchild] at hchild'
    rw [hparent] at hparent'
    obtain rfl := Option.some.inj hchild'
    obtain rfl := Option.some.inj hparent'
    exact ⟨d, hsub, hd⟩
  · rw [hchild, hparent] at hnone
    simp at hnone

/-- An update keeps a generation sound. -/
theorem Appended.updated_sound (hdelta : a.delta = .ok delta) (h : n.decoded.Sound) :
    (a.updated delta n).decoded.Sound where
  reason r hr hne := by
    obtain rfl := Option.some.inj hr
    change a.verdict = some false
    have hne : (if a.reason ≠ "" then a.reason
      else if a.verdict ≠ some false then "" else n.reason) ≠ "" := hne
    split at hne
    · exact a.verdict_of_reason hne
    split at hne
    · exact absurd rfl hne
    · rename_i hverdict
      exact not_not.mp hverdict
  absent habsent := by
    have habsent : a.parentScalar.or n.parentScalar = none ∨
        a.childScalar.or n.childScalar = none := habsent
    rw [Option.or_eq_none_iff, Option.or_eq_none_iff] at habsent
    change delta.or n.deltaScalar = none
    rw [Option.or_eq_none_iff]
    refine ⟨?_, h.absent (habsent.imp And.right And.right)⟩
    rcases Appended.delta_cases hdelta with ⟨c, p, d, hchild, hparent, -, -⟩ | ⟨-, hnone⟩
    · simp [hchild, hparent] at habsent
    · exact hnone

/-- An update keeps the difference right iff the call meets the condition. -/
theorem Appended.updated_coupled_iff (hdelta : a.delta = .ok delta) (h : n.decoded.Coupled) :
    (a.updated delta n).decoded.Coupled ↔ a.Keeps n.decoded := by
  have hfields : (a.updated delta n).decoded.parentScalar = a.parentScalar.or n.parentScalar ∧
      (a.updated delta n).decoded.childScalar = a.childScalar.or n.childScalar ∧
      (a.updated delta n).decoded.deltaScalar = delta.or n.deltaScalar := ⟨rfl, rfl, rfl⟩
  rw [LineageGeneration.Coupled, hfields.1, hfields.2.1, hfields.2.2, Appended.Keeps]
  rcases Appended.delta_cases hdelta with ⟨c, p, d, hchild, hparent, hsub, rfl⟩ | ⟨hnone, rfl⟩
  · simp [hchild, hparent, hsub]
  · rw [Option.none_or]
    cases hparent : a.parentScalar with
    | none =>
      cases hchild : a.childScalar with
      | none =>
        refine iff_of_true h ⟨fun c p _ hc => (nomatch hc), fun p c hp => nomatch hp⟩
      | some c =>
        rw [Option.none_or, Option.some_or]
        constructor
        · refine fun hcoupled => ⟨fun c' p _ hc hp => ?_, fun p c hp => nomatch hp⟩
          exact hcoupled p c' hp hc
        · exact fun hkeeps p c' hp hc => hkeeps.1 c' p rfl hc hp
    | some p =>
      have hchild : a.childScalar = none := hnone.resolve_right (by simp [hparent])
      rw [hchild, Option.none_or, Option.some_or]
      constructor
      · refine fun hcoupled => ⟨fun c p' hp => (nomatch hp), fun p' c hp _ hc => ?_⟩
        exact hcoupled p' c hp hc
      · exact fun hkeeps p' c hp hc => hkeeps.2 p' c hp rfl hc

end Appending

/-! ## What a call leaves alone -/

/-- The epoch a call names. -/
def Op.epochId : Op F → String
  | .registerEpoch cfg _ => cfg.id
  | .markClosed epochId _ => epochId
  | .appendToLineage epochId _ => epochId
  | .discardPendingGenerations epochId _ => epochId

/-- An epoch's own fields. -/
def LineageEpoch.own (e : LineageEpoch F) : String × String × String × String × Option String :=
  (e.id, e.name, e.startedAt, e.closedAt, e.v0Parent)

/-- What a call does to the epoch it names, if it was there. -/
def Op.Within (e e' : LineageEpoch F) : Op F → Prop
  | .registerEpoch _ _ => e' = e
  | .markClosed _ closedAt =>
      e'.own = { e with closedAt := closedAt }.own ∧ e'.generations = e.generations
  | .appendToLineage _ a =>
      e'.own = e.own ∧ e'.generations.filter (fun g => decide (g.id ≠ a.id)) =
        e.generations.filter fun g => decide (g.id ≠ a.id)
  | .discardPendingGenerations _ ids =>
      e'.own = e.own ∧ e'.generations = e.generations.filter (fun g => !ids.contains g.id) ∧
        ∀ g ∈ e.generations, g.id ∈ ids → g.promoted = none

/-- A call changes no epoch but the one it names, and within that no generation but those it
names; what it removes was pending. -/
structure Frames (op : Op F) (l l' : Lineage F) : Prop where
  others : l'.epochs.filter (fun e => decide (e.id ≠ op.epochId)) =
    l.epochs.filter fun e => decide (e.id ≠ op.epochId)
  named : ∀ e ∈ l.epochs, e.id = op.epochId → ∃ e' ∈ l'.epochs, op.Within e e'

/-- The condition on a call at a graph. -/
def Op.Keeps (l : Lineage F) : Op F → Prop
  | .appendToLineage epochId a =>
      ∀ e ∈ l.epochs, e.id = epochId → ∀ g ∈ e.generations, g.id = a.id → a.Keeps g
  | _ => True

section Moving
variable {g g' : Graph F} {op : Op F}

theorem filter_decoded (g : Graph F) (id : String) :
    (Graph.decoded g).epochs.filter (fun e => decide (e.id ≠ id)) =
      (g.filter fun e => decide (e.id ≠ id)).map EpochNode.decoded := by
  rw [Graph.decoded, filter_map]
  rfl

/-- One epoch is changed in place. -/
theorem frames_modify {f : EpochNode F → EpochNode F} (hdistinct : (g.map EpochNode.id).Nodup)
    (hid : ∀ e, (f e).id = e.id)
    (hwithin : ∀ e ∈ g, e.id = op.epochId → op.Within e.decoded (f e).decoded) :
    Frames op (Graph.decoded g) (Graph.decoded (modify EpochNode.id op.epochId f g)) where
  others := by rw [filter_decoded, filter_decoded, filter_modify hid]
  named l hl hnamed := by
    obtain ⟨e, he, rfl⟩ := mem_map.mp hl
    exact ⟨(f e).decoded, mem_map_of_mem (mem_modify_of_key hdistinct he hnamed),
      hwithin e he hnamed⟩

/-- An epoch is entered that was not there. -/
theorem frames_append {e : EpochNode F} (hfree : ∀ e' ∈ g, e'.id ≠ op.epochId)
    (hid : e.id = op.epochId) : Frames op (Graph.decoded g) (Graph.decoded (g ++ [e])) where
  others := by
    rw [filter_decoded, filter_decoded, filter_append]
    simp [hid]
  named l hl hnamed := by
    obtain ⟨e', he', rfl⟩ := mem_map.mp hl
    exact absurd hnamed (hfree e' he')

theorem filter_generations (e : EpochNode F) (id : String) :
    e.decoded.generations.filter (fun g => decide (g.id ≠ id)) =
      (e.nodes.filter fun n => decide (n.id ≠ id)).map Node.decoded := by
  rw [EpochNode.decoded, filter_map]
  rfl

theorem Appended.entered_within {a : Appended F} {delta : Option (Number F)} (epochId : String)
    (e : EpochNode F) :
    (Op.appendToLineage epochId a).Within e.decoded (a.entered delta e).decoded := by
  refine ⟨rfl, ?_⟩
  rw [filter_generations, filter_generations, Appended.entered]
  dsimp only
  have hid : ∀ n : Node F, (a.updated delta n).id = n.id := fun _ => rfl
  split
  · rw [filter_modify hid]
  · rw [filter_append]
    simp [Appended.node]

/-- What an operation is not about stays. -/
theorem Moves.frames (h : Moves g op g') (hvalid : Graph.Valid g) :
    Frames op (Graph.decoded g) (Graph.decoded g') := by
  cases h with
  | registers hfree => exact frames_append hfree rfl
  | registered hknown => exact ⟨rfl, fun e he _ => ⟨e, he, rfl⟩⟩
  | closes => exact frames_modify hvalid.distinct (fun _ => rfl) fun e _ _ => ⟨rfl, rfl⟩
  | @appends epochId a delta hdelta =>
    split
    · exact frames_modify hvalid.distinct (fun _ => rfl) fun e _ _ => a.entered_within epochId e
    · rename_i hunknown
      have hfree : ∀ e ∈ g, e.id ≠ epochId := fun e he heq => hunknown ⟨e, he, heq⟩
      have hlast : modify EpochNode.id epochId (a.entered delta) (g ++ [a.thin epochId]) =
          g ++ [a.entered delta (a.thin epochId)] :=
        modify_append hfree rfl
      rw [hlast]
      exact frames_append hfree rfl
  | discards hpending =>
    refine frames_modify hvalid.distinct (fun _ => rfl) fun e he hid => ⟨rfl, ?_, ?_⟩
    · rw [EpochNode.decoded, EpochNode.decoded, filter_map]
      rfl
    · intro l hl hmem
      obtain ⟨n, hn, rfl⟩ := mem_map.mp hl
      exact hpending e he hid n hn hmem

/-- A property of every generation. -/
def All (P : LineageGeneration F → Prop) (g : Graph F) : Prop :=
  ∀ e ∈ g, ∀ n ∈ e.nodes, P n.decoded

/-- Only an append makes a generation, and it makes a new one or updates the one it names. -/
theorem Moves.all {P : LineageGeneration F → Prop} (h : Moves g op g') (hall : All P g)
    (hnode : ∀ epochId a delta, op = .appendToLineage epochId a → a.delta = .ok delta →
      P (a.node delta).decoded)
    (hupdated : ∀ epochId a delta, op = .appendToLineage epochId a → a.delta = .ok delta →
      ∀ e ∈ g, e.id = epochId → ∀ n ∈ e.nodes, n.id = a.id → P (a.updated delta n).decoded) :
    All P g' := by
  cases h with
  | registers _ =>
    intro e he n hn
    rcases mem_append.mp he with he | he
    · exact hall e he n hn
    · obtain rfl := mem_singleton.mp he
      cases hn
  | registered _ => exact hall
  | closes =>
    intro e he n hn
    rcases mem_modify he with hold | ⟨e₀, hold, -, rfl⟩
    · exact hall e hold n hn
    · exact hall e₀ hold n hn
  | @appends epochId a delta hdelta =>
    intro e he n hn
    -- a thin epoch has no generation yet
    have hentry : ∀ e ∈ (if ∃ e ∈ g, e.id = epochId then g else g ++ [a.thin epochId]),
        e ∈ g ∨ e.nodes = [] := by
      intro e he
      split at he
      · exact .inl he
      · rcases mem_append.mp he with he | he
        · exact .inl he
        · exact .inr (mem_singleton.mp he ▸ rfl)
    rcases mem_modify he with hold | ⟨e₀, hold, hid, rfl⟩
    · rcases hentry e hold with hold | hnil
      · exact hall e hold n hn
      · rw [hnil] at hn
        cases hn
    · rw [Appended.entered] at hn
      dsimp only at hn
      split at hn
      · rcases hentry e₀ hold with hold | hnil
        · rcases mem_modify hn with hn | ⟨n₀, hn₀, hnid, rfl⟩
          · exact hall e₀ hold n hn
          · exact hupdated epochId a delta rfl hdelta e₀ hold hid n₀ hn₀ hnid
        · rw [hnil] at hn
          cases hn
      · rcases mem_append.mp hn with hn | hn
        · rcases hentry e₀ hold with hold | hnil
          · exact hall e₀ hold n hn
          · rw [hnil] at hn
            cases hn
        · obtain rfl := mem_singleton.mp hn
          exact hnode epochId a delta rfl hdelta
  | discards _ =>
    intro e he n hn
    rcases mem_modify he with hold | ⟨e₀, hold, -, rfl⟩
    · exact hall e hold n hn
    · exact hall e₀ hold n (mem_filter.mp hn).1

theorem Moves.sound (h : Moves g op g') (hall : All LineageGeneration.Sound g) :
    All LineageGeneration.Sound g' :=
  h.all hall (fun _ _ _ _ hdelta => Appended.node_sound hdelta)
    fun _ _ _ _ hdelta e he _ n hn _ => Appended.updated_sound hdelta (hall e he n hn)

theorem Moves.coupled (h : Moves g op g') (hall : All LineageGeneration.Coupled g)
    (hkeeps : op.Keeps (Graph.decoded g)) : All LineageGeneration.Coupled g' := by
  refine h.all hall (fun _ _ _ _ hdelta => Appended.node_coupled hdelta) ?_
  rintro epochId a delta rfl hdelta e he hid n hn hnid
  rw [Appended.updated_coupled_iff hdelta (hall e he n hn)]
  exact hkeeps _ (mem_map_of_mem he) hid _ (mem_map_of_mem hn) hnid

end Moving

/-! ## Runs -/

/-- The file holds the document of that graph. -/
def Decodes (file : File F) (l : Lineage F) : Prop :=
  ∃ value, file = some value ∧ decodeLineage value = .ok l

theorem decodes_file {g : Graph F} {l : Lineage F} :
    Decodes (Graph.file g) l ↔ Graph.Valid g ∧ l = Graph.decoded g := by
  constructor
  · rintro ⟨value, hvalue, hdecode⟩
    obtain rfl := Option.some.inj hvalue
    exact decodeLineage_raw.mp hdecode
  · exact fun h => ⟨_, rfl, decodeLineage_raw.mpr h⟩

/-- Every call meets the condition where it is made. -/
def AllKeep (ops : List (Op F)) : Prop :=
  ∀ before op after, ops = before ++ op :: after → ∀ l, Decodes (run before) l → op.Keeps l

theorem AllKeep.prefix {ops : List (Op F)} {op : Op F} (h : AllKeep (ops ++ [op])) : AllKeep ops := by
  intro before op' after heq
  refine h before op' (after ++ [op]) ?_
  rw [heq, List.append_assoc]
  rfl

theorem run_concat (ops : List (Op F)) (op : Op F) : run (ops ++ [op]) = op.after (run ops) := by
  rw [run, foldl_append]
  rfl

theorem valid_nil : Graph.Valid ([] : Graph F) where
  epochs e he := by cases he
  distinct := nodup_nil

/-- What every run leaves. -/
theorem run_graph (ops : List (Op F)) :
    ∃ g, run ops = Graph.file g ∧ Graph.Valid g ∧ All LineageGeneration.Sound g ∧
      (AllKeep ops → All LineageGeneration.Coupled g) := by
  induction ops using List.reverseRecOn with
  | nil =>
    refine ⟨[], rfl, valid_nil, fun e he => ?_, fun _ e he => ?_⟩ <;> cases he
  | append_singleton ops op ih =>
    obtain ⟨g, hrun, hvalid, hsound, hcoupled⟩ := ih
    rw [run_concat, hrun]
    cases hcall : op.call (Graph.file g) with
    | error _ =>
      rw [Op.after, hcall]
      exact ⟨g, rfl, hvalid, hsound, fun hkeep => hcoupled hkeep.prefix⟩
    | ok file' =>
      obtain ⟨g', hmoves, hvalid', rfl⟩ := call_moves hvalid hcall
      rw [Op.after, hcall]
      refine ⟨g', rfl, hvalid', hmoves.sound hsound, fun hkeep => ?_⟩
      refine hmoves.coupled (hcoupled hkeep.prefix) (hkeep ops op [] rfl _ ?_)
      rw [hrun]
      exact decodes_file.mpr ⟨hvalid, rfl⟩

/-- A lineage in which the ids tell epochs and generations apart, a reason is that of a
rejection, and the difference of two recorded scalars is recorded, and no other. -/
structure WellFormed (l : Lineage F) : Prop where
  epochs : (l.epochs.map LineageEpoch.id).Nodup
  generations : ∀ e ∈ l.epochs, (e.generations.map LineageGeneration.id).Nodup
  sound : ∀ e ∈ l.epochs, ∀ g ∈ e.generations, g.Sound
  coupled : ∀ e ∈ l.epochs, ∀ g ∈ e.generations, g.Coupled

/-- A sound lineage reads back well formed. -/
theorem wellFormed_decoded {g : Graph F} (hvalid : Graph.Valid g)
    (hsound : All LineageGeneration.Sound g) (hcoupled : All LineageGeneration.Coupled g) :
    WellFormed (Graph.decoded g) where
  epochs := by
    rw [Graph.decoded, map_map]
    exact hvalid.distinct
  generations l hl := by
    obtain ⟨e, he, rfl⟩ := mem_map.mp hl
    rw [EpochNode.decoded, map_map]
    exact (hvalid.epochs e he).distinct
  sound l hl n hn := by
    obtain ⟨e, he, rfl⟩ := mem_map.mp hl
    obtain ⟨m, hm, rfl⟩ := mem_map.mp hn
    exact hsound e he m hm
  coupled l hl n hn := by
    obtain ⟨e, he, rfl⟩ := mem_map.mp hl
    obtain ⟨m, hm, rfl⟩ := mem_map.mp hn
    exact hcoupled e he m hm

/-- In a run whose appends leave the differences right, every file is accepted and well formed,
and the next call changes what it names only: it fails and leaves the file, or it frames. -/
theorem lineage_invariants (ops : List (Op F)) (h : AllKeep ops) :
    ∃ l, Decodes (run ops) l ∧ WellFormed l ∧
      (∀ op file', op.call (run ops) = .ok file' → ∃ l', Decodes file' l' ∧ Frames op l l') ∧
      ∀ epochId ids, (∃ e ∈ l.epochs, e.id = epochId ∧
          ∃ g ∈ e.generations, g.id ∈ ids ∧ g.promoted ≠ none) →
        (Op.discardPendingGenerations epochId ids).after (run ops) = run ops := by
  obtain ⟨g, hrun, hvalid, hsound, hcoupled⟩ := run_graph ops
  have hframes : ∀ op file', op.call (run ops) = .ok file' →
      ∃ l', Decodes file' l' ∧ Frames op (Graph.decoded g) l' := by
    intro op file' hcall
    rw [hrun] at hcall
    obtain ⟨g', hmoves, hvalid', rfl⟩ := call_moves hvalid hcall
    exact ⟨_, decodes_file.mpr ⟨hvalid', rfl⟩, hmoves.frames hvalid⟩
  refine ⟨Graph.decoded g, hrun ▸ decodes_file.mpr ⟨hvalid, rfl⟩,
    wellFormed_decoded hvalid hsound (hcoupled h), hframes, ?_⟩
  rintro epochId ids ⟨e, he, hid, n, hn, hmem, hresolved⟩
  cases hcall : (Op.discardPendingGenerations epochId ids).call (run ops) with
  | error _ => rw [Op.after, hcall]
  | ok file' =>
    obtain ⟨l', -, hframe⟩ := hframes _ _ hcall
    obtain ⟨e', -, -, -, hpending⟩ := hframe.named e he hid
    exact absurd (hpending n hn hmem) hresolved

/-- The call passes both scalars or neither. -/
def Op.Paired : Op F → Prop
  | .appendToLineage _ a => a.parentScalar.isSome = a.childScalar.isSome
  | _ => True

/-- Calls with both scalars or none keep the deltas. -/
theorem allKeep_of_paired {ops : List (Op F)} (h : ∀ op ∈ ops, op.Paired) : AllKeep ops := by
  rintro before op after rfl l -
  have hpaired : op.Paired := h op (by simp)
  cases op with
  | appendToLineage epochId a =>
    have hpaired : a.parentScalar.isSome = a.childScalar.isSome := hpaired
    refine fun e _ _ g _ _ => ⟨fun c p hparent hchild _ => ?_, fun p c hparent hchild _ => ?_⟩
    · rw [hparent, hchild] at hpaired
      cases hpaired
    · rw [hparent, hchild] at hpaired
      cases hpaired
  | _ => trivial

/-! ## A rejection that is recorded again -/

/-- A rejected generation. -/
def rejection : Appended Exact where
  id := "v1"
  createdAt := "2026-01-01T00:00:00+00:00"
  promoted := false
  roundIndex := 0
  parentId := some "v0"
  rejectionReason := "scalar did not improve"
  parentScalar := some (.int 1)
  childScalar := some (.int 2)

/-- The rejection, and a later record without its facts. -/
def recordedAgain : List (Op Exact) :=
  [.appendToLineage "epoch-1" rejection,
    .appendToLineage "epoch-1"
      { rejection with rejectionReason := "", parentScalar := none, childScalar := none }]

theorem lineage_invariants_recordedAgain :
    ∃ l, Decodes (run recordedAgain) l ∧ WellFormed l ∧ l.epochs.map LineageEpoch.id = ["epoch-1"] := by
  have hpaired : ∀ op ∈ recordedAgain, op.Paired := by
    intro op hop
    simp only [recordedAgain, List.mem_cons, List.not_mem_nil, or_false] at hop
    rcases hop with rfl | rfl <;> rfl
  obtain ⟨l, ⟨value, hvalue, hdecode⟩, hformed, -⟩ :=
    lineage_invariants recordedAgain (allKeep_of_paired hpaired)
  refine ⟨l, ⟨value, hvalue, hdecode⟩, hformed, ?_⟩
  obtain rfl := Option.some.inj hvalue
  obtain rfl := Except.ok.inj hdecode
  rfl

/-- The rejection, and a later record of one new scalar: the difference stays that of the two
old ones. -/
def measuredAgain : List (Op Exact) :=
  [.appendToLineage "epoch-1" rejection,
    .appendToLineage "epoch-1" { rejection with parentScalar := none, childScalar := some (.int 5) }]

theorem lineage_delta_stale :
    ∃ l, Decodes (run measuredAgain) l ∧ ¬ WellFormed l ∧
      ∃ e ∈ l.epochs, ∃ g ∈ e.generations, g.parentScalar = some (.int 1) ∧
        g.childScalar = some (.int 5) ∧ g.deltaScalar = some (.int 1) := by
  have hstale : ∃ l, Decodes (run measuredAgain) l ∧
      ∃ e ∈ l.epochs, ∃ g ∈ e.generations, g.parentScalar = some (.int 1) ∧
        g.childScalar = some (.int 5) ∧ g.deltaScalar = some (.int 1) :=
    ⟨_, ⟨_, rfl, rfl⟩, _, List.mem_cons_self, _, List.mem_cons_self, rfl, rfl, rfl⟩
  obtain ⟨l, hl, e, he, g, hg, hparent, hchild, hdelta⟩ := hstale
  refine ⟨l, hl, fun hformed => ?_, e, he, g, hg, hparent, hchild, hdelta⟩
  obtain ⟨d, hd, hrecorded⟩ := hformed.coupled e he g hg _ _ hparent hchild
  obtain rfl : Number.int 4 = d := Option.some.inj hd
  rw [hdelta] at hrecorded
  exact absurd (Number.int.inj (Option.some.inj hrecorded)) (by decide)

end Zicato.LineageRecord
