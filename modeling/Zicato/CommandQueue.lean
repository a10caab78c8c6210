import Mathlib.Data.List.Sort
import Mathlib.Data.List.Infix
import Mathlib.Data.String.Basic
import Zicato.Dict
import Zicato.ZeroPad

/-! # The command queue

`zicato/runtime/channel.py`: commands are files under `pending/`; a claim lists
them, renames the first it can into `archive/` and reads it back there.  Enqueuers
and consumers interleave between any two file-system steps. -/
open List Option Zicato.Dict Function
namespace Zicato.Channel
set_option linter.unusedSectionVars false

/-- `Command`; `P` is what a payload decodes to. -/
structure Command (P : Type) where
  id : String
  type : String
  payload : P
  ts : String
  deriving DecidableEq, Repr

/-- `f"{ordinal:012d}-{uuid4().hex}"`. -/
def commandId (ordinal : Nat) (uuid : String) : String :=
  String.ofList (zeroPad 12 ordinal ++ '-' :: uuid.toList)

/-- The name of the record of a command, in `pending/` and in `archive/`. -/
def fileName (id : String) : String := id ++ ".json"

/-- Where in `claim` a consumer is. -/
inductive Phase
  | idle
  /-- The names of the listing it has not tried yet. -/
  | scanning (names : List String)
  /-- It has renamed a record and is about to read it. -/
  | moved (id : String) (rest : List String)
  deriving DecidableEq, Repr

/-- A queue with its enqueuers `ι` and its consumers `κ`; `enqueued` and `returned` are what
they have seen happen, in order. -/
structure System (ι κ P : Type) where
  pending : Dict String (Command P)
  archive : Dict String (Command P)
  ordinal : ι → Nat
  phase : κ → Phase
  enqueued : List (ι × Command P)
  returned : List (κ × Option (Command P))

variable {ι κ P : Type} [DecidableEq ι] [DecidableEq κ]

namespace System

/-- A queue nobody has used. -/
def init : System ι κ P where
  pending := []
  archive := []
  ordinal _ := 0
  phase _ := .idle
  enqueued := []
  returned := []

/-- `self._ordinal += 1`. -/
def count (s : System ι κ P) (i : ι) : System ι κ P :=
  { s with ordinal := fun j => if j = i then s.ordinal i + 1 else s.ordinal j }

/-- `enqueue`. -/
def enqueue (s : System ι κ P) (i : ι) (uuid type : String) (payload : P) (ts : String) :
    System ι κ P :=
  let command : Command P :=
    { id := commandId (s.ordinal i + 1) uuid, type := type, payload := payload, ts := ts }
  { s.count i with
    pending := Dict.set s.pending command.id command
    enqueued := s.enqueued ++ [(i, command)] }

/-- `list_keys` of `pending/`. -/
def listing (s : System ι κ P) : List String :=
  s.pending.keys.insertionSort fun a b => fileName a ≤ fileName b

/-- A consumer in another phase. -/
def setPhase (s : System ι κ P) (c : κ) (phase : Phase) : System ι κ P :=
  { s with phase := fun d => if d = c then phase else s.phase d }

/-- A consumer hands back its result and is idle again. -/
def returns (s : System ι κ P) (c : κ) (result : Option (Command P)) : System ι κ P :=
  { s.setPhase c .idle with returned := s.returned ++ [(c, result)] }

/-- `atomic_claim`: the rename of a record that is there. -/
def rename (s : System ι κ P) (id : String) (command : Command P) : System ι κ P :=
  { s with pending := Dict.erase s.pending id, archive := Dict.set s.archive id command }

/-- The next file-system step of `claim`. -/
def consume (s : System ι κ P) (c : κ) : System ι κ P :=
  match s.phase c with
  | .idle => s.setPhase c (.scanning s.listing)
  | .scanning [] => s.returns c none
  | .scanning (id :: rest) =>
      match Dict.get? s.pending id with
      | none => s.setPhase c (.scanning rest)
      | some command => (s.rename id command).setPhase c (.moved id rest)
  | .moved id rest =>
      match Dict.get? s.archive id with
      | none => s.setPhase c (.scanning rest)
      | some command => s.returns c (some command)

/-- The commands that claims have returned. -/
def claimed (s : System ι κ P) : List (Command P) := s.returned.filterMap Prod.snd

end System

/-- One step of one party. -/
inductive Act (ι κ P : Type)
  | enqueue (i : ι) (uuid type : String) (payload : P) (ts : String)
  /-- The payload does not serialise: the ordinal is spent, nothing is written. -/
  | refused (i : ι)
  | consume (c : κ)

/-- What an action does. -/
def System.step (s : System ι κ P) : Act ι κ P → System ι κ P
  | .enqueue i uuid type payload ts => s.enqueue i uuid type payload ts
  | .refused i => s.count i
  | .consume c => s.consume c

/-- Ids are distinct: no uuid repeats under one ordinal. -/
def System.Allows (s : System ι κ P) : Act ι κ P → Prop
  | .enqueue i uuid _ _ _ =>
      commandId (s.ordinal i + 1) uuid ∉ s.enqueued.map fun e => e.2.id
  | _ => True

/-- What a queue may come to, with the steps that led there. -/
inductive Run : List (Act ι κ P) → System ι κ P → Prop
  | init : Run [] .init
  | step {acts s} (act : Act ι κ P) : Run acts s → s.Allows act → Run (acts ++ [act]) (s.step act)

/-! ## Every command is in one place -/

/-- What holds whatever the parties do. -/
structure Inv (s : System ι κ P) : Prop where
  distinct : (s.enqueued.map fun e => e.2.id).Nodup
  /-- Each command is in exactly one of the two directories, as it was enqueued. -/
  placed : ∀ e ∈ s.enqueued,
    Dict.get? s.pending e.2.id = some e.2 ∧ Dict.get? s.archive e.2.id = none ∨
    Dict.get? s.pending e.2.id = none ∧ Dict.get? s.archive e.2.id = some e.2
  known : ∀ id, (Dict.get? s.pending id).isSome = true ∨ (Dict.get? s.archive id).isSome = true →
    ∃ e ∈ s.enqueued, e.2.id = id
  /-- A record that was renamed and not yet read is in one hand. -/
  held : ∀ c id rest, s.phase c = .moved id rest →
    (Dict.get? s.archive id).isSome = true ∧ id ∉ s.claimed.map Command.id ∧
    ∀ d rest', s.phase d = .moved id rest' → d = c
  kept : ∀ command ∈ s.claimed, Dict.get? s.archive command.id = some command
  once : (s.claimed.map Command.id).Nodup

namespace Inv
variable {s : System ι κ P}

variable {id : String} {command : Command P}

/-- The record a party finds under an id is the command of that id. -/
theorem archive_id (h : Inv s) (hget : Dict.get? s.archive id = some command) :
    command.id = id ∧ Dict.get? s.pending id = none ∧ ∃ i, (i, command) ∈ s.enqueued := by
  obtain ⟨e, he, rfl⟩ := h.known id (.inr (by rw [hget]; rfl))
  rcases h.placed e he with ⟨-, hnone⟩ | ⟨hnone, hsome⟩
  · rw [hget] at hnone
    cases hnone
  · obtain rfl := some.inj (hget.symm.trans hsome)
    exact ⟨rfl, hnone, e.1, he⟩

theorem pending_id (h : Inv s) (hget : Dict.get? s.pending id = some command) :
    command.id = id ∧ Dict.get? s.archive id = none ∧ ∃ i, (i, command) ∈ s.enqueued := by
  obtain ⟨e, he, rfl⟩ := h.known id (.inl (by rw [hget]; rfl))
  rcases h.placed e he with ⟨hsome, hnone⟩ | ⟨hnone, -⟩
  · obtain rfl := some.inj (hget.symm.trans hsome)
    exact ⟨rfl, hnone, e.1, he⟩
  · rw [hget] at hnone
    cases hnone

theorem init : Inv (System.init : System ι κ P) where
  distinct := nodup_nil
  placed e he := by cases he
  known id h := by simp [System.init] at h
  held c id rest h := by cases h
  kept command h := by cases h
  once := nodup_nil

theorem count (h : Inv s) (i : ι) : Inv (s.count i) :=
  ⟨h.distinct, h.placed, h.known, h.held, h.kept, h.once⟩

/-- A change of phase that takes no record in hand. -/
theorem setPhase (h : Inv s) (c : κ) {phase : Phase} (hphase : ∀ id rest, phase ≠ .moved id rest) :
    Inv (s.setPhase c phase) := by
  refine ⟨h.distinct, h.placed, h.known, fun d id rest hd => ?_, h.kept, h.once⟩
  have hother : ∀ d id rest, (s.setPhase c phase).phase d = .moved id rest →
      s.phase d = .moved id rest := by
    intro d id rest hd
    simp only [System.setPhase] at hd
    split at hd
    · exact absurd hd (hphase id rest)
    · exact hd
  obtain ⟨hsome, hnot, hone⟩ := h.held d id rest (hother d id rest hd)
  exact ⟨hsome, hnot, fun d' rest' hd' => hone d' rest' (hother d' id rest' hd')⟩

/-- A command with a new id keeps the invariant. -/
theorem enqueue (h : Inv s) {i : ι} {uuid : String} (type : String) (payload : P) (ts : String)
    (hfresh : commandId (s.ordinal i + 1) uuid ∉ s.enqueued.map fun e => e.2.id) :
    Inv (s.enqueue i uuid type payload ts) := by
  have hnone : Dict.get? s.pending (commandId (s.ordinal i + 1) uuid) = none ∧
      Dict.get? s.archive (commandId (s.ordinal i + 1) uuid) = none := by
    constructor
    · rw [← not_isSome_iff_eq_none]
      intro hsome
      obtain ⟨e, he, hid⟩ := h.known _ (.inl hsome)
      exact hfresh (mem_map.mpr ⟨e, he, hid⟩)
    · rw [← not_isSome_iff_eq_none]
      intro hsome
      obtain ⟨e, he, hid⟩ := h.known _ (.inr hsome)
      exact hfresh (mem_map.mpr ⟨e, he, hid⟩)
  refine ⟨?_, fun e he => ?_, fun id hid => ?_, h.held, h.kept, h.once⟩
  · simp only [System.enqueue, map_append, map_cons, map_nil]
    rw [nodup_append]
    refine ⟨h.distinct, nodup_singleton _, fun a ha b hb heq => hfresh ?_⟩
    rw [← mem_singleton.mp hb, ← heq]
    exact ha
  · rcases mem_append.mp he with he | he
    · have hne : commandId (s.ordinal i + 1) uuid ≠ e.2.id := fun heq =>
        hfresh (heq ▸ mem_map.mpr ⟨e, he, rfl⟩)
      simp only [System.enqueue, get?_set, if_neg hne]
      exact h.placed e he
    · obtain rfl := mem_singleton.mp he
      simp only [System.enqueue, get?_set, if_true]
      exact .inl ⟨trivial, hnone.2⟩
  · simp only [System.enqueue, get?_set] at hid ⊢
    by_cases heq : commandId (s.ordinal i + 1) uuid = id
    · exact ⟨_, mem_append_right _ mem_cons_self, heq⟩
    · rw [if_neg heq] at hid
      obtain ⟨e, he, hid⟩ := h.known id hid
      exact ⟨e, mem_append_left _ he, hid⟩

/-- The rename of a pending record takes it in hand. -/
theorem rename (h : Inv s) {c : κ} {rest : List String}
    (hget : Dict.get? s.pending id = some command) :
    Inv ((s.rename id command).setPhase c (.moved id rest)) := by
  obtain ⟨hid, hnone, i, hi⟩ := h.pending_id hget
  refine ⟨h.distinct, fun e he => ?_, fun id' hid' => ?_, fun d id' rest' hd => ?_,
    fun command' hcommand' => ?_, h.once⟩
  · simp only [System.rename, System.setPhase, get?_erase, get?_set]
    by_cases heq : id = e.2.id
    · rcases h.placed e he with ⟨hsome, -⟩ | ⟨hgone, -⟩
      · rw [← heq, hget] at hsome
        obtain rfl := some.inj hsome
        exact .inr ⟨if_pos heq, if_pos heq⟩
      · rw [← heq, hget] at hgone
        cases hgone
    · rw [if_neg heq, if_neg heq]
      exact h.placed e he
  · simp only [System.rename, System.setPhase, get?_erase, get?_set] at hid'
    by_cases heq : id = id'
    · exact ⟨(i, command), hi, hid.trans heq⟩
    · rw [if_neg heq, if_neg heq] at hid'
      exact h.known id' hid'
  · -- a hand that holds a record already holds another one
    have hother : ∀ d, d ≠ c → ((s.rename id command).setPhase c (.moved id rest)).phase d =
        s.phase d := fun d hne => if_neg hne
    have hself : ((s.rename id command).setPhase c (.moved id rest)).phase c = .moved id rest :=
      if_pos rfl
    have hdiffer : ∀ d rest', s.phase d ≠ .moved id rest' := by
      intro d rest' hd
      have hsome := (h.held d id rest' hd).1
      rw [hnone] at hsome
      cases hsome
    by_cases hdc : d = c
    · subst hdc
      rw [hself] at hd
      obtain ⟨rfl, rfl⟩ := Phase.moved.inj hd
      refine ⟨by simp [System.rename, System.setPhase, get?_set], fun hmem => ?_, ?_⟩
      · obtain ⟨command', hcommand', hid'⟩ := mem_map.mp hmem
        have hkept := h.kept command' hcommand'
        rw [hid', hnone] at hkept
        cases hkept
      · intro d' rest' hd'
        by_contra hne
        rw [hother d' hne] at hd'
        exact hdiffer d' rest' hd'
    · rw [hother d hdc] at hd
      obtain ⟨hsome, hnot, hone⟩ := h.held d id' rest' hd
      have hne : id ≠ id' := by
        rintro rfl
        exact hdiffer d rest' hd
      refine ⟨?_, hnot, fun d' rest'' hd' => ?_⟩
      · simp only [System.rename, System.setPhase, get?_set, if_neg hne]
        exact hsome
      · by_cases hdc' : d' = c
        · subst hdc'
          rw [hself] at hd'
          exact absurd (Phase.moved.inj hd').1 hne
        · rw [hother d' hdc'] at hd'
          exact hone d' rest'' hd'
  · have hkept := h.kept command' hcommand'
    have hne : id ≠ command'.id := by
      rintro rfl
      rw [hnone] at hkept
      cases hkept
    simp only [System.rename, System.setPhase, get?_set, if_neg hne]
    exact hkept

theorem claimed_returns (c : κ) (result : Option (Command P)) :
    (s.returns c result).claimed = s.claimed ++ result.toList := by
  cases result with
  | none => simp [System.claimed, System.returns]
  | some command => simp [System.claimed, System.returns]

theorem returns_none (h : Inv s) (c : κ) : Inv (s.returns c none) := by
  have hphase : Inv (s.setPhase c .idle) := h.setPhase c fun _ _ hmoved => by cases hmoved
  have hclaimed : (s.returns c none).claimed = s.claimed := by
    rw [claimed_returns, toList_none, append_nil]
  refine ⟨h.distinct, h.placed, h.known, ?_, ?_, ?_⟩
  · rw [hclaimed]
    exact hphase.held
  · rw [hclaimed]
    exact h.kept
  · rw [hclaimed]
    exact h.once

/-- The hand that held the record gives it out. -/
theorem returns_some (h : Inv s) {c : κ} {rest : List String} (hphase : s.phase c = .moved id rest)
    (hget : Dict.get? s.archive id = some command) : Inv (s.returns c (some command)) := by
  obtain ⟨-, hnot, hone⟩ := h.held c id rest hphase
  obtain ⟨hid, -, -⟩ := h.archive_id hget
  have hclaimed : (s.returns c (some command)).claimed = s.claimed ++ [command] :=
    claimed_returns c (some command)
  refine ⟨h.distinct, h.placed, h.known, fun d id' rest' hd => ?_, fun command' hmem => ?_, ?_⟩
  · have hne : d ≠ c := by
      rintro rfl
      simp [System.returns, System.setPhase] at hd
    have hd' : s.phase d = .moved id' rest' := by
      simpa [System.returns, System.setPhase, hne] using hd
    obtain ⟨hsome, hnot', hone'⟩ := h.held d id' rest' hd'
    refine ⟨hsome, fun hmem => ?_, fun d' rest'' hd'' => ?_⟩
    · rw [hclaimed, map_append, mem_append] at hmem
      rcases hmem with hmem | hmem
      · exact hnot' hmem
      · rw [map_singleton, mem_singleton, hid] at hmem
        subst hmem
        exact hne (hone d rest' hd')
    · by_cases hdc : d' = c
      · subst hdc
        simp [System.returns, System.setPhase] at hd''
      · exact hone' d' rest'' (by simpa [System.returns, System.setPhase, hdc] using hd'')
  · rw [hclaimed, mem_append] at hmem
    rcases hmem with hmem | hmem
    · exact h.kept command' hmem
    · obtain rfl := mem_singleton.mp hmem
      rw [hid]
      exact hget
  · rw [hclaimed, map_append, nodup_append]
    refine ⟨h.once, nodup_singleton _, fun a ha b hb heq => hnot ?_⟩
    rw [← hid, ← mem_singleton.mp hb, ← heq]
    exact ha

/-- A step of a consumer keeps the invariant. -/
theorem consume (h : Inv s) (c : κ) : Inv (s.consume c) := by
  unfold System.consume
  split
  · exact h.setPhase c fun _ _ hmoved => by cases hmoved
  · exact h.returns_none c
  · split
    · exact h.setPhase c fun _ _ hmoved => by cases hmoved
    · rename_i hget
      exact h.rename hget
  · rename_i id rest hphase
    split
    · exact h.setPhase c fun _ _ hmoved => by cases hmoved
    · rename_i hget
      exact h.returns_some hphase hget

theorem step (h : Inv s) (act : Act ι κ P) (hallows : s.Allows act) : Inv (s.step act) := by
  cases act with
  | enqueue i uuid type payload ts => exact h.enqueue type payload ts hallows
  | refused i => exact h.count i
  | consume c => exact h.consume c

end Inv

theorem Run.inv {acts : List (Act ι κ P)} {s : System ι κ P} (h : Run acts s) : Inv s := by
  induction h with
  | init => exact .init
  | step act _ hallows ih => exact ih.step act hallows

/-! ## A claim nothing interferes with -/

section Alone
variable {s : System ι κ P} {c : κ}

theorem mem_listing {id : String} : id ∈ s.listing ↔ (Dict.get? s.pending id).isSome = true := by
  rw [System.listing, mem_insertionSort, mem_keys_iff]

theorem consume_returned (s : System ι κ P) (c : κ) : s.returned <+: (s.consume c).returned := by
  unfold System.consume
  split
  · exact prefix_rfl
  · exact prefix_append _ _
  · split <;> exact prefix_rfl
  · split
    · exact prefix_rfl
    · exact prefix_append _ _

theorem iterate_returned (s : System ι κ P) (c : κ) (n : Nat) :
    s.returned <+: ((fun t => t.consume c)^[n] s).returned := by
  induction n with
  | zero => exact prefix_rfl
  | succ n ih =>
    rw [iterate_succ_apply']
    exact ih.trans (consume_returned _ c)

/-- A claim of an empty queue: one listing, and `None`. -/
theorem claim_empty (hidle : s.phase c = .idle) (hempty : s.pending = []) :
    ((fun t => t.consume c)^[2] s).returned = s.returned ++ [(c, none)] := by
  have hlisting : s.listing = [] := by rw [System.listing, hempty]; rfl
  have hfirst : s.consume c = s.setPhase c (.scanning []) := by
    rw [System.consume, hidle, hlisting]
  rw [iterate_succ_apply, iterate_one, hfirst, System.consume]
  simp [System.setPhase, System.returns]

/-- A claim of a queue that is not empty: the listing, a rename that succeeds, and the
record it read. -/
theorem claim_first (hidle : s.phase c = .idle) (hpending : s.pending ≠ []) :
    ((fun t => t.consume c)^[1] s).returned = s.returned ∧
    ((fun t => t.consume c)^[2] s).returned = s.returned ∧
    ∃ command, ((fun t => t.consume c)^[3] s).returned = s.returned ++ [(c, some command)] := by
  obtain ⟨e, hmem⟩ := exists_mem_of_ne_nil _ hpending
  have hsome : e.1 ∈ s.listing := by
    rw [System.listing, mem_insertionSort]
    exact mem_map.mpr ⟨e, hmem, rfl⟩
  cases hlisting : s.listing with
  | nil =>
    rw [hlisting] at hsome
    cases hsome
  | cons id rest =>
    obtain ⟨command, hget⟩ := isSome_iff_exists.mp
      (mem_listing.mp (hlisting ▸ mem_cons_self : id ∈ s.listing))
    have h₁ : s.consume c = s.setPhase c (.scanning (id :: rest)) := by
      rw [System.consume, hidle, hlisting]
    have h₂ : (s.consume c).consume c =
        ((s.consume c).rename id command).setPhase c (.moved id rest) := by
      rw [h₁, System.consume]
      simp only [System.setPhase, if_true]
      rw [hget]
    have h₃ : ((s.consume c).consume c).consume c =
        ((s.consume c).consume c).returns c (some command) := by
      rw [h₂, System.consume]
      simp only [System.setPhase, System.rename, if_true]
      rw [get?_set, if_pos rfl]
    refine ⟨?_, ?_, command, ?_⟩
    · change (s.consume c).returned = _
      rw [h₁]
      rfl
    · change ((s.consume c).consume c).returned = _
      rw [h₂, h₁]
      rfl
    · change (((s.consume c).consume c).consume c).returned = _
      rw [h₃, h₂, h₁]
      rfl

/-- A claim that nothing interferes with returns `None` only from an empty queue. -/
theorem claim_none {n : Nat} (hidle : s.phase c = .idle)
    (hreturned : ((fun t => t.consume c)^[n] s).returned = s.returned ++ [(c, none)]) :
    s.pending = [] := by
  by_contra hpending
  obtain ⟨h₁, h₂, command, h₃⟩ := claim_first hidle hpending
  match n with
  | 0 => simp at hreturned
  | 1 =>
    rw [h₁] at hreturned
    simp at hreturned
  | 2 =>
    rw [h₂] at hreturned
    simp at hreturned
  | n + 3 =>
    have hpre := iterate_returned ((fun t => t.consume c)^[3] s) c n
    rw [← iterate_add_apply, hreturned, h₃, prefix_append_right_inj] at hpre
    obtain ⟨rest, hrest⟩ := hpre
    cases hrest

end Alone

/-! ## The order of claims -/

/-- The enqueuer of a step. -/
def Act.enqueuer : Act ι κ P → Option ι
  | .enqueue i .. => some i
  | .refused i => some i
  | .consume _ => none

/-- Names of one enqueuer sort as it wrote them, while its ordinals have twelve digits. -/
theorem fileName_lt {m n : Nat} (h : m < n) (hn : n < 10 ^ 12) (u v : String) :
    fileName (commandId m u) < fileName (commandId n v) := by
  rw [String.lt_iff_toList_lt]
  simp only [fileName, commandId, String.toList_append, String.toList_ofList, List.append_assoc]
  exact ZeroPad.zeroPad_append_lt h hn

section Order
variable {s : System ι κ P} {c : κ}

/-- The commands a consumer has taken, one it has still to read included. -/
def System.taken (s : System ι κ P) (c : κ) : List (Command P) :=
  match s.phase c with
  | .moved id _ => s.claimed ++ (Dict.get? s.archive id).toList
  | _ => s.claimed

/-- Commands of one enqueuer are in this list in the order it wrote them, and none before
those that precede it. -/
def InOrder (enqueued : List (ι × Command P)) (taken : List (Command P)) : Prop :=
  enqueued.Pairwise fun a b => a.1 = b.1 →
    ∀ before after, taken = before ++ b.2 :: after → a.2 ∈ before

/-- The names of an enqueuer increase. -/
structure Named (s : System ι κ P) : Prop where
  ordinal : ∀ e ∈ s.enqueued, ∃ n u, e.2.id = commandId n u ∧ n ≤ s.ordinal e.1
  names : s.enqueued.Pairwise fun a b => a.1 = b.1 → fileName a.2.id < fileName b.2.id

/-- What holds while one consumer is alone. -/
structure Lone (s : System ι κ P) (c : κ) : Prop where
  named : Named s
  archived : ∀ e ∈ s.enqueued, Dict.get? s.archive e.2.id = some e.2 → e.2 ∈ s.taken c
  inOrder : InOrder s.enqueued (s.taken c)
  /-- The record it tries next is there, and nothing its enqueuer wrote before it is. -/
  first : ∀ id rest, s.phase c = .scanning (id :: rest) →
    (Dict.get? s.pending id).isSome = true ∧ ∀ e ∈ s.enqueued, ∀ f ∈ s.enqueued,
      f.2.id = id → e.1 = f.1 → fileName e.2.id < fileName id → Dict.get? s.pending e.2.id = none

theorem Named.count (h : Named s) (i : ι) : Named (s.count i) := by
  refine ⟨fun e he => ?_, h.names⟩
  obtain ⟨n, u, hid, hle⟩ := h.ordinal e he
  refine ⟨n, u, hid, ?_⟩
  simp only [System.count]
  split
  · rename_i heq
    rw [heq] at hle
    omega
  · exact hle

/-- The name of a new file has its ordinal in twelve digits. -/
theorem Named.enqueue (h : Named s) {i : ι} (hsmall : s.ordinal i + 1 < 10 ^ 12)
    (uuid type : String) (payload : P) (ts : String) :
    Named (s.enqueue i uuid type payload ts) := by
  refine ⟨fun e he => ?_, ?_⟩
  · rcases mem_append.mp he with he | he
    · exact (h.count i).ordinal e he
    · obtain rfl := mem_singleton.mp he
      exact ⟨s.ordinal i + 1, uuid, rfl, by simp [System.enqueue, System.count]⟩
  · simp only [System.enqueue]
    rw [pairwise_append]
    refine ⟨h.names, pairwise_singleton _ _, fun a ha b hb hsame => ?_⟩
    obtain rfl := mem_singleton.mp hb
    obtain ⟨n, u, hid, hle⟩ := h.ordinal a ha
    rw [hid]
    have hle' : n ≤ s.ordinal i := by
      change a.1 = i at hsame
      rwa [hsame] at hle
    exact fileName_lt (by omega) hsmall u uuid

theorem taken_archived (hinv : Inv s) {command : Command P} (h : command ∈ s.taken c) :
    Dict.get? s.archive command.id = some command := by
  unfold System.taken at h
  split at h
  · rename_i id rest hphase
    rcases mem_append.mp h with h | h
    · exact hinv.kept command h
    · have hget := mem_toList.mp h
      rw [(hinv.archive_id hget).1]
      exact hget
  · exact hinv.kept command h

namespace Lone

theorem count (h : Lone s c) (i : ι) : Lone (s.count i) c :=
  ⟨h.named.count i, h.archived, h.inOrder, h.first⟩

theorem enqueue (h : Lone s c) (hinv : Inv s) {i : ι} {uuid : String}
    (hsmall : s.ordinal i + 1 < 10 ^ 12) (type : String) (payload : P) (ts : String)
    (hfresh : commandId (s.ordinal i + 1) uuid ∉ s.enqueued.map fun e => e.2.id) :
    Lone (s.enqueue i uuid type payload ts) c := by
  have hnamed := h.named.enqueue hsmall uuid type payload ts
  have hnew : Dict.get? s.archive (commandId (s.ordinal i + 1) uuid) = none := by
    rw [← not_isSome_iff_eq_none]
    intro hsome
    obtain ⟨e, he, hid⟩ := hinv.known _ (.inr hsome)
    exact hfresh (mem_map.mpr ⟨e, he, hid⟩)
  refine ⟨hnamed, fun e he hget => ?_, ?_, fun id rest hphase => ?_⟩
  · rcases mem_append.mp he with he | he
    · exact h.archived e he hget
    · obtain rfl := mem_singleton.mp he
      simp only [System.enqueue, System.count] at hget
      rw [hnew] at hget
      cases hget
  · simp only [System.enqueue, InOrder]
    rw [pairwise_append]
    refine ⟨h.inOrder, pairwise_singleton _ _, fun a _ b hb _ before after htaken => ?_⟩
    -- a command that is new has not been taken
    obtain rfl := mem_singleton.mp hb
    have hmem : (⟨commandId (s.ordinal i + 1) uuid, type, payload, ts⟩ : Command P) ∈
        s.taken c := by
      change s.taken c = _ at htaken
      rw [htaken]
      exact mem_append_right _ mem_cons_self
    have hget := taken_archived hinv hmem
    rw [hnew] at hget
    cases hget
  · obtain ⟨hsome, hfirst⟩ := h.first id rest hphase
    obtain ⟨g, hg, hgid⟩ := hinv.known id (.inl hsome)
    have hne : commandId (s.ordinal i + 1) uuid ≠ id := by
      rintro rfl
      exact hfresh (mem_map.mpr ⟨g, hg, hgid⟩)
    refine ⟨?_, fun e he f hf hfid hsame hlt => ?_⟩
    · simp only [System.enqueue, get?_set, if_neg hne]
      exact hsome
    · rcases mem_append.mp hf with hf | hf
      · rcases mem_append.mp he with he | he
        · have hne' : commandId (s.ordinal i + 1) uuid ≠ e.2.id := fun heq =>
            hfresh (heq ▸ mem_map.mpr ⟨e, he, rfl⟩)
          simp only [System.enqueue, get?_set, if_neg hne']
          exact hfirst e he f hf hfid hsame hlt
        · -- the new command sorts after those its enqueuer wrote before
          have hpair := (pairwise_append.mp hnamed.names).2.2 f hf e he hsame.symm
          rw [hfid] at hpair
          exact absurd hlt (lt_asymm hpair)
      · obtain rfl := mem_singleton.mp hf
        exact absurd hfid hne

/-- A change of phase between listings that leaves the next record out. -/
theorem of_taken {t : System ι κ P} (h : Lone s c) (henqueued : t.enqueued = s.enqueued)
    (hordinal : t.ordinal = s.ordinal) (harchive : t.archive = s.archive)
    (htaken : t.taken c = s.taken c)
    (hfirst : ∀ id rest, t.phase c = .scanning (id :: rest) →
      (Dict.get? t.pending id).isSome = true ∧ ∀ e ∈ s.enqueued, ∀ f ∈ s.enqueued,
        f.2.id = id → e.1 = f.1 → fileName e.2.id < fileName id →
          Dict.get? t.pending e.2.id = none) : Lone t c := by
  refine ⟨⟨?_, ?_⟩, ?_, ?_, ?_⟩
  · rw [henqueued, hordinal]
    exact h.named.ordinal
  · rw [henqueued]
    exact h.named.names
  · rw [henqueued, harchive, htaken]
    exact h.archived
  · rw [henqueued, htaken]
    exact h.inOrder
  · rw [henqueued]
    exact hfirst

/-- A lone consumer lists the pending files. -/
theorem lists (h : Lone s c) (hidle : s.phase c = .idle) :
    Lone (s.setPhase c (.scanning s.listing)) c := by
  have htaken : (s.setPhase c (.scanning s.listing)).taken c = s.taken c := by
    simp [System.taken, System.setPhase, hidle, System.claimed]
  refine h.of_taken rfl rfl rfl htaken fun id rest hphase => ?_
  have hlisting : s.listing = id :: rest := by
    simpa [System.setPhase] using hphase
  refine ⟨mem_listing.mp (hlisting ▸ mem_cons_self), fun e _ f _ _ _ hlt => ?_⟩
  rw [← not_isSome_iff_eq_none]
  intro hsome
  -- the listing is sorted, so its first name is the least
  have hmem : e.2.id ∈ id :: rest := hlisting ▸ mem_listing.mpr hsome
  have hsorted : (id :: rest).Pairwise fun a b => fileName a ≤ fileName b := by
    rw [← hlisting]
    exact pairwise_insertionSort _ _
  rcases mem_cons.mp hmem with heq | hmem
  · rw [heq] at hlt
    exact lt_irrefl _ hlt
  · exact absurd hlt (not_lt_of_ge ((pairwise_cons.mp hsorted).1 _ hmem))

/-- A lone consumer takes the file that is next. -/
theorem renames (h : Lone s c) (hinv : Inv s) {id : String} {rest : List String}
    {command : Command P} (hphase : s.phase c = .scanning (id :: rest))
    (hget : Dict.get? s.pending id = some command) :
    Lone ((s.rename id command).setPhase c (.moved id rest)) c := by
  obtain ⟨hid, -, i, hi⟩ := hinv.pending_id hget
  have htaken : s.taken c = s.claimed := by simp [System.taken, hphase]
  have htaken' : ((s.rename id command).setPhase c (.moved id rest)).taken c =
      s.taken c ++ [command] := by
    rw [htaken]
    simp [System.taken, System.setPhase, System.rename, get?_set, System.claimed]
  refine ⟨⟨h.named.ordinal, h.named.names⟩, fun e he harchive => ?_, ?_, fun id' rest' hphase' => ?_⟩
  · rw [htaken', mem_append]
    simp only [System.rename, System.setPhase, get?_set] at harchive
    split at harchive
    · rename_i heq
      obtain rfl := some.inj harchive
      exact .inr mem_cons_self
    · exact .inl (h.archived e he harchive)
  · rw [htaken']
    refine Pairwise.imp_of_mem ?_ (h.named.names.and h.inOrder)
    intro a b ha hb hpair hsame before after hsplit
    obtain ⟨hnames, horder⟩ := hpair
    rcases eq_nil_or_concat after with rfl | ⟨after', last, rfl⟩
    · -- the new one: what its enqueuer wrote before is no longer pending
      have hlast := append_inj' hsplit rfl
      obtain ⟨rfl, heq⟩ := hlast
      obtain rfl := (List.cons.inj heq).1
      have hnone := (h.first id rest hphase).2 a ha b hb hid hsame (hid ▸ hnames hsame)
      rcases hinv.placed a ha with ⟨hsome, -⟩ | ⟨-, harchive⟩
      · rw [hnone] at hsome
        cases hsome
      · exact h.archived a ha harchive
    · rw [concat_eq_append, ← cons_append, ← List.append_assoc] at hsplit
      exact horder hsame before after' (append_inj' hsplit rfl).1
  · simp [System.setPhase] at hphase'

theorem consume (h : Lone s c) (hinv : Inv s) : Lone (s.consume c) c := by
  unfold System.consume
  split
  · rename_i hidle
    exact h.lists hidle
  · rename_i hphase
    refine h.of_taken rfl rfl rfl ?_ fun id rest hscan => ?_
    · simp [System.taken, System.returns, System.setPhase, hphase, System.claimed]
    · simp [System.returns, System.setPhase] at hscan
  · rename_i id rest hphase
    obtain ⟨command, hget⟩ := isSome_iff_exists.mp (h.first id rest hphase).1
    rw [hget]
    exact h.renames hinv hphase hget
  · rename_i id rest hphase
    obtain ⟨command, hget⟩ := isSome_iff_exists.mp (hinv.held c id rest hphase).1
    rw [hget]
    refine h.of_taken rfl rfl rfl ?_ fun id rest hscan => ?_
    · simp [System.taken, System.returns, System.setPhase, hphase, hget, System.claimed]
    · simp [System.returns, System.setPhase] at hscan

end Lone

theorem consume_ordinal (s : System ι κ P) (d : κ) : (s.consume d).ordinal = s.ordinal := by
  unfold System.consume
  split
  · rfl
  · rfl
  · split <;> rfl
  · split <;> rfl

/-- An ordinal counts the calls of its enqueuer. -/
theorem Run.ordinal {acts : List (Act ι κ P)} (h : Run acts s) (i : ι) :
    s.ordinal i = acts.countP fun act => act.enqueuer = some i := by
  induction h with
  | init => rfl
  | step act _ _ ih =>
    rw [countP_append, ← ih]
    cases act with
    | enqueue j uuid type payload ts =>
      by_cases hij : i = j
      · subst hij
        simp [System.step, System.enqueue, System.count, Act.enqueuer]
      · have hji : ¬ j = i := fun heq => hij heq.symm
        simp [System.step, System.enqueue, System.count, Act.enqueuer, hij, hji]
    | refused j =>
      by_cases hij : i = j
      · subst hij
        simp [System.step, System.count, Act.enqueuer]
      · have hji : ¬ j = i := fun heq => hij heq.symm
        simp [System.step, System.count, Act.enqueuer, hij, hji]
    | consume d =>
      rw [System.step, consume_ordinal]
      rfl

/-- With one consumer only, the order clause holds all along. -/
theorem Run.lone {acts : List (Act ι κ P)} (h : Run acts s)
    (halone : ∀ d, .consume d ∈ acts → d = c)
    (hsmall : ∀ i, (acts.countP fun act => act.enqueuer = some i) < 10 ^ 12) : Lone s c := by
  induction h with
  | init =>
    refine ⟨⟨fun e he => ?_, Pairwise.nil⟩, fun e he => ?_, Pairwise.nil, ?_⟩
    · cases he
    · cases he
    · intro id rest hphase
      cases hphase
  | step act hrun hallows ih =>
    have hprev := ih (fun d hd => halone d (mem_append_left _ hd)) fun i =>
      (countP_append ▸ hsmall i : _ + _ < 10 ^ 12).trans_le' (Nat.le_add_right _ _)
    cases act with
    | enqueue i uuid type payload ts =>
      refine hprev.enqueue hrun.inv ?_ type payload ts hallows
      rw [hrun.ordinal]
      have := hsmall i
      simpa [countP_append, Act.enqueuer] using this
    | refused i => exact hprev.count i
    | consume d =>
      obtain rfl := halone d (mem_append_right _ mem_cons_self)
      exact hprev.consume hrun.inv

end Order

/-- The queue under any interleaving: no command is returned twice; each is in exactly one
directory; what was returned is in the archive as it was enqueued; a claim that nothing
interferes with ends, and with `None` only if nothing is pending; a lone consumer claims
the commands of an enqueuer in the order it wrote them, while the enqueuer has made fewer
calls than its twelve digits can count. -/
theorem claims_exactly_once {acts : List (Act ι κ P)} {s : System ι κ P} (h : Run acts s) :
    (s.claimed.map Command.id).Nodup ∧
    (∀ e ∈ s.enqueued,
      Dict.get? s.pending e.2.id = some e.2 ∧ Dict.get? s.archive e.2.id = none ∨
      Dict.get? s.pending e.2.id = none ∧ Dict.get? s.archive e.2.id = some e.2) ∧
    (∀ command ∈ s.claimed, Dict.get? s.archive command.id = some command ∧
      ∃ i, (i, command) ∈ s.enqueued) ∧
    (∀ c, s.phase c = .idle →
      (∃ n result, ((fun t => t.consume c)^[n] s).returned = s.returned ++ [(c, result)]) ∧
      ∀ n, ((fun t => t.consume c)^[n] s).returned = s.returned ++ [(c, none)] →
        s.pending = []) ∧
    ∀ c, (∀ d, .consume d ∈ acts → d = c) →
      (∀ i, (acts.countP fun act => act.enqueuer = some i) < 10 ^ 12) →
      InOrder s.enqueued s.claimed := by
  have hinv := h.inv
  refine ⟨hinv.once, hinv.placed, fun command hmem => ?_, fun c hidle => ⟨?_, ?_⟩, ?_⟩
  · have hkept := hinv.kept command hmem
    exact ⟨hkept, (hinv.archive_id hkept).2.2⟩
  · by_cases hpending : s.pending = []
    · exact ⟨2, none, claim_empty hidle hpending⟩
    · obtain ⟨-, -, command, hreturned⟩ := claim_first hidle hpending
      exact ⟨3, some command, hreturned⟩
  · exact fun n hreturned => claim_none hidle hreturned
  · intro c halone hsmall
    have hlone := h.lone halone hsmall
    refine hlone.inOrder.imp @fun a b horder hsame before after hclaimed => ?_
    -- what is returned comes before the record still in hand
    have hsplit : ∃ rest, s.taken c = before ++ b.2 :: (after ++ rest) := by
      unfold System.taken
      split
      · exact ⟨_, by rw [hclaimed, List.append_assoc, List.cons_append]⟩
      · exact ⟨[], by rw [hclaimed, List.append_nil]⟩
    obtain ⟨rest, hrest⟩ := hsplit
    exact horder hsame before _ hrest

/-! ## Two runs of one enqueuer and one consumer -/

/-- Two commands, then a claim. -/
def twoCommands : List (Act Unit Unit Unit) :=
  [.enqueue () "a" "pause_epoch" () "", .enqueue () "b" "skip_round" () "", .consume (),
    .consume (), .consume ()]

/-- The queue of one enqueuer that has made `n` calls, all refused. -/
def spent (n : Nat) : System Unit Unit Unit := { System.init with ordinal := fun _ => n }

theorem spent_run (n : Nat) : Run (List.replicate n (.refused ())) (spent n) := by
  induction n with
  | zero => exact .init
  | succ n ih =>
    rw [replicate_succ']
    have hstep : (spent n).step (.refused ()) = spent (n + 1) := by
      simp [System.step, System.count, spent]
    rw [← hstep]
    exact .step _ ih trivial

/-- The two commands and the claim, after `n` calls. -/
theorem spent_twoCommands_run (n : Nat)
    (hdistinct : commandId (n + 2) "b" ≠ commandId (n + 1) "a") :
    Run (List.replicate n (.refused ()) ++ twoCommands)
      (twoCommands.foldl System.step (spent n)) := by
  have h₁ := (spent_run n).step (.enqueue () "a" "pause_epoch" () "") not_mem_nil
  have h₂ := h₁.step (.enqueue () "b" "skip_round" () "") (by
    simpa [System.Allows, System.step, System.enqueue, System.count, spent, System.init] using
      hdistinct)
  have h₅ := ((h₂.step (.consume ()) trivial).step (.consume ()) trivial).step (.consume ()) trivial
  simpa [twoCommands] using h₅

theorem claims_exactly_once_two :
    Run twoCommands (twoCommands.foldl System.step (spent 0)) ∧
    (twoCommands.foldl System.step (spent 0)).claimed.map Command.type = ["pause_epoch"] ∧
    InOrder (twoCommands.foldl System.step (spent 0)).enqueued
      (twoCommands.foldl System.step (spent 0)).claimed := by
  have hrun := spent_twoCommands_run 0 (by decide)
  refine ⟨hrun, by decide, ?_⟩
  exact (claims_exactly_once hrun).2.2.2.2 () (fun _ _ => rfl) fun i => by cases i; decide

/-- The command of call 10^12 has thirteen digits and sorts before that of the call before:
a lone consumer claims it first. -/
theorem claims_out_of_order :
    ¬ ∀ (acts : List (Act Unit Unit Unit)) (s : System Unit Unit Unit), Run acts s →
      (∀ d, .consume d ∈ acts → d = ()) → InOrder s.enqueued s.claimed := by
  intro hclaim
  have hrun := spent_twoCommands_run (10 ^ 12 - 2) (by decide)
  have horder := hclaim _ _ hrun fun _ _ => rfl
  have henqueued : (twoCommands.foldl System.step (spent (10 ^ 12 - 2))).enqueued =
      [((), ⟨commandId 999999999999 "a", "pause_epoch", (), ""⟩),
        ((), ⟨commandId 1000000000000 "b", "skip_round", (), ""⟩)] := by
    decide
  have hclaimed : (twoCommands.foldl System.step (spent (10 ^ 12 - 2))).claimed =
      [⟨commandId 1000000000000 "b", "skip_round", (), ""⟩] := by
    decide
  rw [henqueued, hclaimed] at horder
  have hpair := (List.pairwise_cons.mp horder).1 _ List.mem_cons_self rfl [] [] rfl
  cases hpair

end Zicato.Channel
