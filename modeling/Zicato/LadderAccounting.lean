import Mathlib.Data.List.Induction
import Zicato.Ladder

/-! # The books of the ladder

Any number of duels reserve and settle queries of one epoch, in any order; every
call may die between two of its writes.  The state file then always holds a
record that its decoder accepts (`Valid`), and what it holds agrees with the
queries granted and settled so far (`Books`): each charge is one granted query,
and a settled query is pending no more. -/
open List
namespace Zicato.Ladder

variable {F : Type}

/-! ## Records the decoder accepts -/

theorem guard_bind {α : Type} {p : Prop} [Decidable p] (f : Unit → Option α) :
    (guard p >>= f) = if p then f () else none := by
  by_cases hp : p <;> simp [guard, hp]

/-- A reservation within the budget reads back. -/
theorem decodePending_toDict (remaining total : Int) (p : PendingLadderReservation) :
    decodePending remaining total (p.toDict : PyValue F) =
      if validIdentity p.reservationId = true ∧ remaining < p.budgetBeforeQuery ∧
        p.budgetBeforeQuery ≤ total then some p else none := by
  let fields : Dict String (PyValue F) :=
    [("reservation_id", .str p.reservationId), ("budget_before_query", .int p.budgetBeforeQuery)]
  have hkeys : sameKeys fields ["reservation_id", "budget_before_query"] = true := by
    simp [fields, sameKeys, Dict.keys]
  have hid : Dict.get? fields "reservation_id" = some (.str p.reservationId) := by
    simp [fields, Dict.get?]
  have hbefore : Dict.get? fields "budget_before_query" = some (.int p.budgetBeforeQuery) := by
    simp [fields, Dict.get?]
  change (guard (sameKeys fields ["reservation_id", "budget_before_query"] = true) >>= _) = _
  rw [guard_bind, if_pos hkeys, hid, hbefore]
  exact guard_bind _

variable {pending : List PendingLadderReservation}

theorem mapM_decodePending {remaining total : Int}
    (h : ∀ p ∈ pending, validIdentity p.reservationId = true ∧ remaining < p.budgetBeforeQuery ∧
      p.budgetBeforeQuery ≤ total) :
    (pending.map fun p => (p.toDict : PyValue F)).mapM (decodePending remaining total) =
      some pending := by
  induction pending with
  | nil => rfl
  | cons p pending ih =>
    have hrest := ih fun q hq => h q (by simp [hq])
    rw [map_cons, mapM_cons, decodePending_toDict, if_pos (h p (by simp)), hrest]
    rfl

/-- The decoder changes nothing in a list of pending queries that it accepts. -/
theorem mapM_decodePending_eq {remaining total : Int} {pending' : List PendingLadderReservation}
    (h : (pending.map fun p => (p.toDict : PyValue F)).mapM (decodePending remaining total) =
      some pending') : pending' = pending := by
  induction pending generalizing pending' with
  | nil => simpa using h.symm
  | cons p pending ih =>
    simp only [map_cons, mapM_cons, Option.bind_eq_bind, Option.bind_eq_some_iff,
      decodePending_toDict] at h
    obtain ⟨q, hq, qs, hqs, heq⟩ := h
    split at hq
    · rw [← Option.some.inj heq, ← Option.some.inj hq, ih hqs]
    · cases hq

theorem decodeConfirmed_optional (confirmed : Option Bool) :
    decodeConfirmed (optional .bool confirmed : PyValue F) = some confirmed := by
  cases confirmed <;> rfl

theorem sameKeys_stateFields (record : DurableLadderState F) :
    sameKeys (stateFields record) stateKeys = true := by
  simp [sameKeys, Dict.keys, stateKeys, stateFields]

theorem get?_stateFields (record : DurableLadderState F) :
    Dict.get? (stateFields record) "format_version" = some (.int stateFormat) ∧
    Dict.get? (stateFields record) "state_id" = some (.str record.stateId) ∧
    Dict.get? (stateFields record) "budget_total" = some (.int record.state.budgetTotal) ∧
    Dict.get? (stateFields record) "budget_remaining" =
      some (.int record.state.budgetRemaining) ∧
    Dict.get? (stateFields record) "best_holdout_scalar" =
      some (optional .float record.state.bestHoldoutScalar) ∧
    Dict.get? (stateFields record) "best_confirmed" =
      some (optional .bool record.state.bestConfirmed) ∧
    Dict.get? (stateFields record) "pending_reservations" =
      some (.list (record.pendingReservations.map (·.toDict))) := by
  refine ⟨?_, ?_, ?_, ?_, ?_, ?_, ?_⟩ <;> simp [stateFields, Dict.get?]

variable [PyFloat F] {cfg : LadderConfig F}

theorem decodeScalar_optional {scalar : Option F}
    (h : ∀ x, scalar = some x → PyFloat.isfinite x = true) :
    decodeScalar (optional .float scalar) = some scalar := by
  cases scalar with
  | none => rfl
  | some x => simp [optional, decodeScalar, h x rfl]

theorem decodeScalar_eq {scalar scalar' : Option F}
    (h : decodeScalar (optional .float scalar) = some scalar') : scalar' = scalar := by
  cases scalar with
  | none => exact (Option.some.inj h).symm
  | some x =>
    simp only [optional, decodeScalar] at h
    split at h
    · exact (Option.some.inj h).symm
    · cases h

/-- What `_decode_ladder_state` checks. -/
structure Valid (cfg : LadderConfig F) (record : DurableLadderState F) : Prop where
  stateId : validIdentity record.stateId = true
  total : record.state.budgetTotal = cfg.budget
  nonneg : 0 ≤ record.state.budgetRemaining
  le_total : record.state.budgetRemaining ≤ record.state.budgetTotal
  finite : ∀ x, record.state.bestHoldoutScalar = some x → PyFloat.isfinite x = true
  paired : record.state.bestHoldoutScalar.isNone = record.state.bestConfirmed.isNone
  pending : ∀ p ∈ record.pendingReservations, validIdentity p.reservationId = true ∧
    record.state.budgetRemaining < p.budgetBeforeQuery ∧
    p.budgetBeforeQuery ≤ record.state.budgetTotal
  ids : (record.pendingReservations.map (·.reservationId)).Nodup
  positions : (record.pendingReservations.map (·.budgetBeforeQuery)).Nodup
  count : record.pendingReservations.length ≤
    record.state.budgetTotal - record.state.budgetRemaining

variable {record : DurableLadderState F}

/-- **The decoder reads a valid record back.** -/
theorem Valid.decode_dict (h : Valid cfg record) (path : String) :
    decodeLadderState (ladderStateDict record) cfg path = .ok record := by
  obtain ⟨hversion, hid, htotal, hremaining, hbest, hconfirmed, hpending⟩ :=
    get?_stateFields record
  have hvalues : decodeValues cfg (stateFields record) = some record := by
    unfold decodeValues
    rw [hversion, hid, htotal, hremaining, hbest, hconfirmed, hpending]
    simp only [Option.bind_some, PyValue.int?, PyValue.str?, PyValue.list?,
      decodeScalar_optional h.finite, decodeConfirmed_optional, Option.bind_eq_bind,
      mapM_decodePending h.pending]
    refine (guard_bind _).trans ?_
    rw [if_pos ⟨trivial, h.stateId, h.total, ⟨h.nonneg, h.le_total⟩, h.paired⟩]
    exact (guard_bind _).trans (if_pos ⟨h.ids, h.positions, h.count⟩)
  simp only [decodeLadderState, ladderStateDict, sameKeys_stateFields, if_true, hvalues]

variable {record' : DurableLadderState F}

/-- What the decoder accepts of a written record is the record. -/
theorem decode_dict_eq {path : String}
    (h : decodeLadderState (ladderStateDict record) cfg path = .ok record') : record' = record := by
  obtain ⟨hversion, hid, htotal, hremaining, hbest, hconfirmed, hpending⟩ :=
    get?_stateFields record
  have hvalues : decodeValues cfg (stateFields record) = some record' := by
    simp only [decodeLadderState, ladderStateDict, sameKeys_stateFields, if_true] at h
    split at h
    · rename_i hv
      rw [hv, Except.ok.inj h]
    · cases h
  unfold decodeValues at hvalues
  rw [hversion, hid, htotal, hremaining, hbest, hconfirmed, hpending] at hvalues
  simp only [Option.bind_some, PyValue.int?, PyValue.str?, PyValue.list?,
    decodeConfirmed_optional, Option.bind_eq_bind, Option.bind_eq_some_iff] at hvalues
  obtain ⟨best, hbest, _, -, pending, hpending, _, -, heq⟩ := hvalues
  rw [← Option.some.inj heq, decodeScalar_eq hbest, mapM_decodePending_eq hpending]

/-! ## Runs -/

/-- A call of one duel. -/
inductive Request (F : Type)
  | reserve (ids : Identities)
  | settle (newIdentity : String) (reservation : LadderQueryReservation) (q : Settlement F)

/-- A request, and how far it comes. -/
structure Event (F : Type) where
  request : Request F
  fate : Action.Fate

/-- The files, and the identities of the queries granted and settled so far.  A
query counts as granted as soon as its charge is on disk, and as settled as soon
as its settlement is, whether or not the call lived to return. -/
structure World (F : Type) where
  disk : Disk F := {}
  granted : List String := []
  settled : List String := []

section Run
variable (epoch : Epoch) (cfg : LadderConfig F) (weights : ScoringWeights F)

/-- A request served on the disk it finds. -/
def step (w : World F) (e : Event F) : World F :=
  match e.request with
  | .reserve ids =>
      let call := reserveLadderQuery epoch cfg w.disk ids
      { w with
        disk := call.leaves Disk.apply e.fate w.disk
        granted :=
          match call.result with
          | .ok (_, some r) =>
              if e.fate.durable call.writes then w.granted ++ [r.reservationId] else w.granted
          | _ => w.granted }
  | .settle newIdentity reservation q =>
      let call := settleLadderQuery epoch cfg weights w.disk newIdentity reservation q
      { w with
        disk := call.leaves Disk.apply e.fate w.disk
        settled :=
          match call.result with
          | .ok _ =>
              if e.fate.durable call.writes then w.settled ++ [reservation.reservationId]
              else w.settled
          | .error _ => w.settled }

/-- The run of `events` in an epoch that has no state file yet. -/
def run (events : List (Event F)) : World F := events.foldl (step epoch cfg weights) {}

end Run

/-- The identities an event may draw. -/
def Event.identities (e : Event F) : List String :=
  match e.request with
  | .reserve ids => [ids.stateId, ids.reservationId]
  | .settle newIdentity _ _ => [newIdentity]

/-- What `uuid4` gives: well formed identities, never the same one twice. -/
structure FreshIdentities (events : List (Event F)) : Prop where
  valid : ∀ e ∈ events, ∀ id ∈ e.identities, validIdentity id = true
  nodup : (events.flatMap (·.identities)).Nodup

/-- A complete observation has a finite scalar, which is what
`_ladder_mediated_outcome` calls complete. -/
def Event.Measured (e : Event F) : Prop :=
  match e.request with
  | .reserve _ => True
  | .settle _ _ q => q.observationComplete = true →
      ∀ x, q.holdoutScalar = some x → PyFloat.isfinite x = true

/-! ## The invariant -/

/-- The record agrees with the queries granted and settled. -/
structure Books (cfg : LadderConfig F) (record : DurableLadderState F)
    (granted settled : List String) : Prop where
  valid : Valid cfg record
  charged : (granted.length : Int) = record.state.budgetTotal - record.state.budgetRemaining
  granted_nodup : granted.Nodup
  pending : ∀ p ∈ record.pendingReservations, p.reservationId ∈ granted
  settled_nodup : settled.Nodup
  settled_granted : ∀ id ∈ settled, id ∈ granted
  unsettled : ∀ p ∈ record.pendingReservations, p.reservationId ∉ settled

/-- The record is on disk; its marker may still be missing. -/
structure OnDisk (disk : Disk F) (record : DurableLadderState F) : Prop where
  state : disk.state = some (ladderStateDict record)
  marker : disk.marker = none ∨
    disk.marker = some { formatVersion := stateFormat, stateId := record.stateId }

/-- No file yet, or a record that agrees with the queries so far. -/
def Booked (cfg : LadderConfig F) (disk : Disk F) (granted settled : List String) : Prop :=
  disk = {} ∧ granted = [] ∧ settled = [] ∨
    ∃ record, OnDisk disk record ∧ Books cfg record granted settled

/-- The books of a new state. -/
theorem Books.seed {stateId : String} (hid : validIdentity stateId = true) :
    Books cfg { stateId := stateId, state := LadderState.seed cfg } [] [] where
  valid :=
    { stateId := hid
      total := rfl
      nonneg := cfg.budget_nonneg
      le_total := le_refl _
      finite := by simp [LadderState.seed]
      paired := rfl
      pending := by simp
      ids := by simp
      positions := by simp
      count := by simp [LadderState.seed] }
  charged := by simp [LadderState.seed]
  granted_nodup := nodup_nil
  pending := by simp
  settled_nodup := nodup_nil
  settled_granted := by simp
  unsettled := by simp

variable {disk : Disk F} {granted settled : List String} {epoch : Epoch}

/-- Loading a valid record completes its initialization if need be. -/
theorem OnDisk.load (h : OnDisk disk record) (hv : Valid cfg record) (newIdentity : String) :
    loadLadderStateLocked epoch cfg disk newIdentity =
      { writes := match disk.marker with
          | none => [.marker { formatVersion := stateFormat, stateId := record.stateId }]
          | some _ => []
        result := .ok record } := by
  unfold loadLadderStateLocked
  rw [h.state]
  simp only [hv.decode_dict]
  rcases h.marker with hm | hm
  · rw [hm]
    rfl
  · rw [hm]
    simp only [if_true]
    rfl

variable {newIdentity : String}

/-- **Loading** finds the record, or seeds it, and is safe to cut anywhere. -/
theorem Booked.load (h : Booked cfg disk granted settled) (epoch : Epoch)
    (hid : validIdentity newIdentity = true) :
    ∃ record, (loadLadderStateLocked epoch cfg disk newIdentity).result = .ok record ∧
      Books cfg record granted settled ∧
      OnDisk ((loadLadderStateLocked epoch cfg disk newIdentity).writes.foldl Disk.apply disk)
        record ∧
      ∀ fate, Booked cfg
        ((loadLadderStateLocked epoch cfg disk newIdentity).leaves Disk.apply fate disk)
        granted settled := by
  rcases h with ⟨rfl, rfl, rfl⟩ | ⟨record, hdisk, hbooks⟩
  · -- the state is written first, so a crash leaves at worst a state with no marker
    have hbooks : Books cfg { stateId := newIdentity, state := LadderState.seed cfg } [] [] :=
      Books.seed hid
    refine ⟨_, rfl, hbooks, ⟨rfl, .inr rfl⟩, fun fate => ?_⟩
    match fate with
    | .completes => exact .inr ⟨_, ⟨rfl, .inr rfl⟩, hbooks⟩
    | .crashes 0 => exact .inl ⟨rfl, rfl, rfl⟩
    | .crashes 1 => exact .inr ⟨_, ⟨rfl, .inl rfl⟩, hbooks⟩
    | .crashes (k + 2) =>
      rw [Action.leaves_of_durable (by change decide (2 ≤ k + 2) = true; simp)]
      exact .inr ⟨_, ⟨rfl, .inr rfl⟩, hbooks⟩
  · rw [hdisk.load hbooks.valid]
    have hsame : Booked cfg disk granted settled := .inr ⟨record, hdisk, hbooks⟩
    refine ⟨record, rfl, hbooks, ?_⟩
    cases hm : disk.marker with
    | none =>
      have hdone : OnDisk (disk.apply
          (.marker { formatVersion := stateFormat, stateId := record.stateId })) record :=
        ⟨hdisk.state, .inr rfl⟩
      refine ⟨hdone, fun fate => ?_⟩
      match fate with
      | .completes => exact .inr ⟨record, hdone, hbooks⟩
      | .crashes 0 => exact hsame
      | .crashes (k + 1) =>
        rw [Action.leaves_of_durable (by change decide (1 ≤ k + 1) = true; simp)]
        exact .inr ⟨record, hdone, hbooks⟩
    | some m =>
      refine ⟨hdisk, fun fate => ?_⟩
      cases fate with
      | completes => exact hsame
      | crashes k => simpa [Action.leaves, Action.Fate.reached] using hsame

/-! ## Reserving -/

/-- The record after one more charge. -/
def DurableLadderState.charge (record : DurableLadderState F) (charged : LadderState F)
    (reservationId : String) : DurableLadderState F where
  stateId := record.stateId
  state := charged
  pendingReservations := record.pendingReservations ++
    [{ reservationId := reservationId, budgetBeforeQuery := record.state.budgetRemaining }]

variable {reservationId : String}

/-- A charge keeps the books. -/
theorem Books.charge {charged : LadderState F} (h : Books cfg record granted settled)
    (hc : reserveHoldoutQuery record.state = some charged)
    (hid : validIdentity reservationId = true) (hfresh : reservationId ∉ granted) :
    Books cfg (record.charge charged reservationId) (granted ++ [reservationId]) settled := by
  obtain ⟨hpos, rfl⟩ : 0 < record.state.budgetRemaining ∧
      charged = { record.state with budgetRemaining := record.state.budgetRemaining - 1 } := by
    unfold reserveHoldoutQuery at hc
    split at hc
    · cases hc
    · exact ⟨by omega, (Option.some.inj hc).symm⟩
  have hv := h.valid
  have hle := hv.le_total
  have hmem : ∀ p ∈ record.pendingReservations, p.reservationId ≠ reservationId := by
    rintro p hp rfl
    exact hfresh (h.pending p hp)
  -- the position of the new query lies below those of all pending ones
  have hpos' : ∀ p ∈ record.pendingReservations,
      p.budgetBeforeQuery ≠ record.state.budgetRemaining := by
    intro p hp
    have := (hv.pending p hp).2.1
    omega
  refine ⟨⟨hv.stateId, hv.total, ?_, ?_, hv.finite, hv.paired, ?_, ?_, ?_, ?_⟩, ?_, ?_, ?_,
    h.settled_nodup, ?_, ?_⟩
  · simp only [DurableLadderState.charge]
    omega
  · simp only [DurableLadderState.charge]
    omega
  · intro p hp
    simp only [DurableLadderState.charge, mem_append, mem_singleton] at hp ⊢
    rcases hp with hp | rfl
    · obtain ⟨h1, h2, h3⟩ := hv.pending p hp
      exact ⟨h1, by omega, h3⟩
    · exact ⟨hid, by simp, hle⟩
  · simp only [DurableLadderState.charge, map_append, map_singleton]
    refine nodup_append.mpr ⟨hv.ids, by simp, ?_⟩
    rintro a ha b hb rfl
    obtain ⟨p, hp, rfl⟩ := mem_map.mp ha
    exact hmem p hp (mem_singleton.mp hb)
  · simp only [DurableLadderState.charge, map_append, map_singleton]
    refine nodup_append.mpr ⟨hv.positions, by simp, ?_⟩
    rintro a ha b hb rfl
    obtain ⟨p, hp, rfl⟩ := mem_map.mp ha
    exact hpos' p hp (mem_singleton.mp hb)
  · have := hv.count
    simp only [DurableLadderState.charge, length_append, length_singleton]
    push_cast
    omega
  · have := h.charged
    simp only [DurableLadderState.charge, length_append, length_singleton]
    push_cast
    omega
  · refine nodup_append.mpr ⟨h.granted_nodup, by simp, ?_⟩
    rintro a ha b hb rfl
    exact hfresh (mem_singleton.mp hb ▸ ha)
  · intro p hp
    simp only [DurableLadderState.charge, mem_append, mem_singleton] at hp ⊢
    rcases hp with hp | rfl
    · exact .inl (h.pending p hp)
    · exact .inr rfl
  · intro id hmem
    exact mem_append_left _ (h.settled_granted id hmem)
  · intro p hp
    simp only [DurableLadderState.charge, mem_append, mem_singleton] at hp
    rcases hp with hp | rfl
    · exact h.unsettled p hp
    · exact fun hm => hfresh (h.settled_granted _ hm)

/-- The reservation a grant hands out. -/
def grantOf (epoch : Epoch) (record : DurableLadderState F) (reservationId : String) :
    LadderQueryReservation where
  statePath := epoch.resolved
  stateId := record.stateId
  epochId := epoch.epochId
  reservationId := reservationId

/-- What a reservation does once the record is loaded. -/
theorem reserve_eq {ids : Identities}
    (h : (loadLadderStateLocked epoch cfg disk ids.stateId).result = .ok record) :
    reserveLadderQuery epoch cfg disk ids =
      match reserveHoldoutQuery record.state with
      | none =>
          { writes := (loadLadderStateLocked epoch cfg disk ids.stateId).writes
            result := .ok (record.state, none) }
      | some charged =>
          { writes := (loadLadderStateLocked epoch cfg disk ids.stateId).writes ++
              [.state (ladderStateDict (record.charge charged ids.reservationId))]
            result := .ok (charged, some (grantOf epoch record ids.reservationId)) } := by
  unfold reserveLadderQuery
  rw [Action.bind_ok h]
  cases reserveHoldoutQuery record.state with
  | none => simp
  | some charged => rfl

omit [PyFloat F] in
/-- A write of the state on top of what a load left. -/
theorem OnDisk.overwrite {writes : List (Write F)}
    (h : OnDisk (writes.foldl Disk.apply disk) record) (hid : record'.stateId = record.stateId) :
    OnDisk ((writes ++ [Write.state (ladderStateDict record')]).foldl Disk.apply disk) record' := by
  rw [foldl_append, foldl_cons, foldl_nil]
  exact ⟨rfl, hid ▸ h.marker⟩

/-- **A reservation keeps the books**, wherever it is cut. -/
theorem Booked.reserve (weights : ScoringWeights F) {w : World F}
    (h : Booked cfg w.disk w.granted w.settled) {ids : Identities}
    (hstate : validIdentity ids.stateId = true) (hid : validIdentity ids.reservationId = true)
    (hfresh : ids.reservationId ∉ w.granted) (fate : Action.Fate) :
    let w' := step epoch cfg weights w { request := .reserve ids, fate := fate }
    Booked cfg w'.disk w'.granted w'.settled ∧
      (w'.granted = w.granted ∨ w'.granted = w.granted ++ [ids.reservationId]) := by
  obtain ⟨record, hload, hbooks, hdisk, hcut⟩ := h.load epoch hstate
  simp only [step]
  rw [reserve_eq hload]
  cases hc : reserveHoldoutQuery record.state with
  | none => exact ⟨hcut fate, .inl rfl⟩
  | some charged =>
    simp only
    split
    · rename_i hdurable
      rw [Action.leaves_of_durable hdurable]
      exact ⟨.inr ⟨_, hdisk.overwrite rfl, hbooks.charge hc hid hfresh⟩, .inr rfl⟩
    · rename_i hdurable
      rw [Bool.not_eq_true] at hdurable
      refine ⟨?_, .inl rfl⟩
      rw [Action.leaves, Action.Fate.reached_concat hdurable]
      exact hcut fate

/-! ## Settling -/

/-- The record after a settlement. -/
def DurableLadderState.settle (record : DurableLadderState F) (state : LadderState F)
    (reservationId : String) : DurableLadderState F where
  stateId := record.stateId
  state := state
  pendingReservations := record.pendingReservations.filter (·.reservationId ≠ reservationId)

/-- What a release decision does to the state: the budget stays, and a new best
is a complete observation with its bit. -/
structure Released (q : Settlement F) (before after : LadderState F) : Prop where
  total : after.budgetTotal = before.budgetTotal
  remaining : after.budgetRemaining = before.budgetRemaining
  best : after = before ∨ q.observationComplete = true ∧ ∃ x, q.holdoutScalar = some x ∧
    after.bestHoldoutScalar = some x ∧ after.bestConfirmed = some q.holdoutConfirmed

variable {q : Settlement F}

/-- What a settled query releases. -/
theorem settleDecision_released {weights : ScoringWeights F} {state : LadderState F}
    {release : LadderRelease F} (h : settleDecision cfg weights state q = .ok release) :
    Released q state release.state := by
  unfold settleDecision at h
  split at h
  · rename_i hcomplete
    split at h
    · cases h
    · rename_i x hx
      obtain rfl := Except.ok.inj h
      unfold decideReservedHoldout
      split
      · simp only
        split
        · exact ⟨rfl, rfl, .inr ⟨hcomplete, x, hx, rfl, rfl⟩⟩
        · split
          · exact ⟨rfl, rfl, .inr ⟨hcomplete, x, hx, rfl, rfl⟩⟩
          · exact ⟨rfl, rfl, .inl rfl⟩
      · exact ⟨rfl, rfl, .inl rfl⟩
  · obtain rfl := Except.ok.inj h
    exact ⟨rfl, rfl, .inl rfl⟩

/-- A settled query keeps the books. -/
theorem Books.settle {state : LadderState F} (h : Books cfg record granted settled)
    (hr : Released q record.state state)
    (hq : q.observationComplete = true → ∀ x, q.holdoutScalar = some x → PyFloat.isfinite x = true)
    (hp : ∃ p ∈ record.pendingReservations, p.reservationId = reservationId) :
    Books cfg (record.settle state reservationId) granted (settled ++ [reservationId]) := by
  have hv := h.valid
  obtain ⟨p₀, hp₀, rfl⟩ := hp
  have hsub : ∀ p ∈ (record.settle state p₀.reservationId).pendingReservations,
      p ∈ record.pendingReservations ∧ p.reservationId ≠ p₀.reservationId := by
    intro p hp
    simpa [DurableLadderState.settle] using hp
  have hlist : (record.settle state p₀.reservationId).pendingReservations.Sublist
      record.pendingReservations := filter_sublist
  refine ⟨⟨hv.stateId, hr.total.trans hv.total, ?_, ?_, ?_, ?_, ?_, ?_, ?_, ?_⟩, ?_,
    h.granted_nodup, ?_, ?_, ?_, ?_⟩
  · rw [DurableLadderState.settle, hr.remaining]
    exact hv.nonneg
  · rw [DurableLadderState.settle, hr.remaining, hr.total]
    exact hv.le_total
  · intro x hx
    rcases hr.best with hsame | ⟨hcomplete, y, hy, hbest, -⟩
    · exact hv.finite x (by rw [← hsame]; exact hx)
    · obtain rfl : y = x := Option.some.inj (hbest.symm.trans hx)
      exact hq hcomplete y hy
  · rcases hr.best with hsame | ⟨-, y, -, hbest, hbit⟩
    · rw [DurableLadderState.settle, hsame]
      exact hv.paired
    · rw [DurableLadderState.settle, hbest, hbit]
      rfl
  · intro p hp
    rw [DurableLadderState.settle, hr.remaining, hr.total]
    exact hv.pending p (hsub p hp).1
  · exact hv.ids.sublist (hlist.map _)
  · exact hv.positions.sublist (hlist.map _)
  · have hcount := hv.count
    have hlen := hlist.length_le
    change ((record.settle state p₀.reservationId).pendingReservations.length : Int) ≤
      state.budgetTotal - state.budgetRemaining
    rw [hr.remaining, hr.total]
    omega
  · change (granted.length : Int) = state.budgetTotal - state.budgetRemaining
    rw [hr.remaining, hr.total]
    exact h.charged
  · intro p hp
    exact h.pending p (hsub p hp).1
  · refine nodup_append.mpr ⟨h.settled_nodup, by simp, ?_⟩
    rintro a ha b hb rfl
    exact h.unsettled p₀ hp₀ (mem_singleton.mp hb ▸ ha)
  · intro id hid
    rcases mem_append.mp hid with hid | hid
    · exact h.settled_granted id hid
    · rw [mem_singleton.mp hid]
      exact h.pending p₀ hp₀
  · intro p hp hmem
    rcases mem_append.mp hmem with hmem | hmem
    · exact h.unsettled p (hsub p hp).1 hmem
    · exact (hsub p hp).2 (mem_singleton.mp hmem)

/-- A reservation is found in the record that is loaded, or refused. -/
theorem findReservation_cases (reservation : LadderQueryReservation)
    (h : (loadLadderStateLocked epoch cfg disk newIdentity).result = .ok record) :
    let found := findReservation epoch cfg disk newIdentity reservation
    (∃ e, found.result = .error e ∧
      (found.writes = [] ∨
        found.writes = (loadLadderStateLocked epoch cfg disk newIdentity).writes)) ∨
    ∃ pending ∈ record.pendingReservations, pending.reservationId = reservation.reservationId ∧
      found.result = .ok (record, pending) ∧
      found.writes = (loadLadderStateLocked epoch cfg disk newIdentity).writes := by
  intro found
  simp only [found, findReservation]
  split
  · exact .inl ⟨_, rfl, .inl rfl⟩
  · rw [Action.bind_ok h]
    split
    · exact .inl ⟨_, rfl, .inr (by simp)⟩
    · split
      · exact .inl ⟨_, rfl, .inr (by simp)⟩
      · rename_i pending hfind
        have hid := find?_some hfind
        exact .inr ⟨pending, mem_of_find?_eq_some hfind, by simpa using hid, rfl,
          by simp⟩

/-- What a settlement does once the record is loaded: it is refused and writes
nothing more, or it settles a pending query. -/
theorem settle_cases (weights : ScoringWeights F) (reservation : LadderQueryReservation)
    (q : Settlement F)
    (h : (loadLadderStateLocked epoch cfg disk newIdentity).result = .ok record) :
    let call := settleLadderQuery epoch cfg weights disk newIdentity reservation q
    (∃ e, call.result = .error e ∧
      (call.writes = [] ∨
        call.writes = (loadLadderStateLocked epoch cfg disk newIdentity).writes)) ∨
    ∃ pending release, pending ∈ record.pendingReservations ∧
      pending.reservationId = reservation.reservationId ∧
      settleDecision cfg weights record.state q = .ok release ∧
      call.result = .ok (release, pending.budgetBeforeQuery) ∧
      call.writes = (loadLadderStateLocked epoch cfg disk newIdentity).writes ++
        [.state (ladderStateDict (record.settle release.state reservation.reservationId))] := by
  intro call
  rcases findReservation_cases reservation h with
    ⟨e, hresult, hwrites⟩ | ⟨pending, hmem, hid, hresult, hwrites⟩
  · left
    simp only [call, settleLadderQuery, Action.bind_error hresult]
    exact ⟨e, rfl, hwrites⟩
  · simp only [call, settleLadderQuery, Action.bind_ok hresult, hwrites]
    split
    · exact .inl ⟨_, rfl, .inr (by simp)⟩
    · rename_i release hrelease
      exact .inr ⟨pending, release, hmem, hid, hrelease, rfl, rfl⟩

/-- **A settlement keeps the books**, wherever it is cut. -/
theorem Booked.settle (weights : ScoringWeights F) {w : World F}
    (h : Booked cfg w.disk w.granted w.settled) {reservation : LadderQueryReservation}
    (hid : validIdentity newIdentity = true)
    (hq : q.observationComplete = true → ∀ x, q.holdoutScalar = some x → PyFloat.isfinite x = true)
    (fate : Action.Fate) :
    let w' := step epoch cfg weights w
      { request := .settle newIdentity reservation q, fate := fate }
    Booked cfg w'.disk w'.granted w'.settled ∧ w'.granted = w.granted := by
  obtain ⟨record, hload, hbooks, hdisk, hcut⟩ := h.load epoch hid
  refine ⟨?_, rfl⟩
  simp only [step]
  rcases settle_cases weights reservation q hload with
    ⟨e, hresult, hwrites⟩ | ⟨pending, release, hmem, heq, hrelease, hresult, hwrites⟩
  · rw [hresult, Action.leaves]
    rcases hwrites with hwrites | hwrites
    · rw [hwrites]
      cases fate with
      | completes => exact h
      | crashes k => simpa [Action.Fate.reached] using h
    · rw [hwrites]
      exact hcut fate
  · rw [hresult, Action.leaves, hwrites]
    simp only
    split
    · rename_i hdurable
      rw [Action.Fate.reached_of_durable hdurable]
      exact .inr ⟨_, hdisk.overwrite rfl,
        hbooks.settle (settleDecision_released hrelease) hq ⟨pending, hmem, heq⟩⟩
    · rename_i hdurable
      rw [Action.Fate.reached_concat (Bool.not_eq_true _ ▸ hdurable)]
      exact hcut fate

/-! ## Accounting -/

section Accounting
variable (epoch : Epoch) (cfg : LadderConfig F) (weights : ScoringWeights F)

theorem run_concat (events : List (Event F)) (e : Event F) :
    run epoch cfg weights (events ++ [e]) = step epoch cfg weights (run epoch cfg weights events) e := by
  simp [run]

/-- The books are kept along a run, and only identities drawn in it are granted. -/
theorem booked_run {events : List (Event F)} (hfresh : FreshIdentities events)
    (hmeasured : ∀ e ∈ events, e.Measured) :
    Booked cfg (run epoch cfg weights events).disk (run epoch cfg weights events).granted
        (run epoch cfg weights events).settled ∧
      ∀ id ∈ (run epoch cfg weights events).granted, id ∈ events.flatMap (·.identities) := by
  induction events using reverseRecOn with
  | nil => exact ⟨.inl ⟨rfl, rfl, rfl⟩, by simp [run]⟩
  | append_singleton events e ih =>
    have hnodup : (events.flatMap (·.identities)).Nodup ∧ e.identities.Nodup ∧
        ∀ a ∈ events.flatMap (·.identities), ∀ b ∈ e.identities, a ≠ b := by
      have := hfresh.nodup
      rw [flatMap_append, nodup_append] at this
      simpa using this
    obtain ⟨hbooked, hdrawn⟩ :=
      ih ⟨fun e' he' => hfresh.valid e' (by simp [he']), hnodup.1⟩
        fun e' he' => hmeasured e' (by simp [he'])
    have hvalid := hfresh.valid e (by simp)
    rw [run_concat]
    obtain ⟨request, fate⟩ := e
    cases request with
    | reserve ids =>
      have hnew : ids.reservationId ∉ (run epoch cfg weights events).granted := by
        intro hmem
        exact hnodup.2.2 _ (hdrawn _ hmem) _ (by simp [Event.identities]) rfl
      obtain ⟨hb, hgrow⟩ := hbooked.reserve weights
        (hvalid ids.stateId (by simp [Event.identities]))
        (hvalid ids.reservationId (by simp [Event.identities])) hnew fate
      refine ⟨hb, fun id hid => ?_⟩
      rw [flatMap_append, mem_append]
      rcases hgrow with hsame | hmore
      · rw [hsame] at hid
        exact .inl (hdrawn id hid)
      · rw [hmore] at hid
        rcases mem_append.mp hid with hid | hid
        · exact .inl (hdrawn id hid)
        · right
          simp [Event.identities, mem_singleton.mp hid]
    | settle newIdentity reservation q =>
      obtain ⟨hb, hsame⟩ := hbooked.settle weights
        (hvalid newIdentity (by simp [Event.identities])) (hmeasured _ (mem_append_right _ (mem_singleton_self _))) fate
      refine ⟨hb, fun id hid => ?_⟩
      rw [hsame] at hid
      rw [flatMap_append, mem_append]
      exact .inl (hdrawn id hid)

/-- The file says how many queries were granted. -/
theorem Booked.decode {cfg : LadderConfig F} (h : Booked cfg disk granted settled) {raw : PyValue F}
    (hraw : disk.state = some raw) (path : String) :
    ∃ record, decodeLadderState raw cfg path = .ok record ∧ 0 ≤ record.state.budgetRemaining ∧
      record.state.budgetRemaining = cfg.budget - granted.length := by
  rcases h with ⟨rfl, -, -⟩ | ⟨record, hdisk, hbooks⟩
  · cases hraw
  · obtain rfl : ladderStateDict record = raw := Option.some.inj (hdisk.state.symm.trans hraw)
    have hcharged := hbooks.charged
    have htotal := hbooks.valid.total
    exact ⟨record, hbooks.valid.decode_dict path, hbooks.valid.nonneg, by omega⟩

theorem Booked.granted_le {cfg : LadderConfig F} (h : Booked cfg disk granted settled) :
    (granted.length : Int) ≤ cfg.budget := by
  rcases h with ⟨-, rfl, -⟩ | ⟨record, -, hbooks⟩
  · exact cfg.budget_nonneg
  · have hcharged := hbooks.charged
    have htotal := hbooks.valid.total
    have hnonneg := hbooks.valid.nonneg
    omega

theorem Booked.settled_once {cfg : LadderConfig F} (h : Booked cfg disk granted settled) :
    settled.Nodup ∧ ∀ id ∈ settled, id ∈ granted := by
  rcases h with ⟨-, rfl, rfl⟩ | ⟨record, -, hbooks⟩
  · simp
  · exact ⟨hbooks.settled_nodup, hbooks.settled_granted⟩

/-- Grants are never taken back. -/
theorem granted_grows (earlier later : List (Event F)) :
    (run epoch cfg weights earlier).granted <+:
      (run epoch cfg weights (earlier ++ later)).granted := by
  induction later using reverseRecOn with
  | nil => simp
  | append_singleton later e ih =>
    rw [← List.append_assoc, run_concat]
    refine ih.trans ?_
    unfold step
    split
    · simp only
      split
      · split
        · exact prefix_append _ _
        · exact prefix_rfl
      · exact prefix_rfl
    · exact prefix_rfl

/-- The state file never goes away. -/
theorem state_isSome (earlier later : List (Event F))
    (h : (run epoch cfg weights earlier).disk.state.isSome = true) :
    (run epoch cfg weights (earlier ++ later)).disk.state.isSome = true := by
  have hwrites : ∀ (ws : List (Write F)) (disk : Disk F), disk.state.isSome = true →
      (ws.foldl Disk.apply disk).state.isSome = true := by
    intro ws
    induction ws with
    | nil => exact fun disk hd => hd
    | cons w ws ih =>
      intro disk hd
      refine ih _ ?_
      cases w with
      | state raw => rfl
      | marker m => exact hd
  induction later using reverseRecOn with
  | nil => simpa using h
  | append_singleton later e ih =>
    rw [← List.append_assoc, run_concat]
    unfold step
    split <;> exact hwrites _ _ ih

/-- **The holdout budget is never overdrawn.**  Over any run of reservations and
settlements, each of which may die between two writes: no more queries are
granted than the budget, none is settled twice, every state file is one that the
decoder accepts, and its remaining budget lies between 0 and the total and never
grows. -/
theorem ladder_accounting {events : List (Event F)} (hfresh : FreshIdentities events)
    (hmeasured : ∀ e ∈ events, e.Measured) :
    ((run epoch cfg weights events).granted.length : Int) ≤ cfg.budget ∧
    (run epoch cfg weights events).settled.Nodup ∧
    (∀ id ∈ (run epoch cfg weights events).settled,
      id ∈ (run epoch cfg weights events).granted) ∧
    (∀ raw, (run epoch cfg weights events).disk.state = some raw →
      ∃ record, decodeLadderState raw cfg epoch.path = .ok record ∧
        0 ≤ record.state.budgetRemaining ∧ record.state.budgetRemaining ≤ cfg.budget) ∧
    ∀ earlier later, events = earlier ++ later →
      ∀ raw record, (run epoch cfg weights earlier).disk.state = some raw →
        decodeLadderState raw cfg epoch.path = .ok record →
          ∃ raw' record', (run epoch cfg weights events).disk.state = some raw' ∧
            decodeLadderState raw' cfg epoch.path = .ok record' ∧
            record'.state.budgetRemaining ≤ record.state.budgetRemaining := by
  obtain ⟨hbooked, -⟩ := booked_run epoch cfg weights hfresh hmeasured
  refine ⟨hbooked.granted_le, hbooked.settled_once.1, hbooked.settled_once.2, ?_, ?_⟩
  · intro raw hraw
    obtain ⟨record, hdecode, hnonneg, hremaining⟩ := hbooked.decode hraw epoch.path
    exact ⟨record, hdecode, hnonneg, by omega⟩
  · rintro earlier later rfl raw record hraw hdecode
    have hearlier : FreshIdentities earlier :=
      ⟨fun e he => hfresh.valid e (by simp [he]),
        (List.nodup_append.mp (List.flatMap_append ▸ hfresh.nodup)).1⟩
    obtain ⟨hbooked', -⟩ := booked_run epoch cfg weights hearlier
      fun e he => hmeasured e (by simp [he])
    -- the remaining budget is what the grants so far leave, and grants only grow
    obtain ⟨record₀, hdecode₀, -, hremaining₀⟩ := hbooked'.decode hraw epoch.path
    obtain rfl : record₀ = record := Except.ok.inj (hdecode₀.symm.trans hdecode)
    have hsome := state_isSome epoch cfg weights earlier later (by rw [hraw]; rfl)
    obtain ⟨raw', hraw'⟩ := Option.isSome_iff_exists.mp hsome
    obtain ⟨record', hdecode', -, hremaining'⟩ := hbooked.decode hraw' epoch.path
    have hgrow := (granted_grows epoch cfg weights earlier later).length_le
    exact ⟨raw', record', hraw', hdecode', by omega⟩

end Accounting

/-! ### A reservation that dies between its writes

The first reservation dies after it has written the seeded state; the next one
completes the initialization and takes the only query. -/

/-- The files of an epoch. -/
def firstEpoch : Epoch where
  epochId := "e0"
  path := "epochs/e0/ladder_state.json"
  markerPath := "epochs/e0/ladder_state.initialized.json"
  resolved := "/ws/epochs/e0/ladder_state.json"

/-- A budget of one query. -/
def oneQuery : ScoringWeights Exact where
  promoteMargin := .fin (1 / 2)
  ladder := { budget := 1 }

/-- A query whose process dies, and one that is settled. -/
def crashEvents : List (Event Exact) :=
  [{ request := .reserve
      { stateId := "0000000000000000000000000000000a"
        reservationId := "0000000000000000000000000000000b" }
     fate := .crashes 1 },
   { request := .reserve
      { stateId := "0000000000000000000000000000000c"
        reservationId := "0000000000000000000000000000000d" }
     fate := .completes },
   { request := .settle "0000000000000000000000000000000e"
      { statePath := "/ws/epochs/e0/ladder_state.json"
        stateId := "0000000000000000000000000000000a"
        epochId := "e0"
        reservationId := "0000000000000000000000000000000d" }
      { trainParentScalar := .fin 1, trainChildScalar := .fin 0
        holdoutScalar := some (.fin 2), holdoutConfirmed := true }
     fate := .completes }]

theorem crashEvents_fresh : FreshIdentities crashEvents where
  valid := by
    simp only [crashEvents, mem_cons, not_mem_nil, or_false, forall_eq_or_imp, forall_eq,
      Event.identities]
    decide
  nodup := by decide

theorem crashEvents_measured : ∀ e ∈ crashEvents, e.Measured := by
  simp only [crashEvents, mem_cons, not_mem_nil, or_false, forall_eq_or_imp, forall_eq,
    Event.Measured, true_and]
  intro _ x hx
  rw [← Option.some.inj hx]
  rfl

theorem ladder_accounting_crash :
    (run firstEpoch oneQuery.ladder oneQuery crashEvents).settled =
        ["0000000000000000000000000000000d"] ∧
      ((run firstEpoch oneQuery.ladder oneQuery crashEvents).granted.length : Int) ≤ 1 ∧
      (run firstEpoch oneQuery.ladder oneQuery crashEvents).settled.Nodup :=
  have h := ladder_accounting firstEpoch oneQuery.ladder oneQuery crashEvents_fresh
    crashEvents_measured
  ⟨by decide, h.1, h.2.1⟩

end Zicato.Ladder
