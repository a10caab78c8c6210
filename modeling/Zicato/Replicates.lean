import Zicato.Dict
import Zicato.Gather
import Zicato.PyExcept
import Zicato.UnitCache

/-! # Replicate slots

`_run_replicated` of `tournament/scheduling.py` runs the slots of a matchup one after
another, each slot a gather over the board, or overlapped, as one gather of chains with
the slots of an entry in each.  Both give the same maps. -/
open List Zicato.Dict
namespace Zicato.Replicates

open Gather

/-- An entry by its id, its context and the rest of it. -/
structure BoardEntry (γ : Type) where
  id : String
  context : Dict String String
  rest : γ
  deriving DecidableEq, Repr

/-- `json.dumps(measurement.to_json())`. -/
def measurementText (m : UnitCache.MeasurementDraw) : String :=
  let seed := m.baseSeed.elim "null" toString
  "\x7b" ++ s!"\"purpose\": \"{m.purpose.value}\", \"draw\": {m.draw}, \"base_seed\": {seed}" ++
    "\x7d"

/-- `offset`. -/
def offsetDraw (m : UnitCache.MeasurementDraw) (count : Nat) : UnitCache.MeasurementDraw :=
  { m with draw := m.draw + count }

variable {γ L ε : Type}

/-- The entry a draw measures. -/
def stamp (m : UnitCache.MeasurementDraw) (entry : BoardEntry γ) : BoardEntry γ :=
  { entry with context := entry.context.set "measurement" (measurementText m) }

/-- `_stamp_measurement`. -/
def stampMeasurement (board : List (BoardEntry γ)) (m : UnitCache.MeasurementDraw) :
    List (BoardEntry γ) :=
  board.map (stamp m)

/-- A dict comprehension: a later item of a key replaces the value of an earlier one. -/
def dictOf {α : Type} (items : List (String × α)) : Dict String α :=
  items.foldl (fun d item => d.set item.1 item.2) []

/-- The maps of a slot: the losses of the left and of the right side. -/
abbrev Maps (L : Type) := Dict String L × Dict String L

/-- What a matchup runs with. -/
structure Matchup (γ L ε : Type) where
  parallelism : Nat
  /-- The permits of the semaphore: `parallelism`, unless it is shared by a round. -/
  permits : Nat
  /-- `config.token_ledger is not None`. -/
  hasLedger : Bool
  /-- `_run_full_board_unit`: the losses of both sides of an entry, or an exception. -/
  runUnit : BoardEntry γ → UnitCache.MeasurementDraw → Except ε (L × L)
  /-- `skip_unit`. -/
  skipUnit : BoardEntry γ → UnitCache.MeasurementDraw → L × L

/-- `_overlap_replicate_slots`. -/
def overlapReplicateSlots (mu : Matchup γ L ε) (deadline : Bool) : Bool :=
  !deadline && !mu.hasLedger

/-- `raise` of the first exception of a gather, in the order of its arguments. -/
def collect {α : Type} (settled : List (Except ε α)) : Except ε (List α) := settled.mapM id

/-! ## One slot after another -/

section InTurn
variable [DecidableEq L] [DecidableEq ε]

/-- How `bounded` may end: without a deadline a spent ledger skips the unit. -/
def bounded (mu : Matchup γ L ε) (deadline : Bool) (m : UnitCache.MeasurementDraw)
    (entry : BoardEntry γ)
    (outcome : Except ε (L × L)) : Bool :=
  decide (outcome = mu.runUnit entry m) ||
    (!deadline && mu.hasLedger && decide (outcome = .ok (mu.skipUnit entry m)))

/-- `_schedule_board_units` on the entries that are left, in batches of `size`.
`check` is what the clock and the ledger say before a batch. -/
inductive Scheduled (mu : Matchup γ L ε) (deadline : Bool) (m : UnitCache.MeasurementDraw)
    (size : Nat) : Bool → List (BoardEntry γ) → Except ε (List (L × L)) → Prop
  | nil (spent : Bool) : Scheduled mu deadline m size spent [] (.ok [])
  | skipped {spent check : Bool} {board : List (BoardEntry γ)} {results : Except ε (List (L × L))}
      (hboard : board ≠ []) (hspent : (spent || (deadline && check)) = true)
      (hrest : Scheduled mu deadline m size true (board.drop size) results) :
      Scheduled mu deadline m size spent board
        (results.map (((board.take size).map fun entry => mu.skipUnit entry m) ++ ·))
  | raised {spent check : Bool} {board : List (BoardEntry γ)}
      {settled : List (Except ε (List (L × L)))} {e : ε}
      (hboard : board ≠ []) (hspent : (spent || (deadline && check)) = false)
      (hgather : Gathered (bounded mu deadline m) mu.permits ((board.take size).map ([·])) settled)
      (hraised : collect settled = .error e) :
      Scheduled mu deadline m size spent board (.error e)
  | batch {spent check : Bool} {board : List (BoardEntry γ)}
      {settled : List (Except ε (List (L × L)))} {batch : List (List (L × L))}
      {results : Except ε (List (L × L))}
      (hboard : board ≠ []) (hspent : (spent || (deadline && check)) = false)
      (hgather : Gathered (bounded mu deadline m) mu.permits ((board.take size).map ([·])) settled)
      (hreturned : collect settled = .ok batch)
      (hrest : Scheduled mu deadline m size false (board.drop size) results) :
      Scheduled mu deadline m size spent board (results.map (batch.flatten ++ ·))

/-- The size of a batch. -/
def batchSize (mu : Matchup γ L ε) (deadline : Bool) (board : List (BoardEntry γ)) : Nat :=
  if deadline then max 1 mu.parallelism else max 1 board.length

/-- The dicts of `_run_board_units_full`. -/
def slotMaps (board : List (BoardEntry γ)) (results : List (L × L)) : Maps L :=
  (dictOf ((board.zip results).map fun e => (e.1.id, e.2.1)),
    dictOf ((board.zip results).map fun e => (e.1.id, e.2.2)))

/-- The loop of `_run_replicated` over the slots that are left. -/
inductive SlotsInTurn (mu : Matchup γ L ε) (deadline : Bool) (board : List (BoardEntry γ))
    (first : UnitCache.MeasurementDraw) : List Nat → Except ε (List (Maps L)) → Prop
  | nil : SlotsInTurn mu deadline board first [] (.ok [])
  | raised {offset : Nat} {offsets : List Nat} {e : ε}
      (hslot : Scheduled mu deadline (offsetDraw first offset) (batchSize mu deadline board) false
        (stampMeasurement board (offsetDraw first offset)) (.error e)) :
      SlotsInTurn mu deadline board first (offset :: offsets) (.error e)
  | slot {offset : Nat} {offsets : List Nat} {results : List (L × L)}
      {runs : Except ε (List (Maps L))}
      (hslot : Scheduled mu deadline (offsetDraw first offset) (batchSize mu deadline board) false
        (stampMeasurement board (offsetDraw first offset)) (.ok results))
      (hrest : SlotsInTurn mu deadline board first offsets runs) :
      SlotsInTurn mu deadline board first (offset :: offsets)
        (runs.map (slotMaps (stampMeasurement board (offsetDraw first offset)) results :: ·))

/-! ## Overlapped -/

/-- `slot_boards`. -/
def slotBoards (board : List (BoardEntry γ)) (first : UnitCache.MeasurementDraw) (count : Nat) :
    List (List (BoardEntry γ)) :=
  (List.range count).map fun offset => stampMeasurement board (offsetDraw first offset)

/-- The units of `_chain(position)`. -/
def chainUnits (slots : List (List (BoardEntry γ))) (first : UnitCache.MeasurementDraw)
    (position : Nat) : List (BoardEntry γ × UnitCache.MeasurementDraw) :=
  slots.zipIdx.filterMap fun slot =>
    slot.1[position]?.map fun entry => (entry, offsetDraw first slot.2)

/-- The chains of `_run_entry_replicate_chains`, one for each position of the first board. -/
def entryChains (slots : List (List (BoardEntry γ))) (first : UnitCache.MeasurementDraw) :
    List (List (BoardEntry γ × UnitCache.MeasurementDraw)) :=
  (List.range (slots.head?.elim 0 List.length)).map (chainUnits slots first)

/-- The maps of one slot, out of the results of the chains. -/
def foldSlot (board : List (BoardEntry γ)) (chains : List (List (L × L))) (offset : Nat) : Maps L :=
  (board.zip chains).foldl
    (fun maps e =>
      match e.2[offset]? with
      | some result => (maps.1.set e.1.id result.1, maps.2.set e.1.id result.2)
      | none => maps)
    ([], [])

/-- `_run_replicate_slots_full`: a unit of a chain ends as `_run_full_board_unit` does. -/
def OverlappedSlots (mu : Matchup γ L ε) (board : List (BoardEntry γ))
    (first : UnitCache.MeasurementDraw)
    (count : Nat) (outcome : Except ε (List (Maps L))) : Prop :=
  ∃ settled, Gathered (fun u o => decide (o = mu.runUnit u.1 u.2)) mu.permits
      (entryChains (slotBoards board first count) first) settled ∧
    outcome = (collect settled).map fun chains => (List.range count).map (foldSlot board chains)

end InTurn

/-! ## Loops that may raise -/

section Loops
variable {α β : Type}

theorem toOption_mapM (f : α → Except ε β) (l : List α) :
    (l.mapM f).toOption = l.mapM fun a => (f a).toOption := by
  induction l with
  | nil => rfl
  | cons a l ih =>
    rw [mapM_cons, mapM_cons, ← ih]
    cases f a with
    | error e => rfl
    | ok b =>
      cases l.mapM f with
      | error e => rfl
      | ok bs => rfl

theorem toOption_map {g : α → β} (x : Except ε α) : (x.map g).toOption = x.toOption.map g := by
  cases x <;> rfl

/-- A list is mapped if every item is. -/
theorem mapM_eq_some_iff {f : α → Option β} {l : List α} {bs : List β} :
    l.mapM f = some bs ↔ List.Forall₂ (fun a b => f a = some b) l bs := by
  induction l generalizing bs with
  | nil =>
    rw [mapM_nil, forall₂_nil_left_iff]
    exact ⟨fun h => (Option.some.inj h).symm, fun h => h ▸ rfl⟩
  | cons a l ih =>
    rw [mapM_cons, forall₂_cons_left_iff]
    constructor
    · intro h
      obtain ⟨b, hb, h⟩ := Option.bind_eq_some_iff.mp h
      obtain ⟨bs', hbs, h⟩ := Option.bind_eq_some_iff.mp h
      exact ⟨b, bs', hb, ih.mp hbs, (Option.some.inj h).symm⟩
    · rintro ⟨b, bs', hb, hbs, rfl⟩
      rw [hb, ih.mpr hbs]
      rfl

/-- A list is not mapped if some item is not. -/
theorem mapM_eq_none_iff {f : α → Option β} {l : List α} :
    l.mapM f = none ↔ ∃ a ∈ l, f a = none := by
  induction l with
  | nil => simp
  | cons a l ih =>
    rw [mapM_cons, exists_mem_cons_iff, ← ih]
    cases f a with
    | none => simp
    | some b =>
      cases l.mapM f with
      | none => simp
      | some bs => simp

theorem mapM_map_id (f : α → Except ε β) (l : List α) : (l.map f).mapM id = l.mapM f := by
  induction l with
  | nil => rfl
  | cons a l ih => rw [map_cons, mapM_cons, mapM_cons, ih, id]

end Loops

/-! ## The units -/

section Units
variable (mu : Matchup γ L ε) (board : List (BoardEntry γ)) (first : UnitCache.MeasurementDraw)

/-- What the unit of an entry in a slot returns, if it does not raise. -/
def unitAt (offset : Nat) (entry : BoardEntry γ) : Option (L × L) :=
  (mu.runUnit (stamp (offsetDraw first offset) entry) (offsetDraw first offset)).toOption

/-- **The slots of a matchup**: for every slot the losses of all entries, in the order
of the board. -/
def slotsOf (offsets : List Nat) : Option (List (Maps L)) :=
  offsets.mapM fun offset => (board.mapM (unitAt mu first offset)).map (slotMaps board)

variable {mu board first}

theorem slotMaps_stamp (m : UnitCache.MeasurementDraw) (results : List (L × L)) :
    slotMaps (stampMeasurement board m) results = slotMaps board results := by
  have hids : ∀ g : L × L → L, ((stampMeasurement board m).zip results).map
      (fun e => (e.1.id, g e.2)) = (board.zip results).map fun e => (e.1.id, g e.2) := by
    intro g
    rw [stampMeasurement, zip_map_left, map_map]
    rfl
  rw [slotMaps, slotMaps, hids Prod.fst, hids Prod.snd]

/-! ### In turn -/

variable [DecidableEq L] [DecidableEq ε]

variable {m : UnitCache.MeasurementDraw} {entries : List (BoardEntry γ)}

/-- Without a deadline and a ledger a slot is one gather over the board. -/
theorem toOption_of_scheduled (hledger : mu.hasLedger = false) {size : Nat}
    {results : Except ε (List (L × L))} (hsize : entries.length ≤ size)
    (h : Scheduled mu false m size false entries results) :
    results.toOption = entries.mapM fun entry => (mu.runUnit entry m).toOption := by
  have hone : ∀ entry o, bounded mu false m entry o = true → o = mu.runUnit entry m := by
    intro entry o ho
    simpa [bounded, hledger] using ho
  have hsettled : ∀ {settled}, Gathered (bounded mu false m) mu.permits
      ((entries.take size).map ([·])) settled →
      collect settled = (entries.mapM fun entry => mu.runUnit entry m).map (·.map ([·])) := by
    intro settled hgather
    rw [hgather.eq_map hone, take_of_length_le hsize, map_map, collect, mapM_map_id]
    clear hgather hsize h
    induction entries with
    | nil => rfl
    | cons entry entries ih =>
      rw [mapM_cons, mapM_cons, ih]
      simp only [Function.comp_apply, mapM_cons, mapM_nil]
      cases mu.runUnit entry m with
      | error e => rfl
      | ok r =>
        cases entries.mapM fun entry => mu.runUnit entry m with
        | error e => rfl
        | ok rs => rfl
  rw [← toOption_mapM]
  cases h with
  | nil => rfl
  | skipped hboard hspent hrest => cases hspent
  | raised hboard hspent hgather hraised =>
    rw [hsettled hgather] at hraised
    cases hall : entries.mapM fun entry => mu.runUnit entry m with
    | error e => rfl
    | ok rs =>
      rw [hall] at hraised
      cases hraised
  | batch hboard hspent hgather hreturned hrest =>
    rename_i check settled batch results
    rw [hsettled hgather] at hreturned
    rw [drop_of_length_le hsize] at hrest
    cases hall : entries.mapM fun entry => mu.runUnit entry m with
    | error e =>
      rw [hall] at hreturned
      cases hreturned
    | ok rs =>
      rw [hall] at hreturned
      obtain rfl := Except.ok.inj hreturned
      cases hrest with
      | nil =>
        change some ((rs.map ([·])).flatten ++ []) = some rs
        have hflat : ∀ l : List (L × L), (l.map ([·])).flatten = l := by
          intro l
          induction l with
          | nil => rfl
          | cons r l ih => rw [map_cons, flatten_cons, ih, singleton_append]
        rw [append_nil, hflat]
      | skipped hne => exact absurd rfl hne
      | raised hne => exact absurd rfl hne
      | batch hne => exact absurd rfl hne

variable {outcome : Except ε (List (Maps L))}

/-- Slots in turn give the boards of the slots. -/
theorem toOption_of_inTurn (hledger : mu.hasLedger = false) {offsets : List Nat}
    (h : SlotsInTurn mu false board first offsets outcome) :
    outcome.toOption = slotsOf mu board first offsets := by
  have hslot : ∀ {offset results}, Scheduled mu false (offsetDraw first offset)
      (batchSize mu false board) false (stampMeasurement board (offsetDraw first offset)) results →
      results.toOption = board.mapM (unitAt mu first offset) := by
    intro offset results hscheduled
    have hsize : (stampMeasurement board (offsetDraw first offset)).length ≤
        batchSize mu false board := by
      rw [stampMeasurement, length_map]
      exact Nat.le_max_right _ _
    rw [toOption_of_scheduled hledger hsize hscheduled, stampMeasurement, mapM_map]
    rfl
  induction h with
  | nil => rfl
  | raised h =>
    rename_i offset offsets e
    have hnone := hslot h
    rw [slotsOf, mapM_cons, ← hnone]
    rfl
  | slot h hrest ih =>
    rename_i offset offsets results runs
    have hsome := hslot h
    rw [slotsOf, mapM_cons, ← hsome, toOption_map, ih, slotMaps_stamp, slotsOf]
    cases offsets.mapM fun offset => (board.mapM (unitAt mu first offset)).map (slotMaps board) with
    | none => rfl
    | some runs => rfl

/-! ### Overlapped -/

/-- The units of an entry's chain. -/
theorem chainUnits_eq (count position : Nat) (entry : BoardEntry γ)
    (hentry : board[position]? = some entry) :
    chainUnits (slotBoards board first count) first position =
      (List.range count).map fun offset =>
        (stamp (offsetDraw first offset) entry, offsetDraw first offset) := by
  have hzip : (slotBoards board first count).zipIdx = (range count).map fun offset =>
      (stampMeasurement board (offsetDraw first offset), offset) := by
    refine ext_getElem? fun i => ?_
    by_cases hi : i < count
    · simp [slotBoards, hi]
    · simp [slotBoards, hi]
  rw [chainUnits, hzip, filterMap_map, ← filterMap_eq_map]
  refine filterMap_congr fun offset _ => ?_
  simp [stampMeasurement, hentry]

/-- One chain for each entry. -/
theorem entryChains_eq {count : Nat} (hcount : 0 < count) :
    entryChains (slotBoards board first count) first = board.map fun entry =>
      (List.range count).map fun offset =>
        (stamp (offsetDraw first offset) entry, offsetDraw first offset) := by
  have hhead : (slotBoards board first count).head?.elim 0 length = board.length := by
    obtain ⟨n, rfl⟩ := Nat.exists_eq_succ_of_ne_zero (Nat.ne_of_gt hcount)
    simp [slotBoards, range_succ_eq_map, stampMeasurement]
  rw [entryChains, hhead]
  refine ext_getElem? fun i => ?_
  by_cases hi : i < board.length
  · have hentry : board[i]? = some board[i] := getElem?_eq_getElem hi
    rw [getElem?_map, getElem?_map, getElem?_range hi, hentry, Option.map_some,
      Option.map_some, chainUnits_eq count i _ hentry]
  · rw [getElem?_eq_none (by simpa using hi), getElem?_eq_none (by simpa using hi)]

omit [DecidableEq L] in
/-- The board of a slot, put together from the chains. -/
theorem foldSlot_eq {offset : Nat} {chains : List (List (L × L))} {results : List (L × L)}
    (h : List.Forall₂ (fun chain r => chain[offset]? = some r) chains results)
    (board : List (BoardEntry γ)) : foldSlot board chains offset = slotMaps board results := by
  -- the two dicts are filled together, so the fold starts from any two of them
  have hfold : ∀ (board : List (BoardEntry γ)) (left right : Dict String L),
      (board.zip chains).foldl
        (fun maps e =>
          match e.2[offset]? with
          | some result => (maps.1.set e.1.id result.1, maps.2.set e.1.id result.2)
          | none => maps) (left, right) =
        (((board.zip results).map fun e => (e.1.id, e.2.1)).foldl
            (fun d item => d.set item.1 item.2) left,
          ((board.zip results).map fun e => (e.1.id, e.2.2)).foldl
            (fun d item => d.set item.1 item.2) right) := by
    intro board
    induction h generalizing board with
    | nil =>
      intro left right
      rw [zip_nil_right, zip_nil_right]
      rfl
    | cons hr hrest ih =>
      intro left right
      cases board with
      | nil => rfl
      | cons entry board =>
        simp only [zip_cons_cons, foldl_cons, map_cons, hr]
        exact ih board _ _
  exact hfold board [] []

omit [DecidableEq L] in
/-- The maps of the overlapped slots are those of the slots one by one. -/
theorem mapM_transpose (board : List (BoardEntry γ)) (ev : Nat → BoardEntry γ → Option (L × L))
    (count : Nat) :
    (board.mapM fun entry => (List.range count).mapM fun offset => ev offset entry).map
        (fun chains => (List.range count).map (foldSlot board chains)) =
      (List.range count).mapM fun offset => (board.mapM (ev offset)).map (slotMaps board) := by
  cases hall : board.mapM fun entry => (range count).mapM fun offset => ev offset entry with
  | none =>
    obtain ⟨entry, hentry, hnone⟩ := mapM_eq_none_iff.mp hall
    obtain ⟨offset, hoffset, hnone⟩ := mapM_eq_none_iff.mp hnone
    refine (mapM_eq_none_iff.mpr ⟨offset, hoffset, ?_⟩).symm
    rw [mapM_eq_none_iff.mpr ⟨entry, hentry, hnone⟩]
    rfl
  | some chains =>
    have hchains := mapM_eq_some_iff.mp hall
    refine (mapM_eq_some_iff.mpr ?_).symm
    rw [forall₂_map_right_iff, forall₂_same]
    intro offset hoffset
    have hlt : offset < count := mem_range.mp hoffset
    -- the results of the slot are the ones at its index of the chains
    obtain ⟨results, hev, hget⟩ : ∃ results,
        Forall₂ (fun entry r => ev offset entry = some r) board results ∧
          Forall₂ (fun (chain : List (L × L)) r => chain[offset]? = some r) chains results := by
      clear hall
      induction hchains with
      | nil => exact ⟨[], .nil, .nil⟩
      | cons hchain hrest ih =>
        obtain ⟨results, hev, hget⟩ := ih
        have hforall := mapM_eq_some_iff.mp hchain
        rw [forall₂_iff_get] at hforall
        obtain ⟨hlength, hforall⟩ := hforall
        rw [length_range] at hlength
        have hr := hforall offset (by simpa using hlt) (hlength ▸ hlt)
        simp only [get_eq_getElem, getElem_range] at hr
        exact ⟨_, .cons hr hev, .cons (getElem?_eq_getElem _) hget⟩
    rw [mapM_eq_some_iff.mpr hev, foldSlot_eq hget]
    rfl

/-- Overlapped slots give the boards of the slots. -/
theorem toOption_of_overlapped {count : Nat} (h : OverlappedSlots mu board first count outcome) :
    outcome.toOption = slotsOf mu board first (List.range count) := by
  obtain ⟨settled, hgather, rfl⟩ := h
  have hone : ∀ (u : BoardEntry γ × UnitCache.MeasurementDraw) (o : Except ε (L × L)),
      decide (o = mu.runUnit u.1 u.2) = true → o = mu.runUnit u.1 u.2 := by
    intro u o ho
    exact of_decide_eq_true ho
  have hunits : ∀ l : List (List (BoardEntry γ × UnitCache.MeasurementDraw)),
      (collect (l.map (mapM fun u => mu.runUnit u.1 u.2))).toOption =
        l.mapM fun us => us.mapM fun u => (mu.runUnit u.1 u.2).toOption := by
    intro l
    rw [collect, mapM_map_id, toOption_mapM]
    congr 1
    funext us
    exact toOption_mapM _ us
  rcases Nat.eq_zero_or_pos count with rfl | hcount
  · rw [hgather.eq_map hone]
    rfl
  rw [toOption_map, hgather.eq_map hone, hunits, entryChains_eq hcount, mapM_map, slotsOf,
    ← mapM_transpose]
  congr 2
  funext entry
  exact mapM_map ..

/-! ### Both return -/

theorem exists_overlapped (hpermits : 0 < mu.permits) (count : Nat) :
    ∃ outcome, OverlappedSlots mu board first count outcome := by
  have hout : ∀ u : BoardEntry γ × UnitCache.MeasurementDraw,
      ∃ o : Except ε (L × L), decide (o = mu.runUnit u.1 u.2) = true :=
    fun u => ⟨mu.runUnit u.1 u.2, decide_eq_true rfl⟩
  obtain ⟨settled, hgather⟩ := exists_gathered hout hpermits
    (entryChains (slotBoards board first count) first)
  exact ⟨_, settled, hgather, rfl⟩

/-- Every board can be run to its end. -/
theorem exists_scheduled (hpermits : 0 < mu.permits) {deadline : Bool} {size : Nat}
    (hsize : entries.length ≤ size) :
    ∃ results, Scheduled mu deadline m size false entries results := by
  by_cases hboard : entries = []
  · subst hboard
    exact ⟨_, .nil false⟩
  · have hout : ∀ entry, ∃ o, bounded mu deadline m entry o = true :=
      fun entry => ⟨mu.runUnit entry m, by simp [bounded]⟩
    obtain ⟨settled, hgather⟩ := exists_gathered hout hpermits ((entries.take size).map ([·]))
    have hspent : (false || (deadline && false)) = false := by simp
    cases hcollect : collect settled with
    | error e => exact ⟨_, .raised hboard hspent hgather hcollect⟩
    | ok batch =>
      have hrest : Scheduled mu deadline m size false (entries.drop size) (.ok []) := by
        rw [drop_of_length_le hsize]
        exact .nil false
      exact ⟨_, .batch hboard hspent hgather hcollect hrest⟩

/-- So can every list of slots. -/
theorem exists_inTurn (hpermits : 0 < mu.permits) (offsets : List Nat) :
    ∃ outcome, SlotsInTurn mu false board first offsets outcome := by
  induction offsets with
  | nil => exact ⟨_, .nil⟩
  | cons offset offsets ih =>
    obtain ⟨runs, hruns⟩ := ih
    have hsize : (stampMeasurement board (offsetDraw first offset)).length ≤
        batchSize mu false board := by
      rw [stampMeasurement, length_map]
      exact Nat.le_max_right _ _
    obtain ⟨results, hresults⟩ := exists_scheduled hpermits hsize
    cases results with
    | error e => exact ⟨_, .raised hresults⟩
    | ok results => exact ⟨_, .slot hresults hruns⟩

end Units

/-! ## The maps -/

section Keys
variable {α : Type}

theorem mem_keys_set {d : Dict String α} {k k' : String} {v : α} :
    k' ∈ (d.set k v).keys ↔ k' = k ∨ k' ∈ d.keys := by
  rw [← not_iff_not, ← get?_eq_none_iff, get?_set, not_or, ← get?_eq_none_iff]
  by_cases h : k = k'
  · simp [h]
  · simp [h, Ne.symm h]

/-- The keys of the items, each once. -/
theorem keys_dictOf (items : List (String × α)) :
    (dictOf items).keys.Nodup ∧ ∀ k, k ∈ (dictOf items).keys ↔ ∃ item ∈ items, item.1 = k := by
  have hfold : ∀ (d : Dict String α), d.keys.Nodup →
      (items.foldl (fun d item => d.set item.1 item.2) d).keys.Nodup ∧
        ∀ k, k ∈ (items.foldl (fun d item => d.set item.1 item.2) d).keys ↔
          k ∈ d.keys ∨ ∃ item ∈ items, item.1 = k := by
    induction items with
    | nil => intro d hd; simpa using hd
    | cons item items ih =>
      intro d hd
      obtain ⟨hnodup, hmem⟩ := ih _ (nodup_keys_set hd item.1 item.2)
      refine ⟨hnodup, ?_⟩
      intro k
      rw [foldl_cons, hmem, mem_keys_set, exists_mem_cons_iff, eq_comm]
      tauto
  obtain ⟨hnodup, hmem⟩ := hfold [] nodup_nil
  refine ⟨hnodup, fun k => (hmem k).trans ?_⟩
  exact or_iff_right (by simp [Dict.keys])

/-- Items with distinct keys are the dict. -/
theorem dictOf_eq_self {items : List (String × α)} (h : (items.map Prod.fst).Nodup) :
    dictOf items = items := by
  have hfold : ∀ (d : Dict String α), (∀ item ∈ items, item.1 ∉ d.keys) →
      items.foldl (fun d item => d.set item.1 item.2) d = d ++ items := by
    induction items with
    | nil => intro d _; simp
    | cons item items ih =>
      intro d hd
      obtain ⟨hfirst, hrest⟩ := forall_mem_cons.mp hd
      rw [map_cons, nodup_cons] at h
      rw [foldl_cons, set_append d _ _ hfirst, ih h.2, List.append_assoc]
      · rfl
      · intro other hother hmem
        rw [Dict.keys, map_append, mem_append] at hmem
        rcases hmem with hmem | hmem
        · exact hrest other hother hmem
        · have heq : other.1 = item.1 := mem_singleton.mp hmem
          exact h.1 (heq ▸ mem_map_of_mem hother)
  exact hfold [] (by simp [Dict.keys])

end Keys

/-- A map has one result for every entry of the board and nothing else; where the ids
of the board are distinct, in its order. -/
structure Covers (board : List (BoardEntry γ)) (losses : Dict String L) : Prop where
  once : losses.keys.Nodup
  all : ∀ id, id ∈ losses.keys ↔ ∃ entry ∈ board, entry.id = id
  order : (board.map (·.id)).Nodup → losses.keys = board.map (·.id)

/-- The boards of a slot have every entry. -/
theorem covers_slotMaps {board : List (BoardEntry γ)} {results : List (L × L)}
    (hlength : results.length = board.length) :
    Covers board (slotMaps board results).1 ∧ Covers board (slotMaps board results).2 := by
  have hside : ∀ g : L × L → L,
      Covers board (dictOf ((board.zip results).map fun e => (e.1.id, g e.2))) := by
    intro g
    have hids : ((board.zip results).map fun e => (e.1.id, g e.2)).map Prod.fst =
        board.map (·.id) := by
      rw [map_map]
      conv_rhs => rw [← map_fst_zip (Nat.le_of_eq hlength.symm), map_map]
      rfl
    obtain ⟨hnodup, hmem⟩ := keys_dictOf ((board.zip results).map fun e => (e.1.id, g e.2))
    refine ⟨hnodup, ?_, ?_⟩
    · intro id
      rw [hmem]
      have : (∃ item ∈ (board.zip results).map (fun e => (e.1.id, g e.2)), item.1 = id) ↔
          id ∈ ((board.zip results).map fun e => (e.1.id, g e.2)).map Prod.fst := by
        rw [mem_map]
      rw [this, hids, mem_map]
    · intro hdistinct
      rw [dictOf_eq_self (hids ▸ hdistinct), Dict.keys, hids]
  exact ⟨hside Prod.fst, hside Prod.snd⟩

/-- **The two schedules.**  Where the slots of a matchup may overlap, running them as
chains and running them in turn give the same maps, in whatever order the units end:
one pair of maps for every slot, each with one result for every entry of the board.
Both return, and with the results of the units given they return exactly these. -/
theorem replicate_schedules_agree [DecidableEq L] [DecidableEq ε] (mu : Matchup γ L ε)
    (deadline : Bool) (board : List (BoardEntry γ)) (first : UnitCache.MeasurementDraw)
    (count : Nat)
    (hoverlap : overlapReplicateSlots mu deadline = true) :
    (∀ overlapped inTurn, OverlappedSlots mu board first count overlapped →
      SlotsInTurn mu deadline board first (List.range count) inTurn →
      overlapped.toOption = inTurn.toOption) ∧
    (∀ runs, OverlappedSlots mu board first count (.ok runs) →
      runs.length = count ∧ ∀ maps ∈ runs, Covers board maps.1 ∧ Covers board maps.2) ∧
    (∀ result : Nat → BoardEntry γ → L × L,
      (∀ offset < count, ∀ entry ∈ board, mu.runUnit (stamp (offsetDraw first offset) entry)
        (offsetDraw first offset) = .ok (result offset entry)) →
      ∀ overlapped inTurn, OverlappedSlots mu board first count overlapped →
        SlotsInTurn mu deadline board first (List.range count) inTurn →
        overlapped = .ok ((List.range count).map fun offset =>
          slotMaps board (board.map (result offset))) ∧ inTurn = overlapped) ∧
    (0 < mu.permits → (∃ overlapped, OverlappedSlots mu board first count overlapped) ∧
      ∃ inTurn, SlotsInTurn mu deadline board first (List.range count) inTurn) := by
  obtain ⟨rfl, hledger⟩ : deadline = false ∧ mu.hasLedger = false := by
    simpa [overlapReplicateSlots] using hoverlap
  refine ⟨?_, ?_, ?_, ?_⟩
  · intro overlapped inTurn ha hb
    rw [toOption_of_overlapped ha, toOption_of_inTurn hledger hb]
  · intro runs ha
    have hruns : slotsOf mu board first (List.range count) = some runs :=
      (toOption_of_overlapped ha).symm
    have hall := mapM_eq_some_iff.mp hruns
    refine ⟨by rw [← hall.length_eq, List.length_range], ?_⟩
    intro maps hmaps
    obtain ⟨hlen, hget⟩ := List.forall₂_iff_get.mp hall
    obtain ⟨i, hi, rfl⟩ := List.getElem_of_mem hmaps
    have hslot := hget i (hlen ▸ hi) hi
    obtain ⟨results, hresults, hmap⟩ := Option.map_eq_some_iff.mp hslot
    rw [List.get_eq_getElem] at hmap
    rw [← hmap]
    exact covers_slotMaps (mapM_eq_some_iff.mp hresults).length_eq.symm
  · intro result hresult overlapped inTurn ha hb
    have hslots : slotsOf mu board first (List.range count) =
        some ((List.range count).map fun offset => slotMaps board (board.map (result offset))) := by
      refine mapM_eq_some_iff.mpr ?_
      rw [List.forall₂_map_right_iff, List.forall₂_same]
      intro offset hoffset
      have hboard : board.mapM (unitAt mu first offset) = some (board.map (result offset)) := by
        refine mapM_eq_some_iff.mpr ?_
        rw [List.forall₂_map_right_iff, List.forall₂_same]
        intro entry hentry
        rw [unitAt, hresult offset (List.mem_range.mp hoffset) entry hentry]
        rfl
      rw [hboard]
      rfl
    have hok := ok_of_toOption ((toOption_of_overlapped ha).trans hslots)
    exact ⟨hok, (ok_of_toOption ((toOption_of_inTurn hledger hb).trans hslots)).trans hok.symm⟩
  · intro hpermits
    exact ⟨exists_overlapped hpermits count, exists_inTurn hpermits (List.range count)⟩

/-! ### Two entries, two slots -/

/-- The loss of a unit is its draw, with the side of the matchup. -/
def demoMatchup : Matchup Unit (Nat × Bool) String where
  parallelism := 2
  permits := 2
  hasLedger := false
  runUnit _ m := .ok ((m.draw, false), (m.draw, true))
  skipUnit _ m := ((m.draw, false), (m.draw, true))

/-- A board of two entries. -/
def demoBoard : List (BoardEntry Unit) := [⟨"t1", [], ()⟩, ⟨"t2", [], ()⟩]

theorem replicate_schedules_agree_demo :
    ∃ runs, OverlappedSlots demoMatchup demoBoard ⟨.tournament, 0, none⟩ 2 (.ok runs) ∧
      SlotsInTurn demoMatchup false demoBoard ⟨.tournament, 0, none⟩ (List.range 2) (.ok runs) ∧
      runs =
        [([("t1", (0, false)), ("t2", (0, false))], [("t1", (0, true)), ("t2", (0, true))]),
          ([("t1", (1, false)), ("t2", (1, false))], [("t1", (1, true)), ("t2", (1, true))])] := by
  have hoverlap : overlapReplicateSlots demoMatchup false = true := by decide
  obtain ⟨-, -, hgiven, hreturn⟩ :=
    replicate_schedules_agree demoMatchup false demoBoard ⟨.tournament, 0, none⟩ 2 hoverlap
  obtain ⟨⟨overlapped, ha⟩, inTurn, hb⟩ := hreturn (by decide)
  obtain ⟨rfl, rfl⟩ := hgiven (fun offset _ => ((offset, false), (offset, true)))
    (by intro offset _ entry _; simp [demoMatchup, offsetDraw]) overlapped inTurn ha hb
  exact ⟨_, ha, hb, by decide⟩

end Zicato.Replicates
