import Zicato.DoubleElim
import Zicato.Gauntlet
import Zicato.Racing
import Zicato.Swiss

/-! # Tournaments

The registry of selection structures and what holds of every tournament they
run: the loop ends in exactly one crowning duel, which ids repeat, and the books
the two elimination structures keep. -/
namespace Zicato

/-- The structures that narrow a field down to one crowning duel, with their
params. -/
inductive FieldStructure (F : Type)
  | singleElim (params : ElimParams)
  | doubleElim (params : ElimParams)
  | swiss (params : SwissParams)
  | racing (params : RacingParams F)

/-- Every registered structure. -/
inductive TournamentStructure (F : Type)
  | gauntlet (replicates : Nat)
  | field (st : FieldStructure F)

variable {F : Type} [PyFloat F] (fits : StandingsExt F) (rext : RacingExt F)

/-- The class the registries hold for a structure, constructed with its params. -/
def FieldStructure.strategy : FieldStructure F → SelectionStrategy F
  | singleElim params => SingleElim.strategy fits params
  | doubleElim params => DoubleElim.strategy fits params
  | swiss params => Swiss.strategy fits params
  | racing params => Racing.strategy fits rext params

/-- `_final_match_id`. -/
def FieldStructure.finalMatchId : FieldStructure F → String
  | singleElim _ => SingleElim.finalMatchId
  | doubleElim _ => DoubleElim.finalMatchId
  | swiss _ => Swiss.finalMatchId
  | racing _ => Racing.finalMatchId

/-- `make_strategy`. -/
def makeStrategy : TournamentStructure F → SelectionStrategy F
  | .gauntlet replicates => Gauntlet.strategy replicates
  | .field st => st.strategy fits rext

def TournamentStructure.isDoubleElim : TournamentStructure F → Bool
  | .field (.doubleElim _) => true
  | _ => false

/-! ## A small field

The concrete runs below use exact scalars and a runner that measures no
difference, so every duel goes to its left side. -/

def generation (id : String) : Contestant := { generationId := id, role := .challenger }

def incumbent : Contestant := { generationId := "v0", role := .champion }

def noRatings : StandingsExt Exact := { ratingOrder := fun _ => [], resolverLeader := fun _ _ => none }

def noDetectableEffect : RacingExt Exact where
  sha256 _ := []
  unitSd x _ := x
  minimumDetectableEffect _ _ := none

def tiedBody : ResultBody Exact where
  leftAgg := { scalar := some (.fin 0) }
  rightAgg := { scalar := some (.fin 0) }
  outcome := { decision := .rejected, reason := "no improvement", deltaScalar := .fin 0
               deltaPassRate := .fin 0 }

/-! ## The crowning duel -/

/-- **Every tournament ends with exactly one crowning duel.**  Whatever the
runner measures, the loop ends; exactly one scheduled duel carries the final id,
between the champion and a challenger; and a generation is promoted exactly when
the gate promoted in that duel, namely its challenger. -/
theorem exactly_one_crowning_duel (st : FieldStructure F) (champion : Contestant)
    (challengers : List Contestant) (hne : challengers ≠ [])
    (hids : ((champion :: challengers).map (·.generationId)).Nodup)
    (run : Nat → Matchup F → ResultBody F) :
    ∃ s₀, (st.strategy fits rext).seed champion challengers = .ok s₀ ∧
      ∃ played decision, (st.strategy fits rext).Ends run s₀ played decision ∧
        ∃ d, ChampionGate.Crowned st.finalMatchId champion challengers played decision d := by
  cases st with
  | singleElim params =>
    obtain ⟨played, s, hstop, hends⟩ := SingleElim.ends fits params champion challengers run
    exact ⟨_, rfl, played, _, hends, SingleElim.crowned fits params hne hstop⟩
  | doubleElim params =>
    obtain ⟨played, s, hstop, hends⟩ := DoubleElim.ends fits params champion challengers run
    exact ⟨_, rfl, played, _, hends, DoubleElim.crowned fits params hne hstop⟩
  | swiss params =>
    obtain ⟨c, hc⟩ := List.exists_mem_of_ne_nil challengers hne
    have hdiff : c.generationId ≠ champion.generationId := by
      intro he
      exact (List.nodup_cons.mp hids).1 (List.mem_map.mpr ⟨c, hc, he⟩)
    obtain ⟨played, s, hstop, hends⟩ := Swiss.ends fits params champion challengers run
    exact ⟨_, rfl, played, _, hends, Swiss.crowned fits params hc hdiff hstop⟩
  | racing params =>
    obtain ⟨played, s, hstop, hends⟩ := Racing.ends fits rext params champion challengers run
    exact ⟨_, rfl, played, _, hends, Racing.crowned fits rext params hne hstop⟩

theorem exactly_one_crowning_duel_racing : ∃ s₀,
    ((FieldStructure.racing { boardFraction := .fin (1 / 4), boardIds := ["a", "b", "c"] }).strategy
      noRatings noDetectableEffect).seed incumbent [generation "v1", generation "v2"] = .ok s₀ ∧
      ∃ played decision,
        ((FieldStructure.racing { boardFraction := .fin (1 / 4)
                                  boardIds := ["a", "b", "c"] }).strategy
          noRatings noDetectableEffect).Ends (fun _ _ => tiedBody) s₀ played decision ∧
        ∃ d, ChampionGate.Crowned "racing-final" incumbent [generation "v1", generation "v2"]
          played decision d :=
  exactly_one_crowning_duel noRatings noDetectableEffect
    (.racing { boardFraction := .fin (1 / 4), boardIds := ["a", "b", "c"] }) incumbent
    [generation "v1", generation "v2"] (by decide) (by decide) fun _ _ => tiedBody

/-! ## Matchup ids -/

section Ids
variable (champion : Contestant) (challengers : List Contestant)
  (run : Nat → Matchup F → ResultBody F)

omit [PyFloat F] in
/-- With nothing in flight the played duels are all that was scheduled. -/
theorem played_ids_nodup {played : List (Duel F)}
    (h : ((scheduledMatchups played []).map (·.matchupId)).Nodup) :
    (played.map (·.1.matchupId)).Nodup := by
  simpa [scheduledMatchups, Function.comp_def] using h

theorem SingleElim.ends_ids_nodup (params : ElimParams) : ∃ played decision,
    (SingleElim.strategy fits params).Ends run (SingleElim.seed params champion challengers)
      played decision ∧ (played.map (·.1.matchupId)).Nodup := by
  obtain ⟨played, s, hstop, hends⟩ := SingleElim.ends fits params champion challengers run
  exact ⟨played, _, hends, played_ids_nodup (SingleElim.ids_nodup fits params hstop.1)⟩

theorem DoubleElim.ends_ids_nodup_iff (params : ElimParams) : ∃ played decision,
    (DoubleElim.strategy fits params).Ends run (DoubleElim.seed params champion challengers)
      played decision ∧ ((played.map (·.1.matchupId)).Nodup ↔ challengers.length ≤ 2) := by
  obtain ⟨played, s, hstop, hends⟩ := DoubleElim.ends fits params champion challengers run
  refine ⟨played, _, hends, fun hnd => ?_, fun hlen => ?_⟩
  · by_contra hlen
    exact DoubleElim.ids_not_nodup fits params (by omega) hstop hnd
  · exact played_ids_nodup (DoubleElim.ids_nodup fits params hlen hstop.1)

theorem Swiss.ends_ids_nodup (params : SwissParams) : ∃ played decision,
    (Swiss.strategy fits params).Ends run (Swiss.seed params champion challengers)
      played decision ∧ (played.map (·.1.matchupId)).Nodup := by
  obtain ⟨played, s, hstop, hends⟩ := Swiss.ends fits params champion challengers run
  exact ⟨played, _, hends, played_ids_nodup (Swiss.ids_nodup fits params hstop.1)⟩

theorem Racing.ends_ids_nodup (params : RacingParams F) : ∃ played decision,
    (Racing.strategy fits rext params).Ends run (Racing.seed rext params champion challengers)
      played decision ∧ (played.map (·.1.matchupId)).Nodup := by
  obtain ⟨played, s, hstop, hends⟩ := Racing.ends fits rext params champion challengers run
  exact ⟨played, _, hends, played_ids_nodup (Racing.ids_nodup fits rext params hstop.1)⟩

/-- A gauntlet ends, and no id occurs twice. -/
theorem Gauntlet.ends_ids_nodup (replicates : Nat) {s₀ : Gauntlet F}
    (hseed : Gauntlet.seed replicates champion challengers = .ok s₀) : ∃ played decision,
    (Gauntlet.strategy replicates).Ends run s₀ played decision ∧
      (played.map (·.1.matchupId)).Nodup := by
  have hfresh : s₀.scheduled = false ∧ s₀.result = none := by
    cases challengers with
    | nil => cases hseed
    | cons c rest =>
      cases hseed
      exact ⟨rfl, rfl⟩
  have hone : ∀ played queue s, (Gauntlet.strategy replicates).Reachable s₀ played queue s →
      played.length + queue.length ≤ 1 := by
    intro played queue s h
    have hlen := Gauntlet.reachable_cases hfresh h
    rw [scheduledMatchups, List.length_append, List.length_map] at hlen
    rw [hlen]
    split <;> omega
  obtain ⟨played, s, hstop, hends⟩ := (Gauntlet.strategy replicates).ends_of_bound (B := 1) run
    fun played queue s h => by
      have := hone played queue s h
      omega
  have hlen := hone played [] s hstop.1
  exact ⟨played, _, hends, played_ids_nodup (ids_nodup_of_length_le_one (by simpa [scheduledMatchups] using hlen))⟩

end Ids

/-- **When matchup ids repeat.**  Every run of every structure ends, and the ids
it scheduled are distinct exactly when the structure is not double elimination
or the field has at most two challengers. -/
theorem matchup_ids_distinct_iff (st : TournamentStructure F) (champion : Contestant)
    (challengers : List Contestant) (run : Nat → Matchup F → ResultBody F)
    (s₀ : (makeStrategy fits rext st).State)
    (hseed : (makeStrategy fits rext st).seed champion challengers = .ok s₀) :
    ∃ played decision, (makeStrategy fits rext st).Ends run s₀ played decision ∧
      ((played.map (·.1.matchupId)).Nodup ↔
        st.isDoubleElim = false ∨ challengers.length ≤ 2) := by
  match st with
  | .gauntlet replicates =>
    obtain ⟨played, decision, hends, hnd⟩ :=
      Gauntlet.ends_ids_nodup champion challengers run replicates hseed
    exact ⟨played, decision, hends, fun _ => Or.inl rfl, fun _ => hnd⟩
  | .field (.singleElim params) =>
    cases hseed
    obtain ⟨played, decision, hends, hnd⟩ :=
      SingleElim.ends_ids_nodup fits champion challengers run params
    exact ⟨played, decision, hends, fun _ => Or.inl rfl, fun _ => hnd⟩
  | .field (.doubleElim params) =>
    cases hseed
    obtain ⟨played, decision, hends, hiff⟩ :=
      DoubleElim.ends_ids_nodup_iff fits champion challengers run params
    refine ⟨played, decision, hends, fun hnd => Or.inr (hiff.mp hnd), fun hcond => ?_⟩
    rcases hcond with hf | hlen
    · cases hf
    · exact hiff.mpr hlen
  | .field (.swiss params) =>
    cases hseed
    obtain ⟨played, decision, hends, hnd⟩ :=
      Swiss.ends_ids_nodup fits champion challengers run params
    exact ⟨played, decision, hends, fun _ => Or.inl rfl, fun _ => hnd⟩
  | .field (.racing params) =>
    cases hseed
    obtain ⟨played, decision, hends, hnd⟩ :=
      Racing.ends_ids_nodup fits rext champion challengers run params
    exact ⟨played, decision, hends, fun _ => Or.inl rfl, fun _ => hnd⟩

theorem matchup_ids_distinct_single_elim : ∃ played decision,
    (makeStrategy noRatings noDetectableEffect (.field (.singleElim {}))).Ends
        (fun _ _ => tiedBody)
        (SingleElim.seed {} incumbent [generation "v1", generation "v2", generation "v3"])
        played decision ∧
      ((played.map (·.1.matchupId)).Nodup ↔
        (TournamentStructure.field (F := Exact) (.singleElim {})).isDoubleElim = false ∨
          [generation "v1", generation "v2", generation "v3"].length ≤ 2) :=
  matchup_ids_distinct_iff noRatings noDetectableEffect (.field (.singleElim {})) incumbent
    [generation "v1", generation "v2", generation "v3"] (fun _ _ => tiedBody) _ rfl

/-- Three challengers in a double elimination: the two rounds of the winners'
bracket schedule the same id. -/
theorem double_elim_repeats_matchup_id : ∃ played decision,
    (makeStrategy noRatings noDetectableEffect (.field (.doubleElim {}))).evaluateTournament
        (fun _ _ => tiedBody) 9
        (DoubleElim.seed {} incumbent [generation "v1", generation "v2", generation "v3"]) =
      some (played, decision) ∧
      played.map (·.1.matchupId) = ["WB-R0-0", "WB-R0-0", "LB-R1-0", "GF"] ∧
      ¬ (played.map (·.1.matchupId)).Nodup := by
  have hrun : ((DoubleElim.strategy noRatings {}).evaluateLoop (fun _ _ => tiedBody) 9 0
      (DoubleElim.seed {} incumbent [generation "v1", generation "v2", generation "v3"]) []).map
      (fun o => o.1.map (·.1.matchupId)) = some ["WB-R0-0", "WB-R0-0", "LB-R1-0", "GF"] := by
    decide
  obtain ⟨o, ho, hids⟩ := Option.map_eq_some_iff.mp hrun
  refine ⟨o.1, (DoubleElim.strategy noRatings {}).champion o.2, ?_, hids, ?_⟩
  · change ((DoubleElim.strategy noRatings {}).evaluateLoop _ 9 0 _ []).map _ = _
    rw [ho]
    rfl
  · rw [hids]
    decide

/-! ## Elimination books -/

/-- **Elimination bookkeeping.**  A single elimination of `n` challengers plays
`n - 1` node duels, and everybody but the survivor loses exactly one.  A double
elimination marks a challenger eliminated exactly on its second node loss, never
schedules an eliminated one or one against itself, plays `2n - 3` node duels
(none for one challenger), and sends one challenger without a node loss and one
with one to the grand final. -/
theorem elimination_bookkeeping (params : ElimParams) (champion : Contestant)
    (field : List Contestant) (hne : field ≠ []) (hids : (field.map (·.generationId)).Nodup) :
    (∀ run, ∃ played s,
      (SingleElim.strategy fits params).Stopped (SingleElim.seed params champion field) played s ∧
      (SingleElim.strategy fits params).Ends run (SingleElim.seed params champion field) played
        (SingleElim.champion fits s) ∧
      (ChampionGate.nodeDuels SingleElim.finalMatchId played).length = field.length - 1 ∧
      ∃ w ∈ field, s.currentRound = [w] ∧
        nodeLosses SingleElim.finalMatchId played w.generationId = 0 ∧
        ∀ c ∈ field, c ≠ w → nodeLosses SingleElim.finalMatchId played c.generationId = 1) ∧
    (∀ played queue s,
      (DoubleElim.strategy fits params).Reachable (DoubleElim.seed params champion field)
        played queue s →
      (∀ c ∈ field, c.generationId ∈ s.eliminated ↔
        nodeLosses DoubleElim.finalMatchId played c.generationId = 2) ∧
      (∀ m ∈ queue, m.matchupId ≠ DoubleElim.finalMatchId →
        m.left.generationId ≠ m.right.generationId ∧ m.left ∈ field ∧ m.right ∈ field ∧
          m.left.generationId ∉ s.eliminated ∧ m.right.generationId ∉ s.eliminated) ∧
      (s.gate.finalScheduled = true →
        field.countP (fun c => c.generationId ∉ s.eliminated) = min field.length 2 ∧
        field.countP (fun c => nodeLosses DoubleElim.finalMatchId played c.generationId = 0) = 1 ∧
        field.countP (fun c => nodeLosses DoubleElim.finalMatchId played c.generationId = 1) =
          if 2 ≤ field.length then 1 else 0)) ∧
    (∀ run, ∃ played s,
      (DoubleElim.strategy fits params).Stopped (DoubleElim.seed params champion field) played s ∧
      (DoubleElim.strategy fits params).Ends run (DoubleElim.seed params champion field) played
        (DoubleElim.champion fits s) ∧
      s.gate.finalScheduled = true ∧
      (ChampionGate.nodeDuels DoubleElim.finalMatchId played).length =
        if 2 ≤ field.length then 2 * field.length - 3 else 0) := by
  refine ⟨fun run => ?_, fun played queue s h => ⟨fun c _ => ?_, fun m hm hnode => ?_, fun hs => ?_⟩,
    fun run => ?_⟩
  · obtain ⟨played, s, hstop, hends⟩ := SingleElim.ends fits params champion field run
    obtain ⟨stages, hinv⟩ := SingleElim.inv_reachable fits params hstop.1
    have hs := hinv.crowning.finalScheduled (SingleElim.finalResult_of_stopped fits params hne hstop)
    exact ⟨played, s, hstop, hends, SingleElim.bookkeeping fits params hids hne hstop.1 hs⟩
  · exact (DoubleElim.eliminated_iff fits params hids h c.generationId).1
  · exact DoubleElim.queue_in_play fits params hids h hm hnode
  · exact DoubleElim.survivors fits params hids h hs
  · obtain ⟨played, s, hstop, hends⟩ := DoubleElim.ends fits params champion field run
    obtain ⟨wb, lb, hinv⟩ := DoubleElim.inv_reachable fits params hstop.1
    have hs := hinv.crowning.finalScheduled (DoubleElim.finalResult_of_stopped fits params hne hstop)
    refine ⟨played, s, hstop, hends, hs, ?_⟩
    rw [DoubleElim.nodeDuels_length fits params hstop.1 hs]
    have := List.length_pos_of_ne_nil hne
    split <;> omega

/-- Three challengers whose duels are all ties. -/
theorem elimination_bookkeeping_three : ∃ played s,
    (SingleElim.strategy noRatings {}).Stopped
        (SingleElim.seed {} incumbent [generation "v1", generation "v2", generation "v3"]) played s ∧
      (ChampionGate.nodeDuels SingleElim.finalMatchId played).length = 2 := by
  obtain ⟨played, s, hstop, -, hlen, -⟩ := (elimination_bookkeeping noRatings {} incumbent
    [generation "v1", generation "v2", generation "v3"] (by decide) (by decide)).1
      fun _ _ => tiedBody
  exact ⟨played, s, hstop, hlen⟩

end Zicato
