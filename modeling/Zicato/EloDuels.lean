import Zicato.Elo

/-! # How often a duel is rated

A settled tournament is written to the index as one crowning row for each
challenger, from `_match_records` of `zicato/evolve/settlement.py`, and one row
for the field, by `zicato/index/ingest.py`.  Games are told apart by the id of
their row, so a duel is rated once for each row that describes it. -/
open List
namespace Zicato.Elo

/-! ## Settled tournaments -/

/-- A matchup of the decision; the delta is the right side's scalar less the left's. -/
structure Duel where
  matchId : String
  left : String
  right : String
  delta : ℚ
  deriving DecidableEq

/-- `MatchupResult.lower_scalar_id`. -/
def Duel.lowerScalarId (d : Duel) : String := if d.delta < 0 then d.right else d.left

/-- A challenger with its outcome. -/
structure Challenger where
  generationId : String
  decision : String
  scalarScoreDelta : ℚ
  ranAt : String := ""
  deriving DecidableEq

/-- A settled tournament: the matchups of its decision and its bracket. -/
structure SettledTournament where
  epochId : String
  parentId : String
  challengers : List Challenger
  duels : List Duel
  bracket : List (List BracketMatch)
  decision : String := ""
  deltaScalar : Option ℚ := none
  ranAt : String := ""
  deriving DecidableEq

namespace SettledTournament
variable (t : SettledTournament)

/-- The audit of a duel from the perspective of a generation. -/
def matchOutcomes (gid : String) (d : Duel) : List RoundItem :=
  (if d.left = gid then
      [{ matchId := d.matchId, opponent := d.right, won := d.lowerScalarId == d.left,
         deltaScalar := some (-d.delta) }]
    else []) ++
  (if d.right = gid then
      [{ matchId := d.matchId, opponent := d.left, won := d.lowerScalarId == d.right,
         deltaScalar := some d.delta }]
    else [])

/-- `_match_records` of one challenger. -/
def matchRecord (gid : String) : List RoundItem := t.duels.flatMap (matchOutcomes gid)

/-- `_upsert_tournament`. -/
def crowningRow (c : Challenger) : TournamentRow where
  tournamentId := t.epochId ++ ":" ++ t.parentId ++ "->" ++ c.generationId
  epochId := t.epochId
  parentGenerationId := t.parentId
  childGenerationId := c.generationId
  decision := c.decision
  deltaScalar := some c.scalarScoreDelta
  rounds := t.matchRecord c.generationId
  ranAt := c.ranAt

/-- The row of the whole bracket. -/
def bracketRow (first : String) : TournamentRow where
  tournamentId := t.epochId ++ ":field:" ++ first
  epochId := t.epochId
  decision := t.decision
  deltaScalar := t.deltaScalar
  rounds := t.bracket.map fun contents => { contents := contents }
  ranAt := t.ranAt

/-- `_upsert_field_tournament`: a field of one challenger has no row of its own. -/
def fieldRow : List TournamentRow :=
  match t.challengers with
  | [] => []
  | first :: rest => if rest = [] then [] else [t.bracketRow first.generationId]

/-- The rows that a tournament leaves in the index. -/
def rows : List TournamentRow := t.challengers.map t.crowningRow ++ t.fieldRow

/-- The ids of the challengers. -/
def challengerIds : List String := t.challengers.map Challenger.generationId

/-- Generations are told apart by ids without a colon, and a matchup has two sides of the field.
Its id alone does not tell a matchup: a bracket of the double elimination gives the duels of
several rounds the same ids, but two generations meet in one bracket at most once. -/
structure WellFormed : Prop where
  parent : t.parentId ≠ ""
  colon : ':' ∉ t.parentId.toList
  nonempty : "" ∉ t.challengerIds
  distinct : t.challengerIds.Nodup
  incumbent : t.parentId ∉ t.challengerIds
  named : ∀ d ∈ t.duels, d.matchId ≠ ""
  unique : (t.duels.map fun d => (d.matchId, s(d.left, d.right))).Nodup
  sides : ∀ d ∈ t.duels, d.left ≠ d.right ∧ d.left ∈ t.parentId :: t.challengerIds ∧
    d.right ∈ t.parentId :: t.challengerIds

end SettledTournament

/-! ## What describes a duel -/

/-- A game is of the duel. -/
def describes (d : Duel) (g : EloGame) : Bool :=
  g.matchId == d.matchId && decide (s(g.winner, g.loser) = s(d.left, d.right))

/-- A match of two sides that is settled for `winner`; the other side is the first that is not
the winner. -/
structure SettledFor (m : BracketMatch) (winner loser : String) : Prop where
  bye : m.bye = false
  pending : m.pending = false
  won : m.winner = winner
  named : winner ≠ ""
  distinct : loser ≠ winner
  sides : ∃ a b, m.competitors.filter (· ≠ "") = [a, b] ∧ (a = loser ∨ a = winner ∧ b = loser)

/-- The tournament has more than one challenger, and its bracket shows the duel as a settled
match of two sides. -/
def Shown (t : SettledTournament) (d : Duel) : Prop :=
  2 ≤ t.challengers.length ∧ ∃ contents ∈ t.bracket, ∃ m ∈ contents, m.matchId = d.matchId ∧
    (SettledFor m d.left d.right ∨ SettledFor m d.right d.left)

/-- Every duel is rated once, by rows that agree, in whatever order they are read. -/
def RatedOnce (t : SettledTournament) : Prop :=
  (∀ d ∈ t.duels, (observedGames (gamesFromTournamentRows t.rows)).countP (describes d) = 1 ∧
    ∀ g ∈ gamesFromTournamentRows t.rows, ∀ g' ∈ gamesFromTournamentRows t.rows,
      describes d g = true → describes d g' = true → g.winner = g'.winner) ∧
  ∀ rows, t.rows.Perm rows → ∀ group,
    group ∈ observations (gamesFromTournamentRows rows) (rungsFromTournamentRows rows) ↔
      group ∈ observations (gamesFromTournamentRows t.rows) (rungsFromTournamentRows t.rows)

/-- One row describes the duel: it has one challenger, and the bracket does not show it. -/
def OneRow (t : SettledTournament) (d : Duel) : Prop :=
  ¬ (d.left ∈ t.challengerIds ∧ d.right ∈ t.challengerIds) ∧ ¬ Shown t d

variable {g : EloGame}

theorem describes_iff {d : Duel} : describes d g = true ↔
    g.matchId = d.matchId ∧ s(g.winner, g.loser) = s(d.left, d.right) := by
  rw [describes, Bool.and_eq_true, beq_iff_eq, decide_eq_true_eq]

theorem describes_congr (d : Duel) {g' : EloGame} (h : g.dedupKey = g'.dedupKey) :
    describes d g = describes d g' := by
  obtain ⟨-, h⟩ := Prod.ext_iff.mp h
  obtain ⟨hmatch, hsides⟩ := Prod.ext_iff.mp h
  have hmatch' : g.matchId = g'.matchId := hmatch
  have hsides' : s(g.winner, g.loser) = s(g'.winner, g'.loser) := hsides
  rw [describes, describes, hmatch', hsides']

/-- A description of a duel of two sides is an observation. -/
theorem twoSided_of_describes {d : Duel} (hne : d.left ≠ d.right) (hleft : d.left ≠ "")
    (hright : d.right ≠ "") (h : describes d g = true) : twoSided g = true := by
  have hsides := (describes_iff.mp h).2
  rw [twoSided]
  rcases Sym2.eq_iff.mp hsides with ⟨hw, hl⟩ | ⟨hw, hl⟩ <;> rw [hw, hl] <;>
    simp [hne, hne.symm, hleft, hright]

/-! ## The rows of a tournament -/

namespace SettledTournament
variable {t : SettledTournament}

/-- An item of a challenger's audit is one of its duels. -/
theorem mem_matchOutcomes {gid : String} {d : Duel} {item : RoundItem}
    (h : item ∈ matchOutcomes gid d) : item.matchId = d.matchId ∧
      (d.left = gid ∧ item.opponent = d.right ∨ d.right = gid ∧ item.opponent = d.left) := by
  rw [matchOutcomes, mem_append] at h
  rcases h with h | h
  · split at h
    · rename_i hleft
      obtain rfl := mem_singleton.mp h
      exact ⟨rfl, .inl ⟨hleft, rfl⟩⟩
    · cases h
  · split at h
    · rename_i hright
      obtain rfl := mem_singleton.mp h
      exact ⟨rfl, .inr ⟨hright, rfl⟩⟩
    · cases h

/-- A generation of a duel has it in its record once. -/
theorem matchOutcomes_of_side {gid : String} {d : Duel} (hne : d.left ≠ d.right)
    (h : d.left = gid ∨ d.right = gid) : ∃ item, matchOutcomes gid d = [item] := by
  rcases h with rfl | rfl
  · rw [matchOutcomes, if_pos rfl, if_neg hne.symm]
    exact ⟨_, rfl⟩
  · rw [matchOutcomes, if_neg hne, if_pos rfl]
    exact ⟨_, rfl⟩

theorem mem_matchOutcomes_sides {gid : String} {d : Duel} {item : RoundItem}
    (h : item ∈ matchOutcomes gid d) : s(gid, item.opponent) = s(d.left, d.right) := by
  rcases (mem_matchOutcomes h).2 with ⟨heq, hother⟩ | ⟨heq, hother⟩
  · rw [heq, hother]
  · rw [heq, hother]
    exact Sym2.eq_swap

theorem crowningGame_sides (row : TournamentRow) (item : RoundItem) :
    s((crowningGame row item.matchId item.opponent item.won item.deltaScalar).winner,
        (crowningGame row item.matchId item.opponent item.won item.deltaScalar).loser) =
      s(row.childGenerationId, item.opponent) := by
  rw [crowningGame]
  cases item.won
  · exact Sym2.eq_swap
  · rfl

section Rows
variable (hwf : t.WellFormed)
include hwf

theorem side_ne_empty {gid : String} (h : gid ∈ t.parentId :: t.challengerIds) : gid ≠ "" := by
  rintro rfl
  rcases mem_cons.mp h with hparent | hchallenger
  · exact hwf.parent hparent.symm
  · exact hwf.nonempty hchallenger

/-- The games of a crowning row describe the duels of its challenger. -/
theorem gamesFromRow_crowningRow {c : Challenger} (hc : c ∈ t.challengers) {d : Duel}
    (hd : d ∈ t.duels) (hg : g ∈ gamesFromRow (t.crowningRow c)) (h : describes d g = true)
    : ∃ item ∈ matchOutcomes c.generationId d,
      g = crowningGame (t.crowningRow c) item.matchId item.opponent item.won item.deltaScalar := by
  have hparent : (t.crowningRow c).parentGenerationId ≠ "" := hwf.parent
  have hchild : (t.crowningRow c).childGenerationId ≠ "" := fun hempty =>
    hwf.nonempty (hempty ▸ mem_map_of_mem hc)
  rw [gamesFromRow, mem_append, gamesFromFieldRow, if_pos (.inl hparent)] at hg
  have hg := hg.resolve_right (fun hnil => nomatch hnil)
  rw [gamesFromCrowningRow, if_neg fun hor => hor.elim hparent hchild] at hg
  split at hg
  · obtain ⟨item, hitem, rfl⟩ := mem_map.mp hg
    obtain ⟨d', hd', hitem⟩ := mem_flatMap.mp (mem_filter.mp hitem).1
    obtain ⟨hid, hsides⟩ := describes_iff.mp h
    rw [crowningGame_sides] at hsides
    have hkey : (d'.matchId, s(d'.left, d'.right)) = (d.matchId, s(d.left, d.right)) := by
      rw [← hid, ← hsides, ← mem_matchOutcomes_sides hitem]
      exact congrArg (·, s(c.generationId, item.opponent)) (mem_matchOutcomes hitem).1.symm
    obtain rfl := inj_on_of_nodup_map hwf.unique hd' hd hkey
    exact ⟨item, hitem, rfl⟩
  · obtain rfl := mem_singleton.mp hg
    exact absurd (describes_iff.mp h).1.symm (hwf.named d hd)

/-- The row of a challenger describes the duels that the challenger was in. -/
theorem crowningRow_describes_iff {c : Challenger} (hc : c ∈ t.challengers) {d : Duel}
    (hd : d ∈ t.duels) : (∃ g ∈ gamesFromRow (t.crowningRow c), describes d g = true) ↔
      d.left = c.generationId ∨ d.right = c.generationId := by
  constructor
  · rintro ⟨g, hg, h⟩
    obtain ⟨item, hitem, -⟩ := gamesFromRow_crowningRow hwf hc hd hg h
    exact (mem_matchOutcomes hitem).2.imp And.left And.left
  · intro hside
    obtain ⟨hne, hleft, hright⟩ := hwf.sides d hd
    obtain ⟨item, hitems⟩ := matchOutcomes_of_side hne hside
    have hitem : item ∈ matchOutcomes c.generationId d := hitems ▸ mem_cons_self
    have hmem : item ∈ (t.crowningRow c).rounds := mem_flatMap.mpr ⟨d, hd, hitem⟩
    obtain ⟨hid, hopponent⟩ := mem_matchOutcomes hitem
    have hopponent' : item.opponent ≠ "" := by
      rcases hopponent with ⟨-, heq⟩ | ⟨-, heq⟩
      · rw [heq]
        exact side_ne_empty hwf hright
      · rw [heq]
        exact side_ne_empty hwf hleft
    have hchild : (t.crowningRow c).childGenerationId ≠ "" := fun hempty =>
      hwf.nonempty (hempty ▸ mem_map_of_mem hc)
    refine ⟨crowningGame (t.crowningRow c) item.matchId item.opponent item.won item.deltaScalar,
      mem_append_left _ ?_, ?_⟩
    · rw [gamesFromCrowningRow, if_neg fun hor => hor.elim hwf.parent hchild,
        if_pos (ne_nil_of_mem hmem)]
      exact mem_map.mpr ⟨item, mem_filter.mpr ⟨hmem, by simpa using hopponent'⟩, rfl⟩
    · rw [describes_iff, crowningGame_sides]
      exact ⟨hid, mem_matchOutcomes_sides hitem⟩

end Rows

/-! ## Ids of rows -/

theorem field_id_ne (hcolon : ':' ∉ t.parentId.toList) (first child : String)
    : t.epochId ++ ":field:" ++ first ≠
      t.epochId ++ ":" ++ t.parentId ++ "->" ++ child := by
  intro heq
  have hlists := congrArg String.toList heq
  simp only [String.toList_append, List.append_assoc] at hlists
  have htail : "field:".toList ++ first.toList = t.parentId.toList ++ ("->".toList ++ child.toList) :=
    List.cons.inj (append_cancel_left hlists) |>.2
  have hbefore := congrArg (takeWhile (· ≠ ':')) htail
  have hparent : ∀ c ∈ t.parentId.toList, decide (c ≠ ':') = true := by
    intro c hc
    refine decide_eq_true ?_
    rintro rfl
    exact hcolon hc
  rw [takeWhile_append_of_pos hparent] at hbefore
  have hdash : '-' ∈ "field".toList := by
    have hfield : takeWhile (· ≠ ':') ("field:".toList ++ first.toList) = "field".toList := rfl
    rw [← hfield, hbefore]
    exact mem_append_right _ mem_cons_self
  exact absurd hdash (by decide)

theorem crowning_id_inj {c c' : Challenger}
    (h : (t.crowningRow c).tournamentId = (t.crowningRow c').tournamentId) :
    c.generationId = c'.generationId := by
  have hlists := congrArg String.toList h
  simp only [crowningRow, String.toList_append] at hlists
  exact String.toList_inj.mp (append_cancel_left hlists)

theorem mem_fieldRow {row : TournamentRow} (h : row ∈ t.fieldRow) :
    ∃ first, row = t.bracketRow first := by
  rw [fieldRow] at h
  split at h
  · cases h
  · split at h
    · cases h
    · exact ⟨_, mem_singleton.mp h⟩

/-- What a match of the bracket is rated as. -/
theorem bracketGame_eq_some {row : TournamentRow} {m : BracketMatch}
    (h : bracketGame row m = some g) : SettledFor m g.winner g.loser ∧ g.matchId = m.matchId := by
  unfold bracketGame at h
  simp only at h
  split at h
  · cases h
  · rename_i hnot
    simp only [not_or, Bool.not_eq_true, ne_eq, not_not] at hnot
    obtain ⟨hbye, hpending, hwinner, hlength, hloser⟩ := hnot
    obtain ⟨a, b, hsides⟩ := length_eq_two.mp hlength
    obtain rfl := Option.some.inj h
    rw [hsides] at hloser
    refine ⟨⟨hbye, hpending, rfl, hwinner, ?_, a, b, hsides, ?_⟩, rfl⟩
    · simp only [hsides]
      by_cases ha : a = m.winner <;> by_cases hb : b = m.winner <;> simp_all
    · simp only [hsides]
      by_cases ha : a = m.winner <;> by_cases hb : b = m.winner <;> simp_all

theorem bracketGame_of_settledFor (row : TournamentRow) {m : BracketMatch} {winner loser : String}
    (h : SettledFor m winner loser) : ∃ g, bracketGame row m = some g ∧ g.winner = winner ∧
      g.loser = loser ∧ g.matchId = m.matchId := by
  obtain ⟨hbye, hpending, rfl, hnamed, hdistinct, a, b, hsides, hloser⟩ := h
  have hfound : ([a, b].find? (· ≠ m.winner)).getD "" = loser := by
    rcases hloser with rfl | ⟨rfl, rfl⟩
    · simp [hdistinct]
    · simp [hdistinct]
  have hloser' : loser ≠ "" := by
    have hmem : loser ∈ m.competitors.filter (· ≠ "") := by
      rw [hsides]
      rcases hloser with rfl | ⟨-, rfl⟩ <;> simp
    simpa using (mem_filter.mp hmem).2
  rw [bracketGame, hsides, hfound, if_neg]
  · exact ⟨_, rfl, rfl, rfl, rfl⟩
  · simp [hbye, hpending, hnamed, hloser']

/-- The bracket shows the duels that the row of the field describes. -/
theorem shown_iff {d : Duel} :
    Shown t d ↔ ∃ row ∈ t.fieldRow, ∃ g ∈ gamesFromFieldRow row, describes d g = true := by
  have hgames (first : String) : gamesFromFieldRow (t.bracketRow first) =
      t.bracket.flatten.filterMap (bracketGame (t.bracketRow first)) := by
    rw [gamesFromFieldRow, if_neg (by simp [bracketRow])]
    simp [bracketRow, flatMap_map, flatMap_id']
  have hrow : 2 ≤ t.challengers.length ↔ ∃ first, t.fieldRow = [t.bracketRow first] := by
    rw [fieldRow]
    rcases t.challengers with _ | ⟨first, _ | ⟨second, rest⟩⟩ <;> simp
  constructor
  -- a settled match of the bracket is a game of the field row, whichever side won
  · rintro ⟨htwo, contents, hcontents, m, hm, hid, hsettled⟩
    obtain ⟨first, hfirst⟩ := hrow.mp htwo
    refine ⟨t.bracketRow first, by simp [hfirst], ?_⟩
    have hflat : m ∈ t.bracket.flatten := mem_flatten.mpr ⟨contents, hcontents, hm⟩
    rw [hgames]
    rcases hsettled with h | h <;>
      obtain ⟨g, hg, hwinner, hloser, hmatch⟩ :=
        bracketGame_of_settledFor (t.bracketRow first) h
    · refine ⟨g, mem_filterMap.mpr ⟨m, hflat, hg⟩, describes_iff.mpr ⟨hmatch.trans hid, ?_⟩⟩
      rw [hwinner, hloser]
    · refine ⟨g, mem_filterMap.mpr ⟨m, hflat, hg⟩, describes_iff.mpr ⟨hmatch.trans hid, ?_⟩⟩
      rw [hwinner, hloser]
      exact Sym2.eq_swap
  · rintro ⟨row, hmem, g, hg, hd⟩
    obtain ⟨first, rfl⟩ := mem_fieldRow hmem
    have htwo : 2 ≤ t.challengers.length := by
      rw [fieldRow] at hmem
      rcases hc : t.challengers with _ | ⟨first, _ | ⟨second, rest⟩⟩ <;> simp_all
    rw [hgames] at hg
    obtain ⟨m, hm, hgame⟩ := mem_filterMap.mp hg
    obtain ⟨contents, hcontents, hm⟩ := mem_flatten.mp hm
    obtain ⟨hsettled, hid⟩ := bracketGame_eq_some hgame
    obtain ⟨hmatch, hsides⟩ := describes_iff.mp hd
    refine ⟨htwo, contents, hcontents, m, hm, hid.symm.trans hmatch, ?_⟩
    rcases Sym2.eq_iff.mp hsides with ⟨hw, hl⟩ | ⟨hw, hl⟩ <;> rw [hw, hl] at hsettled
    · exact .inl hsettled
    · exact .inr hsettled

theorem tournamentIds_pairwise (hwf : t.WellFormed) :
    t.rows.Pairwise fun r r' => r.tournamentId ≠ r'.tournamentId := by
  rw [rows, pairwise_append]
  refine ⟨?_, ?_, ?_⟩
  · have hdistinct := hwf.distinct
    rw [challengerIds, Nodup, pairwise_map] at hdistinct
    rw [pairwise_map]
    exact hdistinct.imp fun hne heq => hne (crowning_id_inj heq)
  · rw [fieldRow]
    split
    · exact .nil
    · split
      · exact .nil
      · exact pairwise_singleton _ _
  · intro row hrow row' hrow'
    obtain ⟨c, -, rfl⟩ := mem_map.mp hrow
    obtain ⟨first, rfl⟩ := mem_fieldRow hrow'
    exact (field_id_ne hwf.colon first c.generationId).symm

end SettledTournament

/-! ## The order of the rows -/

theorem tournamentId_of_mem_games {row : TournamentRow} (h : g ∈ gamesFromRow row) :
    g.tournamentId = row.tournamentId := by
  rw [gamesFromRow, mem_append, gamesFromCrowningRow, gamesFromFieldRow] at h
  rcases h with h | h
  · split at h
    · cases h
    · split at h
      · obtain ⟨item, -, rfl⟩ := mem_map.mp h
        rfl
      · obtain rfl := mem_singleton.mp h
        rfl
  · split at h
    · cases h
    · obtain ⟨m, -, hm⟩ := mem_filterMap.mp h
      rw [bracketGame] at hm
      split at hm
      · cases hm
      · obtain rfl := Option.some.inj hm
        rfl

theorem tournamentId_of_mem_rungs {row : TournamentRow} {r : RungEvent} (h : r ∈ rungsFromRow row) :
    r.tournamentId = row.tournamentId := by
  rw [rungsFromRow] at h
  generalize row.rounds.flatMap RoundItem.contents = found at h
  generalize 0 = n at h
  induction found generalizing n with
  | nil => cases h
  | cons m rest ih =>
    rw [rungsFromMatches] at h
    split at h
    · exact ih n h
    · rcases mem_cons.mp h with rfl | h
      · rfl
      · exact ih (n + 1) h

/-- Rows with ids of their own give the same observations in every order. -/
theorem observations_perm {rows rows' : List TournamentRow}
    (hids : rows.Pairwise fun r r' => r.tournamentId ≠ r'.tournamentId) (h : rows.Perm rows') :
    (observations (gamesFromTournamentRows rows) (rungsFromTournamentRows rows)).Perm
      (observations (gamesFromTournamentRows rows') (rungsFromTournamentRows rows')) := by
  have hids' : rows'.Pairwise fun r r' => r.tournamentId ≠ r'.tournamentId :=
    h.pairwise hids fun hne => hne.symm
  have hgames : ∀ {l : List TournamentRow}, l.Pairwise (fun r r' =>
      r.tournamentId ≠ r'.tournamentId) → dedupGames (gamesFromTournamentRows l) =
        l.flatMap fun r => dedupGames (gamesFromRow r) := by
    intro l hl
    refine dedupFrom_flatMap (hl.imp fun hne x hx y hy heq => hne ?_)
    rw [← tournamentId_of_mem_games hx, ← tournamentId_of_mem_games hy]
    exact (Prod.ext_iff.mp heq).1
  have hrungs : ∀ {l : List TournamentRow}, l.Pairwise (fun r r' =>
      r.tournamentId ≠ r'.tournamentId) → dedupRungs (rungsFromTournamentRows l) =
        l.flatMap fun r => dedupRungs (rungsFromRow r) := by
    intro l hl
    refine dedupFrom_flatMap (hl.imp fun hne x hx y hy heq => hne ?_)
    rw [← tournamentId_of_mem_rungs hx, ← tournamentId_of_mem_rungs hy]
    exact (Prod.ext_iff.mp heq).1
  rw [observations, observations, observedGames, observedGames, observedRungs, observedRungs,
    hgames hids, hgames hids', hrungs hids, hrungs hids']
  exact (((h.flatMap_right _).filter _).map _).append (((h.flatMap_right _).filterMap _).map _)

/-! ## One observation a duel -/

section Once
variable {t : SettledTournament} (hwf : t.WellFormed)
include hwf

variable {d : Duel}

omit hwf in
/-- The games that describe a duel are of the rows of its challengers and of the bracket. -/
theorem mem_games_describing (hg : g ∈ gamesFromTournamentRows t.rows) (h : describes d g = true)
    : Shown t d ∨
      ∃ c ∈ t.challengers, g ∈ gamesFromRow (t.crowningRow c) := by
  obtain ⟨row, hrow, hg⟩ := mem_flatMap.mp hg
  rcases mem_append.mp hrow with hrow | hrow
  · obtain ⟨c, hc, rfl⟩ := mem_map.mp hrow
    exact .inr ⟨c, hc, hg⟩
  · obtain ⟨first, hfirst⟩ := SettledTournament.mem_fieldRow hrow
    have hcrowning : gamesFromCrowningRow row = [] := by
      rw [hfirst, gamesFromCrowningRow]
      exact if_pos (.inl rfl)
    rw [gamesFromRow, hcrowning, nil_append] at hg
    exact .inl (SettledTournament.shown_iff.mpr ⟨row, hrow, g, hg, h⟩)

/-- Some side of a duel is a challenger. -/
theorem challenger_side (hd : d ∈ t.duels) :
    ∃ c ∈ t.challengers, d.left = c.generationId ∨ d.right = c.generationId := by
  obtain ⟨hne, hleft, hright⟩ := hwf.sides d hd
  rcases mem_cons.mp hleft with hparent | hmem
  · have hmem := (mem_cons.mp hright).resolve_left fun heq => hne (hparent.trans heq.symm)
    obtain ⟨c, hc, heq⟩ := mem_map.mp hmem
    exact ⟨c, hc, .inr heq.symm⟩
  · obtain ⟨c, hc, heq⟩ := mem_map.mp hmem
    exact ⟨c, hc, .inl heq.symm⟩

theorem countP_describes (hd : d ∈ t.duels) :
    (observedGames (gamesFromTournamentRows t.rows)).countP (describes d) = 1 ↔
      (∃ g ∈ gamesFromTournamentRows t.rows, describes d g = true) ∧
        ∀ g ∈ gamesFromTournamentRows t.rows, ∀ g' ∈ gamesFromTournamentRows t.rows,
          describes d g = true → describes d g' = true → g.dedupKey = g'.dedupKey := by
  obtain ⟨hne, hleft, hright⟩ := hwf.sides d hd
  have htwo : ∀ g, (describes d g && twoSided g) = describes d g := by
    intro g
    cases h : describes d g with
    | false => rfl
    | true =>
      exact twoSided_of_describes hne (SettledTournament.side_ne_empty hwf hleft)
        (SettledTournament.side_ne_empty hwf hright) h
  rw [observedGames, countP_filter]
  simp only [htwo]
  exact countP_dedupFrom_eq_one fun _ _ => describes_congr d

/-- The row of a challenger holds one game of a duel. -/
theorem game_unique {c : Challenger} (hc : c ∈ t.challengers) (hd : d ∈ t.duels) {g' : EloGame}
    (hg : g ∈ gamesFromRow (t.crowningRow c)) (hg' : g' ∈ gamesFromRow (t.crowningRow c))
    (h : describes d g = true) (h' : describes d g' = true) : g = g' := by
  obtain ⟨item, hitem, rfl⟩ := SettledTournament.gamesFromRow_crowningRow hwf hc hd hg h
  obtain ⟨item', hitem', rfl⟩ := SettledTournament.gamesFromRow_crowningRow hwf hc hd hg' h'
  obtain ⟨only, honly⟩ := SettledTournament.matchOutcomes_of_side (hwf.sides d hd).1
    ((SettledTournament.mem_matchOutcomes hitem).2.imp And.left And.left)
  rw [honly, mem_singleton] at hitem hitem'
  rw [hitem, hitem']

/-- A duel counted once is on one row. -/
theorem oneRow_of_count (hd : d ∈ t.duels)
    (h : (observedGames (gamesFromTournamentRows t.rows)).countP (describes d) = 1) :
    OneRow t d := by
  have hsame := ((countP_describes hwf hd).mp h).2
  have hgame : ∀ c ∈ t.challengers, d.left = c.generationId ∨ d.right = c.generationId →
      ∃ g ∈ gamesFromTournamentRows t.rows, describes d g = true ∧
        g.tournamentId = (t.crowningRow c).tournamentId := by
    intro c hc hside
    obtain ⟨g, hg, hdescribes⟩ := (SettledTournament.crowningRow_describes_iff hwf hc hd).mpr hside
    refine ⟨g, mem_flatMap.mpr ⟨t.crowningRow c, ?_, hg⟩, hdescribes,
      tournamentId_of_mem_games hg⟩
    exact mem_append_left _ (mem_map_of_mem hc)
  refine ⟨fun ⟨hleft, hright⟩ => ?_, fun hshown => ?_⟩
  · obtain ⟨c, hc, hcleft⟩ := mem_map.mp hleft
    obtain ⟨c', hc', hcright⟩ := mem_map.mp hright
    obtain ⟨g, hg, hdescribes, hid⟩ := hgame c hc (.inl hcleft.symm)
    obtain ⟨g', hg', hdescribes', hid'⟩ := hgame c' hc' (.inr hcright.symm)
    have htid := (Prod.ext_iff.mp (hsame g hg g' hg' hdescribes hdescribes')).1
    have hids := SettledTournament.crowning_id_inj (hid.symm.trans (htid.trans hid'))
    exact (hwf.sides d hd).1 (hcleft.symm.trans (hids.trans hcright))
  · obtain ⟨row, hrow, g, hg, hdescribes⟩ := SettledTournament.shown_iff.mp hshown
    obtain ⟨c, hc, hside⟩ := challenger_side hwf hd
    obtain ⟨g', hg', hdescribes', hid'⟩ := hgame c hc hside
    have hgame : g ∈ gamesFromRow row := mem_append_right _ hg
    have hmem : g ∈ gamesFromTournamentRows t.rows :=
      mem_flatMap.mpr ⟨row, mem_append_right _ hrow, hgame⟩
    have htid := (Prod.ext_iff.mp (hsame g hmem g' hg' hdescribes hdescribes')).1
    obtain ⟨first, rfl⟩ := SettledTournament.mem_fieldRow hrow
    exact SettledTournament.field_id_ne hwf.colon first c.generationId
      ((tournamentId_of_mem_games hgame).symm.trans (htid.trans hid'))

/-- A duel on one row is counted once, with one winner. -/
theorem count_of_oneRow (hd : d ∈ t.duels) (hone : OneRow t d) :
    (observedGames (gamesFromTournamentRows t.rows)).countP (describes d) = 1 ∧
      ∀ g ∈ gamesFromTournamentRows t.rows, ∀ g' ∈ gamesFromTournamentRows t.rows,
        describes d g = true → describes d g' = true → g.winner = g'.winner := by
  have hrow : ∀ g ∈ gamesFromTournamentRows t.rows, describes d g = true → ∃ c ∈ t.challengers,
      g ∈ gamesFromRow (t.crowningRow c) ∧
        (d.left = c.generationId ∨ d.right = c.generationId) := by
    intro g hg h
    obtain ⟨c, hc, hgc⟩ := (mem_games_describing hg h).resolve_left hone.2
    exact ⟨c, hc, hgc, (SettledTournament.crowningRow_describes_iff hwf hc hd).mp ⟨g, hgc, h⟩⟩
  have heq : ∀ g ∈ gamesFromTournamentRows t.rows, ∀ g' ∈ gamesFromTournamentRows t.rows,
      describes d g = true → describes d g' = true → g = g' := by
    intro g hg g' hg' h h'
    obtain ⟨c, hc, hgc, hside⟩ := hrow g hg h
    obtain ⟨c', hc', hgc', hside'⟩ := hrow g' hg' h'
    have hids : c.generationId = c'.generationId := by
      have hmem : c.generationId ∈ t.challengerIds := mem_map_of_mem hc
      have hmem' : c'.generationId ∈ t.challengerIds := mem_map_of_mem hc'
      rcases hside with hleft | hright <;> rcases hside' with hleft' | hright'
      · exact hleft.symm.trans hleft'
      · exact absurd ⟨hleft ▸ hmem, hright' ▸ hmem'⟩ hone.1
      · exact absurd ⟨hleft' ▸ hmem', hright ▸ hmem⟩ hone.1
      · exact hright.symm.trans hright'
    obtain rfl := inj_on_of_nodup_map hwf.distinct hc hc' hids
    exact game_unique hwf hc hd hgc hgc' h h'
  refine ⟨(countP_describes hwf hd).mpr ⟨?_, fun g hg g' hg' h h' => ?_⟩, fun g hg g' hg' h h' => ?_⟩
  · obtain ⟨c, hc, hside⟩ := challenger_side hwf hd
    obtain ⟨g, hg, h⟩ := (SettledTournament.crowningRow_describes_iff hwf hc hd).mpr hside
    refine ⟨g, mem_flatMap.mpr ⟨t.crowningRow c, ?_, hg⟩, h⟩
    exact mem_append_left _ (mem_map_of_mem hc)
  · rw [heq g hg g' hg' h h']
  · rw [heq g hg g' hg' h h']

end Once

/-- Duels are rated once iff each of them is described by one row. -/
theorem rated_once_iff (t : SettledTournament) (hwf : t.WellFormed) :
    RatedOnce t ↔ ∀ d ∈ t.duels, OneRow t d := by
  constructor
  · intro h d hd
    exact oneRow_of_count hwf hd (h.1 d hd).1
  · intro h
    refine ⟨fun d hd => count_of_oneRow hwf hd (h d hd), fun rows hperm group => ?_⟩
    exact (observations_perm (SettledTournament.tournamentIds_pairwise hwf) hperm).symm.mem_iff

/-- Two challengers meet, and the winner meets the incumbent. -/
def twoChallengers : SettledTournament where
  epochId := "e1"
  parentId := "v0"
  challengers := [⟨"v1", "promoted", -1, ""⟩, ⟨"v2", "rejected", 1, ""⟩]
  duels := [⟨"WB-R0-0", "v1", "v2", 2⟩, ⟨"gate", "v0", "v1", -1⟩]
  bracket := [[{ matchId := "WB-R0-0", competitors := ["v1", "v2"], winner := "v1" }],
    [{ matchId := "gate", competitors := ["v0", "v1"], winner := "v1" }]]

/-- One challenger meets the incumbent. -/
def oneChallenger : SettledTournament where
  epochId := "e1"
  parentId := "v0"
  challengers := [⟨"v1", "promoted", -1, ""⟩]
  duels := [⟨"m0", "v0", "v1", -1⟩]
  bracket := [[{ matchId := "m0", competitors := ["v0", "v1"], winner := "v1" }]]

theorem rated_once_iff_oneChallenger : RatedOnce oneChallenger := by
  refine (rated_once_iff oneChallenger ?_).mpr ?_
  · constructor <;> decide
  · intro d hd
    refine ⟨?_, fun ⟨htwo, _⟩ => absurd htwo (by decide)⟩
    revert d
    decide

/-- The first duel is rated three times. -/
theorem duel_rated_three_times : twoChallengers.WellFormed ∧
    (observedGames (gamesFromTournamentRows twoChallengers.rows)).countP
      (describes ⟨"WB-R0-0", "v1", "v2", 2⟩) = 3 ∧ ¬ RatedOnce twoChallengers := by
  have hcount : (observedGames (gamesFromTournamentRows twoChallengers.rows)).countP
      (describes ⟨"WB-R0-0", "v1", "v2", 2⟩) = 3 := by
    decide
  refine ⟨by constructor <;> decide, hcount, fun h => ?_⟩
  have hone := (h.1 _ List.mem_cons_self).1
  rw [hcount] at hone
  exact absurd hone (by decide)

end Zicato.Elo
