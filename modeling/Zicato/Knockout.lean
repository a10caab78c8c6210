import Mathlib.Data.List.Perm.Basic

/-! # Knockout brackets

A round of a knockout pairs neighbours off and lets the last element of an odd
list pass.  A bracket holds who waits for the next round, who is paired in this
one and who has lost.  Whatever the results, the three together are always the
field (`Bracket.Over`), and everything a bracket is used for follows from that:
how many duels it takes, who loses how often, and that a pair never meets
someone who is out. -/
open List
namespace Zicato.Knockout

variable {α : Type}

/-- The neighbours of a list, paired. -/
def pairs : List α → List (α × α)
  | a :: b :: rest => (a, b) :: pairs rest
  | _ => []

/-- The element of an odd list that no pair takes. -/
def leftOver : List α → List α
  | _ :: _ :: rest => leftOver rest
  | l => l

/-- Both sides of every pair, in order. -/
def sides : List (α × α) → List α
  | [] => []
  | (a, b) :: rest => a :: b :: sides rest

@[simp] theorem sides_nil : sides ([] : List (α × α)) = [] := rfl

@[simp] theorem sides_cons (p : α × α) (rest : List (α × α)) :
    sides (p :: rest) = p.1 :: p.2 :: sides rest := rfl

/-- The pairs and the left-over element are the whole list. -/
theorem sides_pairs_append : ∀ l : List α, sides (pairs l) ++ leftOver l = l
  | [] => rfl
  | [_] => rfl
  | a :: b :: rest => by
      simp only [pairs, leftOver, sides_cons, cons_append, sides_pairs_append rest]

theorem length_sides (ps : List (α × α)) : (sides ps).length = 2 * ps.length := by
  induction ps with
  | nil => rfl
  | cons p rest ih =>
    simp only [sides_cons, length_cons, ih]
    omega

theorem mem_sides_of_mem {p : α × α} {ps : List (α × α)} (h : p ∈ ps) :
    p.1 ∈ sides ps ∧ p.2 ∈ sides ps := by
  induction ps with
  | nil => cases h
  | cons q rest ih =>
    rcases mem_cons.mp h with rfl | h
    · simp
    · obtain ⟨h1, h2⟩ := ih h
      exact ⟨by simp [h1], by simp [h2]⟩

/-- In a pairing without repetitions the two sides of a pair differ. -/
theorem ne_of_mem_pairs {p : α × α} {ps : List (α × α)} (h : p ∈ ps) (hn : (sides ps).Nodup) :
    p.1 ≠ p.2 := by
  induction ps with
  | nil => cases h
  | cons q rest ih =>
    rw [sides_cons, nodup_cons, nodup_cons] at hn
    rcases mem_cons.mp h with rfl | h
    · exact fun he => hn.1 (by simp [he])
    · exact ih h hn.2.2

theorem sides_map {β : Type} (f : α → β) (ps : List (α × α)) :
    sides (ps.map (Prod.map f f)) = (sides ps).map f := by
  induction ps with
  | nil => rfl
  | cons p rest ih => simp [ih]

/-- A bracket between two results. -/
structure Bracket (α : Type) where
  /-- Waiting for the next round: the winners so far and a bye. -/
  live : List α
  /-- Paired in this round and still to report. -/
  pending : List (α × α)
  /-- The losers, oldest first. -/
  out : List α

namespace Bracket
variable {field live out : List α} {pending : List (α × α)}

/-- Nobody of the field is lost or doubled, and not everybody can lose. -/
structure Over (field : List α) (b : Bracket α) : Prop where
  perm : (b.live ++ sides b.pending ++ b.out).Perm field
  alive : field ≠ [] → b.live ++ sides b.pending ≠ []

theorem over_start (field : List α) : Over field ⟨field, [], []⟩ := by
  constructor <;> simp

theorem Over.pairUp (h : Over field ⟨live, [], out⟩) :
    Over field ⟨leftOver live, pairs live, out⟩ := by
  have hp : (leftOver live ++ sides (pairs live)).Perm live := by
    have hcomm : (leftOver live ++ sides (pairs live)).Perm (sides (pairs live) ++ leftOver live) :=
      perm_append_comm
    rwa [sides_pairs_append] at hcomm
  refine ⟨(hp.append_right out).trans (by simpa using h.perm), fun hne he => ?_⟩
  have hlive : live = [] := Perm.nil_eq (he ▸ hp) |>.symm
  exact h.alive hne (by simp [hlive])

/-- One result: the winner waits for the next round, the loser is out. -/
theorem Over.play {a b w l : α} (h : Over field ⟨live, (a, b) :: pending, out⟩)
    (hwl : (w, l) = (a, b) ∨ (w, l) = (b, a)) :
    Over field ⟨live ++ [w], pending, out ++ [l]⟩ := by
  have hab : ([w, l] : List α).Perm [a, b] := by
    rcases hwl with hwl | hwl <;> obtain ⟨rfl, rfl⟩ := Prod.mk.inj hwl
    · exact .refl _
    · exact .swap _ _ _
  refine ⟨?_, by simp⟩
  calc (live ++ [w] ++ sides pending ++ (out ++ [l])).Perm
        (live ++ ([w, l] ++ (sides pending ++ out))) := by
        simp only [List.append_assoc]
        refine Perm.append_left live (Perm.append_left [w] ?_)
        rw [← List.append_assoc]
        exact perm_append_comm
    _ |>.Perm (live ++ ([a, b] ++ (sides pending ++ out))) := (hab.append_right _).append_left _
    _ |>.Perm field := by simpa [List.append_assoc] using h.perm

theorem Over.length_eq (h : Over field ⟨live, pending, out⟩) :
    live.length + 2 * pending.length + out.length = field.length := by
  simpa [length_sides, Nat.add_assoc] using h.perm.length_eq

/-- A bracket with nothing left to pair has one survivor; everybody else lost. -/
theorem Over.finished (h : Over field ⟨live, [], out⟩) (hne : field ≠ []) (hl : live.length ≤ 1) :
    ∃ w, live = [w] ∧ (w :: out).Perm field := by
  have hlive : live ≠ [] := by simpa using h.alive hne
  obtain ⟨w, rfl⟩ := length_eq_one_iff.mp
    (Nat.le_antisymm hl (length_pos_of_ne_nil hlive))
  exact ⟨w, rfl, by simpa using h.perm⟩

theorem Over.mem_field (h : Over field ⟨live, pending, out⟩) {a : α}
    (ha : a ∈ live ∨ a ∈ sides pending ∨ a ∈ out) : a ∈ field :=
  h.perm.mem_iff.mp (by simpa [or_assoc] using ha)

/-- In a field without repetitions a pending pair has two different sides, and
neither of them is out. -/
theorem Over.pair_in_play (h : Over field ⟨live, pending, out⟩) (hn : field.Nodup) {p : α × α}
    (hp : p ∈ pending) : p.1 ≠ p.2 ∧ p.1 ∉ out ∧ p.2 ∉ out := by
  have hall := h.perm.nodup_iff.mpr hn
  have hdisj := (nodup_append.mp hall).2.2
  obtain ⟨h1, h2⟩ := mem_sides_of_mem hp
  refine ⟨ne_of_mem_pairs hp (nodup_append.mp (nodup_append.mp hall).1).2.1, ?_, ?_⟩
  · exact fun ho => hdisj p.1 (by simp [h1]) p.1 ho rfl
  · exact fun ho => hdisj p.2 (by simp [h2]) p.2 ho rfl

theorem Over.map {β : Type} (f : α → β) (h : Over field ⟨live, pending, out⟩) :
    Over (field.map f) ⟨live.map f, pending.map (Prod.map f f), out.map f⟩ := by
  refine ⟨?_, fun hne => ?_⟩
  · rw [sides_map, ← map_append, ← map_append]
    exact h.perm.map f
  · rw [sides_map, ← map_append]
    simpa using h.alive (by simpa using hne)

theorem Over.nodup_out (h : Over field ⟨live, pending, out⟩) (hn : field.Nodup) : out.Nodup :=
  (nodup_append.mp (h.perm.nodup_iff.mpr hn)).2.1

end Bracket
end Zicato.Knockout
