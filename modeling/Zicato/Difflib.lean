import Zicato.Splice

/-! # `difflib.SequenceMatcher` without junk

Matching blocks are found by taking the longest one, the earliest of these in
the first list and then in the second, and going on left and right of it.  The
opcodes are what lies between the blocks and the blocks themselves.  What is used
of them is that the opcodes other than `equal` are a walk through both lists. -/
open List
namespace Zicato.Difflib

open Splice

variable {α : Type} [DecidableEq α]

/-- The length of the longest common prefix. -/
def commonPrefix : List α → List α → Nat
  | a :: as, b :: bs => if a = b then commonPrefix as bs + 1 else 0
  | _, _ => 0

/-- `Match`. -/
structure Match where
  a : Nat
  b : Nat
  size : Nat
  deriving DecidableEq, Repr

/-- The longer of two matches, the earlier one when they are equally long. -/
def Match.longer (best other : Match) : Match := if best.size < other.size then other else best

/-- The longest match that starts at the two positions. -/
def matchAt (a b : List α) (ahi bhi i j : Nat) : Match where
  a := i
  b := j
  size := commonPrefix (slice a i ahi) (slice b j bhi)

/-- `find_longest_match`: of the blocks common to `a[alo:ahi]` and `b[blo:bhi]` a
longest one, the one that starts earliest in `a` and then in `b`. -/
def findLongestMatch (a b : List α) (alo ahi blo bhi : Nat) : Match :=
  ((List.range' alo (ahi - alo)).flatMap fun i =>
    (List.range' blo (bhi - blo)).map (matchAt a b ahi bhi i)).foldl Match.longer ⟨alo, blo, 0⟩

/-- The blocks between the bounds in the order of the lists.  Each level of the
search removes an element of `a[alo:ahi]`, which bounds its depth. -/
def matchingBlocks (a b : List α) : Nat → Nat → Nat → Nat → Nat → List Match
  | 0, _, _, _, _ => []
  | depth + 1, alo, ahi, blo, bhi =>
      let m := findLongestMatch a b alo ahi blo bhi
      if m.size = 0 then []
      else
        (if alo < m.a ∧ blo < m.b then matchingBlocks a b depth alo m.a blo m.b else []) ++
        m :: (if m.a + m.size < ahi ∧ m.b + m.size < bhi then
          matchingBlocks a b depth (m.a + m.size) ahi (m.b + m.size) bhi else [])

/-- Adjacent blocks joined, the first of them pending. -/
def collapse : Match → List Match → List Match
  | pending, [] => if pending.size = 0 then [] else [pending]
  | pending, m :: ms =>
      if pending.a + pending.size = m.a ∧ pending.b + pending.size = m.b then
        collapse { pending with size := pending.size + m.size } ms
      else (if pending.size = 0 then [] else [pending]) ++ collapse m ms

/-- `get_matching_blocks`: the last block is empty and at the end of both lists. -/
def getMatchingBlocks (a b : List α) : List Match :=
  collapse ⟨0, 0, 0⟩ (matchingBlocks a b (a.length + 1) 0 a.length 0 b.length) ++
    [⟨a.length, b.length, 0⟩]

/-- The tag of an opcode. -/
inductive Tag
  | replace
  | delete
  | insert
  | equal
  deriving DecidableEq, Repr

/-- An opcode of `get_opcodes`. -/
structure Opcode where
  tag : Tag
  hunk : Hunk
  deriving DecidableEq, Repr

/-- What turns the elements before a block into each other. -/
def gapOpcode (i j : Nat) (m : Match) : List Opcode :=
  if i < m.a ∧ j < m.b then [⟨.replace, ⟨i, m.a, j, m.b⟩⟩]
  else if i < m.a then [⟨.delete, ⟨i, m.a, j, m.b⟩⟩]
  else if j < m.b then [⟨.insert, ⟨i, m.a, j, m.b⟩⟩]
  else []

/-- The opcode of a matching block. -/
def equalOpcode (m : Match) : List Opcode :=
  if m.size = 0 then [] else [⟨.equal, ⟨m.a, m.a + m.size, m.b, m.b + m.size⟩⟩]

/-- The opcodes of the matching blocks from a place on. -/
def opcodes : Nat → Nat → List Match → List Opcode
  | _, _, [] => []
  | i, j, m :: ms =>
      gapOpcode i j m ++ equalOpcode m ++ opcodes (m.a + m.size) (m.b + m.size) ms

example : (opcodes 0 0 [⟨1, 0, 2⟩]).map (·.tag) = [.delete, .equal] := by decide +kernel

/-- `SequenceMatcher(a=a, b=b, autojunk=False).get_opcodes()`. -/
def getOpcodes (a b : List α) : List Opcode := opcodes 0 0 (getMatchingBlocks a b)

/-- The ranges of the opcodes other than `equal`. -/
def changes (ops : List Opcode) : List Hunk :=
  (ops.filter (·.tag ≠ .equal)).map (·.hunk)

/-! ## Blocks that follow one another -/

/-- The blocks lie in order between the two pairs of offsets, each a common piece
of both lists. -/
def Run (a b : List α) : Nat → Nat → Nat → Nat → List Match → Prop
  | i, j, i', j', [] => i ≤ i' ∧ j ≤ j'
  | i, j, i', j', m :: ms =>
      i ≤ m.a ∧ j ≤ m.b ∧ slice a m.a (m.a + m.size) = slice b m.b (m.b + m.size) ∧
        Run a b (m.a + m.size) (m.b + m.size) i' j' ms

variable {a b : List α} {i j : Nat} {ms : List Match}

omit [DecidableEq α] in
theorem Run.le {i' j' : Nat} (h : Run a b i j i' j' ms) : i ≤ i' ∧ j ≤ j' := by
  induction ms generalizing i j with
  | nil => exact h
  | cons m ms ih =>
    obtain ⟨h1, h2, -, hrest⟩ := h
    have := ih hrest
    omega

omit [DecidableEq α] in
theorem Run.append {i' j' i'' j'' : Nat} {ns : List Match} (h : Run a b i j i' j' ms)
    (h' : Run a b i' j' i'' j'' ns) : Run a b i j i'' j'' (ms ++ ns) := by
  induction ms generalizing i j with
  | nil =>
    cases ns with
    | nil => exact ⟨Nat.le_trans h.1 h'.1, Nat.le_trans h.2 h'.2⟩
    | cons n ns => exact ⟨Nat.le_trans h.1 h'.1, Nat.le_trans h.2 h'.2.1, h'.2.2⟩
  | cons m ms ih =>
    obtain ⟨h1, h2, heq, hrest⟩ := h
    exact ⟨h1, h2, heq, ih hrest⟩

theorem commonPrefix_le (l r : List α) :
    commonPrefix l r ≤ l.length ∧ commonPrefix l r ≤ r.length := by
  fun_induction commonPrefix l r with
  | case1 as b bs ih =>
    simp only [length_cons]
    omega
  | case2 => simp
  | case3 => simp

theorem take_commonPrefix (l r : List α) :
    l.take (commonPrefix l r) = r.take (commonPrefix l r) := by
  fun_induction commonPrefix l r with
  | case1 as b bs ih => simpa [take_succ_cons] using ih
  | case2 => simp
  | case3 => simp

/-- A match between the bounds. -/
def Between (a b : List α) (alo ahi blo bhi : Nat) (m : Match) : Prop :=
  Run a b alo blo ahi bhi [m]

/-- A match lies within its bounds. -/
theorem matchAt_between {alo ahi blo bhi : Nat} (ha : ahi ≤ a.length) (hb : bhi ≤ b.length)
    (hi : alo ≤ i ∧ i < ahi) (hj : blo ≤ j ∧ j < bhi) :
    Between a b alo ahi blo bhi (matchAt a b ahi bhi i j) := by
  have hle := commonPrefix_le (slice a i ahi) (slice b j bhi)
  have htake := take_commonPrefix (slice a i ahi) (slice b j bhi)
  rw [length_slice, length_slice] at hle
  refine ⟨hi.1, hj.1, ?_, ?_, ?_⟩
  · rw [take_slice a (by omega), take_slice b (by omega)] at htake
    exact htake
  · simp only [matchAt]
    omega
  · simp only [matchAt]
    omega

/-- The longest match lies within its bounds. -/
theorem findLongestMatch_between {alo ahi blo bhi : Nat} (ha : ahi ≤ a.length) (hb : bhi ≤ b.length)
    (hlo : alo ≤ ahi) (hlo' : blo ≤ bhi) :
    Between a b alo ahi blo bhi (findLongestMatch a b alo ahi blo bhi) := by
  -- the search starts from the empty match at the bounds and keeps one of its candidates
  have hfold : ∀ (ms : List Match) (best : Match), Between a b alo ahi blo bhi best →
      (∀ m ∈ ms, Between a b alo ahi blo bhi m) →
      Between a b alo ahi blo bhi (ms.foldl Match.longer best) := by
    intro ms
    induction ms with
    | nil => exact fun best hbest _ => hbest
    | cons m ms ih =>
      intro best hbest hall
      refine ih _ ?_ fun m' hm' => hall m' (mem_cons_of_mem _ hm')
      unfold Match.longer
      split
      · exact hall m mem_cons_self
      · exact hbest
  refine hfold _ _ ⟨Nat.le_refl _, Nat.le_refl _, by simp [slice], hlo, hlo'⟩ ?_
  intro m hm
  simp only [mem_flatMap, mem_map, mem_range'_1] at hm
  obtain ⟨i, hi, j, hj, rfl⟩ := hm
  exact matchAt_between ha hb (by omega) (by omega)

/-- The matching blocks are a run of matches. -/
theorem matchingBlocks_run (depth : Nat) {alo ahi blo bhi : Nat} (ha : ahi ≤ a.length)
    (hb : bhi ≤ b.length) (hlo : alo ≤ ahi) (hlo' : blo ≤ bhi) :
    Run a b alo blo ahi bhi (matchingBlocks a b depth alo ahi blo bhi) := by
  induction depth generalizing alo ahi blo bhi with
  | zero => exact ⟨hlo, hlo'⟩
  | succ depth ih =>
    rw [matchingBlocks]
    have hm := findLongestMatch_between ha hb hlo hlo'
    generalize findLongestMatch a b alo ahi blo bhi = m at hm ⊢
    obtain ⟨h1, h2, heq, h3, h4⟩ := hm
    split
    · exact ⟨hlo, hlo'⟩
    · have hleft : Run a b alo blo m.a m.b
          (if alo < m.a ∧ blo < m.b then matchingBlocks a b depth alo m.a blo m.b else []) := by
        split
        · exact ih (by omega) (by omega) h1 h2
        · exact ⟨h1, h2⟩
      refine hleft.append ⟨Nat.le_refl _, Nat.le_refl _, heq, ?_⟩
      split
      · exact ih ha hb h3 h4
      · exact ⟨h3, h4⟩

omit [DecidableEq α] in
/-- Joining adjacent blocks leaves a run of matches. -/
theorem collapse_run {i' j' : Nat} {pending : Match} (h : Run a b i j i' j' (pending :: ms)) :
    Run a b i j i' j' (collapse pending ms) := by
  induction ms generalizing i j pending with
  | nil =>
    rw [collapse]
    split
    · exact h.le
    · exact h
  | cons m ms ih =>
    obtain ⟨h1, h2, heq, h3, h4, heq', hrest⟩ := h
    rw [collapse]
    split
    · rename_i hadj
      refine ih ⟨h1, h2, ?_, ?_⟩
      · -- two adjacent common pieces make one
        have hjoin : ∀ (l : List α) (k : Nat), slice l k (k + (pending.size + m.size)) =
            slice l k (k + pending.size) ++ slice l (k + pending.size) (k + pending.size + m.size) :=
          fun l k => by
            rw [slice_append_slice l (by omega) (by omega), Nat.add_assoc]
        rw [hjoin a, hjoin b, heq, hadj.1, hadj.2, heq']
      · simpa only [← Nat.add_assoc, hadj.1, hadj.2] using hrest
    · split
      · exact ih ⟨by omega, by omega, heq', hrest⟩
      · exact ⟨h1, h2, heq, ih ⟨h3, h4, heq', hrest⟩⟩

/-! ## The opcodes -/

omit [DecidableEq α] in
theorem changes_append (ops ops' : List Opcode) :
    changes (ops ++ ops') = changes ops ++ changes ops' := by
  simp [changes]

theorem changes_equalOpcode (m : Match) : changes (equalOpcode m) = [] := by
  unfold equalOpcode changes
  split <;> simp

theorem changes_gapOpcode (i j : Nat) (m : Match) :
    changes (gapOpcode i j m) = if i < m.a ∨ j < m.b then [⟨i, m.a, j, m.b⟩] else [] := by
  unfold gapOpcode changes
  by_cases hi : i < m.a <;> by_cases hj : j < m.b <;> simp [hi, hj]

omit [DecidableEq α] in
/-- One block of a walk: what lies before it is a change, and the block itself is
skipped with whatever was equal before. -/
theorem aligned_block {off otherOff : Nat} {m : Match} {rest : List Hunk} (hoff : off ≤ i)
    (hother : otherOff ≤ j) (heq : slice a off i = slice b otherOff j) (hi : i ≤ m.a) (hj : j ≤ m.b)
    (hpiece : slice a m.a (m.a + m.size) = slice b m.b (m.b + m.size))
    (hrest : ∀ {o p : Nat}, o ≤ m.a + m.size → p ≤ m.b + m.size →
      slice a o (m.a + m.size) = slice b p (m.b + m.size) → Aligned a b o p rest) :
    Aligned a b off otherOff ((if i < m.a ∨ j < m.b then [⟨i, m.a, j, m.b⟩] else []) ++ rest) := by
  split
  · exact .cons hoff hi hother hj heq
      (hrest (Nat.le_add_right m.a m.size) (Nat.le_add_right m.b m.size) hpiece)
  · have hi' : i = m.a := by omega
    have hj' : j = m.b := by omega
    refine hrest (by omega) (by omega) ?_
    rw [← slice_append_slice a hoff (by omega), ← slice_append_slice b hother (by omega), heq,
      hi', hj', hpiece]

omit [DecidableEq α] in
/-- The opcodes of a run account for both sequences. -/
theorem aligned_opcodes {off otherOff : Nat} (hoff : off ≤ i) (hother : otherOff ≤ j)
    (heq : slice a off i = slice b otherOff j) (h : Run a b i j a.length b.length ms) :
    Aligned a b off otherOff (changes (opcodes i j (ms ++ [⟨a.length, b.length, 0⟩]))) := by
  induction ms generalizing off otherOff i j with
  | nil =>
    simp only [nil_append, opcodes, changes_append, changes_equalOpcode, changes_gapOpcode,
      append_nil]
    have hlast : ∀ {o p : Nat}, o ≤ a.length + 0 → p ≤ b.length + 0 →
        slice a o (a.length + 0) = slice b p (b.length + 0) → Aligned a b o p [] :=
      fun ho hp hskip => .nil ho hp (by simpa [slice] using hskip)
    have hend := aligned_block (m := ⟨a.length, b.length, 0⟩) hoff hother heq h.1 h.2
      (by simp [slice]) hlast
    simpa using hend
  | cons m ms ih =>
    obtain ⟨h1, h2, hpiece, hrest⟩ := h
    simp only [cons_append, opcodes, changes_append, changes_equalOpcode, changes_gapOpcode,
      append_nil]
    exact aligned_block hoff hother heq h1 h2 hpiece fun ho hp hskip => ih ho hp hskip hrest

/-- The opcodes other than `equal` lead through both lists. -/
theorem aligned_getOpcodes (a b : List α) : Aligned a b 0 0 (changes (getOpcodes a b)) := by
  have hrun := matchingBlocks_run (a.length + 1) (Nat.le_refl a.length) (Nat.le_refl b.length)
    (Nat.zero_le _) (Nat.zero_le _)
  refine aligned_opcodes (Nat.le_refl 0) (Nat.le_refl 0) rfl (collapse_run ?_)
  exact ⟨Nat.le_refl 0, Nat.le_refl 0, by simp [slice], hrun⟩

end Zicato.Difflib
