import Mathlib.Data.List.Basic

/-! # Substituting ranges of a list

A list of ordered, disjoint ranges with a replacement for each, what the
substitution leaves in place, and how a walk over pairs of ranges in two lists
shows that one is a substitution of the other. -/
open List
namespace Zicato.Splice

variable {α : Type}

/-- `l[lo:hi]`. -/
def slice (l : List α) (lo hi : Nat) : List α := (l.take hi).drop lo

/-- A range and what takes its place. -/
structure Edit (α : Type) where
  start : Nat
  stop : Nat
  new : List α

/-- The rest of the list from `off` on, with the ranges replaced. -/
def substituteFrom (l : List α) : Nat → List (Edit α) → List α
  | off, [] => l.drop off
  | off, e :: es => slice l off e.start ++ e.new ++ substituteFrom l e.stop es

/-- The list with the ranges replaced. -/
def substitute (l : List α) (edits : List (Edit α)) : List α := substituteFrom l 0 edits

/-- The ranges follow one another from `off` on and end within `n`. -/
def Ordered (n : Nat) : Nat → List (Edit α) → Prop
  | off, [] => off ≤ n
  | off, e :: es => off ≤ e.start ∧ e.start ≤ e.stop ∧ Ordered n e.stop es

/-- No range holds position `i`. -/
def Kept (edits : List (Edit α)) (i : Nat) : Prop := ∀ e ∈ edits, ¬ (e.start ≤ i ∧ i < e.stop)

/-- Where a kept position ends up. -/
def placeFrom : Nat → List (Edit α) → Nat → Nat
  | off, [], i => i - off
  | off, e :: es, i =>
      if i < e.start then i - off else (e.start - off) + e.new.length + placeFrom e.stop es i

@[simp] theorem length_slice (l : List α) (lo hi : Nat) :
    (slice l lo hi).length = min hi l.length - lo := by
  simp [slice]

variable {lo hi : Nat}

theorem getElem?_slice (l : List α) {k : Nat} (h : lo + k < hi) :
    (slice l lo hi)[k]? = l[lo + k]? := by
  simp [slice, getElem?_drop, h]

theorem slice_append_drop (l : List α) (h : lo ≤ hi) : slice l lo hi ++ l.drop hi = l.drop lo := by
  have hdrop : l.drop hi = (l.drop lo).drop (hi - lo) := by
    rw [drop_drop, Nat.add_sub_cancel' h]
  rw [slice, drop_take, hdrop, take_append_drop]

theorem slice_append_slice (l : List α) {mid : Nat} (h : lo ≤ mid) (h' : mid ≤ hi) :
    slice l lo mid ++ slice l mid hi = slice l lo hi := by
  have hmid : l.take mid = (l.take hi).take mid := by rw [take_take, Nat.min_eq_left h']
  have := slice_append_drop (l.take hi) h
  rw [slice, ← hmid] at this
  exact this

theorem take_slice (l : List α) {k : Nat} (h : lo + k ≤ hi) :
    (slice l lo hi).take k = slice l lo (lo + k) := by
  rw [slice, slice, take_drop, take_take, Nat.min_eq_left h]

/-! ## What is left in place -/

variable {off : Nat} {edits : List (Edit α)}

theorem Ordered.off_le {n : Nat} (h : Ordered n off edits) : off ≤ n := by
  induction edits generalizing off with
  | nil => exact h
  | cons e es ih => exact Nat.le_trans h.1 (Nat.le_trans h.2.1 (ih h.2.2))

variable {i : Nat}

theorem Kept.tail {e : Edit α} {es : List (Edit α)} (h : Kept (e :: es) i) :
    Kept es i := fun e' he' => h e' (mem_cons_of_mem e he')

/-- A kept position that is not before the first range is behind it. -/
theorem Kept.stop_le {e : Edit α} {es : List (Edit α)} (h : Kept (e :: es) i) (hi : ¬ i < e.start) :
    e.stop ≤ i := by
  have := h e mem_cons_self
  omega

variable {l : List α}

/-- What is outside the edits keeps its item. -/
theorem getElem?_placeFrom (h : Ordered l.length off edits) (hoff : off ≤ i) (hi : i < l.length)
    (hk : Kept edits i) : (substituteFrom l off edits)[placeFrom off edits i]? = l[i]? := by
  induction edits generalizing off with
  | nil =>
    rw [substituteFrom, placeFrom, getElem?_drop, Nat.add_sub_cancel' hoff]
  | cons e es ih =>
    obtain ⟨hstart, hstop, hrest⟩ := h
    have hlen : (slice l off e.start).length = e.start - off := by
      have := hrest.off_le
      rw [length_slice]
      omega
    rw [substituteFrom, placeFrom, List.append_assoc]
    by_cases hlt : i < e.start
    · rw [if_pos hlt, getElem?_append_left (by omega), getElem?_slice l (by omega),
        Nat.add_sub_cancel' hoff]
    · rw [if_neg hlt, getElem?_append_right (by omega), hlen,
        getElem?_append_right (by omega)]
      have hplace : e.start - off + e.new.length + placeFrom e.stop es i - (e.start - off)
          - e.new.length = placeFrom e.stop es i := by omega
      rw [hplace]
      exact ih hrest (hk.stop_le hlt) hk.tail

/-- What is outside the edits keeps its order. -/
theorem placeFrom_lt {n j : Nat} (h : Ordered n off edits) (hoff : off ≤ i) (hij : i < j)
    (hi : Kept edits i) (hj : Kept edits j) : placeFrom off edits i < placeFrom off edits j := by
  induction edits generalizing off with
  | nil =>
    simp only [placeFrom]
    omega
  | cons e es ih =>
    obtain ⟨hstart, hstop, hrest⟩ := h
    simp only [placeFrom]
    by_cases hlt : i < e.start
    · rw [if_pos hlt]
      split
      · omega
      · omega
    · have hlt' : ¬ j < e.start := by omega
      have := ih hrest (hi.stop_le hlt) hi.tail hj.tail
      rw [if_neg hlt, if_neg hlt']
      omega

/-- The positions outside the ranges keep their elements and their order. -/
theorem kept_in_order (h : Ordered l.length 0 edits) :
    ∃ place : Nat → Nat,
      (∀ i, i < l.length → Kept edits i → (substitute l edits)[place i]? = l[i]?) ∧
      ∀ i j, i < j → Kept edits i → Kept edits j → place i < place j :=
  ⟨placeFrom 0 edits, fun _ hi hk => getElem?_placeFrom h (Nat.zero_le _) hi hk,
    fun _ _ hij hi hj => placeFrom_lt h (Nat.zero_le _) hij hi hj⟩

/-! ## Pairs of ranges in two lists -/

/-- A range of one list and the range of another that stands for it. -/
structure Hunk where
  start : Nat
  stop : Nat
  otherStart : Nat
  otherStop : Nat
  deriving DecidableEq, Repr

/-- The range with the other list's elements for it. -/
def Hunk.edit (other : List α) (h : Hunk) : Edit α where
  start := h.start
  stop := h.stop
  new := slice other h.otherStart h.otherStop

/-- From the offsets on, the hunks follow one another in both lists and all that
lies between them is equal. -/
inductive Aligned (l other : List α) : Nat → Nat → List Hunk → Prop
  | nil {off otherOff : Nat} (hoff : off ≤ l.length) (hother : otherOff ≤ other.length)
      (hrest : l.drop off = other.drop otherOff) : Aligned l other off otherOff []
  | cons {off otherOff : Nat} {h : Hunk} {hs : List Hunk} (hoff : off ≤ h.start)
      (hstop : h.start ≤ h.stop) (hother : otherOff ≤ h.otherStart)
      (hotherStop : h.otherStart ≤ h.otherStop)
      (hgap : slice l off h.start = slice other otherOff h.otherStart)
      (htail : Aligned l other h.stop h.otherStop hs) : Aligned l other off otherOff (h :: hs)

variable {other : List α} {otherOff : Nat} {hunks : List Hunk}

theorem Aligned.ordered (h : Aligned l other off otherOff hunks) :
    Ordered l.length off (hunks.map (Hunk.edit other)) := by
  induction h with
  | nil hoff hother hrest => exact hoff
  | cons hoff hstop hother hotherStop hgap htail ih => exact ⟨hoff, hstop, ih⟩

/-- The rest of the other is the rest with the edits made. -/
theorem Aligned.drop_eq (h : Aligned l other off otherOff hunks) :
    other.drop otherOff = substituteFrom l off (hunks.map (Hunk.edit other)) := by
  induction h with
  | nil hoff hother hrest => exact hrest.symm
  | @cons off otherOff hunk hunks hoff hstop hother hotherStop hgap htail ih =>
    calc other.drop otherOff
        = slice other otherOff hunk.otherStart ++ other.drop hunk.otherStart :=
          (slice_append_drop other hother).symm
      _ = slice other otherOff hunk.otherStart ++ (slice other hunk.otherStart hunk.otherStop ++
            other.drop hunk.otherStop) := by rw [slice_append_drop other hotherStop]
      _ = substituteFrom l off ((hunk :: hunks).map (Hunk.edit other)) := by
          rw [map_cons, substituteFrom, ← hgap, ih, List.append_assoc]
          rfl

/-- A walk from the start of both lists makes the one a substitution of the other. -/
theorem Aligned.eq_substitute (h : Aligned l other 0 0 hunks) :
    other = substitute l (hunks.map (Hunk.edit other)) := by
  simpa [substitute] using h.drop_eq

theorem Aligned.off_le (h : Aligned l other off otherOff hunks) :
    off ≤ l.length ∧ otherOff ≤ other.length := by
  induction h with
  | nil hoff hother hrest => exact ⟨hoff, hother⟩
  | cons hoff hstop hother hotherStop hgap htail ih => omega

/-- Every hunk of a walk lies behind the offsets and inside both lists. -/
theorem Aligned.bounds (h : Aligned l other off otherOff hunks) {hunk : Hunk}
    (hmem : hunk ∈ hunks) :
    off ≤ hunk.start ∧ hunk.start ≤ hunk.stop ∧ hunk.stop ≤ l.length ∧
      otherOff ≤ hunk.otherStart ∧ hunk.otherStart ≤ hunk.otherStop ∧
      hunk.otherStop ≤ other.length := by
  induction h with
  | nil => simp at hmem
  | cons hoff hstop hother hotherStop hgap htail ih =>
    rcases mem_cons.mp hmem with rfl | hmem
    · have := htail.off_le
      omega
    · have := ih hmem
      omega

/-- The hunks of a walk are in order and disjoint in both lists. -/
theorem Aligned.pairwise (h : Aligned l other off otherOff hunks) :
    hunks.Pairwise fun a b => a.stop ≤ b.start ∧ a.otherStop ≤ b.otherStart := by
  induction h with
  | nil => exact .nil
  | cons _ _ _ _ _ htail ih =>
    refine .cons (fun b hb => ?_) ih
    have := htail.bounds hb
    omega

/-- An equal piece in front of a walk makes its first gap longer. -/
theorem Aligned.extend {mid otherMid : Nat} (hoff : off ≤ mid) (hother : otherOff ≤ otherMid)
    (heq : slice l off mid = slice other otherOff otherMid)
    (h : Aligned l other mid otherMid hunks) : Aligned l other off otherOff hunks := by
  cases h with
  | nil h1 h2 h3 =>
    refine .nil (Nat.le_trans hoff h1) (Nat.le_trans hother h2) ?_
    rw [← slice_append_drop l hoff, ← slice_append_drop other hother, heq, h3]
  | cons h1 h2 h3 h4 hgap htail =>
    refine .cons (Nat.le_trans hoff h1) h2 (Nat.le_trans hother h3) h4 ?_ htail
    rw [← slice_append_slice l hoff h1, ← slice_append_slice other hother h3, heq, hgap]

/-- The hunk moved by the offsets of the two lists it was found in. -/
def Hunk.shift (off otherOff : Nat) (h : Hunk) : Hunk where
  start := off + h.start
  stop := off + h.stop
  otherStart := otherOff + h.otherStart
  otherStop := otherOff + h.otherStop

variable {a b : Nat}

theorem slice_slice (l : List α) (h : lo + b ≤ hi) :
    slice (slice l lo hi) a b = slice l (lo + a) (lo + b) := by
  have hmin : min (lo + b) hi = lo + b := Nat.min_eq_left h
  rw [slice, slice, slice, ← drop_drop, take_drop, take_take, hmin]

theorem drop_slice (l : List α) (lo hi a : Nat) :
    (slice l lo hi).drop a = slice l (lo + a) hi := by
  rw [slice, slice, drop_drop]

/-- A walk through a piece of each list, followed by a walk from the ends of the
pieces on, is a walk through the lists. -/
theorem Aligned.embed {otherLo otherHi j : Nat} {rest : List Hunk} (hlo : lo ≤ hi)
    (hhi : hi ≤ l.length) (hotherLo : otherLo ≤ otherHi) (hotherHi : otherHi ≤ other.length)
    (h : Aligned (slice l lo hi) (slice other otherLo otherHi) i j hunks)
    (hrest : Aligned l other hi otherHi rest) :
    Aligned l other (lo + i) (otherLo + j) (hunks.map (Hunk.shift lo otherLo) ++ rest) := by
  induction h with
  | nil h1 h2 h3 =>
    rw [length_slice] at h1 h2
    rw [drop_slice, drop_slice] at h3
    exact hrest.extend (by omega) (by omega) h3
  | cons h1 h2 h3 h4 hgap htail ih =>
    have hbound := htail.off_le
    rw [length_slice, length_slice] at hbound
    rw [slice_slice l (by omega), slice_slice other (by omega)] at hgap
    refine .cons ?_ ?_ ?_ ?_ hgap ih
    all_goals
      simp only [Hunk.shift]
      omega

/-! ## Lists of pieces -/

/-- Where piece `k` starts in the whole. -/
def offset (pieces : List (List α)) (k : Nat) : Nat := (pieces.take k).flatten.length

section
variable (pieces : List (List α))
include pieces

@[simp] theorem offset_zero : offset pieces 0 = 0 := by
  simp [offset]

theorem offset_le (k : Nat) : offset pieces k ≤ pieces.flatten.length := by
  have h := congrArg length (congrArg flatten (take_append_drop k pieces))
  rw [flatten_append, length_append] at h
  unfold offset
  omega

theorem take_flatten (k : Nat) : pieces.flatten.take (offset pieces k) = (pieces.take k).flatten:= by
  have h := congrArg flatten (take_append_drop k pieces)
  rw [flatten_append] at h
  rw [← h, offset, take_left]

theorem drop_flatten (k : Nat) : pieces.flatten.drop (offset pieces k) = (pieces.drop k).flatten:= by
  have h := congrArg flatten (take_append_drop k pieces)
  rw [flatten_append] at h
  rw [← h, offset, drop_left]

theorem offset_take (h : a ≤ b) : offset (pieces.take b) a = offset pieces a:= by
  rw [offset, offset, take_take, Nat.min_eq_left h]

theorem offset_mono (h : a ≤ b) : offset pieces a ≤ offset pieces b := by
  rw [← offset_take pieces h]
  exact offset_le _ _

theorem slice_flatten (h : a ≤ b) :
    slice pieces.flatten (offset pieces a) (offset pieces b) = (slice pieces a b).flatten := by
  rw [slice, take_flatten, ← offset_take pieces h, drop_flatten, slice]

end

/-- A walk over the pieces of two lists, with a walk inside each hunk, is a walk
through the lists. -/
theorem Aligned.refine {pieces others : List (List α)} {j : Nat} (inner : Hunk → List Hunk)
    (h : Aligned pieces others i j hunks) (hinner : ∀ hunk ∈ hunks,
      Aligned (slice pieces hunk.start hunk.stop).flatten
        (slice others hunk.otherStart hunk.otherStop).flatten 0 0 (inner hunk)) :
    Aligned pieces.flatten others.flatten (offset pieces i) (offset others j)
      (hunks.flatMap fun hunk => (inner hunk).map
        (Hunk.shift (offset pieces hunk.start) (offset others hunk.otherStart))) := by
  induction h with
  | nil h1 h2 h3 =>
    refine .nil (offset_le _ _) (offset_le _ _) ?_
    rw [drop_flatten, drop_flatten, h3]
  | @cons i j hunk hunks h1 h2 h3 h4 hgap htail ih =>
    have hrest := ih fun hunk' hmem => hinner hunk' (mem_cons_of_mem _ hmem)
    have hhead := hinner hunk mem_cons_self
    rw [← slice_flatten pieces h2, ← slice_flatten others h4] at hhead
    have hwalk := hhead.embed (offset_mono pieces h2) (offset_le _ _) (offset_mono others h4)
      (offset_le _ _) hrest
    rw [flatMap_cons]
    refine Aligned.extend (offset_mono pieces h1) (offset_mono others h3) ?_ hwalk
    rw [slice_flatten pieces h1, slice_flatten others h3, hgap]

end Zicato.Splice
