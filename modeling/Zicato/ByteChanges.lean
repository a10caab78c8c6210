import Zicato.Difflib
import Zicato.Ledger

/-! # The byte ranges of an edit

`_byte_changes` of `epoch/containment.py`: what two files have in common at their
ends is cut off, the rest is compared line by line and each differing piece byte
by byte. -/
open List
namespace Zicato.Containment

open Splice Difflib

/-- `bytes.splitlines(keepends=True)`. -/
def splitLines (bytes : Bytes) : List Bytes :=
  Lines.splitEnds 13 10 (fun b => b == 10 || b == 13) bytes

/-- The length of the common suffix that the common prefix leaves. -/
def commonSuffix (before after : Bytes) : Nat :=
  min (min before.length after.length - commonPrefix before after)
    (commonPrefix before.reverse after.reverse)

example : commonSuffix [1, 2] [3, 2] = 1 := by decide +kernel

/-- What is left of two files behind the common prefix and before the common
suffix. -/
def window (before after : Bytes) : Hunk where
  start := commonPrefix before after
  stop := before.length - commonSuffix before after
  otherStart := commonPrefix before after
  otherStop := after.length - commonSuffix before after

/-- A hunk of lines in byte coordinates. -/
def lineHunk (left right : List Bytes) (hunk : Hunk) : Hunk where
  start := offset left hunk.start
  stop := offset left hunk.stop
  otherStart := offset right hunk.otherStart
  otherStop := offset right hunk.otherStop

/-- The byte diff of one hunk, in the coordinates of the hunk. -/
def hunkChanges (before after : Bytes) (hunk : Hunk) : List Hunk :=
  changes (getOpcodes (slice before hunk.start hunk.stop)
    (slice after hunk.otherStart hunk.otherStop))

/-- The changes of two byte strings between line anchors. -/
def lineChanges (before after : Bytes) : List Hunk :=
  let left := splitLines before
  let right := splitLines after
  (changes (getOpcodes left right)).flatMap fun hunk =>
    (hunkChanges before after (lineHunk left right hunk)).map
      (Hunk.shift (lineHunk left right hunk).start (lineHunk left right hunk).otherStart)

/-- `_byte_changes`. -/
def byteChanges (before after : Bytes) : List Hunk :=
  if before = after then []
  else
    let w := window before after
    (lineChanges (slice before w.start w.stop) (slice after w.otherStart w.otherStop)).map
      (Hunk.shift w.start w.otherStart)

theorem flatten_splitLines (bytes : Bytes) : (splitLines bytes).flatten = bytes :=
  Lines.flatten_splitEnds _ _ _ bytes

theorem aligned_hunkChanges (before after : Bytes) (hunk : Hunk) :
    Aligned (slice before hunk.start hunk.stop) (slice after hunk.otherStart hunk.otherStop) 0 0
      (hunkChanges before after hunk) :=
  aligned_getOpcodes _ _

/-- The changes of two texts account for every byte of both. -/
theorem aligned_lineChanges (before after : Bytes) :
    Aligned before after 0 0 (lineChanges before after) := by
  have hlines := aligned_getOpcodes (splitLines before) (splitLines after)
  have hrefined := hlines.refine
    (fun hunk => hunkChanges before after (lineHunk (splitLines before) (splitLines after) hunk))
    fun hunk hmem => by
      have hbounds := hlines.bounds hmem
      have hpiece := aligned_hunkChanges before after
        (lineHunk (splitLines before) (splitLines after) hunk)
      rw [← slice_flatten _ hbounds.2.1, ← slice_flatten _ hbounds.2.2.2.2.1, flatten_splitLines,
        flatten_splitLines]
      exact hpiece
  rw [flatten_splitLines, flatten_splitLines, offset_zero, offset_zero] at hrefined
  rw [lineChanges]
  exact hrefined

/-! ## The window -/

theorem commonSuffix_le (before after : Bytes) :
    commonPrefix before after + commonSuffix before after ≤ before.length ∧
      commonPrefix before after + commonSuffix before after ≤ after.length := by
  have hpref := commonPrefix_le before after
  unfold commonSuffix
  omega

/-- Dropping all but the last `n` elements is taking `n` of the reverse. -/
theorem drop_length_sub (l : Bytes) (n : Nat) :
    l.drop (l.length - n) = (l.reverse.take n).reverse := by
  rw [take_reverse, reverse_reverse]

theorem drop_window (before after : Bytes) :
    before.drop (window before after).stop = after.drop (window before after).otherStop := by
  have hle : commonSuffix before after ≤ commonPrefix before.reverse after.reverse :=
    Nat.min_le_right _ _
  have htake := congrArg (take (commonSuffix before after))
    (take_commonPrefix before.reverse after.reverse)
  rw [take_take, take_take, Nat.min_eq_left hle] at htake
  simp only [window]
  rw [drop_length_sub, drop_length_sub, htake]

theorem slice_window (before after : Bytes) :
    slice before 0 (window before after).start = slice after 0 (window before after).otherStart := by
  simpa only [slice, drop_zero, window] using take_commonPrefix before after

/-- The window is a range of both files. -/
theorem window_le (before after : Bytes) :
    (window before after).start ≤ (window before after).stop ∧
      (window before after).stop ≤ before.length ∧
      (window before after).otherStart ≤ (window before after).otherStop ∧
      (window before after).otherStop ≤ after.length := by
  have := commonSuffix_le before after
  simp only [window]
  omega

/-- The changes of two files account for every byte of both. -/
theorem aligned_byteChanges (before after : Bytes) :
    Aligned before after 0 0 (byteChanges before after) := by
  rw [byteChanges]
  split
  · rename_i heq
    exact .nil (Nat.zero_le _) (Nat.zero_le _) (by rw [heq])
  · obtain ⟨h1, h2, h3, h4⟩ := window_le before after
    have hend : Aligned before after (window before after).stop (window before after).otherStop [] :=
      .nil h2 h4 (drop_window before after)
    have hinside := (aligned_lineChanges
        (slice before (window before after).start (window before after).stop)
        (slice after (window before after).otherStart (window before after).otherStop)).embed
      h1 h2 h3 h4 hend
    rw [append_nil, Nat.add_zero, Nat.add_zero] at hinside
    exact hinside.extend (Nat.zero_le _) (Nat.zero_le _) (slice_window before after)

/-- The changes are disjoint ranges of both files, in order, with nothing but equal
bytes between them; putting the child's bytes in their place makes the parent the
child, and there are none only when the two are equal. -/
theorem byteChanges_describe_edit (before after : Bytes) :
    ((byteChanges before after).Pairwise fun a b =>
        a.stop ≤ b.start ∧ a.otherStop ≤ b.otherStart) ∧
      (∀ hunk ∈ byteChanges before after, hunk.start ≤ hunk.stop ∧ hunk.stop ≤ before.length ∧
        hunk.otherStart ≤ hunk.otherStop ∧ hunk.otherStop ≤ after.length) ∧
      substitute before ((byteChanges before after).map (Hunk.edit after)) = after ∧
      Aligned before after 0 0 (byteChanges before after) ∧
      (byteChanges before after = [] ↔ before = after) := by
  have haligned := aligned_byteChanges before after
  refine ⟨haligned.pairwise, fun hunk hmem => ?_, haligned.eq_substitute.symm, haligned, ?_⟩
  · have := haligned.bounds hmem
    omega
  · constructor
    · intro hnil
      have := haligned.eq_substitute
      simpa [hnil, substitute, substituteFrom] using this.symm
    · intro heq
      rw [byteChanges, if_pos heq]

end Zicato.Containment
