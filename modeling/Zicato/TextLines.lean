import Zicato.LineEnds
import Zicato.PyText

/-! # The lines of a text

`str.splitlines` on a file as it is and on the file as text mode reads it: the
lines are the same but for their ends. -/
open List Zicato.Lines
namespace Zicato

theorem List.dropPrefix?_eq_some {α : Type} [DecidableEq α] {l p r : List α} :
    l.dropPrefix? p = some r ↔ l = p ++ r := by
  induction p generalizing l with
  | nil =>
    rw [dropPrefix?, Option.some.injEq, nil_append]
  | cons a p ih =>
    cases l with
    | nil => simp [dropPrefix?]
    | cons b l =>
      rw [dropPrefix?]
      by_cases h : b = a
      · simp [h, ih]
      · simp [h]

namespace Text

theorem encode_append (a b : Text) : encode (a ++ b) = encode a ++ encode b := by
  simp [encode]

theorem encode_eq (text : Text) : (⟨(encode text).toArray⟩ : ByteArray) = text.utf8Encode := by
  refine ByteArray.ext ?_
  rw [utf8Encode, data_toByteArray]
  rfl

theorem decode_encode (text : Text) : decode (encode text) = some text := by
  rw [decode, encode_eq]
  simp

theorem isSpace_of_isLineBreak {c : Char} (h : isLineBreak c = true) : isSpace c = true := by
  simp only [isLineBreak, isSpace, Bool.or_eq_true, Bool.and_eq_true, decide_eq_true_eq,
    beq_iff_eq] at h ⊢
  omega

theorem universalNewlines_cons {a : Char} (h : a ≠ '\r') (l : Text) :
    universalNewlines (a :: l) = a :: universalNewlines l := by
  rw [universalNewlines]
  · intro rest heq
    exact absurd heq h
  · intro heq
    exact absurd heq h

theorem universalNewlines_return {l : Text} (h : l.head? ≠ some '\n') :
    universalNewlines ('\r' :: l) = '\n' :: universalNewlines l := by
  cases l with
  | nil => rfl
  | cons b l =>
    rw [universalNewlines]
    intro rest heq
    simp_all

theorem splitLinesKeep_end {a : Char} {l : Text} (hpair : ¬ (a = '\r' ∧ l.head? = some '\n'))
    (ha : isLineBreak a = true) : splitLinesKeep (a :: l) = [a] :: splitLinesKeep l :=
  splitEnds_end hpair ha

theorem splitLinesKeep_inner {a : Char} {l : Text} (hpair : ¬ (a = '\r' ∧ l.head? = some '\n'))
    (ha : isLineBreak a = false) :
    splitLinesKeep (a :: l) = Lines.prepend [a] (splitLinesKeep l) :=
  splitEnds_inner hpair ha

/-- The newline translation keeps the lines apart as they are. -/
theorem splitLinesKeep_universalNewlines (text : Text) :
    splitLinesKeep (universalNewlines text) = (splitLinesKeep text).map universalNewlines := by
  induction text using splitEnds_induction '\r' '\n' with
  | nil => rfl
  | pair l ih =>
    have htail : splitLinesKeep ('\r' :: '\n' :: l) = ['\r', '\n'] :: splitLinesKeep l :=
      splitEnds_pair l
    rw [htail, universalNewlines, splitLinesKeep_end (by simp) (by decide), ih]
    rfl
  | step a l hpair ih =>
    by_cases ha : a = '\r'
    · subst ha
      have hhead : l.head? ≠ some '\n' := fun h => hpair ⟨rfl, h⟩
      rw [universalNewlines_return hhead, splitLinesKeep_end (by simp) (by decide),
        splitLinesKeep_end hpair (by decide), ih]
      rfl
    · rw [universalNewlines_cons ha]
      have hpair' : ¬ (a = '\r' ∧ (universalNewlines l).head? = some '\n') := fun h => ha h.1
      by_cases hend : isLineBreak a = true
      · rw [splitLinesKeep_end hpair' hend, splitLinesKeep_end hpair hend, ih, map_cons,
          universalNewlines_cons ha]
        rfl
      · have hend : isLineBreak a = false := by simpa using hend
        rw [splitLinesKeep_inner hpair' hend, splitLinesKeep_inner hpair hend, ih]
        cases splitLinesKeep l with
        | nil => simp [Lines.prepend, universalNewlines_cons ha, universalNewlines]
        | cons line lines => simp [Lines.prepend, universalNewlines_cons ha]

/-- The end of a line: none, a pair or one character. -/
inductive IsTerminator : Text → Prop
  | none : IsTerminator []
  | pair : IsTerminator ['\r', '\n']
  | single {c : Char} (h : isLineBreak c = true) : IsTerminator [c]

variable {text line body : Text}

/-- A line is its content and an end. -/
theorem exists_terminator (h : line ∈ splitLinesKeep text) :
    ∃ body ending, line = body ++ ending ∧ (∀ c ∈ body, isLineBreak c = false) ∧
      IsTerminator ending := by
  induction text using splitEnds_induction '\r' '\n' generalizing line with
  | nil => simp [splitLinesKeep, Lines.splitEnds] at h
  | pair l ih =>
    rw [splitLinesKeep, splitEnds_pair] at h
    rcases mem_cons.mp h with rfl | h
    · exact ⟨[], ['\r', '\n'], rfl, by simp, .pair⟩
    · exact ih h
  | step a l hpair ih =>
    by_cases hend : isLineBreak a = true
    · rw [splitLinesKeep_end hpair hend] at h
      rcases mem_cons.mp h with rfl | h
      · exact ⟨[], [a], rfl, by simp, .single hend⟩
      · exact ih h
    · have hend : isLineBreak a = false := by simpa using hend
      rw [splitLinesKeep_inner hpair hend] at h
      cases hlines : splitLinesKeep l with
      | nil =>
        rw [hlines] at h
        obtain rfl : line = [a] := by simpa [Lines.prepend] using h
        exact ⟨[a], [], rfl, by simpa using hend, .none⟩
      | cons first lines =>
        rw [hlines] at h ih
        rcases mem_cons.mp h with rfl | h
        · obtain ⟨body, ending, rfl, hbody, hending⟩ := ih mem_cons_self
          exact ⟨a :: body, ending, rfl, forall_mem_cons.mpr ⟨hend, hbody⟩, hending⟩
        · exact ih (mem_cons_of_mem _ h)

theorem rdropWhile_append {p : Char → Bool} {ending : Text} (h : ∀ c ∈ ending, p c = true)
    (hbody : ∀ c ∈ body, p c = false) : (body ++ ending).rdropWhile p = body := by
  rw [rdropWhile, reverse_append, dropWhile_append_of_pos (by simpa using h)]
  cases hrev : body.reverse with
  | nil => simp [reverse_eq_nil_iff.mp hrev]
  | cons c cs =>
    have hc : p c = false := hbody c (mem_reverse.mp (by simp [hrev]))
    rw [dropWhile_cons_of_neg (by simp [hc]), ← hrev, reverse_reverse]

theorem rdropWhile_eq_self {p : Char → Bool} (hbody : ∀ c ∈ body, p c = false) :
    body.rdropWhile p = body := by
  have hdrop := rdropWhile_append (fun c (hc : c ∈ []) => absurd hc not_mem_nil) hbody
  rwa [append_nil] at hdrop

theorem universalNewlines_of_notMem (h : '\r' ∉ text) : universalNewlines text = text := by
  induction text with
  | nil => rfl
  | cons a text ih =>
    have ha : a ≠ '\r' := fun he => h (by simp [he])
    rw [universalNewlines_cons ha, ih fun hm => h (mem_cons_of_mem _ hm)]

theorem notMem_universalNewlines (text : Text) : '\r' ∉ universalNewlines text := by
  induction text using splitEnds_induction '\r' '\n' with
  | nil => simp [universalNewlines]
  | pair l ih => simp [universalNewlines, ih]
  | step a l hpair ih =>
    by_cases ha : a = '\r'
    · subst ha
      rw [universalNewlines_return fun h => hpair ⟨rfl, h⟩]
      simp [ih]
    · rw [universalNewlines_cons ha]
      simp [ih, Ne.symm ha]

/-- Line ends are translated piece by piece, unless the cut splits one. -/
theorem universalNewlines_append {x y : Text}
    (h : ¬ (x.getLast? = some '\r' ∧ y.head? = some '\n')) :
    universalNewlines (x ++ y) = universalNewlines x ++ universalNewlines y := by
  induction x using splitEnds_induction '\r' '\n' with
  | nil => rfl
  | pair l ih =>
    have hl : ¬ (l.getLast? = some '\r' ∧ y.head? = some '\n') := by
      intro hpair
      refine h ⟨?_, hpair.2⟩
      have hne : l ≠ [] := by
        rintro rfl
        cases hpair.1
      rw [getLast?_cons_of_ne_nil (by simp), getLast?_cons_of_ne_nil hne]
      exact hpair.1
    rw [cons_append, cons_append, universalNewlines, universalNewlines, ih hl,
      cons_append]
  | step a l hpair ih =>
    have hl : ¬ (l.getLast? = some '\r' ∧ y.head? = some '\n') := by
      intro hlast
      refine h ⟨?_, hlast.2⟩
      have hne : l ≠ [] := by
        rintro rfl
        cases hlast.1
      rw [getLast?_cons_of_ne_nil hne]
      exact hlast.1
    by_cases ha : a = '\r'
    · subst ha
      have hhead : l.head? ≠ some '\n' := fun hl => hpair ⟨rfl, hl⟩
      have hhead' : (l ++ y).head? ≠ some '\n' := by
        cases l with
        | nil => exact fun hy => h ⟨rfl, hy⟩
        | cons b l => exact hhead
      rw [cons_append, universalNewlines_return hhead', universalNewlines_return hhead, ih hl,
        cons_append]
    · rw [cons_append, universalNewlines_cons ha, universalNewlines_cons ha, ih hl,
        cons_append]

/-- What stripping leaves of a line of the translated text: the content, and a
separator that is no newline. -/
theorem chomp_universalNewlines {ending : Text} (hbody : ∀ c ∈ body, isLineBreak c = false)
    (hending : IsTerminator ending) :
    chomp (universalNewlines (body ++ ending)) = body ∨
      ∃ c, isLineBreak c = true ∧ chomp (universalNewlines (body ++ ending)) = body ++ [c] := by
  have hreturn : '\r' ∉ body := fun h => absurd (hbody _ h) (by decide)
  have hnewline : ∀ c ∈ body, (c == '\n') = false := by
    intro c hc
    by_contra he
    have hc' := hbody c hc
    rw [show c = '\n' by simpa using he] at hc'
    exact absurd hc' (by decide)
  have htranslate : ∀ tail, universalNewlines (body ++ tail) = body ++ universalNewlines tail := by
    intro tail
    clear hbody hnewline
    induction body with
    | nil => rfl
    | cons a body ih =>
      have ha : a ≠ '\r' := fun he => hreturn (by simp [he])
      rw [cons_append, universalNewlines_cons ha,
        ih fun hm => hreturn (mem_cons_of_mem _ hm), cons_append]
  have hreturn' : ∀ c ∈ body, (c == '\r') = false := fun c hc => by
    simpa using fun he : c = '\r' => hreturn (he ▸ hc)
  have hplain : chomp body = body := by
    rw [chomp, rdropWhile_eq_self hnewline, rdropWhile_eq_self hreturn']
  have hended : chomp (body ++ ['\n']) = body := by
    rw [chomp, rdropWhile_append (by simp) hnewline, rdropWhile_eq_self hreturn']
  rw [htranslate]
  cases hending with
  | none => exact .inl (by simpa [universalNewlines] using hplain)
  | pair => exact .inl hended
  | @single c hc =>
    by_cases hr : c = '\r'
    · subst hr
      exact .inl hended
    · by_cases hn : c = '\n'
      · subst hn
        exact .inl hended
      · refine .inr ⟨c, hc, ?_⟩
        rw [universalNewlines_of_notMem (by simpa using Ne.symm hr), chomp,
          rdropWhile_concat_neg _ _ _ (by simpa using hn),
          rdropWhile_concat_neg _ _ _ (by simpa using hr)]

/-! ## The line that is still open -/

/-- What follows the last line break. -/
def openLine (text : Text) : Text := text.rtakeWhile fun c => !isLineBreak c

/-- The lines that have an end. -/
def closedLines (text : Text) : Text := text.rdropWhile fun c => !isLineBreak c

theorem isLineBreak_openLine (text : Text) : ∀ c ∈ openLine text, isLineBreak c = false := by
  intro c hc
  simpa using mem_rtakeWhile_imp hc

theorem closedLines_append_openLine (text : Text) : closedLines text ++ openLine text = text := by
  rw [closedLines, openLine, rdropWhile, rtakeWhile, ← reverse_append,
    takeWhile_append_dropWhile, reverse_reverse]

theorem closedLines_whole (h : '\r' ∉ text) : Lines.Whole '\r' isLineBreak (closedLines text) := by
  by_cases hnil : closedLines text = []
  · exact .inl hnil
  · refine .inr ⟨_, _, (dropLast_append_getLast hnil).symm, ?_, ?_⟩
    · have hlast : ¬ (!isLineBreak ((closedLines text).getLast hnil)) = true :=
        rdropWhile_last_not _ text hnil
      simpa using hlast
    · intro hreturn
      refine h ?_
      rw [← closedLines_append_openLine text, ← hreturn]
      exact mem_append_left _ (getLast_mem hnil)

/-- A text with at most one line. -/
theorem splitLines_unbroken (h : ∀ c ∈ line, isLineBreak c = false) :
    splitLines line = if line = [] then [] else [line] := by
  have hkeep : splitLinesKeep line = if line = [] then [] else [line] := by
    have happend := @Lines.splitEnds_append _ _ '\r' '\n' _ [] _
      fun c hc => ⟨h c hc, fun heq => absurd (heq ▸ h c hc) (by decide)⟩
    rw [append_nil] at happend
    exact happend
  rw [splitLines, hkeep]
  split
  · rfl
  · rw [map_singleton, rdropWhile_eq_self h]

theorem splitLines_newline (h : ∀ c ∈ line, isLineBreak c = false) :
    splitLines (line ++ ['\n']) = [line] := by
  have hkeep : splitLinesKeep (line ++ ['\n']) = [line ++ ['\n']] :=
    splitEnds_append fun c hc => ⟨h c hc, fun heq => absurd (heq ▸ h c hc) (by decide)⟩
  rw [splitLines, hkeep, map_singleton, rdropWhile_append (by decide) h]

/-- What is written to the end of a text goes to the line that is open. -/
theorem splitLines_open (htext : '\r' ∉ text) (x : Text) :
    splitLines (text ++ x) = splitLines (closedLines text) ++ splitLines (openLine text ++ x) := by
  have hcut := splitEnds_cut (@Lines.Whole.cut _ _ '\n' _ _ (closedLines_whole htext)
    (openLine text ++ x))
  rw [← List.append_assoc, closedLines_append_openLine] at hcut
  rw [splitLines, splitLinesKeep, hcut, map_append]
  rfl

end Text
end Zicato
