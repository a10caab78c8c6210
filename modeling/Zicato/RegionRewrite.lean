import Zicato.RegionWalk

/-! # Rewriting one region of a text file

The lines of the file as it is are replaced; the scan reads the file with its
newlines translated.  The new body holds no marker, so that the scan finds every
other declaration where it was, and two rewritings do not see one another. -/
open List Option
namespace Zicato.Text

theorem getLast?_universalNewlines (l : Text) :
    (universalNewlines l).getLast? = l.getLast?.map fun c => if c = '\r' then '\n' else c := by
  induction l using Lines.splitEnds_induction '\r' '\n' with
  | nil => rfl
  | pair l ih =>
    rw [universalNewlines]
    cases l with
    | nil => rfl
    | cons b l =>
      have hne : universalNewlines (b :: l) ≠ [] := by
        intro hnil
        rw [hnil] at ih
        simp at ih
      rw [getLast?_cons_of_ne_nil hne, ih, getLast?_cons_cons, getLast?_cons_cons]
  | step a l hpair ih =>
    have hne : l ≠ [] → universalNewlines l ≠ [] := by
      intro hl hnil
      rw [hnil] at ih
      obtain ⟨c, hc⟩ := ne_none_iff_exists'.mp (mt getLast?_eq_none_iff.mp hl)
      rw [hc] at ih
      cases ih
    by_cases ha : a = '\r'
    · subst ha
      rw [universalNewlines_return fun hl => hpair ⟨rfl, hl⟩]
      cases l with
      | nil => rfl
      | cons b l =>
        rw [getLast?_cons_of_ne_nil (hne (by simp)), ih, getLast?_cons_cons]
    · rw [universalNewlines_cons ha]
      cases l with
      | nil => simp [universalNewlines, ha]
      | cons b l =>
        rw [getLast?_cons_of_ne_nil (hne (by simp)), ih, getLast?_cons_cons]

/-- A text that ends with a line end. -/
def Ended (x : Text) : Prop := x = [] ∨ ∃ body c, x = body ++ [c] ∧ isLineBreak c = true

variable {x : Text}

/-- A text that ends its last line is whole lines. -/
theorem Ended.whole (h : Ended x) : Lines.Whole '\r' isLineBreak (universalNewlines x) := by
  obtain rfl | ⟨body, c, rfl, hc⟩ := h
  · exact .inl rfl
  · have hlast := getLast?_universalNewlines (body ++ [c])
    rw [getLast?_concat, map_some, getLast?_eq_some_iff] at hlast
    obtain ⟨init, heq⟩ := hlast
    refine .inr ⟨init, _, heq, ?_, ?_⟩
    · split
      · decide
      · exact hc
    · split
      · decide
      · assumption

theorem newline_return_text {lines : List Text} (h : ∀ line ∈ lines, Unbroken line) :
    '\r' ∉ Lines.text '\n' lines := by
  intro hmem
  obtain ⟨line, hline, hc⟩ := mem_flatMap.mp hmem
  rcases mem_append.mp hc with hc | hc
  · exact (h line hline).return hc
  · revert hc
    decide

/-- Lines put between two parts of a text are lines of their own, but for a blank
first one behind a bare carriage return, which becomes a part of its end. -/
theorem lines_around {y : Text} {lines : List Text} (hx : Ended x)
    (hlines : ∀ line ∈ lines, Unbroken line) (hy : y.head? ≠ some '\n') :
    ∃ kept, (kept = lines ∨ lines = [] :: kept) ∧
      splitLinesKeep (universalNewlines (x ++ Lines.text '\n' lines ++ y)) =
        splitLinesKeep (universalNewlines x) ++ kept.map (· ++ ['\n']) ++
          splitLinesKeep (universalNewlines y) := by
  have hplain : ∀ kept : List Text, (∀ line ∈ kept, Unbroken line) →
      splitLinesKeep (universalNewlines x ++ Lines.text '\n' kept ++ universalNewlines y) =
        splitLinesKeep (universalNewlines x) ++ kept.map (· ++ ['\n']) ++
          splitLinesKeep (universalNewlines y) := by
    intro kept hkept
    rw [List.append_assoc, splitLinesKeep_whole hx.whole, splitLinesKeep_text hkept,
      List.append_assoc]
  rw [universalNewlines_append fun h => hy h.2]
  by_cases hmerge : x.getLast? = some '\r' ∧ (Lines.text '\n' lines).head? = some '\n'
  · obtain ⟨hlast, hhead⟩ := hmerge
    obtain ⟨init, rfl⟩ := getLast?_eq_some_iff.mp hlast
    cases lines with
    | nil => cases hhead
    | cons line lines =>
      obtain ⟨hline, hrest⟩ := forall_mem_cons.mp hlines
      have hnil : line = [] := by
        cases line with
        | nil => rfl
        | cons c line =>
          obtain rfl : c = '\n' := by simpa [Lines.text] using hhead
          exact absurd mem_cons_self hline.newline
      subst hnil
      refine ⟨lines, .inr rfl, ?_⟩
      have htext : Lines.text '\n' ([] :: lines) = '\n' :: Lines.text '\n' lines := rfl
      have hnewlines : universalNewlines (init ++ ['\r'] ++ Lines.text '\n' ([] :: lines)) =
          universalNewlines (init ++ ['\r']) ++ Lines.text '\n' lines := by
        rw [htext, List.append_assoc, singleton_append,
          universalNewlines_append (by simp), universalNewlines_append (by simp), universalNewlines,
          universalNewlines_of_notMem (newline_return_text hrest), List.append_assoc]
        rfl
      rw [hnewlines]
      exact hplain lines hrest
  · refine ⟨lines, .inl rfl, ?_⟩
    rw [universalNewlines_append hmerge, universalNewlines_of_notMem (newline_return_text hlines)]
    exact hplain lines hlines

theorem splitLinesKeep_parts {text : Text} {a b : List Text} (h : splitLinesKeep text = a ++ b) :
    splitLinesKeep a.flatten = a ∧ splitLinesKeep b.flatten = b := by
  have htake : (splitLinesKeep text).take a.length = a := by rw [h, take_left]
  have hdrop : (splitLinesKeep text).drop a.length = b := by rw [h, drop_left]
  constructor
  · have hlines : splitLinesKeep ((splitLinesKeep text).take a.length).flatten =
        (splitLinesKeep text).take a.length := Lines.splitEnds_take text a.length
    rwa [htake] at hlines
  · have hlines : splitLinesKeep ((splitLinesKeep text).drop a.length).flatten =
        (splitLinesKeep text).drop a.length := Lines.splitEnds_drop text a.length
    rwa [hdrop] at hlines

/-- Between two parts of the lines of a text a line ends. -/
theorem cut_parts {text : Text} {a b : List Text} (h : splitLinesKeep text = a ++ b) (hb : b ≠ []) :
    Lines.Cut '\r' '\n' isLineBreak a.flatten b.flatten := by
  have hk : a.length < (splitLinesKeep text).length := by
    rw [h, length_append]
    exact Nat.lt_add_of_pos_right (length_pos_iff.mpr hb)
  have hcut := @Lines.cut_take Char _ '\r' '\n' isLineBreak text (by decide) (by decide) a.length hk
  rw [← splitLinesKeep, h, take_left, drop_left] at hcut
  exact hcut

theorem ended_of_cut {y : Text} (h : Lines.Cut '\r' '\n' isLineBreak x y) : Ended x := by
  obtain rfl | ⟨body, c, rfl, hc, -⟩ := h
  · exact .inl rfl
  · exact .inr ⟨body, c, rfl, hc⟩

theorem Ended.cut {x y : Text} (h : Ended x) (hy : y.head? ≠ some '\n') :
    Lines.Cut '\r' '\n' isLineBreak x y := by
  obtain rfl | ⟨body, c, rfl, hc⟩ := h
  · exact .inl rfl
  · exact .inr ⟨body, c, rfl, hc, fun hpair => hy hpair.2⟩

theorem Ended.append (h : Ended x) (lines : List Text) : Ended (x ++ Lines.text '\n' lines) := by
  cases lines using List.reverseRecOn with
  | nil => simpa [Lines.text] using h
  | append_singleton lines line =>
    refine .inr ⟨x ++ Lines.text '\n' lines ++ line, '\n', ?_, by decide⟩
    rw [Lines.text_concat]
    simp only [List.append_assoc]

end Zicato.Text

namespace Zicato.Mutation

open Text

/-! ## What a line reads as -/

variable {grammar : MarkerSyntax}

theorem afterLeader_congr {a b : Text} (h : skipSpace a = skipSpace b) (token : String) :
    afterLeader grammar token a = afterLeader grammar token b := by
  rw [afterLeader, afterLeader, h]

theorem isEndMarker_congr {a b : Text} (h : skipSpace a = skipSpace b) :
    isEndMarker grammar a = isEndMarker grammar b := by
  rw [isEndMarker, isEndMarker, afterLeader_congr h]

theorem isGradingMarker_congr {isWord : Char → Bool} {a b : Text} (h : skipSpace a = skipSpace b) :
    isGradingMarker isWord grammar a = isGradingMarker isWord grammar b := by
  rw [isGradingMarker, isGradingMarker, afterLeader_congr h]

/-- Nothing stands behind a leader on an empty line. -/
theorem afterLeader_nil (grammar : MarkerSyntax) {token : String} (htoken : token ≠ "") :
    afterLeader grammar token [] = [] := by
  have hchars : token.toList ≠ [] := by simpa using htoken
  obtain ⟨c, rest, htoken⟩ := exists_cons_of_ne_nil hchars
  refine filterMap_eq_nil_iff.mpr fun leader _ => bind_eq_none_iff.mpr fun text htext => ?_
  have hempty : text = [] := by
    rw [skipSpace, dropWhile_nil, after?] at htext
    obtain ⟨head, heq, -⟩ := dropPrefix?_eq_some_iff.mp htext
    exact (append_eq_nil_iff.mp heq.symm).2
  rw [hempty, after?, skipSpace, dropWhile_nil, htoken]
  rfl

theorem isEndMarker_nil (grammar : MarkerSyntax) : isEndMarker grammar [] = false := by
  rw [isEndMarker, afterLeader_nil grammar (by decide)]
  rfl

theorem isGradingMarker_nil (isWord : Char → Bool) (grammar : MarkerSyntax) :
    isGradingMarker isWord grammar [] = false := by
  rw [isGradingMarker, afterLeader_nil grammar (by decide)]
  rfl

variable {line : Text}

theorem chomp_newline (h : Unbroken line) : chomp (line ++ ['\n']) = line := by
  have hnewline : ∀ c ∈ line, (c == '\n') = false := by
    intro c hc
    simpa using fun he : c = '\n' => h.newline (he ▸ hc)
  have hreturn : ∀ c ∈ line, (c == '\r') = false := by
    intro c hc
    simpa using fun he : c = '\r' => h.return (he ▸ hc)
  rw [chomp, rdropWhile_append (by simp) hnewline, rdropWhile_eq_self hreturn]

/-- No line that a region gets ends it. -/
theorem closesRegion_rewritten {indent content : Text} (hindent : ∀ c ∈ indent, isBlank c = true)
    (h : line ∈ rewrittenLines grammar indent content) :
    closesRegion grammar (line ++ ['\n']) = false := by
  obtain ⟨kept, hkept, hskip⟩ := rewritten_of_kept hindent h
  rw [closesRegion, chomp_newline (unbroken_rewrittenLines hindent line h), isEndMarker_congr hskip]
  have hfilter := (mem_filter.mp hkept).2
  rw [Bool.and_eq_true, Bool.not_eq_true'] at hfilter
  exact hfilter.2

/-- The region gets a line that reads as a sentinel exactly when one was kept. -/
theorem grading_rewritten_iff {isWord : Char → Bool} {indent content : Text}
    (hindent : ∀ c ∈ indent, isBlank c = true) :
    (∃ line ∈ rewrittenLines grammar indent content,
        isGradingMarker isWord grammar line = true) ↔
      ∃ kept ∈ keptLines grammar content, isGradingMarker isWord grammar kept = true := by
  constructor
  · rintro ⟨line, hline, hgrading⟩
    obtain ⟨kept, hkept, hskip⟩ := rewritten_of_kept hindent hline
    exact ⟨kept, hkept, by rwa [← isGradingMarker_congr hskip]⟩
  · rintro ⟨kept, hkept, hgrading⟩
    have hne : skipSpace kept ≠ [] := by
      intro hnil
      have hblank : skipSpace kept = skipSpace [] := hnil
      rw [isGradingMarker_congr hblank, isGradingMarker_nil] at hgrading
      cases hgrading
    obtain ⟨line, hline, hskip⟩ := kept_rewritten hindent hkept hne
    exact ⟨line, hline, by rwa [isGradingMarker_congr hskip]⟩

/-- A line that ends a region does not start with a newline. -/
theorem head?_of_closes {text : Text} (h : line ∈ splitLinesKeep text)
    (hcloses : closesRegion grammar (universalNewlines line) = true) : line.head? ≠ some '\n' := by
  intro hhead
  obtain ⟨body, ending, rfl, hbody, hending⟩ := exists_terminator h
  have hline : body ++ ending = ['\n'] := by
    cases body with
    | nil =>
      cases hending with
      | none => cases hhead
      | pair => cases hhead
      | single hc =>
        obtain rfl := some.inj hhead
        rfl
    | cons c body =>
      obtain rfl : c = '\n' := by simpa using hhead
      exact absurd (hbody '\n' mem_cons_self) (by decide)
  have hempty : chomp (universalNewlines ['\n']) = [] := by decide
  rw [hline, closesRegion, hempty, isEndMarker_nil] at hcloses
  cases hcloses

/-! ## The file with a region rewritten -/

/-- The lines of a file with `n` lines below `above` lines and a marker rewritten. -/
def rewriteLines (grammar : MarkerSyntax) (lines : List Text) (above n : Nat) (content : Text) :
    Text :=
  (lines.take (above + 1)).flatten ++
    reindentCodeRegion content (regionBaseIndent ((lines.drop (above + 1)).take n).flatten) grammar ++
    (lines.drop (above + 1 + n)).flatten

/-- What stands behind the region is kept as it is. -/
theorem rewriteLines_left (grammar : MarkerSyntax) {a : List Text} (b : List Text) {above n : Nat}
    (h : above + 1 + n ≤ a.length) (content : Text) :
    rewriteLines grammar (a ++ b) above n content =
      rewriteLines grammar a above n content ++ b.flatten := by
  rw [rewriteLines, rewriteLines, take_append_of_le_length (by omega),
    drop_append_of_le_length (by omega), drop_append_of_le_length h,
    take_append_of_le_length (by rw [length_drop]; omega), flatten_append]
  simp only [List.append_assoc]

/-- And so is what stands before it. -/
theorem rewriteLines_right (grammar : MarkerSyntax) (a b : List Text) (above n : Nat)
    (content : Text) :
    rewriteLines grammar (a ++ b) (a.length + above) n content =
      a.flatten ++ rewriteLines grammar b above n content := by
  rw [rewriteLines, rewriteLines]
  have htake : (a ++ b).take (a.length + above + 1) = a ++ b.take (above + 1) := by
    rw [Nat.add_assoc, take_length_add_append]
  have hdrop : ∀ k, (a ++ b).drop (a.length + k) = b.drop k :=
    fun k => drop_length_add_append k
  rw [htake, show a.length + above + 1 = a.length + (above + 1) by omega, hdrop,
    show a.length + (above + 1) + n = a.length + (above + 1 + n) by omega, hdrop,
    flatten_append]
  simp only [List.append_assoc]

/-- The indent of the body that a rewriting takes out. -/
def baseIndent (lines : List Text) (above n : Nat) : Text :=
  regionBaseIndent ((lines.drop (above + 1)).take n).flatten

/-- The body that a rewriting puts in. -/
def newBody (grammar : MarkerSyntax) (lines : List Text) (above n : Nat) (content : Text) :
    List Text :=
  rewrittenLines grammar (baseIndent lines above n) content

theorem rewriteLines_parts (grammar : MarkerSyntax) {x body y : List Text} {above n : Nat}
    (hx : x.length = above + 1) (hbody : body.length = n) (content : Text) :
    rewriteLines grammar (x ++ (body ++ y)) above n content =
      x.flatten ++ Lines.text '\n' (newBody grammar (x ++ (body ++ y)) above n content) ++
        y.flatten := by
  subst hbody
  rw [rewriteLines, reindentCodeRegion_eq, newBody, baseIndent, ← hx, take_left, drop_left,
    ← drop_drop, drop_left, drop_left]

theorem newBody_blank {grammar : MarkerSyntax} {lines : List Text} {above n : Nat} {content : Text} :
    ∀ line ∈ newBody grammar lines above n content, Unbroken line :=
  unbroken_rewrittenLines (regionBaseIndent_blank _)

/-- The lines of a file, as the scan reads them, where a region was rewritten. -/
theorem lines_rewritten {text : Text} {head body tail : List Text} {marker endLine : Text}
    (hlines : splitLinesKeep (universalNewlines text) = head ++ marker :: (body ++ endLine :: tail))
    (hend : closesRegion grammar endLine = true) (content : Text) :
    ∃ kept, (kept = newBody grammar (splitLinesKeep text) head.length body.length content ∨
        newBody grammar (splitLinesKeep text) head.length body.length content = [] :: kept) ∧
      splitLinesKeep (universalNewlines
          (rewriteLines grammar (splitLinesKeep text) head.length body.length content)) =
        head ++ marker :: (kept.map (· ++ ['\n']) ++ endLine :: tail) := by
  rw [splitLinesKeep_universalNewlines] at hlines
  obtain ⟨rawHead, fromMarker, hsplit, rfl, hmarker⟩ := map_eq_append_iff.mp hlines
  obtain ⟨rawMarker, fromBody, rfl, rfl, hbody⟩ := map_eq_cons_iff.mp hmarker
  obtain ⟨rawBody, fromEnd, rfl, rfl, hfromEnd⟩ := map_eq_append_iff.mp hbody
  obtain ⟨rawEnd, rawTail, rfl, rfl, rfl⟩ := map_eq_cons_iff.mp hfromEnd
  have hparts : splitLinesKeep text =
      (rawHead ++ [rawMarker]) ++ (rawBody ++ rawEnd :: rawTail) := by
    rw [hsplit, List.append_assoc, singleton_append]
  have hcut := cut_parts hparts (by simp)
  obtain ⟨hfirst, -⟩ := splitLinesKeep_parts hparts
  have hparts' : splitLinesKeep text =
      (rawHead ++ [rawMarker] ++ rawBody) ++ rawEnd :: rawTail := by
    rw [hparts]
    simp only [List.append_assoc]
  obtain ⟨-, hlast⟩ := splitLinesKeep_parts hparts'
  have hmem : rawEnd ∈ splitLinesKeep text := by
    rw [hparts']
    simp
  have hhead : (rawEnd :: rawTail).flatten.head? ≠ some '\n' := by
    have hline := head?_of_closes hmem hend
    have hne : rawEnd ≠ [] := Lines.ne_nil_of_mem_splitEnds hmem
    obtain ⟨c, cs, rfl⟩ := exists_cons_of_ne_nil hne
    exact hline
  obtain ⟨kept, hkept, hwhole⟩ := lines_around (ended_of_cut hcut)
    (@newBody_blank grammar (splitLinesKeep text) rawHead.length rawBody.length content) hhead
  refine ⟨kept, by simpa using hkept, ?_⟩
  have hrewrite := @rewriteLines_parts grammar (rawHead ++ [rawMarker]) rawBody
    (rawEnd :: rawTail) rawHead.length _ (by simp) rfl content
  rw [← hparts] at hrewrite
  rw [length_map, length_map, hrewrite, hwhole, splitLinesKeep_universalNewlines,
    splitLinesKeep_universalNewlines, hfirst, hlast]
  simp

end Zicato.Mutation
