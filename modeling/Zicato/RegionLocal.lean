import Zicato.RegionRewrite

/-! # A region patch is local

What the enumeration finds in a text file after one of its regions was
rewritten: every other declaration, those below the region further down.  A
kept line that reads as a sentinel, or a file that got too long, leaves it no
point at all. -/
open List
namespace Zicato.Mutation

open Text

/-- Some line reads as a sentinel. -/
def gradedLines (isWord : Char → Bool) (grammar : MarkerSyntax) (lines : List Text) : Bool :=
  lines.any fun line => isGradingMarker isWord grammar (chomp line)

/-- The bytes of a file with new lines for a region. -/
def rewrittenSize (grammar : MarkerSyntax) (lines : List Text) (above n : Nat) (content : Text) : Nat :=
  (encode (lines.take (above + 1)).flatten).length +
    (encode (Lines.text '\n' (newBody grammar lines above n content))).length +
    (encode (lines.drop (above + 1 + n)).flatten).length

/-- The new content makes no sentinel, and the file does not get too long. -/
def Harmless (py : Python) (grammar : MarkerSyntax) (lines : List Text) (above n : Nat)
    (content : Text) : Prop :=
  (∀ line ∈ keptLines grammar content, isGradingMarker py.isWord grammar line = false) ∧
    rewrittenSize grammar lines above n content ≤ maxTextFileBytes

theorem length_rewriteLines (grammar : MarkerSyntax) (lines : List Text) (above n : Nat)
    (content : Text) : (encode (rewriteLines grammar lines above n content)).length =
      rewrittenSize grammar lines above n content := by
  rw [rewriteLines, reindentCodeRegion_eq, encode_append, encode_append, length_append,
    length_append]
  rfl

/-- The id under which a declaration is found. -/
def Declared.key : Declared → Option String
  | .file parsed => some parsed.id
  | .region _ parsed body => if body = [] then none else some parsed.id

/-- A region that is found: its file, its id and its text. -/
def Declared.part (file : String) : Declared → Option (String × String × Text)
  | .file _ => none
  | .region _ parsed body => if body = [] then none else some (file, parsed.id, body.flatten)

/-- A point that is a region. -/
def MutationPoint.part (p : MutationPoint) : Option (String × String × Text) :=
  if p.kind = .code then some (p.file, p.id, p.content) else none

@[simp] theorem key_lower (n : Nat) (d : Declared) : (d.lower n).key = d.key := by
  cases d <;> rfl

@[simp] theorem part_lower (file : String) (n : Nat) (d : Declared) :
    (d.lower n).part file = d.part file := by
  cases d <;> rfl

variable {py : Python} {grammar : MarkerSyntax} {f : FileUnderScan}

theorem point_key (d : Declared) : (d.point py f).map (·.id) = d.key := by
  cases d with
  | file parsed => rfl
  | region above parsed body =>
    rw [Declared.point, Declared.key]
    split <;> rfl

theorem map_id_points (ds : List Declared) :
    (ds.filterMap (·.point py f)).map (·.id) = ds.filterMap Declared.key := by
  rw [map_filterMap]
  exact filterMap_congr fun d _ => point_key d

theorem point_part (d : Declared) : (d.point py f).bind MutationPoint.part = d.part f.file := by
  cases d with
  | file parsed => rfl
  | region above parsed body =>
    rw [Declared.point, Declared.part]
    split <;> rfl

theorem parts_points (ds : List Declared) :
    (ds.filterMap (·.point py f)).filterMap MutationPoint.part =
      ds.filterMap (Declared.part f.file) := by
  rw [filterMap_filterMap]
  exact filterMap_congr fun d _ => point_part d

theorem filterMap_lower {β : Type} {g : Declared → Option β} (hg : ∀ n d, g (d.lower n) = g d)
    (n : Nat) (ds : List Declared) : (ds.map (·.lower n)).filterMap g = ds.filterMap g := by
  rw [filterMap_map]
  exact filterMap_congr fun d _ => hg n d

/-! ## The file with the region rewritten -/

/-- The lines of a file as the scan reads them. -/
def scanLines (text : Text) : List Text := splitLinesKeep (universalNewlines text)

/-- The file with a region rewritten. -/
def rewriteText (grammar : MarkerSyntax) (text : Text) (above n : Nat) (content : Text) : Text :=
  rewriteLines grammar (splitLinesKeep text) above n content

/-- The new text of a file has new lines `kept` for the `n` lines of a region. -/
structure Rewritten (py : Python) (grammar : MarkerSyntax) (content text new : Text) (above n : Nat)
    (kept : List Text) : Prop where
  lines : scanLines new =
    (scanLines text).take (above + 1) ++ kept ++ (scanLines text).drop (above + 1 + n)
  length : (splitLinesKeep new).length + n = (splitLinesKeep text).length + kept.length
  graded : gradedLines py.isWord grammar kept = true ↔
    ∃ line ∈ keptLines grammar content, isGradingMarker py.isWord grammar line = true

theorem length_scanLines (text : Text) : (scanLines text).length = (splitLinesKeep text).length := by
  rw [scanLines, splitLinesKeep_universalNewlines, length_map]

/-- The declarations of the file in which a region was rewritten. -/
theorem walk_rewritten (py : Python) {text : Text} {pre post : List Declared} {above : Nat}
    {parsed : ParsedMarker} {body : List Text}
    (hwalk : Walk grammar 0 (scanLines text) (pre ++ .region above parsed body :: post))
    (content : Text) :
    ∃ (kept : List Text) (base : List Declared),
      post = base.map (·.lower (above + body.length + 2)) ∧
      Walk grammar 0 (scanLines (rewriteText grammar text above body.length content))
        (pre ++ .region above parsed kept :: base.map (·.lower (above + kept.length + 2))) ∧
      Rewritten py grammar content text (rewriteText grammar text above body.length content) above
        body.length kept := by
  obtain ⟨head, marker, endLine, tail, hlines, habove, hmarker, hcode, hbody, hend, htail, hhead⟩ :=
    hwalk.split
  rw [Nat.zero_add] at habove
  subst habove
  obtain ⟨base, hpost, hbase⟩ := htail.move
  obtain ⟨kept, hkept, hnew⟩ := lines_rewritten hlines hend content
  -- what the region got is what was kept, but for a blank line
  have hsub : ∀ line ∈ kept,
      line ∈ newBody grammar (splitLinesKeep text) head.length body.length content := by
    intro line hline
    rcases hkept with heq | heq
    · rwa [← heq]
    · rw [heq]
      exact mem_cons_of_mem _ hline
  have hopen : ∀ line ∈ kept.map (· ++ ['\n']), closesRegion grammar line = false := by
    intro line hline
    obtain ⟨inner, hinner, rfl⟩ := mem_map.mp hline
    exact closesRegion_rewritten (regionBaseIndent_blank _) (hsub inner hinner)
  have hnew : scanLines (rewriteText grammar text head.length body.length content) =
      head ++ marker :: (kept.map (· ++ ['\n']) ++ endLine :: tail) := hnew
  refine ⟨kept.map (· ++ ['\n']), base, hpost, ?_, ?_, ?_, ?_⟩
  · rw [hnew]
    refine hhead _ _ (.region hmarker hcode hopen hend ?_)
    exact hbase _
  · have hsplit : head ++ marker :: (body ++ endLine :: tail) =
        (head ++ [marker]) ++ (body ++ endLine :: tail) := by simp
    have hlen : head.length + 1 = (head ++ [marker]).length := by simp
    rw [hnew, hlines, hsplit, hlen, take_left, ← drop_drop, drop_left, drop_left]
    simp
  · rw [← length_scanLines, ← length_scanLines, hnew, hlines]
    simp only [length_append, length_cons, length_map]
    omega
  · rw [← grading_rewritten_iff (regionBaseIndent_blank _), gradedLines, any_eq_true]
    have hchomp : ∀ line ∈ kept, chomp (line ++ ['\n']) = line :=
      fun line hline => chomp_newline (newBody_blank line (hsub line hline))
    constructor
    · rintro ⟨line, hline, hgrading⟩
      obtain ⟨inner, hinner, rfl⟩ := mem_map.mp hline
      rw [hchomp inner hinner] at hgrading
      exact ⟨inner, hsub inner hinner, hgrading⟩
    · rintro ⟨line, hline, hgrading⟩
      have hmem : line ∈ kept := by
        rcases hkept with heq | heq
        · rwa [heq]
        · refine (mem_cons.mp (heq ▸ hline : line ∈ [] :: kept)).resolve_left fun hnil => ?_
          rw [hnil, isGradingMarker_nil] at hgrading
          cases hgrading
      refine ⟨line ++ ['\n'], mem_map_of_mem hmem, ?_⟩
      rw [hchomp line hmem]
      exact hgrading

/-! ## Its points -/

theorem isGrading_textFile (file sourceRoot : String) (text : Text) :
    (textFile file sourceRoot grammar text).isGrading py =
      gradedLines py.isWord grammar (splitLinesKeep text) := by
  have hmap : (splitLinesKeep text).zipIdx.map Prod.fst = splitLinesKeep text :=
    zipIdx_map_fst 0 _
  rw [gradedLines]
  conv_rhs => rw [← hmap, any_map]
  rfl

/-- The points of a text file. -/
theorem enumerateFile_declared {text : Text} {ds : List Declared}
    (hgrammar : grammar.isPython = false) (hwalk : Walk grammar 0 (scanLines text) ds)
    (file sourceRoot : String) :
    enumerateFile py file sourceRoot grammar (encode text) =
      if maxTextFileBytes < (encode text).length ∨
          gradedLines py.isWord grammar (scanLines text) = true then []
      else ds.filterMap (·.point py (textFile file sourceRoot grammar (universalNewlines text))) := by
  by_cases hsize : maxTextFileBytes < (encode text).length
  · rw [if_pos (Or.inl hsize), enumerateFile_oversize hgrammar hsize]
  · have hread : readText (encode text) = some (universalNewlines text) := by
      rw [readText, decode_encode]
      rfl
    rw [enumerateFile_walk hgrammar hread (Nat.le_of_not_lt hsize) hwalk, isGrading_textFile]
    simp only [hsize, false_or]
    rfl

/-- When a rewritten region leaves the others as they are. -/
theorem Rewritten.harmless_iff {content text : Text} {above n : Nat} {kept : List Text}
    (h : Rewritten py grammar content text (rewriteText grammar text above n content) above n kept)
    (hgraded : gradedLines py.isWord grammar (scanLines text) = false) :
    Harmless py grammar (splitLinesKeep text) above n content ↔
      ¬ (maxTextFileBytes < (encode (rewriteText grammar text above n content)).length ∨
        gradedLines py.isWord grammar (scanLines (rewriteText grammar text above n content)) = true) := by
  have hlines : ∀ line ∈ scanLines text, isGradingMarker py.isWord grammar (chomp line) = false := by
    simpa [gradedLines] using hgraded
  have hnew : gradedLines py.isWord grammar
      (scanLines (rewriteText grammar text above n content)) = true ↔
        ∃ line ∈ keptLines grammar content, isGradingMarker py.isWord grammar line = true := by
    rw [← h.graded, h.lines, gradedLines, any_append, any_append]
    have htake : (((scanLines text).take (above + 1)).any fun line =>
        isGradingMarker py.isWord grammar (chomp line)) = false := by
      simpa using fun line hline => hlines line (mem_of_mem_take hline)
    have hdrop : (((scanLines text).drop (above + 1 + n)).any fun line =>
        isGradingMarker py.isWord grammar (chomp line)) = false := by
      simpa using fun line hline => hlines line (mem_of_mem_drop hline)
    rw [htake, hdrop, Bool.false_or, Bool.or_false]
    exact Iff.rfl
  rw [hnew, not_or, Nat.not_lt, Harmless, rewriteText, length_rewriteLines]
  constructor
  · rintro ⟨hkept, hsize⟩
    refine ⟨hsize, ?_⟩
    rintro ⟨line, hline, hgrading⟩
    rw [hkept line hline] at hgrading
    cases hgrading
  · rintro ⟨hsize, hkept⟩
    refine ⟨fun line hline => ?_, hsize⟩
    by_contra hgrading
    exact hkept ⟨line, hline, by simpa using hgrading⟩

section Points

variable {text : Text} {pre post : List Declared} {above : Nat} {parsed : ParsedMarker}
  {body : List Text} {content : Text}

section
variable (hgrammar : grammar.isPython = false)
  (hgraded : gradedLines py.isWord grammar (scanLines text) = false)
  (hwalk : Walk grammar 0 (scanLines text) (pre ++ .region above parsed body :: post))
include hgrammar hgraded hwalk

/-- After a harmless rewriting the other declarations have their points. -/
theorem enumerateFile_rewritten
    (hharmless : Harmless py grammar (splitLinesKeep text) above body.length content) :
    ∃ (kept : List Text) (base : List Declared),
      post = base.map (·.lower (above + body.length + 2)) ∧
      Rewritten py grammar content text (rewriteText grammar text above body.length content) above
        body.length kept ∧
      Walk grammar 0 (scanLines (rewriteText grammar text above body.length content))
        (pre ++ .region above parsed kept :: base.map (·.lower (above + kept.length + 2))) ∧
      ∀ file sourceRoot, enumerateFile py file sourceRoot grammar
          (encode (rewriteText grammar text above body.length content)) =
        (pre ++ .region above parsed kept :: base.map (·.lower (above + kept.length + 2))).filterMap
          (·.point py (textFile file sourceRoot grammar (universalNewlines
            (rewriteText grammar text above body.length content)))) := by
  obtain ⟨kept, base, hpost, hwalk', hrewritten⟩ := walk_rewritten py hwalk content
  refine ⟨kept, base, hpost, hrewritten, hwalk', fun file sourceRoot => ?_⟩
  rw [enumerateFile_declared hgrammar hwalk', if_neg ((hrewritten.harmless_iff hgraded).mp hharmless)]

/-- A rewriting that is not leaves no point in the file. -/
theorem enumerateFile_harmed
    (hharmless : ¬ Harmless py grammar (splitLinesKeep text) above body.length content)
    (file sourceRoot : String) : enumerateFile py file sourceRoot grammar
      (encode (rewriteText grammar text above body.length content)) = [] := by
  obtain ⟨kept, base, -, hwalk', hrewritten⟩ := walk_rewritten py hwalk content
  rw [enumerateFile_declared hgrammar hwalk', if_pos]
  by_contra h
  exact hharmless ((hrewritten.harmless_iff hgraded).mpr h)

end

theorem filterMap_rewritten {β : Type} {g : Declared → Option β} (hg : ∀ n d, g (d.lower n) = g d)
    (kept : List Text) (base : List Declared) (k : Nat) :
    (pre ++ .region above parsed kept :: base.map (·.lower k)).filterMap g =
      pre.filterMap g ++ ((g (.region above parsed kept)).toList ++ base.filterMap g) := by
  rw [filterMap_append, filterMap_cons_toList, filterMap_lower hg]

section
variable (hgrammar : grammar.isPython = false) (hsize : (encode text).length ≤ maxTextFileBytes)
  (hgraded : gradedLines py.isWord grammar (scanLines text) = false)
  (hwalk : Walk grammar 0 (scanLines text) (pre ++ .region above parsed body :: post))
include hgrammar hsize hgraded hwalk

/-- No id is declared more often than it was. -/
theorem count_ids_le (hbody : body ≠ [])
    (hharmless : Harmless py grammar (splitLinesKeep text) above body.length content)
    (file sourceRoot id : String) : ((enumerateFile py file sourceRoot grammar
        (encode (rewriteText grammar text above body.length content))).map (·.id)).count id ≤
      ((enumerateFile py file sourceRoot grammar (encode text)).map (·.id)).count id := by
  obtain ⟨kept, base, rfl, -, -, hpoints⟩ :=
    enumerateFile_rewritten hgrammar hgraded hwalk hharmless
  rw [hpoints, enumerateFile_declared hgrammar hwalk,
    if_neg (by simp [hgraded, Nat.not_lt.mpr hsize]), map_id_points, map_id_points,
    filterMap_rewritten key_lower, filterMap_rewritten key_lower]
  refine Sublist.count_le id (Sublist.append_left (Sublist.append_right ?_ _) _)
  rw [Declared.key, Declared.key, if_neg hbody]
  split
  · exact nil_sublist _
  · exact Sublist.refl _

/-- The other regions are there with their ids and their texts. -/
theorem other_parts
    (hharmless : Harmless py grammar (splitLinesKeep text) above body.length content)
    (file sourceRoot : String) :
    ((enumerateFile py file sourceRoot grammar (encode (rewriteText grammar text above body.length
        content))).filterMap MutationPoint.part).filter (·.2.1 != parsed.id) =
      ((enumerateFile py file sourceRoot grammar (encode text)).filterMap
        MutationPoint.part).filter (·.2.1 != parsed.id) := by
  obtain ⟨kept, base, rfl, -, -, hpoints⟩ :=
    enumerateFile_rewritten hgrammar hgraded hwalk hharmless
  have hself : ∀ lines : List Text,
      ((Declared.region above parsed lines).part file).toList.filter (·.2.1 != parsed.id) = [] := by
    intro lines
    rw [Declared.part]
    split <;> simp
  rw [hpoints, enumerateFile_declared hgrammar hwalk,
    if_neg (by simp [hgraded, Nat.not_lt.mpr hsize]), parts_points, parts_points]
  rw [filterMap_rewritten (part_lower _), filterMap_rewritten (part_lower _)]
  simp only [filter_append]
  congr 2
  exact (hself kept).trans (hself body).symm

end

end Points

/-! ## Two regions -/

theorem flatten_splitLinesKeep_self (text : Text) : (splitLinesKeep text).flatten = text :=
  Lines.flatten_splitEnds '\r' '\n' isLineBreak text

theorem head?_flatten_cons {line : Text} (hline : line ≠ []) (lines : List Text) :
    (line :: lines).flatten.head? = line.head? := by
  obtain ⟨c, rest, rfl⟩ := exists_cons_of_ne_nil hline
  rfl

/-- Lines `a` and `b` with a region in each: it does not matter which is rewritten
first. -/
theorem rewriteLines_comm {text : Text} {a b : List Text} {endLine : Text} {above n : Nat}
    (hlines : splitLinesKeep text = a ++ endLine :: b) (ha : a.length = above + 1 + n)
    (hend : endLine.head? ≠ some '\n') (below m : Nat) (content content' : Text) :
    ∃ first : List Text,
      splitLinesKeep (rewriteText grammar text above n content) = first ++ endLine :: b ∧
      rewriteText grammar (rewriteText grammar text above n content) (first.length + below) m content' =
        rewriteText grammar (rewriteText grammar text (a.length + below) m content') above n content := by
  have hne : endLine ≠ [] := by
    refine Lines.ne_nil_of_mem_splitEnds (?_ : endLine ∈ splitLinesKeep text)
    rw [hlines]
    simp
  have hsplit : splitLinesKeep text = a.take (above + 1) ++ (a.drop (above + 1) ++ endLine :: b) := by
    rw [hlines, ← List.append_assoc, take_append_drop]
  have hended : Ended (a.take (above + 1)).flatten := ended_of_cut (cut_parts hsplit (by simp))
  obtain ⟨-, hbelow⟩ := splitLinesKeep_parts hlines
  obtain ⟨habove, -⟩ := splitLinesKeep_parts hlines
  -- the upper region first
  have hupper : rewriteText grammar text above n content =
      rewriteLines grammar a above n content ++ (endLine :: b).flatten := by
    rw [rewriteText, hlines, rewriteLines_left grammar _ (Nat.le_of_eq ha.symm)]
  have hended' : Ended (rewriteLines grammar a above n content) := by
    rw [rewriteLines, drop_eq_nil_of_le (Nat.le_of_eq ha), flatten_nil, append_nil,
      reindentCodeRegion_eq]
    exact hended.append _
  have hfirst : splitLinesKeep (rewriteText grammar text above n content) =
      splitLinesKeep (rewriteLines grammar a above n content) ++ endLine :: b := by
    rw [hupper]
    have hhead : (endLine :: b).flatten.head? ≠ some '\n' := by rwa [head?_flatten_cons hne]
    rw [splitLinesKeep, Lines.splitEnds_cut (hended'.cut hhead), ← splitLinesKeep, ← splitLinesKeep,
      hbelow]
  -- the lower region first
  have hlower : rewriteText grammar text (a.length + below) m content' =
      a.flatten ++ rewriteLines grammar (endLine :: b) below m content' := by
    rw [rewriteText, hlines, rewriteLines_right]
  have hsecond : splitLinesKeep (rewriteText grammar text (a.length + below) m content') =
      a ++ splitLinesKeep (rewriteLines grammar (endLine :: b) below m content') := by
    have hhead : (rewriteLines grammar (endLine :: b) below m content').head? =
        (endLine :: b).flatten.head? := by
      rw [rewriteLines, take_succ_cons, List.append_assoc, head?_append,
        head?_flatten_cons hne, head?_flatten_cons hne]
      obtain ⟨c, rest, rfl⟩ := exists_cons_of_ne_nil hne
      rfl
    have hcut := (cut_parts hlines (by simp)).of_head? hhead
    rw [hlower, splitLinesKeep, Lines.splitEnds_cut hcut, ← splitLinesKeep, ← splitLinesKeep, habove]
  refine ⟨_, hfirst, ?_⟩
  rw [rewriteText, hfirst, rewriteLines_right, flatten_splitLinesKeep_self]
  conv_rhs => rw [rewriteText, hsecond, rewriteLines_left grammar _ (Nat.le_of_eq ha.symm),
    flatten_splitLinesKeep_self]

/-- Two regions of a file are rewritten in either order. -/
theorem rewriteText_comm {text content content' : Text} {pre mid post : List Declared}
    {above above' : Nat} {parsed parsed' : ParsedMarker} {body body' kept : List Text}
    (hwalk : Walk grammar 0 (scanLines text)
      (pre ++ .region above parsed body :: (mid ++ .region above' parsed' body' :: post)))
    (hkept : Rewritten py grammar content text (rewriteText grammar text above body.length content)
      above body.length kept) :
    above + body.length + 2 ≤ above' ∧
      rewriteText grammar (rewriteText grammar text above body.length content)
          (above' - body.length + kept.length) body'.length content' =
        rewriteText grammar (rewriteText grammar text above' body'.length content') above body.length
          content := by
  obtain ⟨head, marker, endLine, tail, hlines, habove, -, -, -, hend, htail, -⟩ := hwalk.split
  obtain ⟨head', -, -, -, -, habove', -⟩ := htail.split
  rw [Nat.zero_add] at habove
  refine ⟨by omega, ?_⟩
  rw [scanLines, splitLinesKeep_universalNewlines] at hlines
  have hsplit : (splitLinesKeep text).map universalNewlines =
      (head ++ marker :: body) ++ endLine :: tail := by
    rw [hlines]
    simp
  obtain ⟨a, rest, hraw, ha, hrest⟩ := map_eq_append_iff.mp hsplit
  obtain ⟨rawEnd, b, rfl, rfl, -⟩ := map_eq_cons_iff.mp hrest
  have hlength : a.length = above + 1 + body.length := by
    have hlen := congrArg List.length ha
    simp only [length_map, length_append, length_cons] at hlen
    omega
  have hmem : rawEnd ∈ splitLinesKeep text := by
    rw [hraw]
    simp
  obtain ⟨first, hfirst, hcomm⟩ := @rewriteLines_comm grammar _ _ _ _ _ _ hraw hlength
    (head?_of_closes hmem hend) (head'.length + 1) body'.length content content'
  have hkeptLength := hkept.length
  rw [hfirst, hraw] at hkeptLength
  simp only [length_append, length_cons] at hkeptLength
  have hupper : above' - body.length + kept.length = first.length + (head'.length + 1) := by omega
  have hlower : above' = a.length + (head'.length + 1) := by omega
  rw [hupper, hcomm, ← hlower]

end Zicato.Mutation
