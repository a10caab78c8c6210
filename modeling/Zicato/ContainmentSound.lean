import Zicato.Containment

/-! # Soundness of the containment verifier

A manifest that verifies as `contained` leaves no room: the two trees hold the
same files with the same executable bits, and a file differs from its parent in
nothing but ranges inside the permitted points of the retained policy. -/
open List
namespace Zicato.Containment

open Splice

/-! ## What containment means -/

/-- Byte `i` lies in the point's span. -/
def PolicyPoint.Holds (point : PolicyPoint) (i : Nat) : Prop :=
  ∃ a b : Int, point.start = .int a ∧ point.stop = .int b ∧ a ≤ i ∧ i < b

/-- The range lies in the point's span. -/
def PolicyPoint.Covers (point : PolicyPoint) (lo hi : Nat) : Prop :=
  ∃ a b : Int, point.start = .int a ∧ point.stop = .int b ∧ a ≤ lo ∧ hi ≤ b

/-- A byte that no edit may touch: in a forbidden point's span, or in none. -/
def Protected (points : List PolicyPoint) (path : String) (i : Nat) : Prop :=
  (∃ p ∈ points, p.path = path ∧ p.forbidden = .bool true ∧ p.Holds i) ∨
    ∀ p ∈ points, p.path = path → ¬ p.Holds i

/-- The child is the parent with ranges inside permitted points substituted. -/
def Substituted (points : List PolicyPoint) (path : String) (before after : Bytes) : Prop :=
  ∃ edits : List (Edit UInt8), Ordered before.length 0 edits ∧ after = substitute before edits ∧
    (∀ e ∈ edits, ∃ p ∈ points, p.path = path ∧ p.forbidden = .bool false ∧
      p.Covers e.start e.stop) ∧
    ∀ i, Protected points path i → Kept edits i

/-- The protected bytes of the parent stand in the child, in their order. -/
def Preserved (points : List PolicyPoint) (path : String) (before after : Bytes) : Prop :=
  ∃ place : Nat → Nat,
    (∀ i, i < before.length → Protected points path i → after[place i]? = before[i]?) ∧
    ∀ i j, i < j → Protected points path i → Protected points path j → place i < place j

variable {path : String} {before after : Bytes}

theorem Substituted.preserved {points : List PolicyPoint}
    (h : Substituted points path before after) : Preserved points path before after := by
  obtain ⟨edits, hordered, rfl, -, hkept⟩ := h
  obtain ⟨place, hplace, hmono⟩ := kept_in_order hordered
  exact ⟨place, fun i hi hp => hplace i hi (hkept i hp),
    fun i j hij hi hj => hmono i j hij (hkept i hi) (hkept j hj)⟩

/-! ## The walk over the changes -/

variable {rt : Runtime} {sel : Selection} {manifest : ContainmentManifest}

/-- What the verifier asks of a change: a permitted span around it, and no
forbidden span with a byte of it. -/
def Permitted (spans : List MutationSpan) (hunk : Hunk) : Prop :=
  (∃ span ∈ spans, span.forbidden.truthy = false ∧ ∃ a b : Int, span.start = .int a ∧
    span.stop = .int b ∧ a ≤ hunk.start ∧ hunk.stop ≤ b) ∧
  ∀ span ∈ spans, span.forbidden.truthy = true → ∀ a b : Int, span.start = .int a →
    span.stop = .int b → ∀ i : Nat, a ≤ i → i < b → ¬ (hunk.start ≤ i ∧ i < hunk.stop)

theorem Raw.le_iff (a b : Raw) : a.le b = true ↔ ∃ m n, a = .int m ∧ b = .int n ∧ m ≤ n := by
  cases a <;> cases b <;> simp [Raw.le]

theorem Raw.int?_eq_some {a : Raw} {n : Int} (h : a.int? = some n) : a = .int n := by
  cases a <;> simp_all [Raw.int?]

/-- A recorded change that is accepted is a change of the two files. -/
theorem hunk?_eq_some {po co : Nat} {change : ByteChange} {hunk : Hunk}
    (h : hunk? before after po co change = some hunk) :
    change.parentStart = .int hunk.start ∧ change.parentEnd = .int hunk.stop ∧
      change.childStart = .int hunk.otherStart ∧ change.childEnd = .int hunk.otherStop ∧
      po ≤ hunk.start ∧ hunk.start ≤ hunk.stop ∧ hunk.stop ≤ before.length ∧
      co ≤ hunk.otherStart ∧ hunk.otherStart ≤ hunk.otherStop ∧
      hunk.otherStop ≤ after.length := by
  rw [hunk?] at h
  split at h
  · rename_i a b c d ha hb hc hd
    split at h
    · rename_i hrange
      cases h
      rw [Raw.int?_eq_some ha, Raw.int?_eq_some hb, Raw.int?_eq_some hc, Raw.int?_eq_some hd]
      simp only [Raw.int.injEq]
      omega
    · cases h
  · cases h

variable {spans : List MutationSpan}

/-- A change that is reported for nothing keeps the gap before it and is permitted. -/
theorem changeFindings_nil {po co : Nat} {change : ByteChange} {hunk : Hunk}
    (hstart : change.parentStart = .int hunk.start) (hstop : change.parentEnd = .int hunk.stop)
    (h : changeFindings path before after spans po co change hunk = []) :
    slice before po hunk.start = slice after co hunk.otherStart ∧ Permitted spans hunk := by
  simp only [changeFindings, append_eq_nil_iff, ite_eq_right_iff, cons_ne_nil,
    imp_false, Decidable.not_not] at h
  obtain ⟨⟨hgap, hinside⟩, hforbidden⟩ := h
  refine ⟨hgap, ?_, ?_⟩
  · simp only [Bool.not_eq_true', Bool.not_eq_false, any_eq_true] at hinside
    obtain ⟨span, hspan, hin⟩ := hinside
    simp only [within, Bool.and_eq_true, Bool.not_eq_true', Raw.le_iff, hstart, hstop] at hin
    obtain ⟨hfree, ⟨⟨⟨⟨⟨⟨⟨a, m, ha, hm, ham⟩, -⟩, ⟨n, b, hn, hb, hnb⟩⟩, -⟩, -⟩, -⟩, -⟩, -⟩ := hin
    cases hm
    cases hn
    exact ⟨span, hspan, hfree, a, b, ha, hb, ham, hnb⟩
  · intro span hspan hforb a b ha hb i hai hib hin
    refine hforbidden (any_eq_true.mpr ⟨span, hspan, ?_⟩)
    -- a byte in both makes the change a proper range that overlaps the span
    have hne : ¬ change.parentStart = change.parentEnd := by
      rw [hstart, hstop, Raw.int.injEq]
      omega
    rw [overlaps, if_neg hne, hforb, hstart, hstop, ha, hb]
    simp only [Raw.lt, Bool.true_and, Bool.and_eq_true, decide_eq_true_eq]
    omega

/-- Changes that are reported for nothing lead through both files. -/
theorem walkChanges_nil {po co : Nat} {changes : List ByteChange} (hpo : po ≤ before.length)
    (hco : co ≤ after.length) (h : walkChanges path before after spans po co changes = []) :
    ∃ hunks, Aligned before after po co hunks ∧ ∀ hunk ∈ hunks, Permitted spans hunk := by
  induction changes generalizing po co with
  | nil =>
    simp only [walkChanges, suffixFindings, ite_eq_right_iff, cons_ne_nil, imp_false,
      Decidable.not_not] at h
    exact ⟨[], .nil hpo hco h, by simp⟩
  | cons change changes ih =>
    rw [walkChanges] at h
    split at h
    · cases h
    · rename_i hunk hhunk
      obtain ⟨hchange, hrest⟩ := append_eq_nil_iff.mp h
      obtain ⟨hstart, hstop, -, -, h1, h2, h3, h4, h5, h6⟩ := hunk?_eq_some hhunk
      obtain ⟨hgap, hpermitted⟩ := changeFindings_nil hstart hstop hchange
      obtain ⟨hunks, haligned, hall⟩ := ih h3 h6 hrest
      refine ⟨hunk :: hunks, .cons h1 h2 h4 h5 hgap haligned, ?_⟩
      exact forall_mem_cons.mpr ⟨hpermitted, hall⟩

/-! ## The records -/

variable {ids : List (String × String)}

theorem spanFindings_nil (h : spanFindings rt path before after ids spans = []) :
    ∀ span ∈ spans, ∃ ids', validSpan rt before after ids' span = true := by
  induction spans generalizing ids with
  | nil => simp
  | cons span spans ih =>
    simp only [spanFindings, append_eq_nil_iff, ite_eq_left_iff, cons_ne_nil,
      imp_false, Decidable.not_not] at h
    exact forall_mem_cons.mpr ⟨⟨ids, h.1⟩, ih h.2⟩

theorem validSpan_forbidden {span : MutationSpan} (h : validSpan rt before after ids span = true) :
    ∃ b, span.forbidden = .bool b := by
  simp only [validSpan, Bool.and_eq_true] at h
  have hbool : span.forbidden.isBool = true := h.1.1.2
  cases hf : span.forbidden with
  | bool b => exact ⟨b, rfl⟩
  | _ => simp [hf, Raw.isBool] at hbool

variable {record : FileContainment}

/-- Spans and changes that are reported for nothing: a walk of permitted hunks. -/
theorem rangeFindings_nil (h : rangeFindings rt before after ids record = []) :
    (∀ span ∈ record.spans, ∃ b, span.forbidden = .bool b) ∧
      ∃ hunks, Aligned before after 0 0 hunks ∧
        ∀ hunk ∈ hunks, Permitted record.spans hunk := by
  rw [rangeFindings] at h
  split at h
  · rename_i hspans
    obtain ⟨-, hwalk⟩ := append_eq_nil_iff.mp h
    refine ⟨fun span hspan => ?_, walkChanges_nil (Nat.zero_le _) (Nat.zero_le _) hwalk⟩
    obtain ⟨ids', hvalid⟩ := spanFindings_nil hspans span hspan
    exact validSpan_forbidden hvalid
  · rename_i hspans
    exact absurd h hspans

variable {inv : Inventories}

/-- A record that is reported for nothing: the file is in both trees with one
executable state, and its ranges are in order. -/
theorem fileFindings_nil (h : fileFindings rt sel inv ids record = []) :
    (∃ left right, inv.left.get? record.path = some left ∧
      inv.right.get? record.path = some right ∧ left.executable = right.executable) ∧
    (∀ span ∈ record.spans, ∃ b, span.forbidden = .bool b) ∧
    ∃ hunks, Aligned (sel.parentRoot.readBytes record.path)
        (sel.childRoot.readBytes record.path) 0 0 hunks ∧
      ∀ hunk ∈ hunks, Permitted record.spans hunk := by
  rw [fileFindings] at h
  split at h
  · cases h
  · split at h
    · cases h
    · rename_i hobserved
      simp only [append_eq_nil_iff, ite_eq_right_iff, cons_ne_nil, imp_false,
        Decidable.not_not] at h
      obtain ⟨⟨hset, hexec⟩, hranges⟩ := h
      refine ⟨?_, rangeFindings_nil hranges⟩
      simp only [Bool.or_eq_true, not_or, Option.isNone_iff_eq_none] at hset
      obtain ⟨left, hleft⟩ := Option.ne_none_iff_exists'.mp hset.1
      obtain ⟨right, hright⟩ := Option.ne_none_iff_exists'.mp hset.2
      simp only [observed, hleft, hright, Option.map_some, Option.elim_some, Bool.not_eq_true',
        Bool.not_eq_false, Bool.and_eq_true, beq_iff_eq] at hobserved
      refine ⟨left, right, hleft, hright, ?_⟩
      have : Raw.bool left.executable = .bool right.executable :=
        hobserved.1.2.trans (hexec.trans hobserved.2.symm)
      exact Raw.bool.inj this

/-- The loop reports nothing only if it reports nothing for any record. -/
theorem walk_findings_nil {files : List FileContainment} {walk : Walk}
    (h : (files.foldl (Walk.step rt sel inv) walk).findings = []) :
    walk.findings = [] ∧ ∀ record ∈ files, ∃ ids, fileFindings rt sel inv ids record = [] := by
  induction files generalizing walk with
  | nil => exact ⟨h, by simp⟩
  | cons record files ih =>
    obtain ⟨hstep, hrest⟩ := ih h
    obtain ⟨hwalk, hrecord⟩ := append_eq_nil_iff.mp hstep
    exact ⟨hwalk, forall_mem_cons.mpr ⟨⟨_, hrecord⟩, hrest⟩⟩

/-! ## The retained policy -/

/-- A policy that is accepted is the record under the manifest's digest, and its
points are the manifest's. -/
theorem verifyPolicy_ok {files : List SourceFile} (h : verifyPolicy rt sel manifest files = .ok ()) :
    ∃ data body points,
      sel.workspace.mutationPolicy manifest.epochId manifest.parentGenerationId
        manifest.policySha256 = .ok data ∧
      rt.sha256 data = manifest.policySha256 ∧ rt.loadPolicy data = .ok body ∧
      body.points = .ok points ∧ ∀ point, point ∈ points ↔ point ∈ manifest.points := by
  obtain ⟨-, h⟩ := require_bind h
  obtain ⟨data, hdata, h⟩ := bind_eq_ok h
  obtain ⟨hsha, h⟩ := require_bind h
  obtain ⟨body, hbody, h⟩ := bind_eq_ok h
  iterate 4 obtain ⟨-, h⟩ := require_bind h
  obtain ⟨brief, -, h⟩ := bind_eq_ok h
  obtain ⟨-, h⟩ := require_bind h
  obtain ⟨scoring, -, h⟩ := bind_eq_ok h
  obtain ⟨-, h⟩ := require_bind h
  obtain ⟨points, hpoints, h⟩ := bind_eq_ok h
  obtain ⟨hsorted, -⟩ := require_bind h
  refine ⟨data, body, points, hdata, by simpa using hsha, hbody, hpoints, fun point => ?_⟩
  rw [← mem_sorted pointKeyLt points, eq_of_beq hsorted, mem_sorted]

/-! ## The attestation -/

theorem contained_iff (findings : List ContainmentFinding) :
    (attestation findings).status = .contained ↔ findings = [] := by
  cases findings with
  | nil => simp [attestation]
  | cons f fs =>
    simp only [attestation, isEmpty_cons, reduceCtorEq, iff_false]
    split
    · contradiction
    · split <;> simp

/-- A contained manifest has passed every refusal, and nothing was found. -/
theorem verifyManifest_contained (h : (verifyManifest rt sel manifest).status = .contained) :
    ∃ left right, sel.parentRoot.sourceFiles rt.sha256 = .ok left ∧
      sel.childRoot.sourceFiles rt.sha256 = .ok right ∧
      (manifest.epochId, manifest.parentGenerationId) = (sel.epochId, sel.parentGenerationId) ∧
      sourceFindings rt sel manifest left right = [] := by
  rw [verifyManifest] at h
  -- each refusal has a status of its own
  split at h
  · cases h
  split at h
  · cases h
  split at h
  · cases h
  rename_i hcoord
  split at h
  · cases h
  split at h
  · cases h
  split at h
  · cases h
  · cases h
  rename_i left right hleft hright
  simp only [ne_eq, Prod.mk.injEq, Decidable.not_not] at hcoord
  exact ⟨left, right, hleft, hright, by simp [hcoord.1, hcoord.2.1], (contained_iff _).mp h⟩

/-- The parts of an empty list of findings. -/
theorem sourceFindings_nil {left right : List SourceFile}
    (h : sourceFindings rt sel manifest left right = []) :
    verifyPolicy rt sel manifest left = .ok () ∧
      inventoryFindings ⟨Snapshot.byPath left, Snapshot.byPath right⟩ manifest = [] ∧
      ∀ record ∈ manifest.files, ∃ ids,
        fileFindings rt sel ⟨Snapshot.byPath left, Snapshot.byPath right⟩ ids record = [] := by
  simp only [sourceFindings, append_eq_nil_iff] at h
  obtain ⟨⟨⟨⟨⟨hpolicy, -⟩, hinventory⟩, -⟩, hwalk⟩, -⟩ := h
  refine ⟨?_, hinventory, (walk_findings_nil hwalk).2⟩
  split at hpolicy
  · assumption
  · cases hpolicy

/-- The records are the files of the two inventories, each once. -/
theorem inventoryFindings_nil (h : inventoryFindings inv manifest = []) :
    (manifest.files.map (·.path)).Nodup ∧
      ∀ path, (inv.left.get? path).isSome = true ∨ (inv.right.get? path).isSome = true →
        ∃ record ∈ manifest.files, record.path = path := by
  simp only [inventoryFindings, ite_eq_left_iff, cons_ne_nil, imp_false,
    Decidable.not_not] at h
  obtain ⟨hnodup, -, hcovered⟩ := h
  refine ⟨hnodup, fun path hpath => ?_⟩
  have hmem : path ∈ inv.left.keys ++ inv.right.keys := by
    rw [mem_append]
    refine hpath.imp (fun hl => ?_) fun hr => ?_
    · by_contra hn
      simp [(Dict.get?_eq_none_iff _ _).mpr hn] at hl
    · by_contra hn
      simp [(Dict.get?_eq_none_iff _ _).mpr hn] at hr
  exact mem_map.mp (hcovered path hmem)

/-- The permitted hunks of a record substitute the child's bytes inside the
points of its path. -/
theorem substituted_of_hunks {points : List PolicyPoint} {hunks : List Hunk}
    (hrecord : record ∈ manifest.files) (hnodup : (manifest.files.map (·.path)).Nodup)
    (hpoints : ∀ point, point ∈ points ↔ point ∈ manifest.points)
    (hbool : ∀ span ∈ record.spans, ∃ b, span.forbidden = .bool b)
    (haligned : Aligned before after 0 0 hunks)
    (hpermitted : ∀ hunk ∈ hunks, Permitted record.spans hunk) :
    Substituted points record.path before after := by
  have hspan : ∀ span ∈ record.spans, span.policyPoint record.path ∈ points := fun span hs =>
    (hpoints _).mpr (mem_flatMap.mpr ⟨record, hrecord, mem_map_of_mem hs⟩)
  -- distinct paths: a point of this path is a span of this record
  have hpoint : ∀ p ∈ points, p.path = record.path →
      ∃ span ∈ record.spans, p = span.policyPoint record.path := by
    intro p hp hpath
    obtain ⟨other, hother, hmem⟩ := mem_flatMap.mp ((hpoints p).mp hp)
    obtain ⟨span, hs, rfl⟩ := mem_map.mp hmem
    have hsame : other = record := inj_on_of_nodup_map hnodup hother hrecord hpath
    exact ⟨span, hsame ▸ hs, by rw [hsame]⟩
  refine ⟨hunks.map (Hunk.edit after), haligned.ordered, haligned.eq_substitute, ?_, ?_⟩
  · intro e he
    obtain ⟨hunk, hhunk, rfl⟩ := mem_map.mp he
    obtain ⟨⟨span, hs, hfree, a, b, ha, hb, hlo, hhi⟩, -⟩ := hpermitted hunk hhunk
    obtain ⟨f, hf⟩ := hbool span hs
    refine ⟨span.policyPoint record.path, hspan span hs, rfl, ?_, a, b, ha, hb, hlo, hhi⟩
    rw [hf] at hfree
    exact hf.trans (congrArg Raw.bool hfree)
  · intro i hprotected e he hin
    obtain ⟨hunk, hhunk, rfl⟩ := mem_map.mp he
    obtain ⟨⟨span, hs, -, a, b, ha, hb, hlo, hhi⟩, hforbidden⟩ := hpermitted hunk hhunk
    have hin' : hunk.start ≤ i ∧ i < hunk.stop := hin
    rcases hprotected with ⟨p, hp, hpath, hforb, a', b', ha', hb', hai, hib⟩ | hnone
    · obtain ⟨span', hs', rfl⟩ := hpoint p hp hpath
      have htruthy : span'.forbidden.truthy = true := by
        rw [show span'.forbidden = Raw.bool true from hforb]
        rfl
      exact hforbidden span' hs' htruthy a' b' ha' hb' i hai hib hin'
    · exact hnone _ (hspan span hs) rfl ⟨a, b, ha, hb, by omega, by omega⟩

/-- Two inputs of one hash. -/
def Collision (sha256 : Bytes → String) (data other : Bytes) : Prop :=
  data ≠ other ∧ sha256 data = sha256 other

theorem verify_manifest_sound (rt : Runtime) (sel : Selection) (manifest : ContainmentManifest)
    (h : (verifyManifest rt sel manifest).status = .contained) :
    ∃ data body points,
      -- the policy whose points count is the one retained under the manifest's digest,
      -- and any record of that digest is it
      sel.workspace.mutationPolicy sel.epochId sel.parentGenerationId manifest.policySha256 =
        .ok data ∧
      (∀ captured, rt.sha256 captured = manifest.policySha256 →
        captured = data ∨ Collision rt.sha256 captured data) ∧
      rt.loadPolicy data = .ok body ∧ body.points = .ok points ∧
      (∀ path, (sel.parentRoot.content path).isSome = (sel.childRoot.content path).isSome) ∧
      ∀ path before executable after executable',
        sel.parentRoot.content path = some (before, executable) →
        sel.childRoot.content path = some (after, executable') →
        executable' = executable ∧ Substituted points path before after ∧
          Preserved points path before after := by
  obtain ⟨left, right, hleft, hright, hcoord, hnil⟩ := verifyManifest_contained h
  obtain ⟨hpolicy, hinventory, hfiles⟩ := sourceFindings_nil hnil
  obtain ⟨data, body, points, hdata, hsha, hbody, hpoints, hsame⟩ := verifyPolicy_ok hpolicy
  obtain ⟨hnodup, hcovered⟩ := inventoryFindings_nil hinventory
  have hget := Snapshot.get?_sourceFiles hleft
  have hget' := Snapshot.get?_sourceFiles hright
  rw [Prod.mk.injEq] at hcoord
  rw [hcoord.1, hcoord.2] at hdata
  refine ⟨data, body, points, hdata, fun captured hc => ?_, hbody, hpoints, fun path => ?_, ?_⟩
  · by_cases he : captured = data
    · exact Or.inl he
    · exact Or.inr ⟨he, hc.trans hsha.symm⟩
  · -- a file of either tree is recorded, and a recorded file is in both
    have hiff : ∀ p, (sel.parentRoot.content p).isSome = true ∨
        (sel.childRoot.content p).isSome = true →
        (sel.parentRoot.content p).isSome = true ∧ (sel.childRoot.content p).isSome = true := by
      intro p hp
      obtain ⟨record, hrecord, rfl⟩ := hcovered p (by simpa [hget, hget'] using hp)
      obtain ⟨ids, hfile⟩ := hfiles record hrecord
      obtain ⟨⟨l, r, hl, hr, -⟩, -⟩ := fileFindings_nil hfile
      rw [hget] at hl
      rw [hget'] at hr
      exact ⟨by simpa using congrArg Option.isSome hl, by simpa using congrArg Option.isSome hr⟩
    rw [Bool.eq_iff_iff]
    exact ⟨fun hp => (hiff path (Or.inl hp)).2, fun hp => (hiff path (Or.inr hp)).1⟩
  · intro path before executable after executable' hbefore hafter
    obtain ⟨record, hrecord, rfl⟩ := hcovered path (Or.inl (by simp [hget, hbefore]))
    obtain ⟨ids, hfile⟩ := hfiles record hrecord
    obtain ⟨⟨l, r, hl, hr, hexec⟩, hbool, hunks, haligned, hpermitted⟩ := fileFindings_nil hfile
    rw [hget, hbefore] at hl
    rw [hget', hafter] at hr
    cases hl
    cases hr
    simp only [Snapshot.readBytes, hbefore, hafter] at haligned
    have hsub := substituted_of_hunks hrecord hnodup hsame hbool haligned hpermitted
    exact ⟨hexec.symm, hsub, hsub.preserved⟩

/-! ### One region of one file -/

/-- A region before the edit. -/
def toneBefore : Bytes := List.flatMap utf8
  ["<!-- zicato:mutable:code id=\"tone\" -->\n", "a\n", "<!-- zicato:mutable:end -->\n"]

/-- The region after the edit. -/
def toneAfter : Bytes := List.flatMap utf8
  ["<!-- zicato:mutable:code id=\"tone\" -->\n", "b\n", "<!-- zicato:mutable:end -->\n"]

/-- The brief of the epoch. -/
def toneBrief : Bytes := utf8 "# Brief\n"

/-- The scoring of the epoch. -/
def toneScoring : Bytes := utf8 "\x7b\x7d\n"

/-- A retained policy record with one point, as it was written.  The texts are short because the
kernel reads a literal in quadratic time. -/
def policyRecord (path start stop contentHash fileHash : String) : Bytes := List.flatMap utf8
  ["\x7b\n", "  \"brief_sha256\": \"", "1a2036951819553b36c38faad3aa3eb4",
    "aa9421072cb9ea61ea67ab7ada105f10", "\",\n", "  \"enumeration_roots\": [\n",
    "    \".\"\n  ],\n", "  \"epoch_id\": \"e1\",\n", "  \"format_version\": 1,\n",
    "  \"parent_generation_id\"", ": \"v0\",\n", "  \"parent_source\"", ": \"v0\",\n",
    "  \"points\": [\n    \x7b\n", "      \"content_hash\": \"", contentHash, "\",\n",
    "      \"end\": ", stop, ",\n      \"forbidden\"", ": false,\n", "      \"id\": \"tone\",\n",
    "      \"kind\": \"code\",\n", "      \"metadata\": [],\n", "      \"op\": \"replace\",\n",
    "      \"path\": \"", path, "\",\n      \"source_sha256\"", ": \"", contentHash, "\",\n",
    "      \"start\": ", start, "\n    \x7d\n  ],\n", "  \"scoring_sha256\": \"",
    "ca3d163bab055381827226140568f3be", "f7eaac187cebd76878e0b63e9e442356", "\",\n",
    "  \"source_files\": [\n    \x7b\n", "      \"executable\": ", "false,\n      \"path\": \"",
    path, "\",\n      \"sha256\": \"", fileHash, "\"\n    \x7d\n  ]\n\x7d\n"]

/-- The policy record of the child. -/
def toneRecord : Bytes := policyRecord "tone.md" "39" "41"
  "87428fc522803d31065e7bce3cf03fe475096631e5e07bbd7a0fde60c4cf25c7"
  "d36e7f7475daf35e34ff307b96eef53c1079b826fab19d050b07db24a025735b"

/-- The accepted patch. -/
def tonePatch : Bytes := List.flatMap utf8
  ["\x7b\n  \"id\": \"p1\",\n  \"mutation_id\": \"tone\",\n",
    "  \"new_content\": \"b\\n\",\n  \"new_enum\": null,\n  \"new_numeric\": null,\n",
    "  \"op\": \"replace\",\n  \"rationale\": \"\"\n\x7d\n"]

/-- SHA-256 at the inputs of this verification. -/
def toneSha256 (data : Bytes) : String :=
  Dict.getD
    [(toneBefore, "d36e7f7475daf35e34ff307b96eef53c1079b826fab19d050b07db24a025735b"),
      (toneAfter, "ce92127259d8a9a3869b5772e76329f8d33961995414373e119d1dfb3bfd81a1"),
      (utf8 "a\n", "87428fc522803d31065e7bce3cf03fe475096631e5e07bbd7a0fde60c4cf25c7"),
      (utf8 "b\n", "0263829989b6fd954f72baaf2fc64bc2e2f01d692d4de72986ea808f6e99813f"),
      (toneBrief, "1a2036951819553b36c38faad3aa3eb4aa9421072cb9ea61ea67ab7ada105f10"),
      (toneScoring, "ca3d163bab055381827226140568f3bef7eaac187cebd76878e0b63e9e442356"),
      (toneRecord, "6d07ed0728a12bd4cf65fe38484b829afa24335bb78e61082d5d39872e2eff8e"),
      (tonePatch, "9800fc25932c54c9c16038f0293fa6b315e6c56bed69435969f416abc18ae618")]
    data ""

/-- The span of the region. -/
def toneSpan : MutationSpan where
  id := "tone"
  kind := "code"
  op := "replace"
  start := .int 39
  stop := .int 41
  sourceSha256 := toneSha256 (utf8 "a\n")
  childStart := .int 39
  childEnd := .int 41
  childSourceSha256 := some (toneSha256 (utf8 "b\n"))
  contentHash := toneSha256 (utf8 "a\n")
  metadata := []
  forbidden := .bool false

/-- The policy record, decoded. -/
def toneBody : PolicyBody where
  formatVersion := .int 1
  epochId := .str "e1"
  parentGenerationId := .str "v0"
  parentSource := .str "v0"
  sourceFiles := some [⟨"tone.md", toneSha256 toneBefore, false⟩]
  enumerationRoots := some ["."]
  briefSha256 := .str (toneSha256 toneBrief)
  scoringSha256 := .str (toneSha256 toneScoring)
  points := .ok [toneSpan.policyPoint "tone.md"]

/-- The digests and the decoders on these files. -/
def toneRuntime : Runtime where
  sha256 := toneSha256
  repr s := "'" ++ s ++ "'"
  loadPolicy data := if data = toneRecord then .ok toneBody else .error "Expecting value"
  loadPatch data :=
    if data = tonePatch then some ⟨some (.str "p1"), some (.str "tone"), some (.str "replace")⟩
    else none

/-- A tree of the one file. -/
def toneTree (bytes : Bytes) : Snapshot where
  nodes := [("tone.md", .file bytes false)]
  nodup := by simp [Dict.keys]
  resolves path := path == "." || path == "tone.md"

/-- The two generations and their records. -/
def toneSelection : Selection where
  workspace :=
    { mutationPolicy := fun _ _ _ => .ok toneRecord
      brief := fun _ => .ok toneBrief
      scoring := fun _ => .ok toneScoring }
  parentRoot := toneTree toneBefore
  childRoot := toneTree toneAfter
  parentLocation := some "v0"
  childLocation := some "v1"
  epochId := "e1"
  parentGenerationId := "v0"
  generationId := "v1"
  patchRecords := [("p1", tonePatch)]
  patchIds := ["p1"]

/-- The manifest of the edit. -/
def toneManifest : ContainmentManifest where
  epochId := "e1"
  parentGenerationId := "v0"
  generationId := "v1"
  parentSource := "v0"
  childSource := "v1"
  patches := [⟨"p1", toneSha256 tonePatch⟩]
  files :=
    [{ path := "tone.md"
       parentSha256 := some (toneSha256 toneBefore)
       childSha256 := some (toneSha256 toneAfter)
       parentExecutable := .bool false
       childExecutable := .bool false
       spans := [toneSpan]
       changes := [⟨.int 39, .int 40, .int 39, .int 40⟩] }]
  policySha256 := toneSha256 toneRecord

/-- The kernel reads a literal's characters in quadratic time, so they are given to it. -/
theorem isDigest_literal {value : String} (text : List Char) (hvalue : value = String.ofList text)
    (h : (text.length == 64 && text.all ("0123456789abcdef".toList.contains ·)) = true) :
    isDigest value = true := by
  rw [isDigest, hvalue, String.length_ofList, String.toList_ofList]
  exact h

theorem isDigest_toneSha256 {data : Bytes} (hne : toneSha256 data ≠ "") :
    isDigest (toneSha256 data) = true := by
  have htable : toneSha256 data = "" ∨ isDigest (toneSha256 data) = true := by
    unfold toneSha256
    refine Dict.getD_induction (P := fun hash => hash = "" ∨ isDigest hash = true) (.inl rfl) ?_
    simp only [forall_mem_cons, not_mem_nil, false_implies, implies_true, and_true]
    refine ⟨.inr ?_, .inr ?_, .inr ?_, .inr ?_, .inr ?_, .inr ?_, .inr ?_, .inr ?_⟩ <;>
      exact isDigest_literal _ rfl (by decide)
  exact htable.resolve_left hne

theorem tone_validFields : validFields toneManifest = true := by
  have hknown : ∀ data ∈ [toneBefore, toneAfter, utf8 "a\n", tonePatch],
      isDigest (toneSha256 data) = true := by
    intro data hdata
    refine isDigest_toneSha256 ?_
    revert data
    decide +kernel
  simp only [forall_mem_cons, not_mem_nil, false_implies, implies_true, and_true]
    at hknown
  simp only [validFields, toneManifest, toneSpan, all_cons, all_nil, validSide, hknown]
  decide

theorem verify_manifest_sound_tone :
    (verifyManifest toneRuntime toneSelection toneManifest).status = .contained ∧
      Substituted [toneSpan.policyPoint "tone.md"] "tone.md" toneBefore toneAfter := by
  have hcontained :
      (verifyManifest toneRuntime toneSelection toneManifest).status = .contained := by
    rw [verifyManifest, tone_validFields]
    decide +kernel
  obtain ⟨data, body, points, hdata, -, hbody, hpoints, -, hfile⟩ :=
    verify_manifest_sound toneRuntime toneSelection toneManifest hcontained
  obtain rfl : toneRecord = data := Except.ok.inj hdata
  have hload : toneRuntime.loadPolicy toneRecord = .ok toneBody := by simp only [toneRuntime, if_true]
  obtain rfl : toneBody = body := Except.ok.inj (hload.symm.trans hbody)
  obtain rfl : [toneSpan.policyPoint "tone.md"] = points := Except.ok.inj hpoints
  have hpath : underArtifact "tone.md" = false := by decide +kernel
  have hcontent : ∀ bytes, (toneTree bytes).content "tone.md" = some (bytes, false) := by
    intro bytes
    simp [Snapshot.content, hpath, toneTree, Dict.get?]
  exact ⟨hcontained, (hfile "tone.md" _ _ _ _ (hcontent _) (hcontent _)).2.1⟩

end Zicato.Containment
