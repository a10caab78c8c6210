import Mathlib.Data.List.Induction
import Zicato.UnitCache

/-! # Single flight

What holds of the unit cache in every run, whatever the callers ask for and in
whichever order their awaits are resumed. -/
open List Option Function
namespace Zicato.UnitCache

section Log
variable {β : Type}

/-- What a slot holds after an effect, given what it held. -/
def Effect.apply (slot : Slot) (record : Option (Record β)) : Effect β → Option (Record β)
  | .archived slot' => if slot' = slot then none else record
  | .persisted _ slot' loss => if slot' = slot then some (.profile loss) else record
  | .left _ slot' loss => if slot' = slot then some (.profile loss) else record
  | .requested _ _ | .reused _ _ | .evaluates _ => record

/-- What a slot holds after the effects of a log. -/
def content (log : List (Effect β)) (slot : Slot) : Option (Record β) :=
  log.foldl (fun record effect => effect.apply slot record) none

@[simp] theorem content_nil (slot : Slot) : content ([] : List (Effect β)) slot = none := rfl

@[simp] theorem content_snoc (log : List (Effect β)) (effect : Effect β) (slot : Slot) :
    content (log ++ [effect]) slot = effect.apply slot (content log slot) := by
  simp [content]

/-- The effect changes the slot. -/
def Effect.touches (slot : Slot) : Effect β → Prop
  | .archived slot' => slot' = slot
  | .persisted _ slot' _ => slot' = slot
  | .left _ slot' _ => slot' = slot
  | .requested _ _ | .reused _ _ | .evaluates _ => False

variable {slot : Slot}

theorem apply_of_not_touches {effect : Effect β} (h : ¬ effect.touches slot)
    (record : Option (Record β)) : effect.apply slot record = record := by
  cases effect with
  | archived slot' => exact if_neg h
  | persisted c slot' loss => exact if_neg h
  | left c slot' loss => exact if_neg h
  | requested c call => rfl
  | reused c loss => rfl
  | evaluates c => rfl

/-- Whether a slot holds what a worker has left there, after an effect. -/
def Effect.leaves (slot : Slot) (leftover : Bool) : Effect β → Bool
  | .left _ slot' _ => if slot' = slot then true else leftover
  | .archived slot' => if slot' = slot then false else leftover
  | .persisted _ slot' _ => if slot' = slot then false else leftover
  | .requested _ _ | .reused _ _ | .evaluates _ => leftover

/-- The slot holds the profile of a worker, and no evaluation has persisted one since. -/
def leftover (log : List (Effect β)) (slot : Slot) : Bool :=
  log.foldl (Effect.leaves slot) false

/-- A profile in a slot that no worker has left there was persisted. -/
theorem persisted_of_content {log : List (Effect β)} {loss : LossProfile β}
    (h : content log slot = some (.profile loss)) (hleft : leftover log slot = false) :
    ∃ c, .persisted c slot loss ∈ log := by
  induction log using reverseRecOn with
  | nil => cases h
  | append_singleton log effect ih =>
    rw [content_snoc] at h
    rw [leftover, foldl_append, foldl_cons, foldl_nil, ← leftover] at hleft
    by_cases ht : effect.touches slot
    · cases effect with
      | archived slot' => simp [Effect.apply, show slot' = slot from ht] at h
      | persisted c slot' loss' =>
        obtain rfl : slot' = slot := ht
        simp only [Effect.apply, if_true, some.injEq, Record.profile.injEq] at h
        exact ⟨c, by simp [h]⟩
      | left c slot' loss' => simp [Effect.leaves, show slot' = slot from ht] at hleft
      | requested c call => cases ht
      | reused c loss' => cases ht
      | evaluates c => cases ht
    · rw [apply_of_not_touches ht] at h
      have hsame : effect.leaves slot (leftover log slot) = leftover log slot := by
        cases effect with
        | archived slot' => exact if_neg ht
        | persisted c slot' loss' => exact if_neg ht
        | left c slot' loss' => exact if_neg ht
        | requested c call => rfl
        | reused c loss' => rfl
        | evaluates c => rfl
      obtain ⟨c, hc⟩ := ih h (hsame ▸ hleft)
      exact ⟨c, mem_append_left _ hc⟩

theorem snoc_eq_append_cons {α : Type} {log pre suf : List α} {a b : α}
    (h : log ++ [a] = pre ++ b :: suf) :
    (∃ suf', log = pre ++ b :: suf') ∨ (pre = log ∧ b = a) := by
  cases suf using reverseRecOn with
  | nil =>
    obtain ⟨rfl, hb⟩ := append_inj' h rfl
    exact .inr ⟨rfl, (List.cons.inj hb).1.symm⟩
  | append_singleton suf' c =>
    rw [← cons_append, ← List.append_assoc] at h
    exact .inl ⟨suf', (append_inj' h rfl).1⟩

/-- What is said of every effect and the log before it. -/
theorem forall_snoc {log : List (Effect β)} {P : List (Effect β) → Effect β → Prop}
    {effect : Effect β} (h : ∀ pre e suf, log = pre ++ e :: suf → P pre e) (he : P log effect) :
    ∀ pre e suf, log ++ [effect] = pre ++ e :: suf → P pre e := by
  intro pre e suf heq
  rcases snoc_eq_append_cons heq with ⟨suf', heq⟩ | ⟨rfl, rfl⟩
  · exact h pre e suf' heq
  · exact he

end Log

section Invariant
variable {β : Type} (digest : String → String → String → String)

/-- What the log says of a profile that is reused or written, and of an evaluation. -/
def Lawful (log : List (Effect β)) : Effect β → Prop
  | .requested _ _ => True
  | .reused c loss => ∃ call, .requested c call ∈ log ∧ call.forceFresh = false ∧
      resolveCachedUnit digest call.key (content log call.key.slot) = some loss
  | .evaluates c => ∃ call, .requested c call ∈ log
  | .archived _ => True
  | .persisted c slot loss => ∃ call, .requested c call ∈ log ∧ call.key.slot = slot ∧
      .evaluates c ∈ log ∧ ∃ raw, (settle call.key raw).kept = some loss
  | .left c slot loss => ∃ call, .requested c call ∈ log ∧ call.key.slot = slot ∧
      .evaluates c ∈ log ∧ ∃ reduced exceeded, loss = workerProfile digest call.key reduced exceeded

/-- The invariant of the runs.  `looking` is a caller between its request and the
outcome of its lookup. -/
structure Inv (looking : Option CallerId) (s : State β) : Prop where
  /-- A key in flight belongs to the caller that evaluates it. -/
  owner : ∀ key c, s.inflight key = some c →
    ∃ caller, s.callers c = some caller ∧ caller.call.key = key ∧ caller.phase.evaluates = true
  claims : ∀ c caller, s.callers c = some caller → caller.phase.evaluates = true →
    s.inflight caller.call.key = some c
  store : ∀ slot, s.store slot = content s.log slot
  known : ∀ c caller, s.callers c = some caller → .requested c caller.call ∈ s.log
  named : ∀ c call, .requested c call ∈ s.log → some c ≠ looking →
    ∃ phase, s.callers c = some ⟨call, phase⟩
  persisted : ∀ c slot loss, .persisted c slot loss ∈ s.log →
    ∃ call, s.callers c = some ⟨call, .returned loss false⟩ ∧ call.key.slot = slot
  begun : ∀ c caller, s.callers c = some caller → caller.phase.evaluates = true →
    .evaluates c ∈ s.log
  launched : ∀ c, s.launched c = true → .evaluates c ∈ s.log
  lawful : ∀ pre effect suf, s.log = pre ++ effect :: suf → Lawful digest pre effect
variable {digest} {s : State β} {x : Option CallerId} {c : CallerId} {call : Call}

/-- The invariant holds at the start. -/
theorem inv_init : Inv digest none (State.init β) where
  owner _ _ h := by cases h
  claims _ _ h := by cases h
  store _ := rfl
  known _ _ h := by cases h
  named _ _ h := by cases h
  persisted _ _ _ h := by cases h
  begun _ _ h := by cases h
  launched _ h := by cases h
  lawful pre effect suf h := by
    have := congrArg length h
    simp [State.init] at this

/-! ## What a step does to one caller -/

/-- An effect that a caller may note as it moves. -/
def Effect.moves : Effect β → Prop
  | .reused _ _ | .evaluates _ => True
  | .requested _ _ | .archived _ | .persisted _ _ _ | .left _ _ _ => False

/-- The request of the caller is in the log, alone. -/
structure Pending (looking : Option CallerId) (s : State β) (c : CallerId) (call : Call) : Prop where
  asked : .requested c call ∈ s.log
  only : ∀ call', .requested c call' ∈ s.log → call' = call
  exempt : ∀ c', looking = some c' → c' = c

variable {s' : State β} {phase phase' : Phase β} {key : UnitKey}

/-- **One caller moves**, and notes what it does. -/
theorem Inv.update (h : Inv digest x s) (hp : Pending x s c call) {effects : List (Effect β)}
    (hcallers : s'.callers = Function.update s.callers c (some ⟨call, phase⟩))
    (hlog : s'.log = s.log ++ effects) (hstore : ∀ slot, s'.store slot = content s'.log slot)
    (hlaunched : ∀ c', s'.launched c' = true → .evaluates c' ∈ s'.log)
    (hmoves : ∀ effect ∈ effects, effect.moves)
    (howner : ∀ key c', s'.inflight key = some c' →
      (c' = c ∧ call.key = key ∧ phase.evaluates = true) ∨ (c' ≠ c ∧ s.inflight key = some c'))
    (hclaim : phase.evaluates = true → s'.inflight call.key = some c ∧ .evaluates c ∈ s'.log)
    (hothers : ∀ key c', c' ≠ c → s.inflight key = some c' → s'.inflight key = some c')
    (hreturned : ∀ caller, s.callers c = some caller → ∀ loss cached,
      caller.phase ≠ .returned loss cached)
    (hlawful : ∀ pre effect suf, s'.log = pre ++ effect :: suf → Lawful digest pre effect) :
    Inv digest none s' := by
  have hmem : ∀ {effect}, effect ∈ s.log → effect ∈ s'.log := by
    intro effect he
    rw [hlog]
    exact mem_append_left _ he
  have hself : s'.callers c = some ⟨call, phase⟩ := by
    rw [hcallers, update_self]
  have hother : ∀ c', c' ≠ c → s'.callers c' = s.callers c' := by
    intro c' hne
    rw [hcallers, update_of_ne hne]
  have hold : ∀ {effect}, effect ∈ s'.log → ¬ effect.moves → effect ∈ s.log := by
    intro effect he hstill
    rw [hlog] at he
    exact (mem_append.mp he).resolve_right fun he => hstill (hmoves _ he)
  refine
    { owner := ?_, claims := ?_, store := hstore, known := ?_, named := ?_, persisted := ?_
      begun := ?_, launched := hlaunched, lawful := hlawful }
  · intro key c' hin
    rcases howner key c' hin with ⟨rfl, hkey, hev⟩ | ⟨hne, hin⟩
    · exact ⟨_, hself, hkey, hev⟩
    · obtain ⟨caller, hc, hrest⟩ := h.owner key c' hin
      exact ⟨caller, (hother c' hne).trans hc, hrest⟩
  · intro c' caller hc hev
    by_cases hne : c' = c
    · subst hne
      obtain rfl := some.inj (hself.symm.trans hc)
      exact (hclaim hev).1
    · rw [hother c' hne] at hc
      exact hothers _ _ hne (h.claims c' caller hc hev)
  · intro c' caller hc
    by_cases hne : c' = c
    · subst hne
      obtain rfl := some.inj (hself.symm.trans hc)
      exact hmem hp.asked
    · rw [hother c' hne] at hc
      exact hmem (h.known c' caller hc)
  · intro c' call' hr _
    have hr := hold hr (fun hm => hm)
    by_cases hne : c' = c
    · subst hne
      obtain rfl := hp.only call' hr
      exact ⟨phase, hself⟩
    · rw [hother c' hne]
      exact h.named c' call' hr fun he => hne (hp.exempt c' he.symm)
  · intro c' slot loss hr
    obtain ⟨call', hc, hslot⟩ := h.persisted c' slot loss (hold hr fun hm => hm)
    by_cases hne : c' = c
    · subst hne
      exact absurd rfl (hreturned _ hc loss false)
    · exact ⟨call', (hother c' hne).trans hc, hslot⟩
  · intro c' caller hc hev
    by_cases hne : c' = c
    · subst hne
      obtain rfl := some.inj (hself.symm.trans hc)
      exact (hclaim hev).2
    · rw [hother c' hne] at hc
      exact hmem (h.begun c' caller hc hev)

theorem Inv.pending (h : Inv digest none s) (hc : s.callers c = some ⟨call, phase⟩) :
    Pending none s c call where
  asked := h.known c _ hc
  only call' hr := by
    obtain ⟨phase', hc'⟩ := h.named c call' hr (by simp)
    exact congrArg Caller.call (some.inj (hc'.symm.trans hc))
  exempt c' hx := by cases hx

/-- **A file changes**, and the log says how. -/
theorem Inv.record (h : Inv digest x s) {slot : Slot} {record : Option (Record β)}
    {effect : Effect β} (heffect : effect = .archived slot ∨
      (∃ c loss, effect = .persisted c slot loss) ∨ ∃ c loss, effect = .left c slot loss)
    (happly : effect.apply slot (s.store slot) = record) (hlaw : Lawful digest s.log effect)
    (hpersisted : ∀ c loss, effect = .persisted c slot loss →
      ∃ call, s.callers c = some ⟨call, .returned loss false⟩ ∧ call.key.slot = slot) :
    Inv digest x ((s.write slot record).note effect) := by
  have hrequested : ∀ {c call}, .requested c call ∈ s.log ++ [effect] → .requested c call ∈ s.log := by
    intro c call he
    refine (mem_append.mp he).resolve_right fun he => ?_
    rw [← mem_singleton.mp he] at heffect
    rcases heffect with heq | ⟨_, _, heq⟩ | ⟨_, _, heq⟩ <;> cases heq
  have htouches : ∀ slot', slot' ≠ slot → ¬ effect.touches slot' := by
    intro slot' hne ht
    rcases heffect with rfl | ⟨c, loss, rfl⟩ | ⟨c, loss, rfl⟩
    all_goals exact hne ht.symm
  refine
    { owner := h.owner, claims := h.claims, store := ?_, known := ?_, named := ?_, persisted := ?_
      begun := ?_, launched := ?_, lawful := forall_snoc h.lawful hlaw }
  · intro slot'
    change Function.update s.store slot record slot' = content (s.log ++ [effect]) slot'
    rw [content_snoc, ← h.store]
    by_cases hslot : slot' = slot
    · subst hslot
      rw [update_self, happly]
    · rw [update_of_ne hslot, apply_of_not_touches (htouches slot' hslot)]
  · intro c caller hc
    exact mem_append_left _ (h.known c caller hc)
  · intro c call hr hx
    exact h.named c call (hrequested hr) hx
  · intro c slot' loss hr
    rcases mem_append.mp hr with hr | hr
    · exact h.persisted c slot' loss hr
    · have heq : .persisted c slot' loss = effect := mem_singleton.mp hr
      obtain rfl : slot' = slot := by
        rcases heffect with rfl | ⟨c', loss', rfl⟩ | ⟨c', loss', rfl⟩
        · cases heq
        · injection heq
        · cases heq
      exact hpersisted c loss heq.symm
  · intro c caller hc hev
    exact mem_append_left _ (h.begun c caller hc hev)
  · intro c hl
    exact mem_append_left _ (h.launched c hl)

theorem Inv.archive (h : Inv digest x s) (slot : Slot) : Inv digest x (s.archive slot) :=
  h.record (.inl rfl) (by simp [Effect.apply]) trivial (fun _ _ he => by cases he)

/-- Only the caller that evaluates a key has it in flight. -/
theorem Inv.owner_eq (h : Inv digest x s) (hc : s.callers c = some ⟨call, phase⟩)
    (hin : s.inflight key = some c) : key = call.key ∧ phase.evaluates = true := by
  obtain ⟨caller, hc', hkey, hev⟩ := h.owner key c hin
  obtain rfl := some.inj (hc.symm.trans hc')
  exact ⟨hkey.symm, hev⟩

/-- A caller that evaluates has not returned. -/
theorem not_returned_of_evaluates (h : phase.evaluates = true)
    (hc : s.callers c = some ⟨call, phase⟩) {caller : Caller β} (hc' : s.callers c = some caller)
    (loss : LossProfile β) (cached : Bool) : caller.phase ≠ .returned loss cached := by
  obtain rfl := some.inj (hc.symm.trans hc')
  rintro rfl
  cases h

section
variable (h : Inv digest none s) (hc : s.callers c = some ⟨call, phase⟩)
  (hev : phase.evaluates = true)
include h hc hev

/-- **An evaluation goes on.** -/
theorem Inv.evaluating (hev' : phase'.evaluates = true) : Inv digest none (s.setPhase c call phase') := by
  have hin := h.claims c _ hc hev
  refine h.update (h.pending hc) rfl (append_nil _).symm h.store h.launched (by simp) ?_
    (fun _ => ⟨hin, h.begun c _ hc hev⟩) (fun _ _ _ hin => hin)
    (fun _ hc' => not_returned_of_evaluates hev hc hc') h.lawful
  intro key c' hin'
  by_cases hne : c' = c
  · subst hne
    exact .inl ⟨rfl, (h.owner_eq hc hin').1.symm, hev'⟩
  · exact .inr ⟨hne, hin'⟩

/-- **An evaluation ends**: the key is free again. -/
theorem Inv.release (hev' : phase'.evaluates = false) : Inv digest none (s.release c call phase') := by
  have hin := h.claims c _ hc hev
  refine h.update (h.pending hc) rfl (append_nil _).symm h.store h.launched (by simp) ?_
    (fun he => absurd he (by simp [hev'])) ?_
    (fun _ hc' => not_returned_of_evaluates hev hc hc') h.lawful
  · intro key c' hin'
    change Function.update s.inflight call.key none key = some c' at hin'
    by_cases hkey : key = call.key
    · rw [hkey, update_self] at hin'
      cases hin'
    · rw [update_of_ne hkey] at hin'
      refine .inr ⟨?_, hin'⟩
      rintro rfl
      exact hkey (h.owner_eq hc hin').1
  · intro key c' hne hin'
    change Function.update s.inflight call.key none key = some c'
    have hkey : key ≠ call.key := by
      rintro rfl
      exact hne (some.inj (hin'.symm.trans hin))
    rw [update_of_ne hkey]
    exact hin'

theorem Inv.archiveThen (hev' : phase'.evaluates = true) (archive : Archive) :
    Inv digest none (s.archiveThen c call phase' archive) := by
  cases archive with
  | done => exact (h.archive call.key.slot).evaluating hc hev hev'
  | failed removed =>
    cases removed with
    | true => exact (h.archive call.key.slot).release hc hev rfl
    | false => exact h.release hc hev rfl

end

/-! ## The steps -/

theorem archiveThen_setPhase (s : State β) (c : CallerId) (call : Call) (phase phase' : Phase β)
    (archive : Archive) :
    (s.setPhase c call phase).archiveThen c call phase' archive =
      s.archiveThen c call phase' archive := by
  have hidem : ∀ f : CallerId → Option (Caller β), ∀ a b : Option (Caller β),
      Function.update (Function.update f c a) c b = Function.update f c b :=
    fun f a b => update_idem ..
  cases archive with
  | done => simp only [State.archiveThen, State.archive, State.write, State.note, State.setPhase,
      hidem]
  | failed removed =>
    cases removed with
    | true => simp only [State.archiveThen, State.archive, State.write, State.note,
        State.setPhase, State.release, hidem]
    | false => simp only [State.archiveThen, State.setPhase, State.release, hidem]

/-- **A lookup**, by a caller that waits or has just asked. -/
theorem Inv.lookup (h : Inv digest x s) (hp : Pending x s c call)
    (hfresh : ∀ caller, s.callers c = some caller → ∃ event, caller.phase = .waiting event)
    (archive : Archive) : Inv digest none (s.lookup digest c call archive) := by
  have hreturned : ∀ caller, s.callers c = some caller → ∀ loss cached,
      caller.phase ≠ .returned loss cached := by
    intro caller hc loss cached hphase
    obtain ⟨event, he⟩ := hfresh _ hc
    rw [hphase] at he
    cases he
  have hnot : ∀ {key c'}, s.inflight key = some c' → c' ≠ c := by
    rintro key c' hin rfl
    obtain ⟨caller, hc, -, hev⟩ := h.owner key c' hin
    obtain ⟨event, he⟩ := hfresh _ hc
    rw [he] at hev
    cases hev
  unfold State.lookup
  -- a hit, a unit that another caller evaluates, or a unit to evaluate
  cases hcached : s.cached digest call with
  | some loss =>
    refine h.update hp rfl rfl ?_ (fun c' hl => mem_append_left _ (h.launched c' hl)) ?_
      (fun key c' hin => .inr ⟨hnot hin, hin⟩) (fun he => by cases he) (fun _ _ _ hin => hin)
      hreturned ?_
    · intro slot
      change s.store slot = content (s.log ++ [.reused c loss]) slot
      rw [content_snoc, h.store]
      rfl
    · intro effect he
      rw [mem_singleton.mp he]
      trivial
    · refine forall_snoc h.lawful ⟨call, hp.asked, ?_⟩
      unfold State.cached at hcached
      split at hcached
      · cases hcached
      · rename_i hforce
        rw [h.store] at hcached
        exact ⟨by simpa using hforce, hcached⟩
  | none =>
    dsimp only
    cases hin : s.inflight call.key with
    | some event =>
      exact h.update hp rfl (append_nil _).symm h.store h.launched (by simp)
        (fun key c' hin => .inr ⟨hnot hin, hin⟩) (fun he => by cases he) (fun _ _ _ hin => hin)
        hreturned h.lawful
    | none =>
      dsimp only
      rw [← archiveThen_setPhase _ c call .claimed]
      have hself : ∀ t : State β, (t.setPhase c call .claimed).callers c = some ⟨call, .claimed⟩ :=
        fun t => update_self ..
      refine Inv.archiveThen ?_ (hself _) rfl rfl archive
      · refine h.update hp rfl rfl ?_ (fun c' hl => mem_append_left _ (h.launched c' hl)) ?_ ?_ ?_ ?_
          hreturned (forall_snoc h.lawful ⟨call, hp.asked⟩)
        · intro slot
          change s.store slot = content (s.log ++ [.evaluates c]) slot
          rw [content_snoc, h.store]
          rfl
        · intro effect he
          rw [mem_singleton.mp he]
          trivial
        · intro key c' hin'
          change Function.update s.inflight call.key (some c) key = some c' at hin'
          by_cases hkey : key = call.key
          · subst hkey
            rw [update_self] at hin'
            exact .inl ⟨(some.inj hin').symm, rfl, rfl⟩
          · rw [update_of_ne hkey] at hin'
            exact .inr ⟨hnot hin', hin'⟩
        · intro _
          refine ⟨?_, mem_append_right _ (by simp)⟩
          change Function.update s.inflight call.key (some c) call.key = some c
          rw [update_self]
        · intro key c' _ hin'
          change Function.update s.inflight call.key (some c) key = some c'
          have hkey : key ≠ call.key := by
            rintro rfl
            rw [hin] at hin'
            cases hin'
          rw [update_of_ne hkey]
          exact hin'

/-- A caller that has not asked is in no request of the log. -/
theorem Inv.not_requested (h : Inv digest none s) (hc : s.callers c = none) (call : Call) :
    .requested c call ∉ s.log := by
  intro hr
  obtain ⟨phase, hc'⟩ := h.named c call hr (by simp)
  rw [hc] at hc'
  cases hc'

/-- **A caller asks.** -/
theorem Inv.requested (h : Inv digest none s) (hc : s.callers c = none) (call : Call) :
    Inv digest (some c) (s.note (.requested c call)) ∧
      Pending (some c) (s.note (.requested c call)) c call := by
  have hasked : ∀ {c' call'}, .requested c' call' ∈ s.log ++ [.requested c call] →
      .requested c' call' ∈ s.log ∨ c' = c ∧ call' = call := by
    intro c' call' hr
    rcases mem_append.mp hr with hr | hr
    · exact .inl hr
    · rw [mem_singleton] at hr
      injection hr with hcaller hcall
      exact .inr ⟨hcaller, hcall⟩
  refine ⟨⟨h.owner, h.claims, ?_, ?_, ?_, ?_, ?_, ?_, forall_snoc h.lawful trivial⟩,
    mem_append_right _ (by simp), fun call' hr => ?_, fun c' hx => (some.inj hx).symm⟩
  · intro slot
    change s.store slot = content (s.log ++ [.requested c call]) slot
    rw [content_snoc, h.store]
    rfl
  · exact fun c' caller hc' => mem_append_left _ (h.known c' caller hc')
  · intro c' call' hr hne
    rcases hasked hr with hr | ⟨rfl, -⟩
    · exact h.named c' call' hr (by simp)
    · exact absurd rfl hne
  · intro c' slot loss hr
    rcases mem_append.mp hr with hr | hr
    · exact h.persisted c' slot loss hr
    · rw [mem_singleton] at hr
      cases hr
  · exact fun c' caller hc' hev => mem_append_left _ (h.begun c' caller hc' hev)
  · exact fun c' hl => mem_append_left _ (h.launched c' hl)
  · rcases hasked hr with hr | ⟨-, rfl⟩
    · exact absurd hr (h.not_requested hc call')
    · rfl

theorem Inv.start (h : Inv digest none s) (hc : s.callers c = none) (call : Call)
    (archive : Archive) :
    Inv digest none ((s.note (.requested c call)).lookup digest c call archive) := by
  obtain ⟨hinv, hpending⟩ := h.requested hc call
  refine hinv.lookup hpending ?_ archive
  intro caller hc'
  exact absurd (hc.symm.trans hc') (by simp)

/-- The profile that is kept is the one that the caller gets, and no infrastructure
abort. -/
theorem settle_kept {raw loss : LossProfile β} (h : (settle key raw).kept = some loss) :
    (settle key raw).loss = loss ∧ isInfraAbortCause loss.abortCause = false := by
  have hkept : (settle key raw).kept =
      if isInfraAbortCause (settle key raw).loss.abortCause then none
      else persistUnitLoss (settle key raw).loss := rfl
  rw [hkept] at h
  split at h
  · cases h
  · rename_i hinfra
    unfold persistUnitLoss at h
    split at h
    · cases h
    · obtain rfl := some.inj h
      exact ⟨rfl, by simpa using hinfra⟩

theorem evaluates_die (phase : Phase β) : phase.die.evaluates = false := by
  cases phase <;> rfl

/-- **Every event keeps the invariant.** -/
theorem Inv.step (h : Inv digest none s) {event : Event β}
    (hstep : UnitCache.step digest s event = some s') : Inv digest none s' := by
  cases event with
  | start c call archive =>
    simp only [UnitCache.step] at hstep
    split at hstep
    · rename_i hc
      obtain rfl := some.inj hstep
      exact h.start hc call archive
    · cases hstep
  | wake c archive =>
    simp only [UnitCache.step] at hstep
    split at hstep
    · rename_i call event hc
      split at hstep
      -- the unit it waited for has left the table, and it looks again
      · obtain rfl := some.inj hstep
        refine h.lookup (h.pending hc) ?_ archive
        intro caller hc'
        obtain rfl := some.inj (hc.symm.trans hc')
        exact ⟨event, rfl⟩
      · cases hstep
    · cases hstep
  | cancel c =>
    simp only [UnitCache.step] at hstep
    split at hstep
    · rename_i call event hc
      obtain rfl := some.inj hstep
      refine h.update (h.pending hc) rfl (append_nil _).symm h.store h.launched (by simp) ?_
        (fun he => by cases he) (fun _ _ _ hin => hin) ?_ h.lawful
      · intro key c' hin
        refine .inr ⟨?_, hin⟩
        rintro rfl
        cases (h.owner_eq hc hin).2
      · intro caller hc' loss cached
        obtain rfl := some.inj (hc.symm.trans hc')
        simp
    · cases hstep
  | launch c archive =>
    simp only [UnitCache.step] at hstep
    split at hstep
    · rename_i call hc
      obtain rfl := some.inj hstep
      have hlaunched : Inv digest none { s with launched := Function.update s.launched c true } := by
        refine { h with launched := ?_ }
        intro c' hl
        by_cases hne : c' = c
        · rw [hne]
          exact h.begun c _ hc rfl
        · refine h.launched c' ?_
          change Function.update s.launched c true c' = true at hl
          rwa [update_of_ne hne] at hl
      exact hlaunched.archiveThen hc rfl rfl archive
    · cases hstep
  | workerWrites c reduced budgetExceeded =>
    simp only [UnitCache.step] at hstep
    split at hstep
    · rename_i call phase hc hlaunched
      obtain rfl := some.inj hstep
      refine h.record (.inr (.inr ⟨c, _, rfl⟩)) (by simp [Effect.apply]) ?_ ?_
      · exact ⟨call, h.known c _ hc, rfl, h.launched c hlaunched, reduced, budgetExceeded, rfl⟩
      · intro _ _ he
        cases he
    · cases hstep
  | finish c loss written =>
    simp only [UnitCache.step] at hstep
    split at hstep
    · rename_i call hc
      obtain rfl := some.inj hstep
      have hreleased : Inv digest none
          (s.release c call (.returned (settle call.key loss).loss false)) :=
        h.release hc rfl rfl
      unfold State.finish
      dsimp only
      split
      · rename_i kept hkept
        split
        · refine hreleased.record (.inr (.inl ⟨c, _, rfl⟩)) (by simp [Effect.apply]) ?_ ?_
          · exact ⟨call, h.known c _ hc, rfl, h.begun c _ hc rfl, loss, hkept⟩
          · intro c' loss' he
            obtain ⟨rfl, -, rfl⟩ : c = c' ∧ call.key.slot = call.key.slot ∧ kept = loss' := by
              simpa using he
            refine ⟨call, ?_, rfl⟩
            rw [(settle_kept hkept).1]
            exact update_self ..
        · exact hreleased
      · exact hreleased
    · cases hstep
  | fail c =>
    simp only [UnitCache.step] at hstep
    split at hstep
    · rename_i call hc
      obtain rfl := some.inj hstep
      exact h.release hc rfl rfl
    · rename_i call hc
      obtain rfl := some.inj hstep
      exact h.release hc rfl rfl
    · cases hstep
  | restart =>
    obtain rfl := some.inj hstep
    -- every caller of the process dies where it stands; files and log stay
    have hold : ∀ {c caller}, (s.callers c).map
        (fun caller => (⟨caller.call, caller.phase.die⟩ : Caller β)) = some caller →
        ∃ old, s.callers c = some old ∧ caller = ⟨old.call, old.phase.die⟩ := by
      intro c caller hc
      obtain ⟨old, hold, rfl⟩ := map_eq_some_iff.mp hc
      exact ⟨old, hold, rfl⟩
    refine
      { owner := fun _ _ hin => (by cases hin), claims := ?_, store := h.store, known := ?_
        named := ?_, persisted := ?_, begun := ?_, launched := h.launched, lawful := h.lawful }
    · intro c caller hc hev
      obtain ⟨old, -, rfl⟩ := hold hc
      rw [evaluates_die] at hev
      cases hev
    · intro c caller hc
      obtain ⟨old, hc', rfl⟩ := hold hc
      exact h.known c old hc'
    · intro c call hr hx
      obtain ⟨phase, hc⟩ := h.named c call hr hx
      exact ⟨phase.die, by simp [hc]⟩
    · intro c slot loss hr
      obtain ⟨call, hc, hslot⟩ := h.persisted c slot loss hr
      exact ⟨call, by simp [hc, Phase.die], hslot⟩
    · intro c caller hc hev
      obtain ⟨old, -, rfl⟩ := hold hc
      rw [evaluates_die] at hev
      cases hev

/-- A profile that was resolved has the identity of the unit, and was executed. -/
structure Reusable (digest : String → String → String → String) (key : UnitKey)
    (loss : LossProfile β) : Prop where
  measurement : loss.measurement = some key.slot.measurement
  epoch : loss.epochId = key.epoch
  generation : loss.generationId = key.generation
  entry : loss.entryId = key.entry
  run : loss.runId = runIdForUnit digest key.generation key.entry key.slot.measurement key.epoch
  executed : hasExecutionEvidence loss = true

/-- When a profile is reused. -/
theorem resolveCachedUnit_eq_some {record : Option (Record β)} {loss : LossProfile β} :
    resolveCachedUnit digest key record = some loss ↔
      record = some (.profile loss) ∧ Reusable digest key loss := by
  constructor
  · intro h
    unfold resolveCachedUnit at h
    split at h
    · cases h
    · cases h
    · rename_i loss'
      split at h
      · cases h
      · rename_i hmeasurement
        split at h
        · cases h
        · rename_i hidentity
          split at h
          · cases h
          · rename_i hexecuted
            obtain rfl := some.inj h
            simp only [validLossIdentity, Bool.not_eq_true', Bool.not_eq_false, Bool.and_eq_true,
              decide_eq_true_eq, Prod.mk.injEq, beq_iff_eq] at hidentity
            obtain ⟨⟨hepoch, hgeneration, hentry⟩, hrun⟩ := hidentity
            exact ⟨rfl, Decidable.not_not.mp hmeasurement, hepoch, hgeneration, hentry, hrun,
              by simpa using hexecuted⟩
  · rintro ⟨rfl, h⟩
    simp [resolveCachedUnit, validLossIdentity, h.measurement, h.epoch, h.generation, h.entry, h.run,
      h.executed]

/-! ## Careful runs -/

variable (digest)

/-- A reusable profile of the unit was persisted. -/
def Once (log : List (Effect β)) (slot : Slot) : Prop :=
  ∃ c loss key, .persisted c slot loss ∈ log ∧ key.slot = slot ∧ Reusable digest key loss

/-- The profile that `_run_single` returns is no infrastructure abort and no omission,
and it names the unit. -/
structure Keeps (key : UnitKey) (loss : LossProfile β) : Prop where
  completed : isInfraAbortCause loss.abortCause = false
  executed : loss.executionStarted ≠ some false
  identity : validLossIdentity digest loss key.epoch key.generation key.entry
    key.slot.measurement = true

/-- No worker has left its profile in the file of an unforced call, and a forced call
does not fail after it has removed what was persisted. -/
structure Looks (s : State β) (call : Call) (archive : Archive) : Prop where
  settled : call.forceFresh = false → leftover s.log call.key.slot = false
  restored : call.forceFresh = true → Once digest s.log call.key.slot → archive ≠ .failed true

/-- What a step has to meet for the cache to keep its promise.  The units of one file
have one key; nobody looks while the file holds what a worker has left there; and once
a reusable profile was persisted, the forced evaluation that archives it ends with
another one. -/
def Careful (s : State β) : Event β → Prop
  | .start _ call archive =>
      (∀ c' call', .requested c' call' ∈ s.log → call'.key.slot = call.key.slot →
        call'.key = call.key) ∧ Looks digest s call archive
  | .wake c archive => ∀ caller, s.callers c = some caller → Looks digest s caller.call archive
  | .launch c archive => ∀ caller, s.callers c = some caller →
      Once digest s.log caller.call.key.slot → archive = .done
  | .finish c loss written => ∀ caller, s.callers c = some caller →
      Once digest s.log caller.call.key.slot → written = true ∧ Keeps digest caller.call.key loss
  | .fail c => ∀ caller, s.callers c = some caller → ¬ Once digest s.log caller.call.key.slot
  | .restart => ∀ c caller, s.callers c = some caller → caller.phase.evaluates = true →
      ¬ Once digest s.log caller.call.key.slot
  | .cancel _ => True
  | .workerWrites _ _ _ => True

/-- A run whose steps are all careful. -/
inductive Run : State β → Prop
  | init : Run (State.init β)
  | step {s s' : State β} {event : Event β} (h : Run s) (hc : Careful digest s event)
      (hs : UnitCache.step digest s event = some s') : Run s'

/-- What is promised of a request, a reuse and an evaluation, by the log before it. -/
def Fair (log : List (Effect β)) : Effect β → Prop
  | .requested c call => .evaluates c ∉ log ∧ ∀ c' call', .requested c' call' ∈ log →
      call'.key.slot = call.key.slot → call'.key = call.key
  | .reused c loss => ∃ call c', .requested c call ∈ log ∧ .persisted c' call.key.slot loss ∈ log
  | .evaluates c => ∀ call, .requested c call ∈ log → call.forceFresh = false →
      ¬ Once digest log call.key.slot
  | .archived _ | .persisted _ _ _ | .left _ _ _ => True

/-- A reusable profile is in the file. -/
def Stored (s : State β) (slot : Slot) : Prop :=
  ∃ loss key, s.store slot = some (.profile loss) ∧ key.slot = slot ∧ Reusable digest key loss

/-- The caller evaluates the unit of the file. -/
def Evaluator (s : State β) (slot : Slot) (c : CallerId) : Prop :=
  ∃ caller, s.callers c = some caller ∧ caller.phase.evaluates = true ∧ caller.call.key.slot = slot

/-- What a careful run keeps: once a reusable profile was persisted, one is in the file,
or the evaluation that archived it goes on. -/
structure Good (s : State β) : Prop where
  fair : ∀ pre effect suf, s.log = pre ++ effect :: suf → Fair digest pre effect
  held : ∀ slot, Once digest s.log slot → Stored digest s slot ∨ ∃ c, Evaluator s slot c

variable {digest} {slot : Slot} {loss : LossProfile β} {archive : Archive}

/-- Whether a profile is reused is a matter of its file. -/
theorem Reusable.congr {key' : UnitKey} (h : Reusable digest key loss) (hslot : key'.slot = key.slot) :
    Reusable digest key' loss := by
  have hepoch : key'.epoch = key.epoch := congrArg Slot.epoch hslot
  have hgeneration : key'.generation = key.generation := congrArg Slot.generation hslot
  have hentry : key'.entry = key.entry := congrArg Slot.entry hslot
  exact ⟨hslot ▸ h.measurement, hepoch ▸ h.epoch, hgeneration ▸ h.generation, hentry ▸ h.entry,
    by rw [hslot, hepoch, hgeneration, hentry]; exact h.run, h.executed⟩

theorem workerProfile_reusable (reduced : LossProfile β) (budgetExceeded : Bool) :
    Reusable digest key (workerProfile digest key reduced budgetExceeded) :=
  ⟨rfl, rfl, rfl, rfl, rfl, rfl⟩

/-- What an evaluation that keeps its profile persists is reusable. -/
theorem Keeps.kept (h : Keeps digest key loss) :
    ∃ kept, (settle key loss).kept = some kept ∧ Reusable digest key kept := by
  obtain ⟨hcompleted, hexecuted, hidentity⟩ := h
  simp only [validLossIdentity, Bool.and_eq_true, decide_eq_true_eq, Prod.mk.injEq,
    beq_iff_eq] at hidentity
  obtain ⟨⟨hepoch, hgeneration, hentry⟩, hrun⟩ := hidentity
  refine ⟨{ loss with measurement := some key.slot.measurement, executionStarted := some true },
    ?_, rfl, hepoch, hgeneration, hentry, hrun, rfl⟩
  match hstarted : loss.executionStarted with
  | some false => exact absurd hstarted hexecuted
  | some true => simp [settle, persistUnitLoss, hstarted, hcompleted, UnitKey.slot, Slot.measurement]
  | none => simp [settle, persistUnitLoss, hstarted, hcompleted, UnitKey.slot, Slot.measurement]

/-- Only an evaluation that persists makes it so. -/
theorem once_snoc {log : List (Effect β)} {effect : Effect β}
    (h : Once digest (log ++ [effect]) slot) :
    Once digest log slot ∨ ∃ c loss, effect = .persisted c slot loss ∧
      ∃ key, key.slot = slot ∧ Reusable digest key loss := by
  obtain ⟨c, loss, key, hmem, hslot, hreusable⟩ := h
  rcases mem_append.mp hmem with hmem | hmem
  · exact .inl ⟨c, loss, key, hmem, hslot, hreusable⟩
  · exact .inr ⟨c, loss, (mem_singleton.mp hmem).symm, key, hslot, hreusable⟩

/-- The calls of one file have one key. -/
theorem keyed {log : List (Effect β)} {c' : CallerId} {call' : Call}
    (h : ∀ pre effect suf, log = pre ++ effect :: suf → Fair digest pre effect)
    (hc : .requested c call ∈ log) (hc' : .requested c' call' ∈ log)
    (hslot : call.key.slot = call'.key.slot) : call.key = call'.key := by
  induction log using reverseRecOn with
  | nil => cases hc
  | append_singleton log effect ih =>
    have hlast := h log effect [] rfl
    rcases mem_append.mp hc with hold | hnew <;> rcases mem_append.mp hc' with hold' | hnew'
    · exact ih (fun pre e suf heq => h pre e (suf ++ [effect]) (by simp [heq])) hold hold'
    · obtain rfl := mem_singleton.mp hnew'
      exact hlast.2 c call hold hslot
    · obtain rfl := mem_singleton.mp hnew
      exact (hlast.2 c' call' hold' hslot.symm).symm
    · injection (mem_singleton.mp hnew).trans (mem_singleton.mp hnew').symm with _ hcall
      rw [hcall]

theorem good_init : Good digest (State.init β) where
  fair pre effect suf heq := by
    have := congrArg length heq
    simp [State.init] at this
  held slot h := by
    obtain ⟨c, loss, key, hmem, -⟩ := h
    cases hmem

variable (slot) in
/-- **A step at one file** leaves the others as they are. -/
theorem Good.at (h : Good digest s) {effects : List (Effect β)} (hlog : s'.log = s.log ++ effects)
    (hfair : ∀ pre effect suf, s'.log = pre ++ effect :: suf → Fair digest pre effect)
    (hpersisted : ∀ c slot' loss, .persisted c slot' loss ∈ effects → slot' = slot)
    (hstore : ∀ slot', slot' ≠ slot → s'.store slot' = s.store slot')
    (hothers : ∀ slot' c, slot' ≠ slot → Evaluator s slot' c → Evaluator s' slot' c)
    (hslot : Once digest s'.log slot → Stored digest s' slot ∨ ∃ c, Evaluator s' slot c) :
    Good digest s' where
  fair := hfair
  held slot' honce := by
    by_cases hne : slot' = slot
    · exact hne ▸ hslot (hne ▸ honce)
    · obtain ⟨c, loss, key, hmem, hrest⟩ := honce
      rw [hlog] at hmem
      have hmem := (mem_append.mp hmem).resolve_right fun hm => hne (hpersisted c slot' loss hm)
      rcases h.held slot' ⟨c, loss, key, hmem, hrest⟩ with hstored | ⟨c, hc⟩
      · exact .inl (by simpa only [Stored, hstore slot' hne] using hstored)
      · exact .inr ⟨c, hothers slot' c hne hc⟩

/-- A caller that evaluates goes on when another one moves. -/
theorem Evaluator.update {c' : CallerId} (h : Evaluator s slot c')
    (hcallers : s'.callers = Function.update s.callers c (some ⟨call, phase⟩))
    (hc : ¬ Evaluator s slot c) : Evaluator s' slot c' := by
  obtain ⟨caller, hc', hrest⟩ := h
  refine ⟨caller, ?_, hrest⟩
  rwa [hcallers, update_of_ne]
  rintro rfl
  exact hc ⟨caller, hc', hrest⟩

theorem Evaluator.self (hcallers : s'.callers = Function.update s.callers c (some ⟨call, phase⟩))
    (hev : phase.evaluates = true) : Evaluator s' call.key.slot c :=
  ⟨_, by rw [hcallers, update_self], hev, rfl⟩

/-- A caller evaluates the unit that it asked for. -/
theorem Evaluator.slot_eq (h : Evaluator s slot c) (hc : s.callers c = some ⟨call, phase⟩) :
    call.key.slot = slot ∧ phase.evaluates = true := by
  obtain ⟨caller, hc', hev, hslot⟩ := h
  obtain rfl := some.inj (hc.symm.trans hc')
  exact ⟨hslot, hev⟩

/-- A caller moves that does not evaluate, and writes nothing. -/
theorem Good.moves (h : Good digest s) {effects : List (Effect β)}
    (hcallers : s'.callers = Function.update s.callers c (some ⟨call, phase⟩))
    (hstore : s'.store = s.store) (hlog : s'.log = s.log ++ effects)
    (hmoves : ∀ effect ∈ effects, effect.moves) (hc : ∀ slot, ¬ Evaluator s slot c)
    (hfair : ∀ pre effect suf, s'.log = pre ++ effect :: suf → Fair digest pre effect) :
    Good digest s' := by
  refine h.at call.key.slot hlog hfair ?_ (fun slot' _ => congrFun hstore slot')
    (fun slot' c' _ he => he.update hcallers (hc slot')) ?_
  · intro c' slot' loss hm
    cases hmoves _ hm
  · rintro ⟨c', loss, key, hmem, hrest⟩
    rw [hlog] at hmem
    have hmem := (mem_append.mp hmem).resolve_right fun hm => hmoves _ hm
    rcases h.held _ ⟨c', loss, key, hmem, hrest⟩ with hstored | ⟨c', hc'⟩
    · exact .inl (by simpa only [Stored, hstore] using hstored)
    · exact .inr ⟨c', hc'.update hcallers (hc _)⟩

/-- **An evaluation archives** what the file holds and goes on, or ends there. -/
theorem Good.archiveThen (h : Good digest s) (hev : phase.evaluates = true)
    (hc : ∀ slot, slot ≠ call.key.slot → ¬ Evaluator s slot c)
    (hfailed : ∀ removed, archive = .failed removed → Once digest s.log call.key.slot →
      removed = false ∧ Stored digest s call.key.slot) :
    Good digest (s.archiveThen c call phase archive) := by
  have hsnoc : ∀ pre effect suf, s.log ++ [.archived call.key.slot] = pre ++ effect :: suf →
      Fair digest pre effect := forall_snoc h.fair trivial
  have hstore : ∀ slot, slot ≠ call.key.slot →
      Function.update s.store call.key.slot none slot = s.store slot :=
    fun slot hne => update_of_ne hne ..
  match archive with
  | .done =>
    exact h.at _ rfl hsnoc (by simp) hstore (fun slot c' hne he => he.update rfl (hc slot hne))
      (fun _ => .inr ⟨c, .self rfl hev⟩)
  | .failed true =>
    refine h.at _ rfl hsnoc (by simp) hstore (fun slot c' hne he => he.update rfl (hc slot hne)) ?_
    intro honce
    rcases once_snoc honce with honce | ⟨_, _, he, -⟩
    · exact absurd (hfailed true rfl honce).1 (by simp)
    · cases he
  | .failed false =>
    refine h.at _ (append_nil _).symm h.fair (by simp) (fun _ _ => rfl)
      (fun slot c' hne he => he.update rfl (hc slot hne)) ?_
    exact fun honce => .inl (hfailed false rfl honce).2

/-- A profile of the file of a unit that nobody evaluates. -/
theorem Good.stored (h : Good digest s) (hinv : Inv digest x s)
    (hasked : .requested c call ∈ s.log) (hfree : s.inflight call.key = none)
    (honce : Once digest s.log call.key.slot) : Stored digest s call.key.slot := by
  refine (h.held _ honce).resolve_right ?_
  rintro ⟨c', caller, hc', hev, hslot⟩
  have hkey := keyed h.fair (hinv.known c' caller hc') hasked hslot
  have hin := hinv.claims c' caller hc' hev
  rw [hkey, hfree] at hin
  cases hin

/-- **A careful lookup.** -/
theorem Good.lookup (h : Good digest s) (hinv : Inv digest x s) (hp : Pending x s c call)
    (hlooks : Looks digest s call archive) (hc : ∀ slot, ¬ Evaluator s slot c) :
    Good digest (s.lookup digest c call archive) := by
  unfold State.lookup
  cases hcached : s.cached digest call with
  | some loss =>
    refine h.moves rfl rfl rfl ?_ hc (forall_snoc h.fair ?_)
    · intro effect he
      rw [mem_singleton.mp he]
      trivial
    · unfold State.cached at hcached
      split at hcached
      · cases hcached
      · rename_i hforce
        obtain ⟨hstore, -⟩ := resolveCachedUnit_eq_some.mp hcached
        rw [hinv.store] at hstore
        obtain ⟨c', hc'⟩ := persisted_of_content hstore (hlooks.settled (by simpa using hforce))
        exact ⟨call, c', hp.asked, hc'⟩
  | none =>
    dsimp only
    cases hin : s.inflight call.key with
    | some event => exact h.moves rfl rfl (append_nil _).symm (by simp) hc h.fair
    | none =>
      dsimp only
      have hnot : call.forceFresh = false → ¬ Once digest s.log call.key.slot := by
        intro hforce honce
        obtain ⟨loss, key, hstore, hslot, hreusable⟩ := h.stored hinv hp.asked hin honce
        have hhit : s.cached digest call = some loss := by
          rw [State.cached, hforce]
          exact resolveCachedUnit_eq_some.mpr ⟨hstore, hreusable.congr hslot.symm⟩
        rw [hcached] at hhit
        cases hhit
      have hclaimed : Good digest ({ s with
          inflight := Function.update s.inflight call.key (some c) }.note (.evaluates c)) := by
        refine ⟨forall_snoc h.fair ?_, ?_⟩
        · intro call' hr hforce
          obtain rfl := hp.only call' hr
          exact hnot hforce
        · intro slot honce
          rcases once_snoc honce with honce | ⟨_, _, he, -⟩
          · exact h.held slot honce
          · cases he
      refine hclaimed.archiveThen rfl (fun slot _ => hc slot) ?_
      intro removed heq honce
      rcases once_snoc honce with honce | ⟨_, _, he, -⟩
      · cases hforce : call.forceFresh with
        | false => exact absurd honce (hnot hforce)
        | true =>
          refine ⟨?_, h.stored hinv hp.asked hin honce⟩
          cases removed with
          | false => rfl
          | true => exact absurd heq (hlooks.restored hforce honce)
      · cases he

/-- **A careful step keeps it.** -/
theorem Good.step (h : Good digest s) (hinv : Inv digest none s) {event : Event β}
    (hcareful : Careful digest s event) (hstep : UnitCache.step digest s event = some s') :
    Good digest s' := by
  cases event with
  | start c call archive =>
    simp only [UnitCache.step] at hstep
    split at hstep
    · rename_i hc
      obtain rfl := some.inj hstep
      obtain ⟨hkeys, hlooks⟩ := hcareful
      obtain ⟨hnoted, hpending⟩ := hinv.requested hc call
      have hquiet : ∀ slot, Once digest (s.log ++ [.requested c call]) slot →
          Once digest s.log slot := by
        intro slot honce
        rcases once_snoc honce with honce | ⟨_, _, he, -⟩
        · exact honce
        · cases he
      -- a caller that is new has evaluated nothing
      have hgood : Good digest (s.note (.requested c call)) := by
        refine ⟨forall_snoc h.fair ⟨?_, hkeys⟩, fun slot honce => h.held slot (hquiet slot honce)⟩
        intro hev
        obtain ⟨pre, suf, heq⟩ := append_of_mem hev
        obtain ⟨call', hr⟩ := hinv.lawful pre _ suf heq
        refine hinv.not_requested hc call' ?_
        rw [heq]
        exact mem_append_left _ hr
      refine hgood.lookup hnoted hpending ⟨?_, ?_⟩ ?_
      · intro hforce
        have hleft := hlooks.settled hforce
        simpa [State.note, leftover, Effect.leaves] using hleft
      · exact fun hforce honce => hlooks.restored hforce (hquiet _ honce)
      · rintro slot ⟨caller, hc', -⟩
        exact absurd (hc.symm.trans hc') (by simp)
    · cases hstep
  | wake c archive =>
    simp only [UnitCache.step] at hstep
    split at hstep
    · rename_i call event hc
      split at hstep
      · obtain rfl := some.inj hstep
        refine h.lookup hinv (hinv.pending hc) (hcareful _ hc) ?_
        intro slot he
        cases (he.slot_eq hc).2
      · cases hstep
    · cases hstep
  | cancel c =>
    simp only [UnitCache.step] at hstep
    split at hstep
    · rename_i call event hc
      obtain rfl := some.inj hstep
      refine h.moves rfl rfl (append_nil _).symm (by simp) ?_ h.fair
      intro slot he
      cases (he.slot_eq hc).2
    · cases hstep
  | launch c archive =>
    simp only [UnitCache.step] at hstep
    split at hstep
    · rename_i call hc
      obtain rfl := some.inj hstep
      have hlaunched : Good digest { s with launched := Function.update s.launched c true } :=
        ⟨h.fair, h.held⟩
      refine hlaunched.archiveThen rfl (fun slot hne he => hne (he.slot_eq hc).1.symm) ?_
      intro removed heq honce
      have hdone := hcareful _ hc honce
      rw [heq] at hdone
      cases hdone
    · cases hstep
  | workerWrites c reduced budgetExceeded =>
    simp only [UnitCache.step] at hstep
    split at hstep
    · rename_i call phase hc hlaunched
      obtain rfl := some.inj hstep
      refine h.at call.key.slot rfl (forall_snoc h.fair trivial) (by simp)
        (fun _ hne => update_of_ne hne ..) (fun _ _ _ he => he) ?_
      exact fun _ => .inl ⟨_, call.key, update_self .., rfl, workerProfile_reusable ..⟩
    · cases hstep
  | finish c loss written =>
    simp only [UnitCache.step] at hstep
    split at hstep
    · rename_i call hc
      obtain rfl := some.inj hstep
      have hothers : ∀ slot, slot ≠ call.key.slot → ¬ Evaluator s slot c :=
        fun slot hne he => hne (he.slot_eq hc).1.symm
      -- a profile that is not written is no successor of one that was persisted
      have hunwritten (hno : Once digest s.log call.key.slot → False) :
          Good digest (s.release c call (.returned (settle call.key loss).loss false)) :=
        h.at _ (append_nil _).symm h.fair (by simp) (fun _ _ => rfl)
          (fun slot _ hne he => he.update rfl (hothers slot hne)) fun honce => (hno honce).elim
      unfold State.finish
      dsimp only
      split
      · rename_i kept hkept
        cases written with
        | false => exact hunwritten fun honce => absurd (hcareful _ hc honce).1 (by simp)
        | true =>
          refine h.at call.key.slot rfl (forall_snoc h.fair trivial) ?_
            (fun _ hne => update_of_ne hne ..)
            (fun slot _ hne he => he.update rfl (hothers slot hne)) ?_
          · intro c' slot' loss' hm
            simp only [mem_singleton, Effect.persisted.injEq] at hm
            exact hm.2.1
          · intro honce
            rcases once_snoc honce with honce | ⟨_, _, he, key, hslot, hreusable⟩
            · obtain ⟨kept', hkept', hreusable⟩ := (hcareful _ hc honce).2.kept
              obtain rfl := some.inj (hkept.symm.trans hkept')
              exact .inl ⟨_, call.key, update_self .., rfl, hreusable⟩
            · obtain ⟨-, -, rfl⟩ := Effect.persisted.inj he
              exact .inl ⟨_, key, update_self .., hslot, hreusable⟩
      · rename_i hkept
        refine hunwritten fun honce => ?_
        obtain ⟨kept, hkept', -⟩ := (hcareful _ hc honce).2.kept
        rw [hkept] at hkept'
        cases hkept'
    · cases hstep
  | fail c =>
    have hfailed {call : Call} {phase : Phase β} (hc : s.callers c = some ⟨call, phase⟩) :
        Good digest (s.release c call .raised) :=
      h.at _ (append_nil _).symm h.fair (by simp) (fun _ _ => rfl)
        (fun slot _ hne he => he.update rfl fun he => hne (he.slot_eq hc).1.symm)
        fun honce => absurd honce (hcareful _ hc)
    simp only [UnitCache.step] at hstep
    split at hstep
    · rename_i call hc
      obtain rfl := some.inj hstep
      exact hfailed hc
    · rename_i call hc
      obtain rfl := some.inj hstep
      exact hfailed hc
    · cases hstep
  | restart =>
    obtain rfl := some.inj hstep
    refine ⟨h.fair, fun slot honce => ?_⟩
    rcases h.held slot honce with hstored | ⟨c, caller, hc, hev, rfl⟩
    · exact .inl hstored
    · exact absurd honce (hcareful c caller hc hev)

theorem Run.inv (h : Run digest s) : Inv digest none s := by
  induction h with
  | init => exact inv_init
  | step _ _ hs ih => exact ih.step hs

theorem Run.good (h : Run digest s) : Good digest s := by
  induction h with
  | init => exact good_init
  | step hrun hc hs ih => exact ih.step hrun.inv hc hs

end Invariant

/-! ## Every run -/

def demoKey : UnitKey where
  workspace := "/w"
  epoch := "e1"
  generation := "v1"
  entry := "t1"
  measurement := ⟨.tournament, 0, none⟩
  seed := none

/-- The hash of the coordinates of the unit. -/
def demoDigest (_ _ _ : String) : String :=
  "e5f25228adcf931bd7409b8e77719187f99c435009da8ec9883673e9195a6aca"

/-- What the worker of the unit reduces. -/
def demoLoss : LossProfile Unit where
  runId := "seed-none.tournament.r0." ++ demoDigest "e1" "v1" "t1"
  entryId := "t1"
  generationId := "v1"
  epochId := "e1"
  measurement := some ⟨.tournament, 0, none⟩
  executionStarted := some true
  abortCause := none
  startedAt := some "2026-01-01T00:00:00Z"
  endedAt := some "2026-01-01T00:01:00Z"
  runtimeMs := 60000
  tokensSpent := 0
  body := ()

/-- The run whose worker is gone without a result. -/
def demoAbort : LossProfile Unit :=
  { demoLoss with
    executionStarted := none, abortCause := some "gone_no_result", startedAt := none
    endedAt := none, runtimeMs := 0 }

/-- An evaluation, a forced one after it, and a caller that waits for the second. -/
def demoEvents : List (Event Unit) :=
  [.start 0 ⟨demoKey, false⟩ .done, .launch 0 .done, .finish 0 demoLoss true,
    .start 1 ⟨demoKey, true⟩ .done, .start 2 ⟨demoKey, false⟩ .done, .launch 1 .done,
    .finish 1 demoLoss true, .wake 2 .done]

/-- The state after the first events. -/
def demoState (n : Nat) : State Unit :=
  (run demoDigest (State.init Unit) (demoEvents.take n)).getD (State.init Unit)

theorem demoState_log : (demoState 8).log =
    [.requested 0 ⟨demoKey, false⟩, .evaluates 0, .archived demoKey.slot, .archived demoKey.slot,
      .persisted 0 demoKey.slot demoLoss, .requested 1 ⟨demoKey, true⟩, .evaluates 1,
      .archived demoKey.slot, .requested 2 ⟨demoKey, false⟩, .archived demoKey.slot,
      .persisted 1 demoKey.slot demoLoss, .reused 2 demoLoss] := by
  decide

theorem demoLoss_keeps : Keeps demoDigest demoKey demoLoss :=
  ⟨by decide, by decide, by decide⟩

theorem demoLoss_reusable : Reusable demoDigest demoKey demoLoss :=
  ⟨rfl, rfl, rfl, rfl, by decide, rfl⟩

/-- Every step of the demo is careful. -/
theorem demoState_run : Run demoDigest (demoState 8) := by
  have hstart : ∀ n c forceFresh, leftover (demoState n).log demoKey.slot = false →
      (∀ effect ∈ (demoState n).log, ∀ c' call, effect = .requested c' call → call.key = demoKey) →
      Careful demoDigest (demoState n) (.start c ⟨demoKey, forceFresh⟩ .done) :=
    fun n c forceFresh hleft hkeys =>
      ⟨fun c' call hr _ => hkeys _ hr c' call rfl, fun _ => hleft, fun _ _ => by simp⟩
  have hlaunch : ∀ n c, Careful demoDigest (demoState n) (.launch c .done) :=
    fun n c caller _ _ => rfl
  have hfinish : ∀ n c forceFresh, (demoState n).callers c = some ⟨⟨demoKey, forceFresh⟩, .running⟩ →
      Careful demoDigest (demoState n) (.finish c demoLoss true) := by
    intro n c forceFresh hc caller hc' _
    obtain rfl := some.inj (hc.symm.trans hc')
    exact ⟨rfl, demoLoss_keeps⟩
  have hwake : Careful demoDigest (demoState 7) (.wake 2 .done) := by
    intro caller hc
    have hc2 : (demoState 7).callers 2 = some ⟨⟨demoKey, false⟩, .waiting 1⟩ := rfl
    obtain rfl := some.inj (hc2.symm.trans hc)
    exact ⟨fun _ => by decide, fun hforce => by cases hforce⟩
  have hkeys : ∀ n, (demoState n).log ⊆ (demoState 8).log → ∀ effect ∈ (demoState n).log,
      ∀ c' call, effect = .requested c' call → call.key = demoKey := by
    rintro n hsub _ he c' call rfl
    have he := hsub he
    simp only [demoState_log, mem_cons, Effect.requested.injEq, reduceCtorEq, not_mem_nil, or_false,
      false_or] at he
    rcases he with he | he | he
    all_goals rw [he.2]
  have h1 : Run demoDigest (demoState 1) :=
    .step .init (hstart 0 0 false (by decide) (hkeys 0 (by decide))) rfl
  have h2 : Run demoDigest (demoState 2) := .step h1 (hlaunch 1 0) rfl
  have h3 : Run demoDigest (demoState 3) := .step h2 (hfinish 2 0 false rfl) rfl
  have h4 : Run demoDigest (demoState 4) :=
    .step h3 (hstart 3 1 true (by decide) (hkeys 3 (by decide))) rfl
  have h5 : Run demoDigest (demoState 5) :=
    .step h4 (hstart 4 2 false (by decide) (hkeys 4 (by decide))) rfl
  have h6 : Run demoDigest (demoState 6) := .step h5 (hlaunch 5 1) rfl
  exact .step (.step h6 (hfinish 6 1 true rfl) rfl) hwake rfl

end Zicato.UnitCache
