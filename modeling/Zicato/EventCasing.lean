import Zicato.Events

/-! # Casing

The two producers of an event log spell its keys in snake case and in camel case.
`to_snake` undoes the camel rendering of a name unless a word of one letter stands
between two others: the capitals of `aBC` are one word to it. -/
open List
namespace Zicato.Events

variable {F : Type}

/-! ## Names -/

/-- A name in snake case, after its first character. -/
def snakeTail : Text → Bool
  | [] => true
  | '_' :: c :: rest => c.isLower && snakeTail rest
  | c :: rest => (c.isLower || c.isDigit) && snakeTail rest

/-- Lowercase words, with an underscore and a lowercase letter where the next begins. -/
def isSnake (name : String) : Bool :=
  match name.toList with
  | [] => false
  | c :: rest => c.isLower && snakeTail rest

/-- No word of one letter stands between two others. -/
def noShortWord : Text → Bool
  | '_' :: _ :: '_' :: _ => false
  | _ :: rest => noShortWord rest
  | [] => true

/-- The lowerCamelCase rendering; the flag is set after an underscore. -/
def toCamelFrom : Bool → Text → Text
  | _, [] => []
  | true, c :: rest => c.toUpper :: toCamelFrom false rest
  | false, c :: rest => if c = '_' then toCamelFrom true rest else c :: toCamelFrom false rest

/-- `snake_case` to `camelCase`. -/
def toCamel (name : String) : String := String.ofList (toCamelFrom false name.toList)

variable {c : Char} {t : Text} {prev : Bool}

theorem isLower_facts (h : c.isLower = true) :
    c.toUpper.isUpper = true ∧ c.toUpper.toLower = c ∧ c.isUpper = false ∧ c ≠ '_' := by
  have hall : ∀ k < 26, let c := Char.ofNat (97 + k)
      c.toUpper.isUpper = true ∧ c.toUpper.toLower = c ∧ c.isUpper = false ∧ c ≠ '_' := by decide
  have hrange : 97 ≤ c.toNat ∧ c.toNat ≤ 122 := by
    unfold Char.isLower at h
    simpa [UInt32.le_iff_toNat_le] using h
  have hc : Char.ofNat (97 + (c.toNat - 97)) = c := by
    rw [show 97 + (c.toNat - 97) = c.toNat by omega, Char.ofNat_toNat]
  have := hall (c.toNat - 97) (by omega)
  rwa [hc] at this

theorem isDigit_facts (h : c.isDigit = true) : c.isUpper = false ∧ c ≠ '_' := by
  have hall : ∀ k < 10, let c := Char.ofNat (48 + k)
      c.isUpper = false ∧ c ≠ '_' := by decide
  have hrange : 48 ≤ c.toNat ∧ c.toNat ≤ 57 := by
    simpa [Char.isDigit, UInt32.le_iff_toNat_le] using h
  have hc : Char.ofNat (48 + (c.toNat - 48)) = c := by
    rw [show 48 + (c.toNat - 48) = c.toNat by omega, Char.ofNat_toNat]
  have := hall (c.toNat - 48) (by omega)
  rwa [hc] at this

theorem noShortWord_tail (h : noShortWord (c :: t) = true) : noShortWord t = true := by
  rw [noShortWord.eq_def] at h
  split at h
  · cases h
  · rename_i heq
    cases heq
    exact h
  · rename_i heq
    cases heq

/-- A name is what comes back from its camel rendering.  After a capital the flag is
down, so what follows must not begin with an underscore. -/
theorem toSnakeFrom_toCamelFrom (hsnake : snakeTail t = true) (hwords : noShortWord t = true)
    (hprev : prev = true ∨ t.head? ≠ some '_') : toSnakeFrom prev (toCamelFrom false t) = t := by
  induction t using snakeTail.induct generalizing prev with
  | case1 => rfl
  | case2 c rest ih =>
    rw [snakeTail, Bool.and_eq_true] at hsnake
    obtain ⟨hupper, hlower, -, -⟩ := isLower_facts hsnake.1
    have hhead : rest.head? ≠ some '_' := by
      intro hhead
      cases rest with
      | nil => cases hhead
      | cons d rest =>
        cases hhead
        cases hwords
    obtain rfl : prev = true := hprev.resolve_right fun h => h rfl
    have hcamel : toCamelFrom false ('_' :: c :: rest) = c.toUpper :: toCamelFrom false rest := by
      rw [toCamelFrom, if_pos rfl, toCamelFrom]
    rw [hcamel, toSnakeFrom, if_pos hupper, if_pos rfl, hlower,
      ih hsnake.2 (noShortWord_tail (noShortWord_tail hwords)) (.inr hhead)]
  | case3 c rest hne ih =>
    have htail : (c.isLower || c.isDigit) = true ∧ snakeTail rest = true := by
      rw [snakeTail.eq_def] at hsnake
      split at hsnake
      · rename_i heq
        cases heq
      · rename_i heq
        cases heq
        exact absurd rfl (hne _ _ rfl)
      · rename_i heq
        cases heq
        simpa using hsnake
    have hchar : c.isUpper = false ∧ c ≠ '_' := by
      rcases Bool.or_eq_true _ _ |>.mp htail.1 with hc | hc
      · exact (isLower_facts hc).2.2
      · exact isDigit_facts hc
    rw [toCamelFrom, if_neg hchar.2, toSnakeFrom, hchar.1, if_neg Bool.false_ne_true, htail.1,
      ih htail.2 (noShortWord_tail hwords) (.inl rfl)]

/-- A name of full words survives both conversions. -/
theorem toSnake_toCamel {name : String} (hsnake : isSnake name = true)
    (hwords : noShortWord name.toList = true) : toSnake (toCamel name) = name := by
  have hround : toSnakeFrom false (toCamelFrom false name.toList) = name.toList := by
    rw [isSnake] at hsnake
    cases hname : name.toList with
    | nil => rfl
    | cons c rest =>
      rw [hname] at hsnake hwords
      rw [Bool.and_eq_true] at hsnake
      obtain ⟨-, -, hupper, hne⟩ := isLower_facts hsnake.1
      rw [toCamelFrom, if_neg hne, toSnakeFrom, hupper, if_neg Bool.false_ne_true, hsnake.1,
        Bool.true_or,
        toSnakeFrom_toCamelFrom hsnake.2 (noShortWord_tail hwords) (.inl rfl)]
  rw [toSnake, toCamel, String.toList_ofList, hround, String.ofList_toList]

/-! ## The rule is idempotent -/

theorem isUpper_toLower (h : c.isUpper = true) : c.toLower.isUpper = false := by
  have hall : ∀ k < 26, (Char.ofNat (65 + k)).toLower.isUpper = false := by decide
  have hrange : 65 ≤ c.toNat ∧ c.toNat ≤ 90 := by
    unfold Char.isUpper at h
    simpa [UInt32.le_iff_toNat_le] using h
  have := hall (c.toNat - 65) (by omega)
  rwa [show 65 + (c.toNat - 65) = c.toNat by omega, Char.ofNat_toNat] at this

/-- No capital is left. -/
theorem notUpper_toSnakeFrom : ∀ c ∈ toSnakeFrom prev t, c.isUpper = false := by
  induction t generalizing prev with
  | nil => simp [toSnakeFrom]
  | cons d rest ih =>
    rw [toSnakeFrom]
    split
    · rename_i hupper
      split
      · exact forall_mem_cons.mpr ⟨by decide,
          forall_mem_cons.mpr ⟨isUpper_toLower hupper, ih⟩⟩
      · exact forall_mem_cons.mpr ⟨isUpper_toLower hupper, ih⟩
    · rename_i hupper
      exact forall_mem_cons.mpr ⟨by simpa using hupper, ih⟩

theorem toSnakeFrom_eq_self (h : ∀ c ∈ t, c.isUpper = false) : toSnakeFrom prev t = t := by
  induction t generalizing prev with
  | nil => rfl
  | cons c rest ih =>
    obtain ⟨hc, hrest⟩ := forall_mem_cons.mp h
    rw [toSnakeFrom, hc, if_neg Bool.false_ne_true, ih hrest]

theorem toSnake_toSnake (name : String) : toSnake (toSnake name) = toSnake name := by
  rw [toSnake, toSnake, String.toList_ofList, toSnakeFrom_eq_self notUpper_toSnakeFrom]

/-! ## Values -/

mutual
/-- The value with its keys in camel case. -/
def camelDeep : PyValue F → PyValue F
  | .none => .none
  | .bool b => .bool b
  | .int n => .int n
  | .float x => .float x
  | .str s => .str s
  | .list items => .list (camelItems items)
  | .dict fields => .dict (camelFields fields)

/-- `camelDeep` of every item. -/
def camelItems : List (PyValue F) → List (PyValue F)
  | [] => []
  | v :: rest => camelDeep v :: camelItems rest

/-- `camelDeep` of every value, under keys in `camelCase`. -/
def camelFields : List (String × PyValue F) → List (String × PyValue F)
  | [] => []
  | (k, v) :: rest => (toCamel k, camelDeep v) :: camelFields rest
end

theorem writes_pairs {α : Type} {l : Dict String α} (h : (Dict.keys l).Nodup) :
    Dict.writes Prod.fst Prod.snd l [] = l := by
  refine (Dict.writes_eq_append (by simpa [Dict.keys] using h)).trans ?_
  simp

/-- The keys that `to_snake` gives back from their camel rendering. -/
def Restored (name : String) : Prop := toSnake (toCamel name) = name

mutual
/-- Camel rendering at every depth is undone. -/
theorem snakeDeep_camelDeep : ∀ v : PyValue F, v.HasKeys Restored → snakeDeep (camelDeep v) = v
  | .none, _ | .bool _, _ | .int _, _ | .float _, _ | .str _, _ => rfl
  | .list items, h => by
      rw [camelDeep, snakeDeep, snakeItems_camelItems items h]
  | .dict fields, h => by
      rw [PyValue.HasKeys] at h
      rw [camelDeep, snakeDeep, snakeFields_camelFields fields h.2, writes_pairs h.1]

theorem snakeItems_camelItems : ∀ items : List (PyValue F), PyValue.HasKeysItems Restored items →
    snakeItems (camelItems items) = items
  | [], _ => rfl
  | v :: rest, h => by
      rw [PyValue.HasKeysItems] at h
      rw [camelItems, snakeItems, snakeDeep_camelDeep v h.1, snakeItems_camelItems rest h.2]

theorem snakeFields_camelFields : ∀ fields : List (String × PyValue F),
    PyValue.HasKeysFields Restored fields → snakeFields (camelFields fields) = fields
  | [], _ => rfl
  | (k, v) :: rest, h => by
      rw [PyValue.HasKeysFields] at h
      rw [camelFields, snakeFields, h.1, snakeDeep_camelDeep v h.2.1,
        snakeFields_camelFields rest h.2.2]
end

/-! ## Normalised values -/

/-- The keys that `to_snake` leaves. -/
def Settled (name : String) : Prop := toSnake name = name

variable {fields : List (String × PyValue F)}

/-- What is written from settled items is settled. -/
theorem hasKeys_writes (h : PyValue.HasKeysFields Settled fields) :
    (PyValue.dict (Dict.writes Prod.fst Prod.snd fields [])).HasKeys Settled := by
  rw [PyValue.HasKeys, PyValue.hasKeysFields_iff]
  refine ⟨Dict.nodup_keys_writes nodup_nil, fun e he => ?_⟩
  rcases Dict.mem_writes he with he | ⟨x, hx, rfl⟩
  · cases he
  · exact PyValue.hasKeysFields_iff.mp h x hx

mutual
theorem hasKeys_snakeDeep : ∀ v : PyValue F, (snakeDeep v).HasKeys Settled
  | .none | .bool _ | .int _ | .float _ | .str _ => trivial
  | .list items => by
      rw [snakeDeep, PyValue.HasKeys]
      exact hasKeys_snakeItems items
  | .dict fields => by
      rw [snakeDeep]
      exact hasKeys_writes (hasKeys_snakeFields fields)

theorem hasKeys_snakeItems : ∀ items : List (PyValue F),
    PyValue.HasKeysItems Settled (snakeItems items)
  | [] => trivial
  | v :: rest => ⟨hasKeys_snakeDeep v, hasKeys_snakeItems rest⟩

theorem hasKeys_snakeFields : ∀ fields : List (String × PyValue F),
    PyValue.HasKeysFields Settled (snakeFields fields)
  | [] => trivial
  | (k, v) :: rest => ⟨toSnake_toSnake k, hasKeys_snakeDeep v, hasKeys_snakeFields rest⟩
end

mutual
theorem snakeDeep_eq_self : ∀ v : PyValue F, v.HasKeys Settled → snakeDeep v = v
  | .none, _ | .bool _, _ | .int _, _ | .float _, _ | .str _, _ => rfl
  | .list items, h => by
      rw [snakeDeep, snakeItems_eq_self items h]
  | .dict fields, h => by
      rw [PyValue.HasKeys] at h
      rw [snakeDeep, snakeFields_eq_self fields h.2, writes_pairs h.1]

theorem snakeItems_eq_self : ∀ items : List (PyValue F),
    PyValue.HasKeysItems Settled items → snakeItems items = items
  | [], _ => rfl
  | v :: rest, h => by
      rw [PyValue.HasKeysItems] at h
      rw [snakeItems, snakeDeep_eq_self v h.1, snakeItems_eq_self rest h.2]

theorem snakeFields_eq_self : ∀ fields : List (String × PyValue F),
    PyValue.HasKeysFields Settled fields → snakeFields fields = fields
  | [], _ => rfl
  | (k, v) :: rest, h => by
      rw [PyValue.HasKeysFields] at h
      rw [snakeFields, h.1, snakeDeep_eq_self v h.2.1, snakeFields_eq_self rest h.2.2]
end

/-- Normalising twice is normalising once. -/
theorem snakeDeep_snakeDeep (v : PyValue F) : snakeDeep (snakeDeep v) = snakeDeep v :=
  snakeDeep_eq_self _ (hasKeys_snakeDeep v)

/-! ## Records -/

mutual
/-- The rendering changes no nesting. -/
theorem depth_camelDeep : ∀ v : PyValue F, depth (camelDeep v) = depth v
  | .none | .bool _ | .int _ | .float _ | .str _ => rfl
  | .list items => by rw [camelDeep, depth, depth, depthItems_camelItems items]
  | .dict fields => by rw [camelDeep, depth, depth, depthFields_camelFields fields]

theorem depthItems_camelItems : ∀ items : List (PyValue F),
    depthItems (camelItems items) = depthItems items
  | [] => rfl
  | v :: rest => by
      rw [camelItems, depthItems, depthItems, depth_camelDeep v, depthItems_camelItems rest]

theorem depthFields_camelFields : ∀ fields : List (String × PyValue F),
    depthFields (camelFields fields) = depthFields fields
  | [] => rfl
  | (k, v) :: rest => by
      rw [camelFields, depthFields, depthFields, depth_camelDeep v, depthFields_camelFields rest]
end

/-- Where `to_snake` gives the keys back, it has nothing to change in them. -/
theorem settled_of_restored {name : String} (h : Restored name) : Settled name := by
  have := toSnake_toSnake (toCamel name)
  rwa [h] at this

mutual
theorem hasKeys_imp {P Q : String → Prop} (himp : ∀ k, P k → Q k) :
    ∀ v : PyValue F, v.HasKeys P → v.HasKeys Q
  | .none, _ | .bool _, _ | .int _, _ | .float _, _ | .str _, _ => trivial
  | .list items, h => hasKeysItems_imp himp items h
  | .dict fields, h => ⟨h.1, hasKeysFields_imp himp fields h.2⟩

theorem hasKeysItems_imp {P Q : String → Prop} (himp : ∀ k, P k → Q k) :
    ∀ items : List (PyValue F), PyValue.HasKeysItems P items → PyValue.HasKeysItems Q items
  | [], _ => trivial
  | v :: rest, h => ⟨hasKeys_imp himp v h.1, hasKeysItems_imp himp rest h.2⟩

theorem hasKeysFields_imp {P Q : String → Prop} (himp : ∀ k, P k → Q k) :
    ∀ fields : List (String × PyValue F), PyValue.HasKeysFields P fields →
      PyValue.HasKeysFields Q fields
  | [], _ => trivial
  | (k, v) :: rest, h => ⟨himp k h.1, hasKeys_imp himp v h.2.1, hasKeysFields_imp himp rest h.2.2⟩
end

section Events

variable [PyArith F] (it : Interp F)

/-- An event and its rendering give one record. -/
theorem parseEvent_camelFields {obj : Dict String (PyValue F)}
    (h : (PyValue.dict obj).HasKeys Restored) :
    parseEvent it (camelFields obj) = parseEvent it obj := by
  have hdepth : depth (.dict (camelFields obj)) = depth (.dict obj) := by
    rw [depth, depth, depthFields_camelFields]
  have hself := snakeDeep_eq_self _ (hasKeys_imp (fun _ => settled_of_restored) _ h)
  have hcamel := snakeDeep_camelDeep _ h
  rw [camelDeep] at hcamel
  rw [snakeDeep] at hself hcamel
  have hdict : snakeDict (camelFields obj) = snakeDict obj := by
    rw [snakeDict, snakeDict, PyValue.dict.inj hself, PyValue.dict.inj hcamel]
  rw [parseEvent, parseEvent, hdepth, hdict]

/-- What the casing of its keys does not change: the values and their keys, the record of
an event, and the signals of a list of events each in either casing. -/
structure CasingNeutral (P : String → Prop) : Prop where
  idempotent : ∀ v : PyValue F, snakeDeep (snakeDeep v) = snakeDeep v
  restored : ∀ v : PyValue F, v.HasKeys P → snakeDeep (camelDeep v) = v
  record : ∀ obj : Dict String (PyValue F), (PyValue.dict obj).HasKeys P →
    parseEvent it (camelFields obj) = parseEvent it obj
  signals : ∀ events : List (Dict String (PyValue F) × Bool),
    (∀ e ∈ events, (PyValue.dict e.1).HasKeys P) →
      (events.mapM (fun e => parseEvent it (if e.2 then camelFields e.1 else e.1)) >>=
          goldfiveSignals it) =
        events.mapM (fun e => parseEvent it e.1) >>= goldfiveSignals it

theorem casingNeutral_of_restored {P : String → Prop} (h : ∀ k, P k → Restored k) :
    CasingNeutral it P where
  idempotent := snakeDeep_snakeDeep
  restored v hv := snakeDeep_camelDeep v (hasKeys_imp h v hv)
  record obj hobj := parseEvent_camelFields it (hasKeys_imp h _ hobj)
  signals events hevents := by
    refine congrArg (· >>= goldfiveSignals it) (mapM_congr_mem fun e he => ?_)
    split
    · exact parseEvent_camelFields it (hasKeys_imp h _ (hevents e he))
    · rfl

/-- A snake-case name in which no word of one letter stands between two others. -/
def SnakeName (name : String) : Prop := isSnake name = true ∧ noShortWord name.toList = true

/-- Wire casing does not change what is measured. -/
theorem casing_neutral : CasingNeutral it SnakeName :=
  casingNeutral_of_restored it fun _ h => toSnake_toCamel h.1 h.2

end Events

/-- The rendering `aBC` of `a_b_c` is read as two words. -/
theorem short_word_lost :
    ¬ CasingNeutral plainInterp fun name => isSnake name = true := by
  intro h
  have hkeys : (PyValue.dict [("a_b_c", (.none : PyValue Exact))]).HasKeys
      fun name => isSnake name = true :=
    ⟨by decide, by decide, trivial, trivial⟩
  have hback := h.restored _ hkeys
  have hkey : toSnake (toCamel "a_b_c") = "a_bc" := by decide
  rw [camelDeep, camelFields, camelFields, snakeDeep, snakeFields, snakeFields, hkey] at hback
  simp [Dict.set] at hback

end Zicato.Events
