import Interning.Proofs.Config.Overrides
import Interning.Proofs.Text.Name
import Mathlib.Algebra.Group.Nat.Defs
import Mathlib.Logic.Basic

/-!
# Overriding a configuration, whether it ends well or not

A variable holds a text, and the text means a value of its setting or it means nothing.  Variables
are asked for in order; the first one that means nothing ends the matter, unless it is the flag,
which is then passed over.  Whoever keeps the configuration after that has the settings of the
variables before in their new state, and all others in their old one.

    v.read? raw = some x ↔ v.Means raw x                                  (read?_eq_some_iff)
    variables have their say, the others none              (sets_foldl_set, of_foldl_set)
    c.applyOverrides source went by the rules                              (overriding_complete)
-/

namespace Interning

/-! ## Algorithm -/

namespace Variable

/-- What a variable can set. -/
def Value : Variable → Type
  | mode => Mode
  | capacity => UInt64
  | trackMemory => Bool
  | normalization => Normalization

def of (c : Config) : (v : Variable) → v.Value
  | mode => c.mode
  | capacity => c.initialCapacity
  | trackMemory => c.trackMemory
  | normalization => c.normalization

/-- What a text means for a variable: a listed name, or a numeral for which there is a place. -/
def Means (raw : String) : (v : Variable) → v.Value → Prop
  | mode, m => (Text.plainName raw, m) ∈ Mode.vocabulary
  | capacity, n => IsCapacity raw n.toNat
  | trackMemory, b => (Text.plainName raw, b) ∈ flagVocabulary
  | normalization, k => (Text.plainName raw, k) ∈ Normalization.vocabulary

/-- The value that a text is read as. -/
def read? (raw : String) : (v : Variable) → Option v.Value
  | mode => (Mode.read raw).toOption
  | capacity => readCapacity? raw
  | trackMemory => readFlag? raw
  | normalization => (Normalization.read raw).toOption

/-- What a variable holds, if it is there, means something, or is nothing to refuse. -/
def Acceptable (source : String → Option String) (v : Variable) : Prop :=
  ∀ raw, source v.name = some raw → (∃ x, v.Means raw x) ∨ v.refusal? raw = none

/-- A variable has its say between two configurations. -/
def Sets (source : String → Option String) (c c' : Config) (v : Variable) : Prop :=
  match source v.name with
  | none => v.of c' = v.of c
  | some raw => v.Means raw (v.of c') ∨ (∀ x, ¬v.Means raw x) ∧ v.of c' = v.of c

end Variable

/-- The name of a mode, and a text that is no capacity. -/
def Config.halfway (name : String) : Option String :=
  if name = Variable.mode.name then some " STRONG "
  else if name = Variable.capacity.name then some "lots"
  else none

/-- A capacity out of range, and a text that is no truth value. -/
def Config.ample (name : String) : Option String :=
  if name = Variable.capacity.name then some "+016777217"
  else if name = Variable.trackMemory.name then some "maybe"
  else none

/-- The overriding of `c` went as it should. -/
structure Config.Overriding (source : String → Option String) (c : Config) (o : Overridden) :
    Prop where
  /-- Variables are asked for in their order, each of them once. -/
  inOrder : o.asked <+: Variable.all
  /-- What was not asked for does not matter. -/
  determined : ∀ source', (∀ v ∈ o.asked, source' v.name = source v.name) →
    c.applyOverrides source' = o
  /-- It ends well exactly if all is acceptable and the capacity, whoever set it, is in range. -/
  accepted : o.verdict = .ok () ↔
    (∀ v : Variable, v.Acceptable source) ∧ o.config.initialCapacity.toNat ≤ 2 ^ 24
  /-- If all is acceptable, every variable is asked and has its say, whatever the range. -/
  said : (∀ v : Variable, v.Acceptable source) →
    o.asked = Variable.all ∧ ∀ v : Variable, v.Sets source c o.config
  /-- Then only the range can be wrong. -/
  oversized : (∀ v : Variable, v.Acceptable source) → 2 ^ 24 < o.config.initialCapacity.toNat →
    o.verdict = .error (.capacityTooLarge o.config.initialCapacity maxInitialCapacity)
  /-- The first variable that is not acceptable is the last one asked; those before it have had
  their say, and it and those after it have none. -/
  refused : ∀ (before : List Variable) (v : Variable) (after : List Variable),
    Variable.all = before ++ v :: after → (∀ u ∈ before, u.Acceptable source) →
      ¬v.Acceptable source →
        o.asked = before ++ [v] ∧ (∀ u ∈ before, u.Sets source c o.config) ∧
        (∀ u ∈ v :: after, u.of o.config = u.of c) ∧
        ∃ raw e, source v.name = some raw ∧ v.refusal? raw = some e ∧ o.verdict = .error e
  /-- A configuration that is accepted is a valid one. -/
  valid : o.verdict = .ok () → o.config.validate = .ok ()
  /-- The kind of the error tells whether it was the mode. -/
  kind : ∀ e, o.verdict = .error e →
    (e.kind = .unsupportedMode ↔ ¬Variable.mode.Acceptable source) ∧
      (e.kind = .config ↔ Variable.mode.Acceptable source)

/-! ## Lemmas -/

/-! ### Readings -/

/-- Another text for the error keeps what is read. -/
theorem toOption_mapError {ε ε' α : Type} (f : ε → ε') (x : Except ε α) :
    (x.mapError f).toOption = x.toOption := by
  cases x <;> rfl

theorem toOption_eq_some_iff {ε α : Type} {x : Except ε α} {a : α} :
    x.toOption = some a ↔ x = .ok a := by
  cases x with
  | error e => exact iff_of_false nofun nofun
  | ok b => exact ⟨fun h => congrArg _ (Option.some.inj h), fun h => congrArg _ (Except.ok.inj h)⟩

namespace Variable

variable {source : String → Option String} {c c' : Config} {u v : Variable} {raw : String}

/-- What is read is what is meant. -/
theorem read?_eq_some_iff {x : v.Value} : v.read? raw = some x ↔ v.Means raw x := by
  cases v with
  | mode =>
    have hmode : ∀ m, (Mode.read raw).toOption = some m ↔ _ ∈ Mode.vocabulary := fun m => by
      rw [Mode.read, toOption_mapError, toOption_eq_some_iff]
      exact Text.readName_eq_ok_iff (by decide)
    exact hmode x
  | capacity => exact readCapacity?_eq_some_iff
  | trackMemory =>
    have hflag : ∀ b, readFlag? raw = some b ↔ _ ∈ flagVocabulary := fun b => by
      rw [readFlag?, toOption_eq_some_iff]
      exact Text.readName_eq_ok_iff (by decide)
    exact hflag x
  | normalization =>
    have hkind : ∀ k, (Normalization.read raw).toOption = some k ↔ _ ∈ Normalization.vocabulary :=
      fun k => by
        rw [Normalization.read, toOption_mapError, toOption_eq_some_iff]
        exact Text.readName_eq_ok_iff (by decide)
    exact hkind x

/-- A variable can be read that means something, or that there is no way to refuse. -/
theorem readable_iff : v.Readable raw ↔ (∃ x, v.Means raw x) ∨ v.refusal? raw = none := by
  simp only [← read?_eq_some_iff]
  cases v with
  | mode =>
    refine Iff.trans ?_ (or_iff_left (Option.some_ne_none _)).symm
    exact exists_congr fun m => toOption_eq_some_iff.symm
  | capacity => exact readable_capacity_iff.trans (or_iff_left (Option.some_ne_none _)).symm
  | trackMemory => exact iff_of_true trivial (.inr rfl)
  | normalization =>
    refine Iff.trans ?_ (or_iff_left (Option.some_ne_none _)).symm
    exact exists_congr fun k => toOption_eq_some_iff.symm

theorem acceptable_iff :
    v.Acceptable source ↔ ∀ raw, source v.name = some raw → v.Readable raw :=
  forall₂_congr fun _ _ => readable_iff.symm

instance (source : String → Option String) (v : Variable) : Decidable (v.Acceptable source) :=
  decidable_of_iff
    (∀ raw ∈ source v.name, (v.read? raw).isSome = true ∨ v.refusal? raw = none) <| by
      simp only [Acceptable, Option.isSome_iff_exists, read?_eq_some_iff, Option.mem_def]

/-- The setting of a variable afterwards. -/
theorem of_set : v.of (v.set source c) = ((source v.name).bind (v.read? ·)).getD (v.of c) := by
  cases v <;> rfl

/-- A variable leaves the other settings alone. -/
theorem of_set_of_ne (h : u ≠ v) : u.of (v.set source c) = u.of c := by
  cases u <;> cases v <;> first | rfl | exact absurd rfl h

theorem sets_set : v.Sets source c (v.set source c) := by
  rw [Sets, of_set]
  cases source v.name with
  | none => rfl
  | some raw =>
    dsimp only [Option.bind_some]
    cases h : v.read? raw with
    | some x => exact .inl (read?_eq_some_iff.1 h)
    | none =>
      refine .inr ⟨fun x hx => ?_, rfl⟩
      rw [read?_eq_some_iff.2 hx] at h
      cases h

/-- Whether a variable had its say is seen from its own setting. -/
theorem sets_congr {c₁ c₁' : Config} (h : v.of c = v.of c₁) (h' : v.of c' = v.of c₁') :
    v.Sets source c c' ↔ v.Sets source c₁ c₁' := by
  rw [Sets, Sets, h, h']

/-- Variables that are not among those applied have no say. -/
theorem of_foldl_set {vs : List Variable} (h : u ∉ vs) :
    u.of (vs.foldl (fun c v => v.set source c) c) = u.of c := by
  induction vs generalizing c with
  | nil => rfl
  | cons v vs ih =>
    rw [List.mem_cons, not_or] at h
    rw [List.foldl_cons, ih h.2, of_set_of_ne h.1]

/-- Each of the variables applied has its say, whatever is applied before and after it. -/
theorem sets_foldl_set {vs : List Variable} (hn : vs.Nodup) (hv : v ∈ vs) :
    v.Sets source c (vs.foldl (fun c v => v.set source c) c) := by
  induction vs generalizing c with
  | nil => cases hv
  | cons u vs ih =>
    obtain ⟨hu, hn⟩ := List.nodup_cons.1 hn
    rw [List.foldl_cons]
    by_cases h : v = u
    · subst h
      exact (sets_congr rfl (of_foldl_set hu)).2 sets_set
    · have hrest := ih (c := u.set source c) hn ((List.mem_cons.1 hv).resolve_left h)
      exact (sets_congr (of_set_of_ne h) rfl).1 hrest

theorem mem_all (v : Variable) : v ∈ all := by
  cases v <;> decide

theorem nodup_all : all.Nodup := by decide

end Variable

/-! ### Runs over the variables -/

namespace Config

variable {source source' : String → Option String} {vs : List Variable}

/-- What was not asked for does not matter. -/
theorem overrideBy_congr (c : Config)
    (h : ∀ v ∈ (c.overrideBy source vs).asked, source' v.name = source v.name) :
    c.overrideBy source' vs = c.overrideBy source vs := by
  induction vs generalizing c with
  | nil => rfl
  | cons v vs ih =>
    cases hv : source v.name with
    | none =>
      simp only [overrideBy, hv] at h
      have hv' := (h v List.mem_cons_self).trans hv
      simp only [overrideBy, hv, hv', ih c fun u hu => h u (List.mem_cons_of_mem v hu)]
    | some raw =>
      cases happly : v.apply raw c with
      | error e =>
        simp only [overrideBy, hv, happly] at h
        have hv' := (h v List.mem_cons_self).trans hv
        simp only [overrideBy, hv, hv', happly]
      | ok changed =>
        simp only [overrideBy, hv, happly] at h
        have hv' := (h v List.mem_cons_self).trans hv
        simp only [overrideBy, hv, hv', happly,
          ih changed.1 fun u hu => h u (List.mem_cons_of_mem v hu)]

/-- Where not all variables are acceptable, there is a first one that is not. -/
theorem exists_first_unacceptable (h : ¬∀ v ∈ vs, v.Acceptable source) :
    ∃ before v after, vs = before ++ v :: after ∧ (∀ u ∈ before, u.Acceptable source) ∧
      ¬v.Acceptable source := by
  induction vs with
  | nil => exact absurd nofun h
  | cons u vs ih =>
    by_cases hu : u.Acceptable source
    · obtain ⟨before, v, after, rfl, hbefore, hv⟩ :=
        ih fun hvs => h (List.forall_mem_cons.2 ⟨hu, hvs⟩)
      exact ⟨u :: before, v, after, rfl, List.forall_mem_cons.2 ⟨hu, hbefore⟩, hv⟩
    · exact ⟨[], u, vs, rfl, nofun, hu⟩

theorem validate_eq_ok_iff_toNat {c : Config} :
    c.validate = .ok () ↔ c.initialCapacity.toNat ≤ 2 ^ 24 :=
  validate_eq_ok_iff.trans UInt64.le_iff_toNat_le

theorem validate_of_lt {c : Config} (h : 2 ^ 24 < c.initialCapacity.toNat) :
    c.validate = .error (.capacityTooLarge c.initialCapacity maxInitialCapacity) :=
  have hlt : maxInitialCapacity.toNat < c.initialCapacity.toNat := h
  if_pos (UInt64.lt_iff_toNat_lt.2 hlt)

variable {c : Config}

/-- If all is acceptable, every variable is applied, and what comes of it is checked. -/
theorem applyOverrides_of_acceptable (h : ∀ v : Variable, v.Acceptable source) :
    let o := c.applyOverrides source
    o.config = Variable.all.foldl (fun c v => v.set source c) c ∧ o.asked = Variable.all ∧
      o.verdict = o.config.validate := by
  obtain ⟨hconfig, hasked, hverdict⟩ :=
    c.overrideBy_append Variable.all [] fun v _ => Variable.acceptable_iff.1 (h v)
  rw [List.append_nil] at hconfig hasked hverdict
  exact ⟨hconfig, hasked, hverdict.trans (congrArg validate hconfig).symm⟩

/-- The first variable that is not acceptable is refused, and nothing happens after that. -/
theorem applyOverrides_of_refused {before after : List Variable} {v : Variable}
    (hall : Variable.all = before ++ v :: after) (hbefore : ∀ u ∈ before, u.Acceptable source)
    (hv : ¬v.Acceptable source) :
    (c.applyOverrides source).config = before.foldl (fun c v => v.set source c) c ∧
      (c.applyOverrides source).asked = before ++ [v] ∧
      ∃ raw e, source v.name = some raw ∧ v.refusal? raw = some e ∧
        (c.applyOverrides source).verdict = .error e := by
  rw [Variable.acceptable_iff, not_forall] at hv
  obtain ⟨raw, hv⟩ := hv
  rw [Classical.not_imp] at hv
  obtain ⟨hraw, hr⟩ := hv
  obtain ⟨e, hrefusal, happly⟩ :=
    Variable.apply_of_unreadable (before.foldl (fun c v => v.set source c) c) hr
  obtain ⟨hconfig, hasked, hverdict⟩ :=
    c.overrideBy_append before (v :: after) fun u hu => Variable.acceptable_iff.1 (hbefore u hu)
  rw [← hall] at hconfig hasked hverdict
  simp only [overrideBy, hraw, happly] at hconfig hasked hverdict
  exact ⟨hconfig, hasked, raw, e, hraw, hrefusal, hverdict⟩

/-- A variable that is refused before all others is the mode. -/
theorem acceptable_mode_iff {before after : List Variable} {v : Variable}
    (hall : Variable.all = before ++ v :: after) (hbefore : ∀ u ∈ before, u.Acceptable source)
    (hv : ¬v.Acceptable source) : Variable.mode.Acceptable source ↔ v ≠ .mode := by
  constructor
  · rintro hm rfl
    exact hv hm
  · intro hne
    cases before with
    | nil => exact absurd (List.cons.inj hall).1.symm hne
    | cons u before =>
      obtain rfl := (List.cons.inj hall).1
      exact hbefore _ List.mem_cons_self

/-- The kind of the error is that of the variable refused. -/
theorem kind_of_refusal {v : Variable} {raw : String} {e : Error}
    (h : v.refusal? raw = some e) :
    (e.kind = .unsupportedMode ↔ v = .mode) ∧ (e.kind = .config ↔ v ≠ .mode) := by
  cases v with
  | trackMemory => cases h
  | mode =>
    obtain rfl := Option.some.inj h
    exact ⟨iff_of_true rfl rfl, iff_of_false nofun fun h => h rfl⟩
  | capacity | normalization =>
    obtain rfl := Option.some.inj h
    exact ⟨iff_of_false nofun nofun, iff_of_true rfl nofun⟩

/-- What is not accepted is refused at a first variable. -/
theorem exists_refused (h : ¬∀ v : Variable, v.Acceptable source) :
    ∃ before v after, Variable.all = before ++ v :: after ∧
      (∀ u ∈ before, u.Acceptable source) ∧ ¬v.Acceptable source :=
  exists_first_unacceptable fun hall => h fun v => hall v v.mem_all

theorem verdict_eq_ok_iff :
    (c.applyOverrides source).verdict = .ok () ↔ (∀ v : Variable, v.Acceptable source) ∧
      (c.applyOverrides source).config.initialCapacity.toNat ≤ 2 ^ 24 := by
  by_cases h : ∀ v : Variable, v.Acceptable source
  · rw [(applyOverrides_of_acceptable h).2.2, validate_eq_ok_iff_toNat, and_iff_right h]
  · obtain ⟨before, v, after, hall, hbefore, hv⟩ := exists_refused h
    obtain ⟨-, -, raw, e, -, -, hverdict⟩ := applyOverrides_of_refused (c := c) hall hbefore hv
    rw [hverdict]
    exact iff_of_false nofun fun hok => h hok.1

/-- An error is that of the mode exactly if the mode is not acceptable. -/
theorem kind_of_verdict {e : Error} (he : (c.applyOverrides source).verdict = .error e) :
    (e.kind = .unsupportedMode ↔ ¬Variable.mode.Acceptable source) ∧
      (e.kind = .config ↔ Variable.mode.Acceptable source) := by
  by_cases h : ∀ v : Variable, v.Acceptable source
  · -- Only the range is left to be wrong.
    have hvalidate := (applyOverrides_of_acceptable h).2.2.symm.trans he
    rcases Nat.lt_or_ge (2 ^ 24) (c.applyOverrides source).config.initialCapacity.toNat with
      hlt | hle
    · obtain rfl := Except.error.inj ((validate_of_lt hlt).symm.trans hvalidate)
      exact ⟨iff_of_false nofun fun hm => hm (h .mode), iff_of_true rfl (h .mode)⟩
    · cases (validate_eq_ok_iff_toNat.2 hle).symm.trans hvalidate
  · obtain ⟨before, v, after, hall, hbefore, hv⟩ := exists_refused h
    obtain ⟨-, -, raw, e', -, hrefusal, hverdict⟩ :=
      applyOverrides_of_refused (c := c) hall hbefore hv
    obtain rfl := Except.error.inj (hverdict.symm.trans he)
    obtain ⟨hmode, hconfig⟩ := kind_of_refusal hrefusal
    have hm := acceptable_mode_iff hall hbefore hv
    exact ⟨hmode.trans (by rw [hm, not_not]), hconfig.trans hm.symm⟩

/-! ### Main statement -/

/-- Whatever the configuration was, and whatever the variables hold. -/
theorem overriding_complete (c : Config) (source : String → Option String) :
    c.Overriding source (c.applyOverrides source) where
  inOrder := asked_isPrefix ..
  determined _ h := overrideBy_congr c h
  accepted := verdict_eq_ok_iff
  said h := by
    obtain ⟨hconfig, hasked, -⟩ := applyOverrides_of_acceptable (c := c) h
    refine ⟨hasked, fun v => ?_⟩
    rw [hconfig]
    exact Variable.sets_foldl_set Variable.nodup_all v.mem_all
  oversized h hlt := (applyOverrides_of_acceptable h).2.2.trans (validate_of_lt hlt)
  refused before v after hall hbefore hv := by
    obtain ⟨hconfig, hasked, hrefused⟩ := applyOverrides_of_refused (c := c) hall hbefore hv
    have hnodup := Variable.nodup_all
    rw [hall, List.nodup_append] at hnodup
    obtain ⟨hnodup, -, hapart⟩ := hnodup
    rw [hconfig]
    refine ⟨hasked, fun u hu => Variable.sets_foldl_set hnodup hu, fun u hu => ?_, hrefused⟩
    exact Variable.of_foldl_set fun hu' => hapart u hu' u hu rfl
  valid hok := validate_eq_ok_iff_toNat.2 (verdict_eq_ok_iff.1 hok).2
  kind _ he := kind_of_verdict he

/-- A mode stays applied when the capacity is refused, and so does a capacity that is too large. -/
theorem overriding_complete_halfway :
    let c : Config := { initialCapacity := 16777218 }
    let o := c.applyOverrides halfway
    let o' := c.applyOverrides ample
    o.asked = [.mode, .capacity] ∧ o.config = { c with mode := .retaining } ∧
      o.verdict = .error (.capacityNotInteger "CANON_INTERN_CAPACITY" "lots") ∧
      o'.config = { c with initialCapacity := 16777217 } ∧
      o'.verdict = .error (.capacityTooLarge 16777217 16777216) := by
  intro c o o'
  have hc := overriding_complete c halfway
  have hc' := overriding_complete c ample
  obtain ⟨hasked, -, -, raw, e, hraw, he, hverdict⟩ := hc.refused [.mode] .capacity
    [.trackMemory, .normalization] rfl (by decide +kernel) (by decide +kernel)
  have hlots : halfway Variable.capacity.name = some "lots" := by decide +kernel
  obtain rfl := Option.some.inj (hraw.symm.trans hlots)
  obtain rfl := Option.some.inj he
  have hample : ∀ v : Variable, v.Acceptable ample := fun v => by cases v <;> decide +kernel
  have hconfig : o'.config = { c with initialCapacity := 16777217 } := by decide +kernel
  have hlarge := hc'.oversized hample (by decide +kernel)
  rw [show (c.applyOverrides ample).config = _ from hconfig] at hlarge
  exact ⟨hasked, by decide +kernel, hverdict, hconfig, hlarge⟩

end Config

end Interning
