import Interning.Config.Environment

/-!
# What the variables of an environment make of a configuration

A variable that is there is either read or refused, whatever the configuration was; afterwards the
configuration has what was read in place of what was there before.

    readCapacity? raw = some n ↔ raw is a capacity written as n        (readCapacity?_eq_some_iff)
    if every variable is read, the configuration is made of them and checked
                                                                        (overrideBy_of_readable)
    if one of them is refused, so is the whole                         (overrideBy_of_unreadable)
-/

namespace Interning

/-! ## Algorithm -/

/-- After the blanks at both ends are taken off, `raw` is a numeral of `n`, with a plus sign or
without. -/
def IsCapacity (raw : String) (n : Nat) : Prop :=
  ∃ ds, ds ≠ [] ∧ (∀ c ∈ ds, c.isDigit = true) ∧
    (Text.trimmed raw.toList = ds ∨ Text.trimmed raw.toList = '+' :: ds) ∧
    Nat.ofDigitChars 10 ds 0 = n

def unsigned : List Char → List Char
  | '+' :: rest => rest
  | cs => cs

/-- The number that digits denote, if there is a place for it. -/
def capacity? (ds : List Char) : Option UInt64 :=
  match Text.Decimal.read? ds with
  | some n => if n < UInt64.size then some (.ofNat n) else none
  | none => none

namespace Variable

/-- A variable can be read that holds `raw`; a flag is read in any case. -/
def Readable (raw : String) : Variable → Prop
  | mode => ∃ m, Mode.read raw = .ok m
  | capacity => ∃ n, IsCapacity raw n ∧ n < UInt64.size
  | trackMemory => True
  | normalization => ∃ k, Normalization.read raw = .ok k

/-- Why a variable that holds `raw` is refused, where it can be. -/
def refusal? (raw : String) : Variable → Option Error
  | mode => some (.unknownMode (Text.plainName raw))
  | capacity => some (.capacityNotInteger capacity.name raw)
  | trackMemory => none
  | normalization => some (.unknownNormalization (Text.plainName raw))

/-- The configuration with the value of a variable, if it is there and can be read. -/
def set (source : String → Option String) (c : Config) (v : Variable) : Config :=
  let value := source v.name
  match v with
  | mode => { c with mode := (value.bind fun raw => (Mode.read raw).toOption).getD c.mode }
  | capacity => { c with initialCapacity := (value.bind readCapacity?).getD c.initialCapacity }
  | trackMemory => { c with trackMemory := (value.bind readFlag?).getD c.trackMemory }
  | normalization =>
    { c with
      normalization :=
        (value.bind fun raw => (Normalization.read raw).toOption).getD c.normalization }

end Variable

/-! ## Lemmas -/

/-! ### Capacities -/

theorem Text.Decimal.read?_eq_some_iff {cs : List Char} {n : Nat} :
    read? cs = some n ↔
      cs ≠ [] ∧ (∀ c ∈ cs, c.isDigit = true) ∧ Nat.ofDigitChars 10 cs 0 = n := by
  rw [read?]
  by_cases h : (!cs.isEmpty && cs.all Char.isDigit) = true
  · rw [if_pos h]
    simp only [Bool.and_eq_true, Bool.not_eq_true', List.isEmpty_eq_false_iff,
      List.all_eq_true] at h
    rw [Option.some_inj]
    exact ⟨fun hn => ⟨h.1, h.2, hn⟩, fun hn => hn.2.2⟩
  · rw [if_neg h]
    refine iff_of_false (Option.some_ne_none n).symm fun hn => h ?_
    simp only [Bool.and_eq_true, Bool.not_eq_true', List.isEmpty_eq_false_iff,
      List.all_eq_true]
    exact ⟨hn.1, hn.2.1⟩

theorem readCapacity?_eq (raw : String) :
    readCapacity? raw = capacity? (unsigned (Text.trimmed raw.toList)) := rfl

theorem capacity?_eq_some_iff {ds : List Char} {n : UInt64} :
    capacity? ds = some n ↔ Text.Decimal.read? ds = some n.toNat := by
  rw [capacity?]
  cases Text.Decimal.read? ds with
  | none => exact iff_of_false (Option.some_ne_none n).symm (Option.some_ne_none _).symm
  | some k =>
    by_cases hk : k < UInt64.size
    · simp only [if_pos hk, Option.some_inj]
      constructor
      · rintro rfl
        exact (UInt64.toNat_ofNat_of_lt' hk).symm
      · rintro rfl
        exact UInt64.ofNat_toNat
    · simp only [if_neg hk, Option.some_inj]
      refine iff_of_false (Option.some_ne_none n).symm ?_
      rintro rfl
      exact hk n.toNat_lt_size

/-- Digits after a plus sign are left when the sign is taken off, and so are digits without one. -/
theorem unsigned_eq_iff {cs ds : List Char} (hdigit : ∀ c ∈ ds, c.isDigit = true) :
    unsigned cs = ds ↔ cs = ds ∨ cs = '+' :: ds := by
  unfold unsigned
  split
  · next rest =>
    constructor
    · rintro rfl
      exact .inr rfl
    · rintro (rfl | h)
      · exact absurd (hdigit '+' List.mem_cons_self) (by decide)
      · exact (List.cons.inj h).2
  · next h => exact ⟨.inl, fun hcs => hcs.resolve_right (h ds)⟩

/-- A capacity is read exactly from the numerals that fit in a word. -/
theorem readCapacity?_eq_some_iff {raw : String} {n : UInt64} :
    readCapacity? raw = some n ↔ IsCapacity raw n.toNat := by
  rw [readCapacity?_eq, capacity?_eq_some_iff, Text.Decimal.read?_eq_some_iff]
  constructor
  · rintro ⟨hne, hdigit, hn⟩
    exact ⟨_, hne, hdigit, (unsigned_eq_iff hdigit).1 rfl, hn⟩
  · rintro ⟨ds, hne, hdigit, hds, hn⟩
    rw [(unsigned_eq_iff hdigit).2 hds]
    exact ⟨hne, hdigit, hn⟩

theorem Variable.readable_capacity_iff {raw : String} :
    Variable.capacity.Readable raw ↔ ∃ n, readCapacity? raw = some n := by
  constructor
  · rintro ⟨n, hn, hlt⟩
    refine ⟨.ofNat n, readCapacity?_eq_some_iff.2 ?_⟩
    rwa [UInt64.toNat_ofNat_of_lt' hlt]
  · rintro ⟨n, hn⟩
    exact ⟨n.toNat, readCapacity?_eq_some_iff.1 hn, n.toNat_lt⟩

/-! ### Names -/

namespace Text

variable {α : Type} {vocabulary : List (String × α)} {raw : String}

/-- A name that is not listed is answered as it was looked up. -/
theorem mapError_readName_eq_error {f : String → Error} {e : Error}
    (h : (readName vocabulary raw).mapError f = .error e) : e = f (plainName raw) := by
  rw [readName] at h
  split at h
  · cases h
  · exact (Except.error.inj h).symm

end Text

/-! ### Variables -/

namespace Variable

variable {source : String → Option String} {v : Variable} {raw : String} (c : Config)

/-- A variable that is not there changes nothing. -/
theorem set_of_none (h : source v.name = none) : v.set source c = c := by
  cases v <;> simp only [set, h, Option.bind_none, Option.getD_none]

/-- A variable that can be read sets its setting. -/
theorem apply_of_readable (h : source v.name = some raw) (hr : v.Readable raw) :
    ∃ e, v.apply raw c = .ok (v.set source c, e) := by
  cases v with
  | mode =>
    obtain ⟨m, hm⟩ := hr
    refine ⟨some (.overrideApplied Variable.mode.name raw), ?_⟩
    simp only [apply, set, h, hm, Option.bind_some]
    rfl
  | capacity =>
    obtain ⟨n, hn⟩ := readable_capacity_iff.1 hr
    refine ⟨some (.overrideApplied Variable.capacity.name raw), ?_⟩
    simp only [apply, set, h, hn, Option.bind_some]
    rfl
  | trackMemory =>
    cases hf : readFlag? raw with
    | none =>
      refine ⟨some (.flagIgnored Variable.trackMemory.name raw), ?_⟩
      simp only [apply, set, h, hf, Option.bind_some]
      rfl
    | some b =>
      refine ⟨none, ?_⟩
      simp only [apply, set, h, hf, Option.bind_some]
      rfl
  | normalization =>
    obtain ⟨k, hk⟩ := hr
    refine ⟨some (.overrideApplied Variable.normalization.name raw), ?_⟩
    simp only [apply, set, h, hk, Option.bind_some]
    rfl

/-- Any other variable is refused. -/
theorem apply_of_unreadable (hr : ¬v.Readable raw) :
    ∃ e, v.refusal? raw = some e ∧ v.apply raw c = .error e := by
  cases v with
  | mode =>
    cases hm : Mode.read raw with
    | ok m => exact absurd ⟨m, hm⟩ hr
    | error e =>
      obtain rfl := Text.mapError_readName_eq_error hm
      refine ⟨_, rfl, ?_⟩
      simp only [apply, hm]
      rfl
  | capacity =>
    cases hn : readCapacity? raw with
    | some n => exact absurd (readable_capacity_iff.2 ⟨n, hn⟩) hr
    | none =>
      refine ⟨_, rfl, ?_⟩
      simp only [apply, hn]
  | trackMemory => exact absurd trivial hr
  | normalization =>
    cases hk : Normalization.read raw with
    | ok k => exact absurd ⟨k, hk⟩ hr
    | error e =>
      obtain rfl := Text.mapError_readName_eq_error hk
      refine ⟨_, rfl, ?_⟩
      simp only [apply, hk]
      rfl

end Variable

/-! ### All of them -/

namespace Config

variable {source : String → Option String} {vs : List Variable}

/-- Variables that are read are behind when the others are asked for. -/
theorem overrideBy_append (c : Config) (vs rest : List Variable)
    (h : ∀ v ∈ vs, ∀ raw, source v.name = some raw → v.Readable raw) :
    let o := (vs.foldl (fun c v => v.set source c) c).overrideBy source rest
    (c.overrideBy source (vs ++ rest)).config = o.config ∧
      (c.overrideBy source (vs ++ rest)).asked = vs ++ o.asked ∧
      (c.overrideBy source (vs ++ rest)).verdict = o.verdict := by
  induction vs generalizing c with
  | nil => exact ⟨rfl, rfl, rfl⟩
  | cons v vs ih =>
    have hrest := fun c => ih c fun v' hv' => h v' (List.mem_cons_of_mem v hv')
    rw [List.foldl_cons, List.cons_append]
    cases hv : source v.name with
    | none =>
      obtain ⟨h₁, h₂, h₃⟩ := hrest c
      rw [v.set_of_none c hv]
      simp only [overrideBy, hv]
      exact ⟨h₁, congrArg (v :: ·) h₂, h₃⟩
    | some raw =>
      obtain ⟨e, he⟩ := v.apply_of_readable c hv (h v List.mem_cons_self raw hv)
      obtain ⟨h₁, h₂, h₃⟩ := hrest (v.set source c)
      simp only [overrideBy, hv, he]
      exact ⟨h₁, congrArg (v :: ·) h₂, h₃⟩

/-- If every variable is read, the configuration has what they hold, and is checked. -/
theorem overrideBy_of_readable (c : Config)
    (h : ∀ v ∈ vs, ∀ raw, source v.name = some raw → v.Readable raw) :
    (c.overrideBy source vs).config = vs.foldl (fun c v => v.set source c) c ∧
      (c.overrideBy source vs).verdict = (vs.foldl (fun c v => v.set source c) c).validate := by
  obtain ⟨hconfig, -, hverdict⟩ := c.overrideBy_append vs [] h
  rw [List.append_nil] at hconfig hverdict
  exact ⟨hconfig, hverdict⟩

/-- If a variable is refused, so is the whole. -/
theorem overrideBy_of_unreadable (c : Config) {v : Variable} {raw : String} (hv : v ∈ vs)
    (hs : source v.name = some raw) (hr : ¬v.Readable raw) :
    ∃ e, (c.overrideBy source vs).verdict = .error e := by
  induction vs generalizing c with
  | nil => cases hv
  | cons u vs ih =>
    rcases List.mem_cons.1 hv with rfl | hv
    · obtain ⟨e, -, he⟩ := v.apply_of_unreadable c hr
      exact ⟨e, by simp only [overrideBy, hs, he]⟩
    · cases hu : source u.name with
      | none =>
        simp only [overrideBy, hu]
        exact ih c hv
      | some value =>
        cases happly : u.apply value c with
        | error e => exact ⟨e, by simp only [overrideBy, hu, happly]⟩
        | ok c' =>
          simp only [overrideBy, hu, happly]
          exact ih c'.1 hv

end Config

end Interning
