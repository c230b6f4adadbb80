import Interning.Config.Toml
import Interning.Json.Forms
import Interning.Proofs.Config.Overriding
import Interning.Proofs.Text.Decimal

/-!
# Settings by their names

Modes, normalizations and truth values have names, some of them more than one, and each is read by
the spellings of its own names.  The writers of a configuration put down such names, or a numeral;
so an environment that holds what was written of a configuration is read as that configuration.

    c.Emits v raw → raw = c.spelling v                                   (eq_spelling_of_emits)
    c.Emits v raw → v.Means raw (v.of c)                                       (means_of_emits)
    variables that hold what was written of `c` set what `c` has   (of_applyOverrides_of_emits)
    all of it for every configuration, source and text                             (names_read)
-/

namespace Interning

/-! ## Algorithm -/

def Mode.names : Mode → List String
  | auto => ["auto"]
  | passthrough => ["passthrough", "native", "off"]
  | reclaiming => ["reclaiming", "weak"]
  | retaining => ["retaining", "strong"]

def Normalization.names : Normalization → List String
  | verbatim => ["verbatim", "exact"]
  | asciiCaseFold => ["ascii_case_fold", "ascii-case-fold", "case_fold"]

def flagNames : Bool → List String
  | true => ["1", "true", "yes", "on"]
  | false => ["0", "false", "no", "off"]

def Variable.setting : Variable → Setting
  | mode => .mode
  | capacity => .initialCapacity
  | trackMemory => .trackMemory
  | normalization => .normalization

/-- What stands between quotes, or without them. -/
def unquoted (cs : List Char) : String := String.ofList (cs.filter (· != '"'))

namespace Config

/-- What is written of a configuration for the setting of a variable. -/
inductive Emits (c : Config) : Variable → String → Prop
  /-- The value in a line of a TOML document. -/
  | line (v : Variable) : c.Emits v (unquoted (c.settingToml v.setting))
  /-- The value in a JSON object. -/
  | member (v : Variable) : c.Emits v (unquoted (c.settingJson v.setting).chars)
  /-- The name that a normalization is shown by. -/
  | shown : c.Emits .normalization c.normalization.name

/-- The name of the setting of a variable, or its numeral. -/
def spelling (c : Config) : Variable → String
  | .mode => c.mode.name
  | .capacity => Text.Decimal.text c.initialCapacity.toNat
  | .trackMemory => if c.trackMemory then "true" else "false"
  | .normalization => c.normalization.name

/-- An environment with all that is written of a configuration. -/
def written (c : Config) (name : String) : Option String :=
  (Variable.all.find? (·.name == name)).map c.spelling

end Config

/-- Names are read in all their spellings, and what is written is read back. -/
structure NamesRead : Prop where
  mode : Text.ReadsNames Mode.read Mode.names .ok fun name => .error (.unknownMode name)
  normalization : Text.ReadsNames Normalization.read Normalization.names .ok
    fun name => .error (.unknownNormalization name)
  flag : Text.ReadsNames readFlag? flagNames some fun _ => none
  /-- Variables that hold what was written of `c` override the settings of any other configuration
  by those of `c`. -/
  overrides : ∀ (c d : Config) (source : String → Option String),
    c.initialCapacity.toNat ≤ 2 ^ 24 →
      (∀ (v : Variable) (raw : String), source v.name = some raw → c.Emits v raw) →
        (∀ v : Variable, v.of (d.applyOverrides source).config =
          if (source v.name).isSome then v.of c else v.of d) ∧
        (d.initialCapacity.toNat ≤ 2 ^ 24 → (d.applyOverrides source).verdict = .ok ())
  /-- If they are all there, the configuration is the one that was written. -/
  replaces : ∀ (c d : Config) (source : String → Option String),
    c.initialCapacity.toNat ≤ 2 ^ 24 →
      (∀ v : Variable, ∃ raw, source v.name = some raw ∧ c.Emits v raw) →
        (d.applyOverrides source).config = c ∧ (d.applyOverrides source).verdict = .ok ()

/-! ## Lemmas -/

/-! ### Reading -/

theorem Mode.read_eq (raw : String) :
    read raw = Text.answered .ok (fun name => .error (.unknownMode name))
      (Text.readName vocabulary raw) := by
  rw [read]
  cases Text.readName vocabulary raw <;> rfl

theorem Normalization.read_eq (raw : String) :
    read raw = Text.answered .ok (fun name => .error (.unknownNormalization name))
      (Text.readName vocabulary raw) := by
  rw [read]
  cases Text.readName vocabulary raw <;> rfl

theorem readFlag?_eq (raw : String) :
    readFlag? raw = Text.answered some (fun _ => none) (Text.readName flagVocabulary raw) := by
  rw [readFlag?]
  cases Text.readName flagVocabulary raw <;> rfl

theorem Mode.mem_vocabulary (name : String) (m : Mode) :
    (name, m) ∈ vocabulary ↔ name ∈ m.names := by
  cases m <;> simp [vocabulary, names]

theorem Normalization.mem_vocabulary (name : String) (k : Normalization) :
    (name, k) ∈ vocabulary ↔ name ∈ k.names := by
  cases k <;> simp [vocabulary, names]

theorem mem_flagVocabulary (name : String) (b : Bool) :
    (name, b) ∈ flagVocabulary ↔ name ∈ flagNames b := by
  cases b <;> simp [flagVocabulary, flagNames]

/-! ### Writing -/

theorem unquoted_digits (n : Nat) : unquoted (Text.Decimal.write n) = Text.Decimal.text n := by
  have hdigits : ∀ c ∈ Text.Decimal.write n, (c != '"') = true := fun c hc =>
    bne_iff_ne.2 (Text.Decimal.isDigit_ne (Text.Decimal.isDigit_of_mem_write hc) (by decide))
  rw [unquoted, List.filter_eq_self.2 hdigits, Text.Decimal.text]

/-- A written number is a capacity. -/
theorem isCapacity_text (n : Nat) : IsCapacity (Text.Decimal.text n) n := by
  obtain ⟨hne, hdigit, hvalue⟩ := Text.Decimal.read?_eq_some_iff.1 (Text.Decimal.read?_write n)
  have hblank : ∀ c ∈ Text.Decimal.write n, Text.isBlank c = false := fun c hc =>
    Text.isBlank_of_isDigit (hdigit c hc)
  refine ⟨Text.Decimal.write n, hne, hdigit, .inl ?_, hvalue⟩
  rw [Text.Decimal.text, String.toList_ofList]
  exact Text.trimmed_eq_self (fun c hc => hblank c (List.mem_of_mem_head? hc))
    (fun c hc => hblank c (List.mem_of_mem_getLast? hc))

namespace Config

variable {c d : Config} {v : Variable} {raw : String} {source : String → Option String}

/-- The writers agree on what they put down. -/
theorem eq_spelling_of_emits (h : c.Emits v raw) : raw = c.spelling v := by
  have hmode : ∀ m : Mode, unquoted ('"' :: m.name.toList ++ ['"']) = m.name ∧
      unquoted (Json.string m.name).chars = m.name := fun m => by cases m <;> decide
  have hkind : ∀ k : Normalization, unquoted ('"' :: k.name.toList ++ ['"']) = k.name ∧
      unquoted (Json.string k.name).chars = k.name := fun k => by cases k <;> decide
  have hflag : ∀ b : Bool, unquoted (if b then "true" else "false").toList =
      (if b then "true" else "false") ∧
      unquoted (Json.bool b).chars = if b then "true" else "false" := by decide
  cases h with
  | line =>
    cases v with
    | mode => exact (hmode c.mode).1
    | capacity => exact unquoted_digits _
    | trackMemory => exact (hflag c.trackMemory).1
    | normalization => exact (hkind c.normalization).1
  | member =>
    cases v with
    | mode => exact (hmode c.mode).2
    | capacity => exact unquoted_digits _
    | trackMemory => exact (hflag c.trackMemory).2
    | normalization => exact (hkind c.normalization).2
  | shown => rfl

theorem emits_spelling (c : Config) (v : Variable) : c.Emits v (c.spelling v) := by
  have hline := Emits.line (c := c) v
  rwa [eq_spelling_of_emits hline] at hline

theorem written_name (c : Config) (v : Variable) : c.written v.name = some (c.spelling v) := by
  cases v <;> rfl

/-- What is written is read as what it was written from. -/
theorem means_of_emits (h : c.Emits v raw) : v.Means raw (v.of c) := by
  have hlisted : ∀ {α : Type} {vocabulary : List (String × α)} {name : String} {x : α},
      Text.IsPlainName name → (name, x) ∈ vocabulary → (Text.plainName name, x) ∈ vocabulary :=
    fun hname hmem => (Text.plainName_eq_self hname).symm ▸ hmem
  rw [eq_spelling_of_emits h]
  cases v with
  | mode =>
    have hmode : ∀ m : Mode, Text.IsPlainName m.name ∧ (m.name, m) ∈ Mode.vocabulary := fun m => by
      cases m <;> decide
    exact hlisted (hmode c.mode).1 (hmode c.mode).2
  | capacity => exact isCapacity_text c.initialCapacity.toNat
  | trackMemory =>
    have hflag : ∀ b : Bool, Text.IsPlainName (if b then "true" else "false") ∧
        ((if b then "true" else "false"), b) ∈ flagVocabulary := by decide
    exact hlisted (hflag c.trackMemory).1 (hflag c.trackMemory).2
  | normalization =>
    have hkind : ∀ k : Normalization, Text.IsPlainName k.name ∧
        (k.name, k) ∈ Normalization.vocabulary := fun k => by cases k <;> decide
    exact hlisted (hkind c.normalization).1 (hkind c.normalization).2

/-! ### Overriding -/

/-- A text means one thing for a variable. -/
theorem eq_of_means {x y : v.Value} (hx : v.Means raw x) (hy : v.Means raw y) : x = y :=
  Option.some.inj ((Variable.read?_eq_some_iff.2 hx).symm.trans (Variable.read?_eq_some_iff.2 hy))

/-- Configurations that agree for every variable are equal. -/
theorem ext_of (h : ∀ v : Variable, v.of c = v.of d) : c = d := by
  obtain ⟨m, n, b, k⟩ := c
  obtain ⟨m', n', b', k'⟩ := d
  obtain rfl : m = m' := h .mode
  obtain rfl : n = n' := h .capacity
  obtain rfl : b = b' := h .trackMemory
  obtain rfl : k = k' := h .normalization
  rfl

section Overriding

variable (hsource : ∀ (v : Variable) (raw : String), source v.name = some raw → c.Emits v raw)

include hsource

/-- All that is written is acceptable. -/
theorem acceptable_of_emits (v : Variable) : v.Acceptable source :=
  fun raw hraw => .inl ⟨_, means_of_emits (hsource v raw hraw)⟩

/-- Variables with what was written of `c` set what `c` has, and the others nothing. -/
theorem of_applyOverrides_of_emits (d : Config) (v : Variable) :
    v.of (d.applyOverrides source).config =
      if (source v.name).isSome then v.of c else v.of d := by
  have hsets : v.Sets source d (d.applyOverrides source).config := by
    rw [(applyOverrides_of_acceptable (acceptable_of_emits hsource)).1]
    exact Variable.sets_foldl_set Variable.nodup_all v.mem_all
  rw [Variable.Sets] at hsets
  cases hv : source v.name with
  | none =>
    rw [hv] at hsets
    exact hsets
  | some raw =>
    rw [hv] at hsets
    have hmeans := means_of_emits (hsource v raw hv)
    rcases hsets with h | ⟨hnone, -⟩
    · exact eq_of_means h hmeans
    · exact absurd hmeans (hnone _)

/-- Nothing but the capacity that comes of it can be refused. -/
theorem verdict_of_emits (d : Config)
    (h : (d.applyOverrides source).config.initialCapacity.toNat ≤ 2 ^ 24) :
    (d.applyOverrides source).verdict = .ok () :=
  verdict_eq_ok_iff.2 ⟨acceptable_of_emits hsource, h⟩

end Overriding

end Config

/-! ### Main statement -/

/-- Each kind of names is read as it should, and all that is written with them. -/
theorem names_read : NamesRead where
  mode := Text.readsNames_of_vocabulary (by decide) (by decide) Mode.mem_vocabulary Mode.read_eq
    (fun _ _ h => Except.ok.inj h) nofun
  normalization := Text.readsNames_of_vocabulary (by decide) (by decide)
    Normalization.mem_vocabulary Normalization.read_eq (fun _ _ h => Except.ok.inj h) nofun
  flag := Text.readsNames_of_vocabulary (by decide) (by decide) mem_flagVocabulary readFlag?_eq
    (fun _ _ h => Option.some.inj h) nofun
  overrides c d source hc hsource := by
    have hof := Config.of_applyOverrides_of_emits hsource d
    refine ⟨hof, fun hd => Config.verdict_of_emits hsource d ?_⟩
    have hcapacity : (d.applyOverrides source).config.initialCapacity =
        if (source Variable.capacity.name).isSome then c.initialCapacity else d.initialCapacity :=
      hof .capacity
    rw [hcapacity]
    split
    · exact hc
    · exact hd
  replaces c d source hc hall := by
    have hsource : ∀ (v : Variable) (raw : String), source v.name = some raw → c.Emits v raw := by
      intro v raw hraw
      obtain ⟨raw', hraw', hemits⟩ := hall v
      exact Option.some.inj (hraw'.symm.trans hraw) ▸ hemits
    have hconfig : (d.applyOverrides source).config = c := by
      refine Config.ext_of fun v => ?_
      obtain ⟨raw, hraw, -⟩ := hall v
      rw [Config.of_applyOverrides_of_emits hsource d v, hraw, Option.isSome_some, if_pos rfl]
    exact ⟨hconfig, Config.verdict_of_emits hsource d (hconfig.symm ▸ hc)⟩

/-- A mode between wide blanks, a sign that only looks like a letter, a blank inside a word, and a
configuration that is written into an environment and read over one that is not valid. -/
theorem names_read_overwritten :
    let c : Config := ⟨.retaining, 16777216, true, .asciiCaseFold⟩
    let d : Config := { initialCapacity := 16777217 }
    Mode.read ("\u3000\t" ++ "StRoNg" ++ "\u00a0") = .ok .retaining ∧
      (∀ m, Mode.read "wea\u212a" ≠ .ok m) ∧ (∀ b, readFlag? "o n" ≠ some b) ∧
      (d.applyOverrides c.written).config = c ∧ (d.applyOverrides c.written).verdict = .ok () := by
  intro c d
  have hread := names_read
  have halike := hread.mode.alike "strong" "StRoNg" "\u3000\t" "\u00a0"
    (List.all_eq_true.1 (by decide)) (List.all_eq_true.1 (by decide))
    (Text.forall₂_caseVariant_iff.2 (by decide))
  refine ⟨halike.trans (by decide +kernel), fun m hm => ?_, fun b hb => ?_, ?_⟩
  · have hsign := (hread.mode.plain _ m _ hm (Text.stripped_trimmed _) '\u212a' (by decide)).1
    exact absurd hsign (by decide)
  · have hblank := (hread.flag.plain _ b _ hb (Text.stripped_trimmed _) ' ' (by decide)).2
    exact absurd hblank (by decide)
  · exact hread.replaces c d c.written (by decide) fun v =>
      ⟨_, c.written_name v, c.emits_spelling v⟩

end Interning
