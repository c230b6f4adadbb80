import Interning.Config.Toml
import Interning.Json.Forms
import Interning.Proofs.Json.Members
import Interning.Proofs.Toml.Lines
import Mathlib.Data.List.Nodup

/-!
# Configurations written and read back

Some settings of a configuration, written as lines of a TOML document or as members of a JSON object
in any order, are read as the configuration that has them and the default of every other one.  Of a
TOML document the capacity is checked, of JSON it is not.  All that the codecs need for this is to be
lawful.

    c.onto settings d takes the settings from c and the rest from d
    the entries of some settings make of the defaults what `onto` takes            (fill_entries)
    a lawful codec reads them so, whatever the format                         (read_entries)
    all of it for every configuration and all lawful codecs                         (reads_back)
-/

namespace Interning

/-! ## Algorithm -/

namespace Config

/-- The configuration `d` with some settings as `c` has them. -/
def onto (c : Config) (settings : List Setting) (d : Config) : Config where
  mode := if .mode ∈ settings then c.mode else d.mode
  initialCapacity := if .initialCapacity ∈ settings then c.initialCapacity else d.initialCapacity
  trackMemory := if .trackMemory ∈ settings then c.trackMemory else d.trackMemory
  normalization := if .normalization ∈ settings then c.normalization else d.normalization

/-- What is written of a configuration is what is read of it. -/
structure ReadsBack (toml json : Codec) (c : Config) : Prop where
  /-- Lines of some settings are read as these settings and the default of the others, if the
  capacity is not too large. -/
  lines : ∀ settings : List Setting, settings.Nodup →
    (c.onto settings {}).initialCapacity ≤ maxInitialCapacity →
      fromToml toml (c.settingsToml settings) = .ok (c.onto settings {})
  /-- Lines with a capacity that is too large are refused for it. -/
  tooLarge : ∀ settings : List Setting, settings.Nodup →
    maxInitialCapacity < (c.onto settings {}).initialCapacity →
      ∃ e, fromToml toml (c.settingsToml settings) = .error e ∧ e.kind = .config
  /-- An object of some settings is read as these settings and the default of the others. -/
  object : ∀ settings : List Setting, settings.Nodup →
    fromJson json (c.settingsJson settings).compact = .ok (c.onto settings {})
  /-- A configuration that is accepted is read from the document that is written of it. -/
  document : c.validate = .ok () → fromToml toml (c.encode toml) = .ok c
  /-- Every configuration is read from the object that is written of it. -/
  wholeObject : fromJson json (c.encode json) = .ok c
  /-- Only configurations that are accepted are read from documents. -/
  accepted : ∀ text, fromToml toml text = .ok c → c.validate = .ok ()

end Config

/-! ## Lemmas -/

namespace Config

variable (c d : Config) {settings : List Setting}

/-! ### Settings taken over -/

theorem onto_cons (s : Setting) (settings : List Setting) :
    c.onto (s :: settings) d = c.onto settings (c.onto [s] d) := by
  have hfield : ∀ {α : Type} (t : Setting) (x y : α),
      (if t ∈ s :: settings then x else y) =
        if t ∈ settings then x else if t ∈ [s] then x else y := by
    intro α t x y
    by_cases h : t ∈ settings
    · rw [if_pos h, if_pos (List.mem_cons_of_mem s h)]
    · rw [if_neg h]
      simp [List.mem_cons, h]
  simp only [onto, hfield]

theorem onto_all : c.onto Setting.all d = c := rfl

theorem mem_all (s : Setting) : s ∈ Setting.all := by cases s <;> decide

theorem nodup_all : Setting.all.Nodup := by decide

theorem name_inj {s s' : Setting} (h : s.name = s'.name) : s = s' := by
  cases s <;> cases s' <;> first | rfl | exact absurd h (by decide)

/-! ### Entries -/

theorem settingField_mem (s : Setting) : settingField s ∈ layout.fields :=
  List.mem_map_of_mem (mem_all s)

/-- A setting has a value that its field may have, and that is all it changes. -/
theorem take?_value (s : Setting) : (settingKind s).take? (c.value s) = some (c.onto [s]) := by
  have hmode : ∀ m : Mode, (Mode.all.map fun m =>
      (m.name, fun c : Config => { c with mode := m })).lookup m.name =
        some fun c : Config => { c with mode := m } := by
    intro m
    cases m <;> rfl
  have hkind : ∀ k : Normalization, (Normalization.all.map fun k =>
      (k.name, fun c : Config => { c with normalization := k })).lookup k.name =
        some fun c : Config => { c with normalization := k } := by
    intro k
    cases k <;> rfl
  cases s with
  | mode => exact hmode c.mode
  | initialCapacity => rfl
  | trackMemory => rfl
  | normalization => exact hkind c.normalization

theorem isPlainEntry_value (s : Setting) : isPlainEntry (s.name, c.value s) = true := by
  have hmode : ∀ m : Mode, isPlainName m.name = true := by
    intro m
    cases m <;> decide
  have hkind : ∀ k : Normalization, isPlainName k.name = true := by
    intro k
    cases k <;> decide
  have hname : isPlainName s.name = true := by
    cases s <;> decide
  have hvalue : (c.value s).isPlain = true := by
    cases s with
    | mode => exact hmode c.mode
    | initialCapacity => rfl
    | trackMemory => rfl
    | normalization => exact hkind c.normalization
  rw [isPlainEntry, hname, hvalue, Bool.and_self]

theorem fits_entries (hn : settings.Nodup) : layout.Fits (c.entries settings) where
  once := by
    have hnames : (c.entries settings).map Prod.fst = settings.map Setting.name := by
      rw [entries, List.map_map]
      rfl
    rw [hnames]
    exact List.Nodup.map (fun _ _ h => name_inj h) hn
  plain e he := by
    obtain ⟨s, -, rfl⟩ := List.mem_map.1 he
    exact c.isPlainEntry_value s
  taken e he := by
    obtain ⟨s, -, rfl⟩ := List.mem_map.1 he
    exact ⟨settingField s, settingField_mem s, rfl, _, c.take?_value s⟩

/-- Entry by entry, the settings are taken over. -/
theorem fill_entries (settings : List Setting) :
    layout.fill (c.entries settings) = c.onto settings {} := by
  have hchange : ∀ s, layout.change (s.name, c.value s) = c.onto [s] := fun s =>
    Layout.change_eq (settingField_mem s) (c.take?_value s)
  have hfold : ∀ d, (c.entries settings).foldl (fun a e => layout.change e a) d =
      c.onto settings d := by
    induction settings with
    | nil => exact fun d => rfl
    | cons s settings ih =>
      intro d
      show (c.entries settings).foldl _ (layout.change (s.name, c.value s) d) = _
      rw [ih, hchange, c.onto_cons d s settings]
  exact hfold {}

/-! ### Codecs -/

variable {codec : Codec} {text : List (String × Scalar) → String}

/-- A lawful codec reads some settings as these settings and the default of the others. -/
theorem read_entries (h : codec.Lawful text) (hn : settings.Nodup) :
    codec.read layout (text (c.entries settings)) = some (c.onto settings {}) := by
  rw [h.read_text (c.fits_entries hn), fill_entries]

/-- What a lawful codec writes is read as it was. -/
theorem read_encode (h : codec.Lawful text) : codec.read layout (c.encode codec) = some c := by
  rw [encode, h.written layout _ (c.fits_entries nodup_all), c.read_entries h nodup_all, onto_all]

theorem fromToml_of_read {c : Config} {s : String} (h : codec.read layout s = some c) :
    fromToml codec s = c.checked := by
  rw [fromToml, h]

theorem fromJson_of_read {c : Config} {s : String} (h : codec.read layout s = some c) :
    fromJson codec s = .ok c := by
  rw [fromJson, h]

/-- Lines of some settings are read as these settings, and the capacity is checked. -/
theorem fromToml_settings (h : codec.Lawful Toml.entryText) (hn : settings.Nodup) :
    fromToml codec (c.settingsToml settings) = (c.onto settings {}).checked :=
  fromToml_of_read (c.read_entries h hn)

theorem checked_of_validate {c : Config} (h : c.validate = .ok ()) : c.checked = .ok c := by
  rw [checked, h]
  rfl

theorem validate_of_checked {c d : Config} (h : d.checked = .ok c) : c.validate = .ok () := by
  rw [checked] at h
  cases hv : d.validate with
  | error e =>
    rw [hv] at h
    cases h
  | ok u =>
    rw [hv] at h
    obtain rfl := Except.ok.inj h
    exact hv

/-! ### Main statement -/

/-- What is written of a configuration is what is read of it, whatever settings are written and in
whatever order. -/
theorem reads_back {toml json : Codec} (htoml : toml.Lawful Toml.entryText)
    (hjson : json.Lawful Json.entryText) (c : Config) : c.ReadsBack toml json where
  lines settings hn hc := by
    rw [c.fromToml_settings htoml hn]
    exact checked_of_validate (validate_eq_ok_iff.2 hc)
  tooLarge settings hn hc := by
    refine ⟨.capacityTooLarge (c.onto settings {}).initialCapacity maxInitialCapacity, ?_, rfl⟩
    rw [c.fromToml_settings htoml hn, checked, validate, if_pos hc]
    rfl
  object settings hn := fromJson_of_read (c.read_entries hjson hn)
  document hc := by
    rw [fromToml_of_read (c.read_encode htoml)]
    exact checked_of_validate hc
  wholeObject := fromJson_of_read (c.read_encode hjson)
  accepted text h := by
    unfold fromToml at h
    split at h
    · exact validate_of_checked h
    · cases h

/-- Two settings out of order are read from their lines; a capacity above the greatest signed word
is refused in a document and read from an object. -/
theorem reads_back_reordered :
    let c : Config := ⟨.retaining, 9223372036854775808, true, .asciiCaseFold⟩
    c.ReadsBack Toml.codec Json.codec ∧
      c.settingsToml [.normalization, .mode] =
        "normalization = \"ascii_case_fold\"\nmode = \"retaining\"\n" ∧
      ofToml "normalization = \"ascii_case_fold\"\nmode = \"retaining\"\n" =
        .ok ⟨.retaining, 256, false, .asciiCaseFold⟩ ∧
      (∃ e, ofToml c.toToml = .error e ∧ e.kind = .config) ∧ ofJson c.toJson.compact = .ok c := by
  intro c
  have hback := reads_back Toml.lawful_codec Json.lawful_codec c
  have htext : c.settingsToml [.normalization, .mode] =
      "normalization = \"ascii_case_fold\"\nmode = \"retaining\"\n" := by decide +kernel
  have hlines := hback.lines [.normalization, .mode] (by decide) (by decide)
  rw [htext] at hlines
  exact ⟨hback, htext, hlines, hback.tooLarge Setting.all (by decide) (by decide),
    hback.wholeObject⟩

end Config

end Interning
