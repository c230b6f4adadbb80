import Interning.Layout
import Mathlib.Data.List.Induction

/-!
# Lawful codecs

What has to be known of a codec is how it goes from one text to the next: a text without fields is
read as the defaults, and a text with one field more is read as before but for that field.  So it
reads from any text the record that the entries make one after the other.

    codec.Lawful text: the laws, for the format that writes entries as `text` does
    l.Fits entries → codec.read l (text entries) = some (l.fill entries)                (read_text)
    a codec that does so is lawful                                             (lawful_of_read)
-/

namespace Interning

/-! ## Algorithm -/

/-- Whether `c` stands in names without capitals: small letters, digits and the underscore. -/
def isNameChar (c : Char) : Bool := c.isLower || c.isDigit || c == '_'

def isPlainName (s : String) : Bool := s != "" && s.toList.all isNameChar

def Scalar.isPlain : Scalar → Bool
  | .name s => isPlainName s
  | .flag _ | .word _ => true

/-- Whether all names in an entry are plain. -/
def isPlainEntry (e : String × Scalar) : Bool := isPlainName e.1 && e.2.isPlain

namespace Layout

variable {α : Type}

/-- What a value changes in a record, if the field may have it. -/
def Kind.take? : Kind α → Scalar → Option (α → α)
  | .choice names, .name s => names.lookup s
  | .flag set, .flag b => some (set b)
  | .word set, .word n => some (set n)
  | _, _ => none

/-- The entries are values of fields, each field given once at most. -/
structure Fits (l : Layout α) (entries : List (String × Scalar)) : Prop where
  once : (entries.map Prod.fst).Nodup
  plain : ∀ e ∈ entries, isPlainEntry e = true
  taken : ∀ e ∈ entries, ∃ f ∈ l.fields, f.name = e.1 ∧ ∃ set, f.kind.take? e.2 = some set

/-- What an entry changes in a record. -/
def change (l : Layout α) (e : String × Scalar) : α → α :=
  ((l.fields.find? (·.name == e.1)).bind fun f => f.kind.take? e.2).getD id

/-- The record that the entries make of the defaults. -/
def fill (l : Layout α) (entries : List (String × Scalar)) : α :=
  entries.foldl (fun a e => l.change e a) l.defaults

end Layout

/-- What is documented of a codec for the format that writes entries as `text` does. -/
structure Codec.Lawful (codec : Codec) (text : List (String × Scalar) → String) : Prop where
  written : ∀ {α : Type} (l : Layout α) (entries : List (String × Scalar)), l.Fits entries →
    codec.write entries = text entries
  /-- A field that is not given has its default. -/
  absent : ∀ {α : Type} (l : Layout α), codec.read l (text []) = some l.defaults
  /-- One field more is read as its value, and the others as before. -/
  present : ∀ {α : Type} (l : Layout α) (entries : List (String × Scalar)) (f : Layout.Field α)
    (v : Scalar) (set : α → α) (a : α), l.Fits (entries ++ [(f.name, v)]) → f ∈ l.fields →
      f.kind.take? v = some set → codec.read l (text entries) = some a →
        codec.read l (text (entries ++ [(f.name, v)])) = some (set a)

/-! ## Lemmas -/

/-! ### Layouts -/

namespace Layout

variable {α : Type} {l : Layout α} {entries : List (String × Scalar)} {e : String × Scalar}
  {f : Field α} {v : Scalar} {set : α → α}

/-- A field has values of its own kind only. -/
theorem Kind.take?_cases {k : Kind α} (h : k.take? v = some set) :
    (∃ names s, k = .choice names ∧ v = .name s ∧ names.lookup s = some set) ∨
    (∃ f b, k = .flag f ∧ v = .flag b ∧ set = f b) ∨
    (∃ f n, k = .word f ∧ v = .word n ∧ set = f n) := by
  cases k with
  | choice names =>
    cases v with
    | name s => exact .inl ⟨names, s, rfl, rfl, h⟩
    | flag b => cases h
    | word n => cases h
  | flag f =>
    cases v with
    | name s => cases h
    | flag b => exact .inr (.inl ⟨f, b, rfl, rfl, (Option.some.inj h).symm⟩)
    | word n => cases h
  | word f =>
    cases v with
    | name s => cases h
    | flag b => cases h
    | word n => exact .inr (.inr ⟨f, n, rfl, rfl, (Option.some.inj h).symm⟩)

/-- A field is found by its name. -/
theorem find?_name (hf : f ∈ l.fields) : l.fields.find? (·.name == f.name) = some f := by
  have hfind : ∀ fs : List (Field α), (fs.map Field.name).Nodup → f ∈ fs →
      fs.find? (·.name == f.name) = some f := by
    intro fs
    induction fs with
    | nil => exact fun _ h => absurd h List.not_mem_nil
    | cons g fs ih =>
      intro hn hf
      rw [List.map_cons, List.nodup_cons] at hn
      rcases List.mem_cons.1 hf with rfl | hf
      · exact List.find?_cons_of_pos (beq_self_eq_true f.name)
      · have hne : (g.name == f.name) = false := by
          apply beq_false_of_ne
          intro h
          apply hn.1
          rw [h]
          exact List.mem_map_of_mem hf
        rw [List.find?_cons, hne]
        exact ih hn.2 hf
  exact hfind l.fields l.distinct hf

theorem change_eq (hf : f ∈ l.fields) (hset : f.kind.take? v = some set) :
    l.change (f.name, v) = set := by
  unfold change
  rw [find?_name hf, Option.bind_some, hset, Option.getD_some]

theorem fill_concat : l.fill (entries ++ [e]) = l.change e (l.fill entries) := by
  simp [fill]

theorem fits_nil : l.Fits [] := ⟨List.nodup_nil, by simp, by simp⟩

theorem Fits.of_concat (h : l.Fits (entries ++ [e])) : l.Fits entries where
  once := by
    have hn := h.once
    rw [List.map_append, List.nodup_append] at hn
    exact hn.1
  plain e' he' := h.plain e' (List.mem_append_left _ he')
  taken e' he' := h.taken e' (List.mem_append_left _ he')

end Layout

/-! ### Codecs -/

namespace Codec

variable {codec : Codec} {text : List (String × Scalar) → String}

/-- From the text of entries that fit, the record that they make is read. -/
theorem Lawful.read_text {α : Type} {l : Layout α} {entries : List (String × Scalar)}
    (h : codec.Lawful text) (hfits : l.Fits entries) :
    codec.read l (text entries) = some (l.fill entries) := by
  induction entries using List.reverseRecOn with
  | nil => exact h.absent l
  | append_singleton entries e ih =>
    obtain ⟨name, v⟩ := e
    obtain ⟨f, hf, rfl, set, hset⟩ := hfits.taken _ List.mem_concat_self
    have hread := ih hfits.of_concat
    rw [Layout.fill_concat, Layout.change_eq hf hset]
    exact h.present l entries f v set _ hfits hf hset hread

theorem lawful_of_read
    (hwrite : ∀ entries, codec.write entries = text entries)
    (hread : ∀ {α : Type} (l : Layout α) (entries : List (String × Scalar)), l.Fits entries →
      codec.read l (text entries) = some (l.fill entries)) : codec.Lawful text where
  written _ entries _ := hwrite entries
  absent l := hread l [] Layout.fits_nil
  present l entries f v set a hfits hf hset ha := by
    rw [hread l entries hfits.of_concat, Option.some_inj] at ha
    rw [hread l _ hfits, Layout.fill_concat, Layout.change_eq hf hset, ha]

end Codec

end Interning
