import Interning.Error
import Interning.Text.Name

/-!
# Normalizers

A normalizer turns a value into the key it is stored under.  It is any function; nothing is asked
of it but that it answers each text in one way.

    (Normalization.verbatim.normalizer).key s = s                         (key_verbatim)
    (Normalization.asciiCaseFold.normalizer).key s = Text.foldCase s or s itself
-/

namespace Interning

/-! ## Algorithm -/

/-- The key of a value. -/
inductive Key
  /-- The value itself, nothing copied. -/
  | borrowed
  /-- A text made for the purpose. -/
  | made (text : String)
  deriving DecidableEq, Repr

def Key.text (value : String) : Key → String
  | borrowed => value
  | made text => text

/-- A way to turn values into keys. -/
structure Normalizer where
  /-- The key of a value. -/
  keyOf : String → Key

namespace Normalizer

def key (f : Normalizer) (value : String) : String := (f.keyOf value).text value

/-- Whether the key is the value itself, nothing copied. -/
def borrows (f : Normalizer) (value : String) : Bool := f.keyOf value == .borrowed

/-- Every value is its own key. -/
def verbatim : Normalizer := ⟨fun _ => .borrowed⟩

/-- Keys without regard to ASCII case; a value without upper-case ASCII letters is its own key. -/
def asciiCaseFold : Normalizer :=
  ⟨fun value => if Text.hasUpper value then .made (Text.foldCase value) else .borrowed⟩

/-- The normalizer that a host's function gives; it always makes a new text. -/
def ofFunction (f : String → String) : Normalizer := ⟨fun value => .made (f value)⟩

def functionLabel : String := "FnNormalizer"

end Normalizer

/-- The normalizers that a configuration can name. -/
inductive Normalization
  | verbatim
  | asciiCaseFold
  deriving DecidableEq, Repr, Inhabited

namespace Normalization

def normalizer : Normalization → Normalizer
  | verbatim => .verbatim
  | asciiCaseFold => .asciiCaseFold

def name : Normalization → String
  | verbatim => "verbatim"
  | asciiCaseFold => "ascii_case_fold"

def all : List Normalization := [verbatim, asciiCaseFold]

/-- The names a normalization may be asked for by. -/
def vocabulary : List (String × Normalization) :=
  [("verbatim", verbatim), ("exact", verbatim), ("ascii_case_fold", asciiCaseFold),
   ("ascii-case-fold", asciiCaseFold), ("case_fold", asciiCaseFold)]

def read (raw : String) : Except Error Normalization :=
  (Text.readName vocabulary raw).mapError .unknownNormalization

end Normalization

/-! ## Lemmas -/

@[simp]
theorem Normalizer.key_verbatim (s : String) : verbatim.key s = s := rfl

@[simp]
theorem Normalizer.key_ofFunction (f : String → String) (s : String) :
    (ofFunction f).key s = f s := rfl

end Interning
