import Interning.Text.Blank
import Interning.Text.CaseFold

/-!
# Names of settings

A name is read without the blank characters around it and without regard to ASCII case.  A
vocabulary lists the accepted names with what they mean.
-/

namespace Interning.Text

/-- The name as the vocabularies list it: trimmed, ASCII letters in lower case. -/
def plainName (raw : String) : String := foldCase (trim raw)

/-- What `raw` means in a vocabulary; the plain name itself when it is not listed. -/
def readName {α : Type} (vocabulary : List (String × α)) (raw : String) : Except String α :=
  match vocabulary.lookup (plainName raw) with
  | some meaning => .ok meaning
  | none => .error (plainName raw)

end Interning.Text
