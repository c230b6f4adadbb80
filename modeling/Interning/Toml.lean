/-!
# TOML values

A `Toml` is a value as a document holds it.  Of floats and dates only the text is kept.
-/

namespace Interning

inductive Toml
  | string (s : String)
  | integer (n : Int)
  | float (text : String)
  | boolean (b : Bool)
  | datetime (text : String)
  | array (items : List Toml)
  | table (entries : List (String × Toml))
  deriving Repr, Inhabited

end Interning
