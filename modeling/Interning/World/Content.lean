import Interning.Text.Order
import Interning.World

/-!
# Handles by content

Handles compare by the texts of their instances; whether they are the same instance is only a
shorter way to find out that the texts are equal.

    w.sameContent i j = (w.text i == w.text j)                        (sameContent_eq)
-/

namespace Interning.World

/-! ## Algorithm -/

/-- Whether two handles have the same content; the same instance has. -/
def sameContent (w : World) (i j : InstanceId) : Bool := i == j || w.text i == w.text j

def compareContent (w : World) (i j : InstanceId) : Ordering :=
  Text.compareBytes (w.text i) (w.text j)

/-- Whether a set of handles has one of the given text; the texts are compared only where the hashes
agree. -/
def hasText (w : World) (hash : List UInt8 → UInt64) (set : List InstanceId) (s : String) : Bool :=
  set.any fun i => hash (Text.hashFeed (w.text i)) == hash (Text.hashFeed s) && w.text i == s

/-- Puts a handle into a set, unless one of the same content is there; the contents are compared
only where the hashes agree. -/
def insertContent (w : World) (hash : List UInt8 → UInt64) (set : List InstanceId)
    (i : InstanceId) : List InstanceId :=
  let present := set.any fun j =>
    hash (Text.hashFeed (w.text j)) == hash (Text.hashFeed (w.text i)) && w.sameContent j i
  if present then set else set ++ [i]

def contentSet (w : World) (hash : List UInt8 → UInt64) (is : List InstanceId) :
    List InstanceId :=
  is.foldl (w.insertContent hash) []

def sortContent (w : World) (is : List InstanceId) : List InstanceId :=
  is.mergeSort fun i j => (w.compareContent i j).isLE

/-- A handle of the greatest content. -/
def greatest? (w : World) : List InstanceId → Option InstanceId
  | [] => none
  | i :: is => some (is.foldl (fun best j => if (w.compareContent best j).isLE then j else best) i)

/-- Makes an unregistered instance of each text. -/
def createAll (texts : List String) (w : World) : List InstanceId × World :=
  match texts with
  | [] => ([], w)
  | s :: rest =>
    let (i, w) := w.create s
    let (is, w) := w.createAll rest
    (i :: is, w)

/-! ## Lemmas -/

/-- Being the same instance adds nothing to having equal texts. -/
theorem sameContent_eq (w : World) (i j : InstanceId) :
    w.sameContent i j = (w.text i == w.text j) := by
  rw [sameContent]
  by_cases h : i = j
  · simp [h]
  · simp [h]

end Interning.World
