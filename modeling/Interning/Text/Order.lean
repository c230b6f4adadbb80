/-!
# The order of texts

Texts are compared by their UTF-8 bytes.

    compareBytes s t = .eq when s = t                    (compareBytes_self)
-/

namespace Interning.Text

/-! ## Algorithm -/

/-- The UTF-8 bytes of a text. -/
def bytes (s : String) : List UInt8 := s.toByteArray.data.toList

/-- Compares two texts byte by byte; a text comes before those that continue it. -/
def compareBytes (s t : String) : Ordering := (bytes s).compareLex compare (bytes t)

def ascending (texts : List String) : List String :=
  texts.mergeSort fun s t => (compareBytes s t).isLE

/-- What a text feeds to a hasher: its bytes and a byte that occurs in no text. -/
def hashFeed (s : String) : List UInt8 := bytes s ++ [0xFF]

/-! ## Lemmas -/

theorem bytes_inj {s t : String} : bytes s = bytes t ↔ s = t := by
  refine ⟨fun h => ?_, fun h => h ▸ rfl⟩
  apply String.toByteArray_inj.1
  exact ByteArray.ext (Array.toList_inj.1 h)

theorem hashFeed_inj {s t : String} : hashFeed s = hashFeed t ↔ s = t := by
  rw [← bytes_inj, hashFeed, hashFeed, List.append_left_inj]

theorem compareBytes_self (s : String) : compareBytes s s = .eq := by
  unfold compareBytes
  induction bytes s with
  | nil => rfl
  | cons b bs ih => simp [List.compareLex, ih]

end Interning.Text
