import Interning.Json.Codec
import Interning.Proofs.Layout
import Interning.Proofs.Text.Decimal
import Mathlib.Data.List.TakeDrop

/-!
# Reading what was written as JSON

A string, a word and a truth value are read back from their compact text, whatever follows them, and
so is a record from the object of some of its fields, in any order.

    string? (quoted s ++ rest) = some (s, rest)                            (string?_quoted)
    word? ((word n).chars ++ rest) = some (n, rest) if no digit follows      (word?_word)
    a record is read from members that are written as its fields are read  (read_members)
    so the codec of objects is lawful                                      (lawful_codec)
-/

namespace Interning.Json

/-! ## Algorithm -/

/-- A member of an object that is a field of a record, with what it does to the record. -/
structure Member (α : Type) where
  name : String
  value : Json
  set : α → α

namespace Member

variable {α : Type}

def pair (m : Member α) : String × Json := (m.name, m.value)

/-- The record has a field of this name, which reads the value. -/
def Written (r : Record α) (m : Member α) : Prop :=
  ∃ f, r.fields.find? (·.name == m.name) = some f ∧
    ∀ d rest, d = ',' ∨ d = '\x7d' → f.read (m.value.chars ++ d :: rest) = some (m.set, d :: rest)

end Member

def member {α : Type} (l : Layout α) (e : String × Scalar) : Member α :=
  ⟨e.1, e.2.toJson, l.change e⟩

/-! ## Lemmas -/

theorem mark_self {c : Char} (hc : isSpace c = false) (rest : List Char) :
    mark c (c :: rest) = some rest := by
  simp [mark, skipSpace, hc]

theorem mark_of_ne {c d : Char} (hd : isSpace d = false) (h : d ≠ c) (rest : List Char) :
    mark c (d :: rest) = none := by
  simp [mark, skipSpace, hd, h]

/-! ### Strings -/

/-- A control character has a short escape, or the digits of its escape denote it. -/
theorem escaped_control : ∀ n, n < 0x20 → ∃ e rest, escaped (Char.ofNat n) = '\\' :: e :: rest ∧
    ((e ≠ 'u' ∧ rest = [] ∧ shortEscape? e = some (Char.ofNat n)) ∨
      (e = 'u' ∧ rest.length = 4 ∧ Text.Hex.read? rest = some n)) := by
  -- The characters are computed, as a quantifier over all characters could not be decided.
  let mark (n : Nat) : Char := (escaped (Char.ofNat n)).getD 1 '\\'
  let digits (n : Nat) : List Char := (escaped (Char.ofNat n)).drop 2
  have h : ∀ n, n < 0x20 → escaped (Char.ofNat n) = '\\' :: mark n :: digits n ∧
      ((mark n ≠ 'u' ∧ digits n = [] ∧ shortEscape? (mark n) = some (Char.ofNat n)) ∨
        (mark n = 'u' ∧ (digits n).length = 4 ∧ Text.Hex.read? (digits n) = some n)) := by
    decide +kernel
  exact fun n hn => ⟨mark n, digits n, h n hn⟩

/-- A character is written for itself, or as an escape that is read as the character. -/
theorem escaped_cases (c : Char) :
    (escaped c = [c] ∧ c ≠ '"' ∧ c ≠ '\\' ∧ ¬c.toNat < 0x20) ∨
      ∃ es, escaped c = '\\' :: es ∧ ∀ rest, escape? (es ++ rest) = some (c, es.length) := by
  by_cases hq : c = '"'
  · subst hq
    exact .inr ⟨['"'], rfl, fun rest => rfl⟩
  by_cases hb : c = '\\'
  · subst hb
    exact .inr ⟨['\\'], rfl, fun rest => rfl⟩
  by_cases hctl : c.toNat < 0x20
  · obtain ⟨e, ds, hc, h⟩ := escaped_control c.toNat hctl
    rw [Char.ofNat_toNat] at hc h
    refine .inr ⟨e :: ds, hc, fun rest => ?_⟩
    rcases h with ⟨he, rfl, hs⟩ | ⟨rfl, hl, hr⟩
    · rw [List.cons_append, escape?]
      · rw [hs]
        rfl
      · exact he
    · have htake : (ds ++ rest).take 4 = ds := by rw [← hl, List.take_left]
      have hfront : Text.Hex.front? 4 (ds ++ rest) = some c.toNat := by
        rw [Text.Hex.front?, htake, if_pos hl, hr]
      have hfirst : c.toNat < 0xD800 ∨ 0xDFFF < c.toNat := .inl (by omega)
      rw [List.cons_append, escape?]
      simp only [hfront, if_pos hfirst, Char.ofNat_toNat, List.length_cons, hl]
  · refine .inl ⟨?_, hq, hb, hctl⟩
    have hne : ∀ d : Char, d.toNat < 0x20 → c ≠ d := by
      rintro d hd rfl
      exact hctl hd
    rw [escaped, if_neg hq, if_neg hb, if_neg (hne _ (by decide)), if_neg (hne _ (by decide)),
      if_neg (hne _ (by decide)), if_neg (hne _ (by decide)), if_neg (hne _ (by decide)),
      if_neg (by omega), if_neg hctl]

theorem stringTail_length (es rest : List Char) :
    stringTail es.length (es ++ rest) = stringTail 0 rest := by
  induction es with
  | nil => rfl
  | cons e es ih => exact ih

theorem stringTail_escaped (c : Char) (rest : List Char) :
    stringTail 0 (escaped c ++ rest) = (stringTail 0 rest).map fun s => (c :: s.1, s.2) := by
  rcases escaped_cases c with ⟨hc, hq, hb, hctl⟩ | ⟨es, hc, hes⟩
  · rw [hc, List.cons_append, stringTail, if_neg hq, if_neg hb, if_neg hctl]
    rfl
  · rw [hc, List.cons_append, stringTail, if_neg (by decide), if_pos rfl, hes]
    simp only [stringTail_length]

/-- A written string is read back. -/
theorem string?_quoted (s : String) (rest : List Char) :
    string? (quoted s ++ rest) = some (s, rest) := by
  have htail : ∀ cs, stringTail 0 (cs.flatMap escaped ++ '"' :: rest) = some (cs, rest) := by
    intro cs
    induction cs with
    | nil => rfl
    | cons c cs ih =>
      rw [List.flatMap_cons, List.append_assoc, stringTail_escaped, ih]
      rfl
  have happ : quoted s ++ rest = '"' :: (s.toList.flatMap escaped ++ '"' :: rest) := by
    simp [quoted]
  rw [happ, string?, mark_self (by decide)]
  simp only [htail]
  exact congrArg (fun t => some (t, rest)) String.ofList_toList

/-- A variant is read from its written name. -/
theorem variant_quoted {α : Type} (names : List (String × α)) (s : String) (rest : List Char) :
    variant names (quoted s ++ rest) = (names.lookup s).map fun a => (a, rest) := by
  have hmark : mark '\x7b' (quoted s ++ rest) = none := mark_of_ne (by decide) (by decide) _
  rw [variant, hmark, string?_quoted]

/-! ### Words and truth values -/

theorem word?_word (n : UInt64) {d : Char} (hd : d.isDigit = false) (rest : List Char) :
    word? ((word n).chars ++ d :: rest) = some (n, d :: rest) := by
  have hchars : (word n).chars = Text.Decimal.write n.toNat := by
    rw [word, chars, numberChars, if_neg (by omega), Int.natAbs_natCast]
  have hdigits : digits (Text.Decimal.write n.toNat ++ d :: rest) =
      (Text.Decimal.write n.toNat, d :: rest) := by
    rw [digits, List.span_eq_takeWhile_dropWhile,
      List.takeWhile_append_of_pos fun c hc => Text.Decimal.isDigit_of_mem_write hc,
      List.dropWhile_append_of_pos fun c hc => Text.Decimal.isDigit_of_mem_write hc,
      List.takeWhile_cons, List.dropWhile_cons, hd]
    simp
  have hwhole : wholeDigits (Text.Decimal.write n.toNat ++ d :: rest) =
      some (Text.Decimal.write n.toNat, d :: rest) := by
    rw [wholeDigits, hdigits]
    rcases Text.Decimal.write_cases n.toNat with hw | ⟨c, ds, hw, hc⟩
    · rw [hw]
      rfl
    · rw [hw]
      split
      · next h => cases h
      · next h => exact absurd (List.cons.inj (Prod.mk.inj h).1).1 hc
      · next h => rw [← h]
  have hspace : skipSpace (Text.Decimal.write n.toNat ++ d :: rest) =
      Text.Decimal.write n.toNat ++ d :: rest := by
    obtain ⟨c, ds, hw⟩ := List.exists_cons_of_ne_nil (Text.Decimal.write_ne_nil n.toNat)
    have hc : c.isDigit = true := Text.Decimal.isDigit_of_mem_write (hw ▸ List.mem_cons_self)
    have hne : ∀ e : Char, e.isDigit = false → c ≠ e := fun e he =>
      Text.Decimal.isDigit_ne hc he
    have hsp : isSpace c = false := by
      simp [isSpace, hne ' ' (by decide), hne '\t' (by decide), hne '\n' (by decide),
        hne '\r' (by decide)]
    rw [hw, List.cons_append, skipSpace, List.dropWhile_cons, hsp]
    simp
  have hread : Nat.ofDigitChars 10 (Text.Decimal.write n.toNat) 0 = n.toNat :=
    Nat.ofDigitChars_toDigits (by decide) (by decide)
  rw [hchars, word?, hspace, hwhole]
  simp only [hread, if_pos n.toNat_lt_size]
  exact congrArg (fun m => some (m, d :: rest)) (UInt64.ofNat_toNat)

theorem bool?_bool (b : Bool) (rest : List Char) :
    bool? ((Json.bool b).chars ++ rest) = some (b, rest) := by
  cases b <;> rfl

/-! ### Records -/

variable {α : Type} {r : Record α} {ms : List (Member α)}

/-- The members of an object are read one after the other. -/
theorem readMembers_written (hms : ∀ m ∈ ms, m.Written r) (hne : ms ≠ [])
    (seen : List String) (hn : (ms.map Member.name).Nodup) (hseen : ∀ m ∈ ms, m.name ∉ seen)
    {fuel : Nat} (hf : ms.length ≤ fuel) (a : α) (rest : List Char) :
    r.readMembers fuel seen a (memberChars (ms.map Member.pair) ++ '\x7d' :: rest) =
      some (((ms.map Member.name).reverse ++ seen, ms.foldl (fun a m => m.set a) a), rest) := by
  induction ms generalizing seen fuel a with
  | nil => exact absurd rfl hne
  | cons m ms ih =>
    obtain ⟨fuel, rfl⟩ := Nat.exists_eq_succ_of_ne_zero
      (Nat.ne_of_gt (Nat.lt_of_lt_of_le (Nat.succ_pos _) hf))
    obtain ⟨f, hfind, hread⟩ := hms m List.mem_cons_self
    have hunseen : seen.contains m.name = false := by
      simpa using hseen m List.mem_cons_self
    rw [List.map_cons, List.nodup_cons] at hn
    cases ms with
    | nil =>
      have happ : memberChars ([m].map Member.pair) ++ '\x7d' :: rest =
          quoted m.name ++ ':' :: (m.value.chars ++ '\x7d' :: rest) := by
        simp [memberChars, Member.pair]
      rw [happ, Record.readMembers, string?_quoted]
      simp only [mark_self (c := ':') (by decide), hfind, hunseen, hread _ _ (.inr rfl)]
      rfl
    | cons m' ms =>
      have happ : memberChars ((m :: m' :: ms).map Member.pair) ++ '\x7d' :: rest =
          quoted m.name ++ ':' :: (m.value.chars ++
            ',' :: (memberChars ((m' :: ms).map Member.pair) ++ '\x7d' :: rest)) := by
        simp [memberChars, Member.pair]
      have hrest := ih (fun x hx => hms x (List.mem_cons_of_mem m hx)) (List.cons_ne_nil m' ms)
        (m.name :: seen) hn.2 (fun x hx => ?_) (Nat.le_of_succ_le_succ hf) (m.set a)
      · rw [happ, Record.readMembers, string?_quoted]
        simp only [mark_self (c := ':') (by decide), hfind, hunseen, hread _ _ (.inl rfl)]
        refine Eq.trans hrest ?_
        simp
      · rw [List.mem_cons, not_or]
        exact ⟨fun hc => hn.1 (hc ▸ List.mem_map_of_mem hx),
          hseen x (List.mem_cons_of_mem m hx)⟩

theorem length_le_memberChars (ms : List (Member α)) (rest : List Char) :
    ms.length ≤ (memberChars (ms.map Member.pair) ++ rest).length := by
  induction ms with
  | nil => exact Nat.zero_le _
  | cons m ms ih =>
    have hquote : 0 < (quoted m.name).length := List.length_pos_iff.2 (by simp [quoted])
    cases ms with
    | nil =>
      simp only [List.map_cons, List.map_nil, memberChars, Member.pair, List.length_append]
      simp only [List.length_cons, List.length_nil]
      omega
    | cons m' ms =>
      simp only [List.map_cons, memberChars, Member.pair, List.length_append,
        List.length_cons] at ih ⊢
      omega

/-- A record is read from the object of members that are written as its fields are read. -/
theorem read_members (r : Record α) (ms : List (Member α)) (hms : ∀ m ∈ ms, m.Written r)
    (hn : (ms.map Member.name).Nodup) (hopt : ∀ f ∈ r.fields, f.required = false)
    (rest : List Char) :
    r.read ((object (ms.map Member.pair)).chars ++ rest) =
      some (ms.foldl (fun a m => m.set a) r.defaults, rest) := by
  have happ : (object (ms.map Member.pair)).chars ++ rest =
      '\x7b' :: (memberChars (ms.map Member.pair) ++ '\x7d' :: rest) := by
    simp [chars]
  have hall : ∀ seen : List String,
      (r.fields.all fun f => !f.required || seen.contains f.name) = true := by
    intro seen
    refine List.all_eq_true.2 fun f hf => ?_
    rw [hopt f hf]
    rfl
  rw [happ, Record.read, mark_self (by decide)]
  by_cases hne : ms = []
  · subst hne
    have hmark : mark '\x7d' (memberChars ([].map (Member.pair (α := α))) ++ '\x7d' :: rest) =
        some rest := mark_self (by decide) rest
    simp only [Record.readObject, hmark, hall]
    rfl
  · have hmark : mark '\x7d' (memberChars (ms.map Member.pair) ++ '\x7d' :: rest) = none := by
      obtain ⟨m, ms, rfl⟩ := List.exists_cons_of_ne_nil hne
      cases ms with
      | nil => exact mark_of_ne (c := '\x7d') (d := '"') (by decide) (by decide) _
      | cons m' ms => exact mark_of_ne (c := '\x7d') (d := '"') (by decide) (by decide) _
    have hread := readMembers_written hms hne [] hn (fun m _ => List.not_mem_nil)
      (length_le_memberChars ms ('\x7d' :: rest)) r.defaults rest
    simp only [Record.readObject, hmark, hread, hall]
    rfl

/-! ### Layouts -/

variable {l : Layout α} {entries : List (String × Scalar)}

/-- A value that a field may have is read as what it changes, up to the mark after it. -/
theorem reader_toJson {k : Layout.Kind α} {v : Scalar} {set : α → α} (h : k.take? v = some set)
    {d : Char} (hd : d = ',' ∨ d = '\x7d') (rest : List Char) :
    k.reader (v.toJson.chars ++ d :: rest) = some (set, d :: rest) := by
  rcases Layout.Kind.take?_cases h with ⟨names, s, rfl, rfl, hs⟩ | ⟨f, b, rfl, rfl, rfl⟩ |
    ⟨f, n, rfl, rfl, rfl⟩
  · show variant names (quoted s ++ d :: rest) = some (set, d :: rest)
    rw [variant_quoted, hs]
    rfl
  · show (Reader.map f bool?) ((Json.bool b).chars ++ d :: rest) = some (f b, d :: rest)
    rw [Reader.map, bool?_bool]
  · have hdigit : d.isDigit = false := by
      rcases hd with rfl | rfl <;> decide
    show (Reader.map f word?) ((word n).chars ++ d :: rest) = some (f n, d :: rest)
    rw [Reader.map, word?_word n hdigit]

theorem written_member (hfits : l.Fits entries) {e : String × Scalar} (he : e ∈ entries) :
    (member l e).Written l.toRecord := by
  obtain ⟨name, v⟩ := e
  obtain ⟨f, hf, rfl, set, hset⟩ := hfits.taken _ he
  refine ⟨⟨f.name, f.kind.reader, false⟩, ?_, ?_⟩
  · have hfind := Layout.find?_name hf
    simp only [Layout.toRecord, List.find?_map]
    exact congrArg (Option.map _) hfind
  · intro d rest hd
    show f.kind.reader (v.toJson.chars ++ d :: rest) = some (l.change (f.name, v), d :: rest)
    rw [Layout.change_eq hf hset]
    exact reader_toJson hset hd rest

theorem lawful_codec : codec.Lawful entryText := by
  apply Codec.lawful_of_read
  · exact fun entries => rfl
  · intro α l entries hfits
    have hnames : (entries.map (member l)).map Member.name = entries.map Prod.fst := by
      rw [List.map_map]
      rfl
    have hobject : ofEntries entries = .object ((entries.map (member l)).map Member.pair) := by
      rw [ofEntries, List.map_map]
      rfl
    have hmembers : ∀ m ∈ entries.map (member l), m.Written l.toRecord := by
      intro m hm
      obtain ⟨e, he, rfl⟩ := List.mem_map.1 hm
      exact written_member hfits he
    have hoptional : ∀ f ∈ l.toRecord.fields, f.required = false := by
      intro f hf
      obtain ⟨g, -, rfl⟩ := List.mem_map.1 hf
      rfl
    have hfold : (entries.map (member l)).foldl (fun a m => m.set a) l.defaults = l.fill entries := by
      rw [List.foldl_map]
      rfl
    have hread := read_members l.toRecord (entries.map (member l)) hmembers
      (hnames ▸ hfits.once) hoptional []
    rw [List.append_nil, ← hobject] at hread
    have hall : readAll l.toRecord.read (entryText entries) = .ok (l.fill entries) := by
      rw [readAll, entryText, compact, String.toList_ofList, hread]
      exact congrArg Except.ok hfold
    show (readAll l.toRecord.read (entryText entries)).toOption = some (l.fill entries)
    rw [hall]
    rfl

end Interning.Json
