import Interning.Proofs.Layout
import Interning.Proofs.Text.Decimal
import Interning.Toml.Codec
import Mathlib.Data.List.TakeDrop
import Mathlib.Data.List.TakeWhile

/-!
# Reading lines of a key and a value

A pair written on one line, a key without quotes first, is read back whatever follows it, and a
document that is nothing but such lines has these pairs as its entries.

    a key without quotes is read up to the blank after it                     (keyAndSign?_bare)
    a string without escapes, a written number and a truth value are read up to the end of the line
                                               (value?_string, value?_decimal, value?_boolean)
    a document of lines has the entries of the lines             (readDocument?_linesText)
    so the codec of documents is lawful                                              (lawful_codec)
-/

namespace Interning.Toml

/-! ## Algorithm -/

/-- Whether `c` may stand in a basic string for itself. -/
def isPlain (c : Char) : Bool := c != '"' && c != '\\' && !isControl c

/-- A line of a document that gives a value to a key without quotes. -/
structure PairLine where
  /-- The characters of the key. -/
  key : List Char
  /-- The characters of the value. -/
  text : List Char
  value : Toml

namespace PairLine

def chars (l : PairLine) : List Char := l.key ++ " = ".toList ++ l.text ++ ['\n']

def entry (l : PairLine) : String × Toml := (String.ofList l.key, l.value)

/-- The line is well written: the key needs no quotes, and the value is what the text says. -/
structure Written (l : PairLine) : Prop where
  key_ne_nil : l.key ≠ []
  bare : ∀ c ∈ l.key, isBareChar c = true
  /-- The value starts with no blank. -/
  start : ∃ c cs, l.text = c :: cs ∧ isLineSpace c = false
  reads : ∀ rest, value? (l.text ++ '\n' :: rest) = some (l.value, '\n' :: rest)

end PairLine

def ofScalar : Scalar → Toml
  | .name s => .string s
  | .flag b => .boolean b
  | .word n => .integer n.toNat

def pairLine (e : String × Scalar) : PairLine := ⟨e.1.toList, e.2.tomlChars, ofScalar e.2⟩

def linesText (ls : List PairLine) : String := String.ofList (ls.flatMap PairLine.chars)

/-! ## Lemmas -/

/-! ### Splitting off -/

theorem span_append {p : Char → Bool} {cs : List Char} (hcs : ∀ c ∈ cs, p c = true) {d : Char}
    (hd : p d = false) (rest : List Char) : (cs ++ d :: rest).span p = (cs, d :: rest) := by
  rw [List.span_eq_takeWhile_dropWhile, List.takeWhile_append_of_pos hcs,
    List.dropWhile_append_of_pos hcs, List.takeWhile_cons, List.dropWhile_cons, hd]
  simp

theorem span_self {p : Char → Bool} {cs : List Char} (hcs : ∀ c ∈ cs, p c = true) :
    cs.span p = (cs, []) := by
  rw [List.span_eq_takeWhile_dropWhile, List.takeWhile_eq_self_iff.2 hcs,
    List.dropWhile_eq_nil_iff.2 hcs]

/-! ### Keys -/

/-- A character of a bare key differs from each character that may not stand there. -/
theorem isBareChar_ne {c d : Char} (hc : isBareChar c = true) (hd : isBareChar d = false) :
    c ≠ d := by
  rintro rfl
  cases hc.symm.trans hd

theorem isLineSpace_of_isBareChar {c : Char} (hc : isBareChar c = true) :
    isLineSpace c = false := by
  have h₁ := isBareChar_ne (d := ' ') hc (by decide)
  have h₂ := isBareChar_ne (d := '\t') hc (by decide)
  simp [isLineSpace, h₁, h₂]

/-- A name without quotes is read up to the first character that may not stand in it. -/
theorem name?_bare {cs : List Char} (hne : cs ≠ []) (hcs : ∀ c ∈ cs, isBareChar c = true)
    {d : Char} (hd : isBareChar d = false) (rest : List Char) :
    name? (cs ++ d :: rest) = some (String.ofList cs, d :: rest) := by
  obtain ⟨c, cs', rfl⟩ := List.exists_cons_of_ne_nil hne
  have hc := hcs c List.mem_cons_self
  have hshort : shortString? (c :: cs' ++ d :: rest) = none := by
    rw [List.cons_append, shortString?]
    · rintro r hr
      exact isBareChar_ne hc (by decide) (List.cons.inj hr).1
    · rintro r hr
      exact isBareChar_ne hc (by decide) (List.cons.inj hr).1
  rw [name?, hshort]
  simp only [span_append hcs hd]
  rfl

/-- A key without quotes is read with the sign after it. -/
theorem keyAndSign?_bare {cs : List Char} (hne : cs ≠ []) (hcs : ∀ c ∈ cs, isBareChar c = true)
    (rest : List Char) :
    keyAndSign? (cs ++ " = ".toList ++ rest) = some ([String.ofList cs], skipLineSpace rest) := by
  have hname := name?_bare hne hcs (d := ' ') (by decide) ('=' :: ' ' :: rest)
  obtain ⟨c, cs', rfl⟩ := List.exists_cons_of_ne_nil hne
  have hc := isLineSpace_of_isBareChar (hcs c List.mem_cons_self)
  have hskip : skipLineSpace (c :: cs' ++ ' ' :: '=' :: ' ' :: rest) =
      c :: cs' ++ ' ' :: '=' :: ' ' :: rest := by
    simp [skipLineSpace, hc]
  have hkey : key? (c :: cs' ++ ' ' :: '=' :: ' ' :: rest) =
      some ([String.ofList (c :: cs')], '=' :: ' ' :: rest) := by
    rw [key?, maxNames, keyIn, hskip, hname]
    rfl
  have happ : c :: cs' ++ " = ".toList ++ rest = c :: cs' ++ ' ' :: '=' :: ' ' :: rest := by
    simp
  rw [happ, keyAndSign?, hkey]
  rfl

/-! ### Values -/

/-- A value that opens no array and no inline table is a string or stands without quotes. -/
theorem value?_flat {c : Char} {cs : List Char} (h₁ : c ≠ '[') (h₂ : c ≠ '\x7b') :
    value? (c :: cs) =
      match string? (c :: cs) with
      | some (s, rest) => some (.string s, rest)
      | none => (scalar? (spanScalar (c :: cs)).1).map fun v => (v, (spanScalar (c :: cs)).2) := by
  unfold value? valueIn
  split
  · next hr _ => exact absurd (List.cons.inj hr).1 h₁
  · next hr _ => exact absurd (List.cons.inj hr).1 h₂
  · rfl

theorem basicTail_plain {cs : List Char} (hcs : ∀ c ∈ cs, isPlain c = true) (rest : List Char) :
    basicTail 0 (cs ++ '"' :: rest) = some (cs, rest) := by
  induction cs with
  | nil => rfl
  | cons c cs ih =>
    have hc := hcs c List.mem_cons_self
    simp only [isPlain, Bool.and_eq_true, bne_iff_ne, Bool.not_eq_true'] at hc
    obtain ⟨⟨hq, hb⟩, hctl⟩ := hc
    rw [List.cons_append, basicTail, if_neg hq, if_neg hb, hctl,
      ih fun d hd => hcs d (List.mem_cons_of_mem c hd)]
    rfl

/-- A string that is not empty and has no escapes is read to its closing quote. -/
theorem value?_string (cs : List Char) (hne : cs ≠ []) (hcs : ∀ c ∈ cs, isPlain c = true)
    (rest : List Char) :
    value? ('"' :: cs ++ '"' :: rest) = some (.string (String.ofList cs), rest) := by
  obtain ⟨c, cs', rfl⟩ := List.exists_cons_of_ne_nil hne
  have hc := hcs c List.mem_cons_self
  simp only [isPlain, Bool.and_eq_true, bne_iff_ne] at hc
  have hstring : string? ('"' :: (c :: cs' ++ '"' :: rest)) =
      some (String.ofList (c :: cs'), rest) := by
    rw [string?]
    · rw [shortString?, basicTail_plain hcs]
      rfl
    · intro r hr
      exact hc.1.1 (List.cons.inj (List.cons.inj hr).2).1
    · intro r hr
      exact absurd (List.cons.inj hr).1 (by decide)
  rw [List.cons_append, value?_flat (by decide) (by decide), hstring]

/-- A value without quotes is read up to the end of the line. -/
theorem value?_scalar {cs : List Char} {v : Toml} (hne : cs ≠ [])
    (hcs : ∀ c ∈ cs, isScalarChar c = true) (hv : scalar? cs = some v) (rest : List Char) :
    value? (cs ++ '\n' :: rest) = some (v, '\n' :: rest) := by
  have hspan : spanScalar (cs ++ '\n' :: rest) = (cs, '\n' :: rest) := by
    have hmark : isScalarChar '\n' = false := by decide
    simp only [spanScalar, span_append hcs hmark]
    rfl
  obtain ⟨c, cs', rfl⟩ := List.exists_cons_of_ne_nil hne
  have hne : ∀ d, isScalarChar d = false → c ≠ d := by
    rintro d hd rfl
    cases (hcs c List.mem_cons_self).symm.trans hd
  have hstring : string? (c :: cs' ++ '\n' :: rest) = none := by
    rw [List.cons_append, string?]
    · rw [shortString?]
      · exact fun r hr => hne _ (by decide) (List.cons.inj hr).1
      · exact fun r hr => hne _ (by decide) (List.cons.inj hr).1
    · exact fun r hr => hne _ (by decide) (List.cons.inj hr).1
    · exact fun r hr => hne _ (by decide) (List.cons.inj hr).1
  rw [List.cons_append] at hspan hstring ⊢
  rw [value?_flat (hne _ (by decide)) (hne _ (by decide)), hstring, hspan]
  simp only [hv]
  rfl

theorem not_datetime_of_digits {cs : List Char} (hcs : ∀ c ∈ cs, c.isDigit = true) :
    isDatetime cs = false := by
  have hdate : afterDate? cs = none := by
    unfold afterDate?
    split
    · exact absurd (hcs '-' (by simp)) (by decide)
    · rfl
  have htime : afterMinutes? 23 cs = none := by
    unfold afterMinutes?
    split
    · exact absurd (hcs ':' (by simp)) (by decide)
    · rfl
  rw [isDatetime, hdate, afterTime?, htime]
  rfl

theorem joined?_digits {cs : List Char} (hne : cs ≠ []) (hcs : ∀ c ∈ cs, c.isDigit = true) :
    joined? Char.isDigit cs = some cs := by
  induction cs with
  | nil => exact absurd rfl hne
  | cons c cs ih =>
    have hc := hcs c List.mem_cons_self
    have hrest : ∀ d ∈ cs, d.isDigit = true := fun d hd => hcs d (List.mem_cons_of_mem c hd)
    cases cs with
    | nil => simp [joined?, hc]
    | cons d rest =>
      have hd : d ≠ '_' := Text.Decimal.isDigit_ne (hrest d List.mem_cons_self) (by decide)
      rw [joined?, hc, if_neg (by decide), if_neg hd, ih (List.cons_ne_nil d rest) hrest]
      rfl

/-- A number is an integer, if there is a place for it. -/
theorem signed?_of_lt {n : Nat} (hn : n < Nat.pow 2 128) : signed? false n = some (.integer n) := by
  have hrange : inRange n = true := by
    have h₁ : -(Nat.pow 2 127 : Nat) ≤ (n : Int) := by omega
    have h₂ : (n : Int) < (Nat.pow 2 128 : Nat) := Int.ofNat_lt.2 hn
    rw [inRange, decide_eq_true h₁, decide_eq_true h₂]
    rfl
  rw [signed?]
  exact if_pos hrange

section Digits

variable {c : Char} {rest : List Char} (hc : c ≠ '0') (hdigit : ∀ d ∈ c :: rest, d.isDigit = true)

include hdigit

theorem splitSign_digits : splitSign (c :: rest) = (false, c :: rest) := by
  have hcd := hdigit c List.mem_cons_self
  unfold splitSign
  split
  · next h => exact absurd (List.cons.inj h).1 (Text.Decimal.isDigit_ne hcd (by decide))
  · next h => exact absurd (List.cons.inj h).1 (Text.Decimal.isDigit_ne hcd (by decide))
  · rfl

include hc

theorem decimal?_digits : decimal? (c :: rest) = some (c :: rest) := by
  unfold decimal?
  rw [joined?_digits (List.cons_ne_nil c rest) hdigit]
  split
  · next h => exact absurd (List.cons.inj (Option.some.inj h)).1 hc
  · rfl

/-- Digits with no zero in front are a number. -/
theorem number?_digits :
    number? (c :: rest) = signed? false (Nat.ofDigitChars 10 (c :: rest) 0) := by
  have hcd := hdigit c List.mem_cons_self
  have hspan : (c :: rest).span isDecimalChar = (c :: rest, []) :=
    span_self fun d hd => by rw [isDecimalChar, hdigit d hd]; rfl
  have hword : ¬(c :: rest = ['i', 'n', 'f'] ∨ c :: rest = ['n', 'a', 'n']) := by
    rintro (h | h)
    · exact Text.Decimal.isDigit_ne hcd (by decide) (List.cons.inj h).1
    · exact Text.Decimal.isDigit_ne hcd (by decide) (List.cons.inj h).1
  simp only [number?, splitSign_digits hdigit, if_neg hword, hspan, decimal?_digits hc hdigit,
    List.isEmpty_nil, if_true]

/-- Digits with no zero in front are nothing but a number. -/
theorem scalar?_digits : scalar? (c :: rest) = number? (c :: rest) := by
  have hcd := hdigit c List.mem_cons_self
  unfold scalar?
  rw [if_neg fun h => Text.Decimal.isDigit_ne hcd (by decide) (List.cons.inj h).1,
    if_neg fun h => Text.Decimal.isDigit_ne hcd (by decide) (List.cons.inj h).1]
  split
  · next h => exact absurd (List.cons.inj h).1 hc
  · next h => exact absurd (List.cons.inj h).1 hc
  · next h => exact absurd (List.cons.inj h).1 hc
  · rw [not_datetime_of_digits hdigit, if_neg (by decide)]

end Digits

/-- A written number is an integer, if there is a place for it. -/
theorem scalar?_write {n : Nat} (hn : n < Nat.pow 2 128) :
    scalar? (Text.Decimal.write n) = some (.integer n) := by
  have hdigit : ∀ c ∈ Text.Decimal.write n, c.isDigit = true :=
    fun c hc => Text.Decimal.isDigit_of_mem_write hc
  have hread : Nat.ofDigitChars 10 (Text.Decimal.write n) 0 = n :=
    Nat.ofDigitChars_toDigits (by decide) (by decide)
  rcases Text.Decimal.write_cases n with hw | ⟨c, rest, hw, hc⟩
  · obtain rfl : n = 0 := by
      rw [hw] at hread
      exact hread.symm
    have hzero : scalar? ['0'] = signed? false 0 := rfl
    rw [hw, hzero]
    exact signed?_of_lt hn
  · rw [hw] at hdigit hread ⊢
    rw [scalar?_digits hc hdigit, number?_digits hc hdigit, hread]
    exact signed?_of_lt hn

theorem isLineSpace_of_isDigit {c : Char} (hc : c.isDigit = true) : isLineSpace c = false := by
  have h₁ := Text.Decimal.isDigit_ne (d := ' ') hc (by decide)
  have h₂ := Text.Decimal.isDigit_ne (d := '\t') hc (by decide)
  simp [isLineSpace, h₁, h₂]

theorem value?_decimal {n : Nat} (hn : n < Nat.pow 2 128) (rest : List Char) :
    value? (Text.Decimal.write n ++ '\n' :: rest) = some (.integer n, '\n' :: rest) := by
  refine value?_scalar (Text.Decimal.write_ne_nil n) (fun c hc => ?_) (scalar?_write hn) rest
  simp [isScalarChar, Char.isAlphanum, Text.Decimal.isDigit_of_mem_write hc]

theorem value?_boolean (b : Bool) (rest : List Char) :
    value? ((if b then "true" else "false").toList ++ '\n' :: rest) =
      some (.boolean b, '\n' :: rest) := by
  cases b with
  | true => exact value?_scalar (by decide) (List.all_eq_true.1 (by decide)) rfl rest
  | false => exact value?_scalar (by decide) (List.all_eq_true.1 (by decide)) rfl rest

/-! ### Lines -/

variable {l : PairLine} {ls : List PairLine}

/-- A line is read as its pair, up to the end of the line. -/
theorem lineBody?_chars (hl : l.Written) (rest : List Char) :
    lineBody? (l.chars ++ rest) = some (.pair [String.ofList l.key] l.value, '\n' :: rest) := by
  have hstart : skipLineSpace (l.text ++ '\n' :: rest) = l.text ++ '\n' :: rest := by
    obtain ⟨d, ds, htext, hd⟩ := hl.start
    simp [htext, skipLineSpace, hd]
  obtain ⟨c, cs, hkey⟩ := List.exists_cons_of_ne_nil hl.key_ne_nil
  have hc : c ≠ '[' := isBareChar_ne (hl.bare c (hkey ▸ List.mem_cons_self)) (by decide)
  have happ : l.chars ++ rest = l.key ++ " = ".toList ++ (l.text ++ '\n' :: rest) := by
    simp [PairLine.chars]
  have hpair := keyAndSign?_bare hl.key_ne_nil hl.bare (l.text ++ '\n' :: rest)
  rw [happ]
  rw [hkey] at hpair ⊢
  simp only [List.cons_append] at hpair ⊢
  rw [lineBody?]
  · rw [hpair]
    simp only [hstart, hl.reads]
    rfl
  · exact fun r hr => hc (List.cons.inj hr).1
  · exact fun r hr => hc (List.cons.inj hr).1

theorem skipTrivia_chars (hl : l.Written) (rest : List Char) :
    skipTrivia false (l.chars ++ rest) = some (l.chars ++ rest) := by
  obtain ⟨c, cs, hkey⟩ := List.exists_cons_of_ne_nil hl.key_ne_nil
  have hc := hl.bare c (hkey ▸ List.mem_cons_self)
  have hne : ∀ d, isBareChar d = false → c ≠ d := fun d hd => isBareChar_ne hc hd
  have happ : l.chars ++ rest = c :: (cs ++ " = ".toList ++ l.text ++ '\n' :: rest) := by
    simp [PairLine.chars, hkey]
  have hn : c ≠ '\n' := hne _ (by decide)
  have hr : c ≠ '\r' := hne _ (by decide)
  have hm : c ≠ '#' := hne _ (by decide)
  simp [happ, skipTrivia, hn, hr, hm, isLineSpace_of_isBareChar hc]

/-- The lines of a document are read one after the other. -/
theorem linesIn_chars (hls : ∀ l ∈ ls, l.Written) {fuel : Nat} (hf : ls.length < fuel) :
    linesIn fuel (ls.flatMap PairLine.chars) =
      some (ls.map fun l => .pair [String.ofList l.key] l.value) := by
  induction ls generalizing fuel with
  | nil =>
    obtain ⟨fuel, rfl⟩ := Nat.exists_eq_succ_of_ne_zero (Nat.ne_of_gt hf)
    rfl
  | cons l ls ih =>
    obtain ⟨fuel, rfl⟩ := Nat.exists_eq_succ_of_ne_zero (Nat.ne_of_gt (Nat.zero_lt_of_lt hf))
    have hl := hls l List.mem_cons_self
    have hrest := ih (fun l' hl' => hls l' (List.mem_cons_of_mem l hl')) (Nat.lt_of_succ_lt_succ hf)
    have hchars : ∃ c cs, l.chars ++ ls.flatMap PairLine.chars = c :: cs :=
      List.exists_cons_of_ne_nil (by simp [PairLine.chars])
    obtain ⟨c, cs, hcs⟩ := hchars
    have htrivia := skipTrivia_chars hl (ls.flatMap PairLine.chars)
    have hbody := lineBody?_chars hl (ls.flatMap PairLine.chars)
    rw [List.flatMap_cons]
    rw [hcs] at htrivia hbody ⊢
    have hskip : skipLine false ('\n' :: ls.flatMap PairLine.chars) =
        some (ls.flatMap PairLine.chars) := rfl
    simp only [linesIn, htrivia, hbody, hskip, hrest]
    rfl

/-! ### Documents -/

theorem sectioned_pairs (ps : List (List String × Toml)) :
    sectioned (ps.map fun p => .pair p.1 p.2) = (ps, []) := by
  induction ps with
  | nil => rfl
  | cons p ps ih =>
    rw [List.map_cons, sectioned, ih]

/-- A new name is given its value at the end of the table. -/
theorem Table.assign_single {t : Table} (ht : t.origin = .named) {k : String}
    (hk : t.entries.lookup k = none) (v : Toml) :
    t.assign [k] v = some { t with entries := t.entries ++ [(k, .value v)] } := by
  have hfind : t.find? k = none := hk
  simp [assign, under, ht, define, hfind, set]

/-- New names are given their values one after the other. -/
theorem Table.assignAll_single {es : List (String × Toml)} (hn : (es.map Prod.fst).Nodup)
    {t : Table} (ht : t.origin = .named) (hd : ∀ e ∈ es, t.entries.lookup e.1 = none) :
    t.assignAll (es.map fun e => ([e.1], e.2)) =
      some { t with entries := t.entries ++ es.map fun e => (e.1, .value e.2) } := by
  induction es generalizing t with
  | nil => simp [assignAll]
  | cons e es ih =>
    rw [List.map_cons, List.nodup_cons] at hn
    have hassign := assign_single ht (hd e List.mem_cons_self) e.2
    have hrest := ih hn.2 (t := { t with entries := t.entries ++ [(e.1, .value e.2)] }) ht
      fun e' he' => by
        have hne : (e'.1 == e.1) = false :=
          beq_false_of_ne fun hc => hn.1 (hc ▸ List.mem_map_of_mem he')
        simp [List.lookup_append, hd e' (List.mem_cons_of_mem e he'), hne, List.lookup_cons]
    rw [List.map_cons, assignAll, List.foldlM_cons, hassign]
    refine Eq.trans hrest ?_
    simp

theorem entriesToToml_values (es : List (String × Toml)) :
    entriesToToml (es.map fun e => (e.1, .value e.2)) = es := by
  induction es with
  | nil => rfl
  | cons e es ih =>
    rw [List.map_cons, entriesToToml, ih]
    rfl

theorem length_le_flatMap_chars (ls : List PairLine) :
    ls.length ≤ (ls.flatMap PairLine.chars).length := by
  induction ls with
  | nil => exact Nat.le_refl 0
  | cons l ls ih =>
    rw [List.flatMap_cons, List.length_append, List.length_cons]
    have hl : 0 < l.chars.length := List.length_pos_iff.2 (by simp [PairLine.chars])
    omega

/-- A document of lines has the entries of the lines, in their order. -/
theorem readDocument?_linesText (hls : ∀ l ∈ ls, l.Written)
    (hn : (ls.map fun l => l.entry.1).Nodup) :
    readDocument? (linesText ls) = some (ls.map PairLine.entry) := by
  let es := ls.map PairLine.entry
  have hlines : lines? (ls.flatMap PairLine.chars) =
      some ((es.map fun e => ([e.1], e.2)).map fun p => .pair p.1 p.2) := by
    rw [lines?, linesIn_chars hls (Nat.lt_succ_of_le (length_le_flatMap_chars ls)),
      List.map_map, List.map_map]
    rfl
  have hbuild : buildDocument (es.map fun e => ([e.1], e.2)) [] = some es := by
    have hn : (es.map Prod.fst).Nodup := by
      rw [List.map_map]
      exact hn
    have hassign := Table.assignAll_single hn (t := .root) rfl fun e _ => rfl
    rw [buildDocument, hassign]
    exact congrArg some (entriesToToml_values es)
  -- No key starts with a byte order mark.
  have hbom : ∀ rest, ls.flatMap PairLine.chars ≠ '\ufeff' :: rest := by
    rintro rest hc
    cases ls with
    | nil => cases hc
    | cons l ls =>
      have hl := hls l List.mem_cons_self
      obtain ⟨c, cs, hkey⟩ := List.exists_cons_of_ne_nil hl.key_ne_nil
      rw [List.flatMap_cons, PairLine.chars, hkey] at hc
      exact isBareChar_ne (hl.bare c (hkey ▸ List.mem_cons_self)) (by decide) (List.cons.inj hc).1
  simp only [readDocument?, linesText, String.toList_ofList, hlines, sectioned_pairs]
  exact hbuild

/-! ### Records -/

theorem isBareChar_of_isNameChar {c : Char} (h : isNameChar c = true) : isBareChar c = true := by
  unfold isNameChar at h
  unfold isBareChar Char.isAlphanum Char.isAlpha
  simp only [Bool.or_eq_true] at h ⊢
  rcases h with (h | h) | h
  · exact .inl (.inl (.inl (.inr h)))
  · exact .inl (.inl (.inr h))
  · exact .inl (.inr h)

theorem isPlain_of_isNameChar {c : Char} (h : isNameChar c = true) : isPlain c = true := by
  have hbare := isBareChar_of_isNameChar h
  have hq : c ≠ '"' := isBareChar_ne hbare (by decide)
  have hb : c ≠ '\\' := isBareChar_ne hbare (by decide)
  have hctl : ∀ n, n < 0x80 → isControl (Char.ofNat n) = true →
      isBareChar (Char.ofNat n) = false := by decide
  have hnot : isControl c = false := by
    cases hc : isControl c with
    | false => rfl
    | true =>
      have hlt : c.toNat < 0x80 := by
        unfold isControl at hc
        simp only [Bool.or_eq_true, Bool.and_eq_true, decide_eq_true_eq, beq_iff_eq] at hc
        omega
      have hno := hctl c.toNat hlt
      rw [Char.ofNat_toNat, hbare] at hno
      cases hno hc
  simp [isPlain, hq, hb, hnot]

/-- A plain name needs neither quotes nor escapes. -/
theorem chars_of_isPlainName {s : String} (h : isPlainName s = true) :
    s.toList ≠ [] ∧ ∀ c ∈ s.toList, isNameChar c = true := by
  unfold isPlainName at h
  rw [Bool.and_eq_true, bne_iff_ne, List.all_eq_true] at h
  exact ⟨fun hnil => h.1 (String.toList_eq_nil_iff.1 hnil), h.2⟩

/-- The line of an entry with plain names is well written. -/
theorem written_pairLine {e : String × Scalar} (he : isPlainEntry e = true) :
    (pairLine e).Written := by
  obtain ⟨name, v⟩ := e
  obtain ⟨hname, hv⟩ := Bool.and_eq_true_iff.1 he
  obtain ⟨hne, hchars⟩ := chars_of_isPlainName hname
  refine ⟨hne, fun c hc => isBareChar_of_isNameChar (hchars c hc), ?_, fun rest => ?_⟩
  · cases v with
    | name s => exact ⟨_, _, rfl, by decide⟩
    | flag b =>
      cases b with
      | true => exact ⟨'t', ['r', 'u', 'e'], rfl, by decide⟩
      | false => exact ⟨'f', ['a', 'l', 's', 'e'], rfl, by decide⟩
    | word n =>
      obtain ⟨d, ds, hw⟩ := List.exists_cons_of_ne_nil (Text.Decimal.write_ne_nil n.toNat)
      have hd : d.isDigit = true := Text.Decimal.isDigit_of_mem_write (hw ▸ List.mem_cons_self)
      exact ⟨d, ds, hw, isLineSpace_of_isDigit hd⟩
  · cases v with
    | name s =>
      obtain ⟨hne, hchars⟩ := chars_of_isPlainName hv
      have hread := value?_string s.toList hne (fun c hc => isPlain_of_isNameChar (hchars c hc))
        ('\n' :: rest)
      simpa [pairLine, Scalar.tomlChars, ofScalar] using hread
    | flag b => exact value?_boolean b rest
    | word n => exact value?_decimal (Nat.lt_trans n.toNat_lt (by decide)) rest

theorem linesText_pairLine (entries : List (String × Scalar)) :
    linesText (entries.map pairLine) = entryText entries := by
  rw [linesText, entryText, List.flatMap_map]
  rfl

variable {α : Type}

/-- A value that a field may have is read as what it changes. -/
theorem ofToml?_ofScalar {k : Layout.Kind α} {v : Scalar} {set : α → α}
    (h : k.take? v = some set) : k.ofToml? (ofScalar v) = some set := by
  rcases Layout.Kind.take?_cases h with ⟨names, s, rfl, rfl, hs⟩ | ⟨f, b, rfl, rfl, rfl⟩ |
    ⟨f, n, rfl, rfl, rfl⟩
  · exact hs
  · rfl
  · have hword : word? (.integer n.toNat) = some n := by
      have hlt : (n.toNat : Int) < UInt64.size := Int.ofNat_lt.2 n.toNat_lt
      rw [word?, if_pos ⟨Int.natCast_nonneg _, hlt⟩]
      simp
    rw [Layout.Kind.ofToml?, ofScalar, hword]
    rfl

theorem fill?_ofScalar {l : Layout α} {entries : List (String × Scalar)} (h : l.Fits entries) :
    fill? l (entries.map fun e => (e.1, ofScalar e.2)) = some (l.fill entries) := by
  induction entries using List.reverseRecOn with
  | nil => rfl
  | append_singleton entries e ih =>
    obtain ⟨name, v⟩ := e
    obtain ⟨f, hf, rfl, set, hset⟩ := h.taken _ List.mem_concat_self
    have hfill := ih h.of_concat
    unfold fill? at hfill ⊢
    rw [List.map_append, List.foldlM_append, hfill, Layout.fill_concat, Layout.change_eq hf hset]
    simp [Layout.find?_name hf, ofToml?_ofScalar hset]

theorem lawful_codec : codec.Lawful entryText := by
  apply Codec.lawful_of_read
  · exact fun entries => rfl
  · intro α l entries hfits
    have hentry : ∀ e : String × Scalar, (pairLine e).entry = (e.1, ofScalar e.2) := fun e =>
      congrArg (·, ofScalar e.2) String.ofList_toList
    have hnames : (entries.map pairLine).map (fun l => l.entry.1) = entries.map Prod.fst := by
      rw [List.map_map]
      exact List.map_congr_left fun e _ => congrArg Prod.fst (hentry e)
    have hread : readDocument? (entryText entries) =
        some (entries.map fun e => (e.1, ofScalar e.2)) := by
      rw [← linesText_pairLine, readDocument?_linesText]
      · simp [hentry]
      · intro l hl
        obtain ⟨e, he, rfl⟩ := List.mem_map.1 hl
        exact written_pairLine (hfits.plain e he)
      · rw [hnames]
        exact hfits.once
    show (readDocument? (entryText entries)).bind (fill? l) = some (l.fill entries)
    rw [hread, Option.bind_some, fill?_ofScalar hfits]

end Interning.Toml
