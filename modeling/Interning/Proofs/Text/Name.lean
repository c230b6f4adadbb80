import Interning.KeyMap
import Interning.Proofs.Text.Letters
import Interning.Text.Name
import Mathlib.Data.List.TakeWhile

/-!
# Names in all their spellings

A name may be written with blank characters around it and with its letters in either case.  To take
the blanks off and to lower the letters are two things that do not disturb each other, so a text is
read as a name exactly if it is a spelling of that name, and spellings of the same are read alike.

    Stripped cs core ↔ trimmed cs = core                                          (stripped_iff)
    trimmed (cs.map Char.toLower) = (trimmed cs).map Char.toLower          (trimmed_map_toLower)
    Spells raw name ↔ plainName raw = name                                          (spells_iff)
    a vocabulary of plain names is read by their spellings            (readsNames_of_vocabulary)
-/

namespace Interning.Text

/-! ## Algorithm -/

/-- `core` is what is left of `cs` without the blank characters at both ends. -/
def Stripped (cs core : List Char) : Prop :=
  ∃ front back, cs = front ++ core ++ back ∧
    (∀ c ∈ front, isBlank c = true) ∧ (∀ c ∈ back, isBlank c = true) ∧
    (∀ c ∈ core.head?, isBlank c = false) ∧ ∀ c ∈ core.getLast?, isBlank c = false

/-- `raw` is `name` with its letters in either case and blank characters around it. -/
def Spells (raw name : String) : Prop :=
  ∃ core, Stripped raw.toList core ∧ List.Forall₂ CaseVariant core name.toList

/-- A name is plain that has ASCII characters only, no blanks and no letters in upper case. -/
def IsPlainName (name : String) : Prop :=
  ∀ c ∈ name.toList, c.toNat < 128 ∧ isBlank c = false ∧ c.isUpper = false

instance (name : String) : Decidable (IsPlainName name) := List.decidableBAll _ name.toList

/-- What is made of a name that is read, or of one that is not listed. -/
def answered {α ρ : Type} (accept : α → ρ) (refuse : String → ρ) : Except String α → ρ
  | .ok a => accept a
  | .error name => refuse name

/-- The names that things have are read in all their spellings, and nothing else is. -/
structure ReadsNames {α ρ : Type} (read : String → ρ) (names : α → List String) (accept : α → ρ)
    (refuse : String → ρ) : Prop where
  /-- A text is accepted for a thing exactly if it spells one of its names. -/
  accepts : ∀ raw a, read raw = accept a ↔ ∃ name ∈ names a, Spells raw name
  /-- Any other text is refused, and is given back without blanks around it, its letters lowered. -/
  refuses : ∀ raw, (∀ a, ∀ name ∈ names a, ¬Spells raw name) →
    ∃ core name, Stripped raw.toList core ∧ List.Forall₂ Lowered core name.toList ∧
      read raw = refuse name
  /-- Neither blanks around a text nor the case of its letters make a difference. -/
  alike : ∀ raw raw' front back : String, (∀ c ∈ front.toList, isBlank c = true) →
    (∀ c ∈ back.toList, isBlank c = true) → List.Forall₂ CaseVariant raw.toList raw'.toList →
      read (front ++ raw' ++ back) = read raw
  /-- Nothing is accepted with another character in it than an ASCII one, or with a blank inside. -/
  plain : ∀ raw a core, read raw = accept a → Stripped raw.toList core →
    ∀ c ∈ core, c.toNat < 128 ∧ isBlank c = false

/-! ## Lemmas -/

/-! ### Blanks -/

theorem isBlank_toLower (c : Char) : isBlank c.toLower = isBlank c := by
  have hletters : ∀ p ∈ letters, isBlank p.2 = isBlank p.1 := by decide
  cases h : c.isUpper with
  | true => exact hletters _ (mem_letters h)
  | false => rw [toLower_of_not_isUpper h]

theorem isBlank_of_isDigit {c : Char} (h : c.isDigit = true) : isBlank c = false := by
  have hdigits : ∀ n < 58, 48 ≤ n → isBlank (Char.ofNat n) = false := by decide
  simp only [Char.isDigit, Bool.and_eq_true, decide_eq_true_eq] at h
  have hc := hdigits c.toNat (Nat.lt_succ_of_le h.2) h.1
  rwa [Char.ofNat_toNat] at hc

theorem dropWhile_map_toLower (cs : List Char) :
    (cs.map Char.toLower).dropWhile isBlank = (cs.dropWhile isBlank).map Char.toLower := by
  rw [List.dropWhile_map]
  exact congrArg (fun p => (cs.dropWhile p).map Char.toLower) (funext isBlank_toLower)

/-- Blanks can be taken off before the letters are lowered or after that. -/
theorem trimmed_map_toLower (cs : List Char) :
    trimmed (cs.map Char.toLower) = (trimmed cs).map Char.toLower := by
  rw [trimmed, dropWhile_map_toLower, ← List.map_reverse, dropWhile_map_toLower, ← List.map_reverse,
    trimmed]

/-- Blank characters at the back are not seen. -/
theorem trimmed_append_right {back : List Char} (hback : ∀ c ∈ back, isBlank c = true)
    (cs : List Char) : trimmed (cs ++ back) = trimmed cs := by
  have hreverse : ∀ c ∈ back.reverse, isBlank c = true := fun c hc =>
    hback c (List.mem_reverse.1 hc)
  rw [trimmed, List.dropWhile_append]
  split
  · next hcs =>
    have hnil : back.dropWhile isBlank = [] := List.dropWhile_eq_nil_iff.2 hback
    rw [hnil, trimmed, List.isEmpty_iff.1 hcs]
  · rw [List.reverse_append, dropWhile_append_blank hreverse, trimmed]

theorem trimmed_eq_self {cs : List Char} (hhead : ∀ c ∈ cs.head?, isBlank c = false)
    (hlast : ∀ c ∈ cs.getLast?, isBlank c = false) : trimmed cs = cs := by
  have hdrop : ∀ ds : List Char, (∀ c ∈ ds.head?, isBlank c = false) →
      ds.dropWhile isBlank = ds := by
    intro ds hds
    cases ds with
    | nil => rfl
    | cons d ds => rw [List.dropWhile_cons, hds d rfl, if_neg Bool.false_ne_true]
  have hreverse := hdrop cs.reverse (by rwa [List.head?_reverse])
  rw [trimmed, hdrop cs hhead, hreverse, List.reverse_reverse]

/-- What is left after blanks were taken off is what was between them. -/
theorem stripped_trimmed (cs : List Char) : Stripped cs (trimmed cs) := by
  obtain ⟨back, hdrop, hback⟩ : ∃ back, cs.dropWhile isBlank = trimmed cs ++ back ∧
      ∀ c ∈ back, isBlank c = true := by
    refine ⟨((cs.dropWhile isBlank).reverse.takeWhile isBlank).reverse, ?_, fun c hc =>
      List.mem_takeWhile_imp (List.mem_reverse.1 hc)⟩
    rw [trimmed, ← List.reverse_append, List.takeWhile_append_dropWhile, List.reverse_reverse]
  refine ⟨cs.takeWhile isBlank, back, ?_, fun c hc => List.mem_takeWhile_imp hc, hback,
    fun c hc => head?_dropWhile_isBlank cs ?_, fun c hc => getLast_trimmed cs hc⟩
  · rw [List.append_assoc, ← hdrop, List.takeWhile_append_dropWhile]
  · rw [hdrop, List.head?_append, Option.mem_def.1 hc, Option.some_or]

/-- There is one thing left when the blanks are taken off. -/
theorem stripped_iff {cs core : List Char} : Stripped cs core ↔ trimmed cs = core := by
  constructor
  · rintro ⟨front, back, rfl, hfront, hback, hhead, hlast⟩
    rw [trimmed_append_right hback, trimmed_append_left hfront, trimmed_eq_self hhead hlast]
  · rintro rfl
    exact stripped_trimmed cs

/-! ### Letters -/

theorem forall₂_caseVariant_iff {cs ds : List Char} :
    List.Forall₂ CaseVariant cs ds ↔ cs.map Char.toLower = ds.map Char.toLower := by
  rw [← List.forall₂_eq_eq_eq, List.forall₂_map_left_iff, List.forall₂_map_right_iff]
  simp only [toLower_eq_toLower_iff]

theorem toList_plainName (raw : String) :
    (plainName raw).toList = (trimmed raw.toList).map Char.toLower := by
  rw [plainName, trim, toList_foldCase, String.toList_ofList]

/-- Neither blanks around a name nor the case of its letters are seen. -/
theorem plainName_congr {raw raw' front back : String}
    (hfront : ∀ c ∈ front.toList, isBlank c = true) (hback : ∀ c ∈ back.toList, isBlank c = true)
    (h : List.Forall₂ CaseVariant raw.toList raw'.toList) :
    plainName (front ++ raw' ++ back) = plainName raw := by
  rw [← String.toList_inj, toList_plainName, toList_plainName, String.toList_append,
    String.toList_append, trimmed_append_right hback, trimmed_append_left hfront,
    ← trimmed_map_toLower, ← trimmed_map_toLower, forall₂_caseVariant_iff.1 h]

theorem lowered_plainName (raw : String) :
    List.Forall₂ Lowered (trimmed raw.toList) (plainName raw).toList := by
  rw [toList_plainName, List.forall₂_map_right_iff, List.forall₂_same]
  exact fun c _ => toLower_eq_iff.1 rfl

theorem map_toLower_of_plain {name : String} (hname : IsPlainName name) :
    name.toList.map Char.toLower = name.toList :=
  (List.map_congr_left fun c hc => toLower_of_not_isUpper (hname c hc).2.2).trans (List.map_id' _)

/-- The spellings of a plain name are the texts that have it as their plain name. -/
theorem spells_iff {raw name : String} (hname : IsPlainName name) :
    Spells raw name ↔ plainName raw = name := by
  simp only [Spells, stripped_iff, exists_eq_left']
  rw [forall₂_caseVariant_iff, map_toLower_of_plain hname, ← String.toList_inj, toList_plainName]

/-- A plain name is listed as it is written. -/
theorem plainName_eq_self {name : String} (hname : IsPlainName name) : plainName name = name := by
  have hblank : ∀ c ∈ name.toList, isBlank c = false := fun c hc => (hname c hc).2.1
  rw [← String.toList_inj, toList_plainName, trimmed_eq_self, map_toLower_of_plain hname]
  · exact fun c hc => hblank c (List.mem_of_mem_head? hc)
  · exact fun c hc => hblank c (List.mem_of_mem_getLast? hc)

/-- All that a plain name is spelled with is ASCII and not blank. -/
theorem plain_of_spells {raw name : String} {core : List Char} (hname : IsPlainName name)
    (h : Spells raw name) (hcore : Stripped raw.toList core) :
    ∀ c ∈ core, c.toNat < 128 ∧ isBlank c = false := by
  intro c hc
  have hmem : c.toLower ∈ name.toList := by
    rw [← (spells_iff hname).1 h, toList_plainName, stripped_iff.1 hcore]
    exact List.mem_map_of_mem hc
  obtain ⟨hascii, hblank, -⟩ := hname _ hmem
  refine ⟨?_, (isBlank_toLower c).symm.trans hblank⟩
  cases hu : c.isUpper with
  | true => exact Nat.lt_of_le_of_lt (isUpper_iff.1 hu).2 (by decide)
  | false => rwa [toLower_of_not_isUpper hu] at hascii

/-! ### Vocabularies -/

section Vocabulary

variable {α ρ : Type} {vocabulary : List (String × α)} {raw : String} {x : α}

/-- A name means what is listed with it, if no name is listed twice. -/
theorem readName_eq_ok_iff (hnames : (vocabulary.map Prod.fst).Nodup) :
    readName vocabulary raw = .ok x ↔ (plainName raw, x) ∈ vocabulary := by
  have hlookup := KeyMap.get?_eq_some_iff (m := ⟨vocabulary, hnames⟩) (k := plainName raw) (v := x)
  rw [← hlookup, KeyMap.get?, readName]
  cases vocabulary.lookup (plainName raw) with
  | none => exact iff_of_false (fun h => by cases h) (Option.some_ne_none x).symm
  | some y => rw [Except.ok.injEq, Option.some_inj]

/-- A name that is not listed is answered as it was looked up. -/
theorem readName_cases (vocabulary : List (String × α)) (raw : String) :
    (∃ x, readName vocabulary raw = .ok x) ∨ readName vocabulary raw = .error (plainName raw) := by
  rw [readName]
  cases vocabulary.lookup (plainName raw) with
  | none => exact .inr rfl
  | some x => exact .inl ⟨x, rfl⟩

variable {read : String → ρ} {names : α → List String} {accept : α → ρ} {refuse : String → ρ}

/-- A vocabulary of plain names, none of them listed twice, is read by the spellings of names. -/
theorem readsNames_of_vocabulary (hplain : ∀ p ∈ vocabulary, IsPlainName p.1)
    (hnames : (vocabulary.map Prod.fst).Nodup)
    (hlisted : ∀ name x, (name, x) ∈ vocabulary ↔ name ∈ names x)
    (hread : ∀ raw, read raw = answered accept refuse (readName vocabulary raw))
    (hinj : ∀ x y, accept x = accept y → x = y) (hne : ∀ x name, refuse name ≠ accept x) :
    ReadsNames read names accept refuse := by
  have hspells : ∀ raw x, readName vocabulary raw = .ok x ↔ ∃ name ∈ names x, Spells raw name := by
    intro raw x
    rw [readName_eq_ok_iff hnames, hlisted]
    constructor
    · exact fun h => ⟨_, h, (spells_iff (hplain _ ((hlisted _ x).2 h))).2 rfl⟩
    · rintro ⟨name, hname, h⟩
      rwa [(spells_iff (hplain _ ((hlisted name x).2 hname))).1 h]
  have haccepts : ∀ raw x, read raw = accept x ↔ ∃ name ∈ names x, Spells raw name := by
    intro raw x
    rw [← hspells, hread]
    cases readName vocabulary raw with
    | ok y => exact ⟨fun h => congrArg _ (hinj y x h), fun h => congrArg _ (Except.ok.inj h)⟩
    | error name => exact iff_of_false (hne x name) nofun
  refine ⟨haccepts, fun raw hnone => ?_, fun raw raw' front back hfront hback h => ?_,
    fun raw x core h hcore => ?_⟩
  · rcases readName_cases vocabulary raw with ⟨x, hx⟩ | herror
    · obtain ⟨name, hname, h⟩ := (hspells raw x).1 hx
      exact absurd h (hnone x name hname)
    · refine ⟨_, plainName raw, stripped_trimmed _, lowered_plainName raw, ?_⟩
      rw [hread, herror, answered]
  · rw [hread, hread, readName, readName, plainName_congr hfront hback h]
  · obtain ⟨name, hname, hspelled⟩ := (haccepts raw x).1 h
    exact plain_of_spells (hplain _ ((hlisted name x).2 hname)) hspelled hcore

end Vocabulary

end Interning.Text
