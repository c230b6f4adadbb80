import Interning.Proofs.Text.Order
import Interning.World.Content
import Mathlib.Data.Finset.Card
import Mathlib.Data.List.Nodup

/-!
# Handles compared, hashed and sorted by content

Equality, order and hash of handles all come down to their texts.  So a set of handles holds one for
each text, whatever the hash, and is searched by a text as well as by a handle; and its members, put
in order, have the texts one after the other.

    t ∈ texts of contentSet hash is ↔ t ∈ texts of is                   (mem_texts_contentSet)
    the texts of contentSet hash is have no duplicates                 (nodup_texts_contentSet)
    greatest? is = some m → m ∈ is and nothing in is is greater                   (greatest?_cons)
    all of it for every list of handles                                      (content_coherent)
-/

namespace Interning.World

/-! ## Algorithm -/

/-- Equality, order and hash of handles agree with each other and with the texts, on all handles and
in the sets and lists made of the handles `is`. -/
structure ContentCoherent (w : World) (is : List InstanceId) : Prop where
  /-- Handles are equal exactly if their texts are, whether they are one instance or two. -/
  equal : ∀ i j, w.sameContent i j = true ↔ w.text i = w.text j
  /-- No two handles that are not equal stand at the same place. -/
  placed : ∀ i j, w.compareContent i j = .eq ↔ w.sameContent i j = true
  /-- Of any two handles one is not after the other. -/
  swapped : ∀ i j, w.compareContent i j = (w.compareContent j i).swap
  transitive : ∀ i j k, (w.compareContent i j).isLE = true → (w.compareContent j k).isLE = true →
    (w.compareContent i k).isLE = true
  /-- The first byte that differs decides. -/
  bytes : ∀ i j, Text.ComparesLex (Text.bytes (w.text i)) (Text.bytes (w.text j))
    (w.compareContent i j)
  /-- So does the first code point that differs. -/
  codePoints : ∀ i j, Text.ComparesLex (Text.codePoints (w.text i)) (Text.codePoints (w.text j))
    (w.compareContent i j)
  /-- A hasher is fed alike by equal handles, and by a handle and its text, and by no others. -/
  fed : ∀ i s, Text.hashFeed (w.text i) = Text.hashFeed s ↔ w.text i = s
  fedAlike : ∀ i j, Text.hashFeed (w.text i) = Text.hashFeed (w.text j) ↔ w.sameContent i j = true
  /-- A set has as many members as there are texts. -/
  size : ∀ hash, (w.contentSet hash is).length = (is.map w.text).toFinset.card
  /-- A text is found in a set exactly if a handle has it. -/
  found : ∀ hash s, w.hasText hash (w.contentSet hash is) s = true ↔ ∃ i ∈ is, w.text i = s
  /-- The members of a set, in whatever order they come, are sorted into the texts in strictly
  ascending order, the greatest one last. -/
  sorted : ∀ (hash : List UInt8 → UInt64) (js : List InstanceId),
    js.Perm (w.contentSet hash is) →
      let texts := (w.sortContent js).map w.text
      texts.Pairwise (fun s t => List.Lex (· < ·) (Text.codePoints s) (Text.codePoints t)) ∧
        (∀ s, s ∈ texts ↔ ∃ i ∈ is, w.text i = s) ∧
        texts.getLast? = (w.greatest? is).map w.text
  /-- Some handle is the greatest one, unless there is none. -/
  greatest : (is = [] ∧ w.greatest? is = none) ∨
    ∃ m ∈ is, w.greatest? is = some m ∧ ∀ i ∈ is, w.compareContent i m ≠ .gt

/-! ## Lemmas -/

variable (w : World) {is js : List InstanceId} {i j k : InstanceId} {s : String}

theorem sameContent_iff : w.sameContent i j = true ↔ w.text i = w.text j := by
  rw [sameContent_eq, beq_iff_eq]

theorem compareContent_eq (i j : InstanceId) :
    w.compareContent i j = Text.compareBytes (w.text i) (w.text j) := rfl

instance : Std.TransCmp w.compareContent where
  eq_swap := by
    intro i j
    rw [compareContent_eq, compareContent_eq]
    exact Std.OrientedCmp.eq_swap
  isLE_trans := by
    intro i j k hij hjk
    rw [compareContent_eq] at hij hjk ⊢
    exact Std.TransCmp.isLE_trans hij hjk

theorem compareContent_eq_eq_iff (i j : InstanceId) :
    w.compareContent i j = .eq ↔ w.text i = w.text j := by
  rw [compareContent_eq]
  exact Std.LawfulEqCmp.compare_eq_iff_eq

/-- Of two handles one is at most the other. -/
theorem isLE_total (i j : InstanceId) :
    (w.compareContent i j).isLE = true ∨ (w.compareContent j i).isLE = true := by
  by_cases hij : (w.compareContent i j).isLE = true
  · exact .inl hij
  · refine .inr ?_
    rw [Std.OrientedCmp.lt_of_not_isLE hij]
    rfl

/-! ### Sets -/

section Sets

variable (hash : List UInt8 → UInt64)

/-- Equal texts have equal hashes, so to look at the hashes first makes no difference. -/
theorem hash_beq_and_iff {s t : String} :
    (hash (Text.hashFeed s) == hash (Text.hashFeed t)) = true ∧ s = t ↔ s = t := by
  refine and_iff_right_of_imp fun h => ?_
  rw [h, beq_iff_eq]

/-- A handle is put into a set unless its text is there. -/
theorem texts_insertContent (set : List InstanceId) (i : InstanceId) :
    (w.insertContent hash set i).map w.text =
      if w.text i ∈ set.map w.text then set.map w.text else set.map w.text ++ [w.text i] := by
  have hpresent : (set.any fun j => hash (Text.hashFeed (w.text j)) ==
      hash (Text.hashFeed (w.text i)) && w.sameContent j i) = true ↔
        w.text i ∈ set.map w.text := by
    rw [List.any_eq_true, List.mem_map]
    refine exists_congr fun j => and_congr_right fun _ => ?_
    rw [Bool.and_eq_true, sameContent_iff, hash_beq_and_iff]
  rw [insertContent]
  by_cases h : w.text i ∈ set.map w.text
  · rw [if_pos h, if_pos (hpresent.2 h)]
  · rw [if_neg h, if_neg (hpresent.not.2 h), List.map_append, List.map_singleton]

theorem nodup_texts_foldl {set : List InstanceId} (h : (set.map w.text).Nodup) :
    ((is.foldl (w.insertContent hash) set).map w.text).Nodup := by
  induction is generalizing set with
  | nil => exact h
  | cons i is ih =>
    refine ih ?_
    rw [texts_insertContent]
    split
    · exact h
    · next hi => exact List.nodup_append.2 ⟨h, List.nodup_singleton _, by simpa using hi⟩

theorem mem_texts_foldl {set : List InstanceId} :
    s ∈ (is.foldl (w.insertContent hash) set).map w.text ↔
      s ∈ set.map w.text ∨ s ∈ is.map w.text := by
  induction is generalizing set with
  | nil => simp
  | cons i is ih =>
    rw [List.foldl_cons, ih, texts_insertContent, List.map_cons, List.mem_cons]
    split
    · next hi =>
      constructor
      · rintro (h | h)
        · exact .inl h
        · exact .inr (.inr h)
      · rintro (h | rfl | h)
        · exact .inl h
        · exact .inl hi
        · exact .inr h
    · rw [List.mem_append, List.mem_singleton, or_assoc]

/-- No two members of a set have the same text. -/
theorem nodup_texts_contentSet (is : List InstanceId) :
    ((w.contentSet hash is).map w.text).Nodup :=
  w.nodup_texts_foldl hash List.nodup_nil

/-- A set has the texts of the handles that it was made of. -/
theorem mem_texts_contentSet :
    s ∈ (w.contentSet hash is).map w.text ↔ s ∈ is.map w.text := by
  rw [contentSet, mem_texts_foldl]
  exact or_iff_right List.not_mem_nil

theorem length_contentSet (is : List InstanceId) :
    (w.contentSet hash is).length = (is.map w.text).toFinset.card := by
  rw [← List.length_map w.text, ← List.toFinset_card_of_nodup (w.nodup_texts_contentSet hash is)]
  refine congrArg Finset.card (Finset.ext fun s => ?_)
  rw [List.mem_toFinset, List.mem_toFinset, mem_texts_contentSet]

/-- A text is found where a member has it, whatever the hash. -/
theorem hasText_iff {set : List InstanceId} :
    w.hasText hash set s = true ↔ s ∈ set.map w.text := by
  rw [hasText, List.any_eq_true, List.mem_map]
  refine exists_congr fun j => and_congr_right fun _ => ?_
  rw [Bool.and_eq_true, beq_iff_eq (b := s), hash_beq_and_iff]

end Sets

/-! ### Order -/

theorem perm_sortContent (js : List InstanceId) : (w.sortContent js).Perm js :=
  List.mergeSort_perm ..

/-- Handles that differ in their texts are sorted into strictly ascending order. -/
theorem pairwise_sortContent (h : (js.map w.text).Nodup) :
    (w.sortContent js).Pairwise fun i j => w.compareContent i j = .lt := by
  have hle : (w.sortContent js).Pairwise fun i j => (w.compareContent i j).isLE = true :=
    List.pairwise_mergeSort (fun _ _ _ => Std.TransCmp.isLE_trans)
      (fun i j => Bool.or_eq_true_iff.2 (w.isLE_total i j)) js
  have hne : (w.sortContent js).Pairwise fun i j => w.text i ≠ w.text j :=
    List.pairwise_map.1 (((w.perm_sortContent js).map w.text).nodup_iff.2 h)
  refine (hle.and hne).imp fun {i j} ⟨hij, htext⟩ => ?_
  cases hcmp : w.compareContent i j with
  | lt => rfl
  | eq => exact absurd ((w.compareContent_eq_eq_iff i j).1 hcmp) htext
  | gt =>
    rw [hcmp] at hij
    cases hij

/-- The last one of sorted handles has the last one of their texts. -/
theorem isLast_getLast?_sortContent (h : (js.map w.text).Nodup) {l : InstanceId}
    (hl : (w.sortContent js).getLast? = some l) : Text.IsLast (js.map w.text) (w.text l) := by
  obtain ⟨front, hfront⟩ := List.getLast?_eq_some_iff.1 hl
  have hpairwise := w.pairwise_sortContent h
  rw [hfront, List.pairwise_append] at hpairwise
  have hlast : Text.IsLast ((w.sortContent js).map w.text) (w.text l) := by
    refine ⟨List.mem_map_of_mem (List.mem_of_mem_getLast? hl), fun t ht => ?_⟩
    obtain ⟨i, hi, rfl⟩ := List.mem_map.1 ht
    rw [hfront, List.mem_append, List.mem_singleton] at hi
    rcases hi with hi | rfl
    · have hlt : Text.compareBytes (w.text i) (w.text l) = .lt :=
        hpairwise.2.2 i hi l (List.mem_singleton_self l)
      rw [hlt]
      rfl
    · exact Std.ReflCmp.isLE_rfl
  exact hlast.congr fun t => ((w.perm_sortContent js).map w.text).mem_iff

theorem greatest?_cons_cons (i j : InstanceId) (is : List InstanceId) :
    w.greatest? (i :: j :: is) =
      w.greatest? ((if (w.compareContent i j).isLE then j else i) :: is) := rfl

/-- The greatest handle is one of them, and none of them is greater. -/
theorem greatest?_cons (i : InstanceId) (is : List InstanceId) :
    ∃ m ∈ i :: is, w.greatest? (i :: is) = some m ∧
      ∀ j ∈ i :: is, (w.compareContent j m).isLE = true := by
  induction is generalizing i with
  | nil =>
    refine ⟨i, List.mem_singleton_self i, rfl, fun j hj => ?_⟩
    rw [List.mem_singleton.1 hj]
    exact Std.ReflCmp.isLE_rfl
  | cons j is ih =>
    rw [greatest?_cons_cons]
    by_cases hij : (w.compareContent i j).isLE = true
    · rw [if_pos hij]
      obtain ⟨m, hm, hgreatest, hle⟩ := ih j
      have hjm := hle j List.mem_cons_self
      exact ⟨m, List.mem_cons_of_mem i hm, hgreatest,
        List.forall_mem_cons.2 ⟨Std.TransCmp.isLE_trans hij hjm, hle⟩⟩
    · rw [if_neg hij]
      obtain ⟨m, hm, hgreatest, hle⟩ := ih i
      obtain ⟨him, hle⟩ := List.forall_mem_cons.1 hle
      have hji := (w.isLE_total i j).resolve_left hij
      refine ⟨m, ?_, hgreatest, List.forall_mem_cons.2 ⟨him,
        List.forall_mem_cons.2 ⟨Std.TransCmp.isLE_trans hji him, hle⟩⟩⟩
      rcases List.mem_cons.1 hm with rfl | hm
      · exact List.mem_cons_self
      · exact List.mem_cons_of_mem i (List.mem_cons_of_mem j hm)

/-- The greatest handle has the last one of the texts. -/
theorem isLast_greatest? {m : InstanceId} (h : w.greatest? is = some m) :
    Text.IsLast (is.map w.text) (w.text m) := by
  cases is with
  | nil => cases h
  | cons i is =>
    obtain ⟨m', hm, hgreatest, hle⟩ := w.greatest?_cons i is
    obtain rfl := Option.some.inj (hgreatest.symm.trans h)
    refine ⟨List.mem_map_of_mem hm, fun t ht => ?_⟩
    obtain ⟨j, hj, rfl⟩ := List.mem_map.1 ht
    exact hle j hj

theorem greatest?_eq_none_iff : w.greatest? is = none ↔ is = [] := by
  cases is with
  | nil => exact iff_of_true rfl rfl
  | cons i is => exact iff_of_false (Option.some_ne_none _) (List.cons_ne_nil i is)

/-- The members of a set that are put in order end with the greatest one. -/
theorem getLast?_sortContent (hnodup : (js.map w.text).Nodup)
    (hmem : ∀ s, s ∈ js.map w.text ↔ s ∈ is.map w.text) :
    ((w.sortContent js).map w.text).getLast? = (w.greatest? is).map w.text := by
  rw [List.getLast?_map]
  cases hl : (w.sortContent js).getLast? with
  | some l =>
    have hlast := (w.isLast_getLast?_sortContent hnodup hl).congr hmem
    cases hm : w.greatest? is with
    | some m => exact congrArg some (hlast.unique (w.isLast_greatest? hm))
    | none =>
      rw [w.greatest?_eq_none_iff.1 hm] at hlast
      cases hlast.1
  | none =>
    have hperm := w.perm_sortContent js
    rw [List.getLast?_eq_none_iff.1 hl, List.nil_perm] at hperm
    subst hperm
    cases is with
    | nil => rfl
    | cons i is => cases (hmem (w.text i)).2 List.mem_cons_self

/-! ### Main statement -/

/-- Whatever texts the handles have, and whichever of them are one instance. -/
theorem content_coherent (w : World) (is : List InstanceId) : w.ContentCoherent is where
  equal i j := w.sameContent_iff
  placed i j := by rw [sameContent_iff, compareContent_eq_eq_iff]
  swapped i j := Std.OrientedCmp.eq_swap
  transitive i j k := Std.TransCmp.isLE_trans
  bytes i j := by
    rw [compareContent_eq, Text.compareBytes_eq]
    exact Text.comparesLex_compare ..
  codePoints i j := by
    rw [compareContent_eq, Text.compareBytes_eq_codePoints]
    exact Text.comparesLex_compare ..
  fed i s := Text.hashFeed_inj
  fedAlike i j := by rw [sameContent_iff, Text.hashFeed_inj]
  size hash := w.length_contentSet hash is
  found hash s := by rw [hasText_iff, mem_texts_contentSet, List.mem_map]
  sorted hash js hjs := by
    have htexts := hjs.map w.text
    have hnodup := htexts.nodup_iff.2 (w.nodup_texts_contentSet hash is)
    have hmem : ∀ s, s ∈ js.map w.text ↔ s ∈ is.map w.text := fun s =>
      htexts.mem_iff.trans (w.mem_texts_contentSet hash)
    refine ⟨?_, fun s => ?_, w.getLast?_sortContent hnodup hmem⟩
    · refine List.pairwise_map.2 ((w.pairwise_sortContent hnodup).imp fun {i j} hij => ?_)
      rw [compareContent_eq, Text.compareBytes_eq_codePoints] at hij
      exact Text.compare_eq_lt_iff_lex.1 hij
    · rw [((w.perm_sortContent js).map w.text).mem_iff, hmem, List.mem_map]
  greatest := by
    cases is with
    | nil => exact .inl ⟨rfl, rfl⟩
    | cons i is =>
      obtain ⟨m, hm, hgreatest, hle⟩ := w.greatest?_cons i is
      refine .inr ⟨m, hm, hgreatest, fun j hj hgt => ?_⟩
      have hj := hle j hj
      rw [hgt] at hj
      cases hj

/-- Two instances of one text are one member of a set, also if all hashes collide, and a text beyond
the basic plane comes after U+FFFF, although its surrogates would not. -/
theorem content_coherent_astral :
    let w : World := (createAll ["b", "😀", "\uffff", "b"] {}).2
    let hash : List UInt8 → UInt64 := fun _ => 0
    let set := w.contentSet hash [0, 1, 2, 3, 0]
    w.sameContent 0 3 = true ∧ set.length = 3 ∧ w.compareContent 2 1 = .lt ∧
      w.hasText hash set "\uffff" = true ∧
      ((w.sortContent set.reverse).map w.text).getLast? = some "😀" := by
  intro w hash set
  have hc := content_coherent w [0, 1, 2, 3, 0]
  refine ⟨(hc.equal 0 3).2 (by decide +kernel), (hc.size hash).trans (by decide +kernel),
    by decide +kernel, (hc.found hash "\uffff").2 ⟨2, by decide, by decide +kernel⟩, ?_⟩
  exact (hc.sorted hash set.reverse set.reverse_perm).2.2.trans (by decide +kernel)

end Interning.World
