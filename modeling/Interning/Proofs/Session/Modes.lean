import Interning.Proofs.Session.Sparing

/-!
# Both kinds of tables keep one contract

As long as its clients hold what it answers, an interner is a list of texts with counters, whatever
keeps its entries: a text is found under its key or put in front.  A `Contract` is this list, and
every table keeps it, so two interners that are asked for the same texts answer alike.

    c.stored? f s = the text of the instance stored under the key of s           (Meets.stored?_eq)
    a call that finds its key, or stores a text, or looks one up, does what the contract does
                      (Meets.interned_of_some, Meets.interned_of_none, Meets.found)
    anything else leaves the contract as it is                                       (Meets.spared)
    two clients who ask alike are answered alike                                   (answered_alike)
-/

namespace Interning

/-! ## Algorithm -/

/-! ### Visits -/

/-- What an interner shows of itself, but for its mode. -/
structure Shown where
  size : Nat
  liveSize : Nat
  counters : Counters
  entries : UInt64
  deriving DecidableEq

def Strategy.shown (s : Strategy) (w : World) : Shown :=
  ⟨(s.size w).1, (s.liveSize w).1, (s.stats w).1.counters, (s.stats w).1.entries⟩

/-- What a client asks for. -/
inductive Request
  | intern (value : String)
  | lookup (value : String)
  deriving DecidableEq

def Request.value : Request → String
  | intern value | lookup value => value

/-- What a client is told, and what the interner shows then. -/
structure Response where
  /-- Whether an instance was there. -/
  found : Bool
  /-- The text of the handle answered. -/
  text : Option String
  shown : Shown
  deriving DecidableEq

/-- What a client asked an interner for, and what it answered. -/
structure Visit where
  request : Request
  /-- The handle that the client gave, if it did not give a text. -/
  given : Option InstanceId
  answer : Option InstanceId
  response : Response
  deriving DecidableEq

/-- The visit that an intern call is. -/
def Visit.ofIntern (t : TableId) (f : Normalizer) (a : Argument) (w : World) : Visit :=
  let (o, w') := w.intern t f a
  ⟨.intern (a.value w), a.leftover, some o.canonical,
    ⟨o.isHit, some (w'.text o.canonical), (Strategy.table t).shown w'⟩⟩

/-- The visit that a look-up is. -/
def Visit.ofLookup (t : TableId) (f : Normalizer) (text : String) (w : World) : Visit :=
  let (found, w') := (Interner.mk (.table t) f).lookup text w
  ⟨.lookup text, none, found, ⟨found.isSome, found.map w'.text, (Strategy.table t).shown w'⟩⟩

/-- The visit to the interner of a table that an operation is. -/
def Operation.visit? (t : TableId) (w : World) : Operation → Option Visit
  | intern s f a => if s = .table t then some (.ofIntern t f a w) else none
  | find n text => if n.strategy = .table t then some (.ofLookup t n.normalizer text w) else none
  | _ => none

/-- The key under which there is what was answered. -/
def Visit.mark (f : Normalizer) (v : Visit) : Option String :=
  v.response.text.map fun _ => f.key v.request.value

/-- The visits to the interner of a table, one after another. -/
def Session.visits (t : TableId) : List Operation → Session → List Visit
  | [], _ => []
  | op :: ops, σ => (op.visit? t σ.world).toList ++ visits t ops (op.effect σ)

/-! ### The contract -/

/-- What an interner promises while what it answers is held. -/
structure Contract where
  /-- The texts stored, the last one in front. -/
  texts : List String := []
  counters : Counters := {}

namespace Contract

/-- The text stored under the key of a value. -/
def stored? (f : Normalizer) (value : String) (c : Contract) : Option String :=
  c.texts.find? fun s => f.key s == f.key value

/-- Every entry is live, and nothing is ever reclaimed. -/
def shown (c : Contract) : Shown :=
  ⟨c.texts.length, c.texts.length, c.counters, .ofNat c.texts.length⟩

/-- After a call that found its text. -/
def hit (c : Contract) : Contract := { c with counters := c.counters.record .hit }

/-- After a call that did not find its text. -/
def store (f : Normalizer) (value : String) (c : Contract) : Contract where
  texts := value :: c.texts
  counters := c.counters.record (.miss false (World.entryBytes (f.key value) value))

/-- Does what is asked for. -/
def serve (f : Normalizer) (r : Request) (c : Contract) : Response × Contract :=
  match r, c.stored? f r.value with
  | .lookup _, found => (⟨found.isSome, found, c.shown⟩, c)
  | .intern _, some s => (⟨true, some s, c.hit.shown⟩, c.hit)
  | .intern value, none => (⟨false, some value, (c.store f value).shown⟩, c.store f value)

/-- Does what is asked for, one after another. -/
def serveAll (f : Normalizer) : List Request → Contract → List Response × Contract
  | [], c => ([], c)
  | r :: rs, c =>
    let (x, c) := c.serve f r
    let (xs, c) := serveAll f rs c
    (x :: xs, c)

end Contract

/-! ### Clients -/

/-- An operation that uses the interner of a table uses it with its normalizer. -/
def Operation.Uses (t : TableId) (f : Normalizer) : Operation → Prop
  | intern s g _ => s = .table t → g = f
  | find n _ => n.strategy = .table t → n.normalizer = f
  | _ => True

namespace Session

/-- All along some operations the clients have an owner of a table, and a handle to each instance
that its interner answered. -/
def Held (t : TableId) (ops : List Operation) (σ : Session) : Prop :=
  ∀ before σ', before <+: ops → run before σ = some σ' →
    .table t ∈ σ'.targets ∧ ∀ v ∈ visits t before σ, ∀ i ∈ v.answer, i ∈ σ'.handles

instance (t : TableId) (ops : List Operation) (σ : Session) : Decidable (Held t ops σ) :=
  decidable_of_iff (∀ before ∈ ops.inits, ∀ σ' ∈ run before σ,
      .table t ∈ σ'.targets ∧ ∀ v ∈ visits t before σ, ∀ i ∈ v.answer, i ∈ σ'.handles)
    ⟨fun h before σ' hpre hrun => h before ((List.mem_inits ..).2 hpre) σ' hrun,
      fun h before hpre σ' hrun => h before σ' ((List.mem_inits ..).1 hpre) hrun⟩

/-- Clients use an interner in whose table there was nothing at first, and hold what it answers. -/
structure Holds (k : Storage) (t : TableId) (f : Normalizer) (ops : List Operation)
    (σ : Session) : Prop where
  reached : ∃ before, run before {} = some σ
  storage : (σ.world.tableAt t).storage = k
  entries : σ.world.entries t = ∅
  counters : (σ.world.tableAt t).counters = {}
  uses : ∀ op ∈ ops, op.Uses t f
  runs : ∃ σ', run ops σ = some σ'
  held : Held t ops σ

/-- What the table of an interner has to do with its contract after some visits. -/
structure Meets (t : TableId) (f : Normalizer) (c : Contract) (l : List Visit)
    (σ : Session) : Prop where
  served : Contract.serveAll f (l.map Visit.request) {} = (l.map Visit.response, c)
  texts : (σ.world.entries t).toList.map (fun e => (e.1, σ.world.text e.2)) =
    c.texts.map fun s => (f.key s, s)
  counters : (σ.world.tableAt t).counters = c.counters
  answered : ∀ v ∈ l, ∀ i ∈ v.answer,
    (σ.world.entries t).get? (f.key v.request.value) = some i
  stored : ∀ i ∈ (σ.world.entries t).values, ∃ v ∈ l, v.answer = some i
  told : ∀ v ∈ l, v.response.text = v.answer.map σ.world.text
  given : ∀ v ∈ l, ∀ i ∈ v.given,
    i < σ.world.instances.size ∧ v.request = .intern (σ.world.text i)

end Session

/-- Two clients ask alike: each time for the same text, or each with the handle that it was answered
at the same earlier visit. -/
structure AskAlike (l l' : List Visit) : Prop where
  length : l.length = l'.length
  each : ∀ (p : Nat) (v v' : Visit), l[p]? = some v → l'[p]? = some v' →
    v.request = v'.request ∨ ∃ q < p, ∃ u u' : Visit, l[q]? = some u ∧ l'[q]? = some u' ∧
      v.given ≠ none ∧ v.given = u.answer ∧ v'.given ≠ none ∧ v'.given = u'.answer

/-- Two clients are told the same, and where one of them is answered the same instance twice, so is
the other. -/
structure AnsweredAlike (l l' : List Visit) : Prop where
  responses : l.map Visit.response = l'.map Visit.response
  identity : ∀ p q : Nat, (l.map Visit.answer)[p]? = (l.map Visit.answer)[q]? ↔
    (l'.map Visit.answer)[p]? = (l'.map Visit.answer)[q]?

namespace Session

/-- An interner of a mode is made that folds case, where another one has an instance already. -/
def foldingMade (mode : Mode) : List Operation :=
  [.plain .reclaiming, .intern (.table 0) .verbatim (.text "A"),
    .configured { mode := mode } ⟨false, true⟩ .asciiCaseFold]

/-- The instance of the other interner is interned and found, what was answered is interned again,
and so is another text. -/
def foldingUsed (answered : InstanceId) : List Operation :=
  [.intern (.table 1) .asciiCaseFold (.handle 0), .find ⟨.table 1, .asciiCaseFold⟩ "a",
    .intern (.table 1) .asciiCaseFold (.handle answered),
    .intern (.table 1) .asciiCaseFold (.text "b"), .find ⟨.table 1, .asciiCaseFold⟩ "c"]

end Session

/-! ## Lemmas -/

/-! ### Lists -/

section Lists

variable {κ α β : Type} [DecidableEq κ]

theorem lookup_map_snd (l : List (κ × α)) (g : α → β) (k : κ) :
    (l.map fun e => (e.1, g e.2)).lookup k = (l.lookup k).map g := by
  induction l with
  | nil => rfl
  | cons e l ih =>
    rw [List.map_cons, List.lookup_cons, List.lookup_cons]
    cases k == e.1 with
    | true => rfl
    | false => exact ih

theorem lookup_map_key (l : List α) (key : α → κ) (k : κ) :
    (l.map fun s => (key s, s)).lookup k = l.find? fun s => key s == k := by
  induction l with
  | nil => rfl
  | cons s l ih =>
    rw [List.map_cons, List.lookup_cons, List.find?_cons, Bool.beq_comm]
    cases key s == k with
    | true => rfl
    | false => exact ih

end Lists

namespace Contract

variable {f : Normalizer}

theorem serve_lookup (c : Contract) (value : String) : c.serve f (.lookup value) =
    (⟨(c.stored? f value).isSome, c.stored? f value, c.shown⟩, c) := rfl

theorem serve_intern_of_some {c : Contract} {value s : String} (h : c.stored? f value = some s) :
    c.serve f (.intern value) = (⟨true, some s, c.hit.shown⟩, c.hit) := by
  simp only [serve, Request.value, h]

theorem serve_intern_of_none {c : Contract} {value : String} (h : c.stored? f value = none) :
    c.serve f (.intern value) =
      (⟨false, some value, (c.store f value).shown⟩, c.store f value) := by
  simp only [serve, Request.value, h]

theorem serveAll_append (rs rs' : List Request) (c : Contract) :
    serveAll f (rs ++ rs') c =
      ((serveAll f rs c).1 ++ (serveAll f rs' (serveAll f rs c).2).1,
        (serveAll f rs' (serveAll f rs c).2).2) := by
  induction rs generalizing c with
  | nil => rfl
  | cons r rs ih =>
    simp only [List.cons_append, serveAll, ih]

theorem serveAll_concat {rs : List Request} {r : Request} {c c' c₀ : Contract} {xs : List Response}
    {x : Response} (h : serveAll f rs c₀ = (xs, c)) (hr : c.serve f r = (x, c')) :
    serveAll f (rs ++ [r]) c₀ = (xs ++ [x], c') := by
  rw [serveAll_append, h]
  simp only [serveAll, hr]

/-- What is told first does not depend on what is asked for later. -/
theorem serveAll_take (rs : List Request) (n : Nat) (c : Contract) :
    (serveAll f (rs.take n) c).1 = (serveAll f rs c).1.take n := by
  induction rs generalizing n c with
  | nil => rw [List.take_nil]; exact List.take_nil.symm
  | cons r rs ih =>
    cases n with
    | zero => rfl
    | succ n => simp only [List.take_succ_cons, serveAll, ih]

end Contract

/-- Clients that ask for the same texts ask alike. -/
theorem AskAlike.of_requests {l l' : List Visit}
    (h : l.map Visit.request = l'.map Visit.request) : AskAlike l l' where
  length := by
    have hlength := congrArg List.length h
    rwa [List.length_map, List.length_map] at hlength
  each p v v' hv hv' := by
    have hat := congrArg (·[p]?) h
    simp only [List.getElem?_map, hv, hv', Option.map_some, Option.some_inj] at hat
    exact .inl hat

/-! ### One step -/

theorem Visit.ofIntern_eq (t : TableId) (f : Normalizer) (a : Argument) (w : World) :
    ofIntern t f a w = ⟨.intern (a.value w), a.leftover, some (w.intern t f a).1.canonical,
      ⟨(w.intern t f a).1.isHit, some ((w.intern t f a).2.text (w.intern t f a).1.canonical),
        (Strategy.table t).shown (w.intern t f a).2⟩⟩ := rfl

theorem Visit.ofLookup_eq (t : TableId) (f : Normalizer) (text : String) (w : World) :
    ofLookup t f text w = ⟨.lookup text, none, w.live? t (f.key text),
      ⟨(w.live? t (f.key text)).isSome,
        (w.live? t (f.key text)).map ((Interner.mk (.table t) f).lookup text w).2.text,
        (Strategy.table t).shown ((Interner.mk (.table t) f).lookup text w).2⟩⟩ := by
  have hfound : ((Interner.mk (.table t) f).lookup text w).1 = w.live? t (f.key text) := by
    obtain ⟨j, he⟩ := (w.note .normalize).lookup_eq t (f.key text)
    exact congrArg Prod.fst he
  rw [← hfound]
  rfl

theorem Operation.visit?_intern (t : TableId) (f : Normalizer) (a : Argument) (w : World) :
    (Operation.intern (.table t) f a).visit? t w = some (.ofIntern t f a w) := if_pos rfl

theorem Operation.visit?_find (t : TableId) (f : Normalizer) (text : String) (w : World) :
    (Operation.find ⟨.table t, f⟩ text).visit? t w = some (.ofLookup t f text w) := if_pos rfl

namespace Session

variable {σ σ' : Session} {m m' : Machine} {t : TableId} {f : Normalizer} {c c' : Contract}
  {l : List Visit} {op : Operation} {ops : List Operation}

namespace Shadow

/-- What is stored in a table that is there is live. -/
theorem live?_eq (hm : σ.Shadow m) (ho : σ.world.isOwned t = true) (key : String) :
    σ.world.live? t key = (σ.world.entries t).get? key := by
  refine Option.ext fun i => ?_
  rw [World.live?_eq_some_iff, and_iff_left_iff_imp, World.isLive_iff]
  exact fun hi => hm.handles_pos_of_stored ho (KeyMap.mem_values_iff.2 ⟨key, hi⟩)

theorem liveSize_eq (hm : σ.Shadow m) (ho : σ.world.isOwned t = true) :
    σ.world.liveSize t = σ.world.size t := by
  have hall : ∀ i ∈ (σ.world.entries t).values, σ.world.isLive i = true := fun i hi =>
    World.isLive_iff.2 (hm.handles_pos_of_stored ho hi)
  rw [World.liveSize, List.countP_eq_length.2 hall]
  exact List.length_map ..

/-- What is shown is what the contract promises. -/
theorem shown_eq (hm : σ.Shadow m) (ho : σ.world.isOwned t = true)
    (htexts : (σ.world.entries t).toList.map (fun e => (e.1, σ.world.text e.2)) =
      c.texts.map fun s => (f.key s, s))
    (hcounters : (σ.world.tableAt t).counters = c.counters) :
    (Strategy.table t).shown σ.world = c.shown := by
  have hsize : σ.world.size t = c.texts.length := by
    have hlength := congrArg List.length htexts
    rwa [List.length_map, List.length_map] at hlength
  show (⟨σ.world.size t, σ.world.liveSize t, (σ.world.tableAt t).counters,
    .ofNat (σ.world.size t)⟩ : Shown) = c.shown
  rw [hm.liveSize_eq ho, hsize, hcounters]
  rfl

end Shadow

theorem world_effect_intern (σ : Session) (t : TableId) (f : Normalizer) (a : Argument) :
    ((Operation.intern (.table t) f a).effect σ).world = (σ.world.intern t f a).2 := rfl

namespace Meets

/-- There is nothing to promise of an interner that nothing was asked of. -/
theorem of_empty (hentries : σ.world.entries t = ∅)
    (hcounters : (σ.world.tableAt t).counters = {}) : σ.Meets t f {} [] where
  served := rfl
  texts := by
    rw [hentries]
    rfl
  counters := hcounters
  answered _ hv := absurd hv List.not_mem_nil
  stored _ hi := by
    rw [hentries] at hi
    exact absurd hi List.not_mem_nil
  told _ hv := absurd hv List.not_mem_nil
  given _ hv := absurd hv List.not_mem_nil

theorem stored?_eq (h : σ.Meets t f c l) (value : String) :
    c.stored? f value = ((σ.world.entries t).get? (f.key value)).map σ.world.text := by
  rw [Contract.stored?, ← lookup_map_key c.texts f.key (f.key value), ← h.texts]
  exact lookup_map_snd _ _ _

/-- As long as the clients hold what was answered, what is registered with the table is kept. -/
theorem keeps (h : σ.Meets t f c l) (hm : σ.Shadow m) (hm' : σ'.Shadow m')
    (ho : σ.world.isOwned t = true) (hheld : ∀ v ∈ l, ∀ i ∈ v.answer, i ∈ σ'.handles) :
    σ.world.Keeps t σ'.world := by
  intro i key hreg hpos
  have hs : (σ.world.tableAt t).storage = .reclaiming := by
    have hreg' : m.world.registration i = some ⟨t, key⟩ := by rwa [hm.world]
    rw [← hm.world]
    exact hm.valid.sound.registered.reclaiming i _ hreg'
  have hstored := (hm.stored ho hs key i).2 ⟨hreg, hpos⟩
  obtain ⟨v, hv, hanswer⟩ := h.stored i (KeyMap.mem_values_iff.2 ⟨key, hstored⟩)
  exact hm'.handles_pos (hheld v hv i hanswer)

/-- What is stored keeps its text. -/
theorem texts_congr (h : σ.Meets t f c l) (hm : σ.Shadow m) (ho : σ.world.isOwned t = true)
    (htext : ∀ i < σ.world.instances.size, σ'.world.text i = σ.world.text i) :
    (σ.world.entries t).toList.map (fun e => (e.1, σ'.world.text e.2)) =
      c.texts.map fun s => (f.key s, s) := by
  rw [← h.texts]
  refine List.map_congr_left fun e he => ?_
  have hpos := hm.handles_pos_of_stored ho (List.mem_map_of_mem (f := Prod.snd) he)
  rw [htext e.2 (World.lt_size_of_handles_pos hpos)]

/-- What was answered is known by its text for ever. -/
theorem told_congr (h : σ.Meets t f c l) (hm : σ.Shadow m) (ho : σ.world.isOwned t = true)
    (htext : ∀ i < σ.world.instances.size, σ'.world.text i = σ.world.text i) :
    ∀ v ∈ l, v.response.text = v.answer.map σ'.world.text := by
  intro v hv
  rw [h.told v hv]
  cases hanswer : v.answer with
  | none => rfl
  | some i =>
    have hstored := h.answered v hv i hanswer
    have hpos := hm.handles_pos_of_stored ho (KeyMap.mem_values_iff.2 ⟨_, hstored⟩)
    rw [Option.map_some, Option.map_some, htext i (World.lt_size_of_handles_pos hpos)]

theorem given_congr (h : σ.Meets t f c l)
    (hsize : σ.world.instances.size ≤ σ'.world.instances.size)
    (htext : ∀ i < σ.world.instances.size, σ'.world.text i = σ.world.text i) :
    ∀ v ∈ l, ∀ i ∈ v.given,
      i < σ'.world.instances.size ∧ v.request = .intern (σ'.world.text i) := by
  intro v hv i hi
  obtain ⟨hlt, hrequest⟩ := h.given v hv i hi
  exact ⟨Nat.lt_of_lt_of_le hlt hsize, by rw [htext i hlt, hrequest]⟩

/-- What leaves the table alone leaves its contract as it is. -/
theorem spared (h : σ.Meets t f c l) (hm : σ.Shadow m) (ho : σ.world.isOwned t = true)
    (hs : σ.world.Spares t σ'.world) : σ'.Meets t f c l where
  served := h.served
  texts := by
    rw [hs.entries]
    exact h.texts_congr hm ho hs.text
  counters := hs.counters.trans h.counters
  answered := by
    rw [hs.entries]
    exact h.answered
  stored := by
    rw [hs.entries]
    exact h.stored
  told := h.told_congr hm ho hs.text
  given := h.given_congr hs.size hs.text

/-- A visit that finds or stores an instance under its key, and what the contract does for it. -/
theorem visited (h : σ.Meets t f c l) (hm : σ.Shadow m) (ho : σ.world.isOwned t = true)
    (hsize : σ.world.instances.size ≤ σ'.world.instances.size)
    (htext : ∀ i < σ.world.instances.size, σ'.world.text i = σ.world.text i) {v : Visit}
    (hserve : c.serve f v.request = (v.response, c'))
    (htexts : (σ'.world.entries t).toList.map (fun e => (e.1, σ'.world.text e.2)) =
      c'.texts.map fun s => (f.key s, s))
    (hcounters : (σ'.world.tableAt t).counters = c'.counters)
    (hgrow : ∀ key i, (σ.world.entries t).get? key = some i →
      (σ'.world.entries t).get? key = some i)
    (hanswer : ∀ i ∈ v.answer, (σ'.world.entries t).get? (f.key v.request.value) = some i)
    (hnew : ∀ i ∈ (σ'.world.entries t).values,
      i ∈ (σ.world.entries t).values ∨ v.answer = some i)
    (htold : v.response.text = v.answer.map σ'.world.text)
    (hgiven : ∀ i ∈ v.given,
      i < σ'.world.instances.size ∧ v.request = .intern (σ'.world.text i)) :
    σ'.Meets t f c' (l ++ [v]) where
  served := by
    rw [List.map_append, List.map_append]
    exact Contract.serveAll_concat h.served hserve
  texts := htexts
  counters := hcounters
  answered u hu i hi := by
    rcases List.mem_append.1 hu with hu | hu
    · exact hgrow _ i (h.answered u hu i hi)
    · obtain rfl := List.mem_singleton.1 hu
      exact hanswer i hi
  stored i hi := by
    rcases hnew i hi with hi | hi
    · obtain ⟨u, hu, hui⟩ := h.stored i hi
      exact ⟨u, List.mem_append_left _ hu, hui⟩
    · exact ⟨v, List.mem_append_right _ List.mem_cons_self, hi⟩
  told u hu := by
    rcases List.mem_append.1 hu with hu | hu
    · exact h.told_congr hm ho htext u hu
    · obtain rfl := List.mem_singleton.1 hu
      exact htold
  given u hu i hi := by
    rcases List.mem_append.1 hu with hu | hu
    · exact h.given_congr hsize htext u hu i hi
    · obtain rfl := List.mem_singleton.1 hu
      exact hgiven i hi

/-- A look-up. -/
theorem found (h : σ.Meets t f c l) (hm : σ.Shadow m) (hm' : σ'.Shadow m')
    (ho : σ.world.isOwned t = true) (ho' : σ'.world.isOwned t = true) {text : String}
    (hw : σ'.world = ((Interner.mk (.table t) f).lookup text σ.world).2)
    (hs : σ.world.Spares t σ'.world) : σ'.Meets t f c (l ++ [.ofLookup t f text σ.world]) := by
  have h' := h.spared hm ho hs
  have hfound : c.stored? f text = (σ.world.live? t (f.key text)).map σ'.world.text := by
    rw [h'.stored?_eq, hs.entries, hm.live?_eq ho]
  rw [Visit.ofLookup_eq, ← hw]
  refine h'.visited hm' ho' (Nat.le_refl _) (fun _ _ => rfl) ?_ h'.texts h'.counters
    (fun _ _ hi => hi) ?_ (fun _ hi => .inl hi) rfl nofun
  · show c.serve f (.lookup text) = _
    rw [Contract.serve_lookup, hm'.shown_eq ho' h'.texts h'.counters, hfound, Option.isSome_map]
  · intro i hi
    rw [hs.entries, ← hm.live?_eq ho]
    exact hi

section Interned

variable {a : Argument}

/-- What an intern call is given keeps its text. -/
theorem given_of_leftover (hm : σ.Shadow m) (ha : ∀ i ∈ a.leftover, i ∈ σ.handles) :
    ∀ i ∈ a.leftover, i < (σ.world.intern t f a).2.instances.size ∧
      Request.intern (a.value σ.world) = .intern ((σ.world.intern t f a).2.text i) := by
  intro i hi
  have hlt := World.lt_size_of_handles_pos (hm.handles_pos (ha i hi))
  refine ⟨Nat.lt_of_lt_of_le hlt (World.size_intern_le t f a), ?_⟩
  rw [World.text_intern t f a hlt]
  cases a with
  | handle j =>
    obtain rfl := Option.some.inj hi
    rfl
  | text s => cases hi

/-- A call that finds its key. -/
theorem interned_of_some (h : σ.Meets t f c l) (hm : σ.Shadow m) (hm' : σ'.Shadow m')
    (ho : σ.world.isOwned t = true) (ho' : σ'.world.isOwned t = true)
    (ha : ∀ i ∈ a.leftover, i ∈ σ.handles) (hw : σ'.world = (σ.world.intern t f a).2)
    (hk : σ.world.Keeps t σ'.world) {i : InstanceId}
    (hget : (σ.world.entries t).get? (f.key (a.value σ.world)) = some i) :
    σ'.Meets t f c.hit (l ++ [.ofIntern t f a σ.world]) := by
  have hlive : σ.world.live? t (f.key (a.value σ.world)) = some i :=
    (hm.live?_eq ho _).trans hget
  obtain ⟨houtcome, htable⟩ := World.tableAt_intern_of_live? hlive
    (fun i hi => hm.handles_pos (ha i hi)) (hw ▸ hk)
  have hgiven := given_of_leftover (t := t) (f := f) hm ha
  have hsize := World.size_intern_le (w := σ.world) t f a
  have htext := fun i hi => World.text_intern (w := σ.world) t f a (i := i) hi
  rw [← hw] at htable hgiven hsize htext
  have hentries : σ'.world.entries t = σ.world.entries t := by
    rw [World.entries, htable]
    rfl
  have htexts := h.texts_congr hm ho htext
  rw [← hentries] at htexts
  have hcounters : (σ'.world.tableAt t).counters = c.hit.counters := by
    rw [htable, Contract.hit, ← h.counters]
  have hstored : c.stored? f (a.value σ.world) = some (σ'.world.text i) := by
    have hpos := hm.handles_pos_of_stored ho (KeyMap.mem_values_iff.2 ⟨_, hget⟩)
    rw [h.stored?_eq, hget, Option.map_some, htext i (World.lt_size_of_handles_pos hpos)]
  rw [Visit.ofIntern_eq, ← hw, houtcome]
  refine h.visited hm ho hsize htext ?_ htexts hcounters ?_ ?_ ?_ rfl hgiven
  · rw [hm'.shown_eq (c := c.hit) ho' htexts hcounters]
    exact Contract.serve_intern_of_some hstored
  · rw [hentries]
    exact fun _ _ hi => hi
  · rintro _ ⟨⟩
    rw [hentries]
    exact hget
  · rw [hentries]
    exact fun _ hi => .inl hi

/-- A call that does not find its key. -/
theorem interned_of_none (h : σ.Meets t f c l) (hm : σ.Shadow m) (hm' : σ'.Shadow m')
    (ho : σ.world.isOwned t = true) (ho' : σ'.world.isOwned t = true)
    (ha : ∀ i ∈ a.leftover, i ∈ σ.handles) (hw : σ'.world = (σ.world.intern t f a).2)
    (hk : σ.world.Keeps t σ'.world)
    (hget : (σ.world.entries t).get? (f.key (a.value σ.world)) = none) :
    σ'.Meets t f (c.store f (a.value σ.world)) (l ++ [.ofIntern t f a σ.world]) := by
  have hlive : σ.world.live? t (f.key (a.value σ.world)) = none :=
    (hm.live?_eq ho _).trans hget
  obtain ⟨x, rejected, houtcome, hx, htable⟩ :=
    World.tableAt_intern_of_none (World.lt_size_of_isOwned ho) hlive hget
      (fun i hi => hm.handles_pos (ha i hi)) (hw ▸ hk)
  have hgiven := given_of_leftover (t := t) (f := f) hm ha
  have hsize := World.size_intern_le (w := σ.world) t f a
  have htext := fun i hi => World.text_intern (w := σ.world) t f a (i := i) hi
  rw [← hw] at htable hgiven hsize htext hx
  have hentries : σ'.world.entries t =
      (σ.world.entries t).insert (f.key (a.value σ.world)) x := by
    rw [World.entries, htable]
  have htexts : (σ'.world.entries t).toList.map (fun e => (e.1, σ'.world.text e.2)) =
      (c.store f (a.value σ.world)).texts.map fun s => (f.key s, s) := by
    rw [hentries, KeyMap.toList_insert, KeyMap.toList_erase_of_get?_eq_none hget, List.map_cons,
      h.texts_congr hm ho htext, hx]
    rfl
  have hcounters : (σ'.world.tableAt t).counters = (c.store f (a.value σ.world)).counters := by
    rw [htable, Contract.store, ← h.counters]
  have hstored : c.stored? f (a.value σ.world) = none := by
    rw [h.stored?_eq, hget, Option.map_none]
  rw [Visit.ofIntern_eq, ← hw, houtcome]
  refine h.visited hm ho hsize htext ?_ htexts hcounters ?_ ?_ ?_ rfl hgiven
  · rw [hm'.shown_eq ho' htexts hcounters]
    show _ = ((⟨false, some (σ'.world.text x), _⟩ : Response), _)
    rw [hx]
    exact Contract.serve_intern_of_none hstored
  · intro key i hi
    rw [hentries, KeyMap.get?_insert, if_neg, hi]
    rintro rfl
    cases hi.symm.trans hget
  · rintro _ ⟨⟩
    rw [hentries]
    exact (KeyMap.get?_insert ..).trans (if_pos rfl)
  · intro i hi
    rw [hentries, KeyMap.values_insert_of_get?_eq_none hget] at hi
    rcases List.mem_cons.1 hi with rfl | hi
    · exact .inr rfl
    · exact .inl hi

end Interned

/-- Every operation leaves a contract that the table keeps. -/
theorem perform (h : σ.Meets t f c l) (hm : σ.Shadow m) (hm' : σ'.Shadow m')
    (ht : .table t ∈ σ.targets) (ht' : .table t ∈ σ'.targets) (hop : σ.perform op = some σ')
    (huses : op.Uses t f) (hheld : ∀ v ∈ l, ∀ i ∈ v.answer, i ∈ σ'.handles) :
    ∃ c', σ'.Meets t f c' (l ++ (op.visit? t σ.world).toList) := by
  have ho := hm.isOwned_iff.2 ht
  have ho' := hm'.isOwned_iff.2 ht'
  have hk := h.keeps hm hm' ho hheld
  obtain ⟨ha, rfl⟩ := perform_eq_some_iff.1 hop
  have hother : (∀ f a, op ≠ .intern (.table t) f a) → op.visit? t σ.world = none →
      ∃ c', (op.effect σ).Meets t f c' (l ++ (op.visit? t σ.world).toList) := by
    intro hop hvisit
    rw [hvisit, Option.toList_none, List.append_nil]
    exact ⟨c, h.spared hm ho (spares_effect hm ha (World.lt_size_of_isOwned ho) hop ho' hk)⟩
  cases op with
  | intern s g a =>
    by_cases hs : s = .table t
    · obtain rfl := hs
      obtain rfl : g = f := huses rfl
      have hw := world_effect_intern σ t g a
      rw [Operation.visit?_intern]
      cases hget : (σ.world.entries t).get? (g.key (a.value σ.world)) with
      | some i => exact ⟨_, h.interned_of_some hm hm' ho ho' ha.2 hw hk hget⟩
      | none => exact ⟨_, h.interned_of_none hm hm' ho ho' ha.2 hw hk hget⟩
    · refine hother (fun f a hc => hs ?_) (if_neg hs)
      cases hc
      rfl
  | find n text =>
    obtain ⟨s, g⟩ := n
    by_cases hs : s = .table t
    · obtain rfl := hs
      obtain rfl : g = f := huses rfl
      have hs := spares_effect hm ha (World.lt_size_of_isOwned ho) nofun ho' hk
      rw [Operation.visit?_find]
      exact ⟨c, h.found hm hm' ho ho' rfl hs⟩
    · exact hother nofun (if_neg hs)
  | _ => exact hother nofun rfl

end Meets

/-! ### All visits -/

theorem visits_concat (h : run ops σ = some σ') (op : Operation) :
    visits t (ops ++ [op]) σ = visits t ops σ ++ (op.visit? t σ'.world).toList := by
  induction ops generalizing σ with
  | nil =>
    obtain rfl := Option.some.inj h
    exact List.append_nil _
  | cons op' ops ih =>
    obtain ⟨-, h⟩ := run_cons_iff.1 h
    rw [List.cons_append, visits, visits, ih h, List.append_assoc]

/-- The table of an interner keeps a contract as long as its clients hold what it answers. -/
theorem Holds.meets {k : Storage} (h : Holds k t f ops σ) :
    ∃ (σ' : Session) (c : Contract), σ'.Meets t f c (visits t ops σ) := by
  obtain ⟨before, hreached⟩ := h.reached
  obtain ⟨σ', hrun⟩ := h.runs
  have hshadow : ∀ ops₁ σ₁, run ops₁ σ = some σ₁ → ∃ m, σ₁.Shadow m := by
    intro ops₁ σ₁ h₁
    have hrun₁ : run (before ++ ops₁) {} = some σ₁ := by
      rw [run_append, hreached]
      exact h₁
    obtain ⟨m, hm, -⟩ := shadow_of_run hrun₁
    exact ⟨m, hm⟩
  suffices hmeets : ops <+: ops → ∃ c, σ'.Meets t f c (visits t ops σ) from
    ⟨σ', hmeets List.prefix_rfl⟩
  refine run_concat_induction (P := fun ops₁ σ₁ => ops₁ <+: ops →
    ∃ c, σ₁.Meets t f c (visits t ops₁ σ)) ?_ ?_ hrun
  · exact fun _ => ⟨{}, .of_empty h.entries h.counters⟩
  · intro ops₁ op σ₁ σ₂ h₁ ih hop hpre
    have hrun₂ : run (ops₁ ++ [op]) σ = some σ₂ := by
      rw [run_append, h₁]
      exact (Option.bind_fun_some _).trans hop
    have hpre₁ := (List.prefix_append ops₁ [op]).trans hpre
    obtain ⟨c, hc⟩ := ih hpre₁
    obtain ⟨m₁, hm₁⟩ := hshadow ops₁ σ₁ h₁
    obtain ⟨m₂, hm₂⟩ := hshadow _ σ₂ hrun₂
    have hheld₁ := h.held ops₁ σ₁ hpre₁ h₁
    have hheld₂ := h.held _ σ₂ hpre hrun₂
    rw [visits_concat h₁] at hheld₂ ⊢
    exact hc.perform hm₁ hm₂ hheld₁.1 hheld₂.1 hop
      (h.uses op (hpre.subset (List.mem_append_right _ List.mem_cons_self)))
      fun v hv => hheld₂.2 v (List.mem_append_left _ hv)

/-! ### Two clients -/

namespace Meets

variable {t' : TableId} {l' : List Visit}

/-- What the contract promises for the first visits. -/
theorem responses_take (h : σ.Meets t f c l) (n : Nat) :
    (l.map Visit.response).take n = (Contract.serveAll f ((l.map Visit.request).take n) {}).1 := by
  rw [Contract.serveAll_take, h.served]

/-- What a client was given back to ask with, it was told the text of. -/
theorem request_of_given (h : σ.Meets t f c l) {u v : Visit} (hu : u ∈ l) (hv : v ∈ l)
    (hgiven : v.given ≠ none) (hback : v.given = u.answer) :
    ∃ s, v.request = .intern s ∧ u.response.text = some s := by
  obtain ⟨i, hi⟩ := Option.ne_none_iff_exists'.1 hgiven
  refine ⟨σ.world.text i, (h.given v hv i hi).2, ?_⟩
  rw [h.told u hu, ← hback, hi]
  rfl

/-- What two clients were told so far decides that they ask for the same text next. -/
theorem request_eq (h : σ.Meets t f c l) (h' : σ'.Meets t' f c' l') (hask : AskAlike l l') {n : Nat}
    (htold : (l.map Visit.response).take n = (l'.map Visit.response).take n) {v v' : Visit}
    (hv : l[n]? = some v) (hv' : l'[n]? = some v') : v.request = v'.request := by
  rcases hask.each n v v' hv hv' with heq | ⟨q, hq, u, u', hu, hu', hg, hback, hg', hback'⟩
  · exact heq
  · obtain ⟨s, hs, htext⟩ := h.request_of_given (List.mem_of_getElem? hu)
      (List.mem_of_getElem? hv) hg hback
    obtain ⟨s', hs', htext'⟩ := h'.request_of_given (List.mem_of_getElem? hu')
      (List.mem_of_getElem? hv') hg' hback'
    have hresponse : u.response = u'.response := by
      have hat := congrArg (·[q]?) htold
      simp only [List.getElem?_take_of_lt hq, List.getElem?_map, hu, hu', Option.map_some] at hat
      exact Option.some.inj hat
    rw [hresponse, htext'] at htext
    rw [hs, hs', Option.some.inj htext]

/-- Clients that ask alike ask for the same texts. -/
theorem requests_eq (h : σ.Meets t f c l) (h' : σ'.Meets t' f c' l') (hask : AskAlike l l') :
    l.map Visit.request = l'.map Visit.request := by
  have htake : ∀ n, (l.map Visit.request).take n = (l'.map Visit.request).take n := by
    intro n
    induction n with
    | zero => rfl
    | succ n ih =>
      have htold : (l.map Visit.response).take n = (l'.map Visit.response).take n := by
        rw [h.responses_take, h'.responses_take, ih]
      have hnext : l[n]?.map Visit.request = l'[n]?.map Visit.request := by
        rcases Nat.lt_or_ge n l.length with hn | hn
        · have hv := List.getElem?_eq_getElem hn
          have hv' := List.getElem?_eq_getElem (hask.length ▸ hn)
          rw [hv, hv', Option.map_some, Option.map_some, h.request_eq h' hask htold hv hv']
        · rw [List.getElem?_eq_none hn, List.getElem?_eq_none (hask.length ▸ hn)]
      rw [List.take_add_one, List.take_add_one, ih, List.getElem?_map, List.getElem?_map, hnext]
  have hall := htake l.length
  rwa [List.take_of_length_le (Nat.le_of_eq (List.length_map _)),
    List.take_of_length_le (Nat.le_of_eq ((List.length_map _).trans hask.length.symm))] at hall

/-- An instance is stored under the key of its text. -/
theorem key_of_stored (h : σ.Meets t f c l) {key : String} {i : InstanceId}
    (hi : (σ.world.entries t).get? key = some i) : f.key (σ.world.text i) = key := by
  have hmem := List.mem_map_of_mem (f := fun e : String × InstanceId => (e.1, σ.world.text e.2))
    (KeyMap.get?_eq_some_iff.1 hi)
  rw [h.texts] at hmem
  obtain ⟨s, -, hs⟩ := List.mem_map.1 hmem
  obtain ⟨hkey, htext⟩ := Prod.mk.inj hs
  rw [← htext, hkey]

/-- Two visits were answered the same instance exactly if it was under the same key. -/
theorem answer_eq_iff (h : σ.Meets t f c l) {u v : Visit} (hu : u ∈ l) (hv : v ∈ l) :
    u.answer = v.answer ↔ u.mark f = v.mark f := by
  rw [Visit.mark, Visit.mark, h.told u hu, h.told v hv]
  cases hi : u.answer with
  | none =>
    cases hj : v.answer with
    | none => exact ⟨fun _ => rfl, fun _ => rfl⟩
    | some j => exact ⟨nofun, nofun⟩
  | some i =>
    cases hj : v.answer with
    | none => exact ⟨nofun, nofun⟩
    | some j =>
      have hui := h.answered u hu i hi
      have hvj := h.answered v hv j hj
      simp only [Option.map_some, Option.some_inj]
      constructor
      · rintro rfl
        exact (h.key_of_stored hui).symm.trans (h.key_of_stored hvj)
      · intro hkey
        rw [hkey] at hui
        exact Option.some.inj (hui.symm.trans hvj)

/-- The same for two places of a list of visits. -/
theorem getElem?_answer_eq_iff (h : σ.Meets t f c l) (p q : Nat) :
    (l.map Visit.answer)[p]? = (l.map Visit.answer)[q]? ↔
      (l.map (Visit.mark f))[p]? = (l.map (Visit.mark f))[q]? := by
  simp only [List.getElem?_map]
  cases hp : l[p]? with
  | none =>
    cases hq : l[q]? with
    | none => exact ⟨fun _ => rfl, fun _ => rfl⟩
    | some v => exact ⟨nofun, nofun⟩
  | some u =>
    cases hq : l[q]? with
    | none => exact ⟨nofun, nofun⟩
    | some v =>
      simp only [Option.map_some, Option.some_inj]
      exact h.answer_eq_iff (List.mem_of_getElem? hp) (List.mem_of_getElem? hq)

end Meets

/-- What is asked for and told decides the keys. -/
theorem map_mark_eq {l' : List Visit} (hq : l.map Visit.request = l'.map Visit.request)
    (hr : l.map Visit.response = l'.map Visit.response) :
    l.map (Visit.mark f) = l'.map (Visit.mark f) := by
  have hzip : ∀ l : List Visit, l.map (Visit.mark f) =
      List.zipWith (fun q r => r.text.map fun _ => f.key q.value) (l.map Visit.request)
        (l.map Visit.response) := by
    intro l
    rw [List.zipWith_map, List.zipWith_self]
    rfl
  rw [hzip, hzip, hq, hr]

/-- Whatever keeps the entries of two interners, clients who ask alike and hold what is answered are
answered alike. -/
theorem answered_alike {k k' : Storage} {t' : TableId} {ops' : List Operation}
    (h : Holds k t f ops σ) (h' : Holds k' t' f ops' σ')
    (hask : AskAlike (visits t ops σ) (visits t' ops' σ')) :
    AnsweredAlike (visits t ops σ) (visits t' ops' σ') := by
  obtain ⟨σ₁, c, hmeets⟩ := h.meets
  obtain ⟨σ₁', c', hmeets'⟩ := h'.meets
  have hrequests := hmeets.requests_eq hmeets' hask
  have hresponses :
      (visits t ops σ).map Visit.response = (visits t' ops' σ').map Visit.response := by
    have hserved := hmeets.served
    rw [hrequests, hmeets'.served] at hserved
    exact (congrArg Prod.fst hserved).symm
  refine ⟨hresponses, fun p q => ?_⟩
  rw [hmeets.getElem?_answer_eq_iff, hmeets'.getElem?_answer_eq_iff,
    map_mark_eq hrequests hresponses]

/-- A reclaiming table stores a copy of an instance that is registered elsewhere, a retaining one
the instance itself; nothing else is different. -/
theorem answered_alike_folding :
    ∃ σ σ', run (foldingMade .reclaiming) {} = some σ ∧ run (foldingMade .retaining) {} = some σ' ∧
      Holds .reclaiming 1 .asciiCaseFold (foldingUsed 1) σ ∧
      Holds .retaining 1 .asciiCaseFold (foldingUsed 0) σ' ∧
      AnsweredAlike (visits 1 (foldingUsed 1) σ) (visits 1 (foldingUsed 0) σ') ∧
      (visits 1 (foldingUsed 1) σ).map Visit.answer = [some 1, some 1, some 1, some 2, none] ∧
      (visits 1 (foldingUsed 0) σ').map Visit.answer = [some 0, some 0, some 0, some 1, none] := by
  let σ := (run (foldingMade .reclaiming) {}).get (by decide +kernel)
  let σ' := (run (foldingMade .retaining) {}).get (by decide +kernel)
  have hrun : run (foldingMade .reclaiming) {} = some σ := (Option.some_get _).symm
  have hrun' : run (foldingMade .retaining) {} = some σ' := (Option.some_get _).symm
  have huses : ∀ i, ∀ op ∈ foldingUsed i, op.Uses 1 .asciiCaseFold := by
    intro i op hop
    simp only [foldingUsed, List.mem_cons, List.not_mem_nil, or_false] at hop
    rcases hop with rfl | rfl | rfl | rfl | rfl <;> exact fun _ => rfl
  have h : Holds .reclaiming 1 .asciiCaseFold (foldingUsed 1) σ :=
    ⟨⟨_, hrun⟩, by decide +kernel, KeyMap.eq_of_toList (by decide +kernel), by decide +kernel,
      huses 1, Option.isSome_iff_exists.1 (by decide +kernel), by decide +kernel⟩
  have h' : Holds .retaining 1 .asciiCaseFold (foldingUsed 0) σ' :=
    ⟨⟨_, hrun'⟩, by decide +kernel, KeyMap.eq_of_toList (by decide +kernel), by decide +kernel,
      huses 0, Option.isSome_iff_exists.1 (by decide +kernel), by decide +kernel⟩
  have hask : AskAlike (visits 1 (foldingUsed 1) σ) (visits 1 (foldingUsed 0) σ') :=
    .of_requests (by decide +kernel)
  exact ⟨σ, σ', hrun, hrun', h, h', answered_alike h h' hask, by decide +kernel,
    by decide +kernel⟩

end Session

end Interning
