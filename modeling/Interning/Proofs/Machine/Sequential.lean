import Interning.Proofs.Machine.Retention

/-!
# Whole operations

An operation taken as a whole is a prompt run of its pieces: with what it needs in hand, a machine
comes to the world that the operation leaves, and has what the operation answers in hand.

    dropping a handle is its release, with the reclamation at once            (drop_promptly)
    interning is to begin, to check, to enter, to count and to drop what is left over
                                                                            (intern_promptly)
    looking up is a single step                                             (lookup_promptly)
    giving up an owner drops the handles that are left of the table          (disown_promptly)
    a byte counter that is exact stays so, if what is there fits in a word
                                                                     (BytesExact.runPromptly)
-/

namespace Interning.Machine

/-! ## Algorithm -/

/-- A machine comes promptly to a world and to what is in hand there, with some answers more.  Only
the last step may count something as stored, and none at all if the way is `storeless`. -/
def Performs (m : Machine) (storeless : Bool) (w : World) (hand : Multiset Token)
    (answers : List Answer) : Prop :=
  ∃ l m', runPromptly l m = some m' ∧ (∀ s ∈ cond storeless l l.dropLast, s.gain = 0) ∧
    m'.world = w ∧ m'.hand = hand ∧ m'.answers = answers ++ m.answers

/-- The byte counter of a table, as long as it is there and reclaiming, is what was counted as
stored and is not given back. -/
def BytesExact (m : Machine) (t : TableId) : Prop :=
  (m.world.tables.size ≤ t ∨
    (m.world.tableAt t).storage = .reclaiming ∧ m.world.isOwned t = true) →
      (m.world.tableAt t).counters.bytes.toNat + m.doneBytes (· = t) = m.recordedBytes (· = t)

/-- What a reclaiming table that is there has to give back fits in a word. -/
def BytesFit (m : Machine) (t : TableId) : Prop :=
  (m.world.tableAt t).storage = .reclaiming → m.world.isOwned t = true →
    m.outstandingBytes t < 2 ^ 64

/-! ## Lemmas -/

variable {m m' : Machine} {s : Step} {rest hand : Multiset Token} {storeless : Bool}

theorem Performs.refl (m : Machine) : m.Performs storeless m.world m.hand [] :=
  ⟨[], m, rfl, by cases storeless <;> exact nofun, rfl, rfl, rfl⟩

/-- A step that is taken promptly. -/
theorem Performs.of_stepPromptly (h : m.stepPromptly s = some m')
    (hs : storeless = true → s.gain = 0) {answers : List Answer}
    (ha : m'.answers = answers ++ m.answers) :
    m.Performs storeless m'.world m'.hand answers := by
  refine ⟨[s], m', (runPromptly_singleton s m).trans h, ?_, rfl, rfl, ha⟩
  cases storeless with
  | false => exact nofun
  | true => exact fun x hx => List.mem_singleton.1 hx ▸ hs rfl

/-- One thing is done after another that stores nothing. -/
theorem Performs.append {w w' : World} {answers answers' : List Answer}
    (h : m.Performs true w hand answers')
    (h' : ∀ m' : Machine, m'.world = w → m'.hand = hand →
      m'.Performs storeless w' rest answers) :
    m.Performs storeless w' rest (answers ++ answers') := by
  obtain ⟨l, m₁, hrun, hl, hw, hh, ha⟩ := h
  obtain ⟨l', m₂, hrun', hl', hw', hh', ha'⟩ := h' m₁ hw hh
  refine ⟨l ++ l', m₂, ?_, ?_, hw', hh', ?_⟩
  · rw [runPromptly_append, hrun]
    exact hrun'
  · cases storeless with
    | true =>
      intro s hs
      exact (List.mem_append.1 hs).elim (hl s) (hl' s)
    | false =>
      intro s hs
      by_cases hn : l' = []
      · subst hn
        rw [List.append_nil] at hs
        exact hl s (List.mem_of_mem_dropLast hs)
      · have hs : s ∈ (l ++ l').dropLast := hs
        rw [List.dropLast_append_of_ne_nil hn] at hs
        exact (List.mem_append.1 hs).elim (hl s) (hl' s)
  · rw [ha', ha, List.append_assoc]

theorem Performs.after {w w' : World} {answers : List Answer} (h : m.Performs true w hand [])
    (h' : ∀ m' : Machine, m'.world = w → m'.hand = hand →
      m'.Performs storeless w' rest answers) : m.Performs storeless w' rest answers :=
  List.append_nil answers ▸ h.append h'

theorem Performs.before {w w' : World} {answers : List Answer}
    (h : m.Performs true w hand answers)
    (h' : ∀ m' : Machine, m'.world = w → m'.hand = hand → m'.Performs storeless w' rest []) :
    m.Performs storeless w' rest answers :=
  h.append h'

/-- A step that makes no reclamation due is prompt. -/
theorem stepPromptly_eq_some (hh : m.hand = rest + ↑s.needs) (ha : s.Allowed m.hand)
    (ho : s.owes m.world = none) : m.stepPromptly s = some (m.next s rest) := by
  rw [stepPromptly, step_eq_some hh ha, ho]
  rfl

/-- A step that makes a reclamation due is prompt when the reclamation follows. -/
theorem stepPromptly_of_owes {r : Reclamation} (hh : m.hand = rest + ↑s.needs)
    (ha : s.Allowed m.hand) (ho : s.owes m.world = some r) :
    m.stepPromptly s = (m.next s rest).reclaim r := by
  rw [stepPromptly, step_eq_some hh ha, ho]
  rfl

/-- Dropping a handle. -/
theorem drop_promptly {i : InstanceId} (h : m.hand = rest + ↑[Token.handle i]) :
    m.Performs true (m.world.drop i) rest [] := by
  have hhand : (m.next (.release i) rest).hand =
      rest + ↑((m.world.release i).1.toList.map Token.owed) := rfl
  have hdrop : m.world.drop i = World.reclaim (m.world.release i).1 (m.world.release i).2 := rfl
  cases ho : (m.world.release i).1 with
  | none =>
    rw [ho] at hhand hdrop
    have hstep := stepPromptly_eq_some (s := .release i) h trivial ho
    have hdone : m.Performs true _ _ [] := .of_stepPromptly hstep (fun _ => rfl) rfl
    rw [hhand, Option.toList_none, List.map_nil, Multiset.coe_nil, add_zero] at hdone
    rw [hdrop]
    exact hdone
  | some r =>
    rw [ho] at hhand
    have hstep := stepPromptly_of_owes (s := .release i) h trivial ho
    rw [reclaim_eq_some hhand] at hstep
    have hrun : ∀ w, World.reclaim (some r) w = r.settle (r.detach w).1 (r.detach w).2 := by
      intro w
      simp only [World.reclaim, Reclamation.run]
    rw [hdrop, ho, hrun]
    exact Performs.of_stepPromptly hstep (fun _ => rfl) rfl

/-- Dropping handles in order. -/
theorem dropAll_promptly {is : List InstanceId} (h : m.hand = rest + ↑(is.map Token.handle)) :
    m.Performs true (m.world.dropAll is) rest [] := by
  induction is generalizing m with
  | nil =>
    have h : m.hand = rest := h.trans (add_zero rest)
    exact h ▸ .refl m
  | cons i is ih =>
    have hsplit : m.hand = (rest + ↑(is.map Token.handle)) + ↑[Token.handle i] := by
      rw [h, List.map_cons, ← List.singleton_append, ← Multiset.coe_add, add_assoc,
        add_comm (↑[Token.handle i] : Multiset Token)]
    refine (drop_promptly hsplit).after fun m₁ hw hh => ?_
    have hrest := ih hh
    rw [hw] at hrest
    exact hrest

/-- Counting a call and dropping what it does not need, in the order of its outcome. -/
theorem finish_promptly {c : Call} {o : Outcome}
    (h : m.hand = rest + ↑(Token.entered c o :: (c.discarded o).toList.map .handle)) :
    m.Performs false (c.finish o m.world) (rest + ↑[Token.handle o.canonical]) [] := by
  have hsplit : m.hand =
      rest + ↑[Token.entered c o] + ↑((c.discarded o).toList.map Token.handle) := by
    rw [h, add_assoc, Multiset.coe_add]
    rfl
  cases o with
  | hit i =>
    have hrec : m.hand = rest + ↑((c.discarded (.hit i)).toList.map Token.handle) +
        ↑(Step.record c (.hit i)).needs := by
      rw [hsplit, add_right_comm]
      rfl
    have hstep := stepPromptly_eq_some hrec trivial rfl
    refine (Performs.of_stepPromptly hstep (fun _ => rfl) rfl).after fun m₁ hw hh => ?_
    have hh : m₁.hand = rest + ↑[Token.handle i] +
        ↑((c.discarded (.hit i)).toList.map Token.handle) := by
      rw [hh, add_right_comm]
      rfl
    obtain ⟨l, m₂, hrun, hl, hdone⟩ := dropAll_promptly hh
    rw [hw] at hdone
    exact ⟨l, m₂, hrun, fun s hs => hl s (List.mem_of_mem_dropLast hs), hdone⟩
  | stored i stale rejected =>
    refine (dropAll_promptly hsplit).after fun m₁ hw hh => ?_
    have hstep := stepPromptly_eq_some (s := .record c (.stored i stale rejected)) hh trivial rfl
    -- The last step is the one that may store.
    have hfree : false = true → (Step.record c (.stored i stale rejected)).gain = 0 := nofun
    have hdone := Performs.of_stepPromptly hstep hfree rfl
    have hworld : (m₁.next (.record c (.stored i stale rejected))
        rest).world = c.record (.stored i stale rejected) m₁.world := rfl
    rw [hworld, hw] at hdone
    exact hdone

/-- Looking up. -/
theorem lookup_promptly {t : TableId} (key : String) (h : m.hand = rest + ↑[Token.owner t]) :
    m.Performs true (m.world.lookup t key).2
      (rest + ↑(Token.owner t :: (m.world.lookup t key).1.toList.map .handle))
      [.lookedUp t key (m.world.lookup t key).1] :=
  .of_stepPromptly (stepPromptly_eq_some (s := .lookup t key) h trivial rfl) (fun _ => rfl) rfl

/-- Giving up an owner, which no call needs any more. -/
theorem disown_promptly {t : TableId} (h : m.hand = rest + ↑[Token.owner t])
    (ha : (Step.disown t).Allowed m.hand) : m.Performs true (m.world.disown t) rest [] := by
  have hstep := stepPromptly_eq_some (s := .disown t) h ha rfl
  refine (Performs.of_stepPromptly hstep (fun _ => rfl) rfl).after fun m₁ hw hh => ?_
  have hrest := dropAll_promptly hh
  rw [hw] at hrest
  exact hrest

/-- A call that was answered goes on to its end. -/
theorem answered_promptly {c : Call} {o : Outcome} {w : World}
    (hs : s.effect m.world = c.answered o w) (hh : m.hand = rest + ↑s.needs)
    (ha : s.Allowed m.hand) (ho : s.owes m.world = none) (hg : s.gain = 0) :
    m.Performs false (c.finish o w) (rest + ↑[Token.handle o.canonical]) [.interned c o] := by
  have hstep := stepPromptly_eq_some hh ha ho
  have hw : (m.next s rest).world = w := congrArg Effect.world hs
  have hhand : (m.next s rest).hand =
      rest + ↑(Token.entered c o :: (c.discarded o).toList.map Token.handle) :=
    congrArg (fun e : Effect => rest + (e.gains : Multiset Token)) hs
  have hanswer : (s.effect m.world).answer = some (.interned c o) := congrArg Effect.answer hs
  have hanswers : (m.next s rest).answers = [.interned c o] ++ m.answers := by
    show (s.effect m.world).answer.toList ++ m.answers = _
    rw [hanswer]
    rfl
  refine (Performs.of_stepPromptly hstep (fun _ => hg) hanswers).before fun m₁ hw₁ hh₁ => ?_
  have hfinish := finish_promptly (hh₁.trans hhand)
  rw [hw₁, hw] at hfinish
  exact hfinish

/-- Interning. -/
theorem intern_promptly {t : TableId} {f : Normalizer} {a : Argument}
    (h : m.hand = rest + ↑(Step.begin t f a).needs) :
    m.Performs false (m.world.intern t f a).2
      (rest + ↑[Token.owner t, .handle (m.world.intern t f a).1.canonical])
      [.interned (Call.begin t f a m.world).1 (m.world.intern t f a).1] := by
  let c := (Call.begin t f a m.world).1
  let w₁ := (Call.begin t f a m.world).2
  have hbegin := stepPromptly_eq_some (s := .begin t f a) h trivial rfl
  have hsplit : ∀ x : Token, rest + ↑[Token.owner t, x] = rest + ↑[Token.owner t] + ↑[x] := by
    intro x
    rw [add_assoc, Multiset.coe_add]
    rfl
  have hintern : m.world.intern t f a = c.conclude (c.check w₁).1 (c.check w₁).2 := rfl
  rw [hsplit, hintern]
  refine (Performs.of_stepPromptly hbegin (fun _ => rfl) rfl).after fun m₁ hw₁ hh₁ => ?_
  have hw₁ : m₁.world = w₁ := hw₁
  have hh₁ : m₁.hand = rest + ↑[Token.owner t] + ↑(Step.check c).needs :=
    hh₁.trans (hsplit (.called c))
  cases hc : c.check w₁ with
  | mk checked w₂ =>
    cases checked with
    | some o =>
      have he : (Step.check c).effect m₁.world = c.answered o w₂ := by
        simp only [Step.effect, hw₁, hc]
      exact answered_promptly he hh₁ trivial rfl rfl
    | none =>
      have he : (Step.check c).effect m₁.world = ⟨w₂, [.missed c], none⟩ := by
        simp only [Step.effect, hw₁, hc]
      have hcheck := stepPromptly_eq_some hh₁ trivial rfl
      have ha₂ : (m₁.next (.check c) (rest + ↑[Token.owner t])).answers = [] ++ m₁.answers := by
        show ((Step.check c).effect m₁.world).answer.toList ++ m₁.answers = _
        rw [he]
        rfl
      refine (Performs.of_stepPromptly hcheck (fun _ => rfl) ha₂).after fun m₂ hw₂ hh₂ => ?_
      have hw₂ : m₂.world = w₂ := hw₂.trans (congrArg Effect.world he)
      have hh₂ : m₂.hand = rest + ↑[Token.owner t] + ↑(Step.enter c).needs := by
        rw [hh₂]
        show rest + ↑[Token.owner t] + ↑((Step.check c).effect m₁.world).gains = _
        rw [he]
        rfl
      have he₂ : (Step.enter c).effect m₂.world = c.answered (c.enter w₂).1 (c.enter w₂).2 := by
        simp only [Step.effect, hw₂]
      exact answered_promptly he₂ hh₂ trivial rfl rfl

/-! ### Bytes -/

variable {t : TableId}

/-- A table that is there after a step was there before, unless the step made it. -/
theorem Accounted.owned_before (hm : m.Accounted) (h : m.step s = some m')
    (ht : m'.world.tables.size ≤ t ∨
      (m'.world.tableAt t).storage = .reclaiming ∧ m'.world.isOwned t = true) :
    m.world.tables.size ≤ t ∨
      (m.world.tableAt t).storage = .reclaiming ∧ m.world.isOwned t = true := by
  have hext := hm.extends_step h
  rcases Nat.lt_or_ge t m.world.tables.size with hlt | hge
  · obtain ⟨hs, ho⟩ := ht.resolve_left (Nat.not_le.2 (Nat.lt_of_lt_of_le hlt hext.tables))
    refine .inr ⟨(hext.storage t hlt).symm.trans hs, ?_⟩
    by_contra hn
    rw [hext.disowned t hlt (Bool.eq_false_iff.2 hn)] at ho
    cases ho
  · exact .inl hge

theorem BytesExact.step (hb : m.BytesExact t) (hm : m.Valid) (h : m.step s = some m')
    (hfit : s.gain ≠ 0 → m'.BytesFit t) : m'.BytesExact t := by
  intro ht
  have hm' := hm.step h
  refine hm.bytes_step h t (fun hg => ?_) (hb (hm.sound.accounted.owned_before h ht))
  rcases ht with ht | ⟨hs, ho⟩
  · have hle := (hm'.bytes_le (· = t)).2
    rw [hm'.internedBytes_of_size_le ht] at hle
    omega
  · exact hm'.recordedBytes_lt (.inr hs) (hfit hg hs ho)

/-- A reclamation that follows at once stores nothing. -/
theorem BytesExact.stepPromptly (hb : m.BytesExact t) (hm : m.Valid)
    (h : m.stepPromptly s = some m') (hfit : s.gain ≠ 0 → m'.BytesFit t) : m'.BytesExact t := by
  obtain ⟨m₁, h₁, h⟩ := Option.bind_eq_some_iff.1 h
  cases ho : s.owes m.world with
  | none =>
    rw [ho] at h
    obtain rfl := Option.some.inj h
    exact hb.step hm h₁ hfit
  | some r =>
    have hg : s.gain = 0 := by
      cases s with
      | release => rfl
      | _ => cases ho
    rw [ho] at h
    obtain ⟨m₂, h₂, h⟩ := Option.bind_eq_some_iff.1 h
    obtain ⟨m₃, h₃, h⟩ := Option.bind_eq_some_iff.1 h
    obtain rfl := Option.some.inj h
    have hm₁ := hm.step h₁
    have hb₁ := hb.step hm h₁ fun hc => absurd hg hc
    exact (hb₁.step hm₁ h₂ fun hc => absurd rfl hc).step (hm₁.step h₂) h₃ fun hc => absurd rfl hc

/-- The byte counter stays exact on a way whose last step alone stores something. -/
theorem BytesExact.runPromptly {l : List Step} (hb : m.BytesExact t) (hm : m.Valid)
    (h : runPromptly l m = some m') (hl : ∀ s ∈ l.dropLast, s.gain = 0)
    (hfit : (∃ s ∈ l, s.gain ≠ 0) → m'.BytesFit t) : m'.BytesExact t := by
  induction l generalizing m with
  | nil =>
    obtain rfl := Option.some.inj h
    exact hb
  | cons s rest ih =>
    obtain ⟨m₁, h₁, h⟩ := Option.bind_eq_some_iff.1 h
    cases rest with
    | nil =>
      obtain rfl := Option.some.inj h
      exact hb.stepPromptly hm h₁ fun hg => hfit ⟨s, List.mem_singleton_self s, hg⟩
    | cons s' rest =>
      have hg : s.gain = 0 := hl s List.mem_cons_self
      obtain ⟨l₁, hrun⟩ := run_of_stepPromptly h₁
      refine ih (hb.stepPromptly hm h₁ fun hc => absurd hg hc) (hm.of_run hrun) h
        (fun x hx => hl x (List.mem_cons_of_mem s hx)) ?_
      rintro ⟨x, hx, hxg⟩
      exact hfit ⟨x, List.mem_cons_of_mem s hx, hxg⟩

/-- In a prompt run the bytes outstanding are those stored. -/
theorem Prompt.outstandingBytes_eq (hp : m.Prompt) (hm : m.Sound) (ho : m.world.isOwned t = true)
    (hs : (m.world.tableAt t).storage = .reclaiming) :
    m.outstandingBytes t = m.world.storedBytes t := by
  have hsum : m.outstandingBytes t = (((m.outstanding t).val.map m.world.weight)).sum := rfl
  rw [hsum, hp.outstanding_eq hm ho hs, Multiset.map_coe, Multiset.sum_coe, KeyMap.values,
    List.map_map, World.storedBytes]
  refine congrArg _ (List.map_congr_left fun e he => ?_)
  have hr := hm.registered.entry t e.1 e.2 hs (KeyMap.get?_eq_some_iff.2 he)
  show m.world.weight e.2 = _
  rw [World.weight, hr]

end Interning.Machine
