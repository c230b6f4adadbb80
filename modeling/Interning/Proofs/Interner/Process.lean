import Interning.Interner.Process
import Interning.Proofs.Config.Overrides
import Interning.Proofs.Machine
import Interning.Proofs.World.Views

/-!
# The interner of a process, whatever its environment

The first use makes an interner in any environment.  Two fallbacks may stand between the variables
and what is made: an environment with a variable that cannot be used is left out as a whole, and a
mode that the host cannot do leaves out everything else that was configured.

    with variables that are all acceptable         the configuration that they make
    ... of a mode that the host cannot do          preferred mode, exact keys, no room, not tracked
    with any other variables                       the default configuration
    all of it                                                                     (first_use)
-/

namespace Interning

/-! ## Algorithm -/

namespace Environment

/-- A variable that is there as text can be used; a flag always can. -/
structure Acceptable (env : Environment) : Prop where
  mode : ∀ raw, env.text? Variable.mode.name = some raw → ∃ m, Mode.read raw = .ok m
  capacity : ∀ raw, env.text? Variable.capacity.name = some raw →
    ∃ n, IsCapacity raw n ∧ n ≤ 2 ^ 24
  normalization : ∀ raw, env.text? Variable.normalization.name = some raw →
    ∃ k, Normalization.read raw = .ok k

/-- What the variables configure, each by itself; a flag that is no truth value counts as absent. -/
def config (env : Environment) : Config where
  mode := ((env.text? Variable.mode.name).bind fun raw => (Mode.read raw).toOption).getD .auto
  initialCapacity := ((env.text? Variable.capacity.name).bind readCapacity?).getD 256
  trackMemory := ((env.text? Variable.trackMemory.name).bind readFlag?).getD false
  normalization :=
    ((env.text? Variable.normalization.name).bind fun raw =>
      (Normalization.read raw).toOption).getD .verbatim

end Environment

def ResolvedMode.storage? : ResolvedMode → Option Storage
  | passthrough => none
  | reclaiming => some .reclaiming
  | retaining => some .retaining

/-- What is reported when a table is made. -/
def Storage.madeEvent (capacity : UInt64) : Storage → Event
  | reclaiming => .reclaimingTableMade capacity
  | retaining => .retainingTableMade capacity

/-- The event tells how settings were found. -/
def Event.isSetting : Event → Bool
  | overrideApplied _ _ | flagIgnored _ _ | environmentIgnored _ | modeFallback _ => true
  | _ => false

namespace Interner

/-- An interner and the world right after it was made there, with the table of its own that its mode
needs. -/
structure Made (w : World) (r : ResolvedMode) (f : Normalizer) (capacity : UInt64)
    (tracked : Bool) (made : Interner × World) : Prop where
  mode : made.1.strategy.mode made.2 = r
  normalizer : made.1.normalizer = f
  table : made.1.strategy.table? = r.storage?.map fun _ => w.tables.size
  tables : made.2.tables.toList =
    w.tables.toList ++ (r.storage?.map fun k => (⟨k, tracked, 1, ∅, {}⟩ : Table)).toList
  instances : made.2.instances = w.instances
  tracker : made.2.tracker = w.tracker
  /-- The table is made with room for `capacity` entries, after the settings were found. -/
  events : ∃ found, (∀ e ∈ found, e.isSetting = true) ∧
    made.2.events = w.events ++ found ++ (r.storage?.map (Storage.madeEvent capacity)).toList ++
      [.strategySelected r]

/-- What becomes of the first use of the interner of a process. -/
structure FirstUse (caps : HostCapabilities) (env : Environment) (w : World)
    (made : Interner × World) : Prop where
  /-- Acceptable variables configure the interner, if the host can do the mode. -/
  configured : env.Acceptable → ∀ mode, caps.resolve env.config.mode = .ok mode →
    Made w mode env.config.normalization.normalizer env.config.initialCapacity
      env.config.trackMemory made
  /-- If the host cannot do the mode, nothing of the configuration is left. -/
  unsupported : env.Acceptable → ∀ e, caps.resolve env.config.mode = .error e →
    Made w caps.preferredMode .verbatim 0 false made
  /-- If a variable is not acceptable, nothing of the environment is left. -/
  discarded : ¬env.Acceptable → Made w caps.preferredMode .verbatim 256 false made
  /-- The mode is reclaiming only where the host can refer to instances that way. -/
  reclaimable : made.1.strategy.mode made.2 = .reclaiming → caps.reclaimableRefs = true
  /-- Whatever clients and threads do afterwards, the mode stays. -/
  lasting : ∀ m m' steps, m.world = made.2 → Machine.run steps m = some m' →
    made.1.strategy.mode m'.world = made.1.strategy.mode made.2

end Interner

/-- Every table of one world is there in the other, with its storage. -/
structure World.KeepsStorage (w w' : World) : Prop where
  size : w.tables.size ≤ w'.tables.size
  storage : ∀ t < w.tables.size, (w'.tableAt t).storage = (w.tableAt t).storage

/-! ## Lemmas -/

/-! ### The configuration -/

/-- The event of a variable tells how a setting was found. -/
theorem Variable.isSetting_of_apply {v : Variable} {raw : String} {c c' : Config} {e : Event}
    (h : v.apply raw c = .ok (c', some e)) : e.isSetting = true := by
  cases v with
  | mode =>
    simp only [apply] at h
    cases hm : Mode.read raw with
    | error => rw [hm] at h; cases h
    | ok m => rw [hm] at h; cases h; rfl
  | capacity =>
    simp only [apply] at h
    split at h
    · cases h
      rfl
    · cases h
  | trackMemory =>
    simp only [apply] at h
    split at h
    · cases h
    · cases h
      rfl
  | normalization =>
    simp only [apply] at h
    cases hk : Normalization.read raw with
    | error => rw [hk] at h; cases h
    | ok k => rw [hk] at h; cases h; rfl

theorem Config.isSetting_of_mem_events {source : String → Option String} {vs : List Variable}
    (c : Config) : ∀ e ∈ (c.overrideBy source vs).events, e.isSetting = true := by
  induction vs generalizing c with
  | nil => exact fun _ h => absurd h List.not_mem_nil
  | cons v vs ih =>
    simp only [overrideBy]
    split
    · exact ih c
    · split
      · exact fun _ h => absurd h List.not_mem_nil
      · next c' event happly =>
        intro e he
        rcases List.mem_append.1 he with he | he
        · obtain rfl := Option.mem_toList.1 he
          exact Variable.isSetting_of_apply happly
        · exact ih c' e he

namespace Environment

variable {env : Environment}

/-- The capacity configured, if it can be used. -/
theorem Acceptable.initialCapacity (h : env.Acceptable) :
    env.config.initialCapacity ≤ Config.maxInitialCapacity := by
  cases ht : env.text? Variable.capacity.name with
  | none =>
    simp only [config, ht, Option.bind_none, Option.getD_none]
    decide
  | some raw =>
    obtain ⟨n, hn, hle⟩ := h.capacity raw ht
    have hword : (UInt64.ofNat n).toNat = n :=
      UInt64.toNat_ofNat_of_lt' (Nat.lt_of_le_of_lt hle (by decide))
    have hk : readCapacity? raw = some (.ofNat n) :=
      readCapacity?_eq_some_iff.2 (hword.symm ▸ hn)
    simp only [config, ht, hk, Option.bind_some, Option.getD_some]
    rw [UInt64.le_iff_toNat_le, hword]
    exact hle

/-- All variables can be read, and the capacity is in bounds, exactly if they are acceptable. -/
theorem acceptable_iff : env.Acceptable ↔
    (∀ v ∈ Variable.all, ∀ raw, env.text? v.name = some raw → v.Readable raw) ∧
      env.config.initialCapacity ≤ Config.maxInitialCapacity := by
  constructor
  · refine fun h => ⟨fun v _ raw hraw => ?_, h.initialCapacity⟩
    cases v with
    | mode => exact h.mode raw hraw
    | capacity =>
      obtain ⟨n, hn, hle⟩ := h.capacity raw hraw
      exact ⟨n, hn, Nat.lt_of_le_of_lt hle (by decide)⟩
    | trackMemory => trivial
    | normalization => exact h.normalization raw hraw
  · rintro ⟨h, hle⟩
    refine ⟨h .mode (by decide), fun raw hraw => ?_, h .normalization (by decide)⟩
    obtain ⟨k, hk⟩ := Variable.readable_capacity_iff.1 (h .capacity (by decide) raw hraw)
    simp only [config, hraw, hk, Option.bind_some, Option.getD_some] at hle
    exact ⟨k.toNat, readCapacity?_eq_some_iff.1 hk, UInt64.le_iff_toNat_le.1 hle⟩

/-- The overrides of an environment are accepted exactly if its variables are. -/
theorem verdict_eq_ok_iff :
    (({} : Config).applyOverrides env.text?).verdict = .ok () ↔ env.Acceptable := by
  rw [acceptable_iff]
  by_cases hread : ∀ v ∈ Variable.all, ∀ raw, env.text? v.name = some raw → v.Readable raw
  · rw [Config.applyOverrides, (Config.overrideBy_of_readable {} hread).2,
      Config.validate_eq_ok_iff, and_iff_right hread]
    rfl
  · refine ⟨fun hok => ?_, fun h => absurd h.1 hread⟩
    push Not at hread
    obtain ⟨v, hv, raw, hraw, hr⟩ := hread
    obtain ⟨e, he⟩ := Config.overrideBy_of_unreadable {} hv hraw hr
    cases hok.symm.trans he

instance (env : Environment) : Decidable env.Acceptable :=
  decidable_of_iff ((({} : Config).applyOverrides env.text?).verdict.isOk = true) <| by
    rw [← verdict_eq_ok_iff]
    cases (({} : Config).applyOverrides env.text?).verdict with
    | ok => exact ⟨fun _ => rfl, fun _ => rfl⟩
    | error => exact ⟨nofun, nofun⟩

/-- Acceptable variables make the configuration to use. -/
theorem Acceptable.processConfig (h : env.Acceptable) :
    (Interner.processConfig env).1 = env.config := by
  simp only [Interner.processConfig, Config.fromEnvironment, verdict_eq_ok_iff.2 h]
  exact (Config.overrideBy_of_readable {} (acceptable_iff.1 h).1).1

/-- With any other variables the default configuration is used. -/
theorem processConfig_of_not_acceptable (h : ¬env.Acceptable) :
    (Interner.processConfig env).1 = {} := by
  rw [← verdict_eq_ok_iff] at h
  simp only [Interner.processConfig, Config.fromEnvironment]
  cases hv : (({} : Config).applyOverrides env.text?).verdict with
  | ok => exact absurd hv h
  | error => rfl

theorem isSetting_of_mem_processConfig (env : Environment) :
    ∀ e ∈ (Interner.processConfig env).2, e.isSetting = true := by
  have hfound : ∀ e ∈ (({} : Config).applyOverrides env.text?).events, e.isSetting = true :=
    Config.isSetting_of_mem_events {}
  simp only [Interner.processConfig, Config.fromEnvironment]
  cases (({} : Config).applyOverrides env.text?).verdict with
  | ok => exact hfound
  | error e =>
    intro e' he'
    rcases List.mem_append.1 he' with he' | he'
    · exact hfound e' he'
    · obtain rfl := List.mem_singleton.1 he'
      rfl

end Environment

/-! ### Making the interner -/

namespace World

theorem reportAll_eq (es : List Event) (w : World) :
    ∃ j, w.reportAll es = w.withJournal j ∧ (w.reportAll es).events = w.events ++ es := by
  induction es generalizing w with
  | nil => exact ⟨w.journal, rfl, (List.append_nil _).symm⟩
  | cons e es ih =>
    obtain ⟨j, hj, he⟩ := ih (w.report e)
    refine ⟨j, hj, he.trans ?_⟩
    rw [events_report, List.append_assoc]
    rfl

theorem events_newTable (k : Storage) (capacity : UInt64) (tracked : Bool) (w : World) :
    (w.newTable k capacity tracked).2.events = w.events ++ [k.madeEvent capacity] := by
  cases k <;> exact events_report _ w

end World

namespace Interner

/-- The interner of a table that is made after some settings were found. -/
theorem made_newTable {w u : World} {j : Array Act} (hu : u = w.withJournal j) {found : List Event}
    (hfound : ∀ e ∈ found, e.isSetting = true) (hevents : u.events = w.events ++ found)
    (k : Storage) (f : Normalizer) (capacity : UInt64) (tracked : Bool) :
    Made w k.mode f capacity tracked
      (make (.table u.tables.size) f (u.newTable k capacity tracked).2) := by
  have hmode : (Strategy.table u.tables.size).mode (u.newTable k capacity tracked).2 = k.mode := by
    show ((u.newTable k capacity tracked).2.tableAt u.tables.size).storage.mode = k.mode
    rw [World.tableAt_newTable, if_pos rfl]
  have hstorage : k.mode.storage? = some k := by cases k <;> rfl
  refine ⟨hmode, rfl, ?_, ?_, ?_, ?_, found, hfound, ?_⟩
  · rw [hstorage, hu]
    rfl
  · rw [hstorage, hu]
    exact Array.toList_push
  · rw [hu]
    rfl
  · rw [hu]
    rfl
  · rw [make, World.events_report, World.events_newTable, hevents, hmode, hstorage]
    rfl

/-- An interner is made of what its mode needs, after some settings were found. -/
theorem made_of_found (w : World) (mode : ResolvedMode) (f : Normalizer) (capacity : UInt64)
    (tracked : Bool) {found : List Event} (hfound : ∀ e ∈ found, e.isSetting = true) :
    Made w mode f capacity tracked
      (make (Strategy.ofMode mode capacity tracked (w.reportAll found)).1 f
        (Strategy.ofMode mode capacity tracked (w.reportAll found)).2) := by
  obtain ⟨j, hu, hevents⟩ := w.reportAll_eq found
  cases mode with
  | passthrough =>
    refine ⟨rfl, rfl, rfl, ?_, ?_, ?_, found, hfound, ?_⟩
    · rw [Strategy.ofMode, hu]
      exact (List.append_nil _).symm
    · rw [Strategy.ofMode, hu]
      rfl
    · rw [Strategy.ofMode, hu]
      rfl
    · rw [make, World.events_report, Strategy.ofMode, hevents]
      exact congrArg (· ++ _) (List.append_nil _).symm
  | reclaiming => exact made_newTable hu hfound hevents .reclaiming f capacity tracked
  | retaining => exact made_newTable hu hfound hevents .retaining f capacity tracked

variable {caps : HostCapabilities} {env : Environment} {w : World} {c : Config}

/-- A configuration that the host can do is what the interner is made of. -/
theorem made_ofProcess_of_ok {mode : ResolvedMode} (hc : (processConfig env).1 = c)
    (h : c.resolve caps = .ok mode) :
    Made w mode c.normalization.normalizer c.initialCapacity c.trackMemory
      (ofProcess caps env w) := by
  have hmade := made_of_found w mode c.normalization.normalizer c.initialCapacity c.trackMemory
    (Environment.isSetting_of_mem_processConfig env)
  subst hc
  simp only [ofProcess, ofConfig, withNormalizer, Strategy.select, h]
  exact hmade

/-- A configuration that the host cannot do gives way to the plain interner. -/
theorem made_ofProcess_of_error {e : Error} (hc : (processConfig env).1 = c)
    (h : c.resolve caps = .error e) :
    Made w caps.preferredMode .verbatim 0 false (ofProcess caps env w) := by
  have hfound : ∀ e' ∈ (processConfig env).2 ++ [.modeFallback e], e'.isSetting = true := by
    intro e' he'
    rcases List.mem_append.1 he' with he' | he'
    · exact Environment.isSetting_of_mem_processConfig env e' he'
    · obtain rfl := List.mem_singleton.1 he'
      rfl
  have hmade := made_of_found w caps.preferredMode .verbatim 0 false hfound
  have hreport : w.reportAll ((processConfig env).2 ++ [.modeFallback e]) =
      (w.reportAll (processConfig env).2).report (.modeFallback e) := List.foldl_append ..
  rw [hreport] at hmade
  subst hc
  simp only [ofProcess, ofConfig, withNormalizer, Strategy.select, h]
  exact hmade

end Interner

/-! ### Later runs -/

namespace World.KeepsStorage

variable {w w₁ w₂ : World}

theorem refl (w : World) : w.KeepsStorage w := ⟨Nat.le_refl _, fun _ _ => rfl⟩

theorem trans (h : w.KeepsStorage w₁) (h' : w₁.KeepsStorage w₂) : w.KeepsStorage w₂ where
  size := Nat.le_trans h.size h'.size
  storage t ht := (h'.storage t (Nat.lt_of_lt_of_le ht h.size)).trans (h.storage t ht)

/-- Only tables count. -/
theorem congr (h : w.KeepsStorage w₁) (ht : w₂.tables = w₁.tables) : w.KeepsStorage w₂ where
  size := ht ▸ h.size
  storage t hlt := (congrArg Table.storage (World.tableAt_congr ht t)).trans (h.storage t hlt)

theorem modifyTable (t : TableId) {f : Table → Table} (hf : ∀ x, (f x).storage = x.storage) :
    w.KeepsStorage (w.modifyTable t f) where
  size := Nat.le_of_eq (World.size_modifyTable t f).symm
  storage u _ := World.field_modifyTable Table.storage hf t u

theorem newTable (k : Storage) (capacity : UInt64) (tracked : Bool) :
    w.KeepsStorage (w.newTable k capacity tracked).2 where
  size := by
    show _ ≤ (w.tables.push _).size
    rw [Array.size_push]
    exact Nat.le_succ _
  storage u hu := by rw [World.tableAt_newTable, if_neg (Nat.ne_of_lt hu)]

end World.KeepsStorage

/-- No step changes the storage of a table. -/
theorem Step.keepsStorage_effect (s : Step) (w : World) : w.KeepsStorage (s.effect w).world := by
  cases s with
  | newTable k capacity tracked => exact .newTable k capacity tracked
  | share t => exact .modifyTable t fun _ => rfl
  | disown t =>
    have ho : w.KeepsStorage (w.removeOwner t) := .modifyTable t fun _ => rfl
    rw [Step.effect_disown]
    split
    · exact ho.trans (.modifyTable t fun _ => rfl)
    · exact ho
  | value text => exact (World.KeepsStorage.refl w).congr rfl
  | clone i => exact (World.KeepsStorage.refl w).congr rfl
  | release i =>
    rcases Step.effect_release i w with ⟨r, j, -, -, -, he⟩ | ⟨-, j, he⟩
    · have h₁ : w.KeepsStorage (w.loseHandle i) := (World.KeepsStorage.refl w).congr rfl
      have h₂ : (w.loseHandle i).KeepsStorage ((w.loseHandle i).addOwner r.table) :=
        .modifyTable r.table fun _ => rfl
      rw [he]
      exact (h₁.trans h₂).congr rfl
    · rw [he]
      exact (World.KeepsStorage.refl w).congr rfl
  | normalize => exact (World.KeepsStorage.refl w).congr rfl
  | lookup t key =>
    obtain ⟨j, he⟩ := Step.effect_lookup t key w
    rw [he]
    exact (World.KeepsStorage.refl w).congr (by cases w.live? t key <;> rfl)
  | begin t f a => exact (World.KeepsStorage.refl w).congr rfl
  | check c =>
    rcases Step.effect_check c w with ⟨-, i, j, -, he⟩ | ⟨-, j, he⟩
    · rw [he]
      exact (World.KeepsStorage.refl w).congr rfl
    · rw [he]
      exact (World.KeepsStorage.refl w).congr rfl
  | enter c =>
    cases hf : w.live? c.table c.key with
    | some i =>
      obtain ⟨j, he⟩ := Step.effect_enter_of_some hf
      rw [he]
      exact (World.KeepsStorage.refl w).congr rfl
    | none =>
      obtain ⟨x, rejected, w₁, j, hp, he⟩ := Step.effect_enter_of_none hf
      rw [he]
      refine ((World.KeepsStorage.refl w).congr hp.tables).trans ⟨?_, fun t _ => ?_⟩
      · exact Nat.le_of_eq (World.size_tables_install c.table c.key x).symm
      · exact World.storage_install c.table c.key x t
  | record c o =>
    have h : w.KeepsStorage (w.count c.table (c.counted o w)) := .modifyTable c.table fun _ => rfl
    exact h.congr (c.tables_record o w)
  | detach r =>
    by_cases h : (w.entries r.table).get? r.key = some r.gone
    · obtain ⟨j, he⟩ := Step.effect_detach_of_own h
      have h : w.KeepsStorage (w.modifyEntries r.table fun m => m.erase r.key) :=
        .modifyTable r.table fun _ => rfl
      rw [he]
      exact h.congr rfl
    · obtain ⟨j, he⟩ := Step.effect_detach_of_other h
      rw [he]
      exact (World.KeepsStorage.refl w).congr rfl
  | settle r removed =>
    let e := Counters.Entry.reclaim removed (World.entryBytes r.key (w.text r.gone))
    have h₁ : w.KeepsStorage (w.count r.table e) := .modifyTable r.table fun _ => rfl
    have h₂ : (w.count r.table e).KeepsStorage ((w.count r.table e).removeOwner r.table) :=
      .modifyTable r.table fun _ => rfl
    exact (h₁.trans h₂).congr (r.tables_settle removed w)

/-- No run changes the storage of a table. -/
theorem Machine.keepsStorage_run {m m' : Machine} {steps : List Step}
    (h : run steps m = some m') : m.world.KeepsStorage m'.world := by
  refine run_induction (P := fun x => m.world.KeepsStorage x.world) ?_ (.refl m.world) h
  intro s _ m₁ m₂ hm₁ hs
  obtain ⟨rest, -, -, rfl⟩ := exists_of_step hs
  exact hm₁.trans (s.keepsStorage_effect m₁.world)

/-- The mode of a target that was made stays. -/
theorem Strategy.mode_of_keepsStorage {s : Strategy} {w w' : World} (h : w.KeepsStorage w')
    (hs : ∀ t ∈ s.table?, t < w.tables.size) : s.mode w' = s.mode w := by
  cases s with
  | passthrough => rfl
  | table t => exact congrArg Storage.mode (h.storage t (hs t rfl))

/-! ### The first use -/

namespace Interner

variable {w : World} {r : ResolvedMode} {f : Normalizer} {capacity : UInt64} {tracked : Bool}
  {made : Interner × World}

theorem Made.table_lt (h : Made w r f capacity tracked made) :
    ∀ t ∈ made.1.strategy.table?, t < made.2.tables.size := by
  intro t ht
  have htables := congrArg List.length h.tables
  rw [h.table] at ht
  cases hr : r.storage? with
  | none => rw [hr] at ht; cases ht
  | some k =>
    rw [hr] at ht htables
    cases ht
    simp only [Array.length_toList, List.length_append, Option.map_some, Option.toList_some,
      List.length_singleton] at htables
    show w.tables.size < made.2.tables.size
    omega

/-- Whatever the environment and the host, the first use makes an interner: of the configuration
that is acceptable and can be done, and of nothing else. -/
theorem first_use (caps : HostCapabilities) (env : Environment) (w : World) :
    FirstUse caps env w (ofProcess caps env w) := by
  have hpreferred : caps.resolve .auto = .ok caps.preferredMode := rfl
  -- Some interner of a mode that the host can do is made in any case.
  have hmade : ∃ r f capacity tracked, Made w r f capacity tracked (ofProcess caps env w) ∧
      (r = .reclaiming → caps.reclaimableRefs = true) := by
    cases h : (processConfig env).1.resolve caps with
    | ok mode =>
      refine ⟨_, _, _, _, made_ofProcess_of_ok rfl h, ?_⟩
      rintro rfl
      exact HostCapabilities.reclaimableRefs_of_resolve (Config.resolve_eq_ok_iff.1 h).2
    | error e =>
      refine ⟨_, _, _, _, made_ofProcess_of_error rfl h, fun hr => ?_⟩
      exact HostCapabilities.reclaimableRefs_of_resolve (hr ▸ hpreferred)
  obtain ⟨r, f, capacity, tracked, hmade, hreclaimable⟩ := hmade
  constructor
  case configured =>
    intro h mode hmode
    exact made_ofProcess_of_ok h.processConfig
      (Config.resolve_eq_ok_iff.2 ⟨h.initialCapacity, hmode⟩)
  case unsupported =>
    intro h e he
    refine made_ofProcess_of_error (e := e) h.processConfig ?_
    rw [Config.resolve, Config.validate_eq_ok_iff.2 h.initialCapacity]
    exact he
  case discarded =>
    intro h
    exact made_ofProcess_of_ok (Environment.processConfig_of_not_acceptable h) hpreferred
  case reclaimable => exact fun h => hreclaimable (hmade.mode.symm.trans h)
  case lasting =>
    rintro m m' steps hm hrun
    exact Strategy.mode_of_keepsStorage (hm ▸ Machine.keepsStorage_run hrun) hmade.table_lt

/-- A host without capabilities makes what was asked for, or else what it can do; one bad capacity
makes a host forget the mode asked for. -/
theorem first_use_fallbacks :
    let strong : Environment := ⟨KeyMap.insert ∅ Variable.mode.name "Strong ".toUTF8⟩
    let weak : Environment := ⟨KeyMap.insert ∅ Variable.mode.name "weak".toUTF8⟩
    let lots : Environment := ⟨strong.bytes.insert Variable.capacity.name "lots".toUTF8⟩
    Made {} .retaining .verbatim 256 false (ofProcess Build.bare.capabilities strong {}) ∧
      Made {} .retaining .verbatim 0 false (ofProcess Build.bare.capabilities weak {}) ∧
      Made {} .reclaiming .verbatim 256 false
        (ofProcess Build.standard.capabilities lots {}) := by
  intro strong weak lots
  have hstrong : strong.config = { mode := .retaining } := by decide +kernel
  have hweak : weak.config = { mode := .reclaiming } := by decide +kernel
  refine ⟨?_, ?_, ?_⟩
  · have h := (first_use Build.bare.capabilities strong {}).configured (by decide +kernel)
      .retaining (by rw [hstrong]; rfl)
    rwa [hstrong] at h
  · exact (first_use Build.bare.capabilities weak {}).unsupported (by decide +kernel)
      .reclaimingUnavailable (by rw [hweak]; rfl)
  · exact (first_use Build.standard.capabilities lots {}).discarded (by decide +kernel)

end Interner

end Interning
