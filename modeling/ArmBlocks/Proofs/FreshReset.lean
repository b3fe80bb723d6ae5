import ArmBlocks.Proofs.CachesAhead
import ArmBlocks.Proofs.EngineLife
import ArmBlocks.Proofs.IntactBlocks

/-!
# A reset is as good as a new engine

Whatever an engine was used for, the reset of a processor leaves no trace of it that the processor
could find (`Engine.sights_of_reset`). What the embedder sees from then on (`Session.sights`) is what it
would see of an engine that was just created with the same configuration and initialised for the same
regions: the same answers, the same accesses to the host and the same statistics, where the counters
start from what they were.

A reset leaves the old cache, emptied and in the next generation, or makes one of another size. Either
way it is a new cache but for its age (`CodeCache.ahead_of_reset`), and age does not show. The host is
asked for memory by the one and by the other, and not for the same; that it grants what the new engine
asks for is all that is assumed of it (`Grants.Suffice`).
-/

set_option autoImplicit false

namespace ArmBlocks

open CodeCache (blank)

variable {σ : Type}

/-! ## What is seen of an engine -/

/-- The statistics of a cache that had counted before. -/
def CacheStats.ahead (lead : Lead) (stats : CacheStats) : CacheStats :=
  { stats with
    blocksCompiled := stats.blocksCompiled + lead.blocks
    resets := stats.resets + lead.resets }

/-- What is seen of a call: the answer, and then the host and the statistics of a processor. -/
structure Sight (σ : Type) where
  reply : Reply
  host : σ
  stats : Option CacheStats

/-- What is seen where the counters are ahead. -/
def Sight.ahead (lead : Lead) (sight : Sight σ) : Sight σ :=
  { sight with stats := sight.stats.map (CacheStats.ahead lead) }

/-- What is seen of some calls, one after the other. -/
def Session.sights (bus : Bus σ) (cpu : Cpu) : Session σ → List (Call σ) → List (Sight σ)
  | _, [] => []
  | w, next :: rest =>
    let done := w.call bus next
    { reply := done.1, host := done.2.host, stats := done.2.engine.stats cpu } ::
      Session.sights bus cpu done.2 rest

theorem CodeCache.Ahead.stats {lead : Lead} {c d : CodeCache} (h : c.Ahead lead d) :
    c.stats = d.stats.ahead lead := by
  rw [CodeCache.stats, h.used, h.arena, h.blocksCompiled, h.resets]
  rfl

theorem Engine.Ahead.stats {cpu : Cpu} {lead : Lead} {e f : Engine} (h : e.Ahead cpu lead f) :
    e.stats cpu = (f.stats cpu).map (CacheStats.ahead lead) := by
  obtain ⟨c, d, cached, cached', ahead⟩ := h.cache
  rw [Engine.stats, Engine.stats, cached, cached', Option.map_some, Option.map_some, Option.map_some,
    ahead.stats]

/-- Sessions one of which is ahead show the same in every sequence of calls, but for the lead. -/
theorem Session.Ahead.sights {cpu : Cpu} {lead : Lead} (bus : Bus σ) (after : List (Call σ)) :
    ∀ {w v : Session σ}, w.Ahead cpu lead v → (∀ next ∈ after, next.On cpu) →
      w.sights bus cpu after = (v.sights bus cpu after).map (Sight.ahead lead) := by
  induction after with
  | nil => intro w v h _; rfl
  | cons next rest ih =>
    intro w v h ours
    obtain ⟨reply, after⟩ := h.call bus (ours next List.mem_cons_self)
    have later := ih after fun other hother => ours other (List.mem_cons_of_mem _ hother)
    rw [Session.sights, Session.sights, List.map_cons, ← later, reply, after.host, after.engine.stats]
    rfl

/-! ## Resetting and starting anew

A cache that was reset is ahead of a new one by what it counted, and by nothing else. It remains to
see that the new engine, made from the configuration, has that cache.
-/

/-- A reset, in place or to another size, leaves a new cache but for its age. -/
theorem CodeCache.ahead_of_reset {c d : CodeCache} {cpu : Cpu} {config : Config}
    {grants : Nat → Bool} (h : c.MadeFor cpu)
    (made : c.arena.capacity = config.cacheReserve ∧ d = c.reset ∨
      c.arena.capacity ≠ config.cacheReserve ∧ c.resized config grants = .ok d) :
    ∃ lead, d.Ahead lead (blank cpu config c.regions c.table.layout) := by
  have ours := h.ours
  subst ours
  rcases made with ⟨kept, rfl⟩ | ⟨-, resized⟩
  · -- in place, the arena goes on counting its generations
    refine ⟨{ generation := c.arena.generation + 1, blocks := c.blocksCompiled, resets := c.resets + 1 },
      ?_⟩
    refine ⟨rfl, ?_, ⟨rfl, fun slot => ?_⟩, rfl, rfl, (Nat.zero_add _).symm, (Nat.zero_add _).symm⟩
    · have first : (0 : Word) + (c.arena.generation + 1) = c.arena.generation + 1 := BitVec.zero_add _
      simp only [CodeCache.reset, CodeCache.flush, Arena.reset, Arena.withGeneration, blank, kept, first]
    · simp [CodeCache.reset, CodeCache.flush, SlotTable.reset, blank]
  · -- another size is another arena, and its generations start over
    obtain ⟨layout, accepted, -, rfl⟩ := resized_eq_ok.mp resized
    obtain rfl := Except.ok.inj (h.accepted.symm.trans accepted)
    refine ⟨{ generation := 0, blocks := c.blocksCompiled, resets := c.resets + 1 }, ?_⟩
    refine ⟨rfl, rfl, ⟨rfl, fun slot => ?_⟩, rfl, rfl, (Nat.zero_add _).symm, (Nat.zero_add _).symm⟩
    simp [blank]

/-- The host grants all that an engine asks for when it is initialised. -/
structure Grants.Suffice (grants : Grants) (config : Config) : Prop where
  cache : ∀ cpu, grants.cache cpu config.cacheReserve = true
  scratch : grants.scratch Engine.scratchBytes = true

namespace Engine

variable {bus : Bus σ} {e : Engine} {grants : Grants}

/-- Caches are added for all processors if each of them is granted. -/
theorem addCaches_of_new {regions : Cpu → List CodeRegion} (cpus : List Cpu) :
    ∀ {e : Engine}, (∀ cpu, ∃ c, CodeCache.new cpu e.config (regions cpu) (grants.cache cpu) = .ok c) →
      ∃ f, e.addCaches regions grants cpus = (.ok (), f) := by
  induction cpus with
  | nil => intro e _; exact ⟨e, rfl⟩
  | cons cpu rest ih =>
    intro e granted
    obtain ⟨c, made⟩ := granted cpu
    unfold addCaches addCache
    rw [made]
    exact ih granted

/-- An initialisation goes through if every cache and the arena for single instructions are granted. -/
theorem init_of_new {host : σ}
    (made : ∀ cpu, ∃ c,
      CodeCache.new cpu e.config (bus.codeRegions host cpu) (grants.cache cpu) = .ok c)
    (granted : grants.scratch scratchBytes = true) :
    ∃ f told, e.init bus host grants = (.ok (), f, told) ∧
      f.scratch.map Arena.capacity = some scratchBytes := by
  obtain ⟨f, added⟩ := addCaches_of_new Cpu.all made
  have reserved : Arena.reserve (α := Record) scratchBytes grants.scratch =
      .ok { capacity := scratchBytes, used := 0, generation := 0, cells := ∅ } := if_pos granted
  unfold init
  rw [added, reserved]
  exact ⟨_, _, rfl, rfl⟩

/-- **A reset is as good as a new engine.** Whatever was done with an engine that is initialised, after
the reset of a processor the same is seen of it as of an engine that was just created and
initialised, as long as it is used for that processor. -/
theorem sights_of_reset {r : Engine} {cpu : Cpu} {host : σ} {granted : Grants} (lived : e.Lived bus)
    (initialised : e.scratch.isSome)
    (same : ∀ other, (e.caches.get other).map CodeCache.regions = some (bus.codeRegions host other))
    (done : e.reset cpu granted = .ok r) (suffice : grants.Suffice r.config) :
    ∃ f told lead, (Engine.new r.config).1.init bus host grants = (.ok (), f, told) ∧
      f.stats cpu =
        some { bytesUsed := 0, capacity := r.config.cacheReserve, blocksCompiled := 0, resets := 0 } ∧
      r.stats cpu = (f.stats cpu).map (CacheStats.ahead lead) ∧
      ∀ (host : σ) (after : List (Call σ)), (∀ next ∈ after, next.On cpu) →
        Session.sights bus cpu { engine := r, host } after =
          (Session.sights bus cpu { engine := f, host } after).map (Sight.ahead lead) := by
  have sound := lived.sound
  obtain ⟨c, d, cached, made, rfl⟩ := reset_eq_ok done
  obtain ⟨lead, ahead⟩ := CodeCache.ahead_of_reset (sound.caches cpu c cached) made
  have config : (Engine.new e.config).1.config = e.config :=
    congrArg Prod.fst (Config.sanitized_of_ok sound.blockSize)
  -- the regions of each cache were accepted once, so they are again
  have news (other : Cpu) : ∃ b layout, e.caches.get other = some b ∧ layout = b.table.layout ∧
      CodeCache.new other (Engine.new e.config).1.config (bus.codeRegions host other)
          (grants.cache other) =
        .ok (blank other e.config (bus.codeRegions host other) layout) := by
    obtain ⟨b, held, regions⟩ := Option.map_eq_some_iff.mp (same other)
    have accepted := (sound.caches other b held).accepted
    rw [regions] at accepted
    rw [config]
    exact ⟨b, _, held, rfl, CodeCache.new_eq_ok.mpr ⟨_, accepted, suffice.cache other, rfl⟩⟩
  have made (other : Cpu) : ∃ c, CodeCache.new other (Engine.new e.config).1.config
      (bus.codeRegions host other) (grants.cache other) = .ok c := by
    obtain ⟨_, _, -, -, new⟩ := news other
    exact ⟨_, new⟩
  obtain ⟨f, told, begun, room⟩ := init_of_new made suffice.scratch
  obtain ⟨configured, fresh, cached', new⟩ := hasNew_of_init begun cpu
  obtain ⟨b, layout, held, rfl, new'⟩ := news cpu
  obtain rfl : c = b := Option.some.inj (cached.symm.trans held)
  obtain rfl := Except.ok.inj (new.symm.trans new')
  have regions : c.regions = bus.codeRegions host cpu := by
    have known := same cpu
    rw [cached] at known
    exact Option.some.inj known
  rw [regions] at ahead
  have engines : Engine.Ahead cpu lead { e with caches := e.caches.set cpu (some d) } f := by
    refine ⟨(configured.trans config).symm, ⟨d, _, PerCpu.get_set_self _ _ _, cached', ahead⟩, ?_⟩
    obtain ⟨a, scratch⟩ := Option.isSome_iff_exists.mp initialised
    rw [room, scratch, Option.map_some, sound.scratch a scratch]
  refine ⟨f, told, lead, begun, ?_, engines.stats, fun host after ours => ?_⟩
  · rw [Engine.stats, cached']
    rfl
  · exact Session.Ahead.sights bus after ⟨engines, rfl⟩ ours

/-- An engine that has compiled for both processors, and is to get smaller caches. -/
def busy : Session Unit :=
  Session.calls Chronicle.moves
    { engine := ((Engine.new {}).1.init Chronicle.moves ()).2.1, host := () }
    [.execute (.new .arm9), .execute (.new .arm7), .setReserve 1]

/-- When it gets them, it starts anew. -/
theorem sights_of_busy : ∃ r f told lead, busy.engine.reset .arm9 = .ok r ∧
    (Engine.new r.config).1.init Chronicle.moves () = (.ok (), f, told) ∧
    r.stats .arm9 =
      some { bytesUsed := 0, capacity := mebibyte, blocksCompiled := 1, resets := 1 } ∧
    Session.sights Chronicle.moves .arm9 { engine := r, host := () }
        [.execute (.new .arm9), .invalidate 4 .arm9, .execute (.new .arm9)] =
      (Session.sights Chronicle.moves .arm9 { engine := f, host := () }
        [.execute (.new .arm9), .invalidate 4 .arm9, .execute (.new .arm9)]).map
          (Sight.ahead lead) := by
  have lived : busy.engine.Lived Chronicle.moves :=
    Lived.calls _ () ((Lived.new {}).init () .usual)
  have same (other : Cpu) : (busy.engine.caches.get other).map CodeCache.regions =
      some (Chronicle.moves.codeRegions () other) := by
    cases other <;> decide +kernel
  -- one evaluation settles both that the reset succeeds and what the counters say after it
  have known : (busy.engine.reset .arm9).toOption.bind (·.stats .arm9) =
      some { bytesUsed := 0, capacity := mebibyte, blocksCompiled := 1, resets := 1 } := by
    decide +kernel
  cases done : busy.engine.reset .arm9 with
  | error error =>
    rw [done] at known
    cases known
  | ok r =>
    rw [done, Except.toOption, Option.bind_some] at known
    have config : r.config = busy.engine.config := by
      obtain ⟨_, _, -, -, rfl⟩ := reset_eq_ok done
      rfl
    have suffice : Grants.usual.Suffice r.config := by
      rw [config]
      exact ⟨fun cpu => by cases cpu <;> decide +kernel, rfl⟩
    obtain ⟨f, told, lead, begun, -, -, seen⟩ :=
      sights_of_reset lived (by decide +kernel) same done suffice
    exact ⟨r, f, told, lead, rfl, begun, known, seen () _ (by simp [Call.On, CpuState.new])⟩

end Engine

end ArmBlocks
