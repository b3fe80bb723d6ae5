import ArmBlocks.Proofs.CompiledCode

/-!
# The block that an execution starts

`Engine.execute` looks for a block and runs it, or it runs one instruction without the cache.
`Engine.started?` names the block, the processor and the host at the moment in between, so that
something can be said about it. `Engine.execute_of_started` and `Engine.execute_of_not_started` say
that it is the right block, and that nothing else is run from the cache.

The rest is about what the engine's operations leave alone: an operation on one processor keeps the
cache of the other, and none but `setReserveMebibytes` changes the configuration.
-/

set_option autoImplicit false

namespace ArmBlocks

open CodeCache (prepare)

variable {σ : Type}

/-- A block of the code cache at the moment it starts. -/
structure StartedBlock (σ : Type) where
  /-- The cache it lies in. -/
  cache : CodeCache
  ref : Ref
  header : Block.Header
  cpu : CpuState
  host : σ

/-- A turn of the engine is the run of the block. -/
def StartedBlock.Runs (b : StartedBlock σ) (bus : Bus σ) (t : Turn σ) : Prop :=
  let ran := Engine.runBlock bus b.cache.arena b.header b.cpu b.host
  t.result = .ok ran.2.cycles ∧ t.cpu = ran.2.cpu ∧ t.host = ran.2.host ∧
    t.broken = (ran.1 == .broken)

/-- A block that starts is the right one: it stands at the next instruction and is of the instruction
set in force, and the run it was built from is what the host yields. -/
structure StartedBlock.UpToDate (b : StartedBlock σ) (bus : Bus σ) (s : CpuState)
    (run : List Instruction) : Prop where
  first : b.header.first = s.next
  thumb : b.header.thumb = s.thumb
  nonempty : run ≠ []
  straight : Decode.Straight s.thumb s.next run
  code : ∀ i ∈ run, (Decode.fetch bus s.cpu s.thumb i.addr b.host).1 = some i

/-- What stands there is that run, as it was compiled. -/
def StartedBlock.Consists (b : StartedBlock σ) (config : Config) (run : List Instruction) : Prop :=
  ∃ last, (prepare config run).getLast? = some last ∧
    Block.At b.cache.arena b.ref b.header (Block.steps (prepare config run) last)

namespace Engine

/-- References reach all that was handed out in the cache of a processor since it was emptied. -/
def Reaches (e : Engine) (cpu : Cpu) : Prop :=
  ∀ c, e.caches.get cpu = some c → c.arena.used < 2 ^ 32

/-- The block of the code cache that an execution runs, if it runs one. -/
def started? (e : Engine) (bus : Bus σ) (s : CpuState) (host : σ) : Option (StartedBlock σ) :=
  match e.caches.get s.cpu with
  | none => none
  | some c =>
    let found := obtainBlock c bus e.config s host
    match found.outcome with
    | .ok (.compiled ref _) =>
      match Block.header? found.cache.arena ref with
      | some header =>
        if header.thumb = found.cpu.thumb then
          some { cache := found.cache, ref, header, cpu := found.cpu, host := found.host }
        else none
      | none => none
    | _ => none

variable {e : Engine} {bus : Bus σ} {s : CpuState} {host : σ}

/-- What is known of a block that was started. -/
theorem started?_eq_some {b : StartedBlock σ} (h : e.started? bus s host = some b) :
    ∃ c generation, e.caches.get s.cpu = some c ∧
      (obtainBlock c bus e.config s host).outcome = .ok (.compiled b.ref generation) ∧
      b.cache = (obtainBlock c bus e.config s host).cache ∧
      b.cpu = (obtainBlock c bus e.config s host).cpu ∧
      b.host = (obtainBlock c bus e.config s host).host ∧
      Block.header? b.cache.arena b.ref = some b.header ∧ b.header.thumb = b.cpu.thumb := by
  unfold started? at h
  cases cached : e.caches.get s.cpu with
  | none =>
    rw [cached] at h
    cases h
  | some c =>
    rw [cached] at h
    dsimp only at h
    split at h
    · rename_i ref generation outcome
      split at h
      · rename_i header hheader
        split at h
        · rename_i set
          cases h
          exact ⟨c, generation, rfl, outcome, rfl, rfl, rfl, hheader, set⟩
        · cases h
      · cases h
    · cases h

/-- A block at that place and of that instruction set is started where it is known. -/
theorem started?_of_lookup {c : CodeCache} (cached : e.caches.get s.cpu = some c) {ref : Ref}
    {generation : Word} (known : c.lookup s.next = some (.compiled ref generation))
    {header : Block.Header} (found : Block.header? c.arena ref = some header)
    (first : header.first = s.next) (set : header.thumb = s.thumb) (bus : Bus σ) (host : σ) :
    e.started? bus s host = some { cache := c, ref, header, cpu := s, host } := by
  have block : findBlock c s.next = some (.compiled ref generation) := by
    simp only [findBlock, known, blockHeader?, found, first, if_true]
  have obtained : obtainBlock c bus e.config s host =
      { outcome := .ok (.compiled ref generation), cache := c, cpu := s, host, notices := [] } := by
    rw [obtainBlock, block]
  simp only [started?, cached, obtained, found, set, if_true]

/-- A block is started in the instruction set in which it was looked for. -/
theorem thumb_of_started {b : StartedBlock σ}
    (h : e.started? bus s host = some b) : b.cpu.thumb = s.thumb := by
  obtain ⟨c, generation, -, -, -, cpu, -, -, -⟩ := started?_eq_some h
  rw [cpu]
  unfold obtainBlock
  split
  · rfl
  · rcases c.cpu_compile bus e.config s host with same | halted
    · rw [same]
    · rw [halted]
      rfl

/-- The block that was started is run, and its cycles are the answer. -/
theorem execute_of_started {b : StartedBlock σ} (h : e.started? bus s host = some b) :
    b.Runs bus (e.execute bus s host) := by
  obtain ⟨c, generation, cached, outcome, cache, cpu, moment, header, set⟩ := started?_eq_some h
  rw [cache] at header
  rw [cpu] at set
  simp only [StartedBlock.Runs, execute, cached, outcome, blockHeader?, header, set, if_true, cache,
    cpu, moment, finishTurn]
  exact ⟨trivial, trivial, trivial, trivial⟩

/-- Where no block is started nothing runs, or one instruction runs without the cache. -/
theorem execute_of_not_started (h : e.started? bus s host = none) :
    (∃ error, (e.execute bus s host).result = .error error) ∨
      ∃ e' s' host', (e.execute bus s host).result = (executeUncached e' bus s' host').result ∧
        (e.execute bus s host).cpu = (executeUncached e' bus s' host').cpu ∧
        (e.execute bus s host).host = (executeUncached e' bus s' host').host := by
  unfold started? at h
  unfold execute
  cases cached : e.caches.get s.cpu with
  | none => exact .inl ⟨_, rfl⟩
  | some c =>
    rw [cached] at h
    dsimp only at h ⊢
    cases outcome : (obtainBlock c bus e.config s host).outcome with
    | error error => exact .inl ⟨error, rfl⟩
    | ok block =>
      right
      rw [outcome] at h
      cases block with
      | interpret => exact ⟨_, _, _, rfl, rfl, rfl⟩
      | compiled ref generation =>
        dsimp only [blockHeader?] at h ⊢
        cases found : Block.header? (obtainBlock c bus e.config s host).cache.arena ref with
        | none => exact ⟨_, _, _, rfl, rfl, rfl⟩
        | some header =>
          rw [found] at h
          dsimp only at h ⊢
          by_cases set : header.thumb = (obtainBlock c bus e.config s host).cpu.thumb
          · rw [if_pos set] at h
            cases h
          · rw [if_neg set]
            exact ⟨_, _, _, rfl, rfl, rfl⟩

/-! ## What the operations leave alone

An operation on one processor has nothing to do with the cache of the other, and what it changes in
its own is what the operation on the cache does.
-/

/-- The uncached way changes neither the settings nor the caches. -/
theorem executeUncached_engine (e : Engine) (bus : Bus σ) (s : CpuState) (host : σ) :
    (e.executeUncached bus s host).engine.config = e.config ∧
      (e.executeUncached bus s host).engine.caches = e.caches := by
  unfold executeUncached
  split
  · exact ⟨rfl, rfl⟩
  · dsimp only
    split
    · exact ⟨rfl, rfl⟩
    · split
      · exact ⟨rfl, rfl⟩
      · exact ⟨rfl, rfl⟩

/-- An execution leaves the cache it found or compiled the block in. -/
theorem execute_engine {c : CodeCache} (cached : e.caches.get s.cpu = some c) (bus : Bus σ) (host : σ) :
    (e.execute bus s host).engine.config = e.config ∧
      (e.execute bus s host).engine.caches =
        e.caches.set s.cpu (some (obtainBlock c bus e.config s host).cache) := by
  unfold execute
  rw [cached]
  dsimp only
  split
  · exact ⟨rfl, rfl⟩
  · split
    · split
      · exact ⟨rfl, rfl⟩
      · exact executeUncached_engine _ _ _ _
    · exact executeUncached_engine _ _ _ _

/-- An execution without a cache changes nothing. -/
theorem execute_engine_of_none (none : e.caches.get s.cpu = none) (bus : Bus σ) (host : σ) :
    (e.execute bus s host).engine = e := by
  unfold execute
  rw [none]

/-- An execution of one processor keeps the cache of another. -/
theorem execute_other (e : Engine) (bus : Bus σ) (s : CpuState) (host : σ) {cpu : Cpu}
    (other : s.cpu ≠ cpu) :
    (e.execute bus s host).engine.config = e.config ∧
      (e.execute bus s host).engine.caches.get cpu = e.caches.get cpu := by
  cases cached : e.caches.get s.cpu with
  | none =>
    rw [execute_engine_of_none cached]
    exact ⟨rfl, rfl⟩
  | some c =>
    obtain ⟨config, caches⟩ := execute_engine cached bus host
    refine ⟨config, ?_⟩
    rw [caches, PerCpu.get_set_of_ne _ _ other.symm]

/-- The scratch arena is used again and again, and stays as large as it is. -/
theorem capacity_scratch_executeUncached (e : Engine) (bus : Bus σ) (s : CpuState) (host : σ) :
    (e.executeUncached bus s host).engine.scratch.map Arena.capacity = e.scratch.map Arena.capacity := by
  unfold executeUncached
  split
  · rfl
  · rename_i scratch found
    dsimp only
    split
    · rfl
    · have capacity := Block.capacity_emit
        (Decode.run bus s.cpu s.next s.thumb 1 host).1 scratch.reset
      rw [found, Option.map_some, ← show scratch.reset.capacity = scratch.capacity from rfl, ← capacity]
      split
      · rfl
      · rfl

/-- An execution leaves the arena for single instructions as large as it was. -/
theorem capacity_scratch_execute (e : Engine) (bus : Bus σ) (s : CpuState) (host : σ) :
    (e.execute bus s host).engine.scratch.map Arena.capacity = e.scratch.map Arena.capacity := by
  unfold execute
  split
  · rfl
  · dsimp only
    split
    · rfl
    · split
      · split
        · rfl
        · exact capacity_scratch_executeUncached _ _ _ _
      · exact capacity_scratch_executeUncached _ _ _ _

theorem changeCache_config (e : Engine) (cpu : Cpu) (f : CodeCache → CodeCache × List Notice) :
    (e.changeCache cpu f).1.config = e.config := by
  unfold changeCache
  split
  · rfl
  · rfl

theorem changeCache_self {cpu : Cpu} {c : CodeCache} (cached : e.caches.get cpu = some c)
    (f : CodeCache → CodeCache × List Notice) :
    (e.changeCache cpu f).1.caches.get cpu = some (f c).1 := by
  simp [changeCache, cached]

theorem changeCache_other (e : Engine) {cpu other : Cpu} (f : CodeCache → CodeCache × List Notice)
    (apart : other ≠ cpu) : (e.changeCache cpu f).1.caches.get other = e.caches.get other := by
  unfold changeCache
  split
  · rfl
  · exact PerCpu.get_set_of_ne _ _ apart

theorem changeCache_scratch (e : Engine) (cpu : Cpu) (f : CodeCache → CodeCache × List Notice) :
    (e.changeCache cpu f).1.scratch = e.scratch := by
  unfold changeCache
  split
  · rfl
  · rfl

/-- A reset drops the blocks of one processor, and may make the cache as large as it should be. -/
theorem reset_eq_ok {e' : Engine} {cpu : Cpu} {grants : Grants} (h : e.reset cpu grants = .ok e') :
    ∃ c d, e.caches.get cpu = some c ∧
      (c.arena.capacity = e.config.cacheReserve ∧ d = c.reset ∨
        c.arena.capacity ≠ e.config.cacheReserve ∧ c.resized e.config (grants.cache cpu) = .ok d) ∧
      e' = { e with caches := e.caches.set cpu (some d) } := by
  unfold reset at h
  cases cached : e.caches.get cpu with
  | none =>
    rw [cached] at h
    cases h
  | some c =>
    rw [cached] at h
    dsimp only at h
    -- an arena of the configured size is used again, any other is replaced
    split at h
    · rename_i kept
      cases h
      exact ⟨c, c.reset, rfl, .inl ⟨kept, rfl⟩, rfl⟩
    · rename_i changed
      cases resized : c.resized e.config (grants.cache cpu) with
      | error error =>
        rw [resized] at h
        cases h
      | ok d =>
        rw [resized] at h
        cases h
        exact ⟨c, d, rfl, .inr ⟨changed, resized⟩, rfl⟩

/-- Another size is all that is set. -/
theorem setReserveMebibytes_config (config : Config) (mebibytes : Nat) :
    (config.setReserveMebibytes mebibytes).optimizeFlags = config.optimizeFlags ∧
      (config.setReserveMebibytes mebibytes).maxBlockInstructions = config.maxBlockInstructions := by
  -- with fields in place of projections, or the kernel goes on to compare the sizes
  cases config
  exact ⟨rfl, rfl⟩

theorem setReserveMebibytes_engine (e : Engine) (mebibytes : Nat) :
    (e.setReserveMebibytes mebibytes).config = e.config.setReserveMebibytes mebibytes ∧
      (e.setReserveMebibytes mebibytes).caches = e.caches ∧
        (e.setReserveMebibytes mebibytes).scratch = e.scratch := by
  cases e
  exact ⟨rfl, rfl, rfl⟩

/-! ## Initialisation

After one that succeeds each processor has a new cache, made from the configuration and the regions
that the host named.
-/

/-- The processor has a cache that was just made. -/
def HasNew (e : Engine) (config : Config) (regions : Cpu → List CodeRegion) (grants : Grants)
    (cpu : Cpu) : Prop :=
  ∃ c, e.caches.get cpu = some c ∧ CodeCache.new cpu config (regions cpu) (grants.cache cpu) = .ok c

variable {grants : Grants}

/-- A cache that was added is a new one, and the others that are new stay so. -/
theorem addCache_hasNew {e' : Engine} {regions : Cpu → List CodeRegion} {added : Cpu}
    (h : e.addCache added (regions added) (grants.cache added) = .ok e') :
    e'.config = e.config ∧ ∀ cpu, cpu = added ∨ e.HasNew e.config regions grants cpu →
      e'.HasNew e.config regions grants cpu := by
  unfold addCache at h
  cases made : CodeCache.new added e.config (regions added) (grants.cache added) with
  | error error =>
    rw [made] at h
    cases h
  | ok c =>
    rw [made] at h
    cases h
    refine ⟨rfl, fun cpu hcpu => ?_⟩
    by_cases same : cpu = added
    · subst same
      exact ⟨c, PerCpu.get_set_self _ _ _, made⟩
    · obtain ⟨d, cached, made'⟩ := hcpu.resolve_left same
      exact ⟨d, (PerCpu.get_set_of_ne _ _ same).trans cached, made'⟩

/-- If all were added, all are new. -/
theorem addCaches_hasNew {regions : Cpu → List CodeRegion} (cpus : List Cpu) :
    ∀ {e e' : Engine}, e.addCaches regions grants cpus = (.ok (), e') →
      e'.config = e.config ∧ ∀ cpu, cpu ∈ cpus ∨ e.HasNew e.config regions grants cpu →
        e'.HasNew e.config regions grants cpu := by
  induction cpus with
  | nil =>
    intro e e' h
    cases h
    exact ⟨rfl, fun cpu hcpu => hcpu.resolve_left List.not_mem_nil⟩
  | cons added rest ih =>
    intro e e' h
    unfold addCaches at h
    cases one : e.addCache added (regions added) (grants.cache added) with
    | error error =>
      rw [one] at h
      cases h
    | ok e₁ =>
      rw [one] at h
      obtain ⟨config, first⟩ := addCache_hasNew one
      obtain ⟨config', others⟩ := ih h
      refine ⟨config'.trans config, fun cpu hcpu => ?_⟩
      rw [config] at others
      apply others cpu
      -- the first CPU's cache is there when the others are made, and they leave it
      rcases hcpu with mem | already
      · rcases List.mem_cons.mp mem with rfl | mem
        · exact .inr (first cpu (.inl rfl))
        · exact .inl mem
      · exact .inr (first cpu (.inr already))

/-- Every processor has a new cache once the engine is initialised. -/
theorem hasNew_of_init {e' : Engine} {notices : List Notice}
    (h : e.init bus host grants = (.ok (), e', notices)) (cpu : Cpu) :
    e'.config = e.config ∧ e'.HasNew e.config (bus.codeRegions host) grants cpu := by
  unfold init at h
  rcases added : e.addCaches (bus.codeRegions host) grants Cpu.all with ⟨error | ⟨⟨⟩⟩, e₁⟩
  · rw [added] at h
    cases h
  · rw [added] at h
    dsimp only at h
    cases reserved : Arena.reserve (α := Record) scratchBytes grants.scratch with
    | error error =>
      rw [reserved] at h
      cases h
    | ok scratch =>
      rw [reserved] at h
      cases h
      obtain ⟨config, new⟩ := addCaches_hasNew _ added
      exact ⟨config, new cpu (.inl (by cases cpu <;> decide))⟩

end Engine

end ArmBlocks
