import ArmBlocks.Proofs.Calls
import ArmBlocks.Proofs.Generations

/-!
# Two caches that differ in their age

A cache that was reset looks like a new one, but it has counted: its arena is in a later generation,
and it has compiled and reset more often. `Lead` is how far it is ahead, and `CodeCache.Ahead` says
that it is ahead by that much and does not differ otherwise. The generations in its table are later by
as much as that of its arena, so a reference that is good in one is good in the other.

Nothing an engine does looks at the age itself. Every operation therefore answers the same on both
caches, up to the generation of a block, and leaves one as far ahead of the other as it was. That is
one lemma for each operation, down to `Session.Ahead.call` for a whole call.
-/

set_option autoImplicit false

namespace ArmBlocks

variable {σ : Type}

/-- How far a cache is ahead of another. -/
structure Lead where
  generation : Word
  blocks : Nat
  resets : Nat

/-- The entry with its generation counted from further on. -/
def SlotEntry.aged (shift : Word) : SlotEntry → SlotEntry
  | .compiled header generation => .compiled header (generation + shift)
  | .interpret => .interpret

@[simp] theorem SlotEntry.isCompiled_aged (shift : Word) (block : SlotEntry) :
    (block.aged shift).isCompiled = block.isCompiled := by
  cases block with
  | compiled header generation => rfl
  | interpret => rfl

/-! ## Tables -/

namespace SlotTable

/-- The tables hold the same, but the generations of one are later. -/
structure Ahead (shift : Word) (t u : SlotTable) : Prop where
  layout : t.layout = u.layout
  slots : ∀ slot : Nat, t.slots[slot]? = (u.slots[slot]?).map (SlotEntry.aged shift)

variable {shift : Word} {t u : SlotTable} (h : t.Ahead shift u)

include h

theorem Ahead.slot? (addr : Word) : t.slot? addr = u.slot? addr := by
  rw [SlotTable.slot?, SlotTable.slot?, h.layout]

theorem Ahead.lookup (addr : Word) : t.lookup addr = (u.lookup addr).map (SlotEntry.aged shift) := by
  rw [SlotTable.lookup, SlotTable.lookup, h.slot?]
  cases u.slot? addr with
  | none => rfl
  | some slot => exact h.slots slot

theorem Ahead.reset : t.reset.Ahead shift u.reset := ⟨h.layout, fun _ => by simp [SlotTable.reset]⟩

/-- Installing a block in both tables overwrites an old one in both or in neither. -/
theorem Ahead.install (addr : Word) (block : SlotEntry) :
    (t.install addr (block.aged shift)).1 = (u.install addr block).1 ∧
      (t.install addr (block.aged shift)).2.1.Ahead shift (u.install addr block).2.1 ∧
        (t.install addr (block.aged shift)).2.2 = (u.install addr block).2.2 := by
  rw [SlotTable.install, SlotTable.install, h.slot?]
  cases u.slot? addr with
  | none => exact ⟨rfl, h, rfl⟩
  | some slot =>
    refine ⟨rfl, ⟨h.layout, fun other => ?_⟩, rfl⟩
    dsimp only
    rw [Std.TreeMap.getElem?_insert, Std.TreeMap.getElem?_insert]
    split
    · rfl
    · exact h.slots other

/-- Clearing a slot clears what stands in it in both tables. -/
theorem Ahead.invalidate (start : Word) :
    (t.invalidate start).1 = (u.invalidate start).1.map (SlotEntry.aged shift) ∧
      (t.invalidate start).2.Ahead shift (u.invalidate start).2 := by
  refine ⟨?_, ?_, fun slot => ?_⟩
  · rw [fst_invalidate, fst_invalidate, h.lookup]
  · rw [layout_invalidate, layout_invalidate, h.layout]
  · rw [slots_invalidate, slots_invalidate, h.layout]
    split
    · rfl
    · exact h.slots slot

end SlotTable

/-! ## Caches

The statistics of the two differ, and so do the generations. What decides something is the same: what
is left of the arena, how often a granule was dropped, and whether an address is mapped.
-/

namespace CodeCache

/-- The caches differ in their age and in nothing else. -/
structure Ahead (lead : Lead) (c d : CodeCache) : Prop where
  cpu : c.cpu = d.cpu
  arena : c.arena = d.arena.withGeneration (d.arena.generation + lead.generation)
  table : c.table.Ahead lead.generation d.table
  coverage : c.coverage = d.coverage
  thrash : c.thrash = d.thrash
  blocksCompiled : c.blocksCompiled = d.blocksCompiled + lead.blocks
  resets : c.resets = d.resets + lead.resets

variable {lead : Lead} {c d : CodeCache}

namespace Ahead

variable (h : c.Ahead lead d)

include h

theorem generation : c.arena.generation = d.arena.generation + lead.generation := by
  rw [h.arena]
  rfl

theorem remaining : c.arena.remaining = d.arena.remaining := by
  rw [h.arena]
  rfl

theorem used : c.arena.used = d.arena.used := by
  rw [h.arena]
  rfl

theorem thrashCount (slot : Nat) : c.thrashCount slot = d.thrashCount slot := by
  rw [CodeCache.thrashCount, CodeCache.thrashCount, h.thrash]

/-- Caches that are ahead agree on which code is given up, as their counts are the same. -/
theorem isThrashing (config : Config) (addr : Word) :
    c.isThrashing config addr = d.isThrashing config addr := by
  unfold CodeCache.isThrashing
  rw [h.table.slot?]
  cases d.table.slot? addr with
  | none => rfl
  | some slot =>
    dsimp only
    rw [h.thrashCount]

theorem isMapped (addr : Word) : c.table.isMapped addr = d.table.isMapped addr := by
  rw [SlotTable.isMapped, SlotTable.isMapped, h.table.slot?]

/-- A reference is good in both or in neither. -/
theorem lookup (addr : Word) : c.lookup addr = (d.lookup addr).map (SlotEntry.aged lead.generation) := by
  rw [CodeCache.lookup, CodeCache.lookup, h.table.lookup]
  cases d.table.lookup addr with
  | none => rfl
  | some entry =>
    cases entry with
    | interpret => rfl
    | compiled header generation =>
      simp only [Option.map_some, SlotEntry.aged, h.generation]
      by_cases current : generation = d.arena.generation
      · rw [if_pos current, current, if_pos rfl]
        rfl
      · -- adding the same to two generations keeps them apart, also where it wraps around
        have later : generation + lead.generation ≠ d.arena.generation + lead.generation := by
          rwa [Ne, BitVec.add_left_inj]
        rw [if_neg current, if_neg later]
        rfl

theorem withTable {t u : SlotTable} (table : t.Ahead lead.generation u) :
    { c with table := t }.Ahead lead { d with table := u } :=
  { h with table }

/-- Emptying both keeps the lead: either generation goes up by one. -/
theorem flush : c.flush.Ahead lead d.flush where
  cpu := h.cpu
  arena := by
    have later : d.arena.generation + lead.generation + 1 =
        d.arena.generation + 1 + lead.generation := by
      rw [BitVec.add_assoc, BitVec.add_assoc, BitVec.add_comm lead.generation]
    rw [CodeCache.flush, h.arena, Arena.reset_withGeneration, later]
    rfl
  table := h.table.reset
  coverage := rfl
  thrash := h.thrash
  blocksCompiled := h.blocksCompiled
  resets := by
    rw [CodeCache.flush, CodeCache.flush, h.resets, Nat.add_right_comm]

/-- Both are emptied for want of room, or neither is. -/
theorem makeRoom (config : Config) :
    (c.makeRoom config).1.Ahead lead (d.makeRoom config).1 ∧
      (c.makeRoom config).2 = (d.makeRoom config).2 := by
  unfold CodeCache.makeRoom
  rw [h.remaining, h.cpu]
  split
  · exact ⟨h.flush, rfl⟩
  · exact ⟨h, rfl⟩

/-- The same coverage is recorded in both. -/
theorem recordCoverage (start width : Word) (count : Nat) :
    (c.recordCoverage start width count).Ahead lead (d.recordCoverage start width count) := by
  unfold CodeCache.recordCoverage
  rw [h.table.slot?]
  cases d.table.slot? start with
  | none => exact h
  | some slot =>
    refine { h with coverage := ?_ }
    dsimp only
    rw [h.coverage]

theorem withArena (a : Arena Record) :
    { c with arena := a.withGeneration (a.generation + lead.generation) }.Ahead lead
      { d with arena := a } :=
  { h with arena := rfl }

theorem counted :
    { c with blocksCompiled := c.blocksCompiled + 1 }.Ahead lead
      { d with blocksCompiled := d.blocksCompiled + 1 } :=
  { h with blocksCompiled := by rw [h.blocksCompiled, Nat.add_right_comm] }

/-- The same block is installed in both, under generations as far apart as they were. -/
theorem installBlock (addr : Word) (run : List Instruction) (header : Ref) :
    (c.installBlock addr run header).1 = (d.installBlock addr run header).1.aged lead.generation ∧
      (c.installBlock addr run header).2.1.Ahead lead (d.installBlock addr run header).2.1 ∧
        (c.installBlock addr run header).2.2 = (d.installBlock addr run header).2.2 := by
  have block : SlotEntry.compiled header c.arena.generation =
      (SlotEntry.compiled header d.arena.generation).aged lead.generation := by
    rw [h.generation]
    rfl
  obtain ⟨-, table, told⟩ := h.table.install addr (.compiled header d.arena.generation)
  rw [← block] at table told
  have installed (width : Word) := ((h.withTable table).recordCoverage addr width run.length).counted
  have note {x y : CodeCache} (same : x.Ahead lead y) :
      [Notice.compiled x.cpu addr run.length x.arena.used] =
        [.compiled y.cpu addr run.length y.arena.used] := by
    rw [same.cpu, same.used]
  exact ⟨block, installed _, congrArg₂ (· ++ ·) told (note (installed _))⟩

/-- Emitting a run has the same outcome in both, so both install its block or both are emptied. -/
theorem build (addr : Word) (run : List Instruction) :
    (c.build addr run).1 = (d.build addr run).1.aged lead.generation ∧
      (c.build addr run).2.1.Ahead lead (d.build addr run).2.1 ∧
        (c.build addr run).2.2 = (d.build addr run).2.2 := by
  -- the emission does not end in another generation than it began, so the lead is kept
  have generation := Block.generation_emit run d.arena
  have same := Block.emit_withGeneration run d.arena (d.arena.generation + lead.generation)
  rw [← h.arena, ← generation] at same
  unfold CodeCache.build
  rw [same]
  rcases Block.emit run d.arena with ⟨_ | header, a⟩
  · exact ⟨rfl, (h.withArena a).flush, by rw [h.cpu]⟩
  · exact (h.withArena a).installBlock addr run header

end Ahead

end CodeCache

/-- What compiling leaves on one cache and on the other. -/
structure Compilation.Ahead (lead : Lead) (x y : Compilation σ) : Prop where
  outcome : x.outcome = y.outcome.map (SlotEntry.aged lead.generation)
  cache : x.cache.Ahead lead y.cache
  cpu : x.cpu = y.cpu
  host : x.host = y.host
  notices : x.notices = y.notices

namespace CodeCache

variable {lead : Lead} {c d : CodeCache} (h : c.Ahead lead d)

include h

/-- Compiling takes the same way in both, tells the same, and leaves them as far apart as they were. -/
theorem Ahead.compile (bus : Bus σ) (config : Config) (s : CpuState) (host : σ) :
    (c.compile bus config s host).Ahead lead (d.compile bus config s host) := by
  obtain ⟨room, told⟩ := h.makeRoom config
  unfold CodeCache.compile
  dsimp only
  rw [h.isMapped, h.isThrashing]
  split
  · refine ⟨?_, h, rfl, rfl, ?_⟩
    · dsimp only
      rw [h.cpu]
      rfl
    · dsimp only
      rw [h.cpu]
  · split
    · obtain ⟨-, table, same⟩ := h.table.install s.next .interpret
      exact ⟨rfl, h.withTable table, rfl, rfl, congrArg₂ (· :: ·) (by rw [h.cpu]) same⟩
    · rw [room.cpu]
      split
      · exact ⟨rfl, room, rfl, rfl, told⟩
      · obtain ⟨block, cache, more⟩ := room.build s.next (prepare config
          (Decode.run bus (d.makeRoom config).1.cpu s.next s.thumb config.maxBlockInstructions host).1)
        exact ⟨congrArg Except.ok block, cache, rfl, rfl, congrArg₂ (· ++ ·) told more⟩

/-! ## Invalidation -/

theorem Ahead.countThrash (slot : Nat) : (c.countThrash slot).Ahead lead (d.countThrash slot) :=
  { h with thrash := by rw [CodeCache.countThrash, CodeCache.countThrash, h.thrashCount, h.thrash] }

/-- Dropping one block drops it from both and counts the same. -/
theorem Ahead.dropBlock (start : Word) :
    (c.dropBlock start).1.Ahead lead (d.dropBlock start).1 ∧
      (c.dropBlock start).2 = (d.dropBlock start).2 := by
  obtain ⟨held, table⟩ := h.table.invalidate start
  unfold CodeCache.dropBlock
  generalize c.table.invalidate start = x at held table ⊢
  generalize d.table.invalidate start = y at held table ⊢
  rcases x with ⟨held', t⟩
  rcases y with ⟨block, u⟩
  dsimp only at held table
  subst held
  cases block with
  | none => exact ⟨h.withTable table, rfl⟩
  | some block =>
    cases block with
    | interpret => exact ⟨h.withTable table, rfl⟩
    | compiled header generation =>
      simp only [Option.map_some, SlotEntry.aged, table.slot?]
      cases u.slot? start with
      | none => exact ⟨h.withTable table, by rw [h.cpu]⟩
      | some slot => exact ⟨(h.withTable table).countThrash slot, by rw [h.cpu]⟩

omit h in
/-- So does dropping several. -/
theorem Ahead.dropBlocks (starts : List Word) :
    ∀ {c d : CodeCache}, c.Ahead lead d → (c.dropBlocks starts).1.Ahead lead (d.dropBlocks starts).1 ∧
      (c.dropBlocks starts).2 = (d.dropBlocks starts).2 := by
  induction starts with
  | nil => intro c d h; exact ⟨h, rfl⟩
  | cons start rest ih =>
    intro c d h
    obtain ⟨first, told⟩ := h.dropBlock start
    obtain ⟨others, more⟩ := ih first
    exact ⟨others, congrArg₂ (· ++ ·) told more⟩

/-- An invalidated address drops the same blocks from both. -/
theorem Ahead.invalidate (addr : Word) :
    (c.invalidate addr).1.Ahead lead (d.invalidate addr).1 ∧
      (c.invalidate addr).2 = (d.invalidate addr).2 := by
  unfold CodeCache.invalidate
  rw [h.table.slot?]
  cases d.table.slot? addr with
  | none => exact ⟨h, rfl⟩
  | some slot =>
    dsimp only
    rw [h.coverage]
    exact Ahead.dropBlocks _ { h with coverage := rfl }

omit h in
/-- So does a range. -/
theorem Ahead.invalidateMany (count : Nat) :
    ∀ {c d : CodeCache} (told : List Notice) (addr : Word), c.Ahead lead d →
      (c.invalidateMany told addr count).1.Ahead lead (d.invalidateMany told addr count).1 ∧
        (c.invalidateMany told addr count).2 = (d.invalidateMany told addr count).2 := by
  induction count with
  | zero => intro c d told addr h; exact ⟨h, rfl⟩
  | succ count ih =>
    intro c d told addr h
    obtain ⟨first, more⟩ := h.invalidate addr
    unfold CodeCache.invalidateMany
    dsimp only
    rw [more]
    exact ih _ _ first

/-! ## Finding a block -/

theorem Ahead.blockHeader? (block : SlotEntry) :
    Engine.blockHeader? c (block.aged lead.generation) = Engine.blockHeader? d block := by
  cases block with
  | interpret => rfl
  | compiled header generation =>
    simp only [SlotEntry.aged, Engine.blockHeader?, h.arena]
    rfl

/-- What is found at an address is found in both, or is in neither. -/
theorem Ahead.findBlock (addr : Word) :
    Engine.findBlock c addr = (Engine.findBlock d addr).map (SlotEntry.aged lead.generation) := by
  unfold Engine.findBlock
  rw [h.lookup]
  cases d.lookup addr with
  | none => rfl
  | some block =>
    simp only [Option.map_some, h.blockHeader?]
    cases Engine.blockHeader? d block with
    | none => rfl
    | some header =>
      dsimp only
      split
      · rfl
      · rfl

theorem Ahead.obtainBlock (bus : Bus σ) (config : Config) (s : CpuState) (host : σ) :
    (Engine.obtainBlock c bus config s host).Ahead lead (Engine.obtainBlock d bus config s host) := by
  unfold Engine.obtainBlock
  rw [h.findBlock]
  cases Engine.findBlock d s.next with
  | none => exact h.compile bus config s host
  | some block => exact ⟨rfl, h, rfl, rfl, rfl⟩

end CodeCache

/-! ## Engines

The configuration is the same on both sides, and the arena for single instructions is emptied before
each of them, so that its generation is never looked at.
-/

/-- What is seen of two turns is the same. -/
structure Turn.Same (t u : Turn σ) : Prop where
  result : t.result = u.result
  cpu : t.cpu = u.cpu
  host : t.host = u.host
  notices : t.notices = u.notices
  broken : t.broken = u.broken

theorem Turn.Same.after {t u : Turn σ} (h : t.Same u) (told : List Notice) :
    { t with notices := told ++ t.notices }.Same { u with notices := told ++ u.notices } :=
  { h with notices := congrArg (told ++ ·) h.notices }

theorem Turn.Same.orBroken {t u : Turn σ} (h : t.Same u) (broken : Bool) :
    { t with broken := t.broken || broken }.Same { u with broken := u.broken || broken } :=
  { h with broken := congrArg (· || broken) h.broken }

namespace Engine

/-- For one processor the engines differ in the age of its cache. What was built in the scratch arena
before does not matter. -/
structure Ahead (cpu : Cpu) (lead : Lead) (e f : Engine) : Prop where
  config : e.config = f.config
  cache : ∃ c d, e.caches.get cpu = some c ∧ f.caches.get cpu = some d ∧ c.Ahead lead d
  scratch : e.scratch.map Arena.capacity = f.scratch.map Arena.capacity

theorem runBlock_withGeneration (bus : Bus σ) (a : Arena Record) (generation : Word)
    (h : Block.Header) (s : CpuState) (host : σ) :
    runBlock bus (a.withGeneration generation) h s host = runBlock bus a h s host := by
  rw [runBlock, runBlock, Block.run_withGeneration]

/-- A single instruction is built in an arena that was just reset, so only its size matters. -/
theorem same_executeUncached {e f : Engine}
    (capacity : e.scratch.map Arena.capacity = f.scratch.map Arena.capacity) (bus : Bus σ)
    (s : CpuState) (host : σ) :
    (e.executeUncached bus s host).Same (f.executeUncached bus s host) := by
  unfold executeUncached
  generalize e.scratch = x at capacity ⊢
  generalize f.scratch = y at capacity ⊢
  cases x with
  | none =>
    cases y with
    | none => exact ⟨rfl, rfl, rfl, rfl, rfl⟩
    | some b => cases capacity
  | some a =>
    cases y with
    | none => cases capacity
    | some b =>
      have size : a.capacity = b.capacity := Option.some.inj capacity
      have reset : a.reset = b.reset.withGeneration (a.generation + 1) := by
        simp only [Arena.reset, Arena.withGeneration, size]
      dsimp only
      split
      · exact ⟨rfl, rfl, rfl, rfl, rfl⟩
      · rw [reset, Block.emit_withGeneration]
        rcases Block.emit (Decode.run bus s.cpu s.next s.thumb 1 host).1 b.reset with ⟨ref?, built⟩
        have header : ref?.bind (Block.header? (built.withGeneration (a.generation + 1))) =
            ref?.bind (Block.header? built) := rfl
        dsimp only
        rw [header]
        cases ref?.bind (Block.header? built) with
        | none => exact ⟨rfl, rfl, rfl, rfl, rfl⟩
        | some h =>
          dsimp only
          rw [runBlock_withGeneration]
          exact ⟨rfl, rfl, rfl, rfl, rfl⟩

/-- What is in the caches does not matter to a single instruction. -/
theorem same_executeUncached_withCaches (e : Engine) (caches : PerCpu (Option CodeCache))
    (bus : Bus σ) (s : CpuState) (host : σ) :
    ({ e with caches }.executeUncached bus s host).Same (e.executeUncached bus s host) := by
  apply same_executeUncached
  rfl

namespace Ahead

variable {cpu : Cpu} {lead : Lead} {e f : Engine} (h : e.Ahead cpu lead f)

include h

/-- The uncached way shows nothing of the cache. -/
theorem executeUncached (bus : Bus σ) (s : CpuState) (host : σ) :
    (e.executeUncached bus s host).Same (f.executeUncached bus s host) ∧
      (e.executeUncached bus s host).engine.Ahead cpu lead (f.executeUncached bus s host).engine := by
  obtain ⟨config, caches⟩ := e.executeUncached_engine bus s host
  obtain ⟨config', caches'⟩ := f.executeUncached_engine bus s host
  refine ⟨same_executeUncached h.scratch bus s host, ?_, ?_, ?_⟩
  · rw [config, config', h.config]
  · rw [caches, caches']
    exact h.cache
  · rw [capacity_scratch_executeUncached, capacity_scratch_executeUncached, h.scratch]

theorem withCache {c d : CodeCache} (ahead : c.Ahead lead d) :
    { e with caches := e.caches.set cpu (some c) }.Ahead cpu lead
      { f with caches := f.caches.set cpu (some d) } :=
  ⟨h.config, ⟨c, d, PerCpu.get_set_self _ _ _, PerCpu.get_set_self _ _ _, ahead⟩, h.scratch⟩

/-- An execution shows the same in both engines, and afterwards one is ahead of the other as before. -/
theorem execute (bus : Bus σ) {s : CpuState} (ours : s.cpu = cpu) (host : σ) :
    (e.execute bus s host).Same (f.execute bus s host) ∧
      (e.execute bus s host).engine.Ahead cpu lead (f.execute bus s host).engine := by
  obtain ⟨c, d, cached, cached', ahead⟩ := h.cache
  subst ours
  have found := ahead.obtainBlock bus f.config s host
  -- what the engines are when the block is found or compiled
  have after := h.withCache found.cache
  unfold Engine.execute
  rw [cached, cached', h.config]
  dsimp only
  rw [h.config] at after
  generalize Engine.obtainBlock c bus f.config s host = x at found after ⊢
  generalize Engine.obtainBlock d bus f.config s host = y at found after ⊢
  rcases x with ⟨_, cache, s', host', told⟩
  rcases y with ⟨outcome, cache', _, _, _⟩
  obtain ⟨same, ahead, cpu, host, notices⟩ := found
  dsimp only at same ahead cpu host notices after ⊢
  subst same cpu host notices
  simp only [Except.map]
  cases outcome with
  | error error => exact ⟨⟨rfl, rfl, rfl, rfl, rfl⟩, after⟩
  | ok block =>
    simp only [ahead.blockHeader?, SlotEntry.isCompiled_aged]
    -- run without the cache, an instruction does the same in both
    have single := after.executeUncached bus s' host'
    cases Engine.blockHeader? cache' block with
    | none => exact ⟨(single.1.after _).orBroken _, single.2⟩
    | some header =>
      dsimp only
      split
      · have run : Engine.runBlock bus cache.arena header s' host' =
            Engine.runBlock bus cache'.arena header s' host' := by
          rw [ahead.arena, runBlock_withGeneration]
        dsimp only [Engine.finishTurn]
        rw [run]
        exact ⟨⟨rfl, rfl, rfl, rfl, rfl⟩, after⟩
      · exact ⟨single.1.after _, single.2⟩

/-- Whatever is done to both caches and keeps the lead keeps it for the engines. -/
theorem changeCache (f' : CodeCache → CodeCache × List Notice)
    (keeps : ∀ {c d : CodeCache}, c.Ahead lead d → (f' c).1.Ahead lead (f' d).1 ∧ (f' c).2 = (f' d).2) :
    (e.changeCache cpu f').2 = (f.changeCache cpu f').2 ∧
      (e.changeCache cpu f').1.Ahead cpu lead (f.changeCache cpu f').1 := by
  obtain ⟨c, d, cached, cached', ahead⟩ := h.cache
  obtain ⟨after, told⟩ := keeps ahead
  unfold Engine.changeCache
  rw [cached, cached']
  exact ⟨told, h.withCache after⟩

end Ahead

end Engine

/-! ## Calls -/

/-- The call is of one processor and does not start a new life. -/
def Call.On (cpu : Cpu) : Call σ → Prop
  | .execute s | .executeUncached s => s.cpu = cpu
  | .invalidate _ other | .invalidateRange _ _ other => other = cpu
  | .change _ => True
  | .reset _ _ | .setReserve _ => False

/-- Two sessions with the same host and engines that differ in the age of a cache. -/
structure Session.Ahead (cpu : Cpu) (lead : Lead) (w v : Session σ) : Prop where
  engine : w.engine.Ahead cpu lead v.engine
  host : w.host = v.host

/-- **A call of the processor answers the same** and keeps how far one is ahead of the other. -/
theorem Session.Ahead.call {cpu : Cpu} {lead : Lead} {w v : Session σ} (h : w.Ahead cpu lead v)
    (bus : Bus σ) {next : Call σ} (ours : next.On cpu) :
    (w.call bus next).1 = (v.call bus next).1 ∧
      (w.call bus next).2.Ahead cpu lead (v.call bus next).2 := by
  rcases w with ⟨e, host⟩
  rcases v with ⟨f, _⟩
  obtain ⟨engine, rfl⟩ := h
  dsimp only at engine
  cases next with
  | execute s =>
    obtain ⟨same, after⟩ := engine.execute bus ours host
    refine ⟨?_, after, same.host⟩
    simp only [Session.call, same.result, same.cpu, same.notices, same.broken]
  | executeUncached s =>
    obtain ⟨same, after⟩ := engine.executeUncached bus s host
    refine ⟨?_, after, same.host⟩
    simp only [Session.call, same.result, same.cpu, same.notices, same.broken]
  | invalidate addr other =>
    obtain rfl : other = cpu := ours
    obtain ⟨told, after⟩ := engine.changeCache (·.invalidate addr) fun ahead => ahead.invalidate addr
    exact ⟨congrArg Reply.done told, after, rfl⟩
  | invalidateRange first last other =>
    obtain rfl : other = cpu := ours
    obtain ⟨told, after⟩ := engine.changeCache
      (·.invalidateMany [] first (Engine.halfSteps first last)) fun ahead =>
        CodeCache.Ahead.invalidateMany _ [] first ahead
    exact ⟨congrArg Reply.done told, after, rfl⟩
  | change host => exact ⟨rfl, engine, rfl⟩
  | reset other grants => exact ours.elim
  | setReserve mebibytes => exact ours.elim

end ArmBlocks
