import ArmBlocks.Proofs.CurrentCode

/-!
# The ways through compiling

Compiling looks at four things that can stand in its way, and so has five ends. `CompileStep` lists
them, each with what led there and with the cache it leaves, and `CodeCache.compileStep` says that
there are no others. Whatever is kept by every one of the five is kept by compiling; nobody else has
to unfold it.
-/

set_option autoImplicit false

namespace ArmBlocks

open CodeCache (prepare coverageOf)

variable {σ : Type}

namespace Decode

variable {bus : Bus σ} {cpu : Cpu} {thumb : Bool}

/-- A run starts where it should, in the instruction set it should. -/
theorem place_of_head (limit : Nat) {start : Word} {host : σ} {i : Instruction}
    (h : (instructions bus cpu thumb limit start host).1.head? = some i) :
    i.addr = start ∧ i.thumb = thumb := by
  cases limit with
  | zero => exact absurd h (by simp [instructions])
  | succ limit =>
    rw [instructions] at h
    rcases found : fetch bus cpu thumb start host with ⟨_ | j, host'⟩
    · rw [found] at h
      exact absurd h (by simp)
    · rw [found] at h
      dsimp only at h
      obtain rfl : j = i := by
        split at h
        · exact Option.some.inj h
        · exact Option.some.inj h
      exact place_of_fetch (congrArg Prod.fst found)

end Decode

namespace CodeCache

/-- The run that is decoded for a processor in the cache. -/
def decoded (c : CodeCache) (bus : Bus σ) (config : Config) (s : CpuState) (host : σ) :
    List Instruction :=
  (Decode.run bus c.cpu s.next s.thumb config.maxBlockInstructions host).1

theorem length_decoded_le (c : CodeCache) (bus : Bus σ) (config : Config) (s : CpuState) (host : σ) :
    (c.decoded bus config s host).length ≤ Config.maxBlock :=
  Nat.le_trans (Decode.length_instructions_le _ s.next host) (Nat.min_le_right _ _)

/-- The cache with a slot marked as not worth compiling. -/
def marked (c : CodeCache) (slot : Nat) : CodeCache :=
  { c with table := { c.table with slots := c.table.slots.insert slot .interpret } }

/-- The cache with a block put into a slot, after it was emitted from a run. -/
def withBlock (c : CodeCache) (slot : Nat) (start : Word) (thumb : Bool) (run : List Instruction)
    (ref : Ref) (arena : Arena Record) : CodeCache :=
  { c with
    arena
    table := { c.table with slots := c.table.slots.insert slot (.compiled ref arena.generation) }
    coverage := c.coverage.record (coverageOf slot start thumb run)
    blocksCompiled := c.blocksCompiled + 1 }

theorem slots_withBlock (c : CodeCache) (slot : Nat) (start : Word) (thumb : Bool)
    (run : List Instruction) (ref : Ref) (arena : Arena Record) (other : Nat) :
    (c.withBlock slot start thumb run ref arena).table.slots[other]? =
      if slot = other then some (.compiled ref arena.generation) else c.table.slots[other]? := by
  simp [withBlock, Std.TreeMap.getElem?_insert]

/-- What compiling leaves of the processor and the host at the next instruction of `s`, when `run`
is decoded there and `seen` is the host after that. -/
inductive CompileStep (c : CodeCache) (config : Config) (s : CpuState) (host seen : σ)
    (run : List Instruction) : Except EngineError SlotEntry → CodeCache → CpuState → σ → Prop where
  /-- The address is not executable. -/
  | unmapped (place : c.table.layout.slot? s.next = none) :
    CompileStep c config s host seen run (.error (.unmappedCode c.cpu s.next)) c
      { s with halted := true } host
  /-- The code changes too often. -/
  | thrashing (slot : Nat) (place : c.table.layout.slot? s.next = some slot)
      (often : c.isThrashing config s.next = true) :
    CompileStep c config s host seen run (.ok .interpret) (c.marked slot) s host
  /-- There is no code. -/
  | unfetched (slot : Nat) (place : c.table.layout.slot? s.next = some slot)
      (calm : c.isThrashing config s.next = false) (empty : run = []) :
    CompileStep c config s host seen run (.ok .interpret) (c.makeRoom config).1 s seen
  /-- The block does not fit. -/
  | full (slot : Nat) (place : c.table.layout.slot? s.next = some slot)
      (calm : c.isThrashing config s.next = false) (nonempty : run ≠ []) (arena : Arena Record)
      (emitted : Block.emit (prepare config run) (c.makeRoom config).1.arena = (none, arena)) :
    CompileStep c config s host seen run (.ok .interpret)
      { (c.makeRoom config).1 with arena }.flush s seen
  /-- The block is there. -/
  | built (slot : Nat) (place : c.table.layout.slot? s.next = some slot)
      (calm : c.isThrashing config s.next = false) (nonempty : run ≠ []) (ref : Ref)
      (arena : Arena Record)
      (emitted : Block.emit (prepare config run) (c.makeRoom config).1.arena = (some ref, arena)) :
    CompileStep c config s host seen run (.ok (.compiled ref arena.generation))
      ((c.makeRoom config).1.withBlock slot s.next s.thumb run ref arena) s seen

/-- What installing a block does to a cache, if there is a slot for the place and the run is not empty. -/
theorem installBlock_eq {c : CodeCache} {slot : Nat} {start : Word} {run : List Instruction}
    {first : Instruction} (place : c.table.layout.slot? start = some slot)
    (hfirst : run.head? = some first) (header : Ref) :
    ∃ told, c.installBlock start run header =
      (.compiled header c.arena.generation,
        { c with
          table := { c.table with
            slots := c.table.slots.insert slot (.compiled header c.arena.generation) }
          coverage := c.coverage.record
            { firstSlot := slot, endSlot := slot + run.length * first.width.toNat / 2, start }
          blocksCompiled := c.blocksCompiled + 1 },
        told) := by
  cases run with
  | nil => cases hfirst
  | cons i rest =>
    cases hfirst
    simp only [installBlock, SlotTable.install, SlotTable.slot?, place, recordCoverage]
    exact ⟨_, rfl⟩

/-- A block that was emitted from a run of one instruction set is put into its slot. -/
theorem build_eq_withBlock {c : CodeCache} {config : Config} {slot : Nat} {start : Word}
    {thumb : Bool} {run : List Instruction} {i : Instruction} {ref : Ref} {arena : Arena Record}
    (place : c.table.layout.slot? start = some slot) (hi : run.head? = some i)
    (set : i.thumb = thumb)
    (emitted : Block.emit (prepare config run) c.arena = (some ref, arena)) :
    ∃ told, c.build start (prepare config run) =
      (.compiled ref arena.generation, c.withBlock slot start thumb run ref arena, told) := by
  have nonempty : run ≠ [] := by
    rintro rfl
    cases hi
  -- the width that is filed is that of the first instruction as it is compiled
  obtain ⟨j, first, hj, hfirst, -, hthumb⟩ := head?_prepare config nonempty
  obtain rfl : i = j := Option.some.inj (hi.symm.trans hj)
  have width : first.width.toNat = Decode.bytes thumb := by
    rw [Instruction.width, hthumb, set]
    cases thumb <;> rfl
  have placed : ({ c with arena } : CodeCache).table.layout.slot? start = some slot := place
  obtain ⟨told, installed⟩ := installBlock_eq placed hfirst ref
  rw [width, length_prepare] at installed
  refine ⟨told, ?_⟩
  rw [build, emitted]
  exact installed

/-- Every compilation is one of the steps. -/
theorem compileStep (c : CodeCache) (bus : Bus σ) (config : Config) (s : CpuState) (host : σ) :
    CompileStep c config s host
      (Decode.run bus c.cpu s.next s.thumb config.maxBlockInstructions host).2
      (c.decoded bus config s host) (c.compile bus config s host).outcome
      (c.compile bus config s host).cache (c.compile bus config s host).cpu
      (c.compile bus config s host).host := by
  -- room is made before the run is decoded, so the layout is asked of the roomier cache later on
  obtain ⟨cpu, -, layout, -⟩ := c.sameShell_makeRoom config
  unfold decoded
  cases place : c.table.layout.slot? s.next with
  | none =>
    have unmapped : (!c.table.isMapped s.next) = true := by
      simp [SlotTable.isMapped, SlotTable.slot?, place]
    rw [compile, if_pos unmapped]
    exact .unmapped place
  | some slot =>
    have mapped : ¬(!c.table.isMapped s.next) = true := by
      simp [SlotTable.isMapped, SlotTable.slot?, place]
    rw [compile, if_neg mapped]
    cases often : c.isThrashing config s.next with
    | true =>
      rw [if_pos rfl]
      simp only [SlotTable.install, SlotTable.slot?, place]
      exact .thrashing slot place often
    | false =>
      rw [if_neg Bool.false_ne_true]
      dsimp only
      rw [cpu]
      rcases found : Decode.run bus c.cpu s.next s.thumb config.maxBlockInstructions host
        with ⟨run, seen⟩
      dsimp only
      by_cases empty : run.isEmpty = true
      · rw [if_pos empty]
        exact .unfetched slot place often (List.isEmpty_iff.mp empty)
      · rw [if_neg empty]
        have nonempty : run ≠ [] := by simpa using empty
        obtain ⟨i, hi⟩ : ∃ i, run.head? = some i := ⟨run.head nonempty, List.head?_eq_some_head _⟩
        have first : (Decode.run bus c.cpu s.next s.thumb config.maxBlockInstructions host).1.head? =
            some i := by
          rw [found]
          exact hi
        have set : i.thumb = s.thumb := (Decode.place_of_head _ first).2
        rcases emitted : Block.emit (prepare config run) (c.makeRoom config).1.arena
          with ⟨_ | ref, arena⟩
        · simp only [build, emitted]
          exact .full slot place often nonempty arena emitted
        · obtain ⟨told, built⟩ := build_eq_withBlock (by rw [layout]; exact place) hi set emitted
          rw [built]
          exact .built slot place often nonempty ref arena emitted

/-- Compiling changes nothing of the processor but that it may halt. -/
theorem cpu_compile (c : CodeCache) (bus : Bus σ) (config : Config) (s : CpuState) (host : σ) :
    (c.compile bus config s host).cpu = s ∨
      (c.compile bus config s host).cpu = { s with halted := true } := by
  have step := c.compileStep bus config s host
  generalize c.compile bus config s host = made at step ⊢
  rcases made with ⟨outcome, cache, s', host', told⟩
  dsimp only at step ⊢
  cases step with
  | unmapped place => exact .inr rfl
  | thrashing slot place often => exact .inl rfl
  | unfetched slot place calm empty => exact .inl rfl
  | full slot place calm nonempty arena emitted => exact .inl rfl
  | built slot place calm nonempty ref arena emitted => exact .inl rfl

/-- Nor does it change what the cache is made of. -/
theorem sameShell_compile (c : CodeCache) (bus : Bus σ) (config : Config) (s : CpuState) (host : σ) :
    c.SameShell (c.compile bus config s host).cache := by
  have step := c.compileStep bus config s host
  have room := c.sameShell_makeRoom config
  generalize c.compile bus config s host = made at step ⊢
  rcases made with ⟨outcome, cache, s', host', told⟩
  dsimp only at step ⊢
  cases step with
  | unmapped place => exact .refl c
  | thrashing slot place often => exact ⟨rfl, rfl, rfl, rfl⟩
  | unfetched slot place calm empty => exact room
  | full slot place calm nonempty arena emitted =>
    exact { room with capacity := (Block.capacity_of_emit emitted).trans room.capacity }
  | built slot place calm nonempty ref arena emitted =>
    exact { room with capacity := (Block.capacity_of_emit emitted).trans room.capacity }

end CodeCache

end ArmBlocks
