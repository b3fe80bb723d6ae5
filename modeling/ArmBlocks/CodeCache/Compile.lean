import ArmBlocks.CodeCache.Basic
import ArmBlocks.Decode.Run
import ArmBlocks.Liveness
import ArmBlocks.Block.Emit

/-!
# Compiling into a cache

On a miss the code at the processor's next instruction is compiled and installed. Four things can
stand in the way, and they are looked at in this order.

1. The address is not executable: the processor is halted, and this is the only failure.
2. The code changes too often: the address is marked so that it is interpreted from now on.
3. Little of the arena is left: all blocks are dropped first, and compiling goes on.
4. The code cannot be fetched, or the block does not fit after all. Then this one time the
   instruction is interpreted; in the second case all blocks are dropped, since the half-built one
   has used up the arena.
-/

set_option autoImplicit false

namespace ArmBlocks

/-- What compiling leaves. -/
structure Compilation (σ : Type) where
  outcome : Except EngineError SlotEntry
  cache : CodeCache
  cpu : CpuState
  host : σ
  notices : List Notice

namespace CodeCache

variable {σ : Type}

/-- Drops all blocks if less is left of the arena than the configuration asks for. -/
def makeRoom (c : CodeCache) (config : Config) : CodeCache × List Notice :=
  if c.arena.remaining < config.resetThreshold then
    (c.flush, [.cacheLow c.cpu c.arena.remaining])
  else (c, [])

/-- Records that a block at an address was built from `count` instructions of `width` bytes. -/
def recordCoverage (c : CodeCache) (start width : Word) (count : Nat) : CodeCache :=
  match c.table.slot? start with
  | some firstSlot =>
    let endSlot := firstSlot + count * width.toNat / 2
    { c with coverage := c.coverage.record { firstSlot, endSlot, start } }
  | none => c

/-- Puts a block with the given header at the address of its run. -/
def installBlock (c : CodeCache) (addr : Word) (run : List Instruction) (header : Ref) :
    SlotEntry × CodeCache × List Notice :=
  let block := SlotEntry.compiled header c.arena.generation
  let (_, table, told) := c.table.install addr block
  let c := { c with table }
  let width : Word := match run with
    | i :: _ => i.width
    | [] => 0
  let c := c.recordCoverage addr width run.length
  let c := { c with blocksCompiled := c.blocksCompiled + 1 }
  (block, c, told ++ [.compiled c.cpu addr run.length c.arena.used])

/-- Makes a block of a run and installs it; drops all blocks if it does not fit. -/
def build (c : CodeCache) (addr : Word) (run : List Instruction) :
    SlotEntry × CodeCache × List Notice :=
  match Block.emit run c.arena with
  | (some header, arena) => { c with arena }.installBlock addr run header
  | (none, arena) => (.interpret, { c with arena }.flush, [.cacheExhausted c.cpu addr])

/-- The run as it is compiled. -/
def prepare (config : Config) (run : List Instruction) : List Instruction :=
  if config.optimizeFlags then Liveness.optimize run else run

/-- Compiles the block at the processor's next instruction. The answer `interpret` means that the
instruction has to be run by itself. -/
def compile (c : CodeCache) (bus : Bus σ) (config : Config) (cpu : CpuState) (host : σ) :
    Compilation σ :=
  let addr := cpu.next
  if !c.table.isMapped addr then
    { outcome := .error (.unmappedCode c.cpu addr), cache := c, cpu := { cpu with halted := true }
      host, notices := [.unmapped c.cpu addr] }
  else if c.isThrashing config addr then
    let (_, table, told) := c.table.install addr .interpret
    { outcome := .ok .interpret, cache := { c with table }, cpu, host
      notices := .thrashing c.cpu addr :: told }
  else
    let (c, told) := c.makeRoom config
    let (run, host) := Decode.run bus c.cpu addr cpu.thumb config.maxBlockInstructions host
    if run.isEmpty then
      { outcome := .ok .interpret, cache := c, cpu, host, notices := told }
    else
      let (block, c, more) := c.build addr (prepare config run)
      { outcome := .ok block, cache := c, cpu, host, notices := told ++ more }

end CodeCache

end ArmBlocks
