import Std.Data.TreeMap
import ArmBlocks.SlotTable
import ArmBlocks.Block.Record
import ArmBlocks.Config

/-!
# The code cache of one processor

A cache keeps the blocks that were compiled for a processor: the arena they live in and the table
they are found through. Beside those it keeps two things that decide when a block must go.

* **Coverage** remembers which slots each block was built from. It is filed by chunks of 256 bytes
  of code, a block under every chunk it touches, so that a write to guest memory finds the blocks
  it hits by looking at one chunk. A block leaves the record together with every other block that
  starts in the same slot.
* **Thrash counts** remember how often blocks starting in one granule of 16 bytes had to go. Code
  that keeps changing costs more to compile than to interpret, and past the configured threshold
  it is not compiled any more. The counts saturate, and only a reset of the processor clears them.

A flush drops all blocks by resetting the arena. It does not touch what was handed out before:
references carry the generation of the arena, and one from an earlier generation is a miss.
-/

set_option autoImplicit false

namespace ArmBlocks

/-- The guest code a block was built from, as an interval of slots. -/
structure Coverage where
  firstSlot : Nat
  /-- The slot after the last one. -/
  endSlot : Nat
  /-- The address of the first instruction, as the block was compiled. -/
  start : Word
  deriving DecidableEq, Repr

namespace Coverage

/-- Slots in a chunk: 256 bytes of code. -/
def chunkSlots : Nat := 128

/-- Whether a slot is in the interval. -/
def contains (e : Coverage) (slot : Nat) : Bool := e.firstSlot ≤ slot && slot < e.endSlot

/-- The chunks the interval touches. -/
def chunks (e : Coverage) : List Nat :=
  let first := e.firstSlot / chunkSlots
  List.range' first ((e.endSlot - 1) / chunkSlots + 1 - first)

end Coverage

/-- Coverage by chunk. -/
abbrev CoverageMap := Std.TreeMap Nat (List Coverage)

namespace CoverageMap

/-- The intervals filed under a chunk, in the order they were recorded. -/
def entries (m : CoverageMap) (chunk : Nat) : List Coverage := (m[chunk]?).getD []

/-- Files an interval under every chunk it touches. -/
def record (m : CoverageMap) (e : Coverage) : CoverageMap :=
  e.chunks.foldl (fun m chunk => m.insert chunk (m.entries chunk ++ [e])) m

/-- Removes from one chunk every interval that starts in the given slot. -/
def dropFrom (m : CoverageMap) (firstSlot chunk : Nat) : CoverageMap :=
  let kept := (m.entries chunk).filter fun e => e.firstSlot != firstSlot
  if kept.isEmpty then m.erase chunk else m.insert chunk kept

/-- Removes an interval, and all that start in the same slot, from every chunk it touches. -/
def drop (m : CoverageMap) (e : Coverage) : CoverageMap :=
  e.chunks.foldl (fun m chunk => m.dropFrom e.firstSlot chunk) m

/-- The intervals that contain a slot. -/
def hits (m : CoverageMap) (slot : Nat) : List Coverage :=
  (m.entries (slot / Coverage.chunkSlots)).filter (·.contains slot)

end CoverageMap

/-- What a debugger may want to know about a cache. -/
structure CacheStats where
  bytesUsed : Nat
  capacity : Nat
  blocksCompiled : Nat
  /-- Flushes, for want of space or because the processor was reset. -/
  resets : Nat
  deriving DecidableEq, Repr

/-- The blocks of one processor. -/
structure CodeCache where
  cpu : Cpu
  regions : List CodeRegion
  arena : Arena Record
  table : SlotTable
  coverage : CoverageMap
  /-- How often blocks were invalidated, by granule. -/
  thrash : Std.TreeMap Nat (BitVec 8)
  blocksCompiled : Nat
  resets : Nat

namespace CodeCache

/-- Slots in a granule: 16 bytes of code. -/
def granuleSlots : Nat := 8

/-- An empty cache of the configured size. The memory is reserved before the regions are looked
at. -/
def new (cpu : Cpu) (config : Config) (regions : List CodeRegion)
    (grants : Nat → Bool := Arena.usual) : Except EngineError CodeCache := do
  let arena ← Arena.reserve config.cacheReserve grants
  let table ← SlotTable.ofRegions regions
  return {
    cpu, regions, arena, table, coverage := ∅, thrash := ∅, blocksCompiled := 0, resets := 0 }

/-- An empty cache of the configured size in place of this one; it counts as a reset. -/
def resized (c : CodeCache) (config : Config) (grants : Nat → Bool := Arena.usual) :
    Except EngineError CodeCache := do
  let fresh ← new c.cpu config c.regions grants
  return { fresh with blocksCompiled := c.blocksCompiled, resets := c.resets + 1 }

/-- What is known about an address; blocks from before the last flush are not. -/
def lookup (c : CodeCache) (addr : Word) : Option SlotEntry :=
  match c.table.lookup addr with
  | some (.compiled header generation) =>
    if generation = c.arena.generation then some (.compiled header generation) else none
  | other => other

/-- Drops all blocks. Thrash counts stay. -/
def flush (c : CodeCache) : CodeCache :=
  { c with
    arena := c.arena.reset
    table := c.table.reset
    coverage := ∅
    resets := c.resets + 1 }

/-- Forgets everything. -/
def reset (c : CodeCache) : CodeCache := { c.flush with thrash := ∅ }

/-- The statistics of the cache. -/
def stats (c : CodeCache) : CacheStats :=
  { bytesUsed := c.arena.used
    capacity := c.arena.capacity
    blocksCompiled := c.blocksCompiled
    resets := c.resets }

/-! ## Invalidation -/

/-- How often blocks in the granule of a slot were invalidated. -/
def thrashCount (c : CodeCache) (slot : Nat) : BitVec 8 := (c.thrash[slot / granuleSlots]?).getD 0

/-- Whether the code at an address changes too often to be compiled. -/
def isThrashing (c : CodeCache) (config : Config) (addr : Word) : Bool :=
  match c.table.slot? addr with
  | some slot => config.recompileThreshold < c.thrashCount slot
  | none => false

/-- One more, as long as there is one more. -/
def saturatingSucc (n : BitVec 8) : BitVec 8 := if n = 255 then n else n + 1

/-- Counts an invalidation in the granule of a slot. -/
def countThrash (c : CodeCache) (slot : Nat) : CodeCache :=
  { c with thrash := c.thrash.insert (slot / granuleSlots) (saturatingSucc (c.thrashCount slot)) }

/-- Clears the slot of an address, counting it if a block was there. -/
def dropBlock (c : CodeCache) (start : Word) : CodeCache × List Notice :=
  match c.table.invalidate start with
  | (some (.compiled ..), table) =>
    let c := { c with table }
    match c.table.slot? start with
    | some slot => (c.countThrash slot, [.invalidated c.cpu start])
    | none => (c, [.invalidated c.cpu start])
  | (_, table) => ({ c with table }, [])

/-- Clears the slots of some addresses, one after the other. -/
def dropBlocks (c : CodeCache) : List Word → CodeCache × List Notice
  | [] => (c, [])
  | start :: rest =>
    let (c, told) := c.dropBlock start
    let (c, more) := c.dropBlocks rest
    (c, told ++ more)

/-- Drops every block built from the guest memory at an address, and the block that starts there
whatever it was built from. -/
def invalidate (c : CodeCache) (addr : Word) : CodeCache × List Notice :=
  match c.table.slot? addr with
  | none => (c, [])
  | some slot =>
    let hits := c.coverage.hits slot
    let c := { c with coverage := hits.foldl CoverageMap.drop c.coverage }
    c.dropBlocks (hits.map Coverage.start ++ [addr])

/-- Invalidates `count` addresses, two bytes apart, from an address up. What is told comes after
`told`, so that a range of any length is walked in constant space. -/
def invalidateMany (c : CodeCache) (told : List Notice) (addr : Word) :
    Nat → CodeCache × List Notice
  | 0 => (c, told)
  | count + 1 =>
    let (c, more) := c.invalidate addr
    c.invalidateMany (told ++ more) (addr + 2) count

end CodeCache

end ArmBlocks
