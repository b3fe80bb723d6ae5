import ArmBlocks.CodeCache.Compile
import ArmBlocks.Block.Run

/-!
# The engine

An engine holds a code cache for each processor, and one small arena in which single instructions
are built when a block is not wanted. It is created without memory; `init` reserves it and
`shutdown` gives it back.

Memory is asked for on two occasions only, and the host may refuse it on each: `init` makes a cache for
each processor and then the small arena, and `reset` makes a cache of another size. What the host grants
in one call is its `Grants`.

`execute` runs the block at the processor's next instruction, compiling it on a miss.
`executeUncached` runs that one instruction and touches no cache. Both answer the cycles taken, and
they fail only where there is no code to run.

Two kinds of block are found and still not run. A block may have been compiled for another mirror
of the address; it is a miss, since the addresses settled in it are wrong. And a block may be of
the other instruction set; then the one instruction is run uncached and the block stays, since the
guest will hardly run it both ways for long.
-/

set_option autoImplicit false

namespace ArmBlocks

/-- The engine for both processors. -/
structure Engine where
  config : Config
  caches : PerCpu (Option CodeCache)
  /-- Where single instructions are built. -/
  scratch : Option (Arena Record)

/-- What the host grants in one call of the engine: how many bytes for the cache of a processor, and how
many for building single instructions. No call asks for one of these twice, so nothing that a host may
answer is left out. -/
structure Grants where
  cache : Cpu → Nat → Bool
  scratch : Nat → Bool

/-- What is granted as a rule. -/
def Grants.usual : Grants := { cache := fun _ => Arena.usual, scratch := Arena.usual }

/-- What one call of the engine leaves. -/
structure Turn (σ : Type) where
  /-- The cycles taken. -/
  result : Except EngineError Word
  engine : Engine
  cpu : CpuState
  host : σ
  notices : List Notice
  /-- Whether the block that was run was not what it should be. Then nothing else here is known. -/
  broken : Bool := false

namespace Engine

variable {σ : Type}

/-- Bytes for building a single instruction. -/
def scratchBytes : Nat := 0x1000

/-! ## Life -/

/-- An engine without memory, and a notice if its configuration had to be brought into range. -/
def new (config : Config) : Engine × List Notice :=
  let (config, told) := config.sanitized
  ({ config, caches := ⟨none, none⟩, scratch := none }, told)

/-- Gives a processor an empty cache. -/
def addCache (e : Engine) (cpu : Cpu) (regions : List CodeRegion) (grants : Nat → Bool) :
    Except EngineError Engine := do
  let cache ← CodeCache.new cpu e.config regions grants
  return { e with caches := e.caches.set cpu (some cache) }

/-- Adds a cache for each of some processors, stopping at the first that fails. -/
def addCaches (e : Engine) (regions : Cpu → List CodeRegion) (grants : Grants) :
    List Cpu → Except EngineError Unit × Engine
  | [] => (.ok (), e)
  | cpu :: rest =>
    match e.addCache cpu (regions cpu) (grants.cache cpu) with
    | .error error => (.error error, e)
    | .ok e => e.addCaches regions grants rest

/-- Reserves the caches of both processors for the code regions the host reports. -/
def init (e : Engine) (bus : Bus σ) (host : σ) (grants : Grants := .usual) :
    Except EngineError Unit × Engine × List Notice :=
  match e.addCaches (bus.codeRegions host) grants Cpu.all with
  | (.error error, e) => (.error error, e, [])
  | (.ok (), e) =>
    match Arena.reserve scratchBytes grants.scratch with
    | .error error => (.error error, e, [])
    | .ok scratch =>
      (.ok (), { e with scratch := some scratch }, [.initialized e.config.reserveMebibytes])

/-- Gives all memory back. -/
def shutdown (e : Engine) : Engine × List Notice :=
  ({ e with caches := ⟨none, none⟩, scratch := none }, [.shutDown])

/-- Drops all compiled code of a processor. A changed cache size is applied here. -/
def reset (e : Engine) (cpu : Cpu) (grants : Grants := .usual) : Except EngineError Engine := do
  match e.caches.get cpu with
  | none => throw .notInitialized
  | some c =>
    let c ← if c.arena.capacity = e.config.cacheReserve then pure c.reset
      else c.resized e.config (grants.cache cpu)
    return { e with caches := e.caches.set cpu (some c) }

/-- Resets processors one after the other, stopping at the first that fails. -/
def resetEach (e : Engine) (grants : Grants) : List Cpu → Except EngineError Unit × Engine
  | [] => (.ok (), e)
  | cpu :: rest =>
    match e.reset cpu grants with
    | .error error => (.error error, e)
    | .ok e => e.resetEach grants rest

/-- Drops all compiled code. -/
def resetAll (e : Engine) (grants : Grants := .usual) : Except EngineError Unit × Engine :=
  e.resetEach grants Cpu.all

/-! ## Execution -/

/-- Runs a block and answers how it was left, with the cycles it took, the processor, the host and what
was told. -/
def runBlock (bus : Bus σ) (arena : Arena Record) (h : Block.Header) (cpu : CpuState) (host : σ) :
    Exit × Machine σ :=
  ((Block.run bus arena h).run (Machine.start cpu host)).run

/-- What the run of a block comes to, for a turn that leaves the engine as given. -/
def finishTurn (e : Engine) (ran : Exit × Machine σ) (told : List Notice) : Turn σ :=
  { result := .ok ran.2.cycles, engine := e, cpu := ran.2.cpu, host := ran.2.host
    notices := told ++ ran.2.notices, broken := ran.1 == .broken }

/-- Decodes and runs the processor's next instruction, without the cache. -/
def executeUncached (e : Engine) (bus : Bus σ) (cpu : CpuState) (host : σ) : Turn σ :=
  match e.scratch with
  | none => { result := .error .notInitialized, engine := e, cpu, host, notices := [] }
  | some scratch =>
    let (run, host) := Decode.run bus cpu.cpu cpu.next cpu.thumb 1 host
    if run.isEmpty then
      { result := .error (.unmappedCode cpu.cpu cpu.next), engine := e
        cpu := { cpu with halted := true }, host, notices := [.unmapped cpu.cpu cpu.next] }
    else
      let (ref?, scratch) := Block.emit run scratch.reset
      let e := { e with scratch := some scratch }
      match ref?.bind (Block.header? scratch) with
      | none => { result := .error (.reserve scratchBytes), engine := e, cpu, host, notices := [] }
      | some h => e.finishTurn (runBlock bus scratch h cpu host) []

/-- The header of the block a reference names. -/
def blockHeader? (c : CodeCache) : SlotEntry → Option Block.Header
  | .compiled header _ => Block.header? c.arena header
  | .interpret => none

/-- What is known about an address, apart from blocks compiled for another mirror of it. -/
def findBlock (c : CodeCache) (addr : Word) : Option SlotEntry :=
  match c.lookup addr with
  | some block =>
    match blockHeader? c block with
    | some h => if h.first = addr then some block else none
    | none => some block
  | none => none

/-- Finds the block at the processor's next instruction, or compiles it. -/
def obtainBlock (c : CodeCache) (bus : Bus σ) (config : Config) (cpu : CpuState) (host : σ) :
    Compilation σ :=
  match findBlock c cpu.next with
  | some block => { outcome := .ok block, cache := c, cpu, host, notices := [] }
  | none => c.compile bus config cpu host

/-- Runs the block at the processor's next instruction, compiling it first if needed. -/
def execute (e : Engine) (bus : Bus σ) (cpu : CpuState) (host : σ) : Turn σ :=
  match e.caches.get cpu.cpu with
  | none => { result := .error .notInitialized, engine := e, cpu, host, notices := [] }
  | some cache =>
    let told := [Notice.executing cpu.cpu cpu.next]
    let found := obtainBlock cache bus e.config cpu host
    let e := { e with caches := e.caches.set cpu.cpu (some found.cache) }
    let told := told ++ found.notices
    match found.outcome with
    | .error error =>
      { result := .error error, engine := e, cpu := found.cpu, host := found.host
        notices := told }
    | .ok block =>
      match blockHeader? found.cache block with
      | some h =>
        if h.thumb = found.cpu.thumb then
          e.finishTurn (runBlock bus found.cache.arena h found.cpu found.host) told
        else
          let t := e.executeUncached bus found.cpu found.host
          { t with notices := told ++ t.notices }
      | none =>
        let t := e.executeUncached bus found.cpu found.host
        { t with notices := told ++ t.notices, broken := t.broken || block.isCompiled }

/-! ## Writes to guest memory -/

/-- Applies a change to the cache of a processor, if there is one. -/
def changeCache (e : Engine) (cpu : Cpu) (f : CodeCache → CodeCache × List Notice) :
    Engine × List Notice :=
  match e.caches.get cpu with
  | none => (e, [])
  | some c =>
    let (c, told) := f c
    ({ e with caches := e.caches.set cpu (some c) }, told)

/-- Guest memory at an address was written. -/
def invalidate (e : Engine) (addr : Word) (cpu : Cpu) : Engine × List Notice :=
  e.changeCache cpu (·.invalidate addr)

/-- The number of steps of two from one address to before another. -/
def halfSteps (first last : Word) : Nat := (last.toNat - first.toNat + 1) / 2

/-- Guest memory from one address to before another was written. Every second address is
invalidated, from the first one on. -/
def invalidateRange (e : Engine) (first last : Word) (cpu : Cpu) : Engine × List Notice :=
  e.changeCache cpu (·.invalidateMany [] first (halfSteps first last))

/-! ## Configuration and statistics -/

/-- Sets the size of each cache; it takes effect at the next reset. -/
def setReserveMebibytes (e : Engine) (mebibytes : Nat) : Engine :=
  { e with config := e.config.setReserveMebibytes mebibytes }

/-- The statistics of a processor's cache. -/
def stats (e : Engine) (cpu : Cpu) : Option CacheStats := (e.caches.get cpu).map CodeCache.stats

end Engine

end ArmBlocks
