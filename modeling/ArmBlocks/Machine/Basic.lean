import ArmBlocks.Bus
import ArmBlocks.Notice
import ArmBlocks.Cpu.Alu

/-!
# A processor in its host, while a block runs

A running block works on one processor and one host, counts cycles, and may have something to tell
the embedder. That is the `Machine`, and an instruction is an action on it: `Guest σ α` is a state
monad over the machine, and nothing else is threaded through an execution.

What can be said of the processor alone is said of `CpuState`, below and in the modules beside
this one; `Guest` is for what needs the host or the clock.

**The program counter is passed and not stored.** The visible r15 is only brought up to date where
an instruction changes it, so reading r15 takes the value the instruction was compiled with, here
always called `pc`: its address and two instructions more. Where the pipeline has moved on by
another word (a stored program counter, and operands beside a shift by register) the read is late.
-/

set_option autoImplicit false

namespace ArmBlocks

namespace CpuState

/-- A register as an instruction reads it. -/
def read (s : CpuState) (pc : Word) (r : Reg) : Word := if r = .pc then pc else s.reg r

/-- A register read one pipeline stage later. -/
def readLate (s : CpuState) (pc : Word) (r : Reg) : Word := if r = .pc then pc + 4 else s.reg r

/-- Writes a register; r15 is aligned to the current instruction set. -/
def write (s : CpuState) (r : Reg) (x : Word) : CpuState :=
  if r = .pc then s.setReg .pc (x &&& if s.thumb then ~~~1#32 else ~~~3#32) else s.setReg r x

/-- Loads the program counter. In version 5 the lowest bit of what is loaded selects the
instruction set. -/
def loadPc (s : CpuState) (x : Word) : CpuState :=
  (if s.cpu.isV5 then s.setFlag .thumb (x.getLsbD 0) else s).write .pc x

/-- The address of the instruction that reads its program counter as `pc`. -/
def addressOf (s : CpuState) (pc : Word) : Word := pc - s.width * 2

end CpuState

/-- A processor and its host while a block runs. -/
structure Machine (σ : Type) where
  cpu : CpuState
  host : σ
  /-- Cycles taken so far. -/
  cycles : Word
  /-- Whether the last software interrupt entered the guest's handler. -/
  trapped : Bool
  /-- What there is to tell, in order. -/
  notices : List Notice

/-- How a block is left. -/
inductive Exit where
  /-- Its end was reached, and what follows it in memory is next. -/
  | atEnd
  /-- One of its instructions decided what is next. -/
  | early
  /-- A record of it was not what it should be, so nothing is known of what would come next. -/
  | broken
  deriving DecidableEq, Repr

/-- Where a block goes on after one of its nodes. -/
inductive Continuation where
  /-- At the following node. -/
  | next
  /-- At a later node. -/
  | jump (target : BitVec 16)
  /-- Nowhere: the block is left. -/
  | leave (exit : Exit)
  deriving DecidableEq, Repr

/-- An action on a machine. -/
abbrev Guest (σ : Type) := StateM (Machine σ)

namespace Machine

variable {σ : Type}

/-- A machine at the start of a block. -/
def start (cpu : CpuState) (host : σ) : Machine σ :=
  { cpu, host, cycles := 0, trapped := false, notices := [] }

end Machine

namespace Guest

variable {σ : Type}

/-- The processor. -/
def cpu : Guest σ CpuState := return (← get).cpu

/-- Changes the processor. -/
def modifyCpu (f : CpuState → CpuState) : Guest σ Unit :=
  modify fun m => { m with cpu := f m.cpu }

/-- Writes a register. -/
def write (r : Reg) (x : Word) : Guest σ Unit := modifyCpu (·.write r x)

/-- Takes cycles. -/
def spend (cycles : Word) : Guest σ Unit := modify fun m => { m with cycles := m.cycles + cycles }

/-- Takes the cycles of an instruction that also accessed memory. Version 5 overlaps the two,
version 4 does one after the other. -/
def spendWithMemory (cycles memory : Word) : Guest σ Unit := do
  let s ← cpu
  spend (if s.cpu.isV5 then (if cycles ≤ memory then memory else cycles) else cycles + memory)

/-- Tells the embedder something. -/
def notify (n : Notice) : Guest σ Unit := modify fun m => { m with notices := m.notices ++ [n] }

/-! ## The host -/

/-- Reads memory, with the time it takes; nothing if there is no memory. -/
def load (bus : Bus σ) (w : Width) (addr : Word) (access : Access) :
    Guest σ (Option (Word × Wait)) :=
  modifyGet fun m =>
    let (result, host) := bus.read m.host m.cpu.cpu w addr access
    (result, { m with host })

/-- Writes the low bits of a word to memory, answering the time it takes. -/
def store (bus : Bus σ) (w : Width) (addr x : Word) (access : Access) : Guest σ (Option Wait) :=
  modifyGet fun m =>
    let (result, host) := bus.write m.host m.cpu.cpu w addr x access
    (result, { m with host })

/-- Tells the host that an instruction wrote the status register. -/
def statusChanged (bus : Bus σ) : Guest σ Unit := modify fun m =>
  let (cpu, host) := bus.statusChanged m.host m.cpu
  { m with cpu, host }

/-- Enters the handler of an exception. -/
def enter (bus : Bus σ) (kind : Exception) (lr : Word) : Guest σ Unit := modify fun m =>
  let (cpu, host) := m.cpu.enterException bus m.host kind lr
  { m with cpu, host }

/-- Raises a data abort in the instruction that reads its program counter as `pc`. Its handler
returns to eight bytes after the instruction. -/
def dataAbort (bus : Bus σ) (pc : Word) : Guest σ Continuation := do
  let s ← cpu
  enter bus .dataAbort (s.addressOf pc + 8)
  return .leave .early

/-! ## What the actions do to a machine -/

@[simp] theorem run_cpu (m : Machine σ) : (cpu : Guest σ CpuState).run m = pure (m.cpu, m) := rfl

@[simp] theorem run_modifyCpu (f : CpuState → CpuState) (m : Machine σ) :
    (modifyCpu f : Guest σ Unit).run m = pure ((), { m with cpu := f m.cpu }) := rfl

@[simp] theorem run_write (r : Reg) (x : Word) (m : Machine σ) :
    (write r x : Guest σ Unit).run m = pure ((), { m with cpu := m.cpu.write r x }) := rfl

@[simp] theorem run_spend (cycles : Word) (m : Machine σ) :
    (spend cycles : Guest σ Unit).run m = pure ((), { m with cycles := m.cycles + cycles }) := rfl

@[simp] theorem run_notify (n : Notice) (m : Machine σ) :
    (notify n : Guest σ Unit).run m = pure ((), { m with notices := m.notices ++ [n] }) := rfl

@[simp] theorem run_load (bus : Bus σ) (w : Width) (addr : Word) (access : Access)
    (m : Machine σ) :
    (load bus w addr access).run m =
      let answer := bus.read m.host m.cpu.cpu w addr access
      pure (answer.1, { m with host := answer.2 }) := rfl

@[simp] theorem run_store (bus : Bus σ) (w : Width) (addr x : Word) (access : Access)
    (m : Machine σ) :
    (store bus w addr x access).run m =
      let answer := bus.write m.host m.cpu.cpu w addr x access
      pure (answer.1, { m with host := answer.2 }) := rfl

@[simp] theorem run_statusChanged (bus : Bus σ) (m : Machine σ) :
    (statusChanged bus).run m =
      let after := bus.statusChanged m.host m.cpu
      pure ((), { m with cpu := after.1, host := after.2 }) := rfl

@[simp] theorem run_enter (bus : Bus σ) (kind : Exception) (lr : Word) (m : Machine σ) :
    (enter bus kind lr).run m =
      let after := m.cpu.enterException bus m.host kind lr
      pure ((), { m with cpu := after.1, host := after.2 }) := rfl

end Guest

end ArmBlocks
