import ArmBlocks.Cpu.State
import ArmBlocks.Address

/-!
# The host around the processors

The engine owns neither the guest's memory nor the meaning of its coprocessor. Both belong to a
host, and a `Bus` is the engine's whole view of one: how to get and set values of three widths,
how long an access takes, which memory holds code, and a few hooks.

The host's state is a type parameter `σ` that the engine only passes along. That has two uses. A
host may keep whatever it likes in it, a log of every access included; and since nothing here can
look inside, whatever is proved for all hosts is proved with the order of accesses in it.

Values travel as words whatever the width of the access. The upper bits of a narrow value are
cleared on the engine's side, both ways, so nothing depends on a host clearing them.

Hooks that the guest can see, because they are handed the processor, answer the processor too.
-/

set_option autoImplicit false

namespace ArmBlocks

/-- How much an access moves. -/
inductive Width where
  | byte
  | half
  | word
  deriving DecidableEq, Repr, Inhabited

namespace Width

/-- The low bits of a word that an access moves; the others are cleared. -/
def cut : Width → Word → Word
  | .byte, x => x &&& 0xFF
  | .half, x => x &&& 0xFFFF
  | .word, x => x

/-- The moved bits as a signed number. -/
def signed : Width → Word → Word
  | .byte, x => (x.setWidth 8).signExtend 32
  | .half, x => (x.setWidth 16).signExtend 32
  | .word, x => x

/-- Bytes moved. -/
def bytes : Width → Nat
  | .byte => 1
  | .half => 2
  | .word => 4

end Width

/-- How an access follows the one before it in the same instruction. -/
inductive Access where
  /-- It follows none. -/
  | nonSequential
  /-- It follows the access to the address just below. -/
  | sequential
  deriving DecidableEq, Repr, Inhabited

/-- The cycles an access takes. -/
abbrev Wait := BitVec 16

/-- A region of executable memory: its bounds, and the size of what backs it, which repeats across
the region. -/
structure CodeRegion where
  first : Word
  /-- The address after the region. -/
  last : Word
  mirror : Word
  deriving DecidableEq, Repr

/-- The exceptions guest code can raise by itself. -/
inductive Exception where
  | undefined
  | softwareInterrupt
  | dataAbort
  deriving DecidableEq, Repr, Inhabited

namespace Exception

/-- Where the handler lies, from the vector base. -/
def vector : Exception → Word
  | .undefined => 0x04
  | .softwareInterrupt => 0x08
  | .dataAbort => 0x10

/-- The mode the handler runs in. -/
def mode : Exception → Mode
  | .undefined => .undefined
  | .softwareInterrupt => .supervisor
  | .dataAbort => .abort

end Exception

/-- A coprocessor register: the two register numbers and the two opcodes that select it. -/
structure ControlRegister where
  cn : BitVec 4
  cm : BitVec 4
  op1 : BitVec 3
  op2 : BitVec 3
  deriving DecidableEq, Repr

/-- A host with states in `σ`. -/
structure Bus (σ : Type) where
  /-- The value at an address, or nothing if there is no memory. -/
  get : σ → Cpu → Width → Word → Option Word × σ
  /-- Sets the value at an address, and answers whether there was memory. -/
  set : σ → Cpu → Width → Word → Word → Bool × σ
  /-- The time an access takes. -/
  waitTime : σ → Cpu → Width → Word → Access → Wait × σ
  /-- The executable memory of a processor; none at all asks for a flat table. -/
  codeRegions : σ → Cpu → List CodeRegion
  /-- Where the exception vectors of a processor start. -/
  vectorBase : σ → Cpu → Word
  /-- Called when an exception is about to be entered. -/
  exceptionHappened : σ → CpuState → Exception → CpuState × σ
  /-- Called after an instruction wrote the status register. -/
  statusChanged : σ → CpuState → CpuState × σ
  /-- Handles a software interrupt, answering the cycles it took, or leaves it to the guest. -/
  softwareInterrupt : σ → CpuState → Word → Option Wait × CpuState × σ
  /-- Writes a register of the control coprocessor. -/
  controlWrite : σ → Cpu → Word → ControlRegister → σ
  /-- Reads a register of the control coprocessor. -/
  controlRead : σ → Cpu → ControlRegister → Word × σ

namespace Bus

variable {σ : Type}

/-- A bus with the given memory and none of the hooks: no declared code regions, vectors at zero,
software interrupts left to the guest, and a control coprocessor that reads zero. -/
def ofMemory
    (get : σ → Cpu → Width → Word → Option Word × σ)
    (set : σ → Cpu → Width → Word → Word → Bool × σ)
    (waitTime : σ → Cpu → Width → Word → Access → Wait × σ) : Bus σ :=
  { get, set, waitTime
    codeRegions := fun _ _ => []
    vectorBase := fun _ _ => 0
    exceptionHappened := fun host cpu _ => (cpu, host)
    statusChanged := fun host cpu => (cpu, host)
    softwareInterrupt := fun host cpu _ => (none, cpu, host)
    controlWrite := fun host _ _ _ => host
    controlRead := fun host _ _ => (0, host) }

/-- Reads a value at the aligned address, with the time it takes. -/
def read (bus : Bus σ) (host : σ) (cpu : Cpu) (w : Width) (addr : Word) (access : Access) :
    Option (Word × Wait) × σ :=
  let addr := Address.align addr (BitVec.ofNat 32 w.bytes)
  match bus.get host cpu w addr with
  | (none, host) => (none, host)
  | (some value, host) =>
    let (wait, host) := bus.waitTime host cpu w addr access
    (some (w.cut value, wait), host)

/-- Writes a value at the aligned address, answering the time it takes. -/
def write (bus : Bus σ) (host : σ) (cpu : Cpu) (w : Width) (addr value : Word)
    (access : Access) : Option Wait × σ :=
  let addr := Address.align addr (BitVec.ofNat 32 w.bytes)
  match bus.set host cpu w addr (w.cut value) with
  | (false, host) => (none, host)
  | (true, host) =>
    let (wait, host) := bus.waitTime host cpu w addr access
    (some wait, host)

end Bus

namespace CpuState

variable {σ : Type}

/-- Switches into the handler of an exception that will return to `lr`.

The hook comes first and sees the processor as the faulting instruction left it. Then mode and
THUMB bits are replaced and interrupts masked; the old status goes into the bank of the new mode,
which is why it is saved after the switch. -/
def enterException (s : CpuState) (bus : Bus σ) (host : σ) (kind : Exception) (lr : Word) :
    CpuState × σ :=
  let (s, host) := bus.exceptionHappened host s kind
  let before := s.cpsr
  let s := s.setCpsr ((before &&& ~~~0x3F#32) ||| kind.mode.bits ||| Flag.irqDisable.mask)
  let s := (s.setSaved before).setReg .lr lr
  let handler := bus.vectorBase host s.cpu + kind.vector
  let s := { s.setReg .pc handler with next := handler }
  bus.statusChanged host s

end CpuState

end ArmBlocks
