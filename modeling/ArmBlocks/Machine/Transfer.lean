import ArmBlocks.Machine.Basic
import ArmBlocks.Op.Basic

/-!
# Single data transfers

A transfer moves a byte, a halfword, a word or a pair of words between registers and memory. All
of them share one scheme: the base is moved by the offset, the access is at the old or the moved
base, and after the access the moved base may be kept.

**Nothing is written back before every access went through.** An access without memory raises a
data abort, and the guest's handler finds the registers as they were before the instruction. When
a register is loaded that is also the base, the loaded value is written last and stays.

Memory answers at aligned addresses; what an unaligned access yields is settled here. Words are
rotated so that the addressed byte comes lowest. Version 4 treats odd halfword addresses in two
ways of its own, which version 5 does not know.
-/

set_option autoImplicit false

namespace ArmBlocks

/-- The value of an offset. -/
def Offset.value (offset : Offset) (s : CpuState) (pc : Word) : Word :=
  let carry := s.flag .carry
  match offset with
  | .imm x => x
  | .shifted rm kind amount => (kind.apply (s.read pc rm) amount carry).1
  | .rrx rm => (Shift.rrx (s.read pc rm) carry).1

/-- The width a kind loads one value with, and what becomes of the value. -/
def TransferKind.view (kind : TransferKind) (oddOnV4 : Bool) (addr : Word) :
    Width × (Word → Word) :=
  match kind with
  | .loadByte => (.byte, id)
  | .loadSignedByte => (.byte, Width.byte.signed)
  | .loadHalf => (.half, if oddOnV4 then (·.rotateRight 8) else id)
  | .loadSignedHalf =>
    if oddOnV4 then (.byte, Width.byte.signed) else (.half, Width.half.signed)
  | _ => (.word, (·.rotateRight ((addr &&& 3).toNat * 8)))

namespace Guest

variable {σ : Type}

/-- Loads one value the way a kind asks for. An odd halfword address on version 4 yields the
halfword below with its bytes exchanged into the corners of the word, or only the signed byte at
the address. -/
def loadOne (bus : Bus σ) (kind : TransferKind) (addr : Word) :
    Guest σ (Option (Word × Wait)) := do
  let oddOnV4 := !(← cpu).cpu.isV5 && addr.getLsbD 0
  let (width, view) := kind.view oddOnV4 addr
  let loaded ← load bus width addr .nonSequential
  return loaded.map fun (x, wait) => (view x, wait)

/-- Loads two consecutive words. -/
def loadPair (bus : Bus σ) (addr : Word) : Guest σ (Option (Word × Word × Wait)) := do
  let some (low, first) ← load bus .word addr .nonSequential | return none
  let some (high, second) ← load bus .word (addr + 4) .sequential | return none
  return some (low, high, first + second)

/-- Stores one value, or the two of a pair. -/
def storeOne (bus : Bus σ) (kind : TransferKind) (addr low high : Word) :
    Guest σ (Option Wait) := do
  match kind with
  | .storeByte => store bus .byte addr low .nonSequential
  | .storeHalf => store bus .half addr low .nonSequential
  | .storeDouble =>
    let some first ← store bus .word addr low .nonSequential | return none
    let some second ← store bus .word (addr + 4) high .sequential | return none
    return some (first + second)
  | _ => store bus .word addr low .nonSequential

/-- Executes a single data transfer that takes `cost` cycles beside its accesses. -/
def transfer (bus : Bus σ) (pc cost : Word) (kind : TransferKind) (rd rn : Reg) (offset : Offset)
    (index : IndexMode) (up : Bool) : Guest σ Continuation := do
  let s ← cpu
  let base := s.read pc rn
  let moved := if up then base + offset.value s pc else base - offset.value s pc
  let addr := if index = .post then base else moved
  let moveBase : Guest σ Unit := if index ≠ .pre ∧ rn ≠ .pc then write rn moved else pure ()
  let finish (wait : Wait) : Guest σ Continuation := do
    spendWithMemory cost (wait.setWidth 32)
    return .next
  if !kind.isLoad then
    let some wait ← storeOne bus kind addr (s.readLate pc rd) (s.read pc (rd + 1))
      | dataAbort bus pc
    moveBase
    finish wait
  else if kind.isDouble then
    let some (low, high, wait) ← loadPair bus addr | dataAbort bus pc
    moveBase
    write rd low
    write (rd + 1) high
    finish wait
  else
    let some (x, wait) ← loadOne bus kind addr | dataAbort bus pc
    moveBase
    if rd = .pc then modifyCpu (·.loadPc x) else write rd x
    finish wait

/-- Executes an exchange of a register with memory. -/
def swap (bus : Bus σ) (pc cost : Word) (byte : Bool) (rd rn rm : Reg) :
    Guest σ Continuation := do
  let s ← cpu
  let addr := s.read pc rn
  let some (old, first) ← loadOne bus (if byte then .loadByte else .loadWord) addr
    | dataAbort bus pc
  let some second ← storeOne bus (if byte then .storeByte else .storeWord) addr (s.read pc rm) 0
    | dataAbort bus pc
  write rd old
  spendWithMemory cost ((first + second).setWidth 32)
  return .next

end Guest

end ArmBlocks
