import ArmBlocks.Machine.Alu

/-!
# Status registers

Reading and writing the current and the saved status register. Two rules protect the machine from
the guest: in User mode only the top byte can be written, and the THUMB bit never changes this way
in any mode.
-/

set_option autoImplicit false

namespace ArmBlocks

/-- The bits covered by some bytes of a word. -/
def fieldMask (fields : BitVec 4) : Word :=
  (if fields.getLsbD 3 then 0xFF#8 else 0#8) ++ (if fields.getLsbD 2 then 0xFF#8 else 0#8) ++
    (if fields.getLsbD 1 then 0xFF#8 else 0#8) ++ (if fields.getLsbD 0 then 0xFF#8 else 0#8)

/-- A word with the bits of a mask taken from another. -/
def Word.merge (old new mask : Word) : Word := (old &&& ~~~mask) ||| (new &&& mask)

namespace CpuState

/-- The status register an instruction reads; a mode that saves none has only the current one. -/
def status (s : CpuState) (saved : Bool) : Word :=
  if saved && s.mode.hasSaved then s.saved else s.cpsr

/-- Writes some bits of the saved status register, if the mode has one. -/
def writeSaved (s : CpuState) (x mask : Word) : CpuState :=
  if s.mode.hasSaved then s.setSaved (Word.merge s.saved x mask) else s

/-- The bits an instruction may write in the current mode. -/
def writableStatus (s : CpuState) (mask : Word) : Word :=
  if s.mode = .user then mask &&& 0xFF000000 else mask

/-- Writes some bits of the current status register. The banks only move if the low byte, where
the mode stands, changes. -/
def writeStatus (s : CpuState) (x mask : Word) : CpuState :=
  let merged := Word.merge s.cpsr x (s.writableStatus mask)
  let new := Bits.put merged Flag.thumb.bit s.thumb
  if (s.cpsr ^^^ new) &&& 0xFF = 0 then s.setFlags new else s.setCpsr new

end CpuState

namespace StatusSource

/-- The value to be written. -/
def value (source : StatusSource) (s : CpuState) (pc : Word) : Word :=
  match source with
  | .imm x => x
  | .reg rm => s.read pc rm

end StatusSource

namespace Guest

variable {σ : Type}

/-- Executes a read of a status register. -/
def readStatus (rd : Reg) (saved : Bool) : Guest σ Continuation := do
  modifyCpu fun s => s.write rd (s.status saved)
  return .next

/-- Executes a write to a status register. -/
def writeStatus (bus : Bus σ) (pc : Word) (saved : Bool) (fields : BitVec 4)
    (source : StatusSource) : Guest σ Continuation := do
  let x := source.value (← cpu) pc
  if saved then
    modifyCpu (·.writeSaved x (fieldMask fields))
  else
    modifyCpu (·.writeStatus x (fieldMask fields))
    statusChanged bus
  return .next

end Guest

end ArmBlocks
