import ArmBlocks.Machine.Alu
import ArmBlocks.Op.Effects

/-!
# Block transfers

A block transfer moves a list of registers to or from consecutive words, the lowest register at
the lowest address whichever way the base moves. An empty list moves nothing, but the base moves
as if it had been full.

The S bit has two meanings. With the program counter being loaded it restores the saved status
register; otherwise it transfers the registers of User mode. For the latter the processor switches
to System mode, which shares User's registers, and switches back afterwards; the base is read
before that. An abort switches back first too, so that the exception is entered from the mode the
instruction was executed in.

As with single transfers nothing is written before every load went through.
-/

set_option autoImplicit false

namespace ArmBlocks

namespace RegSet

/-- The registers of a set in ascending order. -/
def toList (set : RegSet) : List Reg :=
  ((List.range 16).map (BitVec.ofNat 4)).filter set.has

end RegSet

/-- How a block transfer addresses memory. -/
structure BlockMode where
  /-- The address moves before each access and not after it. -/
  pre : Bool
  up : Bool
  deriving DecidableEq, Repr

namespace BlockMode

/-- The distance the base moves. -/
def distance (list : RegSet) : Word :=
  if list = 0 then 0x40 else BitVec.ofNat 32 (4 * (RegSet.toList list).length)

/-- The lowest address accessed. -/
def lowest (mode : BlockMode) (base : Word) (list : RegSet) : Word :=
  match mode.pre, mode.up with
  | false, true => base
  | true, true => base + 4
  | false, false => base - distance list + 4
  | true, false => base - distance list

/-- The moved base. -/
def moved (mode : BlockMode) (base : Word) (list : RegSet) : Word :=
  if mode.up then base + distance list else base - distance list

end BlockMode

namespace CpuState

/-- The value a block transfer stores for a register. Version 4 stores the moved base if the base
is in the list and not its first register. -/
def storedValue (s : CpuState) (pc : Word) (list : RegSet) (rn : Reg) (writeback : Bool)
    (moved : Word) (r : Reg) : Word :=
  let first := (RegSet.toList list).head?
  if r = rn ∧ writeback = true ∧ s.cpu.isV5 = false ∧ first ≠ some rn then moved
  else s.readLate pc r

/-- Writes loaded values to their registers, except to the program counter. -/
def setLoaded (s : CpuState) (loaded : List (Reg × Word)) : CpuState :=
  loaded.foldl (fun s (r, x) => if r = .pc then s else s.setReg r x) s

end CpuState

namespace Guest

variable {σ : Type}

/-- Loads consecutive words, with the sum of their times. -/
def loadWords (bus : Bus σ) : Nat → Word → Access → Guest σ (Option (List Word × Word))
  | 0, _, _ => return some ([], 0)
  | count + 1, addr, access => do
    let some (x, wait) ← load bus .word addr access | return none
    let some (rest, total) ← loadWords bus count (addr + 4) .sequential | return none
    return some (x :: rest, wait.setWidth 32 + total)

/-- Stores consecutive words, answering the sum of their times. -/
def storeWords (bus : Bus σ) : List Word → Word → Access → Guest σ (Option Word)
  | [], _, _ => return some 0
  | x :: rest, addr, access => do
    let some wait ← store bus .word addr x access | return none
    let some total ← storeWords bus rest (addr + 4) .sequential | return none
    return some (wait.setWidth 32 + total)

/-- Loads the program counter at the end of a block transfer. -/
def finishPc (bus : Bus σ) (restore : Bool) (x : Word) : Guest σ Unit := do
  if restore then
    modifyCpu (·.restoreStatus)
    statusChanged bus
    write .pc x
  else modifyCpu (·.loadPc x)

/-- Aborts a block transfer, in the bank the instruction was executed in. -/
def abortBlock (bus : Bus σ) (pc : Word) (leaveBank : Guest σ Unit) : Guest σ Continuation := do
  leaveBank
  dataAbort bus pc

/-- The load half of a block transfer, from the bank that `leaveBank` leaves. -/
def loadBlock (bus : Bus σ) (pc cost lowest : Word) (list : RegSet) (user : Bool)
    (moveBase leaveBank : Guest σ Unit) : Guest σ Continuation := do
  let registers := RegSet.toList list
  let some (values, wait) ← loadWords bus registers.length lowest .nonSequential
    | abortBlock bus pc leaveBank
  moveBase
  modifyCpu (·.setLoaded (registers.zip values))
  leaveBank
  match (registers.zip values).lookup .pc with
  | some x => finishPc bus user x
  | none => pure ()
  spendWithMemory cost wait
  return .next

/-- The store half of a block transfer, from the bank that `leaveBank` leaves. -/
def storeBlock (bus : Bus σ) (pc cost lowest : Word) (values : List Word)
    (moveBase leaveBank : Guest σ Unit) : Guest σ Continuation := do
  let some wait ← storeWords bus values lowest .nonSequential | abortBlock bus pc leaveBank
  leaveBank
  moveBase
  spendWithMemory cost wait
  return .next

/-- Executes a block transfer that takes `cost` cycles beside its accesses. -/
def blockTransfer (bus : Bus σ) (pc cost : Word) (load : Bool) (mode : BlockMode)
    (writeback user : Bool) (rn : Reg) (list : RegSet) : Guest σ Continuation := do
  let before ← cpu
  let base := before.read pc rn
  let lowest := mode.lowest base list
  let moved := mode.moved base list
  let moveBase : Guest σ Unit := if writeback then write rn moved else pure ()
  let userBank := user && !(load && list.has .pc)
  let leaveBank : Guest σ Unit := if userBank then modifyCpu (·.setCpsr before.cpsr) else pure ()
  if userBank then modifyCpu (·.setMode .system)
  if load then loadBlock bus pc cost lowest list user moveBase leaveBank
  else
    let values := (RegSet.toList list).map ((← cpu).storedValue pc list rn writeback moved)
    storeBlock bus pc cost lowest values moveBase leaveBank

end Guest

end ArmBlocks
