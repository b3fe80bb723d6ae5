import ArmBlocks.Proofs.CheckedAccess
import ArmBlocks.Proofs.MethodTables

/-!
# Methods on plain numbers

What a method executes with is a record of plain numbers (`Method.Data`): register numbers that were
taken from the operation, a number for the kind of a shift, a list of registers as bits. The record knows
nothing of the ranges that these numbers have in an operation, and neither does the method: the second
register of a pair is the number behind the first.

`Checked.execute` is the methods as they are compiled, with every access by such a number checked.
-/

set_option autoImplicit false

namespace ArmBlocks

variable {σ : Type}

/-! ## Records

There is one record for each family of methods. It is filled in once, when an instruction is compiled,
and a method finds in it everything that is not already settled by its shape.
-/

namespace Method

/-- What a data processing method knows of its instruction. -/
structure AluRecord where
  rd : Nat
  rn : Nat
  rm : Nat := 0
  rs : Nat := 0
  amount : Nat := 0
  imm : Word := 0
  carry : Option Bool := none
  cycles : Word

/-- What a multiplication knows of its instruction, and what counting zeros and saturating know, which are
compiled with the same record. Registers that an operation has no use for are the zeroth. -/
structure MulRecord where
  rd : Nat := 0
  rn : Nat := 0
  rs : Nat := 0
  rm : Nat := 0
  xTop : Bool := false
  yTop : Bool := false
  cycles : Word

/-- What a method that reads or writes a status register knows of its instruction. The mask is that of the
fields to be written. -/
structure StatusRecord where
  rd : Nat := 0
  rm : Nat := 0
  imm : Word := 0
  mask : Word := 0

/-- What a transfer knows of its instruction; `shift` numbers the kind of a fixed shift, with one number
more for the rotation through the carry. -/
structure TransferRecord where
  rd : Nat
  rn : Nat
  rm : Nat := 0
  shift : Nat := 0
  amount : Nat := 0
  imm : Word := 0
  cycles : Word

/-- What a block transfer knows of its instruction. There are two sums of cycles, since only its method
says whether r15 is loaded. -/
structure BlockRecord where
  rn : Nat
  list : RegSet
  /-- The number of registers in the list. -/
  count : Nat
  cycles : Word
  pcCycles : Word

/-- What a branch knows of its instruction, and what it leaves in r14 if it links. -/
structure BranchRecord where
  /-- The target, or what a long branch adds up. -/
  target : Word := 0
  rm : Nat := 0
  link : Word
  cycles : Word

/-- What an exception or a transfer with the control coprocessor knows of its instruction. -/
structure SystemRecord where
  comment : Word := 0
  rd : Nat := 0
  register : ControlRegister := ⟨0, 0, 0, 0⟩
  cycles : Word

/-- The record of an instruction, one kind for each family. -/
inductive Data where
  | alu (d : AluRecord)
  | multiply (d : MulRecord)
  | status (d : StatusRecord)
  | transfer (d : TransferRecord)
  | block (d : BlockRecord)
  | branch (d : BranchRecord)
  | system (d : SystemRecord)

/-- Fills in what an operand says. -/
def AluRecord.withOperand (d : AluRecord) : Operand → AluRecord
  | .imm value carry => { d with imm := value, carry }
  | .shifted rm _ amount => { d with rm := rm.toNat, amount }
  | .rrx rm => { d with rm := rm.toNat }
  | .shiftedBy rm _ rs => { d with rm := rm.toNat, rs := rs.toNat }

/-- Fills in what an offset says. -/
def TransferRecord.withOffset (d : TransferRecord) : Offset → TransferRecord
  | .imm imm => { d with imm }
  | .shifted rm kind amount => { d with rm := rm.toNat, shift := kind.number, amount }
  | .rrx rm => { d with rm := rm.toNat, shift := 4 }

end Method

/-- The registers of a list by their numbers, in ascending order. -/
def RegSet.numbers (list : RegSet) : List Nat := (List.range 16).filter (Bits.test list)

/-- The record that is compiled for an instruction. -/
def Instruction.data (i : Instruction) : Method.Data :=
  let cycles := i.action.cost
  match i.op with
  | .alu _ _ rd rn operand =>
    .alu (Method.AluRecord.withOperand { rd := rd.toNat, rn := rn.toNat, cycles } operand)
  | .mul _ _ rd rn rs rm =>
    .multiply { rd := rd.toNat, rn := rn.toNat, rs := rs.toNat, rm := rm.toNat, cycles }
  | .halfMul _ rd rn rs rm xTop yTop =>
    .multiply { rd := rd.toNat, rn := rn.toNat, rs := rs.toNat, rm := rm.toNat, xTop, yTop, cycles }
  | .clz rd rm => .multiply { rd := rd.toNat, rm := rm.toNat, cycles }
  | .sat _ rd rn rm => .multiply { rd := rd.toNat, rn := rn.toNat, rm := rm.toNat, cycles }
  | .readStatus rd _ => .status { rd := rd.toNat }
  | .writeStatus _ fields (.imm imm) => .status { imm, mask := fieldMask fields }
  | .writeStatus _ fields (.reg rm) => .status { rm := rm.toNat, mask := fieldMask fields }
  | .transfer _ rd rn offset _ _ =>
    .transfer (Method.TransferRecord.withOffset { rd := rd.toNat, rn := rn.toNat, cycles } offset)
  | .swap _ rd rn rm => .transfer { rd := rd.toNat, rn := rn.toNat, rm := rm.toNat, cycles }
  | .block _ _ _ _ _ rn list cycles pcCycles =>
    .block
      { rn := rn.toNat
        list
        count := (RegSet.numbers list).length
        -- both sums are given in the operation, so the cost of the action is not used here
        cycles := BitVec.ofNat 32 cycles
        pcCycles := BitVec.ofNat 32 pcCycles }
  | .branch _ _ target => .branch { target, link := i.link, cycles }
  | .branchExchange _ rm => .branch { rm := rm.toNat, link := i.link, cycles }
  | .linkPrefix value => .branch { target := value, link := i.link, cycles }
  | .linkSuffix offset _ => .branch { target := offset, link := i.link, cycles }
  | .coproc _ _ op1 cn cm op2 rd => .system { rd := rd.toNat, register := ⟨cn, cm, op1, op2⟩, cycles }
  | .softwareInterrupt comment => .system { comment, cycles }
  | .breakpoint | .undefined | .nop _ => .system { cycles }

/-! ## Methods on one processor

These compute on the processor alone, and so may fail only by a register number or a bank number.
-/

open Method

/-- The value of a second operand, and the carry that leaves the shifter. -/
def OperandKind.value? (kind : OperandKind) (d : AluRecord) (pc : Word) (s : CpuState) :
    Option (Word × Bool) := do
  let carry := s.flag .carry
  match kind with
  | .imm => return (d.imm, d.carry.getD carry)
  | .shifted shift =>
    let x ← s.read? pc d.rm
    return shift.apply x d.amount carry
  | .rrx =>
    let x ← s.read? pc d.rm
    return Shift.rrx x carry
  | .shiftedBy shift =>
    let x ← s.readLate? pc d.rm
    let amount ← s.read? pc d.rs
    return shift.apply x (amount &&& 0xFF).toNat carry

/-- The first operand. -/
def OperandKind.partner? (kind : OperandKind) (d : AluRecord) (pc : Word) (s : CpuState) : Option Word :=
  match kind with
  | .shiftedBy _ => s.readLate? pc d.rn
  | _ => s.read? pc d.rn

/-- The value of an offset that is made from a register. -/
def Method.TransferRecord.offset? (d : TransferRecord) (pc : Word) (s : CpuState) : Option Word := do
  let x ← s.read? pc d.rm
  let carry := s.flag .carry
  return match d.shift with
    | 0 => (Shift.lsl x d.amount carry).1
    | 1 => (Shift.lsr x d.amount carry).1
    | 2 => (Shift.asr x d.amount carry).1
    | 3 => (Shift.ror x d.amount carry).1
    | _ => (Shift.rrx x carry).1

namespace CpuState

open Multiplier

variable (s : CpuState) (pc : Word)

/-- A multiplication. A long one has its high half in `rd` and its low half in `rn`, and writes the low
half first, so that the high half stays where both are the same register. -/
def multiply? (op : MulOp) (set : Bool) (d : MulRecord) : Option CpuState := do
  let x ← s.read? pc d.rm
  let y ← s.read? pc d.rs
  if op.isLong then
    let product :=
      if op.isSigned then x.signExtend 64 * y.signExtend 64 else x.setWidth 64 * y.setWidth 64
    let high' ← s.read? pc d.rd
    let low' ← s.read? pc d.rn
    let sum := if op.accumulates then product + join high' low' else product
    let s ← s.write? d.rn (low sum)
    let s ← s.write? d.rd (high sum)
    return if set then (s.setFlag .neg sum.msb).setFlag .zero (sum == 0) else s
  else
    let acc ← s.read? pc d.rn
    let sum := if op.accumulates then x * y + acc else x * y
    let s ← s.write? d.rd sum
    return if set then s.setNz sum else s

/-- Writes a product that something was added to. The sum wraps, and the sticky flag says that it left the
signed range. -/
def accumulate? (rd : Nat) (product acc : Word) : Option CpuState :=
  (if product.saddOverflow acc then s.setFlag .clamped true else s).write? rd (product + acc)

/-- A multiplication of signed halves. Whatever the operation makes of them, all four registers are read.
-/
def multiplyHalves? (op : HalfMulOp) (d : MulRecord) : Option CpuState := do
  let x ← s.read? pc d.rm
  let y ← s.read? pc d.rs
  let acc ← s.read? pc d.rn
  let top ← s.read? pc d.rd
  match op with
  | .smla => s.accumulate? d.rd (half x d.xTop * half y d.yTop) acc
  | .smlaw => s.accumulate? d.rd (wordByHalf x (half y d.yTop)) acc
  | .smulw => s.write? d.rd (wordByHalf x (half y d.yTop))
  | .smlal =>
    let sum := join top acc + (half x d.xTop * half y d.yTop).signExtend 64
    let s ← s.write? d.rn (low sum)
    s.write? d.rd (high sum)
  | .smul => s.write? d.rd (half x d.xTop * half y d.yTop)

/-- The number of leading zeros. -/
def countZeros? (d : MulRecord) : Option CpuState := do
  let x ← s.read? pc d.rm
  s.write? d.rd x.clz

/-- A saturating addition or subtraction. Where the second operand is doubled first, that may clamp as
well. -/
def saturate? (op : SatOp) (d : MulRecord) : Option CpuState := do
  let x ← s.read? pc d.rm
  let y ← s.read? pc d.rn
  let (y, clamped) := if op.doubles then Saturating.add y y else (y, false)
  let (result, clampedToo) := if op.subtracts then Saturating.sub x y else Saturating.add x y
  (if clamped || clampedToo then s.setFlag .clamped true else s).write? d.rd result

/-- Reads a status register. In a mode without a saved status the one in force is read instead. -/
def readStatus? (saved : Bool) (d : StatusRecord) : Option CpuState := do
  let x ← if saved && s.mode.hasSaved then s.saved? else some s.cpsr
  s.write? d.rd x

/-- Writes the masked bits of the saved status. In a mode without one nothing happens. -/
def writeSaved? (x mask : Word) : Option CpuState :=
  if s.mode.hasSaved then do
    let old ← s.saved?
    s.setSaved? (Word.merge old x mask)
  else some s

/-- Writes the masked bits of the status in force, never the one that says which instruction set that is.
Banks are exchanged only if the control bits change. -/
def writeStatus? (x mask : Word) : Option CpuState :=
  let merged := Word.merge s.cpsr x (s.writableStatus mask)
  let new := Bits.put merged Flag.thumb.bit s.thumb
  -- the mode is among the low eight bits, so the registers stay where they are if those do
  if (s.cpsr ^^^ new) &&& 0xFF = 0 then some (s.setFlags new) else s.setCpsr? new

/-- The value that a block transfer stores for the register of a number. -/
def storedValue? (d : BlockRecord) (writeback : Bool) (moved : Word) (n : Nat) : Option Word :=
  if n = d.rn ∧ writeback = true ∧ s.cpu.isV5 = false ∧ (RegSet.numbers d.list).head? ≠ some d.rn then
    some moved
  else s.readLate? pc n

/-- Writes loaded values to their registers, except to the program counter. -/
def setLoaded? : CpuState → List (Nat × Word) → Option CpuState
  | s, [] => some s
  | s, (n, x) :: rest =>
    if n = 15 then s.setLoaded? rest
    else do
      let s ← s.setReg? n x
      s.setLoaded? rest

/-- A branch to a target that the record holds. -/
def branch? (link exchange : Bool) (d : BranchRecord) : Option CpuState := do
  let s ← if link then s.write? 14 d.link else some s
  (if exchange then s.setFlag .thumb true else s).write? 15 d.target

/-- A branch to an address in a register, whose lowest bit says which instruction set it goes to. The
address is read before the link is written, which may be to the same register. -/
def branchExchange? (link : Bool) (d : BranchRecord) : Option CpuState := do
  let target ← s.read? pc d.rm
  let s ← if link then s.write? 14 d.link else some s
  (s.setFlag .thumb (target.getLsbD 0)).write? 15 target

/-- The second half of a long branch, which goes on from what the first half left in r14. -/
def linkSuffix? (exchange : Bool) (d : BranchRecord) : Option CpuState := do
  let lr ← s.reg? 14
  let target := lr + d.target
  let s ← s.write? 14 d.link
  if exchange then (s.setFlag .thumb false).write? 15 (target &&& ~~~3#32) else s.write? 15 target

end CpuState

/-! ## Methods on a machine

These have the lines of the actions, in the same order. Only what may be outside is checked; what the
host is asked is as it was.
-/

namespace Checked

/-- What only changes the processor, and its cycles. -/
def spending (cycles : Word) (f : CpuState → Option CpuState) : Checked σ Continuation := do
  onCpu f
  lift (Guest.spend cycles)
  return .next

/-- The cycles of the multiplications beside those of the multiplier array, by their numbers. -/
def mulCycles : List Nat := [1, 2, 2, 3, 2, 3]

variable (bus : Bus σ) (pc : Word)

/-- A data processing method. One that writes r15 and sets the flags restores the saved status instead, if
there is one in the mode it was executed in. -/
def dataProcessing (op : AluOp) (kind : OperandKind) (set toPc : Bool) (d : AluRecord) :
    Checked σ Continuation := do
  lift (Guest.spend d.cycles)
  -- the second operand goes through the shifter, and its carry is the one that logical operations set
  let second ← ask (kind.value? d pc)
  let first ← ask (kind.partner? d pc)
  let s ← lift Guest.cpu
  let result := s.compute op (set && !toPc) first second.1 second.2
  lift (Guest.modifyCpu fun _ => result.2)
  if op.writes then
    if toPc then
      if set && result.2.mode.hasSaved then
        onCpu (·.restoreStatus?)
        lift (Guest.statusChanged bus)
      write 15 result.1
    else write d.rd result.1
  return .next

/-- A multiplication with its cycles: those of the array, which depend on the value of the multiplier, and
then those of the instruction. -/
def multiply (op : MulOp) (set : Bool) (d : MulRecord) : Checked σ Continuation := do
  let y ← read pc d.rs
  let cycles ← ask fun _ => mulCycles[op.number]?
  lift (Guest.spend (BitVec.ofNat 32 (Multiplier.cycles y op.isSigned)))
  spending (BitVec.ofNat 32 cycles) (·.multiply? pc op set d)

/-- The method that reads a status register. -/
def readStatus (saved : Bool) (d : StatusRecord) : Checked σ Continuation := do
  lift (Guest.spend 1)
  onCpu (·.readStatus? saved d)
  return .next

/-- The method that writes a status register. The host is told of the one in force, even if nothing in it
changed. -/
def writeStatus (saved imm : Bool) (d : StatusRecord) : Checked σ Continuation := do
  lift (Guest.spend 1)
  let x ← ask fun s => if imm then some d.imm else s.read? pc d.rm
  if saved then
    onCpu (·.writeSaved? x d.mask)
  else
    onCpu (·.writeStatus? x d.mask)
    lift (Guest.statusChanged bus)
  return .next

/-- Stores one value, or that and the register of a number behind it. -/
def storeOne (kind : TransferKind) (addr low : Word) (second : Nat) : Checked σ (Option Wait) := do
  match kind with
  | .storeByte => lift (Guest.store bus .byte addr low .nonSequential)
  | .storeHalf => lift (Guest.store bus .half addr low .nonSequential)
  | .storeDouble =>
    let some first ← lift (Guest.store bus .word addr low .nonSequential) | return none
    let high ← read pc second
    let some wait ← lift (Guest.store bus .word (addr + 4) high .sequential) | return none
    return some (first + wait)
  | _ => lift (Guest.store bus .word addr low .nonSequential)

/-- A load or store of one value or a pair. The base is moved only after the access went through, and
before what was loaded is written, so that a load of the base register leaves what was loaded. -/
def transfer (kind : TransferKind) (byRegister : Bool) (index : IndexMode) (up : Bool)
    (d : TransferRecord) : Checked σ Continuation := do
  let base ← read pc d.rn
  let offset ← ask fun s => if byRegister then d.offset? pc s else some d.imm
  let moved := if up then base + offset else base - offset
  let addr := if index = .post then base else moved
  -- a base of r15 is never moved
  let moveBase : Checked σ Unit := if index ≠ .pre ∧ d.rn ≠ 15 then write d.rn moved else pure ()
  let finish (wait : Wait) : Checked σ Continuation := do
    lift (Guest.spendWithMemory d.cycles (wait.setWidth 32))
    return .next
  if !kind.isLoad then
    let low ← readLate pc d.rd
    let some wait ← storeOne bus pc kind addr low (d.rd + 1) | dataAbort bus pc
    moveBase
    finish wait
  else if kind.isDouble then
    let some (low, high, wait) ← lift (Guest.loadPair bus addr) | dataAbort bus pc
    moveBase
    write d.rd low
    write (d.rd + 1) high
    finish wait
  else
    let some (x, wait) ← lift (Guest.loadOne bus kind addr) | dataAbort bus pc
    moveBase
    if d.rd = 15 then onCpu (·.loadPc? x) else write d.rd x
    finish wait

/-- A swap. The value to be stored is read only after the load, and written where it goes after the store.
-/
def swap (byte : Bool) (d : TransferRecord) : Checked σ Continuation := do
  let addr ← read pc d.rn
  let some (old, first) ← lift (Guest.loadOne bus (if byte then .loadByte else .loadWord) addr)
    | dataAbort bus pc
  let x ← read pc d.rm
  let some second ← lift (Guest.storeOne bus (if byte then .storeByte else .storeWord) addr x 0)
    | dataAbort bus pc
  write d.rd old
  lift (Guest.spendWithMemory d.cycles ((first + second).setWidth 32))
  return .next

/-- Stores the values of registers to consecutive words, answering the sum of their times. -/
def storeWords (value : Nat → CpuState → Option Word) :
    List Nat → Word → Access → Checked σ (Option Word)
  | [], _, _ => return some 0
  | n :: rest, addr, access => do
    let x ← ask (value n)
    let some wait ← lift (Guest.store bus .word addr x access) | return none
    let some total ← storeWords value rest (addr + 4) .sequential | return none
    return some (wait.setWidth 32 + total)

/-- Goes on at an address that a block transfer loaded, with the saved status if it is to be restored. -/
def finishPc (restore : Bool) (x : Word) : Checked σ Unit := do
  if restore then
    onCpu (·.restoreStatus?)
    lift (Guest.statusChanged bus)
    write 15 x
  else onCpu (·.loadPc? x)

/-- An access of a block transfer failed. The user bank is left before the exception is entered. -/
def abortBlock (leaveBank : Checked σ Unit) : Checked σ Continuation := do
  leaveBank
  dataAbort bus pc

/-- The loading half of a block transfer. The base moves first, so that a loaded base stands; and the
registers are written while the user bank is in, but r15 after it was left. -/
def loadBlock (user : Bool) (d : BlockRecord) (cycles lowest : Word)
    (moveBase leaveBank : Checked σ Unit) : Checked σ Continuation := do
  let some (values, wait) ← lift (Guest.loadWords bus d.count lowest .nonSequential)
    | abortBlock bus pc leaveBank
  moveBase
  onCpu (·.setLoaded? ((RegSet.numbers d.list).zip values))
  leaveBank
  match ((RegSet.numbers d.list).zip values).lookup 15 with
  | some x => finishPc bus user x
  | none => pure ()
  lift (Guest.spendWithMemory cycles wait)
  return .next

/-- The storing half of a block transfer. The base moves only once the user bank was left, so it is the
base of the mode. -/
def storeBlock (writeback : Bool) (d : BlockRecord) (cycles lowest moved : Word)
    (moveBase leaveBank : Checked σ Unit) : Checked σ Continuation := do
  let some wait ← storeWords bus (fun n s => s.storedValue? pc d writeback moved n)
      (RegSet.numbers d.list) lowest .nonSequential
    | abortBlock bus pc leaveBank
  leaveBank
  moveBase
  lift (Guest.spendWithMemory cycles wait)
  return .next

/-- A block transfer. It works on the user bank, by way of the system mode, unless it loads r15, when it
restores the saved status instead. -/
def blockTransfer (load pre up writeback user pcLoaded : Bool) (d : BlockRecord) :
    Checked σ Continuation := do
  let base ← read pc d.rn
  let before ← lift Guest.cpu
  let lowest := BlockMode.lowest ⟨pre, up⟩ base d.list
  let moved := BlockMode.moved ⟨pre, up⟩ base d.list
  let cycles := if pcLoaded then d.pcCycles else d.cycles
  let moveBase : Checked σ Unit := if writeback then write d.rn moved else pure ()
  -- a load of r15 with the user bit is an exception return
  let userBank := user && !(load && pcLoaded)
  let leaveBank : Checked σ Unit := if userBank then onCpu (·.setCpsr? before.cpsr) else pure ()
  if userBank then onCpu (·.setMode? .system)
  if load then loadBlock bus pc user d cycles lowest moveBase leaveBank
  else storeBlock bus pc writeback d cycles lowest moved moveBase leaveBank

/-- A software interrupt. The host may take it, and if it does not the guest's handler is entered. -/
def softwareInterrupt (d : SystemRecord) : Checked σ Continuation := do
  let handled ← lift (modifyGet fun m =>
    let (handled, cpu, host) := bus.softwareInterrupt m.host m.cpu d.comment
    (handled, { m with cpu, host }))
  match handled with
  | some cycles =>
    lift (Guest.spend (cycles.setWidth 32 + d.cycles))
    lift (modify fun m => { m with trapped := false })
  | none =>
    lift (Guest.spend d.cycles)
    let s ← lift Guest.cpu
    enter bus .softwareInterrupt (s.addressOf pc + s.width)
    lift (modify fun m => { m with trapped := true })
  return .next

/-- An undefined instruction, which ends its block. -/
def undefined (d : SystemRecord) : Checked σ Continuation := do
  lift (Guest.spend d.cycles)
  let s ← lift Guest.cpu
  enter bus .undefined (s.addressOf pc + s.width)
  return .leave .early

/-- Writes a register of the control coprocessor. -/
def controlWrite (d : SystemRecord) : Checked σ Unit := do
  let x ← readLate pc d.rd
  lift (modify fun m => { m with host := bus.controlWrite m.host m.cpu.cpu x d.register })

/-- Reads a register of the control coprocessor. A read to r15 sets the flags instead. -/
def controlRead (d : SystemRecord) : Checked σ Unit := do
  let x ← lift (modifyGet fun m =>
    let (x, host) := bus.controlRead m.host m.cpu.cpu d.register
    (x, { m with host }))
  onCpu fun s =>
    if d.rd = 15 then some (s.setFlags ((s.cpsr &&& 0x0FFFFFFF) ||| (x &&& 0xF0000000)))
    else s.write? d.rd x

/-- Executes a transfer with the control coprocessor. -/
def coproc (cycles : Word) (move : Checked σ Unit) : Checked σ Continuation := do
  lift (Guest.spend cycles)
  move
  return .next

/-- Executes a method with a record. A record of another family is no record of it. -/
def execute : Method → Data → Checked σ Continuation
  | .alu op kind set toPc, .alu d => dataProcessing bus pc op kind set toPc d
  | .mul op set, .multiply d => multiply pc op set d
  | .halfMul op, .multiply d => spending d.cycles (·.multiplyHalves? pc op d)
  | .clz, .multiply d => spending d.cycles (·.countZeros? pc d)
  | .sat op, .multiply d => spending d.cycles (·.saturate? pc op d)
  | .readStatus saved, .status d => readStatus saved d
  | .writeStatus saved imm, .status d => writeStatus bus pc saved imm d
  | .transfer kind byRegister index up, .transfer d => transfer bus pc kind byRegister index up d
  | .swap byte, .transfer d => swap bus pc byte d
  | .block load pre up writeback user pcLoaded, .block d =>
    blockTransfer bus pc load pre up writeback user pcLoaded d
  | .branch link exchange, .branch d => spending d.cycles (·.branch? link exchange d)
  | .branchExchange link, .branch d => spending d.cycles (·.branchExchange? pc link d)
  | .linkPrefix, .branch d => spending d.cycles (·.write? 14 d.target)
  | .linkSuffix exchange, .branch d => spending d.cycles (·.linkSuffix? exchange d)
  | .softwareInterrupt, .system d => softwareInterrupt bus pc d
  | .breakpoint, .system d => lift (Guest.breakpoint pc d.cycles)
  | .undefined, .system d => undefined bus pc d
  | .nop, .system d => spending d.cycles some
  | .controlWrite, .system d => coproc d.cycles (controlWrite bus pc d)
  | .controlRead, .system d => coproc d.cycles (controlRead bus d)
  | _, _ => fun _ => none

end Checked

end ArmBlocks
