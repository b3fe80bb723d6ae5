import ArmBlocks.Machine.Alu
import ArmBlocks.Machine.Multiply
import ArmBlocks.Machine.Status
import ArmBlocks.Machine.Transfer
import ArmBlocks.Machine.BlockTransfer
import ArmBlocks.Machine.Branch
import ArmBlocks.Machine.Trap
import ArmBlocks.Instruction

/-!
# Actions: instructions ready to run

Compiling an instruction settles what does not depend on the processor: its operation, the cycles
it takes apart from memory and data, and the address a call returns to. What remains is an
`Action`, and `Action.execute` is the semantics of the whole instruction set, one arm per
operation.

The address and the condition are not part of it. The program counter an action reads is passed
in, and whether it is reached at all is decided around it.
-/

set_option autoImplicit false

namespace ArmBlocks

/-- An instruction ready to run. -/
structure Action where
  op : Op
  /-- Cycles apart from memory accesses and what depends on the data. -/
  cost : Word
  /-- The address a call returns to, with the lowest bit set for THUMB code. -/
  link : Word
  deriving DecidableEq, Repr

namespace TransferKind

/-- The cycles of a single data transfer beside its accesses. -/
def cost (kind : TransferKind) (rd : Reg) : Nat :=
  match kind with
  | .loadWord => if rd = .pc then 5 else 3
  | .storeWord | .storeByte | .storeHalf => 2
  | _ => 3

end TransferKind

namespace MulOp

/-- The cycles of a multiplication beside the time of the multiplier array. -/
def cost : MulOp → Nat
  | .mul => 1
  | .mla | .umull | .smull => 2
  | .umlal | .smlal => 3

end MulOp

namespace Op

/-- The cycles of an operation, apart from memory accesses and what depends on the data. -/
def cost (thumb : Bool) : Op → Nat
  | .alu op _ rd _ operand =>
    (if operand.isShiftedBy then 2 else 1) + (if rd == .pc && op.writes then 2 else 0)
  | .mul op _ _ _ _ _ => op.cost
  | .halfMul .. | .clz .. | .sat .. => 2
  | .readStatus .. | .writeStatus .. => 1
  | .transfer kind rd _ _ _ _ => kind.cost rd
  | .block _ _ _ _ _ _ list cycles pcCycles => if RegSet.has list .pc then pcCycles else cycles
  | .swap .. => 4
  | .branch .. => 3
  | .branchExchange link _ => if link && thumb then 4 else 3
  | .linkPrefix _ => 1
  | .linkSuffix .. => 4
  | .coproc load cp _ _ _ _ _ => if load && cp == controlCoprocessor then 4 else 2
  | .softwareInterrupt _ => 3
  | .breakpoint => if thumb then 1 else 4
  | .undefined => 1
  | .nop cycles => cycles

end Op

namespace Instruction

/-- The address a call returns to. -/
def link (i : Instruction) : Word := if i.thumb then i.next ||| 1 else i.next

/-- The instruction, ready to run. -/
def action (i : Instruction) : Action :=
  { op := i.op, cost := BitVec.ofNat 32 (i.op.cost i.thumb), link := i.link }

end Instruction

namespace Action

variable {σ : Type}

/-- Executes an action that reads its program counter as `pc`. -/
def execute (a : Action) (bus : Bus σ) (pc : Word) : Guest σ Continuation := do
  let onCpu (f : CpuState → CpuState) : Guest σ Continuation := do
    Guest.modifyCpu f
    Guest.spend a.cost
    return .next
  match a.op with
  | .alu op s rd rn operand =>
    Guest.spend a.cost
    Guest.alu bus pc op s rd rn operand
  | .mul op s rd rn rs rm =>
    let y := (← Guest.cpu).read pc rs
    Guest.spend (BitVec.ofNat 32 (Multiplier.cycles y op.isSigned))
    onCpu (·.multiply pc op s rd rn rs rm)
  | .halfMul op rd rn rs rm xTop yTop => onCpu (·.multiplyHalves pc op rd rn rs rm xTop yTop)
  | .clz rd rm => onCpu (·.countZeros pc rd rm)
  | .sat op rd rn rm => onCpu (·.saturate pc op rd rn rm)
  | .readStatus rd saved =>
    Guest.spend a.cost
    Guest.readStatus rd saved
  | .writeStatus saved fields source =>
    Guest.spend a.cost
    Guest.writeStatus bus pc saved fields source
  | .transfer kind rd rn offset index up => Guest.transfer bus pc a.cost kind rd rn offset index up
  | .block load pre up writeback user rn list _ _ =>
    Guest.blockTransfer bus pc a.cost load ⟨pre, up⟩ writeback user rn list
  | .swap byte rd rn rm => Guest.swap bus pc a.cost byte rd rn rm
  | .branch links exchange target => onCpu (·.branch a.link links exchange target)
  | .branchExchange links rm => onCpu (·.branchExchange pc a.link links rm)
  | .linkPrefix value => onCpu (·.linkPrefix value)
  | .linkSuffix offset exchange => onCpu (·.linkSuffix a.link offset exchange)
  | .coproc load cp op1 cn cm op2 rd =>
    Guest.spend a.cost
    Guest.coproc bus pc load cp ⟨cn, cm, op1, op2⟩ rd
  | .softwareInterrupt comment => Guest.softwareInterrupt bus pc a.cost comment
  | .breakpoint => Guest.breakpoint pc a.cost
  | .undefined => Guest.undefined bus pc a.cost
  | .nop _ => onCpu id

end Action

end ArmBlocks
