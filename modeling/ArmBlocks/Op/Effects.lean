import ArmBlocks.Op.Basic
import ArmBlocks.Cpu.Flag

/-!
# What an operation touches

The analysis of a run, and the nodes a block needs around an instruction, are decided from five
facts about an operation: the registers it reads and writes, the condition flags it reads and
writes, and whether it may leave the block. They are stated once, here, by cases on the operation.

Where the truth depends on the state, the answer errs to one side: *too many* flags read, *no
more* flags written than are surely written, and *may* leave the block. A logical operation with a
shift by register, for instance, both reads and writes the carry, because it leaves it alone
exactly when the amount turns out to be zero.
-/

set_option autoImplicit false

namespace ArmBlocks

/-- A set of registers: bit `i` stands for register `i`. -/
abbrev RegSet := BitVec 16

namespace RegSet

/-- The set of one register. -/
def single (r : Reg) : RegSet := 1#16 <<< r.toNat

/-- The set of one register, or none. -/
def singleIf (b : Bool) (r : Reg) : RegSet := if b then single r else 0

/-- Whether a register is in the set. -/
def has (set : RegSet) (r : Reg) : Bool := Bits.test set r.toNat

end RegSet

open RegSet (single singleIf)

/-- The registers an operand is computed from. -/
def Operand.registers : Operand → RegSet
  | .imm .. => 0
  | .shifted rm .. => single rm
  | .rrx rm => single rm
  | .shiftedBy rm _ rs => single rm ||| single rs

/-- The registers an offset is computed from. -/
def Offset.registers : Offset → RegSet
  | .imm _ => 0
  | .shifted rm .. => single rm
  | .rrx rm => single rm

namespace Op

/-- The registers the operation reads. -/
def registersRead : Op → RegSet
  | .alu op _ _ rn operand => operand.registers ||| singleIf op.usesFirst rn
  | .mul op _ rd rn rs rm =>
    single rs ||| single rm ||| singleIf op.accumulates rn |||
      singleIf (op.accumulates && op.isLong) rd
  | .halfMul op rd rn rs rm _ _ =>
    match op with
    | .smla | .smlaw => single rn ||| single rs ||| single rm
    | .smlal => single rd ||| single rn ||| single rs ||| single rm
    | .smulw | .smul => single rs ||| single rm
  | .clz _ rm => single rm
  | .sat _ _ rn rm => single rn ||| single rm
  | .readStatus .. => 0
  | .writeStatus _ _ (.reg rm) => single rm
  | .writeStatus _ _ (.imm _) => 0
  | .transfer kind rd rn offset _ _ =>
    single rn ||| offset.registers ||| singleIf (!kind.isLoad) rd |||
      singleIf (!kind.isLoad && kind.isDouble) (rd + 1)
  | .block load _ _ _ _ rn list _ _ => if load then single rn else single rn ||| list
  | .swap _ _ rn rm => single rn ||| single rm
  | .branch .. => 0
  | .branchExchange _ rm => single rm
  | .linkPrefix _ => 0
  | .linkSuffix .. => single .lr
  | .coproc load _ _ _ _ _ rd => singleIf (!load) rd
  | .softwareInterrupt _ | .breakpoint | .undefined | .nop _ => 0

/-- The registers the operation writes. -/
def registersWritten : Op → RegSet
  | .alu op _ rd _ _ => singleIf op.writes rd
  | .mul op _ rd rn _ _ => single rd ||| singleIf op.isLong rn
  | .halfMul op rd rn _ _ _ _ => single rd ||| singleIf (op == .smlal) rn
  | .clz rd _ => single rd
  | .sat _ rd _ _ => single rd
  | .readStatus rd _ => single rd
  | .writeStatus .. => 0
  | .transfer kind rd rn _ index _ =>
    singleIf kind.isLoad rd ||| singleIf (kind.isLoad && kind.isDouble) (rd + 1) |||
      singleIf (index != .pre && rn != .pc) rn
  | .block load _ _ writeback _ rn list _ _ =>
    (if load then list else 0) ||| singleIf writeback rn
  | .swap _ rd _ _ => single rd
  | .branch link _ _ => single .pc ||| singleIf link .lr
  | .branchExchange link _ => single .pc ||| singleIf link .lr
  | .linkPrefix _ => single .lr
  | .linkSuffix .. => single .pc ||| single .lr
  | .coproc load _ _ _ _ _ rd => singleIf (load && rd != .pc) rd
  | .softwareInterrupt _ => single .pc
  | .breakpoint | .undefined | .nop _ => 0

/-- The condition flags the operation reads. -/
def flagsRead : Op → FlagSet
  | .alu op s rd _ operand =>
    let throughCarry := match operand with
      | .rrx _ => true
      | _ => false
    let keepsCarry := s && !(rd == .pc && op.writes) && op.isLogical && operand.isShiftedBy
    if op.usesCarry || throughCarry || keepsCarry then .carry else .empty
  | .readStatus .. => .all
  | _ => .empty

/-- The condition flags the operation writes. With the program counter as destination a
flag-setting operation restores the status register instead, which is a matter of leaving the
block and not counted here. -/
def flagsWritten : Op → FlagSet
  | .alu op s rd _ operand =>
    if !s || (rd == .pc && op.writes) then .empty
    else if op.isLogical then
      match operand with
      | .imm _ none => .nz
      | .shifted _ _ 0 => .nz
      | _ => .nzc
    else .all
  | .mul _ s _ _ _ _ => if s then .nz else .empty
  | .coproc load _ _ _ _ _ rd => if load && rd == .pc then .all else .empty
  | _ => .empty

/-- Whether executing the operation may leave the block, or show the status register to somebody:
writes to the program counter, accesses that may abort, traps and status accesses. -/
def mayExit (op : Op) : Bool :=
  (match op with
    | .transfer .. | .block .. | .swap .. | .softwareInterrupt .. | .undefined
    | .readStatus .. | .writeStatus .. | .coproc .. => true
    | _ => false) || op.registersWritten.has .pc

end Op

end ArmBlocks
