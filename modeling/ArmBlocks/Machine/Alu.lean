import ArmBlocks.Machine.Basic
import ArmBlocks.Op.Basic

/-!
# Data processing

The result and the flags are a function of the processor alone (`CpuState.process`). The host only
comes in where the program counter is the destination: then the S bit does not set flags but
restores the status register that the mode saved, and the host is told.
-/

set_option autoImplicit false

namespace ArmBlocks

/-- The value of a second operand, and the carry that leaves the shifter. Of the register that
gives an amount only the lowest byte counts. -/
def Operand.value (operand : Operand) (s : CpuState) (pc : Word) : Word × Bool :=
  let carry := s.flag .carry
  match operand with
  | .imm value out => (value, out.getD carry)
  | .shifted rm kind amount => kind.apply (s.read pc rm) amount carry
  | .rrx rm => Shift.rrx (s.read pc rm) carry
  | .shiftedBy rm kind rs =>
    kind.apply (s.readLate pc rm) ((s.read pc rs) &&& 0xFF).toNat carry

/-- The first operand of a data processing operation. -/
def Operand.partner (operand : Operand) (s : CpuState) (pc : Word) (rn : Reg) : Word :=
  if operand.isShiftedBy then s.readLate pc rn else s.read pc rn

namespace CpuState

/-- The result of an operation on two values, and the processor with the flags recorded if `set`
asks for it. `carry` is what a logical operation records as the carry. -/
def compute (s : CpuState) (op : AluOp) (set : Bool) (a b : Word) (carry : Bool) :
    Word × CpuState :=
  let logical (x : Word) : Word × CpuState := (x, if set then s.setNzc x carry else s)
  match op with
  | .and | .tst => logical (a &&& b)
  | .eor | .teq => logical (a ^^^ b)
  | .sub | .cmp => s.sub set a b
  | .rsb => s.sub set b a
  | .add | .cmn => s.add set a b
  | .adc => s.addWithCarry set a b s.carry
  | .sbc => s.subWithCarry set a b s.carry
  | .rsc => s.subWithCarry set b a s.carry
  | .orr => logical (a ||| b)
  | .mov => logical b
  | .bic => logical (a &&& ~~~b)
  | .mvn => logical (~~~b)

/-- The result of a data processing operation and the processor with its flags recorded. -/
def process (s : CpuState) (pc : Word) (op : AluOp) (set : Bool) (rn : Reg) (operand : Operand) :
    Word × CpuState :=
  let (b, carry) := operand.value s pc
  s.compute op set (operand.partner s pc rn) b carry

/-- Restores the status register that the mode saved, if it saves one. -/
def restoreStatus (s : CpuState) : CpuState :=
  if s.mode.hasSaved then s.setCpsr s.saved else s

end CpuState

namespace Guest

variable {σ : Type}

/-- Executes a data processing operation. -/
def alu (bus : Bus σ) (pc : Word) (op : AluOp) (s : Bool) (rd rn : Reg) (operand : Operand) :
    Guest σ Continuation := do
  let toPc := rd == .pc && op.writes
  let (result, after) := (← cpu).process pc op (s && !toPc) rn operand
  modifyCpu fun _ => after
  if op.writes then
    if toPc && s && after.mode.hasSaved then
      modifyCpu (·.restoreStatus)
      statusChanged bus
    write rd result
  return .next

end Guest

end ArmBlocks
