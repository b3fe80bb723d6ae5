import ArmBlocks.Cpu.Model
import ArmBlocks.Cpu.Mode
import ArmBlocks.Cpu.Flag
import ArmBlocks.Cpu.Condition

/-!
# The state of one processor

Sixteen registers are visible at a time. Some of them belong to the current mode: r13 and r14 in
every mode (User and System share), r8 to r12 only in Fiq. The visible file always holds the
current mode's values, and the banks hold everybody's values as of the last mode switch, so
`setCpsr` is the one place where the two are brought together: it stores what is visible into the
bank of the mode that ends and loads the bank of the mode that begins.

Two things follow and are relied upon elsewhere.

* Between switches the banks of the *current* mode are stale. Whoever wants the current stack
  pointer reads r13, and only whoever wants another mode's value looks at a bank.
* A write to the status register that keeps the mode bits needs no switch
  (`setFlags`); storing and loading the same bank would change nothing but the stale copy.

A pattern of mode bits without a mode counts as User (`mode`), so every status register value has
a bank to switch to.
-/

set_option autoImplicit false

namespace ArmBlocks

/-- The registers of all modes that are not visible. -/
structure Banks where
  /-- r8 to r12 of every mode but Fiq. -/
  high : Vector Word 5
  /-- r8 to r12 of Fiq. -/
  highFiq : Vector Word 5
  /-- r13 by bank. -/
  sp : Vector Word 6
  /-- r14 by bank. -/
  lr : Vector Word 6
  /-- The saved status register by bank. -/
  saved : Vector Word 6
  deriving DecidableEq, Inhabited

namespace Banks

/-- Banks that hold nothing but zeros. -/
def zero : Banks :=
  { high := .replicate 5 0
    highFiq := .replicate 5 0
    sp := .replicate 6 0
    lr := .replicate 6 0
    saved := .replicate 6 0 }

end Banks

/-- The architectural state of one processor. -/
structure CpuState where
  /-- The visible registers. While a block runs, r15 is only up to date where an instruction
  needs it; after an instruction wrote it, it holds the target. -/
  registers : Vector Word 16
  banks : Banks
  /-- The current status register. -/
  cpsr : Word
  /-- Address of the next instruction to execute. -/
  next : Word
  /-- Set once the processor tried to execute memory that is not there. -/
  halted : Bool
  cpu : Cpu
  deriving DecidableEq, Inhabited

namespace CpuState

/-- The state after power on: Supervisor mode, both interrupts off, everything else zero. -/
def new (cpu : Cpu) : CpuState :=
  { registers := .replicate 16 0
    banks := .zero
    cpsr := 0xD3
    next := 0
    halted := false
    cpu }

/-- A visible register. -/
def reg (s : CpuState) (r : Reg) : Word := s.registers[r.toNat]

/-- The state with a visible register replaced, as it is and without aligning r15. -/
def setReg (s : CpuState) (r : Reg) (x : Word) : CpuState :=
  { s with registers := s.registers.set r.toNat x }

/-- Whether a status flag is set. -/
def flag (s : CpuState) (f : Flag) : Bool := Bits.test s.cpsr f.bit

/-- The state with a status flag set or cleared. -/
def setFlag (s : CpuState) (f : Flag) (on : Bool) : CpuState :=
  { s with cpsr := Bits.put s.cpsr f.bit on }

/-- The current mode; mode bits that name none count as User. -/
def mode (s : CpuState) : Mode := (Mode.ofBits? s.cpsr).getD .user

/-! ## Banks -/

/-- The stack pointer in the current mode's bank. -/
def bankedSp (s : CpuState) : Word := s.banks.sp[s.mode.bank]

/-- The link register in the current mode's bank. -/
def bankedLr (s : CpuState) : Word := s.banks.lr[s.mode.bank]

/-- The saved status register in the current mode's bank. -/
def saved (s : CpuState) : Word := s.banks.saved[s.mode.bank]

/-- The state with the saved status register of the current mode's bank replaced. -/
def setSaved (s : CpuState) (x : Word) : CpuState :=
  { s with banks := { s.banks with saved := s.banks.saved.set s.mode.bank x } }

/-- The visible r8 to r12. -/
def visibleHigh (s : CpuState) : Vector Word 5 :=
  #v[s.reg 8, s.reg 9, s.reg 10, s.reg 11, s.reg 12]

/-- The banks with the visible registers stored where the mode keeps them. -/
def storeBank (s : CpuState) (m : Mode) : Banks :=
  let banks :=
    if m = .fiq then { s.banks with highFiq := s.visibleHigh }
    else { s.banks with high := s.visibleHigh }
  { banks with
    sp := banks.sp.set m.bank (s.reg .sp)
    lr := banks.lr.set m.bank (s.reg .lr) }

/-- The state with the registers that the mode keeps in its banks made visible. -/
def loadBank (s : CpuState) (m : Mode) : CpuState :=
  let high := if m = .fiq then s.banks.highFiq else s.banks.high
  let registers := s.registers
    |>.set 8 high[0] |>.set 9 high[1] |>.set 10 high[2] |>.set 11 high[3] |>.set 12 high[4]
    |>.set 13 s.banks.sp[m.bank] |>.set 14 s.banks.lr[m.bank]
  { s with registers }

/-- Replaces the status register and switches the banks with it. -/
def setCpsr (s : CpuState) (x : Word) : CpuState :=
  let stored := { s with banks := s.storeBank s.mode, cpsr := x }
  stored.loadBank stored.mode

/-- Replaces the status register, and answers the mode that was active before. -/
def exchangeCpsr (s : CpuState) (x : Word) : Mode × CpuState := (s.mode, s.setCpsr x)

/-- Replaces the status register by a value with the same mode bits, so no bank has to move. -/
def setFlags (s : CpuState) (x : Word) : CpuState := { s with cpsr := x }

/-- Replaces the mode bits alone. -/
def setMode (s : CpuState) (m : Mode) : CpuState :=
  s.setCpsr ((s.cpsr &&& ~~~0x1F#32) ||| m.bits)

/-- Replaces the mode bits alone, and answers the mode that was active before. -/
def exchangeMode (s : CpuState) (m : Mode) : Mode × CpuState :=
  s.exchangeCpsr ((s.cpsr &&& ~~~0x1F#32) ||| m.bits)

/-! ## What the instructions ask -/

/-- Whether a condition holds now. -/
def satisfies (s : CpuState) (cond : Condition) : Bool :=
  cond.holds (s.flag .neg) (s.flag .zero) (s.flag .carry) (s.flag .overflow)

/-- Whether the processor executes THUMB code. -/
def thumb (s : CpuState) : Bool := s.flag .thumb

/-- Bytes in an instruction of the current instruction set. -/
def width (s : CpuState) : Word := if s.thumb then 2 else 4

/-- Makes r15 show what the next instruction would read from it, two instructions ahead. -/
def sync (s : CpuState) : CpuState := s.setReg .pc (s.next + s.width * 2)

/-! ## What the operations do to a register, and what they leave alone -/

@[simp] theorem reg_setReg (s : CpuState) (r other : Reg) (x : Word) :
    (s.setReg r x).reg other = if r = other then x else s.reg other := by
  simp [reg, setReg, Vector.getElem_set, BitVec.toNat_inj]

@[simp] theorem cpsr_setReg (s : CpuState) (r : Reg) (x : Word) : (s.setReg r x).cpsr = s.cpsr :=
  rfl

@[simp] theorem banks_setReg (s : CpuState) (r : Reg) (x : Word) :
    (s.setReg r x).banks = s.banks := rfl

@[simp] theorem next_setReg (s : CpuState) (r : Reg) (x : Word) : (s.setReg r x).next = s.next :=
  rfl

theorem flag_setFlag (s : CpuState) (f g : Flag) (on : Bool) :
    (s.setFlag f on).flag g = if f = g then on else s.flag g := by
  simp [flag, setFlag, Bits.test_put _ _ _ f.bit_lt, Flag.bit_inj]

@[simp] theorem reg_setFlag (s : CpuState) (f : Flag) (on : Bool) (r : Reg) :
    (s.setFlag f on).reg r = s.reg r := rfl

@[simp] theorem reg_setSaved (s : CpuState) (x : Word) (r : Reg) :
    (s.setSaved x).reg r = s.reg r := rfl

@[simp] theorem cpsr_setCpsr (s : CpuState) (x : Word) : (s.setCpsr x).cpsr = x := rfl

end CpuState

end ArmBlocks
