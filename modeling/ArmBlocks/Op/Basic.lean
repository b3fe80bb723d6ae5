import ArmBlocks.Word.Shift

/-!
# Operations

What an instruction does once it is decoded, free of its encoding. ARM and THUMB share these
operations, and whatever a decoder can settle is settled here: a branch holds its target and not
an offset, an immediate operand is already rotated, and the shift amounts are the ones that are
shifted by. The encodings write 32 as 0 for right shifts and "rotate by 0" for a rotation through
the carry; `Operand.ofShift` and `Offset.ofShift` are where that is undone.

Registers are four-bit numbers, so no operation can name one that does not exist.
-/

set_option autoImplicit false

namespace ArmBlocks

/-- A data processing operation. -/
inductive AluOp where
  | and
  | eor
  | sub
  | rsb
  | add
  | adc
  | sbc
  | rsc
  | tst
  | teq
  | cmp
  | cmn
  | orr
  | mov
  | bic
  | mvn
  deriving DecidableEq, Repr, Inhabited

namespace AluOp

/-- The operation a four-bit field encodes. -/
def ofBits (bits : BitVec 4) : AluOp :=
  match bits with
  | 0 => .and
  | 1 => .eor
  | 2 => .sub
  | 3 => .rsb
  | 4 => .add
  | 5 => .adc
  | 6 => .sbc
  | 7 => .rsc
  | 8 => .tst
  | 9 => .teq
  | 10 => .cmp
  | 11 => .cmn
  | 12 => .orr
  | 13 => .mov
  | 14 => .bic
  | _ => .mvn

/-- Whether the operation writes its result; the comparisons only look at it. -/
def writes : AluOp → Bool
  | .tst | .teq | .cmp | .cmn => false
  | _ => true

/-- Whether the operation is logical: it takes the carry from the shifter and leaves the overflow
flag alone. -/
def isLogical : AluOp → Bool
  | .and | .eor | .tst | .teq | .orr | .mov | .bic | .mvn => true
  | _ => false

/-- Whether the operation has a first operand. -/
def usesFirst : AluOp → Bool
  | .mov | .mvn => false
  | _ => true

/-- Whether the operation adds the carry. -/
def usesCarry : AluOp → Bool
  | .adc | .sbc | .rsc => true
  | _ => false

end AluOp

/-- The second operand of a data processing operation. -/
inductive Operand where
  /-- A rotated immediate; it brings a carry along if the rotation was not zero. -/
  | imm (value : Word) (carry : Option Bool)
  /-- A register shifted by a fixed amount. -/
  | shifted (rm : Reg) (kind : ShiftKind) (amount : Nat)
  /-- A register rotated by one through the carry. -/
  | rrx (rm : Reg)
  /-- A register shifted by another one. -/
  | shiftedBy (rm : Reg) (kind : ShiftKind) (rs : Reg)
  deriving DecidableEq, Repr

namespace Operand

/-- A register as it is. -/
def ofReg (rm : Reg) : Operand := .shifted rm .lsl 0

/-- An immediate that was not rotated. -/
def ofImm (value : Word) : Operand := .imm value none

/-- The operand that a fixed shift with the encoded amount stands for. -/
def ofShift (rm : Reg) (kind : ShiftKind) (amount : BitVec 5) : Operand :=
  match kind with
  | .ror => if amount = 0 then .rrx rm else .shifted rm .ror amount.toNat
  | .lsl => .shifted rm .lsl amount.toNat
  | kind => .shifted rm kind (if amount = 0 then 32 else amount.toNat)

/-- Whether the operand is shifted by a register. -/
def isShiftedBy : Operand → Bool
  | .shiftedBy .. => true
  | _ => false

end Operand

/-- A multiplication. -/
inductive MulOp where
  | mul
  | mla
  | umull
  | umlal
  | smull
  | smlal
  deriving DecidableEq, Repr, Inhabited

namespace MulOp

/-- Whether the product has 64 bits. -/
def isLong : MulOp → Bool
  | .mul | .mla => false
  | _ => true

/-- Whether something is added to the product. -/
def accumulates : MulOp → Bool
  | .mla | .umlal | .smlal => true
  | _ => false

end MulOp

/-- A multiplication of halfwords. -/
inductive HalfMulOp where
  /-- Half by half, and a word added. -/
  | smla
  /-- Word by half, and a word added to the upper part of the product. -/
  | smlaw
  /-- Word by half, the upper part of the product. -/
  | smulw
  /-- Half by half, and a doubleword added. -/
  | smlal
  /-- Half by half. -/
  | smul
  deriving DecidableEq, Repr, Inhabited

/-- A saturating sum. -/
inductive SatOp where
  | qadd
  | qsub
  | qdadd
  | qdsub
  deriving DecidableEq, Repr, Inhabited

namespace SatOp

/-- The operation a two-bit field encodes. -/
def ofBits (bits : BitVec 2) : SatOp :=
  match bits with
  | 0 => .qadd
  | 1 => .qsub
  | 2 => .qdadd
  | _ => .qdsub

/-- Whether the second operand is doubled first. -/
def doubles : SatOp → Bool
  | .qdadd | .qdsub => true
  | _ => false

/-- Whether the operation subtracts. -/
def subtracts : SatOp → Bool
  | .qsub | .qdsub => true
  | _ => false

end SatOp

/-- What is written to a status register. -/
inductive StatusSource where
  | imm (value : Word)
  | reg (rm : Reg)
  deriving DecidableEq, Repr

/-- What a single data transfer moves, and which way. -/
inductive TransferKind where
  | loadWord
  | loadByte
  | storeWord
  | storeByte
  | loadHalf
  | storeHalf
  | loadSignedByte
  | loadSignedHalf
  | loadDouble
  | storeDouble
  deriving DecidableEq, Repr, Inhabited

namespace TransferKind

/-- Whether the transfer reads memory. -/
def isLoad : TransferKind → Bool
  | .storeWord | .storeByte | .storeHalf | .storeDouble => false
  | _ => true

/-- Whether the transfer moves two words. -/
def isDouble : TransferKind → Bool
  | .loadDouble | .storeDouble => true
  | _ => false

end TransferKind

/-- The offset of a single data transfer. -/
inductive Offset where
  | imm (value : Word)
  /-- A register shifted by a fixed amount. -/
  | shifted (rm : Reg) (kind : ShiftKind) (amount : Nat)
  /-- A register rotated by one through the carry. -/
  | rrx (rm : Reg)
  deriving DecidableEq, Repr

namespace Offset

/-- A register as it is. -/
def ofReg (rm : Reg) : Offset := .shifted rm .lsl 0

/-- The offset that a fixed shift with the encoded amount stands for. -/
def ofShift (rm : Reg) (kind : ShiftKind) (amount : BitVec 5) : Offset :=
  match kind with
  | .ror => if amount = 0 then .rrx rm else .shifted rm .ror amount.toNat
  | .lsl => .shifted rm .lsl amount.toNat
  | kind => .shifted rm kind (if amount = 0 then 32 else amount.toNat)

end Offset

/-- When the offset of a single data transfer is added, and whether the sum is kept. -/
inductive IndexMode where
  /-- The access is at the base, which is moved afterwards. -/
  | post
  /-- The access is at the moved base, which is then forgotten. -/
  | pre
  /-- The access is at the moved base, which is kept. -/
  | preUpdate
  deriving DecidableEq, Repr, Inhabited

/-- A decoded operation. -/
inductive Op where
  /-- Data processing. -/
  | alu (op : AluOp) (s : Bool) (rd rn : Reg) (operand : Operand)
  /-- Multiplication; the long forms have the high word in `rd` and the low word in `rn`. -/
  | mul (op : MulOp) (s : Bool) (rd rn rs rm : Reg)
  | halfMul (op : HalfMulOp) (rd rn rs rm : Reg) (xTop yTop : Bool)
  /-- Counts leading zeros. -/
  | clz (rd rm : Reg)
  | sat (op : SatOp) (rd rn rm : Reg)
  /-- Reads a status register. -/
  | readStatus (rd : Reg) (saved : Bool)
  /-- Writes the fields of a status register; bit `i` of `fields` stands for byte `i`. -/
  | writeStatus (saved : Bool) (fields : BitVec 4) (source : StatusSource)
  /-- Moves one value between a register (or a pair) and memory. -/
  | transfer (kind : TransferKind) (rd rn : Reg) (offset : Offset) (index : IndexMode) (up : Bool)
  /-- Moves a list of registers. `cycles` and `pcCycles` are the costs without and with the
  program counter in the list. -/
  | block (load pre up writeback user : Bool) (rn : Reg) (list : BitVec 16) (cycles pcCycles : Nat)
  /-- Exchanges a register with memory. -/
  | swap (byte : Bool) (rd rn rm : Reg)
  /-- Branches to a fixed target; `exchange` continues in THUMB. -/
  | branch (link exchange : Bool) (target : Word)
  /-- Branches to a register, which also names the instruction set. -/
  | branchExchange (link : Bool) (rm : Reg)
  /-- The first half of a THUMB long branch. -/
  | linkPrefix (value : Word)
  /-- The second half of a THUMB long branch; `exchange` continues in ARM. -/
  | linkSuffix (offset : Word) (exchange : Bool)
  /-- Moves a register from or to a coprocessor. -/
  | coproc (load : Bool) (cp : BitVec 4) (op1 : BitVec 3) (cn cm : BitVec 4) (op2 : BitVec 3)
      (rd : Reg)
  /-- Software interrupt. -/
  | softwareInterrupt (comment : Word)
  | breakpoint
  | undefined
  /-- Takes time and does nothing else. -/
  | nop (cycles : Nat)
  deriving DecidableEq, Repr

end ArmBlocks
