import ArmBlocks.Decode.Pattern
import ArmBlocks.Instruction

/-!
# Decoding ARM instructions

An ARM instruction is told apart by twelve of its bits, 27 to 20 and 7 to 4. The table `rows` maps
them to a form; `ArmForm.op` reads the fields of a form and yields its operation.

The condition stands in the top four bits. In version 4 the pattern for "never" is a condition
like the others, and an instruction that has it never executes. Version 5 uses that pattern for
instructions of another kind (`unconditional`), which execute always; so for version 5 the
condition of what is decoded there is `always`.
-/

set_option autoImplicit false

namespace ArmBlocks

/-- The forms of ARM instructions. -/
inductive ArmForm where
  | branch
  | branchExchange (link : Bool)
  | breakpoint
  | softwareInterrupt
  | clz
  | sat
  | halfMul
  | mul (op : MulOp)
  | swap
  | half
  | signedByte
  | signedHalf
  | double
  | readStatus
  | writeStatusReg
  | writeStatusImm
  | aluShifted
  | aluShiftedBy
  | aluImm
  | transferImm
  | transferReg
  | block
  | coproc
  | undefined
  deriving DecidableEq, Repr

namespace Arm

/-- The bits that tell the forms apart: 27 to 20, then 7 to 4. -/
def key (raw : Word) : BitVec 12 := raw.extractLsb' 20 8 ++ raw.extractLsb' 4 4

/-- The forms by key, special encodings before general ones. -/
def rows : List (Row 12 ArmForm) :=
  [ row 0b1110_0000_0000 0b1010_0000_0000 .branch
  , row 0b1111_1111_1111 0b0001_0010_0001 (.branchExchange false)
  , row5 0b1111_1111_1111 0b0001_0010_0011 (.branchExchange true)
  , row5 0b1111_1111_1111 0b0001_0010_0111 .breakpoint
  , row 0b1111_0000_0000 0b1111_0000_0000 .softwareInterrupt
  , row5 0b1111_1111_1111 0b0001_0110_0001 .clz
  , row5 0b1111_1001_1111 0b0001_0000_0101 .sat
  , row5 0b1111_1001_1001 0b0001_0000_1000 .halfMul
  , row 0b1111_1110_1111 0b0000_0000_1001 (.mul .mul)
  , row 0b1111_1110_1111 0b0000_0010_1001 (.mul .mla)
  , row 0b1111_1110_1111 0b0000_1000_1001 (.mul .umull)
  , row 0b1111_1110_1111 0b0000_1010_1001 (.mul .umlal)
  , row 0b1111_1110_1111 0b0000_1100_1001 (.mul .smull)
  , row 0b1111_1110_1111 0b0000_1110_1001 (.mul .smlal)
  , row 0b1111_1011_1111 0b0001_0000_1001 .swap
  , row 0b1110_0000_1111 0b0000_0000_1011 .half
  , row 0b1110_0001_1111 0b0000_0001_1101 .signedByte
  , row 0b1110_0001_1111 0b0000_0001_1111 .signedHalf
  , row5 0b1110_0001_1101 0b0000_0000_1101 .double
  , row 0b1111_1011_1111 0b0001_0000_0000 .readStatus
  , row 0b1111_1011_1111 0b0001_0010_0000 .writeStatusReg
  , row 0b1111_1011_0000 0b0011_0010_0000 .writeStatusImm
  -- What is left of the space around the status transfers has no meaning.
  , row 0b1111_1001_0000 0b0001_0000_0000 .undefined
  , row 0b1111_1011_0000 0b0011_0000_0000 .undefined
  , row 0b1110_0000_0001 0b0000_0000_0000 .aluShifted
  , row 0b1110_0000_1001 0b0000_0000_0001 .aluShiftedBy
  , row 0b1110_0000_0000 0b0010_0000_0000 .aluImm
  , row 0b1110_0000_0000 0b0100_0000_0000 .transferImm
  , row 0b1110_0000_0001 0b0110_0000_0000 .transferReg
  , row 0b1110_0000_0000 0b1000_0000_0000 .block
  , row 0b1111_0000_0001 0b1110_0000_0001 .coproc ]

/-- The form of an instruction; what no row accepts is undefined. -/
def form (v5 : Bool) (raw : Word) : ArmForm := Row.classify rows .undefined v5 (key raw)

/-! ## Fields -/

/-- The four-bit field from a bit up. -/
def field (raw : Word) (start : Nat) : BitVec 4 := raw.extractLsb' start 4

/-- The kind of a fixed shift. -/
def shiftKind (raw : Word) : ShiftKind := .ofBits (raw.extractLsb' 5 2)

/-- The encoded amount of a fixed shift. -/
def shiftAmount (raw : Word) : BitVec 5 := raw.extractLsb' 7 5

/-- The immediate byte, rotated right by twice its four-bit rotation. -/
def rotatedImm (raw : Word) : Word := (raw &&& 0xFF).rotateRight ((field raw 8).toNat * 2)

/-- The immediate byte that is split into two halves. -/
def splitImm (raw : Word) : Word := (raw &&& 0xF) ||| ((raw >>> 4) &&& 0xF0)

/-- A data processing operation with the given second operand. -/
def alu (raw : Word) (operand : Operand) : Op :=
  .alu (.ofBits (field raw 21)) (raw.getLsbD 20) (field raw 12) (field raw 16) operand

/-- When a transfer moves its base. -/
def indexMode (raw : Word) : IndexMode :=
  match raw.getLsbD 24, raw.getLsbD 21 with
  | false, _ => .post
  | true, false => .pre
  | true, true => .preUpdate

/-- A single data transfer. -/
def transfer (raw : Word) (kind : TransferKind) (offset : Offset) : Op :=
  .transfer kind (field raw 12) (field raw 16) offset (indexMode raw) (raw.getLsbD 23)

/-- Which of the four word and byte transfers is meant. -/
def wordOrByte (raw : Word) : TransferKind :=
  match raw.getLsbD 20, raw.getLsbD 22 with
  | true, false => .loadWord
  | true, true => .loadByte
  | false, false => .storeWord
  | false, true => .storeByte

/-- The offset of the halfword, signed and doubleword transfers. -/
def smallOffset (raw : Word) : Offset :=
  if raw.getLsbD 22 then .imm (splitImm raw) else .ofReg (field raw 0)

/-- The target of a branch: its signed word offset from the pipeline's program counter. -/
def branchTarget (raw addr : Word) : Word := addr + 8 + (Bits.signed24 raw <<< 2)

end Arm

open Arm in
/-- The operation of an instruction of the given form. -/
def ArmForm.op (form : ArmForm) (raw addr : Word) : Op :=
  match form with
  | .branch => .branch (raw.getLsbD 24) false (branchTarget raw addr)
  | .branchExchange link =>
    if raw.extractLsb' 8 12 = 0xFFF then .branchExchange link (field raw 0) else .undefined
  | .breakpoint => .breakpoint
  | .softwareInterrupt => .softwareInterrupt (Bits.slice raw 0 24)
  | .clz => .clz (field raw 12) (field raw 0)
  | .sat => .sat (.ofBits (raw.extractLsb' 21 2)) (field raw 12) (field raw 16) (field raw 0)
  | .halfMul =>
    let op : HalfMulOp := match raw.extractLsb' 21 2 with
      | 0 => .smla
      | 1 => if raw.getLsbD 5 then .smulw else .smlaw
      | 2 => .smlal
      | _ => .smul
    .halfMul op (field raw 16) (field raw 12) (field raw 8) (field raw 0)
      (raw.getLsbD 5) (raw.getLsbD 6)
  | .mul op =>
    .mul op (raw.getLsbD 20) (field raw 16) (field raw 12) (field raw 8) (field raw 0)
  | .swap => .swap (raw.getLsbD 22) (field raw 12) (field raw 16) (field raw 0)
  | .half => transfer raw (if raw.getLsbD 20 then .loadHalf else .storeHalf) (smallOffset raw)
  | .signedByte => transfer raw .loadSignedByte (smallOffset raw)
  | .signedHalf => transfer raw .loadSignedHalf (smallOffset raw)
  | .double =>
    -- A pair starts at an even register.
    if (field raw 12).getLsbD 0 then .undefined
    else transfer raw (if raw.getLsbD 5 then .storeDouble else .loadDouble) (smallOffset raw)
  | .readStatus => .readStatus (field raw 12) (raw.getLsbD 22)
  | .writeStatusReg => .writeStatus (raw.getLsbD 22) (field raw 16) (.reg (field raw 0))
  | .writeStatusImm => .writeStatus (raw.getLsbD 22) (field raw 16) (.imm (rotatedImm raw))
  | .aluShifted => alu raw (.ofShift (field raw 0) (shiftKind raw) (shiftAmount raw))
  | .aluShiftedBy => alu raw (.shiftedBy (field raw 0) (shiftKind raw) (field raw 8))
  | .aluImm =>
    let value := rotatedImm raw
    alu raw (.imm value (if field raw 8 = 0 then none else some value.msb))
  | .transferImm => transfer raw (wordOrByte raw) (.imm (raw &&& 0xFFF))
  | .transferReg =>
    transfer raw (wordOrByte raw) (.ofShift (field raw 0) (shiftKind raw) (shiftAmount raw))
  | .block =>
    let load := raw.getLsbD 20
    .block load (raw.getLsbD 24) (raw.getLsbD 23) (raw.getLsbD 21) (raw.getLsbD 22) (field raw 16)
      (raw.extractLsb' 0 16) (if load then 2 else 1) (if load then 4 else 1)
  | .coproc =>
    .coproc (raw.getLsbD 20) (field raw 8) (raw.extractLsb' 21 3) (field raw 16) (field raw 0)
      (raw.extractLsb' 5 3) (field raw 12)
  | .undefined => .undefined

namespace Arm

/-- The forms of the space that version 5 keeps under the "never" pattern. -/
inductive Unconditional where
  /-- Branch with link into THUMB. -/
  | branch
  /-- A hint that memory will be read; it has no effect. -/
  | preload
  | undefined
  deriving DecidableEq, Repr

/-- The forms of that space by key. -/
def unconditionalRows : List (Row 12 Unconditional) :=
  [ row 0b1110_0000_0000 0b1010_0000_0000 .branch
  , row 0b1101_0111_0000 0b0101_0101_0000 .preload ]

/-- The operation of an instruction of that space. Bit 24 of the branch picks the halfword. -/
def unconditional (raw addr : Word) : Op :=
  match Row.classify unconditionalRows .undefined true (key raw) with
  | .branch => .branch true true (branchTarget raw addr + (Word.ofBool (raw.getLsbD 24) <<< 1))
  | .preload => .nop 1
  | .undefined => .undefined

/-- The condition of an instruction. -/
def condition (raw : Word) : Condition := .ofBits (field raw 28)

/-- Decodes the ARM instruction at an address. -/
def decode (cpu : Cpu) (addr raw : Word) : Instruction :=
  if condition raw = .never ∧ cpu.isV5 = true then
    { cpu, addr, raw, thumb := false, cond := .always, op := unconditional raw addr }
  else
    { cpu, addr, raw, thumb := false, cond := condition raw, op := (form cpu.isV5 raw).op raw addr }

end Arm

end ArmBlocks
