import ArmBlocks.Decode.Pattern
import ArmBlocks.Instruction

/-!
# Decoding THUMB instructions

A THUMB instruction is told apart by its top ten bits. Only eight registers fit its three-bit
fields; the forms that reach the upper ones carry a fourth bit elsewhere.

Every THUMB instruction is unconditional except the conditional branch, whose condition field
leaves two patterns over for other instructions. So no THUMB instruction ever has the condition
`never`.
-/

set_option autoImplicit false

namespace ArmBlocks

/-- The forms of THUMB instructions. -/
inductive ThumbForm where
  | shifted (kind : ShiftKind)
  | sumReg (op : AluOp)
  | sumImm (op : AluOp)
  | imm (op : AluOp)
  | alu
  | high (op : AluOp)
  | branchExchange (link : Bool)
  | loadPcRelative
  | transferReg (kind : TransferKind)
  /-- A transfer with a five-bit offset in units of `2 ^ scale` bytes. -/
  | transferImm (kind : TransferKind) (scale : Nat)
  | transferSp (kind : TransferKind)
  | addressPc
  | addressSp
  | moveSp
  | push
  | pop
  | breakpoint
  | block
  | softwareInterrupt
  | conditionalBranch
  | branch
  | linkPrefix
  | linkSuffix (exchange : Bool)
  | undefined
  deriving DecidableEq, Repr

namespace Thumb

/-- The bits that tell the forms apart. -/
def key (raw : Halfword) : BitVec 10 := raw.extractLsb' 6 10

/-- The forms by key, special encodings before general ones. -/
def rows : List (Row 10 ThumbForm) :=
  [ row 0b11111_00000 0b00000_00000 (.shifted .lsl)
  , row 0b11111_00000 0b00001_00000 (.shifted .lsr)
  , row 0b11111_00000 0b00010_00000 (.shifted .asr)
  , row 0b11111_11000 0b00011_00000 (.sumReg .add)
  , row 0b11111_11000 0b00011_01000 (.sumReg .sub)
  , row 0b11111_11000 0b00011_10000 (.sumImm .add)
  , row 0b11111_11000 0b00011_11000 (.sumImm .sub)
  , row 0b11111_00000 0b00100_00000 (.imm .mov)
  , row 0b11111_00000 0b00101_00000 (.imm .cmp)
  , row 0b11111_00000 0b00110_00000 (.imm .add)
  , row 0b11111_00000 0b00111_00000 (.imm .sub)
  , row 0b11111_10000 0b01000_00000 .alu
  , row 0b11111_11100 0b01000_10000 (.high .add)
  , row 0b11111_11100 0b01000_10100 (.high .cmp)
  , row 0b11111_11100 0b01000_11000 (.high .mov)
  , row 0b11111_11110 0b01000_11100 (.branchExchange false)
  , row5 0b11111_11110 0b01000_11110 (.branchExchange true)
  , row 0b11111_00000 0b01001_00000 .loadPcRelative
  , row 0b11111_11000 0b01010_00000 (.transferReg .storeWord)
  , row 0b11111_11000 0b01010_10000 (.transferReg .storeByte)
  , row 0b11111_11000 0b01011_00000 (.transferReg .loadWord)
  , row 0b11111_11000 0b01011_10000 (.transferReg .loadByte)
  , row 0b11111_11000 0b01010_01000 (.transferReg .storeHalf)
  , row 0b11111_11000 0b01010_11000 (.transferReg .loadSignedByte)
  , row 0b11111_11000 0b01011_01000 (.transferReg .loadHalf)
  , row 0b11111_11000 0b01011_11000 (.transferReg .loadSignedHalf)
  , row 0b11111_00000 0b01100_00000 (.transferImm .storeWord 2)
  , row 0b11111_00000 0b01101_00000 (.transferImm .loadWord 2)
  , row 0b11111_00000 0b01110_00000 (.transferImm .storeByte 0)
  , row 0b11111_00000 0b01111_00000 (.transferImm .loadByte 0)
  , row 0b11111_00000 0b10000_00000 (.transferImm .storeHalf 1)
  , row 0b11111_00000 0b10001_00000 (.transferImm .loadHalf 1)
  , row 0b11111_00000 0b10010_00000 (.transferSp .storeWord)
  , row 0b11111_00000 0b10011_00000 (.transferSp .loadWord)
  , row 0b11111_00000 0b10100_00000 .addressPc
  , row 0b11111_00000 0b10101_00000 .addressSp
  , row 0b11111_11100 0b10110_00000 .moveSp
  , row 0b11111_11000 0b10110_10000 .push
  , row 0b11111_11000 0b10111_10000 .pop
  , row5 0b11111_11100 0b10111_11000 .breakpoint
  , row 0b11110_00000 0b11000_00000 .block
  -- Two patterns of the condition field are no conditions.
  , row 0b11111_11100 0b11011_11000 .undefined
  , row 0b11111_11100 0b11011_11100 .softwareInterrupt
  , row 0b11110_00000 0b11010_00000 .conditionalBranch
  , row 0b11111_00000 0b11100_00000 .branch
  , row 0b11111_00000 0b11110_00000 .linkPrefix
  , row 0b11111_00000 0b11111_00000 (.linkSuffix false)
  , row5 0b11111_00000 0b11101_00000 (.linkSuffix true) ]

/-- The form of an instruction; what no row accepts is undefined. -/
def form (v5 : Bool) (raw : Halfword) : ThumbForm := Row.classify rows .undefined v5 (key raw)

/-! ## Fields -/

/-- The low register from a bit up. -/
def lowReg (raw : Halfword) (start : Nat) : Reg := (raw.extractLsb' start 3).setWidth 4

/-- The destination of the forms that reach every register; its top bit stands apart. -/
def highDest (raw : Halfword) : Reg := raw.extractLsb' 7 1 ++ raw.extractLsb' 0 3

/-- The source of the forms that reach every register. -/
def highSource (raw : Halfword) : Reg := raw.extractLsb' 3 4

/-- The eight-bit immediate. -/
def imm8 (raw : Halfword) : Word := (raw.extractLsb' 0 8).setWidth 32

/-- The five-bit immediate. -/
def imm5 (raw : Halfword) : BitVec 5 := raw.extractLsb' 6 5

/-- What reading the program counter yields. -/
def pipelinePc (addr : Word) : Word := addr + 4

/-- A transfer between the usual registers that leaves its base alone. -/
def transfer (raw : Halfword) (kind : TransferKind) (offset : Offset) : Op :=
  .transfer kind (lowReg raw 0) (lowReg raw 3) offset .pre true

/-- The sixteen operations on two low registers. -/
def aluOp (raw : Halfword) : Op :=
  let rd := lowReg raw 0
  let rs := lowReg raw 3
  let simple (op : AluOp) : Op := .alu op true rd rd (.ofReg rs)
  let shift (kind : ShiftKind) : Op := .alu .mov true rd 0 (.shiftedBy rd kind rs)
  match raw.extractLsb' 6 4 with
  | 0x0 => simple .and
  | 0x1 => simple .eor
  | 0x2 => shift .lsl
  | 0x3 => shift .lsr
  | 0x4 => shift .asr
  | 0x5 => simple .adc
  | 0x6 => simple .sbc
  | 0x7 => shift .ror
  | 0x8 => simple .tst
  | 0x9 => .alu .rsb true rd rs (.ofImm 0)
  | 0xA => simple .cmp
  | 0xB => simple .cmn
  | 0xC => simple .orr
  -- The destination is also the multiplier.
  | 0xD => .mul .mul true rd 0 rd rs
  | 0xE => simple .bic
  | _ => .alu .mvn true rd 0 (.ofReg rs)

/-- A load relative to the program counter with bit 1 cleared. The offset is kept relative to the
program counter as it reads, so it may point down by the bit that was cleared. -/
def loadPcRelative (raw : Halfword) (addr : Word) : Op :=
  let adjust := pipelinePc addr &&& 2
  let imm := imm8 raw <<< 2
  let up := adjust.toNat ≤ imm.toNat
  .transfer .loadWord (lowReg raw 8) .pc (.imm (if up then imm - adjust else adjust - imm)) .pre up

end Thumb

open Thumb in
/-- The operation of an instruction of the given form. -/
def ThumbForm.op (form : ThumbForm) (raw : Halfword) (addr : Word) : Op :=
  match form with
  | .shifted kind => .alu .mov true (lowReg raw 0) 0 (.ofShift (lowReg raw 3) kind (imm5 raw))
  | .sumReg op => .alu op true (lowReg raw 0) (lowReg raw 3) (.ofReg (lowReg raw 6))
  | .sumImm op =>
    .alu op true (lowReg raw 0) (lowReg raw 3) (.ofImm ((raw.extractLsb' 6 3).setWidth 32))
  | .imm op =>
    .alu op true (lowReg raw 8) (if op.usesFirst then lowReg raw 8 else 0) (.ofImm (imm8 raw))
  | .alu => aluOp raw
  | .high op =>
    .alu op (!op.writes) (highDest raw) (if op.usesFirst then highDest raw else 0)
      (.ofReg (highSource raw))
  | .branchExchange link => .branchExchange link (highSource raw)
  | .loadPcRelative => Thumb.loadPcRelative raw addr
  | .transferReg kind => transfer raw kind (.ofReg (lowReg raw 6))
  | .transferImm kind scale => transfer raw kind (.imm ((imm5 raw).setWidth 32 <<< scale))
  | .transferSp kind => .transfer kind (lowReg raw 8) .sp (.imm (imm8 raw <<< 2)) .pre true
  | .addressPc =>
    .alu .mov false (lowReg raw 8) 0 (.ofImm ((pipelinePc addr &&& ~~~2#32) + (imm8 raw <<< 2)))
  | .addressSp => .alu .add false (lowReg raw 8) .sp (.ofImm (imm8 raw <<< 2))
  | .moveSp =>
    .alu (if raw.getLsbD 7 then .sub else .add) false .sp .sp
      (.ofImm ((raw.extractLsb' 0 7).setWidth 32 <<< 2))
  | .push =>
    let lr := raw.getLsbD 8
    let cycles := if lr then 4 else 3
    .block false true false true false .sp
      ((raw.extractLsb' 0 8).setWidth 16 ||| RegSet.singleIf lr .lr) cycles cycles
  | .pop =>
    .block true false true true false .sp
      ((raw.extractLsb' 0 8).setWidth 16 ||| RegSet.singleIf (raw.getLsbD 8) .pc) 2 5
  | .breakpoint => .breakpoint
  | .block =>
    let load := raw.getLsbD 11
    let rn := lowReg raw 8
    let list : BitVec 16 := (raw.extractLsb' 0 8).setWidth 16
    let cycles := if load then 3 else 2
    -- A base that is loaded is not moved as well.
    .block load false true (!(load && RegSet.has list rn)) false rn list cycles cycles
  | .softwareInterrupt => .softwareInterrupt (imm8 raw)
  | .conditionalBranch =>
    .branch false false (pipelinePc addr + ((raw.extractLsb' 0 8).signExtend 32 <<< 1))
  | .branch => .branch false false (pipelinePc addr + ((Bits.signed11 raw).signExtend 32 <<< 1))
  | .linkPrefix => .linkPrefix (pipelinePc addr + ((Bits.signed11 raw).signExtend 32 <<< 12))
  | .linkSuffix exchange => .linkSuffix ((raw.extractLsb' 0 11).setWidth 32 <<< 1) exchange
  | .undefined => .undefined

namespace Thumb

/-- The condition of an instruction: that of a conditional branch, otherwise none. -/
def condition (raw : Halfword) : Condition :=
  if raw.extractLsb' 12 4 = 0xD ∧ (raw.extractLsb' 8 4).toNat < 14 then
    .ofBits (raw.extractLsb' 8 4)
  else .always

/-- Decodes the THUMB instruction at an address. -/
def decode (cpu : Cpu) (addr : Word) (raw : Halfword) : Instruction :=
  { cpu, addr, raw := raw.setWidth 32, thumb := true, cond := condition raw
    op := (form cpu.isV5 raw).op raw addr }

end Thumb

end ArmBlocks
