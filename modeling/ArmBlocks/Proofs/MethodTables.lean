import Mathlib.Algebra.GroupWithZero.Nat
import ArmBlocks.Machine.Action

/-!
# Tables of methods

An operation is not interpreted when it executes. For every shape of an operation there is a method that
knows all of it but the numbers: which sum, which kind of operand, whether flags are recorded. The
methods of a family stand in one table, numbered by shape, and compiling an instruction looks up the one
of its shape (`Op.lookup?`).

A shape is a number in mixed radix, computed from the operation by one function and taken apart again by
another when the tables are filled. Nothing checks that the two agree or that the number is inside.
**They do, and it is**, for every operation there can be: the table yields the method that the operation
asks for (`Op.lookup?_eq`).
-/

set_option autoImplicit false

namespace ArmBlocks

/-! ## Methods -/

/-- Where a data processing method takes its second operand from. -/
inductive OperandKind where
  | imm
  | shifted (kind : ShiftKind)
  | rrx
  | shiftedBy (kind : ShiftKind)
  deriving DecidableEq, Repr

/-- A method: what is done for an instruction, up to the numbers in its record. -/
inductive Method where
  /-- Data processing; `toPc` if the program counter is written. -/
  | alu (op : AluOp) (kind : OperandKind) (set toPc : Bool)
  | mul (op : MulOp) (set : Bool)
  | halfMul (op : HalfMulOp)
  | clz
  | sat (op : SatOp)
  | readStatus (saved : Bool)
  | writeStatus (saved imm : Bool)
  | transfer (kind : TransferKind) (byRegister : Bool) (index : IndexMode) (up : Bool)
  | swap (byte : Bool)
  | block (load pre up writeback user pcLoaded : Bool)
  | branch (link exchange : Bool)
  | branchExchange (link : Bool)
  | linkPrefix
  | linkSuffix (exchange : Bool)
  | softwareInterrupt
  | breakpoint
  | undefined
  | nop
  | controlWrite
  | controlRead
  deriving DecidableEq, Repr

/-- The families of methods, each with a table of its own. -/
inductive Method.Family where
  | alu
  | multiply
  | status
  | transfer
  | block
  | branch
  | system
  deriving DecidableEq, Repr

/-! ## Numbers

Each part of a shape is numbered. Where a table takes a shape apart, the part is read back from its
number.
-/

/-- The number of a kind of shift. -/
def ShiftKind.number : ShiftKind → Nat
  | .lsl => 0
  | .lsr => 1
  | .asr => 2
  | .ror => 3

namespace OperandKind

/-- The number of a kind of operand: the immediate, the shifts by an amount, the rotation through the
carry, and the shifts by a register. -/
def number : OperandKind → Nat
  | .imm => 0
  | .shifted kind => 1 + kind.number
  | .rrx => 5
  | .shiftedBy kind => 6 + kind.number

/-- The kind of a number; the last one stands for all numbers that are left, here and below. -/
def ofNumber : Nat → OperandKind
  | 0 => .imm
  | 1 => .shifted .lsl
  | 2 => .shifted .lsr
  | 3 => .shifted .asr
  | 4 => .shifted .ror
  | 5 => .rrx
  | 6 => .shiftedBy .lsl
  | 7 => .shiftedBy .lsr
  | 8 => .shiftedBy .asr
  | _ => .shiftedBy .ror

theorem ofNumber_number (kind : OperandKind) : ofNumber kind.number = kind ∧ kind.number < 10 := by
  rcases kind with _ | (_ | _ | _ | _) | _ | (_ | _ | _ | _) <;> exact ⟨rfl, by decide⟩

end OperandKind

namespace AluOp

/-- The number of an operation, by which the table is ordered; it is not the one that is encoded. -/
def number : AluOp → Nat
  | .and => 0
  | .eor => 1
  | .sub => 2
  | .rsb => 3
  | .add => 4
  | .adc => 5
  | .sbc => 6
  | .rsc => 7
  | .tst => 8
  | .teq => 9
  | .cmp => 10
  | .cmn => 11
  | .orr => 12
  | .mov => 13
  | .bic => 14
  | .mvn => 15

/-- The operation of a number. -/
def ofNumber : Nat → AluOp
  | 0 => .and
  | 1 => .eor
  | 2 => .sub
  | 3 => .rsb
  | 4 => .add
  | 5 => .adc
  | 6 => .sbc
  | 7 => .rsc
  | 8 => .tst
  | 9 => .teq
  | 10 => .cmp
  | 11 => .cmn
  | 12 => .orr
  | 13 => .mov
  | 14 => .bic
  | _ => .mvn

theorem ofNumber_number (op : AluOp) : ofNumber op.number = op ∧ op.number < 16 := by
  cases op <;> exact ⟨rfl, by decide⟩

end AluOp

namespace TransferKind

/-- The number of a kind of transfer. -/
def number : TransferKind → Nat
  | .loadWord => 0
  | .loadByte => 1
  | .storeWord => 2
  | .storeByte => 3
  | .loadHalf => 4
  | .storeHalf => 5
  | .loadSignedByte => 6
  | .loadSignedHalf => 7
  | .loadDouble => 8
  | .storeDouble => 9

/-- The transfer of a number. -/
def ofNumber : Nat → TransferKind
  | 0 => .loadWord
  | 1 => .loadByte
  | 2 => .storeWord
  | 3 => .storeByte
  | 4 => .loadHalf
  | 5 => .storeHalf
  | 6 => .loadSignedByte
  | 7 => .loadSignedHalf
  | 8 => .loadDouble
  | _ => .storeDouble

theorem ofNumber_number (kind : TransferKind) : ofNumber kind.number = kind ∧ kind.number < 10 := by
  cases kind <;> exact ⟨rfl, by decide⟩

end TransferKind

namespace IndexMode

/-- The number of an index mode. -/
def number : IndexMode → Nat
  | .post => 0
  | .pre => 1
  | .preUpdate => 2

/-- The index mode of a number. -/
def ofNumber : Nat → IndexMode
  | 0 => .post
  | 1 => .pre
  | _ => .preUpdate

theorem ofNumber_number (mode : IndexMode) : ofNumber mode.number = mode ∧ mode.number < 3 := by
  cases mode <;> exact ⟨rfl, by decide⟩

end IndexMode

/-- The number of a multiplication. -/
def MulOp.number : MulOp → Nat
  | .mul => 0
  | .mla => 1
  | .umull => 2
  | .umlal => 3
  | .smull => 4
  | .smlal => 5

/-- The number of a multiplication of halves. -/
def HalfMulOp.number : HalfMulOp → Nat
  | .smla => 0
  | .smlaw => 1
  | .smulw => 2
  | .smlal => 3
  | .smul => 4

/-- The number of a saturating operation. -/
def SatOp.number : SatOp → Nat
  | .qadd => 0
  | .qsub => 1
  | .qdadd => 2
  | .qdsub => 3

/-! ## Tables

A table is filled by taking a shape apart again. It is as long as its family has shapes, so a shape
outside finds nothing in it.
-/

namespace Method

/-- Whether a bit of a shape is set. -/
def bit (shape n : Nat) : Bool := shape / 2 ^ n % 2 == 1

/-- The shape that is made of bits, the first of them the highest. -/
def ofBits (bits : List Bool) : Nat := bits.foldl (fun shape bit => shape * 2 + bit.toNat) 0

/-- The methods of data processing, by operation, operand, S bit and destination. -/
def aluOf (shape : Nat) : Method :=
  .alu (.ofNumber (shape / 4 / 10)) (.ofNumber (shape / 4 % 10)) (bit shape 1) (bit shape 0)

/-- The method of a multiplication by its number in the table. -/
def multiplyOf : Nat → Method
  | 0 => .mul .mul false
  | 1 => .mul .mul true
  | 2 => .mul .mla false
  | 3 => .mul .mla true
  | 4 => .mul .umull false
  | 5 => .mul .umull true
  | 6 => .mul .umlal false
  | 7 => .mul .umlal true
  | 8 => .mul .smull false
  | 9 => .mul .smull true
  | 10 => .mul .smlal false
  | 11 => .mul .smlal true
  | 12 => .halfMul .smla
  | 13 => .halfMul .smlaw
  | 14 => .halfMul .smulw
  | 15 => .halfMul .smlal
  | 16 => .halfMul .smul
  | 17 => .clz
  | 18 => .sat .qadd
  | 19 => .sat .qsub
  | 20 => .sat .qdadd
  | _ => .sat .qdsub

/-- The method that reads or writes a status register by its number. -/
def statusOf : Nat → Method
  | 0 => .readStatus false
  | 1 => .readStatus true
  | 2 => .writeStatus false false
  | 3 => .writeStatus false true
  | 4 => .writeStatus true false
  | _ => .writeStatus true true

/-- The shapes of single data transfers; the two exchanges stand behind them. -/
def transferShapes : Nat := 10 * 2 * 3 * 2

/-- The methods of transfers, by kind, offset, index mode and direction. -/
def transferOf (shape : Nat) : Method :=
  if transferShapes ≤ shape then .swap (shape != transferShapes)
  else .transfer (.ofNumber (shape / 2 / 6)) (shape / 2 / 3 % 2 == 1) (.ofNumber (shape / 2 % 3))
    (bit shape 0)

/-- The methods of block transfers, by six bits. -/
def blockOf (shape : Nat) : Method :=
  .block (bit shape 5) (bit shape 4) (bit shape 3) (bit shape 2) (bit shape 1) (bit shape 0)

/-- The method of a branch by its number. -/
def branchOf : Nat → Method
  | 0 => .branch false false
  | 1 => .branch true false
  | 2 => .branch true true
  | 3 => .branchExchange false
  | 4 => .branchExchange true
  | 5 => .linkPrefix
  | 6 => .linkSuffix false
  | _ => .linkSuffix true

/-- The methods of traps, transfers with the control coprocessor, and what only takes time. -/
def systemOf : Nat → Method
  | 0 => .softwareInterrupt
  | 1 => .breakpoint
  | 2 => .undefined
  | 4 => .controlWrite
  | 5 => .controlRead
  | _ => .nop

namespace Family

/-- The number of shapes. -/
def size : Family → Nat
  | .alu => 16 * 10 * 2 * 2
  | .multiply => 22
  | .status => 6
  | .transfer => transferShapes + 2
  | .block => 64
  | .branch => 8
  | .system => 7

/-- The method of a shape. -/
def method : Family → Nat → Method
  | .alu => aluOf
  | .multiply => multiplyOf
  | .status => statusOf
  | .transfer => transferOf
  | .block => blockOf
  | .branch => branchOf
  | .system => systemOf

/-- The methods of all shapes. -/
def table (family : Family) : List Method := (List.range family.size).map family.method

theorem table_getElem? (family : Family) {shape : Nat} (inside : shape < family.size) :
    family.table[shape]? = some (family.method shape) := by
  rw [table, List.getElem?_map, List.getElem?_range inside]
  rfl

end Family

end Method

/-! ## Looking up

The digits of a shape are read back in the order in which they were put together, and none exceeds its
radix; what is left is arithmetic.
-/

/-- The kind of an operand. -/
def Operand.kind : Operand → OperandKind
  | .imm .. => .imm
  | .shifted _ kind _ => .shifted kind
  | .rrx _ => .rrx
  | .shiftedBy _ kind _ => .shiftedBy kind

/-- Whether an offset is made from a register. -/
def Offset.isRegister : Offset → Bool
  | .imm _ => false
  | _ => true

/-- Whether what is written stands in the instruction. -/
def StatusSource.isImm : StatusSource → Bool
  | .imm _ => true
  | .reg _ => false

namespace Op

/-- The family that an operation belongs to. -/
def family : Op → Method.Family
  | .alu .. => .alu
  | .mul .. | .halfMul .. | .clz .. | .sat .. => .multiply
  | .readStatus .. | .writeStatus .. => .status
  | .transfer .. | .swap .. => .transfer
  | .block .. => .block
  | .branch .. | .branchExchange .. | .linkPrefix .. | .linkSuffix .. => .branch
  | .coproc .. | .softwareInterrupt .. | .breakpoint | .undefined | .nop .. => .system

/-- The shape of an operation within its family. -/
def shape : Op → Nat
  | .alu op s rd _ operand =>
    ((op.number * 10 + operand.kind.number) * 2 + s.toNat) * 2 + (rd == .pc && op.writes).toNat
  | .mul op s _ _ _ _ => op.number * 2 + s.toNat
  | .halfMul op _ _ _ _ _ _ => 12 + op.number
  | .clz .. => 17
  | .sat op _ _ _ => 18 + op.number
  | .readStatus _ saved => saved.toNat
  | .writeStatus saved _ source => 2 + saved.toNat * 2 + source.isImm.toNat
  | .transfer kind _ _ offset index up =>
    ((kind.number * 2 + offset.isRegister.toNat) * 3 + index.number) * 2 + up.toNat
  | .swap byte _ _ _ => Method.transferShapes + byte.toNat
  | .block load pre up writeback user _ list _ _ =>
    Method.ofBits [load, pre, up, writeback, user, RegSet.has list .pc]
  | .branch false false _ => 0
  | .branch true false _ => 1
  | .branch _ true _ => 2
  | .branchExchange link _ => 3 + link.toNat
  | .linkPrefix _ => 5
  | .linkSuffix _ exchange => 6 + exchange.toNat
  | .softwareInterrupt _ => 0
  | .breakpoint => 1
  | .undefined => 2
  | .nop _ => 3
  | .coproc load cp _ _ _ _ _ => if cp = controlCoprocessor then 4 + load.toNat else 6

/-- What the table of the family has for the shape of an operation. -/
def lookup? (op : Op) : Option Method := op.family.table[op.shape]?

/-- The method that an operation asks for. -/
def method : Op → Method
  | .alu op s rd _ operand => .alu op operand.kind s (rd == .pc && op.writes)
  | .mul op s _ _ _ _ => .mul op s
  | .halfMul op _ _ _ _ _ _ => .halfMul op
  | .clz .. => .clz
  | .sat op _ _ _ => .sat op
  | .readStatus _ saved => .readStatus saved
  | .writeStatus saved _ source => .writeStatus saved source.isImm
  | .transfer kind _ _ offset index up => .transfer kind offset.isRegister index up
  | .swap byte _ _ _ => .swap byte
  | .block load pre up writeback user _ list _ _ =>
    .block load pre up writeback user (RegSet.has list .pc)
  | .branch link exchange _ => .branch (link || exchange) exchange
  | .branchExchange link _ => .branchExchange link
  | .linkPrefix _ => .linkPrefix
  | .linkSuffix _ exchange => .linkSuffix exchange
  | .coproc load cp _ _ _ _ _ =>
    if cp = controlCoprocessor then (if load then .controlRead else .controlWrite) else .nop
  | .softwareInterrupt _ => .softwareInterrupt
  | .breakpoint => .breakpoint
  | .undefined => .undefined
  | .nop _ => .nop

end Op

namespace Method

/-- The number of a data processing method is inside of its table, and leads to it. Each digit of the
number is one property of the method. -/
theorem aluOf_shape (op : AluOp) (kind : OperandKind) (set toPc : Bool) :
    ((op.number * 10 + kind.number) * 2 + set.toNat) * 2 + toPc.toNat < Family.alu.size ∧
      aluOf (((op.number * 10 + kind.number) * 2 + set.toNat) * 2 + toPc.toNat) =
        .alu op kind set toPc := by
  obtain ⟨ops, few⟩ := op.ofNumber_number
  obtain ⟨kinds, fewer⟩ := kind.ofNumber_number
  have sets := set.toNat_le
  have pcs := toPc.toNat_le
  generalize shaped : ((op.number * 10 + kind.number) * 2 + set.toNat) * 2 + toPc.toNat = shape
  -- the shape is a number in mixed radix, and its digits are read from the right
  have first : shape / 4 / 10 = op.number := by omega
  have second : shape / 4 % 10 = kind.number := by omega
  have third : bit shape 1 = set := by
    have value : shape / 2 ^ 1 % 2 = set.toNat := by omega
    rw [bit, value]
    cases set <;> rfl
  have fourth : bit shape 0 = toPc := by
    have value : shape / 2 ^ 0 % 2 = toPc.toNat := by omega
    rw [bit, value]
    cases toPc <;> rfl
  refine ⟨?_, ?_⟩
  · show shape < 640
    omega
  · rw [aluOf, first, second, third, fourth, ops, kinds]

/-- So it is for the methods of loads and stores. -/
theorem transferOf_shape (kind : TransferKind) (byRegister : Bool) (index : IndexMode) (up : Bool) :
    ((kind.number * 2 + byRegister.toNat) * 3 + index.number) * 2 + up.toNat < Family.transfer.size ∧
      transferOf (((kind.number * 2 + byRegister.toNat) * 3 + index.number) * 2 + up.toNat) =
        .transfer kind byRegister index up := by
  obtain ⟨kinds, few⟩ := kind.ofNumber_number
  obtain ⟨indices, fewer⟩ := index.ofNumber_number
  have registers := byRegister.toNat_le
  have ups := up.toNat_le
  generalize shaped :
    ((kind.number * 2 + byRegister.toNat) * 3 + index.number) * 2 + up.toNat = shape
  have first : shape / 2 / 6 = kind.number := by omega
  have second : shape / 2 / 3 % 2 = byRegister.toNat := by omega
  have third : shape / 2 % 3 = index.number := by omega
  have fourth : bit shape 0 = up := by
    have value : shape / 2 ^ 0 % 2 = up.toNat := by omega
    rw [bit, value]
    cases up <;> rfl
  -- the two methods behind the single transfers are those of the pairs
  have inside : ¬transferShapes ≤ shape := by
    show ¬120 ≤ shape
    omega
  refine ⟨?_, ?_⟩
  · show shape < 122
    omega
  · rw [transferOf, if_neg inside, first, second, third, fourth, kinds, indices]
    cases byRegister <;> rfl

theorem blockOf_shape : ∀ load pre up writeback user pcLoaded : Bool,
    ofBits [load, pre, up, writeback, user, pcLoaded] < Family.block.size ∧
      blockOf (ofBits [load, pre, up, writeback, user, pcLoaded]) =
        .block load pre up writeback user pcLoaded := by
  decide

end Method

namespace Op

/-- Every shape is one of its family, and the method that the tables were filled with for it is the one
that is asked for. -/
theorem shape_spec (op : Op) : op.shape < op.family.size ∧ op.family.method op.shape = op.method := by
  cases op with
  | alu op s rd rn operand => exact Method.aluOf_shape ..
  | mul op s => cases op <;> cases s <;> exact ⟨Nat.le_of_ble_eq_true rfl, rfl⟩
  | halfMul op => cases op <;> exact ⟨Nat.le_of_ble_eq_true rfl, rfl⟩
  | sat op => cases op <;> exact ⟨Nat.le_of_ble_eq_true rfl, rfl⟩
  | readStatus rd saved => cases saved <;> exact ⟨Nat.le_of_ble_eq_true rfl, rfl⟩
  | writeStatus saved fields source =>
    cases saved <;> cases source <;> exact ⟨Nat.le_of_ble_eq_true rfl, rfl⟩
  | transfer kind rd rn offset index up => exact Method.transferOf_shape ..
  | swap byte => cases byte <;> exact ⟨Nat.le_of_ble_eq_true rfl, rfl⟩
  | block load pre up writeback user rn list => exact Method.blockOf_shape ..
  | branch link exchange => cases link <;> cases exchange <;> exact ⟨Nat.le_of_ble_eq_true rfl, rfl⟩
  | branchExchange link => cases link <;> exact ⟨Nat.le_of_ble_eq_true rfl, rfl⟩
  | linkSuffix offset exchange => cases exchange <;> exact ⟨Nat.le_of_ble_eq_true rfl, rfl⟩
  | coproc load cp =>
    unfold shape family method
    dsimp only
    split
    · cases load <;> exact ⟨Nat.le_of_ble_eq_true rfl, rfl⟩
    · exact ⟨Nat.le_of_ble_eq_true rfl, rfl⟩
  | _ => exact ⟨Nat.le_of_ble_eq_true rfl, rfl⟩

/-- The tables have a method for every operation. -/
theorem lookup?_eq (op : Op) : op.lookup? = some op.method := by
  obtain ⟨inside, same⟩ := op.shape_spec
  rw [lookup?, Method.Family.table_getElem? _ inside, same]

end Op

end ArmBlocks
