import ArmBlocks.Op.Basic

/-!
# Operations as text

A decoded operation is shown as its name and its fields in a fixed order, in the form
`Name { field: value, ... }`. Values of one part are written `Name(value)`, names without parts
stand alone, and all numbers are decimal. The form serves to compare decoders, so it leaves
nothing out.
-/

set_option autoImplicit false

namespace ArmBlocks

namespace Text

/-- A name with labelled fields. -/
def record (name : String) (fields : List (String × String)) : String :=
  let shown := fields.map fun (label, value) => label ++ ": " ++ value
  name ++ " \x7b " ++ ", ".intercalate shown ++ " \x7d"

/-- A name with one part. -/
def wrapped (name value : String) : String := name ++ "(" ++ value ++ ")"

/-- A truth value. -/
def ofBool (b : Bool) : String := if b then "true" else "false"

/-- A number. -/
def ofNat (n : Nat) : String := n.repr

/-- A word as an unsigned number. -/
def ofBits {w : Nat} (x : BitVec w) : String := ofNat x.toNat

end Text

open Text

/-- The name of a data processing operation. -/
def AluOp.text : AluOp → String
  | .and => "And"
  | .eor => "Eor"
  | .sub => "Sub"
  | .rsb => "Rsb"
  | .add => "Add"
  | .adc => "Adc"
  | .sbc => "Sbc"
  | .rsc => "Rsc"
  | .tst => "Tst"
  | .teq => "Teq"
  | .cmp => "Cmp"
  | .cmn => "Cmn"
  | .orr => "Orr"
  | .mov => "Mov"
  | .bic => "Bic"
  | .mvn => "Mvn"

/-- The name of a shift. -/
def ShiftKind.text : ShiftKind → String
  | .lsl => "Lsl"
  | .lsr => "Lsr"
  | .asr => "Asr"
  | .ror => "Ror"

/-- The text of a second operand. -/
def Operand.text : Operand → String
  | .imm value carry =>
    let carry := match carry with
      | none => "None"
      | some c => wrapped "Some" (ofBool c)
    record "Imm" [("value", ofBits value), ("carry", carry)]
  | .shifted rm kind amount =>
    record "ShiftImm" [("rm", ofBits rm), ("shift", kind.text), ("amount", ofNat amount)]
  | .rrx rm => record "Rrx" [("rm", ofBits rm)]
  | .shiftedBy rm kind rs =>
    record "ShiftReg" [("rm", ofBits rm), ("shift", kind.text), ("rs", ofBits rs)]

/-- The name of a multiplication. -/
def MulOp.text : MulOp → String
  | .mul => "Mul"
  | .mla => "Mla"
  | .umull => "Umull"
  | .umlal => "Umlal"
  | .smull => "Smull"
  | .smlal => "Smlal"

/-- The name of a halfword multiplication. -/
def HalfMulOp.text : HalfMulOp → String
  | .smla => "SmlaXy"
  | .smlaw => "SmlawY"
  | .smulw => "SmulwY"
  | .smlal => "SmlalXy"
  | .smul => "SmulXy"

/-- The name of a saturating operation. -/
def SatOp.text : SatOp → String
  | .qadd => "Qadd"
  | .qsub => "Qsub"
  | .qdadd => "QdAdd"
  | .qdsub => "QdSub"

/-- The text of what is written to a status register. -/
def StatusSource.text : StatusSource → String
  | .imm value => wrapped "Imm" (ofBits value)
  | .reg rm => wrapped "Reg" (ofBits rm)

/-- The name of a transfer. -/
def TransferKind.text : TransferKind → String
  | .loadWord => "LoadWord"
  | .loadByte => "LoadByte"
  | .storeWord => "StoreWord"
  | .storeByte => "StoreByte"
  | .loadHalf => "LoadHalfword"
  | .storeHalf => "StoreHalfword"
  | .loadSignedByte => "LoadSignedByte"
  | .loadSignedHalf => "LoadSignedHalfword"
  | .loadDouble => "LoadDoubleWord"
  | .storeDouble => "StoreDoubleWord"

/-- The text of an offset. -/
def Offset.text : Offset → String
  | .imm value => wrapped "Imm" (ofBits value)
  | .shifted rm kind amount =>
    record "Reg" [("rm", ofBits rm), ("shift", kind.text), ("amount", ofNat amount)]
  | .rrx rm => record "Rrx" [("rm", ofBits rm)]

/-- The name of an index mode. -/
def IndexMode.text : IndexMode → String
  | .post => "Post"
  | .pre => "Pre"
  | .preUpdate => "PreWriteback"

/-- The text of an operation. -/
def Op.text : Op → String
  | .alu op s rd rn operand =>
    record "Alu" [("op", op.text), ("s", ofBool s), ("rd", ofBits rd), ("rn", ofBits rn),
      ("operand", operand.text)]
  | .mul op s rd rn rs rm =>
    record "Mul" [("op", op.text), ("s", ofBool s), ("rd", ofBits rd), ("rn", ofBits rn),
      ("rs", ofBits rs), ("rm", ofBits rm)]
  | .halfMul op rd rn rs rm xTop yTop =>
    record "HalfMul" [("op", op.text), ("rd", ofBits rd), ("rn", ofBits rn), ("rs", ofBits rs),
      ("rm", ofBits rm), ("x_top", ofBool xTop), ("y_top", ofBool yTop)]
  | .clz rd rm => record "Clz" [("rd", ofBits rd), ("rm", ofBits rm)]
  | .sat op rd rn rm =>
    record "Sat" [("op", op.text), ("rd", ofBits rd), ("rn", ofBits rn), ("rm", ofBits rm)]
  | .readStatus rd saved => record "Mrs" [("rd", ofBits rd), ("spsr", ofBool saved)]
  | .writeStatus saved fields source =>
    record "Msr" [("spsr", ofBool saved), ("mask", ofBits fields), ("source", source.text)]
  | .transfer kind rd rn offset index up =>
    record "Transfer" [("kind", kind.text), ("rd", ofBits rd), ("rn", ofBits rn),
      ("offset", offset.text), ("index", index.text), ("up", ofBool up)]
  | .block load pre up writeback user rn list cycles pcCycles =>
    record "Block" [("load", ofBool load), ("pre", ofBool pre), ("up", ofBool up),
      ("writeback", ofBool writeback), ("user", ofBool user), ("rn", ofBits rn),
      ("list", ofBits list), ("cycles", ofNat cycles), ("pc_cycles", ofNat pcCycles)]
  | .swap byte rd rn rm =>
    record "Swap" [("byte", ofBool byte), ("rd", ofBits rd), ("rn", ofBits rn), ("rm", ofBits rm)]
  | .branch link exchange target =>
    record "Branch" [("link", ofBool link), ("exchange", ofBool exchange),
      ("target", ofBits target)]
  | .branchExchange link rm => record "BranchExchange" [("link", ofBool link), ("rm", ofBits rm)]
  | .linkPrefix value => record "LinkPrefix" [("value", ofBits value)]
  | .linkSuffix offset exchange =>
    record "LinkSuffix" [("offset", ofBits offset), ("exchange", ofBool exchange)]
  | .coproc load cp op1 cn cm op2 rd =>
    record "Coproc" [("load", ofBool load), ("cp", ofBits cp), ("opc1", ofBits op1),
      ("crn", ofBits cn), ("crm", ofBits cm), ("opc2", ofBits op2), ("rd", ofBits rd)]
  | .softwareInterrupt comment => record "Swi" [("comment", ofBits comment)]
  | .breakpoint => "Bkpt"
  | .undefined => "Undefined"
  | .nop cycles => record "Nop" [("cycles", ofNat cycles)]

end ArmBlocks
