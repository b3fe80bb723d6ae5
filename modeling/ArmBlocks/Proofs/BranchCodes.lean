import Mathlib.Algebra.Group.Int.Defs
import ArmBlocks.Proofs.DecoderVersions

/-!
# The codes of branches and compares

The instructions that decide where a program goes on, as words put together from their fields: branches
by an offset and to a register, with and without link, the two halves of the long branch of THUMB, and
the compare of two registers. For each there is the instruction it decodes to, for every condition,
register and offset.

**Where a branch goes is an integer away.** The decoders shift and sign-extend machine words. In what is
proved here the offset is the number that its field means, times the bytes it counts, added to the
address and two instructions more. For a long branch that is the number of both fields together, the sum
of what its halves contribute (`offset_of_halves`).
-/

set_option autoImplicit false

namespace ArmBlocks

open BitVec (extractLsb'_append_eq_of_le extractLsb'_append_eq_of_add_le getLsbD_append)

/-! ## Offsets

A branch of THUMB code with a link is encoded in two halves, and its offset is put together from both.
The offsets are read as integers, and the encodings as bit vectors that are appended.
-/

/-- Shifting a sign-extended field is multiplying what it means. -/
theorem signExtend_shiftLeft {w : Nat} (x : BitVec w) (k : Nat) :
    x.signExtend 32 <<< k = BitVec.ofInt 32 (2 ^ k * x.toInt) := by
  have power : BitVec.twoPow 32 k = BitVec.ofInt 32 (2 ^ k) := by
    apply BitVec.eq_of_toNat_eq
    rw [show (2 : Int) ^ k = ((2 ^ k : Nat) : Int) from (Int.natCast_pow 2 k).symm, BitVec.ofInt_natCast,
      BitVec.toNat_twoPow, BitVec.toNat_ofNat]
  rw [BitVec.shiftLeft_eq_mul_twoPow, BitVec.signExtend, Int.mul_comm, BitVec.ofInt_mul, power]

/-- The two fields of a long branch are one number. -/
theorem offset_of_halves (high low : BitVec 11) :
    (high.signExtend 32 <<< 12) + (low.setWidth 32 <<< 1) =
      BitVec.ofInt 32 (2 * (high ++ low).toInt) := by
  have small : low.setWidth 32 <<< 1 = BitVec.ofInt 32 (2 * low.toNat) := by
    apply BitVec.eq_of_toNat_eq
    rw [show (2 : Int) * low.toNat = ((2 * low.toNat : Nat) : Int) from rfl, BitVec.ofInt_natCast,
      BitVec.toNat_shiftLeft, BitVec.toNat_setWidth, BitVec.toNat_ofNat, Nat.shiftLeft_eq]
    omega
  rw [signExtend_shiftLeft, small, ← BitVec.ofInt_add, BitVec.toInt_append, if_neg (by decide)]
  congr 1
  omega

/-! ## ARM

An encoding is written down as its fields, and what it decodes to is computed: the row of the table
first, on the bits that the table looks at, and then the operation, field by field.
-/

namespace Arm

/-- The compare of two registers. The field of a destination has no meaning in it. -/
def compareCode (rn rd rm : Reg) : Word := 0xE15#12 ++ rn ++ rd ++ 0x00#8 ++ rm

/-- The branch by a number of words, with link or without. -/
def branchCode (cond : Condition) (link : Bool) (offset : BitVec 24) : Word :=
  cond.bits ++ (if link then 0xB#4 else 0xA#4) ++ offset

/-- The branch with link into THUMB, by a number of words and maybe a halfword. -/
def branchThumbCode (half : Bool) (offset : BitVec 24) : Word :=
  0xF#4 ++ (if half then 0xB#4 else 0xA#4) ++ offset

/-- The branch to a register, with link or without. -/
def exchangeCode (cond : Condition) (link : Bool) (rm : Reg) : Word :=
  cond.bits ++ 0x12FFF#20 ++ (if link then 3#4 else 1#4) ++ rm

/-- The key of an instruction, field by field. -/
theorem key_eq (raw : Word) : key raw = (field raw 24 ++ field raw 20 : BitVec 8) ++ field raw 4 := by
  have high : raw.extractLsb' 24 4 ++ raw.extractLsb' 20 4 = raw.extractLsb' 20 8 :=
    BitVec.extractLsb'_append_extractLsb'_eq_extractLsb' rfl
  rw [field, field, high]
  rfl

/-- A branch is told by the upper field of its key alone. -/
theorem classify_branch (v5 flag : Bool) (x y : BitVec 4) :
    Row.classify rows .undefined v5 (((if flag then 0xB#4 else 0xA#4) ++ x : BitVec 8) ++ y) =
      .branch := by
  revert v5 flag x y
  decide +kernel

theorem classify_branchThumb (flag : Bool) (x y : BitVec 4) :
    Row.classify unconditionalRows .undefined true
      (((if flag then 0xB#4 else 0xA#4) ++ x : BitVec 8) ++ y) = .branch := by
  revert flag x y
  decide +kernel

/-- The word of a comparison decodes to the comparison. Its fields are taken apart first; the form depends
on three of them only. -/
theorem decode_compareCode (cpu : Cpu) (addr : Word) (rn rd rm : Reg) :
    decode cpu addr (compareCode rn rd rm) =
      { cpu, addr, raw := compareCode rn rd rm, thumb := false, cond := .always
        op := .alu .cmp true rd rn (.ofReg rm) } := by
  obtain ⟨top, high, middle, low, op, set, first, dest, second, shift, amount⟩ :
      field (compareCode rn rd rm) 28 = 0xE ∧ field (compareCode rn rd rm) 24 = 1 ∧
        field (compareCode rn rd rm) 20 = 5 ∧ field (compareCode rn rd rm) 4 = 0 ∧
        field (compareCode rn rd rm) 21 = 0xA ∧ (compareCode rn rd rm).getLsbD 20 = true ∧
        field (compareCode rn rd rm) 16 = rn ∧ field (compareCode rn rd rm) 12 = rd ∧
        field (compareCode rn rd rm) 0 = rm ∧ (compareCode rn rd rm).extractLsb' 5 2 = 0 ∧
        (compareCode rn rd rm).extractLsb' 7 5 = 0 := by
    simp (disch := decide) only [field, compareCode, extractLsb'_append_eq_of_le,
      extractLsb'_append_eq_of_add_le, getLsbD_append]
    simp
  have plain : condition (compareCode rn rd rm) = .always := by
    rw [condition, top]
    rfl
  have form : form cpu.isV5 (compareCode rn rd rm) = .aluShifted := by
    rw [form, key_eq, high, middle, low]
    cases cpu.isV5 <;> decide
  have op : ArmForm.aluShifted.op (compareCode rn rd rm) addr = .alu .cmp true rd rn (.ofReg rm) := by
    rw [ArmForm.op, alu, op, set, first, dest, second, shiftKind, shift, shiftAmount, amount]
    rfl
  rw [decode_of_ne_never cpu addr (by rw [plain]; decide), plain, form, op]

theorem branchTarget_eq {raw addr : Word} {offset : BitVec 24} (away : raw.setWidth 24 = offset) :
    branchTarget raw addr = addr + 8 + BitVec.ofInt 32 (4 * offset.toInt) := by
  rw [branchTarget, Bits.signed24, away, signExtend_shiftLeft]
  rfl

/-- The word of a branch decodes to the branch. Its offset counts words from the second instruction behind
it. -/
theorem decode_branchCode (cpu : Cpu) (addr : Word) {cond : Condition} (h : cond ≠ .never) (link : Bool)
    (offset : BitVec 24) :
    decode cpu addr (branchCode cond link offset) =
      { cpu, addr, raw := branchCode cond link offset, thumb := false, cond
        op := .branch link false (addr + 8 + BitVec.ofInt 32 (4 * offset.toInt)) } := by
  obtain ⟨top, high⟩ : field (branchCode cond link offset) 28 = cond.bits ∧
      field (branchCode cond link offset) 24 = if link then 0xB else 0xA := by
    simp (disch := decide) only [field, branchCode, extractLsb'_append_eq_of_le,
      extractLsb'_append_eq_of_add_le]
    simp
  have links : (branchCode cond link offset).getLsbD 24 = link := by
    simp only [branchCode, getLsbD_append]
    cases link <;> rfl
  have own : condition (branchCode cond link offset) = cond := by
    rw [condition, top, Condition.ofBits_bits]
  have form : form cpu.isV5 (branchCode cond link offset) = .branch := by
    rw [form, key_eq, high]
    exact classify_branch ..
  have away : (branchCode cond link offset).setWidth 24 = offset := BitVec.setWidth_append_eq_right
  rw [decode_of_ne_never cpu addr (by rw [own]; exact h), own, form, ArmForm.op, links,
    branchTarget_eq away]

/-- The word of a branch to THUMB code has the unconditional encoding, where the link bit says which half
of a word the target is in. -/
theorem decode_branchThumbCode {cpu : Cpu} (v5 : cpu.isV5 = true) (addr : Word) (half : Bool)
    (offset : BitVec 24) :
    decode cpu addr (branchThumbCode half offset) =
      { cpu, addr, raw := branchThumbCode half offset, thumb := false, cond := .always
        op := .branch true true
          (addr + 8 + BitVec.ofInt 32 (4 * offset.toInt) + if half then 2 else 0) } := by
  obtain ⟨top, high⟩ : field (branchThumbCode half offset) 28 = 0xF ∧
      field (branchThumbCode half offset) 24 = if half then 0xB else 0xA := by
    simp (disch := decide) only [field, branchThumbCode, extractLsb'_append_eq_of_le,
      extractLsb'_append_eq_of_add_le]
    simp
  have halves : (branchThumbCode half offset).getLsbD 24 = half := by
    simp only [branchThumbCode, getLsbD_append]
    cases half <;> rfl
  have own : condition (branchThumbCode half offset) = .never := by
    rw [condition, top]
    rfl
  have kind : Row.classify unconditionalRows .undefined true (key (branchThumbCode half offset)) =
      .branch := by
    rw [key_eq, high]
    exact classify_branchThumb ..
  have away : (branchThumbCode half offset).setWidth 24 = offset := BitVec.setWidth_append_eq_right
  rw [decode, if_pos ⟨own, v5⟩, unconditional, kind]
  dsimp only
  rw [halves, branchTarget_eq away]
  cases half <;> rfl

/-- The word of a branch to a register decodes to it. Linking with it is for the newer processor. -/
theorem decode_exchangeCode {cpu : Cpu} (addr : Word) {cond : Condition} (h : cond ≠ .never)
    {link : Bool} (known : link = true → cpu.isV5 = true) (rm : Reg) :
    decode cpu addr (exchangeCode cond link rm) =
      { cpu, addr, raw := exchangeCode cond link rm, thumb := false, cond
        op := .branchExchange link rm } := by
  obtain ⟨top, high, middle, low, ones, register⟩ :
      field (exchangeCode cond link rm) 28 = cond.bits ∧ field (exchangeCode cond link rm) 24 = 1 ∧
        field (exchangeCode cond link rm) 20 = 2 ∧
        field (exchangeCode cond link rm) 4 = (if link then 3 else 1) ∧
        (exchangeCode cond link rm).extractLsb' 8 12 = 0xFFF ∧
        field (exchangeCode cond link rm) 0 = rm := by
    simp (disch := decide) only [field, exchangeCode, extractLsb'_append_eq_of_le,
      extractLsb'_append_eq_of_add_le]
    simp
  have own : condition (exchangeCode cond link rm) = cond := by
    rw [condition, top, Condition.ofBits_bits]
  have form : form cpu.isV5 (exchangeCode cond link rm) = .branchExchange link := by
    rw [form, key_eq, high, middle, low]
    cases link with
    | false => cases cpu.isV5 <;> decide
    | true =>
      rw [known rfl]
      decide
  rw [decode_of_ne_never cpu addr (by rw [own]; exact h), own, form, ArmForm.op, if_pos ones, register]

end Arm

/-! ## THUMB

The same for halfwords. Most fields are read from an appended bit vector, and where a half of the long
branch is read twice, the bits in between are settled by going through all values of a small field.
-/

namespace Thumb

/-- The compare of two of the lower eight registers. -/
def compareCode (rn rm : BitVec 3) : Halfword := 0b0100001010#10 ++ rm ++ rn

/-- The compare of any two registers. -/
def compareHighCode (rn rm : Reg) : Halfword :=
  0b01000101#8 ++ rn.extractLsb' 3 1 ++ rm ++ rn.extractLsb' 0 3

/-- The conditional branch by a number of halfwords. -/
def branchCode (cond : Condition) (offset : BitVec 8) : Halfword := 0xD#4 ++ cond.bits ++ offset

/-- The branch to a register, with link or without. -/
def exchangeCode (link : Bool) (rm : Reg) : Halfword :=
  0b01000111#8 ++ (if link then 1#1 else 0#1) ++ rm ++ 0#3

/-- The first half of a long branch with link. -/
def linkPrefixCode (high : BitVec 11) : Halfword := 0b11110#5 ++ high

/-- The second half, into ARM if `exchange` says so. -/
def linkSuffixCode (exchange : Bool) (low : BitVec 11) : Halfword :=
  (if exchange then 0b11101#5 else 0b11111#5) ++ low

/-- The key of an instruction, from a field of eight bits and two bits below it. -/
theorem key_eq (raw : Halfword) :
    key raw = (raw.extractLsb' 8 8 ++ (raw.extractLsb' 7 1 ++ raw.extractLsb' 6 1 : BitVec 2)) := by
  have low : raw.extractLsb' 7 1 ++ raw.extractLsb' 6 1 = raw.extractLsb' 6 2 :=
    BitVec.extractLsb'_append_extractLsb'_eq_extractLsb' rfl
  have whole : raw.extractLsb' 8 8 ++ raw.extractLsb' 6 2 = raw.extractLsb' 6 10 :=
    BitVec.extractLsb'_append_extractLsb'_eq_extractLsb' rfl
  rw [low]
  exact whole.symm

/-- The same from a field of five bits and the five below it. -/
theorem key_eq_halves (raw : Halfword) :
    key raw = (raw.extractLsb' 11 5 ++ raw.extractLsb' 6 5 : BitVec 10) := by
  have whole : raw.extractLsb' 11 5 ++ raw.extractLsb' 6 5 = raw.extractLsb' 6 10 :=
    BitVec.extractLsb'_append_extractLsb'_eq_extractLsb' rfl
  exact whole.symm

/-- Only the conditional branch has a condition. -/
theorem condition_of_top {raw : Halfword} (h : raw.extractLsb' 12 4 ≠ 0xD) :
    condition raw = .always :=
  if_neg fun both => h both.1

/-- The two lowest bits of the key do not matter for a conditional branch. -/
theorem classify_branch {cond : Condition} (always : cond ≠ .always) (never : cond ≠ .never) (v5 : Bool)
    (x y : BitVec 1) :
    Row.classify rows .undefined v5 ((0xD#4 ++ cond.bits : BitVec 8) ++ (x ++ y : BitVec 2)) =
      .conditionalBranch := by
  revert v5 x y
  cases cond with
  | always => exact absurd rfl always
  | never => exact absurd rfl never
  | _ => decide +kernel

/-- A comparison of low registers. -/
theorem decode_compareCode (cpu : Cpu) (addr : Word) (rn rm : BitVec 3) :
    decode cpu addr (compareCode rn rm) =
      { cpu, addr, raw := (compareCode rn rm).setWidth 32, thumb := true, cond := .always
        op := .alu .cmp true (rn.setWidth 4) (rn.setWidth 4) (.ofReg (rm.setWidth 4)) } := by
  obtain ⟨top, kind, op, first, second⟩ :
      (compareCode rn rm).extractLsb' 12 4 = 4 ∧ key (compareCode rn rm) = 0b0100001010 ∧
        (compareCode rn rm).extractLsb' 6 4 = 0xA ∧ (compareCode rn rm).extractLsb' 0 3 = rn ∧
        (compareCode rn rm).extractLsb' 3 3 = rm := by
    simp (disch := decide) only [key, compareCode, extractLsb'_append_eq_of_le,
      extractLsb'_append_eq_of_add_le]
    simp
  have form : form cpu.isV5 (compareCode rn rm) = .alu := by
    rw [form, kind]
    cases cpu.isV5 <;> decide
  have op : ThumbForm.alu.op (compareCode rn rm) addr =
      .alu .cmp true (rn.setWidth 4) (rn.setWidth 4) (.ofReg (rm.setWidth 4)) := by
    rw [ThumbForm.op, aluOp, op, lowReg, first, lowReg, second]
    rfl
  rw [decode, condition_of_top (by rw [top]; decide), form, op]

/-- A comparison that reaches all registers, of which the first is taken from two places of the halfword.
-/
theorem decode_compareHighCode (cpu : Cpu) (addr : Word) (rn rm : Reg) :
    decode cpu addr (compareHighCode rn rm) =
      { cpu, addr, raw := (compareHighCode rn rm).setWidth 32, thumb := true, cond := .always
        op := .alu .cmp true rn rn (.ofReg rm) } := by
  obtain ⟨top, kind, upper, lower, second⟩ :
      (compareHighCode rn rm).extractLsb' 12 4 = 4 ∧
        (compareHighCode rn rm).extractLsb' 8 8 = 0b01000101 ∧
        (compareHighCode rn rm).extractLsb' 7 1 = rn.extractLsb' 3 1 ∧
        (compareHighCode rn rm).extractLsb' 0 3 = rn.extractLsb' 0 3 ∧
        (compareHighCode rn rm).extractLsb' 3 4 = rm := by
    simp (disch := decide) only [compareHighCode, extractLsb'_append_eq_of_le,
      extractLsb'_append_eq_of_add_le]
    simp
  have first : highDest (compareHighCode rn rm) = rn := by
    rw [highDest, upper, lower]
    exact BitVec.extractLsb'_append_extractLsb'
  have form : form cpu.isV5 (compareHighCode rn rm) = .high .cmp := by
    rw [form, key_eq, kind]
    generalize (compareHighCode rn rm).extractLsb' 7 1 = x
    generalize (compareHighCode rn rm).extractLsb' 6 1 = y
    revert x y
    cases cpu.isV5 <;> decide +kernel
  have op : (ThumbForm.high .cmp).op (compareHighCode rn rm) addr = .alu .cmp true rn rn (.ofReg rm) := by
    rw [ThumbForm.op, first, highSource, second]
    rfl
  rw [decode, condition_of_top (by rw [top]; decide), form, op]

/-- A conditional branch. Its condition is in the halfword, and two values of the field are no conditions.
-/
theorem decode_branchCode (cpu : Cpu) (addr : Word) {cond : Condition} (always : cond ≠ .always)
    (never : cond ≠ .never) (offset : BitVec 8) :
    decode cpu addr (branchCode cond offset) =
      { cpu, addr, raw := (branchCode cond offset).setWidth 32, thumb := true, cond
        op := .branch false false (addr + 4 + BitVec.ofInt 32 (2 * offset.toInt)) } := by
  obtain ⟨top, own, kind, away⟩ :
      (branchCode cond offset).extractLsb' 12 4 = 0xD ∧
        (branchCode cond offset).extractLsb' 8 4 = cond.bits ∧
        (branchCode cond offset).extractLsb' 8 8 = 0xD#4 ++ cond.bits ∧
        (branchCode cond offset).extractLsb' 0 8 = offset := by
    simp (disch := decide) only [branchCode, extractLsb'_append_eq_of_le,
      extractLsb'_append_eq_of_add_le]
    simp
  have few : cond.bits.toNat < 14 := by
    cases cond with
    | always => exact absurd rfl always
    | never => exact absurd rfl never
    | _ => decide
  have own : condition (branchCode cond offset) = cond := by
    rw [condition, own, if_pos ⟨top, few⟩, Condition.ofBits_bits]
  have form : form cpu.isV5 (branchCode cond offset) = .conditionalBranch := by
    rw [form, key_eq, kind]
    exact classify_branch always never ..
  rw [decode, own, form, ThumbForm.op, away, signExtend_shiftLeft]
  rfl

/-- A branch to a register. -/
theorem decode_exchangeCode {cpu : Cpu} (addr : Word) {link : Bool}
    (known : link = true → cpu.isV5 = true) (rm : Reg) :
    decode cpu addr (exchangeCode link rm) =
      { cpu, addr, raw := (exchangeCode link rm).setWidth 32, thumb := true, cond := .always
        op := .branchExchange link rm } := by
  obtain ⟨top, kind, links, register⟩ :
      (exchangeCode link rm).extractLsb' 12 4 = 4 ∧
        (exchangeCode link rm).extractLsb' 8 8 = 0b01000111 ∧
        (exchangeCode link rm).extractLsb' 7 1 = (if link then 1 else 0) ∧
        (exchangeCode link rm).extractLsb' 3 4 = rm := by
    simp (disch := decide) only [exchangeCode, extractLsb'_append_eq_of_le,
      extractLsb'_append_eq_of_add_le]
    simp
  have form : form cpu.isV5 (exchangeCode link rm) = .branchExchange link := by
    rw [form, key_eq, kind, links]
    generalize (exchangeCode link rm).extractLsb' 6 1 = x
    revert x
    cases link with
    | false => cases cpu.isV5 <;> decide
    | true =>
      rw [known rfl]
      decide
  rw [decode, condition_of_top (by rw [top]; decide), form, ThumbForm.op, highSource, register]

theorem signExtend_signed11 (raw : Halfword) :
    (Bits.signed11 raw).signExtend 32 = (raw.setWidth 11).signExtend 32 := by
  rw [Bits.signed11, BitVec.signExtend, BitVec.toInt_signExtend_of_le (by decide)]
  rfl

/-- The first half of a long branch, which has the upper bits of the offset. -/
theorem decode_linkPrefixCode (cpu : Cpu) (addr : Word) (high : BitVec 11) :
    decode cpu addr (linkPrefixCode high) =
      { cpu, addr, raw := (linkPrefixCode high).setWidth 32, thumb := true, cond := .always
        op := .linkPrefix (addr + (4 : Word) + (high.signExtend 32 <<< 12)) } := by
  obtain ⟨top, kind⟩ : (linkPrefixCode high).extractLsb' 12 4 = 0xF ∧
      (linkPrefixCode high).extractLsb' 11 5 = 0b11110 := by
    simp (disch := decide) only [linkPrefixCode, extractLsb'_append_eq_of_le]
    simp
  have away : (linkPrefixCode high).setWidth 11 = high := BitVec.setWidth_append_eq_right
  have form : form cpu.isV5 (linkPrefixCode high) = .linkPrefix := by
    rw [form, key_eq_halves, kind]
    generalize (linkPrefixCode high).extractLsb' 6 5 = x
    revert x
    cases cpu.isV5 <;> decide +kernel
  rw [decode, condition_of_top (by rw [top]; decide), form, ThumbForm.op, signExtend_signed11, away]
  rfl

/-- The second half, which has the lower bits and says whether it goes to ARM code. -/
theorem decode_linkSuffixCode {cpu : Cpu} (addr : Word) {exchange : Bool}
    (known : exchange = true → cpu.isV5 = true) (low : BitVec 11) :
    decode cpu addr (linkSuffixCode exchange low) =
      { cpu, addr, raw := (linkSuffixCode exchange low).setWidth 32, thumb := true, cond := .always
        op := .linkSuffix (low.setWidth 32 <<< 1) exchange } := by
  obtain ⟨top, kind, away⟩ :
      (linkSuffixCode exchange low).extractLsb' 12 4 = (if exchange then 0xE else 0xF) ∧
        (linkSuffixCode exchange low).extractLsb' 11 5 = (if exchange then 0b11101 else 0b11111) ∧
        (linkSuffixCode exchange low).extractLsb' 0 11 = low := by
    simp (disch := decide) only [linkSuffixCode, extractLsb'_append_eq_of_le,
      extractLsb'_append_eq_of_add_le]
    cases exchange <;> simp
  have form : form cpu.isV5 (linkSuffixCode exchange low) = .linkSuffix exchange := by
    rw [form, key_eq_halves, kind]
    generalize (linkSuffixCode exchange low).extractLsb' 6 5 = x
    revert x
    cases exchange with
    | false => cases cpu.isV5 <;> decide +kernel
    | true =>
      rw [known rfl]
      decide +kernel
  have plain : condition (linkSuffixCode exchange low) = .always := by
    refine condition_of_top ?_
    rw [top]
    cases exchange <;> decide
  rw [decode, plain, form, ThumbForm.op, away]

end Thumb

end ArmBlocks
