import ArmBlocks.Proofs.LivenessSound
import ArmBlocks.Proofs.OneBitShifts

/-!
# What a decoder makes of any word

An operation has more values than the decoders ever produce: a pair of registers that starts at r15, a
shift to the left by forty, a comparison that records nothing. What executes an operation relies on not
meeting these. `Op.Consistent` says what is relied upon, and it holds of **whatever is decoded, for both
processors, at every address and from every word and halfword** (`Arm.consistent_decode`,
`Thumb.consistent_decode`), and of what removing flags leaves of it (`CodeCache.consistent_prepare`).

For most forms that is read off `ArmForm.op` and `ThumbForm.op`. Two facts are about the tables. The
space of comparisons that record nothing belongs to status transfers and to rows without a meaning, for
both processors (`Arm.records_of_compares`); and no THUMB row moves a pair (`Thumb.isListed_form`).
-/

set_option autoImplicit false

namespace ArmBlocks

/-! ## Consistent operations -/

/-- The amounts of a fixed shift. Only to the left a word can stay where it is, and only a shift to the
right can move all of it out. -/
def ShiftKind.Allows : ShiftKind → Nat → Prop
  | .lsl, n => n ≤ 31
  | .lsr, n | .asr, n => 1 ≤ n ∧ n ≤ 32
  | .ror, n => 1 ≤ n ∧ n ≤ 31

/-- A fixed shift of an operand is by an amount that its kind allows. -/
def Operand.Consistent : Operand → Prop
  | .shifted _ kind n => kind.Allows n
  | _ => True

/-- A fixed shift of an offset is by an amount that its kind allows. -/
def Offset.Consistent : Offset → Prop
  | .shifted _ kind n => kind.Allows n
  | _ => True

/-- The numbers of the registers that an operand names. -/
def Operand.numbers : Operand → List Nat
  | .imm .. => []
  | .shifted rm .. | .rrx rm => [rm.toNat]
  | .shiftedBy rm _ rs => [rm.toNat, rs.toNat]

/-- The numbers of the registers that an offset names. -/
def Offset.numbers : Offset → List Nat
  | .imm _ => []
  | .shifted rm .. | .rrx rm => [rm.toNat]

namespace Op

/-- The numbers of the registers that an operation names, and of the second one of a pair, which is
counted on from the first as a number. -/
def numbers : Op → List Nat
  | .alu _ _ rd rn operand => [rd.toNat, rn.toNat] ++ operand.numbers
  | .mul _ _ rd rn rs rm | .halfMul _ rd rn rs rm _ _ => [rd.toNat, rn.toNat, rs.toNat, rm.toNat]
  | .clz rd rm => [rd.toNat, rm.toNat]
  | .sat _ rd rn rm | .swap _ rd rn rm => [rd.toNat, rn.toNat, rm.toNat]
  | .readStatus rd _ | .coproc _ _ _ _ _ _ rd => [rd.toNat]
  | .writeStatus _ _ (.reg rm) | .branchExchange _ rm => [rm.toNat]
  | .transfer kind rd rn offset _ _ =>
    [rd.toNat, rn.toNat] ++ offset.numbers ++ if kind.isDouble then [rd.toNat + 1] else []
  | .block _ _ _ _ _ rn _ _ _ => [rn.toNat]
  | _ => []

/-- An operation that means something: its fixed shifts are by an amount that there is, a comparison
records flags, a pair of registers starts at an even one, and a branch to a fixed target that changes
the instruction set is a call. -/
def Consistent : Op → Prop
  | .alu op s _ _ operand => operand.Consistent ∧ (op.writes = false → s = true)
  | .transfer kind rd _ offset _ _ => offset.Consistent ∧ (kind.isDouble = true → rd.toNat % 2 = 0)
  | .branch link exchange _ => exchange = true → link = true
  | _ => True

/-- Behind an even register there is another one. -/
theorem lt_of_mem_numbers {op : Op} (h : op.Consistent) : ∀ n ∈ op.numbers, n < 16 := by
  have reg (r : Reg) : r.toNat < 16 := r.isLt
  have operands (operand : Operand) : ∀ n ∈ operand.numbers, n < 16 := by
    cases operand <;> simp [Operand.numbers, reg]
  have offsets (offset : Offset) : ∀ n ∈ offset.numbers, n < 16 := by
    cases offset <;> simp [Offset.numbers, reg]
  cases op with
  | alu op s rd rn operand => simpa [numbers, reg] using operands operand
  | transfer kind rd rn offset index up =>
    have second : kind.isDouble = true → rd.toNat + 1 < 16 := fun pair => by
      have even := h.2 pair
      have range := reg rd
      omega
    intro n hn
    simp only [numbers, List.mem_append, List.mem_cons, List.not_mem_nil, or_false,
      List.mem_ite_nil_right] at hn
    rcases hn with ((rfl | rfl) | inside) | ⟨pair, rfl⟩
    · exact reg rd
    · exact reg rn
    · exact offsets offset n inside
    · exact second pair
  | writeStatus saved fields source => cases source <;> simp [numbers, reg]
  | _ => simp [numbers, reg]

end Op

/-- The encoded amounts of fixed shifts are among those that their kinds allow. -/
theorem Operand.consistent_ofShift (rm : Reg) (kind : ShiftKind) (amount : BitVec 5) :
    (ofShift rm kind amount).Consistent := by
  have range := amount.isLt
  have zero : amount = 0 ↔ amount.toNat = 0 := by rw [BitVec.toNat_eq]; rfl
  cases kind with
  | lsl => exact Nat.le_of_lt_succ range
  | lsr | asr =>
    have bounds : 1 ≤ (if amount = 0 then 32 else amount.toNat) ∧
        (if amount = 0 then 32 else amount.toNat) ≤ 32 := by
      simp only [zero]
      split <;> omega
    exact bounds
  | ror =>
    unfold ofShift
    dsimp only
    split
    · trivial
    · rename_i moves
      rw [zero] at moves
      exact ⟨Nat.pos_of_ne_zero moves, Nat.le_of_lt_succ range⟩

/-- What is decoded for a shifted offset is consistent. A rotation by zero stands for the rotation through
the carry, which is another kind of offset. -/
theorem Offset.consistent_ofShift (rm : Reg) (kind : ShiftKind) (amount : BitVec 5) :
    (ofShift rm kind amount).Consistent := by
  have same := Operand.consistent_ofShift rm kind amount
  cases kind with
  | lsl | lsr | asr => exact same
  | ror =>
    unfold ofShift
    unfold Operand.ofShift at same
    dsimp only at same ⊢
    split
    · trivial
    · rename_i moves
      rw [if_neg moves] at same
      exact same

/-! ## ARM

The rows of the decoder see to most of it. Data processing instructions that compare without setting
the flags are the exception: their encodings belong to other rows, which stand in front.
-/

namespace Arm

/-- The forms of data processing. -/
def isAlu : ArmForm → Bool
  | .aluShifted | .aluShiftedBy | .aluImm => true
  | _ => false

theorem even_of_getLsbD {r : Reg} (even : ¬r.getLsbD 0 = true) : r.toNat % 2 = 0 := by
  rw [BitVec.getLsbD, Nat.testBit_zero, decide_eq_true_eq] at even
  omega

/-- Whatever form a word has, what it means is consistent. Of data processing that is known where a
comparison records flags. -/
theorem consistent_op (form : ArmForm) (raw addr : Word)
    (records : isAlu form = true → (AluOp.ofBits (field raw 21)).writes = false →
      raw.getLsbD 20 = true) : (form.op raw addr).Consistent := by
  cases form with
  | branch => exact fun exchange => Bool.noConfusion exchange
  | branchExchange =>
    unfold ArmForm.op
    dsimp only
    split <;> trivial
  | half =>
    refine ⟨?_, fun pair => ?_⟩
    · unfold smallOffset
      split
      · trivial
      · exact Nat.zero_le 31
    · revert pair
      split <;> exact fun pair => Bool.noConfusion pair
  | signedByte | signedHalf =>
    refine ⟨?_, fun pair => Bool.noConfusion pair⟩
    unfold smallOffset
    split
    · trivial
    · exact Nat.zero_le 31
  -- an odd register makes the row undefined, so that what is left is even
  | double =>
    unfold ArmForm.op
    dsimp only
    split
    · trivial
    · rename_i even
      refine ⟨?_, fun _ => even_of_getLsbD even⟩
      unfold smallOffset
      split
      · trivial
      · exact Nat.zero_le 31
  | aluShifted => exact ⟨Operand.consistent_ofShift .., records rfl⟩
  | aluShiftedBy | aluImm => exact ⟨trivial, records rfl⟩
  | transferImm | transferReg =>
    have single : (wordOrByte raw).isDouble = false := by
      unfold wordOrByte
      split <;> rfl
    refine ⟨?_, fun pair => Bool.noConfusion (single.symm.trans pair)⟩
    first
      | trivial
      | exact Offset.consistent_ofShift ..
  | _ => trivial

/-- The patterns that cover the comparisons that record nothing: status transfers with a register, those
with an immediate, the space beside these, and everything that is not data processing. -/
def silentCompares : List (Pattern 12) :=
  [ ⟨0b1111_1001_0000, 0b0001_0000_0000⟩
  , ⟨0b1111_1011_0000, 0b0011_0010_0000⟩
  , ⟨0b1111_1011_0000, 0b0011_0000_0000⟩
  , ⟨0b0100_0000_0000, 0b0100_0000_0000⟩
  , ⟨0b1000_0000_0000, 0b1000_0000_0000⟩ ]

/-- A comparison among the forms of data processing records flags. -/
theorem records_of_compares {v5 : Bool} {raw : Word} (alu : isAlu (form v5 raw) = true)
    (compares : (AluOp.ofBits (field raw 21)).writes = false) : raw.getLsbD 20 = true := by
  -- a comparison that does not set the flags lies in the space of the rows in front
  have pieces : ∀ (space : BitVec 3) (low : BitVec 2) (shift : BitVec 3) (bit : Bool),
      ∃ p ∈ silentCompares, p.accepts
        (space ++ 2#2 ++ low ++ BitVec.ofBool false ++ shift ++ BitVec.ofBool bit) = true := by
    decide +kernel
  have settled : ∀ p ∈ silentCompares, Row.yields (fun f => !isAlu f) .undefined p rows := by decide
  have upper : ∀ op : BitVec 4, (AluOp.ofBits op).writes = false → op.extractLsb' 2 2 = 2#2 := by decide
  have op : raw.extractLsb' 23 2 = 2#2 := by
    rw [← upper _ compares]
    refine BitVec.eq_of_getLsbD_eq fun i inside => ?_
    simp only [field, BitVec.getLsbD_extractLsb']
    interval_cases i <;> simp
  by_contra unset
  obtain ⟨p, listed, accepts⟩ := pieces (raw.extractLsb' 25 3) (raw.extractLsb' 21 2)
    (raw.extractLsb' 5 3) (raw.getLsbD 4)
  have cut := key_eq_spaces raw
  rw [op, Bool.eq_false_iff.mpr unset] at cut
  rw [← cut] at accepts
  have other := Row.classify_of_yields accepts v5 (settled p listed)
  rw [form] at alu
  rw [alu] at other
  exact Bool.noConfusion other

theorem consistent_unconditional (raw addr : Word) : (unconditional raw addr).Consistent := by
  unfold unconditional
  split
  · exact fun _ => rfl
  · trivial
  · trivial

theorem consistent_decode (cpu : Cpu) (addr raw : Word) : (decode cpu addr raw).op.Consistent := by
  unfold decode
  split
  · exact consistent_unconditional raw addr
  · exact consistent_op _ raw addr records_of_compares

end Arm

/-! ## THUMB

No form of the table moves a pair, and the shifts that a halfword encodes are those of fixed amounts.
The table is looked through once for the first; the rest is read off the forms.
-/

/-- All that a table makes of a key is among its forms. -/
theorem Row.classify_of_all {w : Nat} {α : Type} {asked : α → Bool} {otherwise : α}
    {rows : List (Row w α)} (all : (rows.all fun r => asked r.form) = true)
    (rest : asked otherwise = true) (v5 : Bool) (key : BitVec w) :
    asked (classify rows otherwise v5 key) = true := by
  unfold classify
  split
  · rename_i r found
    exact List.all_eq_true.mp all r (List.mem_of_find?_eq_some found)
  · exact rest

namespace Thumb

/-- The forms of the table: none moves a pair. -/
def isListed : ThumbForm → Bool
  | .transferReg kind | .transferImm kind _ | .transferSp kind => !kind.isDouble
  | _ => true

theorem isListed_form (v5 : Bool) (raw : Halfword) : isListed (form v5 raw) = true :=
  Row.classify_of_all (by decide) rfl v5 (key raw)

/-- The sixteen operations of a THUMB halfword are consistent. -/
theorem consistent_aluOp (raw : Halfword) : (aluOp raw).Consistent := by
  unfold aluOp
  dsimp only
  split
  all_goals first
    | trivial
    | exact ⟨trivial, fun _ => rfl⟩
    | exact ⟨Nat.zero_le 31, fun _ => rfl⟩

/-- So is every operation of a form that the table lists. -/
theorem consistent_op {form : ThumbForm} (listed : isListed form = true) (raw : Halfword)
    (addr : Word) : (form.op raw addr).Consistent := by
  -- only the double transfers have a register behind the first one, and no listed form is one
  have single {kind : TransferKind} {rd : Reg} (listed : (!kind.isDouble) = true) :
      kind.isDouble = true → rd.toNat % 2 = 0 := fun pair => by
    rw [pair] at listed
    exact Bool.noConfusion listed
  cases form with
  | shifted => exact ⟨Operand.consistent_ofShift .., fun _ => rfl⟩
  | sumReg => exact ⟨Nat.zero_le 31, fun _ => rfl⟩
  | sumImm | imm => exact ⟨trivial, fun _ => rfl⟩
  | alu => exact consistent_aluOp raw
  | high op => exact ⟨Nat.zero_le 31, fun compares => congrArg not compares⟩
  | loadPcRelative => exact ⟨trivial, fun pair => Bool.noConfusion pair⟩
  | transferReg => exact ⟨Nat.zero_le 31, single listed⟩
  | transferImm | transferSp => exact ⟨trivial, single listed⟩
  | addressPc | addressSp => exact ⟨trivial, fun compares => Bool.noConfusion compares⟩
  | moveSp =>
    refine ⟨trivial, fun compares => ?_⟩
    revert compares
    split <;> exact fun compares => Bool.noConfusion compares
  | conditionalBranch | branch => exact fun exchange => Bool.noConfusion exchange
  | _ => trivial

theorem consistent_decode (cpu : Cpu) (addr : Word) (raw : Halfword) :
    (decode cpu addr raw).op.Consistent :=
  consistent_op (isListed_form cpu.isV5 raw) raw addr

/-- The two patterns of the condition field that are no conditions are left to other instructions. -/
theorem condition_ne_never (raw : Halfword) : condition raw ≠ .never := by
  have fields : ∀ bits : BitVec 4, bits.toNat < 14 → Condition.ofBits bits ≠ .never := by decide
  unfold condition
  split
  · rename_i own
    exact fields _ own.2
  · exact fun h => Condition.noConfusion h

end Thumb

/-! ## Without flags

Taking the flag computation out of an operation leaves one with the same registers, or one that does
nothing but take its cycles.
-/

/-- What is left of an operation whose flags are dead is consistent, as a comparison, which has nothing but
flags, becomes one that does nothing. -/
theorem Op.consistent_withoutFlags {op simple : Op} (h : op.withoutFlags? = some simple)
    (consistent : op.Consistent) : simple.Consistent := by
  unfold withoutFlags? at h
  split at h
  · split at h
    · split at h
      · rename_i writes
        cases h
        exact ⟨consistent.1, fun compares => absurd (compares.symm.trans writes) Bool.false_ne_true⟩
      · cases h
        trivial
    · cases h
  · split at h
    · cases h
      trivial
    · cases h
  · cases h

/-- What is done to a run before it is emitted leaves its operations consistent. -/
theorem CodeCache.consistent_prepare {run : List Instruction} (all : ∀ i ∈ run, i.op.Consistent)
    (config : Config) : ∀ i ∈ prepare config run, i.op.Consistent :=
  Liveness.forall_prepare Op.consistent_withoutFlags all config

end ArmBlocks
