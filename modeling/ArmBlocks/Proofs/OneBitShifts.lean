import Mathlib.Logic.Function.Iterate
import Mathlib.Tactic.IntervalCases
import ArmBlocks.Proofs.BranchCodes
import ArmBlocks.Proofs.FlagAgreement

/-!
# Shifting bit by bit

The shifter answers any amount at once, with cases at 0, at 32 and above it, and a rule for the carry in
each. Here is what it is meant to do: **a shift by `n` is `n` steps by one bit** (`ShiftKind.apply_eq`).
A step moves every bit to the next place. What is moved out at one end becomes the carry, and the kinds
differ only in what enters at the other: nothing, a copy of the sign, or the bit that was moved out.

Rotation through the carry is a step as well, the one where the carry enters. The encodings have no place
of their own for it: it is written as a rotation by zero, while zero means 32 for the other shifts to
the right. `ShiftKind.encoded` says this in terms of steps, and decoding the instructions that shift
their second operand by a fixed amount keeps to it.
-/

set_option autoImplicit false

namespace ArmBlocks

/-! ## Steps

A shift by some amount is that many shifts by one, each of which hands the bit that falls out to the
carry. Both sides are compared bit by bit, the step that is added last.
-/

namespace Shift

/-- One step to the right: the word with a bit entered at the top, and the bit moved out below. -/
def stepRight (enters : Bool) (x : Word) : Word × Bool :=
  ((x.extractLsb' 1 31).cons enters, x.getLsbD 0)

/-- One step to the left: the word with a clear bit entered below, and the bit moved out at the top. -/
def stepLeft (x : Word) : Word × Bool := ((x.extractLsb' 0 31).concat false, x.getLsbD 31)

/-- A step to the right moves each bit down by one, and what enters is on top. -/
theorem getLsbD_stepRight (enters : Bool) (x : Word) (i : Nat) :
    (stepRight enters x).1.getLsbD i = if i = 31 then enters else x.getLsbD (i + 1) := by
  rw [stepRight, BitVec.getLsbD_cons, BitVec.getLsbD_extractLsb', Nat.add_comm 1 i]
  by_cases top : i = 31
  · simp [top]
  · by_cases inside : i < 31
    · simp [top, inside]
    · simp [top, inside, BitVec.getLsbD_of_ge x (i + 1) (by omega)]

theorem getLsbD_stepLeft (x : Word) {i : Nat} (inside : i < 32) :
    (stepLeft x).1.getLsbD i = (decide (0 < i) && x.getLsbD (i - 1)) := by
  rw [stepLeft, BitVec.getLsbD_concat, BitVec.getLsbD_extractLsb', Nat.zero_add]
  by_cases bottom : i = 0
  · simp [bottom]
  · simp [bottom, Nat.pos_of_ne_zero bottom, show i - 1 < 31 by omega]

/-- A rotation renames the places. -/
theorem getLsbD_rotateRight (x : Word) (n : Nat) {i : Nat} (inside : i < 32) :
    (x.rotateRight n).getLsbD i = x.getLsbD ((i + n) % 32) := by
  rw [BitVec.getLsbD_rotateRight, decide_eq_true inside, Bool.true_and]
  by_cases low : i < 32 - n % 32
  · rw [decide_eq_true low, cond_true]
    congr 1
    omega
  · rw [decide_eq_false low, cond_false]
    congr 1
    omega

end Shift

namespace ShiftKind

/-- A step of a kind. The carry that comes in plays no part in it. -/
def step (kind : ShiftKind) (x : Word × Bool) : Word × Bool :=
  match kind with
  | .lsl => Shift.stepLeft x.1
  | .lsr => Shift.stepRight false x.1
  | .asr => Shift.stepRight x.1.msb x.1
  | .ror => Shift.stepRight (x.1.getLsbD 0) x.1

/-- The word that a shift leaves. Here no amount is special. -/
def word (kind : ShiftKind) (x : Word) (n : Nat) : Word :=
  match kind with
  | .lsl => x <<< n
  | .lsr => x >>> n
  | .asr => x.sshiftRight n
  | .ror => x.rotateRight n

variable (kind : ShiftKind) (x : Word) (n : Nat) (carry : Bool)

/-- The value of a shift is that of the word, whichever of the cases for large amounts it is. -/
theorem fst_apply : (kind.apply x n carry).1 = kind.word x n := by
  by_cases none : n = 0
  · subst none
    rw [apply_zero]
    cases kind with
    | lsl => exact (BitVec.shiftLeft_zero x).symm
    | lsr => exact (BitVec.ushiftRight_zero x).symm
    | asr => exact BitVec.sshiftRight_zero.symm
    | ror => exact (BitVec.eq_of_getLsbD_eq fun i inside => by
        rw [word, Shift.getLsbD_rotateRight x 0 inside, Nat.add_zero, Nat.mod_eq_of_lt inside])
  · cases kind with
    | lsl =>
      by_cases within : n ≤ 32
      · simp only [apply, Shift.lsl, if_neg none, if_pos within, word]
      · simp only [apply, Shift.lsl, if_neg none, if_neg within, word]
        exact (BitVec.shiftLeft_eq_zero (by omega)).symm
    | lsr => simp only [apply, Shift.lsr, if_neg none, word]
    | asr => simp only [apply, Shift.asr, if_neg none, word]
    | ror => simp only [apply, Shift.ror, if_neg none, word]

/-- One more step moves the word on. -/
theorem word_succ : kind.word x (n + 1) = (kind.step (kind.word x n, carry)).1 := by
  refine BitVec.eq_of_getLsbD_eq fun i inside => ?_
  cases kind with
  | lsl =>
    rw [step, Shift.getLsbD_stepLeft _ inside]
    simp only [word, BitVec.getLsbD_shiftLeft]
    grind
  | lsr =>
    rw [step, Shift.getLsbD_stepRight]
    simp only [word, BitVec.getLsbD_ushiftRight]
    grind
  | asr =>
    rw [step, Shift.getLsbD_stepRight]
    simp only [word, BitVec.getLsbD_sshiftRight]
    grind
  | ror =>
    rw [step, Shift.getLsbD_stepRight]
    -- the top bit is the one that came out at the bottom
    by_cases top : i = 31
    · rw [if_pos top, word, word, Shift.getLsbD_rotateRight x (n + 1) inside,
        Shift.getLsbD_rotateRight x n (by omega)]
      congr 1
      omega
    · rw [if_neg top, word, word, Shift.getLsbD_rotateRight x (n + 1) inside,
        Shift.getLsbD_rotateRight x n (by omega)]
      congr 1
      omega

/-- The carry is the bit that the last step moved out. -/
theorem snd_apply_succ :
    (kind.apply x (n + 1) carry).2 = (kind.step (kind.word x n, carry)).2 := by
  cases kind with
  | lsl =>
    simp only [apply, Shift.lsl, step, Shift.stepLeft, word, BitVec.getLsbD_shiftLeft]
    grind
  | lsr =>
    simp only [apply, Shift.lsr, step, Shift.stepRight, word, BitVec.getLsbD_ushiftRight]
    grind
  | asr =>
    simp only [apply, Shift.asr, step, Shift.stepRight, word, BitVec.getLsbD_sshiftRight,
      BitVec.msb_eq_getLsbD_last]
    grind
  | ror =>
    simp only [apply, Shift.ror, step, Shift.stepRight, word, BitVec.msb_eq_getLsbD_last]
    rw [if_neg (Nat.succ_ne_zero n), Shift.getLsbD_rotateRight x (n + 1) (by decide),
      Shift.getLsbD_rotateRight x n (by decide), show (32 - 1 + (n + 1)) % 32 = (0 + n) % 32 by omega]

theorem apply_succ : kind.apply x (n + 1) carry = kind.step (kind.apply x n carry) := by
  have ignores : kind.step (kind.apply x n carry) = kind.step (kind.word x n, carry) := by
    rw [← fst_apply kind x n carry]
    cases kind <;> rfl
  rw [ignores]
  exact Prod.ext ((fst_apply ..).trans (word_succ ..)) (snd_apply_succ ..)

/-- A shift by any amount is that many steps. -/
theorem apply_eq : kind.apply x n carry = kind.step^[n] (x, carry) := by
  induction n with
  | zero => exact apply_zero kind x carry
  | succ n ih => rw [apply_succ, ih, Function.iterate_succ_apply']

/-- What the encoded amount of a fixed shift asks for. Zero is its own number for the shift to the left
alone; elsewhere it stands for 32, and for one rotation through the carry. -/
def encoded (amount : BitVec 5) (x : Word × Bool) : Word × Bool :=
  if amount = 0 then
    match kind with
    | .lsl => x
    | .lsr | .asr => kind.step^[32] x
    | .ror => Shift.stepRight x.2 x.1
  else kind.step^[amount.toNat] x

end ShiftKind

/-! ## Operands

To the left an encoded zero leaves a word as it is; to the right it moves all 32 bits out; and a
rotation by it is the one by a single bit through the carry.
-/

theorem Shift.rrx_eq (x : Word) (carry : Bool) : rrx x carry = stepRight carry x := by
  refine Prod.ext (BitVec.eq_of_getLsbD_eq fun i inside => ?_) rfl
  have put : (rrx x carry).1.getLsbD i = if 31 = i then carry else (x >>> 1).getLsbD i :=
    Bits.test_put (x >>> 1) i carry (by decide)
  rw [put, getLsbD_stepRight, BitVec.getLsbD_ushiftRight, Nat.add_comm 1 i]
  exact if_congr eq_comm rfl rfl

namespace Operand

theorem value_shifted (s : CpuState) (pc : Word) (rm : Reg) (kind : ShiftKind) (amount : Nat) :
    (shifted rm kind amount).value s pc = kind.step^[amount] (s.read pc rm, s.flag .carry) :=
  kind.apply_eq (s.read pc rm) amount (s.flag .carry)

/-- An operand made from an encoded shift is worth what the encoding asks for. -/
theorem value_ofShift (s : CpuState) (pc : Word) (rm : Reg) (kind : ShiftKind) (amount : BitVec 5) :
    (ofShift rm kind amount).value s pc = kind.encoded amount (s.read pc rm, s.flag .carry) := by
  by_cases zero : amount = 0
  · subst zero
    cases kind with
    | lsl => exact value_shifted s pc rm .lsl 0
    | lsr => exact value_shifted s pc rm .lsr 32
    | asr => exact value_shifted s pc rm .asr 32
    | ror => exact Shift.rrx_eq ..
  · have plain : kind.encoded amount (s.read pc rm, s.flag .carry) =
        kind.step^[amount.toNat] (s.read pc rm, s.flag .carry) := by
      unfold ShiftKind.encoded
      exact if_neg zero
    rw [plain, ← value_shifted]
    cases kind <;> simp only [ofShift, if_neg zero]

end Operand

/-- Single data transfers shift the register they are indexed by in the same way. -/
theorem Offset.value_ofShift (s : CpuState) (pc : Word) (rm : Reg) (kind : ShiftKind)
    (amount : BitVec 5) :
    (ofShift rm kind amount).value s pc = (kind.encoded amount (s.read pc rm, s.flag .carry)).1 := by
  rw [← Operand.value_ofShift]
  cases kind with
  | ror =>
    by_cases zero : amount = 0 <;>
      simp only [ofShift, Operand.ofShift, zero, if_true, if_false] <;> rfl
  | lsl | lsr | asr => rfl

/-! ## Instructions

That the tables decode every such encoding to such an operand is decided on the patterns of the rows;
what is in the fields is not looked at.
-/

namespace Arm

/-- The data processing instructions that shift their second operand by a fixed amount. Comparisons
that record no flags are not among them. -/
def ShiftsByAmount (raw : Word) : Prop :=
  raw.extractLsb' 25 3 = 0 ∧ raw.getLsbD 4 = false ∧
    (raw.extractLsb' 23 2 = 2 → raw.getLsbD 20 = true)
  deriving Decidable

/-- The key of an instruction, cut where these instructions are told apart. -/
theorem key_eq_spaces (raw : Word) :
    key raw = raw.extractLsb' 25 3 ++ raw.extractLsb' 23 2 ++ raw.extractLsb' 21 2 ++
      BitVec.ofBool (raw.getLsbD 20) ++ raw.extractLsb' 5 3 ++ BitVec.ofBool (raw.getLsbD 4) := by
  refine BitVec.eq_of_getLsbD_eq fun i inside => ?_
  simp only [key, BitVec.getLsbD_append, BitVec.getLsbD_extractLsb', BitVec.getLsbD_ofBool]
  interval_cases i <;> simp

/-- The patterns of these instructions: the operations before the comparisons, those behind them, and
whatever records flags. -/
def fixedShifts : List (Pattern 12) :=
  [ ⟨0b1111_0000_0001, 0b0000_0000_0000⟩
  , ⟨0b1111_1000_0001, 0b0001_1000_0000⟩
  , ⟨0b1110_0001_0001, 0b0000_0001_0000⟩ ]

/-- Every word of this encoding is accepted by a pattern for fixed shifts. The key is cut into the pieces
that are fixed and those that are free. -/
theorem accepts_of_shiftsByAmount {raw : Word} (h : ShiftsByAmount raw) :
    ∃ p ∈ fixedShifts, p.accepts (key raw) = true := by
  obtain ⟨space, fixed, compares⟩ := h
  have pieces : ∀ (set : Bool) (op low : BitVec 2) (shift : BitVec 3), (op = 2 → set = true) →
      ∃ p ∈ fixedShifts, p.accepts
        (0#3 ++ op ++ low ++ BitVec.ofBool set ++ shift ++ BitVec.ofBool false) = true := by
    decide +kernel
  rw [key_eq_spaces, space, fixed]
  exact pieces _ _ _ _ compares

/-- Every halfword of this encoding has the form of a shift. -/
theorem form_of_shiftsByAmount {raw : Word} (h : ShiftsByAmount raw) (v5 : Bool) :
    form v5 raw = .aluShifted := by
  have settled : ∀ p ∈ fixedShifts, Row.yields (· == .aluShifted) .undefined p rows := by decide
  obtain ⟨p, listed, accepted⟩ := accepts_of_shiftsByAmount h
  exact eq_of_beq (Row.classify_of_yields accepted v5 (settled p listed))

/-- So it decodes to data processing with the shift that is encoded. -/
theorem op_of_shiftsByAmount {raw : Word} (h : ShiftsByAmount raw) {cpu : Cpu}
    (old : condition raw = .never → cpu.isV5 = false) (addr : Word) :
    (decode cpu addr raw).op = alu raw (.ofShift (field raw 0) (shiftKind raw) (shiftAmount raw)) := by
  have own : ¬ (condition raw = .never ∧ cpu.isV5 = true) := fun ⟨never, v5⟩ =>
    Bool.noConfusion ((old never).symm.trans v5)
  rw [decode, if_neg own]
  simp only [form_of_shiftsByAmount h]
  rfl

end Arm

namespace Thumb

/-- The instructions that shift one register into another by a fixed amount. The fourth pattern of the
kind stands for sums. -/
def ShiftsByAmount (raw : Halfword) : Prop := raw.extractLsb' 13 3 = 0 ∧ raw.extractLsb' 11 2 ≠ 3
  deriving Decidable

/-- The kind of the shift. -/
def shiftKind (raw : Halfword) : ShiftKind := .ofBits (raw.extractLsb' 11 2)

theorem form_of_shiftsByAmount {raw : Halfword} (h : ShiftsByAmount raw) (v5 : Bool) :
    form v5 raw = .shifted (shiftKind raw) := by
  have pieces : ∀ (v5 : Bool) (kind : BitVec 2) (low : BitVec 5), kind ≠ 3 →
      Row.classify rows .undefined v5 (0#3 ++ kind ++ low) = .shifted (.ofBits kind) := by
    decide +kernel
  have cut : key raw = raw.extractLsb' 13 3 ++ raw.extractLsb' 11 2 ++ raw.extractLsb' 6 5 := by
    simp (disch := decide) only [key, BitVec.extractLsb'_append_extractLsb'_eq_extractLsb']
  rw [form, cut, h.1]
  exact pieces v5 _ _ h.2

theorem op_of_shiftsByAmount {raw : Halfword} (h : ShiftsByAmount raw) (cpu : Cpu) (addr : Word) :
    (decode cpu addr raw).op =
      .alu .mov true (lowReg raw 0) 0 (.ofShift (lowReg raw 3) (shiftKind raw) (imm5 raw)) := by
  rw [decode, form_of_shiftsByAmount h]
  rfl

end Thumb

/-- Shifting is moving on bit by bit. Every kind of shift by any amount is that many steps of the kind,
and the instructions that shift by a fixed amount have an operand that is worth what their encoded
amount asks for in steps, in every state of the processor. -/
theorem shifts_bit_by_bit :
    (∀ (kind : ShiftKind) (x : Word) (n : Nat) (carry : Bool),
      kind.apply x n carry = kind.step^[n] (x, carry)) ∧
    (∀ (cpu : Cpu) (addr raw : Word), Arm.ShiftsByAmount raw →
      (Arm.condition raw = .never → cpu.isV5 = false) →
      ∃ operand, (Arm.decode cpu addr raw).op = Arm.alu raw operand ∧ ∀ (s : CpuState) (pc : Word),
        operand.value s pc = (Arm.shiftKind raw).encoded (Arm.shiftAmount raw)
          (s.read pc (Arm.field raw 0), s.flag .carry)) ∧
    ∀ (cpu : Cpu) (addr : Word) (raw : Halfword), Thumb.ShiftsByAmount raw →
      ∃ operand, (Thumb.decode cpu addr raw).op = .alu .mov true (Thumb.lowReg raw 0) 0 operand ∧
        ∀ (s : CpuState) (pc : Word), operand.value s pc =
          (Thumb.shiftKind raw).encoded (Thumb.imm5 raw)
            (s.read pc (Thumb.lowReg raw 3), s.flag .carry) := by
  refine ⟨ShiftKind.apply_eq, fun cpu addr raw h old => ?_, fun cpu addr raw h => ?_⟩
  · exact ⟨_, Arm.op_of_shiftsByAmount h old addr, fun s pc => Operand.value_ofShift s pc ..⟩
  · exact ⟨_, Thumb.op_of_shiftsByAmount h cpu addr, fun s pc => Operand.value_ofShift s pc ..⟩

/-- `movs r0, r1, rrx` for ARM and `lsr r0, r1, #32` for THUMB, both of which encode a zero. -/
theorem shifts_by_encoded_zero :
    (∃ operand, (Arm.decode .arm9 0x100 0xE1B00061).op = .alu .mov true 0 0 operand ∧
      ∀ (s : CpuState) (pc : Word),
        operand.value s pc = Shift.stepRight (s.flag .carry) (s.read pc 1)) ∧
    ∃ operand, (Thumb.decode .arm7 0x100 0x0808).op = .alu .mov true 0 0 operand ∧
      ∀ (s : CpuState) (pc : Word),
        operand.value s pc = ShiftKind.lsr.step^[32] (s.read pc 1, s.flag .carry) :=
  ⟨shifts_bit_by_bit.2.1 .arm9 0x100 0xE1B00061 (by decide) (by decide),
    shifts_bit_by_bit.2.2 .arm7 0x100 0x0808 (by decide)⟩

end ArmBlocks
