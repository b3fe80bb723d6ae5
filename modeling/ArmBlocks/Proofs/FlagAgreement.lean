import ArmBlocks.Proofs.ConditionFlags
import ArmBlocks.Liveness

/-!
# Processors that differ in flags nobody looks at

Removing a flag computation changes the processor: the flags it would have written keep older
values. `CpuState.AgreeOn live` is what remains the same, everything but the condition flags that
are not in `live`.

Two facts about each operation are what liveness rests on, and both are about the account
`Op.flagsRead` and `Op.flagsWritten` give.

* **It reads no more than it says.** On processors that agree on the flags it reads, the operation
  does the same, and they agree on the flags it writes as well afterwards (`agree_onCpu`).
* **It writes no more than it says.** Without its flags it does the same apart from these
  (`agree_withoutFlags`).

Both are stated for the operations that cannot leave a block and touch nothing but the processor
(`Op.onCpu`); all others count as looking at every flag, and there is nothing to show for them.
-/

set_option autoImplicit false

namespace ArmBlocks

namespace FlagSet

/-- Whether the flag at a position of the status register is in the set. -/
def has (set : FlagSet) (i : Nat) : Bool :=
  if i = 31 then set.n
  else if i = 30 then set.z
  else if i = 29 then set.c
  else if i = 28 then set.v
  else false

variable (a b : FlagSet) (i : Nat)

@[simp] theorem has_union : (a.union b).has i = (a.has i || b.has i) := by
  grind [has, union]

@[simp] theorem has_diff : (a.diff b).has i = (a.has i && !b.has i) := by
  grind [has, diff]

@[simp] theorem has_inter : (a.inter b).has i = (a.has i && b.has i) := by
  grind [has, inter]

@[simp] theorem has_empty : empty.has i = false := by
  simp [has, empty]

theorem has_all (low : 28 ≤ i) (high : i < 32) : all.has i = true := by
  have cases : i = 28 ∨ i = 29 ∨ i = 30 ∨ i = 31 := by omega
  rcases cases with rfl | rfl | rfl | rfl <;> rfl

variable {a b} in
theorem apart_of_isEmpty (h : (a.inter b).isEmpty = true) : ∀ i, a.has i = true → b.has i = false := by
  intro i ha
  have none := congrArg (·.has i) ((isEmpty_iff _).mp h)
  simpa [ha] using none

end FlagSet

namespace CpuState

/-- The processor with another status register, and the registers as they are. -/
def withStatus (s : CpuState) (x : Word) : CpuState := { s with cpsr := x }

/-- Processors that differ in no more than the condition flags that are not in `live`. -/
structure AgreeOn (live : FlagSet) (s t : CpuState) : Prop where
  rest : s.withStatus 0 = t.withStatus 0
  status : ∀ i, i < 28 ∨ live.has i = true → s.cpsr.getLsbD i = t.cpsr.getLsbD i

namespace AgreeOn

variable {live live' : FlagSet} {s t u : CpuState}

theorem refl (live : FlagSet) (s : CpuState) : AgreeOn live s s := ⟨rfl, fun _ _ => rfl⟩

theorem trans (h : AgreeOn live s t) (h' : AgreeOn live t u) : AgreeOn live s u :=
  ⟨h.rest.trans h'.rest, fun i hi => (h.status i hi).trans (h'.status i hi)⟩

theorem mono (h : AgreeOn live s t) (le : ∀ i, live'.has i = true → live.has i = true) :
    AgreeOn live' s t :=
  ⟨h.rest, fun i hi => h.status i (hi.imp_right (le i))⟩

/-- Where all flags matter, nothing may differ. -/
theorem eq_of_all (h : AgreeOn .all s t) : s = t := by
  have status : s.cpsr = t.cpsr := by
    apply BitVec.eq_of_getLsbD_eq
    intro i high
    by_cases low : i < 28
    · exact h.status i (.inl low)
    · exact h.status i (.inr (FlagSet.has_all i (by omega) high))
  calc s = (s.withStatus 0).withStatus s.cpsr := rfl
    _ = (t.withStatus 0).withStatus t.cpsr := by rw [h.rest, status]
    _ = t := rfl

/-- What does not look at the status register is the same on both. -/
theorem eq {α : Sort _} (h : AgreeOn live s t) {f : CpuState → α}
    (blind : ∀ s x, f (s.withStatus x) = f s) : f s = f t := by
  rw [← blind s 0, ← blind t 0, h.rest]

theorem read (h : AgreeOn live s t) (pc : Word) (r : Reg) : s.read pc r = t.read pc r :=
  h.eq (f := (·.read pc r)) fun _ _ => rfl

theorem readLate (h : AgreeOn live s t) (pc : Word) (r : Reg) :
    s.readLate pc r = t.readLate pc r :=
  h.eq (f := (·.readLate pc r)) fun _ _ => rfl

theorem cpu (h : AgreeOn live s t) : s.cpu = t.cpu := h.eq (f := (·.cpu)) fun _ _ => rfl

theorem thumb (h : AgreeOn live s t) : s.thumb = t.thumb := h.status 5 (.inl (by decide))

theorem flag_carry (h : AgreeOn live s t) (c : live.c = true) :
    s.flag .carry = t.flag .carry :=
  h.status 29 (.inr c)

/-- A condition that reads live flags only is the same on both. -/
theorem satisfies (h : AgreeOn live s t) {cond : Condition}
    (reads : ∀ i, cond.reads.has i = true → live.has i = true) :
    s.satisfies cond = t.satisfies cond := by
  have same (f : Flag) (hf : cond.reads.has f.bit = true) : s.flag f = t.flag f :=
    h.status f.bit (.inr (reads f.bit hf))
  unfold CpuState.satisfies
  cases cond with
  | always => rfl
  | never => rfl
  | equal | notEqual => simp only [Condition.holds]; rw [same .zero rfl]
  | carrySet | carryClear => simp only [Condition.holds]; rw [same .carry rfl]
  | minus | plus => simp only [Condition.holds]; rw [same .neg rfl]
  | overflowSet | overflowClear => simp only [Condition.holds]; rw [same .overflow rfl]
  | higher | lowerOrSame => simp only [Condition.holds]; rw [same .carry rfl, same .zero rfl]
  | greaterOrEqual | less => simp only [Condition.holds]; rw [same .neg rfl, same .overflow rfl]
  | greater | lessOrEqual =>
    simp only [Condition.holds]
    rw [same .zero rfl, same .neg rfl, same .overflow rfl]

/-! ## Writing on both

Writing the same on both sides keeps the agreement, and writing a flag on both sides makes it live.
Writing a flag that is not live may be done on one side alone.
-/

theorem setReg (h : AgreeOn live s t) (r : Reg) (x : Word) :
    AgreeOn live (s.setReg r x) (t.setReg r x) :=
  ⟨congrArg (·.setReg r x) h.rest, h.status⟩

theorem write (h : AgreeOn live s t) (r : Reg) (x : Word) :
    AgreeOn live (s.write r x) (t.write r x) := by
  unfold CpuState.write
  rw [h.thumb]
  split
  · exact h.setReg .pc _
  · exact h.setReg r x

theorem withNext (h : AgreeOn live s t) (next : Word) :
    AgreeOn live { s with next } { t with next } :=
  ⟨congrArg (fun u : CpuState => ({ u with next } : CpuState)) h.rest, h.status⟩

/-- A flag that is set on both agrees from then on. -/
theorem setFlag (h : AgreeOn live s t) (f : Flag) (b : Bool)
    (le : ∀ i, live'.has i = true → live.has i = true ∨ i = f.bit) :
    AgreeOn live' (s.setFlag f b) (t.setFlag f b) := by
  refine ⟨h.rest, fun i hi => ?_⟩
  have left := Bits.test_put s.cpsr i b f.bit_lt
  have right := Bits.test_put t.cpsr i b f.bit_lt
  show Bits.test (Bits.put s.cpsr f.bit b) i = Bits.test (Bits.put t.cpsr f.bit b) i
  rw [left, right]
  by_cases here : f.bit = i
  · rw [if_pos here, if_pos here]
  · rw [if_neg here, if_neg here]
    refine h.status i (hi.imp_right fun hi => ?_)
    exact (le i hi).resolve_right fun eq => here eq.symm

/-- A flag that does not matter may be set on one side alone. -/
theorem setFlag_dead (h : AgreeOn live s t) (f : Flag) (b : Bool) (dead : live.has f.bit = false)
    (high : 28 ≤ f.bit) : AgreeOn live (s.setFlag f b) t := by
  refine ⟨h.rest, fun i hi => ?_⟩
  have left := Bits.test_put s.cpsr i b f.bit_lt
  have apart : f.bit ≠ i := by
    rintro rfl
    rcases hi with low | live
    · omega
    · simp [dead] at live
  rw [if_neg apart] at left
  exact left.trans (h.status i hi)

/-- Writing the sign and the zero flag to both makes them agree on these two as well. -/
theorem setSignZero (h : AgreeOn live s t) (n z : Bool) :
    AgreeOn (live.union .nz) ((s.setFlag .neg n).setFlag .zero z)
      ((t.setFlag .neg n).setFlag .zero z) := by
  have neg : AgreeOn (live.union ⟨true, false, false, false⟩) (s.setFlag .neg n)
      (t.setFlag .neg n) :=
    h.setFlag .neg _ fun i hi => by grind [FlagSet.has, FlagSet.union, Flag.bit]
  exact neg.setFlag .zero _ fun i hi => by
    grind [FlagSet.has, FlagSet.union, FlagSet.nz, Flag.bit]

theorem setNz (h : AgreeOn live s t) (x : Word) :
    AgreeOn (live.union .nz) (s.setNz x) (t.setNz x) :=
  h.setSignZero x.msb (x == 0)

theorem setNzc (h : AgreeOn live s t) (x : Word) (carry : Bool) :
    AgreeOn (live.union .nzc) (s.setNzc x carry) (t.setNzc x carry) :=
  (h.setNz x).setFlag .carry _ fun i hi => by
    grind [FlagSet.has, FlagSet.union, FlagSet.nz, FlagSet.nzc, Flag.bit]

theorem setNzcv (h : AgreeOn live s t) (sum : Sum) :
    AgreeOn (live.union .all) (s.setNzcv sum) (t.setNzcv sum) :=
  (h.setNzc sum.word sum.carry).setFlag .overflow _ fun i hi => by
    grind [FlagSet.has, FlagSet.union, FlagSet.nzc, FlagSet.all, Flag.bit]

theorem setNz_dead (h : AgreeOn live s t) (x : Word)
    (dead : ∀ i, FlagSet.nz.has i = true → live.has i = false) : AgreeOn live (s.setNz x) t :=
  (h.setFlag_dead .neg _ (dead 31 rfl) (by decide)).setFlag_dead .zero _ (dead 30 rfl) (by decide)

/-- Where the sign, the zero and the carry flag are dead, writing them to one of the two makes no
difference. -/
theorem setNzc_dead (h : AgreeOn live s t) (x : Word) (carry : Bool)
    (dead : ∀ i, FlagSet.nzc.has i = true → live.has i = false) :
    AgreeOn live (s.setNzc x carry) t := by
  have dead' : ∀ i, FlagSet.nz.has i = true → live.has i = false := by
    intro i hi
    apply dead
    grind [FlagSet.has, FlagSet.nz, FlagSet.nzc]
  exact (h.setNz_dead x dead').setFlag_dead .carry _ (dead 29 rfl) (by decide)

/-- So it is with all four. -/
theorem setNzcv_dead (h : AgreeOn live s t) (sum : Sum)
    (dead : ∀ i, FlagSet.all.has i = true → live.has i = false) :
    AgreeOn live (s.setNzcv sum) t := by
  have dead' : ∀ i, FlagSet.nzc.has i = true → live.has i = false := by
    intro i hi
    apply dead
    grind [FlagSet.has, FlagSet.nzc, FlagSet.all]
  exact (h.setNzc_dead sum.word sum.carry dead').setFlag_dead .overflow _ (dead 28 rfl) (by decide)

end AgreeOn

/-- Writing a flag back as it was changes nothing. -/
theorem setFlag_flag (s : CpuState) (f : Flag) : s.setFlag f (s.flag f) = s := by
  have same : Bits.put s.cpsr f.bit (s.flag f) = s.cpsr := by
    apply BitVec.eq_of_getLsbD_eq
    intro i _
    have written := Bits.test_put s.cpsr i (s.flag f) f.bit_lt
    by_cases here : f.bit = i
    · rw [if_pos here] at written
      rw [← here] at written ⊢
      exact written
    · rw [if_neg here] at written
      exact written
  unfold setFlag
  rw [same]

/-- A logical operation whose shifter passes the carry on writes sign and zero alone. -/
theorem setNzc_flag_carry (s : CpuState) (x : Word) : s.setNzc x (s.flag .carry) = s.setNz x := by
  have same : (s.setNz x).flag .carry = s.flag .carry := by
    simp [setNz, flag_setFlag]
  rw [setNzc, ← same, setFlag_flag]

end CpuState

/-! ## Second operands

The word of an operand depends on the carry only where it rotates through it. The carry that comes out
depends on it as well where nothing is shifted, and then it is the carry that went in.
-/

namespace ShiftKind

variable (kind : ShiftKind) (x : Word) (n : Nat) (carry carry' : Bool)

theorem apply_zero : kind.apply x 0 carry = (x, carry) := by
  cases kind <;> rfl

/-- Only a shift by nothing lets the carry through. -/
theorem apply_of_ne_zero (h : n ≠ 0) : kind.apply x n carry = kind.apply x n carry' := by
  cases kind <;> simp [apply, Shift.lsl, Shift.lsr, Shift.asr, Shift.ror, h]

theorem apply_fst : (kind.apply x n carry).1 = (kind.apply x n carry').1 := by
  by_cases h : n = 0
  · rw [h, apply_zero, apply_zero]
  · rw [apply_of_ne_zero kind x n carry carry' h]

end ShiftKind

namespace Operand

/-- Whether the carry that comes in always goes out again. -/
def passesCarry : Operand → Bool
  | .imm _ none => true
  | .shifted _ _ 0 => true
  | _ => false

/-- Whether the carry enters the value. -/
def rotatesCarry : Operand → Bool
  | .rrx _ => true
  | _ => false

variable {live : FlagSet} {s t : CpuState} (pc : Word) {operand : Operand}

/-- An operand that passes the carry gives the one it was given. -/
theorem value_snd_of_passes (s : CpuState) (h : operand.passesCarry = true) :
    (operand.value s pc).2 = s.flag .carry := by
  unfold passesCarry at h
  split at h
  · rfl
  · rename_i rm kind
    exact congrArg Prod.snd (kind.apply_zero _ _)
  · exact absurd h (by simp)

/-- The value of an operand depends on the carry only where that is rotated in. -/
theorem value_fst_agree (h : s.AgreeOn live t) (reads : operand.rotatesCarry = true → live.c = true) :
    (operand.value s pc).1 = (operand.value t pc).1 := by
  cases operand with
  | imm value out => rfl
  | shifted rm kind amount =>
    simp only [value]
    rw [h.read pc rm]
    exact kind.apply_fst _ _ _ _
  | rrx rm =>
    simp only [value]
    rw [h.read pc rm, h.flag_carry (reads rfl)]
  | shiftedBy rm kind rs =>
    simp only [value]
    rw [h.readLate pc rm, h.read pc rs]
    exact kind.apply_fst _ _ _ _

/-- Where the carry that leaves the shifter is its own, it does not depend on the flags either. -/
theorem value_agree (h : s.AgreeOn live t) (passes : operand.passesCarry = false)
    (reads : operand.rotatesCarry = true ∨ operand.isShiftedBy = true → live.c = true) :
    operand.value s pc = operand.value t pc := by
  cases operand with
  | imm value out =>
    cases out with
    | none => exact absurd passes (by simp [passesCarry])
    | some out => rfl
  | shifted rm kind amount =>
    -- a shift by nothing would pass the carry
    have moved : amount ≠ 0 := by
      rintro rfl
      exact absurd passes (by simp [passesCarry])
    simp only [value]
    rw [h.read pc rm]
    exact kind.apply_of_ne_zero _ _ _ _ moved
  | rrx rm =>
    simp only [value]
    rw [h.read pc rm, h.flag_carry (reads (.inl rfl))]
  | shiftedBy rm kind rs =>
    simp only [value]
    rw [h.readLate pc rm, h.read pc rs, h.flag_carry (reads (.inr rfl))]

theorem partner_agree (h : s.AgreeOn live t) (operand : Operand) (rn : Reg) :
    operand.partner s pc rn = operand.partner t pc rn := by
  unfold partner
  rw [h.read pc rn, h.readLate pc rn]

end Operand

/-! ## Data processing

An arithmetic operation is an addition of two summands, a logical one is bitwise; that is the one case
split, and behind it stands what each reads and records.
-/

namespace AluOp

/-- The result of a logical operation. -/
def bitwise (op : AluOp) (a b : Word) : Word :=
  match op with
  | .and | .tst => a &&& b
  | .eor | .teq => a ^^^ b
  | .orr => a ||| b
  | .mov => b
  | .bic => a &&& ~~~b
  | _ => ~~~b

/-- What an arithmetic operation sums. -/
def summands (op : AluOp) (a b carry : Word) : Word × Word × Word :=
  match op with
  | .sub | .cmp => (a, ~~~b, 1)
  | .rsb => (b, ~~~a, 1)
  | .adc => (a, b, carry)
  | .sbc => (a, ~~~b, carry)
  | .rsc => (b, ~~~a, carry)
  | _ => (a, b, 0)

theorem summands_of_ignores {op : AluOp} (h : op.usesCarry = false) (a b carry carry' : Word) :
    op.summands a b carry = op.summands a b carry' := by
  cases op <;> first | rfl | exact absurd h (by simp [usesCarry])

end AluOp

namespace CpuState

variable {live : FlagSet} {s t : CpuState}

theorem compute_logical {op : AluOp} (h : op.isLogical = true) (s : CpuState) (set : Bool)
    (a b : Word) (carry : Bool) :
    s.compute op set a b carry =
      (op.bitwise a b, if set then s.setNzc (op.bitwise a b) carry else s) := by
  cases op <;> first | rfl | exact absurd h (by simp [AluOp.isLogical])

theorem compute_arithmetic {op : AluOp} (h : op.isLogical = false) (s : CpuState) (set : Bool)
    (a b : Word) (carry : Bool) :
    s.compute op set a b carry =
      s.addWithCarry set (op.summands a b s.carry).1 (op.summands a b s.carry).2.1
        (op.summands a b s.carry).2.2 := by
  cases op <;> first | rfl | exact absurd h (by simp [AluOp.isLogical])

end CpuState

/-- What data processing that does not write the program counter reads and writes. -/
theorem Op.flagsRead_alu {op : AluOp} {rd : Reg} (stays : (rd == .pc && op.writes) = false)
    (set : Bool) (rn : Reg) (operand : Operand) :
    (Op.alu op set rd rn operand).flagsRead =
      if op.usesCarry || operand.rotatesCarry || (set && op.isLogical && operand.isShiftedBy)
      then .carry else .empty := by
  simp only [flagsRead, stays, Bool.not_false, Bool.and_true]
  cases operand <;> rfl

/-- What data processing writes of the flags, by the kind of its operation and of its operand. -/
theorem Op.flagsWritten_alu {op : AluOp} {rd : Reg} (stays : (rd == .pc && op.writes) = false)
    (set : Bool) (rn : Reg) (operand : Operand) :
    (Op.alu op set rd rn operand).flagsWritten =
      if set then
        if op.isLogical then (if operand.passesCarry then .nz else .nzc) else .all
      else .empty := by
  simp only [flagsWritten, stays, Bool.or_false]
  cases set with
  | false => rfl
  | true =>
    cases op.isLogical with
    | false => rfl
    | true =>
      cases operand with
      | imm value out => cases out <;> rfl
      | shifted rm kind amount => cases amount <;> rfl
      | rrx rm => rfl
      | shiftedBy rm kind rs => rfl

namespace CpuState

variable {live : FlagSet} {s t : CpuState} (pc : Word)

/-- Data processing reads no more flags than it says, and both sides agree on what it writes. -/
theorem process_agree (h : s.AgreeOn live t) {op : AluOp} {rd : Reg}
    (stays : (rd == .pc && op.writes) = false) {set : Bool} {rn : Reg} {operand : Operand}
    (reads : ∀ i, (Op.alu op set rd rn operand).flagsRead.has i = true → live.has i = true) :
    (s.process pc op set rn operand).1 = (t.process pc op set rn operand).1 ∧
      AgreeOn (live.union (Op.alu op set rd rn operand).flagsWritten)
        (s.process pc op set rn operand).2 (t.process pc op set rn operand).2 := by
  have carry (uses : (op.usesCarry || operand.rotatesCarry ||
      (set && op.isLogical && operand.isShiftedBy)) = true) : live.c = true := by
    apply reads 29
    rw [Op.flagsRead_alu stays, if_pos uses]
    rfl
  have partner := operand.partner_agree pc h rn
  have value := operand.value_fst_agree pc h fun rotates => carry (by simp [rotates])
  have plain : s.AgreeOn (live.union .empty) t := h.mono fun i hi => by simpa using hi
  unfold process
  dsimp only
  rw [Op.flagsWritten_alu stays]
  -- an arithmetic operation reads the carry for its sum, a logical one only for its shifter
  cases logical : op.isLogical with
  | false =>
    have summands (a b : Word) : op.summands a b s.carry = op.summands a b t.carry := by
      cases uses : op.usesCarry with
      | false => exact AluOp.summands_of_ignores uses a b _ _
      | true => rw [CpuState.carry, CpuState.carry, h.flag_carry (carry (by simp [uses]))]
    rw [compute_arithmetic logical, compute_arithmetic logical, partner, value, summands]
    refine ⟨rfl, ?_⟩
    cases set with
    | false => exact plain
    | true => exact h.setNzcv _
  | true =>
    rw [compute_logical logical, compute_logical logical, partner, value]
    refine ⟨rfl, ?_⟩
    cases set with
    | false => exact plain
    | true =>
      cases passes : operand.passesCarry with
      | true =>
        simp only [operand.value_snd_of_passes pc _ passes, setNzc_flag_carry, if_true]
        exact h.setNz _
      | false =>
        have shifter := operand.value_agree pc h passes fun uses => carry (by
          rcases uses with rotates | shifted
          · simp [rotates]
          · simp [logical, shifted])
        simp only [shifter, if_true]
        exact h.setNzc _ _

/-- Without its flags, data processing leaves the processor as it is until it writes the result. -/
theorem process_snd_of_unset (s : CpuState) (op : AluOp) (rn : Reg) (operand : Operand) :
    (s.process pc op false rn operand).2 = s := by
  unfold process
  dsimp only
  cases logical : op.isLogical with
  | false => rw [compute_arithmetic logical]; rfl
  | true => rw [compute_logical logical]; rfl

/-- It writes no more flags than it says: without them the result is the same, and so is the
processor where none of them matters. -/
theorem process_dead (s : CpuState) {op : AluOp} {rd : Reg}
    (stays : (rd == .pc && op.writes) = false) {rn : Reg} {operand : Operand}
    (dead : ∀ i, (Op.alu op true rd rn operand).flagsWritten.has i = true → live.has i = false) :
    (s.process pc op true rn operand).1 = (s.process pc op false rn operand).1 ∧
      AgreeOn live (s.process pc op true rn operand).2 s := by
  rw [Op.flagsWritten_alu stays, if_pos rfl] at dead
  unfold process
  dsimp only
  cases logical : op.isLogical with
  | false =>
    rw [logical, if_neg (by simp)] at dead
    rw [compute_arithmetic logical, compute_arithmetic logical]
    exact ⟨rfl, (AgreeOn.refl live s).setNzcv_dead _ dead⟩
  | true =>
    rw [logical, if_pos rfl] at dead
    rw [compute_logical logical, compute_logical logical]
    refine ⟨rfl, ?_⟩
    -- an operand that passes the carry on leaves it as it was, and its flag need not be dead
    cases passes : operand.passesCarry with
    | true =>
      rw [passes, if_pos rfl] at dead
      simp only [operand.value_snd_of_passes pc _ passes, setNzc_flag_carry, if_true]
      exact (AgreeOn.refl live s).setNz_dead _ dead
    | false =>
      rw [passes, if_neg (by simp)] at dead
      exact (AgreeOn.refl live s).setNzc_dead _ _ dead

end CpuState

/-! ## Multiplication and saturation -/

namespace CpuState

variable {live : FlagSet} {s t : CpuState} (pc : Word)

namespace AgreeOn

theorem union_empty (h : s.AgreeOn live t) : s.AgreeOn (live.union .empty) t :=
  h.mono fun i hi => by simpa using hi

/-- A multiplication takes agreement to agreement on what it writes as well. -/
theorem multiply (h : s.AgreeOn live t) (op : MulOp) (set : Bool) (rd rn rs rm : Reg) :
    AgreeOn (live.union (Op.mul op set rd rn rs rm).flagsWritten) (s.multiply pc op set rd rn rs rm)
      (t.multiply pc op set rd rn rs rm) := by
  unfold CpuState.multiply Op.flagsWritten
  dsimp only
  rw [h.read pc rm, h.read pc rs, h.read pc rd, h.read pc rn]
  cases op.isLong with
  | true =>
    cases set with
    | false => exact ((h.write rn _).write rd _).union_empty
    | true => exact ((h.write rn _).write rd _).setSignZero _ _
  | false =>
    cases set with
    | false => exact (h.write rd _).union_empty
    | true => exact (h.write rd _).setNz _

/-- The mark of an overflow is no condition flag. -/
theorem markIf (h : s.AgreeOn live t) (c : Bool) :
    AgreeOn live (if c then s.setFlag .clamped true else s)
      (if c then t.setFlag .clamped true else t) := by
  cases c with
  | true => exact h.setFlag .clamped true fun _ hi => .inl hi
  | false => exact h

theorem accumulate (h : s.AgreeOn live t) (rd : Reg) (product acc : Word) :
    AgreeOn live (s.accumulate rd product acc) (t.accumulate rd product acc) :=
  (h.markIf _).write rd _

/-- A multiplication of halves writes no condition flag, so it keeps the agreement. -/
theorem multiplyHalves (h : s.AgreeOn live t) (op : HalfMulOp) (rd rn rs rm : Reg)
    (xTop yTop : Bool) :
    AgreeOn live (s.multiplyHalves pc op rd rn rs rm xTop yTop)
      (t.multiplyHalves pc op rd rn rs rm xTop yTop) := by
  unfold CpuState.multiplyHalves
  dsimp only
  rw [h.read pc rm, h.read pc rs, h.read pc rd, h.read pc rn]
  cases op with
  | smla => exact h.accumulate rd _ _
  | smlaw => exact h.accumulate rd _ _
  | smulw => exact h.write rd _
  | smlal => exact (h.write rn _).write rd _
  | smul => exact h.write rd _

theorem saturate (h : s.AgreeOn live t) (op : SatOp) (rd rn rm : Reg) :
    AgreeOn live (s.saturate pc op rd rn rm) (t.saturate pc op rd rn rm) := by
  unfold CpuState.saturate
  dsimp only
  rw [h.read pc rm, h.read pc rn]
  exact (h.markIf _).write rd _

end AgreeOn

/-- Where the flags it would set are dead, a multiplication may as well not set them. -/
theorem multiply_dead (s : CpuState) (op : MulOp) (rd rn rs rm : Reg)
    (dead : ∀ i, FlagSet.nz.has i = true → live.has i = false) :
    AgreeOn live (s.multiply pc op true rd rn rs rm) (s.multiply pc op false rd rn rs rm) := by
  unfold CpuState.multiply
  dsimp only
  cases op.isLong with
  | true =>
    exact ((AgreeOn.refl live _).setFlag_dead .neg _ (dead 31 rfl) (by decide)).setFlag_dead .zero _
      (dead 30 rfl) (by decide)
  | false => exact (AgreeOn.refl live _).setNz_dead _ dead

end CpuState

/-! ## Operations that touch nothing but the processor

For these the action is a function of the processor, a number of cycles and a list of notices, and
agreement is proved of the three one by one.
-/

namespace Op

/-- What an operation that cannot leave its block makes of the processor. -/
def onCpu (pc : Word) : Op → CpuState → CpuState
  | .alu op set rd rn operand, s =>
    let (result, after) := s.process pc op set rn operand
    if op.writes then after.write rd result else after
  | .mul op set rd rn rs rm, s => s.multiply pc op set rd rn rs rm
  | .halfMul op rd rn rs rm xTop yTop, s => s.multiplyHalves pc op rd rn rs rm xTop yTop
  | .clz rd rm, s => s.countZeros pc rd rm
  | .sat op rd rn rm, s => s.saturate pc op rd rn rm
  | .linkPrefix value, s => s.linkPrefix value
  | _, s => s

/-- The cycles of such an operation that depend on the data. -/
def dataCycles (pc : Word) : Op → CpuState → Word
  | .mul op _ _ _ rs _, s => BitVec.ofNat 32 (Multiplier.cycles (s.read pc rs) op.isSigned)
  | _, _ => 0

/-- What such an operation has to tell. -/
def noticesOn (pc : Word) : Op → CpuState → List Notice
  | .breakpoint, s => [.breakpoint s.cpu (s.addressOf pc)]
  | _, _ => []

variable {live : FlagSet} {s t : CpuState} (pc : Word)

theorem mayExit_alu (op : AluOp) (set : Bool) (rd rn : Reg) (operand : Operand) :
    (Op.alu op set rd rn operand).mayExit = (rd == .pc && op.writes) := by
  show (RegSet.singleIf op.writes rd).has .pc = _
  cases op.writes with
  | true => rw [Bool.and_true]; exact RegSet.has_single rd .pc
  | false => simp [RegSet.singleIf, RegSet.has, Bits.test]

/-- An operation that cannot leave its block reads no more flags than it says, and processors agree
on the flags it writes afterwards. -/
theorem agree_onCpu (h : s.AgreeOn live t) {op : Op} (inside : op.mayExit = false)
    (reads : ∀ i, op.flagsRead.has i = true → live.has i = true) :
    CpuState.AgreeOn (live.union op.flagsWritten) (op.onCpu pc s) (op.onCpu pc t) := by
  cases op with
  | alu op set rd rn operand =>
    rw [mayExit_alu] at inside
    obtain ⟨result, after⟩ := CpuState.process_agree pc h inside reads
    simp only [onCpu]
    rw [result]
    split
    · exact after.write rd _
    · exact after
  | mul op set rd rn rs rm => exact h.multiply pc op set rd rn rs rm
  | halfMul op rd rn rs rm xTop yTop =>
    exact (h.multiplyHalves pc op rd rn rs rm xTop yTop).union_empty
  | clz rd rm =>
    simp only [onCpu, CpuState.countZeros]
    rw [h.read pc rm]
    exact (h.write rd _).union_empty
  | sat op rd rn rm => exact (h.saturate pc op rd rn rm).union_empty
  | linkPrefix value => exact (h.write .lr value).union_empty
  | coproc load cp op1 cn cm op2 rd =>
    unfold mayExit at inside
    rw [Bool.true_or] at inside
    cases inside
  | _ => exact h.union_empty

theorem dataCycles_agree (h : s.AgreeOn live t) (op : Op) :
    op.dataCycles pc s = op.dataCycles pc t := by
  cases op with
  | mul op set rd rn rs rm =>
    simp only [dataCycles]
    rw [h.read pc rs]
  | _ => rfl

theorem noticesOn_agree (h : s.AgreeOn live t) (op : Op) :
    op.noticesOn pc s = op.noticesOn pc t := by
  cases op with
  | breakpoint =>
    simp only [noticesOn, CpuState.addressOf, CpuState.width]
    rw [h.cpu, h.thumb]
  | _ => rfl

/-- The operation without its flags takes the same time and tells the same, and it does the same
apart from the flags. -/
theorem agree_withoutFlags {op simple : Op} (h : op.withoutFlags? = some simple) (s : CpuState)
    (thumb : Bool) (dead : ∀ i, op.flagsWritten.has i = true → live.has i = false) :
    CpuState.AgreeOn live (op.onCpu pc s) (simple.onCpu pc s) ∧
      op.cost thumb = simple.cost thumb ∧ op.dataCycles pc s = simple.dataCycles pc s ∧
      op.noticesOn pc s = simple.noticesOn pc s := by
  unfold withoutFlags? at h
  split at h
  · rename_i op set rd rn operand
    split at h
    · rename_i sets
      obtain ⟨rfl, stays⟩ : set = true ∧ (rd == .pc && op.writes) = false := by
        rwa [Bool.and_eq_true, Bool.not_eq_true'] at sets
      -- the result is the same, and what is written to the flags is read by nobody
      obtain ⟨result, after⟩ := CpuState.process_dead pc s stays dead
      split at h
      · rename_i writes
        cases h
        refine ⟨?_, rfl, rfl, rfl⟩
        simp only [onCpu, writes, if_true]
        rw [result, CpuState.process_snd_of_unset]
        exact after.write rd _
      · rename_i writes
        cases h
        refine ⟨?_, ?_, rfl, rfl⟩
        · simp only [onCpu, writes]
          exact after
        · simp [cost, writes]
    · exact absurd h (by simp)
  · rename_i op set rd rn rs rm
    split at h
    · rename_i sets
      cases h
      obtain rfl : set = true := sets
      exact ⟨CpuState.multiply_dead pc s op rd rn rs rm dead, rfl, rfl, rfl⟩
    · exact absurd h (by simp)
  · exact absurd h (by simp)

end Op

end ArmBlocks
