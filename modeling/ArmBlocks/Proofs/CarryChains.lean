import Mathlib.Data.Nat.Digits.Lemmas
import Mathlib.Tactic.LinearCombination
import Mathlib.Tactic.Zify
import ArmBlocks.Proofs.ComparedBranch

/-!
# Chains of additions and subtractions

Numbers wider than a word are added and subtracted word by word, the least significant one first, with
the carry handed on through the status register: an addition of the first limbs, and one with the carry
for each of the others. **Such a chain is exact, however long it is** (`CarryChain.exactness`): what it
leaves are the limbs of the sum or the difference, the carry of its last instruction says whether the
unsigned result fits, and the overflow whether the signed one does.

A subtraction is an addition of the complement with a carry going in, in the first limb and in all the
others, so one induction serves both. What it carries along is the balance of the numbers: the limbs
written so far, and the carry out of them with the weight of the limb that comes next
(`Ripple.balance`). Nothing but that carry passes from limb to limb, so whatever runs in between may
load and store limbs and count, as long as it leaves the carry alone.
-/

set_option autoImplicit false

namespace ArmBlocks

open Guest (exec)

variable {σ : Type}

/-! ## Numbers of several words

A list of words is a number, the lowest word first, and a signed number by the sign of its last word.
-/

namespace Limbs

/-- The number that words stand for, the least significant one first. -/
def value (xs : List Word) : Nat := Nat.ofDigits (2 ^ 32) (xs.map BitVec.toNat)

/-- The signed number that words stand for. -/
def signed (xs : List Word) : Int := (BitVec.ofNat (32 * xs.length) (value xs)).toInt

/-- Whether a signed number does not fit so many words. -/
def Overflows (n : Nat) (z : Int) : Prop := z < -2 ^ (32 * n - 1) ∨ 2 ^ (32 * n - 1) ≤ z

theorem value_cons (x : Word) (xs : List Word) : value (x :: xs) = x.toNat + 2 ^ 32 * value xs :=
  Nat.ofDigits_cons ..

theorem value_lt (xs : List Word) : value xs < 2 ^ (32 * xs.length) := by
  induction xs with
  | nil => decide
  | cons x xs ih =>
    have low := x.isLt
    rw [value_cons, List.length_cons, Nat.mul_succ, Nat.pow_add]
    omega

theorem two_mul_half {n : Nat} (some : 0 < n) : 2 * 2 ^ (32 * n - 1) = 2 ^ (32 * n) := by
  rw [← Nat.pow_succ', show (32 * n - 1).succ = 32 * n by omega]

theorem signed_eq (xs : List Word) :
    signed xs = if 2 * value xs < 2 ^ (32 * xs.length) then (value xs : Int)
      else value xs - (2 ^ (32 * xs.length) : Nat) := by
  rw [signed, BitVec.toInt_eq_toNat_cond, BitVec.toNat_ofNat, Nat.mod_eq_of_lt (value_lt xs)]

/-- The first word adds to the others what it is, whatever their sign. -/
theorem signed_cons (x : Word) {xs : List Word} (some : xs ≠ []) :
    signed (x :: xs) = x.toNat + 2 ^ 32 * signed xs := by
  have low := x.isLt
  have half := two_mul_half (List.length_pos_iff.mpr some)
  rw [signed_eq, signed_eq, value_cons, List.length_cons, Nat.mul_succ, Nat.pow_add]
  split <;> split <;> omega

theorem signed_singleton (x : Word) : signed [x] = x.toInt := by
  rw [signed_eq, BitVec.toInt_eq_toNat_cond]
  rfl

/-- A first word beneath does not change whether the others fit. -/
theorem overflows_cons {n : Nat} (some : 0 < n) (x : Word) (z : Int) :
    Overflows (n + 1) (x.toNat + 2 ^ 32 * z) ↔ Overflows n z := by
  have low := x.isLt
  have power : (2 : Int) ^ (32 * (n + 1) - 1) = 2 ^ 32 * 2 ^ (32 * n - 1) := by
    rw [← pow_add]
    congr 1
    omega
  unfold Overflows
  rw [power]
  omega

/-! ### Complements -/

/-- A number and its complement add up to all ones. -/
theorem value_not (xs : List Word) :
    value (xs.map (~~~·)) + value xs + 1 = 2 ^ (32 * xs.length) := by
  induction xs with
  | nil => rfl
  | cons x xs ih =>
    have low := x.isLt
    rw [List.map_cons, value_cons, value_cons, BitVec.toNat_not, List.length_cons, Nat.mul_succ,
      Nat.pow_add]
    omega

theorem signed_not {xs : List Word} (some : xs ≠ []) : signed (xs.map (~~~·)) = -1 - signed xs := by
  have all := value_not xs
  have half := two_mul_half (List.length_pos_iff.mpr some)
  rw [signed_eq, signed_eq, List.length_map]
  split <;> split <;> omega

end Limbs

/-! ## The carry from limb to limb

What is kept from limb to limb is a balance: the sum of both numbers and the carry that came in is the
result and the carry that goes out, at its weight. The overflow is a matter of the last limb alone, as
the signs are.
-/

namespace Sum

variable (a b : Word) (carry : Bool)

/-- The word and the carry are the sum. -/
theorem balance_of : (Sum.of a b (Word.ofBool carry)).word.toNat +
    2 ^ 32 * (Sum.of a b (Word.ofBool carry)).carry.toNat = a.toNat + b.toNat + carry.toNat := by
  have first := a.isLt
  have second := b.isLt
  have less : carry.toNat ≤ 1 := Bool.toNat_le carry
  have into : (Word.ofBool carry).toNat = carry.toNat := by cases carry <;> rfl
  unfold Sum.of
  dsimp only
  rw [BitVec.toNat_ofNat, into]
  by_cases wide : 0x100000000 ≤ a.toNat + b.toNat + carry.toNat
  · rw [decide_eq_true wide, Bool.toNat_true]
    omega
  · rw [decide_eq_false wide, Bool.toNat_false]
    omega

/-- The sum overflows where that of the signed numbers is not a word. -/
theorem overflow_of : (Sum.of a b (Word.ofBool carry)).overflow = true ↔
    Limbs.Overflows 1 (a.toInt + b.toInt + carry.toNat) := by
  have balance := balance_of a b carry
  have bits : (Sum.of a b (Word.ofBool carry)).overflow =
      (!(a.msb ^^ b.msb) && (a.msb ^^ (Sum.of a b (Word.ofBool carry)).word.msb)) := by
    unfold Sum.of
    dsimp only
    rw [BitVec.msb_and, BitVec.msb_not, BitVec.msb_xor, BitVec.msb_xor]
    rfl
  have less : carry.toNat ≤ 1 := Bool.toNat_le carry
  have out : (Sum.of a b (Word.ofBool carry)).carry.toNat ≤ 1 := Bool.toNat_le _
  unfold Limbs.Overflows
  rw [bits]
  generalize (Sum.of a b (Word.ofBool carry)).word = z at *
  rcases Word.sign_cases a with ⟨sa, ia, ra⟩ | ⟨sa, ia, ra⟩ <;>
    rcases Word.sign_cases b with ⟨sb, ib, rb⟩ | ⟨sb, ib, rb⟩ <;>
      rcases Word.sign_cases z with ⟨sz, iz, rz⟩ | ⟨sz, iz, rz⟩ <;>
        simp [sa, sb, sz] <;> omega

end Sum

/-- Adding limb by limb with a carry going in: the limbs of both numbers, those of the result, and the
sum in the last of them. -/
inductive Ripple : Bool → List Word → List Word → List Word → Sum → Prop
  | last (carry : Bool) (a b : Word) :
    Ripple carry [a] [b] [(Sum.of a b (Word.ofBool carry)).word] (Sum.of a b (Word.ofBool carry))
  | next (carry : Bool) (a b : Word) {as bs zs : List Word} {top : Sum} :
    Ripple (Sum.of a b (Word.ofBool carry)).carry as bs zs top →
    Ripple carry (a :: as) (b :: bs) ((Sum.of a b (Word.ofBool carry)).word :: zs) top

namespace Ripple

open Limbs (value signed Overflows value_cons signed_cons)

variable {carry : Bool} {as bs zs : List Word} {top : Sum}

theorem lengths (h : Ripple carry as bs zs top) :
    0 < zs.length ∧ as.length = zs.length ∧ bs.length = zs.length := by
  induction h with
  | last => exact ⟨Nat.one_pos, rfl, rfl⟩
  | next carry a b _ ih => simp only [List.length_cons, ih, Nat.succ_pos, and_self]

/-- The limbs and the carry out of the last one are the sum. -/
theorem balance (h : Ripple carry as bs zs top) :
    value zs + 2 ^ (32 * zs.length) * top.carry.toNat = value as + value bs + carry.toNat := by
  induction h with
  | last carry a b =>
    have limb := Sum.balance_of a b carry
    simp only [value_cons, show value [] = 0 from rfl, List.length_singleton]
    omega
  | @next carry a b as bs zs top rest ih =>
    have limb := Sum.balance_of a b carry
    rw [value_cons, value_cons, value_cons, List.length_cons, Nat.mul_succ, Nat.add_comm _ 32,
      Nat.pow_add, Nat.mul_assoc]
    omega

/-- The last overflow is that of the whole numbers. -/
theorem overflow (h : Ripple carry as bs zs top) :
    top.overflow = true ↔ Overflows zs.length (signed as + signed bs + carry.toNat) := by
  induction h with
  | last carry a b =>
    rw [Limbs.signed_singleton, Limbs.signed_singleton]
    exact Sum.overflow_of a b carry
  | @next carry a b as bs zs top rest ih =>
    obtain ⟨some, left, right⟩ := rest.lengths
    have limb := Sum.balance_of a b carry
    have whole : signed (a :: as) + signed (b :: bs) + carry.toNat =
        (Sum.of a b (Word.ofBool carry)).word.toNat + 2 ^ 32 * (signed as + signed bs +
          (Sum.of a b (Word.ofBool carry)).carry.toNat) := by
      rw [signed_cons a (List.length_pos_iff.mp (left ▸ some)),
        signed_cons b (List.length_pos_iff.mp (right ▸ some))]
      omega
    rw [ih, whole, List.length_cons, Limbs.overflows_cons some]

/-- The carry out of the last limb has a weight of its own, so it is where the balance exceeds it. -/
theorem carry_iff (h : Ripple carry as bs zs top) :
    top.carry = true ↔ 2 ^ (32 * zs.length) ≤ value as + value bs + carry.toNat := by
  have balance := h.balance
  have fits := Limbs.value_lt zs
  cases out : top.carry with
  | true =>
    rw [out, Bool.toNat_true, Nat.mul_one] at balance
    exact iff_of_true rfl (by omega)
  | false =>
    rw [out, Bool.toNat_false, Nat.mul_zero] at balance
    exact iff_of_false Bool.false_ne_true (by omega)

variable {xs ys : List Word}

/-- A chain that adds without a carry into it gives the sum, and its carry and overflow say whether the sum
is out of the range of the unsigned and of the signed numbers. -/
theorem sum_exact (h : Ripple false xs ys zs top) :
    zs.length = xs.length ∧ value zs = (value xs + value ys) % 2 ^ (32 * xs.length) ∧
      (top.carry = true ↔ 2 ^ (32 * xs.length) ≤ value xs + value ys) ∧
      (top.overflow = true ↔ Overflows xs.length (signed xs + signed ys)) := by
  have balance := h.balance
  have carry := h.carry_iff
  have overflow := h.overflow
  obtain ⟨-, length, -⟩ := h.lengths
  rw [← length] at balance carry overflow
  rw [Bool.toNat_false, Nat.add_zero] at balance carry
  rw [Bool.toNat_false, Int.natCast_zero, add_zero] at overflow
  refine ⟨length.symm, ?_, carry, overflow⟩
  rw [← balance, Nat.add_mul_mod_self_left, Nat.mod_eq_of_lt (length ▸ Limbs.value_lt zs)]

/-- With the complement and a carry going in, it is the difference that is left. -/
theorem difference_exact (h : Ripple true xs (ys.map (~~~·)) zs top) :
    zs.length = xs.length ∧ (value zs : Int) = (value xs - value ys : Int) % 2 ^ (32 * xs.length) ∧
      (top.carry = true ↔ value ys ≤ value xs) ∧
      (top.overflow = true ↔ Overflows xs.length (signed xs - signed ys)) := by
  have balance := h.balance
  have carry := h.carry_iff
  have overflow := h.overflow
  obtain ⟨some, length, other⟩ := h.lengths
  rw [List.length_map] at other
  have complement := Limbs.value_not ys
  rw [other, ← length] at complement
  rw [← length] at balance carry overflow some
  have signs : signed xs + signed (ys.map (~~~·)) + (true.toNat : Int) = signed xs - signed ys := by
    rw [Limbs.signed_not (List.length_pos_iff.mp (other ▸ length ▸ some)), Bool.toNat_true]
    omega
  -- the carry that goes in is the one that a complement lacks: what is added is the difference
  rw [signs] at overflow
  rw [Bool.toNat_true] at balance carry
  refine ⟨length.symm, ?_, carry.trans (by omega), overflow⟩
  have fits : value zs < 2 ^ (32 * xs.length) := length ▸ Limbs.value_lt zs
  -- the difference and the result are a multiple of the modulus apart, by the carry that comes out
  have whole : (value xs - value ys : Int) =
      value zs + 2 ^ (32 * xs.length) * ((top.carry.toNat : Int) - 1) := by
    zify at balance complement
    linear_combination -balance - complement
  rw [whole, Int.add_mul_emod_self_left]
  exact (Int.emod_eq_of_lt (Int.natCast_nonneg _) (by exact_mod_cast fits)).symm

end Ripple

/-! ## Instructions

A chain is one instruction that sets the flags and then as many as there are limbs left, each with the
carry of the one before. Between two of them anything may be done that keeps the carry. The operands
of a subtraction are complemented, so both directions are one ripple.
-/

/-- A data processing operation that records flags is its result and the processor with the flags. -/
theorem Instruction.exec_perform_alu (bus : Bus σ) {i : Instruction} {op : AluOp} {rd rn : Reg}
    {operand : Operand} (hop : i.op = .alu op true rd rn operand) (writes : op.writes = true)
    (spared : rd ≠ .pc) (m : Machine σ) :
    exec (i.perform bus) m =
      (none, { m with
        cpu := (m.cpu.process i.pipelinePc op true rn operand).2.setReg rd
          (m.cpu.process i.pipelinePc op true rn operand).1
        cycles := m.cycles + i.action.cost }) := by
  have plain : (rd == .pc) = false := beq_eq_false_iff_ne.mpr spared
  have stays : i.writesPc = false := by
    rw [writesPc, hop, Op.registersWritten, RegSet.has_singleIf, plain, Bool.and_false]
  refine exec_perform_of_stays stays ?_
  unfold Action.execute
  rw [show i.action.op = _ from hop]
  dsimp only
  simp only [Guest.alu_eq, Guest.finishAlu, plain, writes, Bool.false_and, Bool.false_eq_true, if_true,
    if_false, Guest.exec_bind, Guest.exec_spend, Guest.exec_cpu, Guest.exec_modifyCpu, Guest.write,
    CpuState.write, if_neg spared]
  rfl

namespace CpuState

variable (s : CpuState) (sum : Sum)

theorem flag_setNzcv_carry : (s.setNzcv sum).flag .carry = sum.carry := by
  simp [setNzcv, setNzc, flag_setFlag]

theorem flag_setNzcv_overflow : (s.setNzcv sum).flag .overflow = sum.overflow := by
  simp [setNzcv, flag_setFlag]

end CpuState

/-- What a chain of instructions computes. -/
inductive CarryChain where
  | add
  | sub
  deriving DecidableEq, Repr

namespace CarryChain

/-- The operation of the first instruction. -/
def first : CarryChain → AluOp
  | .add => .add
  | .sub => .sub

/-- The operation of the others. -/
def rest : CarryChain → AluOp
  | .add => .adc
  | .sub => .sbc

/-- What is added for a word of the second number. -/
def addend : CarryChain → Word → Word
  | .add, y => y
  | .sub, y => ~~~y

/-- The carry that goes into the first limb. -/
def enters : CarryChain → Bool
  | .add => false
  | .sub => true

/-- The carry that goes into a limb. -/
def entering (chain : CarryChain) (op : AluOp) (carry : Bool) : Bool :=
  if op = chain.first then chain.enters else carry

/-- An instruction executes the operation on two words and records the flags: the words, what it leaves
in its destination and the machine behind it. -/
inductive Limb (bus : Bus σ) (op : AluOp) (m : Machine σ) : Word → Word → Word → Machine σ → Prop
  | of {i : Instruction} {rd rn : Reg} {operand : Operand} {n : Machine σ} :
    i.op = .alu op true rd rn operand → rd ≠ .pc → exec (i.perform bus) m = (none, n) →
    Limb bus op m (operand.partner m.cpu i.pipelinePc rn) (operand.value m.cpu i.pipelinePc).1
      (n.cpu.reg rd) n

/-- A chain runs: the limbs of both numbers, what the instructions leave and the machine behind the last
of them. In front of every instruction there may be code that keeps the carry. -/
inductive Runs (bus : Bus σ) (rest : AluOp) :
    AluOp → Machine σ → List Word → List Word → List Word → Machine σ → Prop
  | last {op : AluOp} {m before n : Machine σ} {x y z : Word} :
    before.cpu.flag .carry = m.cpu.flag .carry → Limb bus op before x y z n →
    Runs bus rest op m [x] [y] [z] n
  | next {op : AluOp} {m before k n : Machine σ} {x y z : Word} {xs ys zs : List Word} :
    before.cpu.flag .carry = m.cpu.flag .carry → Limb bus op before x y z k →
    Runs bus rest rest k xs ys zs n → Runs bus rest op m (x :: xs) (y :: ys) (z :: zs) n

variable (chain : CarryChain)

/-- The operations of a chain are additions. -/
theorem process_eq {op : AluOp} (part : op = chain.first ∨ op = chain.rest) (s : CpuState) (pc : Word)
    (rn : Reg) (operand : Operand) :
    s.process pc op true rn operand =
      s.addWithCarry true (operand.partner s pc rn) (chain.addend (operand.value s pc).1)
        (Word.ofBool (chain.entering op (s.flag .carry))) := by
  rcases part with rfl | rfl <;> cases chain <;> rfl

variable {chain} {bus : Bus σ} {op : AluOp} {m n : Machine σ} {xs ys zs : List Word}

/-- What an instruction of a chain leaves is the sum in its limb. -/
theorem Limb.sum (part : op = chain.first ∨ op = chain.rest) {x y z : Word}
    (limb : Limb bus op m x y z n) :
    ∃ sum : Sum, sum = Sum.of x (chain.addend y) (Word.ofBool (chain.entering op (m.cpu.flag .carry))) ∧
      z = sum.word ∧ n.cpu.flag .carry = sum.carry ∧ n.cpu.flag .overflow = sum.overflow := by
  obtain ⟨hop, spared, ran⟩ := limb
  have writes : op.writes = true := by
    rcases part with rfl | rfl <;> cases chain <;> rfl
  rw [Instruction.exec_perform_alu bus hop writes spared, chain.process_eq part] at ran
  obtain rfl := congrArg Prod.snd ran
  refine ⟨_, rfl, ?_, ?_, ?_⟩
  · exact (CpuState.reg_setReg ..).trans (if_pos rfl)
  · exact CpuState.flag_setNzcv_carry ..
  · exact CpuState.flag_setNzcv_overflow ..

/-- A chain adds limb by limb, and its last flags are those of the last sum. -/
theorem Runs.ripple (chain : CarryChain) (part : op = chain.first ∨ op = chain.rest)
    (runs : Runs bus chain.rest op m xs ys zs n) :
    ∃ top, Ripple (chain.entering op (m.cpu.flag .carry)) xs (ys.map chain.addend) zs top ∧
      n.cpu.flag .carry = top.carry ∧ n.cpu.flag .overflow = top.overflow := by
  induction runs with
  | last kept limb =>
    obtain ⟨sum, rfl, rfl, carry, overflow⟩ := limb.sum part
    rw [← kept]
    exact ⟨_, .last .., carry, overflow⟩
  | next kept limb _ ih =>
    obtain ⟨sum, rfl, rfl, carry, -⟩ := limb.sum part
    obtain ⟨top, others, flags⟩ := ih (.inr rfl)
    have handed : chain.entering chain.rest = id := by
      funext carry
      cases chain <;> rfl
    rw [handed, id_eq, carry] at others
    rw [← kept]
    exact ⟨top, .next _ _ _ others, flags⟩

/-- Any two words can be brought in front of an instruction of a chain. -/
theorem exists_limb (bus : Bus σ) (part : op = chain.first ∨ op = chain.rest) (m : Machine σ)
    (x y : Word) :
    ∃ before z n, before.cpu.flag .carry = m.cpu.flag .carry ∧ Limb bus op before x y z n := by
  -- adds or subtracts, `r0` and `r1` into `r0`
  obtain ⟨i, hop⟩ : ∃ i : Instruction, i.op = .alu op true 0 0 (.ofReg 1) := by
    rcases part with rfl | rfl <;> cases chain
    · exact ⟨Arm.decode .arm9 0 0xE0900001, by decide⟩
    · exact ⟨Arm.decode .arm9 0 0xE0500001, by decide⟩
    · exact ⟨Arm.decode .arm9 0 0xE0B00001, by decide⟩
    · exact ⟨Arm.decode .arm9 0 0xE0D00001, by decide⟩
  have writes : op.writes = true := by
    rcases part with rfl | rfl <;> cases chain <;> rfl
  obtain ⟨before, cpu⟩ : ∃ before : Machine σ, before.cpu = (m.cpu.setReg 0 x).setReg 1 y :=
    ⟨{ m with cpu := (m.cpu.setReg 0 x).setReg 1 y }, rfl⟩
  have left : (Operand.ofReg 1).partner before.cpu i.pipelinePc 0 = x := by
    rw [cpu]
    exact ((m.cpu.setReg 0 x).reg_setReg 1 0 y).trans (m.cpu.reg_setReg 0 0 x)
  have right : ((Operand.ofReg 1).value before.cpu i.pipelinePc).1 = y := by
    rw [cpu]
    exact (m.cpu.setReg 0 x).reg_setReg 1 1 y
  have limb := Limb.of hop (by decide) (Instruction.exec_perform_alu bus hop writes (by decide) before)
  rw [left, right] at limb
  exact ⟨before, _, _, by rw [cpu]; rfl, limb⟩

/-- There is a chain for all numbers of the same length. -/
theorem exists_runs (chain : CarryChain) (bus : Bus σ) {xs ys : List Word}
    (same : xs.length = ys.length) (some : xs ≠ []) {op : AluOp}
    (part : op = chain.first ∨ op = chain.rest) (m : Machine σ) :
    ∃ zs n, Runs bus chain.rest op m xs ys zs n := by
  induction xs generalizing ys op m with
  | nil => exact absurd rfl some
  | cons x xs ih =>
    obtain ⟨y, ys, rfl⟩ := List.exists_cons_of_length_eq_add_one same.symm
    obtain ⟨before, z, k, kept, limb⟩ := exists_limb bus part m x y
    by_cases more : xs = []
    · subst more
      obtain rfl : ys = [] := List.length_eq_zero_iff.mp (Nat.succ.inj same).symm
      exact ⟨[z], k, .last kept limb⟩
    · obtain ⟨zs, n, runs⟩ := ih (Nat.succ.inj same) more (.inr rfl) k
      exact ⟨z :: zs, n, .next kept limb runs⟩

/-- Carry chains are exact. Additions leave the limbs of the sum, and subtractions those of the
difference; the last flags tell whether the unsigned and the signed result fit. For all numbers there
are such chains, from any machine. -/
theorem exactness (bus : Bus σ) (m : Machine σ) (xs ys : List Word) (same : xs.length = ys.length)
    (some : xs ≠ []) :
    ((∃ zs n, Runs bus .adc .add m xs ys zs n) ∧
      ∀ zs n, Runs bus .adc .add m xs ys zs n →
        zs.length = xs.length ∧
        Limbs.value zs = (Limbs.value xs + Limbs.value ys) % 2 ^ (32 * xs.length) ∧
        (n.cpu.flag .carry = true ↔ 2 ^ (32 * xs.length) ≤ Limbs.value xs + Limbs.value ys) ∧
        (n.cpu.flag .overflow = true ↔
          Limbs.Overflows xs.length (Limbs.signed xs + Limbs.signed ys))) ∧
    (∃ zs n, Runs bus .sbc .sub m xs ys zs n) ∧
      ∀ zs n, Runs bus .sbc .sub m xs ys zs n →
        zs.length = xs.length ∧
        (Limbs.value zs : Int) = (Limbs.value xs - Limbs.value ys : Int) % 2 ^ (32 * xs.length) ∧
        (n.cpu.flag .carry = true ↔ Limbs.value ys ≤ Limbs.value xs) ∧
        (n.cpu.flag .overflow = true ↔
          Limbs.Overflows xs.length (Limbs.signed xs - Limbs.signed ys)) := by
  refine ⟨⟨exists_runs .add bus same some (.inl rfl) m, fun zs n runs => ?_⟩,
    exists_runs .sub bus same some (.inl rfl) m, fun zs n runs => ?_⟩
  · obtain ⟨top, ripple, carry, overflow⟩ := Runs.ripple .add (.inl rfl) runs
    rw [carry, overflow]
    rw [show addend .add = id from rfl, List.map_id] at ripple
    exact ripple.sum_exact
  · obtain ⟨top, ripple, carry, overflow⟩ := Runs.ripple .sub (.inl rfl) runs
    rw [carry, overflow]
    exact ripple.difference_exact

/-- One more than the largest number of two words and one less than the smallest: neither fits. -/
theorem exactness_doublewords :
    (∃ zs n, Runs Bus.silent .adc .add (Machine.start (CpuState.new .arm9) ()) [0xFFFFFFFF, 0x7FFFFFFF]
        [1, 0] zs n ∧
      Limbs.value zs = 2 ^ 63 ∧ n.cpu.flag .carry = false ∧ n.cpu.flag .overflow = true) ∧
    ∃ zs n, Runs Bus.silent .sbc .sub (Machine.start (CpuState.new .arm9) ()) [0, 0x80000000] [1, 0]
        zs n ∧
      Limbs.value zs = 2 ^ 63 - 1 ∧ n.cpu.flag .carry = true ∧ n.cpu.flag .overflow = true := by
  obtain ⟨⟨⟨zs, n, runs⟩, all⟩, -⟩ := exactness Bus.silent (Machine.start (CpuState.new .arm9) ())
    [0xFFFFFFFF, 0x7FFFFFFF] [1, 0] rfl (by decide)
  obtain ⟨-, ⟨ws, k, runs'⟩, all'⟩ := exactness Bus.silent (Machine.start (CpuState.new .arm9) ())
    [0, 0x80000000] [1, 0] rfl (by decide)
  obtain ⟨-, value, carry, overflow⟩ := all zs n runs
  obtain ⟨-, value', carry', overflow'⟩ := all' ws k runs'
  refine ⟨⟨zs, n, runs, value.trans (by decide), ?_, overflow.mpr (.inr (by decide))⟩,
    ws, k, runs', ?_, carry'.mpr (by decide), overflow'.mpr (.inl (by decide))⟩
  · exact Bool.eq_false_iff.mpr fun set => absurd (carry.mp set) (by decide)
  · exact Int.ofNat_inj.mp (value'.trans (by decide))

end CarryChain

end ArmBlocks
