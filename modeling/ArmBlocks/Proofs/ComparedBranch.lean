import ArmBlocks.Proofs.BranchCodes
import ArmBlocks.Proofs.Jumps

/-!
# Branches after a compare

A compare subtracts and keeps the flags alone, and a conditional branch looks at the flags alone. What
the programmer means by the two is a comparison of numbers, and that is what a condition is said to
compare here (`Condition.Compares`): unsigned ones for four of the conditions, signed ones for four, and
the numbers themselves, not their difference in 32 bits. **A branch right behind a compare is taken
exactly when its comparison holds** (`ComparedBranch.taken`).

Two steps lead there. The flags of a subtraction are facts about numbers: there is a carry where nothing
was borrowed, and the sign and the overflow differ where the first number is the smaller one, because
the sign is wrong just when the difference overflowed (`Sum.sign_differs_iff`). And nothing comes between
the flags and the branch: the optimization keeps them, since all flags are live in front of a branch,
and the check of the branch sees what the compare recorded.
-/

set_option autoImplicit false

namespace ArmBlocks

open Guest (exec)
open CodeCache (prepare)

variable {σ : Type}

/-! ## The flags of a difference

Each flag is a fact about the two numbers: zero where they are equal, carry where the first is at
least the second as unsigned ones. Overflow and sign are known together, as they differ exactly where
the first is the smaller one of two signed numbers.
-/

/-- The sign bit of a word tells which number it stands for. -/
theorem Word.sign_cases (x : Word) :
    x.msb = true ∧ x.toInt = x.toNat - 2 ^ 32 ∧ 2 ^ 31 ≤ x.toNat ∨
      x.msb = false ∧ x.toInt = x.toNat ∧ x.toNat < 2 ^ 31 := by
  have range := x.isLt
  rw [BitVec.toInt_eq_msb_cond, BitVec.msb_eq_decide]
  by_cases high : 2 ^ 31 ≤ x.toNat
  · exact .inl ⟨decide_eq_true high, if_pos (decide_eq_true high), high⟩
  · exact .inr ⟨decide_eq_false high, if_neg (by simpa using high), by omega⟩

namespace Sum

variable (a b : Word)

/-- What a subtraction adds up. -/
def difference : Sum := Sum.of a (~~~b) 1

theorem wide_difference : a.toNat + (~~~b).toNat + (1 : Word).toNat + b.toNat = a.toNat + 2 ^ 32 := by
  have range := b.isLt
  rw [BitVec.toNat_not, show (1 : Word).toNat = 1 from rfl]
  omega

/-- Adding the complement and one subtracts. -/
theorem word_difference : (difference a b).word = a - b := by
  have wide := wide_difference a b
  have range := b.isLt
  apply BitVec.eq_of_toNat_eq
  rw [difference, Sum.of, BitVec.toNat_sub]
  dsimp only
  rw [BitVec.toNat_ofNat]
  omega

/-- The word is zero where there is no difference. -/
theorem zero_difference : ((difference a b).word == 0) = true ↔ a = b := by
  have first := a.isLt
  have second := b.isLt
  rw [word_difference, beq_iff_eq, ← BitVec.toNat_inj, ← BitVec.toNat_inj, BitVec.toNat_sub]
  show _ = 0 ↔ _
  omega

/-- There is a carry where nothing has to be borrowed. -/
theorem carry_difference : (difference a b).carry = true ↔ b.toNat ≤ a.toNat := by
  have wide := wide_difference a b
  rw [difference, Sum.of]
  dsimp only
  rw [decide_eq_true_iff]
  omega

theorem overflow_eq : (difference a b).overflow = ((a.msb ^^ b.msb) && (a.msb ^^ (a - b).msb)) := by
  have word := word_difference a b
  unfold difference Sum.of at word ⊢
  dsimp only at word ⊢
  rw [word, BitVec.msb_and, BitVec.msb_not, BitVec.msb_xor, BitVec.msb_xor, BitVec.msb_not]
  cases a.msb <;> cases b.msb <;> simp

/-- It overflows where the difference of the numbers is not that of a word. -/
theorem overflow_difference :
    (difference a b).overflow = true ↔ a.toInt - b.toInt < -2 ^ 31 ∨ 2 ^ 31 ≤ a.toInt - b.toInt := by
  have value := BitVec.toNat_sub a b
  rw [overflow_eq]
  rcases Word.sign_cases a with ⟨sa, ia, ra⟩ | ⟨sa, ia, ra⟩ <;>
    rcases Word.sign_cases b with ⟨sb, ib, rb⟩ | ⟨sb, ib, rb⟩ <;>
      rcases Word.sign_cases (a - b) with ⟨sd, id, rd⟩ | ⟨sd, id, rd⟩ <;>
        simp [sa, sb, sd] <;> omega

/-- The sign is wrong just when the difference overflowed, so it differs from the overflow where the
first number is the smaller one. -/
theorem sign_differs_iff :
    (difference a b).word.msb ≠ (difference a b).overflow ↔ a.toInt < b.toInt := by
  have wrapped : (a - b).toInt = (a.toInt - b.toInt).bmod (2 ^ 32) := BitVec.toInt_sub ..
  have outside := overflow_difference a b
  have ranges := And.intro (And.intro (BitVec.le_toInt a) (BitVec.toInt_lt (x := a)))
    (And.intro (BitVec.le_toInt b) (BitVec.toInt_lt (x := b)))
  rw [Int.bmod_def] at wrapped
  rw [word_difference, BitVec.msb_eq_toInt]
  cases flag : (difference a b).overflow with
  | true =>
    have out := outside.mp flag
    rw [ne_eq, decide_eq_true_iff]
    omega
  | false =>
    have inside := (not_congr outside).mp (Bool.eq_false_iff.mp flag)
    rw [ne_eq, decide_eq_false_iff_not]
    omega

end Sum
namespace Condition

/-- What a condition says of two words that were compared. -/
def Compares (cond : Condition) (a b : Word) : Prop :=
  match cond with
  | .equal => a = b
  | .notEqual => a ≠ b
  | .carrySet => b.toNat ≤ a.toNat
  | .carryClear => a.toNat < b.toNat
  | .minus => (a - b).toInt < 0
  | .plus => 0 ≤ (a - b).toInt
  | .overflowSet => a.toInt - b.toInt < -2 ^ 31 ∨ 2 ^ 31 ≤ a.toInt - b.toInt
  | .overflowClear => -2 ^ 31 ≤ a.toInt - b.toInt ∧ a.toInt - b.toInt < 2 ^ 31
  | .higher => b.toNat < a.toNat
  | .lowerOrSame => a.toNat ≤ b.toNat
  | .greaterOrEqual => b.toInt ≤ a.toInt
  | .less => a.toInt < b.toInt
  | .greater => b.toInt < a.toInt
  | .lessOrEqual => a.toInt ≤ b.toInt
  | .always => True
  | .never => False

/-- Under the flags of a difference a condition holds exactly when its comparison does. -/
theorem holds_difference (cond : Condition) (a b : Word) :
    cond.holds (Sum.difference a b).word.msb ((Sum.difference a b).word == 0) (Sum.difference a b).carry
      (Sum.difference a b).overflow = true ↔ cond.Compares a b := by
  have zero : ((Sum.difference a b).word == 0) = true ↔ a = b := Sum.zero_difference a b
  have unsigned : a = b ↔ a.toNat = b.toNat := BitVec.toNat_inj.symm
  have signed : a = b ↔ a.toInt = b.toInt := BitVec.toInt_inj.symm
  have carry := Sum.carry_difference a b
  have overflow := Sum.overflow_difference a b
  have same : (Sum.difference a b).word.msb = (Sum.difference a b).overflow ↔ b.toInt ≤ a.toInt := by
    rw [← not_iff_not, ← ne_eq, Sum.sign_differs_iff, Int.not_le]
  have minus : (Sum.difference a b).word.msb = true ↔ (a - b).toInt < 0 := by
    rw [Sum.word_difference, BitVec.msb_eq_toInt, decide_eq_true_iff]
  -- the four flags are known by what they say of the operands, and nothing else about them is used
  generalize (Sum.difference a b).word.msb = n at *
  generalize ((Sum.difference a b).word == 0) = z at *
  generalize (Sum.difference a b).carry = c at *
  generalize (Sum.difference a b).overflow = v at *
  cases cond with
  | equal => exact zero
  | notEqual => rw [holds, Compares, Bool.not_eq_true', ← Bool.not_eq_true, zero]
  | carrySet => exact carry
  | carryClear => rw [holds, Compares, Bool.not_eq_true', ← Bool.not_eq_true, carry, Nat.not_le]
  | minus => exact minus
  | plus => rw [holds, Compares, Bool.not_eq_true', ← Bool.not_eq_true, minus, Int.not_lt]
  | overflowSet => exact overflow
  | overflowClear =>
    rw [holds, Compares, Bool.not_eq_true', ← Bool.not_eq_true, overflow]
    omega
  | higher =>
    rw [holds, Compares, Bool.and_eq_true, Bool.not_eq_true', ← Bool.not_eq_true, carry, zero, unsigned]
    omega
  | lowerOrSame =>
    rw [holds, Compares, Bool.not_eq_true', ← Bool.not_eq_true, Bool.and_eq_true, Bool.not_eq_true',
      ← Bool.not_eq_true, carry, zero, unsigned]
    omega
  | greaterOrEqual => rw [holds, Compares, beq_iff_eq, same]
  | less => rw [holds, Compares, Bool.not_eq_true', ← Bool.not_eq_true, beq_iff_eq, same, Int.not_le]
  | greater =>
    rw [holds, Compares, Bool.and_eq_true, Bool.not_eq_true', ← Bool.not_eq_true, beq_iff_eq, same, zero,
      signed]
    omega
  | lessOrEqual =>
    rw [holds, Compares, Bool.not_eq_true', ← Bool.not_eq_true, Bool.and_eq_true, Bool.not_eq_true',
      ← Bool.not_eq_true, beq_iff_eq, same, zero, signed]
    omega
  | always => exact ⟨fun _ => trivial, fun _ => rfl⟩
  | never => exact ⟨fun h => absurd h Bool.false_ne_true, fun h => h.elim⟩

end Condition

/-! ## A compare and a branch

A compare writes no register, so the branch meets the processor with other flags and nothing else.
Either it leaves the block and arrives at its target, or the run goes on behind it as if it had not
been there.
-/

namespace CpuState

/-- The processor after two words were compared. -/
def compared (s : CpuState) (a b : Word) : CpuState := s.setNzcv (Sum.difference a b)

/-- A condition holds after a comparison exactly if the operands compare as its name says. -/
theorem satisfies_compared (s : CpuState) (a b : Word) (cond : Condition) :
    (s.compared a b).satisfies cond = true ↔ cond.Compares a b := by
  have neg : (s.compared a b).flag .neg = (Sum.difference a b).word.msb := by
    simp [compared, setNzcv, setNzc, setNz, flag_setFlag]
  have zero : (s.compared a b).flag .zero = ((Sum.difference a b).word == 0) := by
    simp [compared, setNzcv, setNzc, setNz, flag_setFlag]
  have carry : (s.compared a b).flag .carry = (Sum.difference a b).carry := by
    simp [compared, setNzcv, setNzc, setNz, flag_setFlag]
  have overflow : (s.compared a b).flag .overflow = (Sum.difference a b).overflow := by
    simp [compared, setNzcv, setNzc, setNz, flag_setFlag]
  rw [satisfies, neg, zero, carry, overflow]
  exact cond.holds_difference a b

theorem thumb_compared (s : CpuState) (a b : Word) : (s.compared a b).thumb = s.thumb := by
  simp [thumb, compared, setNzcv, setNzc, setNz, flag_setFlag]

end CpuState

namespace Instruction

/-- A comparison sets the flags of the difference, takes one cycle and does nothing else. -/
theorem exec_perform_compare (bus : Bus σ) {i : Instruction} {rd rn rm : Reg}
    (hop : i.op = .alu .cmp true rd rn (.ofReg rm)) (m : Machine σ) :
    exec (i.perform bus) m =
      (none, { m with
        cpu := m.cpu.compared (m.cpu.read i.pipelinePc rn) (m.cpu.read i.pipelinePc rm)
        cycles := m.cycles + 1 }) := by
  have stays : i.writesPc = false := by
    rw [writesPc, hop]
    show RegSet.has 0 .pc = false
    decide
  have plain : (rd == .pc && AluOp.cmp.writes) = false := Bool.and_false _
  have cost : i.action.cost = 1 := by
    rw [action, hop, Op.cost, plain]
    rfl
  refine exec_perform_of_stays stays ?_
  unfold Action.execute
  rw [show i.action.op = _ from hop, cost]
  dsimp only
  rw [Guest.exec_bind, Guest.exec_spend, Guest.alu_eq, plain]
  rfl

end Instruction

/-- The code of a compare of two registers and of a conditional branch behind it. -/
inductive ComparedBranch where
  | arm (rn rd rm : Reg) (offset : BitVec 24)
  | thumb (rn rm : BitVec 3) (offset : BitVec 8)
  /-- The compare that reaches every register. -/
  | thumbHigh (rn rm : Reg) (offset : BitVec 8)

namespace ComparedBranch

/-- Whether it is THUMB code. -/
def isThumb : ComparedBranch → Bool
  | .arm .. => false
  | _ => true

/-- The register that is compared. -/
def left : ComparedBranch → Reg
  | .arm rn _ _ _ => rn
  | .thumb rn _ _ => rn.setWidth 4
  | .thumbHigh rn _ _ => rn

/-- The register that it is compared with. -/
def right : ComparedBranch → Reg
  | .arm _ _ rm _ => rm
  | .thumb _ rm _ => rm.setWidth 4
  | .thumbHigh _ rm _ => rm

/-- The compare, at an address. -/
def compare (cpu : Cpu) (addr : Word) : ComparedBranch → Instruction
  | .arm rn rd rm _ => Arm.decode cpu addr (Arm.compareCode rn rd rm)
  | .thumb rn rm _ => Thumb.decode cpu addr (Thumb.compareCode rn rm)
  | .thumbHigh rn rm _ => Thumb.decode cpu addr (Thumb.compareHighCode rn rm)

/-- The branch behind a compare at an address. -/
def branch (cpu : Cpu) (cond : Condition) (addr : Word) : ComparedBranch → Instruction
  | .arm _ _ _ offset => Arm.decode cpu (addr + 4) (Arm.branchCode cond false offset)
  | .thumb _ _ offset | .thumbHigh _ _ offset =>
    Thumb.decode cpu (addr + 2) (Thumb.branchCode cond offset)

/-- Where the branch goes: so many instructions from two behind it. -/
def target (addr : Word) : ComparedBranch → Word
  | .arm _ _ _ offset => addr + 4 + 8 + BitVec.ofInt 32 (4 * offset.toInt)
  | .thumb _ _ offset | .thumbHigh _ _ offset => addr + 2 + 4 + BitVec.ofInt 32 (2 * offset.toInt)

/-- The address behind the branch. -/
def behind (addr : Word) : ComparedBranch → Word
  | .arm .. => addr + 4 + 4
  | _ => addr + 2 + 2

variable (code : ComparedBranch) (cpu : Cpu) (addr : Word)

/-- Each of the three encodings is decoded to a comparison of the two registers. -/
theorem compare_spec : (code.compare cpu addr).cond = .always ∧
    ∃ rd, (code.compare cpu addr).op = .alu .cmp true rd code.left (.ofReg code.right) := by
  cases code with
  | arm rn rd rm offset =>
    rw [compare, Arm.decode_compareCode]
    exact ⟨rfl, rd, rfl⟩
  | thumb rn rm offset =>
    rw [compare, Thumb.decode_compareCode]
    exact ⟨rfl, rn.setWidth 4, rfl⟩
  | thumbHigh rn rm offset =>
    rw [compare, Thumb.decode_compareHighCode]
    exact ⟨rfl, rn, rfl⟩

/-- The branch of each of them has the condition, the target and the instruction behind it that the code
says. -/
theorem branch_spec {cond : Condition} (always : cond ≠ .always) (never : cond ≠ .never) :
    (code.branch cpu cond addr).cond = cond ∧
      (code.branch cpu cond addr).op = .branch false false (code.target addr) ∧
      (code.branch cpu cond addr).next = code.behind addr := by
  cases code with
  | arm rn rd rm offset =>
    rw [branch, Arm.decode_branchCode _ _ never]
    exact ⟨rfl, rfl, rfl⟩
  | thumb rn rm offset =>
    rw [branch, Thumb.decode_branchCode _ _ always never]
    exact ⟨rfl, rfl, rfl⟩
  | thumbHigh rn rm offset =>
    rw [branch, Thumb.decode_branchCode _ _ always never]
    exact ⟨rfl, rfl, rfl⟩

/-- Targets are where an instruction can stand, as offsets are in instructions. -/
theorem aligned_target {addr : Word} (aligned : addr.toNat % Decode.bytes code.isThumb = 0) :
    (code.target addr).toNat % Decode.bytes code.isThumb = 0 := by
  cases code with
  | arm rn rd rm offset =>
    have start := Decode.aligned_add (Decode.aligned_add aligned (show (4 : Word).toNat % 4 = 0 by decide))
      (show (8 : Word).toNat % 4 = 0 by decide)
    exact Decode.aligned_add start (Decode.aligned_ofInt false offset.toInt)
  | thumb rn rm offset | thumbHigh rn rm offset =>
    have start := Decode.aligned_add (Decode.aligned_add aligned (show (2 : Word).toNat % 2 = 0 by decide))
      (show (4 : Word).toNat % 2 = 0 by decide)
    exact Decode.aligned_add start (Decode.aligned_ofInt true offset.toInt)

variable {code cpu addr} {cond : Condition} {after : List Instruction}

/-- No optimization touches the two. -/
theorem prepare_eq (always : cond ≠ .always) (never : cond ≠ .never) (config : Config) :
    prepare config (code.compare cpu addr :: code.branch cpu cond addr :: after) =
      code.compare cpu addr :: code.branch cpu cond addr :: prepare config after := by
  obtain ⟨-, branches, -⟩ := branch_spec code cpu addr always never
  have exits : (code.branch cpu cond addr).op.mayExit = true := by
    refine Bool.eq_true_of_not_eq_false fun inside => ?_
    have stays := Op.writesPc_of_inside inside
    exact Bool.false_ne_true (stays.symm.trans (Instruction.writesPc_branch branches))
  have kept : (code.branch cpu cond addr).op.withoutFlags? = none := by
    rw [branches]
    rfl
  rw [CodeCache.prepare_of_mayExit config _ exits, CodeCache.prepare_of_kept config kept]

section

variable (bus : Bus σ) (code cpu addr) (always : cond ≠ .always) (never : cond ≠ .never)
  (rest : List Instruction) (m : Machine σ)

/-- The words that are compared. -/
def operands (s : CpuState) : Word × Word :=
  (s.read (code.compare cpu addr).pipelinePc code.left,
    s.read (code.compare cpu addr).pipelinePc code.right)

/-- The machine behind the compare. -/
def passed : Machine σ :=
  { m with cpu := m.cpu.compared (code.operands cpu addr m.cpu).1 (code.operands cpu addr m.cpu).2
           cycles := m.cycles + 1 }

theorem exec_body_compare :
    exec (Block.body bus (code.compare cpu addr :: rest)) m =
      exec (Block.body bus rest) (code.passed cpu addr m) := by
  obtain ⟨plain, rd, compares⟩ := compare_spec code cpu addr
  rw [Block.exec_body_of_always bus plain, Instruction.exec_perform_compare bus compares]
  rfl

include always never

theorem satisfies_passed :
    (code.passed cpu addr m).cpu.satisfies (code.branch cpu cond addr).cond = true ↔
      cond.Compares (code.operands cpu addr m.cpu).1 (code.operands cpu addr m.cpu).2 := by
  rw [(branch_spec code cpu addr always never).1]
  exact m.cpu.satisfies_compared _ _ cond

/-- Where the operands compare as the condition says, the run is left at the target of the branch. -/
theorem exec_body_of_compares
    (holds : cond.Compares (code.operands cpu addr m.cpu).1 (code.operands cpu addr m.cpu).2) :
    ∃ k, exec (Block.body bus (code.compare cpu addr :: code.branch cpu cond addr :: rest)) m =
        (some .early, k) ∧
      k.cpu = (code.passed cpu addr m).cpu.arrive (code.target addr) := by
  obtain ⟨-, branches, -⟩ := branch_spec code cpu addr always never
  obtain ⟨k, left, arrived⟩ :=
    Instruction.exec_perform_branch bus branches (code.passed cpu addr m)
  refine ⟨k, ?_, arrived⟩
  rw [exec_body_compare]
  exact Block.exec_body_of_leaves bus ((satisfies_passed code cpu addr always never m).mpr holds) left rest

theorem exec_body_of_not_compares (short : rest.length + 1 < 2 ^ 16)
    (fails : ¬cond.Compares (code.operands cpu addr m.cpu).1 (code.operands cpu addr m.cpu).2) :
    exec (Block.body bus (code.compare cpu addr :: code.branch cpu cond addr :: rest)) m =
      exec (Block.body bus rest) ((code.passed cpu addr m).spend 1) := by
  rw [exec_body_compare]
  refine Block.exec_body_of_fails bus (fun holds => fails ?_) short
  exact (satisfies_passed code cpu addr always never m).mp holds

end

section

variable (bus : Bus σ) (code : ComparedBranch) (cpu : Cpu) (always : cond ≠ .always)
  (never : cond ≠ .never) (addr : Word) {p : Piece}
  (begins : p.run = code.compare cpu addr :: code.branch cpu cond addr :: after) (fits : p.Fits)
  (s : CpuState) (host : σ)
include always never begins fits

/-- And so is the piece of code, however it is run. -/
theorem exec?_of_compares
    (holds : cond.Compares (code.operands cpu addr s).1 (code.operands cpu addr s).2) :
    ∃ m, p.exec? bus s host = some (.early, m) ∧
      m.cpu = (s.compared (code.operands cpu addr s).1 (code.operands cpu addr s).2).arrive
        (code.target addr) := by
  obtain ⟨last, -, ran⟩ := Piece.exec?_of_fits bus fits s host
  obtain ⟨k, whole, arrived⟩ := exec_body_of_compares code cpu addr bus always never
    (prepare p.config after) (Machine.start s host) holds
  rw [begins, prepare_eq always never, Block.follow, whole] at ran
  exact ⟨k, ran, arrived⟩

/-- Where the comparison fails, both have been passed, and the block goes on with what is behind. -/
theorem exec?_of_not_compares
    (fails : ¬cond.Compares (code.operands cpu addr s).1 (code.operands cpu addr s).2) :
    ∃ last, (prepare p.config p.run).getLast? = some last ∧
      p.exec? bus s host = some (Block.follow bus (prepare p.config after) last
        ((Machine.start (s.compared (code.operands cpu addr s).1 (code.operands cpu addr s).2) host).spend
          2)) := by
  obtain ⟨last, hlast, ran⟩ := Piece.exec?_of_fits bus fits s host
  have short : (prepare p.config after).length + 1 < 2 ^ 16 := by
    have few := fits.short
    rw [begins, List.length_cons, List.length_cons] at few
    rw [CodeCache.length_prepare]
    unfold Config.maxBlock at few
    omega
  have whole := exec_body_of_not_compares code cpu addr bus always never (prepare p.config after)
    (Machine.start s host) short fails
  refine ⟨last, hlast, ?_⟩
  rw [ran, begins, prepare_eq always never, Block.follow, whole]
  rfl

end

/-- **A branch behind a compare is taken exactly when its comparison holds.** The block is any that
begins with the two, optimized or not. Where the comparison fails it goes on with what is behind. -/
theorem taken (bus : Bus σ) (code : ComparedBranch) (cpu : Cpu) (always : cond ≠ .always)
    (never : cond ≠ .never) (addr : Word) (after : List Instruction) {p : Piece}
    (begins : p.run = code.compare cpu addr :: code.branch cpu cond addr :: after) (fits : p.Fits)
    (s : CpuState) (host : σ) :
    let a := s.read (code.compare cpu addr).pipelinePc code.left
    let b := s.read (code.compare cpu addr).pipelinePc code.right
    ∃ exit m, p.exec? bus s host = some (exit, m) ∧
      (cond.Compares a b → exit = .early ∧ m.cpu = (s.compared a b).arrive (code.target addr) ∧
        (s.thumb = code.isThumb → s.Aligns addr → m.cpu.next = code.target addr)) ∧
      (¬cond.Compares a b → ∃ last, (prepare p.config p.run).getLast? = some last ∧
        (exit, m) = Block.follow bus (prepare p.config after) last
          ((Machine.start (s.compared a b) host).spend 2)) ∧
      (after = [] → (exit = .early ↔ cond.Compares a b) ∧
        (¬cond.Compares a b → m.cpu = (s.compared a b).withNext (code.behind addr))) := by
  intro a b
  by_cases holds : cond.Compares a b
  · obtain ⟨k, ran, arrived⟩ := exec?_of_compares bus code cpu always never addr begins fits s host holds
    refine ⟨.early, k, ran, fun _ => ⟨rfl, arrived, fun set aligned => ?_⟩,
      fun fails => absurd holds fails,
      fun _ => ⟨⟨fun _ => holds, fun _ => rfl⟩, fun fails => absurd holds fails⟩⟩
    have current : (s.compared a b).Aligns (code.target addr) := by
      -- a comparison leaves the instruction set as it is
      rw [CpuState.aligns_congr (s.thumb_compared a b), CpuState.aligns_iff, set]
      rw [CpuState.aligns_iff, set] at aligned
      exact aligned_target code aligned
    rw [arrived]
    exact congrArg CpuState.next (CpuState.arrive_of_aligns current)
  · obtain ⟨last, hlast, ran⟩ :=
      exec?_of_not_compares bus code cpu always never addr begins fits s host holds
    refine ⟨_, _, ran, fun compares => absurd compares holds, fun _ => ⟨last, hlast, rfl⟩, fun none => ?_⟩
    obtain rfl := none
    rw [begins, prepare_eq always never, CodeCache.prepare_nil] at hlast
    obtain rfl : code.branch cpu cond addr = last := Option.some.inj hlast
    rw [CodeCache.prepare_nil]
    refine ⟨⟨fun early => ?_, fun compares => absurd compares holds⟩, fun _ => ?_⟩
    · cases early
    · show (s.compared a b).withNext (code.branch cpu cond addr).next = _
      rw [(branch_spec code cpu addr always never).2.2]

/-- At the boundary of the signed numbers: the smallest one is less than one, though their difference is
positive as a word. The compare and the branch are a block by themselves, optimized. -/
theorem taken_smallest :
    let code := ComparedBranch.arm 0 0 1 6
    let s := ((CpuState.new .arm9).setReg 0 0x80000000).setReg 1 1
    let p : Piece := { run := [code.compare .arm9 0, code.branch .arm9 .less 0], config := {},
                       arena := Block.scratchArena }
    0 < ((0x80000000 : Word) - 1).toInt ∧
      ∃ m, p.exec? (Bus.ofInstruction 0) s () = some (.early, m) ∧ m.cpu.next = 36 := by
  intro code s p
  have fits : p.Fits := ⟨by decide, by decide +kernel⟩
  obtain ⟨exit, m, ran, takes, -, -⟩ :=
    taken (Bus.ofInstruction 0) code .arm9 (by decide) (by decide) 0 [] rfl fits s ()
  have smaller : Condition.less.Compares (s.read (code.compare .arm9 0).pipelinePc code.left)
      (s.read (code.compare .arm9 0).pipelinePc code.right) := by
    show (0x80000000 : Word).toInt < (1 : Word).toInt
    decide
  obtain ⟨rfl, -, next⟩ := takes smaller
  exact ⟨by decide, m, ran, next (by decide) (by decide)⟩

end ComparedBranch

end ArmBlocks
