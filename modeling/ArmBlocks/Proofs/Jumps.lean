import ArmBlocks.Proofs.ExceptionReturn
import ArmBlocks.Proofs.Pieces

/-!
# Instructions that go elsewhere

A branch writes r15 in its action, and the node behind it makes that the next instruction. Together they
are one step of the processor, `CpuState.arrive`: r15 and what is next hold the target, aligned to the
instruction set that is current by then. **Every branch is that step, after what it does to the link
register and the instruction set.** It is said here for each of them, of the instruction as it stands in
a block and for any machine.
-/

set_option autoImplicit false

namespace ArmBlocks

open Guest (exec)

variable {σ : Type}

/-! ## Aligned addresses -/

namespace Decode

variable {thumb : Bool}

/-- Sums of what is aligned are aligned, also where they wrap. -/
theorem aligned_add {x y : Word} (hx : x.toNat % bytes thumb = 0) (hy : y.toNat % bytes thumb = 0) :
    (x + y).toNat % bytes thumb = 0 := by
  rw [BitVec.toNat_add]
  rcases bytes_cases thumb with two | four
  · rw [two] at hx hy ⊢
    omega
  · rw [four] at hx hy ⊢
    omega

/-- A number of instructions is a distance between aligned addresses. -/
theorem aligned_ofInt (thumb : Bool) (n : Int) :
    (BitVec.ofInt 32 (bytes thumb * n)).toNat % bytes thumb = 0 := by
  rw [BitVec.toNat_ofInt]
  rcases bytes_cases thumb with two | four
  · rw [two]
    omega
  · rw [four]
    omega

end Decode

/-! ## Arriving

`CpuState.arrive` is what a branch comes to: r15 is aligned to the instruction set, and the next
instruction is what r15 says. Whatever is written in between to other places can be moved out of it.
-/

namespace CpuState

variable {s : CpuState} {x : Word}

/-- Goes on at an address, aligned to the instruction set. -/
def arrive (s : CpuState) (x : Word) : CpuState := (s.write .pc x).withNext ((s.write .pc x).reg .pc)

theorem setReg_setReg (s : CpuState) (r : Reg) (x y : Word) : (s.setReg r x).setReg r y = s.setReg r y := by
  simp [setReg, Vector.set_set]

theorem setReg_comm (s : CpuState) {r q : Reg} (other : r ≠ q) (x y : Word) :
    (s.setReg r x).setReg q y = (s.setReg q y).setReg r x := by
  have places : r.toNat ≠ q.toNat := fun same => other (BitVec.eq_of_toNat_eq same)
  simp only [setReg, CpuState.mk.injEq, and_true]
  exact Vector.set_comm _ _ places

theorem arrive_eq (s : CpuState) (x : Word) :
    s.arrive x =
      (s.setReg .pc (Decode.align s.thumb x)).withNext (Decode.align s.thumb x) := by
  have written : s.write .pc x = s.setReg .pc (Decode.align s.thumb x) := if_pos rfl
  rw [arrive, written, reg_setReg, if_pos rfl]

theorem arrive_of_aligns (aligned : s.Aligns x) : s.arrive x = (s.setReg .pc x).withNext x := by
  rw [arrive_eq, Decode.align_of_aligned (aligns_iff.mp aligned)]

/-- It does not matter what r15 or the next instruction was. -/
theorem arrive_setReg_pc (s : CpuState) (x y : Word) : (s.setReg .pc y).arrive x = s.arrive x := by
  rw [arrive_eq, arrive_eq, setReg_setReg]
  rfl

theorem arrive_withNext (s : CpuState) (x next : Word) : (s.withNext next).arrive x = s.arrive x := by
  rw [arrive_eq, arrive_eq]
  rfl

/-- Where ARM code is executed from then on, the lowest two bits do not matter either. -/
theorem arrive_word (arm : s.thumb = false) (x : Word) : s.arrive (x &&& ~~~3#32) = s.arrive x := by
  have twice : Decode.align false (Decode.align false x) = Decode.align false x :=
    Decode.align_of_aligned (Decode.aligned_align false x)
  rw [arrive_eq, arrive_eq, arm, show x &&& ~~~3#32 = Decode.align false x from rfl, twice]

theorem read_setReg_pc (s : CpuState) (pc x : Word) (r : Reg) : (s.setReg .pc x).read pc r = s.read pc r := by
  unfold read
  split
  · rfl
  · rename_i other
    rw [reg_setReg, if_neg (Ne.symm other)]

theorem linkIf_setReg_pc (s : CpuState) (b : Bool) (link x : Word) :
    (s.setReg .pc x).linkIf b link = (s.linkIf b link).setReg .pc x := by
  cases b with
  | true => exact s.setReg_comm (by decide) x link
  | false => rfl

end CpuState

/-! ## Branches

A branch is one action and the publishing of r15. The first half of a long branch is none in that
sense, as it only writes the link register. Each of the four is followed once, for any processor.
-/

namespace Instruction

variable (bus : Bus σ) {i : Instruction}

/-- An action that writes r15, with the node behind it. -/
theorem exec_perform_of_writes {m n : Machine σ} {t : CpuState} {x : Word} (writes : i.writesPc = true)
    (kind : i.op.publishKind = .publish)
    (acts : exec (i.action.execute bus i.pipelinePc) (m.shown i) = (.next, n))
    (cpu : n.cpu = t.write .pc x) :
    ∃ k, exec (i.perform bus) m = (some .early, k) ∧ k.cpu = t.arrive x := by
  refine ⟨{ n with cpu := n.cpu.withNext (n.cpu.reg .pc) }, ?_, ?_⟩
  · rw [exec_perform_of_next acts, if_pos writes, kind]
    rfl
  · show n.cpu.withNext (n.cpu.reg .pc) = _
    rw [cpu]
    rfl

theorem writesPc_branch {links exchange : Bool} {target : Word}
    (hop : i.op = .branch links exchange target) : i.writesPc = true := by
  rw [writesPc, hop, Op.registersWritten]
  cases links <;> decide

/-- A branch leaves at its target, in the instruction set it says. -/
theorem exec_perform_branch {links exchange : Bool} {target : Word}
    (hop : i.op = .branch links exchange target) (m : Machine σ) :
    ∃ k, exec (i.perform bus) m = (some .early, k) ∧
      k.cpu = (if exchange then (m.cpu.linkIf links i.link).setFlag .thumb true
        else m.cpu.linkIf links i.link).arrive target := by
  have reads : i.readsPc = false := by
    rw [readsPc, hop, Op.registersRead]
    decide
  have shown : m.shown i = m := by
    rw [Machine.shown, reads]
    rfl
  refine exec_perform_of_writes bus (writesPc_branch hop) (by rw [hop]; rfl) (n := { m with
    cpu := m.cpu.branch i.link links exchange target, cycles := m.cycles + i.action.cost }) ?_ rfl
  unfold Action.execute
  rw [shown, show i.action.op = _ from hop]
  rfl

/-- A branch to a register leaves at what was in it, and its lowest bit says in which instruction set. -/
theorem exec_perform_branchExchange {links : Bool} {rm : Reg} (hop : i.op = .branchExchange links rm)
    (m : Machine σ) :
    ∃ k, exec (i.perform bus) m = (some .early, k) ∧
      k.cpu = ((m.cpu.linkIf links i.link).setFlag .thumb
        ((m.cpu.read i.pipelinePc rm).getLsbD 0)).arrive (m.cpu.read i.pipelinePc rm) := by
  have writes : i.writesPc = true := by
    rw [writesPc, hop, Op.registersWritten]
    cases links <;> decide
  -- r15 may be shown first; it is not read from there, and then written over
  have shown : (m.shown i).cpu = m.cpu ∨ (m.shown i).cpu = m.cpu.setReg .pc i.pipelinePc := by
    unfold Machine.shown
    split
    · exact .inr rfl
    · exact .inl rfl
  have acts : exec (i.action.execute bus i.pipelinePc) (m.shown i) =
      (.next, { m.shown i with
        cpu := (m.shown i).cpu.branchExchange i.pipelinePc i.link links rm
        cycles := (m.shown i).cycles + i.action.cost }) := by
    unfold Action.execute
    rw [show i.action.op = _ from hop]
    rfl
  obtain ⟨k, left, cpu⟩ := exec_perform_of_writes bus writes (by rw [hop]; rfl) acts rfl
  refine ⟨k, left, cpu.trans ?_⟩
  rcases shown with same | same
  · rw [same]
  · rw [same, CpuState.read_setReg_pc, CpuState.linkIf_setReg_pc]
    exact CpuState.arrive_setReg_pc ((m.cpu.linkIf links i.link).setFlag .thumb _) _ _

/-- The first half of a long branch only writes r14. -/
theorem exec_perform_linkPrefix {value : Word} (hop : i.op = .linkPrefix value) (m : Machine σ) :
    ∃ k, exec (i.perform bus) m = (none, k) ∧ k.cpu = m.cpu.setReg .lr value := by
  have stays : i.writesPc = false := by
    rw [writesPc, hop, Op.registersWritten]
    decide
  refine ⟨_, exec_perform_of_stays stays (n := { m with
    cpu := m.cpu.setReg .lr value, cycles := m.cycles + i.action.cost }) ?_, rfl⟩
  unfold Action.execute
  rw [show i.action.op = _ from hop]
  rfl

/-- The second half leaves at what the first one left in r14 and its own offset. -/
theorem exec_perform_linkSuffix {offset : Word} {exchange : Bool} (hop : i.op = .linkSuffix offset exchange)
    (m : Machine σ) :
    ∃ k, exec (i.perform bus) m = (some .early, k) ∧
      k.cpu = (if exchange then (m.cpu.setReg .lr i.link).setFlag .thumb false
        else m.cpu.setReg .lr i.link).arrive (m.cpu.reg .lr + offset) := by
  have writes : i.writesPc = true := by
    rw [writesPc, hop, Op.registersWritten]
    decide
  have reads : i.readsPc = false := by
    rw [readsPc, hop, Op.registersRead]
    decide
  have shown : m.shown i = m := by
    rw [Machine.shown, reads]
    rfl
  have acts : exec (i.action.execute bus i.pipelinePc) (m.shown i) =
      (.next, { m with
        cpu := m.cpu.linkSuffix i.link offset exchange, cycles := m.cycles + i.action.cost }) := by
    unfold Action.execute
    rw [shown, show i.action.op = _ from hop]
    rfl
  cases exchange with
  | false => exact exec_perform_of_writes bus writes (by rw [hop]; rfl) acts rfl
  | true =>
    obtain ⟨k, left, cpu⟩ := exec_perform_of_writes bus writes (by rw [hop]; rfl) acts rfl
    have arm : ((m.cpu.setReg .lr i.link).setFlag .thumb false).thumb = false :=
      (CpuState.flag_setFlag ..).trans (if_pos rfl)
    exact ⟨k, left, cpu.trans (CpuState.arrive_word arm _)⟩

end Instruction

end ArmBlocks
