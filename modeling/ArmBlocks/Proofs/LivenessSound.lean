import ArmBlocks.Proofs.CurrentCode
import ArmBlocks.Proofs.FlagAgreement
import ArmBlocks.Proofs.OneByOne
import ArmBlocks.Proofs.Recording

/-!
# Removing dead flags changes nothing that can be seen

The simplified run does what the run does, instruction by instruction: it ends at the same one, in
the same way, with the same processor and the same host, after the same cycles
(`runEach_optimize`). On the way the processors differ, in flags that are not live.

**What may leave needs no argument.** Before such an instruction every flag counts as live, so the
processors are equal, and an instruction of this kind is never simplified. Whatever it asks of the
host it asks the same on both sides. All the work is in the instructions between, which touch
nothing but the processor, and for these the account of flags has been checked
(`Op.agree_onCpu`, `Op.agree_withoutFlags`).

The induction is on the run, in the direction of `Liveness.pass`: what is live before the rest is
what must agree after its first instruction.
-/

set_option autoImplicit false

namespace ArmBlocks

open Guest (exec onward inOrder)

variable {σ : Type}

/-! ## Operations that touch nothing but the processor

An operation that cannot leave the block and has no access is `Op.onCpu`, with its cycles and its
notices. All of the liveness argument takes place there.
-/

/-- A machine after an operation that touches nothing but the processor. -/
def Machine.after (m : Machine σ) (op : Op) (pc cost : Word) : Machine σ :=
  { m with
    cpu := op.onCpu pc m.cpu
    cycles := m.cycles + (op.dataCycles pc m.cpu + cost)
    notices := m.notices ++ op.noticesOn pc m.cpu }

theorem Op.writesPc_of_inside {op : Op} (inside : op.mayExit = false) :
    op.registersWritten.has .pc = false := by
  unfold Op.mayExit at inside
  rw [Bool.or_eq_false_iff] at inside
  exact inside.2

namespace Action

variable (bus : Bus σ) {a : Action} (pc : Word)

/-- What an operation that cannot leave its block does. -/
theorem exec_execute_of_inside (inside : a.op.mayExit = false) (m : Machine σ) :
    exec (a.execute bus pc) m = (.next, m.after a.op pc a.cost) := by
  have onCpu {f : CpuState → CpuState} (same : f m.cpu = a.op.onCpu pc m.cpu)
      (data : a.op.dataCycles pc m.cpu = 0) (silent : a.op.noticesOn pc m.cpu = []) :
      exec (do
        Guest.modifyCpu f
        Guest.spend a.cost
        return .next : Guest σ Continuation) m = (.next, m.after a.op pc a.cost) := by
    rw [Machine.after, data, silent, List.append_nil, ← same, show (0 : Word) + a.cost = a.cost
      from BitVec.zero_add _]
    rfl
  have leaves (writes : a.op.registersWritten.has .pc = true) : False :=
    absurd (Op.writesPc_of_inside inside) (by rw [writes]; simp)
  unfold execute
  -- the operations that stay inside are their function on the processor; the others cannot be here
  cases hop : a.op with
  | alu op set rd rn operand =>
    have stays : (rd == .pc && op.writes) = false := by
      rw [← Op.mayExit_alu op set rd rn operand, ← hop]
      exact inside
    have result : exec (do
        Guest.spend a.cost
        Guest.alu bus pc op set rd rn operand : Guest σ Continuation) m =
        (.next, { m with
          cpu := (Op.alu op set rd rn operand).onCpu pc m.cpu
          cycles := m.cycles + a.cost }) := by
      simp only [Guest.alu, Op.onCpu, stays, Bool.not_false, Bool.and_true, Bool.false_and]
      cases op.writes with
      | true => rfl
      | false => rfl
    rw [Machine.after, show Op.dataCycles pc (.alu op set rd rn operand) m.cpu + a.cost = a.cost
      from BitVec.zero_add _, show Op.noticesOn pc (.alu op set rd rn operand) m.cpu = [] from rfl,
      List.append_nil]
    exact result
  | mul op set rd rn rs rm =>
    rw [Machine.after, ← BitVec.add_assoc]
    simp only [Op.noticesOn, List.append_nil]
    rfl
  | halfMul op rd rn rs rm xTop yTop =>
    rw [hop] at onCpu
    exact onCpu rfl rfl rfl
  | clz rd rm =>
    rw [hop] at onCpu
    exact onCpu rfl rfl rfl
  | sat op rd rn rm =>
    rw [hop] at onCpu
    exact onCpu rfl rfl rfl
  | linkPrefix value =>
    rw [hop] at onCpu
    exact onCpu rfl rfl rfl
  | nop cycles =>
    rw [hop] at onCpu
    exact onCpu rfl rfl rfl
  | breakpoint =>
    rw [Machine.after, show Op.dataCycles pc .breakpoint m.cpu + a.cost = a.cost
      from BitVec.zero_add _]
    rfl
  -- a branch writes the counter, and no operation that stays inside does
  | branch links exchange target =>
    rw [hop] at leaves
    exact (leaves (by rw [Op.registersWritten, RegSet.has_or, RegSet.has_single]; rfl)).elim
  | branchExchange links rm =>
    rw [hop] at leaves
    exact (leaves (by rw [Op.registersWritten, RegSet.has_or, RegSet.has_single]; rfl)).elim
  | linkSuffix offset exchange =>
    rw [hop] at leaves
    exact (leaves (by rw [Op.registersWritten, RegSet.has_or, RegSet.has_single]; rfl)).elim
  | _ =>
    rw [hop] at inside
    unfold Op.mayExit at inside
    rw [Bool.true_or] at inside
    cases inside

end Action

/-! ## Instructions by themselves

An instruction that stays inside may be passed over, and then it kills no flag. That is the reason why
only unconditional instructions take flags out of the live ones.
-/

namespace Instruction

/-- An instruction that cannot leave is its effect on the processor, and its cycles. -/
theorem exec_perform_of_inside (bus : Bus σ) {i : Instruction} (inside : i.op.mayExit = false)
    (m : Machine σ) :
    exec (i.perform bus) m = (none, m.after i.op i.pipelinePc i.action.cost) := by
  have stays : i.writesPc = false := Op.writesPc_of_inside inside
  have steps : i.steps = [⟨.action, some (.action i.action), i.pipelinePc⟩] := by
    simp [Instruction.steps, stays]
  have goes := i.action.exec_execute_of_inside bus i.pipelinePc inside m
  have step : exec (Step.perform bus ⟨.action, some (.action i.action), i.pipelinePc⟩) m =
      (none, (exec (i.action.execute bus i.pipelinePc) m).2) :=
    Step.exec_perform_of_next (congrArg Prod.fst goes)
  rw [perform, steps, List.map_singleton, Guest.exec_inOrder_cons, step, goes]
  rfl

/-- What an instruction that cannot leave its block does by itself. -/
theorem alone_of_inside (bus : Bus σ) {i : Instruction} (inside : i.op.mayExit = false)
    (cpu : CpuState) (host : σ) :
    i.alone bus cpu host = (.atEnd, Machine.finish
      (if cpu.satisfies i.cond
        then (Machine.start cpu host).after i.op i.pipelinePc i.action.cost
        else (Machine.start cpu host).spend 1) i) := by
  rw [alone_eq, exec_performIf, exec_perform_of_inside bus inside]
  show onward id (if cpu.satisfies i.cond then _ else _) _ = _
  split
  · rfl
  · rfl

end Instruction

/-- Machines that only differ in flags that are not live. -/
structure Machine.AgreeOn (live : FlagSet) (m n : Machine σ) : Prop where
  cpu : m.cpu.AgreeOn live n.cpu
  host : m.host = n.host
  cycles : m.cycles = n.cycles
  notices : m.notices = n.notices

theorem Machine.AgreeOn.trans {live : FlagSet} {m n k : Machine σ} (h : m.AgreeOn live n)
    (h' : n.AgreeOn live k) : m.AgreeOn live k :=
  ⟨h.cpu.trans h'.cpu, h.host.trans h'.host, h.cycles.trans h'.cycles, h.notices.trans h'.notices⟩

/-- If two machines agree on the live flags, and what follows does not see more than these, then the
outcomes are the same. -/
theorem Outcome.first_agree {live : FlagSet} {m n : Machine σ} (h : m.AgreeOn live n)
    {rest rest' : CpuState → σ → Outcome σ}
    (others : ∀ s t host, s.AgreeOn live t → rest s host = rest' t host) :
    Outcome.first (.atEnd, m) rest = Outcome.first (.atEnd, n) rest' := by
  have after : rest m.cpu m.host = rest' n.cpu n.host := by
    rw [h.host]
    exact others m.cpu n.cpu n.host h.cpu
  simp only [Outcome.first]
  rw [after, h.cycles, h.notices]

namespace Liveness

open Instruction

variable {live : FlagSet} {i : Instruction} {s t : CpuState}

/-- The instruction does the same on processors that agree on what is live before it. -/
theorem alone_agree (bus : Bus σ) (inside : i.op.mayExit = false)
    (h : s.AgreeOn (liveBefore i live) t) (host : σ) :
    ∃ m n, i.alone bus s host = (.atEnd, m) ∧ i.alone bus t host = (.atEnd, n) ∧
      m.AgreeOn live n := by
  refine ⟨_, _, alone_of_inside bus inside s host, alone_of_inside bus inside t host, ?_⟩
  rw [liveBefore, inside, if_neg (by simp)] at h
  have reads (j : Nat) (hj : i.flagsRead.has j = true) :
      ((if i.isUnconditional then live.diff i.flagsWritten else live).union i.flagsRead).has j
        = true := by
    simp [hj]
  have cond : s.satisfies i.cond = t.satisfies i.cond :=
    h.satisfies fun j hj => reads j (by simp [flagsRead, hj])
  rw [cond]
  split
  · rename_i holds
    have after := Op.agree_onCpu i.pipelinePc h inside fun j hj => reads j (by simp [flagsRead, hj])
    have data := Op.dataCycles_agree i.pipelinePc h i.op
    have notices := Op.noticesOn_agree i.pipelinePc h i.op
    refine ⟨(after.mono fun j hj => ?_).withNext i.next, rfl,
      congrArg (fun c : Word => 0 + (c + i.action.cost)) data, notices⟩
    · -- what is live afterwards was live before, unless the instruction wrote it
      have written : i.op.flagsWritten = i.flagsWritten := rfl
      rw [FlagSet.has_union, FlagSet.has_union, written]
      by_cases always : i.isUnconditional = true
      · simp only [always, if_true, FlagSet.has_diff, hj]
        cases i.flagsWritten.has j <;> simp
      · simp [always, hj]
  -- an instruction that is passed over has a condition, and nothing dies at it
  · rename_i fails
    refine ⟨(h.mono fun j hj => ?_).withNext i.next, rfl, rfl, rfl⟩
    have conditional : i.isUnconditional = false := by
      apply beq_eq_false_iff_ne.mpr
      intro always
      rw [always] at fails
      exact fails rfl
    simp [conditional, hj]

/-! ## Simplified instructions

An instruction is simplified where it is unconditional and no flag that it writes is live behind it.
The flags that are live in front of it are then those of what is left of it.
-/

/-- An instruction is left as it is, or it loses its flags because they are dead and it is unconditional.
-/
theorem simplify_cases (i : Instruction) (live : FlagSet) :
    simplify i live = i ∨
      ∃ op, i.isUnconditional = true ∧ isDead i live = true ∧ i.op.withoutFlags? = some op ∧
        simplify i live = { i with op } := by
  unfold simplify
  split
  · rename_i both
    rw [Bool.and_eq_true] at both
    cases simple : i.op.withoutFlags? with
    | none => exact .inl rfl
    | some op => exact .inr ⟨op, both.1, both.2, rfl, rfl⟩
  · exact .inl rfl

/-- An operation with a form without flags leaves its block only by writing the program counter, and
so does that form. -/
theorem mayExit_of_withoutFlags {op simple : Op} (h : op.withoutFlags? = some simple) :
    simple.mayExit = op.mayExit ∧ op.mayExit = op.registersWritten.has .pc := by
  unfold Op.withoutFlags? at h
  split at h
  · rename_i op set rd rn operand
    have alu (set : Bool) : (Op.alu op set rd rn operand).mayExit =
        (Op.alu op set rd rn operand).registersWritten.has .pc := Bool.false_or _
    split at h
    · split at h
      · cases h
        exact ⟨rfl, alu set⟩
      · rename_i writes
        cases h
        refine ⟨?_, alu set⟩
        rw [Op.mayExit_alu, Bool.eq_false_iff.mpr writes, Bool.and_false]
        exact (Bool.false_or _).trans (by simp [Op.registersWritten, RegSet.has, Bits.test])
    · exact absurd h (by simp)
  · split at h
    · cases h
      exact ⟨rfl, Bool.false_or _⟩
    · exact absurd h (by simp)
  · exact absurd h (by simp)

theorem mayExit_simplify (i : Instruction) (live : FlagSet) :
    (simplify i live).op.mayExit = i.op.mayExit := by
  rcases simplify_cases i live with same | ⟨op, -, -, without, eq⟩
  · rw [same]
  · rw [eq]
    exact (mayExit_of_withoutFlags without).1

/-- What operations keep without their flags is kept when a run is prepared. -/
theorem forall_prepare {P : Op → Prop}
    (keeps : ∀ {op simple : Op}, op.withoutFlags? = some simple → P op → P simple)
    {run : List Instruction} (all : ∀ i ∈ run, P i.op) (config : Config) :
    ∀ i ∈ CodeCache.prepare config run, P i.op := by
  intro j hj
  obtain ⟨i, hi, rfl | ⟨live, rfl⟩⟩ := CodeCache.exists_of_mem_prepare hj
  · exact all j hi
  · rcases simplify_cases i live with same | ⟨op, -, -, without, eq⟩
    · rw [same]
      exact all i hi
    · rw [eq]
      exact keeps without (all i hi)

theorem isDead_all (i : Instruction) : isDead i .all = false := by
  simp [isDead, FlagSet.inter, FlagSet.all]

/-- What may leave its block is not simplified. -/
theorem simplify_of_mayExit (h : (simplify i (liveAfter i live)).op.mayExit = true) :
    simplify i (liveAfter i live) = i := by
  rcases simplify_cases i (liveAfter i live) with same | ⟨op, always, dead, without, eq⟩
  · exact same
  · have leaves : i.writesPc = true := by
      rw [mayExit_simplify, (mayExit_of_withoutFlags without).2] at h
      exact h
    rw [liveAfter, if_pos leaves, isDead_all] at dead
    exact absurd dead (by simp)

/-- The instruction and its simplified form do the same on processors that agree on what is live. -/
theorem alone_simplify (bus : Bus σ) (inside : (simplify i live).op.mayExit = false)
    (h : s.AgreeOn (liveBefore (simplify i live) live) t) (host : σ) :
    ∃ m n, i.alone bus s host = (.atEnd, m) ∧ (simplify i live).alone bus t host = (.atEnd, n) ∧
      m.AgreeOn live n := by
  obtain ⟨k, n, before, after, agree⟩ := alone_agree bus inside h host
  rcases simplify_cases i live with same | ⟨op, always, dead, without, eq⟩
  · rw [same] at before after ⊢
    exact ⟨k, n, before, after, agree⟩
  · have inside' : i.op.mayExit = false := by
      rw [← mayExit_simplify i live]
      exact inside
    have dead' : ∀ j, i.op.flagsWritten.has j = true → live.has j = false := by
      rw [isDead, Bool.and_eq_true] at dead
      exact FlagSet.apart_of_isEmpty dead.2
    -- first the flags are left out on one processor, then two processors that agree are compared
    obtain ⟨cpu, cost, data, notices⟩ := Op.agree_withoutFlags i.pipelinePc without s i.thumb dead'
    have holds : s.satisfies i.cond = true := by
      rw [beq_iff_eq.mp (show (i.cond == .always) = true from always)]
      rfl
    refine ⟨_, n, alone_of_inside bus inside' s host, after, ?_⟩
    rw [if_pos holds]
    rw [eq] at before inside
    rw [alone_of_inside bus inside, if_pos holds] at before
    obtain ⟨-, rfl⟩ := Prod.mk.inj before
    have cycles : (0 : Word) + (i.op.dataCycles i.pipelinePc s + BitVec.ofNat 32 (i.op.cost i.thumb)) =
        0 + (op.dataCycles i.pipelinePc s + BitVec.ofNat 32 (op.cost i.thumb)) := by
      rw [data, cost]
    refine Machine.AgreeOn.trans ?_ agree
    exact ⟨cpu.withNext i.next, rfl, cycles, notices⟩

/-! ## Runs

The induction goes through the run from its first instruction, while the live flags were computed from
the last. What is carried along is agreement on the flags that are live at that point.
-/

/-- Running the simplified instructions comes to the same, from a processor that agrees on what is
live at their start. -/
theorem oneByOne_pass (bus : Bus σ) :
    ∀ (run : List Instruction) (s t : CpuState) (host : σ), s.AgreeOn (pass run).1 t →
      oneByOne bus run s host = oneByOne bus (pass run).2 t host
  | [], s, t, host, h => by
    rw [h.eq_of_all]
    rfl
  | i :: rest, s, t, host, h => by
    have others := oneByOne_pass bus rest
    generalize hlive : (pass rest).1 = live at others
    have split : pass (i :: rest) = (liveBefore (simplify i (liveAfter i live)) (liveAfter i live),
        simplify i (liveAfter i live) :: (pass rest).2) := by
      rw [← hlive]
      rfl
    rw [split] at h ⊢
    rw [oneByOne, oneByOne]
    by_cases exits : (simplify i (liveAfter i live)).op.mayExit = true
    · -- every flag is live, so the processors are equal and nothing was simplified
      have all : liveBefore (simplify i (liveAfter i live)) (liveAfter i live) = .all := by
        rw [liveBefore, if_pos exits]
      rw [all] at h
      rw [h.eq_of_all, simplify_of_mayExit exits]
      congr 1
      funext s host
      exact others s s host (.refl live s)
    · have inside := Bool.eq_false_iff.mpr exits
      obtain ⟨m, n, before, after, agree⟩ := alone_simplify bus inside h host
      -- an instruction that stays inside passes on the flags that are live behind it
      have live_eq : liveAfter i live = live := by
        rw [mayExit_simplify] at inside
        rw [liveAfter, Instruction.writesPc, Op.writesPc_of_inside inside, if_neg (by simp)]
      rw [before, after]
      rw [live_eq] at agree
      exact Outcome.first_agree agree others

end Liveness

/-- **Removing dead flags changes nothing that can be seen.** Run one instruction at a time, each as
a block of its own, the simplified run ends at the same instruction and in the same way as the run
does, with the same processor, the same host, the same cycles and the same notices. So it is for the
bus that logs every access and every call of a hook with the processor it was shown. -/
theorem Block.runEach_optimize (bus : Bus σ) {scratch : Arena Record} (ok : IsScratch scratch)
    (run : List Instruction) (cpu : CpuState) (host : σ) :
    (∃ o, runEach bus scratch run cpu host = some o ∧
      runEach bus scratch (Liveness.optimize run) cpu host = some o) ∧
    ∀ log, ∃ o, runEach (bus.recording id) scratch run cpu (host, log) = some o ∧
      runEach (bus.recording id) scratch (Liveness.optimize run) cpu (host, log) = some o := by
  have same {τ : Type} (bus : Bus τ) (host : τ) :
      oneByOne bus (Liveness.optimize run) cpu host = oneByOne bus run cpu host :=
    (Liveness.oneByOne_pass bus run cpu cpu host (.refl _ cpu)).symm
  refine ⟨⟨_, runEach_eq bus ok run cpu host, ?_⟩, fun log => ⟨_, runEach_eq _ ok run cpu _, ?_⟩⟩
  · rw [runEach_eq bus ok, same]
  · rw [runEach_eq _ ok, same]

/-- `ADDS r0, r0, #1`. -/
def Instruction.increment : Instruction :=
  { cpu := .arm9, addr := 0, raw := 0xE2900001, thumb := false, cond := .always
    op := .alu .add true 0 0 (.imm 1 none) }

/-- `CMP r0, #0` behind it. -/
def Instruction.compareZero : Instruction :=
  { cpu := .arm9, addr := 4, raw := 0xE3500000, thumb := false, cond := .always
    op := .alu .cmp true 0 0 (.imm 0 none) }

/-- The comparison makes the flags of the sum dead, and the two run as before without them. -/
theorem Block.runEach_optimize_increment :
    Liveness.optimize [.increment, .compareZero] =
        [{ Instruction.increment with op := .alu .add false 0 0 (.imm 1 none) }, .compareZero] ∧
      ∃ o, runEach Bus.silent scratchArena [.increment, .compareZero] (CpuState.new .arm9) () =
          some o ∧
        runEach Bus.silent scratchArena (Liveness.optimize [.increment, .compareZero])
          (CpuState.new .arm9) () = some o :=
  ⟨by decide, (runEach_optimize Bus.silent isScratch_scratchArena [.increment, .compareZero]
    (CpuState.new .arm9) ()).1⟩

end ArmBlocks
