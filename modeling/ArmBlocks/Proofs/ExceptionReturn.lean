import ArmBlocks.Proofs.DataAbort
import ArmBlocks.Proofs.AlignedTargets
import ArmBlocks.Proofs.BlockRefinement
import ArmBlocks.Proofs.FlagAgreement
import ArmBlocks.Decode.Thumb

/-!
# Returning from an exception

The entry of an exception and the return from it are two switches of banks with a saved status register
and a link register between them. The link holds what an ordinary data processing instruction turns into
the address to go on at, `MOVS pc, lr` after the instruction and `SUBS pc, lr, #8` at it, whatever the
instruction set was: the entry computes it from the width of the instruction, and the return masks it by
the THUMB bit that it has just restored.

Three instructions raise an exception by themselves, and `Instruction.entered_of_raised` is all that is
needed of them. The return is then an argument about the banks alone (`CpuState.Entered.returned`).
-/

set_option autoImplicit false

namespace ArmBlocks

open Guest (exec)

variable {σ : Type}

/-! ## What raises an exception

Software interrupts that the host does not handle, undefined instructions and aborts raise one. All
others are silent, or raise it by way of an access.
-/

/-- Whether the operation may raise an exception. -/
def Op.mayRaise : Op → Bool
  | .softwareInterrupt _ | .undefined => true
  | op => op.movesData

namespace Guest

variable {bus : Bus σ} {pc : Word}

theorem silent_alu (op : AluOp) (s : Bool) (rd rn : Reg) (operand : Operand) :
    Silent (alu bus.reporting pc op s rd rn operand) := by
  rw [alu_eq]
  refine .bind (fun _ => rfl) fun before => .bind .modifyCpu fun _ => .ite (.ite ?_ ?_) .pure
  · exact .bind .modifyCpu fun _ => .bind .statusChanged fun _ => .bind .modifyCpu fun _ => .pure
  · exact .bind .modifyCpu fun _ => .pure

theorem silent_writeStatus (saved : Bool) (fields : BitVec 4) (source : StatusSource) :
    Silent (writeStatus bus.reporting pc saved fields source) :=
  .bind (fun _ => rfl) fun _ => .ite (.bind .modifyCpu fun _ => .pure)
    (.bind .modifyCpu fun _ => .bind .statusChanged fun _ => .pure)

theorem silent_coproc (load : Bool) (cp : BitVec 4) (r : ControlRegister) (rd : Reg) :
    Silent (coproc bus.reporting pc load cp r rd) := by
  refine .ite (.ite (.bind ?_ fun _ => .pure) (.bind ?_ fun _ => .pure)) .pure
  · exact .bind (fun _ => rfl) fun _ => .modifyCpu
  · exact fun _ => rfl

theorem silent_breakpoint (cost : Word) :
    Silent (breakpoint pc cost : Guest (σ × List Report) Continuation) :=
  .bind (fun _ => rfl) fun _ => .bind (fun _ => rfl) fun _ => .bind .spend fun _ => .pure

end Guest

/-- Everything else is silent. -/
theorem Action.silent_execute (a : Action) (bus : Bus σ) (pc : Word) (calm : a.op.mayRaise = false) :
    Guest.Silent (a.execute bus.reporting pc) := by
  have onCpu (f : CpuState → CpuState) : Guest.Silent (do
      Guest.modifyCpu f
      Guest.spend a.cost
      return .next : Guest (σ × List Report) Continuation) :=
    .bind .modifyCpu fun _ => .bind .spend fun _ => .pure
  unfold Action.execute
  cases hop : a.op with
  | alu op s rd rn operand => exact .bind .spend fun _ => Guest.silent_alu op s rd rn operand
  | mul op s rd rn rs rm => exact .bind (fun _ => rfl) fun _ => .bind .spend fun _ => onCpu _
  | halfMul | clz | sat | branch | branchExchange | linkPrefix | linkSuffix | nop => exact onCpu _
  | readStatus rd saved => exact .bind .spend fun _ => .bind .modifyCpu fun _ => .pure
  | writeStatus saved fields source =>
    exact .bind .spend fun _ => Guest.silent_writeStatus saved fields source
  | coproc load cp op1 cn cm op2 rd => exact .bind .spend fun _ => Guest.silent_coproc load cp _ rd
  | breakpoint => exact Guest.silent_breakpoint a.cost
  | transfer | block | swap | softwareInterrupt | undefined =>
    rw [hop] at calm
    cases calm

namespace Exception

/-- The link of an exception that the instruction raises. -/
def link (kind : Exception) (i : Instruction) : Word :=
  match kind with
  | .dataAbort => i.addr + 8
  | _ => i.next

/-- Where execution goes on when the handler has returned. -/
def resumption (kind : Exception) (i : Instruction) : Word :=
  match kind with
  | .dataAbort => i.addr
  | _ => i.next

/-- The instruction a handler returns by: `SUBS pc, lr, #8` from a data abort, `MOVS pc, lr` from the
others. -/
def returnCode : Exception → Word
  | .dataAbort => 0xE25EF008
  | _ => 0xE1B0F00E

end Exception

/-- The next instruction is not among what an entry changes. -/
theorem CpuState.Entered.withNext {s t : CpuState} {kind : Exception} {lr : Word}
    (h : s.Entered kind lr t) (next : Word) : s.Entered kind lr (t.withNext next) :=
  ⟨h.cpsr, h.cpu, h.link, h.saved, h.kept⟩

namespace Instruction

variable {bus : Bus σ} {i : Instruction}

theorem link_pipelinePc (i : Instruction) {s : CpuState} (set : i.thumb = s.thumb) :
    s.addressOf i.pipelinePc + s.width = i.next := by
  rw [addressOf_pipelinePc i set, next, CpuState.width, width, set]

/-- A software interrupt that is reported was left to the guest. -/
theorem entered_of_interrupt (hooks : bus.KeepsProcessor) (m : Machine σ)
    (set : i.thumb = m.cpu.thumb) {comment : Word} (hop : i.op = .softwareInterrupt comment)
    {kind : Exception} (raised : .exception kind ∈ i.reports bus m) :
    (exec (i.perform bus) m).1 = some .early ∧
      m.cpu.Entered kind (kind.link i) (exec (i.perform bus) m).2.cpu := by
  have whole := i.exec_perform_eq bus m
  unfold reports at raised
  unfold reported at raised whole
  rw [exec_perform_softwareInterrupt bus.reporting hop, Guest.interrupt, Guest.exec_bind,
    Guest.exec_modifyGet] at raised whole
  rcases answer : bus.softwareInterrupt m.host m.cpu comment with ⟨handled, cpu, host⟩
  have kept : (bus.softwareInterrupt m.host m.cpu comment).2.1 = m.cpu := hooks.softwareInterrupt ..
  rw [answer] at kept
  obtain rfl : cpu = m.cpu := kept
  have asked : bus.reporting.softwareInterrupt m.unreported.host m.unreported.cpu comment =
      (handled, m.cpu, host, []) := by
    simp [Bus.reporting, Machine.unreported, Machine.mapHost, answer]
  rw [asked] at raised whole
  cases handled with
  | some cycles => exact absurd raised List.not_mem_nil
  | none =>
    obtain rfl : kind = .softwareInterrupt := Report.exception.inj (List.mem_singleton.mp raised)
    have entered := m.cpu.entered_enterException hooks.reporting (host, []) .softwareInterrupt
      (m.cpu.addressOf i.pipelinePc + m.cpu.width)
    refine ⟨congrArg Prod.fst whole, ?_⟩
    rw [whole, show Exception.link .softwareInterrupt i = i.next from rfl, ← link_pipelinePc i set]
    exact entered.withNext _

/-- An undefined instruction that raises an exception enters the handler for it, with a link behind the
instruction. -/
theorem entered_of_undefined (hooks : bus.KeepsProcessor) (m : Machine σ)
    (set : i.thumb = m.cpu.thumb) (hop : i.op = .undefined) {kind : Exception}
    (raised : .exception kind ∈ i.reports bus m) :
    (exec (i.perform bus) m).1 = some .early ∧
      m.cpu.Entered kind (kind.link i) (exec (i.perform bus) m).2.cpu := by
  have shown : m.cpu.Alike (m.unreported.shown i).cpu := m.unreported.alike_shown i
  have quiet : (m.unreported.shown i).host.2 = [] := by rw [Machine.host_shown]; rfl
  have action : i.action.execute bus.reporting i.pipelinePc =
      Guest.undefined bus.reporting i.pipelinePc i.action.cost := by
    unfold Action.execute
    rw [show i.action.op = _ from hop]
  rw [reports_eq, action] at raised
  obtain rfl : kind = .undefined := by
    have only : Report.exception kind ∈ (m.unreported.shown i).host.2 ++ [.exception .undefined] := raised
    rw [quiet] at only
    exact Report.exception.inj (List.mem_singleton.mp only)
  have entered := (m.unreported.shown i).cpu.entered_enterException hooks.reporting
    (m.unreported.shown i).host .undefined
    ((m.unreported.shown i).cpu.addressOf i.pipelinePc + (m.unreported.shown i).cpu.width)
  have left : i.reported bus m = (some .early, (exec (Guest.undefined bus.reporting i.pipelinePc
      i.action.cost) (m.unreported.shown i)).2) :=
    exec_perform_of_leave (by rw [action]; rfl)
  have whole := exec_perform_of_reported left
  refine ⟨congrArg Prod.fst whole, ?_⟩
  rw [whole, show Exception.link .undefined i = i.next from rfl,
    ← link_pipelinePc i (set.trans shown.thumb.symm)]
  exact entered.of_alike shown

/-- **An exception that is reported was entered,** and the block was left for its handler. -/
theorem entered_of_raised (hooks : bus.KeepsProcessor) (m : Machine σ) (set : i.thumb = m.cpu.thumb)
    {kind : Exception} (raised : .exception kind ∈ i.reports bus m) :
    (exec (i.perform bus) m).1 = some .early ∧
      m.cpu.Entered kind (kind.link i) (exec (i.perform bus) m).2.cpu := by
  by_cases moves : i.op.movesData = true
  · rcases found_or_undone hooks moves m set with found | ⟨before, last, undone⟩
    · exact absurd rfl (Report.ne_exception_of_found (found _ raised) kind)
    · rw [undone.told, List.mem_append, List.mem_cons, List.mem_singleton] at raised
      rcases raised with early | late | own
      · exact absurd rfl (Report.ne_exception_of_found (undone.found _ early) kind)
      · exact absurd late.symm (Report.ne_exception_of_missed undone.missed kind)
      · obtain rfl : kind = .dataAbort := Report.exception.inj own
        exact ⟨undone.left, undone.cpu⟩
  by_cases calm : i.op.mayRaise = false
  · have silent := i.action.silent_execute bus i.pipelinePc calm (m.unreported.shown i)
    rw [reports_eq, silent, Machine.host_shown] at raised
    exact absurd raised List.not_mem_nil
  cases hop : i.op with
  | softwareInterrupt comment => exact entered_of_interrupt hooks m set hop raised
  | undefined => exact entered_of_undefined hooks m set hop raised
  | _ =>
    rw [hop] at moves calm
    first | exact absurd rfl moves | exact absurd rfl calm

end Instruction

/-! ## The return

The return restores the status register first, which brings back the banks and the instruction set,
and then masks the address by that set.
-/

namespace CpuState

/-- The processor `t` has come back from an exception to what `s` was, and goes on at `next`. The
link register of the exception's mode stays overwritten. -/
structure Returned (s : CpuState) (kind : Exception) (next : Word) (t : CpuState) : Prop where
  cpsr : t.cpsr = s.cpsr
  next : t.next = next
  seen : ∀ m r, r ≠ .pc → ¬(m = kind.mode ∧ r = .lr) → t.seenBy m (.reg r) = s.seenBy m (.reg r)

variable {s t u : CpuState} {kind : Exception} {lr : Word}

/-- **What the entry put into the bank of the exception brings the status register back,** and with it
the banks. -/
theorem Entered.returned (entered : s.Entered kind lr t) (alike : t.Alike u) {x : Word}
    (aligned : s.Aligns x) :
    s.Returned kind x
      (((u.setCpsr u.saved).write .pc x).withNext (((u.setCpsr u.saved).write .pc x).reg .pc)) := by
  have mode : u.mode = kind.mode := alike.mode.trans entered.mode
  have saved : u.saved = s.cpsr := by
    rw [← entered.saved, ← alike.seen kind.mode .saved (by decide), ← mode]
    exact (u.seenBy_mode .saved).symm
  have thumb : (u.setCpsr u.saved).thumb = s.thumb := by rw [saved]; rfl
  have written : (u.setCpsr u.saved).write .pc x = (u.setCpsr u.saved).setReg .pc x := by
    have same : (x &&& if s.thumb then ~~~1#32 else ~~~3#32) = x :=
      Decode.align_of_aligned (aligns_iff.mp aligned)
    rw [write, if_pos rfl, thumb, same]
  rw [written]
  refine ⟨saved, (reg_setReg _ _ _ _).trans (if_pos rfl), fun m r other own => ?_⟩
  have place : Place.reg r ≠ .reg .pc := fun h => other (Place.reg.inj h)
  calc ((u.setCpsr u.saved).setReg .pc x).seenBy m (.reg r)
      = (u.setCpsr u.saved).seenBy m (.reg r) := (alike_setPc _ x).seen m _ place
    _ = u.seenBy m (.reg r) := seenBy_setCpsr ..
    _ = t.seenBy m (.reg r) := alike.seen m _ place
    _ = s.seenBy m (.reg r) := entered.kept m _ place (by simpa using own)

end CpuState

/-- Data processing with the S bit and the program counter as destination restores the status register
and writes the result behind that. -/
theorem Guest.exec_alu_restore {bus : Bus σ} (hooks : bus.KeepsProcessor) (pc : Word) {op : AluOp}
    (writes : op.writes = true) (rn : Reg) (operand : Operand) (n : Machine σ)
    (saves : n.cpu.mode.hasSaved = true) :
    ∃ N, exec (alu bus pc op true .pc rn operand) n = (.next, N) ∧
      N.cpu = (n.cpu.setCpsr n.cpu.saved).write .pc (n.cpu.process pc op false rn operand).1 := by
  have restored : n.cpu.restoreStatus = n.cpu.setCpsr n.cpu.saved := if_pos saves
  rw [alu_eq, writes]
  show ∃ N, exec (finishAlu bus op true .pc (n.cpu.process pc op false rn operand).1
    (n.cpu.process pc op false rn operand).2.mode.hasSaved)
      { n with cpu := (n.cpu.process pc op false rn operand).2 } = (.next, N) ∧ _
  rw [CpuState.process_snd_of_unset, saves, finishAlu, if_pos writes]
  refine ⟨_, rfl, ?_⟩
  show (bus.statusChanged n.host n.cpu.restoreStatus).1.write .pc _ = _
  rw [hooks.statusChanged, restored]

namespace Instruction

variable {bus : Bus σ} {i : Instruction}

/-- Data processing to r15 that sets the flags restores the saved status of its mode and goes on at its
result, in the restored instruction set. -/
theorem exec_perform_restore (hooks : bus.KeepsProcessor) {op : AluOp} {rn : Reg} {operand : Operand}
    (hop : i.op = .alu op true .pc rn operand) (writes : op.writes = true) (n : Machine σ)
    (saves : n.cpu.mode.hasSaved = true) :
    let s := (n.shown i).cpu
    let t := (s.setCpsr s.saved).write .pc (s.process i.pipelinePc op false rn operand).1
    (exec (i.perform bus) n).1 = some .early ∧
      (exec (i.perform bus) n).2.cpu = t.withNext (t.reg .pc) := by
  intro s t
  have mode : s.mode.hasSaved = true := by
    rw [← saves]
    exact congrArg _ (n.alike_shown i).mode
  obtain ⟨N, went, cpu⟩ := Guest.exec_alu_restore hooks i.pipelinePc writes rn operand
    { n.shown i with cycles := (n.shown i).cycles + i.action.cost } mode
  have action : exec (i.action.execute bus i.pipelinePc) (n.shown i) = (.next, N) := by
    unfold Action.execute
    rw [show i.action.op = _ from hop]
    exact went
  have published : i.writesPc = true := by
    rw [writesPc, hop, Op.registersWritten, RegSet.singleIf, if_pos writes, RegSet.has_single]
    rfl
  rw [exec_perform_of_next action, if_pos published, hop]
  refine ⟨rfl, ?_⟩
  show N.cpu.withNext (N.cpu.reg .pc) = _
  rw [cpu]

end Instruction

namespace Exception

/-- The instruction a handler returns by, wherever it stands. -/
def returnInstruction (kind : Exception) (cpu : Cpu) (addr : Word) : Instruction :=
  Arm.decode cpu addr kind.returnCode

/-- It turns the link into the address to go on at. -/
theorem exists_returnInstruction (kind : Exception) (cpu : Cpu) (addr : Word) :
    ∃ op rn operand, (kind.returnInstruction cpu addr).op = .alu op true .pc rn operand ∧
      op.writes = true ∧ ∀ (s : CpuState) (pc : Word) (i : Instruction), s.reg .lr = kind.link i →
        (s.process pc op false rn operand).1 = kind.resumption i := by
  have moves : ∃ op rn operand, (Arm.decode cpu addr 0xE1B0F00E).op = .alu op true .pc rn operand ∧
      op.writes = true ∧ ∀ (s : CpuState) (pc : Word), (s.process pc op false rn operand).1 = s.reg .lr :=
    ⟨.mov, 0, .shifted .lr .lsl 0, by cases cpu <;> rfl, rfl, fun _ _ => rfl⟩
  cases kind with
  | undefined | softwareInterrupt =>
    obtain ⟨op, rn, operand, hop, writes, result⟩ := moves
    exact ⟨op, rn, operand, hop, writes, fun s pc i link => (result s pc).trans link⟩
  | dataAbort =>
    refine ⟨.sub, .lr, .imm 8 none, by cases cpu <;> rfl, rfl, fun s pc i link => ?_⟩
    show BitVec.ofNat 32 ((s.reg .lr).toNat + (~~~(8#32)).toNat + (1#32).toNat) = i.addr
    rw [link]
    show BitVec.ofNat 32 ((i.addr + 8).toNat + (~~~(8#32)).toNat + (1#32).toNat) = i.addr
    refine BitVec.eq_of_toNat_eq ?_
    simp
    omega

end Exception

/-- The address execution goes on at is aligned if that of the instruction is. -/
theorem CpuState.aligns_resumption {s : CpuState} {i : Instruction} (set : i.thumb = s.thumb)
    (aligned : s.Aligns i.addr) (kind : Exception) : s.Aligns (kind.resumption i) := by
  have following : s.Aligns i.next := by
    rw [aligns_iff] at aligned ⊢
    rw [Instruction.next, Instruction.width, set, BitVec.toNat_add]
    cases thumb : s.thumb with
    | true =>
      rw [thumb] at aligned
      simp [Decode.bytes] at aligned ⊢
      omega
    | false =>
      rw [thumb] at aligned
      simp [Decode.bytes] at aligned ⊢
      omega
  cases kind with
  | dataAbort => exact aligned
  | undefined | softwareInterrupt => exact following

/-- **Entry and return are inverse.** An instruction at an aligned address that raises an exception
leaves for its handler, which is ARM code. The handler's return, at whatever address it stands, brings
back the status register and what every mode saw in r0 to r14, the link register of the exception's mode
apart, and execution goes on after a software interrupt or an undefined instruction, and at an
instruction whose access was aborted. -/
theorem Instruction.returned_of_raised {bus : Bus σ} (hooks : bus.KeepsProcessor) {i : Instruction}
    (m : Machine σ) (set : i.thumb = m.cpu.thumb) (aligned : m.cpu.Aligns i.addr) {kind : Exception}
    (raised : .exception kind ∈ i.reports bus m) (n : Machine σ)
    (handler : n.cpu = (exec (i.perform bus) m).2.cpu) (addr : Word) :
    (exec (i.perform bus) m).1 = some .early ∧ n.cpu.thumb = false ∧
      (exec ((kind.returnInstruction n.cpu.cpu addr).perform bus) n).1 = some .early ∧
      m.cpu.Returned kind (kind.resumption i)
        (exec ((kind.returnInstruction n.cpu.cpu addr).perform bus) n).2.cpu := by
  obtain ⟨left, entered⟩ := entered_of_raised hooks m set raised
  rw [← handler] at entered
  obtain ⟨op, rn, operand, hop, writes, result⟩ := kind.exists_returnInstruction n.cpu.cpu addr
  have saves : n.cpu.mode.hasSaved = true := by
    rw [entered.mode]
    cases kind <;> rfl
  obtain ⟨back, cpu⟩ := exec_perform_restore hooks hop writes n saves
  have alike := n.alike_shown (kind.returnInstruction n.cpu.cpu addr)
  have link : (n.shown (kind.returnInstruction n.cpu.cpu addr)).cpu.reg .lr = kind.link i := by
    have seen := alike.seen n.cpu.mode (.reg .lr) (by decide)
    rw [← alike.mode, CpuState.seenBy_mode, alike.mode, entered.mode, entered.link] at seen
    exact seen
  refine ⟨left, entered.thumb, back, ?_⟩
  rw [cpu, result _ _ i link]
  exact entered.returned alike (CpuState.aligns_resumption set aligned kind)

/-- A THUMB load at an address that is aligned to a halfword only. -/
def Instruction.halfwordLoad : Instruction := Thumb.decode .arm9 2 0x6808

/-- A processor in THUMB state whose mode bits name no mode. -/
def CpuState.modeless : CpuState := { CpuState.new .arm9 with cpsr := 0x60000025 }

/-- Without memory it is aborted; the handler brings even the mode bits back. -/
theorem Instruction.returned_halfwordLoad :
    let m := Machine.start CpuState.modeless fun _ => (0 : Word)
    let n := (exec (halfwordLoad.perform (Bus.words 0)) m).2
    let back := exec ((Exception.dataAbort.returnInstruction n.cpu.cpu 0x30).perform (Bus.words 0)) n
    .exception .dataAbort ∈ halfwordLoad.reports (Bus.words 0) m ∧ n.cpu.thumb = false ∧
      back.1 = some .early ∧ m.cpu.Returned .dataAbort 2 back.2.cpu := by
  have raised : .exception .dataAbort ∈ halfwordLoad.reports (Bus.words 0)
      (Machine.start CpuState.modeless fun _ => (0 : Word)) := by decide +kernel
  obtain ⟨-, returned⟩ := returned_of_raised (Bus.keepsProcessor_ofMemory _ _ _)
    (Machine.start CpuState.modeless fun _ => (0 : Word)) (by decide) (by decide) raised _ rfl 0x30
  exact ⟨raised, returned⟩

end ArmBlocks
