import ArmBlocks.Proofs.Reports
import ArmBlocks.Proofs.ExceptionEntry
import ArmBlocks.Decode.Arm

/-!
# A data abort undoes its instruction

Transfers, swaps and block transfers make up to sixteen accesses, and any of them may find no memory.
Whichever it is, the handler must find the registers as they were before the instruction: that the base
was to be moved, that values had been loaded already and that User mode's registers were borrowed for
the transfer may not show.

The instructions achieve it by their shape. All of them do their accesses first and write registers
behind them, so what they do up to an abort is to ask the host (`Guest.Probes`); the abort that follows is
raised on the processor the instruction began with, or on one that differs from it by banks switched to
and fro (`Guest.Faults`, with a rule for each way of putting actions together).
-/

set_option autoImplicit false

namespace ArmBlocks

open Guest (exec)

variable {σ : Type}

theorem Bus.KeepsProcessor.reporting {bus : Bus σ} (h : bus.KeepsProcessor) :
    bus.reporting.KeepsProcessor where
  exceptionHappened host := h.exceptionHappened host.1
  statusChanged host := h.statusChanged host.1
  softwareInterrupt host := h.softwareInterrupt host.1

/-- Whether the operation loads or stores, other than by the coprocessor. -/
def Op.movesData : Op → Bool
  | .transfer .. | .block .. | .swap .. => true
  | _ => false

namespace Guest

variable {α β : Type} {bus : Bus σ}

/-- An action that has nothing to report. -/
def Silent (x : Guest (σ × List Report) α) : Prop := ∀ m, (exec x m).2.host.2 = m.host.2

namespace Silent

theorem pure {a : α} : Silent (Pure.pure a : Guest (σ × List Report) α) := fun _ => rfl

theorem bind {x : Guest (σ × List Report) α} {f : α → Guest (σ × List Report) β} (hx : Silent x)
    (hf : ∀ a, Silent (f a)) : Silent (x >>= f) :=
  fun m => (hf (exec x m).1 (exec x m).2).trans (hx m)

theorem ite {c : Prop} [Decidable c] {x y : Guest (σ × List Report) α} (hx : Silent x)
    (hy : Silent y) : Silent (if c then x else y) := by
  split
  · exact hx
  · exact hy

theorem modifyCpu {f : CpuState → CpuState} : Silent (Guest.modifyCpu f : Guest (σ × List Report) Unit) :=
  fun _ => rfl

theorem spend {cycles : Word} : Silent (Guest.spend cycles : Guest (σ × List Report) Unit) :=
  fun _ => rfl

theorem spendWithMemory {cycles memory : Word} :
    Silent (Guest.spendWithMemory cycles memory : Guest (σ × List Report) Unit) := fun _ => rfl

theorem statusChanged : Silent (Guest.statusChanged bus.reporting) := fun _ => rfl

/-- How a transfer ends. -/
theorem finish {cost wait : Word} : Silent (do
    Guest.spendWithMemory cost wait
    return .next : Guest (σ × List Report) Continuation) :=
  bind spendWithMemory fun _ => pure

theorem writeIf {c : Prop} [Decidable c] {r : Reg} {x : Word} :
    Silent (if c then Guest.write r x else Pure.pure () : Guest (σ × List Report) Unit) :=
  ite modifyCpu pure

end Silent

/-- What came of the accesses of an action: all of them found memory, or the last of them did not, and
the abort was raised on the processor `u` with nothing else done. -/
inductive Faulted (bus : Bus σ) (pc : Word) (u : CpuState)
    (x : Guest (σ × List Report) Continuation) (m : Machine (σ × List Report)) : Prop
  | whole (reports : List Report) (found : ∀ r ∈ reports, r.found = true)
    (told : (exec x m).2.host.2 = m.host.2 ++ reports)
  | cut (before : List Report) (last : Report) (host : σ) (found : ∀ r ∈ before, r.found = true)
    (missed : last.missed = true)
    (aborts : exec x m = exec (dataAbort bus.reporting pc)
      { m with cpu := u, host := (host, m.host.2 ++ (before ++ [last])) })

/-- On the processor `t`, an abort of the action is raised on the processor `u`. -/
def Faults (bus : Bus σ) (pc : Word) (t u : CpuState) (x : Guest (σ × List Report) Continuation) :
    Prop :=
  ∀ m, m.cpu = t → Faulted bus pc u x m

namespace Faults

variable {pc : Word} {s t u : CpuState}

theorem silent {x : Guest (σ × List Report) Continuation} (h : Silent x) : Faults bus pc t u x :=
  fun m _ => .whole [] (by simp) (by simp [h m])

theorem look {f : CpuState → Guest (σ × List Report) Continuation} (h : Faults bus pc t u (f t)) :
    Faults bus pc t u (cpu >>= f) := by
  rintro m rfl
  have faulted := h m rfl
  cases faulted with
  | whole reports found told => exact .whole reports found told
  | cut before last host found missed aborts => exact .cut before last host found missed aborts

theorem modifyCpu {f : CpuState → CpuState} {x : Unit → Guest (σ × List Report) Continuation}
    (h : Faults bus pc (f t) u (x ())) : Faults bus pc t u (Guest.modifyCpu f >>= x) := by
  rintro m rfl
  have faulted := h { m with cpu := f m.cpu } rfl
  cases faulted with
  | whole reports found told => exact .whole reports found told
  | cut before last host found missed aborts => exact .cut before last host found missed aborts

/-- Accesses come first; where they miss, the abort is raised. -/
theorem probe {x : Guest (σ × List Report) (Option α)}
    {f : Option α → Guest (σ × List Report) Continuation} (hx : Probes x)
    (aborts : ∀ m, m.cpu = t →
      exec (f none) m = exec (dataAbort bus.reporting pc) { m with cpu := u })
    (hf : ∀ a, Faults bus pc t u (f (some a))) : Faults bus pc t u (x >>= f) := by
  intro m on
  obtain ⟨host, reports, left, trail⟩ := hx m
  have whole : exec (x >>= f) m =
      exec (f (exec x m).1) { m with host := (host, m.host.2 ++ reports) } := by
    rw [exec_bind, left]
  cases answer : (exec x m).1 with
  | none =>
    rw [answer] at trail whole
    cases trail with
    | cut before last found missed =>
      exact .cut before last host found missed (whole.trans (aborts _ on))
  | some a =>
    rw [answer] at trail whole
    have first := trail.found
    have faulted := hf a { m with host := (host, m.host.2 ++ reports) } on
    cases faulted with
    | whole rest found told =>
      refine .whole (reports ++ rest) (fun r hr => ?_) ?_
      · exact (List.mem_append.mp hr).elim (first r) (found r)
      · rw [whole, told, List.append_assoc]
    | cut before last host found missed aborts =>
      refine .cut (reports ++ before) last host (fun r hr => ?_) missed ?_
      · exact (List.mem_append.mp hr).elim (first r) (found r)
      · rw [whole, aborts]
        simp only [List.append_assoc]

/-- The plain abort. -/
theorem aborts_self : ∀ m : Machine (σ × List Report), m.cpu = t →
    exec (dataAbort bus.reporting pc) m = exec (dataAbort bus.reporting pc) { m with cpu := t } := by
  rintro m rfl
  rfl

/-- An access of a load or store is made before any register is written, so where it fails nothing was
changed. -/
theorem transfer (cost : Word) (kind : TransferKind) (rd rn : Reg) (offset : Offset)
    (index : IndexMode) (up : Bool) :
    Faults bus pc s s (Guest.transfer bus.reporting pc cost kind rd rn offset index up) := by
  refine look ?_
  dsimp only
  split
  · exact probe .storeOne aborts_self fun wait => silent (.bind .writeIf fun _ => .finish)
  · split
    · exact probe .loadPair aborts_self fun pair => silent
        (.bind .writeIf fun _ => .bind .modifyCpu fun _ => .bind .modifyCpu fun _ => .finish)
    · refine probe .loadOne aborts_self fun loaded => silent (.bind .writeIf fun _ => .ite ?_ ?_)
      · exact .bind .modifyCpu fun _ => .finish
      · exact .bind .modifyCpu fun _ => .finish

theorem swap (cost : Word) (byte : Bool) (rd rn rm : Reg) :
    Faults bus pc s s (Guest.swap bus.reporting pc cost byte rd rn rm) := by
  refine look (probe .loadOne aborts_self fun old => probe .storeOne aborts_self fun second => ?_)
  exact silent (.bind .modifyCpu fun _ => .finish)

/-- The bank that was borrowed is given back before the abort is raised. -/
theorem aborts_block {leaveBank : Guest (σ × List Report) Unit}
    (leaves : ∀ m, m.cpu = t → exec leaveBank m = ((), { m with cpu := u })) :
    ∀ m, m.cpu = t → exec (abortBlock bus.reporting pc leaveBank) m =
      exec (dataAbort bus.reporting pc) { m with cpu := u } := by
  intro m on
  rw [abortBlock, exec_bind, leaves m on]

/-- A loading block transfer reads all of its words first. Where one is missed nothing was changed but the
bank, which is left before the exception is entered. -/
theorem loadBlock (cost lowest : Word) (list : RegSet) (user : Bool)
    {moveBase leaveBank : Guest (σ × List Report) Unit} (moves : Silent moveBase)
    (silent : Silent leaveBank)
    (leaves : ∀ m, m.cpu = t → exec leaveBank m = ((), { m with cpu := u })) :
    Faults bus pc t u
      (Guest.loadBlock bus.reporting pc cost lowest list user moveBase leaveBank) := by
  have pcLoaded (x : Word) : Silent (finishPc bus.reporting user x) :=
    .ite (.bind .modifyCpu fun _ => .bind .statusChanged fun _ => .modifyCpu) .modifyCpu
  refine probe .loadWords (aborts_block leaves) fun loaded => Faults.silent ?_
  refine .bind moves fun _ => .bind .modifyCpu fun _ => .bind silent fun _ => ?_
  dsimp only
  split
  · exact .bind (pcLoaded _) fun _ => .finish
  · exact .finish

/-- A storing one writes its words in order, and has changed no register when one of them is missed. -/
theorem storeBlock (cost lowest : Word) (values : List Word)
    {moveBase leaveBank : Guest (σ × List Report) Unit} (moves : Silent moveBase)
    (silent : Silent leaveBank)
    (leaves : ∀ m, m.cpu = t → exec leaveBank m = ((), { m with cpu := u })) :
    Faults bus pc t u
      (Guest.storeBlock bus.reporting pc cost lowest values moveBase leaveBank) :=
  probe .storeWords (aborts_block leaves) fun _ => Faults.silent
    (.bind silent fun _ => .bind moves fun _ => .finish)

/-- A block transfer aborts in the bank it began in. -/
theorem blockTransfer (s : CpuState) (cost : Word) (load : Bool) (mode : BlockMode)
    (writeback user : Bool) (rn : Reg) (list : RegSet) :
    ∃ u, s.Alike u ∧ Faults bus pc s u
      (Guest.blockTransfer bus.reporting pc cost load mode writeback user rn list) := by
  have moves (x : Word) :
      Silent (if writeback then Guest.write rn x else pure () : Guest (σ × List Report) Unit) :=
    .writeIf
  unfold Guest.blockTransfer
  cases user && !(load && list.has .pc) with
  | true =>
    refine ⟨_, s.alike_borrow .system, look (modifyCpu ?_)⟩
    have leaves : ∀ m : Machine (σ × List Report), m.cpu = s.setMode .system →
        exec (Guest.modifyCpu (·.setCpsr s.cpsr)) m =
          ((), { m with cpu := (s.setMode .system).setCpsr s.cpsr }) := by
      intro m on
      rw [exec_modifyCpu, on]
    have gives : Silent (Guest.modifyCpu (·.setCpsr s.cpsr) : Guest (σ × List Report) Unit) :=
      .modifyCpu
    cases load with
    | true => exact loadBlock cost _ list user (moves _) gives leaves
    | false => exact look (storeBlock cost _ _ (moves _) gives leaves)
  | false =>
    refine ⟨s, .refl s, look ?_⟩
    have leaves : ∀ m : Machine (σ × List Report), m.cpu = s →
        exec (pure () : Guest (σ × List Report) Unit) m = ((), { m with cpu := s }) := by
      rintro m rfl
      rfl
    cases load with
    | true => exact loadBlock cost _ list user (moves _) .pure leaves
    | false => exact look (storeBlock cost _ _ (moves _) .pure leaves)

end Faults

end Guest

/-- Whatever moves data aborts as if it had not begun. -/
theorem Action.faults_execute (a : Action) (bus : Bus σ) (pc : Word) (moves : a.op.movesData = true)
    (s : CpuState) : ∃ u, s.Alike u ∧ Guest.Faults bus pc s u (a.execute bus.reporting pc) := by
  unfold Action.execute
  cases hop : a.op with
  | transfer kind rd rn offset index up =>
    exact ⟨s, .refl s, Guest.Faults.transfer a.cost kind rd rn offset index up⟩
  | block load pre up writeback user rn list =>
    exact Guest.Faults.blockTransfer s a.cost load ⟨pre, up⟩ writeback user rn list
  | swap byte rd rn rm => exact ⟨s, .refl s, Guest.Faults.swap a.cost byte rd rn rm⟩
  | _ =>
    rw [hop] at moves
    cases moves

/-! ## Instructions that abort

What the handler finds is the processor that the instruction met, as far as its registers are
concerned. The reports of the instruction say which access missed, and that it was the last one.
-/

/-- To bring r15 up to date shows nobody anything else. -/
theorem Machine.alike_shown (m : Machine σ) (i : Instruction) : m.cpu.Alike (m.shown i).cpu := by
  unfold Machine.shown
  split
  · exact m.cpu.alike_setPc _
  · exact .refl _

namespace Instruction

/-- The node behind an instruction has nothing to report. -/
theorem silent_publish (bus : Bus σ) (op : Op) (pc : Word) :
    Guest.Silent (Step.perform bus.reporting ⟨op.publishKind, none, pc⟩) := by
  have publish : Guest.Silent (Block.publish : Guest (σ × List Report) Continuation) :=
    .bind .modifyCpu fun _ => .pure
  have node : Guest.Silent (Block.executeNode bus.reporting op.publishKind none pc) := by
    rcases op.publishKind_eq with kind | kind
    · rw [kind]
      exact publish
    · rw [kind]
      exact .bind (fun _ => rfl) fun _ => .ite publish .pure
  refine .bind node fun after => ?_
  cases after with
  | leave exit => exact .pure
  | next => exact .pure
  | jump target => exact .pure

/-- What an instruction reports is what its action reports. -/
theorem reports_eq (bus : Bus σ) (i : Instruction) (m : Machine σ) :
    i.reports bus m =
      (exec (i.action.execute bus.reporting i.pipelinePc) (m.unreported.shown i)).2.host.2 := by
  unfold reports reported
  rcases i.action.continues_execute bus.reporting i.pipelinePc (m.unreported.shown i) with next | leave
  · rw [exec_perform_of_next (Prod.ext next rfl)]
    split
    · exact silent_publish bus i.op _ _
    · rfl
  · rw [exec_perform_of_leave (Prod.ext leave rfl)]

/-- An instruction finds its own address by the instruction set it was compiled for. -/
theorem addressOf_pipelinePc (i : Instruction) {s : CpuState} (set : i.thumb = s.thumb) :
    s.addressOf i.pipelinePc = i.addr := by
  have width : s.width = i.width := by rw [CpuState.width, Instruction.width, set]
  rw [CpuState.addressOf, pipelinePc, width, BitVec.add_sub_cancel]

/-- The instruction was undone by a data abort: it made the accesses `before`, which found memory, and
then `last`, which found none. -/
structure Undone (bus : Bus σ) (i : Instruction) (m : Machine σ) (before : List Report)
    (last : Report) : Prop where
  left : (exec (i.perform bus) m).1 = some .early
  cpu : m.cpu.Entered .dataAbort (i.addr + 8) (exec (i.perform bus) m).2.cpu
  cycles : (exec (i.perform bus) m).2.cycles = m.cycles
  told : i.reports bus m = before ++ [last, .exception .dataAbort]
  found : ∀ r ∈ before, r.found = true
  missed : last.missed = true
  /-- Wherever the host has memory, the stores among the accesses that found some were made. -/
  memory : ∀ {μ : Type} {view : σ → μ} {put : Cpu → Width → Word → Word → μ → μ},
    bus.HasMemory view put →
      view (exec (i.perform bus) m).2.host = before.foldl (Report.change put) (view m.host)

variable {bus : Bus σ} {i : Instruction}

/-- What moves data finds memory with all its accesses or is undone. -/
theorem found_or_undone (hooks : bus.KeepsProcessor) (moves : i.op.movesData = true) (m : Machine σ)
    (set : i.thumb = m.cpu.thumb) :
    (∀ r ∈ i.reports bus m, r.found = true) ∨ ∃ before last, i.Undone bus m before last := by
  have shown : m.cpu.Alike (m.unreported.shown i).cpu := m.unreported.alike_shown i
  obtain ⟨u, alike, faults⟩ := i.action.faults_execute bus i.pipelinePc moves (m.unreported.shown i).cpu
  have quiet : (m.unreported.shown i).host.2 = [] := by rw [Machine.host_shown]; rfl
  have faulted := faults _ rfl
  cases faulted with
  | whole reports found told =>
    rw [quiet, List.nil_append, ← reports_eq] at told
    exact .inl (told ▸ found)
  | cut before last host found missed aborts =>
    rw [quiet, List.nil_append] at aborts
    have thumb : i.thumb = u.thumb := set.trans ((shown.trans alike).thumb.symm)
    have entered := u.entered_enterException hooks.reporting (host, before ++ [last]) .dataAbort
      (u.addressOf i.pipelinePc + 8)
    have reported : i.reported bus m = (some .early, (exec (Guest.dataAbort bus.reporting i.pipelinePc)
        { m.unreported.shown i with cpu := u, host := (host, before ++ [last]) }).2) :=
      exec_perform_of_leave aborts
    have whole := exec_perform_of_reported reported
    have told : i.reports bus m = before ++ [last, .exception .dataAbort] := by
      rw [reports, reported]
      exact List.append_assoc before [last] [.exception .dataAbort]
    refine .inr ⟨before, last, ⟨?_, ?_, ?_, told, found, missed, fun has => ?_⟩⟩
    · rw [whole]
    · rw [whole]
      refine CpuState.Entered.of_alike ?_ (shown.trans alike)
      rw [← addressOf_pipelinePc i thumb]
      exact entered
    · rw [whole]
      exact m.unreported.cycles_shown i
    · rw [i.memory_eq has, told, List.foldl_append]
      cases last with
      | load cpu w addr answer => rfl
      | exception kind => rfl
      | store cpu w addr x done =>
        cases done with
        | true => exact absurd missed (by simp [Report.missed])
        | false => rfl

/-- **A data abort undoes its instruction.** If one of the accesses of a transfer, a swap or a block
transfer finds no memory, be it the first or a later one, then it is the last access, the handler is
entered and will return to eight bytes after the instruction, no cycles are taken, the stores that found
memory are all that happened to it, and apart from the entry itself every mode sees the registers as
before. -/
theorem undone_of_missed (hooks : bus.KeepsProcessor) (moves : i.op.movesData = true) (m : Machine σ)
    (set : i.thumb = m.cpu.thumb) (missed : ∃ r ∈ i.reports bus m, r.missed = true) :
    ∃ before last, i.Undone bus m before last := by
  rcases found_or_undone hooks moves m set with found | undone
  · obtain ⟨r, hr, lost⟩ := missed
    rw [Report.not_missed_of_found (found r hr)] at lost
    exact absurd lost Bool.false_ne_true
  · exact undone

/-- In Fiq mode a store of User mode's registers, with the base to be moved, finds memory for the first
of two words. -/
def cutStore : Instruction := Arm.decode .arm9 0 0xE8E00102

/-- The processor it meets: the base is four bytes from where memory ends. -/
def fiqState : CpuState := (({ CpuState.new .arm9 with cpsr := 0xD1 }).setReg 0 0x100).setReg 1 7

theorem undone_cutStore :
    let m := Machine.start fiqState fun _ => (0 : Word)
    cutStore.op.movesData = true ∧ cutStore.thumb = m.cpu.thumb ∧
      (∃ r ∈ cutStore.reports (Bus.words 0x104) m, r.missed = true) ∧
      ∃ before last, cutStore.Undone (Bus.words 0x104) m before last ∧
        (exec (cutStore.perform (Bus.words 0x104)) m).2.host =
          before.foldl (Report.change fun _ _ addr x memory => Function.update memory addr x) m.host := by
  have missed : ∃ r ∈ cutStore.reports (Bus.words 0x104) (Machine.start fiqState fun _ => 0),
      r.missed = true := by decide +kernel
  obtain ⟨before, last, undone⟩ := undone_of_missed (Bus.keepsProcessor_ofMemory _ _ _)
    (show cutStore.op.movesData = true from rfl) _ (by decide) missed
  exact ⟨rfl, by decide, missed, before, last, undone, undone.memory (Bus.hasMemory_words _)⟩

end Instruction

end ArmBlocks
