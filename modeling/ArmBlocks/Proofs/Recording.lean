import ArmBlocks.Proofs.Hooks

/-!
# What a host is asked, in order

Two runs that leave the same host have not shown it the same on the way, unless the host remembers.
`Bus.recording` makes any host remember: it puts every access and every call of a hook into a log
beside the host's own state, and answers as before. A statement about all hosts then says of the
log what it says of any host state, so "the same accesses and calls in the same order" needs no
proof of its own.

A hook is handed the processor, and `shown` is how much of it goes into the log. A block brings the
address of the next instruction up to date where it is left and not before, so a log that is to be
compared across block boundaries leaves it out.
-/

set_option autoImplicit false

namespace ArmBlocks

/-- Something a host is asked. -/
inductive Event where
  | get (cpu : Cpu) (w : Width) (addr : Word)
  | set (cpu : Cpu) (w : Width) (addr x : Word)
  | waitTime (cpu : Cpu) (w : Width) (addr : Word) (access : Access)
  | exceptionHappened (s : CpuState) (kind : Exception)
  | statusChanged (s : CpuState)
  | softwareInterrupt (s : CpuState) (comment : Word)
  | controlWrite (cpu : Cpu) (x : Word) (r : ControlRegister)
  | controlRead (cpu : Cpu) (r : ControlRegister)

namespace Bus

variable {σ : Type}

/-- The bus with a log of what it is asked, in which `shown` of the processor can be seen. -/
def recording (bus : Bus σ) (shown : CpuState → CpuState) : Bus (σ × List Event) where
  get := fun (host, log) cpu w addr =>
    let (x?, host) := bus.get host cpu w addr
    (x?, host, log ++ [.get cpu w addr])
  set := fun (host, log) cpu w addr x =>
    let (done, host) := bus.set host cpu w addr x
    (done, host, log ++ [.set cpu w addr x])
  waitTime := fun (host, log) cpu w addr access =>
    let (wait, host) := bus.waitTime host cpu w addr access
    (wait, host, log ++ [.waitTime cpu w addr access])
  codeRegions := fun (host, _) cpu => bus.codeRegions host cpu
  vectorBase := fun (host, _) cpu => bus.vectorBase host cpu
  exceptionHappened := fun (host, log) s kind =>
    let (after, host) := bus.exceptionHappened host s kind
    (after, host, log ++ [.exceptionHappened (shown s) kind])
  statusChanged := fun (host, log) s =>
    let (after, host) := bus.statusChanged host s
    (after, host, log ++ [.statusChanged (shown s)])
  softwareInterrupt := fun (host, log) s comment =>
    let (handled, after, host) := bus.softwareInterrupt host s comment
    (handled, after, host, log ++ [.softwareInterrupt (shown s) comment])
  controlWrite := fun (host, log) cpu x r =>
    (bus.controlWrite host cpu x r, log ++ [.controlWrite cpu x r])
  controlRead := fun (host, log) cpu r =>
    let (x, host) := bus.controlRead host cpu r
    (x, host, log ++ [.controlRead cpu r])

theorem KeepsStatus.recording {bus : Bus σ} (h : bus.KeepsStatus) (shown : CpuState → CpuState) :
    (bus.recording shown).KeepsStatus where
  exceptionHappened host := h.exceptionHappened host.1
  statusChanged host := h.statusChanged host.1
  softwareInterrupt host := h.softwareInterrupt host.1

/-- A log that leaves the next instruction out cannot tell more than the host could. -/
theorem IgnoresNext.recording {bus : Bus σ} (h : bus.IgnoresNext) :
    (bus.recording (·.withNext 0)).IgnoresNext where
  exceptionHappened := by
    rintro ⟨host, log⟩ kind s t agree
    obtain ⟨same, after⟩ := h.exceptionHappened host kind s t agree
    have told : s.withNext 0 = t.withNext 0 := agree
    refine ⟨?_, after⟩
    show (_, log ++ [Event.exceptionHappened (s.withNext 0) kind]) = _
    rw [same, told]
    rfl
  statusChanged := by
    rintro ⟨host, log⟩ s t agree
    obtain ⟨same, after⟩ := h.statusChanged host s t agree
    have told : s.withNext 0 = t.withNext 0 := agree
    refine ⟨?_, after⟩
    show (_, log ++ [Event.statusChanged (s.withNext 0)]) = _
    rw [same, told]
    rfl
  softwareInterrupt := by
    rintro ⟨host, log⟩ comment s t agree
    obtain ⟨handled, same, after⟩ := h.softwareInterrupt host comment s t agree
    have told : s.withNext 0 = t.withNext 0 := agree
    refine ⟨handled, ?_, after⟩
    show (_, log ++ [Event.softwareInterrupt (s.withNext 0) comment]) = _
    rw [same, told]
    rfl

end Bus

end ArmBlocks
