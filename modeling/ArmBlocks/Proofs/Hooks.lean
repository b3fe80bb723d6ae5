import ArmBlocks.Bus

/-!
# What is asked of the hooks of a host

The host is a parameter, and its hooks are handed the processor and answer one. Two things are
promised of them where a result needs it, and nothing else is ever assumed of a host: that they
leave the status register alone (`Bus.KeepsStatus`), and that they do not look at the address of the
next instruction (`Bus.IgnoresNext`), which is out of date while a block runs. A hook that ignores
the address may still set it.
-/

set_option autoImplicit false

namespace ArmBlocks

variable {σ : Type}

/-- The hooks leave the status register alone. -/
structure Bus.KeepsStatus (bus : Bus σ) : Prop where
  exceptionHappened : ∀ host s kind, (bus.exceptionHappened host s kind).1.cpsr = s.cpsr
  statusChanged : ∀ host s, (bus.statusChanged host s).1.cpsr = s.cpsr
  softwareInterrupt : ∀ host s comment, (bus.softwareInterrupt host s comment).2.1.cpsr = s.cpsr

/-- The processor with another next instruction. -/
def CpuState.withNext (s : CpuState) (next : Word) : CpuState := { s with next }

/-- Two processors that differ in nothing but the next instruction. -/
def CpuState.AgreeUpToNext (s t : CpuState) : Prop := s.withNext 0 = t.withNext 0

/-- Given processors that differ in nothing but the next instruction, the hooks do the same to
the host, answer the same, and leave processors that differ in nothing else. -/
structure Bus.IgnoresNext (bus : Bus σ) : Prop where
  exceptionHappened : ∀ host kind (s t : CpuState), s.AgreeUpToNext t →
    (bus.exceptionHappened host s kind).2 = (bus.exceptionHappened host t kind).2 ∧
      (bus.exceptionHappened host s kind).1.AgreeUpToNext (bus.exceptionHappened host t kind).1
  statusChanged : ∀ host (s t : CpuState), s.AgreeUpToNext t →
    (bus.statusChanged host s).2 = (bus.statusChanged host t).2 ∧
      (bus.statusChanged host s).1.AgreeUpToNext (bus.statusChanged host t).1
  softwareInterrupt : ∀ host comment (s t : CpuState), s.AgreeUpToNext t →
    (bus.softwareInterrupt host s comment).1 = (bus.softwareInterrupt host t comment).1 ∧
      (bus.softwareInterrupt host s comment).2.2 = (bus.softwareInterrupt host t comment).2.2 ∧
      (bus.softwareInterrupt host s comment).2.1.AgreeUpToNext
        (bus.softwareInterrupt host t comment).2.1

/-- A host without hooks keeps both promises. -/
theorem Bus.keepsStatus_ofMemory (get : σ → Cpu → Width → Word → Option Word × σ)
    (set : σ → Cpu → Width → Word → Word → Bool × σ)
    (waitTime : σ → Cpu → Width → Word → Access → Wait × σ) :
    (Bus.ofMemory get set waitTime).KeepsStatus where
  exceptionHappened _ _ _ := rfl
  statusChanged _ _ := rfl
  softwareInterrupt _ _ _ := rfl

theorem Bus.ignoresNext_ofMemory (get : σ → Cpu → Width → Word → Option Word × σ)
    (set : σ → Cpu → Width → Word → Word → Bool × σ)
    (waitTime : σ → Cpu → Width → Word → Access → Wait × σ) :
    (Bus.ofMemory get set waitTime).IgnoresNext where
  exceptionHappened _ _ _ _ h := ⟨rfl, h⟩
  statusChanged _ _ _ h := ⟨rfl, h⟩
  softwareInterrupt _ _ _ _ h := ⟨rfl, rfl, h⟩

/-- A host without memory and hooks. -/
def Bus.silent : Bus Unit :=
  Bus.ofMemory (fun _ _ _ _ => (none, ())) (fun _ _ _ _ _ => (false, ())) fun _ _ _ _ _ => (0, ())

theorem Bus.keepsStatus_silent : Bus.silent.KeepsStatus := Bus.keepsStatus_ofMemory _ _ _

theorem Bus.ignoresNext_silent : Bus.silent.IgnoresNext := Bus.ignoresNext_ofMemory _ _ _

/-- A host without hooks, with one instruction at the start of its memory and branches to themselves
after it. -/
def Bus.ofInstruction (x : Word) : Bus Unit :=
  Bus.ofMemory (fun _ _ _ addr => (some (if addr = 0 then x else 0xEAFFFFFE), ()))
    (fun _ _ _ _ _ => (false, ())) fun _ _ _ _ _ => (1, ())

end ArmBlocks
