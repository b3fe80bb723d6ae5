import ArmBlocks.Proofs.UserConfinement

/-!
# What the entry of an exception changes

An exception brings its own mode, and in that mode's bank a link register and a saved status register.
That is all it may touch: `CpuState.Entered` says so in terms of what each mode sees
(`CpuState.seenBy`), where a switch of banks does not show. The program counter is not among it. While a
block runs r15 is out of date anyway, and the entry sets it.

Two processors that show every mode the same are the same to the entry (`CpuState.Alike`); it does not
matter how often the banks were switched on the way.
-/

set_option autoImplicit false

namespace ArmBlocks

variable {σ : Type}

/-- The hooks leave the processor alone. -/
structure Bus.KeepsProcessor (bus : Bus σ) : Prop where
  exceptionHappened : ∀ host s kind, (bus.exceptionHappened host s kind).1 = s
  statusChanged : ∀ host s, (bus.statusChanged host s).1 = s
  softwareInterrupt : ∀ host s comment, (bus.softwareInterrupt host s comment).2.1 = s

theorem Bus.keepsProcessor_ofMemory (get : σ → Cpu → Width → Word → Option Word × σ)
    (set : σ → Cpu → Width → Word → Word → Bool × σ)
    (waitTime : σ → Cpu → Width → Word → Access → Wait × σ) :
    (Bus.ofMemory get set waitTime).KeepsProcessor where
  exceptionHappened _ _ _ := rfl
  statusChanged _ _ := rfl
  softwareInterrupt _ _ _ := rfl

/-- Nobody but the mode itself has the bank of an exception. -/
theorem Exception.shared_iff (kind : Exception) {p : Place} (banked : p = .reg .lr ∨ p = .saved)
    (m : Mode) : p.shared kind.mode m = true ↔ m = kind.mode := by
  rcases banked with rfl | rfl <;> cases kind <;> cases m <;> decide

namespace CpuState

/-- Nothing that a program can tell apart: the same status, and every mode sees the same, r15 apart. -/
structure Alike (s t : CpuState) : Prop where
  cpsr : t.cpsr = s.cpsr
  cpu : t.cpu = s.cpu
  seen : ∀ m p, p ≠ .reg .pc → t.seenBy m p = s.seenBy m p

namespace Alike

variable {s t u : CpuState}

theorem refl (s : CpuState) : s.Alike s := ⟨rfl, rfl, fun _ _ _ => rfl⟩

theorem trans (h : s.Alike t) (h' : t.Alike u) : s.Alike u :=
  ⟨h'.cpsr.trans h.cpsr, h'.cpu.trans h.cpu, fun m p other => (h'.seen m p other).trans (h.seen m p other)⟩

theorem mode (h : s.Alike t) : t.mode = s.mode := by
  unfold CpuState.mode
  rw [h.cpsr]

theorem thumb (h : s.Alike t) : t.thumb = s.thumb := by
  unfold CpuState.thumb CpuState.flag
  rw [h.cpsr]

end Alike

variable (s : CpuState)

theorem alike_setPc (x : Word) : s.Alike (s.setReg .pc x) := by
  refine ⟨rfl, rfl, fun m p other => ?_⟩
  rw [show s.setReg .pc x = s.writePlace (.reg .pc) x from rfl, seenBy_writePlace, if_neg]
  exact fun own => other own.1.symm

theorem cpu_setCpsr (x : Word) : (s.setCpsr x).cpu = s.cpu := by
  unfold setCpsr loadBank
  rfl

/-- Banks that were borrowed and given back. -/
theorem alike_borrow (m : Mode) : s.Alike ((s.setMode m).setCpsr s.cpsr) := by
  refine ⟨cpsr_setCpsr _ _, (cpu_setCpsr _ _).trans (cpu_setCpsr _ _), fun n p _ => ?_⟩
  rw [setMode, seenBy_setCpsr, seenBy_setCpsr]

/-- The processor `t` has entered an exception from `s`, and will return to `lr`. -/
structure Entered (s : CpuState) (kind : Exception) (lr : Word) (t : CpuState) : Prop where
  cpsr : t.cpsr = (s.cpsr &&& ~~~0x3F#32) ||| kind.mode.bits ||| Flag.irqDisable.mask
  cpu : t.cpu = s.cpu
  link : t.seenBy kind.mode (.reg .lr) = lr
  saved : t.seenBy kind.mode .saved = s.cpsr
  kept : ∀ m p, p ≠ .reg .pc → ¬(m = kind.mode ∧ (p = .reg .lr ∨ p = .saved)) →
    t.seenBy m p = s.seenBy m p

/-- The status register of a handler names the mode of the exception. -/
theorem mode_handler (x : Word) (kind : Exception) :
    Mode.ofBits? ((x &&& ~~~0x3F#32) ||| kind.mode.bits ||| Flag.irqDisable.mask) =
      some kind.mode := by
  have bits : ((x &&& ~~~0x3F#32) ||| kind.mode.bits ||| Flag.irqDisable.mask).setWidth 5 =
      kind.mode.bits.setWidth 5 := by
    rw [BitVec.setWidth_or, BitVec.setWidth_or, BitVec.setWidth_and,
      show (~~~0x3F#32).setWidth 5 = 0#5 from by decide,
      show Flag.irqDisable.mask.setWidth 5 = 0#5 from by decide, BitVec.and_zero, BitVec.zero_or,
      BitVec.or_zero]
  rw [← Mode.ofBits?_bits kind.mode, Mode.ofBits?, Mode.ofBits?, bits]

namespace Entered

variable {s t u : CpuState} {kind : Exception} {lr : Word}

theorem mode (h : s.Entered kind lr t) : t.mode = kind.mode := by
  unfold CpuState.mode
  rw [h.cpsr, mode_handler]
  rfl

/-- Handlers are ARM code. -/
theorem thumb (h : s.Entered kind lr t) : t.thumb = false := by
  have clear : kind.mode.bits.getLsbD Flag.thumb.bit = false := by cases kind <;> decide
  show t.cpsr.getLsbD Flag.thumb.bit = false
  rw [h.cpsr, BitVec.getLsbD_or, BitVec.getLsbD_or, BitVec.getLsbD_and, clear,
    show (~~~0x3F#32).getLsbD Flag.thumb.bit = false from by decide,
    show Flag.irqDisable.mask.getLsbD Flag.thumb.bit = false from by decide, Bool.and_false]
  rfl

/-- What is the same to a program enters an exception in the same way. -/
theorem of_alike (h : t.Entered kind lr u) (alike : s.Alike t) : s.Entered kind lr u where
  cpsr := alike.cpsr ▸ h.cpsr
  cpu := h.cpu.trans alike.cpu
  link := h.link
  saved := h.saved.trans alike.cpsr
  kept m p other own := (h.kept m p other own).trans (alike.seen m p other)

end Entered

/-- **The entry of an exception touches the bank of its mode** and no more of the registers that the
modes see. -/
theorem entered_enterException {bus : Bus σ} (hooks : bus.KeepsProcessor) (host : σ)
    (kind : Exception) (lr : Word) :
    s.Entered kind lr (s.enterException bus host kind lr).1 := by
  unfold enterException
  dsimp only
  rw [hooks.exceptionHappened, hooks.statusChanged]
  generalize bus.vectorBase _ _ + kind.vector = handler
  obtain ⟨status, hstatus⟩ : ∃ status, status =
      (s.cpsr &&& ~~~0x3F#32) ||| kind.mode.bits ||| Flag.irqDisable.mask := ⟨_, rfl⟩
  rw [← hstatus]
  have mode : (s.setCpsr status).mode = kind.mode := by
    show (Mode.ofBits? status).getD .user = kind.mode
    rw [hstatus, mode_handler]
    rfl
  -- behind the switch there are two writes to the bank that is visible then
  have seen (m : Mode) (p : Place) (other : p ≠ .reg .pc) :
      ({ (((s.setCpsr status).setSaved s.cpsr).setReg .lr lr).setReg .pc handler with
        next := handler } : CpuState).seenBy m p =
        if .reg .lr = p ∧ p.shared kind.mode m = true then lr
        else if .saved = p ∧ p.shared kind.mode m = true then s.cpsr
        else s.seenBy m p := by
    have linked := seenBy_writePlace ((s.setCpsr status).writePlace .saved s.cpsr) (.reg .lr) p lr m
    have saved := seenBy_writePlace (s.setCpsr status) .saved p s.cpsr m
    rw [mode] at saved
    rw [show ((s.setCpsr status).writePlace .saved s.cpsr).mode = kind.mode from mode, saved,
      seenBy_setCpsr] at linked
    exact ((alike_setPc _ handler).seen m p other).trans linked
  refine ⟨hstatus, rfl, ?_, ?_, fun m p other own => ?_⟩
  · rw [seen _ _ (by decide), if_pos ⟨rfl, Place.shared_self _ _⟩]
  · rw [seen _ _ (by decide), if_neg (by simp), if_pos ⟨rfl, Place.shared_self _ _⟩]
  · rw [seen m p other, if_neg, if_neg]
    · rintro ⟨rfl, shared⟩
      exact own ⟨(kind.shared_iff (.inr rfl) m).mp shared, .inr rfl⟩
    · rintro ⟨rfl, shared⟩
      exact own ⟨(kind.shared_iff (.inl rfl) m).mp shared, .inl rfl⟩

end CpuState

end ArmBlocks
