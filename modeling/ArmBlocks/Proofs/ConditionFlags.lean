import Mathlib.Algebra.GroupWithZero.Nat
import ArmBlocks.Proofs.Exec
import ArmBlocks.Proofs.Hooks

/-!
# Who changes the condition flags

Whether a condition holds is a matter of four bits of the status register. An instruction that
writes none of them, by the account `Op.flagsWritten` gives, leaves them alone on every path,
through an abort or a handled software interrupt included (`Action.keeps_execute`).

**The account has one gap.** A write to the status register that covers its top byte replaces the
four flags and is counted as writing none. Such an operation is singled out here
(`Op.writesFlagField`), and the general statement is made of all others; what it leaves instead are
the flags of the value it writes (`exec_writeStatus_flags`).

Writing the program counter is the other exception, with the S bit set: that restores a whole status
register. It does no harm, because the instruction leaves the block.
-/

set_option autoImplicit false

namespace ArmBlocks

/-- The condition flags that are set in a status register. -/
def FlagSet.ofStatus (x : Word) : FlagSet :=
  ⟨x.getLsbD 31, x.getLsbD 30, x.getLsbD 29, x.getLsbD 28⟩

/-- The condition flags that are set. -/
def CpuState.flags (s : CpuState) : FlagSet := FlagSet.ofStatus s.cpsr

/-- Whether the condition holds when the given flags are the ones set. -/
def Condition.holdsIn (cond : Condition) (set : FlagSet) : Bool := cond.holds set.n set.z set.c set.v

theorem CpuState.satisfies_eq (s : CpuState) (cond : Condition) :
    s.satisfies cond = cond.holdsIn s.flags := rfl

/-! ## The flags of a changed status register

A status register is changed field by field, and the flags are in the top one. Whatever is written
below them leaves them.
-/

namespace FlagSet

/-- The flags stand in the top four bits and nowhere else. -/
theorem ofStatus_eq {x y : Word} (h : ∀ i, 28 ≤ i → i < 32 → x.getLsbD i = y.getLsbD i) :
    ofStatus x = ofStatus y := by
  unfold ofStatus
  rw [h 31 (by omega) (by omega), h 30 (by omega) (by omega), h 29 (by omega) (by omega),
    h 28 (by omega) (by omega)]

/-- A bit below the flags is none of them. -/
theorem ofStatus_put (x : Word) {i : Nat} (b : Bool) (h : i < 28) :
    ofStatus (Bits.put x i b) = ofStatus x := by
  refine ofStatus_eq fun j low _ => ?_
  have apart := Bits.test_put x j b (show i < 32 by omega)
  rw [if_neg (by omega)] at apart
  exact apart

/-- The bits of a small word lie below the flags. -/
theorem getLsbD_of_small {x : Word} (small : x.toNat < 2 ^ 28) {i : Nat} (low : 28 ≤ i) :
    x.getLsbD i = false :=
  Nat.testBit_lt_two_pow (Nat.lt_of_lt_of_le small (Nat.pow_le_pow_right (by decide) low))

/-- Replacing bits below the flags changes none of them. -/
theorem ofStatus_replace (x mask y : Word) (hm : mask.toNat < 2 ^ 28) (hy : y.toNat < 2 ^ 28) :
    ofStatus ((x &&& ~~~mask) ||| y) = ofStatus x := by
  refine ofStatus_eq fun i low high => ?_
  rw [BitVec.getLsbD_or, BitVec.getLsbD_and, BitVec.getLsbD_not, getLsbD_of_small hm low,
    getLsbD_of_small hy low]
  simp [high]

end FlagSet

/-- Whether the operation writes the top byte of the current status register. -/
def Op.writesFlagField : Op → Bool
  | .writeStatus false fields _ => fields.getLsbD 3
  | _ => false

/-- The upper eight bits of a field mask are those of the flag field. -/
theorem getLsbD_fieldMask (fields : BitVec 4) {i : Nat} (low : 24 ≤ i) (high : i < 32) :
    (fieldMask fields).getLsbD i = fields.getLsbD 3 := by
  have ones : ∀ j, j < 8 → (0xFF#8).getLsbD j = true := by decide
  have zeros : ∀ j, (0#8).getLsbD j = false := fun j => BitVec.getLsbD_zero
  unfold fieldMask
  rw [BitVec.getLsbD_append, if_neg (by omega), BitVec.getLsbD_append, if_neg (by omega),
    BitVec.getLsbD_append, if_neg (by omega)]
  split
  · rename_i on
    rw [ones (i - 8 - 8 - 8) (by omega), on]
  · rename_i off
    rw [zeros, eq_comm]
    exact Bool.eq_false_iff.mpr off

namespace CpuState

theorem flags_write (s : CpuState) (r : Reg) (x : Word) : (s.write r x).flags = s.flags := by
  unfold write
  split
  · rfl
  · rfl

theorem flags_setFlag (s : CpuState) {f : Flag} (b : Bool) (h : f.bit < 28) :
    (s.setFlag f b).flags = s.flags :=
  FlagSet.ofStatus_put s.cpsr b h

theorem flags_setMode (s : CpuState) (m : Mode) : (s.setMode m).flags = s.flags := by
  refine FlagSet.ofStatus_replace s.cpsr 0x1F m.bits (by decide) ?_
  cases m <;> decide

theorem flags_loadPc (s : CpuState) (x : Word) : (s.loadPc x).flags = s.flags := by
  unfold loadPc
  rw [flags_write]
  split
  · exact flags_setFlag s _ (by decide)
  · rfl

theorem flags_linkIf (s : CpuState) (b : Bool) (link : Word) : (s.linkIf b link).flags = s.flags := by
  unfold linkIf
  split
  · exact flags_write s .lr link
  · rfl

/-- Loading registers changes no flag. -/
theorem flags_setLoaded (loaded : List (Reg × Word)) :
    ∀ s : CpuState, (s.setLoaded loaded).flags = s.flags := by
  induction loaded with
  | nil => intro s; rfl
  | cons head rest ih =>
    intro s
    show (setLoaded (if head.1 = .pc then s else s.setReg head.1 head.2) rest).flags = _
    rw [ih]
    split
    · rfl
    · rfl

/-- Entering an exception changes mode, THUMB bit and interrupt mask, and none of the flags. -/
theorem flags_enterException {σ : Type} (s : CpuState) {bus : Bus σ} (hooks : bus.KeepsStatus)
    (host : σ) (kind : Exception) (lr : Word) :
    (s.enterException bus host kind lr).1.flags = s.flags := by
  unfold enterException flags
  simp only [hooks.statusChanged]
  show FlagSet.ofStatus ((_ &&& ~~~0x3F#32) ||| kind.mode.bits ||| Flag.irqDisable.mask) = _
  rw [hooks.exceptionHappened, BitVec.or_assoc]
  refine FlagSet.ofStatus_replace s.cpsr 0x3F _ (by decide) ?_
  cases kind <;> decide

/-- User mode may write the top byte like any other. -/
theorem getLsbD_writableStatus (s : CpuState) (mask : Word) {i : Nat} (low : 28 ≤ i)
    (high : i < 32) : (s.writableStatus mask).getLsbD i = mask.getLsbD i := by
  have top : ∀ i, i < 32 → 28 ≤ i → (0xFF000000 : Word).getLsbD i = true := by decide
  unfold writableStatus
  split
  · rw [BitVec.getLsbD_and, top i high low, Bool.and_true]
  · rfl

/-- What a write to the status register merges, at the bits of the flags. -/
theorem getLsbD_merge (s : CpuState) (x : Word) (fields : BitVec 4) {i : Nat} (low : 28 ≤ i)
    (high : i < 32) :
    (Word.merge s.cpsr x (s.writableStatus (fieldMask fields))).getLsbD i =
      if fields.getLsbD 3 then x.getLsbD i else s.cpsr.getLsbD i := by
  rw [Word.merge, BitVec.getLsbD_or, BitVec.getLsbD_and, BitVec.getLsbD_and, BitVec.getLsbD_not,
    getLsbD_writableStatus s _ low high, getLsbD_fieldMask fields (by omega) high]
  cases fields.getLsbD 3 <;> simp [high]

/-- A write that covers the top byte leaves the flags of what is written, any other leaves the
flags as they were. -/
theorem flags_writeStatus (s : CpuState) (x : Word) (fields : BitVec 4) :
    (s.writeStatus x (fieldMask fields)).flags =
      if fields.getLsbD 3 then FlagSet.ofStatus x else s.flags := by
  have new : (s.writeStatus x (fieldMask fields)).flags =
      FlagSet.ofStatus (Word.merge s.cpsr x (s.writableStatus (fieldMask fields))) := by
    unfold writeStatus
    dsimp only
    split
    · exact FlagSet.ofStatus_put _ s.thumb (by decide)
    · exact FlagSet.ofStatus_put _ s.thumb (by decide)
  rw [new]
  split
  · rename_i covered
    exact FlagSet.ofStatus_eq fun i low high => by rw [getLsbD_merge s x fields low high, if_pos covered]
  · rename_i spared
    exact FlagSet.ofStatus_eq fun i low high => by rw [getLsbD_merge s x fields low high, if_neg spared]

end CpuState

/-- Where the program counter is not in the list, it is not loaded. -/
theorem RegSet.lookup_pc {list : RegSet} (h : list.has .pc = false) (values : List Word) :
    ((RegSet.toList list).zip values).lookup .pc = none := by
  rw [List.lookup_eq_none_iff]
  rintro ⟨r, x⟩ mem
  have listed : r ∈ RegSet.toList list := (List.of_mem_zip mem).1
  have has : list.has r = true := (List.mem_filter.mp listed).2
  have apart : Reg.pc ≠ r := by
    rintro rfl
    exact absurd (has.symm.trans h) (by simp)
  exact bne_iff_ne.mpr apart

/-! ## Actions that keep something

`Guest.Keeps` is an invariant of the processor along an action, with one rule for each way of putting
actions together; what a host is asked does not touch the processor.
-/

namespace Guest

variable {σ α β : Type}

/-- An action that keeps a property of the processor. -/
def Keeps (P : CpuState → Prop) (x : Guest σ α) : Prop := ∀ m, P m.cpu → P (exec x m).2.cpu

namespace Keeps

variable {P : CpuState → Prop}

theorem pure {a : α} : Keeps P (Pure.pure a : Guest σ α) := fun _ h => h

theorem bind {x : Guest σ α} {f : α → Guest σ β} (hx : Keeps P x) (hf : ∀ a, Keeps P (f a)) :
    Keeps P (x >>= f) :=
  fun m h => hf (exec x m).1 (exec x m).2 (hx m h)

/-- What follows a look at the processor may rely on what is being kept. -/
theorem look {f : CpuState → Guest σ α} (hf : ∀ s, P s → Keeps P (f s)) : Keeps P (cpu >>= f) :=
  fun m h => hf m.cpu h m h

theorem ite {c : Prop} [Decidable c] {x y : Guest σ α} (hx : c → Keeps P x)
    (hy : ¬c → Keeps P y) : Keeps P (if c then x else y) := by
  split
  · rename_i h; exact hx h
  · rename_i h; exact hy h

/-- An action that leaves the whole processor alone. -/
theorem of_cpu_eq {x : Guest σ α} (h : ∀ m, (exec x m).2.cpu = m.cpu) : Keeps P x := by
  intro m hm
  rw [h m]
  exact hm

theorem modifyCpu {f : CpuState → CpuState} (h : ∀ s, P s → P (f s)) :
    Keeps P (Guest.modifyCpu f : Guest σ Unit) := fun m hm => h m.cpu hm

theorem spend {cycles : Word} : Keeps P (Guest.spend cycles : Guest σ Unit) :=
  of_cpu_eq fun _ => rfl

theorem spendWithMemory {cycles memory : Word} :
    Keeps P (Guest.spendWithMemory cycles memory : Guest σ Unit) := of_cpu_eq fun _ => rfl

theorem ask {x : Guest σ α} (asks : AsksHost x) : Keeps P x := by
  obtain ⟨f, hf⟩ := asks
  exact of_cpu_eq fun m => by rw [hf]

end Keeps

/-! ## The operations that keep the flags

Accesses, aborts and the entry of an exception keep the flags for every operation. The entry copies
the status register and changes its mode and its masks, which are not among them.
-/

section Flags

variable {bus : Bus σ} (hooks : bus.KeepsStatus) {flags : FlagSet} (pc cost : Word)

theorem keeps_write {r : Reg} {x : Word} :
    Keeps (·.flags = flags) (write r x : Guest σ Unit) :=
  .modifyCpu fun s h => (s.flags_write r x).trans h

theorem keeps_loadPc {x : Word} :
    Keeps (·.flags = flags) (modifyCpu (·.loadPc x) : Guest σ Unit) :=
  .modifyCpu fun s h => (s.flags_loadPc x).trans h

/-- Data processing that sets no flags keeps them, also where it writes r15, as the saved status is
restored only by one that sets them. -/
theorem keeps_alu (op : AluOp) (rd rn : Reg) (operand : Operand) :
    Keeps (·.flags = flags) (alu bus pc op false rd rn operand) := by
  have same (s : CpuState) : (s.process pc op false rn operand).2 = s := by
    cases op <;> rfl
  refine .look fun s h => .bind (.modifyCpu fun _ _ => ?_) fun _ => .ite (fun _ => .ite ?_ ?_) ?_
  · show (s.process pc op (false && _) rn operand).2.flags = flags
    rw [Bool.false_and, same]
    exact h
  · intro restores
    exact absurd restores (by simp)
  · exact fun _ => .bind keeps_write fun _ => .pure
  · exact fun _ => .pure

/-- A transfer with the control coprocessor keeps the flags unless it reads to r15. -/
theorem keeps_coproc (load : Bool) (cp : BitVec 4) (r : ControlRegister) (rd : Reg)
    (h : (load && rd == .pc) = false) :
    Keeps (·.flags = flags) (coproc bus pc load cp r rd) := by
  refine .ite (fun _ => .ite (fun loads => .bind ?_ fun _ => .pure) fun _ => ?_) fun _ => .pure
  · refine .bind (.of_cpu_eq fun _ => rfl) fun x => .modifyCpu fun s hs => ?_
    have other : rd ≠ .pc := by
      rintro rfl
      rw [loads] at h
      exact absurd h (by decide)
    rw [if_neg other]
    exact (s.flags_write rd x).trans hs
  · exact .bind (.of_cpu_eq fun _ => rfl) fun _ => .pure

include hooks

theorem keeps_enter {kind : Exception} {lr : Word} :
    Keeps (·.flags = flags) (enter bus kind lr) :=
  fun m h => (m.cpu.flags_enterException hooks m.host kind lr).trans h

theorem keeps_statusChanged : Keeps (·.flags = flags) (statusChanged bus) := by
  intro m h
  have same := hooks.statusChanged m.host m.cpu
  rw [exec_statusChanged]
  show FlagSet.ofStatus (bus.statusChanged m.host m.cpu).1.cpsr = flags
  rw [same]
  exact h

theorem keeps_dataAbort : Keeps (·.flags = flags) (dataAbort bus pc) :=
  .look fun _ _ => .bind (keeps_enter hooks) fun _ => .pure

/-- A write of a status register keeps the flags unless it is the one in force and the mask has the flag
field. -/
theorem keeps_writeStatus (saved : Bool) (fields : BitVec 4) (source : StatusSource)
    (h : (Op.writeStatus saved fields source).writesFlagField = false) :
    Keeps (·.flags = flags) (writeStatus bus pc saved fields source) := by
  refine .look fun s _ => .ite (fun _ => ?_) fun current => ?_
  · refine .bind (.modifyCpu fun t ht => ?_) fun _ => .pure
    show (t.writeSaved (source.value s pc) (fieldMask fields)).flags = flags
    unfold CpuState.writeSaved
    split
    · exact ht
    · exact ht
  · obtain rfl : saved = false := Bool.eq_false_iff.mpr current
    refine .bind (.modifyCpu fun t ht => ?_) fun _ =>
      .bind (keeps_statusChanged hooks) fun _ => .pure
    show (t.writeStatus (source.value s pc) (fieldMask fields)).flags = flags
    rw [t.flags_writeStatus, show fields.getLsbD 3 = false from h, if_neg (by simp)]
    exact ht

/-- Loads and stores keep the flags, and so does the handler that a failed one enters. -/
theorem keeps_transfer (kind : TransferKind) (rd rn : Reg) (offset : Offset) (index : IndexMode)
    (up : Bool) : Keeps (·.flags = flags) (transfer bus pc cost kind rd rn offset index up) := by
  have moveBase (moved : Word) : Keeps (·.flags = flags)
      (if index ≠ .pre ∧ rn ≠ .pc then write rn moved else pure () : Guest σ Unit) :=
    .ite (fun _ => keeps_write) fun _ => .pure
  have finish (wait : Wait) : Keeps (·.flags = flags) (do
      spendWithMemory cost (wait.setWidth 32)
      return .next : Guest σ Continuation) := .bind .spendWithMemory fun _ => .pure
  refine .look fun s _ => .ite (fun _ => .bind (.ask .storeOne) fun wait? => ?_)
    fun _ => .ite (fun _ => .bind (.ask .loadPair) fun pair? => ?_)
      fun _ => .bind (.ask .loadOne) fun x? => ?_
  · cases wait? with
    | none => exact keeps_dataAbort hooks pc
    | some wait => exact .bind (moveBase _) fun _ => finish wait
  · cases pair? with
    | none => exact keeps_dataAbort hooks pc
    | some pair =>
      exact .bind (moveBase _) fun _ => .bind keeps_write fun _ => .bind keeps_write fun _ =>
        finish pair.2.2
  · cases x? with
    | none => exact keeps_dataAbort hooks pc
    | some x =>
      refine .bind (moveBase _) fun _ => .ite (fun _ => ?_) fun _ => ?_
      · exact .bind keeps_loadPc fun _ => finish x.2
      · exact .bind keeps_write fun _ => finish x.2

/-- So does a swap. -/
theorem keeps_swap (byte : Bool) (rd rn rm : Reg) :
    Keeps (·.flags = flags) (swap bus pc cost byte rd rn rm) := by
  refine .look fun s _ => .bind (.ask .loadOne) fun old? => ?_
  cases old? with
  | none => exact keeps_dataAbort hooks pc
  | some old =>
    refine .bind (.ask .storeOne) fun wait? => ?_
    cases wait? with
    | none => exact keeps_dataAbort hooks pc
    | some wait => exact .bind keeps_write fun _ => .bind .spendWithMemory fun _ => .pure

/-- So does a software interrupt, as its hook does not change the status. -/
theorem keeps_softwareInterrupt (comment : Word) :
    Keeps (·.flags = flags) (softwareInterrupt bus pc cost comment) := by
  have hook : Keeps (·.flags = flags) (modifyGet fun m =>
      ((bus.softwareInterrupt m.host m.cpu comment).1,
        { m with
          cpu := (bus.softwareInterrupt m.host m.cpu comment).2.1
          host := (bus.softwareInterrupt m.host m.cpu comment).2.2 }) :
      Guest σ (Option Wait)) := by
    intro m h
    show FlagSet.ofStatus (bus.softwareInterrupt m.host m.cpu comment).2.1.cpsr = flags
    rw [hooks.softwareInterrupt]
    exact h
  refine .bind hook fun handled => ?_
  cases handled with
  | none =>
    exact .bind .spend fun _ => .look fun _ _ => .bind (keeps_enter hooks) fun _ =>
      .bind (.of_cpu_eq fun _ => rfl) fun _ => .pure
  | some cycles => exact .bind .spend fun _ => .bind (.of_cpu_eq fun _ => rfl) fun _ => .pure

theorem keeps_abortBlock {leaveBank : Guest σ Unit} (leave : Keeps (·.flags = flags) leaveBank) :
    Keeps (·.flags = flags) (abortBlock bus pc leaveBank) :=
  .bind leave fun _ => keeps_dataAbort hooks pc

/-- A loading block transfer without r15 keeps the flags, if moving the base and leaving the bank do. -/
theorem keeps_loadBlock (lowest : Word) (list : RegSet) (user : Bool)
    {moveBase leaveBank : Guest σ Unit} (move : Keeps (·.flags = flags) moveBase)
    (leave : Keeps (·.flags = flags) leaveBank) (stays : list.has .pc = false) :
    Keeps (·.flags = flags) (loadBlock bus pc cost lowest list user moveBase leaveBank) := by
  refine .bind (.ask .loadWords) fun loaded? => ?_
  cases loaded? with
  | none => exact keeps_abortBlock hooks pc leave
  | some loaded =>
    refine .bind move fun _ => .bind (.modifyCpu fun s h => ?_) fun _ => .bind leave fun _ => ?_
    · exact (s.flags_setLoaded _).trans h
    · rw [RegSet.lookup_pc stays]
      exact .bind .spendWithMemory fun _ => .pure

theorem keeps_storeBlock (lowest : Word) (values : List Word) {moveBase leaveBank : Guest σ Unit}
    (move : Keeps (·.flags = flags) moveBase) (leave : Keeps (·.flags = flags) leaveBank) :
    Keeps (·.flags = flags) (storeBlock bus pc cost lowest values moveBase leaveBank) := by
  refine .bind (.ask .storeWords) fun wait? => ?_
  cases wait? with
  | none => exact keeps_abortBlock hooks pc leave
  | some wait => exact .bind leave fun _ => .bind move fun _ => .bind .spendWithMemory fun _ => .pure

/-- Borrowing the bank of the user changes the mode and not the flags. -/
theorem keeps_blockTransfer (load : Bool) (mode : BlockMode) (writeback user : Bool) (rn : Reg)
    (list : RegSet) (stays : load = true → list.has .pc = false) :
    Keeps (·.flags = flags) (blockTransfer bus pc cost load mode writeback user rn list) := by
  refine .look fun before h => ?_
  have move : Keeps (·.flags = flags)
      (if writeback then write rn (mode.moved (before.read pc rn) list) else pure () :
        Guest σ Unit) := .ite (fun _ => keeps_write) fun _ => .pure
  have leave : Keeps (·.flags = flags)
      (if user && !(load && list.has .pc) then modifyCpu (·.setCpsr before.cpsr) else pure () :
        Guest σ Unit) := .ite (fun _ => .modifyCpu fun _ _ => h) fun _ => .pure
  have enter : Keeps (·.flags = flags) (modifyCpu (·.setMode .system) : Guest σ Unit) :=
    .modifyCpu fun s h => (s.flags_setMode .system).trans h
  refine .ite (fun _ => .bind enter fun _ => .ite (fun loads => ?_) fun _ => ?_)
    fun _ => .ite (fun loads => ?_) fun _ => ?_
  · exact keeps_loadBlock hooks pc cost _ list user move leave (stays loads)
  · exact .look fun _ _ => keeps_storeBlock hooks pc cost _ _ move leave
  · exact keeps_loadBlock hooks pc cost _ list user move leave (stays loads)
  · exact .look fun _ _ => keeps_storeBlock hooks pc cost _ _ move leave

end Flags

end Guest

/-! ## All instructions

For the data processing instructions the account is exact: they keep the flags unless they record
them.
-/

open Guest (Keeps exec)

namespace CpuState

theorem flags_clampIf (s : CpuState) (c : Bool) :
    (if c then s.setFlag .clamped true else s).flags = s.flags := by
  split
  · exact s.flags_setFlag true (by decide)
  · rfl

theorem flags_accumulate (s : CpuState) (rd : Reg) (product acc : Word) :
    (s.accumulate rd product acc).flags = s.flags := by
  unfold accumulate
  rw [flags_write, flags_clampIf]

/-- Multiplications of halves keep the condition flags, as the sticky flag is none of them. -/
theorem flags_multiplyHalves (s : CpuState) (pc : Word) (op : HalfMulOp) (rd rn rs rm : Reg)
    (xTop yTop : Bool) : (s.multiplyHalves pc op rd rn rs rm xTop yTop).flags = s.flags := by
  cases op with
  | smla => exact flags_accumulate ..
  | smlaw => exact flags_accumulate ..
  | smulw => exact flags_write ..
  | smlal => exact (flags_write ..).trans (flags_write ..)
  | smul => exact flags_write ..

theorem flags_saturate (s : CpuState) (pc : Word) (op : SatOp) (rd rn rm : Reg) :
    (s.saturate pc op rd rn rm).flags = s.flags := by
  unfold saturate
  dsimp only
  rw [flags_write, flags_clampIf]

theorem flags_multiply (s : CpuState) (pc : Word) (op : MulOp) (rd rn rs rm : Reg) :
    (s.multiply pc op false rd rn rs rm).flags = s.flags := by
  unfold multiply
  dsimp only
  split
  · exact (flags_write ..).trans (flags_write ..)
  · exact flags_write ..

/-- A branch keeps the condition flags, as the bit of the instruction set is none of them. -/
theorem flags_branch (s : CpuState) (link : Word) (links exchange : Bool) (target : Word) :
    (s.branch link links exchange target).flags = s.flags := by
  unfold branch
  dsimp only
  rw [flags_write]
  split
  · rw [flags_setFlag _ _ (by decide), flags_linkIf]
  · exact flags_linkIf ..

theorem flags_branchExchange (s : CpuState) (pc link : Word) (links : Bool) (rm : Reg) :
    (s.branchExchange pc link links rm).flags = s.flags := by
  unfold branchExchange
  dsimp only
  rw [flags_write, flags_setFlag _ _ (by decide), flags_linkIf]

theorem flags_linkSuffix (s : CpuState) (link offset : Word) (exchange : Bool) :
    (s.linkSuffix link offset exchange).flags = s.flags := by
  unfold linkSuffix
  dsimp only
  split
  · rw [flags_write, flags_setFlag _ _ (by decide), flags_write]
  · rw [flags_write, flags_write]

end CpuState

/-- An operation that computes flags without writing the program counter is counted as writing
some. -/
theorem Op.s_eq_false {op : AluOp} {s : Bool} {rd rn : Reg} {operand : Operand}
    (h : (Op.alu op s rd rn operand).flagsWritten = .empty)
    (stays : (rd == .pc && op.writes) = false) : s = false := by
  cases s with
  | false => rfl
  | true =>
    simp only [Op.flagsWritten, stays, Bool.not_true, Bool.or_self, Bool.false_eq_true,
      if_false] at h
    split at h
    · split at h <;> exact absurd h (by decide)
    · exact absurd h (by decide)

/-- The registers of a set are those it is made of. -/
theorem RegSet.has_single (r r' : Reg) : (RegSet.single r).has r' = (r == r') := by
  have all : ∀ r r' : Reg, (RegSet.single r).has r' = (r == r') := by decide
  exact all r r'

theorem RegSet.has_or (a b : RegSet) (r : Reg) : RegSet.has (a ||| b) r = (a.has r || b.has r) :=
  BitVec.getLsbD_or

/-- If r15 is not among the registers written, then it is not the destination of an operation that has one.
-/
theorem Op.alu_stays {op : AluOp} {s : Bool} {rd rn : Reg} {operand : Operand}
    (h : (Op.alu op s rd rn operand).registersWritten.has .pc = false) :
    (rd == .pc && op.writes) = false := by
  simp only [Op.registersWritten, RegSet.singleIf] at h
  split at h
  · rw [RegSet.has_single] at h
    rw [h, Bool.false_and]
  · rename_i off
    rw [Bool.eq_false_iff.mpr off, Bool.and_false]

theorem Op.block_stays {load pre up writeback user : Bool} {rn : Reg} {list : BitVec 16}
    {cycles pcCycles : Nat}
    (h : (Op.block load pre up writeback user rn list cycles pcCycles).registersWritten.has .pc
      = false) (loads : load = true) : RegSet.has list .pc = false := by
  simp only [Op.registersWritten] at h
  rw [if_pos loads, RegSet.has_or, Bool.or_eq_false_iff] at h
  exact h.1

/-- If no flags are written, then the destination is not r15. -/
theorem Op.coproc_stays {load : Bool} {cp : BitVec 4} {op1 : BitVec 3} {cn cm : BitVec 4}
    {op2 : BitVec 3} {rd : Reg} (h : (Op.coproc load cp op1 cn cm op2 rd).flagsWritten = .empty) :
    (load && rd == .pc) = false := by
  simp only [Op.flagsWritten] at h
  split at h
  · exact absurd h (by decide)
  · rename_i off
    exact Bool.eq_false_iff.mpr off

/-- An operation that is counted as writing no flags, and does not write the top byte of the status
register, keeps them, whether it goes on or aborts. -/
theorem Action.keeps_execute {σ : Type} {bus : Bus σ} (hooks : bus.KeepsStatus) (a : Action)
    (pc : Word) {flags : FlagSet} (unwritten : a.op.flagsWritten = .empty)
    (spared : a.op.writesFlagField = false)
    (stays : a.op.registersWritten.has .pc = false ∨ ∃ comment, a.op = .softwareInterrupt comment) :
    Keeps (·.flags = flags) (a.execute bus pc) := by
  have onCpu {f : CpuState → CpuState} (h : ∀ s, (f s).flags = s.flags) :
      Keeps (·.flags = flags) (do
        Guest.modifyCpu f
        Guest.spend a.cost
        return .next : Guest σ Continuation) :=
    .bind (.modifyCpu fun s hs => (h s).trans hs) fun _ => .bind .spend fun _ => .pure
  unfold Action.execute
  cases hop : a.op with
  | alu op s rd rn operand =>
    rw [hop] at unwritten stays
    obtain rfl := Op.s_eq_false unwritten (Op.alu_stays (stays.resolve_right (by simp)))
    exact .bind .spend fun _ => Guest.keeps_alu pc op rd rn operand
  | mul op s rd rn rs rm =>
    rw [hop] at unwritten
    have plain : s = false := by
      cases s with
      | false => rfl
      | true => exact absurd unwritten (show FlagSet.nz ≠ .empty by decide)
    subst plain
    exact .look fun _ _ => .bind .spend fun _ => onCpu fun s => s.flags_multiply pc op rd rn rs rm
  | halfMul op rd rn rs rm xTop yTop =>
    exact onCpu fun s => s.flags_multiplyHalves pc op rd rn rs rm xTop yTop
  | clz rd rm => exact onCpu fun s => s.flags_write rd _
  | sat op rd rn rm => exact onCpu fun s => s.flags_saturate pc op rd rn rm
  | readStatus rd saved =>
    exact .bind .spend fun _ => .bind (.modifyCpu fun s h => (s.flags_write rd _).trans h)
      fun _ => .pure
  | writeStatus saved fields source =>
    rw [hop] at spared
    exact .bind .spend fun _ => Guest.keeps_writeStatus hooks pc saved fields source spared
  | transfer kind rd rn offset index up =>
    exact Guest.keeps_transfer hooks pc a.cost kind rd rn offset index up
  | block load pre up writeback user rn list cycles pcCycles =>
    refine Guest.keeps_blockTransfer hooks pc a.cost load ⟨pre, up⟩ writeback user rn list ?_
    rw [hop] at stays
    exact Op.block_stays (stays.resolve_right (by simp))
  | swap byte rd rn rm => exact Guest.keeps_swap hooks pc a.cost byte rd rn rm
  | branch links exchange target =>
    exact onCpu fun s => s.flags_branch a.link links exchange target
  | branchExchange links rm => exact onCpu fun s => s.flags_branchExchange pc a.link links rm
  | linkPrefix value => exact onCpu fun s => s.flags_write .lr value
  | linkSuffix offset exchange =>
    exact onCpu fun s => s.flags_linkSuffix a.link offset exchange
  | coproc load cp op1 cn cm op2 rd =>
    rw [hop] at unwritten
    exact .bind .spend fun _ => Guest.keeps_coproc pc load cp _ rd (Op.coproc_stays unwritten)
  | softwareInterrupt comment =>
    exact Guest.keeps_softwareInterrupt hooks pc a.cost comment
  | breakpoint =>
    exact .look fun _ _ => .bind (.of_cpu_eq fun _ => rfl) fun _ => .bind .spend fun _ => .pure
  | undefined =>
    exact .bind .spend fun _ => .look fun _ _ => .bind (Guest.keeps_enter hooks) fun _ => .pure
  | nop cycles => exact onCpu fun _ => rfl

end ArmBlocks
