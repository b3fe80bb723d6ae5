import ArmBlocks.Proofs.BlockRefinement
import ArmBlocks.Proofs.DecodedRun

/-!
# Where an instruction leaves the program counter

The address of the next instruction is a multiple of the instruction width, and the width changes with
the instruction set. An instruction that writes r15 aligns what it writes to the instruction set in
force at that moment, so whatever switches the set has to come first.

While an instruction runs, a processor is on course (`CpuState.OnCourse`): it is still in the
instruction set of its block, or r15 was written and is aligned to the set that is in force by then.
Which of the two holds after the instruction is what `Op.registersWritten` says
(`Action.ensures_execute`). The block goes on in the first case and publishes r15 in the second; an
exception is left for its handler at once, and a handler is aligned to either set.
-/

set_option autoImplicit false

namespace ArmBlocks

open Guest (exec inOrder)

variable {σ : Type}

/-! ## Aligned addresses

Aligning clears the bits below the width. What an instruction writes to r15 is masked in one of two
ways, by the width of the instruction set in force or to a word, and a word is aligned to either set.
-/

namespace Decode

variable {thumb : Bool} {x : Word}

/-- An address brought to the start of an instruction. -/
def align (thumb : Bool) (x : Word) : Word := x &&& if thumb then ~~~1#32 else ~~~3#32

theorem toNat_masked (x mask : Word) {k : Nat} (clear : mask.setWidth k = 0#k) :
    (x &&& mask).toNat % 2 ^ k = 0 := by
  rw [← BitVec.toNat_setWidth, BitVec.setWidth_and, clear, BitVec.and_zero, BitVec.toNat_zero]

theorem aligned_align (thumb : Bool) (x : Word) : (align thumb x).toNat % bytes thumb = 0 := by
  cases thumb with
  | true => exact toNat_masked x (~~~1#32) (k := 1) (by decide)
  | false => exact toNat_masked x (~~~3#32) (k := 2) (by decide)

/-- A mask that has all bits from the `k`th on changes no word whose bits below are clear. -/
theorem and_of_clear {mask : Word} {k : Nat} (clear : x.toNat % 2 ^ k = 0)
    (keeps : ∀ i < 32, k ≤ i → mask.getLsbD i = true) : x &&& mask = x := by
  refine BitVec.eq_of_getLsbD_eq fun i inside => ?_
  rw [BitVec.getLsbD_and]
  by_cases low : i < k
  · have bit := Nat.testBit_mod_two_pow x.toNat k i
    rw [clear, Nat.zero_testBit, decide_eq_true low, Bool.true_and] at bit
    rw [show x.getLsbD i = false from bit.symm, Bool.false_and]
  · rw [keeps i inside (Nat.le_of_not_lt low), Bool.and_true]

theorem align_of_aligned (aligned : x.toNat % bytes thumb = 0) : align thumb x = x := by
  cases thumb with
  | true => exact and_of_clear (k := 1) aligned (by decide)
  | false => exact and_of_clear (k := 2) aligned (by decide)

end Decode

namespace CpuState

/-- An instruction of the current instruction set can stand at the address. -/
def Aligns (s : CpuState) (x : Word) : Prop := x.toNat % s.width.toNat = 0

instance (s : CpuState) (x : Word) : Decidable (s.Aligns x) :=
  inferInstanceAs (Decidable (x.toNat % s.width.toNat = 0))

variable {s t : CpuState} {thumb written : Bool} {x : Word}

theorem toNat_width (s : CpuState) : s.width.toNat = Decode.bytes s.thumb := by
  unfold width Decode.bytes
  split
  · rfl
  · rfl

theorem aligns_iff : s.Aligns x ↔ x.toNat % Decode.bytes s.thumb = 0 := by
  rw [Aligns, toNat_width]

theorem aligns_congr (same : t.thumb = s.thumb) : t.Aligns x ↔ s.Aligns x := by
  rw [aligns_iff, aligns_iff, same]

/-- What is aligned to a word is aligned to any instruction. -/
theorem aligns_of_word (word : x.toNat % 4 = 0) : s.Aligns x := by
  rw [aligns_iff]
  rcases Decode.bytes_cases s.thumb with two | four
  · rw [two]
    omega
  · rw [four]
    exact word

theorem aligns_masked (s : CpuState) (x : Word) :
    s.Aligns (x &&& if s.thumb then ~~~1#32 else ~~~3#32) :=
  aligns_iff.mpr (Decode.aligned_align s.thumb x)

/-- Where a processor is while an instruction of a block runs: in the instruction set of the block, or
with an aligned address in r15 once that was written. -/
def OnCourse (thumb : Bool) : Bool → CpuState → Prop
  | false, s => s.thumb = thumb
  | true, s => s.Aligns (s.reg .pc)

/-- As `OnCourse`, where the instruction set has not been switched yet. -/
def Within (thumb written : Bool) (s : CpuState) : Prop := s.thumb = thumb ∧ s.OnCourse thumb written

/-- The instruction set and r15 are the same. -/
structure SamePlace (s t : CpuState) : Prop where
  thumb : t.thumb = s.thumb
  pc : t.reg .pc = s.reg .pc

namespace SamePlace

theorem refl (s : CpuState) : s.SamePlace s := ⟨rfl, rfl⟩

theorem trans {u : CpuState} (h : s.SamePlace t) (h' : t.SamePlace u) : s.SamePlace u :=
  ⟨h'.thumb.trans h.thumb, h'.pc.trans h.pc⟩

theorem ite {c : Prop} [Decidable c] (h : s.SamePlace t) : s.SamePlace (if c then t else s) := by
  split
  · exact h
  · exact .refl s

theorem onCourse (same : s.SamePlace t) (h : s.OnCourse thumb written) : t.OnCourse thumb written := by
  cases written with
  | false => exact same.thumb.trans h
  | true =>
    show t.Aligns (t.reg .pc)
    rw [same.pc, aligns_congr same.thumb]
    exact h

theorem within (same : s.SamePlace t) (h : s.Within thumb written) : t.Within thumb written :=
  ⟨same.thumb.trans h.1, same.onCourse h.2⟩

end SamePlace

/-! ## What leaves r15 and the instruction set alone

`CpuState.SamePlace` is all that such a function has to satisfy: the same r15, the same instruction
set and the same next instruction. Whatever was on course before is so behind it.
-/

theorem samePlace_setReg {r : Reg} (other : r ≠ .pc) (x : Word) : s.SamePlace (s.setReg r x) where
  thumb := rfl
  pc := by simp [other]

theorem samePlace_setFlag {f : Flag} (on : Bool) (other : f ≠ .thumb) :
    s.SamePlace (s.setFlag f on) where
  thumb := by
    unfold CpuState.thumb
    rw [flag_setFlag, if_neg other]
  pc := rfl

theorem samePlace_setNz (x : Word) : s.SamePlace (s.setNz x) :=
  (samePlace_setFlag _ (by decide)).trans (samePlace_setFlag _ (by decide))

theorem samePlace_setNzc (x : Word) (carry : Bool) : s.SamePlace (s.setNzc x carry) :=
  (samePlace_setNz x).trans (samePlace_setFlag _ (by decide))

theorem samePlace_setNzcv (sum : Sum) : s.SamePlace (s.setNzcv sum) :=
  (samePlace_setNzc _ _).trans (samePlace_setFlag _ (by decide))

theorem samePlace_clamp {c : Prop} [Decidable c] :
    s.SamePlace (if c then s.setFlag .clamped true else s) :=
  (samePlace_setFlag true (by decide)).ite

theorem samePlace_process (pc : Word) (op : AluOp) (set : Bool) (rn : Reg) (operand : Operand) :
    s.SamePlace (s.process pc op set rn operand).2 := by
  cases op with
  | and | eor | tst | teq | orr | mov | bic | mvn => exact (samePlace_setNzc _ _).ite
  | sub | rsb | add | adc | sbc | rsc | cmp | cmn => exact (samePlace_setNzcv _).ite

/-- Loading registers changes neither the next instruction nor the instruction set, as r15 is left to what
comes after. -/
theorem samePlace_setLoaded (loaded : List (Reg × Word)) :
    ∀ s : CpuState, s.SamePlace (s.setLoaded loaded) := by
  induction loaded with
  | nil => exact .refl
  | cons head rest ih =>
    intro s
    refine SamePlace.trans ?_ (ih (if head.1 = .pc then s else s.setReg head.1 head.2))
    split
    · exact .refl s
    · exact samePlace_setReg ‹_› _

/-- Banks never hold the program counter. -/
theorem samePlace_setCpsr (x : Word) (same : Bits.test x Flag.thumb.bit = s.thumb) :
    s.SamePlace (s.setCpsr x) where
  thumb := same
  pc := by simp [reg, setCpsr, loadBank, Reg.pc]

theorem samePlace_setMode (m : Mode) : s.SamePlace (s.setMode m) := by
  refine samePlace_setCpsr _ ?_
  -- the THUMB bit is the first above the mode
  have below : (~~~0x1F#32).getLsbD 5 = true ∧ m.bits.getLsbD 5 = false := by
    cases m <;> decide
  show ((s.cpsr &&& ~~~0x1F#32) ||| m.bits).getLsbD 5 = s.cpsr.getLsbD 5
  rw [BitVec.getLsbD_or, BitVec.getLsbD_and, below.1, below.2, Bool.and_true, Bool.or_false]

theorem samePlace_writeSaved (x mask : Word) : s.SamePlace (s.writeSaved x mask) :=
  SamePlace.ite ⟨rfl, rfl⟩

/-- The THUMB bit is put back into what is written. -/
theorem samePlace_writeStatus (x mask : Word) : s.SamePlace (s.writeStatus x mask) := by
  have put (y : Word) : Bits.test (Bits.put y Flag.thumb.bit s.thumb) Flag.thumb.bit = s.thumb := by
    rw [Bits.test_put _ _ _ Flag.thumb.bit_lt, if_pos rfl]
  unfold writeStatus
  dsimp only
  split
  · exact ⟨put _, rfl⟩
  · exact samePlace_setCpsr _ (put _)

/-- A read of the control coprocessor to r15 writes the condition flags, and the bit of the instruction set
is none of them. -/
theorem samePlace_readControl {r : Reg} (x : Word) : s.SamePlace
    (if r = .pc then s.setFlags ((s.cpsr &&& 0x0FFFFFFF) ||| (x &&& 0xF0000000)) else s.write r x) := by
  split
  · refine ⟨?_, rfl⟩
    have bits : (0x0FFFFFFF#32).getLsbD 5 = true ∧ (0xF0000000#32).getLsbD 5 = false := by decide
    show ((s.cpsr &&& 0x0FFFFFFF#32) ||| (x &&& 0xF0000000#32)).getLsbD 5 = s.cpsr.getLsbD 5
    rw [BitVec.getLsbD_or, BitVec.getLsbD_and, BitVec.getLsbD_and, bits.1, bits.2, Bool.and_true,
      Bool.and_false, Bool.or_false]
  · rename_i other
    rw [write, if_neg other]
    exact samePlace_setReg other x

/-! ## What writes r15

These are the functions that may end a block. Each is shown to leave an r15 that is aligned to the
instruction set in force behind it; where the set changes, it is changed before r15 is aligned.
-/

theorem onCourse_writePc (s : CpuState) (x : Word) : (s.write .pc x).OnCourse thumb true := by
  show (s.write .pc x).Aligns ((s.write .pc x).reg .pc)
  rw [write, if_pos rfl, reg_setReg, if_pos rfl]
  exact s.aligns_masked x

/-- A written register is r15 or leaves it alone. -/
theorem OnCourse.write (h : s.OnCourse thumb written) (r : Reg) (x : Word) :
    (s.write r x).OnCourse thumb (written || r == .pc) := by
  by_cases own : r = .pc
  · subst own
    rw [beq_self_eq_true, Bool.or_true]
    exact s.onCourse_writePc x
  · rw [beq_false_of_ne own, Bool.or_false, CpuState.write, if_neg own]
    exact (samePlace_setReg own x).onCourse h

theorem Within.write (h : s.Within thumb written) (r : Reg) (x : Word) :
    (s.write r x).Within thumb (written || r == .pc) := by
  refine ⟨?_, h.2.write r x⟩
  rw [← h.1, CpuState.write]
  split
  · rfl
  · rfl

theorem onCourse_loadPc (s : CpuState) (x : Word) : (s.loadPc x).OnCourse thumb true :=
  onCourse_writePc _ x

/-- A multiplication keeps to its course, and says that r15 was written if either of its results goes
there. -/
theorem onCourse_multiply (pc : Word) (op : MulOp) (set : Bool) (rd rn rs rm : Reg)
    (h : s.OnCourse thumb false) : (s.multiply pc op set rd rn rs rm).OnCourse thumb
      (rd == .pc || op.isLong && rn == .pc) := by
  unfold multiply
  cases op.isLong with
  | true =>
    have both (x y : Word) : ((s.write rn x).write rd y).OnCourse thumb (rd == .pc || rn == .pc) := by
      -- the low half is written first
      rw [Bool.or_comm]
      exact (h.write rn x).write rd y
    cases set with
    | true =>
      exact ((samePlace_setFlag _ (by decide)).trans (samePlace_setFlag _ (by decide))).onCourse
        (both _ _)
    | false => exact both _ _
  | false =>
    rw [Bool.false_and, Bool.or_false]
    cases set with
    | true => exact (samePlace_setNz _).onCourse (h.write rd _)
    | false => exact h.write rd _

/-- So does a multiplication of halves, of which only one writes two registers. -/
theorem onCourse_multiplyHalves (pc : Word) (op : HalfMulOp) (rd rn rs rm : Reg) (xTop yTop : Bool)
    (h : s.OnCourse thumb false) : (s.multiplyHalves pc op rd rn rs rm xTop yTop).OnCourse thumb
      (rd == .pc || op == .smlal && rn == .pc) := by
  cases op with
  | smla | smlaw =>
    rw [show (_ == HalfMulOp.smlal) = false from rfl, Bool.false_and, Bool.or_false]
    exact OnCourse.write (samePlace_clamp.onCourse h) rd _
  | smulw | smul =>
    rw [show (_ == HalfMulOp.smlal) = false from rfl, Bool.false_and, Bool.or_false]
    exact h.write rd _
  | smlal =>
    rw [beq_self_eq_true, Bool.true_and, Bool.or_comm]
    exact (h.write rn _).write rd _

theorem onCourse_saturate (pc : Word) (op : SatOp) (rd rn rm : Reg) (h : s.OnCourse thumb false) :
    (s.saturate pc op rd rn rm).OnCourse thumb (rd == .pc) :=
  OnCourse.write (samePlace_clamp.onCourse h) rd _

theorem onCourse_branch (s : CpuState) (link : Word) (links exchange : Bool) (target : Word) :
    (s.branch link links exchange target).OnCourse thumb true :=
  onCourse_writePc _ target

theorem onCourse_branchExchange (s : CpuState) (pc link : Word) (links : Bool) (rm : Reg) :
    (s.branchExchange pc link links rm).OnCourse thumb true :=
  onCourse_writePc _ _

theorem onCourse_linkSuffix (s : CpuState) (link offset : Word) (exchange : Bool) :
    (s.linkSuffix link offset exchange).OnCourse thumb true := by
  cases exchange with
  | true => exact onCourse_writePc _ _
  | false => exact onCourse_writePc _ _

end CpuState

/-! ## What is asked of the host

A hook is handed the whole processor and could send it anywhere. It may change neither the instruction
set nor the next instruction (`Bus.KeepsPlace`), and while r15 shows the next instruction it may not
change that one either (`Bus.KeepsShown`).
-/

/-- The hooks change neither the instruction set nor the next instruction. What the hook for exceptions
leaves of the two is overwritten, so nothing is asked of it. -/
structure Bus.KeepsPlace (bus : Bus σ) : Prop where
  thumb_statusChanged : ∀ host s, (bus.statusChanged host s).1.thumb = s.thumb
  next_statusChanged : ∀ host s, (bus.statusChanged host s).1.next = s.next
  thumb_softwareInterrupt : ∀ host s comment,
    (bus.softwareInterrupt host s comment).2.1.thumb = s.thumb

/-- Where r15 shows the next instruction, the hook for changes of the status leaves it so. While an
exception is entered the next instruction stands in r15 as well, and a software interrupt publishes it
from there: a hook that writes r15 at that moment says where the processor goes. -/
def Bus.KeepsShown (bus : Bus σ) : Prop :=
  ∀ host s, s.reg .pc = s.next → (bus.statusChanged host s).1.reg .pc = s.next

/-- Nothing a hook does leads the processor off its course. -/
structure Bus.KeepsCourse (bus : Bus σ) : Prop extends bus.KeepsPlace where
  shown : bus.KeepsShown

/-- The exception vectors are aligned to words. -/
def Bus.AlignsVectors (bus : Bus σ) : Prop := ∀ host cpu, (bus.vectorBase host cpu).toNat % 4 = 0

/-- **A handler is entered at an aligned address,** which r15 shows. -/
theorem CpuState.aligns_enterException {bus : Bus σ} (hooks : bus.KeepsCourse)
    (vectors : bus.AlignsVectors) (s : CpuState) (host : σ) (kind : Exception) (lr : Word) :
    let t := (s.enterException bus host kind lr).1
    t.Aligns t.next ∧ t.reg .pc = t.next := by
  have handler (host : σ) (cpu : Cpu) :
      (bus.vectorBase host cpu + kind.vector).toNat % 4 = 0 := by
    have base := vectors host cpu
    have offset : kind.vector.toNat % 4 = 0 := by cases kind <;> decide
    rw [BitVec.toNat_add]
    omega
  have shown (u : CpuState) (x : Word) : ({ u.setReg .pc x with next := x } : CpuState).reg .pc = x :=
    (u.reg_setReg .pc .pc x).trans (if_pos rfl)
  unfold enterException
  dsimp only
  -- the hook for the status is the last to touch the processor
  rw [hooks.next_statusChanged]
  exact ⟨aligns_of_word (handler _ _), hooks.shown _ _ (shown _ _)⟩

/-- Where the program counter is in the list and a value was loaded for each register, it is loaded. -/
theorem RegSet.lookup_pc_of_has {list : RegSet} (listed : list.has .pc = true) {values : List Word}
    (length : values.length = (RegSet.toList list).length) :
    ∃ x, ((RegSet.toList list).zip values).lookup .pc = some x := by
  have mem : Reg.pc ∈ RegSet.toList list := List.mem_filter.mpr ⟨by decide, listed⟩
  rw [← List.map_fst_zip (Nat.le_of_eq length.symm)] at mem
  obtain ⟨entry, hentry, own⟩ := List.mem_map.mp mem
  cases found : ((RegSet.toList list).zip values).lookup .pc with
  | some x => exact ⟨x, rfl⟩
  | none =>
    have apart := List.lookup_eq_none_iff.mp found entry hentry
    exact absurd own.symm (bne_iff_ne.mp apart)

/-! ## Actions and where they leave the processor

`Guest.Ensures` is a triple: from processors with one property an action leads to an answer and a
processor with another. It has a rule for each way of putting actions together, so that an operation
is followed line by line; `Action.ensures_execute` collects them, one case for each operation.
-/

namespace Guest

variable {α β : Type}

/-- Started where `P` holds of the processor, an action leaves one for which the answer promises
`Q`. -/
def Ensures (P : CpuState → Prop) (x : Guest σ α) (Q : α → CpuState → Prop) : Prop :=
  ∀ m : Machine σ, P m.cpu → Q (exec x m).1 (exec x m).2.cpu

/-- What holds where an action goes on, if it leaves for aligned addresses only. -/
def Arrives (P : CpuState → Prop) : Continuation → CpuState → Prop
  | .leave _, s => s.Aligns s.next
  | _, s => P s

/-- The same for what a block is made of. -/
def Follows (P : CpuState → Prop) : Option Exit → CpuState → Prop
  | some _, s => s.Aligns s.next
  | none, s => P s

namespace Ensures

variable {P R : CpuState → Prop} {Q : α → CpuState → Prop}

theorem pure {a : α} (h : ∀ s, P s → Q a s) : Ensures P (Pure.pure a : Guest σ α) Q :=
  fun m => h m.cpu

theorem bind {x : Guest σ β} {f : β → Guest σ α} {R : β → CpuState → Prop} (hx : Ensures P x R)
    (hf : ∀ b, Ensures (R b) (f b) Q) : Ensures P (x >>= f) Q :=
  fun m h => hf (exec x m).1 (exec x m).2 (hx m h)

theorem next {x : Guest σ β} {f : β → Guest σ α} (hx : Ensures P x fun _ => R)
    (hf : ∀ b, Ensures R (f b) Q) : Ensures P (x >>= f) Q :=
  bind hx hf

/-- What is seen of the processor has the property as well. -/
theorem look {f : CpuState → Guest σ α} (hf : ∀ s, P s → Ensures P (f s) Q) :
    Ensures P (cpu >>= f) Q :=
  fun m h => hf m.cpu h m h

theorem glance {f : CpuState → Guest σ α} (hf : ∀ s, Ensures P (f s) Q) : Ensures P (cpu >>= f) Q :=
  fun m h => hf m.cpu m h

theorem ite {c : Prop} [Decidable c] {x y : Guest σ α} (hx : c → Ensures P x Q)
    (hy : ¬c → Ensures P y Q) : Ensures P (if c then x else y) Q := by
  split
  · exact hx ‹_›
  · exact hy ‹_›

theorem optionally {c : Prop} [Decidable c] {x : Guest σ Unit} {f : Unit → Guest σ α}
    (hx : c → Ensures P x fun _ => P) (hf : Ensures P (f ()) Q) :
    Ensures P (if c then x >>= f else f ()) Q :=
  ite (fun h => next (hx h) fun _ => hf) fun _ => hf

theorem weaken {x : Guest σ α} (h : Ensures R x Q) (weaker : ∀ s, P s → R s) : Ensures P x Q :=
  fun m holds => h m (weaker m.cpu holds)

theorem modifyCpu {f : CpuState → CpuState} (h : ∀ s, P s → R (f s)) :
    Ensures P (Guest.modifyCpu f : Guest σ Unit) fun _ => R :=
  fun m => h m.cpu

theorem quiet {x : Guest σ α} (h : ∀ m, (exec x m).2.cpu = m.cpu) : Ensures P x fun _ => P := by
  intro m holds
  rw [h m]
  exact holds

theorem ask {x : Guest σ α} (asks : AsksHost x) : Ensures P x fun _ => P := by
  obtain ⟨f, hf⟩ := asks
  exact quiet fun m => by rw [hf]

theorem spend {cycles : Word} : Ensures P (Guest.spend cycles : Guest σ Unit) fun _ => P :=
  quiet fun _ => rfl

theorem spendWithMemory {cycles memory : Word} :
    Ensures P (Guest.spendWithMemory cycles memory : Guest σ Unit) fun _ => P :=
  quiet fun _ => rfl

theorem proceed : Ensures P (Pure.pure .next : Guest σ Continuation) (Arrives P) := pure fun _ h => h

end Ensures

variable {P : CpuState → Prop} {thumb written : Bool}

theorem ensures_write (r : Reg) (x : Word) : Ensures (CpuState.OnCourse thumb written)
    (write r x : Guest σ Unit) fun _ => CpuState.OnCourse thumb (written || r == .pc) :=
  .modifyCpu fun _ h => h.write r x

/-- A load of some words that goes through answers as many. -/
theorem length_loadWords {bus : Bus σ} : ∀ {count : Nat} {addr : Word} {access : Access}
    {m : Machine σ} {loaded : List Word × Word},
    (exec (loadWords bus count addr access) m).1 = some loaded → loaded.1.length = count := by
  intro count
  induction count with
  | zero =>
    rintro addr access m loaded ⟨⟩
    rfl
  | succ count ih =>
    intro addr access m loaded answer
    rw [loadWords, exec_bind] at answer
    cases first : (exec (load bus .word addr access) m).1 with
    | none =>
      rw [first] at answer
      cases answer
    | some x =>
      rw [first] at answer
      dsimp only at answer
      rw [exec_bind] at answer
      generalize (exec (load bus .word addr access) m).2 = m' at answer
      cases others : (exec (loadWords bus count (addr + 4) .sequential) m').1 with
      | none =>
        rw [others] at answer
        cases answer
      | some rest =>
        rw [others] at answer
        cases answer
        exact congrArg Nat.succ (ih others)

section Operations

variable {bus : Bus σ} (hooks : bus.KeepsCourse) (vectors : bus.AlignsVectors) (pc cost : Word)

/-- A data processing instruction stays on its course: where it writes r15 is aligned by what publishes it,
also if it restores another status. -/
theorem ensures_alu (op : AluOp) (s : Bool) (rd rn : Reg) (operand : Operand) :
    Ensures (CpuState.OnCourse thumb false) (alu bus pc op s rd rn operand)
      (Arrives (CpuState.OnCourse thumb (op.writes && rd == .pc))) := by
  rw [alu_eq]
  refine .look fun t h => .next (R := CpuState.OnCourse thumb false) (.modifyCpu fun _ _ => ?_) fun _ => ?_
  · exact (t.samePlace_process pc op _ rn operand).onCourse h
  · refine .ite (fun writes => .ite (fun restores => ?_) fun _ => ?_) fun spared => ?_
    · -- whatever status is restored, r15 is written after it
      obtain rfl : rd = .pc := by
        simp only [Bool.and_eq_true, beq_iff_eq] at restores
        exact restores.1.1.1
      rw [writes]
      refine .next (R := fun _ => True) (.modifyCpu fun _ _ => trivial) fun _ => ?_
      refine .next (R := fun _ => True) (fun _ _ => trivial) fun _ => ?_
      exact .next (.modifyCpu fun u _ => u.onCourse_writePc _) fun _ => .proceed
    · rw [writes, Bool.true_and]
      exact .next (ensures_write rd _) fun _ => .proceed
    · rw [Bool.eq_false_iff.mpr spared]
      exact .proceed

/-- A transfer with the control coprocessor writes no program counter, whatever its register. -/
theorem ensures_coproc (load : Bool) (cp : BitVec 4) (r : ControlRegister) (rd : Reg) :
    Ensures (CpuState.OnCourse thumb false) (coproc bus pc load cp r rd)
      (Arrives (CpuState.OnCourse thumb false)) := by
  have read : Ensures (CpuState.OnCourse thumb false) (controlRead bus r rd)
      fun _ => CpuState.OnCourse thumb false :=
    .next (.quiet fun _ => rfl) fun x =>
      .modifyCpu fun s h => (s.samePlace_readControl x).onCourse h
  refine .ite (fun _ => .ite (fun _ => .next read fun _ => .proceed) fun _ => ?_) fun _ => .proceed
  exact .next (.quiet fun _ => rfl) fun _ => .proceed

theorem ensures_finishPc (restore : Bool) (x : Word) :
    Ensures P (finishPc bus restore x) fun _ => CpuState.OnCourse thumb true := by
  refine .ite (fun _ => ?_) fun _ => .modifyCpu fun s _ => s.onCourse_loadPc x
  refine .next (R := fun _ => True) (.modifyCpu fun _ _ => trivial) fun _ => ?_
  refine .next (R := fun _ => True) (fun _ _ => trivial) fun _ => ?_
  exact .modifyCpu fun s _ => s.onCourse_writePc x

include hooks

/-- A write of a status register changes neither the instruction set nor the next instruction, and the hook
that is told of it does not either. -/
theorem ensures_writeStatus (saved : Bool) (fields : BitVec 4) (source : StatusSource) :
    Ensures (CpuState.OnCourse thumb false) (writeStatus bus pc saved fields source)
      (Arrives (CpuState.OnCourse thumb false)) := by
  refine .glance fun s => .ite (fun _ => .next (.modifyCpu fun t h => ?_) fun _ => .proceed) fun _ => ?_
  · exact (t.samePlace_writeSaved _ _).onCourse h
  · refine .next (.modifyCpu fun t h => (t.samePlace_writeStatus _ _).onCourse h) fun _ => ?_
    refine .next (R := CpuState.OnCourse thumb false) (fun m h => ?_) fun _ => .proceed
    exact (hooks.thumb_statusChanged m.host m.cpu).trans h

include vectors

theorem ensures_enter (kind : Exception) (lr : Word) :
    Ensures P (enter bus kind lr) fun _ s => s.Aligns s.next ∧ s.reg .pc = s.next :=
  fun m _ => m.cpu.aligns_enterException hooks vectors m.host kind lr

/-- An exception leaves the block, whatever was written before. -/
theorem ensures_dataAbort (Q : CpuState → Prop) : Ensures P (dataAbort bus pc) (Arrives Q) :=
  .glance fun _ => .next (ensures_enter hooks vectors .dataAbort _) fun _ => .pure fun _ h => h.1

theorem ensures_undefined (Q : CpuState → Prop) : Ensures P (undefined bus pc cost) (Arrives Q) :=
  .next .spend fun _ => .glance fun _ => .next (ensures_enter hooks vectors .undefined _) fun _ =>
    .pure fun _ h => h.1

/-- A load or store of one value. It goes on somewhere else only if r15 is loaded; an access that fails
goes to the handler. -/
theorem ensures_transfer (kind : TransferKind) (rd rn : Reg) (offset : Offset) (index : IndexMode)
    (up : Bool) :
    Ensures (CpuState.OnCourse thumb false) (transfer bus pc cost kind rd rn offset index up)
      (Arrives (CpuState.OnCourse thumb
        (kind.isLoad && (rd == .pc || kind.isDouble && rd + 1 == .pc)))) := by
  -- the base is only written back where it is not r15
  have moveBase (moved : Word) : Ensures (CpuState.OnCourse thumb false)
      (if index ≠ .pre ∧ rn ≠ .pc then write rn moved else pure () : Guest σ Unit)
      fun _ => CpuState.OnCourse thumb false := by
    refine .ite (fun written => ?_) fun _ => .pure fun _ h => h
    have ensured : Ensures (CpuState.OnCourse thumb false) (write rn moved : Guest σ Unit)
        fun _ => CpuState.OnCourse thumb (false || rn == .pc) := ensures_write rn moved
    rwa [beq_false_of_ne written.2, Bool.or_false] at ensured
  have finish {Q : CpuState → Prop} (wait : Wait) : Ensures Q (do
      spendWithMemory cost (wait.setWidth 32)
      return .next : Guest σ Continuation) (Arrives Q) := .next .spendWithMemory fun _ => .proceed
  refine .glance fun s => .ite (fun stores => .next (.ask .storeOne) fun wait? => ?_) fun loads =>
    .ite (fun double => .next (.ask .loadPair) fun pair? => ?_) fun single =>
      .next (.ask .loadOne) fun x? => ?_
  · rw [Bool.not_eq_true'] at stores
    rw [stores, Bool.false_and]
    cases wait? with
    | none => exact ensures_dataAbort hooks vectors pc _
    | some wait => exact .next (moveBase _) fun _ => finish wait
  · cases pair? with
    | none => exact ensures_dataAbort hooks vectors pc _
    | some pair =>
      have isLoad : kind.isLoad = true := by simpa using loads
      rw [isLoad, double, Bool.true_and, Bool.true_and]
      exact .next (moveBase _) fun _ => .next (ensures_write rd _) fun _ =>
        .next (ensures_write (rd + 1) _) fun _ => finish pair.2.2
  · cases x? with
    | none => exact ensures_dataAbort hooks vectors pc _
    | some x =>
      have isLoad : kind.isLoad = true := by simpa using loads
      rw [isLoad, Bool.eq_false_iff.mpr single, Bool.false_and, Bool.or_false, Bool.true_and]
      refine .next (moveBase _) fun _ => .ite (fun own => ?_) fun _ => ?_
      · subst own
        exact .next (.modifyCpu fun t _ => t.onCourse_loadPc x.1) fun _ => finish x.2
      · exact .next (ensures_write rd _) fun _ => finish x.2

/-- A swap goes on somewhere else only if it loads r15. -/
theorem ensures_swap (byte : Bool) (rd rn rm : Reg) :
    Ensures (CpuState.OnCourse thumb false) (swap bus pc cost byte rd rn rm)
      (Arrives (CpuState.OnCourse thumb (rd == .pc))) := by
  refine .glance fun s => .next (.ask .loadOne) fun old? => ?_
  cases old? with
  | none => exact ensures_dataAbort hooks vectors pc _
  | some old =>
    refine .next (.ask .storeOne) fun wait? => ?_
    cases wait? with
    | none => exact ensures_dataAbort hooks vectors pc _
    | some wait =>
      exact .next (ensures_write rd _) fun _ => .next .spendWithMemory fun _ => .proceed

section BlockTransfer

variable {moveBase leaveBank : Guest σ Unit}
  (move : Ensures (CpuState.Within thumb false) moveBase fun _ => CpuState.Within thumb written)
  (leave : ∀ w, Ensures (CpuState.Within thumb w) leaveBank fun _ => CpuState.Within thumb w)

include move leave

/-- The loading half of a block transfer, around which the bank of the user may be borrowed. -/
theorem ensures_loadBlock (lowest : Word) (list : RegSet) (user : Bool) :
    Ensures (CpuState.Within thumb false)
      (loadBlock bus pc cost lowest list user moveBase leaveBank)
      (Arrives (CpuState.OnCourse thumb (list.has .pc || written))) := by
  have loads : Ensures (CpuState.Within thumb false)
      (loadWords bus (RegSet.toList list).length lowest .nonSequential) fun loaded? s =>
        s.Within thumb false ∧
          ∀ loaded, loaded? = some loaded → loaded.1.length = (RegSet.toList list).length :=
    fun m h => ⟨Ensures.ask .loadWords m h, fun _ => length_loadWords⟩
  refine .bind loads fun loaded? => ?_
  cases loaded? with
  | none =>
    exact .next ((leave false).weaken fun _ h => h.1) fun _ =>
      ensures_dataAbort hooks vectors pc _
  | some loaded =>
    -- as many words were loaded as there are registers, so r15 has one of them if it is in the list
    intro m h
    have length := h.2 loaded rfl
    refine Ensures.next move (fun _ => .next (.modifyCpu fun s h => ?_) fun _ =>
      .next (leave written) fun _ => ?_) m h.1
    · exact (s.samePlace_setLoaded _).within h
    · cases listed : list.has .pc with
      | false =>
        rw [RegSet.lookup_pc listed, Bool.false_or]
        exact .next (.weaken .spendWithMemory fun _ h => h.2) fun _ => .proceed
      | true =>
        obtain ⟨x, found⟩ := RegSet.lookup_pc_of_has listed length
        rw [found, Bool.true_or]
        exact .next (ensures_finishPc user x) fun _ => .next .spendWithMemory fun _ => .proceed

/-- The storing half. Only writing back the base can write r15. -/
theorem ensures_storeBlock (lowest : Word) (values : List Word) :
    Ensures (CpuState.Within thumb false)
      (storeBlock bus pc cost lowest values moveBase leaveBank)
      (Arrives (CpuState.OnCourse thumb written)) := by
  refine .next (.ask .storeWords) fun wait? => ?_
  cases wait? with
  | none => exact .next (leave false) fun _ => ensures_dataAbort hooks vectors pc _
  | some wait =>
    exact .next (leave false) fun _ => .next move fun _ =>
      .next (.weaken .spendWithMemory fun _ h => h.2) fun _ => .proceed

end BlockTransfer

/-- A block transfer goes on somewhere else if it loads r15 or writes its base back to it. -/
theorem ensures_blockTransfer (load : Bool) (mode : BlockMode) (writeback user : Bool) (rn : Reg)
    (list : RegSet) :
    Ensures (CpuState.OnCourse thumb false)
      (blockTransfer bus pc cost load mode writeback user rn list)
      (Arrives (CpuState.OnCourse thumb (load && list.has .pc || writeback && rn == .pc))) := by
  refine .look fun before set => ?_
  have move (moved : Word) : Ensures (CpuState.Within thumb false)
      (if writeback then write rn moved else pure () : Guest σ Unit)
      fun _ => CpuState.Within thumb (writeback && rn == .pc) := by
    cases writeback with
    | false => exact .pure fun _ h => h
    | true => exact .modifyCpu (f := (·.write rn moved)) fun _ h => h.write rn moved
  have leave (w : Bool) : Ensures (CpuState.Within thumb w)
      (if user && !(load && list.has .pc) then modifyCpu (·.setCpsr before.cpsr) else pure () :
        Guest σ Unit) fun _ => CpuState.Within thumb w := by
    refine .ite (fun _ => .modifyCpu fun s h => ?_) fun _ => .pure fun _ h => h
    exact (CpuState.samePlace_setCpsr _ (Eq.trans set h.1.symm)).within h
  -- the bank of the user is borrowed and given back within the instruction set of the block
  refine .weaken (R := CpuState.Within thumb false) ?_ fun _ h => ⟨h, h⟩
  refine .optionally (fun _ => .modifyCpu fun s h => (s.samePlace_setMode .system).within h) ?_
  refine .ite (fun loads => ?_) fun stores => .glance fun _ => ?_
  · have written : (load && list.has .pc || writeback && rn == .pc) =
        (list.has .pc || writeback && rn == .pc) := by rw [loads, Bool.true_and]
    rw [written]
    exact ensures_loadBlock hooks vectors pc cost (move _) leave _ list user
  · have written : (load && list.has .pc || writeback && rn == .pc) = (writeback && rn == .pc) := by
      rw [Bool.eq_false_iff.mpr stores, Bool.false_and, Bool.false_or]
    rw [written]
    exact ensures_storeBlock hooks vectors pc cost (move _) leave _ _

/-- A software interrupt that the host leaves to the guest is left for the handler; after any other the
block goes on. -/
theorem ensures_interrupt (comment : Word) :
    Ensures (CpuState.OnCourse thumb false) (interrupt bus pc cost comment)
      (Follows (CpuState.OnCourse thumb false)) := by
  refine .next (R := CpuState.OnCourse thumb false) (fun m h => ?_) fun handled => ?_
  · exact (hooks.thumb_softwareInterrupt m.host m.cpu comment).trans h
  · cases handled with
    | some cycles => exact .next .spend fun _ => .next (.quiet fun _ => rfl) fun _ => .pure fun _ h => h
    | none =>
      refine .next .spend fun _ => .glance fun _ =>
        .next (ensures_enter hooks vectors .softwareInterrupt _) fun _ => .next (.quiet fun _ => rfl)
          fun _ => .next (R := fun s => s.Aligns s.next) (.modifyCpu fun s h => ?_) fun _ =>
            .pure fun _ h => h
      show s.Aligns (s.reg .pc)
      rw [h.2]
      exact h.1

end Operations

end Guest

open Guest (Ensures Arrives Follows)

theorem RegSet.has_zero (r : Reg) : RegSet.has 0 r = false := BitVec.getLsbD_zero

theorem RegSet.has_singleIf (b : Bool) (r r' : Reg) :
    (RegSet.singleIf b r).has r' = (b && r == r') := by
  cases b with
  | false => exact RegSet.has_zero r'
  | true => rw [RegSet.singleIf, if_pos rfl, RegSet.has_single, Bool.true_and]

section Instructions

variable {bus : Bus σ} (hooks : bus.KeepsCourse) (vectors : bus.AlignsVectors) {thumb : Bool}

include hooks vectors

/-- **An instruction stays in its instruction set, or lands where an instruction can stand.** Which of
the two, is what the operation says of the registers it writes. -/
theorem Action.ensures_execute (a : Action) (pc : Word)
    (ordinary : ∀ comment, a.op ≠ .softwareInterrupt comment) :
    Ensures (CpuState.OnCourse thumb false) (a.execute bus pc)
      (Arrives (CpuState.OnCourse thumb (a.op.registersWritten.has .pc))) := by
  have onCpu {w : Bool} {f : CpuState → CpuState}
      (h : ∀ s : CpuState, s.OnCourse thumb false → (f s).OnCourse thumb w) :
      Ensures (CpuState.OnCourse thumb false) (do
        Guest.modifyCpu f
        Guest.spend a.cost
        return .next : Guest σ Continuation) (Arrives (CpuState.OnCourse thumb w)) :=
    .next (.modifyCpu h) fun _ => .next .spend fun _ => .proceed
  unfold Action.execute
  -- one case for each operation; in each, first what the list of written registers says about the counter,
  -- then the rule for the function that the operation calls
  cases hop : a.op with
  | alu op s rd rn operand =>
    rw [Op.registersWritten, RegSet.has_singleIf]
    exact .next .spend fun _ => Guest.ensures_alu pc op s rd rn operand
  | mul op s rd rn rs rm =>
    rw [Op.registersWritten, RegSet.has_or, RegSet.has_single, RegSet.has_singleIf]
    exact .glance fun _ => .next .spend fun _ => onCpu fun t h => t.onCourse_multiply pc op s rd rn rs rm h
  | halfMul op rd rn rs rm xTop yTop =>
    rw [Op.registersWritten, RegSet.has_or, RegSet.has_single, RegSet.has_singleIf]
    exact onCpu fun t h => t.onCourse_multiplyHalves pc op rd rn rs rm xTop yTop h
  | clz rd rm =>
    rw [Op.registersWritten, RegSet.has_single]
    exact onCpu fun _ h => h.write rd _
  | sat op rd rn rm =>
    rw [Op.registersWritten, RegSet.has_single]
    exact onCpu fun t h => t.onCourse_saturate pc op rd rn rm h
  | readStatus rd saved =>
    rw [Op.registersWritten, RegSet.has_single]
    exact .next .spend fun _ => .next (.modifyCpu fun _ h => h.write rd _) fun _ => .proceed
  | writeStatus saved fields source =>
    rw [Op.registersWritten, RegSet.has_zero]
    exact .next .spend fun _ => Guest.ensures_writeStatus hooks pc saved fields source
  -- the base is written back only where it is not the counter, so that the transferred register alone
  -- decides
  | transfer kind rd rn offset index up =>
    have own : (index != .pre && rn != .pc && rn == .pc) = false := by
      rw [Bool.and_assoc, show (rn != .pc && rn == .pc) = false from Bool.not_and_self _, Bool.and_false]
    rw [Op.registersWritten, RegSet.has_or, RegSet.has_or, RegSet.has_singleIf, RegSet.has_singleIf,
      RegSet.has_singleIf, own, Bool.or_false, Bool.and_assoc, ← Bool.and_or_distrib_left]
    exact Guest.ensures_transfer hooks vectors pc a.cost kind rd rn offset index up
  | block load pre up writeback user rn list cycles pcCycles =>
    have listed : RegSet.has (if load then list else 0) .pc = (load && RegSet.has list .pc) := by
      cases load with
      | false => exact RegSet.has_zero .pc
      | true => rfl
    rw [Op.registersWritten, RegSet.has_or, RegSet.has_singleIf, listed]
    exact Guest.ensures_blockTransfer hooks vectors pc a.cost load ⟨pre, up⟩ writeback user rn list
  | swap byte rd rn rm =>
    rw [Op.registersWritten, RegSet.has_single]
    exact Guest.ensures_swap hooks vectors pc a.cost byte rd rn rm
  | branch links exchange target =>
    rw [Op.registersWritten, RegSet.has_or, RegSet.has_single, beq_self_eq_true, Bool.true_or]
    exact onCpu fun t _ => t.onCourse_branch a.link links exchange target
  | branchExchange links rm =>
    rw [Op.registersWritten, RegSet.has_or, RegSet.has_single, beq_self_eq_true, Bool.true_or]
    exact onCpu fun t _ => t.onCourse_branchExchange pc a.link links rm
  | linkPrefix value =>
    rw [Op.registersWritten, RegSet.has_single]
    exact onCpu fun _ h => h.write .lr value
  | linkSuffix offset exchange =>
    rw [Op.registersWritten, RegSet.has_or, RegSet.has_single, beq_self_eq_true, Bool.true_or]
    exact onCpu fun t _ => t.onCourse_linkSuffix a.link offset exchange
  | coproc load cp op1 cn cm op2 rd =>
    have own : (load && rd != .pc && rd == .pc) = false := by
      rw [Bool.and_assoc, show (rd != .pc && rd == .pc) = false from Bool.not_and_self _, Bool.and_false]
    rw [Op.registersWritten, RegSet.has_singleIf, own]
    exact .next .spend fun _ => Guest.ensures_coproc pc load cp _ rd
  | softwareInterrupt comment => exact absurd hop (ordinary comment)
  | breakpoint =>
    rw [Op.registersWritten, RegSet.has_zero]
    exact .glance fun _ => .next (.quiet fun _ => rfl) fun _ => .next .spend fun _ => .proceed
  | undefined => exact Guest.ensures_undefined hooks vectors pc a.cost _
  | nop cycles =>
    rw [Op.registersWritten, RegSet.has_zero]
    exact onCpu fun _ h => h

end Instructions

end ArmBlocks
