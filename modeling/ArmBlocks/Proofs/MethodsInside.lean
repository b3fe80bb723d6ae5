import ArmBlocks.Proofs.CheckedMethods
import ArmBlocks.Proofs.DecodedOps
import ArmBlocks.Proofs.Tracking

/-!
# Methods stay inside

**Compile and execute whatever was decoded, and no access is outside** (`decoded_stays_inside`): there is
a method in the tables, and on every machine and every host it answers, and does what the instruction is
defined to do. The same holds of a run once its flags are removed, which is what is compiled.

Each method is put beside the action that it stands for, line by line: first what only concerns the
processor, then what accesses memory. Registers are never numbered past fifteen and banks never past
five. The one number that could be is the second of a pair at r15. What keeps it inside is that the
decoders make nothing of a pair at an odd register, and only there are the operations required to be
consistent, besides at a branch that changes the instruction set without being a call, for which there
is no method.
-/

set_option autoImplicit false

namespace ArmBlocks

open Guest (exec)
open Method

variable {σ : Type}

/-! ## Methods on one processor

One lemma for each function: given the numbers of registers it answers, and as the function on
registers does.
-/

/-- The numbers of a list are those of its registers, in the same order. -/
theorem RegSet.numbers_eq (list : RegSet) : numbers list = (toList list).map BitVec.toNat := by
  have same : (List.range 16).filter (Bits.test list) =
      (List.range 16).filter (list.has ∘ BitVec.ofNat 4) := by
    refine List.filter_congr fun n hn => ?_
    rw [Function.comp, has, BitVec.toNat_ofNat, Nat.mod_eq_of_lt (List.mem_range.mp hn)]
  rw [numbers, toList, same, List.filter_map, List.map_map]
  refine (List.map_id _).symm.trans (List.map_congr_left fun n hn => ?_)
  have inside := List.mem_range.mp (List.mem_of_mem_filter hn)
  exact (Nat.mod_eq_of_lt inside).symm

section Processor

variable (s : CpuState) (pc : Word)

theorem OperandKind.value?_eq (d : AluRecord) (operand : Operand) :
    operand.kind.value? (d.withOperand operand) pc s = some (operand.value s pc) := by
  cases operand <;> simp [Operand.kind, OperandKind.value?, AluRecord.withOperand, Operand.value]

theorem Method.AluRecord.cycles_withOperand (d : AluRecord) (operand : Operand) :
    (d.withOperand operand).cycles = d.cycles := by
  cases operand <;> rfl

theorem Method.TransferRecord.cycles_withOffset (d : TransferRecord) (offset : Offset) :
    (d.withOffset offset).cycles = d.cycles := by
  cases offset <;> rfl

theorem OperandKind.partner?_eq (d : AluRecord) {rn : Reg} (own : d.rn = rn.toNat)
    (operand : Operand) :
    operand.kind.partner? (d.withOperand operand) pc s = some (operand.partner s pc rn) := by
  cases operand <;>
    simp [Operand.kind, OperandKind.partner?, AluRecord.withOperand, Operand.partner,
      Operand.isShiftedBy, own]

/-- The record of an offset gives the offset. -/
theorem Method.TransferRecord.offset?_eq (d : TransferRecord) (offset : Offset) :
    (if offset.isRegister then (d.withOffset offset).offset? pc s else some (d.withOffset offset).imm) =
      some (offset.value s pc) := by
  cases offset with
  | imm => rfl
  | shifted rm kind amount =>
    cases kind <;>
      simp [Offset.isRegister, TransferRecord.offset?, TransferRecord.withOffset, ShiftKind.number,
        Offset.value, ShiftKind.apply]
  | rrx rm =>
    simp [Offset.isRegister, TransferRecord.offset?, TransferRecord.withOffset, Offset.value]

namespace CpuState

theorem multiply?_eq (op : MulOp) (set : Bool) (rd rn rs rm : Reg) (cycles : Word) :
    s.multiply? pc op set ⟨rd.toNat, rn.toNat, rs.toNat, rm.toNat, false, false, cycles⟩ =
      some (s.multiply pc op set rd rn rs rm) := by
  unfold multiply? multiply
  simp only [read?_toNat, write?_toNat, Option.bind_eq_bind, Option.bind_some, Option.pure_def]
  split <;> rfl

theorem multiplyHalves?_eq (op : HalfMulOp) (rd rn rs rm : Reg) (xTop yTop : Bool) (cycles : Word) :
    s.multiplyHalves? pc op ⟨rd.toNat, rn.toNat, rs.toNat, rm.toNat, xTop, yTop, cycles⟩ =
      some (s.multiplyHalves pc op rd rn rs rm xTop yTop) := by
  unfold multiplyHalves? multiplyHalves
  simp only [read?_toNat, write?_toNat, Option.bind_eq_bind, Option.bind_some, accumulate?]
  cases op <;> rfl

theorem countZeros?_eq (rd rm : Reg) (cycles : Word) :
    s.countZeros? pc ⟨rd.toNat, 0, 0, rm.toNat, false, false, cycles⟩ =
      some (s.countZeros pc rd rm) := by
  simp only [countZeros?, read?_toNat, write?_toNat, Option.bind_eq_bind, Option.bind_some]
  rfl

theorem saturate?_eq (op : SatOp) (rd rn rm : Reg) (cycles : Word) :
    s.saturate? pc op ⟨rd.toNat, rn.toNat, 0, rm.toNat, false, false, cycles⟩ =
      some (s.saturate pc op rd rn rm) := by
  simp only [saturate?, read?_toNat, write?_toNat, Option.bind_eq_bind, Option.bind_some]
  rfl

theorem readStatus?_eq (saved : Bool) (rd : Reg) :
    s.readStatus? saved ⟨rd.toNat, 0, 0, 0⟩ = some (s.write rd (s.status saved)) := by
  simp only [readStatus?, write?_toNat, saved?_eq, status]
  split <;> rfl

theorem writeSaved?_eq (x mask : Word) : s.writeSaved? x mask = some (s.writeSaved x mask) := by
  simp only [writeSaved?, writeSaved, saved?_eq, setSaved?_eq]
  split <;> rfl

theorem writeStatus?_eq (x mask : Word) : s.writeStatus? x mask = some (s.writeStatus x mask) := by
  simp only [writeStatus?, writeStatus, setCpsr?_eq]
  split <;> rfl

/-- Loading by numbers is loading the registers. -/
theorem setLoaded?_eq : ∀ (s : CpuState) (loaded : List (Reg × Word)),
    s.setLoaded? (loaded.map fun p => (p.1.toNat, p.2)) = some (s.setLoaded loaded)
  | s, [] => rfl
  | s, (r, x) :: rest => by
    have next : s.setLoaded ((r, x) :: rest) =
        (if r = .pc then s else s.setReg r x).setLoaded rest := rfl
    rw [List.map_cons, setLoaded?, setReg?_toNat, next]
    simp only [eq_pc_iff]
    split
    · exact setLoaded?_eq s rest
    · exact setLoaded?_eq (s.setReg r x) rest

/-- A branch from its record is the branch. One that goes to the other instruction set always links. -/
theorem branch?_eq {link exchange : Bool} (calls : exchange = true → link = true) (d : BranchRecord) :
    s.branch? (link || exchange) exchange d = some (s.branch d.link link exchange d.target) := by
  simp only [branch?, branch, linkIf, write?_lr, write?_pc]
  cases link with
  | true => rfl
  | false =>
    cases exchange with
    | true => exact Bool.noConfusion (calls rfl)
    | false => rfl

theorem branchExchange?_eq (link : Bool) (rm : Reg) (target back cycles : Word) :
    s.branchExchange? pc link ⟨target, rm.toNat, back, cycles⟩ =
      some (s.branchExchange pc back link rm) := by
  simp only [branchExchange?, branchExchange, linkIf, write?_lr, write?_pc, read?_toNat]
  cases link <;> rfl

theorem linkSuffix?_eq (exchange : Bool) (d : BranchRecord) :
    s.linkSuffix? exchange d = some (s.linkSuffix d.link d.target exchange) := by
  have lr : s.reg? 14 = some (s.reg .lr) := s.reg?_toNat .lr
  simp only [linkSuffix?, linkSuffix, write?_lr, write?_pc, lr]
  cases exchange <;> rfl

end CpuState

end Processor

/-! ## Methods on a machine

One lemma for each method, by the rules for putting actions together. The order of reads and writes is
the same on both sides, so the rules apply line by line.
-/

namespace Checked

theorem does_spending {cycles : Word} {f : CpuState → Option CpuState} {g : CpuState → CpuState}
    (h : ∀ s, f s = some (g s)) :
    Does (spending cycles f) (Guest.modifyCpu g >>= fun _ => Guest.spend cycles >>= fun _ =>
      pure .next : Guest σ Continuation) :=
  .bind (.onCpu h) fun _ => .bind .lift fun _ => .pure

variable (bus : Bus σ) (pc : Word)

/-- The data processing method does what the instruction does. All of its numbers are those of registers,
so no access is out of range. -/
theorem does_dataProcessing (op : AluOp) (set : Bool) (rd rn : Reg) (operand : Operand)
    {d : AluRecord} (hrd : d.rd = rd.toNat) (hrn : d.rn = rn.toNat) :
    Does (dataProcessing bus pc op operand.kind set (rd == .pc && op.writes) (d.withOperand operand))
      (Guest.spend (d.withOperand operand).cycles >>= fun _ =>
        Guest.alu bus pc op set rd rn operand) := by
  refine .bind .lift fun _ => ?_
  rw [Guest.alu_eq]
  refine .look fun s => .ask (OperandKind.value?_eq s pc d operand)
    (.ask (OperandKind.partner?_eq s pc d hrn operand) (.looks (.bind (Does.lift.from s) fun _ => ?_)))
  have own : (d.withOperand operand).rd = rd.toNat := by
    cases operand <;> exact hrd
  unfold Guest.finishAlu
  rw [own]
  cases op.writes with
  | false => exact .pure
  | true =>
    -- a result for the counter goes by the way of a branch, which is a method of its own
    by_cases toPc : rd = .pc
    · subst toPc
      simp only [beq_self_eq_true, Bool.true_and, if_true]
      refine .ite ?_ (.bind .writePc fun _ => .pure)
      exact .bind (.onCpu CpuState.restoreStatus?_eq) fun _ => .bind .lift fun _ =>
        .bind .writePc fun _ => .pure
    · have other : (rd == Reg.pc) = false := beq_eq_false_iff_ne.mpr toPc
      rw [other]
      exact .bind .write fun _ => .pure

/-- The method of a multiplication does what that does; the table of its cycles has one for each. -/
theorem does_multiply (op : MulOp) (set : Bool) (rd rn rs rm : Reg) (cycles : Word) :
    Does (multiply pc op set ⟨rd.toNat, rn.toNat, rs.toNat, rm.toNat, false, false, cycles⟩)
      (Guest.cpu >>= fun s =>
        Guest.spend (BitVec.ofNat 32 (Multiplier.cycles (s.read pc rs) op.isSigned)) >>= fun _ =>
          Guest.modifyCpu (·.multiply pc op set rd rn rs rm) >>= fun _ =>
            Guest.spend (BitVec.ofNat 32 op.cost) >>= fun _ => pure .next : Guest σ Continuation) := by
  have listed : mulCycles[op.number]? = some op.cost := by cases op <;> rfl
  exact .look fun s => .read (.ask listed (.bind (Does.lift.from s) fun _ =>
    does_spending fun s => s.multiply?_eq pc op set rd rn rs rm cycles))

theorem does_readStatus (rd : Reg) (saved : Bool) :
    Does (readStatus saved ⟨rd.toNat, 0, 0, 0⟩)
      (Guest.spend 1 >>= fun _ => Guest.readStatus rd saved : Guest σ Continuation) :=
  .bind .lift fun _ => .bind (.onCpu fun s => s.readStatus?_eq saved rd) fun _ => .pure

/-- The method that writes a status register does what the instruction does, from whichever source. -/
theorem does_writeStatus (saved : Bool) (fields : BitVec 4) (source : StatusSource) {d : StatusRecord}
    (value : ∀ s, (if source.isImm then some d.imm else CpuState.read? s pc d.rm) =
      some (source.value s pc)) (mask : d.mask = fieldMask fields) :
    Does (writeStatus bus pc saved source.isImm d)
      (Guest.spend 1 >>= fun _ => Guest.writeStatus bus pc saved fields source) := by
  refine .bind .lift fun _ => .look fun s => .ask (value s) ?_
  rw [mask]
  refine .ite ((Does.bind (.onCpu fun s => s.writeSaved?_eq _ _) fun _ => .pure).from s) ?_
  exact (Does.bind (.onCpu fun s => s.writeStatus?_eq _ _) fun _ => .bind .lift fun _ => .pure).from s

section Transfers

open Guest (AsksHost)

variable {s : CpuState}

/-- The second register of a pair is only looked at where a pair is stored. -/
theorem does_storeOne (kind : TransferKind) (addr low : Word) {high : Word} {second : Nat}
    (pair : kind.isDouble = true → s.read? pc second = some high) :
    DoesFrom s (storeOne bus pc kind addr low second) (Guest.storeOne bus kind addr low high) := by
  cases kind with
  | storeDouble =>
    refine .access AsksHost.store fun first => ?_
    cases first with
    | none => exact Does.pure.from s
    | some first =>
      refine .ask (pair rfl) (.access AsksHost.store fun wait => ?_)
      cases wait with
      | none => exact Does.pure.from s
      | some wait => exact Does.pure.from s
  | _ => exact Does.lift.from s

/-- The method of a load or store does what that does. Only for a pair is a number made from another one.
-/
theorem does_transfer (kind : TransferKind) (rd rn : Reg) (offset : Offset) (index : IndexMode)
    (up : Bool) (even : kind.isDouble = true → rd.toNat % 2 = 0) {d : TransferRecord}
    (hrd : d.rd = rd.toNat) (hrn : d.rn = rn.toNat) :
    Does (transfer bus pc kind offset.isRegister index up (d.withOffset offset))
      (Guest.transfer bus pc (d.withOffset offset).cycles kind rd rn offset index up) := by
  have first : (d.withOffset offset).rd = rd.toNat := by cases offset <;> exact hrd
  have base : (d.withOffset offset).rn = rn.toNat := by cases offset <;> exact hrn
  -- counting on from an even register as a number is counting on from the register
  have second : kind.isDouble = true → rd.toNat + 1 = (rd + 1).toNat := fun pair => by
    have own := even pair
    have range := rd.isLt
    rw [BitVec.toNat_add]
    have one : (1 : Reg).toNat = 1 := rfl
    omega
  refine .look fun s => ?_
  unfold transfer
  rw [base, first]
  refine .read (.ask (Method.TransferRecord.offset?_eq s pc d offset) ?_)
  simp only [ne_eq, CpuState.eq_pc_iff]
  have moves (moved : Word) : Does
      (if ¬index = .pre ∧ ¬rn = .pc then write rn.toNat moved else pure () : Checked σ Unit)
      (if ¬index = .pre ∧ ¬rn = .pc then Guest.write rn moved else pure ()) := .ite .write .pure
  by_cases stores : (!kind.isLoad) = true
  · rw [if_pos stores, if_pos stores]
    refine .readLate (.bind (does_storeOne bus pc kind _ _ fun pair => ?_) fun wait => ?_)
    · rw [second pair, CpuState.read?_toNat]
    · cases wait with
      | none => exact .dataAbort
      | some wait => exact .bind (moves _) fun _ => .bind .lift fun _ => .pure
  · rw [if_neg stores, if_neg stores]
    by_cases pair : kind.isDouble = true
    · rw [if_pos pair, if_pos pair, second pair]
      refine .bind (Does.lift.from s) fun loaded => ?_
      cases loaded with
      | none => exact .dataAbort
      | some loaded =>
        exact .bind (moves _) fun _ => .bind .write fun _ => .bind .write fun _ =>
          .bind .lift fun _ => .pure
    · rw [if_neg pair, if_neg pair]
      refine .bind (Does.lift.from s) fun loaded => ?_
      cases loaded with
      | none => exact .dataAbort
      | some loaded =>
        refine .bind (moves _) fun _ => .ite ?_ ?_
        · exact .bind (.onCpu fun s => s.loadPc?_eq _) fun _ => .bind .lift fun _ => .pure
        · exact .bind .write fun _ => .bind .lift fun _ => .pure

/-- The method of a swap does what the swap does. -/
theorem does_swap (byte : Bool) (rd rn rm : Reg) (cycles : Word) :
    Does (swap bus pc byte ⟨rd.toNat, rn.toNat, rm.toNat, 0, 0, 0, cycles⟩)
      (Guest.swap bus pc cycles byte rd rn rm) := by
  refine .look fun s => .read (.access AsksHost.loadOne fun old => ?_)
  cases old with
  | none => exact Does.dataAbort.from s
  | some old =>
    refine .read (.bind (Does.lift.from s) fun wait => ?_)
    cases wait with
    | none => exact .dataAbort
    | some wait => exact .bind .write fun _ => .bind .lift fun _ => .pure

/-- The values are looked up one by one between the accesses, which leave the processor as it is. -/
theorem does_storeWords {value : Nat → CpuState → Option Word} {stored : Reg → Word}
    (values : ∀ r : Reg, value r.toNat s = some (stored r)) :
    ∀ (registers : List Reg) (addr : Word) (access : Access),
      DoesFrom s (storeWords bus value (registers.map BitVec.toNat) addr access)
        (Guest.storeWords bus (registers.map stored) addr access)
  | [], _, _ => Does.pure.from s
  | r :: rest, addr, access => by
    refine .ask (values r) (.access AsksHost.store fun wait => ?_)
    cases wait with
    | none => exact Does.pure.from s
    | some wait =>
      refine .bind (does_storeWords values rest (addr + 4) .sequential) fun total => ?_
      cases total with
      | none => exact .pure
      | some total => exact .pure

end Transfers

section Blocks

theorem does_finishPc (restore : Bool) (x : Word) :
    Does (finishPc bus restore x) (Guest.finishPc bus restore x) := by
  refine .ite ?_ (.onCpu fun s => s.loadPc?_eq x)
  exact .bind (.onCpu CpuState.restoreStatus?_eq) fun _ => .bind .lift fun _ => .writePc

theorem does_abortBlock {leaveBank : Checked σ Unit} {leaves : Guest σ Unit}
    (leave : Does leaveBank leaves) :
    Does (abortBlock bus pc leaveBank) (Guest.abortBlock bus pc leaves) :=
  .bind leave fun _ => .dataAbort

theorem lookup_numbers {α : Type} : ∀ loaded : List (Reg × α),
    (loaded.map fun p => (p.1.toNat, p.2)).lookup 15 = loaded.lookup .pc
  | [] => rfl
  | (r, x) :: rest => by
    have same : (15 == r.toNat) = (Reg.pc == r) := by
      rw [Bool.eq_iff_iff, beq_iff_eq, beq_iff_eq, eq_comm, CpuState.eq_pc_iff, eq_comm]
    rw [List.map_cons, List.lookup_cons, List.lookup_cons, same, lookup_numbers rest]

variable {list : RegSet} {d : BlockRecord} (names : d.list = list)
  {moveBase leaveBank : Checked σ Unit} {moves leaves : Guest σ Unit} (move : Does moveBase moves)
  (leave : Does leaveBank leaves) (cycles lowest : Word)

include names move leave

/-- The loading half of the method does what that of the instruction does, if moving the base and leaving
the bank do. -/
theorem does_loadBlock (counts : d.count = (RegSet.numbers list).length) (user : Bool) :
    Does (loadBlock bus pc user d cycles lowest moveBase leaveBank)
      (Guest.loadBlock bus pc cycles lowest list user moves leaves) := by
  have count : d.count = (RegSet.toList list).length := by
    rw [counts, RegSet.numbers_eq, List.length_map]
  unfold loadBlock Guest.loadBlock
  rw [names, count]
  refine .bind .lift fun loaded => ?_
  cases loaded with
  | none => exact does_abortBlock bus pc leave
  | some loaded =>
    -- the list of numbers and the list of registers are the same list, so that they meet the same words
    have pairs : (RegSet.numbers list).zip loaded.1 =
        ((RegSet.toList list).zip loaded.1).map fun p => (p.1.toNat, p.2) := by
      rw [RegSet.numbers_eq, List.zip_map_left]
      rfl
    dsimp only
    rw [pairs, lookup_numbers]
    refine .bind move fun _ => .bind (.onCpu fun s => s.setLoaded?_eq _) fun _ =>
      .bind leave fun _ => ?_
    cases ((RegSet.toList list).zip loaded.1).lookup .pc with
    | none => exact .bind .lift fun _ => .pure
    | some x => exact .bind (does_finishPc bus user x) fun _ => .bind .lift fun _ => .pure

/-- So does the storing half, which stores the same values. -/
theorem does_storeBlock {rn : Reg} (base : d.rn = rn.toNat) (writeback : Bool) (moved : Word) :
    Does (storeBlock bus pc writeback d cycles lowest moved moveBase leaveBank)
      (Guest.cpu >>= fun s => Guest.storeBlock bus pc cycles lowest
        ((RegSet.toList list).map (s.storedValue pc list rn writeback moved)) moves leaves) := by
  have values (s : CpuState) (r : Reg) : s.storedValue? pc d writeback moved r.toNat =
      some (s.storedValue pc list rn writeback moved r) := by
    have first : (RegSet.numbers list).head? = some rn.toNat ↔
        (RegSet.toList list).head? = some rn := by
      rw [RegSet.numbers_eq, List.head?_map, Option.map_eq_some_iff]
      simp [BitVec.toNat_inj]
    simp only [CpuState.storedValue?, CpuState.storedValue, base, names, ne_eq, first, BitVec.toNat_inj,
      CpuState.readLate?_toNat]
    split <;> rfl
  unfold storeBlock
  rw [names, RegSet.numbers_eq]
  refine .look fun s => .bind (does_storeWords bus (values s) _ lowest .nonSequential) fun wait => ?_
  cases wait with
  | none => exact does_abortBlock bus pc leave
  | some wait => exact .bind leave fun _ => .bind move fun _ => .bind .lift fun _ => .pure

end Blocks

theorem does_softwareInterrupt (d : SystemRecord) :
    Does (softwareInterrupt bus pc d) (Guest.softwareInterrupt bus pc d.cycles d.comment) := by
  refine .bind .lift fun handled => ?_
  cases handled with
  | none =>
    exact .bind .lift fun _ => .bind .lift fun _ => .bind .enter fun _ => .bind .lift fun _ => .pure
  | some cycles => exact .bind .lift fun _ => .bind .lift fun _ => .pure

theorem does_undefined (d : SystemRecord) :
    Does (undefined bus pc d) (Guest.undefined bus pc d.cycles) :=
  .bind .lift fun _ => .bind .lift fun _ => .bind .enter fun _ => .pure

theorem does_controlWrite {rd : Reg} {d : SystemRecord} (own : d.rd = rd.toNat) :
    Does (controlWrite bus pc d) (Guest.controlWrite bus pc d.register rd) := by
  unfold controlWrite
  rw [own]
  refine fun m => DoesFrom.readLate (fun n same => ?_) m rfl
  rw [← same]
  rfl

theorem does_controlRead {rd : Reg} {d : SystemRecord} (own : d.rd = rd.toNat) :
    Does (controlRead bus d) (Guest.controlRead bus d.register rd) := by
  refine .bind .lift fun x => .onCpu fun s => ?_
  rw [own, CpuState.write?_toNat]
  simp only [CpuState.eq_pc_iff]
  split <;> rfl

theorem does_coproc {cycles : Word} {x : Checked σ Unit} {y : Guest σ Unit} (h : Does x y) :
    Does (coproc cycles x) (Guest.spend cycles >>= fun _ => y >>= fun _ => pure .next) :=
  .bind .lift fun _ => .bind h fun _ => .pure

/-- The method of a block transfer does what that does. -/
theorem does_blockTransfer (load : Bool) (mode : BlockMode) (writeback user : Bool) {rn : Reg}
    {list : RegSet} {d : BlockRecord} (names : d.list = list) (base : d.rn = rn.toNat)
    (counts : d.count = (RegSet.numbers list).length) :
    Does (blockTransfer bus pc load mode.pre mode.up writeback user (list.has .pc) d)
      (Guest.blockTransfer bus pc (if list.has .pc then d.pcCycles else d.cycles) load mode writeback
        user rn list) := by
  refine .look fun s => ?_
  unfold blockTransfer
  rw [base, names]
  refine .read (.looks ?_)
  have move (moved : Word) : Does
      (if writeback then write rn.toNat moved else pure () : Checked σ Unit)
      (if writeback then Guest.write rn moved else pure ()) := .ite .write .pure
  have leave : Does
      (if user && !(load && list.has .pc) then onCpu (·.setCpsr? s.cpsr) else pure () : Checked σ Unit)
      (if user && !(load && list.has .pc) then Guest.modifyCpu (·.setCpsr s.cpsr) else pure ()) :=
    .ite (.onCpu fun t => t.setCpsr?_eq s.cpsr) .pure
  have enter : Does
      (onCpu (·.setMode? .system) : Checked σ Unit) (Guest.modifyCpu (·.setMode .system)) :=
    .onCpu fun t => t.setMode?_eq .system
  -- what follows is the same whether or not another mode's registers are borrowed for it
  have goes (cycles lowest moved : Word) : Does
      (if load then loadBlock bus pc user d cycles lowest _ _
        else storeBlock bus pc writeback d cycles lowest moved _ _)
      (if load then Guest.loadBlock bus pc cycles lowest list user _ _
        else Guest.cpu >>= fun s => Guest.storeBlock bus pc cycles lowest
          ((RegSet.toList list).map (s.storedValue pc list rn writeback moved)) _ _) :=
    .ite (does_loadBlock bus pc names (move moved) leave cycles lowest counts user)
      (does_storeBlock bus pc names (move moved) leave cycles lowest base writeback moved)
  exact (Does.ite (.bind enter fun _ => goes _ _ _) (goes _ _ _)).from s

/-- The method of a consistent operation does what the instruction is defined to do. -/
theorem does_execute {i : Instruction} (consistent : i.op.Consistent) :
    Does (execute bus pc i.op.method i.data) (i.action.execute bus pc) := by
  have op : i.action.op = i.op := rfl
  have cost : i.action.cost = BitVec.ofNat 32 (i.op.cost i.thumb) := rfl
  unfold Instruction.data Action.execute
  rw [op]
  -- each operation has its method, and its record holds what the method reads
  cases hop : i.op with
  | alu op s rd rn operand =>
    let d : AluRecord := { rd := rd.toNat, rn := rn.toNat, cycles := i.action.cost }
    have does := does_dataProcessing bus pc op s rd rn operand (d := d) rfl rfl
    rw [AluRecord.cycles_withOperand] at does
    exact does
  | mul op s rd rn rs rm =>
    rw [hop] at cost
    rw [cost]
    exact does_multiply pc op s rd rn rs rm _
  | halfMul op rd rn rs rm xTop yTop => exact does_spending fun s => s.multiplyHalves?_eq ..
  | clz rd rm => exact does_spending fun s => s.countZeros?_eq ..
  | sat op rd rn rm => exact does_spending fun s => s.saturate?_eq ..
  | readStatus rd saved =>
    rw [hop] at cost
    rw [cost]
    exact does_readStatus rd saved
  | writeStatus saved fields source =>
    rw [hop] at cost
    rw [cost]
    cases source with
    | imm x => exact does_writeStatus bus pc saved fields (.imm x) (fun _ => rfl) rfl
    | reg rm => exact does_writeStatus bus pc saved fields (.reg rm) (fun s => s.read?_toNat pc rm) rfl
  | transfer kind rd rn offset index up =>
    rw [hop] at consistent
    let d : TransferRecord := { rd := rd.toNat, rn := rn.toNat, cycles := i.action.cost }
    have does := does_transfer bus pc kind rd rn offset index up consistent.2 (d := d) rfl rfl
    rw [TransferRecord.cycles_withOffset] at does
    exact does
  | swap byte rd rn rm => exact does_swap bus pc byte rd rn rm _
  | block load pre up writeback user rn list cycles pcCycles =>
    have either : i.action.cost = if RegSet.has list .pc then BitVec.ofNat 32 pcCycles
        else BitVec.ofNat 32 cycles := by
      rw [cost, hop, Op.cost]
      split <;> rfl
    rw [either]
    exact does_blockTransfer bus pc load ⟨pre, up⟩ writeback user rfl rfl rfl
  | branch link exchange target =>
    rw [hop] at consistent
    exact does_spending fun s => s.branch?_eq consistent _
  | branchExchange link rm => exact does_spending fun s => s.branchExchange?_eq ..
  | linkPrefix value => exact does_spending fun s => s.write?_lr value
  | linkSuffix offset exchange => exact does_spending fun s => s.linkSuffix?_eq exchange _
  | coproc load cp op1 cn cm op2 rd =>
    unfold Op.method Guest.coproc
    dsimp only
    split
    · cases load with
      | true => exact does_coproc (does_controlRead bus rfl)
      | false => exact does_coproc (does_controlWrite bus pc rfl)
    · exact fun _ => rfl
  | softwareInterrupt comment => exact does_softwareInterrupt bus pc _
  | breakpoint => exact .lift
  | undefined => exact does_undefined bus pc _
  | nop cycles => exact does_spending fun _ => rfl

/-- The second value of a pair at r15 would go to a register behind the last: on a host that answers
every load, the method gets as far as that and no further. -/
example :
    let bus := Bus.ofMemory (fun _ _ _ _ => (some 0, ())) (fun _ _ _ _ _ => (true, ()))
      fun _ _ _ _ _ => ((1 : Wait), ())
    let pair (rd : Nat) := execute bus 8 (.transfer .loadDouble false .pre true)
      (.transfer { rd, rn := 0, cycles := 3 }) (Machine.start (CpuState.new .arm9) ())
    (pair 14).isSome = true ∧ (pair 15).isSome = false := by
  decide +kernel

end Checked

/-! ## What was decoded

What the decoders make is consistent, and so is what is left of it without its flags. That is all that
the methods ask for.
-/

/-- There is a method for an instruction in the tables, and with the record of the instruction it makes
no access outside, wherever it is executed: it answers, and does what the instruction is defined to
do. -/
def Instruction.StaysInside (i : Instruction) : Prop :=
  ∃ method, i.op.lookup? = some method ∧
    ∀ {σ : Type} (bus : Bus σ) (pc : Word) (m : Machine σ),
      Checked.execute bus pc method i.data m = some (exec (i.action.execute bus pc) m)

/-- An instruction that can be compiled and executed. -/
structure Instruction.Compilable (i : Instruction) : Prop where
  registers : ∀ n ∈ i.op.numbers, n < 16
  consistent : i.op.Consistent
  staysInside : i.StaysInside

theorem Instruction.Compilable.of_consistent {i : Instruction} (consistent : i.op.Consistent) :
    i.Compilable where
  registers := Op.lt_of_mem_numbers consistent
  consistent := consistent
  staysInside := ⟨i.op.method, i.op.lookup?_eq, fun bus pc => Checked.does_execute bus pc consistent⟩

namespace Decode

variable {bus : Bus σ} {cpu : Cpu} {thumb : Bool}

/-- Whatever is fetched is consistent. -/
theorem consistent_fetch {addr : Word} {host : σ} {i : Instruction}
    (h : (fetch bus cpu thumb addr host).1 = some i) : i.op.Consistent := by
  unfold fetch at h
  cases thumb with
  | true =>
    obtain ⟨raw, -, rfl⟩ := Option.map_eq_some_iff.mp h
    exact Thumb.consistent_decode cpu addr _
  | false =>
    obtain ⟨raw, -, rfl⟩ := Option.map_eq_some_iff.mp h
    exact Arm.consistent_decode cpu addr raw

end Decode

/-- Whatever a word or a halfword is decoded to, it can be compiled and executed without an access
outside the registers, the banks or the tables of methods. No halfword has the condition that never
holds. What is compiled for the code at an address is no different. -/
theorem decoded_stays_inside (cpu : Cpu) (addr : Word) :
    (∀ raw : Word, (Arm.decode cpu addr raw).Compilable) ∧
    (∀ raw : Halfword,
      (Thumb.decode cpu addr raw).Compilable ∧ (Thumb.decode cpu addr raw).cond ≠ .never) ∧
    ∀ {σ : Type} (bus : Bus σ) (thumb : Bool) (limit : Nat) (host : σ) (config : Config),
      ∀ i ∈ CodeCache.prepare config (Decode.run bus cpu addr thumb limit host).1, i.Compilable := by
  refine ⟨fun raw => .of_consistent (Arm.consistent_decode cpu addr raw), fun raw => ⟨?_, ?_⟩, ?_⟩
  · exact .of_consistent (Thumb.consistent_decode cpu addr raw)
  · exact Thumb.condition_ne_never raw
  · intro σ bus thumb limit host config i hi
    have decoded : ∀ i ∈ (Decode.run bus cpu addr thumb limit host).1, i.op.Consistent := by
      intro i hi
      obtain ⟨place, seen, fetched⟩ := Decode.exists_fetch_of_mem _ addr host hi
      exact Decode.consistent_fetch fetched
    exact .of_consistent (CodeCache.consistent_prepare decoded config i hi)

end ArmBlocks
