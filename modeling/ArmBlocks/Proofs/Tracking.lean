import ArmBlocks.Proofs.Exec
import ArmBlocks.Proofs.Hooks

/-!
# One machine behind another

While a block runs its instructions go on in one machine; run one at a time, each starts a machine
of its own. The first is ahead of the second by the cycles taken and the notices told before, and
its processor is behind in one field: the address of the next instruction is only written where a
block is left. `Machine.Follows` is that relation.

**No instruction can tell the two apart.** `Guest.Tracks` says so of an action: from machines of
which one follows the other it answers the same, and they stay so. Where an action leaves the block
the addresses agree again, because whatever leaves has just written the next one; `exact` says for
which answers that is promised. There is one rule for each way of putting actions together, and one
statement for each operation. The functions on the processor only have to carry the address through
unseen (`CpuState.Blind`).
-/

set_option autoImplicit false

namespace ArmBlocks

namespace CpuState

theorem AgreeUpToNext.refl (s : CpuState) : s.AgreeUpToNext s := rfl

/-- What cannot tell processors with different next instructions apart is the same on both. -/
theorem AgreeUpToNext.eq {α : Sort _} {s t : CpuState} (h : s.AgreeUpToNext t) {f : CpuState → α}
    (blind : ∀ s next, f (s.withNext next) = f s) : f s = f t := by
  rw [← blind s 0, ← blind t 0, show s.withNext 0 = t.withNext 0 from h]

/-- Setting the next instruction makes them equal. -/
theorem AgreeUpToNext.withNext {s t : CpuState} (h : s.AgreeUpToNext t) (next : Word) :
    s.withNext next = t.withNext next :=
  h.eq (f := (·.withNext next)) fun _ _ => rfl

/-- A function on the processor that neither reads nor writes the next instruction. -/
def Blind (f : CpuState → CpuState) : Prop := ∀ s next, f (s.withNext next) = (f s).withNext next

theorem Blind.agree {f : CpuState → CpuState} (blind : Blind f) {s t : CpuState}
    (h : s.AgreeUpToNext t) : (f s).AgreeUpToNext (f t) := by
  show (f s).withNext 0 = (f t).withNext 0
  rw [← blind, ← blind, show s.withNext 0 = t.withNext 0 from h]

theorem Blind.comp {f g : CpuState → CpuState} (hg : Blind g) (hf : Blind f) :
    Blind fun s => g (f s) := by
  intro s next
  show g (f (s.withNext next)) = (g (f s)).withNext next
  rw [hf, hg]

/-- A choice that does not look at the next instruction, between changes that do not, does not either. -/
theorem Blind.ite {c : CpuState → Prop} [∀ s, Decidable (c s)] {f g : CpuState → CpuState}
    (hc : ∀ s next, c (s.withNext next) ↔ c s) (hf : Blind f) (hg : Blind g) :
    Blind fun s => if c s then f s else g s := by
  intro s next
  by_cases h : c s
  · simp only [h, (hc s next).mpr h, if_true]
    exact hf s next
  · have h' : ¬c (s.withNext next) := fun h' => h ((hc s next).mp h')
    simp only [h, h', if_false]
    exact hg s next

end CpuState

/-- A machine that has taken `taken` cycles and told `told` before the other one started, and is
otherwise the same, apart from the next instruction unless `exact`. -/
structure Machine.Follows {σ : Type} (taken : Word) (told : List Notice) (exact : Prop)
    (m n : Machine σ) : Prop where
  cpu : m.cpu.AgreeUpToNext n.cpu
  host : m.host = n.host
  cycles : m.cycles = taken + n.cycles
  notices : m.notices = told ++ n.notices
  same : exact → m.cpu = n.cpu

namespace Guest

variable {σ α β : Type}

/-- An action that does the same in a machine that follows another, and after which the next
instructions agree for the answers in `exact`. -/
def Tracks (exact : α → Prop) (x : Guest σ α) : Prop :=
  ∀ (taken : Word) (told : List Notice) (before : Prop) (m n : Machine σ),
    m.Follows taken told before n →
    (exec x m).1 = (exec x n).1 ∧
      (exec x m).2.Follows taken told (before ∨ exact (exec x n).1) (exec x n).2

/-- No answer. -/
abbrev Nowhere : α → Prop := fun _ => False

/-- Every answer. -/
abbrev Anywhere : α → Prop := fun _ => True

namespace Tracks

variable {exact : α → Prop}

theorem pure {a : α} (h : ¬exact a) : Tracks exact (Pure.pure a : Guest σ α) := by
  intro taken told before m n follows
  refine ⟨rfl, follows.cpu, follows.host, follows.cycles, follows.notices, ?_⟩
  rintro (h' | h')
  · exact follows.same h'
  · exact absurd h' h

/-- Promising that the addresses agree is optional. -/
theorem weaken {x : Guest σ α} (h : Tracks exact x) : Tracks Nowhere x := by
  intro taken told before m n follows
  obtain ⟨same, follows⟩ := h taken told before m n follows
  exact ⟨same, follows.cpu, follows.host, follows.cycles, follows.notices,
    fun h => follows.same (h.imp_right False.elim)⟩

/-- Parts that track make a whole that does. -/
theorem bind {x : Guest σ β} {f : β → Guest σ α} (hx : Tracks Nowhere x)
    (hf : ∀ b, Tracks exact (f b)) : Tracks exact (x >>= f) := by
  intro taken told before m n follows
  obtain ⟨same, follows⟩ := hx taken told before m n follows
  obtain ⟨same', follows⟩ := hf _ taken told _ _ _ follows
  rw [exec_bind, exec_bind, same]
  exact ⟨same', follows.cpu, follows.host, follows.cycles, follows.notices,
    fun h => follows.same (h.imp_left .inl)⟩

/-- After an action that makes the addresses agree, any other may follow. -/
theorem bind_settled {x : Guest σ β} {f : β → Guest σ α} (hx : Tracks Anywhere x)
    (hf : ∀ b, Tracks Nowhere (f b)) : Tracks exact (x >>= f) := by
  intro taken told before m n follows
  obtain ⟨same, follows⟩ := hx taken told before m n follows
  obtain ⟨same', follows⟩ := hf _ taken told _ _ _ follows
  rw [exec_bind, exec_bind, same]
  exact ⟨same', follows.cpu, follows.host, follows.cycles, follows.notices,
    fun _ => follows.same (.inl (.inr trivial))⟩

/-- A look at the processor, of which what follows does not use the next instruction. -/
theorem look {f : CpuState → Guest σ α} (blind : ∀ s next, f (s.withNext next) = f s)
    (hf : ∀ s, Tracks exact (f s)) : Tracks exact (cpu >>= f) := by
  intro taken told before m n follows
  have same : f m.cpu = f n.cpu := follows.cpu.eq blind
  rw [exec_bind, exec_bind, exec_cpu, exec_cpu, same]
  exact hf n.cpu taken told before m n follows

/-- The same with what was computed from the processor put in its place. -/
theorem look_set {g : CpuState → CpuState} {f : CpuState → Guest σ α} (hg : CpuState.Blind g)
    (blind : ∀ s next, f (s.withNext next) = f s) (hf : ∀ s, Tracks exact (f s)) :
    Tracks exact (cpu >>= fun s => Guest.modifyCpu (fun _ => g s) >>= fun _ => f s) := by
  intro taken told before m n follows
  have same : f m.cpu = f n.cpu := follows.cpu.eq blind
  show (exec (f m.cpu) { m with cpu := g m.cpu }).1 = (exec (f n.cpu) { n with cpu := g n.cpu }).1 ∧
    Machine.Follows taken told (before ∨ exact (exec (f n.cpu) { n with cpu := g n.cpu }).1)
      (exec (f m.cpu) { m with cpu := g m.cpu }).2 (exec (f n.cpu) { n with cpu := g n.cpu }).2
  rw [same]
  exact hf n.cpu taken told before _ _ ⟨hg.agree follows.cpu, follows.host, follows.cycles,
    follows.notices, fun h => congrArg g (follows.same h)⟩

theorem ite {c : Prop} [Decidable c] {x y : Guest σ α} (hx : Tracks exact x)
    (hy : Tracks exact y) : Tracks exact (if c then x else y) := by
  split
  · exact hx
  · exact hy

theorem modifyCpu {f : CpuState → CpuState} (blind : CpuState.Blind f) :
    Tracks Nowhere (Guest.modifyCpu f : Guest σ Unit) := by
  intro taken told before m n follows
  refine ⟨rfl, blind.agree follows.cpu, follows.host, follows.cycles, follows.notices, ?_⟩
  rintro (h | h)
  · exact congrArg f (follows.same h)
  · exact absurd h id

theorem spend {cycles : Word} : Tracks Nowhere (Guest.spend cycles : Guest σ Unit) := by
  intro taken told before m n follows
  refine ⟨rfl, follows.cpu, follows.host, ?_, follows.notices, fun h => ?_⟩
  · show m.cycles + cycles = taken + (n.cycles + cycles)
    rw [follows.cycles, BitVec.add_assoc]
  · exact follows.same (h.resolve_right id)

theorem notify {notice : Notice} : Tracks Nowhere (Guest.notify notice : Guest σ Unit) := by
  intro taken told before m n follows
  refine ⟨rfl, follows.cpu, follows.host, follows.cycles, ?_, fun h => ?_⟩
  · show m.notices ++ [notice] = told ++ (n.notices ++ [notice])
    rw [follows.notices, List.append_assoc]
  · exact follows.same (h.resolve_right id)

/-- Asking the host tracks, as what is asked has nothing to do with the next instruction. -/
theorem ask {x : Guest σ β} (asks : AsksHost x) : Tracks Nowhere x := by
  obtain ⟨f, hf⟩ := asks
  intro taken told before m n follows
  have cpu : m.cpu.cpu = n.cpu.cpu := follows.cpu.eq (f := (·.cpu)) fun _ _ => rfl
  have same : f m.host m.cpu.cpu = f n.host n.cpu.cpu := by rw [follows.host, cpu]
  rw [hf, hf, same]
  exact ⟨rfl, follows.cpu, rfl, follows.cycles, follows.notices,
    fun h => follows.same (h.resolve_right id)⟩

theorem spendWithMemory {cycles memory : Word} :
    Tracks Nowhere (Guest.spendWithMemory cycles memory : Guest σ Unit) :=
  look (fun _ _ => rfl) fun _ => spend

end Tracks

end Guest

/-! ## Functions on the processor that carry the address through

A function is blind if writing the next address before it or behind it comes to the same. What is made
of blind functions is blind.
-/

namespace CpuState

theorem blind_setReg (r : Reg) (x : Word) : Blind (·.setReg r x) := fun _ _ => rfl

theorem blind_write (r : Reg) (x : Word) : Blind (·.write r x) :=
  .ite (fun _ _ => Iff.rfl) (fun _ _ => rfl) fun _ _ => rfl

theorem blind_setFlag (f : Flag) (b : Bool) : Blind (·.setFlag f b) := fun _ _ => rfl

theorem blind_setCpsr (x : Word) : Blind (·.setCpsr x) := fun _ _ => rfl

theorem blind_setMode (m : Mode) : Blind (·.setMode m) := fun _ _ => rfl

theorem blind_loadPc (x : Word) : Blind (·.loadPc x) :=
  (blind_write .pc x).comp
    (.ite (fun _ _ => Iff.rfl) (fun _ _ => rfl) fun _ _ => rfl)

theorem blind_linkIf (b : Bool) (link : Word) : Blind (·.linkIf b link) :=
  .ite (fun _ _ => Iff.rfl) (blind_write .lr link) fun _ _ => rfl

theorem blind_restoreStatus : Blind restoreStatus :=
  .ite (fun _ _ => Iff.rfl) (fun _ _ => rfl) fun _ _ => rfl

theorem blind_writeSaved (x mask : Word) : Blind (·.writeSaved x mask) :=
  .ite (fun _ _ => Iff.rfl) (fun _ _ => rfl) fun _ _ => rfl

theorem blind_writeStatus (x mask : Word) : Blind (·.writeStatus x mask) :=
  .ite (fun _ _ => Iff.rfl) (fun _ _ => rfl) fun _ _ => rfl

theorem blind_setLoaded (loaded : List (Reg × Word)) : Blind (·.setLoaded loaded) := by
  induction loaded with
  | nil => exact fun _ _ => rfl
  | cons head rest ih =>
    refine ih.comp (g := (·.setLoaded rest)) (f := fun s =>
      if head.1 = .pc then s else s.setReg head.1 head.2) ?_
    exact .ite (fun _ _ => Iff.rfl) (fun _ _ => rfl) fun _ _ => rfl

/-- A multiplication does not look at the next instruction. -/
theorem blind_multiply (pc : Word) (op : MulOp) (set : Bool) (rd rn rs rm : Reg) :
    Blind (·.multiply pc op set rd rn rs rm) := by
  intro s next
  have both (x y : Word) := (blind_write rd x).comp (blind_write rn y)
  unfold multiply
  cases op.isLong with
  | true =>
    cases set with
    | true => exact ((blind_setFlag .zero _).comp ((blind_setFlag .neg _).comp (both _ _))) s next
    | false => exact both _ _ s next
  | false =>
    cases set with
    | true =>
      exact ((blind_setFlag .zero _).comp ((blind_setFlag .neg _).comp (blind_write rd _))) s next
    | false => exact blind_write rd _ s next

theorem blind_accumulate (rd : Reg) (product acc : Word) :
    Blind (·.accumulate rd product acc) :=
  (blind_write rd (product + acc)).comp
    (.ite (fun _ _ => Iff.rfl) (fun _ _ => rfl) fun _ _ => rfl)

/-- Neither does a multiplication of halves. -/
theorem blind_multiplyHalves (pc : Word) (op : HalfMulOp) (rd rn rs rm : Reg) (xTop yTop : Bool) :
    Blind (·.multiplyHalves pc op rd rn rs rm xTop yTop) := by
  intro s next
  cases op with
  | smla => exact blind_accumulate rd _ _ s next
  | smlaw => exact blind_accumulate rd _ _ s next
  | smulw => exact blind_write rd _ s next
  | smlal => exact (blind_write rd _).comp (blind_write rn _) s next
  | smul => exact blind_write rd _ s next

theorem blind_saturate (pc : Word) (op : SatOp) (rd rn rm : Reg) :
    Blind (·.saturate pc op rd rn rm) := by
  have clamp (c : Bool) : Blind fun s => if c then s.setFlag .clamped true else s :=
    .ite (fun _ _ => Iff.rfl) (fun _ _ => rfl) fun _ _ => rfl
  intro s next
  exact ((blind_write rd _).comp (clamp _)) s next

theorem blind_branch (link : Word) (links exchange : Bool) (target : Word) :
    Blind (·.branch link links exchange target) := by
  intro s next
  have linked := blind_linkIf links link
  cases exchange with
  | true => exact ((blind_write .pc target).comp ((blind_setFlag .thumb true).comp linked)) s next
  | false => exact ((blind_write .pc target).comp linked) s next

theorem blind_branchExchange (pc link : Word) (links : Bool) (rm : Reg) :
    Blind (·.branchExchange pc link links rm) := by
  intro s next
  have linked := blind_linkIf links link
  exact ((blind_write .pc (s.read pc rm)).comp ((blind_setFlag .thumb _).comp linked)) s next

theorem blind_linkSuffix (link offset : Word) (exchange : Bool) :
    Blind (·.linkSuffix link offset exchange) := by
  intro s next
  have linked := blind_write .lr link
  cases exchange with
  | true => exact ((blind_write .pc _).comp ((blind_setFlag .thumb false).comp linked)) s next
  | false => exact ((blind_write .pc (s.reg .lr + offset)).comp linked) s next

theorem blind_process (pc : Word) (op : AluOp) (set : Bool) (rn : Reg) (operand : Operand) :
    Blind fun s => (s.process pc op set rn operand).2 := by
  intro s next
  cases set with
  | true => cases op <;> rfl
  | false => cases op <;> rfl

theorem process_withNext (s : CpuState) (next pc : Word) (op : AluOp) (set : Bool) (rn : Reg)
    (operand : Operand) :
    ((s.withNext next).process pc op set rn operand).1 = (s.process pc op set rn operand).1 := by
  cases set with
  | true => cases op <;> rfl
  | false => cases op <;> rfl

end CpuState

/-! ## The operations

For each operation the rules are applied in the order of its lines. Where it leaves, it has written
the next address itself, and the two machines are the same from there on.
-/

namespace Guest

variable {σ : Type}

/-- The answer with which an instruction leaves its block. -/
def Leaving (c : Continuation) : Prop := c = .leave .early

theorem not_leaving_next : ¬Leaving .next := by simp [Leaving]

section Operations

variable {bus : Bus σ} (hooks : bus.IgnoresNext) (pc cost : Word)

theorem tracks_write {r : Reg} {x : Word} : Tracks Nowhere (write r x : Guest σ Unit) :=
  .modifyCpu (CpuState.blind_write r x)

/-- What a data processing operation does with its result, where the mode of the processor with
the new flags saves a status register or does not. -/
def finishAlu (bus : Bus σ) (op : AluOp) (restores : Bool) (rd : Reg) (result : Word)
    (saves : Bool) : Guest σ Continuation := do
  if op.writes then
    if restores && saves then
      modifyCpu (·.restoreStatus)
      statusChanged bus
    write rd result
  return .next

theorem alu_eq (op : AluOp) (s : Bool) (rd rn : Reg) (operand : Operand) :
    alu bus pc op s rd rn operand = (cpu >>= fun t =>
      modifyCpu (fun _ => (t.process pc op (s && !(rd == .pc && op.writes)) rn operand).2) >>=
        fun _ => finishAlu bus op (rd == .pc && op.writes && s) rd
          (t.process pc op (s && !(rd == .pc && op.writes)) rn operand).1
          (t.process pc op (s && !(rd == .pc && op.writes)) rn operand).2.mode.hasSaved) := rfl

theorem tracks_next : Tracks Leaving (pure .next : Guest σ Continuation) :=
  .pure not_leaving_next

theorem tracks_breakpoint : Tracks Leaving (breakpoint pc cost : Guest σ Continuation) :=
  .look (fun _ _ => rfl) fun _ => .bind .notify fun _ => .bind .spend fun _ => tracks_next

/-- A write to the control coprocessor sends a register, and none shows the next instruction but r15, which
is read from the pipeline. -/
theorem tracks_controlWrite (r : ControlRegister) (rd : Reg) :
    Tracks Nowhere (controlWrite bus pc r rd) := by
  intro taken told before m n follows
  have same : bus.controlWrite m.host m.cpu.cpu (m.cpu.readLate pc rd) r =
      bus.controlWrite n.host n.cpu.cpu (n.cpu.readLate pc rd) r := by
    rw [follows.host]
    exact follows.cpu.eq (f := fun s => bus.controlWrite n.host s.cpu (s.readLate pc rd) r)
      fun _ _ => rfl
  exact ⟨rfl, follows.cpu, same, follows.cycles, follows.notices,
    fun h => follows.same (h.resolve_right id)⟩

theorem tracks_controlRead (r : ControlRegister) (rd : Reg) :
    Tracks Nowhere (controlRead bus r rd) := by
  refine .bind (.ask ⟨fun host cpu => bus.controlRead host cpu r, fun _ => rfl⟩) fun x =>
    .modifyCpu ?_
  exact .ite (fun _ _ => Iff.rfl) (fun _ _ => rfl) (CpuState.blind_write rd x)

theorem tracks_coproc (load : Bool) (cp : BitVec 4) (r : ControlRegister) (rd : Reg) :
    Tracks Leaving (coproc bus pc load cp r rd) :=
  .ite (.ite (.bind (tracks_controlRead r rd) fun _ => tracks_next)
    (.bind (tracks_controlWrite pc r rd) fun _ => tracks_next)) tracks_next

include hooks

/-- The hook for changes of the status was promised not to look at it. -/
theorem tracks_statusChanged : Tracks Nowhere (statusChanged bus) := by
  intro taken told before m n follows
  obtain ⟨host, cpu⟩ := hooks.statusChanged m.host m.cpu n.cpu follows.cpu
  rw [follows.host] at host cpu
  rw [exec_statusChanged, exec_statusChanged, follows.host]
  refine ⟨rfl, cpu, host, follows.cycles, follows.notices, fun h => ?_⟩
  show (bus.statusChanged n.host m.cpu).1 = (bus.statusChanged n.host n.cpu).1
  rw [follows.same (h.resolve_right id)]

/-- The handler's address is the next instruction, whatever that was before. -/
theorem enterException_eq {s t : CpuState} (h : s.AgreeUpToNext t) (host : σ) (kind : Exception)
    (lr : Word) : s.enterException bus host kind lr = t.enterException bus host kind lr := by
  obtain ⟨host', cpu⟩ := hooks.exceptionHappened host kind s t h
  have same := (cpu.eq (f := fun u : CpuState =>
    let before := u.cpsr
    let u := u.setCpsr ((before &&& ~~~0x3F#32) ||| kind.mode.bits ||| Flag.irqDisable.mask)
    let u := (u.setSaved before).setReg .lr lr
    let handler := bus.vectorBase (bus.exceptionHappened host t kind).2 u.cpu + kind.vector
    ({ u.setReg .pc handler with next := handler } : CpuState)) fun _ _ => rfl)
  unfold CpuState.enterException
  dsimp only at same ⊢
  rw [host', same]

theorem tracks_enter {kind : Exception} {lr : Word} : Tracks Anywhere (enter bus kind lr) := by
  intro taken told before m n follows
  have same := enterException_eq hooks follows.cpu n.host kind lr
  rw [exec_enter, exec_enter, follows.host, same]
  exact ⟨rfl, .refl _, rfl, follows.cycles, follows.notices, fun _ => rfl⟩

theorem tracks_dataAbort : Tracks Leaving (dataAbort bus pc) :=
  .look (fun _ _ => rfl) fun _ => .bind_settled (tracks_enter hooks) fun _ => .pure id

/-- Data processing tracks. What is restored or written does not depend on the next instruction. -/
theorem tracks_alu (op : AluOp) (s : Bool) (rd rn : Reg) (operand : Operand) :
    Tracks Leaving (alu bus pc op s rd rn operand) := by
  rw [alu_eq]
  refine .look_set (CpuState.blind_process pc op _ rn operand) (fun t next => ?_) fun t => ?_
  · have result := CpuState.process_withNext t next pc op (s && !(rd == .pc && op.writes)) rn operand
    have after := CpuState.blind_process pc op (s && !(rd == .pc && op.writes)) rn operand t next
    dsimp only at after
    rw [result, after]
    rfl
  · refine .ite (.ite ?_ ?_) tracks_next
    · exact .bind (.modifyCpu CpuState.blind_restoreStatus) fun _ =>
        .bind (tracks_statusChanged hooks) fun _ => .bind tracks_write fun _ => tracks_next
    · exact .bind tracks_write fun _ => tracks_next

theorem tracks_writeStatus (saved : Bool) (fields : BitVec 4) (source : StatusSource) :
    Tracks Leaving (writeStatus bus pc saved fields source) := by
  refine .look (fun s next => ?_) fun s => .ite ?_ ?_
  · cases source <;> rfl
  · exact .bind (.modifyCpu (CpuState.blind_writeSaved _ _)) fun _ => tracks_next
  · exact .bind (.modifyCpu (CpuState.blind_writeStatus _ _)) fun _ =>
      .bind (tracks_statusChanged hooks) fun _ => tracks_next

/-- A load or store tracks. -/
theorem tracks_transfer (kind : TransferKind) (rd rn : Reg) (offset : Offset) (index : IndexMode)
    (up : Bool) : Tracks Leaving (transfer bus pc cost kind rd rn offset index up) := by
  have moveBase (moved : Word) : Tracks Nowhere
      (if index ≠ .pre ∧ rn ≠ .pc then write rn moved else pure () : Guest σ Unit) :=
    .ite tracks_write (.pure id)
  have finish (wait : Wait) : Tracks Leaving (do
      spendWithMemory cost (wait.setWidth 32)
      return .next : Guest σ Continuation) := .bind .spendWithMemory fun _ => tracks_next
  refine .look (fun s next => ?_) fun s => .ite (.bind (.ask .storeOne) fun wait? => ?_)
    (.ite (.bind (.ask .loadPair) fun pair? => ?_) (.bind (.ask .loadOne) fun x? => ?_))
  -- the offset and the base are read, and what runs next is not one of them
  · cases offset <;> rfl
  · cases wait? with
    | none => exact tracks_dataAbort hooks pc
    | some wait => exact .bind (moveBase _) fun _ => finish wait
  · cases pair? with
    | none => exact tracks_dataAbort hooks pc
    | some pair =>
      exact .bind (moveBase _) fun _ => .bind tracks_write fun _ => .bind tracks_write fun _ =>
        finish pair.2.2
  · cases x? with
    | none => exact tracks_dataAbort hooks pc
    | some x =>
      refine .bind (moveBase _) fun _ => .ite ?_ ?_
      · exact .bind (.modifyCpu (CpuState.blind_loadPc _)) fun _ => finish x.2
      · exact .bind tracks_write fun _ => finish x.2

/-- A swap tracks. -/
theorem tracks_swap (byte : Bool) (rd rn rm : Reg) :
    Tracks Leaving (swap bus pc cost byte rd rn rm) := by
  refine .look (fun _ _ => rfl) fun s => .bind (.ask .loadOne) fun old? => ?_
  cases old? with
  | none => exact tracks_dataAbort hooks pc
  | some old =>
    refine .bind (.ask .storeOne) fun wait? => ?_
    cases wait? with
    | none => exact tracks_dataAbort hooks pc
    | some wait => exact .bind tracks_write fun _ => .bind .spendWithMemory fun _ => tracks_next

theorem tracks_abortBlock {leaveBank : Guest σ Unit} (leave : Tracks Nowhere leaveBank) :
    Tracks Leaving (abortBlock bus pc leaveBank) :=
  .bind leave fun _ => tracks_dataAbort hooks pc

theorem tracks_finishPc (restore : Bool) (x : Word) : Tracks Nowhere (finishPc bus restore x) := by
  refine .ite ?_ (.modifyCpu (CpuState.blind_loadPc x))
  exact .bind (.modifyCpu CpuState.blind_restoreStatus) fun _ =>
    .bind (tracks_statusChanged hooks) fun _ => tracks_write

/-- The loading half of a block transfer tracks, if moving the base and leaving the bank do. -/
theorem tracks_loadBlock (lowest : Word) (list : RegSet) (user : Bool)
    {moveBase leaveBank : Guest σ Unit} (move : Tracks Nowhere moveBase)
    (leave : Tracks Nowhere leaveBank) :
    Tracks Leaving (loadBlock bus pc cost lowest list user moveBase leaveBank) := by
  refine .bind (.ask .loadWords) fun loaded? => ?_
  cases loaded? with
  | none => exact tracks_abortBlock hooks pc leave
  | some loaded =>
    refine .bind move fun _ => .bind (.modifyCpu (CpuState.blind_setLoaded _)) fun _ =>
      .bind leave fun _ => ?_
    dsimp only
    split
    · exact .bind (tracks_finishPc hooks user _) fun _ => .bind .spendWithMemory fun _ => tracks_next
    · exact .bind .spendWithMemory fun _ => tracks_next

/-- So does the storing half. -/
theorem tracks_storeBlock (lowest : Word) (values : List Word) {moveBase leaveBank : Guest σ Unit}
    (move : Tracks Nowhere moveBase) (leave : Tracks Nowhere leaveBank) :
    Tracks Leaving (storeBlock bus pc cost lowest values moveBase leaveBank) := by
  refine .bind (.ask .storeWords) fun wait? => ?_
  cases wait? with
  | none => exact tracks_abortBlock hooks pc leave
  | some wait =>
    exact .bind leave fun _ => .bind move fun _ => .bind .spendWithMemory fun _ => tracks_next

/-- A block transfer tracks. -/
theorem tracks_blockTransfer (load : Bool) (mode : BlockMode) (writeback user : Bool) (rn : Reg)
    (list : RegSet) :
    Tracks Leaving (blockTransfer bus pc cost load mode writeback user rn list) := by
  have move (moved : Word) : Tracks Nowhere
      (if writeback then write rn moved else pure () : Guest σ Unit) :=
    .ite tracks_write (.pure id)
  have leave (x : Word) : Tracks Nowhere
      (if user && !(load && list.has .pc) then modifyCpu (·.setCpsr x) else pure () :
        Guest σ Unit) := .ite (.modifyCpu (CpuState.blind_setCpsr x)) (.pure id)
  refine .look (fun _ _ => rfl) fun before =>
    .ite (.bind (.modifyCpu (CpuState.blind_setMode .system)) fun _ => .ite ?_ ?_) (.ite ?_ ?_)
  · exact tracks_loadBlock hooks pc cost _ list user (move _) (leave _)
  · exact .look (fun _ _ => rfl) fun _ => tracks_storeBlock hooks pc cost _ _ (move _) (leave _)
  · exact tracks_loadBlock hooks pc cost _ list user (move _) (leave _)
  · exact .look (fun _ _ => rfl) fun _ => tracks_storeBlock hooks pc cost _ _ (move _) (leave _)

theorem tracks_undefined : Tracks Leaving (undefined bus pc cost) :=
  .bind .spend fun _ => .look (fun _ _ => rfl) fun _ =>
    .bind_settled (tracks_enter hooks) fun _ => .pure id

end Operations

end Guest

/-- No operation but a software interrupt can tell that it is not the first of its block. What a
software interrupt does depends on what comes after it. -/
theorem Action.tracks_execute {σ : Type} {bus : Bus σ} (hooks : bus.IgnoresNext) (a : Action)
    (pc : Word) (ordinary : ∀ comment, a.op ≠ .softwareInterrupt comment) :
    Guest.Tracks Guest.Leaving (a.execute bus pc) := by
  have onCpu {f : CpuState → CpuState} (blind : CpuState.Blind f) : Guest.Tracks Guest.Leaving (do
      Guest.modifyCpu f
      Guest.spend a.cost
      return .next : Guest σ Continuation) :=
    .bind (.modifyCpu blind) fun _ => .bind .spend fun _ => Guest.tracks_next
  unfold Action.execute
  cases hop : a.op with
  | alu op s rd rn operand =>
    exact .bind .spend fun _ => Guest.tracks_alu hooks pc op s rd rn operand
  | mul op s rd rn rs rm =>
    exact .look (fun _ _ => rfl) fun _ => .bind .spend fun _ =>
      onCpu (CpuState.blind_multiply pc op s rd rn rs rm)
  | halfMul op rd rn rs rm xTop yTop =>
    exact onCpu (CpuState.blind_multiplyHalves pc op rd rn rs rm xTop yTop)
  | clz rd rm => exact onCpu fun s next => CpuState.blind_write rd (s.read pc rm).clz s next
  | sat op rd rn rm => exact onCpu (CpuState.blind_saturate pc op rd rn rm)
  | readStatus rd saved =>
    exact .bind .spend fun _ =>
      .bind (.modifyCpu fun s next => CpuState.blind_write rd (s.status saved) s next) fun _ =>
        Guest.tracks_next
  | writeStatus saved fields source =>
    exact .bind .spend fun _ => Guest.tracks_writeStatus hooks pc saved fields source
  | transfer kind rd rn offset index up =>
    exact Guest.tracks_transfer hooks pc a.cost kind rd rn offset index up
  | block load pre up writeback user rn list =>
    exact Guest.tracks_blockTransfer hooks pc a.cost load ⟨pre, up⟩ writeback user rn list
  | swap byte rd rn rm => exact Guest.tracks_swap hooks pc a.cost byte rd rn rm
  | branch links exchange target => exact onCpu (CpuState.blind_branch a.link links exchange target)
  | branchExchange links rm => exact onCpu (CpuState.blind_branchExchange pc a.link links rm)
  | linkPrefix value => exact onCpu (CpuState.blind_write .lr value)
  | linkSuffix offset exchange => exact onCpu (CpuState.blind_linkSuffix a.link offset exchange)
  | coproc load cp op1 cn cm op2 rd =>
    exact .bind .spend fun _ => Guest.tracks_coproc pc load cp _ rd
  | softwareInterrupt comment => exact absurd hop (ordinary comment)
  | breakpoint => exact Guest.tracks_breakpoint pc a.cost
  | undefined => exact Guest.tracks_undefined hooks pc a.cost
  | nop cycles => exact onCpu fun _ _ => rfl

end ArmBlocks
