import ArmBlocks.Proofs.Exec
import ArmBlocks.Proofs.Recording
import ArmBlocks.Engine

/-!
# A host that keeps something beside

A host may keep a log, a counter or a copy of the status register beside its own state, and still be
the same host: `Bus.Extends π` says that forgetting what is beside, by `π`, turns everything the one
bus does into what the other does. Recording is the example (`Bus.extends_recording`).

**What is kept beside changes nothing.** The engine only passes the host along, so whatever it does on
the larger host is, once that is forgotten, what it does on the smaller (`Engine.turn_mapHost`): the
same answer, the same processor, the same engine. A result about all logs is then a result about the
host that keeps none.

Of an action this is `Guest.Mirrors`. As for every property of all instructions there is one rule for
each way of putting actions together, and one statement for each operation.
-/

set_option autoImplicit false

namespace ArmBlocks

variable {τ σ : Type}

/-- The bus `b` does what `a` does, and something beside that `π` forgets. The code regions are left
out: they are asked for before anything runs. -/
structure Bus.Extends (π : τ → σ) (b : Bus τ) (a : Bus σ) : Prop where
  get : ∀ host cpu w addr,
    a.get (π host) cpu w addr = ((b.get host cpu w addr).1, π (b.get host cpu w addr).2)
  set : ∀ host cpu w addr x,
    a.set (π host) cpu w addr x = ((b.set host cpu w addr x).1, π (b.set host cpu w addr x).2)
  waitTime : ∀ host cpu w addr access, a.waitTime (π host) cpu w addr access =
    ((b.waitTime host cpu w addr access).1, π (b.waitTime host cpu w addr access).2)
  vectorBase : ∀ host cpu, a.vectorBase (π host) cpu = b.vectorBase host cpu
  exceptionHappened : ∀ host s kind, a.exceptionHappened (π host) s kind =
    ((b.exceptionHappened host s kind).1, π (b.exceptionHappened host s kind).2)
  statusChanged : ∀ host s,
    a.statusChanged (π host) s = ((b.statusChanged host s).1, π (b.statusChanged host s).2)
  softwareInterrupt : ∀ host s comment, a.softwareInterrupt (π host) s comment =
    ((b.softwareInterrupt host s comment).1, (b.softwareInterrupt host s comment).2.1,
      π (b.softwareInterrupt host s comment).2.2)
  controlWrite : ∀ host cpu x r, a.controlWrite (π host) cpu x r = π (b.controlWrite host cpu x r)
  controlRead : ∀ host cpu r,
    a.controlRead (π host) cpu r = ((b.controlRead host cpu r).1, π (b.controlRead host cpu r).2)

/-- A log beside a host changes nothing. -/
theorem Bus.extends_recording (bus : Bus σ) (shown : CpuState → CpuState) :
    Bus.Extends Prod.fst (bus.recording shown) bus where
  get _ _ _ _ := rfl
  set _ _ _ _ _ := rfl
  waitTime _ _ _ _ _ := rfl
  vectorBase _ _ := rfl
  exceptionHappened _ _ _ := rfl
  statusChanged _ _ := rfl
  softwareInterrupt _ _ _ := rfl
  controlWrite _ _ _ _ := rfl
  controlRead _ _ _ := rfl

/-! ## Accesses and exceptions -/

section Asked

variable {π : τ → σ} {b : Bus τ} {a : Bus σ} (extended : b.Extends π a)

include extended

/-- A read is the same on both buses. -/
theorem Bus.Extends.read (host : τ) (cpu : Cpu) (w : Width) (addr : Word) (access : Access) :
    a.read (π host) cpu w addr access =
      ((b.read host cpu w addr access).1, π (b.read host cpu w addr access).2) := by
  unfold Bus.read
  dsimp only
  rw [extended.get]
  rcases b.get host cpu w (Address.align addr (BitVec.ofNat 32 w.bytes)) with ⟨_ | value, after⟩
  · rfl
  · simp only [extended.waitTime]

/-- So is a write. -/
theorem Bus.Extends.write (host : τ) (cpu : Cpu) (w : Width) (addr value : Word) (access : Access) :
    a.write (π host) cpu w addr value access =
      ((b.write host cpu w addr value access).1, π (b.write host cpu w addr value access).2) := by
  unfold Bus.write
  dsimp only
  rw [extended.set]
  rcases b.set host cpu w (Address.align addr (BitVec.ofNat 32 w.bytes)) (w.cut value) with
    ⟨_ | _, after⟩
  · rfl
  · simp only [extended.waitTime]

theorem CpuState.enterException_mapHost (s : CpuState) (host : τ) (kind : Exception) (lr : Word) :
    s.enterException a (π host) kind lr =
      ((s.enterException b host kind lr).1, π (s.enterException b host kind lr).2) := by
  unfold enterException
  rw [extended.exceptionHappened]
  dsimp only
  rw [extended.vectorBase, extended.statusChanged]

end Asked

/-! ## Actions -/

/-- The machine with the host that is left when something is forgotten. -/
def Machine.mapHost (π : τ → σ) (m : Machine τ) : Machine σ :=
  { cpu := m.cpu, host := π m.host, cycles := m.cycles, trapped := m.trapped, notices := m.notices }

namespace Guest

variable {α β : Type} {π : τ → σ}

/-- Two actions that do the same, the one on a host that keeps something beside. -/
def Mirrors (π : τ → σ) (x : Guest τ α) (y : Guest σ α) : Prop :=
  ∀ m, exec y (m.mapHost π) = ((exec x m).1, (exec x m).2.mapHost π)

namespace Mirrors

theorem pure {a : α} : Mirrors π (Pure.pure a) (Pure.pure a) := fun _ => rfl

theorem bind {x : Guest τ α} {y : Guest σ α} {f : α → Guest τ β} {g : α → Guest σ β}
    (hx : Mirrors π x y) (hf : ∀ a, Mirrors π (f a) (g a)) : Mirrors π (x >>= f) (y >>= g) := by
  intro m
  rw [exec_bind, exec_bind, hx, hf]

theorem ite {c : Prop} [Decidable c] {x x' : Guest τ α} {y y' : Guest σ α} (hx : Mirrors π x y)
    (hx' : Mirrors π x' y') : Mirrors π (if c then x else x') (if c then y else y') := by
  split
  · exact hx
  · exact hx'

/-- The processors are the same. -/
theorem look {f : CpuState → Guest τ α} {g : CpuState → Guest σ α}
    (hf : ∀ s, Mirrors π (f s) (g s)) : Mirrors π (cpu >>= f) (cpu >>= g) := fun m => hf m.cpu m

theorem modifyCpu {f : CpuState → CpuState} : Mirrors π (Guest.modifyCpu f) (Guest.modifyCpu f) :=
  fun _ => rfl

theorem write {r : Reg} {x : Word} : Mirrors π (Guest.write r x) (Guest.write r x) := modifyCpu

theorem spend {cycles : Word} : Mirrors π (Guest.spend cycles) (Guest.spend cycles) := fun _ => rfl

theorem spendWithMemory {cycles memory : Word} :
    Mirrors π (Guest.spendWithMemory cycles memory) (Guest.spendWithMemory cycles memory) :=
  fun _ => rfl

theorem notify {n : Notice} : Mirrors π (Guest.notify n) (Guest.notify n) := fun _ => rfl

section Operations

variable {b : Bus τ} {a : Bus σ} (extended : b.Extends π a) (pc cost : Word)

include extended

theorem load {w : Width} {addr : Word} {access : Access} :
    Mirrors π (Guest.load b w addr access) (Guest.load a w addr access) := by
  intro m
  show (let answer := a.read (π m.host) m.cpu.cpu w addr access
    (answer.1, { m.mapHost π with host := answer.2 })) = _
  rw [extended.read]
  rfl

theorem store {w : Width} {addr x : Word} {access : Access} :
    Mirrors π (Guest.store b w addr x access) (Guest.store a w addr x access) := by
  intro m
  show (let answer := a.write (π m.host) m.cpu.cpu w addr x access
    (answer.1, { m.mapHost π with host := answer.2 })) = _
  rw [extended.write]
  rfl

theorem statusChanged : Mirrors π (Guest.statusChanged b) (Guest.statusChanged a) := by
  intro m
  rw [exec_statusChanged]
  show ((), { m.mapHost π with
    cpu := (a.statusChanged (π m.host) m.cpu).1, host := (a.statusChanged (π m.host) m.cpu).2 }) = _
  rw [extended.statusChanged]
  rfl

/-- Entering a handler reads the base of the vectors and tells of the exception, each on its own bus. -/
theorem enter {kind : Exception} {lr : Word} :
    Mirrors π (Guest.enter b kind lr) (Guest.enter a kind lr) := by
  intro m
  rw [exec_enter]
  show ((), { m.mapHost π with
    cpu := (m.cpu.enterException a (π m.host) kind lr).1
    host := (m.cpu.enterException a (π m.host) kind lr).2 }) = _
  rw [CpuState.enterException_mapHost extended]
  rfl

theorem dataAbort : Mirrors π (Guest.dataAbort b pc) (Guest.dataAbort a pc) :=
  look fun _ => bind (enter extended) fun _ => pure

theorem alu (op : AluOp) (s : Bool) (rd rn : Reg) (operand : Operand) :
    Mirrors π (Guest.alu b pc op s rd rn operand) (Guest.alu a pc op s rd rn operand) := by
  refine look fun before => bind modifyCpu fun _ => ite (ite ?_ ?_) pure
  · exact bind modifyCpu fun _ => bind (statusChanged extended) fun _ => bind write fun _ => pure
  · exact bind write fun _ => pure

theorem writeStatus (saved : Bool) (fields : BitVec 4) (source : StatusSource) :
    Mirrors π (Guest.writeStatus b pc saved fields source)
      (Guest.writeStatus a pc saved fields source) :=
  look fun _ => ite (bind modifyCpu fun _ => pure)
    (bind modifyCpu fun _ => bind (statusChanged extended) fun _ => pure)

theorem loadOne {kind : TransferKind} {addr : Word} :
    Mirrors π (Guest.loadOne b kind addr) (Guest.loadOne a kind addr) :=
  look fun _ => bind (load extended) fun _ => pure

/-- A load of a pair mirrors itself. -/
theorem loadPair {addr : Word} : Mirrors π (Guest.loadPair b addr) (Guest.loadPair a addr) := by
  refine bind (load extended) fun low? => ?_
  cases low? with
  | none => exact pure
  | some low =>
    refine bind (load extended) fun high? => ?_
    cases high? with
    | none => exact pure
    | some high => exact pure

/-- So does a store of one value or a pair. -/
theorem storeOne {kind : TransferKind} {addr low high : Word} :
    Mirrors π (Guest.storeOne b kind addr low high) (Guest.storeOne a kind addr low high) := by
  unfold Guest.storeOne
  split
  · exact store extended
  · exact store extended
  · refine bind (store extended) fun first? => ?_
    cases first? with
    | none => exact pure
    | some first =>
      refine bind (store extended) fun second? => ?_
      cases second? with
      | none => exact pure
      | some second => exact pure
  · exact store extended

/-- So does a load or store as a whole. -/
theorem transfer (kind : TransferKind) (rd rn : Reg) (offset : Offset) (index : IndexMode)
    (up : Bool) : Mirrors π (Guest.transfer b pc cost kind rd rn offset index up)
      (Guest.transfer a pc cost kind rd rn offset index up) := by
  have moveBase (moved : Word) : Mirrors π
      (if index ≠ .pre ∧ rn ≠ .pc then Guest.write rn moved else Pure.pure ())
      (if index ≠ .pre ∧ rn ≠ .pc then Guest.write rn moved else Pure.pure ()) := ite write pure
  have finish (wait : Wait) : Mirrors π
      (do Guest.spendWithMemory cost (wait.setWidth 32); return Continuation.next)
      (do Guest.spendWithMemory cost (wait.setWidth 32); return Continuation.next) :=
    bind spendWithMemory fun _ => pure
  refine look fun s => ite (bind (storeOne extended) fun wait? => ?_)
    (ite (bind (loadPair extended) fun pair? => ?_) (bind (loadOne extended) fun x? => ?_))
  · cases wait? with
    | none => exact dataAbort extended pc
    | some wait => exact bind (moveBase _) fun _ => finish wait
  · cases pair? with
    | none => exact dataAbort extended pc
    | some pair =>
      exact bind (moveBase _) fun _ => bind write fun _ => bind write fun _ => finish pair.2.2
  · cases x? with
    | none => exact dataAbort extended pc
    | some x =>
      refine bind (moveBase _) fun _ => ite ?_ ?_
      · exact bind modifyCpu fun _ => finish x.2
      · exact bind write fun _ => finish x.2

/-- So does a swap. -/
theorem swap (byte : Bool) (rd rn rm : Reg) :
    Mirrors π (Guest.swap b pc cost byte rd rn rm) (Guest.swap a pc cost byte rd rn rm) := by
  refine look fun s => bind (loadOne extended) fun old? => ?_
  cases old? with
  | none => exact dataAbort extended pc
  | some old =>
    refine bind (storeOne extended) fun wait? => ?_
    cases wait? with
    | none => exact dataAbort extended pc
    | some wait => exact bind write fun _ => bind spendWithMemory fun _ => pure

/-- So does a load of words. -/
theorem loadWords :
    ∀ {count : Nat} {addr : Word} {access : Access},
      Mirrors π (Guest.loadWords b count addr access) (Guest.loadWords a count addr access)
  | 0, _, _ => pure
  | count + 1, addr, access => by
    refine bind (load extended) fun x? => ?_
    cases x? with
    | none => exact pure
    | some x =>
      refine bind loadWords fun rest? => ?_
      cases rest? with
      | none => exact pure
      | some rest => exact pure

/-- So does a store of words. -/
theorem storeWords :
    ∀ {values : List Word} {addr : Word} {access : Access},
      Mirrors π (Guest.storeWords b values addr access) (Guest.storeWords a values addr access)
  | [], _, _ => pure
  | x :: rest, addr, access => by
    refine bind (store extended) fun wait? => ?_
    cases wait? with
    | none => exact pure
    | some wait =>
      refine bind storeWords fun total? => ?_
      cases total? with
      | none => exact pure
      | some total => exact pure

theorem finishPc (restore : Bool) (x : Word) :
    Mirrors π (Guest.finishPc b restore x) (Guest.finishPc a restore x) :=
  ite (bind modifyCpu fun _ => bind (statusChanged extended) fun _ => write) modifyCpu

/-- What moves the base and leaves the bank works on the processor alone. -/
theorem loadBlock (lowest : Word) (list : RegSet) (user : Bool) {move leave : Guest τ Unit}
    {move' leave' : Guest σ Unit} (hmove : Mirrors π move move') (hleave : Mirrors π leave leave') :
    Mirrors π (Guest.loadBlock b pc cost lowest list user move leave)
      (Guest.loadBlock a pc cost lowest list user move' leave') := by
  refine bind (loadWords extended) fun loaded? => ?_
  cases loaded? with
  | none => exact bind hleave fun _ => dataAbort extended pc
  | some loaded =>
    refine bind hmove fun _ => bind modifyCpu fun _ => bind hleave fun _ => ?_
    dsimp only
    split
    · exact bind (finishPc extended user _) fun _ => bind spendWithMemory fun _ => pure
    · exact bind spendWithMemory fun _ => pure

/-- So does the storing half of a block transfer, if moving the base and leaving the bank do. -/
theorem storeBlock (lowest : Word) (values : List Word) {move leave : Guest τ Unit}
    {move' leave' : Guest σ Unit} (hmove : Mirrors π move move') (hleave : Mirrors π leave leave') :
    Mirrors π (Guest.storeBlock b pc cost lowest values move leave)
      (Guest.storeBlock a pc cost lowest values move' leave') := by
  refine bind (storeWords extended) fun wait? => ?_
  cases wait? with
  | none => exact bind hleave fun _ => dataAbort extended pc
  | some wait => exact bind hleave fun _ => bind hmove fun _ => bind spendWithMemory fun _ => pure

/-- So does a block transfer. -/
theorem blockTransfer (load : Bool) (mode : BlockMode) (writeback user : Bool) (rn : Reg)
    (list : RegSet) : Mirrors π (Guest.blockTransfer b pc cost load mode writeback user rn list)
      (Guest.blockTransfer a pc cost load mode writeback user rn list) := by
  have move (moved : Word) : Mirrors π (if writeback then Guest.write rn moved else Pure.pure ())
      (if writeback then Guest.write rn moved else Pure.pure ()) := ite write pure
  have leave (x : Word) : Mirrors π
      (if user && !(load && list.has .pc) then Guest.modifyCpu (·.setCpsr x) else Pure.pure ())
      (if user && !(load && list.has .pc) then Guest.modifyCpu (·.setCpsr x) else Pure.pure ()) :=
    ite modifyCpu pure
  refine look fun before => ite (bind modifyCpu fun _ => ite ?_ ?_) (ite ?_ ?_)
  · exact loadBlock extended pc cost _ list user (move _) (leave _)
  · exact look fun _ => storeBlock extended pc cost _ _ (move _) (leave _)
  · exact loadBlock extended pc cost _ list user (move _) (leave _)
  · exact look fun _ => storeBlock extended pc cost _ _ (move _) (leave _)

/-- So does a software interrupt, whose hook is asked on both buses. -/
theorem softwareInterrupt (comment : Word) :
    Mirrors π (Guest.softwareInterrupt b pc cost comment)
      (Guest.softwareInterrupt a pc cost comment) := by
  refine bind (fun m => ?_) fun handled => ?_
  · rw [exec_modifyGet, exec_modifyGet]
    show (let answer := a.softwareInterrupt (π m.host) m.cpu comment
      (answer.1, { m.mapHost π with cpu := answer.2.1, host := answer.2.2 })) = _
    rw [extended.softwareInterrupt]
    rfl
  · cases handled with
    | none =>
      exact bind spend fun _ => look fun _ => bind (enter extended) fun _ =>
        bind (fun _ => rfl) fun _ => pure
    | some cycles => exact bind spend fun _ => bind (fun _ => rfl) fun _ => pure

theorem undefined : Mirrors π (Guest.undefined b pc cost) (Guest.undefined a pc cost) :=
  bind spend fun _ => look fun _ => bind (enter extended) fun _ => pure

/-- So does a transfer with the control coprocessor. -/
theorem coproc (load : Bool) (cp : BitVec 4) (r : ControlRegister) (rd : Reg) :
    Mirrors π (Guest.coproc b pc load cp r rd) (Guest.coproc a pc load cp r rd) := by
  refine ite (ite (bind (bind (fun m => ?_) fun _ => modifyCpu) fun _ => pure)
    (bind (fun m => ?_) fun _ => pure)) pure
  · rw [exec_modifyGet, exec_modifyGet]
    show (let answer := a.controlRead (π m.host) m.cpu.cpu r
      (answer.1, { m.mapHost π with host := answer.2 })) = _
    rw [extended.controlRead]
    rfl
  · show ((), { m.mapHost π with
      host := a.controlWrite (π m.host) m.cpu.cpu (m.cpu.readLate pc rd) r }) = _
    rw [extended.controlWrite]
    rfl

end Operations

end Mirrors

end Guest

variable {π : τ → σ} {b : Bus τ} {a : Bus σ}

open Guest (Mirrors exec)

/-- No instruction can tell whether the host keeps something beside. -/
theorem Action.mirrors_execute (extended : b.Extends π a) (act : Action) (pc : Word) :
    Mirrors π (act.execute b pc) (act.execute a pc) := by
  have onCpu (f : CpuState → CpuState) : Mirrors π
      (do Guest.modifyCpu f; Guest.spend act.cost; return Continuation.next)
      (do Guest.modifyCpu f; Guest.spend act.cost; return Continuation.next) :=
    .bind .modifyCpu fun _ => .bind .spend fun _ => .pure
  unfold Action.execute
  cases act.op with
  | alu op s rd rn operand => exact .bind .spend fun _ => .alu extended pc op s rd rn operand
  | mul op s rd rn rs rm => exact .look fun _ => .bind .spend fun _ => onCpu _
  | readStatus rd saved => exact .bind .spend fun _ => .bind .modifyCpu fun _ => .pure
  | writeStatus saved fields source =>
    exact .bind .spend fun _ => .writeStatus extended pc saved fields source
  | transfer kind rd rn offset index up =>
    exact .transfer extended pc act.cost kind rd rn offset index up
  | block load pre up writeback user rn list =>
    exact .blockTransfer extended pc act.cost load ⟨pre, up⟩ writeback user rn list
  | swap byte rd rn rm => exact .swap extended pc act.cost byte rd rn rm
  | coproc load cp op1 cn cm op2 rd => exact .bind .spend fun _ => .coproc extended pc load cp _ rd
  | softwareInterrupt comment => exact .softwareInterrupt extended pc act.cost comment
  | breakpoint => exact .look fun _ => .bind .notify fun _ => .bind .spend fun _ => .pure
  | undefined => exact .undefined extended pc act.cost
  | _ => exact onCpu _

/-! ## Blocks

A node mirrors its counterpart whatever its record is; walking is recursion on the fuel.
-/

namespace Block

theorem mirrors_publish : Mirrors π Block.publish Block.publish := .bind .modifyCpu fun _ => .pure

/-- Every node mirrors itself. -/
theorem mirrors_executeNode (extended : b.Extends π a) (kind : NodeKind) (record : Option Record)
    (pc : Word) : Mirrors π (executeNode b kind record pc) (executeNode a kind record pc) := by
  unfold executeNode
  split
  · exact Action.mirrors_execute extended _ pc
  · refine .look fun s => .ite .pure ?_
    exact .bind .spend fun _ => .pure
  · exact .bind .spend fun _ => .pure
  · exact .bind .modifyCpu fun _ => .pure
  · exact mirrors_publish
  · intro m
    exact Mirrors.ite (c := m.trapped = true) mirrors_publish .pure m
  · exact .bind .modifyCpu fun _ => .pure
  · exact .pure
  · exact .pure

/-- So does a walk through a block. -/
theorem mirrors_walk (extended : b.Extends π a) (arena : Arena Record) (h : Block.Header) :
    ∀ fuel i, Mirrors π (walk b arena h fuel i) (walk a arena h fuel i) := by
  intro fuel
  induction fuel with
  | zero => intro i; exact .pure
  | succ fuel ih =>
    intro i
    unfold walk
    refine .ite ?_ .pure
    split
    · exact .pure
    · refine .bind (mirrors_executeNode extended _ _ _) fun after => ?_
      cases after with
      | next => exact ih _
      | jump target => exact ih _
      | leave exit => exact .pure

end Block

/-! ## The engine

Decoding and compiling ask the host, and everything else passes it along.
-/

section Engine

variable (extended : b.Extends π a)

include extended

namespace Decode

/-- The same code is fetched on both buses. -/
theorem fetch_mapHost (cpu : Cpu) (thumb : Bool) (addr : Word) (host : τ) :
    fetch a cpu thumb addr (π host) =
      ((fetch b cpu thumb addr host).1, π (fetch b cpu thumb addr host).2) := by
  unfold fetch
  simp only [extended.get]
  split
  · rfl
  · rfl

/-- So the same run is decoded. -/
theorem instructions_mapHost (cpu : Cpu) (thumb : Bool) (limit : Nat) :
    ∀ (addr : Word) (host : τ), instructions a cpu thumb limit addr (π host) =
      ((instructions b cpu thumb limit addr host).1,
        π (instructions b cpu thumb limit addr host).2) := by
  induction limit with
  | zero => intro addr host; rfl
  | succ limit ih =>
    intro addr host
    unfold instructions
    rw [fetch_mapHost extended]
    rcases fetch b cpu thumb addr host with ⟨_ | i, after⟩
    · rfl
    · dsimp only
      split
      · rfl
      · rw [ih]

theorem run_mapHost (cpu : Cpu) (start : Word) (thumb : Bool) (limit : Nat) (host : τ) :
    run a cpu start thumb limit (π host) =
      ((run b cpu start thumb limit host).1, π (run b cpu start thumb limit host).2) :=
  instructions_mapHost extended cpu thumb _ start host

end Decode

end Engine

/-- What compiling leaves when something beside the host is forgotten. -/
def Compilation.mapHost (π : τ → σ) (c : Compilation τ) : Compilation σ :=
  { outcome := c.outcome, cache := c.cache, cpu := c.cpu, host := π c.host, notices := c.notices }

theorem Compilation.mapHost_mk (outcome : Except EngineError SlotEntry) (cache : CodeCache)
    (cpu : CpuState) (host : τ) (notices : List Notice) :
    Compilation.mapHost π ⟨outcome, cache, cpu, host, notices⟩ = ⟨outcome, cache, cpu, π host, notices⟩ :=
  rfl

/-- What a call leaves when something beside the host is forgotten. -/
def Turn.mapHost (π : τ → σ) (t : Turn τ) : Turn σ :=
  { result := t.result, engine := t.engine, cpu := t.cpu, host := π t.host, notices := t.notices
    broken := t.broken }

/-- Compiling is the same on both buses. -/
theorem CodeCache.compile_mapHost (extended : b.Extends π a) (c : CodeCache) (config : Config)
    (s : CpuState) (host : τ) :
    c.compile a config s (π host) = (c.compile b config s host).mapHost π := by
  unfold compile
  dsimp only
  split
  · rfl
  · split
    · rfl
    · rw [Decode.run_mapHost extended]
      dsimp only
      split
      · rfl
      · rfl

namespace Engine

variable (extended : b.Extends π a)

include extended

theorem obtainBlock_mapHost (c : CodeCache) (config : Config) (s : CpuState) (host : τ) :
    obtainBlock c a config s (π host) = (obtainBlock c b config s host).mapHost π := by
  unfold obtainBlock
  split
  · rfl
  · exact c.compile_mapHost extended config s host

theorem runBlock_mapHost (arena : Arena Record) (h : Block.Header) (s : CpuState) (host : τ) :
    runBlock a arena h s (π host) =
      ((runBlock b arena h s host).1, (runBlock b arena h s host).2.mapHost π) :=
  Block.mirrors_walk extended arena h h.len.toNat 0 (Machine.start s host)

/-- So is the uncached way. -/
theorem executeUncached_mapHost (e : Engine) (s : CpuState) (host : τ) :
    e.executeUncached a s (π host) = (e.executeUncached b s host).mapHost π := by
  unfold executeUncached
  split
  · rfl
  · rw [Decode.run_mapHost extended]
    dsimp only
    split
    · rfl
    · split
      · rfl
      · rw [runBlock_mapHost extended]
        rfl

/-- So is an execution through the cache. -/
theorem execute_mapHost (e : Engine) (s : CpuState) (host : τ) :
    e.execute a s (π host) = (e.execute b s host).mapHost π := by
  unfold execute
  split
  · rfl
  · rename_i cache _
    rw [obtainBlock_mapHost extended]
    generalize obtainBlock cache b e.config s host = found
    rcases found with ⟨error | block, c, s', host', told⟩
    · rfl
    · rw [Compilation.mapHost_mk]
      dsimp only
      cases blockHeader? c block with
      | none =>
        dsimp only
        rw [executeUncached_mapHost extended]
        rfl
      | some h =>
        dsimp only
        by_cases same : h.thumb = s'.thumb
        · rw [if_pos same, if_pos same, runBlock_mapHost extended]
          rfl
        · rw [if_neg same, if_neg same, executeUncached_mapHost extended]
          rfl

/-- An execution through the code cache, or without it. -/
def turn (e : Engine) (cached : Bool) (bus : Bus σ) (s : CpuState) (host : σ) : Turn σ :=
  if cached then e.execute bus s host else e.executeUncached bus s host

/-- **What a host keeps beside changes nothing.** -/
theorem turn_mapHost (e : Engine) (cached : Bool) (s : CpuState) (host : τ) :
    e.turn cached a s (π host) = (e.turn cached b s host).mapHost π := by
  cases cached with
  | true => exact e.execute_mapHost extended s host
  | false => exact e.executeUncached_mapHost extended s host

end Engine

end ArmBlocks
