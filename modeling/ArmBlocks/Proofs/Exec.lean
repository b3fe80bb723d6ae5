import Mathlib.Algebra.GroupWithZero.Nat
import ArmBlocks.Block.Run

/-!
# Actions as functions

A `Guest` action is a state monad, and a monad is the wrong thing to calculate with: what the proofs
compare is what an action *answers* and the machine it *leaves*. `Guest.exec` is that pair, and the
equations below push it through every action the instructions are built from, so that no proof has
to open the monad again.

The second half is the first fact that holds of the whole instruction set: an instruction either
goes on or leaves early (`Action.continues_execute`). It never jumps, and it never claims to be the
end of its block; only control nodes do so. The proof is by the shape of the actions, one rule for
each way of putting them together, and that is how every later property of all instructions is
proved too.
-/

set_option autoImplicit false

namespace ArmBlocks

namespace Guest

variable {σ α β : Type}

/-- What an action answers on a machine, and the machine it leaves. -/
def exec (x : Guest σ α) (m : Machine σ) : α × Machine σ := (x.run m).run

/-- Two actions that do the same on every machine are one. -/
theorem ext_exec {x y : Guest σ α} (h : ∀ m, exec x m = exec y m) : x = y := funext h

@[simp] theorem exec_pure (a : α) (m : Machine σ) : exec (pure a : Guest σ α) m = (a, m) := rfl

@[simp] theorem exec_bind (x : Guest σ α) (f : α → Guest σ β) (m : Machine σ) :
    exec (x >>= f) m = exec (f (exec x m).1) (exec x m).2 := rfl

@[simp] theorem exec_cpu (m : Machine σ) : exec cpu m = (m.cpu, m) := rfl

@[simp] theorem exec_get (m : Machine σ) : exec (get : Guest σ (Machine σ)) m = (m, m) := rfl

@[simp] theorem exec_modifyCpu (f : CpuState → CpuState) (m : Machine σ) :
    exec (modifyCpu f) m = ((), { m with cpu := f m.cpu }) := rfl

@[simp] theorem exec_spend (cycles : Word) (m : Machine σ) :
    exec (spend cycles) m = ((), { m with cycles := m.cycles + cycles }) := rfl

@[simp] theorem exec_notify (n : Notice) (m : Machine σ) :
    exec (notify n) m = ((), { m with notices := m.notices ++ [n] }) := rfl

@[simp] theorem exec_modify (f : Machine σ → Machine σ) (m : Machine σ) :
    exec (modify f) m = ((), f m) := rfl

@[simp] theorem exec_modifyGet (f : Machine σ → α × Machine σ) (m : Machine σ) :
    exec (modifyGet f : Guest σ α) m = f m := rfl

@[simp] theorem exec_statusChanged (bus : Bus σ) (m : Machine σ) :
    exec (statusChanged bus) m =
      ((), { m with
        cpu := (bus.statusChanged m.host m.cpu).1
        host := (bus.statusChanged m.host m.cpu).2 }) := rfl

@[simp] theorem exec_enter (bus : Bus σ) (kind : Exception) (lr : Word) (m : Machine σ) :
    exec (enter bus kind lr) m =
      ((), { m with
        cpu := (m.cpu.enterException bus m.host kind lr).1
        host := (m.cpu.enterException bus m.host kind lr).2 }) := rfl

theorem exec_ite (c : Prop) [Decidable c] (x y : Guest σ α) (m : Machine σ) :
    exec (if c then x else y) m = if c then exec x m else exec y m := by
  split <;> rfl

/-! ## Actions that only ask the host

These leave a machine as it is, apart from the host. So whatever is proved of a machine without its
host survives them.
-/

/-- An action that asks something of the host, shows it no more of the processor than which one it
is, and changes nothing else. Every access to memory is one. -/
def AsksHost (x : Guest σ α) : Prop :=
  ∃ f : σ → Cpu → α × σ, ∀ m,
    exec x m = ((f m.host m.cpu.cpu).1, { m with host := (f m.host m.cpu.cpu).2 })

namespace AsksHost

theorem pure {a : α} : AsksHost (Pure.pure a : Guest σ α) :=
  ⟨fun host _ => (a, host), fun _ => rfl⟩

theorem bind {x : Guest σ α} {f : α → Guest σ β} (hx : AsksHost x) (hf : ∀ a, AsksHost (f a)) :
    AsksHost (x >>= f) := by
  obtain ⟨first, hfirst⟩ := hx
  obtain ⟨second, hsecond⟩ := Classical.axiomOfChoice hf
  refine ⟨fun host cpu => second (first host cpu).1 (first host cpu).2 cpu, fun m => ?_⟩
  rw [exec_bind, hfirst, hsecond]

/-- A look at the processor that sees no more than which one it is. -/
theorem look {f : CpuState → Guest σ α} {g : Cpu → Guest σ α} (sees : ∀ s, f s = g s.cpu)
    (hg : ∀ cpu, AsksHost (g cpu)) : AsksHost (cpu >>= f) := by
  obtain ⟨answer, h⟩ := Classical.axiomOfChoice hg
  refine ⟨fun host cpu => answer cpu host cpu, fun m => ?_⟩
  rw [exec_bind, exec_cpu, sees, h]

variable {bus : Bus σ}

theorem load {w : Width} {addr : Word} {access : Access} :
    AsksHost (Guest.load bus w addr access) :=
  ⟨fun host cpu => bus.read host cpu w addr access, fun _ => rfl⟩

theorem store {w : Width} {addr x : Word} {access : Access} :
    AsksHost (Guest.store bus w addr x access) :=
  ⟨fun host cpu => bus.write host cpu w addr x access, fun _ => rfl⟩

theorem loadOne {kind : TransferKind} {addr : Word} : AsksHost (Guest.loadOne bus kind addr) :=
  look (g := fun cpu =>
    let asked := kind.view (!cpu.isV5 && addr.getLsbD 0) addr
    do
      let loaded ← Guest.load bus asked.1 addr .nonSequential
      return loaded.map fun read => (asked.2 read.1, read.2))
    (fun _ => rfl) fun _ => bind load fun _ => pure

/-- A load of a pair asks the host only. -/
theorem loadPair {addr : Word} : AsksHost (Guest.loadPair bus addr) := by
  refine bind load fun low? => ?_
  cases low? with
  | none => exact pure
  | some low =>
    refine bind load fun high? => ?_
    cases high? with
    | none => exact pure
    | some high => exact pure

/-- So does a store of one value or a pair. -/
theorem storeOne {kind : TransferKind} {addr low high : Word} :
    AsksHost (Guest.storeOne bus kind addr low high) := by
  unfold Guest.storeOne
  split
  · exact store
  · exact store
  · refine bind store fun first? => ?_
    cases first? with
    | none => exact pure
    | some first =>
      refine bind store fun second? => ?_
      cases second? with
      | none => exact pure
      | some second => exact pure
  · exact store

/-- So does a load of words. -/
theorem loadWords :
    ∀ {count : Nat} {addr : Word} {access : Access},
      AsksHost (Guest.loadWords bus count addr access)
  | 0, _, _ => pure
  | count + 1, addr, access => by
    refine bind load fun x? => ?_
    cases x? with
    | none => exact pure
    | some x =>
      refine bind loadWords fun rest? => ?_
      cases rest? with
      | none => exact pure
      | some rest => exact pure

/-- So does a store of words. -/
theorem storeWords :
    ∀ {values : List Word} {addr : Word} {access : Access},
      AsksHost (Guest.storeWords bus values addr access)
  | [], _, _ => pure
  | x :: rest, addr, access => by
    refine bind store fun wait? => ?_
    cases wait? with
    | none => exact pure
    | some wait =>
      refine bind storeWords fun total? => ?_
      cases total? with
      | none => exact pure
      | some total => exact pure

end AsksHost

/-! ## How an instruction ends

An instruction goes on or leaves early. Neither is there a jump in it, nor does it reach the end of a
block by itself or break it off.
-/

/-- An action that goes on or leaves early, and does nothing else. -/
def Continues (x : Guest σ Continuation) : Prop :=
  ∀ m, (exec x m).1 = .next ∨ (exec x m).1 = .leave .early

namespace Continues

theorem next : Continues (pure .next : Guest σ Continuation) := fun _ => .inl rfl

theorem leave : Continues (pure (.leave .early) : Guest σ Continuation) := fun _ => .inr rfl

/-- What comes first does not matter. -/
theorem bind {x : Guest σ α} {f : α → Guest σ Continuation} (h : ∀ a, Continues (f a)) :
    Continues (x >>= f) :=
  fun m => h (exec x m).1 (exec x m).2

theorem ite {c : Prop} [Decidable c] {x y : Guest σ Continuation} (hx : Continues x)
    (hy : Continues y) : Continues (if c then x else y) := by
  split
  · exact hx
  · exact hy

variable (bus : Bus σ) (pc cost : Word)

theorem dataAbort : Continues (Guest.dataAbort bus pc) :=
  bind fun _ => bind fun _ => leave

theorem alu (op : AluOp) (s : Bool) (rd rn : Reg) (operand : Operand) :
    Continues (Guest.alu bus pc op s rd rn operand) := by
  refine bind fun before => bind fun _ => ite (ite ?_ ?_) next
  · exact bind fun _ => bind fun _ => bind fun _ => next
  · exact bind fun _ => next

/-- A load or store goes straight on, or leaves for the handler. -/
theorem transfer (kind : TransferKind) (rd rn : Reg) (offset : Offset) (index : IndexMode)
    (up : Bool) : Continues (Guest.transfer bus pc cost kind rd rn offset index up) := by
  have finish (wait : Wait) : Continues (do
      spendWithMemory cost (wait.setWidth 32)
      return .next : Guest σ Continuation) := bind fun _ => next
  refine bind fun s => ite (bind fun wait? => ?_) (ite (bind fun pair? => ?_) (bind fun x? => ?_))
  · cases wait? with
    | none => exact dataAbort bus pc
    | some wait => exact bind fun _ => finish wait
  · cases pair? with
    | none => exact dataAbort bus pc
    | some pair => exact bind fun _ => bind fun _ => bind fun _ => finish pair.2.2
  · cases x? with
    | none => exact dataAbort bus pc
    | some x => exact bind fun _ => ite (bind fun _ => finish x.2) (bind fun _ => finish x.2)

/-- So does a swap. -/
theorem swap (byte : Bool) (rd rn rm : Reg) :
    Continues (Guest.swap bus pc cost byte rd rn rm) := by
  refine bind fun s => bind fun old? => ?_
  cases old? with
  | none => exact dataAbort bus pc
  | some old =>
    refine bind fun wait? => ?_
    cases wait? with
    | none => exact dataAbort bus pc
    | some wait => exact bind fun _ => bind fun _ => next

theorem abortBlock (leaveBank : Guest σ Unit) :
    Continues (Guest.abortBlock bus pc leaveBank) :=
  bind fun _ => dataAbort bus pc

/-- So does a loading block transfer. Going on where r15 was loaded is left to the node behind it. -/
theorem loadBlock (lowest : Word) (list : RegSet) (user : Bool)
    (moveBase leaveBank : Guest σ Unit) :
    Continues (Guest.loadBlock bus pc cost lowest list user moveBase leaveBank) := by
  refine bind fun loaded? => ?_
  cases loaded? with
  | none => exact abortBlock bus pc leaveBank
  | some loaded =>
    refine bind fun _ => bind fun _ => bind fun _ => ?_
    dsimp only
    split
    · exact bind fun _ => bind fun _ => next
    · exact bind fun _ => next

theorem storeBlock (lowest : Word) (values : List Word) (moveBase leaveBank : Guest σ Unit) :
    Continues (Guest.storeBlock bus pc cost lowest values moveBase leaveBank) := by
  refine bind fun wait? => ?_
  cases wait? with
  | none => exact abortBlock bus pc leaveBank
  | some wait => exact bind fun _ => bind fun _ => bind fun _ => next

/-- So does every block transfer. -/
theorem blockTransfer (load : Bool) (mode : BlockMode) (writeback user : Bool) (rn : Reg)
    (list : RegSet) :
    Continues (Guest.blockTransfer bus pc cost load mode writeback user rn list) := by
  refine bind fun before => ite (bind fun _ => ite ?_ ?_) (ite ?_ ?_)
  · exact loadBlock bus pc cost _ list user _ _
  · exact bind fun s => storeBlock bus pc cost _ _ _ _
  · exact loadBlock bus pc cost _ list user _ _
  · exact bind fun s => storeBlock bus pc cost _ _ _ _

theorem softwareInterrupt (comment : Word) :
    Continues (Guest.softwareInterrupt bus pc cost comment) := by
  refine bind fun handled => ?_
  cases handled with
  | none => exact bind fun _ => bind fun _ => bind fun _ => bind fun _ => next
  | some cycles => exact bind fun _ => bind fun _ => next

theorem breakpoint : Continues (Guest.breakpoint pc cost : Guest σ Continuation) :=
  bind fun _ => bind fun _ => bind fun _ => next

theorem undefined : Continues (Guest.undefined bus pc cost) :=
  bind fun _ => bind fun _ => bind fun _ => leave

theorem coproc (load : Bool) (cp : BitVec 4) (r : ControlRegister) (rd : Reg) :
    Continues (Guest.coproc bus pc load cp r rd) :=
  ite (ite (bind fun _ => next) (bind fun _ => next)) next

theorem writeStatus (saved : Bool) (fields : BitVec 4) (source : StatusSource) :
    Continues (Guest.writeStatus bus pc saved fields source) :=
  bind fun _ => ite (bind fun _ => next) (bind fun _ => bind fun _ => next)

end Continues

end Guest

/-- An instruction goes on or leaves early; it neither jumps nor ends its block. -/
theorem Action.continues_execute {σ : Type} (a : Action) (bus : Bus σ) (pc : Word) :
    Guest.Continues (a.execute bus pc) := by
  have onCpu (f : CpuState → CpuState) : Guest.Continues (do
      Guest.modifyCpu f
      Guest.spend a.cost
      return .next : Guest σ Continuation) := .bind fun _ => .bind fun _ => .next
  unfold Action.execute
  cases a.op with
  | alu op s rd rn operand => exact .bind fun _ => .alu bus pc op s rd rn operand
  | mul op s rd rn rs rm => exact .bind fun _ => .bind fun _ => onCpu _
  | readStatus rd saved => exact .bind fun _ => .bind fun _ => .next
  | writeStatus saved fields source => exact .bind fun _ => .writeStatus bus pc saved fields source
  | transfer kind rd rn offset index up =>
    exact .transfer bus pc a.cost kind rd rn offset index up
  | block load pre up writeback user rn list =>
    exact .blockTransfer bus pc a.cost load ⟨pre, up⟩ writeback user rn list
  | swap byte rd rn rm => exact .swap bus pc a.cost byte rd rn rm
  | coproc load cp op1 cn cm op2 rd => exact .bind fun _ => .coproc bus pc load cp _ rd
  | softwareInterrupt comment => exact .softwareInterrupt bus pc a.cost comment
  | breakpoint => exact .breakpoint pc a.cost
  | undefined => exact .undefined bus pc a.cost
  | _ => exact onCpu _

end ArmBlocks
