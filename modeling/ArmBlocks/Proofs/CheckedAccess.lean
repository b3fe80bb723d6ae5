import ArmBlocks.Proofs.Exec

/-!
# Accesses by number

The registers of an operation are four-bit numbers and the banks of a mode are six, so nothing here can
ask for one that does not exist. What is compiled forgets that: it keeps plain numbers, counts on from
them, and looks up what stands there. Such an access may fail, and then there is no answer
(`CpuState.reg?` and those after it).

A `Checked` action is an action of a machine that stops for good at the first access outside. **That it
never gets there is what `Checked.Does` says**, together with what it does instead: on every machine it
answers what a given action answers and leaves the machine that one leaves. The rules below follow the
ways in which actions are put together, so that a method is compared with the instruction it is for line
by line.
-/

set_option autoImplicit false

namespace ArmBlocks

open Guest (exec)

variable {σ α β : Type}

/-! ## Registers and banks by number

The registers are an array of sixteen words and the banks are arrays of six. An access by number is
inside or has no answer, and nothing is made up for the case that it has none.
-/

namespace Mode

/-- The place of a mode among all of them. -/
def number : Mode → Nat
  | .user => 0
  | .fiq => 1
  | .supervisor => 2
  | .abort => 3
  | .irq => 4
  | .undefined => 5
  | .system => 6

/-- The number of the bank that a mode uses. There is none for the last mode, which has that of User. -/
def bankNumber (m : Mode) : Nat := if m = .system then 0 else m.number

theorem bankNumber_eq (m : Mode) : m.bankNumber = m.bank := by
  cases m <;> rfl

end Mode

/-- Replaces what stands at a place, if there is such a place. -/
def putAt? {k : Nat} (v : Vector Word k) (n : Nat) (x : Word) : Option (Vector Word k) :=
  if inside : n < k then some (v.set n x) else none

theorem putAt?_of_lt {k : Nat} (v : Vector Word k) {n : Nat} (inside : n < k) (x : Word) :
    putAt? v n x = some (v.set n x) := dif_pos inside

namespace CpuState

variable (s : CpuState) (pc : Word) (n : Nat) (r : Reg) (m : Mode) (x : Word)

/-- The register of a number. -/
def reg? : Option Word := s.registers[n]?

/-- Replaces the register of a number. -/
def setReg? : Option CpuState :=
  (putAt? s.registers n x).map fun registers => { s with registers }

/-- Reads the register of a number as an instruction does. -/
def read? : Option Word := if n = 15 then some pc else s.reg? n

/-- Reads the register of a number one pipeline stage later. -/
def readLate? : Option Word := if n = 15 then some (pc + 4) else s.reg? n

/-- Writes the register of a number. -/
def write? : Option CpuState :=
  if n = 15 then s.setReg? 15 (x &&& if s.thumb then ~~~1#32 else ~~~3#32) else s.setReg? n x

/-- Loads the program counter. -/
def loadPc? : Option CpuState :=
  (if s.cpu.isV5 then s.setFlag .thumb (x.getLsbD 0) else s).write? 15 x

/-- The saved status register in the bank of the current mode. -/
def saved? : Option Word := s.banks.saved[s.mode.bankNumber]?

/-- Replaces it. -/
def setSaved? : Option CpuState :=
  (putAt? s.banks.saved s.mode.bankNumber x).map fun saved =>
    { s with banks := { s.banks with saved } }

/-- The banks with the visible registers in those of a mode. -/
def storeBank? : Option Banks := do
  let banks :=
    if m = .fiq then { s.banks with highFiq := s.visibleHigh }
    else { s.banks with high := s.visibleHigh }
  let sp ← putAt? banks.sp m.bankNumber (s.reg .sp)
  let lr ← putAt? banks.lr m.bankNumber (s.reg .lr)
  return { banks with sp, lr }

/-- Makes the registers in the banks of a mode visible. -/
def loadBank? : Option CpuState := do
  let high := if m = .fiq then s.banks.highFiq else s.banks.high
  let sp ← s.banks.sp[m.bankNumber]?
  let lr ← s.banks.lr[m.bankNumber]?
  let s ← (List.range 5).foldlM (fun s n => do s.setReg? (8 + n) (← high[n]?)) s
  let s ← s.setReg? 13 sp
  s.setReg? 14 lr

/-- Replaces the status register and switches the banks with it. -/
def setCpsr? : Option CpuState := do
  let banks ← s.storeBank? s.mode
  let stored := { s with banks, cpsr := x }
  stored.loadBank? stored.mode

/-- Replaces the mode bits alone. -/
def setMode? : Option CpuState := s.setCpsr? ((s.cpsr &&& ~~~0x1F#32) ||| m.bits)

/-- Restores the status register that the mode saved, if it saves one. -/
def restoreStatus? : Option CpuState :=
  if s.mode.hasSaved then do
    let saved ← s.saved?
    s.setCpsr? saved
  else some s

/-- Enters the handler of an exception. -/
def enterException? (bus : Bus σ) (host : σ) (kind : Exception) (lr : Word) :
    Option (CpuState × σ) := do
  let (s, host) := bus.exceptionHappened host s kind
  let before := s.cpsr
  let s ← s.setCpsr? ((before &&& ~~~0x3F#32) ||| kind.mode.bits ||| Flag.irqDisable.mask)
  let s ← s.setSaved? before
  let s ← s.setReg? 14 lr
  let handler := bus.vectorBase host s.cpu + kind.vector
  let s ← s.setReg? 15 handler
  return bus.statusChanged host { s with next := handler }

/-! Every register has its number, every mode a bank, and so all of this is as it was. -/

theorem eq_pc_iff (r : Reg) : r.toNat = 15 ↔ r = .pc := by
  rw [← BitVec.toNat_inj]
  rfl

@[simp] theorem reg?_toNat : s.reg? r.toNat = some (s.reg r) :=
  Vector.getElem?_eq_getElem r.isLt

@[simp] theorem setReg?_toNat : s.setReg? r.toNat x = some (s.setReg r x) := by
  rw [setReg?, putAt?_of_lt _ r.isLt]
  rfl

@[simp] theorem read?_toNat : s.read? pc r.toNat = some (s.read pc r) := by
  rw [read?, read, reg?_toNat]
  simp only [eq_pc_iff]
  split <;> rfl

@[simp] theorem readLate?_toNat : s.readLate? pc r.toNat = some (s.readLate pc r) := by
  rw [readLate?, readLate, reg?_toNat]
  simp only [eq_pc_iff]
  split <;> rfl

@[simp] theorem write?_toNat : s.write? r.toNat x = some (s.write r x) := by
  have own := s.setReg?_toNat .pc
  rw [write?, write, setReg?_toNat]
  simp only [eq_pc_iff]
  split
  · exact own _
  · rfl

@[simp] theorem write?_pc : s.write? 15 x = some (s.write .pc x) := s.write?_toNat .pc x

@[simp] theorem write?_lr : s.write? 14 x = some (s.write .lr x) := s.write?_toNat .lr x

@[simp] theorem loadPc?_eq : s.loadPc? x = some (s.loadPc x) := write?_pc ..

@[simp] theorem saved?_eq : s.saved? = some s.saved := by
  rw [saved?, Mode.bankNumber_eq]
  exact Vector.getElem?_eq_getElem s.mode.bank.isLt

@[simp] theorem setSaved?_eq : s.setSaved? x = some (s.setSaved x) := by
  rw [setSaved?, Mode.bankNumber_eq, putAt?_of_lt _ s.mode.bank.isLt]
  rfl

@[simp] theorem storeBank?_eq : s.storeBank? m = some (s.storeBank m) := by
  simp only [storeBank?, Mode.bankNumber_eq, putAt?_of_lt _ m.bank.isLt]
  rfl

@[simp] theorem loadBank?_eq : s.loadBank? m = some (s.loadBank m) := by
  simp only [loadBank?, Mode.bankNumber_eq, Vector.getElem?_eq_getElem m.bank.isLt]
  rfl

@[simp] theorem setCpsr?_eq : s.setCpsr? x = some (s.setCpsr x) := by
  simp only [setCpsr?, storeBank?_eq, loadBank?_eq]
  rfl

@[simp] theorem setMode?_eq : s.setMode? m = some (s.setMode m) := setCpsr?_eq ..

@[simp] theorem restoreStatus?_eq : s.restoreStatus? = some s.restoreStatus := by
  simp only [restoreStatus?, restoreStatus, saved?_eq]
  split
  · exact setCpsr?_eq ..
  · rfl

@[simp] theorem enterException?_eq (bus : Bus σ) (host : σ) (kind : Exception) (lr : Word) :
    s.enterException? bus host kind lr = some (s.enterException bus host kind lr) := by
  have lrs (s : CpuState) (x : Word) : s.setReg? 14 x = some (s.setReg .lr x) := s.setReg?_toNat .lr x
  have pcs (s : CpuState) (x : Word) : s.setReg? 15 x = some (s.setReg .pc x) := s.setReg?_toNat .pc x
  simp only [enterException?, setCpsr?_eq, setSaved?_eq, lrs, pcs]
  rfl

end CpuState

/-! ## Actions that may fail

A checked action has no answer where an access is outside. `Guest.Does` says that it always has one
and that it is the answer of the action it stands for; it has a rule for each way of putting actions
together.
-/

/-- An action on a machine that has no answer once an access was outside. -/
abbrev Checked (σ : Type) := StateT (Machine σ) Option

namespace Checked

/-- An action that makes no access by number. -/
def lift (x : Guest σ α) : Checked σ α := fun m => some (exec x m)

/-- Asks something of the processor. -/
def ask (f : CpuState → Option α) : Checked σ α := fun m => (f m.cpu).map fun a => (a, m)

/-- Changes the processor. -/
def onCpu (f : CpuState → Option CpuState) : Checked σ Unit := fun m =>
  (f m.cpu).map fun s => ((), { m with cpu := s })

/-- Reads the register of a number. -/
def read (pc : Word) (n : Nat) : Checked σ Word := ask (·.read? pc n)

/-- Reads the register of a number one pipeline stage later. -/
def readLate (pc : Word) (n : Nat) : Checked σ Word := ask (·.readLate? pc n)

/-- Writes the register of a number. -/
def write (n : Nat) (x : Word) : Checked σ Unit := onCpu (·.write? n x)

/-- Enters the handler of an exception. -/
def enter (bus : Bus σ) (kind : Exception) (lr : Word) : Checked σ Unit := fun m =>
  (m.cpu.enterException? bus m.host kind lr).map fun (cpu, host) => ((), { m with cpu, host })

/-- Raises a data abort. -/
def dataAbort (bus : Bus σ) (pc : Word) : Checked σ Continuation := do
  let s ← lift Guest.cpu
  enter bus .dataAbort (s.addressOf pc + 8)
  return .leave .early

/-- On a machine with the processor `s`, the first never fails and does what the second does. -/
def DoesFrom (s : CpuState) (x : Checked σ α) (y : Guest σ α) : Prop :=
  ∀ m, m.cpu = s → x m = some (exec y m)

/-- On every machine. -/
def Does (x : Checked σ α) (y : Guest σ α) : Prop := ∀ m, x m = some (exec y m)

theorem Does.from {x : Checked σ α} {y : Guest σ α} (h : Does x y) (s : CpuState) :
    DoesFrom s x y := fun m _ => h m

namespace DoesFrom

variable {s : CpuState}

theorem bind {x : Checked σ α} {y : Guest σ α} {f : α → Checked σ β} {g : α → Guest σ β}
    (hx : DoesFrom s x y) (hf : ∀ a, Does (f a) (g a)) : DoesFrom s (x >>= f) (y >>= g) := by
  intro m same
  show (x m).bind _ = _
  rw [hx m same]
  exact hf _ _

/-- What is asked of the processor has an answer. -/
theorem ask {f : CpuState → Option α} {a : α} {k : α → Checked σ β} {y : Guest σ β}
    (answer : f s = some a) (hk : DoesFrom s (k a) y) : DoesFrom s (Checked.ask f >>= k) y := by
  intro m same
  subst same
  show ((f m.cpu).map _).bind _ = _
  rw [answer]
  exact hk m rfl

theorem read {pc : Word} {r : Reg} {k : Word → Checked σ β} {y : Guest σ β}
    (hk : DoesFrom s (k (s.read pc r)) y) : DoesFrom s (Checked.read pc r.toNat >>= k) y :=
  ask (s.read?_toNat pc r) hk

theorem readLate {pc : Word} {r : Reg} {k : Word → Checked σ β} {y : Guest σ β}
    (hk : DoesFrom s (k (s.readLate pc r)) y) : DoesFrom s (Checked.readLate pc r.toNat >>= k) y :=
  ask (s.readLate?_toNat pc r) hk

/-- Either of the two may look at the processor. -/
theorem looks {f : CpuState → Checked σ β} {y : Guest σ β} (h : DoesFrom s (f s) y) :
    DoesFrom s (lift Guest.cpu >>= f) y := by
  intro m same
  subst same
  exact h m rfl

theorem seen {x : Checked σ β} {g : CpuState → Guest σ β} (h : DoesFrom s x (g s)) :
    DoesFrom s x (Guest.cpu >>= g) := by
  intro m same
  subst same
  exact h m rfl

/-- An access to memory leaves the processor as it is. -/
theorem access {x : Guest σ α} {f : α → Checked σ β} {g : α → Guest σ β} (asks : Guest.AsksHost x)
    (hf : ∀ a, DoesFrom s (f a) (g a)) : DoesFrom s (lift x >>= f) (x >>= g) := by
  intro m same
  obtain ⟨answer, h⟩ := asks
  have left : (exec x m).2.cpu = s := by
    rw [h]
    exact same
  exact hf _ _ left

theorem ite {c : Prop} [Decidable c] {x y : Checked σ α} {z w : Guest σ α} (hx : DoesFrom s x z)
    (hy : DoesFrom s y w) : DoesFrom s (if c then x else y) (if c then z else w) := by
  split
  · exact hx
  · exact hy

end DoesFrom

namespace Does

theorem pure {a : α} : Does (Pure.pure a : Checked σ α) (Pure.pure a) := fun _ => rfl

theorem lift {x : Guest σ α} : Does (Checked.lift x) x := fun _ => rfl

theorem bind {x : Checked σ α} {y : Guest σ α} {f : α → Checked σ β} {g : α → Guest σ β}
    (hx : Does x y) (hf : ∀ a, Does (f a) (g a)) : Does (x >>= f) (y >>= g) := fun m =>
  (hx.from m.cpu).bind hf m rfl

theorem ite {c : Prop} [Decidable c] {x y : Checked σ α} {z w : Guest σ α} (hx : Does x z)
    (hy : Does y w) : Does (if c then x else y) (if c then z else w) := by
  split
  · exact hx
  · exact hy

/-- The processor that is met decides. -/
theorem look {x : Checked σ α} {f : CpuState → Guest σ α} (h : ∀ s, DoesFrom s x (f s)) :
    Does x (Guest.cpu >>= f) := fun m => (h m.cpu).seen m rfl

theorem onCpu {f : CpuState → Option CpuState} {g : CpuState → CpuState}
    (h : ∀ s, f s = some (g s)) : Does (Checked.onCpu f : Checked σ Unit) (Guest.modifyCpu g) := by
  intro m
  show (f m.cpu).map _ = _
  rw [h]
  rfl

theorem write {r : Reg} {x : Word} :
    Does (Checked.write r.toNat x : Checked σ Unit) (Guest.write r x) :=
  onCpu fun s => s.write?_toNat r x

theorem writePc {x : Word} : Does (Checked.write 15 x : Checked σ Unit) (Guest.write .pc x) :=
  onCpu fun s => s.write?_pc x

theorem enter {bus : Bus σ} {kind : Exception} {lr : Word} :
    Does (Checked.enter bus kind lr) (Guest.enter bus kind lr) := by
  intro m
  show (m.cpu.enterException? bus m.host kind lr).map _ = _
  rw [CpuState.enterException?_eq]
  rfl

theorem dataAbort {bus : Bus σ} {pc : Word} :
    Does (Checked.dataAbort bus pc) (Guest.dataAbort bus pc) :=
  bind lift fun _ => bind enter fun _ => pure

end Does

end Checked

end ArmBlocks
