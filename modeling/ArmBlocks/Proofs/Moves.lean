import Mathlib.Logic.Relation
import ArmBlocks.Proofs.Tracking
import ArmBlocks.Proofs.Observers

/-!
# What a block can do to a processor

Whatever instructions a block is made of, there are few ways in which they get at the banks and at
the status bits below the flags. `Move` lists them: nothing at all (`Move.work`, which is what almost
every instruction does), one write to a status register in each of the three ways there are, a
software interrupt that the host looks at, the entry of an exception, and a block transfer that
borrows the registers of User mode and gives them back.

**A call of the engine is a sequence of moves** (`Engine.moves_turn`), for every block, every engine
and every host. What one move preserves is therefore preserved by a call, and nothing that follows
from this looks at an instruction again.

Most actions only work (`Guest.Works`), and the rules for those are one set; the others lead from one
condition on processor and host to another (`Guest.Leads`), with the rules of a program logic. Only
the block transfer needs a condition of its own: between its switches the processor is not one that
moves have led to, but the borrowed state of one (`Lent`).
-/

set_option autoImplicit false

namespace ArmBlocks

/-! ## Work on the processor alone -/

namespace CpuState

/-- The status registers agree in the bits 0 to 4 and 6 to 23: in everything but the condition flags
and the instruction set. The mode and what masks interrupts are there. -/
def SameControl (s t : CpuState) : Prop :=
  ∀ i < 24, i ≠ Flag.thumb.bit → t.cpsr.getLsbD i = s.cpsr.getLsbD i

theorem SameControl.refl (s : CpuState) : s.SameControl s := fun _ _ _ => rfl

theorem SameControl.trans {s t u : CpuState} (h : s.SameControl t) (h' : t.SameControl u) :
    s.SameControl u :=
  fun i low other => (h' i low other).trans (h i low other)

/-- Equal status registers agree in these bits too. -/
theorem SameControl.of_eq {s t : CpuState} (h : t.cpsr = s.cpsr) : s.SameControl t :=
  fun _ _ _ => by rw [h]

theorem SameControl.modeBits {s t : CpuState} (h : s.SameControl t) :
    t.cpsr.setWidth 5 = s.cpsr.setWidth 5 := by
  refine BitVec.eq_of_getLsbD_eq fun i low => ?_
  have apart : i ≠ Flag.thumb.bit := by
    show i ≠ 5
    omega
  rw [BitVec.getLsbD_setWidth, BitVec.getLsbD_setWidth, h i (by omega) apart]

theorem SameControl.mode {s t : CpuState} (h : s.SameControl t) : t.mode = s.mode := by
  unfold CpuState.mode Mode.ofBits?
  rw [h.modeBits]

/-- The processor has the same mode and interrupt bits and the same banks; registers, condition flags
and the instruction set may differ. -/
structure Computes (s t : CpuState) : Prop where
  status : s.SameControl t
  banks : t.banks = s.banks

theorem Computes.refl (s : CpuState) : s.Computes s := ⟨.refl s, rfl⟩

theorem Computes.trans {s t u : CpuState} (h : s.Computes t) (h' : t.Computes u) : s.Computes u :=
  ⟨h.status.trans h'.status, h'.banks.trans h.banks⟩

variable (s : CpuState)

theorem computes_setReg (r : Reg) (x : Word) : s.Computes (s.setReg r x) :=
  ⟨.refl s, rfl⟩

theorem computes_write (r : Reg) (x : Word) : s.Computes (s.write r x) := by
  unfold write
  split
  · exact s.computes_setReg .pc _
  · exact s.computes_setReg r x

/-- The flags that instructions record lie above the mode and interrupt bits. -/
theorem computes_setFlag (f : Flag) (on : Bool) (recorded : f ≠ .irqDisable ∧ f ≠ .fiqDisable) :
    s.Computes (s.setFlag f on) := by
  refine ⟨fun i low other => ?_, rfl⟩
  have elsewhere : f.bit ≠ i := by
    rintro rfl
    cases f with
    | neg | zero | carry | overflow | clamped => exact absurd low (by decide)
    | irqDisable => exact recorded.1 rfl
    | fiqDisable => exact recorded.2 rfl
    | thumb => exact other rfl
  show Bits.test (Bits.put s.cpsr f.bit on) i = Bits.test s.cpsr i
  rw [Bits.test_put _ _ _ f.bit_lt, if_neg elsewhere]

theorem computes_linkIf (b : Bool) (link : Word) : s.Computes (s.linkIf b link) := by
  unfold linkIf
  split
  · exact s.computes_write .lr link
  · exact .refl s

theorem computes_loadPc (x : Word) : s.Computes (s.loadPc x) := by
  unfold loadPc
  split
  · exact (s.computes_setFlag .thumb _ (by decide)).trans (computes_write _ .pc x)
  · exact s.computes_write .pc x

theorem computes_setNz (x : Word) : s.Computes (s.setNz x) :=
  (s.computes_setFlag .neg _ (by decide)).trans (computes_setFlag _ .zero _ (by decide))

theorem computes_setNzc (x : Word) (carry : Bool) : s.Computes (s.setNzc x carry) :=
  (s.computes_setNz x).trans (computes_setFlag _ .carry _ (by decide))

theorem computes_setNzcv (sum : Sum) : s.Computes (s.setNzcv sum) :=
  (s.computes_setNzc _ _).trans (computes_setFlag _ .overflow _ (by decide))

/-- Recording nothing, or what has been shown to be computing. -/
theorem computes_ite {c : Bool} {t : CpuState} (h : s.Computes t) :
    s.Computes (if c then t else s) := by
  split
  · exact h
  · exact .refl s

theorem computes_process (pc : Word) (op : AluOp) (set : Bool) (rn : Reg) (operand : Operand) :
    s.Computes (s.process pc op set rn operand).2 := by
  have logical (x : Word) (carry : Bool) := s.computes_ite (c := set) (s.computes_setNzc x carry)
  have sum (x : Sum) := s.computes_ite (c := set) (s.computes_setNzcv x)
  cases op with
  | and | eor | tst | teq | orr | mov | bic | mvn => exact logical _ _
  | sub | rsb | add | adc | sbc | rsc | cmp | cmn => exact sum _

/-- A multiplication writes registers and flags, and none of the control bits. -/
theorem computes_multiply (pc : Word) (op : MulOp) (set : Bool) (rd rn rs rm : Reg) :
    s.Computes (s.multiply pc op set rd rn rs rm) := by
  have both (x y : Word) : s.Computes ((s.write rn x).write rd y) :=
    (s.computes_write rn x).trans (computes_write _ rd y)
  unfold multiply
  cases op.isLong with
  | true =>
    cases set with
    | true =>
      exact ((both _ _).trans (computes_setFlag _ .neg _ (by decide))).trans
        (computes_setFlag _ .zero _ (by decide))
    | false => exact both _ _
  | false =>
    cases set with
    | true => exact (s.computes_write rd _).trans (computes_setNz _ _)
    | false => exact s.computes_write rd _

theorem computes_clamp (c : Bool) : s.Computes (if c then s.setFlag .clamped true else s) :=
  s.computes_ite (s.computes_setFlag .clamped true (by decide))

theorem computes_accumulate (rd : Reg) (product acc : Word) :
    s.Computes (s.accumulate rd product acc) :=
  (s.computes_clamp _).trans (computes_write _ rd _)

theorem computes_multiplyHalves (pc : Word) (op : HalfMulOp) (rd rn rs rm : Reg)
    (xTop yTop : Bool) : s.Computes (s.multiplyHalves pc op rd rn rs rm xTop yTop) := by
  cases op with
  | smla | smlaw => exact s.computes_accumulate rd _ _
  | smulw | smul => exact s.computes_write rd _
  | smlal => exact (s.computes_write rn _).trans (computes_write _ rd _)

theorem computes_saturate (pc : Word) (op : SatOp) (rd rn rm : Reg) :
    s.Computes (s.saturate pc op rd rn rm) :=
  (s.computes_clamp _).trans (computes_write _ rd _)

theorem computes_branch (link : Word) (links exchange : Bool) (target : Word) :
    s.Computes (s.branch link links exchange target) := by
  have linked := s.computes_linkIf links link
  cases exchange with
  | true => exact (linked.trans (computes_setFlag _ .thumb _ (by decide))).trans (computes_write _ .pc _)
  | false => exact linked.trans (computes_write _ .pc _)

theorem computes_branchExchange (pc link : Word) (links : Bool) (rm : Reg) :
    s.Computes (s.branchExchange pc link links rm) :=
  ((s.computes_linkIf links link).trans (computes_setFlag _ .thumb _ (by decide))).trans
    (computes_write _ .pc _)

theorem computes_linkSuffix (link offset : Word) (exchange : Bool) :
    s.Computes (s.linkSuffix link offset exchange) := by
  have linked := s.computes_write .lr link
  cases exchange with
  | true => exact (linked.trans (computes_setFlag _ .thumb _ (by decide))).trans (computes_write _ .pc _)
  | false => exact linked.trans (computes_write _ .pc _)

/-- Loading registers is computing. -/
theorem computes_setLoaded (loaded : List (Reg × Word)) :
    ∀ s : CpuState, s.Computes (s.setLoaded loaded) := by
  induction loaded with
  | nil => exact .refl
  | cons head rest ih =>
    intro s
    refine Computes.trans ?_ (ih (if head.1 = .pc then s else s.setReg head.1 head.2))
    split
    · exact .refl s
    · exact s.computes_setReg _ _

/-- A coprocessor that answers to the program counter sets the condition flags and nothing else. -/
theorem computes_readControl (rd : Reg) (x : Word) : s.Computes
    (if rd = .pc then s.setFlags ((s.cpsr &&& 0x0FFFFFFF) ||| (x &&& 0xF0000000))
      else s.write rd x) := by
  have below : ∀ i < 24, (0x0FFFFFFF#32).getLsbD i = true ∧ (0xF0000000#32).getLsbD i = false := by
    decide
  split
  · refine ⟨fun i low _ => ?_, rfl⟩
    obtain ⟨kept, clear⟩ := below i low
    show ((s.cpsr &&& 0x0FFFFFFF#32) ||| (x &&& 0xF0000000#32)).getLsbD i = _
    rw [BitVec.getLsbD_or, BitVec.getLsbD_and, BitVec.getLsbD_and, kept, clear, Bool.and_true,
      Bool.and_false, Bool.or_false]
  · exact s.computes_write rd x

end CpuState

/-! ## Questions to the host

A host is asked for a word, for a wait or for a control register, and it may change as it answers.
What is asked leaves the processor alone.
-/

variable {σ : Type}

/-- One question to the host that is not a hook: what the host becomes by it. -/
inductive Bus.Ask (bus : Bus σ) : σ → σ → Prop where
  | get (host : σ) (cpu : Cpu) (w : Width) (addr : Word) : Ask bus host (bus.get host cpu w addr).2
  | set (host : σ) (cpu : Cpu) (w : Width) (addr x : Word) :
    Ask bus host (bus.set host cpu w addr x).2
  | waitTime (host : σ) (cpu : Cpu) (w : Width) (addr : Word) (access : Access) :
    Ask bus host (bus.waitTime host cpu w addr access).2
  | controlWrite (host : σ) (cpu : Cpu) (x : Word) (r : ControlRegister) :
    Ask bus host (bus.controlWrite host cpu x r)
  | controlRead (host : σ) (cpu : Cpu) (r : ControlRegister) :
    Ask bus host (bus.controlRead host cpu r).2

/-- Questions one after the other. -/
abbrev Bus.Asks (bus : Bus σ) : σ → σ → Prop := Relation.ReflTransGen bus.Ask

namespace Bus

variable (bus : Bus σ)

/-- A read asks for the value, and then for how long it took if there was one. -/
theorem asks_read (host : σ) (cpu : Cpu) (w : Width) (addr : Word) (access : Access) :
    bus.Asks host (bus.read host cpu w addr access).2 := by
  have got : bus.Asks host (bus.get host cpu w (Address.align addr (BitVec.ofNat 32 w.bytes))).2 :=
    .single (.get host cpu w _)
  unfold Bus.read
  dsimp only
  generalize bus.get host cpu w (Address.align addr (BitVec.ofNat 32 w.bytes)) = answer at got ⊢
  obtain ⟨_ | value, after⟩ := answer
  · exact got
  · exact got.tail (.waitTime after cpu w _ access)

/-- So does a write. -/
theorem asks_write (host : σ) (cpu : Cpu) (w : Width) (addr value : Word) (access : Access) :
    bus.Asks host (bus.write host cpu w addr value access).2 := by
  have put : bus.Asks host
      (bus.set host cpu w (Address.align addr (BitVec.ofNat 32 w.bytes)) (w.cut value)).2 :=
    .single (.set host cpu w _ _)
  unfold Bus.write
  dsimp only
  generalize bus.set host cpu w (Address.align addr (BitVec.ofNat 32 w.bytes)) (w.cut value) =
    answer at put ⊢
  obtain ⟨_ | _, after⟩ := answer
  · exact put
  · exact put.tail (.waitTime after cpu w _ access)

end Bus

namespace Decode

variable (bus : Bus σ) (cpu : Cpu) (thumb : Bool)

theorem asks_fetch (addr : Word) (host : σ) : bus.Asks host (fetch bus cpu thumb addr host).2 := by
  unfold fetch
  split
  · exact .single (.get host cpu .half addr)
  · exact .single (.get host cpu .word addr)

/-- Decoding asks for code only. -/
theorem asks_instructions (limit : Nat) :
    ∀ (addr : Word) (host : σ), bus.Asks host (instructions bus cpu thumb limit addr host).2 := by
  induction limit with
  | zero => intro addr host; exact .refl
  | succ limit ih =>
    intro addr host
    have fetched := asks_fetch bus cpu thumb addr host
    unfold instructions
    generalize fetch bus cpu thumb addr host = answer at fetched ⊢
    obtain ⟨_ | i, after⟩ := answer
    · exact fetched
    · dsimp only
      split
      · exact fetched
      · exact fetched.trans (ih i.next after)

theorem asks_run (start : Word) (limit : Nat) (host : σ) :
    bus.Asks host (run bus cpu start thumb limit host).2 :=
  asks_instructions bus cpu thumb _ start host

end Decode

/-! ## Moves

Moves are steps of a processor and its host. What each of them preserves is preserved along all
(`Moves.preserve`), which is the only induction that the consequences need.
-/

/-- Computing on the processor and asking the host. -/
structure Work (bus : Bus σ) (a b : CpuState × σ) : Prop where
  cpu : a.1.Computes b.1
  host : bus.Asks a.2 b.2

theorem Work.refl (bus : Bus σ) (a : CpuState × σ) : Work bus a a := ⟨.refl _, .refl⟩

theorem Work.trans {bus : Bus σ} {a b c : CpuState × σ} (h : Work bus a b) (h' : Work bus b c) :
    Work bus a c :=
  ⟨h.cpu.trans h'.cpu, h.host.trans h'.host⟩

/-- One thing that instructions do to a processor and its host. -/
inductive Move (bus : Bus σ) : CpuState × σ → CpuState × σ → Prop where
  /-- Nothing but work. -/
  | work {a b : CpuState × σ} (h : Work bus a b) : Move bus a b
  /-- A write to the current status register. -/
  | writeStatus (s : CpuState) (host : σ) (x mask : Word) :
    Move bus (s, host) (bus.statusChanged host (s.writeStatus x mask))
  /-- A return to the saved status register. -/
  | restoreStatus (s : CpuState) (host : σ) : Move bus (s, host) (bus.statusChanged host s.restoreStatus)
  /-- A write to the saved status register. -/
  | writeSaved (s : CpuState) (host : σ) (x mask : Word) : Move bus (s, host) (s.writeSaved x mask, host)
  /-- A software interrupt, as far as the host sees to it. -/
  | trap (s : CpuState) (host : σ) (comment : Word) :
    Move bus (s, host) (bus.softwareInterrupt host s comment).2
  /-- The entry of an exception. -/
  | enter (s : CpuState) (host : σ) (kind : Exception) (lr : Word) :
    Move bus (s, host) (s.enterException bus host kind lr)
  /-- Work on the registers of User mode, which are given back before anything else happens. -/
  | borrow {s : CpuState} {host : σ} {b : CpuState × σ} (h : Work bus (s.setMode .system, host) b) :
    Move bus (s, host) (b.1.setCpsr s.cpsr, b.2)

/-- Moves one after the other. -/
abbrev Moves (bus : Bus σ) : CpuState × σ → CpuState × σ → Prop := Relation.ReflTransGen (Move bus)

/-- What every move preserves is preserved by moves. -/
theorem Moves.preserve {bus : Bus σ} {P : CpuState × σ → Prop}
    (step : ∀ {a b}, Move bus a b → P a → P b) {a b : CpuState × σ} (moves : Moves bus a b) (h : P a) :
    P b := by
  induction moves with
  | refl => exact h
  | tail _ last ih => exact step last ih

/-! ## Actions that only work

An action works if whatever it does to the processor is work, and whatever else it does is to ask the
host. The rules are those for putting actions together.
-/

/-- What there is to say of a machine between its instructions. -/
def Machine.sight (m : Machine σ) : CpuState × σ := (m.cpu, m.host)

namespace Guest

variable {α β : Type}

/-- An action that does nothing but work. -/
def Works (bus : Bus σ) (x : Guest σ α) : Prop := ∀ m, Work bus m.sight (exec x m).2.sight

namespace Works

variable {bus : Bus σ}

theorem pure {a : α} : Works bus (Pure.pure a : Guest σ α) := fun _ => .refl bus _

theorem bind {x : Guest σ α} {f : α → Guest σ β} (hx : Works bus x) (hf : ∀ a, Works bus (f a)) :
    Works bus (x >>= f) :=
  fun m => (hx m).trans (hf (exec x m).1 (exec x m).2)

theorem look {f : CpuState → Guest σ α} (hf : ∀ s, Works bus (f s)) : Works bus (cpu >>= f) :=
  fun m => hf m.cpu m

theorem ite {c : Prop} [Decidable c] {x y : Guest σ α} (hx : Works bus x) (hy : Works bus y) :
    Works bus (if c then x else y) := by
  split
  · exact hx
  · exact hy

theorem modifyCpu {f : CpuState → CpuState} (h : ∀ s : CpuState, s.Computes (f s)) :
    Works bus (Guest.modifyCpu f : Guest σ Unit) :=
  fun m => ⟨h m.cpu, .refl⟩

theorem write {r : Reg} {x : Word} : Works bus (Guest.write r x : Guest σ Unit) :=
  modifyCpu fun s => s.computes_write r x

theorem spend {cycles : Word} : Works bus (Guest.spend cycles : Guest σ Unit) :=
  fun _ => .refl bus _

theorem spendWithMemory {cycles memory : Word} :
    Works bus (Guest.spendWithMemory cycles memory : Guest σ Unit) :=
  look fun _ => spend

theorem notify {n : Notice} : Works bus (Guest.notify n : Guest σ Unit) := fun _ => .refl bus _

theorem load {w : Width} {addr : Word} {access : Access} : Works bus (Guest.load bus w addr access) :=
  fun m => ⟨.refl _, bus.asks_read m.host m.cpu.cpu w addr access⟩

theorem store {w : Width} {addr x : Word} {access : Access} :
    Works bus (Guest.store bus w addr x access) :=
  fun m => ⟨.refl _, bus.asks_write m.host m.cpu.cpu w addr x access⟩

theorem loadOne {kind : TransferKind} {addr : Word} : Works bus (Guest.loadOne bus kind addr) :=
  look fun _ => bind load fun _ => pure

/-- A load of a pair works. -/
theorem loadPair {addr : Word} : Works bus (Guest.loadPair bus addr) := by
  refine bind load fun low? => ?_
  cases low? with
  | none => exact pure
  | some low =>
    refine bind load fun high? => ?_
    cases high? with
    | none => exact pure
    | some high => exact pure

/-- A store of one value or a pair works. -/
theorem storeOne {kind : TransferKind} {addr low high : Word} :
    Works bus (Guest.storeOne bus kind addr low high) := by
  unfold Guest.storeOne
  split
  · exact store
  · exact store
  · refine bind store fun first? => ?_
    cases first? with
    | none => exact pure
    | some first =>
      refine bind store fun second? => ?_
      cases second? with
      | none => exact pure
      | some second => exact pure
  · exact store

/-- A load of words works. -/
theorem loadWords :
    ∀ {count : Nat} {addr : Word} {access : Access}, Works bus (Guest.loadWords bus count addr access)
  | 0, _, _ => pure
  | count + 1, addr, access => by
    refine bind load fun x? => ?_
    cases x? with
    | none => exact pure
    | some x =>
      refine bind loadWords fun rest? => ?_
      cases rest? with
      | none => exact pure
      | some rest => exact pure

/-- A store of words works. -/
theorem storeWords :
    ∀ {values : List Word} {addr : Word} {access : Access},
      Works bus (Guest.storeWords bus values addr access)
  | [], _, _ => pure
  | x :: rest, addr, access => by
    refine bind store fun wait? => ?_
    cases wait? with
    | none => exact pure
    | some wait =>
      refine bind storeWords fun total? => ?_
      cases total? with
      | none => exact pure
      | some total => exact pure

theorem coproc (pc : Word) (load : Bool) (cp : BitVec 4) (r : ControlRegister) (rd : Reg) :
    Works bus (Guest.coproc bus pc load cp r rd) := by
  have write : Works bus (Guest.controlWrite bus pc r rd) :=
    fun m => ⟨.refl _, .single (.controlWrite m.host m.cpu.cpu _ r)⟩
  have read : Works bus (Guest.controlRead bus r rd) :=
    fun m => ⟨m.cpu.computes_readControl rd _, .single (.controlRead m.host m.cpu.cpu r)⟩
  exact ite (ite (bind read fun _ => pure) (bind write fun _ => pure)) pure

end Works

/-! ## Actions that lead on -/

/-- From processors and hosts with the one property, an action leads to such with the other. -/
def Leads (P Q : CpuState × σ → Prop) (x : Guest σ α) : Prop :=
  ∀ m, P m.sight → Q (exec x m).2.sight

namespace Leads

variable {bus : Bus σ} {o : CpuState × σ} {P Q R : CpuState × σ → Prop}

theorem pure {a : α} : Leads P P (Pure.pure a : Guest σ α) := fun _ => id

theorem bind {x : Guest σ α} {f : α → Guest σ β} (hx : Leads P Q x) (hf : ∀ a, Leads Q R (f a)) :
    Leads P R (x >>= f) :=
  fun m h => hf (exec x m).1 (exec x m).2 (hx m h)

/-- What is seen of the processor may be used. -/
theorem look {f : CpuState → Guest σ α} (hf : ∀ s, Leads (fun a => P a ∧ a.1 = s) Q (f s)) :
    Leads P Q (cpu >>= f) :=
  fun m h => hf m.cpu m ⟨h, rfl⟩

/-- What is seen of the processor does not matter. -/
theorem glance {f : CpuState → Guest σ α} (hf : ∀ s, Leads P Q (f s)) : Leads P Q (cpu >>= f) :=
  fun m h => hf m.cpu m h

theorem ite {c : Prop} [Decidable c] {x y : Guest σ α} (hx : c → Leads P Q x)
    (hy : ¬c → Leads P Q y) : Leads P Q (if c then x else y) := by
  split
  · exact hx ‹_›
  · exact hy ‹_›

theorem weaken {x : Guest σ α} (h : Leads Q R x) (weaker : ∀ {a}, P a → Q a) : Leads P R x :=
  fun m holds => h m (weaker holds)

/-- Work leads nowhere else where work does not matter. -/
theorem work {x : Guest σ α} (absorbs : ∀ {a b}, P a → Work bus a b → P b) (works : Works bus x) :
    Leads P P x :=
  fun m h => absorbs h (works m)

end Leads

/-- What moves lead to, work leads to. -/
theorem absorb_moves {bus : Bus σ} {o a b : CpuState × σ} (h : Moves bus o a) (w : Work bus a b) :
    Moves bus o b :=
  h.tail (.work w)

/-- An action that makes moves: where moves led before it, moves lead after it. -/
abbrev Goes (bus : Bus σ) (o : CpuState × σ) (x : Guest σ α) : Prop :=
  Leads (Moves bus o) (Moves bus o) x

/-- The processor works on the registers of User mode, which it borrowed in a state that moves had
led to. -/
def Lent (bus : Bus σ) (o : CpuState × σ) (before : CpuState) (b : CpuState × σ) : Prop :=
  ∃ host, Moves bus o (before, host) ∧ Work bus (before.setMode .system, host) b

section Operations

variable {bus : Bus σ} {o : CpuState × σ} {before : CpuState}

theorem Works.goes {x : Guest σ α} (works : Works bus x) : Goes bus o x := .work absorb_moves works

theorem absorb_lent {a b : CpuState × σ} (h : Lent bus o before a) (w : Work bus a b) :
    Lent bus o before b := by
  obtain ⟨host, moves, work⟩ := h
  exact ⟨host, moves, work.trans w⟩

theorem leads_borrow : Leads (fun a => Moves bus o a ∧ a.1 = before) (Lent bus o before)
    (modifyCpu (·.setMode .system) : Guest σ Unit) := by
  rintro m ⟨moves, rfl⟩
  exact ⟨m.host, moves, .refl bus _⟩

theorem leads_giveBack :
    Leads (Lent bus o before) (Moves bus o) (modifyCpu (·.setCpsr before.cpsr) : Guest σ Unit) := by
  rintro m ⟨host, moves, work⟩
  exact moves.tail (Move.borrow (b := m.sight) work)

theorem goes_next : Goes bus o (pure .next : Guest σ Continuation) := .pure

theorem goes_enter {kind : Exception} {lr : Word} : Goes bus o (enter bus kind lr) :=
  fun m moves => moves.tail (.enter m.cpu m.host kind lr)

/-- A return to the saved status is one move, the notice to the host included. -/
theorem goes_restore {rest : Unit → Guest σ α} (h : ∀ u, Goes bus o (rest u)) :
    Goes bus o (modifyCpu (·.restoreStatus) >>= fun _ => statusChanged bus >>= rest) :=
  fun m moves => h () _ (moves.tail (.restoreStatus m.cpu m.host))

variable (pc cost : Word)

theorem goes_dataAbort : Goes bus o (dataAbort bus pc) :=
  .glance fun _ => .bind goes_enter fun _ => .pure

/-- Data processing is work, and maybe a restored status with work behind it. -/
theorem goes_alu (op : AluOp) (s : Bool) (rd rn : Reg) (operand : Operand) :
    Goes bus o (alu bus pc op s rd rn operand) := by
  rw [alu_eq]
  -- the processor is put back as a whole, which is work because it is the one that was seen
  refine .look fun t => .bind (Q := Moves bus o) ?_ fun _ => ?_
  · rintro m ⟨moves, rfl⟩
    exact moves.tail (.work ⟨m.cpu.computes_process pc op _ rn operand, .refl⟩)
  · refine .ite (fun _ => .ite (fun _ => ?_) fun _ => ?_) fun _ => goes_next
    · exact goes_restore fun _ => .bind Works.write.goes fun _ => goes_next
    · exact .bind Works.write.goes fun _ => goes_next

theorem goes_writeStatus (saved : Bool) (fields : BitVec 4) (source : StatusSource) :
    Goes bus o (writeStatus bus pc saved fields source) := by
  refine .glance fun s => .ite (fun _ m moves => ?_) fun _ m moves => ?_
  · exact moves.tail (.writeSaved m.cpu m.host _ _)
  · exact moves.tail (.writeStatus m.cpu m.host _ _)

/-- A load or store is work, or an access that failed and the handler. -/
theorem goes_transfer (kind : TransferKind) (rd rn : Reg) (offset : Offset) (index : IndexMode)
    (up : Bool) : Goes bus o (transfer bus pc cost kind rd rn offset index up) := by
  have moveBase (moved : Word) : Works bus
      (if index ≠ .pre ∧ rn ≠ .pc then write rn moved else pure () : Guest σ Unit) :=
    .ite .write .pure
  have finish (wait : Wait) : Works bus (do
      spendWithMemory cost (wait.setWidth 32)
      return .next : Guest σ Continuation) := .bind .spendWithMemory fun _ => .pure
  refine .glance fun s => .ite (fun _ => .bind Works.storeOne.goes fun wait? => ?_) fun _ =>
    .ite (fun _ => .bind Works.loadPair.goes fun pair? => ?_) fun _ =>
      .bind Works.loadOne.goes fun x? => ?_
  · cases wait? with
    | none => exact goes_dataAbort pc
    | some wait => exact (Works.bind (moveBase _) fun _ => finish wait).goes
  · cases pair? with
    | none => exact goes_dataAbort pc
    | some pair =>
      exact (Works.bind (moveBase _) fun _ => .bind .write fun _ => .bind .write fun _ =>
        finish pair.2.2).goes
  · cases x? with
    | none => exact goes_dataAbort pc
    | some x =>
      refine (Works.bind (moveBase _) fun _ => .ite ?_ ?_).goes
      · exact .bind (.modifyCpu fun t => t.computes_loadPc x.1) fun _ => finish x.2
      · exact .bind .write fun _ => finish x.2

/-- So is a swap. -/
theorem goes_swap (byte : Bool) (rd rn rm : Reg) :
    Goes bus o (swap bus pc cost byte rd rn rm) := by
  refine .glance fun s => .bind Works.loadOne.goes fun old? => ?_
  cases old? with
  | none => exact goes_dataAbort pc
  | some old =>
    refine .bind Works.storeOne.goes fun wait? => ?_
    cases wait? with
    | none => exact goes_dataAbort pc
    | some wait =>
      exact (Works.bind .write fun _ => .bind .spendWithMemory fun _ => .pure).goes

theorem goes_finishPc (restore : Bool) (x : Word) : Goes bus o (finishPc bus restore x) :=
  .ite (fun _ => goes_restore fun _ => Works.write.goes) fun _ =>
    (Works.modifyCpu fun s => s.computes_loadPc x).goes

section BlockTransfer

/-! A block transfer may run in a borrowed bank, so what comes before the bank is left is stated for
any condition `P` that work does not disturb. -/

variable {P : CpuState × σ → Prop} (absorbs : ∀ {a b}, P a → Work bus a b → P b)
  {moveBase leaveBank : Guest σ Unit} (move : Works bus moveBase)
  (leave : Leads P (Moves bus o) leaveBank)

include absorbs move leave

/-- The loading half of a block transfer is work until the bank is left. It may go on with a restored
status. -/
theorem leads_loadBlock (lowest : Word) (list : RegSet) (user : Bool) :
    Leads P (Moves bus o) (loadBlock bus pc cost lowest list user moveBase leaveBank) := by
  refine .bind (.work absorbs .loadWords) fun loaded? => ?_
  cases loaded? with
  | none => exact .bind leave fun _ => goes_dataAbort pc
  | some loaded =>
    refine .bind (.work absorbs move) fun _ =>
      .bind (.work absorbs (.modifyCpu fun s => s.computes_setLoaded _)) fun _ =>
        .bind leave fun _ => ?_
    have spend : Goes bus o (do
        spendWithMemory cost loaded.2
        return .next : Guest σ Continuation) :=
      (Works.bind .spendWithMemory fun _ => .pure).goes
    dsimp only
    split
    · exact .bind (goes_finishPc user _) fun _ => spend
    · exact spend

theorem leads_storeBlock (lowest : Word) (values : List Word) :
    Leads P (Moves bus o) (storeBlock bus pc cost lowest values moveBase leaveBank) := by
  refine .bind (.work absorbs .storeWords) fun wait? => ?_
  cases wait? with
  | none => exact .bind leave fun _ => goes_dataAbort pc
  | some wait =>
    exact .bind leave fun _ => (Works.bind move fun _ => .bind .spendWithMemory fun _ => .pure).goes

end BlockTransfer

/-- A block transfer is work in the bank of the mode, or work in a bank that was borrowed and given back.
-/
theorem goes_blockTransfer (load : Bool) (mode : BlockMode) (writeback user : Bool) (rn : Reg)
    (list : RegSet) : Goes bus o (blockTransfer bus pc cost load mode writeback user rn list) := by
  have move (moved : Word) : Works bus
      (if writeback then write rn moved else pure () : Guest σ Unit) := .ite .write .pure
  -- the bank is left in the same way as it was entered, so the two cases of the switch stay apart
  refine .look fun before => .ite (fun borrowed => .bind leads_borrow fun _ => ?_) fun own => ?_
  · have leave : Leads (Lent bus o before) (Moves bus o)
        (if user && !(load && list.has .pc) then modifyCpu (·.setCpsr before.cpsr) else pure () :
          Guest σ Unit) := .ite (fun _ => leads_giveBack) fun own => absurd borrowed own
    refine .ite (fun _ => ?_) fun _ => .glance fun _ => ?_
    · exact leads_loadBlock pc cost absorb_lent (move _) leave _ list user
    · exact leads_storeBlock pc cost absorb_lent (move _) leave _ _
  · have leave : Goes bus o
        (if user && !(load && list.has .pc) then modifyCpu (·.setCpsr before.cpsr) else pure () :
          Guest σ Unit) := .ite (fun borrowed => absurd borrowed own) fun _ => .pure
    refine .weaken (Q := Moves bus o) (.ite (fun _ => ?_) fun _ => .glance fun _ => ?_) And.left
    · exact leads_loadBlock pc cost absorb_moves (move _) leave _ list user
    · exact leads_storeBlock pc cost absorb_moves (move _) leave _ _

/-- A software interrupt is the hook, and maybe the handler. -/
theorem goes_softwareInterrupt (comment : Word) :
    Goes bus o (softwareInterrupt bus pc cost comment) := by
  refine .bind (fun m moves => moves.tail (.trap m.cpu m.host comment)) fun handled => ?_
  -- that the handler was entered is remembered in the machine and not in the processor
  have settle (trapped : Bool) : Works bus (modify fun m => { m with trapped } : Guest σ Unit) :=
    fun _ => .refl bus _
  cases handled with
  | none =>
    exact .bind Works.spend.goes fun _ => .glance fun _ => .bind goes_enter fun _ =>
      (Works.bind (settle true) fun _ => .pure).goes
  | some cycles => exact (Works.bind .spend fun _ => .bind (settle false) fun _ => .pure).goes

theorem goes_undefined : Goes bus o (undefined bus pc cost) :=
  .bind Works.spend.goes fun _ => .glance fun _ => .bind goes_enter fun _ => .pure

end Operations

end Guest

open Guest (Goes Works)

variable {bus : Bus σ} {o : CpuState × σ}

/-- Every instruction makes moves. -/
theorem Action.goes_execute (a : Action) (pc : Word) : Goes bus o (a.execute bus pc) := by
  have onCpu {f : CpuState → CpuState} (h : ∀ s : CpuState, s.Computes (f s)) : Works bus (do
      Guest.modifyCpu f
      Guest.spend a.cost
      return .next : Guest σ Continuation) :=
    .bind (.modifyCpu h) fun _ => .bind .spend fun _ => .pure
  unfold Action.execute
  cases a.op with
  | alu op s rd rn operand => exact .bind Works.spend.goes fun _ => Guest.goes_alu pc op s rd rn operand
  | mul op s rd rn rs rm =>
    exact (Works.look fun _ => .bind .spend fun _ =>
      onCpu fun t => t.computes_multiply pc op s rd rn rs rm).goes
  | halfMul op rd rn rs rm xTop yTop =>
    exact (onCpu fun t => t.computes_multiplyHalves pc op rd rn rs rm xTop yTop).goes
  | clz rd rm => exact (onCpu fun t => t.computes_write rd _).goes
  | sat op rd rn rm => exact (onCpu fun t => t.computes_saturate pc op rd rn rm).goes
  | readStatus rd saved =>
    exact (Works.bind .spend fun _ => .bind (.modifyCpu fun t => t.computes_write rd _) fun _ =>
      .pure).goes
  | writeStatus saved fields source =>
    exact .bind Works.spend.goes fun _ => Guest.goes_writeStatus pc saved fields source
  | transfer kind rd rn offset index up =>
    exact Guest.goes_transfer pc a.cost kind rd rn offset index up
  | block load pre up writeback user rn list =>
    exact Guest.goes_blockTransfer pc a.cost load ⟨pre, up⟩ writeback user rn list
  | swap byte rd rn rm => exact Guest.goes_swap pc a.cost byte rd rn rm
  | branch links exchange target =>
    exact (onCpu fun t => t.computes_branch a.link links exchange target).goes
  | branchExchange links rm => exact (onCpu fun t => t.computes_branchExchange pc a.link links rm).goes
  | linkPrefix value => exact (onCpu fun t => t.computes_write .lr value).goes
  | linkSuffix offset exchange =>
    exact (onCpu fun t => t.computes_linkSuffix a.link offset exchange).goes
  | coproc load cp op1 cn cm op2 rd =>
    exact (Works.bind .spend fun _ => .coproc pc load cp _ rd).goes
  | softwareInterrupt comment => exact Guest.goes_softwareInterrupt pc a.cost comment
  | breakpoint =>
    exact (Works.look fun _ => .bind .notify fun _ => .bind .spend fun _ => .pure).goes
  | undefined => exact Guest.goes_undefined pc a.cost
  | nop cycles => exact (onCpu fun t => .refl t).goes

/-! ## Blocks

A block is walked node by node, and each node leads on from wherever the ones before it led.
-/

namespace Block

/-- Every node is work, a status change or the handler. -/
theorem goes_executeNode (kind : NodeKind) (record : Option Record) (pc : Word) :
    Goes bus o (executeNode bus kind record pc) := by
  have publish : Works bus (Block.publish : Guest σ Continuation) :=
    .bind (.modifyCpu fun s => ⟨.refl s, rfl⟩) fun _ => .pure
  unfold executeNode
  split
  · exact Action.goes_execute _ pc
  · exact (Works.look fun s => .ite .pure (.bind .spend fun _ => .pure)).goes
  · exact (Works.bind .spend fun _ => .pure).goes
  · exact (Works.bind (.modifyCpu fun s => s.computes_setReg .pc pc) fun _ => .pure).goes
  · exact publish.goes
  · intro m
    exact (Works.ite (c := m.trapped = true) publish .pure).goes m
  · rename_i next
    exact (Works.bind (.modifyCpu (f := fun s => { s with next }) fun s => ⟨.refl s, rfl⟩)
      fun _ => .pure).goes
  · exact .pure
  · exact .pure

/-- A walk through a block is made of these, however long it is. -/
theorem goes_walk (arena : Arena Record) (h : Block.Header) :
    ∀ fuel i, Goes bus o (walk bus arena h fuel i) := by
  intro fuel
  induction fuel with
  | zero => intro i; exact .pure
  | succ fuel ih =>
    intro i
    unfold walk
    refine .ite (fun _ => ?_) fun _ => .pure
    split
    · exact .pure
    · refine .bind (goes_executeNode _ _ _) fun after => ?_
      cases after with
      | next => exact ih _
      | jump target => exact ih _
      | leave exit => exact .pure

end Block

/-! ## Calls

A call decodes, compiles and runs. To decode is to ask the host, to compile leaves the processor alone
but for halting it, and to run is a sequence of moves.
-/

/-- A processor that is halted has done no more than work. -/
theorem Work.halt (bus : Bus σ) (s : CpuState) (host : σ) :
    Work bus (s, host) ({ s with halted := true }, host) :=
  ⟨⟨.refl s, rfl⟩, .refl⟩

/-- Compiling asks for code, and may halt the processor. -/
theorem CodeCache.work_compile (c : CodeCache) (bus : Bus σ) (config : Config) (s : CpuState)
    (host : σ) :
    Work bus (s, host) ((c.compile bus config s host).cpu, (c.compile bus config s host).host) := by
  have decoded : Work bus (s, host)
      (s, (Decode.run bus c.cpu s.next s.thumb config.maxBlockInstructions host).2) :=
    ⟨.refl s, Decode.asks_run bus c.cpu s.thumb s.next _ host⟩
  have kept : (c.makeRoom config).1.cpu = c.cpu := by
    unfold makeRoom
    split
    · rfl
    · rfl
  unfold compile
  dsimp only
  split
  · exact .halt bus s host
  · split
    · exact .refl bus _
    · rw [kept]
      split
      · exact decoded
      · exact decoded

namespace Engine

theorem work_obtainBlock (c : CodeCache) (bus : Bus σ) (config : Config) (s : CpuState) (host : σ) :
    Work bus (s, host)
      ((obtainBlock c bus config s host).cpu, (obtainBlock c bus config s host).host) := by
  unfold obtainBlock
  split
  · exact .refl bus _
  · exact c.work_compile bus config s host

theorem moves_runBlock (bus : Bus σ) (arena : Arena Record) (h : Block.Header) (s : CpuState)
    (host : σ) : Moves bus (s, host) (runBlock bus arena h s host).2.sight :=
  Block.goes_walk arena h h.len.toNat 0 (Machine.start s host) .refl

variable (e : Engine) (bus : Bus σ) (s : CpuState) (host : σ)

/-- The uncached way asks for code, and then runs a block. -/
theorem moves_executeUncached :
    Moves bus (s, host) ((e.executeUncached bus s host).cpu, (e.executeUncached bus s host).host) := by
  have decoded : Moves bus (s, host) (s, (Decode.run bus s.cpu s.next s.thumb 1 host).2) :=
    .single (.work ⟨.refl s, Decode.asks_run bus s.cpu s.thumb s.next 1 host⟩)
  unfold executeUncached
  split
  · exact .refl
  · dsimp only
    split
    · exact decoded.tail (.work (.halt bus s _))
    · split
      · exact decoded
      · exact decoded.trans (moves_runBlock bus _ _ s _)

/-- An execution through the cache does the same. -/
theorem moves_execute :
    Moves bus (s, host) ((e.execute bus s host).cpu, (e.execute bus s host).host) := by
  unfold execute
  split
  · exact .refl
  · rename_i cache _
    have obtained : Moves bus (s, host) _ := .single (.work (work_obtainBlock cache bus e.config s host))
    dsimp only
    split
    · exact obtained
    · split
      · split
        · exact obtained.trans (moves_runBlock bus _ _ _ _)
        · exact obtained.trans (moves_executeUncached _ bus _ _)
      · exact obtained.trans (moves_executeUncached _ bus _ _)

/-- **A call of the engine is a sequence of moves.** -/
theorem moves_turn (cached : Bool) :
    Moves bus (s, host) ((e.turn cached bus s host).cpu, (e.turn cached bus s host).host) := by
  cases cached with
  | true => exact e.moves_execute bus s host
  | false => exact e.moves_executeUncached bus s host

end Engine

end ArmBlocks
