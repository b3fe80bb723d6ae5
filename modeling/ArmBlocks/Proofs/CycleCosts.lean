import ArmBlocks.Proofs.BlockAccesses
import ArmBlocks.Proofs.DataAbort

/-!
# What an instruction costs

A machine counts cycles in a word of 32 bits, and so do the actions that add to it: waits of 16 bits are
widened, pairs of them are added in 16 bits, a block transfer adds up to sixteen of them. What an
instruction costs is said here with numbers instead (`Instruction.time`): its own cycles, the time of
the multiplier, and the times that the host answered while it executed. Version 5 overlaps the cycles of
an instruction with its accesses, version 4 adds them; an instruction that aborts costs nothing.

The times are those that the host answers, whatever they are. To name them there is a bus that keeps
them beside the host (`Bus.timing`), and the instruction on that bus is the instruction on the other.
**Nothing is asked of the host but that two accesses of one instruction fit sixteen bits**
(`Bus.PairsFit`), since these are the only times that are added in so few.

Every instruction then adds exactly its time, up to the width of the counter
(`Instruction.cycles_perform`), and no time is larger than that of a block transfer of all registers
(`Instruction.counted`).
-/

set_option autoImplicit false

namespace ArmBlocks

open Guest (exec)

variable {σ α β : Type}

/-! ## Times that a host answers

The bus that keeps times adds the answer of the host to a list beside it. Two of them are added in
sixteen bits where an instruction makes a pair of accesses, and nowhere else.
-/

namespace Bus

/-- The bus with the times of its accesses and of the software interrupts that it handles. -/
def timing (bus : Bus σ) : Bus (σ × List Wait) where
  get := fun (host, told) cpu w addr =>
    let (answer, host) := bus.get host cpu w addr
    (answer, host, told)
  set := fun (host, told) cpu w addr x =>
    let (done, host) := bus.set host cpu w addr x
    (done, host, told)
  waitTime := fun (host, told) cpu w addr access =>
    let (wait, host) := bus.waitTime host cpu w addr access
    (wait, host, told ++ [wait])
  codeRegions := fun (host, _) cpu => bus.codeRegions host cpu
  vectorBase := fun (host, _) cpu => bus.vectorBase host cpu
  exceptionHappened := fun (host, told) s kind =>
    let (after, host) := bus.exceptionHappened host s kind
    (after, host, told)
  statusChanged := fun (host, told) s =>
    let (after, host) := bus.statusChanged host s
    (after, host, told)
  softwareInterrupt := fun (host, told) s comment =>
    let (handled, after, host) := bus.softwareInterrupt host s comment
    (handled, after, host, told ++ handled.toList)
  controlWrite := fun (host, told) cpu x r => (bus.controlWrite host cpu x r, told)
  controlRead := fun (host, told) cpu r =>
    let (x, host) := bus.controlRead host cpu r
    (x, host, told)

/-- Keeping times changes nothing. -/
theorem extends_timing (bus : Bus σ) : Bus.Extends Prod.fst bus.timing bus where
  get _ _ _ _ := rfl
  set _ _ _ _ _ := rfl
  waitTime _ _ _ _ _ := rfl
  vectorBase _ _ := rfl
  exceptionHappened _ _ _ := rfl
  statusChanged _ _ := rfl
  softwareInterrupt _ _ _ := rfl
  controlWrite _ _ _ _ := rfl
  controlRead _ _ _ := rfl

/-- The times of two accesses of one instruction fit sixteen bits: of two words that are loaded, of two
that are stored, and of an exchange. -/
structure PairsFit (bus : Bus σ) : Prop where
  loads : ∀ {host between : σ} {cpu : Cpu} {addr x y : Word} {first second : Wait},
    bus.read host cpu .word addr .nonSequential = (some (x, first), between) →
    (bus.read between cpu .word (addr + 4) .sequential).1 = some (y, second) →
    first.toNat + second.toNat < 2 ^ 16
  stores : ∀ {host between : σ} {cpu : Cpu} {addr low high : Word} {first second : Wait},
    bus.write host cpu .word addr low .nonSequential = (some first, between) →
    (bus.write between cpu .word (addr + 4) high .sequential).1 = some second →
    first.toNat + second.toNat < 2 ^ 16
  exchanges : ∀ {host between : σ} {cpu : Cpu} {byte : Bool} {addr x y : Word} {first second : Wait},
    bus.read host cpu (if byte then .byte else .word) addr .nonSequential =
      (some (x, first), between) →
    (bus.write between cpu (if byte then .byte else .word) addr y .nonSequential).1 = some second →
    first.toNat + second.toNat < 2 ^ 16

variable (bus : Bus σ) (host : σ × List Wait) (cpu : Cpu) (w : Width) (addr : Word) (access : Access)

theorem read_timing : bus.timing.read host cpu w addr access =
    ((bus.read host.1 cpu w addr access).1, (bus.read host.1 cpu w addr access).2,
      host.2 ++ ((bus.read host.1 cpu w addr access).1.map Prod.snd).toList) := by
  rcases found : bus.get host.1 cpu w (Address.align addr (BitVec.ofNat 32 w.bytes)) with
    ⟨_ | x, after⟩
  · simp [Bus.read, timing, found]
  · simp [Bus.read, timing, found]

theorem write_timing (x : Word) : bus.timing.write host cpu w addr x access =
    ((bus.write host.1 cpu w addr x access).1, (bus.write host.1 cpu w addr x access).2,
      host.2 ++ (bus.write host.1 cpu w addr x access).1.toList) := by
  rcases found : bus.set host.1 cpu w (Address.align addr (BitVec.ofNat 32 w.bytes)) (w.cut x) with
    ⟨_ | _, after⟩
  · simp [Bus.write, timing, found]
  · simp [Bus.write, timing, found]

end Bus

/-- The sum of some times. -/
def Wait.total (told : List Wait) : Nat := (told.map BitVec.toNat).sum

/-- The cycles of an instruction together with those of its accesses. -/
def overlap (v5 : Bool) (cycles memory : Nat) : Nat :=
  if v5 then max cycles memory else cycles + memory

namespace Wait

theorem total_cons (wait : Wait) (rest : List Wait) :
    total (wait :: rest) = wait.toNat + total rest := by
  simp [total]

/-- Times are added in 32 bits. -/
theorem ofNat_total_cons (wait : Wait) (rest : List Wait) :
    BitVec.ofNat 32 (total (wait :: rest)) = wait.setWidth 32 + BitVec.ofNat 32 (total rest) := by
  rw [total_cons, BitVec.ofNat_add, BitVec.ofNat_toNat]

theorem total_le (told : List Wait) : total told ≤ told.length * 0xFFFF := by
  induction told with
  | nil => exact Nat.le_refl _
  | cons wait rest ih =>
    have small := wait.isLt
    rw [total_cons, List.length_cons, Nat.succ_mul]
    omega

theorem toNat_ofNat_total {told : List Wait} (few : told.length ≤ 16) :
    (BitVec.ofNat 32 (total told)).toNat = total told := by
  have most := total_le told
  rw [BitVec.toNat_ofNat]
  exact Nat.mod_eq_of_lt (by omega)

end Wait

theorem overlap_le (v5 : Bool) (cycles memory : Nat) : overlap v5 cycles memory ≤ cycles + memory := by
  unfold overlap
  split <;> omega

/-! ## Actions on a bus that keeps times

An action is put together from parts that are told no times (`Guest.Still`), accesses that are told
them (`Guest.Hears`), and an end that takes the cycles (`Guest.Settles`) or an abort that takes none
(`Guest.Aborts`). `Guest.Pays` is what comes of all of them.
-/

namespace Guest

variable {bus : Bus σ}

theorem exec_load_timing (w : Width) (addr : Word) (access : Access) (m : Machine (σ × List Wait)) :
    exec (load bus.timing w addr access) m = ((bus.read m.host.1 m.cpu.cpu w addr access).1, { m with
      host := ((bus.read m.host.1 m.cpu.cpu w addr access).2,
        m.host.2 ++ ((bus.read m.host.1 m.cpu.cpu w addr access).1.map Prod.snd).toList) }) := by
  rw [load, exec_modifyGet, bus.read_timing]

theorem exec_store_timing (w : Width) (addr x : Word) (access : Access)
    (m : Machine (σ × List Wait)) :
    exec (store bus.timing w addr x access) m =
      ((bus.write m.host.1 m.cpu.cpu w addr x access).1, { m with
        host := ((bus.write m.host.1 m.cpu.cpu w addr x access).2,
          m.host.2 ++ (bus.write m.host.1 m.cpu.cpu w addr x access).1.toList) }) := by
  rw [store, exec_modifyGet, bus.write_timing]

/-- Takes no cycles, and is told no times. -/
def Still (x : Guest (σ × List Wait) α) : Prop :=
  ∀ m, (exec x m).2.host.2 = m.host.2 ∧ (exec x m).2.cycles = m.cycles

namespace Still

theorem pure {a : α} : Still (Pure.pure a : Guest (σ × List Wait) α) := fun _ => ⟨rfl, rfl⟩

theorem bind {x : Guest (σ × List Wait) α} {f : α → Guest (σ × List Wait) β} (hx : Still x)
    (hf : ∀ a, Still (f a)) : Still (x >>= f) := fun m =>
  ⟨(hf (exec x m).1 (exec x m).2).1.trans (hx m).1, (hf (exec x m).1 (exec x m).2).2.trans (hx m).2⟩

theorem ite {c : Prop} [Decidable c] {x y : Guest (σ × List Wait) α} (hx : Still x) (hy : Still y) :
    Still (if c then x else y) := by
  split
  · exact hx
  · exact hy

theorem look {f : CpuState → Guest (σ × List Wait) α} (hf : ∀ s, Still (f s)) : Still (cpu >>= f) :=
  fun m => hf m.cpu m

theorem modifyCpu {f : CpuState → CpuState} :
    Still (Guest.modifyCpu f : Guest (σ × List Wait) Unit) := fun _ => ⟨rfl, rfl⟩

theorem notify {n : Notice} : Still (Guest.notify n : Guest (σ × List Wait) Unit) :=
  fun _ => ⟨rfl, rfl⟩

theorem statusChanged : Still (Guest.statusChanged bus.timing) := fun _ => ⟨rfl, rfl⟩

theorem enter {kind : Exception} {lr : Word} : Still (Guest.enter bus.timing kind lr) :=
  fun _ => ⟨rfl, rfl⟩

theorem writeIf {c : Prop} [Decidable c] {r : Reg} {x : Word} :
    Still (if c then Guest.write r x else Pure.pure () : Guest (σ × List Wait) Unit) :=
  .ite .modifyCpu .pure

end Still

/-- Accesses of an instruction: they change nothing but the host, are told at most so many times, and
where all of them found memory something can be said of what they answer and of the times. -/
def Hears (count : Nat) (x : Guest (σ × List Wait) (Option α)) (R : α → List Wait → Prop) : Prop :=
  ∀ m, ∃ host told, (exec x m).2 = { m with host := (host, m.host.2 ++ told) } ∧
    told.length ≤ count ∧ ∀ a, (exec x m).1 = some a → R a told

namespace Hears

theorem pure {a? : Option α} {R : α → List Wait → Prop} (h : ∀ a, a? = some a → R a []) :
    Hears 0 (Pure.pure a? : Guest (σ × List Wait) (Option α)) R := fun m =>
  ⟨m.host.1, [], by simp, Nat.le_refl _, h⟩

theorem look {count : Nat} {f : CpuState → Guest (σ × List Wait) (Option α)}
    {R : α → List Wait → Prop} (hf : ∀ s, Hears count (f s) R) : Hears count (cpu >>= f) R :=
  fun m => hf m.cpu m

/-- Accesses one after the other. Where the first ones miss there are no others. -/
theorem bind {n k count : Nat} {x : Guest (σ × List Wait) (Option α)}
    {f : Option α → Guest (σ × List Wait) (Option β)} {R : α → List Wait → Prop}
    {S : β → List Wait → Prop} (within : n + k ≤ count) (hx : Hears n x R)
    (misses : f none = Pure.pure none)
    (hf : ∀ a told, R a told → Hears k (f (some a)) fun b more => S b (told ++ more)) :
    Hears count (x >>= f) S := by
  intro m
  obtain ⟨host, told, left, few, answer⟩ := hx m
  rw [exec_bind, left]
  cases found : (exec x m).1 with
  | none =>
    rw [misses]
    exact ⟨host, told, rfl, by omega, fun b some => by cases some⟩
  | some a =>
    obtain ⟨host, more, left, fewer, answers⟩ :=
      hf a told (answer a found) { m with host := (host, m.host.2 ++ told) }
    refine ⟨host, told ++ more, ?_, ?_, answers⟩
    · rw [left, List.append_assoc]
    · rw [List.length_append]
      omega

theorem weaken {n count : Nat} {x : Guest (σ × List Wait) (Option α)} {R S : α → List Wait → Prop}
    (h : Hears n x R) (within : n ≤ count) (weaker : ∀ a told, R a told → S a told) :
    Hears count x S := fun m =>
  let ⟨host, told, left, few, answer⟩ := h m
  ⟨host, told, left, Nat.le_trans few within, fun a found => weaker a told (answer a found)⟩

theorem load {w : Width} {addr : Word} {access : Access} :
    Hears 1 (Guest.load bus.timing w addr access) fun a told => told = [a.2] := by
  intro m
  rw [exec_load_timing]
  refine ⟨_, _, rfl, ?_, fun a found => by rw [show _ = some a from found]; rfl⟩
  cases (bus.read m.host.1 m.cpu.cpu w addr access).1 <;> simp

theorem store {w : Width} {addr x : Word} {access : Access} :
    Hears 1 (Guest.store bus.timing w addr x access) fun wait told => told = [wait] := by
  intro m
  rw [exec_store_timing]
  refine ⟨_, _, rfl, ?_, fun wait found => by rw [show _ = some wait from found]; rfl⟩
  cases (bus.write m.host.1 m.cpu.cpu w addr x access).1 <;> simp

theorem loadOne {kind : TransferKind} {addr : Word} :
    Hears 1 (Guest.loadOne bus.timing kind addr) fun a told => Wait.total told = a.2.toNat :=
  look fun _ => bind (Nat.le_refl 1) load rfl fun a told alone => pure fun b found => by
    obtain rfl := Option.some.inj found
    simp [alone, Wait.total]

/-- The words of a block transfer. Their times are added in 32 bits. -/
theorem loadWords :
    ∀ {count : Nat} {addr : Word} {access : Access},
      Hears count (Guest.loadWords bus.timing count addr access) fun a told =>
        a.2 = BitVec.ofNat 32 (Wait.total told)
  | 0, _, _ => pure fun a found => by
    obtain rfl := Option.some.inj found
    rfl
  | count + 1, _, _ =>
    bind (Nat.le_of_eq (Nat.add_comm 1 count)) load rfl fun a told alone =>
      bind (Nat.le_refl count) loadWords rfl fun rest more sum => pure fun b found => by
        obtain rfl := Option.some.inj found
        rw [alone, List.append_nil, List.singleton_append, Wait.ofNat_total_cons, ← sum]

/-- A store of words hears a wait for each of them, and answers their sum. -/
theorem storeWords :
    ∀ {values : List Word} {addr : Word} {access : Access},
      Hears values.length (Guest.storeWords bus.timing values addr access) fun a told =>
        a = BitVec.ofNat 32 (Wait.total told)
  | [], _, _ => pure fun a found => by
    obtain rfl := Option.some.inj found
    rfl
  | x :: rest, _, _ =>
    bind (Nat.le_of_eq (Nat.add_comm 1 rest.length)) store rfl fun a told alone =>
      bind (Nat.le_refl rest.length) storeWords rfl fun total more sum => pure fun b found => by
        obtain rfl := Option.some.inj found
        rw [alone, List.append_nil, List.singleton_append, Wait.ofNat_total_cons, ← sum]

/-- A pair is loaded in two accesses whose times fit a halfword together, so the sum that is answered does
not wrap. -/
theorem loadPair (fits : bus.PairsFit) {addr : Word} :
    Hears 2 (Guest.loadPair bus.timing addr) fun a told => Wait.total told = a.2.2.toNat := by
  intro m
  unfold Guest.loadPair
  rw [exec_bind, exec_load_timing]
  rcases low : bus.read m.host.1 m.cpu.cpu .word addr .nonSequential with ⟨_ | ⟨x, first⟩, between⟩
  · exact ⟨between, [], by simp, by simp, fun a found => by cases found⟩
  · simp only [exec_bind, exec_load_timing]
    rcases high : bus.read between m.cpu.cpu .word (addr + 4) .sequential with
      ⟨_ | ⟨y, second⟩, after⟩
    · exact ⟨after, [first], by simp, by simp, fun a found => by cases found⟩
    · refine ⟨after, [first, second], by simp, by simp, fun a found => ?_⟩
      obtain rfl := Option.some.inj found
      have fit := fits.loads low (congrArg Prod.fst high)
      simp only [Wait.total, List.map_cons, List.map_nil, List.sum_cons, List.sum_nil, BitVec.toNat_add]
      omega

/-- The same holds of a store, of one value or of a pair. -/
theorem storeOne (fits : bus.PairsFit) {kind : TransferKind} {addr low high : Word} :
    Hears 2 (Guest.storeOne bus.timing kind addr low high) fun wait told =>
      Wait.total told = wait.toNat := by
  have alone {w : Width} : Hears 2 (Guest.store bus.timing w addr low .nonSequential) fun wait told =>
      Wait.total told = wait.toNat :=
    store.weaken (by decide) fun wait told alone => by simp [alone, Wait.total]
  unfold Guest.storeOne
  split
  · exact alone
  · exact alone
  · intro m
    rw [exec_bind, exec_store_timing]
    rcases lower : bus.write m.host.1 m.cpu.cpu .word addr low .nonSequential with ⟨_ | first, between⟩
    · exact ⟨between, [], by simp, by simp, fun a found => by cases found⟩
    · simp only [exec_bind, exec_store_timing]
      rcases upper : bus.write between m.cpu.cpu .word (addr + 4) high .sequential with
        ⟨_ | second, after⟩
      · exact ⟨after, [first], by simp, by simp, fun a found => by cases found⟩
      · refine ⟨after, [first, second], by simp, by simp, fun a found => ?_⟩
        obtain rfl := Option.some.inj found
        have fit := fits.stores lower (congrArg Prod.fst upper)
        simp only [Wait.total, List.map_cons, List.map_nil, List.sum_cons, List.sum_nil,
          BitVec.toNat_add]
        omega
  · exact alone

end Hears

/-- What comes after the accesses of an instruction: it goes on, having taken its cycles together with
those of its accesses, and is told no more times. -/
def Settles (cost : Word) (memory : Nat) (x : Guest (σ × List Wait) Continuation) : Prop :=
  ∀ m, (exec x m).2.host.2 = m.host.2 ∧ (exec x m).1 = .next ∧
    (exec x m).2.cycles =
      m.cycles + BitVec.ofNat 32 (overlap (exec x m).2.cpu.cpu.isV5 cost.toNat memory)

namespace Settles

variable {cost : Word} {memory : Nat}

theorem still {x : Guest (σ × List Wait) α} {f : α → Guest (σ × List Wait) Continuation}
    (hx : Still x) (hf : ∀ a, Settles cost memory (f a)) : Settles cost memory (x >>= f) := by
  intro m
  obtain ⟨told, goes, took⟩ := hf (exec x m).1 (exec x m).2
  rw [(hx m).2] at took
  exact ⟨told.trans (hx m).1, goes, took⟩

theorem ite {c : Prop} [Decidable c] {x y : Guest (σ × List Wait) Continuation}
    (hx : Settles cost memory x) (hy : Settles cost memory y) :
    Settles cost memory (if c then x else y) := by
  split
  · exact hx
  · exact hy

/-- The end of a transfer takes the overlapped cost of what was heard, if the wait it is given is exactly
that. -/
theorem finish {wait : Word} (exact : wait.toNat = memory) :
    Settles cost memory
      (spendWithMemory cost wait >>= fun _ => Pure.pure .next : Guest (σ × List Wait) Continuation) := by
  intro m
  refine ⟨rfl, rfl, ?_⟩
  show m.cycles + (if m.cpu.cpu.isV5 then (if cost ≤ wait then wait else cost) else cost + wait) =
    m.cycles + BitVec.ofNat 32 (overlap m.cpu.cpu.isV5 cost.toNat memory)
  congr 1
  have itself (x : Word) : BitVec.ofNat 32 x.toNat = x := by
    rw [BitVec.ofNat_toNat, BitVec.setWidth_eq]
  rw [← exact, overlap]
  split
  · split
    · next less => rw [Nat.max_eq_right (BitVec.le_def.mp less), itself]
    · next more =>
      rw [Nat.max_eq_left (Nat.le_of_lt (BitVec.lt_def.mp (BitVec.not_le.mp more))), itself]
  · rw [BitVec.ofNat_add, itself, itself]

end Settles

/-- Raises a data abort, for which no cycles are taken. -/
def Aborts (x : Guest (σ × List Wait) Continuation) : Prop :=
  ∀ m, (exec x m).2.host.2 = m.host.2 ∧ (exec x m).2.cycles = m.cycles ∧
    ∃ exit, (exec x m).1 = .leave exit

theorem aborts_dataAbort (pc : Word) : Aborts (dataAbort bus.timing pc) := fun _ =>
  ⟨rfl, rfl, .early, rfl⟩

theorem aborts_abortBlock (pc : Word) {leaveBank : Guest (σ × List Wait) Unit}
    (leaves : Still leaveBank) : Aborts (abortBlock bus.timing pc leaveBank) := fun m =>
  ⟨(leaves m).1, (leaves m).2, .early, rfl⟩

/-- An instruction that accesses memory: it aborts, or takes its cycles together with the times that it
is told, which are those of at most as many accesses as there are registers. -/
def Pays (cost : Word) (x : Guest (σ × List Wait) Continuation) : Prop :=
  ∀ m, ∃ told, (exec x m).2.host.2 = m.host.2 ++ told ∧ told.length ≤ 16 ∧
    ((∃ exit, (exec x m).1 = .leave exit) ∧ (exec x m).2.cycles = m.cycles ∨
      (exec x m).1 = .next ∧ (exec x m).2.cycles = m.cycles +
        BitVec.ofNat 32 (overlap (exec x m).2.cpu.cpu.isV5 cost.toNat (Wait.total told)))

namespace Pays

variable {cost pc : Word}

theorem look {f : CpuState → Guest (σ × List Wait) Continuation} (hf : ∀ s, Pays cost (f s)) :
    Pays cost (cpu >>= f) := fun m => hf m.cpu m

theorem still {x : Guest (σ × List Wait) α} {f : α → Guest (σ × List Wait) Continuation}
    (hx : Still x) (hf : ∀ a, Pays cost (f a)) : Pays cost (x >>= f) := by
  intro m
  obtain ⟨told, log, few, ends⟩ := hf (exec x m).1 (exec x m).2
  rw [(hx m).1] at log
  rw [(hx m).2] at ends
  exact ⟨told, log, few, ends⟩

/-- The accesses come first. -/
theorem hears {count : Nat} {x : Guest (σ × List Wait) (Option α)} {R : α → List Wait → Prop}
    {f : Option α → Guest (σ × List Wait) Continuation} (hx : Hears count x R) (few : count ≤ 16)
    (misses : Aborts (f none)) (hf : ∀ a told, told.length ≤ count → R a told →
      Settles cost (Wait.total told) (f (some a))) : Pays cost (x >>= f) := by
  intro m
  obtain ⟨host, told, left, within, answer⟩ := hx m
  refine ⟨told, ?_, Nat.le_trans within few, ?_⟩
  · rw [exec_bind, left]
    cases found : (exec x m).1 with
    | none => exact (misses _).1
    | some a => exact (hf a told within (answer a found) _).1
  · rw [exec_bind, left]
    cases found : (exec x m).1 with
    | none => exact .inl ⟨(misses _).2.2, (misses _).2.1⟩
    | some a =>
      have after := hf a told within (answer a found) { m with host := (host, m.host.2 ++ told) }
      exact .inr after.2

/-- A load or store of one value pays for its accesses. -/
theorem transfer (fits : bus.PairsFit) (kind : TransferKind) (rd rn : Reg) (offset : Offset)
    (index : IndexMode) (up : Bool) :
    Pays cost (Guest.transfer bus.timing pc cost kind rd rn offset index up) := by
  refine look fun s => ?_
  have wide (wait : Wait) : (wait.setWidth 32 : Word).toNat = wait.toNat :=
    BitVec.toNat_setWidth_of_le (by decide)
  dsimp only
  split
  · exact hears (.storeOne fits) (by decide) (aborts_dataAbort pc) fun wait told _ sum =>
      .still .writeIf fun _ => .finish (by rw [wide, sum])
  · split
    · exact hears (.loadPair fits) (by decide) (aborts_dataAbort pc) fun pair told _ sum =>
        .still .writeIf fun _ => .still .modifyCpu fun _ => .still .modifyCpu fun _ =>
          .finish (by rw [wide, sum])
    · exact hears .loadOne (by decide) (aborts_dataAbort pc) fun loaded told _ sum =>
        .still .writeIf fun _ => .ite (.still .modifyCpu fun _ => .finish (by rw [wide, sum]))
          (.still .modifyCpu fun _ => .finish (by rw [wide, sum]))

/-- An exchange makes its two accesses with one width, at one address. -/
theorem swap (fits : bus.PairsFit) (byte : Bool) (rd rn rm : Reg) :
    Pays cost (Guest.swap bus.timing pc cost byte rd rn rm) := by
  refine look fun s m => ?_
  obtain ⟨w, hw⟩ : ∃ w : Width, w = if byte then .byte else .word := ⟨_, rfl⟩
  obtain ⟨view, loads⟩ : ∃ view : Word → Word, Guest.loadOne bus.timing
      (if byte then .loadByte else .loadWord) (s.read pc rn) = (Guest.load bus.timing w (s.read pc rn)
        .nonSequential >>= fun loaded => Pure.pure (loaded.map fun a => (view a.1, a.2))) := by
    subst hw
    cases byte with
    | true => exact ⟨id, rfl⟩
    | false => exact ⟨(·.rotateRight ((s.read pc rn &&& 3).toNat * 8)), rfl⟩
  have stores : Guest.storeOne bus.timing (if byte then .storeByte else .storeWord) (s.read pc rn)
      (s.read pc rm) 0 = Guest.store bus.timing w (s.read pc rn) (s.read pc rm) .nonSequential := by
    subst hw
    cases byte <;> rfl
  dsimp only
  rw [loads, stores, exec_bind, exec_bind, exec_load_timing]
  rcases old : bus.read m.host.1 m.cpu.cpu w (s.read pc rn) .nonSequential with
    ⟨_ | ⟨x, first⟩, between⟩
  · obtain ⟨log, cycles, left⟩ := @aborts_dataAbort σ bus pc { m with host := (between, m.host.2 ++ []) }
    exact ⟨[], log, Nat.zero_le _, .inl ⟨left, cycles⟩⟩
  · dsimp only [exec_pure, Option.map_some, Option.toList_some]
    rw [exec_bind, exec_store_timing]
    rcases new : bus.write between m.cpu.cpu w (s.read pc rn) (s.read pc rm) .nonSequential with
      ⟨_ | second, after⟩
    · obtain ⟨log, cycles, left⟩ := @aborts_dataAbort σ bus pc
        { m with host := (after, (m.host.2 ++ [first]) ++ []) }
      exact ⟨[first], log.trans (List.append_nil _), by simp, .inl ⟨left, cycles⟩⟩
    · have fit : first.toNat + second.toNat < 2 ^ 16 := by
        subst hw
        exact fits.exchanges old (congrArg Prod.fst new)
      have sum : ((first + second).setWidth 32 : Word).toNat = Wait.total [first, second] := by
        rw [BitVec.toNat_setWidth_of_le (by decide), BitVec.toNat_add, Nat.mod_eq_of_lt fit]
        simp [Wait.total]
      obtain ⟨log, goes, took⟩ := (Settles.still .modifyCpu fun _ => .finish sum :
        Settles cost _ (Guest.write rd (view x) >>= fun _ =>
          spendWithMemory cost ((first + second).setWidth 32) >>= fun _ => Pure.pure .next))
        { m with host := (after, (m.host.2 ++ [first]) ++ [second]) }
      exact ⟨[first, second], log.trans (List.append_assoc ..), by simp, .inr ⟨goes, took⟩⟩

/-- A loading block transfer pays for its words, of which there are at most sixteen, so the sum of their
times does not wrap. -/
theorem loadBlock (lowest : Word) (list : RegSet) (user : Bool)
    {moveBase leaveBank : Guest (σ × List Wait) Unit} (moves : Still moveBase)
    (leaves : Still leaveBank) :
    Pays cost (Guest.loadBlock bus.timing pc cost lowest list user moveBase leaveBank) := by
  have pcLoaded (x : Word) : Still (finishPc bus.timing user x) :=
    .ite (.bind .modifyCpu fun _ => .bind .statusChanged fun _ => .modifyCpu) .modifyCpu
  refine hears .loadWords list.length_toList_le (aborts_abortBlock pc leaves)
    fun loaded told few sum => ?_
  have exact : loaded.2.toNat = Wait.total told := by
    rw [sum, Wait.toNat_ofNat_total (Nat.le_trans few list.length_toList_le)]
  refine .still moves fun _ => .still .modifyCpu fun _ => .still leaves fun _ => ?_
  dsimp only
  split
  · exact .still (pcLoaded _) fun _ => .finish exact
  · exact .finish exact

theorem storeBlock (lowest : Word) {values : List Word} (few : values.length ≤ 16)
    {moveBase leaveBank : Guest (σ × List Wait) Unit} (moves : Still moveBase)
    (leaves : Still leaveBank) :
    Pays cost (Guest.storeBlock bus.timing pc cost lowest values moveBase leaveBank) :=
  hears .storeWords few (aborts_abortBlock pc leaves) fun wait told fewer sum =>
    .still leaves fun _ => .still moves fun _ =>
      .finish (by rw [sum, Wait.toNat_ofNat_total (Nat.le_trans fewer few)])

/-- A block transfer pays for its words, whichever bank it works on. -/
theorem blockTransfer (load : Bool) (mode : BlockMode) (writeback user : Bool) (rn : Reg)
    (list : RegSet) :
    Pays cost (Guest.blockTransfer bus.timing pc cost load mode writeback user rn list) := by
  have few (f : Reg → Word) : ((RegSet.toList list).map f).length ≤ 16 := by
    rw [List.length_map]
    exact list.length_toList_le
  refine look fun s => ?_
  have gives : Still (Guest.modifyCpu (·.setCpsr s.cpsr) : Guest (σ × List Wait) Unit) := .modifyCpu
  dsimp only
  cases user && !(load && list.has .pc) with
  | true =>
    refine .still .modifyCpu fun _ => ?_
    cases load with
    | true => exact loadBlock _ list user .writeIf gives
    | false => exact look fun t => storeBlock _ (few _) .writeIf gives
  | false =>
    cases load with
    | true => exact loadBlock _ list user .writeIf .pure
    | false => exact look fun t => storeBlock _ (few _) .writeIf .pure

end Pays

/-- Takes so many cycles whatever it does. -/
def Takes (cycles : Word) (x : Guest (σ × List Wait) α) : Prop :=
  ∀ m, (exec x m).2.cycles = m.cycles + cycles

namespace Takes

variable {cycles more : Word}

theorem spend : Takes cycles (Guest.spend cycles : Guest (σ × List Wait) Unit) := fun _ => rfl

/-- What comes first or last may take none. -/
theorem still {x : Guest (σ × List Wait) α} {f : α → Guest (σ × List Wait) β} (hx : Still x)
    (hf : ∀ a, Takes cycles (f a)) : Takes cycles (x >>= f) := fun m => by
  rw [exec_bind, hf, (hx m).2]

theorem ends {x : Guest (σ × List Wait) α} {f : α → Guest (σ × List Wait) β} (hx : Takes cycles x)
    (hf : ∀ a, Still (f a)) : Takes cycles (x >>= f) := fun m => by
  rw [exec_bind, (hf _ _).2, hx]

theorem look {f : CpuState → Guest (σ × List Wait) α} (hf : ∀ s, Takes cycles (f s)) :
    Takes cycles (cpu >>= f) := fun m => hf m.cpu m

end Takes

/-- A software interrupt takes the cycles that the host answers, if it handles it, and its own. -/
theorem softwareInterrupt_timing (pc cost comment : Word) (m : Machine (σ × List Wait)) :
    ∃ told, (exec (softwareInterrupt bus.timing pc cost comment) m).2.host.2 = m.host.2 ++ told ∧
      told.length ≤ 1 ∧ (exec (softwareInterrupt bus.timing pc cost comment) m).2.cycles =
        m.cycles + BitVec.ofNat 32 (Wait.total told + cost.toNat) := by
  have asked : bus.timing.softwareInterrupt m.host m.cpu comment =
      ((bus.softwareInterrupt m.host.1 m.cpu comment).1,
        (bus.softwareInterrupt m.host.1 m.cpu comment).2.1,
        (bus.softwareInterrupt m.host.1 m.cpu comment).2.2,
        m.host.2 ++ (bus.softwareInterrupt m.host.1 m.cpu comment).1.toList) := rfl
  have itself : BitVec.ofNat 32 cost.toNat = cost := by rw [BitVec.ofNat_toNat, BitVec.setWidth_eq]
  unfold softwareInterrupt
  rw [exec_bind, exec_modifyGet, asked]
  rcases bus.softwareInterrupt m.host.1 m.cpu comment with ⟨_ | cycles, s, host⟩
  · refine ⟨[], (List.append_nil _).trans (List.append_nil _).symm, by decide, ?_⟩
    rw [show Wait.total [] = 0 from rfl, Nat.zero_add, itself]
    rfl
  · refine ⟨[cycles], rfl, by simp, ?_⟩
    have alone : BitVec.ofNat 32 (Wait.total [cycles]) = cycles.setWidth 32 :=
      (Wait.ofNat_total_cons cycles []).trans (BitVec.add_zero _)
    rw [BitVec.ofNat_add, alone, itself]
    rfl

end Guest

/-! ## Instructions

An instruction counts once, in its action; to show or publish r15 costs nothing. How much it may count
is bounded by its operation, and the largest bound is that of a block transfer.
-/

/-- The machine before it is told any times. -/
def Machine.untold (m : Machine σ) : Machine (σ × List Wait) := m.mapHost fun host => (host, [])

namespace Instruction

/-- The action of an instruction, with the times that it is told. -/
def timed (bus : Bus σ) (i : Instruction) (m : Machine σ) :
    Continuation × Machine (σ × List Wait) :=
  exec (i.action.execute bus.timing i.pipelinePc) (m.shown i).untold

/-- The cycles that an instruction takes: its own, and those of the multiplier, of the host's handler
or of its accesses. It takes none where it aborts. -/
def time (bus : Bus σ) (i : Instruction) (m : Machine σ) : Nat :=
  let base := i.op.cost i.thumb
  let told := Wait.total (i.timed bus m).2.host.2
  match i.op with
  | .mul op _ _ _ rs _ => base + Multiplier.cycles (m.cpu.read i.pipelinePc rs) op.isSigned
  | .softwareInterrupt _ => base + told
  | .transfer .. | .block .. | .swap .. =>
    match (i.timed bus m).1 with
    | .next => overlap (i.timed bus m).2.cpu.cpu.isV5 base told
    | _ => 0
  | _ => base

open Guest (Still Takes Pays)

variable {bus : Bus σ} {i : Instruction} {m : Machine σ}

/-- Every instruction that moves data pays for its accesses. -/
theorem pays_execute (fits : bus.PairsFit) (a : Action) (pc : Word) (moves : a.op.movesData = true) :
    Pays a.cost (a.execute bus.timing pc) := by
  unfold Action.execute
  cases hop : a.op with
  | transfer kind rd rn offset index up => exact Pays.transfer fits kind rd rn offset index up
  | block load pre up writeback user rn list =>
    exact Pays.blockTransfer load ⟨pre, up⟩ writeback user rn list
  | swap byte rd rn rm => exact Pays.swap fits byte rd rn rm
  | _ =>
    rw [hop] at moves
    cases moves

/-- An action takes the cycles of its operation and no others, unless it multiplies, traps or moves
data. -/
theorem takes_execute (a : Action) (pc : Word) (still : a.op.movesData = false)
    (waits : ∀ comment, a.op ≠ .softwareInterrupt comment)
    (single : ∀ op s rd rn rs rm, a.op ≠ .mul op s rd rn rs rm) :
    Takes a.cost (a.execute bus.timing pc) := by
  have onCpu (f : CpuState → CpuState) : Takes a.cost (Guest.modifyCpu f >>= fun _ =>
      Guest.spend a.cost >>= fun _ => pure .next : Guest (σ × List Wait) Continuation) :=
    .still .modifyCpu fun _ => .ends .spend fun _ => .pure
  unfold Action.execute
  cases hop : a.op with
  | alu op s rd rn operand =>
    refine .ends .spend fun _ => ?_
    rw [Guest.alu_eq]
    refine .look fun before => .bind .modifyCpu fun _ => .ite (.ite ?_ ?_) .pure
    · exact .bind .modifyCpu fun _ => .bind .statusChanged fun _ => .bind .modifyCpu fun _ => .pure
    · exact .bind .modifyCpu fun _ => .pure
  | mul op s rd rn rs rm => exact absurd hop (single op s rd rn rs rm)
  | halfMul | clz | sat | branch | branchExchange | linkPrefix | linkSuffix | nop => exact onCpu _
  | readStatus rd saved => exact .ends .spend fun _ => .bind .modifyCpu fun _ => .pure
  | writeStatus saved fields source =>
    refine .ends .spend fun _ => .look fun _ => .ite (.bind .modifyCpu fun _ => .pure) ?_
    exact .bind .modifyCpu fun _ => .bind .statusChanged fun _ => .pure
  | coproc load cp op1 cn cm op2 rd =>
    refine .ends .spend fun _ => .ite (.ite (.bind ?_ fun _ => .pure) (.bind ?_ fun _ => .pure)) .pure
    · exact .bind (fun _ => ⟨rfl, rfl⟩) fun _ => .modifyCpu
    · exact fun _ => ⟨rfl, rfl⟩
  | softwareInterrupt comment => exact absurd hop (waits comment)
  | breakpoint =>
    exact .look fun _ => .still .notify fun _ => .ends .spend fun _ => .pure
  | undefined =>
    exact .ends .spend fun _ => .look fun _ => .bind .enter fun _ => .pure
  | transfer | block | swap =>
    rw [hop] at still
    cases still

/-- Showing an instruction its own address changes r15 and nothing that is read, since r15 is read from the
pipeline. -/
theorem read_shown (m : Machine σ) (i : Instruction) (pc : Word) (r : Reg) :
    (m.shown i).cpu.read pc r = m.cpu.read pc r := by
  unfold Machine.shown
  split
  · by_cases own : r = .pc
    · rw [CpuState.read, CpuState.read, if_pos own, if_pos own]
    · rw [CpuState.read, CpuState.read, if_neg own, if_neg own]
      exact (CpuState.reg_setReg ..).trans (if_neg fun same => own same.symm)
  · rfl

/-- What moves data takes the overlapped time if it goes through, and nothing if an access of it fails. -/
theorem time_of_moves (moves : i.op.movesData = true) :
    i.time bus m = match (i.timed bus m).1 with
      | .next => overlap (i.timed bus m).2.cpu.cpu.isV5 (i.op.cost i.thumb)
          (Wait.total (i.timed bus m).2.host.2)
      | _ => 0 := by
  unfold time
  cases hop : i.op with
  | transfer | block | swap => rfl
  | _ =>
    rw [hop] at moves
    cases moves

/-- What has no accesses and is no multiplication takes what the operation costs. -/
theorem time_of_plain (still : i.op.movesData = false)
    (waits : ∀ comment, i.op ≠ .softwareInterrupt comment)
    (single : ∀ op s rd rn rs rm, i.op ≠ .mul op s rd rn rs rm) :
    i.time bus m = i.op.cost i.thumb := by
  unfold time
  cases hop : i.op with
  | mul op s rd rn rs rm => exact absurd hop (single op s rd rn rs rm)
  | softwareInterrupt comment => exact absurd hop (waits comment)
  | transfer | block | swap =>
    rw [hop] at still
    cases still
  | _ => rfl

/-- An instruction adds to the counter the time that it takes, and that is at most its own cycles and
those of sixteen accesses. -/
def Counted (bus : Bus σ) (i : Instruction) (m : Machine σ) : Prop :=
  (i.timed bus m).2.cycles = m.cycles + BitVec.ofNat 32 (i.time bus m) ∧
    i.time bus m ≤ i.op.cost i.thumb + 16 * 0xFFFF

/-- Instructions that move data are counted. -/
theorem counted_of_moves (fits : bus.PairsFit) (short : i.op.cost i.thumb < 2 ^ 32)
    (moves : i.op.movesData = true) : i.Counted bus m := by
  have base : i.action.cost.toNat = i.op.cost i.thumb := by
    rw [action, BitVec.toNat_ofNat, Nat.mod_eq_of_lt short]
  obtain ⟨told, heard, few, ends⟩ :=
    pays_execute fits i.action i.pipelinePc moves (m.shown i).untold
  -- a machine that has been told nothing has exactly these waits in its log
  have log : (i.timed bus m).2.host.2 = told := heard
  rw [base, show (m.shown i).untold.cycles = m.cycles from m.cycles_shown i, ← log] at ends
  rw [Counted, time_of_moves moves]
  rcases ends with ⟨⟨exit, left⟩, same⟩ | ⟨next, took⟩
  · rw [show (i.timed bus m).1 = .leave exit from left]
    exact ⟨same.trans (BitVec.add_zero _).symm, Nat.zero_le _⟩
  · rw [show (i.timed bus m).1 = .next from next]
    refine ⟨took, Nat.le_trans (overlap_le ..) (Nat.add_le_add_left ?_ _)⟩
    rw [log]
    exact Nat.le_trans (Wait.total_le told) (Nat.mul_le_mul_right _ few)

/-- Multiplications are counted. The array takes at most four cycles. -/
theorem counted_of_mul {op : MulOp} {s : Bool} {rd rn rs rm : Reg}
    (hop : i.op = .mul op s rd rn rs rm) : i.Counted bus m := by
  have few (x : Word) (signed : Bool) : Multiplier.cycles x signed ≤ 4 := by
    unfold Multiplier.cycles
    dsimp only
    grind
  have time : i.time bus m =
      i.op.cost i.thumb + Multiplier.cycles (m.cpu.read i.pipelinePc rs) op.isSigned := by
    unfold Instruction.time
    rw [hop]
  have ran : (i.timed bus m).2.cycles = (m.shown i).cycles + BitVec.ofNat 32
      (Multiplier.cycles ((m.shown i).cpu.read i.pipelinePc rs) op.isSigned) + i.action.cost := by
    unfold timed Action.execute
    rw [show i.action.op = _ from hop]
    rfl
  rw [Counted, time, ran, read_shown, m.cycles_shown, BitVec.add_assoc, Nat.add_comm (i.op.cost i.thumb),
    BitVec.ofNat_add]
  refine ⟨rfl, ?_⟩
  have := few (m.cpu.read i.pipelinePc rs) op.isSigned
  omega

/-- Software interrupts are counted, where the time is that of the hook if it took the interrupt. -/
theorem counted_of_interrupt {comment : Word} (hop : i.op = .softwareInterrupt comment) :
    i.Counted bus m := by
  have time : i.time bus m = i.op.cost i.thumb + Wait.total (i.timed bus m).2.host.2 := by
    unfold Instruction.time
    rw [hop]
  obtain ⟨told, heard, few, took⟩ := @Guest.softwareInterrupt_timing σ bus i.pipelinePc
    i.action.cost comment (m.shown i).untold
  have ran : i.timed bus m = exec (Guest.softwareInterrupt bus.timing i.pipelinePc i.action.cost comment)
      (m.shown i).untold := by
    unfold timed Action.execute
    rw [show i.action.op = _ from hop]
  have log : (i.timed bus m).2.host.2 = told := by
    rw [ran, heard]
    rfl
  have cost : i.action.cost.toNat = i.op.cost i.thumb := by
    rw [action, hop]
    rfl
  rw [show (m.shown i).untold.cycles = m.cycles from m.cycles_shown i, cost, Nat.add_comm] at took
  rw [Counted, time, log]
  refine ⟨(congrArg (·.2.cycles) ran).trans took, Nat.add_le_add_left ?_ _⟩
  exact Nat.le_trans (Wait.total_le told) (Nat.mul_le_mul_right _ (Nat.le_trans few (by decide)))

/-- All others are counted. -/
theorem counted_of_plain (still : i.op.movesData = false)
    (waits : ∀ comment, i.op ≠ .softwareInterrupt comment)
    (single : ∀ op s rd rn rs rm, i.op ≠ .mul op s rd rn rs rm) : i.Counted bus m := by
  have took := @takes_execute σ bus i.action i.pipelinePc still waits single (m.shown i).untold
  rw [Counted, time_of_plain still waits single]
  refine ⟨took.trans ?_, Nat.le_add_right _ _⟩
  rw [show (m.shown i).untold.cycles = m.cycles from m.cycles_shown i]
  rfl

/-- **Each instruction adds its time.** The four families together are all there are. -/
theorem counted (fits : bus.PairsFit) (short : i.op.cost i.thumb < 2 ^ 32) (m : Machine σ) :
    i.Counted bus m := by
  by_cases moves : i.op.movesData = true
  · exact counted_of_moves fits short moves
  · by_cases single : ∃ op s rd rn rs rm, i.op = .mul op s rd rn rs rm
    · obtain ⟨op, s, rd, rn, rs, rm, hop⟩ := single
      exact counted_of_mul hop
    · by_cases waits : ∃ comment, i.op = .softwareInterrupt comment
      · obtain ⟨comment, hop⟩ := waits
        exact counted_of_interrupt hop
      · exact counted_of_plain (Bool.eq_false_iff.mpr moves) (fun comment hop => waits ⟨comment, hop⟩)
          fun op s rd rn rs rm hop => single ⟨op, s, rd, rn, rs, rm, hop⟩

/-- Apart from the times it is the action of the instruction. -/
theorem exec_action_eq (bus : Bus σ) (i : Instruction) (m : Machine σ) :
    exec (i.action.execute bus i.pipelinePc) (m.shown i) =
      ((i.timed bus m).1, (i.timed bus m).2.mapHost Prod.fst) :=
  i.action.mirrors_execute bus.extends_timing i.pipelinePc (m.shown i).untold

/-- The node behind an instruction takes no cycles. -/
theorem cycles_publish (bus : Bus σ) (op : Op) (pc : Word) (m : Machine σ) :
    (exec (Step.perform bus ⟨op.publishKind, none, pc⟩) m).2.cycles = m.cycles := by
  rcases op.publishKind_eq with kind | kind
  · rw [kind]
    rfl
  · rw [kind, Step.perform, Block.executeNode, Guest.exec_bind, Guest.exec_bind, Guest.exec_get,
      Guest.exec_ite]
    cases m.trapped <;> rfl

/-- Publishing where the instruction goes takes no time, so performing it adds what its action does. -/
theorem cycles_perform (fits : bus.PairsFit) (short : i.op.cost i.thumb < 2 ^ 32) (m : Machine σ) :
    (exec (i.perform bus) m).2.cycles = m.cycles + BitVec.ofNat 32 (i.time bus m) := by
  rw [← (counted fits short m).1]
  have action := exec_action_eq bus i m
  rcases i.action.continues_execute bus i.pipelinePc (m.shown i) with next | leave
  · have ran := (Prod.ext next rfl : exec (i.action.execute bus i.pipelinePc) (m.shown i) = (.next, _))
    rw [exec_perform_of_next ran, action]
    split
    · exact cycles_publish ..
    · rfl
  · have ran := (Prod.ext leave rfl :
      exec (i.action.execute bus i.pipelinePc) (m.shown i) = (.leave .early, _))
    rw [exec_perform_of_leave ran, action]
    rfl

end Instruction

end ArmBlocks
