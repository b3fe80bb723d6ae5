import ArmBlocks.Proofs.Footprint
import ArmBlocks.Engine

/-!
# One instruction at a time

What a block is measured against: every instruction of a run emitted and run as a block of its own,
the way the engine does it when it runs without its cache, each starting from the processor and the
host the one before it left, until one of them does not end in its terminal node (`Block.runEach`).

That description goes through the scratch arena, and every instruction could fail to fit. It never
does (`runEach_eq`): a single instruction needs less room than the engine reserves. So what is
compared in the proofs is `oneByOne`, the same without an arena, and the two are one.
-/

set_option autoImplicit false

namespace ArmBlocks

open Guest (exec onward inOrder)

variable {σ : Type}

/-- What running some instructions came to. -/
structure Outcome (σ : Type) where
  /-- How the last instruction that ran ended. -/
  exit : Exit
  /-- The number of instructions that ran. -/
  ran : Nat
  cpu : CpuState
  host : σ
  /-- The cycles of all of them. -/
  cycles : Word
  /-- What all of them had to tell. -/
  notices : List Notice

namespace Outcome

/-- Running nothing. -/
def none (cpu : CpuState) (host : σ) : Outcome σ :=
  { exit := .atEnd, ran := 0, cpu, host, cycles := 0, notices := [] }

/-- One instruction that ended as given, and what became of the others if it did not leave. -/
def first (r : Exit × Machine σ) (rest : CpuState → σ → Outcome σ) : Outcome σ :=
  match r with
  | (.atEnd, m) =>
    let o := rest m.cpu m.host
    { o with
      ran := o.ran + 1
      cycles := m.cycles + o.cycles
      notices := m.notices ++ o.notices }
  | (exit, m) =>
    { exit, ran := 1, cpu := m.cpu, host := m.host, cycles := m.cycles, notices := m.notices }

end Outcome

namespace Block

/-- Emits an instruction into the emptied scratch arena and runs it; nothing if it does not fit. -/
def runAlone (bus : Bus σ) (scratch : Arena Record) (i : Instruction) (cpu : CpuState)
    (host : σ) : Option (Exit × Machine σ) :=
  let (ref?, arena) := emit [i] scratch.reset
  (ref?.bind (header? arena)).map fun h => exec (run bus arena h) (Machine.start cpu host)

/-- Runs instructions one after the other, each as a block of its own, until one of them leaves. -/
def runEach (bus : Bus σ) (scratch : Arena Record) :
    List Instruction → CpuState → σ → Option (Outcome σ)
  | [], cpu, host => some (Outcome.none cpu host)
  | i :: rest, cpu, host =>
    match runAlone bus scratch i cpu host with
    | none => none
    | some (.atEnd, m) =>
      (runEach bus scratch rest m.cpu m.host).map fun o => Outcome.first (.atEnd, m) fun _ _ => o
    | some (exit, m) => some (Outcome.first (exit, m) Outcome.none)

end Block

/-! ## An instruction under its condition

A sub-block of one instruction is a check and the instruction, where it has a condition at all.
-/

/-- Executes an instruction if its own condition holds. -/
def Instruction.performIf (bus : Bus σ) (i : Instruction) : Guest σ (Option Exit) :=
  SubBlock.perform bus ⟨i, []⟩

/-- A machine after some cycles more. -/
def Machine.spend (m : Machine σ) (cycles : Word) : Machine σ :=
  { m with cycles := m.cycles + cycles }

theorem Machine.spend_zero (m : Machine σ) : m.spend 0 = m := by
  simp [spend]

theorem Machine.spend_spend (m : Machine σ) (first second : Word) :
    (m.spend first).spend second = m.spend (first + second) := by
  rw [spend, spend, spend, BitVec.add_assoc]

namespace SubBlock

theorem exec_skip (b : SubBlock) (m : Machine σ) :
    exec b.skip m = (none, m.spend ((BitVec.ofNat 16 b.size).setWidth 32)) := rfl

/-- A sub-block of one instruction is that instruction. -/
theorem exec_body_single (bus : Bus σ) (i : Instruction) (m : Machine σ) :
    exec (SubBlock.body bus ⟨i, []⟩) m = exec (i.perform bus) m := by
  rw [body, instructions, List.map_singleton, Guest.exec_inOrder_cons]
  exact Guest.onward_some_none _

variable {bus : Bus σ} {i : Instruction} {m : Machine σ}

theorem exec_performIf_of_always (h : i.cond = .always) :
    exec (i.performIf bus) m = exec (i.perform bus) m := by
  rw [Instruction.performIf, exec_perform_of_always (b := ⟨i, []⟩) bus m h, exec_body_single]

theorem exec_performIf_of_never (h : i.cond = .never) :
    exec (i.performIf bus) m = (none, m.spend 1) := by
  rw [Instruction.performIf, exec_perform_of_never (b := ⟨i, []⟩) bus m h]
  rfl

theorem exec_performIf_of_checked (h : i.cond ≠ .always ∧ i.cond ≠ .never) :
    exec (i.performIf bus) m =
      if m.cpu.satisfies i.cond then exec (i.perform bus) m else (none, m.spend 1) := by
  rw [Instruction.performIf, exec_perform_of_checked (b := ⟨i, []⟩) bus m h, exec_body_single]
  rfl

end SubBlock

/-! ## Without the arena

The small arena always has room for one instruction, so running it needs no arena to speak of. What is
left is a run of the instruction on a machine of its own.
-/

/-- Runs an instruction by itself from the start of a block. -/
def Instruction.alone (bus : Bus σ) (i : Instruction) (cpu : CpuState) (host : σ) :
    Exit × Machine σ :=
  exec (Block.perform bus [⟨i, []⟩] i) (Machine.start cpu host)

namespace Instruction

/-- An instruction executes exactly if its condition holds, whatever the condition. -/
theorem exec_performIf (bus : Bus σ) (i : Instruction) (m : Machine σ) :
    exec (i.performIf bus) m =
      if m.cpu.satisfies i.cond then exec (i.perform bus) m else (none, m.spend 1) := by
  rcases SubBlock.cond_cases ⟨i, []⟩ with always | never | checked
  · have holds : m.cpu.satisfies i.cond = true := by
      rw [show i.cond = .always from always]
      rfl
    rw [SubBlock.exec_performIf_of_always always, if_pos holds]
  · have fails : ¬m.cpu.satisfies i.cond = true := by
      rw [show i.cond = .never from never]
      exact Bool.false_ne_true
    rw [SubBlock.exec_performIf_of_never never, if_neg fails]
  · exact SubBlock.exec_performIf_of_checked checked

theorem leavesEarly_performIf (bus : Bus σ) (i : Instruction) : Guest.LeavesEarly (i.performIf bus) :=
  SubBlock.leavesEarly_perform bus ⟨i, []⟩

/-- An instruction by itself either leaves, or what follows it is next. -/
theorem alone_eq (bus : Bus σ) (i : Instruction) (cpu : CpuState) (host : σ) :
    i.alone bus cpu host =
      onward id (exec (i.performIf bus) (Machine.start cpu host)) fun m => (.atEnd, m.finish i) := by
  rw [alone, Block.exec_perform, List.map_singleton, Guest.exec_inOrder_cons]
  exact congrArg (onward id · _) (Guest.onward_some_none _)

end Instruction

/-- Runs instructions one after the other, until one of them leaves. -/
def oneByOne (bus : Bus σ) : List Instruction → CpuState → σ → Outcome σ
  | [], cpu, host => Outcome.none cpu host
  | i :: rest, cpu, host => Outcome.first (i.alone bus cpu host) (oneByOne bus rest)

namespace Block

/-- An arena in which single instructions can be built. -/
def IsScratch (scratch : Arena Record) : Prop :=
  Engine.scratchBytes ≤ scratch.capacity ∧ scratch.capacity ≤ 2 ^ 32

/-- The arena that the engine reserves for them. -/
def scratchArena : Arena Record :=
  { capacity := Engine.scratchBytes, used := 0, generation := 0, cells := ∅ }

theorem isScratch_scratchArena : IsScratch scratchArena := ⟨Nat.le_refl _, by decide⟩

/-- `MOVEQ r0, #1` and a branch to itself. -/
def moveThenLoop : List Instruction :=
  [Arm.decode .arm7 0 0x03A00001, Arm.decode .arm7 4 0xEAFFFFFE]

/-- A single instruction fits. -/
theorem emit_alone {scratch : Arena Record} (ok : IsScratch scratch) (i : Instruction) :
    ∃ ref b, emit [i] scratch.reset = (some ref, b) := by
  have few : nodeCount [i] ≤ 5 := nodeCount_le [i]
  have room : scratch.reset.used + roomFor [i] < scratch.reset.capacity := by
    have enough : 0x1000 ≤ scratch.capacity := ok.1
    show 0 + (59 * nodeCount [i] + 78) < scratch.capacity
    omega
  obtain ⟨ref, b, eq, -⟩ := emit_of_room (by simp) room
  exact ⟨ref, b, eq⟩

/-- What runs is the instruction. -/
theorem runAlone_eq (bus : Bus σ) {scratch : Arena Record} (ok : IsScratch scratch)
    (i : Instruction) (cpu : CpuState) (host : σ) :
    runAlone bus scratch i cpu host = some (i.alone bus cpu host) := by
  have few : nodeCount [i] ≤ 5 := nodeCount_le [i]
  obtain ⟨ref, b, eq⟩ := emit_alone ok i
  obtain ⟨first, last, nodes, hfirst, hlast, -, block⟩ := at_of_emit eq ok.2 (by omega)
  obtain rfl : i = last := by simpa using hlast
  simp only [runAlone, eq, Option.bind_some, block.header?_eq, Option.map_some]
  rw [run_eq_perform block]
  rfl

/-- Running instructions one at a time always comes to something. -/
theorem runEach_eq (bus : Bus σ) {scratch : Arena Record} (ok : IsScratch scratch)
    (run : List Instruction) :
    ∀ (cpu : CpuState) (host : σ),
      runEach bus scratch run cpu host = some (oneByOne bus run cpu host) := by
  induction run with
  | nil => intro cpu host; rfl
  | cons i rest ih =>
    intro cpu host
    rw [runEach, runAlone_eq bus ok, oneByOne]
    rcases i.alone bus cpu host with ⟨_ | _ | _, m⟩
    · simp only [ih, Option.map_some]
      rfl
    · rfl
    · rfl

end Block

end ArmBlocks
