import ArmBlocks.Proofs.BlockRefinement
import ArmBlocks.Proofs.CurrentCode
import ArmBlocks.Proofs.LivenessSound

/-!
# Code in pieces

The same code may come as one block or as several: a run ends at its page and at the largest size of a
block, and an engine that thrashes takes every instruction by itself. A `Piece` is a stretch of code on
its way into an arena, and `Piece.runAll` makes a block of each and runs them one after the other, each
where the last one left the processor.

**How a block goes on is decided at its first instruction,** whatever comes behind and however the rest
is cut into sub-blocks. An unconditional instruction is executed and what is behind it follows
(`exec_body_of_always`), one whose condition fails costs its cycle (`exec_body_of_fails`), and one that
leaves, leaves (`exec_body_of_leaves`). So what a few instructions do can be said of every block that
begins with them, and of every way to cut the code they begin (`Block.Leads`).

Nothing here asks anything of the host.
-/

set_option autoImplicit false

namespace ArmBlocks

open Guest (exec onward inOrder)
open SubBlock (partition)
open CodeCache (prepare)

variable {σ : Type}

/-- Executes the sub-blocks of a run. -/
def Block.body (bus : Bus σ) (run : List Instruction) : Guest σ (Option Exit) :=
  inOrder ((partition run).map (SubBlock.perform bus))

/-- What a block does from a machine on, with so much of its run still ahead. -/
def Block.follow (bus : Bus σ) (run : List Instruction) (last : Instruction) (m : Machine σ) :
    Exit × Machine σ :=
  onward id (exec (Block.body bus run) m) fun m => (.atEnd, m.finish last)

/-! ## The first instruction of a block

The first instruction may share its sub-block with others. Run or passed over, it can be taken off the
front, and what is left is the block of the others.
-/

namespace SubBlock

variable (bus : Bus σ) {m : Machine σ}

/-- A sub-block whose condition fails takes a cycle for each of its instructions. -/
theorem exec_perform_of_fails {b : SubBlock} (short : b.size < 2 ^ 16)
    (fails : ¬m.cpu.satisfies b.cond = true) :
    exec (b.perform bus) m = (none, m.spend (BitVec.ofNat 32 b.size)) := by
  have skipped := exec_skip_of_short short m
  rcases b.cond_cases with always | never | checked
  · rw [always] at fails
    exact absurd rfl fails
  · rw [exec_perform_of_never bus m never, skipped]
    rfl
  · rw [exec_perform_of_checked bus m checked, if_neg fails, skipped]
    rfl

theorem exec_perform_of_holds {b : SubBlock} (holds : m.cpu.satisfies b.cond = true) :
    exec (b.perform bus) m = exec (b.body bus) m := by
  rcases b.cond_cases with always | never | checked
  · exact exec_perform_of_always bus m always
  · rw [never] at holds
    exact absurd holds Bool.false_ne_true
  · rw [exec_perform_of_checked bus m checked, if_pos holds]

theorem exec_body_cons (i : Instruction) (is : List Instruction) (m : Machine σ) :
    exec (SubBlock.body bus ⟨i, is⟩) m =
      onward some (exec (i.perform bus) m) (exec (inOrder (is.map (Instruction.perform bus)))) :=
  Guest.exec_inOrder_cons _ _ m

end SubBlock

namespace Block

variable (bus : Bus σ) {i : Instruction} {m n : Machine σ}

/-- A run that begins with an unconditional instruction is that and then the others, whether or not it
shares its sub-block with them. -/
theorem exec_body_of_always (always : i.cond = .always) (rest : List Instruction) (m : Machine σ) :
    exec (body bus (i :: rest)) m = onward some (exec (i.perform bus) m) (exec (body bus rest)) := by
  unfold body
  rcases SubBlock.partition_cons i rest with single | ⟨b, bs, cut, cond, joined⟩
  · rw [single, List.map_cons, Guest.exec_inOrder_cons]
    exact congrArg (onward some · _) (SubBlock.exec_performIf_of_always always : exec (i.performIf bus) m = _)
  · rw [joined, cut, List.map_cons, List.map_cons, Guest.exec_inOrder_cons,
      SubBlock.exec_perform_of_always bus m (b := ⟨i, b.instructions⟩) always, SubBlock.exec_body_cons,
      Guest.onward_onward]
    congr 1
    funext n
    rw [Guest.exec_inOrder_cons, SubBlock.exec_perform_of_always bus n (cond.trans always)]
    rfl

/-- A run is left where its first instruction leaves. -/
theorem exec_body_of_leaves {exit : Exit} (holds : m.cpu.satisfies i.cond = true)
    (leaves : exec (i.perform bus) m = (some exit, n)) (rest : List Instruction) :
    exec (body bus (i :: rest)) m = (some exit, n) := by
  unfold body
  rcases SubBlock.partition_cons i rest with single | ⟨b, bs, -, -, joined⟩
  · rw [single, List.map_cons, Guest.exec_inOrder_cons, SubBlock.exec_perform_of_holds bus holds,
      SubBlock.exec_body_cons, leaves]
    rfl
  · rw [joined, List.map_cons, Guest.exec_inOrder_cons, SubBlock.exec_perform_of_holds bus holds,
      SubBlock.exec_body_cons, leaves]
    rfl

/-- A run whose first instruction is passed over is the others, a cycle later. -/
theorem exec_body_of_fails (fails : ¬m.cpu.satisfies i.cond = true) {rest : List Instruction}
    (short : rest.length + 1 < 2 ^ 16) :
    exec (body bus (i :: rest)) m = exec (body bus rest) (m.spend 1) := by
  unfold body
  rcases SubBlock.partition_cons i rest with single | ⟨b, bs, cut, cond, joined⟩
  · have alone := SubBlock.exec_perform_of_fails bus (b := ⟨i, []⟩) (show (1 : Nat) < 2 ^ 16 by decide)
      fails
    rw [single, List.map_cons, Guest.exec_inOrder_cons, alone]
    rfl
  · -- all of the sub-block is passed over at once, and so is what it is without the instruction
    have inside : b ∈ partition rest := by
      rw [cut]
      exact List.mem_cons_self
    have size : b.size ≤ rest.length := SubBlock.size_le inside
    have whole := SubBlock.exec_perform_of_fails bus (b := ⟨i, b.instructions⟩) (m := m)
      (show b.size + 1 < 2 ^ 16 by omega) fails
    have others := SubBlock.exec_perform_of_fails bus (b := b) (m := m.spend 1)
      (show b.size < 2 ^ 16 by omega) (cond.symm ▸ fails)
    rw [joined, cut, List.map_cons, List.map_cons, Guest.exec_inOrder_cons, Guest.exec_inOrder_cons,
      whole, others, Machine.spend_spend, show SubBlock.size ⟨i, b.instructions⟩ = 1 + b.size from
        Nat.add_comm b.size 1, BitVec.ofNat_add]
    rfl

end Block

/-! ## What the optimization leaves alone

The optimization begins at the end of the block, and where a piece ends decides which flags are live.
Instructions that it leaves alone in every piece are singled out here.
-/

namespace Liveness

/-- An operation without a form that sets no flags stays as it is. -/
theorem optimize_of_kept {i : Instruction} (kept : i.op.withoutFlags? = none)
    (rest : List Instruction) : optimize (i :: rest) = i :: optimize rest := by
  have same : simplify i (liveAfter i (pass rest).1) = i := by
    unfold simplify
    rw [kept]
    split
    · rfl
    · rfl
  exact congrArg (· :: optimize rest) same

/-- All flags are live before an instruction that may leave the block. -/
theorem pass_of_mayExit {j : Instruction} (exits : j.op.mayExit = true) (rest : List Instruction) :
    (pass (j :: rest)).1 = .all := by
  have same : (simplify j (liveAfter j (pass rest).1)).op.mayExit = true := by
    rw [mayExit_simplify, exits]
  exact if_pos same

/-- So what stands in front of such an instruction stays as it is. -/
theorem optimize_of_live (i : Instruction) {rest : List Instruction} (live : (pass rest).1 = .all) :
    optimize (i :: rest) = i :: optimize rest := by
  have same : simplify i (liveAfter i (pass rest).1) = i := by
    have all : liveAfter i (pass rest).1 = .all := by
      rw [live]
      exact ite_self _
    unfold simplify
    rw [all, isDead_all, Bool.and_false]
    rfl
  exact congrArg (· :: optimize rest) same

end Liveness

namespace CodeCache

theorem prepare_nil (config : Config) : prepare config [] = [] := by
  unfold prepare
  exact ite_self _

theorem prepare_of_kept (config : Config) {i : Instruction} (kept : i.op.withoutFlags? = none)
    (rest : List Instruction) : prepare config (i :: rest) = i :: prepare config rest := by
  unfold prepare
  split
  · exact Liveness.optimize_of_kept kept rest
  · rfl

theorem prepare_of_mayExit (config : Config) (i : Instruction) {j : Instruction}
    (exits : j.op.mayExit = true) (rest : List Instruction) :
    prepare config (i :: j :: rest) = i :: prepare config (j :: rest) := by
  unfold prepare
  split
  · exact Liveness.optimize_of_live i (Liveness.pass_of_mayExit exits rest)
  · rfl

end CodeCache

/-! ## Pieces

Code may be cut into blocks anywhere, and each is compiled with a configuration of its own. They run
one after the other, as long as each goes on where the next one starts.
-/

/-- A stretch of code, and the arena and the configuration to make a block of it with. -/
structure Piece where
  run : List Instruction
  config : Config
  arena : Arena Record

namespace Piece

/-- A block can be made of the piece: it is none too long, and there is room. -/
structure Fits (p : Piece) : Prop where
  short : p.run.length ≤ Config.maxBlock
  room : (Block.emit (prepare p.config p.run) p.arena).1.isSome

/-- Makes a block of the piece and runs it; nothing if there is no block. -/
def exec? (bus : Bus σ) (p : Piece) (cpu : CpuState) (host : σ) : Option (Exit × Machine σ) :=
  let (ref?, arena) := Block.emit (prepare p.config p.run) p.arena
  (ref?.bind (Block.header? arena)).map fun h => exec (Block.run bus arena h) (Machine.start cpu host)

/-- Whether the code goes on at what is next. -/
def continues (cpu : CpuState) (pieces : List Piece) : Bool :=
  (pieces.flatMap run).head?.all (·.addr == cpu.next)

/-- Runs pieces one after the other until one of them leaves, answering how the last one that ran was
left; nothing if what is next is not where the code goes on. -/
def runAll (bus : Bus σ) : List Piece → CpuState → σ → Option (Exit × Machine σ)
  | [], cpu, host => some (.atEnd, Machine.start cpu host)
  | p :: rest, cpu, host =>
    match p.exec? bus cpu host with
    | none => none
    | some (.atEnd, m) => if continues m.cpu rest then runAll bus rest m.cpu m.host else none
    | some (exit, m) => some (exit, m)

/-- A piece that fits is run, and what runs are its instructions. -/
theorem exec?_of_fits (bus : Bus σ) {p : Piece} (fits : p.Fits) (cpu : CpuState) (host : σ) :
    ∃ last, (prepare p.config p.run).getLast? = some last ∧
      p.exec? bus cpu host =
        some (Block.follow bus (prepare p.config p.run) last (Machine.start cpu host)) := by
  obtain ⟨ref, answered⟩ := Option.isSome_iff_exists.mp fits.room
  have short : (prepare p.config p.run).length ≤ Config.maxBlock := by
    rw [CodeCache.length_prepare]
    exact fits.short
  unfold exec?
  rcases emitted : Block.emit (prepare p.config p.run) p.arena with ⟨ref?, arena⟩
  obtain rfl : ref? = some ref := by
    rw [← answered, emitted]
  obtain ⟨first, last, nodes, -, hlast, block⟩ :=
    Block.at_of_emit_anywhere emitted (Block.nodeCount_lt short)
  refine ⟨last, hlast, ?_⟩
  simp only [Option.bind_some, block.header?_eq, Option.map_some]
  rw [Block.run_eq_perform block, Block.exec_perform]
  rfl

/-- A piece that fits is not empty. -/
theorem Fits.nonempty {p : Piece} (fits : p.Fits) : p.run ≠ [] := by
  intro empty
  have none : prepare p.config p.run = [] := by
    apply List.eq_nil_of_length_eq_zero
    rw [CodeCache.length_prepare, empty, List.length_nil]
  have room := fits.room
  rw [none] at room
  exact absurd room Bool.false_ne_true

/-- An instruction by itself in an emptied arena, the way it is run without a cache. -/
def alone (scratch : Arena Record) (i : Instruction) : Piece :=
  { run := [i], config := { optimizeFlags := false }, arena := scratch.reset }

/-- A single instruction always fits. -/
theorem fits_alone {scratch : Arena Record} (ok : Block.IsScratch scratch) (i : Instruction) :
    (alone scratch i).Fits where
  short := show 1 ≤ Config.maxBlock by decide
  room := by
    obtain ⟨ref, b, emitted⟩ := Block.emit_alone ok i
    show (Block.emit [i] scratch.reset).1.isSome = true
    rw [emitted]
    rfl

end Piece

/-! ## Code that leaves wherever it is cut

Code of one or two instructions that leaves a block does so in every cutting, and what comes behind it
does not matter.
-/

/-- However the code is cut into pieces, and whatever the host is, it is left early and with the given
processor. -/
def Block.Leads (bus : Bus σ) (run : List Instruction) (s t : CpuState) : Prop :=
  ∀ (pieces : List Piece) (host : σ), pieces.flatMap Piece.run = run → (∀ p ∈ pieces, p.Fits) →
    ∃ m, Piece.runAll bus pieces s host = some (.early, m) ∧ m.cpu = t

namespace Block

variable {bus : Bus σ} {i j : Instruction} {s t u : CpuState}

/-- The first piece of code that begins with an instruction begins with it. -/
theorem first_piece {pieces : List Piece} {i : Instruction} {rest : List Instruction}
    (cut : pieces.flatMap Piece.run = i :: rest) (fit : ∀ p ∈ pieces, p.Fits) :
    ∃ p others more, pieces = p :: others ∧ p.run = i :: more ∧
      more ++ others.flatMap Piece.run = rest := by
  cases pieces with
  | nil => cases cut
  | cons p others =>
    rw [List.flatMap_cons] at cut
    rcases begins : p.run with _ | ⟨j, more⟩
    · exact absurd begins (fit p List.mem_cons_self).nonempty
    · rw [begins, List.cons_append] at cut
      injection cut with same tail
      exact ⟨p, others, more, rfl, by rw [begins, same], tail⟩

/-- An instruction that leaves, first. -/
theorem leads_of_one (kept : i.op.withoutFlags? = none) (holds : s.satisfies i.cond = true)
    (leaves : ∀ m : Machine σ, m.cpu = s → ∃ n, exec (i.perform bus) m = (some .early, n) ∧ n.cpu = t)
    (rest : List Instruction) : Leads bus (i :: rest) s t := by
  intro pieces host cut fit
  obtain ⟨p, others, more, rfl, begins, -⟩ := first_piece cut fit
  obtain ⟨last, -, ran⟩ := Piece.exec?_of_fits bus (fit p List.mem_cons_self) s host
  obtain ⟨n, left, cpu⟩ := leaves (Machine.start s host) rfl
  have whole := exec_body_of_leaves bus (m := Machine.start s host) holds left (prepare p.config more)
  refine ⟨n, ?_, cpu⟩
  rw [begins, CodeCache.prepare_of_kept p.config kept, follow, whole] at ran
  rw [Piece.runAll, ran]
  rfl

/-- An instruction that goes on and one behind it that leaves. They may be in one block, or the second may
start the next one; then what is next was written in between. -/
theorem leads_of_two (adjacent : j.addr = i.next) (first : i.op.withoutFlags? = none)
    (second : j.op.withoutFlags? = none) (always : i.cond = .always) (always' : j.cond = .always)
    (goes : ∀ m : Machine σ, m.cpu = s → ∃ n, exec (i.perform bus) m = (none, n) ∧ n.cpu = u)
    (leaves : ∀ (m : Machine σ) (next : Word), m.cpu.withNext next = u.withNext next →
      ∃ n, exec (j.perform bus) m = (some .early, n) ∧ n.cpu = t)
    (rest : List Instruction) : Leads bus (i :: j :: rest) s t := by
  intro pieces host cut fit
  obtain ⟨p, others, more, rfl, begins, cut'⟩ := first_piece cut fit
  obtain ⟨last, hlast, ran⟩ := Piece.exec?_of_fits bus (fit p List.mem_cons_self) s host
  obtain ⟨n, gone, cpu⟩ := goes (Machine.start s host) rfl
  rw [begins, CodeCache.prepare_of_kept p.config first] at hlast ran
  rw [follow, exec_body_of_always bus always, gone] at ran
  have satisfied (cpu : CpuState) : cpu.satisfies j.cond = true := by
    rw [always']
    rfl
  -- the cut falls between the two instructions, or both are in the first piece
  cases more with
  | nil =>
    have left : ∀ m : Machine σ, m.cpu = n.cpu.withNext last.next →
        ∃ n, exec (j.perform bus) m = (some .early, n) ∧ n.cpu = t := by
      intro m here
      refine leaves m 0 ?_
      rw [here, cpu]
      rfl
    obtain ⟨k, after, arrived⟩ := leads_of_one second (satisfied _) left rest others n.host cut'
      fun p hp => fit p (List.mem_cons_of_mem _ hp)
    rw [CodeCache.prepare_nil] at ran hlast
    obtain rfl : i = last := Option.some.inj hlast
    have next : Piece.continues (n.cpu.withNext i.next) others = true := by
      rw [Piece.continues, show others.flatMap Piece.run = j :: rest from cut']
      exact beq_iff_eq.mpr adjacent
    refine ⟨k, ?_, arrived⟩
    rw [Piece.runAll, ran]
    exact (if_pos next).trans after
  | cons k more =>
    injection cut' with same
    obtain ⟨k, left, arrived⟩ := leaves n 0 (by rw [cpu])
    have whole := exec_body_of_leaves bus (satisfied n.cpu) left (prepare p.config more)
    rw [same, CodeCache.prepare_of_kept p.config second] at ran
    refine ⟨k, ?_, arrived⟩
    rw [Piece.runAll, ran, onward, whole]
    rfl

/-- Without a cache every instruction is a piece by itself. -/
theorem Leads.alone {run : List Instruction} (leads : Leads bus run s t) {scratch : Arena Record}
    (ok : IsScratch scratch) (host : σ) :
    ∃ m, Piece.runAll bus (run.map (Piece.alone scratch)) s host = some (.early, m) ∧ m.cpu = t := by
  refine leads _ host ?_ fun p hp => ?_
  · rw [List.flatMap_map]
    exact List.flatMap_singleton' run
  · obtain ⟨i, -, rfl⟩ := List.mem_map.mp hp
    exact Piece.fits_alone ok i

end Block

end ArmBlocks
