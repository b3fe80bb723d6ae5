import ArmBlocks.Proofs.BlockOrigins
import ArmBlocks.Proofs.CachesAhead
import ArmBlocks.Proofs.Observers
import ArmBlocks.Proofs.Uncached

/-!
# Blocks stand as far as references reach

A reference has 32 bits, so a cache that has handed out 2³² bytes since it was emptied goes on where it
began and writes over what is still in use. Until then every block in its table stands as it was emitted
(`CodeCache.InStep`), and so does the one that an execution finds or compiles. No block that is run is
broken then (`Engine.unbroken_turn`).

A bound on the size of the cache is not needed for that, only on what was handed out in it; and a cache of
at most 2³² bytes never hands out as much (`CodeCache.InStep.reached`).

**The cache may hold blocks that start at odd addresses.** An embedder may have asked for one, and it
stays. So of where a block ends no more is said than that it is as well aligned as its start.
-/

set_option autoImplicit false

namespace ArmBlocks

open Guest (exec)
open CodeCache (prepare)

variable {σ : Type}

/-! ## Where a block ends

The header of a block names its start and its instruction set, and its last node the address behind
its run. That address is as far off the width as the start is, since all instructions in between are
as wide as that.
-/

/-- The end of a block is as well aligned as its start, to the instruction set of the block. -/
def Block.Header.InStep (h : Block.Header) (last : Instruction) : Prop :=
  last.next.toNat % Decode.bytes h.thumb = h.first.toNat % Decode.bytes h.thumb

namespace Decode

variable {bus : Bus σ} {cpu : Cpu} {thumb : Bool}

/-- The instruction behind another one is as well aligned as that. -/
theorem next_mod {i : Instruction} (set : i.thumb = thumb) :
    i.next.toNat % bytes thumb = i.addr.toNat % bytes thumb := by
  have range := i.addr.isLt
  rw [Instruction.next, Instruction.width, set, BitVec.toNat_add]
  cases thumb with
  | true =>
    show (i.addr.toNat + 2) % 2 ^ 32 % 2 = i.addr.toNat % 2
    omega
  | false =>
    show (i.addr.toNat + 4) % 2 ^ 32 % 4 = i.addr.toNat % 4
    omega

/-- Instructions are decoded one after the other, so they are all as well aligned as the first. -/
theorem mod_instructions (limit : Nat) :
    ∀ (start : Word) (host : σ), ∀ i ∈ (instructions bus cpu thumb limit start host).1,
      i.thumb = thumb ∧ i.addr.toNat % bytes thumb = start.toNat % bytes thumb := by
  induction limit with
  | zero => intro start host i hi; cases hi
  | succ limit ih =>
    intro start host j hj
    rw [instructions] at hj
    rcases found : fetch bus cpu thumb start host with ⟨_ | i, host'⟩
    · rw [found] at hj
      cases hj
    · obtain ⟨addr, set⟩ := place_of_fetch (congrArg Prod.fst found)
      have first : i.thumb = thumb ∧ i.addr.toNat % bytes thumb = start.toNat % bytes thumb :=
        ⟨set, by rw [addr]⟩
      rw [found] at hj
      dsimp only at hj
      split at hj
      · obtain rfl := List.mem_singleton.mp hj
        exact first
      · rcases List.mem_cons.mp hj with rfl | later
        · exact first
        -- an instruction is as wide as the alignment, so that the remainder goes on
        · obtain ⟨set', place⟩ := ih i.next host' j later
          exact ⟨set', place.trans ((next_mod set).trans first.2)⟩

end Decode

/-- An instruction of a prepared run stands where one of the run does. -/
theorem CodeCache.place_of_mem_prepare {config : Config} {run : List Instruction} {j : Instruction}
    (hj : j ∈ prepare config run) : ∃ i ∈ run, j.addr = i.addr ∧ j.thumb = i.thumb := by
  obtain ⟨i, hi, rfl | ⟨live, rfl⟩⟩ := exists_of_mem_prepare hj
  · exact ⟨j, hi, rfl, rfl⟩
  · exact ⟨i, hi, Liveness.place_simplify i live⟩

/-! ## The blocks of a cache

The invariant is only asked for while references reach everything, and it is kept by each operation:
what stands goes on standing as the arena grows, and a new block is the one that was emitted.
-/

namespace CodeCache

variable {bus : Bus σ} {config : Config} {c : CodeCache}

/-- As far as references reach, all blocks of the cache end in step with their start. -/
structure InStep (c : CodeCache) : Prop where
  room : c.arena.used = 0 ∨ c.arena.used < c.arena.capacity
  blocks : c.arena.used < 2 ^ 32 → ∀ (slot : Nat) (ref : Ref) (generation : Word),
    c.table.slots[slot]? = some (.compiled ref generation) →
      ∃ h run last, Block.At c.arena ref h (Block.steps run last) ∧ h.InStep last

/-- In a cache of at most 2³² bytes references always reach. -/
theorem InStep.reached (h : c.InStep) (small : c.arena.capacity ≤ 2 ^ 32) : c.arena.used < 2 ^ 32 := by
  have room := h.room
  omega

theorem inStep_of_no_blocks (slots : c.table.slots = ∅) (unused : c.arena.used = 0) : c.InStep := by
  refine ⟨.inl unused, fun _ slot ref generation held => ?_⟩
  rw [slots] at held
  exact absurd held (by simp)

/-- Fewer blocks in the same arena are in step as well. -/
theorem InStep.of_subset (h : c.InStep) {d : CodeCache} (arena : d.arena = c.arena)
    (subset : ∀ (slot : Nat) (ref : Ref) (generation : Word),
      d.table.slots[slot]? = some (.compiled ref generation) →
        c.table.slots[slot]? = some (.compiled ref generation)) : d.InStep where
  room := by
    rw [arena]
    exact h.room
  blocks reached slot ref generation held := by
    rw [arena] at reached ⊢
    exact h.blocks reached slot ref generation (subset slot ref generation held)

theorem InStep.marked (h : c.InStep) (slot : Nat) : (c.marked slot).InStep := by
  refine h.of_subset rfl fun other ref generation held => ?_
  by_cases same : slot = other
  · subst same
    simp [CodeCache.marked] at held
  · simpa [CodeCache.marked, Std.TreeMap.getElem?_insert, same] using held

theorem InStep.makeRoom (h : c.InStep) (config : Config) : (c.makeRoom config).1.InStep := by
  unfold CodeCache.makeRoom
  split
  · exact inStep_of_no_blocks rfl rfl
  · exact h

/-- A block that was emitted from a decoded run is in step. -/
theorem inStep_of_emit {s : CpuState} {run : List Instruction} {ref : Ref} {a arena : Arena Record}
    (short : run.length ≤ Config.maxBlock)
    (places : ∀ i ∈ run, i.thumb = s.thumb ∧
      i.addr.toNat % Decode.bytes s.thumb = s.next.toNat % Decode.bytes s.thumb)
    (emitted : Block.emit (prepare config run) a = (some ref, arena)) :
    ∃ h run last, Block.At arena ref h (Block.steps run last) ∧ h.InStep last := by
  obtain ⟨first, last, nodes, hfirst, hlast, block⟩ := Block.at_of_emit_anywhere emitted
    (Block.nodeCount_lt (by rw [length_prepare]; exact short))
  refine ⟨_, _, last, block, ?_⟩
  -- its first and its last instruction are of the one run that was decoded
  have place {j : Instruction} (hj : j ∈ prepare config run) : j.thumb = s.thumb ∧
      j.addr.toNat % Decode.bytes s.thumb = s.next.toNat % Decode.bytes s.thumb := by
    obtain ⟨i, hi, addr, set⟩ := place_of_mem_prepare hj
    rw [addr, set]
    exact places i hi
  obtain ⟨set, start⟩ := place (List.mem_of_head? hfirst)
  obtain ⟨set', stop⟩ := place (List.mem_of_getLast? hlast)
  show last.next.toNat % Decode.bytes first.thumb = first.addr.toNat % Decode.bytes first.thumb
  rw [set, start, Decode.next_mod set', stop]

/-- A block that is put into its slot is in step, and the others stay where they are. -/
theorem InStep.withBlock (h : c.InStep) {slot : Nat} {s : CpuState} {run : List Instruction}
    {ref : Ref} {arena : Arena Record} (short : run.length ≤ Config.maxBlock)
    (places : ∀ i ∈ run, i.thumb = s.thumb ∧
      i.addr.toNat % Decode.bytes s.thumb = s.next.toNat % Decode.bytes s.thumb)
    (emitted : Block.emit (prepare config run) c.arena = (some ref, arena)) :
    (c.withBlock slot s.next s.thumb run ref arena).InStep := by
  have few : Block.nodeCount (prepare config run) < 2 ^ 16 :=
    Block.nodeCount_lt (by rw [length_prepare]; exact short)
  have room : arena.used < arena.capacity := by
    obtain ⟨_, last, _, -, hlast, -⟩ := Block.at_of_emit_anywhere emitted few
    exact (Block.used_of_emit hlast emitted).2
  refine ⟨.inr room, fun reached other ref' generation held => ?_⟩
  by_cases same : slot = other
  · subst same
    have entry : SlotEntry.compiled ref arena.generation = .compiled ref' generation := by
      simpa [CodeCache.withBlock] using held
    cases entry
    exact inStep_of_emit short places emitted
  · -- the others are where they were, and the arena has only grown
    have old : c.table.slots[other]? = some (.compiled ref' generation) := by
      simpa [CodeCache.withBlock, Std.TreeMap.getElem?_insert, same] using held
    have grows := Block.grows_of_emit emitted few reached
    obtain ⟨found, run', last', block', step⟩ :=
      h.blocks (Nat.lt_of_le_of_lt grows.used reached) other ref' generation old
    exact ⟨found, run', last', block'.mono grows, step⟩

/-- Compiling keeps blocks in step: it installs one that was emitted for the place where it is installed,
or empties the cache, or leaves it. -/
theorem InStep.compile (h : c.InStep) (bus : Bus σ) (config : Config) (s : CpuState) (host : σ) :
    (c.compile bus config s host).cache.InStep := by
  have step := c.compileStep bus config s host
  generalize c.compile bus config s host = made at step ⊢
  rcases made with ⟨outcome, cache, s', host', told⟩
  dsimp only at step ⊢
  cases step with
  | unmapped place => exact h
  | thrashing slot place often => exact h.marked slot
  | unfetched slot place calm empty => exact h.makeRoom config
  | full slot place calm nonempty arena emitted => exact inStep_of_no_blocks rfl rfl
  | built slot place calm nonempty ref arena emitted =>
    exact (h.makeRoom config).withBlock (c.length_decoded_le bus config s host)
      (Decode.mod_instructions _ s.next host) emitted

theorem InStep.obtainBlock (h : c.InStep) (bus : Bus σ) (config : Config) (s : CpuState) (host : σ) :
    (Engine.obtainBlock c bus config s host).cache.InStep := by
  unfold Engine.obtainBlock
  split
  · exact h
  · exact h.compile bus config s host

/-- Dropping blocks leaves the others in step. -/
theorem InStep.invalidate (h : c.InStep) (addr : Word) : (c.invalidate addr).1.InStep := by
  cases here : c.table.layout.slot? addr with
  | none =>
    rw [invalidate_of_unmapped here]
    exact h
  | some hit =>
    have dropped := dropped_invalidate here
    exact h.of_subset dropped.arena fun slot ref generation held => ((dropped.slots slot _).mp held).1

/-- A renewed cache is empty, or is the old one. -/
theorem InStep.renewed (h : c.InStep) (config : Config) (grants : Nat → Bool) :
    (c.renewed config grants).InStep := by
  unfold CodeCache.renewed
  split
  · exact inStep_of_no_blocks rfl rfl
  · split
    · rename_i fresh resized
      obtain ⟨layout, -, -, rfl⟩ := resized_eq_ok.mp resized
      exact inStep_of_no_blocks rfl rfl
    · exact h

end CodeCache

/-! ## A call of the engine

Whatever was found or built, the block that is run stands where its header says, and its header names
the next instruction.
-/

namespace Engine

variable {bus : Bus σ} {e : Engine} {c : CodeCache} {config : Config} {s : CpuState} {host : σ}

theorem Lived.inStep (lived : e.Lived bus) (cached : e.caches.get s.cpu = some c) : c.InStep := by
  refine lived.cache_induction (P := fun _ c => c.InStep) (fun made => ?_)
    (fun {cpu config _} host next _ _ h => ?_) s.cpu c cached
  · obtain ⟨layout, -, -, rfl⟩ := CodeCache.new_eq_ok.mp made
    exact CodeCache.inStep_of_no_blocks rfl rfl
  · exact Call.onCache_induction h (fun s => h.obtainBlock bus config s host)
      (fun addr before => before.invalidate addr) (h.renewed config) cpu next

/-- Whatever block is answered for an address is in the table, and was compiled for that address. -/
theorem answers_obtainBlock {ref : Ref} {generation : Word}
    (outcome : (obtainBlock c bus e.config s host).outcome = .ok (.compiled ref generation)) :
    (obtainBlock c bus e.config s host).cache.Answers s.next ref generation := by
  unfold obtainBlock at outcome ⊢
  cases found : findBlock c s.next with
  | some block =>
    rw [found] at outcome
    cases outcome
    exact answers_of_findBlock found
  | none =>
    rw [found] at outcome
    dsimp only at outcome ⊢
    have step := c.compileStep bus e.config s host
    have layout := (c.sameShell_makeRoom e.config).layout
    generalize c.compile bus e.config s host = made at step outcome ⊢
    rcases made with ⟨outcome', cache, s', host', told⟩
    dsimp only at step outcome ⊢
    subst outcome
    cases step with
    | built slot place calm nonempty ref arena emitted =>
      obtain ⟨i, first, hi, hfirst, addr, -⟩ := CodeCache.head?_prepare e.config nonempty
      obtain ⟨written, hwritten, named, -⟩ := Block.header?_of_emit hfirst emitted
      refine ⟨?_, fun header hheader => ?_⟩
      · simp [CodeCache.withBlock, SlotTable.lookup, SlotTable.slot?, layout, place]
      · obtain rfl : written = header := Option.some.inj (hwritten.symm.trans hheader)
        rw [named, addr, (Decode.place_of_head _ hi).1]

/-- The block that is answered is in step. It may be the one with which references no longer reach all
that was handed out. -/
theorem inStep_obtainBlock (inStep : c.InStep) (reached : c.arena.used < 2 ^ 32) {ref : Ref}
    {generation : Word}
    (outcome : (obtainBlock c bus config s host).outcome = .ok (.compiled ref generation)) :
    ∃ h run last, Block.At (obtainBlock c bus config s host).cache.arena ref h (Block.steps run last) ∧
      h.InStep last := by
  unfold obtainBlock at outcome ⊢
  cases found : findBlock c s.next with
  | some block =>
    rw [found] at outcome
    cases outcome
    obtain ⟨slot, -, listed⟩ := Option.bind_eq_some_iff.mp (answers_of_findBlock found).listed
    exact inStep.blocks reached slot ref generation listed
  | none =>
    rw [found] at outcome
    dsimp only at outcome ⊢
    have step := c.compileStep bus config s host
    generalize c.compile bus config s host = made at step outcome ⊢
    rcases made with ⟨outcome', cache, s', host', told⟩
    dsimp only at step outcome ⊢
    subst outcome
    cases step with
    | built slot place calm nonempty ref arena emitted =>
      exact CodeCache.inStep_of_emit (c.length_decoded_le bus config s host)
        (Decode.mod_instructions _ s.next host) emitted

/-- Looking for a block changes neither the next instruction nor the instruction set. -/
theorem place_obtainBlock (c : CodeCache) (bus : Bus σ) (config : Config) (s : CpuState) (host : σ) :
    (obtainBlock c bus config s host).cpu.next = s.next ∧
      (obtainBlock c bus config s host).cpu.thumb = s.thumb := by
  unfold obtainBlock
  split
  · exact ⟨rfl, rfl⟩
  · rcases c.cpu_compile bus config s host with same | halted
    · rw [same]
      exact ⟨rfl, rfl⟩
    · rw [halted]
      exact ⟨rfl, rfl⟩

/-! ## No block is broken

A block that stands has all its nodes and records, so its run is not broken off, whatever the host
does.
-/

variable {ρ : Type} {past : Bus ρ}

/-- No block is broken, as long as references reach all that was handed out. -/
theorem unbroken_execute (lived : e.Lived past) (reaches : e.Reaches s.cpu) (bus : Bus σ) (host : σ) :
    (e.execute bus s host).broken = false := by
  unfold execute
  cases cached : e.caches.get s.cpu with
  | none => rfl
  | some c =>
    have entry {ref : Ref} {generation : Word}
        (outcome : (obtainBlock c bus e.config s host).outcome = .ok (.compiled ref generation)) :=
      inStep_obtainBlock (lived.inStep cached) (reaches c cached) outcome
    dsimp only
    generalize obtainBlock c bus e.config s host = found at entry ⊢
    rcases found with ⟨outcome, cache, s', host', told⟩
    dsimp only at entry ⊢
    -- what is in the caches does not matter to a single instruction
    have alone (caches : PerCpu (Option CodeCache)) :
        ({ e with caches }.executeUncached bus s' host').broken = false :=
      (same_executeUncached_withCaches e caches bus s' host').broken.trans
        (unbroken_executeUncached lived.sound bus s' host')
    cases outcome with
    | error error => rfl
    | ok block =>
      cases block with
      | interpret => exact (Bool.or_false _).trans (alone _)
      | compiled ref generation =>
        obtain ⟨h, run, last, block, -⟩ := entry rfl
        simp only [blockHeader?, block.header?_eq]
        split
        · exact beq_eq_false_iff_ne.mpr (Block.run_ne_broken block (Machine.start s' host'))
        · exact alone _

/-- **What an execution runs is not broken,** as long as references reach all that was handed out in the
cache. Without the cache it never is. -/
theorem unbroken_turn (lived : e.Lived past) {cached : Bool} (reaches : cached = true → e.Reaches s.cpu)
    (bus : Bus σ) (host : σ) : (e.turn cached bus s host).broken = false := by
  cases cached with
  | true => exact unbroken_execute lived (reaches rfl) bus host
  | false => exact unbroken_executeUncached lived.sound bus s host

end Engine

end ArmBlocks
