import ArmBlocks.Proofs.Footprint
import ArmBlocks.Proofs.CurrentCode
import ArmBlocks.Proofs.Hooks

/-!
# Room for the largest block

A cache that is not emptied before a block is compiled has `Config.resetThreshold` bytes left. That is
meant to be the size of the largest block: so many bytes for each instruction a block may have. It is,
**unless a block has one or two instructions at most.** The bound for an instruction has bytes to spare,
but what a block takes besides its instructions, the terminal node and the header, is not counted, and
it takes three instructions to make up for that.

`Config.room_for_largest` says both: for three instructions and more, or with a mark above what the
largest block really takes, every run is emitted wherever the cache is not emptied; otherwise there is a
run of the largest size that is not.
-/

set_option autoImplicit false

namespace ArmBlocks

open CodeCache (prepare)

namespace Config

/-- Half the cache holds what the threshold asks for, so it asks for no less than it means to. -/
def HalfSuffices (c : Config) : Prop :=
  max c.lowWaterMark (c.maxBlockInstructions * bytesPerInstruction) ≤ c.cacheReserve / 2

instance (c : Config) : Decidable c.HalfSuffices := inferInstanceAs (Decidable (_ ≤ _))

/-- The arena of a cache of the configured size that is not emptied before a block is compiled. -/
structure Spares (c : Config) (a : Arena Record) : Prop where
  capacity : a.capacity = c.cacheReserve
  left : c.resetThreshold ≤ a.remaining

/-- What the largest block may really take. -/
def largestBlock (c : Config) : Nat := 144 * c.maxBlockInstructions + 129

theorem HalfSuffices.resetThreshold {c : Config} (half : c.HalfSuffices) :
    c.resetThreshold = max c.lowWaterMark (c.maxBlockInstructions * bytesPerInstruction) :=
  Nat.min_eq_left half

/-- A block of the largest size takes less than the threshold if three instructions or more are allowed, or
if the mark is set above it. -/
theorem largestBlock_lt {c : Config} (half : c.HalfSuffices)
    (h : 3 ≤ c.maxBlockInstructions ∨ c.largestBlock < c.lowWaterMark) :
    c.largestBlock < c.resetThreshold := by
  rw [half.resetThreshold]
  rcases h with several | mark
  · have enough : c.largestBlock < c.maxBlockInstructions * bytesPerInstruction := by
      simp only [largestBlock, bytesPerInstruction]
      omega
    exact Nat.lt_of_lt_of_le enough (Nat.le_max_right ..)
  · exact Nat.lt_of_lt_of_le mark (Nat.le_max_left ..)

theorem resetThreshold_le {c : Config} (half : c.HalfSuffices) (few : c.maxBlockInstructions < 3)
    (mark : c.lowWaterMark ≤ c.largestBlock) : c.resetThreshold ≤ c.largestBlock := by
  rw [half.resetThreshold]
  refine Nat.max_le.mpr ⟨mark, ?_⟩
  simp only [largestBlock, bytesPerInstruction]
  omega

end Config

/-- A host whose words are all `ADDNE pc, pc, r0`, but for `ADDEQ pc, pc, r0` at the start. -/
def Bus.jumps : Bus Unit :=
  .ofMemory (fun _ _ _ addr => (some (if addr = 0 then 0x008FF000 else 0x108FF000), ()))
    (fun _ _ _ _ _ => (false, ())) fun _ _ _ _ _ => (0, ())

/-- The first instructions of that host. -/
def jumpRun (count : Nat) : List Instruction := (Decode.run Bus.jumps .arm9 0 false count ()).1

theorem jumpRun_one : jumpRun 1 = [Arm.decode .arm9 0 0x008FF000] := rfl

theorem jumpRun_two :
    jumpRun 2 = [Arm.decode .arm9 0 0x008FF000, Arm.decode .arm9 4 0x108FF000] := rfl

theorem length_jumpRun {count : Nat} (few : count < 3) : (jumpRun count).length = count := by
  obtain rfl | rfl | rfl : count = 0 ∨ count = 1 ∨ count = 2 := by omega
  · rfl
  · rfl
  · rfl

/-- Each of one or two such instructions is alone under its condition, and reads and writes the program
counter: no block takes more. -/
theorem footprint_jumpRun (config : Config) {count : Nat} (one : 1 ≤ count) (few : count < 3) :
    ∃ last, (prepare config (jumpRun count)).getLast? = some last ∧
      Block.footprint (prepare config (jumpRun count)) last = 144 * count + 129 := by
  have unchanged : ∀ run : List Instruction, Liveness.optimize run = run → prepare config run = run := by
    intro run same
    unfold prepare
    split
    · exact same
    · rfl
  obtain rfl | rfl : count = 1 ∨ count = 2 := by omega
  · rw [jumpRun_one, unchanged _ (by decide)]
    exact ⟨_, rfl, by decide⟩
  · rw [jumpRun_two, unchanged _ (by decide)]
    exact ⟨_, rfl, by decide⟩

namespace Config

section Room

variable {c : Config} (half : c.HalfSuffices)

include half

/-- A block may have three instructions, or the mark is above what the largest block takes. -/
theorem emit_of_spares (enough : 3 ≤ c.maxBlockInstructions ∨ c.largestBlock < c.lowWaterMark)
    {a : Arena Record} (spares : c.Spares a) {run : List Instruction} (nonempty : run ≠ [])
    (short : run.length ≤ c.maxBlockInstructions) :
    ∃ ref b, Block.emit (prepare c run) a = (some ref, b) := by
  have large := largestBlock_lt half enough
  have length := CodeCache.length_prepare c run
  have ne : prepare c run ≠ [] := by
    intro none
    rw [none, List.length_nil] at length
    exact nonempty (List.eq_nil_of_length_eq_zero length.symm)
  have hlast := List.getLast?_eq_some_getLast ne
  have bound := Block.footprint_le (prepare c run) ((prepare c run).getLast ne)
  have left := spares.left
  unfold largestBlock at large
  unfold Arena.remaining at left
  obtain ⟨ref, b, emitted, -⟩ := (Block.emit_cases hlast a).1 (by omega)
  exact ⟨ref, b, emitted⟩

/-- Otherwise the cache that has exactly the threshold left is too full for the largest block. -/
theorem emit_jumpRun (one : 1 ≤ c.maxBlockInstructions) (few : c.maxBlockInstructions < 3)
    (mark : c.lowWaterMark ≤ c.largestBlock) :
    ∃ a, c.Spares a ∧ ∃ b, Block.emit (prepare c (jumpRun c.maxBlockInstructions)) a = (none, b) := by
  have small := resetThreshold_le half few mark
  have fits : c.resetThreshold ≤ c.cacheReserve :=
    Nat.le_trans (Nat.min_le_right ..) (Nat.div_le_self ..)
  obtain ⟨last, hlast, takes⟩ := footprint_jumpRun c one few
  let a : Arena Record :=
    { capacity := c.cacheReserve, used := c.cacheReserve - c.resetThreshold, generation := 0
      cells := ∅ }
  have capacity : a.capacity = c.cacheReserve := rfl
  have used : a.used = c.cacheReserve - c.resetThreshold := rfl
  refine ⟨a, ⟨rfl, ?_⟩, (Block.emit_cases hlast a).2 ?_⟩
  · unfold Arena.remaining
    omega
  · unfold largestBlock at small
    omega

end Room

/-- **The low-water mark leaves room for the largest block,** for every run of any instructions, where a
block may have three or the mark itself is above what the largest block takes. Where neither holds, a
run that the decoder yields finds no room in a cache of the configured size that was not emptied. -/
theorem room_for_largest {c : Config} (ok : c.blockSizeOk = true) (half : c.HalfSuffices) :
    (3 ≤ c.maxBlockInstructions ∨ c.largestBlock < c.lowWaterMark →
      ∀ a, c.Spares a → ∀ run : List Instruction, run ≠ [] →
        run.length ≤ c.maxBlockInstructions →
          ∃ ref b, Block.emit (prepare c run) a = (some ref, b)) ∧
    (c.maxBlockInstructions < 3 → c.lowWaterMark ≤ c.largestBlock →
      ∃ a, c.Spares a ∧ jumpRun c.maxBlockInstructions ≠ [] ∧
        (jumpRun c.maxBlockInstructions).length ≤ c.maxBlockInstructions ∧
          ∃ b, Block.emit (prepare c (jumpRun c.maxBlockInstructions)) a = (none, b)) := by
  refine ⟨fun enough a spares run nonempty short => emit_of_spares half enough spares nonempty short,
    fun few mark => ?_⟩
  have length := length_jumpRun few
  have one := one_le_of_blockSizeOk ok
  obtain ⟨a, spares, full⟩ := emit_jumpRun half one few mark
  refine ⟨a, spares, fun none => ?_, Nat.le_of_eq length, full⟩
  rw [none, List.length_nil] at length
  exact absurd one (by rw [← length]; decide)

/-- A small cache for blocks of one instruction. -/
def oneByOne : Config := { cacheReserve := 572, lowWaterMark := 0, maxBlockInstructions := 1 }

/-- The default configuration always has room, and that one has not. -/
theorem room_for_largest_oneByOne :
    (∀ a, ({} : Config).Spares a → ∃ ref b, Block.emit (prepare {} (jumpRun 2)) a = (some ref, b)) ∧
    ∃ a, oneByOne.Spares a ∧ ∃ b, Block.emit (prepare oneByOne (jumpRun 1)) a = (none, b) := by
  have enough := (room_for_largest (c := {}) (by decide) (by decide)).1 (by decide)
  obtain ⟨a, spares, -, -, full⟩ :=
    (room_for_largest (c := oneByOne) (by decide) (by decide)).2 (by decide) (by decide)
  exact ⟨fun a spares => enough a spares (jumpRun 2) (List.cons_ne_nil _ _) (by decide), a, spares, full⟩

end Config

end ArmBlocks
