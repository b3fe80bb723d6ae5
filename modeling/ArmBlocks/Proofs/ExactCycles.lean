import ArmBlocks.Proofs.CycleCosts
import ArmBlocks.Proofs.Pieces
import ArmBlocks.Proofs.WellFormedBlocks

/-!
# The cycles of a block are exact

The counter of a running block has 32 bits, and nothing in it looks for an overflow. None ever happens:
**whatever the times are that a host answers, the cycles of a block are the sum of what its instructions
took and of the sub-blocks that were passed over** (`Block.cycles_exact`), a sum of numbers.

`Block.bill` is what is summed up: each instruction that executed, on the machine that it met, and each
sub-block whose condition failed, which takes a cycle for every instruction in it. A block of 256
instructions has no longer a bill than that, and nothing on it takes more than sixteen accesses of the
longest time and what its encoding says in a byte (`Charge.most`). That is far from 32 bits, so every
entry of the bill finds room in the counter, one after the other (`Charge.adds_billed`,
`Block.adds_bill`).
-/

set_option autoImplicit false

namespace ArmBlocks

open Guest (exec inOrder onward)
open SubBlock (partition)

variable {σ : Type}

/-! ## Cycles that fit a byte

Most operations know what they cost. Block transfers and operations that do nothing carry a number
that was computed for them; what the decoders compute, and what simplifying leaves, fits a byte.
-/

namespace Op

/-- The cycles that an operation carries, if it does. The others know theirs. -/
def carried : Op → Nat
  | .block _ _ _ _ _ _ _ cycles pcCycles => max cycles pcCycles
  | .nop cycles => cycles
  | _ => 0

/-- No operation costs 256 cycles by itself, if the cycles it carries do not. -/
theorem cost_lt {op : Op} (few : op.carried < 2 ^ 8) (thumb : Bool) : op.cost thumb < 2 ^ 8 := by
  cases op with
  | mul op =>
    have few : op.cost ≤ 3 := by cases op <;> decide
    exact Nat.lt_of_le_of_lt few (by decide)
  | transfer kind rd =>
    unfold cost TransferKind.cost
    grind
  | block load pre up writeback user rn list cycles pcCycles =>
    have both : max cycles pcCycles < 2 ^ 8 := few
    unfold cost
    dsimp only
    split <;> omega
  | nop cycles => exact few
  | _ =>
    unfold cost
    grind

/-- What is left of an operation whose flags are dead carries at most two cycles. -/
theorem carried_withoutFlags {op simple : Op} (h : op.withoutFlags? = some simple) :
    simple.carried ≤ 2 := by
  unfold withoutFlags? at h
  split at h
  · split at h
    · split at h
      · cases h
        exact Nat.zero_le _
      · cases h
        unfold carried
        dsimp only
        split <;> decide
    · cases h
  · split at h
    · cases h
      exact Nat.zero_le _
    · cases h
  · cases h

end Op

/-- The cycles that an instruction carries fit the byte that is kept for them. -/
def Instruction.FitsByte (i : Instruction) : Prop := i.op.carried < 2 ^ 8

namespace Arm

/-- An operation of ARM code carries at most four cycles. -/
theorem carried_op_le (form : ArmForm) (raw addr : Word) : (form.op raw addr).carried ≤ 4 := by
  cases form with
  | block =>
    unfold ArmForm.op Op.carried
    dsimp only
    split <;> decide
  | branchExchange | double =>
    unfold ArmForm.op
    dsimp only
    split <;> exact Nat.zero_le _
  | _ => exact Nat.zero_le _

theorem carried_unconditional_le (raw addr : Word) : (unconditional raw addr).carried ≤ 4 := by
  unfold unconditional
  split
  · exact Nat.zero_le _
  · exact (by decide : 1 ≤ 4)
  · exact Nat.zero_le _

theorem fitsByte_decode (cpu : Cpu) (addr raw : Word) : (decode cpu addr raw).FitsByte := by
  unfold decode Instruction.FitsByte
  split
  · exact Nat.lt_of_le_of_lt (carried_unconditional_le raw addr) (by decide)
  · exact Nat.lt_of_le_of_lt (carried_op_le ..) (by decide)

end Arm

namespace Thumb

/-- An operation of THUMB code carries at most five. -/
theorem carried_op_le (form : ThumbForm) (raw : Halfword) (addr : Word) :
    (form.op raw addr).carried ≤ 5 := by
  cases form with
  | alu =>
    unfold ThumbForm.op aluOp
    dsimp only
    split <;> exact Nat.zero_le _
  | push | pop | block =>
    unfold ThumbForm.op Op.carried
    dsimp only
    grind
  | _ => exact Nat.zero_le _

theorem fitsByte_decode (cpu : Cpu) (addr : Word) (raw : Halfword) : (decode cpu addr raw).FitsByte :=
  Nat.lt_of_le_of_lt (carried_op_le ..) (by decide)

end Thumb

/-- What is done to a run before it is emitted leaves its cycles in their bytes. -/
theorem CodeCache.fitsByte_prepare {run : List Instruction} (fits : ∀ i ∈ run, i.FitsByte)
    (config : Config) : ∀ i ∈ prepare config run, i.FitsByte :=
  Liveness.forall_prepare (P := fun op => op.carried < 2 ^ 8)
    (fun without _ => Nat.lt_of_le_of_lt (Op.carried_withoutFlags without) (by decide)) fits config

/-! ## What a block is charged for

The bill is a recursion on the charges, which carries the machine along: an instruction is charged on
the machine that it meets.
-/

/-- Something that takes cycles: an instruction that executes, or a sub-block that is passed over. -/
inductive Charge where
  | executed (i : Instruction)
  | skipped (b : SubBlock)

namespace Charge

/-- Does what is charged for. -/
def perform (bus : Bus σ) : Charge → Guest σ (Option Exit)
  | .executed i => i.perform bus
  | .skipped b => b.skip

/-- The cycles that it takes on a machine. -/
def time (bus : Bus σ) : Charge → Machine σ → Nat
  | .executed i, m => i.time bus m
  | .skipped b, _ => b.size

/-- Charges one after the other, each with the machine that it met, until one leaves the block. -/
def billed (bus : Bus σ) : List Charge → Machine σ → List (Charge × Machine σ)
  | [], _ => []
  | c :: rest, m => (c, m) :: match exec (c.perform bus) m with
    | (none, n) => billed bus rest n
    | (some _, _) => []

/-- The sum of a bill. -/
def sum (bus : Bus σ) (bill : List (Charge × Machine σ)) : Nat :=
  (bill.map fun (c, met) => c.time bus met).sum

end Charge

/-- What a sub-block is charged for: its instructions where its condition holds, and else that it is
passed over. -/
def SubBlock.charges (b : SubBlock) (s : CpuState) : List Charge :=
  if s.satisfies b.cond then b.instructions.map .executed else [.skipped b]

/-- What the sub-blocks of a block are charged for, until one of them leaves. -/
def Block.bill (bus : Bus σ) : List SubBlock → Machine σ → List (Charge × Machine σ)
  | [], _ => []
  | b :: rest, m => Charge.billed bus (b.charges m.cpu) m ++ match exec (b.perform bus) m with
    | (none, n) => bill bus rest n
    | (some _, _) => []

/-! ## The counter has room

One charge takes no more than `Charge.most`, and there is room for as many of them as a block has
instructions. So the induction has to remember no more than how many are left.
-/

namespace Charge

/-- More than this nothing takes: a byte, and sixteen times of sixteen bits. -/
def most : Nat := 0xFF + 16 * 0xFFFF

/-- A charge of a block that has no more than 256 instructions. -/
def IsSmall : Charge → Prop
  | .executed i => i.FitsByte
  | .skipped b => b.size ≤ Config.maxBlock

/-- From a machine to another the counter took up a bill, each entry with all of its time. -/
structure Adds (bus : Bus σ) (bill : List (Charge × Machine σ)) (m n : Machine σ) : Prop where
  each : ∀ c met, (c, met) ∈ bill →
    (exec (c.perform bus) met).2.cycles.toNat = met.cycles.toNat + c.time bus met
  all : n.cycles.toNat = m.cycles.toNat + sum bus bill

variable {bus : Bus σ}

theorem sum_cons (c : Charge) (met : Machine σ) (rest : List (Charge × Machine σ)) :
    sum bus ((c, met) :: rest) = c.time bus met + sum bus rest := by
  rw [sum, List.map_cons, List.sum_cons, sum]

theorem sum_append (first rest : List (Charge × Machine σ)) :
    sum bus (first ++ rest) = sum bus first + sum bus rest := by
  rw [sum, List.map_append, List.sum_append, sum, sum]

/-- What is charged for adds its time to a counter that has room for the most. -/
theorem exact_of_room (fits : bus.PairsFit) {c : Charge} (small : c.IsSmall) (m : Machine σ)
    (room : m.cycles.toNat + most < 2 ^ 32) :
    c.time bus m ≤ most ∧
      (exec (c.perform bus) m).2.cycles.toNat = m.cycles.toNat + c.time bus m := by
  unfold most at room ⊢
  have added {t : Nat} (le : t ≤ most) :
      (m.cycles + BitVec.ofNat 32 t).toNat = m.cycles.toNat + t := by
    unfold most at le
    rw [BitVec.toNat_add, BitVec.toNat_ofNat]
    omega
  cases c with
  | executed i =>
    have base := Op.cost_lt small i.thumb
    have short : i.op.cost i.thumb < 2 ^ 32 := by omega
    have bound := (Instruction.counted fits short m).2
    have le : i.time bus m ≤ most := by
      unfold most
      omega
    refine ⟨le, ?_⟩
    rw [perform, Instruction.cycles_perform fits short]
    exact added le
  | skipped b =>
    have le : b.size ≤ most := Nat.le_trans small (by decide)
    refine ⟨le, ?_⟩
    rw [perform, SubBlock.exec_skip_of_short (Nat.lt_of_le_of_lt small (by decide))]
    exact added le

namespace Adds

theorem nil (m : Machine σ) : Adds bus [] m m := ⟨fun _ _ h => absurd h List.not_mem_nil, rfl⟩

/-- A charge in front of others adds its time to theirs. -/
theorem cons {c : Charge} {m between n : Machine σ} {rest : List (Charge × Machine σ)}
    (left : (exec (c.perform bus) m).2 = between)
    (exact : between.cycles.toNat = m.cycles.toNat + c.time bus m) (h : Adds bus rest between n) :
    Adds bus ((c, m) :: rest) m n where
  each d met hd := by
    rcases List.mem_cons.mp hd with same | later
    · cases same
      rw [left, exact]
    · exact h.each d met later
  all := by rw [h.all, exact, sum_cons, Nat.add_assoc]

theorem append {first rest : List (Charge × Machine σ)} {m between n : Machine σ}
    (h : Adds bus first m between) (k : Adds bus rest between n) : Adds bus (first ++ rest) m n where
  each c met hc := (List.mem_append.mp hc).elim (h.each c met) (k.each c met)
  all := by rw [k.all, h.all, sum_append, Nat.add_assoc]

end Adds

/-- Charges that have room for the most each. -/
theorem adds_billed (fits : bus.PairsFit) :
    ∀ (cs : List Charge) (m : Machine σ), (∀ c ∈ cs, c.IsSmall) →
      m.cycles.toNat + cs.length * most < 2 ^ 32 →
      Adds bus (billed bus cs m) m (exec (inOrder (cs.map (perform bus))) m).2 ∧
        sum bus (billed bus cs m) ≤ cs.length * most
  | [], m, _, _ => ⟨.nil m, Nat.zero_le _⟩
  | c :: rest, m, small, room => by
    rw [List.length_cons, Nat.succ_mul] at room ⊢
    -- the room for the charges that follow is what is left after this one, as it takes at most its share
    obtain ⟨le, exact⟩ := exact_of_room fits (small c List.mem_cons_self) m (by omega)
    rw [List.map_cons, Guest.exec_inOrder_cons, billed, sum_cons]
    rcases ran : exec (c.perform bus) m with ⟨_ | exit, n⟩
    · rw [ran] at exact
      have room' : n.cycles.toNat + rest.length * most < 2 ^ 32 := by
        dsimp only at exact
        omega
      obtain ⟨adds, few⟩ := adds_billed fits rest n
        (fun d hd => small d (List.mem_cons_of_mem c hd)) room'
      exact ⟨.cons (congrArg Prod.snd ran) exact adds, by dsimp only; omega⟩
    · rw [ran] at exact
      refine ⟨.cons (congrArg Prod.snd ran) exact (.nil n), ?_⟩
      simp only [sum, List.map_nil, List.sum_nil]
      omega

end Charge

namespace SubBlock

/-- A sub-block of at most 256 instructions, the cycles of each in a byte. -/
def IsSmall (b : SubBlock) : Prop := b.size ≤ Config.maxBlock ∧ ∀ i ∈ b.instructions, i.FitsByte

variable {bus : Bus σ} {b : SubBlock}

/-- A sub-block does what it is charged for. -/
theorem exec_perform_charges (small : b.IsSmall) (m : Machine σ) :
    exec (b.perform bus) m = exec (inOrder ((b.charges m.cpu).map (Charge.perform bus))) m := by
  unfold charges
  split
  · rename_i holds
    rw [exec_perform_of_holds bus holds, List.map_map]
    rfl
  · rename_i fails
    have short : b.size < 2 ^ 16 := Nat.lt_of_le_of_lt small.1 (by decide)
    rw [exec_perform_of_fails bus short fails, List.map_singleton, Guest.exec_inOrder_cons]
    exact (exec_skip_of_short short m).symm.trans (Guest.onward_some_none _).symm

theorem length_charges_le (b : SubBlock) (s : CpuState) : (b.charges s).length ≤ b.size := by
  unfold charges
  split
  · rw [List.length_map]
    exact Nat.le_refl _
  · exact Nat.le_add_left ..

/-- All charges of a small sub-block are small. -/
theorem isSmall_of_mem_charges (small : b.IsSmall) {s : CpuState} {c : Charge}
    (hc : c ∈ b.charges s) : c.IsSmall := by
  unfold charges at hc
  split at hc
  · obtain ⟨i, hi, rfl⟩ := List.mem_map.mp hc
    exact small.2 i hi
  · obtain rfl := List.mem_singleton.mp hc
    exact small.1

/-- The charges of a sub-block add up to what performing it takes, if there is room for all of them in a
word. -/
theorem adds_charges (fits : bus.PairsFit) (small : b.IsSmall) (m : Machine σ)
    (room : m.cycles.toNat + b.size * Charge.most < 2 ^ 32) :
    Charge.Adds bus (Charge.billed bus (b.charges m.cpu) m) m (exec (b.perform bus) m).2 ∧
      Charge.sum bus (Charge.billed bus (b.charges m.cpu) m) ≤ b.size * Charge.most := by
  have few := Nat.mul_le_mul_right Charge.most (b.length_charges_le m.cpu)
  rw [exec_perform_charges small]
  obtain ⟨adds, le⟩ := Charge.adds_billed fits (b.charges m.cpu) m
    (fun c hc => isSmall_of_mem_charges small hc) (by omega)
  exact ⟨adds, Nat.le_trans le few⟩

/-- The sub-blocks of a run of at most 256 instructions are small, and as large as it altogether. -/
theorem isSmall_of_mem_partition {run : List Instruction} (short : run.length ≤ Config.maxBlock)
    (bytes : ∀ i ∈ run, i.FitsByte) : ∀ b ∈ partition run, b.IsSmall := by
  intro b hb
  obtain ⟨before, after, split⟩ := List.append_of_mem hb
  refine ⟨Nat.le_trans (Block.size_le_of_split split) short, fun i hi => bytes i ?_⟩
  rw [← flatMap_instructions_partition run]
  exact List.mem_flatMap.mpr ⟨b, hb, hi⟩

theorem sum_size_partition (run : List Instruction) :
    ((partition run).map size).sum = run.length := by
  conv_rhs => rw [← flatMap_instructions_partition run, List.length_flatMap]
  rfl

end SubBlock

namespace Block

variable {bus : Bus σ}

/-- The bill of the sub-blocks adds up to what performing them takes. -/
theorem adds_bill (fits : bus.PairsFit) :
    ∀ (blocks : List SubBlock) (m : Machine σ), (∀ b ∈ blocks, b.IsSmall) →
      m.cycles.toNat + (blocks.map SubBlock.size).sum * Charge.most < 2 ^ 32 →
      Charge.Adds bus (bill bus blocks m) m
        (exec (inOrder (blocks.map (SubBlock.perform bus))) m).2
  | [], m, _, _ => .nil m
  | b :: rest, m, small, room => by
    rw [List.map_cons, List.sum_cons, Nat.add_mul] at room
    obtain ⟨adds, le⟩ := SubBlock.adds_charges fits (small b List.mem_cons_self) m (by omega)
    rw [List.map_cons, Guest.exec_inOrder_cons, bill]
    -- the bill ends where the block is left, and what is left of the room suffices for the others
    rcases ran : exec (b.perform bus) m with ⟨_ | exit, n⟩
    · rw [ran] at adds
      have room' : n.cycles.toNat + (rest.map SubBlock.size).sum * Charge.most < 2 ^ 32 := by
        have all := adds.all
        dsimp only at all
        omega
      exact adds.append (adds_bill fits rest n (fun c hc => small c (List.mem_cons_of_mem b hc)) room')
    · rw [ran] at adds
      rw [List.append_nil]
      exact adds

/-- **Counting cycles never overflows.** The cycles that a decoded instruction carries fit a byte, and
they still do after its flags were removed. Emit any run of at most 256 of them into any arena, and run
the block from any processor and on any host for which the times of two accesses of one instruction fit
sixteen bits: the counter takes up all the time of every instruction that executes and of every
sub-block that is passed over, so that in the end it is their sum. -/
theorem cycles_exact :
    (∀ cpu addr, (∀ raw, (Arm.decode cpu addr raw).FitsByte) ∧
      ∀ raw, (Thumb.decode cpu addr raw).FitsByte) ∧
    (∀ config run, (∀ i ∈ run, i.FitsByte) → ∀ i ∈ CodeCache.prepare config run, i.FitsByte) ∧
    ∀ {run : List Instruction}, run.length ≤ Config.maxBlock → (∀ i ∈ run, i.FitsByte) →
      ∀ {a b : Arena Record} {ref : Ref}, emit run a = (some ref, b) →
      ∃ h, header? b ref = some h ∧
        ∀ {σ : Type} {bus : Bus σ}, bus.PairsFit → ∀ (cpu : CpuState) (host : σ),
          let start := Machine.start cpu host
          let bill := bill bus (partition run) start
          (∀ c met, (c, met) ∈ bill →
            (exec (c.perform bus) met).2.cycles.toNat = met.cycles.toNat + c.time bus met) ∧
          (exec (Block.run bus b h) start).2.cycles.toNat = Charge.sum bus bill := by
  refine ⟨fun cpu addr => ⟨Arm.fitsByte_decode cpu addr, Thumb.fitsByte_decode cpu addr⟩,
    fun config run bytes => CodeCache.fitsByte_prepare bytes config, ?_⟩
  intro run short bytes a b ref emitted
  obtain ⟨first, last, nodes, -, -, block⟩ := at_of_emit_anywhere emitted (nodeCount_lt short)
  refine ⟨_, block.header?_eq, fun {σ bus} fits cpu host => ?_⟩
  intro start bill
  have fresh : start.cycles.toNat = 0 := rfl
  have room : start.cycles.toNat + ((partition run).map SubBlock.size).sum * Charge.most < 2 ^ 32 := by
    have few := Nat.mul_le_mul_right Charge.most short
    rw [fresh, Nat.zero_add, SubBlock.sum_size_partition]
    exact Nat.lt_of_le_of_lt few (by decide)
  have adds := adds_bill fits (partition run) start
    (SubBlock.isSmall_of_mem_partition short bytes) room
  refine ⟨adds.each, ?_⟩
  have all := adds.all
  rw [fresh, Nat.zero_add] at all
  rw [run_eq_perform block, exec_perform]
  rcases ran : exec (inOrder ((partition run).map (SubBlock.perform bus))) start with ⟨_ | exit, n⟩
  · rw [ran] at all
    exact all
  · rw [ran] at all
    exact all

/-- `LDMIA r1, {r2-r6}`, `MOVEQ r0, #1` and a branch to itself. -/
def slowLoop : List Instruction :=
  [Arm.decode .arm9 0 0xE891007C, Arm.decode .arm9 4 0x03A00001, Arm.decode .arm9 8 0xEAFFFFFE]

/-- On a host with the longest times of which two fit sixteen bits, the five loads take far more than
that together. Version 5 overlaps them with the two cycles of their instruction; the move that is passed
over takes one and the branch three. -/
theorem cycles_exact_slowLoop :
    let bus := Bus.ofMemory (fun _ _ _ _ => (some 0, ())) (fun _ _ _ _ _ => (true, ()))
      fun _ _ _ _ _ => ((0x7FFF : Wait), ())
    ∃ ref b h, emit slowLoop scratchArena = (some ref, b) ∧ header? b ref = some h ∧
      (exec (Block.run bus b h) (Machine.start (CpuState.new .arm9) ())).2.cycles.toNat =
        5 * 0x7FFF + 1 + 3 := by
  intro bus
  have fits : bus.PairsFit := by
    refine ⟨fun first second => ?_, fun first second => ?_, fun first second => ?_⟩
    · cases first
      cases second
      decide
    · cases first
      cases second
      decide
    · cases first
      cases second
      decide
  have room : scratchArena.used + roomFor slowLoop < scratchArena.capacity := by decide
  obtain ⟨ref, b, emitted, -⟩ := emit_of_room (List.cons_ne_nil _ _) room
  obtain ⟨decoded, -, exact⟩ := cycles_exact
  have bytes : ∀ i ∈ slowLoop, i.FitsByte := by
    intro i hi
    simp only [slowLoop, List.mem_cons, List.not_mem_nil, or_false] at hi
    rcases hi with rfl | rfl | rfl
    · exact (decoded .arm9 0).1 _
    · exact (decoded .arm9 4).1 _
    · exact (decoded .arm9 8).1 _
  obtain ⟨h, header, counts⟩ := exact (by decide) bytes emitted
  refine ⟨ref, b, h, emitted, header, (counts fits (CpuState.new .arm9) ()).2.trans ?_⟩
  decide +kernel

end Block

end ArmBlocks
