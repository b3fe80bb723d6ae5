import ArmBlocks.Proofs.Reports
import ArmBlocks.Proofs.RegisterBanks
import ArmBlocks.Proofs.AlignedTargets

/-!
# The words of a block transfer

A block transfer goes through consecutive words, the lowest register first, and asks for each at its
aligned address (`Address.words`). The addresses wrap around at the end of the address space, but sixteen
words never meet (`Address.nodup_words`).

What is loaded and stored is one word for each register of the list. So a loaded list of words is given
here as a function on the registers (`RegSet.exists_map`), and the registers that a transfer leaves read
off that function.
-/

set_option autoImplicit false

namespace ArmBlocks

open Guest (exec)

variable {σ : Type}

/-! ## Addresses

A block transfer accesses consecutive words, beginning at its lowest address, whatever the order in
which its mode counts. The addresses wrap at 2³², and no two of sixteen are the same.
-/

namespace Address

/-- The aligned addresses of consecutive words. -/
def words : Word → Nat → List Word
  | _, 0 => []
  | addr, count + 1 => align addr 4 :: words (addr + 4) count

/-- Aligning to words clears the two lowest bits, so it rounds down to a multiple of four. -/
theorem toNat_align (addr : Word) : (align addr 4).toNat = addr.toNat / 4 * 4 := by
  have mask : ∀ i < 32, (-4#32).getLsbD i = decide (2 ≤ i) := by decide
  -- as a shift down and up again the mask is arithmetic
  have shifted : align addr 4 = (addr >>> 2) <<< 2 := by
    refine BitVec.eq_of_getLsbD_eq fun i inside => ?_
    show (addr &&& -4#32).getLsbD i = _
    rw [BitVec.getLsbD_and, mask i inside]
    by_cases low : i < 2
    · simp [low]
    · simp [low, inside, show 2 + (i - 2) = i by omega, Nat.le_of_not_lt low]
  rw [shifted]
  simp [Nat.shiftLeft_eq, Nat.shiftRight_eq_div_pow]
  omega

/-- The words that are accessed from an address on are the aligned ones at steps of four, as addresses
wrap. -/
theorem mem_words {addr a : Word} {count : Nat} (h : a ∈ words addr count) :
    ∃ k < count, a = align (addr + BitVec.ofNat 32 (4 * k)) 4 := by
  induction count generalizing addr with
  | zero => exact absurd h List.not_mem_nil
  | succ count ih =>
    rcases List.mem_cons.mp h with rfl | later
    · exact ⟨0, by omega, by simp⟩
    · obtain ⟨k, below, rfl⟩ := ih later
      refine ⟨k + 1, by omega, ?_⟩
      congr 1
      refine BitVec.eq_of_toNat_eq ?_
      simp
      omega

/-- So few words do not meet, wherever they start. -/
theorem nodup_words (addr : Word) {count : Nat} (few : count ≤ 16) : (words addr count).Nodup := by
  induction count generalizing addr with
  | zero => exact List.nodup_nil
  | succ count ih =>
    refine List.nodup_cons.mpr ⟨fun again => ?_, ih (addr + 4) (by omega)⟩
    obtain ⟨k, below, same⟩ := mem_words again
    have place := congrArg BitVec.toNat same
    rw [toNat_align, toNat_align] at place
    simp only [BitVec.toNat_add, BitVec.toNat_ofNat, BitVec.reduceToNat] at place
    have inside := addr.isLt
    omega

end Address

namespace RegSet

theorem mem_toList {list : RegSet} {r : Reg} : r ∈ toList list ↔ list.has r = true := by
  have every : ∀ r : Reg, r ∈ (List.range 16).map (BitVec.ofNat 4) := by decide
  rw [toList, List.mem_filter]
  exact and_iff_right (every r)

theorem not_mem_toList {list : RegSet} {r : Reg} (unlisted : list.has r = false) : r ∉ toList list := by
  rw [mem_toList, unlisted]
  exact Bool.false_ne_true

theorem ne_of_mem_toList {list : RegSet} {r q : Reg} (unlisted : list.has q = false)
    (h : r ∈ toList list) : r ≠ q := by
  rintro rfl
  exact not_mem_toList unlisted h

theorem ascending_toList (list : RegSet) : (toList list).Pairwise (· < ·) :=
  List.Pairwise.filter _ (by decide)

theorem nodup_toList (list : RegSet) : (toList list).Nodup :=
  (ascending_toList list).imp fun below => by
    rintro rfl
    exact absurd below (BitVec.lt_irrefl _)

theorem length_toList_le (list : RegSet) : (toList list).length ≤ 16 :=
  List.length_filter_le _ _

/-- One word for each register of a set is a function on the registers. -/
theorem exists_map (list : RegSet) {values : List Word} (length : values.length = (toList list).length) :
    ∃ f : Reg → Word, (toList list).map f = values := by
  refine ⟨fun r => values.getD ((toList list).idxOf r) 0, ?_⟩
  refine List.ext_getElem (by rw [List.length_map, length]) fun k left right => ?_
  rw [List.length_map] at left
  rw [List.getElem_map, (nodup_toList list).idxOf_getElem k left, List.getD_eq_getElem?_getD,
    List.getElem?_eq_getElem right, Option.getD_some]

end RegSet

/-! ## Registers

A transfer goes through its registers in ascending order. What a load leaves in each of them is given
by a function of the register, since none is listed twice.
-/

namespace CpuState

/-- Registers other than r15 are loaded one by one. -/
theorem setLoaded_cons {r : Reg} (other : r ≠ .pc) (x : Word) (rest : List (Reg × Word)) (s : CpuState) :
    s.setLoaded ((r, x) :: rest) = (s.setReg r x).setLoaded rest := by
  show (if r = .pc then s else s.setReg r x).setLoaded rest = _
  rw [if_neg other]

theorem mode_setLoaded (s : CpuState) (loaded : List (Reg × Word)) : (s.setLoaded loaded).mode = s.mode :=
  (computes_setLoaded loaded s).status.mode

/-- **Loading registers is seen by the modes that share them,** and by no others. -/
theorem seenBy_setLoaded (f : Reg → Word) (m : Mode) (p : Place) {rs : List Reg} (others : .pc ∉ rs) :
    ∀ s : CpuState, (s.setLoaded (rs.zip (rs.map f))).seenBy m p =
      match p with
      | .reg r => if r ∈ rs ∧ p.shared s.mode m = true then f r else s.seenBy m p
      | .saved => s.seenBy m p := by
  induction rs with
  | nil =>
    intro s
    cases p with
    | reg r => simp [setLoaded]
    | saved => rfl
  | cons first rest ih =>
    intro s
    rw [List.mem_cons, not_or] at others
    have written := s.seenBy_writePlace (.reg first) p (f first) m
    rw [List.map_cons, List.zip_cons_cons, setLoaded_cons (Ne.symm others.1), ih others.2]
    cases p with
    | saved => exact written
    | reg r =>
      have mode : (s.setReg first (f first)).mode = s.mode := rfl
      rw [mode, show (s.setReg first (f first)).seenBy m (.reg r) = _ from written]
      by_cases shared : (Place.reg r).shared s.mode m = true
      -- the first register is written before the rest, but no later write goes back on it, as every value
      -- is a function of its register
      · by_cases own : first = r
        · subst own
          simp [shared]
        · simp [shared, own, Ne.symm own]
      · simp [shared]

theorem reg_setLoaded (f : Reg → Word) (r : Reg) {rs : List Reg} (others : .pc ∉ rs) (s : CpuState) :
    (s.setLoaded (rs.zip (rs.map f))).reg r = if r ∈ rs then f r else s.reg r := by
  have seen := seenBy_setLoaded f s.mode (.reg r) others s
  have own := seenBy_mode (s.setLoaded (rs.zip (rs.map f))) (.reg r)
  rw [mode_setLoaded] at own
  simpa [Place.shared_self, seenBy_mode, readPlace] using own.symm.trans seen

end CpuState

namespace Guest

variable {bus : Bus σ}

/-! ## Word by word -/

/-- A load of words goes through if the first does and then the others do. -/
theorem exec_loadWords_succ (bus : Bus σ) (count : Nat) (addr : Word) (access : Access) (m : Machine σ) :
    exec (loadWords bus (count + 1) addr access) m =
      match exec (load bus .word addr access) m with
      | (none, n) => (none, n)
      | (some (x, wait), n) =>
        match exec (loadWords bus count (addr + 4) .sequential) n with
        | (none, n) => (none, n)
        | (some (rest, total), n) => (some (x :: rest, wait.setWidth 32 + total), n) := by
  rw [loadWords, exec_bind]
  rcases exec (load bus .word addr access) m with ⟨_ | ⟨x, wait⟩, n⟩
  · rfl
  · dsimp only
    rw [exec_bind]
    rcases exec (loadWords bus count (addr + 4) .sequential) n with ⟨_ | ⟨rest, total⟩, n⟩ <;> rfl

/-- A store of words likewise. -/
theorem exec_storeWords_cons (bus : Bus σ) (x : Word) (rest : List Word) (addr : Word)
    (access : Access) (m : Machine σ) :
    exec (storeWords bus (x :: rest) addr access) m =
      match exec (store bus .word addr x access) m with
      | (none, n) => (none, n)
      | (some wait, n) =>
        match exec (storeWords bus rest (addr + 4) .sequential) n with
        | (none, n) => (none, n)
        | (some total, n) => (some (wait.setWidth 32 + total), n) := by
  rw [storeWords, exec_bind]
  rcases exec (store bus .word addr x access) m with ⟨_ | wait, n⟩
  · rfl
  · dsimp only
    rw [exec_bind]
    rcases exec (storeWords bus rest (addr + 4) .sequential) n with ⟨_ | total, n⟩ <;> rfl

/-! ## What block transfers report

The reports of a transfer whose accesses all found memory are known from its addresses and its values:
one report for each word, in order. By induction on the words, with what was reported before in front.
-/

/-- The loads of words, with what they answered. -/
def loads (cpu : Cpu) (addr : Word) (values : List Word) : List Report :=
  List.zipWith (fun a x => .load cpu .word a (some x)) (Address.words addr values.length) values

/-- The stores of words. -/
def stores (cpu : Cpu) (addr : Word) (values : List Word) : List Report :=
  List.zipWith (fun a x => .store cpu .word a x true) (Address.words addr values.length) values

theorem loads_cons (cpu : Cpu) (addr x : Word) (rest : List Word) :
    loads cpu addr (x :: rest) = loads cpu addr [x] ++ loads cpu (addr + 4) rest := rfl

theorem stores_cons (cpu : Cpu) (addr x : Word) (rest : List Word) :
    stores cpu addr (x :: rest) = stores cpu addr [x] ++ stores cpu (addr + 4) rest := rfl

/-- A load that went through told of one access, at the aligned address and with what was read there. -/
theorem told_load {addr x : Word} {access : Access} {wait : Wait} {m n : Machine (σ × List Report)}
    (h : exec (load bus.reporting .word addr access) m = (some (x, wait), n)) :
    ∃ host, n = { m with host := (host, m.host.2 ++ loads m.cpu.cpu addr [x]) } := by
  unfold load Bus.read at h
  rw [exec_modifyGet] at h
  simp only [Bus.reporting] at h
  cases answer : (bus.get m.host.1 m.cpu.cpu .word
      (Address.align addr (BitVec.ofNat 32 Width.word.bytes))).1 with
  | none => simp [answer] at h
  | some y =>
    simp only [answer, Prod.mk.injEq, Option.some.injEq] at h
    obtain ⟨⟨rfl, -⟩, rfl⟩ := h
    exact ⟨_, rfl⟩

/-- A store that went through told of one access, at the aligned address and with what was written there.
-/
theorem told_store {addr x : Word} {access : Access} {wait : Wait} {m n : Machine (σ × List Report)}
    (h : exec (store bus.reporting .word addr x access) m = (some wait, n)) :
    ∃ host, n = { m with host := (host, m.host.2 ++ stores m.cpu.cpu addr [x]) } := by
  unfold store Bus.write at h
  rw [exec_modifyGet] at h
  simp only [Bus.reporting] at h
  cases done : (bus.set m.host.1 m.cpu.cpu .word
      (Address.align addr (BitVec.ofNat 32 Width.word.bytes)) (Width.word.cut x)).1 with
  | false => simp [done] at h
  | true =>
    simp only [done, Prod.mk.injEq] at h
    obtain ⟨-, rfl⟩ := h
    exact ⟨_, rfl⟩

/-- Words that were loaded were loaded from consecutive addresses, and that is all that happened. -/
theorem told_loadWords {count : Nat} :
    ∀ {addr total : Word} {access : Access} {values : List Word} {m n : Machine (σ × List Report)},
      exec (loadWords bus.reporting count addr access) m = (some (values, total), n) →
        ∃ host, n = { m with host := (host, m.host.2 ++ loads m.cpu.cpu addr values) } := by
  induction count with
  | zero =>
    intro addr total access values m n h
    cases h
    exact ⟨m.host.1, by simp [loads]⟩
  | succ count ih =>
    intro addr total access values m n h
    rw [exec_loadWords_succ] at h
    rcases first : exec (load bus.reporting .word addr access) m with ⟨_ | ⟨x, wait⟩, n₁⟩
    · rw [first] at h
      cases h
    · rw [first] at h
      obtain ⟨host, rfl⟩ := told_load first
      dsimp only at h
      rcases rest : exec (loadWords bus.reporting count (addr + 4) .sequential)
        { m with host := (host, m.host.2 ++ loads m.cpu.cpu addr [x]) } with ⟨_ | ⟨xs, sum⟩, n₂⟩
      · rw [rest] at h
        cases h
      · rw [rest] at h
        obtain ⟨host', rfl⟩ := ih rest
        cases h
        exact ⟨host', by rw [loads_cons _ _ x xs, ← List.append_assoc]⟩

/-- The same for words that were stored. -/
theorem told_storeWords {values : List Word} :
    ∀ {addr total : Word} {access : Access} {m n : Machine (σ × List Report)},
      exec (storeWords bus.reporting values addr access) m = (some total, n) →
        ∃ host, n = { m with host := (host, m.host.2 ++ stores m.cpu.cpu addr values) } := by
  induction values with
  | nil =>
    intro addr total access m n h
    cases h
    exact ⟨m.host.1, by simp [stores]⟩
  | cons x rest ih =>
    intro addr total access m n h
    rw [exec_storeWords_cons] at h
    rcases first : exec (store bus.reporting .word addr x access) m with ⟨_ | wait, n₁⟩
    · rw [first] at h
      cases h
    · rw [first] at h
      obtain ⟨host, rfl⟩ := told_store first
      dsimp only at h
      rcases others : exec (storeWords bus.reporting rest (addr + 4) .sequential)
        { m with host := (host, m.host.2 ++ stores m.cpu.cpu addr [x]) } with ⟨_ | sum, n₂⟩
      · rw [others] at h
        cases h
      · rw [others] at h
        obtain ⟨host', rfl⟩ := ih others
        cases h
        exact ⟨host', by rw [stores_cons _ _ x rest, ← List.append_assoc]⟩

/-! ## Transfers without the program counter -/

section Transfers

variable {list : RegSet} {m n : Machine σ} (pc cost lowest : Word) (user : Bool)
  (moveBase leaveBank : Guest σ Unit)

/-- Once its words are loaded, and r15 is not among the registers, what is left of a loading block transfer
is fixed. -/
theorem exec_loadBlock (spared : list.has .pc = false) {values : List Word} {total : Word}
    (loaded : exec (loadWords bus (RegSet.toList list).length lowest .nonSequential) m =
      (some (values, total), n)) :
    exec (loadBlock bus pc cost lowest list user moveBase leaveBank) m = exec (do
      moveBase
      modifyCpu (·.setLoaded ((RegSet.toList list).zip values))
      leaveBank
      spendWithMemory cost total
      return .next) n := by
  rw [loadBlock, exec_bind, loaded]
  simp only [RegSet.lookup_pc spared]

theorem exec_loadBlock_of_none (missed : exec (loadWords bus (RegSet.toList list).length lowest
      .nonSequential) m = (none, n)) :
    exec (loadBlock bus pc cost lowest list user moveBase leaveBank) m =
      exec (abortBlock bus pc leaveBank) n := by
  rw [loadBlock, exec_bind, missed]

variable {values : List Word}

/-- Once its words are stored, what is left of a storing block transfer is fixed. -/
theorem exec_storeBlock {total : Word}
    (stored : exec (storeWords bus values lowest .nonSequential) m = (some total, n)) :
    exec (storeBlock bus pc cost lowest values moveBase leaveBank) m = exec (do
      leaveBank
      moveBase
      spendWithMemory cost total
      return .next) n := by
  rw [storeBlock, exec_bind, stored]

theorem exec_storeBlock_of_none
    (missed : exec (storeWords bus values lowest .nonSequential) m = (none, n)) :
    exec (storeBlock bus pc cost lowest values moveBase leaveBank) m =
      exec (abortBlock bus pc leaveBank) n := by
  rw [storeBlock, exec_bind, missed]

end Transfers

/-! ## Own registers and borrowed ones

A transfer of User mode's registers switches to the bank of those, transfers, and switches back.
Between the switches it is a transfer like any other, so one statement serves both forms.
-/

section Banks

variable (bus : Bus σ) (pc cost : Word) (mode : BlockMode) (writeback : Bool) (rn : Reg)
  {list : RegSet} (m : Machine σ)

/-- A block transfer of the registers of the mode in force stores what the processor has in them. -/
theorem exec_ownStore (list : RegSet) :
    exec (blockTransfer bus pc cost false mode writeback false rn list) m =
      exec (storeBlock bus pc cost (mode.lowest (m.cpu.read pc rn) list)
        ((RegSet.toList list).map (m.cpu.storedValue pc list rn writeback
          (mode.moved (m.cpu.read pc rn) list)))
        (if writeback then write rn (mode.moved (m.cpu.read pc rn) list) else pure ())
        (pure ())) m := by
  unfold blockTransfer
  rw [exec_bind, exec_cpu]
  dsimp only
  rw [Bool.false_and, if_neg Bool.false_ne_true, if_neg Bool.false_ne_true, if_neg Bool.false_ne_true,
    exec_bind, exec_cpu]

/-- And it loads to them. -/
theorem exec_ownLoad (list : RegSet) :
    exec (blockTransfer bus pc cost true mode writeback false rn list) m =
      exec (loadBlock bus pc cost (mode.lowest (m.cpu.read pc rn) list) list false
        (if writeback then write rn (mode.moved (m.cpu.read pc rn) list) else pure ())
        (pure ())) m := by
  unfold blockTransfer
  rw [exec_bind, exec_cpu]
  dsimp only
  rw [Bool.false_and, if_neg Bool.false_ne_true, if_neg Bool.false_ne_true, if_pos rfl]

/-- A block transfer of the registers of the user stores what the system mode sees in them, and gives the
bank back by writing the old status. -/
theorem exec_lentStore (list : RegSet) :
    exec (blockTransfer bus pc cost false mode writeback true rn list) m =
      exec (storeBlock bus pc cost (mode.lowest (m.cpu.read pc rn) list)
        ((RegSet.toList list).map ((m.cpu.setMode .system).storedValue pc list rn writeback
          (mode.moved (m.cpu.read pc rn) list)))
        (if writeback then write rn (mode.moved (m.cpu.read pc rn) list) else pure ())
        (modifyCpu (·.setCpsr m.cpu.cpsr))) { m with cpu := m.cpu.setMode .system } := by
  unfold blockTransfer
  rw [exec_bind, exec_cpu]
  dsimp only
  rw [Bool.false_and, Bool.not_false, Bool.true_and, if_pos rfl, if_pos rfl, exec_bind,
    exec_modifyCpu, if_neg Bool.false_ne_true, exec_bind, exec_cpu]

/-- It loads to them in the same way, unless r15 is in the list: that would be an exception return. -/
theorem exec_lentLoad (spared : list.has .pc = false) :
    exec (blockTransfer bus pc cost true mode writeback true rn list) m =
      exec (loadBlock bus pc cost (mode.lowest (m.cpu.read pc rn) list) list true
        (if writeback then write rn (mode.moved (m.cpu.read pc rn) list) else pure ())
        (modifyCpu (·.setCpsr m.cpu.cpsr))) { m with cpu := m.cpu.setMode .system } := by
  unfold blockTransfer
  rw [exec_bind, exec_cpu]
  dsimp only
  rw [spared, Bool.and_false, Bool.not_false, Bool.true_and, if_pos rfl, if_pos rfl, exec_bind,
    exec_modifyCpu, if_pos rfl]

end Banks

end Guest

namespace Instruction

variable {i : Instruction} {load pre up writeback user : Bool} {rn : Reg} {list : RegSet}
  {cycles pcCycles : Nat} (hop : i.op = .block load pre up writeback user rn list cycles pcCycles)

include hop

theorem execute_block (bus : Bus σ) : i.action.execute bus i.pipelinePc =
    Guest.blockTransfer bus i.pipelinePc i.action.cost load ⟨pre, up⟩ writeback user rn list := by
  unfold Action.execute
  rw [show i.action.op = _ from hop]

/-- A block transfer writes r15 only where it is in the list, or the base. -/
theorem block_stays (spared : list.has .pc = false) (base : writeback = false ∨ rn ≠ .pc) :
    i.writesPc = false := by
  have listed : (if load then list else 0).has .pc = false := by
    cases load with
    | true => exact spared
    | false => exact RegSet.has_zero .pc
  rw [writesPc, hop, Op.registersWritten, RegSet.has_or, listed, RegSet.has_singleIf, Bool.false_or]
  rcases base with keeps | other
  · rw [keeps, Bool.false_and]
  · rw [beq_eq_false_iff_ne.mpr other, Bool.and_false]

end Instruction

end ArmBlocks
