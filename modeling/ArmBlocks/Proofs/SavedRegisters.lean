import ArmBlocks.Proofs.BlockAccesses
import ArmBlocks.Decode.Arm

/-!
# Registers that are saved come back

Storing registers with the base moving one way, and loading them with the base moving the other way and
the address moving on the other side of the access, is how programs save registers and get them back: the
four addressing modes make two kinds of stack that grow down and two that grow up. The lowest address and
the moved base are computed apart for each mode, and the pairs must fit (`BlockMode.lowest_opposite`,
`BlockMode.moved_opposite`).

Of the host nothing is assumed but that the words in question behave like memory (`Bus.PlainOn`). The
words may wrap around at the end of the address space, where the base may be unaligned as well. That they
are different words (`Address.nodup_words`) is what makes each load find what was stored for its register.
-/

set_option autoImplicit false

namespace ArmBlocks

open Guest (exec)

variable {σ : Type}

/-- The host acts as plain memory on some words, of which `content` is the content: they are there, to
read and to wait changes none of them, and to write changes the one that is written. -/
structure Bus.PlainOn (bus : Bus σ) (cpu : Cpu) (touched : List Word) (content : σ → Word → Word) :
    Prop where
  get : ∀ host, ∀ a ∈ touched, (bus.get host cpu .word a).1 = some (content host a)
  set : ∀ host x, ∀ a ∈ touched, (bus.set host cpu .word a x).1 = true
  content_get : ∀ host, ∀ a ∈ touched, ∀ b ∈ touched,
    content (bus.get host cpu .word a).2 b = content host b
  content_set : ∀ host x, ∀ a ∈ touched, ∀ b ∈ touched,
    content (bus.set host cpu .word a x).2 b = if b = a then x else content host b
  content_waitTime : ∀ host access, ∀ a ∈ touched, ∀ b ∈ touched,
    content (bus.waitTime host cpu .word a access).2 b = content host b

/-- Memory is plain wherever there is some. -/
theorem Bus.plainOn_words {limit : Word} (cpu : Cpu) {touched : List Word}
    (below : ∀ a ∈ touched, a < limit) : (Bus.words limit).PlainOn cpu touched fun host a => host a where
  get host a ha := if_pos ⟨rfl, below a ha⟩
  set host x a ha := congrArg Prod.fst (if_pos ⟨rfl, below a ha⟩)
  content_get _ _ _ _ _ := rfl
  content_set host x a ha b _ := by
    have stored : ((Bus.words limit).set host cpu .word a x).2 = Function.update host a x :=
      congrArg Prod.snd (if_pos ⟨rfl, below a ha⟩)
    rw [stored, Function.update_apply]
  content_waitTime _ _ _ _ _ _ := rfl

/-! ## Words of plain memory

Memory is plain where every access finds it and a word that was stored is loaded again, at the
addresses in question. Words at different addresses do not disturb each other.
-/

namespace Guest

variable {bus : Bus σ} {touched : List Word} {content : σ → Word → Word}

/-- A load from plain memory goes through, answers what is there, and changes nothing of the words that are
touched. -/
theorem exec_load_plain {addr : Word} {m : Machine σ} (plain : bus.PlainOn m.cpu.cpu touched content)
    (inside : Address.align addr 4 ∈ touched) (access : Access) :
    ∃ wait host, exec (load bus .word addr access) m =
        (some (content m.host (Address.align addr 4), wait), { m with host }) ∧
      ∀ b ∈ touched, content host b = content m.host b := by
  have there := plain.get m.host _ inside
  have kept := plain.content_get m.host _ inside
  unfold load Bus.read
  rw [exec_modifyGet]
  dsimp only [Width.bytes]
  generalize bus.get m.host m.cpu.cpu .word (Address.align addr 4) = answer at there kept ⊢
  obtain ⟨value?, host⟩ := answer
  obtain rfl : value? = some _ := there
  refine ⟨_, _, rfl, fun b hb => ?_⟩
  exact (plain.content_waitTime host access _ inside b hb).trans (kept b hb)

/-- A store to plain memory goes through and changes the one word. -/
theorem exec_store_plain {addr : Word} {m : Machine σ} (plain : bus.PlainOn m.cpu.cpu touched content)
    (inside : Address.align addr 4 ∈ touched) (x : Word) (access : Access) :
    ∃ wait host, exec (store bus .word addr x access) m = (some wait, { m with host }) ∧
      ∀ b ∈ touched, content host b = if b = Address.align addr 4 then x else content m.host b := by
  have there := plain.set m.host (Width.word.cut x) _ inside
  have changed := plain.content_set m.host (Width.word.cut x) _ inside
  unfold store Bus.write
  rw [exec_modifyGet]
  dsimp only [Width.bytes]
  generalize bus.set m.host m.cpu.cpu .word (Address.align addr 4) (Width.word.cut x) = answer
    at there changed ⊢
  obtain ⟨done, host⟩ := answer
  obtain rfl : done = true := there
  refine ⟨_, _, rfl, fun b hb => ?_⟩
  exact (plain.content_waitTime host access _ inside b hb).trans (changed b hb)

/-- Consecutive words are loaded as they are. -/
theorem exec_loadWords_plain (count : Nat) : ∀ (addr : Word) (access : Access) {m : Machine σ},
    bus.PlainOn m.cpu.cpu touched content → Address.words addr count ⊆ touched →
      ∃ total host, exec (loadWords bus count addr access) m =
        (some ((Address.words addr count).map (content m.host), total), { m with host }) := by
  induction count with
  | zero =>
    intro addr access m _ _
    exact ⟨0, m.host, rfl⟩
  | succ count ih =>
    intro addr access m plain inside
    obtain ⟨first, others⟩ := List.cons_subset.mp inside
    obtain ⟨wait, host, loaded, kept⟩ := exec_load_plain plain first access
    obtain ⟨total, host', rest⟩ := ih (addr + 4) .sequential (m := { m with host }) plain others
    refine ⟨wait.setWidth 32 + total, host', ?_⟩
    have same : (Address.words (addr + 4) count).map (content host) =
        (Address.words (addr + 4) count).map (content m.host) :=
      List.map_congr_left fun b hb => kept b (others hb)
    rw [exec_loadWords_succ, loaded]
    simp only [rest, same]
    rfl

/-- Consecutive words hold what was stored to them. -/
theorem exec_storeWords_plain (values : List Word) : ∀ (addr : Word) (access : Access) {m : Machine σ},
    bus.PlainOn m.cpu.cpu touched content → Address.words addr values.length ⊆ touched →
      (Address.words addr values.length).Nodup →
        ∃ total host, exec (storeWords bus values addr access) m = (some total, { m with host }) ∧
          (Address.words addr values.length).map (content host) = values ∧
          ∀ b ∈ touched, b ∉ Address.words addr values.length → content host b = content m.host b := by
  induction values with
  | nil =>
    intro addr access m _ _ _
    exact ⟨0, m.host, rfl, rfl, fun _ _ _ => rfl⟩
  | cons x rest ih =>
    intro addr access m plain inside apart
    obtain ⟨first, others⟩ := List.cons_subset.mp inside
    obtain ⟨fresh, apart'⟩ := List.nodup_cons.mp apart
    obtain ⟨wait, host, stored, changed⟩ := exec_store_plain plain first x access
    obtain ⟨total, host', stored', holds, kept⟩ :=
      ih (addr + 4) .sequential (m := { m with host }) plain others apart'
    refine ⟨wait.setWidth 32 + total, host', ?_, ?_, fun b hb elsewhere => ?_⟩
    · rw [exec_storeWords_cons, stored]
      simp only [stored']
    · -- the later words are others, so the first still holds what was stored to it
      have head : content host' (Address.align addr 4) = x := by
        rw [kept _ first fresh]
        exact (changed _ first).trans (if_pos rfl)
      exact List.cons_eq_cons.mpr ⟨head, holds⟩
    · obtain ⟨other, later⟩ := not_or.mp (mt List.mem_cons.mpr elsewhere)
      rw [kept b hb later]
      exact (changed b hb).trans (if_neg other)

end Guest

/-! ## Opposite addressing modes

The opposite of a mode counts in the other direction and on the other side of the access. Applied to
the base that a mode leaves, it finds the same words and leaves the base that there was.
-/

namespace BlockMode

/-- The mode that moves the base and the address the other way. -/
def opposite (mode : BlockMode) : BlockMode := ⟨!mode.pre, !mode.up⟩

theorem moved_opposite (mode : BlockMode) (base : Word) (list : RegSet) :
    mode.opposite.moved (mode.moved base list) list = base := by
  obtain ⟨pre, up⟩ := mode
  cases up with
  | true => exact BitVec.add_sub_cancel _ _
  | false => exact BitVec.sub_add_cancel _ _

/-- The opposite mode, from where the base was moved to, begins at the same address. -/
theorem lowest_opposite (mode : BlockMode) (base : Word) (list : RegSet) :
    mode.opposite.lowest (mode.moved base list) list = mode.lowest base list := by
  obtain ⟨pre, up⟩ := mode
  cases up with
  | false => cases pre <;> rfl
  | true =>
    -- the base moved up, so this is the mode that subtracts again
    have back : base + distance list - distance list = base := BitVec.add_sub_cancel _ _
    cases pre with
    | false => exact back
    | true => exact congrArg (· + 4) back

end BlockMode

namespace CpuState

/-- Processors that differ in nothing but their visible registers. -/
def AgreeBeside (s t : CpuState) : Prop := ∃ registers, t = { s with registers }

namespace AgreeBeside

variable {s t u : CpuState}

theorem trans (h : s.AgreeBeside t) (h' : t.AgreeBeside u) : s.AgreeBeside u := by
  obtain ⟨_, rfl⟩ := h
  obtain ⟨registers, rfl⟩ := h'
  exact ⟨registers, rfl⟩

theorem setReg (s : CpuState) (r : Reg) (x : Word) : s.AgreeBeside (s.setReg r x) := ⟨_, rfl⟩

/-- Loading registers changes nothing beside them. -/
theorem setLoaded (loaded : List (Reg × Word)) : ∀ s : CpuState, s.AgreeBeside (s.setLoaded loaded) := by
  induction loaded with
  | nil => exact fun s => ⟨s.registers, rfl⟩
  | cons head rest ih =>
    intro s
    have first : s.AgreeBeside (if head.1 = .pc then s else s.setReg head.1 head.2) := by
      split
      · exact ⟨s.registers, rfl⟩
      · exact setReg s _ _
    exact first.trans (ih _)

/-- If the registers agree as well, they are one. -/
theorem eq (h : s.AgreeBeside t) (same : ∀ r, t.reg r = s.reg r) : t = s := by
  obtain ⟨registers, rfl⟩ := h
  have one : registers = s.registers := by
    refine Vector.ext fun k inside => ?_
    have visible := same (BitVec.ofNat 4 k)
    simp only [reg, BitVec.toNat_ofNat, Nat.mod_eq_of_lt inside] at visible
    exact visible
  rw [one]

end AgreeBeside

/-- The processor `t` is `s` with something else in the registers of a list. -/
structure OverwrittenIn (s : CpuState) (list : RegSet) (t : CpuState) : Prop where
  beside : s.AgreeBeside t
  kept : ∀ r, list.has r = false → t.reg r = s.reg r

end CpuState

namespace Instruction

variable {bus : Bus σ} {i : Instruction} {mode : BlockMode} {rn : Reg} {list : RegSet}
  {cycles pcCycles : Nat} {m : Machine σ} {content : σ → Word → Word}

/-- A store with writeback moves the base and leaves the registers of the list in memory. -/
theorem exec_storeMultiple
    (hop : i.op = .block false mode.pre mode.up true false rn list cycles pcCycles) (base : rn ≠ .pc)
    (spared : list.has .pc = false) (apart : list.has rn = false)
    (plain : bus.PlainOn m.cpu.cpu
      (Address.words (mode.lowest (m.cpu.reg rn) list) (RegSet.toList list).length) content) :
    (exec (i.perform bus) m).1 = none ∧
      (exec (i.perform bus) m).2.cpu = m.cpu.setReg rn (mode.moved (m.cpu.reg rn) list) ∧
      (Address.words (mode.lowest (m.cpu.reg rn) list) (RegSet.toList list).length).map
        (content (exec (i.perform bus) m).2.host) = (RegSet.toList list).map m.cpu.reg := by
  -- neither the base nor the counter is listed, and those are the two that are not stored as they are
  have stored : (RegSet.toList list).map (m.cpu.storedValue i.pipelinePc list rn true
      (mode.moved (m.cpu.reg rn) list)) = (RegSet.toList list).map m.cpu.reg := by
    refine List.map_congr_left fun r hr => ?_
    have other : r ≠ rn := RegSet.ne_of_mem_toList apart hr
    have visible : r ≠ .pc := RegSet.ne_of_mem_toList spared hr
    rw [CpuState.storedValue, if_neg fun h => other h.1, CpuState.readLate, if_neg visible]
  have length : ((RegSet.toList list).map m.cpu.reg).length = (RegSet.toList list).length :=
    List.length_map _
  rw [← length] at plain ⊢
  obtain ⟨total, host, words, holds, -⟩ := Guest.exec_storeWords_plain ((RegSet.toList list).map m.cpu.reg)
    _ .nonSequential plain (List.Subset.refl _)
    (Address.nodup_words _ (by rw [length]; exact RegSet.length_toList_le list))
  have action := Guest.exec_ownStore bus i.pipelinePc i.action.cost mode true rn m list
  rw [← execute_block hop, CpuState.read, if_neg base, stored, if_pos rfl,
    Guest.exec_storeBlock _ _ _ _ _ words] at action
  have whole : exec (i.perform bus) m = (none, _) :=
    exec_perform_of_stays (block_stays hop spared (.inr base)) action
  rw [whole]
  exact ⟨rfl, if_neg base, holds⟩

/-- A load with writeback moves the base and takes the registers of the list from memory. -/
theorem exec_loadMultiple
    (hop : i.op = .block true mode.pre mode.up true false rn list cycles pcCycles) (base : rn ≠ .pc)
    (spared : list.has .pc = false)
    (plain : bus.PlainOn m.cpu.cpu
      (Address.words (mode.lowest (m.cpu.reg rn) list) (RegSet.toList list).length) content) :
    (exec (i.perform bus) m).1 = none ∧
      (exec (i.perform bus) m).2.cpu =
        (m.cpu.setReg rn (mode.moved (m.cpu.reg rn) list)).setLoaded ((RegSet.toList list).zip
          ((Address.words (mode.lowest (m.cpu.reg rn) list) (RegSet.toList list).length).map
            (content m.host))) := by
  obtain ⟨total, host, words⟩ := Guest.exec_loadWords_plain _ _ .nonSequential plain (List.Subset.refl _)
  have action := Guest.exec_ownLoad bus i.pipelinePc i.action.cost mode true rn m list
  rw [← execute_block hop, CpuState.read, if_neg base, if_pos rfl,
    Guest.exec_loadBlock _ _ _ _ _ _ spared words] at action
  have whole : exec (i.perform bus) m = (none, _) :=
    exec_perform_of_stays (block_stays hop spared (.inr base)) action
  rw [whole]
  refine ⟨rfl, ?_⟩
  show CpuState.setLoaded (m.cpu.write rn _) _ = _
  rw [CpuState.write, if_neg base]

variable {stm ldm : Instruction} {cycles' pcCycles' : Nat}

/-- **A load multiple undoes the store multiple that is its opposite.** Whatever the base is and
whichever registers are listed, none included: where the words that are touched behave like memory, a
store with writeback followed by the load of the same list that moves the base the other way leaves the
processor as it was, though the listed registers were overwritten in between. -/
theorem loadMultiple_undoes_storeMultiple
    (hstm : stm.op = .block false mode.pre mode.up true false rn list cycles pcCycles)
    (hldm : ldm.op = .block true mode.opposite.pre mode.opposite.up true false rn list cycles' pcCycles')
    (base : rn ≠ .pc) (spared : list.has .pc = false) (apart : list.has rn = false) (m : Machine σ)
    (plain : bus.PlainOn m.cpu.cpu
      (Address.words (mode.lowest (m.cpu.reg rn) list) (RegSet.toList list).length) content)
    (n : Machine σ) (overwritten : (exec (stm.perform bus) m).2.cpu.OverwrittenIn list n.cpu)
    (undisturbed : ∀ a ∈ Address.words (mode.lowest (m.cpu.reg rn) list) (RegSet.toList list).length,
      content n.host a = content (exec (stm.perform bus) m).2.host a) :
    (exec (stm.perform bus) m).1 = none ∧ (exec (ldm.perform bus) n).1 = none ∧
      (exec (ldm.perform bus) n).2.cpu = m.cpu := by
  obtain ⟨goes, cpu, saved⟩ := exec_storeMultiple hstm base spared apart plain
  rw [← List.map_congr_left undisturbed] at saved
  rw [cpu] at overwritten
  have moved : n.cpu.reg rn = mode.moved (m.cpu.reg rn) list := by
    rw [overwritten.kept rn apart, CpuState.reg_setReg, if_pos rfl]
  -- only registers were written in between, and every one of them is loaded or is the base
  have between : m.cpu.AgreeBeside n.cpu := (CpuState.AgreeBeside.setReg _ _ _).trans overwritten.beside
  have same : n.cpu.cpu = m.cpu.cpu := by
    obtain ⟨registers, h⟩ := between
    rw [h]
  have lowest : mode.opposite.lowest (n.cpu.reg rn) list = mode.lowest (m.cpu.reg rn) list := by
    rw [moved, BlockMode.lowest_opposite]
  have back : mode.opposite.moved (n.cpu.reg rn) list = m.cpu.reg rn := by
    rw [moved, BlockMode.moved_opposite]
  rw [← lowest, ← same] at plain
  obtain ⟨goes', cpu'⟩ := exec_loadMultiple hldm base spared plain
  rw [lowest, saved, back] at cpu'
  have others : Reg.pc ∉ RegSet.toList list := RegSet.not_mem_toList spared
  refine ⟨goes, goes', ?_⟩
  rw [cpu']
  refine CpuState.AgreeBeside.eq ?_ fun r => ?_
  · exact (between.trans (.setReg _ rn _)).trans (.setLoaded _ _)
  · rw [CpuState.reg_setLoaded m.cpu.reg r others, CpuState.reg_setReg]
    split
    · rfl
    · rename_i unlisted
      rw [RegSet.mem_toList, Bool.not_eq_true] at unlisted
      split
      · subst_vars
        rfl
      · rename_i other
        rw [overwritten.kept r unlisted, CpuState.reg_setReg, if_neg other]

/-- `STMDB sp!, {r4, lr}`. -/
def push : Instruction := Arm.decode .arm7 0 0xE92D4010

/-- `LDMIA sp!, {r4, lr}`. -/
def pop : Instruction := Arm.decode .arm7 4 0xE8BD4010

/-- A processor whose stack pointer is not aligned. -/
def calling : CpuState := (((CpuState.new .arm7).setReg .sp 0x102).setReg 4 7).setReg .lr 9

/-- Another use of the registers that were pushed. -/
def clobber (m : Machine σ) : Machine σ := { m with cpu := (m.cpu.setReg 4 0).setReg .lr 0 }

theorem overwrittenIn_clobber (m : Machine σ) : m.cpu.OverwrittenIn 0x4010 (clobber m).cpu := by
  refine ⟨(CpuState.AgreeBeside.setReg _ 4 0).trans (.setReg _ .lr 0), fun r unlisted => ?_⟩
  have other : ∀ r : Reg, RegSet.has 0x4010 r = false → .lr ≠ r ∧ 4 ≠ r := by decide
  obtain ⟨link, four⟩ := other r unlisted
  show ((m.cpu.setReg 4 0).setReg .lr 0).reg r = m.cpu.reg r
  rw [CpuState.reg_setReg, if_neg link, CpuState.reg_setReg, if_neg four]

theorem plainOn_stack : (Bus.words 0x200).PlainOn calling.cpu (Address.words
    ((BlockMode.mk true false).lowest (calling.reg .sp) 0x4010) (RegSet.toList 0x4010).length)
      fun host a => host a := by
  have words : Address.words ((BlockMode.mk true false).lowest (calling.reg .sp) 0x4010)
      (RegSet.toList 0x4010).length = [0xF8, 0xFC] := by decide +kernel
  rw [words]
  exact Bus.plainOn_words _ (by simp)

/-- What is pushed is popped again, after all that was pushed was overwritten. -/
theorem pop_undoes_push :
    let saved := exec (push.perform (Bus.words 0x200)) (Machine.start calling fun _ => 0)
    let restored := exec (pop.perform (Bus.words 0x200)) (clobber saved.2)
    saved.1 = none ∧ restored.1 = none ∧ restored.2.cpu = calling := by
  have hpush : push.op = .block false (BlockMode.mk true false).pre (BlockMode.mk true false).up true
    false .sp 0x4010 1 1 := rfl
  have hpop : pop.op = .block true (BlockMode.mk true false).opposite.pre
    (BlockMode.mk true false).opposite.up true false .sp 0x4010 2 4 := rfl
  exact loadMultiple_undoes_storeMultiple hpush hpop (by decide) (by decide) (by decide)
    (Machine.start calling fun _ => 0) plainOn_stack _ (overwrittenIn_clobber _) (fun _ _ => rfl)

end Instruction

end ArmBlocks
