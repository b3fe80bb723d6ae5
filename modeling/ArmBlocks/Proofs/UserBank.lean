import ArmBlocks.Proofs.BlockAccesses
import ArmBlocks.Proofs.DataAbort

/-!
# Block transfers of User mode's registers

With the S bit and without the program counter a block transfer moves the registers of User mode,
whatever the mode is. It does so by becoming System mode for a while, and up to seven visible registers
are exchanged on the way in and on the way out. None of that may be seen: the registers that the mode has
for itself are where they were, though others of the same name were loaded.

That no mode can tell is `CpuState.seenBy_setCpsr`, twice. Between the two switches the transfer loads and
stores what System mode sees, and System mode sees what User mode sees (`CpuState.seenBy_system`).
-/

set_option autoImplicit false

namespace ArmBlocks

open Guest (exec)

variable {σ : Type}

/-- System mode has what User mode has. -/
theorem Place.shared_system (p : Place) (m : Mode) : p.shared .system m = p.shared .user m := by
  cases p <;> cases m <;> rfl

namespace CpuState

/-- Modes that share a place see the same there. -/
theorem seenBy_congr (s : CpuState) {m n : Mode} {p : Place} (h : p.shared m n = true) :
    s.seenBy m p = s.seenBy n p := by
  cases p with
  | reg r => rw [seenBy, seenBy, Place.shared_congr h, s.banks.kept_congr h]
  | saved =>
    have same : m.bank = n.bank := by
      rw [Place.shared, Place.sharesBank_eq, beq_iff_eq] at h
      exact Fin.ext h
    rw [seenBy, seenBy, same]

theorem seenBy_system (s : CpuState) (p : Place) : s.seenBy .system p = s.seenBy .user p :=
  s.seenBy_congr ((Place.shared_system p .user).trans (p.shared_self .user))

/-- The registers of User mode in a list were loaded with `f`, and no others. -/
structure LoadsUser (s : CpuState) (list : RegSet) (f : Reg → Word) (t : CpuState) : Prop where
  cpsr : t.cpsr = s.cpsr
  saved : ∀ m, t.seenBy m .saved = s.seenBy m .saved
  listed : ∀ m r, list.has r = true → (Place.reg r).shared .user m = true → t.seenBy m (.reg r) = f r
  others : ∀ m r, ¬(list.has r = true ∧ (Place.reg r).shared .user m = true) →
    t.seenBy m (.reg r) = s.seenBy m (.reg r)

/-- **Loading in System mode loads for User mode.** -/
theorem loadsUser_borrow (s : CpuState) {list : RegSet} (spared : list.has .pc = false)
    (f : Reg → Word) :
    s.LoadsUser list f (((s.setMode .system).setLoaded
      ((RegSet.toList list).zip ((RegSet.toList list).map f))).setCpsr s.cpsr) := by
  have others : .pc ∉ RegSet.toList list := RegSet.not_mem_toList spared
  have lent (m : Mode) (p : Place) : (s.setMode .system).seenBy m p = s.seenBy m p := seenBy_setCpsr ..
  have loaded (m : Mode) (r : Reg) : ((s.setMode .system).setLoaded
      ((RegSet.toList list).zip ((RegSet.toList list).map f))).seenBy m (.reg r) =
      if r ∈ RegSet.toList list ∧ (Place.reg r).shared .user m = true then f r
      else s.seenBy m (.reg r) := by
    rw [seenBy_setLoaded f m (.reg r) others]
    simp only [mode_setMode, Place.shared_system, lent]
  refine ⟨cpsr_setCpsr _ _, fun m => ?_, fun m r has shared => ?_, fun m r apart => ?_⟩
  · rw [seenBy_setCpsr, seenBy_setLoaded f m .saved others]
    exact lent m .saved
  · rw [seenBy_setCpsr, loaded, if_pos ⟨RegSet.mem_toList.mpr has, shared⟩]
  · rw [seenBy_setCpsr, loaded, if_neg]
    intro h
    exact apart ⟨RegSet.mem_toList.mp h.1, h.2⟩

/-- What is stored in System mode is what User mode sees. -/
theorem storedValue_borrow (s : CpuState) {list : RegSet} (spared : list.has .pc = false) (pc : Word)
    (rn : Reg) (moved : Word) :
    (RegSet.toList list).map ((s.setMode .system).storedValue pc list rn false moved) =
      (RegSet.toList list).map fun r => s.seenBy .user (.reg r) := by
  refine List.map_congr_left fun r hr => ?_
  have other : r ≠ .pc := RegSet.ne_of_mem_toList spared hr
  have visible : (s.setMode .system).reg r = s.seenBy .user (.reg r) := by
    have seen := (s.setMode .system).seenBy_mode (.reg r)
    rw [mode_setMode, seenBy_system, setMode, seenBy_setCpsr] at seen
    exact seen.symm
  rw [storedValue, if_neg (by simp), readLate, if_neg other, visible]

end CpuState

namespace Instruction

variable {bus : Bus σ} {i : Instruction} {m : Machine σ}

/-- An instruction all of whose accesses found memory was not aborted. -/
theorem not_aborted {n : Machine (σ × List Report)} {leaveBank : Guest (σ × List Report) Unit}
    (found : ∀ r ∈ i.reports bus m, r.found = true)
    (aborts : i.reports bus m = (exec (Guest.abortBlock bus.reporting i.pipelinePc leaveBank) n).2.host.2) :
    False := by
  have told : Report.exception .dataAbort ∈ i.reports bus m := by
    rw [aborts]
    exact List.mem_append_right _ (List.mem_singleton_self _)
  exact Report.ne_exception_of_found (found _ told) .dataAbort rfl

variable {load pre up : Bool} {rn : Reg} {list : RegSet} {cycles pcCycles : Nat}

/-- A block load to the bank of the user reads the words in ascending order and leaves what it read in the
registers of that bank. It borrows the bank for as long as it needs it, so the rest of the instruction is
that of a load in system mode. -/
theorem exec_userLoad (hop : i.op = .block true pre up false true rn list cycles pcCycles)
    (spared : list.has .pc = false) (found : ∀ r ∈ i.reports bus m, r.found = true) :
    ∃ f : Reg → Word,
      (exec (i.perform bus) m).1 = none ∧
      i.reports bus m = Guest.loads m.cpu.cpu
        (BlockMode.lowest ⟨pre, up⟩ (m.cpu.read i.pipelinePc rn) list) ((RegSet.toList list).map f) ∧
      m.cpu.LoadsUser list f (exec (i.perform bus) m).2.cpu := by
  have stays := block_stays hop spared (.inl rfl)
  -- without r15 in its list the instruction is the loading half, on a processor in system mode
  have action := Guest.exec_lentLoad bus.reporting i.pipelinePc i.action.cost ⟨pre, up⟩ false rn
    m.unreported spared
  rw [← execute_block hop, if_neg Bool.false_ne_true] at action
  have reports := i.reports_eq bus m
  rw [Machine.shown_of_stays _ stays, action] at reports
  -- the words were all there, or one of the reports would be of a miss
  rcases answer : exec (Guest.loadWords bus.reporting (RegSet.toList list).length
      (BlockMode.lowest ⟨pre, up⟩ (m.unreported.cpu.read i.pipelinePc rn) list) .nonSequential)
    { m.unreported with cpu := m.unreported.cpu.setMode .system } with ⟨_ | ⟨values, total⟩, n⟩
  · rw [Guest.exec_loadBlock_of_none _ _ _ _ _ _ answer] at reports
    exact (not_aborted found reports).elim
  · have length := Guest.length_loadWords (congrArg Prod.fst answer)
    obtain ⟨host, rfl⟩ := Guest.told_loadWords answer
    obtain ⟨f, rfl⟩ := RegSet.exists_map list length
    rw [Guest.exec_loadBlock _ _ _ _ _ _ spared answer] at reports action
    have left : i.reported bus m = (none, _) := exec_perform_of_stays stays action
    have whole := exec_perform_of_reported left
    refine ⟨f, by rw [whole], reports, ?_⟩
    rw [whole]
    exact m.cpu.loadsUser_borrow spared f

/-- A block store from the bank of the user writes what the user sees, in ascending order, and is in the
old mode again when it is done. -/
theorem exec_userStore (hop : i.op = .block false pre up false true rn list cycles pcCycles)
    (spared : list.has .pc = false) (found : ∀ r ∈ i.reports bus m, r.found = true) :
    (exec (i.perform bus) m).1 = none ∧
    i.reports bus m = Guest.stores m.cpu.cpu
      (BlockMode.lowest ⟨pre, up⟩ (m.cpu.read i.pipelinePc rn) list)
      ((RegSet.toList list).map fun r => m.cpu.seenBy .user (.reg r)) ∧
    (exec (i.perform bus) m).2.cpu = (m.cpu.setMode .system).setCpsr m.cpu.cpsr := by
  have stays := block_stays hop spared (.inl rfl)
  -- what the system mode sees is what the user sees
  have action := Guest.exec_lentStore bus.reporting i.pipelinePc i.action.cost ⟨pre, up⟩ false rn
    m.unreported list
  rw [← execute_block hop, if_neg Bool.false_ne_true, CpuState.storedValue_borrow _ spared] at action
  have reports := i.reports_eq bus m
  rw [Machine.shown_of_stays _ stays, action] at reports
  rcases answer : exec (Guest.storeWords bus.reporting
      ((RegSet.toList list).map fun r => m.unreported.cpu.seenBy .user (.reg r))
      (BlockMode.lowest ⟨pre, up⟩ (m.unreported.cpu.read i.pipelinePc rn) list) .nonSequential)
    { m.unreported with cpu := m.unreported.cpu.setMode .system } with ⟨_ | total, n⟩
  · rw [Guest.exec_storeBlock_of_none _ _ _ _ _ answer] at reports
    exact (not_aborted found reports).elim
  · obtain ⟨host, rfl⟩ := Guest.told_storeWords answer
    rw [Guest.exec_storeBlock _ _ _ _ _ answer] at reports action
    have left : i.reported bus m = (none, _) := exec_perform_of_stays stays action
    have whole := exec_perform_of_reported left
    refine ⟨by rw [whole], reports, ?_⟩
    rw [whole]
    rfl

/-- **A transfer of User mode's registers leaves the mode alone.** In every mode, if all accesses of a
block transfer with the S bit, without the program counter and without writeback find memory, then the
status register and all saved status registers stay. A store stores what User mode sees, in ascending
order from the lowest address on, and changes no register. A load makes what it loaded visible to User
mode in the registers of its list, and changes no other register that any mode sees. -/
theorem userBlock_spares_mode (hop : i.op = .block load pre up false true rn list cycles pcCycles)
    (spared : list.has .pc = false) (found : ∀ r ∈ i.reports bus m, r.found = true) :
    let t := (exec (i.perform bus) m).2.cpu
    let lowest := BlockMode.lowest ⟨pre, up⟩ (m.cpu.read i.pipelinePc rn) list
    (exec (i.perform bus) m).1 = none ∧ t.cpsr = m.cpu.cpsr ∧
      (∀ mode, t.seenBy mode .saved = m.cpu.seenBy mode .saved) ∧
      match load with
      | true => ∃ f : Reg → Word,
          i.reports bus m = Guest.loads m.cpu.cpu lowest ((RegSet.toList list).map f) ∧
            m.cpu.LoadsUser list f t
      | false =>
          i.reports bus m = Guest.stores m.cpu.cpu lowest
              ((RegSet.toList list).map fun r => m.cpu.seenBy .user (.reg r)) ∧
            ∀ mode r, t.seenBy mode (.reg r) = m.cpu.seenBy mode (.reg r) := by
  intro t lowest
  cases load with
  | true =>
    obtain ⟨f, goes, reports, loads⟩ := exec_userLoad hop spared found
    exact ⟨goes, loads.cpsr, loads.saved, f, reports, loads⟩
  | false =>
    obtain ⟨goes, reports, cpu⟩ := exec_userStore hop spared found
    -- there and back again, and no place that any mode sees has changed on the way
    have seen (mode : Mode) (p : Place) : t.seenBy mode p = m.cpu.seenBy mode p := by
      rw [show t = _ from cpu, CpuState.setMode, CpuState.seenBy_setCpsr, CpuState.seenBy_setCpsr]
    have status : t.cpsr = m.cpu.cpsr := by
      rw [show t = _ from cpu, CpuState.cpsr_setCpsr]
    exact ⟨goes, status, fun mode => seen mode .saved, reports, fun mode r => seen mode (.reg r)⟩

/-- In Fiq mode a load of r8 and r13 of User mode. -/
def userLoad : Instruction := Arm.decode .arm9 0 0xE8D02100

/-- The r8 and r13 of Fiq mode, both zero, are not loaded. -/
theorem userBlock_spares_fiq :
    let m := Machine.start fiqState fun addr => addr
    let t := (exec (userLoad.perform (Bus.words 0x200)) m).2.cpu
    (∀ r ∈ userLoad.reports (Bus.words 0x200) m, r.found = true) ∧ t.cpsr = 0xD1 ∧
      (∃ f, m.cpu.LoadsUser 0x2100 f t) ∧ t.reg 8 = 0 ∧ t.reg 13 = 0 ∧
      t.seenBy .user (.reg 8) = 0x100 ∧ t.seenBy .user (.reg 13) = 0x104 := by
  have found : ∀ r ∈ userLoad.reports (Bus.words 0x200) (Machine.start fiqState fun addr => addr),
      r.found = true := by decide +kernel
  have hop : userLoad.op = .block true false true false true 0 0x2100 2 4 := rfl
  obtain ⟨-, status, -, f, -, loads⟩ := userBlock_spares_mode hop (by decide) found
  exact ⟨found, status, ⟨f, loads⟩, by decide +kernel⟩

end Instruction

end ArmBlocks
