import Mathlib.Tactic.IntervalCases
import ArmBlocks.Cpu.State

/-!
# One register file for each mode

To a program the banks are not there: each mode has registers r0 to r15 and a saved status register,
some of which it has in common with other modes. `Place.shared` is the table that says which, and
`BankedFile` is a processor made of nothing but that table and the list of what was written: reading
a place yields the last thing that was written to it in a mode that shares it.

The arrays of a processor behave like that whatever is switched and written
(`CpuState.reads_as_file`). What makes it true is that a mode's view of the registers
(`CpuState.seenBy`) does not take the stale copies in the banks of the current mode into account: then
switching changes nobody's view (`CpuState.seenBy_setCpsr`), and a write changes the views of the modes
that share the place and of no others (`CpuState.seenBy_writePlace`).
-/

set_option autoImplicit false

namespace ArmBlocks

/-! ## What the modes have in common

Which registers two modes share is a table of the architecture. It is written down once, and that the
arrays of the processor realise it is proved.
-/

/-- Something that is read and written under one name in every mode. -/
inductive Place where
  | reg (r : Reg)
  /-- The saved status register. -/
  | saved
  deriving DecidableEq, Repr

/-- Whether two modes have stack pointer, link register and saved status register in common. -/
def Mode.sharesBank (m n : Mode) : Bool :=
  m == n || (m == .user && n == .system) || (m == .system && n == .user)

namespace Place

/-- Whether two modes see the same copy of a place. -/
def shared : Place → Mode → Mode → Bool
  | .reg r, m, n =>
    if 8 ≤ r.toNat ∧ r.toNat ≤ 12 then (m == .fiq) == (n == .fiq)
    else if r = .sp ∨ r = .lr then m.sharesBank n
    else true
  | .saved, m, n => m.sharesBank n

/-- The number of the copy a mode sees. -/
def copy : Place → Mode → Nat
  | .reg r, m =>
    if 8 ≤ r.toNat ∧ r.toNat ≤ 12 then (if m = .fiq then 1 else 0)
    else if r = .sp ∨ r = .lr then m.bank
    else 0
  | .saved, m => m.bank

theorem sharesBank_eq (m n : Mode) : m.sharesBank n = (m.bank.val == n.bank.val) := by
  cases m <;> cases n <;> rfl

/-- To share a place is to see the same copy, and so an equivalence. -/
theorem shared_iff (p : Place) (m n : Mode) : p.shared m n = true ↔ p.copy m = p.copy n := by
  have banks := sharesBank_eq m n
  cases p with
  | saved => simp [shared, copy, banks]
  | reg r =>
    simp only [shared, copy]
    split
    · cases m <;> cases n <;> decide
    · split
      · simp [banks]
      · simp

theorem shared_self (p : Place) (m : Mode) : p.shared m m = true := (p.shared_iff m m).mpr rfl

/-- A mode shares a place with either of two modes that share it. -/
theorem shared_congr {p : Place} {m n : Mode} (h : p.shared m n = true) (l : Mode) :
    p.shared l m = p.shared l n := by
  rw [Bool.eq_iff_iff, shared_iff, shared_iff, (p.shared_iff m n).mp h]

end Place

/-! ## What a processor is to a program

There is a register file for each mode: what was in it at first, and what was written since. A read
looks for the latest write to its place by a mode that shares it; a switch names the mode and moves
nothing.
-/

/-- Something that happens to the registers. -/
inductive BankEvent where
  /-- The status register is replaced. -/
  | switch (status : Word)
  /-- A place is written in the current mode. -/
  | write (place : Place) (x : Word)

/-- A value that was written. -/
structure Written where
  place : Place
  /-- The mode it was written in. -/
  mode : Mode
  value : Word

/-- A register file for each mode: what was in them at first, and what was written since, the last
first. -/
structure BankedFile where
  mode : Mode
  initial : Mode → Place → Word
  written : List Written

namespace BankedFile

/-- What a mode reads: the last value written to the place in a mode that shares it. -/
def read (f : BankedFile) (m : Mode) (p : Place) : Word :=
  match f.written.find? fun w => w.place = p ∧ p.shared w.mode m = true with
  | some w => w.value
  | none => f.initial m p

/-- A switch names the next mode and moves nothing; bits that name no mode mean User. -/
def happen (f : BankedFile) : BankEvent → BankedFile
  | .switch status => { f with mode := (Mode.ofBits? status).getD .user }
  | .write p x => { f with written := ⟨p, f.mode, x⟩ :: f.written }

/-- What is left after some events. -/
def after (f : BankedFile) (events : List BankEvent) : BankedFile := events.foldl happen f

/-- A write is read back in every mode that shares the place with the mode in force, and nowhere else. -/
theorem read_write (f : BankedFile) (p q : Place) (x : Word) (m : Mode) :
    (f.happen (.write p x)).read m q =
      if p = q ∧ q.shared f.mode m = true then x else f.read m q := by
  unfold read happen
  rw [List.find?_cons]
  by_cases hit : p = q ∧ q.shared f.mode m = true
  · simp [hit]
  · simp [hit]

end BankedFile

/-! ## The arrays of a processor

The processor holds the registers of the current mode, and banks hold what is hidden.
`CpuState.seenBy` says where a register of a mode is at the moment.
-/

/-- The copy of a register that is kept for a mode while it is not visible; none if all modes have
the register in common. -/
def Banks.kept (b : Banks) (m : Mode) (r : Reg) : Option Word :=
  if h : 8 ≤ r.toNat ∧ r.toNat ≤ 12 then
    some (if m = .fiq then b.highFiq else b.high)[r.toNat - 8]
  else if r = .sp then some (b.sp.get m.bank)
  else if r = .lr then some (b.lr.get m.bank)
  else none

/-- Writing the copy of one bank keeps those of the others. -/
theorem Banks.get_set (v : Vector Word 6) (b c : Fin 6) (x : Word) :
    (v.set b x b.isLt).get c = if b.val = c.val then x else v.get c :=
  Vector.getElem_set b.isLt c.isLt

/-- Modes that share a register have one kept copy of it. -/
theorem Banks.kept_congr (b : Banks) {m n : Mode} {r : Reg}
    (h : (Place.reg r).shared m n = true) : b.kept m r = b.kept n r := by
  unfold Banks.kept
  by_cases high : 8 ≤ r.toNat ∧ r.toNat ≤ 12
  · simp only [Place.shared, if_pos high, Bool.beq_eq_decide_eq, decide_eq_true_iff] at h
    rw [dif_pos high, dif_pos high]
    by_cases hm : m = .fiq <;> by_cases hn : n = .fiq <;> simp_all
  · rw [dif_neg high, dif_neg high]
    by_cases banked : r = .sp ∨ r = .lr
    · simp only [Place.shared, if_neg high, if_pos banked, Place.sharesBank_eq, beq_iff_eq] at h
      have same : m.bank = n.bank := Fin.ext h
      simp only [same]
    · obtain ⟨stack, link⟩ := not_or.mp banked
      simp only [if_neg stack, if_neg link]

/-- A register of which no copies are kept is the same in all modes. -/
theorem Banks.shared_of_kept_eq_none {b : Banks} {m : Mode} {r : Reg} (h : b.kept m r = none)
    (l n : Mode) : (Place.reg r).shared l n = true := by
  unfold Banks.kept at h
  split at h
  · cases h
  · rename_i high
    split at h
    · cases h
    · rename_i stack
      split at h
      · cases h
      · rename_i link
        simp only [Place.shared, if_neg high, if_neg (not_or.mpr ⟨stack, link⟩)]

namespace CpuState

/-- What the current mode reads. -/
def readPlace (s : CpuState) : Place → Word
  | .reg r => s.reg r
  | .saved => s.saved

/-- The state after the current mode wrote a place. -/
def writePlace (s : CpuState) (p : Place) (x : Word) : CpuState :=
  match p with
  | .reg r => s.setReg r x
  | .saved => s.setSaved x

/-- The state after an event. -/
def happen (s : CpuState) : BankEvent → CpuState
  | .switch status => (s.exchangeCpsr status).2
  | .write p x => s.writePlace p x

/-- The state after some events. -/
def after (s : CpuState) (events : List BankEvent) : CpuState := events.foldl happen s

/-- What a mode would read: the visible copy if the current mode shares it, else the kept one. -/
def seenBy (s : CpuState) (m : Mode) : Place → Word
  | .reg r =>
    if (Place.reg r).shared s.mode m then s.reg r else (s.banks.kept m r).getD (s.reg r)
  | .saved => s.banks.saved.get m.bank

/-- The register files that the modes see. -/
def file (s : CpuState) : BankedFile := { mode := s.mode, initial := s.seenBy, written := [] }

theorem seenBy_mode (s : CpuState) (p : Place) : s.seenBy s.mode p = s.readPlace p := by
  cases p with
  | reg r => rw [seenBy, Place.shared_self, if_pos rfl, readPlace]
  | saved => rfl

/-! ### Loading and storing

A switch stores the registers of the old mode and loads those of the new one. What a bank holds is
looked up place by place.
-/

/-- Loading makes visible what is kept for the mode. -/
theorem reg_loadBank (s : CpuState) (m : Mode) (r : Reg) :
    (s.loadBank m).reg r = (s.banks.kept m r).getD (s.reg r) := by
  obtain ⟨⟨n, hn⟩⟩ := r
  have small : n < 16 := hn
  interval_cases n <;> simp [reg, loadBank, Banks.kept, Reg.sp, Reg.lr]
  -- what is left are the two registers that are kept by bank
  · rfl
  · rfl

theorem getElem_visibleHigh (s : CpuState) {r : Reg} (h : 8 ≤ r.toNat ∧ r.toNat ≤ 12) :
    s.visibleHigh[r.toNat - 8] = s.reg r := by
  obtain ⟨⟨n, hn⟩⟩ := r
  have small : 8 ≤ n ∧ n ≤ 12 := h
  obtain ⟨low, high⟩ := small
  interval_cases n <;> rfl

theorem highFiq_storeBank (s : CpuState) (m : Mode) :
    (s.storeBank m).highFiq = if m = .fiq then s.visibleHigh else s.banks.highFiq := by
  unfold storeBank
  split <;> rfl

theorem high_storeBank (s : CpuState) (m : Mode) :
    (s.storeBank m).high = if m = .fiq then s.banks.high else s.visibleHigh := by
  unfold storeBank
  split <;> rfl

theorem sp_storeBank (s : CpuState) (m : Mode) :
    (s.storeBank m).sp = s.banks.sp.set m.bank (s.reg .sp) m.bank.isLt := by
  unfold storeBank
  split <;> rfl

theorem lr_storeBank (s : CpuState) (m : Mode) :
    (s.storeBank m).lr = s.banks.lr.set m.bank (s.reg .lr) m.bank.isLt := by
  unfold storeBank
  split <;> rfl

theorem saved_storeBank (s : CpuState) (m : Mode) : (s.storeBank m).saved = s.banks.saved := by
  unfold storeBank
  split <;> rfl

/-- Storing puts the visible copies where the modes that share them find them. -/
theorem kept_storeBank (s : CpuState) (m n : Mode) (r : Reg) :
    (s.storeBank m).kept n r =
      (s.banks.kept n r).map fun old => if (Place.reg r).shared m n then s.reg r else old := by
  unfold Banks.kept
  by_cases high : 8 ≤ r.toNat ∧ r.toNat ≤ 12
  · have visible := s.getElem_visibleHigh high
    simp only [dif_pos high, Option.map_some, Place.shared, if_pos high, highFiq_storeBank,
      high_storeBank]
    by_cases hm : m = .fiq <;> by_cases hn : n = .fiq <;> simp [hm, hn, visible]
  · rw [dif_neg high, dif_neg high]
    by_cases stack : r = .sp
    · subst stack
      simp only [if_true, Option.map_some, Place.shared, if_neg high, true_or, sp_storeBank,
        Place.sharesBank_eq, Banks.get_set, beq_iff_eq]
    · by_cases link : r = .lr
      · subst link
        simp only [if_neg stack, if_true, Option.map_some, Place.shared, if_neg high, or_true,
          lr_storeBank, Place.sharesBank_eq, Banks.get_set, beq_iff_eq]
      · simp only [if_neg stack, if_neg link, Option.map_none]

/-! ### Views

Nothing that any mode sees is changed by a switch, and a write is seen by exactly the modes that share
its place.
-/

/-- **A switch changes nobody's view.** What was visible is kept for whoever shares it, and what becomes
visible is what was kept. -/
theorem seenBy_setCpsr (s : CpuState) (x : Word) (m : Mode) (p : Place) :
    (s.setCpsr x).seenBy m p = s.seenBy m p := by
  cases p with
  | saved =>
    show (s.storeBank s.mode).saved.get m.bank = s.banks.saved.get m.bank
    rw [saved_storeBank]
  | reg r =>
    have loaded : (s.setCpsr x).reg r =
        ((s.storeBank s.mode).kept (s.setCpsr x).mode r).getD (s.reg r) :=
      reg_loadBank { s with banks := s.storeBank s.mode, cpsr := x } (s.setCpsr x).mode r
    show (if (Place.reg r).shared (s.setCpsr x).mode m then (s.setCpsr x).reg r
      else ((s.storeBank s.mode).kept m r).getD ((s.setCpsr x).reg r)) =
        if (Place.reg r).shared s.mode m then s.reg r else (s.banks.kept m r).getD (s.reg r)
    by_cases same : (Place.reg r).shared (s.setCpsr x).mode m = true
    · rw [if_pos same, loaded, kept_storeBank, s.banks.kept_congr same, Place.shared_congr same]
      cases s.banks.kept m r with
      | none => simp
      | some old => simp
    · rw [if_neg same, kept_storeBank]
      cases kept : s.banks.kept m r with
      | none => exact absurd (Banks.shared_of_kept_eq_none kept _ _) same
      | some old => simp

/-- **A write changes the views of the modes that share the place,** and of no others. -/
theorem seenBy_writePlace (s : CpuState) (p q : Place) (x : Word) (m : Mode) :
    (s.writePlace p x).seenBy m q =
      if p = q ∧ q.shared s.mode m = true then x else s.seenBy m q := by
  cases p with
  | saved =>
    cases q with
    | saved =>
      show (s.banks.saved.set s.mode.bank x s.mode.bank.isLt).get m.bank = _
      simp only [Banks.get_set, Place.shared, Place.sharesBank_eq, beq_iff_eq, true_and, seenBy]
    | reg r =>
      rw [if_neg (by simp)]
      rfl
  | reg r =>
    cases q with
    | saved =>
      rw [if_neg (by simp)]
      rfl
    | reg r' =>
      show (if (Place.reg r').shared s.mode m then (s.setReg r x).reg r'
        else (s.banks.kept m r').getD ((s.setReg r x).reg r')) =
          if Place.reg r = Place.reg r' ∧ (Place.reg r').shared s.mode m = true then x
          else if (Place.reg r').shared s.mode m then s.reg r'
            else (s.banks.kept m r').getD (s.reg r')
      rw [reg_setReg]
      by_cases same : (Place.reg r').shared s.mode m = true
      · simp [same]
      · cases kept : s.banks.kept m r' with
        | none => exact absurd (Banks.shared_of_kept_eq_none kept _ _) same
        | some old => simp [same]

/-! ## The processor is the register files

By induction on the events, with the two facts about views as the steps.
-/

/-- A processor that shows every mode what the register files hold for it. -/
structure Shows (s : CpuState) (f : BankedFile) : Prop where
  mode : s.mode = f.mode
  seen : ∀ m p, s.seenBy m p = f.read m p

theorem shows_file (s : CpuState) : s.Shows s.file := ⟨rfl, fun _ _ => rfl⟩

/-- Each event does the same to both. -/
theorem Shows.happen {s : CpuState} {f : BankedFile} (h : s.Shows f) (event : BankEvent) :
    (s.happen event).Shows (f.happen event) := by
  cases event with
  | switch status => exact ⟨rfl, fun m p => (s.seenBy_setCpsr status m p).trans (h.seen m p)⟩
  | write p x =>
    have mode : (s.writePlace p x).mode = s.mode := by
      cases p with
      | reg r => rfl
      | saved => rfl
    refine ⟨mode.trans h.mode, fun m q => ?_⟩
    rw [BankedFile.read_write, ← h.mode, ← h.seen]
    exact s.seenBy_writePlace p q x m

theorem Shows.after (events : List BankEvent) :
    ∀ {s : CpuState} {f : BankedFile}, s.Shows f → (s.after events).Shows (f.after events) := by
  induction events with
  | nil => intro s f h; exact h
  | cons event rest ih => intro s f h; exact ih (h.happen event)

/-- **Banking behaves like one register file for each mode.** After any switches and writes, whatever
the current mode reads is the last value that was written there in a mode that shares the place, or
the initial one if there is none; and the next switch answers the mode that is active. -/
theorem reads_as_file (s : CpuState) (events : List BankEvent) :
    (∀ p, (s.after events).readPlace p =
      (s.file.after events).read (s.file.after events).mode p) ∧
        ∀ status, ((s.after events).exchangeCpsr status).1 = (s.file.after events).mode := by
  have shows := s.shows_file.after events
  refine ⟨fun p => ?_, fun status => shows.mode⟩
  rw [← seenBy_mode, shows.seen, shows.mode]

/-- Fiq mode has an r8 of its own; both copies are there again when their mode is. -/
example :
    let s := (CpuState.new .arm9).after
      [.write (.reg 8) 8, .switch 0x11, .write (.reg 8) 0x88, .switch 0xD3]
    s.readPlace (.reg 8) = 8 ∧ (s.happen (.switch 0x11)).readPlace (.reg 8) = 0x88 := by decide

end CpuState

end ArmBlocks
