import ArmBlocks.Proofs.MissingCode

/-!
# The longest run

What a run may be can be said without the decoder: instructions that stand one after the other in the
page of the first, each of them what the host yields at its address, no more than so many, and nothing
behind an instruction that surely leaves (`Decode.Admissible`). Many lists are admissible, the empty one
among them, and of two admissible lists one continues the other. **The decoder's run is the longest of
them** (`Decode.longest_run`): it is admissible, and all the others are beginnings of it.

So a run ends for no other reason than those the definition knows (`Decode.Complete`).

Nothing is asked of the host but that fetching leaves the code alone, since each address is fetched once
and what was fetched is judged against the host as it was before the first fetch.
-/

set_option autoImplicit false

namespace ArmBlocks

variable {σ : Type}

/-- Nothing that stands behind the instruction is executed after it: it is undefined, or it writes the
program counter whatever the flags are. -/
def Instruction.Leaves (i : Instruction) : Prop :=
  i.op = .undefined ∨ i.writesPc = true ∧ i.cond = .always

theorem Instruction.endsRun_iff (i : Instruction) : i.endsRun = true ↔ i.Leaves := by
  simp [endsRun, Leaves, isUnconditional]

namespace Decode

/-- The address behind so many instructions. -/
def behind (thumb : Bool) (start : Word) (count : Nat) : Word :=
  start + BitVec.ofNat 32 (count * bytes thumb)

theorem behind_zero (thumb : Bool) (start : Word) : behind thumb start 0 = start := by
  rw [behind, Nat.zero_mul]
  exact BitVec.add_zero start

theorem behind_behind (thumb : Bool) (start : Word) (count more : Nat) :
    behind thumb (behind thumb start count) more = behind thumb start (more + count) := by
  rw [behind, behind, behind, BitVec.add_assoc, ← BitVec.ofNat_add, Nat.add_mul, Nat.add_comm]

/-- A list of instructions that may be the run from an address. -/
structure Admissible (bus : Bus σ) (cpu : Cpu) (start : Word) (thumb : Bool) (limit : Nat) (host : σ)
    (run : List Instruction) : Prop where
  /-- The instructions stand one after the other, -/
  place : ∀ (k : Nat) (i : Instruction), run[k]? = some i → i.addr = behind thumb start k
  /-- each is what the host yields where it stands, -/
  code : ∀ i ∈ run, (fetch bus cpu thumb i.addr host).1 = some i
  /-- all are in one page, -/
  page : ∀ i ∈ run, i.addr.toNat / Address.page = start.toNat / Address.page
  /-- only the last one may leave, -/
  stays : ∀ (k : Nat) (i : Instruction), run[k]? = some i → i.Leaves → k + 1 = run.length
  /-- and there are not too many of them. -/
  short : run.length ≤ limit

/-- A run that has a reason to end where it does. -/
def Complete (bus : Bus σ) (cpu : Cpu) (start : Word) (thumb : Bool) (limit : Nat) (host : σ)
    (run : List Instruction) : Prop :=
  (∃ last, run.getLast? = some last ∧ last.Leaves) ∨ run.length = limit ∨
    run ≠ [] ∧ Address.startsPage (behind thumb start run.length) = true ∨
      (fetch bus cpu thumb (behind thumb start run.length) host).1 = none

variable {bus : Bus σ} {cpu : Cpu} {thumb : Bool}

theorem next_of_place {start : Word} {i : Instruction} (addr : i.addr = start) (set : i.thumb = thumb) :
    i.next = behind thumb start 1 := by
  rw [Instruction.next, Instruction.width, addr, set]
  cases thumb <;> rfl

/-! ## The run is admissible

By the recursion of the decoder: what it fetches first is first in the run, and what follows was
fetched behind it.
-/

/-- Every instruction is what was to be fetched before the first fetch. -/
theorem code_instructions (repeats : bus.RepeatsFetches) (limit : Nat) :
    ∀ (start : Word) (host : σ), ∀ i ∈ (instructions bus cpu thumb limit start host).1,
      (fetch bus cpu thumb i.addr host).1 = some i := by
  induction limit with
  | zero =>
    intro start host i hi
    exact absurd hi List.not_mem_nil
  | succ limit ih =>
    intro start host j hj
    have once := repeats host cpu cpu thumb thumb start j.addr
    rw [instructions] at hj
    rcases found : fetch bus cpu thumb start host with ⟨_ | i, seen⟩
    · rw [found] at hj
      exact absurd hj List.not_mem_nil
    -- the later ones were fetched from a host that had answered one fetch more
    · have own : (fetch bus cpu thumb i.addr host).1 = some i := by
        rw [(place_of_fetch (congrArg Prod.fst found)).1, found]
      rw [found] at hj once
      dsimp only at hj once
      split at hj
      · obtain rfl := List.mem_singleton.mp hj
        exact own
      · rcases List.mem_cons.mp hj with rfl | later
        · exact own
        · rw [← once]
          exact ih i.next seen j later

/-- Behind an instruction that leaves, nothing is decoded. -/
theorem stays_instructions (limit : Nat) :
    ∀ (start : Word) (host : σ) (k : Nat) (i : Instruction),
      (instructions bus cpu thumb limit start host).1[k]? = some i → i.Leaves →
        k + 1 = (instructions bus cpu thumb limit start host).1.length := by
  induction limit with
  | zero =>
    intro start host k i hi
    cases hi
  | succ limit ih =>
    intro start host k j hj leaves
    rw [instructions] at hj ⊢
    rcases found : fetch bus cpu thumb start host with ⟨_ | i, seen⟩
    · rw [found] at hj
      cases hj
    · rw [found] at hj
      dsimp only at hj ⊢
      split at hj
      · rename_i ends
        rw [if_pos ends]
        obtain ⟨inside, -⟩ := List.getElem?_eq_some_iff.mp hj
        simp only [List.length_singleton] at inside ⊢
        omega
      · rename_i goes
        rw [if_neg goes]
        -- a run that goes on does not have its last instruction in front
        cases k with
        | zero =>
          obtain rfl : i = j := by simpa using hj
          rw [(i.endsRun_iff).mpr leaves, Bool.true_or] at goes
          exact absurd rfl goes
        | succ k =>
          rw [List.getElem?_cons_succ] at hj
          rw [List.length_cons, ih i.next seen k j hj leaves]

/-- An instruction of a straight run stands in the page of the first. -/
theorem Straight.page_of_mem {start : Word} {run : List Instruction} (straight : Straight thumb start run)
    {i : Instruction} (hi : i ∈ run) : i.addr.toNat / Address.page = start.toNat / Address.page := by
  obtain ⟨k, inside, own⟩ := List.getElem_of_mem hi
  obtain ⟨place, -⟩ := straight.places k i (List.getElem?_eq_some_iff.mpr ⟨inside, own⟩)
  have fits : k * bytes thumb + bytes thumb ≤ run.length * bytes thumb := by
    rw [← Nat.succ_mul]
    exact Nat.mul_le_mul_right _ inside
  have page := straight.page
  have positive := bytes_pos thumb
  have range := start.isLt
  -- the page holds all of the run, so counting on from its start does not wrap
  have value : i.addr.toNat = start.toNat + k * bytes thumb := by
    rw [place, BitVec.toNat_add, BitVec.toNat_ofNat]
    unfold Address.page at page
    omega
  rw [value]
  unfold Address.page at page ⊢
  omega

/-- What is decoded is admissible. -/
theorem admissible_instructions (repeats : bus.RepeatsFetches) (limit : Nat) {start : Word}
    (aligned : start.toNat % bytes thumb = 0) (host : σ) :
    Admissible bus cpu start thumb limit host (instructions bus cpu thumb limit start host).1 where
  place k i hi := ((straight_instructions limit start host aligned).places k i hi).1
  code := code_instructions repeats limit start host
  page _ hi := (straight_instructions limit start host aligned).page_of_mem hi
  stays := stays_instructions limit start host
  short := length_instructions_le limit start host

/-! ## The run is complete

There are four reasons to stop, and each of them is handed down from the end of the run to its
beginning.
-/

/-- What is decoded ends where it has to: nothing more was asked for, the page ends, the last one leaves,
or what is behind it cannot be fetched. -/
theorem complete_instructions (repeats : bus.RepeatsFetches) (limit : Nat) :
    ∀ (start : Word) (host : σ),
      Complete bus cpu start thumb limit host (instructions bus cpu thumb limit start host).1 := by
  induction limit with
  | zero =>
    intro start host
    exact .inr (.inl rfl)
  | succ limit ih =>
    intro start host
    rw [instructions]
    rcases found : fetch bus cpu thumb start host with ⟨_ | i, seen⟩
    · refine .inr (.inr (.inr ?_))
      rw [List.length_nil, behind_zero, found]
    · obtain ⟨addr, set⟩ := place_of_fetch (congrArg Prod.fst found)
      have next := next_of_place addr set
      dsimp only
      split
      · rename_i ends
        rcases Bool.or_eq_true_iff.mp ends with leaves | starts
        · exact .inl ⟨i, rfl, (i.endsRun_iff).mp leaves⟩
        · refine .inr (.inr (.inl ⟨List.cons_ne_nil i [], ?_⟩))
          rw [List.length_singleton, ← next]
          exact starts
      · -- the reason why the rest ends is the reason why the run does
        have further := behind_behind thumb start 1
          (instructions bus cpu thumb limit i.next seen).1.length
        rw [← next] at further
        rcases ih i.next seen with ⟨last, hlast, leaves⟩ | full | ⟨some, starts⟩ | missing
        · refine .inl ⟨last, ?_, leaves⟩
          rw [List.getLast?_cons, hlast]
          rfl
        · refine .inr (.inl ?_)
          rw [List.length_cons, full]
        · refine .inr (.inr (.inl ⟨List.cons_ne_nil _ _, ?_⟩))
          rw [List.length_cons, ← further]
          exact starts
        · refine .inr (.inr (.inr ?_))
          have once := repeats host cpu cpu thumb thumb start
            (behind thumb i.next (instructions bus cpu thumb limit i.next seen).1.length)
          rw [found] at once
          rw [List.length_cons, ← further, ← once]
          exact missing

/-! ## Nothing admissible is longer

Two runs from one address agree as far as both go, since instructions are decoded from what is
fetched. Where the decoder stops, nothing admissible goes on.
-/

/-- What follows the first instruction of an admissible list is admissible behind it. -/
theorem Admissible.tail {start : Word} {limit : Nat} {host : σ} {i : Instruction}
    {rest : List Instruction} (h : Admissible bus cpu start thumb (limit + 1) host (i :: rest))
    (next : (behind thumb start 1).toNat / Address.page = start.toNat / Address.page) :
    Admissible bus cpu (behind thumb start 1) thumb limit host rest where
  place k j hj := by
    rw [behind_behind]
    exact h.place (k + 1) j hj
  code j hj := h.code j (List.mem_cons_of_mem i hj)
  page j hj := (h.page j (List.mem_cons_of_mem i hj)).trans next.symm
  stays k j hj leaves := by
    have last := h.stays (k + 1) j hj leaves
    rw [List.length_cons] at last
    omega
  short := Nat.le_of_succ_le_succ h.short

/-- Only the code matters to what is admissible. -/
theorem Admissible.of_fetches {start : Word} {limit : Nat} {host seen : σ} {run : List Instruction}
    (h : Admissible bus cpu start thumb limit host run)
    (same : ∀ addr, (fetch bus cpu thumb addr seen).1 = (fetch bus cpu thumb addr host).1) :
    Admissible bus cpu start thumb limit seen run :=
  { h with code := fun i hi => (same i.addr).trans (h.code i hi) }

theorem toNat_behind_one (thumb : Bool) (start : Word) :
    (behind thumb start 1).toNat = (start.toNat + bytes thumb) % 2 ^ 32 := by
  rw [behind, Nat.one_mul, BitVec.toNat_add, BitVec.toNat_ofNat]
  omega

/-- The next instruction is in another page exactly when it starts one. -/
theorem page_behind_one {start : Word} (aligned : start.toNat % bytes thumb = 0) :
    (behind thumb start 1).toNat / Address.page ≠ start.toNat / Address.page ↔
      Address.startsPage (behind thumb start 1) = true := by
  have value := toNat_behind_one thumb start
  have range := start.isLt
  simp only [Address.startsPage, beq_iff_eq]
  unfold Address.page
  -- a page is many instructions long, and no instruction lies across its end
  rcases bytes_cases thumb with two | four
  · rw [two] at value aligned
    omega
  · rw [four] at value aligned
    omega

/-- Whatever else is admissible is the beginning of what is decoded. The induction is on the limit, and
goes with both runs from one instruction to the next. -/
theorem prefix_instructions (repeats : bus.RepeatsFetches) (limit : Nat) :
    ∀ (start : Word) (host : σ) (other : List Instruction), start.toNat % bytes thumb = 0 →
      Admissible bus cpu start thumb limit host other →
        other <+: (instructions bus cpu thumb limit start host).1 := by
  induction limit with
  | zero =>
    intro start host other _ h
    rw [List.eq_nil_of_length_eq_zero (Nat.le_zero.mp h.short)]
    exact List.nil_prefix
  | succ limit ih =>
    intro start host other aligned h
    cases other with
    | nil => exact List.nil_prefix
    | cons j rest =>
      have here : j.addr = start := (h.place 0 j rfl).trans (behind_zero thumb start)
      have code := h.code j List.mem_cons_self
      rw [here] at code
      rw [instructions]
      rcases found : fetch bus cpu thumb start host with ⟨i?, seen⟩
      rw [found] at code
      obtain rfl : i? = some j := code
      obtain ⟨addr, set⟩ := place_of_fetch (congrArg Prod.fst found)
      have next := next_of_place addr set
      dsimp only
      split
      · -- nothing can follow here, in the other list neither
        rename_i ends
        have single : rest = [] := by
          rcases Bool.or_eq_true_iff.mp ends with leaves | starts
          · have last := h.stays 0 j rfl ((j.endsRun_iff).mp leaves)
            rw [List.length_cons] at last
            exact List.eq_nil_of_length_eq_zero (by omega)
          · cases rest with
            | nil => rfl
            | cons k more =>
              rw [next] at starts
              have second := h.page k (List.mem_cons_of_mem j List.mem_cons_self)
              rw [h.place 1 k rfl] at second
              exact absurd second ((page_behind_one aligned).mpr starts)
        obtain rfl := single
        exact List.prefix_rfl
      · rename_i goes
        rw [Bool.or_eq_true, not_or, Bool.not_eq_true, Bool.not_eq_true] at goes
        obtain ⟨-, -, aligned', -⟩ := next_in_page addr set aligned goes.2
        rw [next] at aligned' goes ⊢
        have same : (behind thumb start 1).toNat / Address.page = start.toNat / Address.page := by
          by_contra other
          exact Bool.eq_false_iff.mp goes.2 ((page_behind_one aligned).mp other)
        -- what is left of the other list is admissible behind the first instruction, after its fetch
        refine (List.prefix_cons_inj j).mpr (ih _ seen rest aligned' ?_)
        refine (h.tail same).of_fetches fun place => ?_
        have once := repeats host cpu cpu thumb thumb start place
        rw [found] at once
        exact once

/-- From an aligned address and for a limit of one to as many as a block can hold, the decoder yields an
admissible run that has a reason to end, of which every admissible run is a beginning. There is no
instruction in it when there is none at the start. -/
theorem longest_run (repeats : bus.RepeatsFetches) {start : Word} (aligned : start.toNat % bytes thumb = 0)
    {limit : Nat} (some : 1 ≤ limit) (most : limit ≤ Config.maxBlock) (host : σ) :
    Admissible bus cpu start thumb limit host (run bus cpu start thumb limit host).1 ∧
      Complete bus cpu start thumb limit host (run bus cpu start thumb limit host).1 ∧
      (∀ other, Admissible bus cpu start thumb limit host other →
        other <+: (run bus cpu start thumb limit host).1) ∧
      ((run bus cpu start thumb limit host).1 = [] ↔ (fetch bus cpu thumb start host).1 = none) := by
  -- the limit is below the largest block, so that the run is not cut off a second time
  have whole : run bus cpu start thumb limit host = instructions bus cpu thumb limit start host := by
    rw [run, Nat.min_eq_left most]
  rw [whole]
  refine ⟨admissible_instructions repeats limit aligned host,
    complete_instructions repeats limit start host, ?_, ?_⟩
  · intro other h
    exact prefix_instructions repeats limit start host other aligned h
  · obtain ⟨limit, rfl⟩ := Nat.exists_eq_succ_of_ne_zero (Nat.ne_of_gt some)
    rw [instructions]
    rcases fetch bus cpu thumb start host with ⟨_ | i, seen⟩
    · exact ⟨fun _ => rfl, fun _ => rfl⟩
    · dsimp only
      split
      · exact ⟨fun h => absurd h (List.cons_ne_nil i []), fun h => absurd h (Option.some_ne_none i)⟩
      · exact ⟨fun h => absurd h (List.cons_ne_nil i _), fun h => absurd h (Option.some_ne_none i)⟩

/-- A word that is a move wherever it is read: from two words before a page, the run is two moves. -/
theorem longest_run_of_moves :
    let bus := Bus.ofMemory (fun _ _ _ _ => (some 0xE3A00001, ())) (fun _ _ _ _ _ => (false, ()))
      fun _ _ _ _ _ => ((1 : Wait), ())
    let moves := [Arm.decode .arm9 0x3FF8 0xE3A00001, Arm.decode .arm9 0x3FFC 0xE3A00001]
    (run bus .arm9 0x3FF8 false 256 ()).1 = moves ∧
      Complete bus .arm9 0x3FF8 false 256 () moves ∧
      ∀ other, Admissible bus .arm9 0x3FF8 false 256 () other → other <+: moves := by
  intro bus moves
  have repeats : bus.RepeatsFetches := Bus.repeatsFetches_of_still fun _ _ _ _ => rfl
  have found : (run bus .arm9 0x3FF8 false 256 ()).1 = moves := by decide +kernel
  have complete : Complete bus .arm9 0x3FF8 false 256 () (run bus .arm9 0x3FF8 false 256 ()).1 :=
    (longest_run repeats (by decide) (by decide) (by decide) ()).2.1
  have longest : ∀ other, Admissible bus .arm9 0x3FF8 false 256 () other →
      other <+: (run bus .arm9 0x3FF8 false 256 ()).1 :=
    (longest_run repeats (by decide) (by decide) (by decide) ()).2.2.1
  rw [found] at complete longest
  exact ⟨found, complete, longest⟩

end Decode

end ArmBlocks
