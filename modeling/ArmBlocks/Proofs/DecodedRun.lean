import Mathlib.Algebra.GroupWithZero.Nat
import ArmBlocks.Decode.Run
import ArmBlocks.Proofs.Coverage

/-!
# The runs the decoder makes

A block is compiled from a run, and two things about the run are needed to keep the block honest.
Its instructions stand one after the other in one page (`Decode.Straight`), so that its code is an
interval of slots. And each of them is what the host yields at its address when decoding is done
(`Decode.fetched_instructions`).

The second is a promise of the host as well. Fetching goes through the bus, and a host could change
its code under the decoder's hands; that it does not is `Bus.FetchesQuietly`. It is only asked for
executable memory: a fetch from a device register may do what it likes.
-/

set_option autoImplicit false

namespace ArmBlocks

variable {σ : Type}

/-- Fetching from executable memory does not change what can be fetched from it. -/
def Bus.FetchesQuietly (bus : Bus σ) (cpu : Cpu) (layout : SlotLayout) : Prop :=
  ∀ (host : σ) (thumb thumb' : Bool) (addr addr' : Word),
    (layout.slot? addr).isSome → (layout.slot? addr').isSome →
      (Decode.fetch bus cpu thumb' addr' (Decode.fetch bus cpu thumb addr host).2).1 =
        (Decode.fetch bus cpu thumb' addr' host).1

namespace Decode

/-- Bytes in an instruction of an instruction set. -/
def bytes (thumb : Bool) : Nat := if thumb then 2 else 4

theorem bytes_cases (thumb : Bool) : bytes thumb = 2 ∨ bytes thumb = 4 := by
  cases thumb
  · exact .inr rfl
  · exact .inl rfl

theorem bytes_pos (thumb : Bool) : 0 < bytes thumb := by
  cases thumb <;> decide

/-- Instructions of one set that stand one after the other, in the page of the first. -/
structure Straight (thumb : Bool) (start : Word) (run : List Instruction) : Prop where
  places : ∀ (k : Nat) (i : Instruction), run[k]? = some i →
    i.addr = start + BitVec.ofNat 32 (k * bytes thumb) ∧ i.thumb = thumb
  page : start.toNat % Address.page + run.length * bytes thumb ≤ Address.page

/-- What is fetched knows where it stands. -/
theorem place_of_fetch {bus : Bus σ} {cpu : Cpu} {thumb : Bool} {addr : Word} {host : σ}
    {i : Instruction} (h : (fetch bus cpu thumb addr host).1 = some i) :
    i.addr = addr ∧ i.thumb = thumb := by
  unfold fetch at h
  cases thumb with
  | true =>
    simp only [if_true, Option.map_eq_some_iff] at h
    obtain ⟨raw, -, rfl⟩ := h
    exact ⟨rfl, rfl⟩
  | false =>
    simp only [Bool.false_eq_true, if_false, Option.map_eq_some_iff] at h
    obtain ⟨raw, -, rfl⟩ := h
    unfold Arm.decode
    split
    · exact ⟨rfl, rfl⟩
    · exact ⟨rfl, rfl⟩

section

variable {bus : Bus σ} {cpu : Cpu} {thumb : Bool}

/-- Every instruction of a decoded run was fetched. -/
theorem exists_fetch_of_mem (limit : Nat) {i : Instruction} : ∀ (start : Word) (host : σ),
    i ∈ (instructions bus cpu thumb limit start host).1 →
      ∃ addr seen, (fetch bus cpu thumb addr seen).1 = some i := by
  induction limit with
  | zero => exact fun _ _ hi => absurd hi List.not_mem_nil
  | succ limit ih =>
    intro start host hi
    rw [instructions] at hi
    rcases found : fetch bus cpu thumb start host with ⟨_ | j, host'⟩
    · rw [found] at hi
      exact absurd hi List.not_mem_nil
    · have first : (fetch bus cpu thumb start host).1 = some j := congrArg Prod.fst found
      rw [found] at hi
      dsimp only at hi
      split at hi
      · obtain rfl := List.mem_singleton.mp hi
        exact ⟨start, host, first⟩
      · rcases List.mem_cons.mp hi with rfl | later
        · exact ⟨start, host, first⟩
        · exact ih j.next host' later

/-- No more instructions are decoded than were asked for. -/
theorem length_instructions_le (limit : Nat) :
    ∀ (start : Word) (host : σ), (instructions bus cpu thumb limit start host).1.length ≤ limit := by
  induction limit with
  | zero => intro start host; exact Nat.le_refl 0
  | succ limit ih =>
    intro start host
    rw [instructions]
    split
    · exact Nat.zero_le _
    · split
      · exact Nat.succ_le_succ (Nat.zero_le _)
      · exact Nat.succ_le_succ (ih _ _)

/-- The instruction after one that does not end its run stands in the same page. -/
theorem next_in_page {start : Word} {i : Instruction} (addr : i.addr = start) (set : i.thumb = thumb)
    (aligned : start.toNat % bytes thumb = 0) (goes : Address.startsPage i.next = false) :
    i.next = start + BitVec.ofNat 32 (bytes thumb) ∧
      i.next.toNat % Address.page = start.toNat % Address.page + bytes thumb ∧
      i.next.toNat % bytes thumb = 0 ∧
      start.toNat % Address.page + bytes thumb < Address.page := by
  have next : i.next = start + BitVec.ofNat 32 (bytes thumb) := by
    rw [Instruction.next, Instruction.width, addr, set]
    cases thumb <;> rfl
  have value : i.next.toNat = (start.toNat + bytes thumb) % 2 ^ 32 := by
    rw [next, BitVec.toNat_add, BitVec.toNat_ofNat]
    omega
  have apart : i.next.toNat % Address.page ≠ 0 := by
    simpa [Address.startsPage] using goes
  have range := start.isLt
  refine ⟨next, ?_⟩
  unfold Address.page at apart ⊢
  rcases bytes_cases thumb with two | four
  · rw [two] at value aligned ⊢
    omega
  · rw [four] at value aligned ⊢
    omega

theorem Straight.nil {start : Word} : Straight thumb start [] where
  places k i h := by simp at h
  page := by
    have := Nat.mod_lt start.toNat (show 0 < Address.page by decide)
    simp only [List.length_nil]
    omega

/-- What is decoded runs straight on, to the one that leaves, or to the end of the page. -/
theorem straight_instructions (limit : Nat) :
    ∀ (start : Word) (host : σ), start.toNat % bytes thumb = 0 →
      Straight thumb start (instructions bus cpu thumb limit start host).1 := by
  induction limit with
  | zero => intro start host _; exact .nil
  | succ limit ih =>
    intro start host aligned
    rw [instructions]
    rcases found : fetch bus cpu thumb start host with ⟨_ | i, host'⟩
    · exact .nil
    -- what was fetched stands where it was fetched from
    · obtain ⟨addr, set⟩ := place_of_fetch (congrArg Prod.fst found)
      dsimp only
      split
      · refine ⟨fun k j hj => ?_, ?_⟩
        · obtain ⟨rfl, rfl⟩ : k = 0 ∧ i = j := by
            cases k with
            | zero => exact ⟨rfl, by simpa using hj⟩
            | succ k => simp at hj
          exact ⟨by simpa using addr, set⟩
        · -- an aligned instruction never reaches into the next page
          simp only [List.length_singleton, Address.page]
          rcases bytes_cases thumb with two | four
          · rw [two] at aligned ⊢
            omega
          · rw [four] at aligned ⊢
            omega
      · rename_i goes
        rw [Bool.or_eq_true, not_or, Bool.not_eq_true, Bool.not_eq_true] at goes
        obtain ⟨next, page, aligned', inside⟩ := next_in_page addr set aligned goes.2
        have rest := ih i.next host' aligned'
        refine ⟨fun k j hj => ?_, ?_⟩
        · cases k with
          | zero =>
            obtain rfl : i = j := by simpa using hj
            exact ⟨by simpa using addr, set⟩
          | succ k =>
            obtain ⟨place, set'⟩ := rest.places k j (by simpa using hj)
            refine ⟨?_, set'⟩
            rw [place, next, BitVec.add_assoc, ← BitVec.ofNat_add, Nat.succ_mul, Nat.add_comm]
        · have fits := rest.page
          rw [page] at fits
          simp only [List.length_cons, Nat.succ_mul]
          omega

variable {layout : SlotLayout}

/-- An address that is executable makes the rest of its page executable. -/
theorem mapped_next {start : Word} {i : Instruction} (addr : i.addr = start) (set : i.thumb = thumb)
    (aligned : start.toNat % bytes thumb = 0) (goes : Address.startsPage i.next = false)
    (mapped : (layout.slot? start).isSome) : (layout.slot? i.next).isSome := by
  obtain ⟨slot, hslot⟩ := Option.isSome_iff_exists.mp mapped
  obtain ⟨next, -, -, inside⟩ := next_in_page addr set aligned goes
  have even : start.toNat % 2 = 0 := by
    rcases bytes_cases thumb with two | four
    · rwa [two] at aligned
    · rw [four] at aligned
      omega
  rw [next, layout.slot?_add hslot even inside]
  rfl

variable (quiet : bus.FetchesQuietly cpu layout)

include quiet

/-- Decoding changes nothing that can be fetched from executable memory. -/
theorem quiet_instructions (limit : Nat) :
    ∀ (start : Word) (host : σ), start.toNat % bytes thumb = 0 → (layout.slot? start).isSome →
      ∀ (thumb' : Bool) (addr : Word), (layout.slot? addr).isSome →
        (fetch bus cpu thumb' addr (instructions bus cpu thumb limit start host).2).1 =
          (fetch bus cpu thumb' addr host).1 := by
  induction limit with
  | zero => intro start host _ _ thumb' addr _; rfl
  | succ limit ih =>
    intro start host aligned mapped thumb' addr mapped'
    have one := quiet host thumb thumb' start addr mapped mapped'
    rw [instructions]
    rcases found : fetch bus cpu thumb start host with ⟨_ | i, host'⟩
    · rw [found] at one
      exact one
    · rw [found] at one
      obtain ⟨place, set⟩ := place_of_fetch (congrArg Prod.fst found)
      dsimp only
      split
      · exact one
      · rename_i goes
        rw [Bool.or_eq_true, not_or, Bool.not_eq_true, Bool.not_eq_true] at goes
        -- a run that goes on stays in its page, and so in the region that it began in
        have aligned' := (next_in_page place set aligned goes.2).2.2.1
        have rest := ih i.next host' aligned' (mapped_next place set aligned goes.2 mapped)
        exact (rest thumb' addr mapped').trans one

/-- Every instruction of a decoded run is what is fetched at its address when decoding is done. -/
theorem fetched_instructions (limit : Nat) :
    ∀ (start : Word) (host : σ), start.toNat % bytes thumb = 0 → (layout.slot? start).isSome →
      ∀ i ∈ (instructions bus cpu thumb limit start host).1,
        (fetch bus cpu thumb i.addr (instructions bus cpu thumb limit start host).2).1 = some i := by
  induction limit with
  | zero => intro start host _ _ i hi; exact absurd hi (by simp [instructions])
  | succ limit ih =>
    intro start host aligned mapped j hj
    have still := quiet_instructions quiet (limit + 1) start host aligned mapped thumb start mapped
    rw [instructions] at hj still ⊢
    rcases found : fetch bus cpu thumb start host with ⟨_ | i, host'⟩
    · rw [found] at hj
      exact absurd hj (by simp)
    · obtain ⟨place, set⟩ := place_of_fetch (congrArg Prod.fst found)
      rw [found] at hj still
      dsimp only at hj still ⊢
      split at hj
      · rename_i ends
        rw [if_pos ends] at still ⊢
        obtain rfl := List.mem_singleton.mp hj
        rw [place]
        exact still
      · rename_i goes
        rw [if_neg goes] at still ⊢
        rcases List.mem_cons.mp hj with rfl | hj
        · rw [place]
          exact still
        · rw [Bool.or_eq_true, not_or, Bool.not_eq_true, Bool.not_eq_true] at goes
          have aligned' := (next_in_page place set aligned goes.2).2.2.1
          exact ih i.next host' aligned' (mapped_next place set aligned goes.2 mapped) j hj

end

end Decode

end ArmBlocks
