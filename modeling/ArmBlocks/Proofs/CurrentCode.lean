import ArmBlocks.CodeCache.Compile
import ArmBlocks.Proofs.DecodedRun
import ArmBlocks.Proofs.Footprint
import ArmBlocks.Proofs.CacheShell

/-!
# A cache whose blocks are what the code says

Between two blocks a cache is judged by what the processor last saw: `seen` is the host when a block
was last started, and `told` are the addresses invalidated since. The cache is current
(`CodeCache.Current`) if every block in it was built from a run that `seen` still yields and that
none of `told` lies in. Which run that was is no part of the cache; `built` remembers it, by slot,
and `CodeCache.builtAfter` is how it changes.

The invariant needs the bookkeeping to be right as well (`CodeCache.Holds`): a block stands in the
slot of its first instruction, is filed with all its slots, and its header says where it starts.

**The header is what mirrors are told apart by,** so it must not be mistaken. Once 2³² bytes were handed
out another block may come to lie on top of it. Then what is found is the header of that other block,
and it names another slot, or else this block would have been replaced in its own. That is the clause
`header`; that the rest of the block is there as well is only claimed until then (`content`).
-/

set_option autoImplicit false

namespace ArmBlocks

open CodeCache (prepare)

variable {σ : Type}

/-! ## What preparing a run leaves alone

Preparing a run changes what some instructions compute, and neither where they stand nor how many they
are. So the coverage of a block can be computed from the run as it was decoded.
-/

namespace Liveness

/-- Taking dead flags from an instruction leaves it where it is. -/
theorem place_simplify (i : Instruction) (live : FlagSet) :
    (simplify i live).addr = i.addr ∧ (simplify i live).thumb = i.thumb := by
  unfold simplify
  split
  · split
    · exact ⟨rfl, rfl⟩
    · exact ⟨rfl, rfl⟩
  · exact ⟨rfl, rfl⟩

/-- Each simplified instruction comes from one of the run. -/
theorem exists_of_mem_optimize {run : List Instruction} {j : Instruction} (hj : j ∈ optimize run) :
    ∃ i ∈ run, ∃ live, j = simplify i live := by
  induction run with
  | nil => exact absurd hj List.not_mem_nil
  | cons i rest ih =>
    rcases List.mem_cons.mp hj with rfl | later
    · exact ⟨i, List.mem_cons_self, _, rfl⟩
    · obtain ⟨k, hk, comes⟩ := ih later
      exact ⟨k, List.mem_cons_of_mem i hk, comes⟩

theorem length_pass (run : List Instruction) : (pass run).2.length = run.length := by
  induction run with
  | nil => rfl
  | cons i rest ih => simp only [pass, List.length_cons, ih]

end Liveness

namespace CodeCache

theorem length_prepare (config : Config) (run : List Instruction) :
    (prepare config run).length = run.length := by
  unfold prepare
  split
  · exact Liveness.length_pass run
  · rfl

/-- Each instruction is one of the run, or comes from one. -/
theorem exists_of_mem_prepare {config : Config} {run : List Instruction} {j : Instruction}
    (hj : j ∈ prepare config run) : ∃ i ∈ run, j = i ∨ ∃ live, j = Liveness.simplify i live := by
  unfold prepare at hj
  split at hj
  · obtain ⟨i, hi, comes⟩ := Liveness.exists_of_mem_optimize hj
    exact ⟨i, hi, .inr comes⟩
  · exact ⟨j, hj, .inl rfl⟩

/-- The first instruction stays first and where it is. -/
theorem head?_prepare (config : Config) {run : List Instruction} (h : run ≠ []) :
    ∃ i first, run.head? = some i ∧ (prepare config run).head? = some first ∧
      first.addr = i.addr ∧ first.thumb = i.thumb := by
  cases run with
  | nil => exact absurd rfl h
  | cons i rest =>
    unfold prepare
    split
    · exact ⟨i, _, rfl, rfl, (Liveness.place_simplify i _).1, (Liveness.place_simplify i _).2⟩
    · exact ⟨i, i, rfl, rfl, rfl, rfl⟩

/-! ## The invariant

A cache is current where each of its blocks is. The block stands under a header of its own place and
is on file for all of its code; and its code is what the host yielded when it was last looked at, with
nothing in it reported since.
-/

/-- The slots a run covers, as they are filed. -/
def coverageOf (slot : Nat) (start : Word) (thumb : Bool) (run : List Instruction) : Coverage :=
  { firstSlot := slot, endSlot := slot + run.length * Decode.bytes thumb / 2, start }

/-- The block in a slot was built from a run, and the cache knows what it has to know of it. -/
structure Holds (c : CodeCache) (config : Config) (layout : SlotLayout) (slot : Nat) (ref : Ref)
    (start : Word) (thumb : Bool) (run : List Instruction) : Prop where
  place : layout.slot? start = some slot
  nonempty : run ≠ []
  straight : Decode.Straight thumb start run
  aligned : start.toNat % Decode.bytes thumb = 0
  filed : c.coverage.Filed (coverageOf slot start thumb run)
  header : ∀ h, Block.header? c.arena ref = some h → layout.slot? h.first = some slot →
    h.first = start ∧ h.thumb = thumb
  content : c.arena.used < 2 ^ 32 → ∃ h last, (prepare config run).getLast? = some last ∧
    Block.At c.arena ref h (Block.steps (prepare config run) last)

/-- The run is still what the host yields, as far as the host was seen, and nothing in it was
reported as changed since. -/
structure IsCode (bus : Bus σ) (cpu : Cpu) (seen : σ) (told : List Word) (start : Word)
    (thumb : Bool) (run : List Instruction) : Prop where
  code : ∀ i ∈ run, (Decode.fetch bus cpu thumb i.addr seen).1 = some i
  silent : ∀ j < run.length * Decode.bytes thumb, start + BitVec.ofNat 32 j ∉ told

/-- All blocks of the cache are what the code says. -/
structure Current (c : CodeCache) (bus : Bus σ) (config : Config) (cpu : Cpu)
    (layout : SlotLayout) (built : Nat → List Instruction) (seen : σ) (told : List Word) : Prop where
  ours : c.cpu = cpu
  accepted : SlotLayout.ofRegions c.regions = .ok layout
  laid : c.table.layout = layout
  anchored : c.coverage.Anchored layout
  blocks : ∀ slot ref generation, c.table.slots[slot]? = some (.compiled ref generation) →
    ∃ start thumb, c.Holds config layout slot ref start thumb (built slot) ∧
      IsCode bus cpu seen told start thumb (built slot)

variable {bus : Bus σ} {config : Config} {cpu : Cpu} {layout : SlotLayout}
  {built : Nat → List Instruction} {seen : σ} {told : List Word} {c : CodeCache}

/-- Where a block stands is a matter of the arena and the coverage. -/
theorem Holds.frame {slot : Nat} {ref : Ref} {start : Word} {thumb : Bool} {run : List Instruction}
    (h : c.Holds config layout slot ref start thumb run) {d : CodeCache} (arena : d.arena = c.arena)
    (coverage : d.coverage = c.coverage) : d.Holds config layout slot ref start thumb run where
  place := h.place
  nonempty := h.nonempty
  straight := h.straight
  aligned := h.aligned
  filed := by
    rw [coverage]
    exact h.filed
  header := by
    rw [arena]
    exact h.header
  content := by
    rw [arena]
    exact h.content

/-- A cache without blocks is current. -/
theorem current_of_no_blocks (ours : c.cpu = cpu)
    (accepted : SlotLayout.ofRegions c.regions = .ok layout) (laid : c.table.layout = layout)
    (slots : c.table.slots = ∅) (coverage : c.coverage = ∅) :
    c.Current bus config cpu layout built seen told where
  ours := ours
  accepted := accepted
  laid := laid
  anchored := by
    rw [coverage]
    exact CoverageMap.anchored_empty layout
  blocks slot ref generation h := by
    rw [slots] at h
    exact absurd h (by simp)

theorem Current.flush (h : c.Current bus config cpu layout built seen told) :
    c.flush.Current bus config cpu layout built seen told :=
  current_of_no_blocks h.ours h.accepted h.laid rfl rfl

theorem Current.reset (h : c.Current bus config cpu layout built seen told) :
    c.reset.Current bus config cpu layout built seen told :=
  current_of_no_blocks h.ours h.accepted h.laid rfl rfl

theorem Current.resized (h : c.Current bus config cpu layout built seen told) {size : Config}
    {grants : Nat → Bool} {fresh : CodeCache} (hr : c.resized size grants = .ok fresh) :
    fresh.Current bus config cpu layout built seen told := by
  obtain ⟨_, accepted, -, rfl⟩ := resized_eq_ok.mp hr
  obtain rfl := Except.ok.inj (h.accepted.symm.trans accepted)
  exact current_of_no_blocks h.ours h.accepted rfl rfl rfl

/-- Only what is done to a run before it is compiled matters of the configuration. -/
theorem Current.reconfigured (h : c.Current bus config cpu layout built seen told) {other : Config}
    (same : ∀ run, prepare other run = prepare config run) :
    c.Current bus other cpu layout built seen told where
  ours := h.ours
  accepted := h.accepted
  laid := h.laid
  anchored := h.anchored
  blocks slot ref generation hs := by
    obtain ⟨start, thumb, holds, code⟩ := h.blocks slot ref generation hs
    refine ⟨start, thumb, { holds with content := ?_ }, code⟩
    rw [same]
    exact holds.content

/-! ## Invalidation

The blocks that stay are those without a halfword among the reported ones, as every halfword of a
block is on file. A block that stands no longer is no concern of the invariant.
-/

/-- A slot that a run reaches into is covered. -/
theorem contains_coverageOf {layout : SlotLayout} {slot : Nat} {start : Word} {thumb : Bool}
    {run : List Instruction} (place : layout.slot? start = some slot)
    (straight : Decode.Straight thumb start run) (aligned : start.toNat % Decode.bytes thumb = 0)
    {j : Nat} (hj : j < run.length * Decode.bytes thumb) :
    ∃ hit, layout.slot? (start + BitVec.ofNat 32 j) = some hit ∧
      (coverageOf slot start thumb run).contains hit = true := by
  have page := straight.page
  have even : start.toNat % 2 = 0 ∧ run.length * Decode.bytes thumb % 2 = 0 := by
    rcases Decode.bytes_cases thumb with two | four
    · rw [two] at aligned ⊢
      omega
    · rw [four] at aligned ⊢
      omega
  have inside : start.toNat % Address.page + j < Address.page := by omega
  refine ⟨_, layout.slot?_add place even.1 inside, ?_⟩
  have below : slot + j / 2 < slot + run.length * Decode.bytes thumb / 2 := by
    have := even.2
    omega
  simp [Coverage.contains, coverageOf, below]

/-- A block that survives the drop of everything an address hits does not reach to that address, and
stays filed. -/
theorem Holds.survives {slot hit : Nat} {ref : Ref} {start addr : Word} {thumb : Bool}
    {run : List Instruction} (h : c.Holds config layout slot ref start thumb run)
    (anchored : c.coverage.Anchored layout) (here : layout.slot? addr = some hit)
    (apart : ∀ e ∈ c.coverage.hits hit, layout.slot? e.start ≠ some slot) :
    (((c.coverage.hits hit).foldl CoverageMap.drop c.coverage).Filed
        (coverageOf slot start thumb run)) ∧
      ∀ j < run.length * Decode.bytes thumb, start + BitVec.ofNat 32 j ≠ addr := by
  have other : ∀ e ∈ c.coverage.hits hit, (coverageOf slot start thumb run).firstSlot ≠ e.firstSlot := by
    intro e he same
    apply apart e he
    rw [anchored.of_mem_hits he, ← same]
    rfl
  refine ⟨h.filed.drops other, fun j hj eq => ?_⟩
  obtain ⟨slot', hslot', inside⟩ := contains_coverageOf h.place h.straight h.aligned hj
  rw [eq, here] at hslot'
  cases hslot'
  exact other _ (h.filed.mem_hits inside) rfl

/-- What such a drop leaves of a block is all of it. -/
theorem Holds.dropped {slot hit : Nat} {ref : Ref} {start addr : Word} {thumb : Bool}
    {run : List Instruction} (h : c.Holds config layout slot ref start thumb run)
    (anchored : c.coverage.Anchored layout) (here : layout.slot? addr = some hit)
    (apart : ∀ e ∈ c.coverage.hits hit, layout.slot? e.start ≠ some slot) {d : CodeCache}
    {starts : List Word} (dropped : Dropped (c.withoutHits hit) d starts) :
    d.Holds config layout slot ref start thumb run := by
  obtain ⟨filed, -⟩ := h.survives anchored here apart
  have left : (c.withoutHits hit).Holds config layout slot ref start thumb run := { h with filed }
  exact left.frame dropped.arena dropped.coverage

/-- After an invalidation no block is left that the address lies in. -/
theorem Current.invalidate (h : c.Current bus config cpu layout built seen told) (addr : Word) :
    (c.invalidate addr).1.Current bus config cpu layout built seen (addr :: told) := by
  cases here : layout.slot? addr with
  | none =>
    rw [invalidate_of_unmapped (by rw [h.laid]; exact here)]
    refine { h with blocks := fun slot ref generation hs => ?_ }
    obtain ⟨start, thumb, holds, code⟩ := h.blocks slot ref generation hs
    refine ⟨start, thumb, holds, code.code, fun j hj mem => ?_⟩
    rcases List.mem_cons.mp mem with eq | old
    · obtain ⟨hit, hhit, -⟩ := contains_coverageOf holds.place holds.straight holds.aligned hj
      rw [eq, here] at hhit
      cases hhit
    · exact code.silent j hj old
  | some hit =>
    have dropped := dropped_invalidate (c := c) (by rw [h.laid]; exact here)
    refine ⟨dropped.cpu.trans h.ours, ?_, dropped.layout.trans h.laid, ?_, fun slot ref generation hs => ?_⟩
    · rw [dropped.regions]
      exact h.accepted
    · rw [dropped.coverage]
      exact h.anchored.drops _
    · obtain ⟨old, apart⟩ := (dropped.slots slot _).mp hs
      obtain ⟨start, thumb, holds, code⟩ := h.blocks slot ref generation old
      have apart' : ∀ e ∈ c.coverage.hits hit, layout.slot? e.start ≠ some slot := by
        intro e he
        rw [← h.laid]
        exact apart e.start (List.mem_append_left _ (List.mem_map_of_mem he))
      obtain ⟨-, elsewhere⟩ := holds.survives h.anchored here apart'
      refine ⟨start, thumb, holds.dropped h.anchored here apart' dropped, code.code, fun j hj mem => ?_⟩
      rcases List.mem_cons.mp mem with eq | old
      · exact elsewhere j hj eq
      · exact code.silent j hj old

/-- The addresses of a range that are invalidated, the last one first, before those of `told`. -/
def halves (told : List Word) (addr : Word) : Nat → List Word
  | 0 => told
  | count + 1 => halves (addr :: told) (addr + 2) count

/-- Every halfword that is visited counts as told, so what was built over it is dropped. -/
theorem Current.invalidateMany (count : Nat) :
    ∀ {c : CodeCache} {notices : List Notice} {addr : Word} {told : List Word},
      c.Current bus config cpu layout built seen told →
        (c.invalidateMany notices addr count).1.Current bus config cpu layout built seen
          (halves told addr count) := by
  induction count with
  | zero => intro c notices addr told h; exact h
  | succ count ih => intro c notices addr told h; exact ih (h.invalidate addr)

/-! ## Seeing the host again

At an execution the host is looked at anew. What changed since the last time was reported, and a block
with none of it in its code has code that is still the same.
-/

/-- Every executable address at which something else is fetched than before was reported: that of
the instruction, or of any byte in it. -/
def Reported (bus : Bus σ) (cpu : Cpu) (layout : SlotLayout) (seen host : σ) (told : List Word) :
    Prop :=
  ∀ (thumb : Bool) (addr : Word), (layout.slot? addr).isSome → addr.toNat % Decode.bytes thumb = 0 →
    (Decode.fetch bus cpu thumb addr host).1 ≠ (Decode.fetch bus cpu thumb addr seen).1 →
      ∃ k < Decode.bytes thumb, addr + BitVec.ofNat 32 k ∈ told

/-- Where an instruction of a straight run stands. -/
theorem place_of_mem {start : Word} {thumb : Bool} {run : List Instruction} {i : Instruction}
    (straight : Decode.Straight thumb start run) (aligned : start.toNat % Decode.bytes thumb = 0)
    (hi : i ∈ run) :
    ∃ j, i.addr = start + BitVec.ofNat 32 j ∧ j + Decode.bytes thumb ≤ run.length * Decode.bytes thumb ∧
      i.addr.toNat % Decode.bytes thumb = 0 := by
  obtain ⟨k, hk, eq⟩ := List.getElem_of_mem hi
  obtain ⟨place, -⟩ := straight.places k i (List.getElem?_eq_some_iff.mpr ⟨hk, eq⟩)
  have fits : k * Decode.bytes thumb + Decode.bytes thumb ≤ run.length * Decode.bytes thumb := by
    rw [← Nat.succ_mul]
    exact Nat.mul_le_mul_right _ hk
  have page := straight.page
  have range := start.isLt
  have positive := Decode.bytes_pos thumb
  have value : i.addr.toNat = start.toNat + k * Decode.bytes thumb := by
    rw [place, BitVec.toNat_add, BitVec.toNat_ofNat]
    unfold Address.page at page
    omega
  refine ⟨_, place, fits, ?_⟩
  rw [value, Nat.add_mul_mod_self_right]
  exact aligned

/-- When all changes were reported, what is left is current for the host as it is now. -/
theorem Current.renew (h : c.Current bus config cpu layout built seen told) {host : σ}
    (reported : Reported bus cpu layout seen host told) :
    c.Current bus config cpu layout built host [] := by
  refine { h with blocks := fun slot ref generation hs => ?_ }
  obtain ⟨start, thumb, holds, code⟩ := h.blocks slot ref generation hs
  refine ⟨start, thumb, holds, fun i hi => ?_, fun _ _ => List.not_mem_nil⟩
  obtain ⟨j, place, fits, aligned⟩ := place_of_mem holds.straight holds.aligned hi
  have positive := Decode.bytes_pos thumb
  obtain ⟨hit, mapped, -⟩ :=
    contains_coverageOf holds.place holds.straight holds.aligned (j := j) (by omega)
  rw [← code.code i hi]
  -- a change would have been reported, and what was reported does not lie in the run
  refine Classical.byContradiction fun changed => ?_
  obtain ⟨k, hk, mem⟩ :=
    reported thumb i.addr (by rw [place, mapped]; rfl) aligned changed
  rw [place, BitVec.add_assoc, ← BitVec.ofNat_add] at mem
  exact code.silent (j + k) (by omega) mem

end CodeCache

end ArmBlocks
