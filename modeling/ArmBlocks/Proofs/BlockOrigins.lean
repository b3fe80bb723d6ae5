import ArmBlocks.Proofs.CompiledCode
import ArmBlocks.Proofs.Generations
import ArmBlocks.Proofs.TidyArena

/-!
# What the blocks of a cache were emitted from

A cache forgets what it compiled a block from. Its `Past` remembers: for each slot, the `Origin`s of
the blocks that were put there since the slot was last cleared by an invalidation or a flush, the
latest first. The past is never looked at by the cache; `Past.compile` and `Past.invalidate` keep it
beside the operations.

`CodeCache.Recorded` is what ties the two together, and every operation keeps it.

* **The latest origin of a slot is that of its block.** The block stands where it was emitted, and
  in an arena of at most 2³² bytes all that was there when it was emitted still is.
* **The coverage is that of the past, and of nothing else.** In particular an origin stays on file
  when another block takes the slot over, as those of mirrors, aliases and the other instruction set
  do. Only an invalidation that reaches one of the origins of a slot takes them, and then it takes
  them all: they start in the same slot, so where one is filed the longer ones are filed, too.
-/

set_option autoImplicit false

namespace ArmBlocks

open CodeCache (prepare coverageOf Dropped)

variable {σ : Type}

/-- What a block was emitted from. -/
structure Origin where
  config : Config
  /-- The address it was compiled for. -/
  start : Word
  thumb : Bool
  /-- The run as it was decoded. -/
  run : List Instruction
  /-- The arena it was emitted into. -/
  room : Arena Record

namespace Origin

/-- Where the block was emitted to, and the arena as that left it. -/
def emission (o : Origin) : Option Ref × Arena Record := Block.emit (prepare o.config o.run) o.room

theorem capacity_emission (o : Origin) : o.emission.2.capacity = o.room.capacity :=
  Block.capacity_emit _ _

/-- The bytes of guest code. -/
def length (o : Origin) : Nat := o.run.length * Decode.bytes o.thumb

/-- An address lies in a halfword of the guest code, or in a mirror of one. -/
def Covers (o : Origin) (layout : SlotLayout) (addr : Word) : Prop :=
  ∃ j < o.length, (layout.slot? addr).isSome ∧
    layout.slot? (o.start + BitVec.ofNat 32 j) = layout.slot? addr

instance (o : Origin) (layout : SlotLayout) (addr : Word) : Decidable (o.Covers layout addr) :=
  inferInstanceAs (Decidable (∃ j, j < o.length ∧ (layout.slot? addr).isSome ∧
    layout.slot? (o.start + BitVec.ofNat 32 j) = layout.slot? addr))

/-- What is filed for the block in a slot. -/
def coverage (o : Origin) (slot : Nat) : Coverage := coverageOf slot o.start o.thumb o.run

/-- A block of this origin may be put into a slot. -/
structure BelongsTo (o : Origin) (layout : SlotLayout) (slot : Nat) : Prop where
  place : layout.slot? o.start = some slot
  nonempty : o.run ≠ []
  straight : Decode.Straight o.thumb o.start o.run
  aligned : o.start.toNat % Decode.bytes o.thumb = 0
  short : o.run.length ≤ Config.maxBlock

variable {o : Origin} {layout : SlotLayout} {slot : Nat}

theorem not_covers_of_unmapped {addr : Word} (unmapped : layout.slot? addr = none) :
    ¬o.Covers layout addr := by
  rintro ⟨j, -, mapped, -⟩
  rw [unmapped] at mapped
  cases mapped

theorem BelongsTo.length_pos (h : o.BelongsTo layout slot) : 0 < o.length :=
  Nat.mul_pos (List.length_pos_iff.mpr h.nonempty) (Decode.bytes_pos o.thumb)

theorem BelongsTo.covers_start (h : o.BelongsTo layout slot) {addr : Word}
    (here : layout.slot? addr = some slot) : o.Covers layout addr := by
  refine ⟨0, h.length_pos, by rw [here]; rfl, ?_⟩
  rw [here, ← h.place]
  simp

/-- What is compiled of it starts where it should. -/
theorem BelongsTo.head?_prepare (h : o.BelongsTo layout slot) :
    ∃ first, (prepare o.config o.run).head? = some first ∧ first.addr = o.start ∧
      first.thumb = o.thumb := by
  obtain ⟨i, first, hi, hfirst, haddr, hthumb⟩ := CodeCache.head?_prepare o.config h.nonempty
  obtain ⟨place, set⟩ := h.straight.places 0 i (by rw [← List.head?_eq_getElem?]; exact hi)
  refine ⟨first, hfirst, ?_, hthumb.trans set⟩
  rw [haddr, place]
  simp

theorem BelongsTo.length_prepare_le (h : o.BelongsTo layout slot) :
    (prepare o.config o.run).length ≤ Config.maxBlock := by
  rw [CodeCache.length_prepare]
  exact h.short

/-- What an origin covers are the slots that are filed for it. -/
theorem BelongsTo.covers_iff (h : o.BelongsTo layout slot) {addr : Word} {hit : Nat}
    (here : layout.slot? addr = some hit) :
    o.Covers layout addr ↔ (o.coverage slot).contains hit = true := by
  constructor
  · rintro ⟨j, hj, -, same⟩
    obtain ⟨found, hfound, inside⟩ :=
      CodeCache.contains_coverageOf h.place h.straight h.aligned hj
    rw [same, here] at hfound
    cases hfound
    exact inside
  · intro inside
    obtain ⟨low, high⟩ : slot ≤ hit ∧ hit < slot + o.run.length * Decode.bytes o.thumb / 2 :=
      Coverage.contains_iff.mp inside
    have page := h.straight.page
    have even : o.start.toNat % 2 = 0 := by
      have aligned := h.aligned
      rcases Decode.bytes_cases o.thumb with two | four
      · rwa [two] at aligned
      · rw [four] at aligned
        omega
    -- the slot that was hit lies at twice its distance from the first slot of the block
    have short : 2 * (hit - slot) < o.length := by
      unfold length
      omega
    refine ⟨2 * (hit - slot), short, by rw [here]; rfl, ?_⟩
    rw [layout.slot?_add h.place even (by unfold length at short; omega), here]
    congr 1
    omega

end Origin

/-- By slot, what the blocks were emitted from that were put there since it was last cleared, the
latest first. -/
abbrev Past := Nat → List Origin

namespace Past

/-- No block was ever put anywhere. -/
def none : Past := fun _ => []

/-- One more block was put into a slot. -/
def put (past : Past) (slot : Nat) (o : Origin) : Past :=
  fun other => if other = slot then o :: past other else past other

/-- The past after something was done with a cache: none, if the cache was flushed. -/
def unlessFlushed (past : Past) (before after : CodeCache) : Past :=
  if after.resets = before.resets then past else none

/-- The block at the next instruction of `s` was compiled. -/
def compile (past : Past) (c : CodeCache) (bus : Bus σ) (config : Config) (s : CpuState) (host : σ) :
    Past :=
  let after := c.compile bus config s host
  match after.outcome, c.table.slot? s.next with
  | .ok (.compiled ..), some slot =>
    (past.unlessFlushed c after.cache).put slot
      { config, start := s.next, thumb := s.thumb, run := c.decoded bus config s host
        room := (c.makeRoom config).1.arena }
  | _, _ => past.unlessFlushed c after.cache

/-- An address was invalidated: the slots are cleared of which some origin covers it. -/
def invalidate (past : Past) (layout : SlotLayout) (addr : Word) : Past :=
  fun slot => if ∃ o ∈ past slot, o.Covers layout addr then [] else past slot

/-- What is left on file after addresses at steps of a halfword were invalidated. -/
def invalidateMany (past : Past) (layout : SlotLayout) (addr : Word) : Nat → Past
  | 0 => past
  | count + 1 => (past.invalidate layout addr).invalidateMany layout (addr + 2) count

/-- Putting a block into a slot adds its origin to those of the slot, and to no others. -/
theorem mem_put {past : Past} {slot other : Nat} {o o' : Origin} :
    o' ∈ past.put slot o other ↔ o' ∈ past other ∨ other = slot ∧ o' = o := by
  unfold put
  split
  · rename_i same
    rw [List.mem_cons, or_comm, and_iff_right same]
  · rename_i apart
    exact ⟨.inl, fun h => h.resolve_right fun here => apart here.1⟩

theorem invalidate_of_uncovered {past : Past} {layout : SlotLayout} {addr : Word} {slot : Nat}
    (apart : ∀ o ∈ past slot, ¬o.Covers layout addr) : past.invalidate layout addr slot = past slot :=
  if_neg fun covered => covered.elim fun o ho => apart o ho.1 ho.2

/-- An invalidated address takes from a slot everything or nothing: if anything that was ever put there
covers it, all of that is forgotten. -/
theorem mem_invalidate {past : Past} {layout : SlotLayout} {addr : Word} {slot : Nat} {o : Origin} :
    o ∈ past.invalidate layout addr slot ↔
      o ∈ past slot ∧ ∀ other ∈ past slot, ¬other.Covers layout addr := by
  unfold invalidate
  split
  · rename_i covered
    obtain ⟨other, hother, covers⟩ := covered
    constructor
    · intro h
      cases h
    · intro h
      exact absurd covers (h.2 other hother)
  · rename_i uncovered
    exact ⟨fun h => ⟨h, fun other hother covers => uncovered ⟨other, hother, covers⟩⟩, And.left⟩

/-- None of some addresses, two bytes apart, is covered by an origin of a slot. -/
def Spared (past : Past) (layout : SlotLayout) (slot : Nat) (addr : Word) (count : Nat) : Prop :=
  ∀ o ∈ past slot, ∀ k < count, ¬o.Covers layout (addr + BitVec.ofNat 32 (2 * k))

instance (past : Past) (layout : SlotLayout) (slot : Nat) (addr : Word) (count : Nat) :
    Decidable (past.Spared layout slot addr count) :=
  inferInstanceAs (Decidable (∀ o ∈ past slot, ∀ k, k < count →
    ¬o.Covers layout (addr + BitVec.ofNat 32 (2 * k))))

theorem spared_zero (past : Past) (layout : SlotLayout) (slot : Nat) (addr : Word) :
    past.Spared layout slot addr 0 :=
  fun _ _ k hk => absurd hk (Nat.not_lt_zero k)

/-- A slot is spared by a range if it is spared by the first address and by those that follow. -/
theorem spared_succ {past : Past} {layout : SlotLayout} {slot : Nat} {addr : Word} {count : Nat} :
    past.Spared layout slot addr (count + 1) ↔
      (∀ o ∈ past slot, ¬o.Covers layout addr) ∧
        (past.invalidate layout addr).Spared layout slot (addr + 2) count := by
  have later (k : Nat) : addr + 2 + BitVec.ofNat 32 (2 * k) = addr + BitVec.ofNat 32 (2 * (k + 1)) := by
    rw [BitVec.add_assoc, Nat.mul_succ, Nat.add_comm (2 * k), BitVec.ofNat_add]
    rfl
  constructor
  · intro all
    have first : ∀ o ∈ past slot, ¬o.Covers layout addr := fun o ho => by
      simpa using all o ho 0 (Nat.succ_pos count)
    refine ⟨first, fun o ho k hk => ?_⟩
    -- what does not cover the first address is still on file for the others
    rw [invalidate_of_uncovered first] at ho
    rw [later]
    exact all o ho (k + 1) (Nat.succ_lt_succ hk)
  · rintro ⟨first, others⟩ o ho k hk
    unfold Spared at others
    rw [invalidate_of_uncovered first] at others
    cases k with
    | zero => simpa using first o ho
    | succ k =>
      rw [← later]
      exact others o ho k (Nat.lt_of_succ_lt_succ hk)

/-- What is on file after a range was invalidated is what was on file in slots that the range spares. -/
theorem mem_invalidateMany {layout : SlotLayout} {slot : Nat} {o : Origin} (count : Nat) :
    ∀ {past : Past} {addr : Word}, o ∈ past.invalidateMany layout addr count slot ↔
      o ∈ past slot ∧ past.Spared layout slot addr count := by
  induction count with
  | zero => intro past addr; exact ⟨fun h => ⟨h, past.spared_zero layout slot addr⟩, And.left⟩
  | succ count ih =>
    intro past addr
    rw [invalidateMany, ih, mem_invalidate, spared_succ, and_assoc]

theorem mem_unlessFlushed {past : Past} {before after : CodeCache} {slot : Nat} {o : Origin}
    (h : o ∈ past.unlessFlushed before after slot) : o ∈ past slot := by
  unfold unlessFlushed at h
  split at h
  · exact h
  · exact absurd h List.not_mem_nil

/-- Compiling puts one origin on file at most. -/
theorem compile_eq (past : Past) (c : CodeCache) (bus : Bus σ) (config : Config) (s : CpuState)
    (host : σ) :
    past.compile c bus config s host =
        past.unlessFlushed c (c.compile bus config s host).cache ∨
      ∃ slot o, o.start = s.next ∧ past.compile c bus config s host =
        (past.unlessFlushed c (c.compile bus config s host).cache).put slot o := by
  unfold compile
  dsimp only
  split
  · exact .inr ⟨_, _, rfl, rfl⟩
  · exact .inl rfl

/-- Compiling adds at most one origin, which starts where the processor goes on. -/
theorem mem_compile {past : Past} {c : CodeCache} {bus : Bus σ} {config : Config} {s : CpuState}
    {host : σ} {slot : Nat} {o : Origin} (h : o ∈ past.compile c bus config s host slot) :
    o ∈ past slot ∨ o.start = s.next := by
  rcases past.compile_eq c bus config s host with same | ⟨slot', new, start, added⟩
  · rw [same] at h
    exact .inl (mem_unlessFlushed h)
  · rw [added] at h
    rcases mem_put.mp h with old | ⟨-, rfl⟩
    · exact .inl (mem_unlessFlushed old)
    · exact .inr start

end Past

/-! ## The invariant

An origin knows what a block was emitted from and into. As long as the arena has not been emptied
since, what stands there is what that emission wrote, and the later ones have left it alone.
-/

/-- The block in a slot is the one that was emitted from an origin. -/
structure Origin.Built (o : Origin) (c : CodeCache) (layout : SlotLayout) (slot : Nat) (ref : Ref)
    (generation : Word) : Prop where
  holds : c.Holds o.config layout slot ref o.start o.thumb o.run
  current : generation = c.arena.generation
  emitted : o.emission.1 = some ref
  kept : c.arena.capacity ≤ 2 ^ 32 → o.emission.2.Grows c.arena

namespace Origin

variable {c : CodeCache} {layout : SlotLayout} {o o' : Origin} {slot other : Nat} {ref ref' : Ref}
  {generation : Word} {arena : Arena Record}

/-- When it is put into its slot, a block is what it was emitted from. -/
theorem BelongsTo.built (belongs : o.BelongsTo layout slot) (room : o.room = c.arena)
    (emitted : o.emission = (some ref, arena)) :
    o.Built (c.withBlock slot o.start o.thumb o.run ref arena) layout slot ref arena.generation where
  holds := by
    have emitted' : Block.emit (prepare o.config o.run) c.arena = (some ref, arena) := room ▸ emitted
    exact CodeCache.holds_build belongs.place belongs.nonempty belongs.straight belongs.aligned
      belongs.short emitted' rfl rfl
  current := rfl
  emitted := by rw [emitted]
  kept _ := by
    rw [emitted]
    exact .refl _

/-- The blocks of other slots stay what they are, for it is put behind them. -/
theorem Built.withBlock (built : o'.Built c layout other ref' generation)
    (belongs : o.BelongsTo layout slot) (apart : other ≠ slot)
    (emitted : Block.emit (prepare o.config o.run) c.arena = (some ref, arena)) :
    o'.Built (c.withBlock slot o.start o.thumb o.run ref arena) layout other ref' generation := by
  obtain ⟨first, hfirst, start, -⟩ := belongs.head?_prepare
  refine ⟨?_, ?_, built.emitted, fun small => ?_⟩
  · exact built.holds.build hfirst (by rw [start]; exact belongs.place) apart emitted
      belongs.length_prepare_le rfl rfl
  · exact built.current.trans (Block.generation_of_emit emitted).symm
  · have room : c.arena.capacity ≤ 2 ^ 32 := by
      rw [← Block.capacity_of_emit emitted]
      exact small
    obtain ⟨-, -, -, -, -, grows, -⟩ :=
      Block.at_of_emit emitted room (Block.nodeCount_lt belongs.length_prepare_le)
    exact (built.kept room).trans grows

end Origin

namespace CodeCache

/-- The past of a cache is its own. -/
structure Recorded (c : CodeCache) (cpu : Cpu) (layout : SlotLayout) (past : Past) : Prop where
  ours : c.cpu = cpu
  accepted : SlotLayout.ofRegions c.regions = .ok layout
  laid : c.table.layout = layout
  tidy : c.arena.capacity ≤ 2 ^ 32 → c.arena.Tidy
  belong : ∀ slot, ∀ o ∈ past slot, o.BelongsTo layout slot
  filed : ∀ chunk e, e ∈ c.coverage.entries chunk ↔
    ∃ slot, ∃ o ∈ past slot, e = o.coverage slot ∧ chunk ∈ e.chunks
  blocks : ∀ slot ref generation, c.table.slots[slot]? = some (.compiled ref generation) →
    ∃ o, (past slot).head? = some o ∧ o.Built c layout slot ref generation

variable {c : CodeCache} {cpu : Cpu} {layout : SlotLayout} {past : Past} {config : Config}

/-- A cache without blocks and without coverage is recorded by an empty past. -/
theorem recorded_of_no_blocks (ours : c.cpu = cpu)
    (accepted : SlotLayout.ofRegions c.regions = .ok layout) (laid : c.table.layout = layout)
    (tidy : c.arena.Tidy) (slots : c.table.slots = ∅) (coverage : c.coverage = ∅) :
    c.Recorded cpu layout .none where
  ours := ours
  accepted := accepted
  laid := laid
  tidy _ := tidy
  belong slot o ho := absurd ho List.not_mem_nil
  filed chunk e := by
    rw [coverage, CoverageMap.entries_empty]
    simp [Past.none]
  blocks slot ref generation h := by
    rw [slots] at h
    exact absurd h (by simp)

theorem recorded_new {size : Config} {regions : List CodeRegion} {grants : Nat → Bool}
    (h : CodeCache.new cpu size regions grants = .ok c) :
    ∃ layout, c.Recorded cpu layout .none := by
  obtain ⟨layout, accepted, -, rfl⟩ := new_eq_ok.mp h
  exact ⟨layout, recorded_of_no_blocks rfl accepted rfl
    (Arena.tidy_of_no_cells fun _ => by simp [blank, Arena.cell?]) rfl rfl⟩

theorem Recorded.flush (h : c.Recorded cpu layout past) : c.flush.Recorded cpu layout .none :=
  recorded_of_no_blocks h.ours h.accepted h.laid (Arena.tidy_reset _) rfl rfl

theorem Recorded.reset (h : c.Recorded cpu layout past) : c.reset.Recorded cpu layout .none :=
  recorded_of_no_blocks h.ours h.accepted h.laid (Arena.tidy_reset _) rfl rfl

theorem Recorded.resized (h : c.Recorded cpu layout past) {size : Config} {grants : Nat → Bool}
    {d : CodeCache} (hr : c.resized size grants = .ok d) : d.Recorded cpu layout .none := by
  obtain ⟨_, accepted, -, rfl⟩ := resized_eq_ok.mp hr
  obtain rfl := Except.ok.inj (h.accepted.symm.trans accepted)
  exact recorded_of_no_blocks h.ours h.accepted rfl
    (Arena.tidy_of_no_cells fun _ => by simp [blank, Arena.cell?]) rfl rfl

/-! ## Compiling

A compilation that flushes forgets the past with the blocks. One that builds a block puts its origin
in front of those of its slot; the other three ways neither put anything nor forget anything.
-/

/-- A slot that is given up to interpretation holds no block, so what is said of the others stands. -/
theorem Recorded.marked (h : c.Recorded cpu layout past) (slot : Nat) :
    (c.marked slot).Recorded cpu layout past := by
  refine { h with blocks := fun other ref generation held => ?_ }
  have elsewhere : slot ≠ other := by
    rintro rfl
    simp [CodeCache.marked] at held
  have old : c.table.slots[other]? = some (.compiled ref generation) := by
    simpa [CodeCache.marked, Std.TreeMap.getElem?_insert, elsewhere] using held
  obtain ⟨o, latest, built⟩ := h.blocks other ref generation old
  exact ⟨o, latest, { built with holds := built.holds.frame rfl rfl }⟩

/-- Making room empties the cache or leaves it, and the past is forgotten in the first case. -/
theorem Recorded.makeRoom (h : c.Recorded cpu layout past) (config : Config) :
    (c.makeRoom config).1.Recorded cpu layout (past.unlessFlushed c (c.makeRoom config).1) := by
  unfold CodeCache.makeRoom Past.unlessFlushed
  split
  -- the counter of the resets tells the two cases apart
  · have counted : c.flush.resets ≠ c.resets := Nat.succ_ne_self c.resets
    dsimp only
    rw [if_neg counted]
    exact h.flush
  · dsimp only
    rw [if_pos rfl]
    exact h

theorem resets_makeRoom (c : CodeCache) (config : Config) :
    c.resets ≤ (c.makeRoom config).1.resets := by
  unfold CodeCache.makeRoom
  split
  · exact Nat.le_succ c.resets
  · exact Nat.le_refl c.resets

/-- A block that was emitted into the arena of the cache is put into its slot, and its origin comes
first in the past of that slot. -/
theorem Recorded.withBlock (h : c.Recorded cpu layout past) {o : Origin} {slot : Nat}
    (belongs : o.BelongsTo layout slot) (room : o.room = c.arena) {ref : Ref} {arena : Arena Record}
    (emitted : o.emission = (some ref, arena)) :
    (c.withBlock slot o.start o.thumb o.run ref arena).Recorded cpu layout (past.put slot o) := by
  have emitted' : Block.emit (prepare o.config o.run) c.arena = (some ref, arena) := room ▸ emitted
  refine ⟨h.ours, h.accepted, h.laid, fun small => ?_, fun other o' ho' => ?_, fun chunk e => ?_,
    fun other ref' generation held => ?_⟩
  · have small' : c.arena.capacity ≤ 2 ^ 32 := by
      rw [← Block.capacity_of_emit emitted']
      exact small
    have tidy := Block.tidy_emit (h.tidy small') small' (prepare o.config o.run)
    rwa [emitted'] at tidy
  · rcases Past.mem_put.mp ho' with old | ⟨rfl, rfl⟩
    · exact h.belong other o' old
    · exact belongs
  · -- one entry is filed, and none of the block that may have stood in the slot is taken out
    refine CoverageMap.mem_entries_record.trans ?_
    rw [h.filed]
    simp only [Past.mem_put]
    constructor
    · rintro (⟨other, o', ho', filed⟩ | ⟨rfl, hc⟩)
      · exact ⟨other, o', .inl ho', filed⟩
      · exact ⟨slot, o, .inr ⟨rfl, rfl⟩, rfl, hc⟩
    · rintro ⟨other, o', old | ⟨rfl, rfl⟩, filed⟩
      · exact .inl ⟨other, o', old, filed⟩
      · obtain ⟨rfl, hc⟩ := filed
        exact .inr ⟨rfl, hc⟩
  · by_cases same : slot = other
    · subst same
      have entry : SlotEntry.compiled ref arena.generation = .compiled ref' generation := by
        simpa [CodeCache.withBlock] using held
      cases entry
      exact ⟨o, by rw [Past.put, if_pos rfl]; rfl, belongs.built room emitted⟩
    · have old : c.table.slots[other]? = some (.compiled ref' generation) := by
        simpa [CodeCache.withBlock, Std.TreeMap.getElem?_insert, same] using held
      obtain ⟨o', latest, built⟩ := h.blocks other ref' generation old
      exact ⟨o', by rw [Past.put, if_neg (Ne.symm same)]; exact latest,
        built.withBlock belongs (Ne.symm same) emitted'⟩

/-- **Compiling keeps the record,** whichever way it ends. -/
theorem Recorded.compile (h : c.Recorded cpu layout past) (bus : Bus σ) (config : Config)
    {s : CpuState} (aligned : s.next.toNat % Decode.bytes s.thumb = 0) (host : σ) :
    (c.compile bus config s host).cache.Recorded cpu layout (past.compile c bus config s host) := by
  have step := c.compileStep bus config s host
  have room := h.makeRoom config
  have later := c.resets_makeRoom config
  unfold Past.compile
  generalize c.compile bus config s host = after at step ⊢
  rcases after with ⟨outcome, cache, cpu', host', told⟩
  dsimp only at step
  cases step with
  | unmapped place =>
    dsimp only
    rw [Past.unlessFlushed, if_pos rfl]
    exact h
  | thrashing slot place often =>
    have uncounted : (c.marked slot).resets = c.resets := rfl
    dsimp only
    rw [Past.unlessFlushed, if_pos uncounted]
    exact h.marked slot
  | unfetched slot place calm empty => exact room
  | full slot place calm nonempty arena emitted =>
    have counted : ({ (c.makeRoom config).1 with arena } : CodeCache).flush.resets ≠ c.resets :=
      Nat.ne_of_gt (Nat.lt_succ_of_le later)
    dsimp only
    rw [Past.unlessFlushed, if_neg counted]
    exact recorded_of_no_blocks room.ours room.accepted room.laid (Arena.tidy_reset _) rfl rfl
  | built slot place calm nonempty ref arena emitted =>
    dsimp only
    rw [SlotTable.slot?, place]
    dsimp only
    refine room.withBlock
      (o := { config, start := s.next, thumb := s.thumb, run := c.decoded bus config s host
              room := (c.makeRoom config).1.arena }) ⟨?_, nonempty, ?_, aligned, ?_⟩ rfl emitted
    · rw [← h.laid]
      exact place
    · exact Decode.straight_instructions _ s.next host aligned
    · exact c.length_decoded_le bus config s host

/-! ## Invalidation

The coverage is looked up at the halfword that was written, and every block found there starts in some
slot. The slots that go are therefore those with an origin that covers the halfword, and no others.
-/

/-- What is found from a slot is on file for an origin that covers it. -/
theorem Recorded.mem_hits_iff (h : c.Recorded cpu layout past) {addr : Word} {hit : Nat}
    (here : layout.slot? addr = some hit) (e : Coverage) :
    e ∈ c.coverage.hits hit ↔ ∃ slot, ∃ o ∈ past slot, e = o.coverage slot ∧ o.Covers layout addr := by
  unfold CoverageMap.hits
  rw [List.mem_filter, h.filed]
  constructor
  · rintro ⟨⟨slot, o, ho, rfl, -⟩, inside⟩
    exact ⟨slot, o, ho, rfl, ((h.belong slot o ho).covers_iff here).mpr inside⟩
  · rintro ⟨slot, o, ho, rfl, covers⟩
    have inside := ((h.belong slot o ho).covers_iff here).mp covers
    exact ⟨⟨slot, o, ho, rfl, Coverage.chunk_mem_of_contains inside⟩, inside⟩

theorem Recorded.anchored (h : c.Recorded cpu layout past) : c.coverage.Anchored layout := by
  intro chunk e he
  obtain ⟨slot, o, ho, rfl, -⟩ := (h.filed chunk e).mp he
  exact (h.belong slot o ho).place

/-- The coverage that is left is that of the past that is left. -/
theorem Recorded.filed_drops (h : c.Recorded cpu layout past) {addr : Word} {hit : Nat}
    (here : layout.slot? addr = some hit) (chunk : Nat) (e : Coverage) :
    e ∈ CoverageMap.entries ((c.coverage.hits hit).foldl CoverageMap.drop c.coverage) chunk ↔
      ∃ slot, ∃ o ∈ past.invalidate layout addr slot, e = o.coverage slot ∧ chunk ∈ e.chunks := by
  rw [CoverageMap.mem_entries_drops, h.filed]
  simp only [Past.mem_invalidate]
  constructor
  · rintro ⟨⟨slot, o, ho, rfl, hc⟩, left⟩
    refine ⟨slot, o, ⟨ho, fun other hother covers => ?_⟩, rfl, hc⟩
    have inside := ((h.belong slot other hother).covers_iff here).mp covers
    have same : (other.coverage slot).firstSlot = (o.coverage slot).firstSlot := rfl
    -- whichever of the two is longer is dropped, and with it the other
    rcases Coverage.chunk_mem_or_contains same inside hc with shares | itself
    · exact left _ ((h.mem_hits_iff here _).mpr ⟨slot, other, hother, rfl, covers⟩) shares rfl
    · have covers' := ((h.belong slot o ho).covers_iff here).mpr itself
      exact left _ ((h.mem_hits_iff here _).mpr ⟨slot, o, ho, rfl, covers'⟩) hc rfl
  · rintro ⟨slot, o, ⟨ho, apart⟩, rfl, hc⟩
    refine ⟨⟨slot, o, ho, rfl, hc⟩, fun e' he' _ same => ?_⟩
    obtain ⟨slot', o', ho', rfl, covers⟩ := (h.mem_hits_iff here e').mp he'
    obtain rfl : slot = slot' := same
    exact apart o' ho' covers

/-- None of the blocks that an invalidation drops starts in a slot with a block if and only if no
origin of that slot is hit. -/
theorem Recorded.apart_iff (h : c.Recorded cpu layout past) {addr : Word} {hit slot : Nat} {ref : Ref}
    {generation : Word} (here : layout.slot? addr = some hit)
    (held : c.table.slots[slot]? = some (.compiled ref generation)) :
    (∀ start ∈ (c.coverage.hits hit).map Coverage.start ++ [addr], layout.slot? start ≠ some slot) ↔
      ∀ o ∈ past slot, ¬o.Covers layout addr := by
  constructor
  · intro apart o ho covers
    have found := (h.mem_hits_iff here _).mpr ⟨slot, o, ho, rfl, covers⟩
    exact apart o.start (List.mem_append_left _ (List.mem_map_of_mem found)) (h.belong slot o ho).place
  · intro uncovered start hstart place
    rcases List.mem_append.mp hstart with hit' | last
    · obtain ⟨e, he, rfl⟩ := List.mem_map.mp hit'
      obtain ⟨slot', o, ho, rfl, covers⟩ := (h.mem_hits_iff here e).mp he
      obtain rfl : slot' = slot := Option.some.inj ((h.belong slot' o ho).place.symm.trans place)
      exact uncovered o ho covers
    · -- the block that starts at the address covers it
      obtain rfl := List.mem_singleton.mp last
      obtain ⟨o, latest, -⟩ := h.blocks slot ref generation held
      have ho := List.mem_of_head? latest
      exact uncovered o ho ((h.belong slot o ho).covers_start place)

/-- **A block goes if and only if an origin of its slot covers the address.** -/
theorem Recorded.slots_invalidate (h : c.Recorded cpu layout past) (addr : Word) (slot : Nat)
    (ref : Ref) (generation : Word) :
    (c.invalidate addr).1.table.slots[slot]? = some (.compiled ref generation) ↔
      c.table.slots[slot]? = some (.compiled ref generation) ∧
        ∀ o ∈ past slot, ¬o.Covers layout addr := by
  cases here : layout.slot? addr with
  | none =>
    rw [invalidate_of_unmapped (by rw [h.laid]; exact here)]
    exact ⟨fun held => ⟨held, fun _ _ => Origin.not_covers_of_unmapped here⟩, And.left⟩
  | some hit =>
    have dropped := dropped_invalidate (c := c) (by rw [h.laid]; exact here)
    have starts := dropped.slots slot (.compiled ref generation)
    rw [show (c.withoutHits hit).table = c.table from rfl, h.laid] at starts
    exact starts.trans (and_congr_right fun held => h.apart_iff here held)

/-- Invalidating an address drops blocks and coverage just as the past has it. -/
theorem Recorded.invalidate (h : c.Recorded cpu layout past) (addr : Word) :
    (c.invalidate addr).1.Recorded cpu layout (past.invalidate layout addr) := by
  have left := h.slots_invalidate addr
  cases here : layout.slot? addr with
  | none =>
    rw [invalidate_of_unmapped (by rw [h.laid]; exact here)]
    have same : past.invalidate layout addr = past :=
      funext fun slot => Past.invalidate_of_uncovered fun _ _ => Origin.not_covers_of_unmapped here
    rw [same]
    exact h
  | some hit =>
    have dropped := dropped_invalidate (c := c) (by rw [h.laid]; exact here)
    refine ⟨dropped.cpu.trans h.ours, ?_, dropped.layout.trans h.laid, ?_, fun slot o ho => ?_,
      fun chunk e => ?_, fun slot ref generation held => ?_⟩
    · rw [dropped.regions]
      exact h.accepted
    · rw [dropped.arena]
      exact h.tidy
    · exact h.belong slot o (Past.mem_invalidate.mp ho).1
    · rw [dropped.coverage]
      exact h.filed_drops here chunk e
    · obtain ⟨old, uncovered⟩ := (left slot ref generation).mp held
      obtain ⟨o, latest, built⟩ := h.blocks slot ref generation old
      have apart : ∀ e ∈ c.coverage.hits hit, layout.slot? e.start ≠ some slot := by
        intro e he
        exact (h.apart_iff here old).mpr uncovered e.start
          (List.mem_append_left _ (List.mem_map_of_mem he))
      refine ⟨o, by rw [Past.invalidate_of_uncovered uncovered]; exact latest,
        built.holds.dropped h.anchored here apart dropped, ?_, built.emitted, ?_⟩
      · rw [dropped.arena]
        exact built.current
      · rw [dropped.arena]
        exact built.kept

theorem Recorded.invalidateMany (count : Nat) :
    ∀ {c : CodeCache} {past : Past} (told : List Notice) (addr : Word), c.Recorded cpu layout past →
      (c.invalidateMany told addr count).1.Recorded cpu layout
        (past.invalidateMany layout addr count) := by
  induction count with
  | zero => intro c past told addr h; exact h
  | succ count ih => intro c past told addr h; exact ih _ _ (h.invalidate addr)

/-- A slot keeps its block through the invalidation of a range if and only if no address of that is covered
by anything on file for the slot. -/
theorem Recorded.slots_invalidateMany (slot : Nat) (ref : Ref) (generation : Word) (count : Nat) :
    ∀ {c : CodeCache} {past : Past} (told : List Notice) (addr : Word), c.Recorded cpu layout past →
      ((c.invalidateMany told addr count).1.table.slots[slot]? = some (.compiled ref generation) ↔
        c.table.slots[slot]? = some (.compiled ref generation) ∧
          past.Spared layout slot addr count) := by
  induction count with
  | zero =>
    intro c past told addr h
    exact ⟨fun held => ⟨held, past.spared_zero layout slot addr⟩, And.left⟩
  | succ count ih =>
    intro c past told addr h
    have rest := ih (told ++ (c.invalidate addr).2) (addr + 2) (h.invalidate addr)
    refine rest.trans ?_
    rw [h.slots_invalidate, Past.spared_succ, and_assoc]

end CodeCache

end ArmBlocks
