import Mathlib.Order.Interval.Finset.Nat
import ArmBlocks.Proofs.ReserveChange
import ArmBlocks.Proofs.Uncached

/-!
# Code that keeps changing

Code whose blocks were invalidated more often than the configuration allows is not compiled any more but
interpreted. What was counted is one number for each granule of 16 bytes, and along any run without a
reset that number is what it was and the blocks of the granule that were dropped, as far as a byte can
count (`Session.count_calls`). Dropping the mark of interpreted code counts for nothing, and flushes
leave the counts alone.

So once more blocks were dropped than allowed, nothing that starts in the granule is compiled again, and
every instruction there is run by itself (`Engine.Interprets`). There is one exception. More than 255 is
nothing that a byte can count, so a threshold of 255 is none: that code is compiled for ever
(`Engine.Compiles`). `Session.interpreted_of_drops` says both.
-/

set_option autoImplicit false

namespace ArmBlocks

variable {σ : Type}

namespace CodeCache

variable {c d e : CodeCache} {granule : Nat}

/-! ## Counting

What goes from a granule is a set of slots, and so is what was there, so the number that is counted is
that of their difference.
-/

/-- Whether a slot holds a compiled block. -/
def holdsBlock (c : CodeCache) (slot : Nat) : Bool :=
  match c.table.slots[slot]? with
  | some (.compiled _ _) => true
  | _ => false

/-- The slots of a granule that hold compiled blocks. -/
def blockSlots (c : CodeCache) (granule : Nat) : Finset Nat :=
  (Finset.Ico (granule * granuleSlots) ((granule + 1) * granuleSlots)).filter (c.holdsBlock ·)

/-- What was counted for a granule. -/
def granuleCount (c : CodeCache) (granule : Nat) : Nat := ((c.thrash[granule]?).getD 0).toNat

theorem granuleCount_le (c : CodeCache) (granule : Nat) : c.granuleCount granule ≤ 255 :=
  Nat.le_of_lt_succ ((c.thrash[granule]?).getD 0).isLt

/-- A slot has a block of the granule if it lies there and a block is in it. -/
theorem mem_blockSlots {slot : Nat} : slot ∈ c.blockSlots granule ↔
    slot / granuleSlots = granule ∧
      ∃ ref generation, c.table.slots[slot]? = some (.compiled ref generation) := by
  have held : c.holdsBlock slot = true ↔
      ∃ ref generation, c.table.slots[slot]? = some (.compiled ref generation) := by
    unfold holdsBlock
    split
    · next ref generation found => exact ⟨fun _ => ⟨ref, generation, found⟩, fun _ => rfl⟩
    · next other =>
      constructor
      · intro false
        cases false
      · rintro ⟨ref, generation, found⟩
        exact absurd found (other ref generation)
  have inside : granule * granuleSlots ≤ slot ∧ slot < (granule + 1) * granuleSlots ↔
      slot / granuleSlots = granule := by
    unfold granuleSlots
    omega
  rw [blockSlots, Finset.mem_filter, Finset.mem_Ico, held, inside]

/-- Counting stops at 255. -/
theorem toNat_saturatingSucc (n : BitVec 8) : (saturatingSucc n).toNat = min 255 (n.toNat + 1) := by
  unfold saturatingSucc
  split
  · next full => simp [full]
  · next room =>
    have := n.isLt
    have : n.toNat ≠ 255 := fun full => room (BitVec.eq_of_toNat_eq full)
    rw [BitVec.toNat_add, show (1 : BitVec 8).toNat = 1 from rfl]
    omega

/-- Blocks of a granule may go but none may come, and those that go are counted. -/
structure Counts (granule : Nat) (c d : CodeCache) : Prop where
  fewer : d.blockSlots granule ⊆ c.blockSlots granule
  count : d.granuleCount granule =
    min 255 (c.granuleCount granule + (c.blockSlots granule \ d.blockSlots granule).card)

theorem Counts.of_same (slots : d.blockSlots granule = c.blockSlots granule)
    (count : d.granuleCount granule = c.granuleCount granule) : Counts granule c d where
  fewer := by rw [slots]
  count := by
    have := c.granuleCount_le granule
    rw [slots, count, Finset.sdiff_self, Finset.card_empty]
    omega

/-- What one step counts and what the next counts are counted by both together. -/
theorem Counts.trans (first : Counts granule c d) (last : Counts granule d e) : Counts granule c e where
  fewer := Finset.Subset.trans last.fewer first.fewer
  count := by
    -- the blocks only ever go, so those gone at the end are those gone in the first and the last part
    have whole := Finset.card_sdiff_of_subset (Finset.Subset.trans last.fewer first.fewer)
    have start := Finset.card_sdiff_of_subset first.fewer
    have rest := Finset.card_sdiff_of_subset last.fewer
    have low := Finset.card_le_card last.fewer
    have high := Finset.card_le_card first.fewer
    rw [last.count, first.count]
    omega

/-! ## What counts

Dropping a block counts once, at the granule that it starts in. Dropping many counts for each that was
there, and none of them twice, as a slot that was dropped holds nothing any more.
-/

theorem mem_blockSlots_dropBlock {start : Word} {slot : Nat} :
    slot ∈ (c.dropBlock start).1.blockSlots granule ↔
      slot ∈ c.blockSlots granule ∧ c.table.layout.slot? start ≠ some slot := by
  have dropped := c.dropped_dropBlock start
  simp only [mem_blockSlots, dropped.slots, List.mem_singleton, forall_eq]
  grind

/-- Dropping a block counts one. -/
theorem granuleCount_dropBlock {start : Word} {slot : Nat} {ref : Ref} {generation : Word}
    (place : c.table.layout.slot? start = some slot)
    (held : c.table.slots[slot]? = some (.compiled ref generation)) :
    (c.dropBlock start).1.granuleCount (slot / granuleSlots) =
      min 255 (c.granuleCount (slot / granuleSlots) + 1) := by
  have place' (slots : Std.TreeMap Nat SlotEntry) :
      SlotTable.slot? { c.table with slots } start = some slot := place
  simp only [dropBlock, SlotTable.invalidate, place', held, countThrash, granuleCount, thrashCount,
    Std.TreeMap.getElem?_insert_self, Option.getD_some, toNat_saturatingSucc]

/-- So dropping what starts at an address counts the blocks that go, of which there is one at most. -/
theorem counts_dropBlock (c : CodeCache) (start : Word) (granule : Nat) :
    Counts granule c (c.dropBlock start).1 := by
  by_cases hit : ∃ slot ∈ c.blockSlots granule, c.table.layout.slot? start = some slot
  -- one block of the granule goes, and its count goes up by one
  · obtain ⟨slot, here, place⟩ := hit
    have one : c.blockSlots granule \ (c.dropBlock start).1.blockSlots granule = {slot} := by
      ext other
      simp only [Finset.mem_sdiff, mem_blockSlots_dropBlock, place, Finset.mem_singleton]
      grind
    obtain ⟨rfl, ref, generation, held⟩ := mem_blockSlots.mp here
    refine ⟨fun other member => (mem_blockSlots_dropBlock.mp member).1, ?_⟩
    rw [one, Finset.card_singleton]
    exact granuleCount_dropBlock place held
  · -- a mark of interpreted code may go here, or a block of another granule
    have count : (c.dropBlock start).1.thrash[granule]? = c.thrash[granule]? := by
      apply (c.dropped_dropBlock start).thrash granule
      intro slot ref generation here held other hother place
      rw [List.mem_singleton.mp hother] at place
      exact hit ⟨slot, mem_blockSlots.mpr ⟨here, ref, generation, held⟩, place⟩
    refine .of_same ?_ (by rw [granuleCount, count, granuleCount])
    ext slot
    rw [mem_blockSlots_dropBlock]
    exact ⟨And.left, fun member => ⟨member, fun place => hit ⟨slot, member, place⟩⟩⟩

theorem counts_dropBlocks (granule : Nat) (starts : List Word) :
    ∀ c : CodeCache, Counts granule c (c.dropBlocks starts).1 := by
  induction starts with
  | nil => intro c; exact .of_same rfl rfl
  | cons start rest ih => intro c; exact (c.counts_dropBlock start granule).trans (ih _)

/-- An invalidated address counts each block it drops. -/
theorem counts_invalidate (c : CodeCache) (addr : Word) (granule : Nat) :
    Counts granule c (c.invalidate addr).1 := by
  unfold invalidate
  split
  · exact .of_same rfl rfl
  · next slot _ =>
    have cleared : Counts granule c (c.withoutHits slot) := .of_same rfl rfl
    exact cleared.trans (counts_dropBlocks granule _ _)

theorem counts_invalidateMany (granule : Nat) (count : Nat) :
    ∀ (c : CodeCache) (told : List Notice) (addr : Word),
      Counts granule c (c.invalidateMany told addr count).1 := by
  induction count with
  | zero => intro c told addr; exact .of_same rfl rfl
  | succ count ih => intro c told addr; exact (c.counts_invalidate addr granule).trans (ih _ _ _)

/-! ## What does not

A compilation may flush the cache, and then blocks go without being counted, as nothing was written to
them.
-/

theorem thrash_makeRoom (c : CodeCache) (config : Config) :
    (c.makeRoom config).1.thrash = c.thrash := by
  unfold makeRoom
  split
  · rfl
  · rfl

/-- Compiling leaves the counts alone, even where it empties the cache. -/
theorem thrash_compile (c : CodeCache) (bus : Bus σ) (config : Config) (s : CpuState) (host : σ) :
    (c.compile bus config s host).cache.thrash = c.thrash := by
  have step := c.compileStep bus config s host
  generalize c.compile bus config s host = made at step ⊢
  rcases made with ⟨outcome, cache, s', host', told⟩
  dsimp only at step ⊢
  cases step with
  | unmapped place => rfl
  | thrashing slot place often => rfl
  | unfetched slot place calm empty => exact c.thrash_makeRoom config
  | full slot place calm nonempty arena emitted => exact c.thrash_makeRoom config
  | built slot place calm nonempty ref arena emitted => exact c.thrash_makeRoom config

theorem thrash_obtainBlock (c : CodeCache) (bus : Bus σ) (config : Config) (s : CpuState) (host : σ) :
    (Engine.obtainBlock c bus config s host).cache.thrash = c.thrash := by
  unfold Engine.obtainBlock
  split
  · rfl
  · exact c.thrash_compile bus config s host

end CodeCache

/-! ## Along a run

Each call adds to the number what it drops, up to 255. So the numbers of a run add up to what is
counted.
-/

/-- The counts of a processor survive the call. -/
def Call.KeepsCounts (cpu : Cpu) : Call σ → Prop
  | .reset other _ => other ≠ cpu
  | _ => True

namespace Session

variable {bus : Bus σ} {w : Session σ} {cpu : Cpu} {c : CodeCache} {granule : Nat}

/-- The slots of a granule in which a processor has compiled blocks. -/
def blockSlots (w : Session σ) (cpu : Cpu) (granule : Nat) : Finset Nat :=
  ((w.engine.caches.get cpu).map fun c => c.blockSlots granule).getD ∅

/-- How many compiled blocks of a granule a call takes out of the table of a processor by
invalidation. -/
def dropsOf (bus : Bus σ) (cpu : Cpu) (granule : Nat) (w : Session σ) (next : Call σ) : Nat :=
  match next with
  | .invalidate _ _ | .invalidateRange _ _ _ =>
    (w.blockSlots cpu granule \ (w.call bus next).2.blockSlots cpu granule).card
  | _ => 0

/-- How many all calls take out, one after the other. -/
def drops (bus : Bus σ) (cpu : Cpu) (granule : Nat) : Session σ → List (Call σ) → Nat
  | _, [] => 0
  | w, next :: rest => w.dropsOf bus cpu granule next + drops bus cpu granule (w.call bus next).2 rest

/-- A call adds to the count what it drops, up to 255. -/
theorem count_call (bus : Bus σ) (granule : Nat) (cached : w.engine.caches.get cpu = some c)
    {next : Call σ} (keeps : next.KeepsCounts cpu) :
    ∃ d, (w.call bus next).2.engine.caches.get cpu = some d ∧
      d.granuleCount granule = min 255 (c.granuleCount granule + w.dropsOf bus cpu granule next) := by
  have after : (w.call bus next).2.engine.caches.get cpu =
      some (next.onCache bus cpu w.engine.config w.host c) := cache_call cached next
  -- this is for the calls that drop nothing
  have kept (same : (next.onCache bus cpu w.engine.config w.host c).thrash = c.thrash) :
      (next.onCache bus cpu w.engine.config w.host c).granuleCount granule =
        min 255 (c.granuleCount granule + 0) := by
    have := c.granuleCount_le granule
    rw [CodeCache.granuleCount, same, ← CodeCache.granuleCount]
    omega
  have dropped : w.blockSlots cpu granule \ (w.call bus next).2.blockSlots cpu granule =
      c.blockSlots granule \ (next.onCache bus cpu w.engine.config w.host c).blockSlots granule := by
    rw [blockSlots, blockSlots, cached, after]
    rfl
  refine ⟨_, after, ?_⟩
  cases next with
  | execute s =>
    apply kept
    rw [Call.onCache]
    split
    · exact c.thrash_obtainBlock bus _ s w.host
    · rfl
  | invalidate addr other =>
    rw [dropsOf, dropped, Call.onCache]
    split
    · exact (c.counts_invalidate addr granule).count
    · exact (CodeCache.Counts.of_same rfl rfl).count
  | invalidateRange first last other =>
    rw [dropsOf, dropped, Call.onCache]
    split
    · exact (CodeCache.counts_invalidateMany granule _ c [] first).count
    · exact (CodeCache.Counts.of_same rfl rfl).count
  | reset other =>
    apply kept
    rw [Call.onCache, if_neg keeps]
  | executeUncached s => exact kept rfl
  | setReserve mebibytes => exact kept rfl
  | change host => exact kept rfl

/-- **What is counted along a run**: what was counted before, and the blocks that were dropped. -/
theorem count_calls (bus : Bus σ) (granule : Nat) (all : List (Call σ)) :
    ∀ {w : Session σ} {c : CodeCache}, w.engine.caches.get cpu = some c →
      (∀ next ∈ all, next.KeepsCounts cpu) →
        ∃ d, (w.calls bus all).engine.caches.get cpu = some d ∧
          d.granuleCount granule = min 255 (c.granuleCount granule + w.drops bus cpu granule all) := by
  induction all with
  | nil =>
    intro w c cached _
    have := c.granuleCount_le granule
    exact ⟨c, cached, by rw [drops]; omega⟩
  | cons next rest ih =>
    intro w c cached keeps
    obtain ⟨d, now, first⟩ := count_call bus granule cached (keeps next List.mem_cons_self)
    obtain ⟨e, later, last⟩ := ih now fun other hother => keeps other (List.mem_cons_of_mem _ hother)
    refine ⟨e, later, ?_⟩
    rw [last, first, drops]
    omega

/-- What is dropped in two parts of a run is dropped in the whole. -/
theorem drops_append (bus : Bus σ) (cpu : Cpu) (granule : Nat) (before after : List (Call σ)) :
    ∀ w : Session σ, w.drops bus cpu granule (before ++ after) =
      w.drops bus cpu granule before + (w.calls bus before).drops bus cpu granule after := by
  induction before with
  | nil => intro w; exact (Nat.zero_add _).symm
  | cons next rest ih =>
    intro w
    rw [List.cons_append, drops, ih, drops, Nat.add_assoc]
    rfl

/-- No call changes the threshold. -/
theorem recompileThreshold_call (w : Session σ) (bus : Bus σ) (next : Call σ) :
    (w.call bus next).2.engine.config.recompileThreshold = w.engine.config.recompileThreshold := by
  cases next with
  | reset cpu grants =>
    rw [call]
    cases done : w.engine.reset cpu grants with
    | error error => rfl
    | ok e =>
      obtain ⟨c, d, -, -, rfl⟩ := Engine.reset_eq_ok done
      rfl
  | setReserve mebibytes =>
    rw [call, (w.engine.setReserveMebibytes_engine mebibytes).1]
    cases w.engine.config
    rfl
  | execute s => exact congrArg Config.recompileThreshold (config_call w bus trivial)
  | executeUncached s => exact congrArg Config.recompileThreshold (config_call w bus trivial)
  | invalidate addr cpu => exact congrArg Config.recompileThreshold (config_call w bus trivial)
  | invalidateRange first last cpu =>
    exact congrArg Config.recompileThreshold (config_call w bus trivial)
  | change host => rfl

theorem recompileThreshold_calls (bus : Bus σ) (all : List (Call σ)) :
    ∀ w : Session σ, (w.calls bus all).engine.config.recompileThreshold =
      w.engine.config.recompileThreshold := by
  induction all with
  | nil => intro w; rfl
  | cons next rest ih => intro w; exact (ih _).trans (w.recompileThreshold_call bus next)

end Session

/-! ## Executing there

The number is looked at where a block would be compiled. Whether it is more than the threshold decides
which of the two ways is taken.
-/

namespace CodeCache

variable {c : CodeCache} {config : Config} {s : CpuState} {slot : Nat}

theorem isThrashing_iff {addr : Word} (place : c.table.slot? addr = some slot) :
    c.isThrashing config addr = true ↔
      config.recompileThreshold.toNat < c.granuleCount (slot / granuleSlots) := by
  simp only [isThrashing, place, decide_eq_true_eq, BitVec.lt_def]
  rfl

/-- Code that changes too often is marked, and nothing else happens. -/
theorem compile_of_isThrashing (bus : Bus σ) (host : σ) (place : c.table.slot? s.next = some slot)
    (often : c.isThrashing config s.next = true) :
    (c.compile bus config s host).outcome = .ok .interpret ∧
      (c.compile bus config s host).cache = c.marked slot ∧
        (c.compile bus config s host).cpu = s ∧ (c.compile bus config s host).host = host := by
  have step := c.compileStep bus config s host
  generalize c.compile bus config s host = made at step ⊢
  rcases made with ⟨outcome, cache, s', host', told⟩
  dsimp only at step ⊢
  cases step with
  | unmapped nowhere => cases place.symm.trans nowhere
  | thrashing other here _ =>
    obtain rfl := Option.some.inj (place.symm.trans here)
    exact ⟨rfl, rfl, rfl, rfl⟩
  | unfetched other here calm empty => cases often.symm.trans calm
  | full other here calm nonempty arena emitted => cases often.symm.trans calm
  | built other here calm nonempty ref arena emitted => cases often.symm.trans calm

end CodeCache

namespace Engine

variable {e : Engine} {bus : Bus σ} {s : CpuState} {host : σ} {c : CodeCache} {slot : Nat}

/-- No compiled block is found at the next instruction. -/
def Misses (c : CodeCache) (s : CpuState) : Prop :=
  ∀ ref generation, findBlock c s.next ≠ some (.compiled ref generation)

/-- Executing the next instruction of `s` compiles nothing; and where no block is found it is the one
instruction that is run, as without the cache. -/
structure Interprets (e : Engine) (bus : Bus σ) (s : CpuState) (host : σ) (c : CodeCache)
    (slot : Nat) : Prop where
  kept : (e.execute bus s host).engine.caches.get s.cpu = some c ∨
    (e.execute bus s host).engine.caches.get s.cpu = some (c.marked slot)
  stats : (e.execute bus s host).engine.stats s.cpu = e.stats s.cpu
  uncached : Misses c s →
    (e.execute bus s host).result = (e.executeUncached bus s host).result ∧
      (e.execute bus s host).cpu = (e.executeUncached bus s host).cpu ∧
        (e.execute bus s host).host = (e.executeUncached bus s host).host
  single : Misses c s → ∀ cycles, (e.execute bus s host).result = .ok cycles →
    ∃ i seen, Decode.fetch bus s.cpu s.thumb s.next host = (some i, seen) ∧
      cycles = (i.alone bus s seen).2.cycles ∧
        (e.execute bus s host).cpu = (i.alone bus s seen).2.cpu ∧
          (e.execute bus s host).host = (i.alone bus s seen).2.host

/-- Executing the next instruction of `s`, where no block is found and there is code, compiles a block,
or drops all because it does not fit. -/
def Compiles (e : Engine) (bus : Bus σ) (s : CpuState) (host : σ) (c : CodeCache) : Prop :=
  findBlock c s.next = none → c.decoded bus e.config s host ≠ [] →
    ∃ d, (e.execute bus s host).engine.caches.get s.cpu = some d ∧ c.tally < d.tally

/-- Where nothing is to be compiled, an execution is one without the cache. -/
theorem execute_of_interpret (cached : e.caches.get s.cpu = some c)
    (outcome : (obtainBlock c bus e.config s host).outcome = .ok .interpret)
    (cpu : (obtainBlock c bus e.config s host).cpu = s)
    (moment : (obtainBlock c bus e.config s host).host = host) :
    (e.execute bus s host).result = (e.executeUncached bus s host).result ∧
      (e.execute bus s host).cpu = (e.executeUncached bus s host).cpu ∧
        (e.execute bus s host).host = (e.executeUncached bus s host).host := by
  unfold execute
  rw [cached]
  dsimp only
  rw [outcome]
  simp only [blockHeader?, cpu, moment]
  have same := same_executeUncached_withCaches e (e.caches.set s.cpu
    (some (obtainBlock c bus e.config s host).cache)) bus s host
  exact ⟨same.result, same.cpu, same.host⟩

/-- Code that was given up is interpreted: nothing is compiled, and where no block is found the instruction
is run by itself. -/
theorem interprets_of_isThrashing (sound : e.Sound) (cached : e.caches.get s.cpu = some c)
    (place : c.table.slot? s.next = some slot) (often : c.isThrashing e.config s.next = true) :
    e.Interprets bus s host c slot := by
  obtain ⟨outcome, cache, cpu, moment⟩ := CodeCache.compile_of_isThrashing bus host place often
  -- the cache is as it was, or the slot was marked
  have kept : (e.execute bus s host).engine.caches.get s.cpu = some c ∨
      (e.execute bus s host).engine.caches.get s.cpu = some (c.marked slot) := by
    rw [(execute_engine cached bus host).2, PerCpu.get_set_self, obtainBlock]
    split
    · exact .inl rfl
    · exact .inr (by rw [cache])
  have uncached (misses : Misses c s) :
      (e.execute bus s host).result = (e.executeUncached bus s host).result ∧
        (e.execute bus s host).cpu = (e.executeUncached bus s host).cpu ∧
          (e.execute bus s host).host = (e.executeUncached bus s host).host := by
    cases found : findBlock c s.next with
    | none =>
      have compiled : obtainBlock c bus e.config s host = c.compile bus e.config s host := by
        rw [obtainBlock, found]
      apply execute_of_interpret cached <;> rw [compiled]
      · exact outcome
      · exact cpu
      · exact moment
    | some block =>
      cases block with
      | compiled ref generation => exact absurd found (misses ref generation)
      | interpret => apply execute_of_interpret cached <;> rw [obtainBlock, found]
  refine ⟨kept, ?_, uncached, fun misses cycles ok => ?_⟩
  · rw [Engine.stats, Engine.stats, cached]
    rcases kept with same | marked
    · rw [same]
    · rw [marked]
      rfl
  · obtain ⟨result, after, moment⟩ := uncached misses
    rw [result] at ok
    have step := uncachedStep sound bus s host
    rw [after, moment]
    generalize e.executeUncached bus s host = turn at step ok ⊢
    rcases turn with ⟨_, e', s', host', told⟩
    dsimp only at step ok ⊢
    subst ok
    cases step with
    | ran i seen fetched => exact ⟨i, seen, fetched, rfl, rfl, rfl⟩

/-- Code that was not given up is compiled where no block is found. -/
theorem compiles_of_calm (cached : e.caches.get s.cpu = some c)
    (place : c.table.slot? s.next = some slot) (calm : c.isThrashing e.config s.next = false) :
    e.Compiles bus s host c := by
  intro missing code
  have compiled : obtainBlock c bus e.config s host = c.compile bus e.config s host := by
    rw [obtainBlock, missing]
  refine ⟨_, by rw [(execute_engine cached bus host).2, PerCpu.get_set_self], ?_⟩
  have mapped : c.table.isMapped s.next = true := by rw [SlotTable.isMapped, place]; rfl
  rw [compiled, CodeCache.tally_compile bus host ⟨mapped, calm⟩, if_neg code]
  omega

end Engine

namespace Session

variable {bus : Bus σ} {w : Session σ} {cpu : Cpu} {granule : Nat}

/-- **Code that keeps changing ends up interpreted, unless the threshold is 255.** Once more compiled
blocks that start in a granule were dropped than the configuration allows, and as long as the processor
is not reset, an execution at any address of the granule compiles nothing and runs a single instruction
if it finds no block. No number of dropped blocks is more than 255 to a byte that counts them, so with
that threshold code is compiled whenever no block of it is found. -/
theorem interpreted_of_drops (lived : w.engine.Lived bus) (cached : (w.engine.caches.get cpu).isSome)
    {before after : List (Call σ)} (keeps : ∀ next ∈ before ++ after, next.KeepsCounts cpu)
    (often : w.engine.config.recompileThreshold.toNat < w.drops bus cpu granule before) :
    ∃ c, (w.calls bus (before ++ after)).engine.caches.get cpu = some c ∧
      ∀ (s : CpuState) (host : σ) (slot : Nat), s.cpu = cpu → c.table.slot? s.next = some slot →
        slot / CodeCache.granuleSlots = granule →
          (w.engine.config.recompileThreshold ≠ 255 →
            (w.calls bus (before ++ after)).engine.Interprets bus s host c slot) ∧
          (w.engine.config.recompileThreshold = 255 →
            (w.calls bus (before ++ after)).engine.Compiles bus s host c) := by
  obtain ⟨c₀, held⟩ := Option.isSome_iff_exists.mp cached
  obtain ⟨c, now, count⟩ := count_calls bus granule (before ++ after) held keeps
  refine ⟨c, now, ?_⟩
  rintro s host slot rfl place rfl
  have threshold := recompileThreshold_calls bus (before ++ after) w
  have thrashes :
      c.isThrashing (w.calls bus (before ++ after)).engine.config s.next = true ↔ _ :=
    CodeCache.isThrashing_iff place
  have more := drops_append bus s.cpu (slot / CodeCache.granuleSlots) before after w
  rw [threshold, count, more] at thrashes
  constructor
  · intro some
    have low : w.engine.config.recompileThreshold.toNat < 255 := by
      have := w.engine.config.recompileThreshold.isLt
      have : w.engine.config.recompileThreshold.toNat ≠ 255 := fun full =>
        some (BitVec.eq_of_toNat_eq full)
      omega
    exact Engine.interprets_of_isThrashing (lived.calls (before ++ after) w.host).sound now place
      (thrashes.mpr (by omega))
  · -- the count has stopped at 255, which is not more than the threshold
    intro none
    rw [none, show (255 : BitVec 8).toNat = 255 from rfl] at thrashes
    exact Engine.compiles_of_calm now place (Bool.eq_false_iff.mpr fun often => by
      have := thrashes.mp often
      omega)

/-- An engine for code that may be changed once. -/
def strict : Session Unit :=
  { engine := ((Engine.new { recompileThreshold := 1 }).1.init Chronicle.moves ()).2.1, host := () }

/-- The code at the start is executed and changed. -/
def rewrite : List (Call Unit) := [.execute (.new .arm9), .invalidate 4 .arm9]

/-- The second change is one too many. -/
theorem interpreted_of_rewrites :
    strict.engine.config.recompileThreshold.toNat <
        strict.drops Chronicle.moves .arm9 0 (rewrite ++ rewrite) ∧
      ∃ c, (strict.calls Chronicle.moves (rewrite ++ rewrite ++ rewrite)).engine.caches.get .arm9 =
          some c ∧
        (strict.calls Chronicle.moves (rewrite ++ rewrite ++ rewrite)).engine.Interprets
          Chronicle.moves (.new .arm9) () c 0 := by
  have lived : strict.engine.Lived Chronicle.moves := (Engine.Lived.new _).init () .usual
  have often : strict.engine.config.recompileThreshold.toNat <
      strict.drops Chronicle.moves .arm9 0 (rewrite ++ rewrite) := by
    decide +kernel
  have place : ((strict.calls Chronicle.moves (rewrite ++ rewrite ++ rewrite)).engine.caches.get
      .arm9).map (fun c => c.table.slot? 0) = some (some 0) := by
    decide +kernel
  have keeps : ∀ next ∈ rewrite ++ rewrite ++ rewrite, next.KeepsCounts .arm9 := by
    simp [rewrite, Call.KeepsCounts]
  obtain ⟨c, now, there⟩ := interpreted_of_drops lived (by decide +kernel) keeps often
  rw [now] at place
  exact ⟨often, c, now, (there (.new .arm9) () 0 rfl (Option.some.inj place) rfl).1 (by decide)⟩

end Session

end ArmBlocks
