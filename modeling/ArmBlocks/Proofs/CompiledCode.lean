import ArmBlocks.Engine
import ArmBlocks.Proofs.CompileSteps

/-!
# What compiling puts into a cache

A block that was just compiled is what the code says, and putting it where it belongs leaves the
others as current as they were. A block of another mirror that stood in its slot is gone then, and
the coverage of that block stays behind; it starts in the same slot and so does no harm.
-/

set_option autoImplicit false

namespace ArmBlocks

open CodeCache (prepare)

variable {σ : Type}

namespace CodeCache

variable {bus : Bus σ} {config : Config} {cpu : Cpu} {layout : SlotLayout}
  {built : Nat → List Instruction} {seen : σ} {told : List Word} {c : CodeCache}

/-- Marking a slot as not worth compiling takes a block away and adds none. -/
theorem Current.marked (h : c.Current bus config cpu layout built seen told) (slot : Nat) :
    (c.marked slot).Current bus config cpu layout built seen told := by
  refine { h with blocks := fun other ref generation hs => ?_ }
  simp only [CodeCache.marked] at hs
  by_cases same : slot = other
  · simp [same] at hs
  · simp only [Std.TreeMap.getElem?_insert, Nat.compare_eq_eq, same, if_false] at hs
    obtain ⟨start, thumb, holds, code⟩ := h.blocks other ref generation hs
    exact ⟨start, thumb, holds.frame rfl rfl, code⟩

theorem Current.makeRoom (h : c.Current bus config cpu layout built seen told) (size : Config) :
    (c.makeRoom size).1.Current bus config cpu layout built seen told := by
  unfold CodeCache.makeRoom
  split
  · exact h.flush
  · exact h

/-- What was built from what, after a block in a slot was replaced. -/
def replaced (built : Nat → List Instruction) (slot : Nat) (run : List Instruction) :
    Nat → List Instruction :=
  fun other => if other = slot then run else built other

/-- A block stays what it is while another run is emitted and filed, if its slot is another one. -/
theorem Holds.build {slot fresh : Nat} {ref : Ref} {start : Word} {thumb : Bool}
    {old run : List Instruction} {first : Instruction}
    (h : c.Holds config layout slot ref start thumb old) (hfirst : run.head? = some first)
    (hfresh : layout.slot? first.addr = some fresh) (apart : slot ≠ fresh) {arena : Arena Record}
    {header : Ref} (emitted : Block.emit run c.arena = (some header, arena))
    (short : run.length ≤ Config.maxBlock) {d : CodeCache} (kept : d.arena = arena) {e : Coverage}
    (filed : d.coverage = c.coverage.record e) :
    d.Holds config layout slot ref start thumb old where
  place := h.place
  nonempty := h.nonempty
  straight := h.straight
  aligned := h.aligned
  filed := by
    rw [filed]
    exact h.filed.record e
  -- a header that names this slot is one from before, as the new one names another slot
  header found hfound here := by
    rw [kept, show arena = (Block.emit run c.arena).2 by rw [emitted]] at hfound
    rcases Block.header?_emit hfirst hfound with older | ⟨new, -⟩
    · exact h.header found older here
    · rw [new, hfresh] at here
      exact absurd (Option.some.inj here).symm apart
  content reached := by
    rw [kept] at reached ⊢
    have grows := Block.grows_of_emit emitted (Block.nodeCount_lt short) reached
    obtain ⟨found, last, hlast, block⟩ := h.content (Nat.lt_of_le_of_lt grows.used reached)
    exact ⟨found, last, hlast, block.mono grows⟩

/-- The run that was just emitted and filed is what stands in its slot. -/
theorem holds_build {slot : Nat} {start : Word} {thumb : Bool} {run : List Instruction}
    (place : layout.slot? start = some slot) (nonempty : run ≠ [])
    (straight : Decode.Straight thumb start run) (aligned : start.toNat % Decode.bytes thumb = 0)
    (short : run.length ≤ Config.maxBlock) {arena : Arena Record} {header : Ref}
    (emitted : Block.emit (prepare config run) c.arena = (some header, arena)) {d : CodeCache}
    (kept : d.arena = arena) (filed : d.coverage = c.coverage.record (coverageOf slot start thumb run)) :
    d.Holds config layout slot header start thumb run := by
  obtain ⟨i, first, hi, hfirst, haddr, hthumb⟩ := head?_prepare config nonempty
  obtain ⟨here, set⟩ := straight.places 0 i (by rw [← List.head?_eq_getElem?]; exact hi)
  obtain ⟨found, hfound, named, set'⟩ := Block.header?_of_emit hfirst emitted
  refine ⟨place, nonempty, straight, aligned, ?_, fun h hh _ => ?_, fun _ => ?_⟩
  · rw [filed]
    exact CoverageMap.filed_record c.coverage _
  · rw [kept, hfound] at hh
    cases hh
    exact ⟨by rw [named, haddr, here]; simp, by rw [set', hthumb, set]⟩
  · obtain ⟨_, last, nodes, -, hlast, block⟩ := Block.at_of_emit_anywhere emitted
      (Block.nodeCount_lt (by rw [length_prepare]; exact short))
    exact ⟨_, last, hlast, kept ▸ block⟩

/-- The cache gives the answer for an address, and its header names that address. -/
structure Answers (c : CodeCache) (addr : Word) (ref : Ref) (generation : Word) : Prop where
  listed : c.table.lookup addr = some (.compiled ref generation)
  named : ∀ h, Block.header? c.arena ref = some h → h.first = addr

/-- A block that is put into a slot is the answer from then on, and leaves the cache current. -/
theorem Current.withBlock (h : c.Current bus config cpu layout built seen told) {slot : Nat}
    {start : Word} {thumb : Bool} {run : List Instruction} (place : layout.slot? start = some slot)
    (nonempty : run ≠ []) (straight : Decode.Straight thumb start run)
    (aligned : start.toNat % Decode.bytes thumb = 0) (short : run.length ≤ Config.maxBlock)
    (code : IsCode bus cpu seen told start thumb run) {ref : Ref} {arena : Arena Record}
    (emitted : Block.emit (prepare config run) c.arena = (some ref, arena)) :
    (c.withBlock slot start thumb run ref arena).Answers start ref arena.generation ∧
      (c.withBlock slot start thumb run ref arena).Current bus config cpu layout
        (replaced built slot run) seen told := by
  obtain ⟨i, first, hi, hfirst, haddr, -⟩ := head?_prepare config nonempty
  obtain ⟨here, -⟩ := straight.places 0 i (by rw [← List.head?_eq_getElem?]; exact hi)
  have start_eq : first.addr = start := by rw [haddr, here]; simp
  have short' : (prepare config run).length ≤ Config.maxBlock := by rw [length_prepare]; exact short
  refine ⟨⟨?_, fun found hfound => ?_⟩,
    ⟨h.ours, h.accepted, h.laid, h.anchored.record place, fun slot' ref' generation hs => ?_⟩⟩
  · simp [CodeCache.withBlock, SlotTable.lookup, SlotTable.slot?, h.laid, place]
  · obtain ⟨written, hwritten, named, -⟩ := Block.header?_of_emit hfirst emitted
    rw [show (c.withBlock slot start thumb run ref arena).arena = arena from rfl, hwritten] at hfound
    cases hfound
    rw [named, start_eq]
  · simp only [CodeCache.withBlock] at hs
    -- the slot that is filled has the new block; every other block goes on, in a larger arena
    by_cases same : slot = slot'
    · subst same
      simp only [Std.TreeMap.getElem?_insert_self, Option.some.injEq, SlotEntry.compiled.injEq] at hs
      obtain ⟨rfl, -⟩ := hs
      refine ⟨start, thumb, ?_, ?_⟩
      · rw [replaced, if_pos rfl]
        exact holds_build place nonempty straight aligned short emitted rfl rfl
      · rw [replaced, if_pos rfl]
        exact code
    · simp only [Std.TreeMap.getElem?_insert, Nat.compare_eq_eq, same, if_false] at hs
      obtain ⟨start', thumb', holds, code'⟩ := h.blocks slot' ref' generation hs
      refine ⟨start', thumb', ?_, ?_⟩
      · rw [replaced, if_neg (Ne.symm same)]
        exact holds.build hfirst (by rw [start_eq]; exact place) (Ne.symm same) emitted short' rfl rfl
      · rw [replaced, if_neg (Ne.symm same)]
        exact code'

/-! ## A miss, and a lookup

A lookup finds a block of its slot whose header names the address, or nothing. Where it finds nothing
a block may be built, which replaces what is known of one slot.
-/

variable {s : CpuState} {host : σ}

/-- Decoding at an executable address makes a run of executable code, and the host is as good as it
was. -/
theorem Current.decoded (h : c.Current bus config cpu layout built host [])
    (quiet : bus.FetchesQuietly cpu layout) (aligned : s.next.toNat % Decode.bytes s.thumb = 0)
    (mapped : (layout.slot? s.next).isSome) :
    let found := Decode.run bus cpu s.next s.thumb config.maxBlockInstructions host
    c.Current bus config cpu layout built found.2 [] ∧ Decode.Straight s.thumb s.next found.1 ∧
      found.1.length ≤ Config.maxBlock ∧ IsCode bus cpu found.2 [] s.next s.thumb found.1 := by
  refine ⟨h.renew fun thumb addr mapped' _ changed => ?_, ?_, ?_, ?_, fun _ _ => List.not_mem_nil⟩
  · exact absurd (Decode.quiet_instructions quiet _ s.next host aligned mapped thumb addr mapped') changed
  · exact Decode.straight_instructions _ s.next host aligned
  · exact Nat.le_trans (Decode.length_instructions_le _ s.next host) (Nat.min_le_right _ _)
  · exact Decode.fetched_instructions quiet _ s.next host aligned mapped

/-- Whichever way compiling ends, the cache is current. If it ends with a block, that is the answer. -/
theorem Current.compile (h : c.Current bus config cpu layout built host [])
    (quiet : bus.FetchesQuietly cpu layout) (aligned : s.next.toNat % Decode.bytes s.thumb = 0) :
    (∃ ref generation slot, (c.compile bus config s host).outcome = .ok (.compiled ref generation) ∧
        layout.slot? s.next = some slot ∧
        (c.compile bus config s host).cache.Answers s.next ref generation ∧
        (c.compile bus config s host).cache.Current bus config cpu layout
          (replaced built slot (c.decoded bus config s host)) (c.compile bus config s host).host []) ∨
      ((∀ ref generation, (c.compile bus config s host).outcome ≠ .ok (.compiled ref generation)) ∧
        (c.compile bus config s host).cache.Current bus config cpu layout built
          (c.compile bus config s host).host []) := by
  obtain rfl := h.ours
  obtain rfl := h.laid
  have room := h.makeRoom config
  have mapped {slot : Nat} (place : c.table.layout.slot? s.next = some slot) :
      (c.table.layout.slot? s.next).isSome := by
    rw [place]
    rfl
  have step := c.compileStep bus config s host
  generalize c.compile bus config s host = made at step ⊢
  rcases made with ⟨outcome, cache, s', host', told⟩
  dsimp only at step ⊢
  -- only the last of the five ways to end builds a block, and only a full arena loses any
  cases step with
  | unmapped place => exact .inr ⟨by simp, h⟩
  | thrashing slot place often => exact .inr ⟨by simp, h.marked slot⟩
  | unfetched slot place calm empty =>
    exact .inr ⟨by simp, (room.decoded quiet aligned (mapped place)).1⟩
  | full slot place calm nonempty arena emitted =>
    exact .inr ⟨by simp, current_of_no_blocks room.ours room.accepted room.laid rfl rfl⟩
  | built slot place calm nonempty ref arena emitted =>
    obtain ⟨current, straight, short, code⟩ := room.decoded quiet aligned (mapped place)
    obtain ⟨answers, current'⟩ :=
      current.withBlock place nonempty straight aligned short code emitted
    exact .inl ⟨ref, arena.generation, slot, rfl, place, answers, current'⟩

end CodeCache

namespace Engine

open CodeCache (Answers)

/-- What was built from what, after the block at the processor's next instruction was found or
compiled. -/
def builtAfter (c : CodeCache) (bus : Bus σ) (config : Config) (s : CpuState) (host : σ)
    (built : Nat → List Instruction) : Nat → List Instruction :=
  match findBlock c s.next, (c.compile bus config s host).outcome, c.table.slot? s.next with
  | none, .ok (.compiled ..), some slot => CodeCache.replaced built slot (c.decoded bus config s host)
  | _, _, _ => built

/-- A block is only found if it was compiled for the very address. -/
theorem answers_of_findBlock {c : CodeCache} {addr : Word} {ref : Ref} {generation : Word}
    (h : findBlock c addr = some (.compiled ref generation)) : c.Answers addr ref generation := by
  unfold findBlock at h
  cases found : c.lookup addr with
  | none =>
    rw [found] at h
    cases h
  | some block =>
    rw [found] at h
    dsimp only at h
    have answer : some block = some (.compiled ref generation) ∧
        ∀ header, blockHeader? c block = some header → header.first = addr := by
      split at h
      · rename_i header hheader
        split at h
        · rename_i same
          refine ⟨h, fun header' eq => ?_⟩
          rw [hheader] at eq
          cases eq
          exact same
        · cases h
      · rename_i none
        exact ⟨h, fun header eq => by rw [none] at eq; cases eq⟩
    obtain ⟨⟨⟩, named⟩ := answer
    refine ⟨?_, named⟩
    unfold CodeCache.lookup at found
    split at found
    · rename_i header generation' listed
      split at found
      · rw [listed, found]
      · cases found
    · exact found

variable {bus : Bus σ} {config : Config} {cpu : Cpu} {layout : SlotLayout}
  {built : Nat → List Instruction} {c : CodeCache} {s : CpuState} {host : σ}

/-- Looking for a block leaves the cache current, and an answer is in it. -/
theorem current_obtainBlock (h : c.Current bus config cpu layout built host [])
    (quiet : bus.FetchesQuietly cpu layout) (aligned : s.next.toNat % Decode.bytes s.thumb = 0) :
    (obtainBlock c bus config s host).cache.Current bus config cpu layout
        (builtAfter c bus config s host built) (obtainBlock c bus config s host).host [] ∧
      ∀ ref generation, (obtainBlock c bus config s host).outcome = .ok (.compiled ref generation) →
        (obtainBlock c bus config s host).cache.Answers s.next ref generation := by
  unfold obtainBlock builtAfter
  cases found : findBlock c s.next with
  | some block =>
    refine ⟨h, fun ref generation eq => ?_⟩
    cases eq
    exact answers_of_findBlock found
  | none =>
    dsimp only
    rcases h.compile quiet aligned with
      ⟨ref, generation, slot, outcome, place, answers, current⟩ | ⟨outcome, current⟩
    · rw [outcome, SlotTable.slot?, h.laid, place]
      refine ⟨current, fun ref' generation' eq => ?_⟩
      cases eq
      exact answers
    · refine ⟨?_, fun ref generation eq => absurd eq (outcome ref generation)⟩
      split
      · rename_i eq _
        exact absurd eq (outcome _ _)
      · exact current

/-- The block that is answered consists of the run it was built from, if references reached all that was
handed out before. With the block itself they may no longer do so. -/
theorem consists_obtainBlock (h : c.Current bus config cpu layout built host [])
    (reached : c.arena.used < 2 ^ 32) {ref : Ref} {generation : Word}
    (outcome : (obtainBlock c bus config s host).outcome = .ok (.compiled ref generation)) {slot : Nat}
    (place : layout.slot? s.next = some slot) :
    ∃ header last,
      (prepare config (builtAfter c bus config s host built slot)).getLast? = some last ∧
      Block.At (obtainBlock c bus config s host).cache.arena ref header
        (Block.steps (prepare config (builtAfter c bus config s host built slot)) last) := by
  have here : c.table.slot? s.next = some slot := by
    rw [SlotTable.slot?, h.laid, place]
  unfold obtainBlock at outcome ⊢
  unfold builtAfter
  cases found : findBlock c s.next with
  | some block =>
    rw [found] at outcome
    cases outcome
    have listed := (answers_of_findBlock found).listed
    rw [SlotTable.lookup, here, Option.bind_some] at listed
    obtain ⟨start, thumb, holds, -⟩ := h.blocks slot ref generation listed
    exact holds.content reached
  | none =>
    rw [found] at outcome
    dsimp only at outcome ⊢
    have short := c.length_decoded_le bus config s host
    have step := c.compileStep bus config s host
    generalize c.compile bus config s host = made at step outcome ⊢
    rcases made with ⟨outcome', cache, s', host', told⟩
    dsimp only at step outcome ⊢
    subst outcome
    cases step with
    | built slot' place' calm nonempty ref arena emitted =>
      obtain ⟨_, last, _, -, hlast, block⟩ := Block.at_of_emit_anywhere emitted
        (Block.nodeCount_lt (by rw [CodeCache.length_prepare]; exact short))
      rw [here]
      dsimp only [CodeCache.replaced]
      rw [if_pos rfl]
      exact ⟨_, last, hlast, block⟩

end Engine

end ArmBlocks
