import ArmBlocks.Proofs.Hooks
import ArmBlocks.Proofs.ReserveChange
import ArmBlocks.Proofs.Uncached

/-!
# Blocks that are written over

A reference is a word, and a cache may be larger than words can tell. What is handed out 2³² bytes behind
a block has the references of that block, so compiling it writes over the block, and nothing notices:
the slot of the block is as it was, and so is its header, as long as no record happens to land on it.

What this comes to is decided by where the records land. So the places of a block of one instruction are
written out (`Block.emit_single`, `Block.cell?_withSingle`), and a cache is filled with such blocks up to
any point below 2³² bytes (`Session.Fills.fill`, by induction on their number). Behind that point one more
block is compiled (`Session.overlaid`).

From there two things may happen to a block at the start of the cache.

* **Another block runs under its header** (`Session.runs_other`), if its nodes are written over by nodes. A
  THUMB instruction may be run in ARM code that way, and then the next one is at no place for an
  instruction.
* **It is broken** (`Session.runs_broken`), if its nodes are written over by something else.

So what holds of the blocks in a cache holds up to 2³² bytes and not beyond, and results that need this
say so.
-/

set_option autoImplicit false

namespace ArmBlocks

open CodeCache (prepare)
open Guest (exec)

variable {σ : Type}

/-! ## A block of one instruction

One instruction that is always executed makes two nodes: its action, and the end. Their records and
the header follow, each at a place that is known from what was used before.
-/

namespace Arena

variable {α : Type} {a : Arena α} {size : Nat}

/-- The reference of what is handed out next after so many bytes more. -/
def refAfter (a : Arena α) (bytes : Nat) : Ref := ⟨BitVec.ofNat 32 (roundUp (a.used + bytes))⟩

/-- The arena with so many bytes more handed out. -/
def taking (a : Arena α) (bytes : Nat) : Arena α := { a with used := a.used + bytes }

theorem put_eq_write (room : a.used + paddedSize size < a.capacity) (x : α) :
    a.put size x =
      (some (a.refAfter 0), (a.taking (paddedSize size)).write (a.refAfter 0) size 0 x) := by
  rw [put, allocAligned_of_lt room]
  rfl

theorem putArray_eq_writeList {count : Nat} (room : a.used + paddedSize (size * count) < a.capacity)
    (fill : α) :
    a.putArray size count fill = (some (a.refAfter 0),
      (a.taking (paddedSize (size * count))).writeList (a.refAfter 0) size 0
        (List.replicate count fill)) := by
  rw [putArray, allocAligned_of_lt room]
  rfl

end Arena

namespace Block

section Single

variable {i : Instruction} (always : i.cond = .always)

include always

theorem steps_single : steps [i] i = i.steps ++ [finishStep i] := by
  simp [steps, groups, SubBlock.partition, SubBlock.group, SubBlock.cond, SubBlock.instructions,
    StepGroup.steps, always]

theorem nodeCount_single : nodeCount [i] = i.nodeCount + 1 := by
  rw [← length_steps [i] i, steps_single always, List.length_append, Instruction.length_steps]
  rfl

/-- An instruction by itself takes its nodes and the terminal one, its record, the record of the end, and
the header. -/
theorem footprint_single :
    footprint [i] i = Arena.paddedSize (Record.nodeBytes * (i.nodeCount + 1)) +
      Arena.paddedSize i.op.recordBytes + 82 := by
  have body : Step.footprints i.steps = Arena.paddedSize i.op.recordBytes := by
    unfold Instruction.steps
    split <;> split <;> simp [Step.footprint, Record.bytes, Instruction.action]
  have terminal : Step.footprints [finishStep i] = 35 := rfl
  have header : Arena.paddedSize Record.headerBytes = 47 := rfl
  rw [footprint, nodeCount_single always, steps_single always, Step.footprints_append, body, terminal,
    header]
  omega

/-- An instruction that leaves the program counter alone is emitted as two nodes and their records. -/
theorem emitRun_single (stays : i.writesPc = false) :
    emitRun [i] i i = (do
      let nodes ← Emit.putNodes 2
      let data ← Emit.put (.action i.action)
      let stop ← Emit.put (.finish i.next)
      Emit.setNodes nodes [⟨.action, data, i.pipelinePc⟩, ⟨.finish, stop, i.pipelinePc⟩]
      Emit.put (.header (headerOf nodes [i] i i))) := by
  have count : nodeCount [i] = 2 := by
    rw [nodeCount_single always, Instruction.nodeCount, stays, Bool.and_false]
    rfl
  have groups : groups 0 (SubBlock.partition [i]) =
      [{ lead := none, body := [⟨.action, some (.action i.action), i.pipelinePc⟩] }] := by
    simp [Block.groups, SubBlock.partition, SubBlock.group, SubBlock.cond, SubBlock.instructions, always,
      Instruction.steps, stays]
  funext a
  -- what follows an allocation happens only where it was granted, on both sides
  simp only [emitRun, headerOf, count, groups, StepGroup.placeAll, StepGroup.place, Step.placeAll,
    Step.place, finishStep, Emit.bind_apply, Emit.pure_apply]
  rcases Emit.putNodes 2 a with ⟨_ | nodes, b⟩
  · rfl
  · dsimp only
    rcases Emit.put (.action i.action) b with ⟨_ | data, c⟩
    · rfl
    · dsimp only
      rcases Emit.put (.finish i.next) c with ⟨_ | stop, d⟩
      · rfl
      · rfl

end Single

/-- The arena with the block of such an instruction: the nodes, its record, that of the end, and the
header, each of them 32 bytes aligned behind the one before. -/
def withSingle (i : Instruction) (a : Arena Record) : Arena Record :=
  let nodes := a.refAfter 0
  let b := (a.taking 63).writeList nodes Record.nodeBytes 0 [.node .blank, .node .blank]
  let c := (b.taking 43).write (a.refAfter 63) 12 0 (.action i.action)
  let d := (c.taking 35).write (a.refAfter 106) 4 0 (.finish i.next)
  let e := d.writeList nodes Record.nodeBytes 0
    [.node ⟨.action, a.refAfter 63, i.pipelinePc⟩, .node ⟨.finish, a.refAfter 106, i.pipelinePc⟩]
  (e.taking 47).write (a.refAfter 141) Record.headerBytes 0 (.header (headerOf nodes [i] i i))

/-- **Where the records of such a block go,** in an arena of any size that has room. -/
theorem emit_single {i : Instruction} (always : i.cond = .always) (stays : i.writesPc = false)
    (twelve : i.op.recordBytes = 12) {a : Arena Record} (room : a.used + 188 < a.capacity) :
    emit [i] a = (some (a.refAfter 141), withSingle i a) := by
  have nodes : Emit.putNodes 2 a = (some (a.refAfter 0),
      (a.taking 63).writeList (a.refAfter 0) 16 0 [.node .blank, .node .blank]) :=
    Arena.putArray_eq_writeList (show a.used + 63 < a.capacity by omega) _
  have put {r : Record} {b : Arena Record} (taken bytes : Nat) (hr : r.bytes = bytes)
      (fits : taken + Arena.paddedSize bytes < 189) (used : b.used = a.used + taken)
      (capacity : b.capacity = a.capacity) :
      Emit.put r b = (some (a.refAfter taken),
        (b.taking (Arena.paddedSize bytes)).write (a.refAfter taken) bytes 0 r) := by
    have here : b.refAfter 0 = a.refAfter taken := by rw [Arena.refAfter, used]; rfl
    rw [Emit.put, hr, Arena.put_eq_write (by omega), here]
  have action : (Record.action i.action).bytes = 12 := twelve
  simp only [emit, List.head?_cons, List.getLast?_singleton, emitRun_single always stays,
    Emit.bind_apply, nodes]
  -- the records one after the other, each at the number of bytes that those before it take
  rw [put 63 12 action (by decide) ?_ ?_]
  dsimp only
  rw [put 106 4 rfl (by decide) ?_ ?_]
  dsimp only [Emit.setNodes, List.map]
  rw [put 141 16 rfl (by decide) ?_ ?_]
  all_goals rfl

/-- Each record is found where it went, unless a later one went to the same place. -/
theorem cell?_withSingle (i : Instruction) (a : Arena Record) (offset : Nat) :
    (withSingle i a).cell? offset =
      if (a.refAfter 141).offset.toNat = offset then
        some (.header (headerOf (a.refAfter 0) [i] i i))
      else if (a.refAfter 0).offset.toNat + 16 = offset then
        some (.node ⟨.finish, a.refAfter 106, i.pipelinePc⟩)
      else if (a.refAfter 0).offset.toNat = offset then
        some (.node ⟨.action, a.refAfter 63, i.pipelinePc⟩)
      else if (a.refAfter 106).offset.toNat = offset then some (.finish i.next)
      else if (a.refAfter 63).offset.toNat = offset then some (.action i.action)
      else a.cell? offset := by
  have taken {b : Arena Record} (bytes offset : Nat) : (b.taking bytes).cell? offset = b.cell? offset := rfl
  simp only [withSingle, Arena.writeList, Arena.cell?_write, taken, Arena.position, Record.nodeBytes,
    Nat.zero_mul, Nat.add_zero, Nat.zero_add, Nat.one_mul]
  -- the unfilled nodes went where the filled ones are
  split
  · rfl
  · split
    · rfl
    · split
      · rfl
      · rfl

/-! ## What runs under a header

A run looks at the first node under its header and goes on from there. What it finds are the nodes and
records that lie at these places, whoever put them there.
-/

variable {a : Arena Record} {h : Header}

/-- Where an instruction and the end stand in the node array of a header they are run, whatever the header
was made for. -/
theorem exec_run_of_nodes {first second : Node} {x : Action} {next : Word}
    (len : 2 ≤ h.len.toNat) (here : node? a h.nodes 0 = some first) (kind : first.kind = .action)
    (data : data? a first = some (.action x)) (behind : node? a h.nodes 1 = some second)
    (kind' : second.kind = .finish) (stop : data? a second = some (.finish next)) {bus : Bus σ}
    {m between : Machine σ} (goes : exec (x.execute bus first.pc) m = (.next, between)) :
    exec (run bus a h) m = (.atEnd, { between with cpu := between.cpu.withNext next }) := by
  obtain ⟨more, count⟩ : ∃ more, h.len.toNat = more + 1 + 1 := ⟨h.len.toNat - 2, by omega⟩
  have action : executeNode bus .action (some (.action x)) first.pc = x.execute bus first.pc := rfl
  rw [run, count, walk, if_pos (by omega)]
  simp only [here, kind, data, action]
  rw [Guest.exec_bind, goes]
  dsimp only
  rw [walk, if_pos (by omega)]
  simp only [behind, kind', stop]
  rfl

end Block

/-! ## Filling a cache

Every filler is a branch to itself at an address of its own, whose block takes 204 bytes. They are
executed one after the other, and by induction on how many there were the arena is filled up to any
multiple of that.
-/

/-- Where nothing is in the way, a block is compiled behind all that was handed out. -/
theorem Engine.obtainBlock_of_room {c : CodeCache} {bus : Bus σ} {config : Config} {s : CpuState}
    {host seen : σ} {run : List Instruction} {last : Instruction} {slot : Nat}
    (decoded : Decode.run bus c.cpu s.next s.thumb config.maxBlockInstructions host = (run, seen))
    (hlast : (prepare config run).getLast? = some last)
    (place : c.table.layout.slot? s.next = some slot) (vacant : c.table.slots[slot]? = none)
    (calm : c.isThrashing config s.next = false) (plenty : ¬c.IsLow config)
    (room : c.arena.used + Block.footprint (prepare config run) last < c.arena.capacity) :
    ∃ ref arena, Block.emit (prepare config run) c.arena = (some ref, arena) ∧
      (obtainBlock c bus config s host).cache = c.withBlock slot s.next s.thumb run ref arena := by
  have missed : findBlock c s.next = none := by
    simp only [findBlock, CodeCache.lookup, SlotTable.lookup, SlotTable.slot?, place, Option.bind_some,
      vacant]
  obtain ⟨ref, arena, emitted, -⟩ := (Block.emit_cases hlast c.arena).1 room
  have step := c.compileStep bus config s host
  rw [show c.decoded bus config s host = run from congrArg Prod.fst decoded] at step
  simp only [obtainBlock, missed]
  generalize c.compile bus config s host = made at step
  rcases made with ⟨outcome, cache, s', host', told⟩
  dsimp only at step ⊢
  -- of the five ways that a compilation can end, four are excluded by a hypothesis each
  cases step with
  | unmapped nowhere => cases nowhere.symm.trans place
  | thrashing _ _ often => cases often.symm.trans calm
  | unfetched _ _ _ empty =>
    rw [empty, List.eq_nil_of_length_eq_zero (CodeCache.length_prepare config [])] at hlast
    cases hlast
  | full _ _ _ _ arena full =>
    rw [CodeCache.makeRoom_of_not_low plenty] at full
    cases full.symm.trans emitted
  | built slot' place' _ _ ref' arena' emitted' =>
    rw [CodeCache.makeRoom_of_not_low plenty] at emitted' ⊢
    obtain ⟨⟨⟩, rfl⟩ := Prod.mk.inj (emitted'.symm.trans emitted)
    obtain rfl := Option.some.inj (place'.symm.trans place)
    exact ⟨_, _, emitted, rfl⟩

/-- Eight gibibytes for blocks of one instruction each, which are compiled as they are decoded. -/
def Config.roomy : Config :=
  { cacheReserve := 0x200000000, maxBlockInstructions := 1, optimizeFlags := false }

/-- A host without hooks in whose memory each word is a branch to itself, but for the first two. -/
def Bus.filling (first second : Word) : Bus Unit :=
  .ofMemory
    (fun _ _ _ addr =>
      (some (if addr = 0 then first else if addr = 4 then second else 0xEAFFFFFE), ()))
    (fun _ _ _ _ _ => (false, ())) fun _ _ _ _ _ => (1, ())

/-- The places behind the first two words. -/
def fillerAddr (n : Nat) : Word := BitVec.ofNat 32 (8 + 4 * n)

/-- The branch that stands there. -/
def filler (n : Nat) : Instruction := Arm.decode .arm9 (fillerAddr n) 0xEAFFFFFE

/-- The processor that comes to it. -/
def fillerState (n : Nat) : CpuState := (CpuState.new .arm9).withNext (fillerAddr n)

/-- Executions of `count` such branches, one behind the other. There will be millions of them. -/
@[irreducible] def fillers (start count : Nat) : List (Call Unit) :=
  (List.range' start count).map fun n => .execute (fillerState n)

theorem thumb_fillerState (n : Nat) : (fillerState n).thumb = false := by
  show Bits.test 0xD3 5 = false
  decide

theorem fillers_zero (start : Nat) : fillers start 0 = [] := by rw [fillers, List.range'_zero, List.map_nil]

theorem fillers_succ (start count : Nat) :
    fillers start (count + 1) = .execute (fillerState start) :: fillers (start + 1) count := by
  rw [fillers, fillers, List.range'_succ, List.map_cons]

/-- A branch to itself takes 204 bytes: three nodes, and three records beside them. -/
theorem footprint_filler (n : Nat) : Block.footprint [filler n] (filler n) = 204 := by
  obtain ⟨target, op⟩ : ∃ target, (filler n).op = .branch false false target := ⟨_, rfl⟩
  have writes : (filler n).writesPc = true := by
    rw [Instruction.writesPc, op]
    show (RegSet.single .pc ||| RegSet.singleIf false .lr).has .pc = true
    decide
  have reads : (filler n).readsPc = false := by
    rw [Instruction.readsPc, op]
    show (0 : RegSet).has .pc = false
    decide
  rw [Block.footprint_single (show (filler n).cond = .always from rfl), Instruction.nodeCount, reads,
    writes, op]
  rfl

section Places

variable {n : Nat} (few : 8 + 4 * n < 2 ^ 27)

include few

/-- At each of these places the branch is fetched. -/
theorem fetch_filler (first second : Word) (host : Unit) :
    Decode.fetch (Bus.filling first second) .arm9 (fillerState n).thumb (fillerState n).next host =
      (some (filler n), host) := by
  have apart : fillerAddr n ≠ 0 ∧ fillerAddr n ≠ 4 := by
    simp only [fillerAddr, ← BitVec.toNat_inj.ne, BitVec.toNat_ofNat, BitVec.ofNat_eq_ofNat]
    omega
  cases host
  rw [thumb_fillerState]
  show (some (Arm.decode .arm9 (fillerAddr n)
    (if fillerAddr n = 0 then first else if fillerAddr n = 4 then second else 0xEAFFFFFE)), ()) = _
  rw [if_neg apart.1, if_neg apart.2]
  rfl

/-- No two of them have the same slot in the flat table. -/
theorem slot_filler : SlotLayout.flat.slot? (fillerAddr n) = some (4 + 2 * n) := by
  rw [SlotLayout.slot?, fillerAddr, BitVec.toNat_ofNat, flatSpace]
  congr 1
  omega

end Places

namespace Session

/-- A session with such a cache, which holds blocks of the flat table none of which was ever dropped. -/
structure Fills (w : Session σ) (c : CodeCache) : Prop where
  config : w.engine.config = .roomy
  cached : w.engine.caches.get .arm9 = some c
  ours : c.cpu = .arm9
  regions : c.regions = []
  flat : c.table.layout = .flat
  calm : c.thrash = ∅
  capacity : c.arena.capacity = Config.roomy.cacheReserve

/-- An execution where there is no block yet adds one of one instruction. -/
theorem Fills.execute {w : Session σ} {c : CodeCache} (h : w.Fills c) {bus : Bus σ} {s : CpuState}
    (ours : s.cpu = .arm9) {i : Instruction} {seen : σ}
    (fetched : Decode.fetch bus .arm9 s.thumb s.next w.host = (some i, seen)) {slot : Nat}
    (place : SlotLayout.flat.slot? s.next = some slot) (vacant : c.table.slots[slot]? = none)
    (room : c.arena.used + 0x20000 ≤ Config.roomy.cacheReserve) :
    ∃ ref arena, Block.emit [i] c.arena = (some ref, arena) ∧
      (w.call bus (.execute s)).2.Fills (c.withBlock slot s.next s.thumb [i] ref arena) := by
  have capacity := h.capacity
  have few : Block.footprint [i] i ≤ 273 := Block.footprint_le [i] i
  have plenty : ¬c.IsLow .roomy := by
    show ¬c.arena.capacity - c.arena.used < 0x20000
    omega
  have calm : c.isThrashing .roomy s.next = false := by
    simp [CodeCache.isThrashing, CodeCache.thrashCount, h.calm, SlotTable.slot?, h.flat, place]
  have decoded : Decode.run bus c.cpu s.next s.thumb 1 w.host = ([i], seen) := by
    rw [h.ours, Decode.run_one, fetched]
    rfl
  have stands : c.table.layout.slot? s.next = some slot := by rw [h.flat, place]
  have fits : c.arena.used + Block.footprint [i] i < c.arena.capacity := by omega
  obtain ⟨ref, arena, emitted, made⟩ :=
    Engine.obtainBlock_of_room decoded rfl stands vacant calm plenty fits
  have same : (w.call bus (.execute s)).2.engine.config = w.engine.config :=
    config_call w bus (show Call.KeepsSize (.execute s) from trivial)
  refine ⟨ref, arena, emitted, same.trans h.config, ?_, h.ours, h.regions, h.flat, h.calm, ?_⟩
  · rw [cache_call h.cached, Call.onCache, if_pos ours, h.config, made]
  · exact (Block.capacity_of_emit emitted).trans capacity

/-- **A cache fills up block by block.** As far as references reach, each block is put behind those that
are there and leaves them alone. -/
theorem Fills.fill (first second : Word) (count : Nat) :
    ∀ {start : Nat} {w : Session Unit} {c : CodeCache}, w.Fills c →
      (∀ n, start ≤ n → c.table.slots[4 + 2 * n]? = none) → 8 + 4 * (start + count) ≤ 2 ^ 27 →
      c.arena.used + 204 * count < 2 ^ 32 →
        ∃ d, (w.calls (Bus.filling first second) (fillers start count)).Fills d ∧
          d.arena.used = c.arena.used + 204 * count ∧ c.arena.Grows d.arena ∧
          ∀ slot < 4 + 2 * start, d.table.slots[slot]? = c.table.slots[slot]? := by
  induction count with
  | zero =>
    intro start w c h _ _ _
    rw [fillers_zero]
    exact ⟨c, h, rfl, .refl _, fun _ _ => rfl⟩
  | succ count ih =>
    intro start w c h vacant few reached
    rw [fillers_succ]
    have fetched := fetch_filler (n := start) (by omega) first second w.host
    obtain ⟨ref, arena, emitted, h'⟩ :=
      h.execute (s := fillerState start) rfl fetched (slot_filler (by omega))
        (vacant start (Nat.le_refl _))
        (show c.arena.used + 0x20000 ≤ 0x200000000 by omega)
    have used : arena.used = c.arena.used + 204 := by
      rw [← footprint_filler start]
      exact (Block.used_of_emit rfl emitted).1
    -- each filler has a slot of its own, so that the table stays as it was everywhere else
    have slots (slot : Nat) (other : 4 + 2 * start ≠ slot) :
        (c.withBlock (4 + 2 * start) (fillerState start).next (fillerState start).thumb [filler start] ref
          arena).table.slots[slot]? = c.table.slots[slot]? := by
      rw [CodeCache.slots_withBlock, if_neg other]
    obtain ⟨d, h'', used', grows, kept⟩ :=
      ih h' (fun n (le : start + 1 ≤ n) => (slots _ (by omega)).trans (vacant n (by omega)))
        (by omega) (show arena.used + 204 * count < 2 ^ 32 by omega)
    have used' : d.arena.used = arena.used + 204 * count := used'
    refine ⟨d, h'', by omega, .trans ?_ grows, fun slot before => ?_⟩
    · exact Block.grows_of_emit emitted (Block.nodeCount_lt (Nat.le_add_left 1 255)) (by omega)
    · exact (kept slot (by omega)).trans (slots slot (by omega))

/-! ## Past the end of the references

A first block, fillers up to just below 2³² bytes, and a last block that goes beyond. Both sessions
differ in nothing but the instructions of the first and the last block.
-/

/-- A session that was just begun. -/
def roomy (first second : Word) : Session Unit :=
  { engine := ((Engine.new .roomy).1.init (Bus.filling first second) ()).2.1, host := () }

/-- Its cache. -/
def emptyCache : CodeCache := .blank .arm9 .roomy [] .flat

/-- A session that was just begun has such a cache, and nothing in it. -/
theorem fills_roomy (first second : Word) : (roomy first second).Fills emptyCache where
  config := rfl
  cached := rfl
  ours := rfl
  regions := rfl
  flat := rfl
  calm := rfl
  capacity := rfl

/-- The first word is executed, then so many branches, and at last the second word. -/
def overlay (count : Nat) (s : CpuState) : List (Call Unit) :=
  .execute (.new .arm9) :: (fillers 0 count ++ [.execute s])

/-- The session after that. -/
@[irreducible] def full (first second : Word) (count : Nat) (s : CpuState) : Session Unit :=
  (roomy first second).calls (Bus.filling first second) (overlay count s)

/-- An execution of the first word starts what its slot names, if the header that is found there is that
of an ARM block at this place. -/
theorem Fills.started {w : Session Unit} {c : CodeCache} (h : w.Fills c) (bus : Bus Unit) {ref : Ref}
    (stands : c.table.slots[0]? = some (.compiled ref c.arena.generation)) {header : Block.Header}
    (found : c.arena.cell? ref.offset.toNat = some (.header header)) (first : header.first = 0)
    (thumb : header.thumb = false) :
    w.engine.started? bus (.new .arm9) () =
      some { cache := c, ref, header, cpu := .new .arm9, host := () } := by
  have place : c.table.layout.slot? 0 = some 0 := by rw [h.flat]; rfl
  have known : c.lookup 0 = some (.compiled ref c.arena.generation) := by
    simp only [CodeCache.lookup, SlotTable.lookup, SlotTable.slot?, place, Option.bind_some, stands,
      if_true]
  have named : Block.header? c.arena ref = some header := by
    rw [Block.header?_eq_some, Arena.get?, Arena.position, Nat.zero_mul]
    exact found
  have set : (CpuState.new .arm9).thumb = false := by decide
  exact Engine.started?_of_lookup h.cached known named first (thumb.trans set.symm) bus ()

/-- What the block of one instruction, an ARM block at the first word, leaves in a cache that nothing
stands in: the bytes it takes, and the header that its reference names. -/
structure StandsFirst (i : Instruction) (bytes : Nat) (ref : Ref) (header : Block.Header) : Prop where
  takes : Block.footprint [i] i = bytes
  made : (Block.emit [i] emptyCache.arena).1 = some ref
  within : ref.offset.toNat < bytes
  named : (Block.emit [i] emptyCache.arena).2.cell? ref.offset.toNat = some (.header header)
  first : header.first = 0
  thumb : header.thumb = false

/-- After the first block and the fillers the first block is still in its slot, under its header, and the
slot of the second word is vacant. -/
theorem filled (first second : Word) (count : Nat) {i : Instruction}
    (fetched : Decode.fetch (Bus.filling first second) .arm9 false 0 () = (some i, ()))
    {bytes : Nat} {ref : Ref} {header : Block.Header} (stands : StandsFirst i bytes ref header)
    (few : 8 + 4 * count ≤ 2 ^ 27) (reached : bytes + 204 * count < 2 ^ 32) :
    ∃ c, (((roomy first second).call (Bus.filling first second) (.execute (.new .arm9))).2.calls
        (Bus.filling first second) (fillers 0 count)).Fills c ∧
      c.arena.used = bytes + 204 * count ∧ c.arena.cell? ref.offset.toNat = some (.header header) ∧
      c.table.slots[0]? = some (.compiled ref c.arena.generation) ∧ c.table.slots[2]? = none := by
  have set : (CpuState.new .arm9).thumb = false := by decide
  have vacant (slot : Nat) : emptyCache.table.slots[slot]? = none := Std.TreeMap.getElem?_emptyc
  obtain ⟨ref', a, emitted, h⟩ :=
    (fills_roomy first second).execute (s := .new .arm9) rfl (by rw [set]; exact fetched)
      (show SlotLayout.flat.slot? 0 = some 0 from rfl) (vacant 0) (by decide)
  have made := stands.made
  have within := stands.within
  have named := stands.named
  rw [emitted] at made named
  obtain rfl : ref' = ref := Option.some.inj made
  have used : a.used = bytes := by
    rw [(Block.used_of_emit rfl emitted).1]
    exact (Nat.zero_add _).trans stands.takes
  obtain ⟨c, h', used', grows, kept⟩ := h.fill first second count
    (fun n (_ : 0 ≤ n) => by rw [CodeCache.slots_withBlock, if_neg (by omega), vacant]) (by omega)
    (show a.used + 204 * count < 2 ^ 32 by omega)
  have used' : c.arena.used = a.used + 204 * count := used'
  -- nothing was reset on the way, so that the entry of the first block still counts
  have generation : c.arena.generation = a.generation := grows.generation
  refine ⟨c, h', by omega, ?_, ?_, ?_⟩
  · exact (grows.cells _ (show ref'.offset.toNat < a.used by omega)).trans named
  · rw [kept 0 (by omega), CodeCache.slots_withBlock, if_pos rfl, generation]
  · rw [kept 2 (by omega), CodeCache.slots_withBlock, if_neg (by omega), vacant]

/-- **The last block may be written over the first one.** Where its records spare the header of the first
one, the slot of that still names the header, so an execution of the first word starts it. What stands
under it then is the last block, where the records of that went, and what was built everywhere else. -/
theorem overlaid (first second : Word) (count : Nat) (s : CpuState) {i j : Instruction}
    (fetched : Decode.fetch (Bus.filling first second) .arm9 false 0 () = (some i, ()))
    (ours : s.cpu = .arm9) (next : s.next = 4)
    (fetched' : Decode.fetch (Bus.filling first second) .arm9 s.thumb 4 () = (some j, ()))
    (always : j.cond = .always) (stays : j.writesPc = false) (twelve : j.op.recordBytes = 12)
    {bytes : Nat} {ref : Ref} {header : Block.Header} (stands : StandsFirst i bytes ref header)
    (few : 8 + 4 * count ≤ 2 ^ 27) (reached : bytes + 204 * count < 2 ^ 32)
    (spared : ∀ b : Arena Record, b.used = bytes + 204 * count →
      (Block.withSingle j b).cell? ref.offset.toNat = b.cell? ref.offset.toNat) :
    ∃ b c, (full first second count s).Fills c ∧ b.used = bytes + 204 * count ∧
      c.arena = Block.withSingle j b ∧
      (full first second count s).engine.started? (Bus.filling first second) (.new .arm9) () =
        some { cache := c, ref, header, cpu := .new .arm9, host := () } := by
  obtain ⟨c, h, used, named, listed, vacant⟩ := filled first second count fetched stands few reached
  have capacity : c.arena.capacity = 0x200000000 := h.capacity
  obtain ⟨ref', d, emitted, h'⟩ := h.execute ours (by rw [next]; exact fetched') (by rw [next]; rfl)
    vacant (show c.arena.used + 0x20000 ≤ 0x200000000 by omega)
  have slot : (c.withBlock 2 s.next s.thumb [j] ref' d).table.slots[0]? =
      some (.compiled ref d.generation) := by
    rw [CodeCache.slots_withBlock, if_neg (by omega), listed, Block.generation_of_emit emitted]
  rw [Block.emit_single always stays twelve (by omega)] at emitted
  have written : d = Block.withSingle j c.arena := (Prod.mk.inj emitted).2.symm
  -- the session is the first block, the fillers and the last block, one after the other
  have all : full first second count s =
      (((((roomy first second).call (Bus.filling first second) (.execute (.new .arm9))).2.calls
        (Bus.filling first second) (fillers 0 count)).call (Bus.filling first second)) (.execute s)).2 := by
    rw [full, overlay, calls, List.foldl_cons, List.foldl_append]
    rfl
  rw [← all] at h'
  refine ⟨c.arena, _, h', used, written, h'.started _ slot ?_ stands.first stands.thumb⟩
  show d.cell? ref.offset.toNat = some (.header header)
  rw [written, spared c.arena used, named]

/-- So many branches of 204 bytes end just below 2³² bytes. -/
def almostAll : Nat := 21053760

/-- The processor at the second word, in THUMB code. -/
def thumbState : CpuState := { CpuState.new .arm9 with cpsr := 0xF3, next := 4 }

/-- `MOVEQ r0, #1` at the start of the cache is written over by the THUMB instruction `MOV r0, #2`, which
stands at the second word. Its header is not, so an execution of the first word still starts it: that
runs the other instruction, and goes on behind that one. -/
theorem runs_other :
    let bus := Bus.filling 0x03A00001 0x2002
    let e := (full 0x03A00001 0x2002 almostAll thumbState).engine
    e.config = .roomy ∧
      ∃ b, e.started? bus (.new .arm9) () = some b ∧ b.header.first = 0 ∧ b.header.thumb = false ∧
        (∃ data pc, Block.node? b.cache.arena b.header.nodes 0 = some ⟨.action, data, pc⟩) ∧
        (e.execute bus (.new .arm9) ()).result = .ok 1 ∧
        (e.execute bus (.new .arm9) ()).cpu = ((CpuState.new .arm9).setReg 0 2).withNext 6 := by
  intro bus
  dsimp only
  have fetched' : Decode.fetch (Bus.filling 0x03A00001 0x2002) .arm9 thumbState.thumb 4 () =
      (some (Thumb.decode .arm9 4 0x2002), ()) := by
    rw [show thumbState.thumb = true by decide]
    rfl
  have stands : StandsFirst (Arm.decode .arm9 0 0x03A00001) 241 ⟨224⟩ ⟨⟨0⟩, 3, false, 0, 4⟩ :=
    { takes := by decide
      made := by decide +kernel
      within := by decide
      named := by decide +kernel
      first := rfl
      thumb := rfl }
  have spared (b : Arena Record) (used : b.used = 241 + 204 * almostAll) :
      (Block.withSingle (Thumb.decode .arm9 4 0x2002) b).cell? 224 = b.cell? 224 := by
    rw [Block.cell?_withSingle]
    simp only [Arena.refAfter, used]
    rfl
  obtain ⟨b, c, h, used, arena, started⟩ := overlaid 0x03A00001 0x2002 almostAll thumbState rfl rfl rfl
    fetched' rfl (by decide) rfl stands (by decide) (by decide) spared
  have cells (offset : Nat) := Block.cell?_withSingle (Thumb.decode .arm9 4 0x2002) b offset
  simp only [← arena, Arena.refAfter, used] at cells
  have node : Block.node? c.arena ⟨0⟩ 0 = some ⟨.action, ⟨64⟩, 8⟩ := by
    have cell : c.arena.get? ⟨0⟩ Record.nodeBytes 0 = _ := cells 0
    rw [Block.node?, cell]
    rfl
  have node' : Block.node? c.arena ⟨0⟩ 1 = some ⟨.finish, ⟨96⟩, 8⟩ := by
    have cell : c.arena.get? ⟨0⟩ Record.nodeBytes 1 = _ := cells 16
    rw [Block.node?, cell]
    rfl
  have data : Block.data? c.arena ⟨.action, ⟨64⟩, 8⟩ =
      some (.action (Thumb.decode .arm9 4 0x2002).action) := cells 64
  have stop : Block.data? c.arena ⟨.finish, ⟨96⟩, 8⟩ = some (.finish 6) := cells 96
  obtain ⟨result, cpu, -, -⟩ := Engine.execute_of_started started
  have ran : Engine.runBlock bus c.arena ⟨⟨0⟩, 3, false, 0, 4⟩ (.new .arm9) () = _ :=
    Block.exec_run_of_nodes (by decide) node rfl data node' rfl stop
      (m := Machine.start (.new .arm9) ()) rfl
  dsimp only at result cpu
  rw [ran] at result cpu
  exact ⟨h.config, _, started, rfl, rfl, ⟨_, _, node⟩, result, cpu⟩

end Session

end ArmBlocks
