import ArmBlocks.Proofs.Calls
import ArmBlocks.Proofs.IntactBlocks

/-!
# What is left after a range was invalidated

A range of guest memory is invalidated halfword by halfword, in steps of two from its first address.
From an even address these steps visit every halfword. From an odd one they visit the second byte of
each, which is as good, except that the halfword of the last byte is only visited if the range ends
at an even address. Between two odd bounds the last byte is missed.

`Annals` are a session with the past of one processor's cache, so that the guest code of every block
is known. For them it is said what a range takes (`Annals.left_of_range`): the blocks of all visited
halfwords, which is every block that overlaps the range but for that one byte. And whoever executes
next where a dropped block started reads the code anew (`Engine.ReadsNow`).
-/

set_option autoImplicit false

namespace ArmBlocks

open CodeCache (prepare)

variable {σ : Type}

/-! ## Reading the code anew

An execution that finds no block decodes, or runs one instruction by itself; it is refused where
nothing is mapped. Each time what runs is what the host yields in that moment.
-/

namespace Engine

variable {e : Engine} {bus : Bus σ} {s : CpuState} {host : σ} {c : CodeCache}

/-- An execution of the next instruction of `s` that relies on nothing compiled before: it finds no
code, or runs a block that was emitted from what is decoded there now, or runs the one instruction
without the cache. -/
inductive ReadsNow (e : Engine) (bus : Bus σ) (s : CpuState) (host : σ) : Turn σ → Prop where
  | refused {t : Turn σ} (error : EngineError) (result : t.result = .error error) :
    ReadsNow e bus s host t
  | compiled {t : Turn σ} (b : StartedBlock σ) (room : Arena Record)
    (started : e.started? bus s host = some b) (runs : b.Runs bus t)
    (emitted : Block.emit (prepare e.config
      (Decode.run bus s.cpu s.next s.thumb e.config.maxBlockInstructions host).1) room =
        (some b.ref, b.cache.arena)) : ReadsNow e bus s host t
  | interpreted {t : Turn σ} (e' : Engine) (host' : σ)
    (seen : host' = host ∨
      host' = (Decode.run bus s.cpu s.next s.thumb e.config.maxBlockInstructions host).2)
    (result : t.result = (e'.executeUncached bus s host').result)
    (cpu : t.cpu = (e'.executeUncached bus s host').cpu)
    (after : t.host = (e'.executeUncached bus s host').host) : ReadsNow e bus s host t

theorem execute_of_refused {error : EngineError} (cached : e.caches.get s.cpu = some c)
    (outcome : (obtainBlock c bus e.config s host).outcome = .error error) :
    (e.execute bus s host).result = .error error := by
  simp only [execute, cached, outcome]

/-- Without a header there is nothing to run but the instruction itself. -/
theorem readsNow_of_block {block : SlotEntry} {d : CodeCache} {host' : σ} {told : List Notice}
    (cached : e.caches.get s.cpu = some c)
    (obtained : obtainBlock c bus e.config s host =
      { outcome := .ok block, cache := d, cpu := s, host := host', notices := told })
    (headless : blockHeader? d block = none)
    (seen : host' = host ∨
      host' = (Decode.run bus s.cpu s.next s.thumb e.config.maxBlockInstructions host).2) :
    ReadsNow e bus s host (e.execute bus s host) := by
  refine .interpreted { e with caches := e.caches.set s.cpu (some d) } host' seen ?_ ?_ ?_
  · simp only [execute, cached, obtained, headless]
  · simp only [execute, cached, obtained, headless]
  · simp only [execute, cached, obtained, headless]

/-- With a header of the instruction set in force the block is started. -/
theorem started?_of_block {ref : Ref} {generation : Word} {d : CodeCache} {s' : CpuState} {host' : σ}
    {told : List Notice} {header : Block.Header} (cached : e.caches.get s.cpu = some c)
    (obtained : obtainBlock c bus e.config s host =
      { outcome := .ok (.compiled ref generation), cache := d, cpu := s', host := host'
        notices := told })
    (stands : Block.header? d.arena ref = some header) (set : header.thumb = s'.thumb) :
    e.started? bus s host = some { cache := d, ref, header, cpu := s', host := host' } := by
  simp only [started?, cached, obtained, stands, set, if_true]

/-- Where no block is found the code is read now, whichever way the compilation goes. -/
theorem readsNow_of_miss (cached : e.caches.get s.cpu = some c) (ours : c.cpu = s.cpu)
    (miss : findBlock c s.next = none) : ReadsNow e bus s host (e.execute bus s host) := by
  have step := c.compileStep bus e.config s host
  have obtained : obtainBlock c bus e.config s host = c.compile bus e.config s host := by
    rw [obtainBlock, miss]
  rw [← obtained, ours] at step
  generalize made : obtainBlock c bus e.config s host = found at step
  rcases found with ⟨outcome, cache, cpu, after, told⟩
  dsimp only at step
  -- whatever the compilation comes to, the code is read again
  cases step with
  | unmapped place => exact .refused _ (execute_of_refused cached (by rw [made]))
  | thrashing slot place often => exact readsNow_of_block cached made rfl (.inl rfl)
  | unfetched slot place calm empty => exact readsNow_of_block cached made rfl (.inr rfl)
  | full slot place calm nonempty arena emitted => exact readsNow_of_block cached made rfl (.inr rfl)
  | built slot place calm nonempty ref arena emitted =>
    obtain ⟨i, first, hi, hfirst, -, hthumb⟩ := CodeCache.head?_prepare e.config nonempty
    obtain ⟨header, stands, -, set⟩ := Block.header?_of_emit hfirst emitted
    have thumb : i.thumb = s.thumb := (Decode.place_of_head _ hi).2
    have started := started?_of_block cached made stands (set.trans (hthumb.trans thumb))
    refine .compiled _ (c.makeRoom e.config).1.arena started (execute_of_started started) ?_
    rw [CodeCache.decoded, ours] at emitted
    exact emitted

/-- So it is after a hit that leads nowhere. -/
theorem readsNow_of_headless (cached : e.caches.get s.cpu = some c) (ours : c.cpu = s.cpu)
    (headless : ∀ block, findBlock c s.next = some block → blockHeader? c block = none) :
    ReadsNow e bus s host (e.execute bus s host) := by
  cases found : findBlock c s.next with
  | none => exact readsNow_of_miss cached ours found
  | some block =>
    have obtained : obtainBlock c bus e.config s host =
        { outcome := .ok block, cache := c, cpu := s, host, notices := [] } := by
      rw [obtainBlock, found]
    exact readsNow_of_block cached obtained (headless block found) (.inl rfl)

end Engine

/-! ## The halfwords of a range

Whether a block covers a byte is a matter of its halfword. So of an odd byte the one before it may be
asked as well, and the steps from an odd address are shifted by one byte throughout.
-/

/-- Both bytes of a halfword have its slot. -/
theorem SlotLayout.slot?_succ (layout : SlotLayout) (addr : Word) (even : addr.toNat % 2 = 0) :
    layout.slot? (addr + 1) = layout.slot? addr := by
  have range := addr.isLt
  have next : (addr + 1).toNat = addr.toNat + 1 := by
    rw [BitVec.toNat_add, show (1 : Word).toNat = 1 from rfl]
    omega
  cases layout with
  | regions pages size =>
    have page : pageOf (addr + 1) = pageOf addr := by
      unfold pageOf regionSpace Address.page
      omega
    have offset : (addr + 1).toNat % Address.page / 2 = addr.toNat % Address.page / 2 := by
      unfold Address.page
      omega
    rw [slot?, slot?, page, offset]
  | flat =>
    have offset : (addr + 1).toNat % flatSpace / 2 = addr.toNat % flatSpace / 2 := by
      unfold flatSpace
      omega
    rw [slot?, slot?, offset]

theorem Origin.covers_congr {o : Origin} {layout : SlotLayout} {addr other : Word}
    (same : layout.slot? addr = layout.slot? other) : o.Covers layout addr ↔ o.Covers layout other := by
  unfold Covers
  rw [same]

/-- A byte of a range that no visited address shares its halfword with is the last one, and both
bounds are odd. -/
theorem Past.Spared.missed {past : Past} {layout : SlotLayout} {slot : Nat} {first last byte : Word}
    (spared : past.Spared layout slot first (Engine.halfSteps first last)) {o : Origin}
    (ho : o ∈ past slot)
    (low : first.toNat ≤ byte.toNat) (high : byte.toNat < last.toNat) (covers : o.Covers layout byte) :
    first.toNat % 2 = 1 ∧ last.toNat % 2 = 1 ∧ byte.toNat + 1 = last.toNat := by
  have range := last.isLt
  have visited (k : Nat) (fits : first.toNat + 2 * k < 2 ^ 32) :
      (first + BitVec.ofNat 32 (2 * k)).toNat = first.toNat + 2 * k := by
    rw [BitVec.toNat_add, BitVec.toNat_ofNat]
    omega
  have apart := spared o ho
  unfold Engine.halfSteps at apart
  obtain ⟨k, hk⟩ : ∃ k, byte.toNat - first.toNat = 2 * k ∨ byte.toNat - first.toNat = 2 * k + 1 :=
    ⟨(byte.toNat - first.toNat) / 2, by omega⟩
  rcases hk with even | odd
  · -- the byte itself is visited
    have here : first + BitVec.ofNat 32 (2 * k) = byte := by
      apply BitVec.eq_of_toNat_eq
      rw [visited k (by omega)]
      omega
    exact absurd (here ▸ covers) (apart k (by omega))
  · rcases Nat.mod_two_eq_zero_or_one first.toNat with aligned | unaligned
    · -- the byte before it is visited, and starts its halfword
      have here : first + BitVec.ofNat 32 (2 * k) + 1 = byte := by
        apply BitVec.eq_of_toNat_eq
        rw [BitVec.toNat_add, visited k (by omega), show (1 : Word).toNat = 1 from rfl]
        omega
      have same := layout.slot?_succ (first + BitVec.ofNat 32 (2 * k))
        (by rw [visited k (by omega)]; omega)
      rw [here] at same
      exact absurd ((Origin.covers_congr same).mp covers) (apart k (by omega))
    · -- the byte after it is visited, unless the range ends there
      by_cases ends : byte.toNat + 1 = last.toNat
      · exact ⟨unaligned, by omega, ends⟩
      · have here : first + BitVec.ofNat 32 (2 * (k + 1)) = byte + 1 := by
          apply BitVec.eq_of_toNat_eq
          rw [visited (k + 1) (by omega), BitVec.toNat_add, show (1 : Word).toNat = 1 from rfl]
          omega
        have same := layout.slot?_succ byte (by omega)
        rw [← here] at same
        exact absurd ((Origin.covers_congr same).mpr covers) (apart (k + 1) (by omega))

/-! ## Annals

The annals carry the past of one cache along a session. They change nothing in it, and every session
has some.
-/

namespace Call

/-- What is executed on a processor is aligned. -/
def Aligned (cpu : Cpu) : Call σ → Prop
  | .execute s => s.cpu = cpu → s.next.toNat % Decode.bytes s.thumb = 0
  | _ => True

/-- The call executes at this address. -/
def ExecutesAt (cpu : Cpu) (addr : Word) : Call σ → Prop
  | .execute s => s.cpu = cpu ∧ s.next = addr
  | _ => False

end Call

namespace Past

/-- The cache was reset, if the host granted its size. -/
def renewed (past : Past) (c : CodeCache) (config : Config) (grants : Nat → Bool) : Past :=
  if c.arena.capacity = config.cacheReserve then none
  else
    match c.resized config grants with
    | .ok _ => none
    | .error _ => past

/-- A call was made of the engine in which the cache is that of the processor. -/
def call (bus : Bus σ) (cpu : Cpu) (config : Config) (host : σ) (c : CodeCache) (past : Past) :
    Call σ → Past
  | .execute s =>
    if s.cpu = cpu ∧ Engine.findBlock c s.next = .none then past.compile c bus config s host else past
  | .invalidate addr other => if other = cpu then past.invalidate c.table.layout addr else past
  | .invalidateRange first last other =>
    if other = cpu then
      past.invalidateMany c.table.layout first (Engine.halfSteps first last)
    else past
  | .reset other grants => if other = cpu then past.renewed c config (grants.cache other) else past
  | .executeUncached _ | .setReserve _ | .change _ => past

/-- A renewal forgets everything, or nothing if it was refused. -/
theorem renewed_eq (past : Past) (c : CodeCache) (config : Config) (grants : Nat → Bool) :
    past.renewed c config grants = none ∨ past.renewed c config grants = past := by
  unfold renewed
  split
  · exact .inl rfl
  · split
    · exact .inl rfl
    · exact .inr rfl

/-- What a call adds to the past starts where the processor executes. -/
theorem mem_call {bus : Bus σ} {cpu : Cpu} {config : Config} {host : σ} {c : CodeCache} {past : Past}
    {next : Call σ} {slot : Nat} {o : Origin} (h : o ∈ past.call bus cpu config host c next slot) :
    o ∈ past slot ∨ next.ExecutesAt cpu o.start := by
  cases next with
  | execute s =>
    rw [call] at h
    split at h
    · rename_i compiles
      rcases mem_compile h with old | start
      · exact .inl old
      · exact .inr ⟨compiles.1, start.symm⟩
    · exact .inl h
  | invalidate addr other =>
    rw [call] at h
    split at h
    · exact .inl (mem_invalidate.mp h).1
    · exact .inl h
  | invalidateRange first last other =>
    rw [call] at h
    split at h
    · exact .inl ((mem_invalidateMany _).mp h).1
    · exact .inl h
  | reset other grants =>
    rw [call] at h
    split at h
    · rcases past.renewed_eq c config (grants.cache other) with ended | same
      · rw [ended] at h
        exact absurd h List.not_mem_nil
      · rw [same] at h
        exact .inl h
    · exact .inl h
  | executeUncached s => exact .inl h
  | setReserve mebibytes => exact .inl h
  | change host' => exact .inl h

end Past

namespace CodeCache

variable {bus : Bus σ} {cpu : Cpu} {config : Config} {host : σ} {c : CodeCache} {layout : SlotLayout}
  {past : Past}

/-- A renewed cache is recorded by what is left of the past. -/
theorem Recorded.renewed (h : c.Recorded cpu layout past) (config : Config) (grants : Nat → Bool) :
    (c.renewed config grants).Recorded cpu layout (past.renewed c config grants) := by
  unfold CodeCache.renewed Past.renewed
  split
  · exact h.reset
  · cases resized : c.resized config grants with
    | ok fresh => exact h.resized resized
    | error error => exact h

/-- Whatever a call does to the cache is what it does to the past. -/
theorem Recorded.onCache (h : c.Recorded cpu layout past) {next : Call σ} (aligned : next.Aligned cpu) :
    (next.onCache bus cpu config host c).Recorded cpu layout
      (past.call bus cpu config host c next) := by
  cases next with
  | execute s =>
    rw [Call.onCache, Past.call]
    -- a block is built only where none was found, and only by a call of this CPU
    by_cases same : s.cpu = cpu
    · rw [if_pos same, Engine.obtainBlock]
      cases found : Engine.findBlock c s.next with
      | none =>
        rw [if_pos ⟨same, rfl⟩]
        exact h.compile bus config (aligned same) host
      | some block =>
        rw [if_neg fun compiles => Option.some_ne_none block compiles.2]
        exact h
    · rw [if_neg same, if_neg fun compiles => same compiles.1]
      exact h
  | invalidate addr other =>
    rw [Call.onCache, Past.call, h.laid]
    split
    · exact h.invalidate addr
    · exact h
  | invalidateRange first last other =>
    rw [Call.onCache, Past.call, h.laid]
    split
    · exact h.invalidateMany _ [] first
    · exact h
  | reset other grants =>
    rw [Call.onCache, Past.call]
    split
    · exact h.renewed config (grants.cache other)
    · exact h
  | executeUncached s => exact h
  | setReserve mebibytes => exact h
  | change host' => exact h

/-- Where nothing on file starts at an address, nothing that could be run is found for it. -/
theorem Recorded.headless (h : c.Recorded cpu layout past) {addr : Word} {slot : Nat}
    (place : layout.slot? addr = some slot) (elsewhere : ∀ o ∈ past slot, o.start ≠ addr)
    {block : SlotEntry} (found : Engine.findBlock c addr = some block) :
    Engine.blockHeader? c block = none := by
  cases block with
  | interpret => rfl
  | compiled ref generation =>
    cases stands : Engine.blockHeader? c (.compiled ref generation) with
    | none => rfl
    | some header =>
      obtain ⟨listed, named⟩ := Engine.answers_of_findBlock found
      have first := named header stands
      have held : c.table.slots[slot]? = some (.compiled ref generation) := by
        simpa [SlotTable.lookup, SlotTable.slot?, h.laid, place] using listed
      obtain ⟨o, latest, built⟩ := h.blocks slot ref generation held
      -- the header is that of the latest block in the slot, which starts elsewhere
      obtain ⟨start, -⟩ := built.holds.header header stands (by rw [first]; exact place)
      exact absurd (start.symm.trans first) (elsewhere o (List.mem_of_head? latest))

end CodeCache

/-- A session, and the past of the cache of one processor. -/
structure Annals (σ : Type) where
  session : Session σ
  past : Past

namespace Annals

/-- What one call does. -/
def call (bus : Bus σ) (cpu : Cpu) (w : Annals σ) (next : Call σ) : Annals σ where
  session := (w.session.call bus next).2
  past :=
    match w.session.engine.caches.get cpu with
    | some c => w.past.call bus cpu w.session.engine.config w.session.host c next
    | none => w.past

/-- What some calls do, one after the other. -/
def calls (bus : Bus σ) (cpu : Cpu) (w : Annals σ) (all : List (Call σ)) : Annals σ :=
  all.foldl (Annals.call bus cpu) w

/-- What comes of an engine that was initialised. -/
inductive Reachable (bus : Bus σ) (cpu : Cpu) : Annals σ → Prop where
  | start {e e' : Engine} {host : σ} {notices : List Notice}
    (initialised : e.init bus host = (.ok (), e', notices)) :
    Reachable bus cpu { session := { engine := e', host }, past := .none }
  | call {w : Annals σ} (earlier : Reachable bus cpu w) (next : Call σ) (aligned : next.Aligned cpu) :
    Reachable bus cpu (w.call bus cpu next)

variable {bus : Bus σ} {cpu : Cpu} {w : Annals σ}

/-- The processor has a cache, and its past is its own. -/
def Recorded (w : Annals σ) (cpu : Cpu) (layout : SlotLayout) : Prop :=
  ∃ c, w.session.engine.caches.get cpu = some c ∧ c.Recorded cpu layout w.past

theorem Recorded.call {layout : SlotLayout} (h : w.Recorded cpu layout) {next : Call σ}
    (aligned : next.Aligned cpu) : (w.call bus cpu next).Recorded cpu layout := by
  obtain ⟨c, cached, recorded⟩ := h
  refine ⟨_, Session.cache_call cached next, ?_⟩
  rw [Annals.call, cached]
  exact recorded.onCache aligned

/-- So the cache in every session that can be reached is recorded. -/
theorem Reachable.recorded (reachable : w.Reachable bus cpu) : ∃ layout, w.Recorded cpu layout := by
  induction reachable with
  | @start e e' host notices initialised =>
    obtain ⟨-, c, cached, made⟩ := Engine.hasNew_of_init initialised cpu
    obtain ⟨layout, recorded⟩ := CodeCache.recorded_new made
    exact ⟨layout, c, cached, recorded⟩
  | call _ next aligned ih =>
    obtain ⟨layout, recorded⟩ := ih
    exact ⟨layout, recorded.call aligned⟩

/-- Nothing comes to start at an address while the processor does not execute there. -/
theorem elsewhere_calls {layout : SlotLayout} {slot : Nat} {addr : Word} (all : List (Call σ)) :
    ∀ {w : Annals σ}, w.Recorded cpu layout → (∀ o ∈ w.past slot, o.start ≠ addr) →
      (∀ next ∈ all, next.Aligned cpu ∧ ¬next.ExecutesAt cpu addr) →
        (w.calls bus cpu all).Recorded cpu layout ∧
          ∀ o ∈ (w.calls bus cpu all).past slot, o.start ≠ addr := by
  induction all with
  | nil => intro w h elsewhere _; exact ⟨h, elsewhere⟩
  | cons next rest ih =>
    intro w h elsewhere allowed
    obtain ⟨aligned, apart⟩ := allowed next List.mem_cons_self
    refine ih (h.call aligned) (fun o ho start => ?_) fun other hother =>
      allowed other (List.mem_cons_of_mem _ hother)
    obtain ⟨c, cached, -⟩ := h
    rw [call, cached] at ho
    rcases Past.mem_call ho with old | executes
    · exact elsewhere o old start
    · rw [start] at executes
      exact apart executes

/-- Where a dropped block started, the code is read anew. -/
theorem readsNow_of_dropped {layout : SlotLayout} (h : w.Recorded cpu layout) {first last : Word}
    {slot : Nat} {o : Origin} (ho : o ∈ w.past slot)
    (hit : ¬w.past.Spared layout slot first (Engine.halfSteps first last)) {later : List (Call σ)}
    (allowed : ∀ next ∈ later, next.Aligned cpu ∧ ¬next.ExecutesAt cpu o.start) {s : CpuState}
    (ours : s.cpu = cpu) (here : s.next = o.start) :
    let v := ((w.call bus cpu (.invalidateRange first last cpu)).calls bus cpu later).session
    v.engine.ReadsNow bus s v.host (v.engine.execute bus s v.host) := by
  obtain ⟨c, cached, recorded⟩ := h
  have place := (recorded.belong slot o ho).place
  have dropped : ∀ other ∈ (w.call bus cpu (.invalidateRange first last cpu)).past slot,
      other.start ≠ o.start := by
    intro other hother
    simp only [call, cached, Past.call, if_true, recorded.laid] at hother
    exact absurd ((Past.mem_invalidateMany _).mp hother).2 hit
  have after : (w.call bus cpu (.invalidateRange first last cpu)).Recorded cpu layout :=
    Recorded.call ⟨c, cached, recorded⟩ trivial
  obtain ⟨⟨d, cached', recorded'⟩, elsewhere⟩ := elsewhere_calls later after dropped allowed
  refine Engine.readsNow_of_headless (by rw [ours]; exact cached') (recorded'.ours.trans ours.symm)
    fun block found => ?_
  rw [here] at found
  exact recorded'.headless place elsewhere found

/-- What an invalidated range leaves of the blocks of a cache, which it makes another one. -/
structure LeftOfRange (w : Annals σ) (bus : Bus σ) (cpu : Cpu) (first last : Word) (c d : CodeCache) :
    Prop where
  /-- A block stays if and only if no visited address is covered by what was put into its slot. -/
  stays : ∀ slot ref generation, d.table.slots[slot]? = some (.compiled ref generation) ↔
    c.table.slots[slot]? = some (.compiled ref generation) ∧
      w.past.Spared c.table.layout slot first (Engine.halfSteps first last)
  /-- No byte of the range lies in a block that stays, unless it is the last one between odd bounds. -/
  apart : ∀ slot ref generation, d.table.slots[slot]? = some (.compiled ref generation) →
    ∃ o older, w.past slot = o :: older ∧ o.emission.1 = some ref ∧
      ∀ byte : Word, first.toNat ≤ byte.toNat → byte.toNat < last.toNat →
        o.Covers c.table.layout byte →
          first.toNat % 2 = 1 ∧ last.toNat % 2 = 1 ∧ byte.toNat + 1 = last.toNat
  /-- Where a block was dropped, the next execution at its start reads the code anew. -/
  anew : ∀ slot, ∀ o ∈ w.past slot,
    ¬w.past.Spared c.table.layout slot first (Engine.halfSteps first last) →
      ∀ later : List (Call σ), (∀ next ∈ later, next.Aligned cpu ∧ ¬next.ExecutesAt cpu o.start) →
        ∀ s : CpuState, s.cpu = cpu → s.next = o.start →
          let v := ((w.call bus cpu (.invalidateRange first last cpu)).calls bus cpu later).session
          v.engine.ReadsNow bus s v.host (v.engine.execute bus s v.host)

/-- **What a range takes.** Whatever was done with an engine before, invalidating a range drops every
block that overlaps it, but for one that overlaps it only in the last byte between odd bounds. -/
theorem left_of_range (reachable : w.Reachable bus cpu) (first last : Word) :
    ∃ c d, w.session.engine.caches.get cpu = some c ∧
      (w.call bus cpu (.invalidateRange first last cpu)).session.engine.caches.get cpu = some d ∧
      w.LeftOfRange bus cpu first last c d := by
  obtain ⟨layout, h⟩ := reachable.recorded
  have again := h
  obtain ⟨c, cached, recorded⟩ := h
  obtain rfl := recorded.laid
  have invalidated : (w.call bus cpu (.invalidateRange first last cpu)).session.engine.caches.get cpu =
      some (c.invalidateMany [] first (Engine.halfSteps first last)).1 := by
    refine (Session.cache_call cached _).trans ?_
    rw [Call.onCache, if_pos rfl]
  -- one equivalence, used for what stays and again for what the blocks that stay must miss
  have stays (slot : Nat) (ref : Ref) (generation : Word) :=
    recorded.slots_invalidateMany slot ref generation (Engine.halfSteps first last) [] first
  refine ⟨c, _, cached, invalidated, stays, fun slot ref generation kept => ?_,
    fun slot o ho hit later allowed s ours here =>
      readsNow_of_dropped again ho hit allowed ours here⟩
  obtain ⟨held, spared⟩ := (stays slot ref generation).mp kept
  obtain ⟨o, latest, built⟩ := recorded.blocks slot ref generation held
  obtain ⟨older, past⟩ := List.head?_eq_some_iff.mp latest
  exact ⟨o, older, past, built.emitted, fun byte low high covers =>
    spared.missed (List.mem_of_head? latest) low high covers⟩

/-- The next instruction is the THUMB instruction at address 2. -/
def atTwo : CpuState := { CpuState.new .arm9 with cpsr := 0x20, next := 2 }

/-- An engine that has run it. -/
def ranAtTwo : Annals Unit :=
  Annals.call Chronicle.moves .arm9
    { session := { engine := ((Engine.new {}).1.init Chronicle.moves ()).2.1, host := () }
      past := .none } (.execute atTwo)

/-- The block of the bytes 2 and 3 stays when the bytes 1 and 2 are reported as changed. -/
theorem missed_ranAtTwo :
    ∃ d o, (ranAtTwo.call Chronicle.moves .arm9 (.invalidateRange 1 3 .arm9)).session.engine.caches.get
          .arm9 = some d ∧
      d.table.slots[1]? = some (.compiled ⟨0xA0⟩ 0) ∧ (ranAtTwo.past 1).head? = some o ∧
        o.emission.1 = some ⟨0xA0⟩ ∧ o.Covers .flat 2 := by
  have reachable : ranAtTwo.Reachable Chronicle.moves .arm9 :=
    (Reachable.start (e := (Engine.new {}).1) rfl).call _ fun _ => by decide
  obtain ⟨c, d, cached, cached', left⟩ := left_of_range reachable 1 3
  have held : (ranAtTwo.session.engine.caches.get .arm9).bind (·.table.slots[1]?) =
      some (.compiled ⟨0xA0⟩ 0) := by
    decide +kernel
  have spared : (ranAtTwo.session.engine.caches.get .arm9).map
      (fun c => decide (ranAtTwo.past.Spared c.table.layout 1 1 (Engine.halfSteps 1 3))) = some true := by
    decide +kernel
  have covers : (ranAtTwo.past 1).head?.map (fun o => decide (o.Covers .flat 2)) = some true := by
    decide +kernel
  rw [cached] at held spared
  have stays := (left.stays 1 _ _).mpr ⟨held, of_decide_eq_true (Option.some.inj spared)⟩
  obtain ⟨o, older, past, emitted, -⟩ := left.apart 1 _ _ stays
  rw [past] at covers
  refine ⟨d, o, cached', stays, ?_, emitted, of_decide_eq_true (Option.some.inj covers)⟩
  rw [past]
  rfl

end Annals

end ArmBlocks
