import ArmBlocks.Proofs.Calls

/-!
# The life of an engine

An engine is created, initialised, used, shut down and maybe initialised again (`Engine.Lived`). An
initialisation may fail halfway, and then one processor has a new cache and the other what it had.

Memory may be refused each time that it is asked for, so every initialisation and every reset comes with
the `Grants` of the host. Whatever happened, three things hold of an engine (`Engine.Sound`): its block
size is one it can work with; each cache was made for its processor, from regions that were accepted
(`CodeCache.MadeFor`); and the scratch arena is as large as ever.
-/

set_option autoImplicit false

namespace ArmBlocks

variable {σ : Type}

/-! ## Caches

A cache is made for one processor and for regions that were accepted, and no operation changes that.
-/

namespace CodeCache

variable {c d : CodeCache} {cpu : Cpu} {config : Config} {grants : Nat → Bool}

theorem sameShell_obtainBlock (c : CodeCache) (bus : Bus σ) (config : Config) (s : CpuState)
    (host : σ) : c.SameShell (Engine.obtainBlock c bus config s host).cache := by
  unfold Engine.obtainBlock
  split
  · exact .refl c
  · exact c.sameShell_compile bus config s host

/-- The cache of a processor, for regions that were accepted. -/
structure MadeFor (c : CodeCache) (cpu : Cpu) : Prop where
  ours : c.cpu = cpu
  accepted : SlotLayout.ofRegions c.regions = .ok c.table.layout

theorem MadeFor.of_sameShell (h : c.MadeFor cpu) (same : c.SameShell d) : d.MadeFor cpu where
  ours := same.cpu.trans h.ours
  accepted := by rw [same.regions, same.layout, h.accepted]

theorem madeFor_new {regions : List CodeRegion}
    (made : CodeCache.new cpu config regions grants = .ok c) : c.MadeFor cpu := by
  obtain ⟨layout, accepted, -, rfl⟩ := new_eq_ok.mp made
  exact ⟨rfl, accepted⟩

/-- A renewed cache is made for the same processor and regions, whether it was emptied, replaced or kept.
-/
theorem MadeFor.renewed (h : c.MadeFor cpu) (config : Config) (grants : Nat → Bool) :
    (c.renewed config grants).MadeFor cpu := by
  unfold CodeCache.renewed
  split
  · exact h.of_sameShell c.sameShell_reset
  · split
    · rename_i fresh resized
      obtain ⟨layout, accepted, -, rfl⟩ := resized_eq_ok.mp resized
      exact ⟨h.ours, accepted⟩
    · exact h

theorem MadeFor.onCache (h : c.MadeFor cpu) (bus : Bus σ) (config : Config) (host : σ)
    (next : Call σ) : (next.onCache bus cpu config host c).MadeFor cpu :=
  Call.onCache_induction (P := fun c => c.MadeFor cpu) h
    (fun s => h.of_sameShell (c.sameShell_obtainBlock bus config s host))
    (fun {d} addr before => before.of_sameShell (d.sameShell_invalidate addr)) (h.renewed config)
    cpu next

end CodeCache

/-! ## Configurations -/

namespace Config

theorem blockSizeOk_sanitized (config : Config) : config.sanitized.1.blockSizeOk = true := by
  unfold sanitized
  split
  · assumption
  · simp only [blockSizeOk, Bool.and_eq_true, decide_eq_true_iff]
    exact ⟨Nat.le_min.mpr ⟨Nat.le_max_right _ _, by decide⟩, Nat.min_le_right _ _⟩

theorem sanitized_of_ok {config : Config} (ok : config.blockSizeOk = true) :
    config.sanitized = (config, []) := by
  rw [sanitized, if_pos ok]

theorem blockSizeOk_setReserveMebibytes (config : Config) (mebibytes : Nat) :
    (config.setReserveMebibytes mebibytes).blockSizeOk = config.blockSizeOk := by
  rw [blockSizeOk, blockSizeOk, (Engine.setReserveMebibytes_config config mebibytes).2]

end Config

/-! ## What a call keeps

A call neither makes a cache where there was none nor takes one away, and it changes the size of a
block as little as the size of the small arena.
-/

namespace Session

variable (w : Session σ) (bus : Bus σ) (next : Call σ)

/-- No call makes a cache where there is none. -/
theorem cache_call_of_none {cpu : Cpu} (none : w.engine.caches.get cpu = none) :
    (w.call bus next).2.engine.caches.get cpu = .none := by
  have untouched (other : Cpu) (f : CodeCache → CodeCache × List Notice) :
      (w.engine.changeCache other f).1.caches.get cpu = .none := by
    by_cases same : other = cpu
    · rw [Engine.changeCache, same, none]
      exact none
    · rw [Engine.changeCache_other _ f (Ne.symm same)]
      exact none
  cases next with
  | execute s =>
    by_cases same : s.cpu = cpu
    · subst same
      rw [call, Engine.execute_engine_of_none none]
      exact none
    · exact (w.engine.execute_other bus s w.host same).2.trans none
  | executeUncached s =>
    obtain ⟨-, caches⟩ := w.engine.executeUncached_engine bus s w.host
    exact (congrArg (PerCpu.get · cpu) caches).trans none
  | invalidate addr other => exact untouched other _
  | invalidateRange first last other => exact untouched other _
  | reset other grants =>
    rw [call]
    cases done : w.engine.reset other grants with
    | error error => exact none
    | ok e =>
      obtain ⟨c, d, cached, -, rfl⟩ := Engine.reset_eq_ok done
      have apart : cpu ≠ other := by
        rintro rfl
        cases cached.symm.trans none
      exact (PerCpu.get_set_of_ne _ _ apart).trans none
  | setReserve mebibytes =>
    rw [call, (w.engine.setReserveMebibytes_engine mebibytes).2.1]
    exact none
  | change host => exact none

/-- No call changes how long blocks may be. -/
theorem blockSizeOk_call :
    (w.call bus next).2.engine.config.blockSizeOk = w.engine.config.blockSizeOk := by
  cases next with
  | execute s =>
    cases cached : w.engine.caches.get s.cpu with
    | none => rw [call, Engine.execute_engine_of_none cached]
    | some c => exact congrArg Config.blockSizeOk (Engine.execute_engine cached bus w.host).1
  | executeUncached s =>
    exact congrArg Config.blockSizeOk (w.engine.executeUncached_engine bus s w.host).1
  | invalidate addr other => exact congrArg Config.blockSizeOk (w.engine.changeCache_config other _)
  | invalidateRange first last other =>
    exact congrArg Config.blockSizeOk (w.engine.changeCache_config other _)
  | reset other grants =>
    rw [call]
    cases done : w.engine.reset other grants with
    | error error => rfl
    | ok e =>
      obtain ⟨_, _, -, -, rfl⟩ := Engine.reset_eq_ok done
      rfl
  | setReserve mebibytes =>
    rw [call, (w.engine.setReserveMebibytes_engine mebibytes).1, Config.blockSizeOk_setReserveMebibytes]
  | change host => rfl

/-- No call changes how large the arena for single instructions is. -/
theorem capacity_scratch_call :
    (w.call bus next).2.engine.scratch.map Arena.capacity = w.engine.scratch.map Arena.capacity := by
  cases next with
  | execute s => exact w.engine.capacity_scratch_execute bus s w.host
  | executeUncached s => exact w.engine.capacity_scratch_executeUncached bus s w.host
  | invalidate addr other =>
    exact congrArg (Option.map Arena.capacity) (w.engine.changeCache_scratch other _)
  | invalidateRange first last other =>
    exact congrArg (Option.map Arena.capacity) (w.engine.changeCache_scratch other _)
  | reset other grants =>
    rw [call]
    cases done : w.engine.reset other grants with
    | error error => rfl
    | ok e =>
      obtain ⟨_, _, -, -, rfl⟩ := Engine.reset_eq_ok done
      rfl
  | setReserve mebibytes => rw [call, (w.engine.setReserveMebibytes_engine mebibytes).2.2]
  | change host => rfl

end Session

/-! ## Engines

`Engine.Lived` is a run of the engine with whatever hosts there were, and `Engine.Sound` what holds of
all engines that come of one. It is kept by every call and by an initialisation, whether it succeeds
or not.
-/

namespace Engine

/-- What comes of a new engine. The host may be another one each time, and may grant another share of
its memory. -/
inductive Lived (bus : Bus σ) : Engine → Prop where
  | new (config : Config) : Lived bus (Engine.new config).1
  | init {e : Engine} (earlier : Lived bus e) (host : σ) (grants : Grants := .usual) :
    Lived bus (e.init bus host grants).2.1
  | shutdown {e : Engine} (earlier : Lived bus e) : Lived bus e.shutdown.1
  | call {e : Engine} (earlier : Lived bus e) (host : σ) (next : Call σ) :
    Lived bus (Session.call bus { engine := e, host } next).2.engine

theorem Lived.calls {bus : Bus σ} (all : List (Call σ)) :
    ∀ {e : Engine} (host : σ), e.Lived bus →
      (Session.calls bus { engine := e, host } all).engine.Lived bus := by
  induction all with
  | nil => intro e host lived; exact lived
  | cons next rest ih => intro e host lived; exact ih _ (lived.call host next)

/-- A reset of both processors is one reset after the other, up to the first that is refused. -/
theorem Lived.resetEach {bus : Bus σ} (host : σ) (grants : Grants) (cpus : List Cpu) :
    ∀ {e : Engine}, e.Lived bus → (e.resetEach grants cpus).2.Lived bus := by
  induction cpus with
  | nil => intro e lived; exact lived
  | cons cpu rest ih =>
    intro e lived
    have next := lived.call host (.reset cpu grants)
    rw [Session.call] at next
    unfold Engine.resetEach
    cases done : e.reset cpu grants with
    | error error => exact lived
    | ok e' =>
      rw [done] at next
      exact ih next

/-- What holds of an engine all its life. -/
structure Sound (e : Engine) : Prop where
  blockSize : e.config.blockSizeOk = true
  caches : ∀ cpu c, e.caches.get cpu = some c → c.MadeFor cpu
  scratch : ∀ a, e.scratch = some a → a.capacity = scratchBytes

variable {e : Engine} {grants : Grants}

/-- An engine without memory is sound as soon as its block size is. -/
theorem sound_of_no_memory (blockSize : e.config.blockSizeOk = true) (caches : e.caches = ⟨none, none⟩)
    (scratch : e.scratch = none) : e.Sound where
  blockSize := blockSize
  caches cpu c cached := by
    rw [caches] at cached
    cases cpu with
    | arm9 => cases cached
    | arm7 => cases cached
  scratch a found := by
    rw [scratch] at found
    cases found

/-- An engine stays sound when a cache is added. -/
theorem Sound.addCache (h : e.Sound) {cpu : Cpu} {regions : List CodeRegion} {e' : Engine}
    (added : e.addCache cpu regions (grants.cache cpu) = .ok e') : e'.Sound := by
  unfold Engine.addCache at added
  cases made : CodeCache.new cpu e.config regions (grants.cache cpu) with
  | error error =>
    rw [made] at added
    cases added
  | ok fresh =>
    rw [made] at added
    obtain rfl := Except.ok.inj added
    refine ⟨h.blockSize, fun other c cached => ?_, h.scratch⟩
    by_cases same : other = cpu
    · -- the new cache takes the place of whatever was there
      subst same
      obtain rfl := Option.some.inj ((PerCpu.get_set_self _ _ _).symm.trans cached)
      exact CodeCache.madeFor_new made
    · exact h.caches other c ((PerCpu.get_set_of_ne _ _ same).symm.trans cached)

/-- So it does when several are, also if one of them is refused. -/
theorem Sound.addCaches (regions : Cpu → List CodeRegion) (grants : Grants) (cpus : List Cpu) :
    ∀ {e : Engine}, e.Sound → (e.addCaches regions grants cpus).2.Sound := by
  induction cpus with
  | nil => intro e h; exact h
  | cons cpu rest ih =>
    intro e h
    unfold Engine.addCaches
    cases added : e.addCache cpu (regions cpu) (grants.cache cpu) with
    | error error => exact h
    | ok e' => exact ih (h.addCache added)

/-- An initialisation leaves a sound engine, whether it goes through or not. -/
theorem Sound.init (h : e.Sound) (bus : Bus σ) (host : σ) (grants : Grants) :
    (e.init bus host grants).2.1.Sound := by
  have added := Sound.addCaches (bus.codeRegions host) grants Cpu.all h
  unfold Engine.init
  generalize e.addCaches (bus.codeRegions host) grants Cpu.all = x at added ⊢
  rcases x with ⟨error | ⟨⟨⟩⟩, e'⟩
  · exact added
  · dsimp only
    cases reserved : Arena.reserve (α := Record) scratchBytes grants.scratch with
    | error error => exact added
    | ok scratch =>
      refine ⟨added.blockSize, added.caches, fun a found => ?_⟩
      obtain rfl := Option.some.inj found
      exact Arena.capacity_of_reserve reserved

/-- Every call leaves a sound engine. -/
theorem Sound.call (h : e.Sound) (bus : Bus σ) (host : σ) (next : Call σ) :
    (Session.call bus { engine := e, host } next).2.engine.Sound := by
  refine ⟨?_, fun cpu d cached => ?_, fun a found => ?_⟩
  · rw [Session.blockSizeOk_call]
    exact h.blockSize
  · -- a cache that is there after the call was there before
    cases before : e.caches.get cpu with
    | none => cases cached.symm.trans (Session.cache_call_of_none _ bus next before)
    | some c =>
      obtain rfl := Option.some.inj (cached.symm.trans (Session.cache_call before next))
      exact (h.caches cpu c before).onCache bus e.config host next
  · have capacity := Session.capacity_scratch_call { engine := e, host } bus next
    rw [found] at capacity
    obtain ⟨b, held, same⟩ := Option.map_eq_some_iff.mp capacity.symm
    exact same.symm.trans (h.scratch b held)

theorem Lived.sound {bus : Bus σ} (lived : e.Lived bus) : e.Sound := by
  induction lived with
  | new config => exact sound_of_no_memory config.blockSizeOk_sanitized rfl rfl
  | init _ host grants ih => exact ih.init bus host grants
  | shutdown _ ih => exact sound_of_no_memory ih.blockSize rfl rfl
  | call _ host next ih => exact ih.call bus host next

/-! ## Caches, all their life

An engine that lived has caches that lived: whatever holds of a new cache and is kept by what a call
does to it holds of every cache of the engine.
-/

/-- Adding caches leaves the old one of a processor, or a new one. -/
theorem cache_of_addCaches {regions : Cpu → List CodeRegion} {cpu : Cpu} {c : CodeCache}
    (cpus : List Cpu) :
    ∀ {e : Engine}, (e.addCaches regions grants cpus).2.caches.get cpu = some c →
      e.caches.get cpu = some c ∨
        CodeCache.new cpu e.config (regions cpu) (grants.cache cpu) = .ok c := by
  induction cpus with
  | nil => intro e cached; exact .inl cached
  | cons added rest ih =>
    intro e cached
    unfold addCaches addCache at cached
    cases made : CodeCache.new added e.config (regions added) (grants.cache added) with
    | error error =>
      rw [made] at cached
      exact .inl cached
    | ok fresh =>
      rw [made] at cached
      rcases ih cached with old | new
      -- a later CPU's cache cannot undo this one, so that the induction leaves two places to look
      · by_cases same : cpu = added
        · subst same
          obtain rfl := Option.some.inj ((PerCpu.get_set_self _ _ _).symm.trans old)
          exact .inr made
        · exact .inl ((PerCpu.get_set_of_ne _ _ same).symm.trans old)
      · exact .inr new

/-- A cache that is there after an initialisation was there before, or is a new one. -/
theorem cache_of_init {bus : Bus σ} {host : σ} {cpu : Cpu} {c : CodeCache}
    (cached : (e.init bus host grants).2.1.caches.get cpu = some c) :
    e.caches.get cpu = some c ∨
      CodeCache.new cpu e.config (bus.codeRegions host cpu) (grants.cache cpu) = .ok c := by
  apply cache_of_addCaches Cpu.all
  unfold Engine.init at cached
  generalize e.addCaches (bus.codeRegions host) grants Cpu.all = x at cached ⊢
  rcases x with ⟨error | ⟨⟨⟩⟩, e'⟩
  · exact cached
  · dsimp only at cached
    cases reserved : Arena.reserve (α := Record) scratchBytes grants.scratch with
    | error error => rw [reserved] at cached; exact cached
    | ok scratch => rw [reserved] at cached; exact cached

/-- What holds of a cache that was just made and is kept by every operation on it holds of the caches
of an engine all its life. -/
theorem Lived.cache_induction {bus : Bus σ} {P : Cpu → CodeCache → Prop}
    (new : ∀ {cpu config regions c} {grants : Nat → Bool},
      CodeCache.new cpu config regions grants = .ok c → P cpu c)
    (kept : ∀ {cpu config c} (host : σ) (next : Call σ), config.blockSizeOk = true → c.MadeFor cpu →
      P cpu c → P cpu (next.onCache bus cpu config host c))
    (lived : e.Lived bus) : ∀ cpu c, e.caches.get cpu = some c → P cpu c := by
  induction lived with
  | new config =>
    intro cpu c cached
    cases cpu with
    | arm9 => cases cached
    | arm7 => cases cached
  | init earlier host grants ih =>
    intro cpu c cached
    exact (cache_of_init cached).elim (ih cpu c) new
  | shutdown earlier ih =>
    intro cpu c cached
    cases cpu with
    | arm9 => cases cached
    | arm7 => cases cached
  -- a call makes no cache where there was none, so that there is one to go on from
  | @call e earlier host next ih =>
    intro cpu d cached
    cases before : e.caches.get cpu with
    | none => cases cached.symm.trans (Session.cache_call_of_none _ bus next before)
    | some c =>
      obtain rfl := Option.some.inj (cached.symm.trans (Session.cache_call before next))
      exact kept host next earlier.sound.blockSize (earlier.sound.caches cpu c before)
        (ih cpu c before)

end Engine

end ArmBlocks
