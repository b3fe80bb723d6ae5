import ArmBlocks.Proofs.FreshReset

/-!
# Setting another cache size

The size of a cache is set for the next reset, and until then the caches are as large as they were. It
should make no difference to anything else. It does: the free space below which all blocks are dropped
before another one is compiled is bounded by half the size that is *set*, which need not be the size
that the cache has.

So the next low-water check may go the other way. `Session.sights_of_setReserve` is exact about it: from
setting a size to the next reset an embedder sees what it would have seen without, if and only if at every
check that is made on the way both sizes come to the same decision. Where they do not, the statistics
tell, since a reset and a compiled block are counted and no block makes up for a reset
(`CodeCache.tally_compile`). Where the blocks are small beside both sizes, the bound of one half does not
matter and setting the size does nothing (`Session.sights_of_roomy`).
-/

set_option autoImplicit false

namespace ArmBlocks

variable {σ : Type}

/-- The configuration with another cache size. -/
def Config.withReserve (config : Config) (reserve : Nat) : Config :=
  { config with cacheReserve := reserve }

namespace CodeCache

/-- The cache would be emptied before a block is compiled. -/
def IsLow (c : CodeCache) (config : Config) : Prop := c.arena.remaining < config.resetThreshold

instance (c : CodeCache) (config : Config) : Decidable (c.IsLow config) :=
  inferInstanceAs (Decidable (_ < _))

/-- Compiling gets to the question whether there is room: the address is executable, and its code does
not change too often. -/
structure AsksForRoom (c : CodeCache) (config : Config) (s : CpuState) : Prop where
  mapped : c.table.isMapped s.next = true
  calm : c.isThrashing config s.next = false

variable {c : CodeCache} {config : Config} {s : CpuState} {reserve : Nat}

/-! ## Compiling with another size

The size is looked at in one place, the decision whether to flush before a compilation. Where both
sizes decide alike, compiling is the same.
-/

theorem makeRoom_of_low (low : c.IsLow config) :
    c.makeRoom config = (c.flush, [.cacheLow c.cpu c.arena.remaining]) := if_pos low

theorem makeRoom_of_not_low (roomy : ¬c.IsLow config) : c.makeRoom config = (c, []) := if_neg roomy

theorem makeRoom_withReserve (same : c.IsLow (config.withReserve reserve) ↔ c.IsLow config) :
    c.makeRoom (config.withReserve reserve) = c.makeRoom config := by
  by_cases low : c.IsLow config
  · rw [makeRoom_of_low low, makeRoom_of_low (same.mpr low)]
  · rw [makeRoom_of_not_low low, makeRoom_of_not_low (mt same.mp low)]

/-- Compiling depends on the size by no more than one decision. -/
theorem compile_withReserve (bus : Bus σ) (host : σ)
    (same : c.AsksForRoom config s → (c.IsLow (config.withReserve reserve) ↔ c.IsLow config)) :
    c.compile bus (config.withReserve reserve) s host = c.compile bus config s host := by
  unfold compile
  dsimp only
  by_cases mapped : c.table.isMapped s.next = true
  · have thrashes : c.isThrashing (config.withReserve reserve) s.next = c.isThrashing config s.next :=
      rfl
    rw [thrashes]
    cases calm : c.isThrashing config s.next with
    | true => rfl
    | false =>
      rw [makeRoom_withReserve (same ⟨mapped, calm⟩)]
      rfl
  · rw [Bool.eq_false_iff.mpr mapped]
    rfl

/-- What a cache has counted: the blocks that were compiled, and how often all were dropped. -/
def tally (c : CodeCache) : Nat := c.blocksCompiled + c.resets

theorem tally_makeRoom (c : CodeCache) (config : Config) :
    (c.makeRoom config).1.tally = c.tally + if c.IsLow config then 1 else 0 := by
  by_cases low : c.IsLow config
  · rw [makeRoom_of_low low, if_pos low]
    exact (Nat.add_assoc _ _ _).symm
  · rw [makeRoom_of_not_low low, if_neg low]
    rfl

/-- **Each miss counts once, and once more if the cache was low.** A block that is compiled counts, and
so does one that does not fit, because all are dropped then. -/
theorem tally_compile (bus : Bus σ) (host : σ) (asks : c.AsksForRoom config s) :
    (c.compile bus config s host).cache.tally =
      c.tally + (if c.IsLow config then 1 else 0) +
        if c.decoded bus config s host = [] then 0 else 1 := by
  have step := c.compileStep bus config s host
  rw [← tally_makeRoom]
  generalize c.decoded bus config s host = run at step ⊢
  generalize c.compile bus config s host = made at step ⊢
  rcases made with ⟨outcome, cache, s', host', told⟩
  dsimp only at step ⊢
  cases step with
  -- the first two ends do not get as far as the check
  | unmapped place =>
    have mapped := asks.mapped
    simp [SlotTable.isMapped, SlotTable.slot?, place] at mapped
  | thrashing slot place often => simp [asks.calm] at often
  | unfetched slot place calm empty => rw [if_pos empty, Nat.add_zero]
  | full slot place calm nonempty arena emitted =>
    rw [if_neg nonempty]
    exact (Nat.add_assoc _ _ _).symm
  | built slot place calm nonempty ref arena emitted =>
    rw [if_neg nonempty]
    exact Nat.add_right_comm _ _ _

end CodeCache

/-! ## Engines

An engine with another size set does the same at every call, as long as no compilation decides
otherwise; and where one does, the statistics tell.
-/

/-- The engine with another cache size set. -/
def Engine.withReserve (e : Engine) (reserve : Nat) : Engine :=
  { e with config := e.config.withReserve reserve }

/-- A call of an engine that had another cache size set. -/
def Turn.withReserve (t : Turn σ) (reserve : Nat) : Turn σ :=
  { t with engine := t.engine.withReserve reserve }

namespace Engine

variable {e : Engine} {s : CpuState} {reserve : Nat}

/-- Without the code cache, its size does not matter. -/
theorem executeUncached_withReserve (e : Engine) (bus : Bus σ) (s : CpuState) (host : σ) :
    (e.withReserve reserve).executeUncached bus s host =
      (e.executeUncached bus s host).withReserve reserve := by
  have scratch : (e.withReserve reserve).scratch = e.scratch := rfl
  unfold executeUncached
  rw [scratch]
  cases e.scratch with
  | none => rfl
  | some scratch =>
    dsimp only
    split
    · rfl
    · split
      · rfl
      · rfl

/-- If a block has to be compiled now, then the size `reserve` comes to the same decision about the room
that is left as the one that is set. -/
def Decides (e : Engine) (reserve : Nat) (s : CpuState) : Prop :=
  ∀ c, e.caches.get s.cpu = some c → findBlock c s.next = none → c.AsksForRoom e.config s →
    (c.IsLow (e.config.withReserve reserve) ↔ c.IsLow e.config)

theorem obtainBlock_withReserve (same : e.Decides reserve s) {c : CodeCache}
    (cached : e.caches.get s.cpu = some c) (bus : Bus σ) (host : σ) :
    obtainBlock c bus (e.config.withReserve reserve) s host = obtainBlock c bus e.config s host := by
  unfold obtainBlock
  cases missing : findBlock c s.next with
  | some block => rfl
  | none => exact CodeCache.compile_withReserve bus host (same c cached missing)

/-- An execution does not see the size of the cache that is set, where the threshold decides alike for both
sizes. -/
theorem execute_withReserve (same : e.Decides reserve s) (bus : Bus σ) (host : σ) :
    (e.withReserve reserve).execute bus s host = (e.execute bus s host).withReserve reserve := by
  have caches : (e.withReserve reserve).caches = e.caches := rfl
  have config : (e.withReserve reserve).config = e.config.withReserve reserve := rfl
  unfold execute
  rw [caches, config]
  cases cached : e.caches.get s.cpu with
  | none => rfl
  | some c =>
    dsimp only
    rw [obtainBlock_withReserve same cached]
    generalize obtainBlock c bus e.config s host = found
    rcases found with ⟨outcome, cache, s', host', told⟩
    -- the engine when the block is found or compiled
    have after : { config := e.config.withReserve reserve
                   caches := e.caches.set s.cpu (some cache)
                   scratch := (e.withReserve reserve).scratch } =
        Engine.withReserve { e with caches := e.caches.set s.cpu (some cache) } reserve := rfl
    dsimp only
    rw [after]
    cases outcome with
    | error error => rfl
    | ok block =>
      dsimp only
      cases blockHeader? cache block with
      | none =>
        dsimp only
        rw [executeUncached_withReserve]
        rfl
      | some h =>
        dsimp only
        split
        · rfl
        · rw [executeUncached_withReserve]
          rfl

/-- Dropping blocks never sees it. -/
theorem changeCache_withReserve (e : Engine) (cpu : Cpu) (f : CodeCache → CodeCache × List Notice) :
    (e.withReserve reserve).changeCache cpu f =
      ((e.changeCache cpu f).1.withReserve reserve, (e.changeCache cpu f).2) := by
  have caches : (e.withReserve reserve).caches = e.caches := rfl
  unfold changeCache
  rw [caches]
  cases e.caches.get cpu with
  | none => rfl
  | some c => rfl

/-- Where the decisions differ, the statistics do. -/
theorem decides_of_stats (bus : Bus σ) (host : σ)
    (same : ((e.withReserve reserve).execute bus s host).engine.stats s.cpu =
      (e.execute bus s host).engine.stats s.cpu) : e.Decides reserve s := by
  intro c cached missing asks
  have compiled (config : Config) : obtainBlock c bus config s host = c.compile bus config s host := by
    unfold obtainBlock
    rw [missing]
  have counted {f : Engine} (held : f.caches.get s.cpu = some c) :
      (f.execute bus s host).engine.stats s.cpu =
        some (c.compile bus f.config s host).cache.stats := by
    rw [Engine.stats, (execute_engine held bus host).2, PerCpu.get_set_self, compiled]
    rfl
  have asks' : c.AsksForRoom (e.withReserve reserve).config s := ⟨asks.mapped, asks.calm⟩
  rw [counted (f := e.withReserve reserve) cached, counted cached, Option.some_inj] at same
  have tallies : (c.compile bus (e.withReserve reserve).config s host).cache.tally =
      (c.compile bus e.config s host).cache.tally :=
    congrArg (fun stats : CacheStats => stats.blocksCompiled + stats.resets) same
  rw [CodeCache.tally_compile bus host asks, CodeCache.tally_compile bus host asks'] at tallies
  have run : c.decoded bus (e.withReserve reserve).config s host = c.decoded bus e.config s host := rfl
  rw [run] at tallies
  -- the sums differ by the two decisions alone
  show c.IsLow (e.withReserve reserve).config ↔ c.IsLow e.config
  by_cases low : c.IsLow e.config <;> by_cases low' : c.IsLow (e.withReserve reserve).config <;>
    simp [low, low'] at tallies ⊢

end Engine

/-! ## Sessions

Both directions together are an equivalence: nothing is seen of the change exactly where no
compilation on the way decides otherwise.
-/

/-- The call leaves the sizes of the caches and what is set for them alone. -/
def Call.KeepsSize : Call σ → Prop
  | .reset _ _ | .setReserve _ => False
  | _ => True

/-- The session with another cache size set. -/
def Session.withReserve (w : Session σ) (reserve : Nat) : Session σ :=
  { w with engine := w.engine.withReserve reserve }

/-- At every check for room that some calls make, the size `reserve` comes to the same decision as the
one that is set. -/
def Session.Decides (bus : Bus σ) (reserve : Nat) : Session σ → List (Call σ) → Prop
  | _, [] => True
  | w, next :: rest =>
    (∀ s, next = .execute s → w.engine.Decides reserve s) ∧
      Session.Decides bus reserve (w.call bus next).2 rest

namespace Session

variable {bus : Bus σ} {w : Session σ} {reserve : Nat}

/-- No call but a reset does, as far as the threshold decides alike. -/
theorem call_withReserve {next : Call σ} (plain : next.KeepsSize)
    (same : ∀ s, next = .execute s → w.engine.Decides reserve s) :
    (w.withReserve reserve).call bus next =
      ((w.call bus next).1, (w.call bus next).2.withReserve reserve) := by
  have engine : (w.withReserve reserve).engine = w.engine.withReserve reserve := rfl
  have host : (w.withReserve reserve).host = w.host := rfl
  cases next with
  | execute s =>
    simp only [call, engine, host, Engine.execute_withReserve (same s rfl)]
    rfl
  | executeUncached s =>
    simp only [call, engine, host, Engine.executeUncached_withReserve]
    rfl
  | invalidate addr cpu =>
    simp only [call, engine, Engine.invalidate, Engine.changeCache_withReserve]
    rfl
  | invalidateRange first last cpu =>
    simp only [call, engine, Engine.invalidateRange, Engine.changeCache_withReserve]
    rfl
  | change host => rfl
  | reset cpu grants => exact plain.elim
  | setReserve mebibytes => exact plain.elim

/-- The same decisions leave the same to be seen. -/
theorem sights_withReserve (cpu : Cpu) (after : List (Call σ)) :
    ∀ {w : Session σ}, (∀ next ∈ after, next.KeepsSize) → w.Decides bus reserve after →
      (w.withReserve reserve).sights bus cpu after = w.sights bus cpu after := by
  induction after with
  | nil => intro w _ _; rfl
  | cons next rest ih =>
    intro w plain ⟨now, later⟩
    have stats : ((w.call bus next).2.withReserve reserve).engine.stats cpu =
        (w.call bus next).2.engine.stats cpu := rfl
    rw [sights, sights, call_withReserve (plain next List.mem_cons_self) now]
    dsimp only
    rw [stats, ih (fun other hother => plain other (List.mem_cons_of_mem _ hother)) later]
    rfl

/-- What is seen of both processors tells whether the decisions were the same. -/
theorem decides_of_sights (after : List (Call σ)) :
    ∀ {w : Session σ}, (∀ next ∈ after, next.KeepsSize) →
      (∀ cpu, (w.withReserve reserve).sights bus cpu after = w.sights bus cpu after) →
        w.Decides bus reserve after := by
  induction after with
  | nil => intro w _ _; trivial
  | cons next rest ih =>
    intro w plain same
    have now : ∀ s, next = .execute s → w.engine.Decides reserve s := by
      rintro s rfl
      have seen := same s.cpu
      rw [sights, sights, List.cons.injEq] at seen
      exact Engine.decides_of_stats bus w.host (congrArg Sight.stats seen.1)
    refine ⟨now, ih (fun other hother => plain other (List.mem_cons_of_mem _ hother)) fun cpu => ?_⟩
    have seen := same cpu
    rw [sights, sights, List.cons.injEq, call_withReserve (plain next List.mem_cons_self) now] at seen
    exact seen.2

/-- **What setting a size does before the next reset.** As long as no processor is reset, an embedder
sees what it would have seen without setting the size, if and only if at every check for room that is
made without it the size that was set comes to the decision that is made. -/
theorem sights_of_setReserve (bus : Bus σ) (w : Session σ) (mebibytes : Nat) {after : List (Call σ)}
    (plain : ∀ next ∈ after, next.KeepsSize) :
    (∀ cpu, Session.sights bus cpu (w.call bus (.setReserve mebibytes)).2 after =
      Session.sights bus cpu w after) ↔
        w.Decides bus (min (mebibytes * mebibyte) Config.maxBytes) after := by
  have set : (w.call bus (.setReserve mebibytes)).2 =
      w.withReserve (min (mebibytes * mebibyte) Config.maxBytes) := by
    cases w
    rfl
  rw [set]
  exact ⟨decides_of_sights after plain, fun same cpu => sights_withReserve cpu after plain same⟩

/-- A cache that is too small for the distance that is kept from its end. -/
def cramped : Session Unit :=
  { engine := ((Engine.new { cacheReserve := 0x2000 }).1.init Chronicle.moves ()).2.1, host := () }

/-- Such a cache is compiled into as long as half of it is left. When a larger one is set for the next
reset, the first block that is compiled already empties it. -/
theorem sights_of_cramped :
    (¬∀ cpu, Session.sights Chronicle.moves cpu (cramped.call Chronicle.moves (.setReserve 16)).2
        [.execute (.new .arm9)] =
      Session.sights Chronicle.moves cpu cramped [.execute (.new .arm9)]) ∧
    ((cramped.call Chronicle.moves (.execute (.new .arm9))).2.engine.stats .arm9).map
      CacheStats.resets = some 0 ∧
    (((cramped.call Chronicle.moves (.setReserve 16)).2.call Chronicle.moves
      (.execute (.new .arm9))).2.engine.stats .arm9).map CacheStats.resets = some 1 := by
  refine ⟨fun same => ?_, by decide +kernel, by decide +kernel⟩
  obtain ⟨now, -⟩ :=
    (sights_of_setReserve Chronicle.moves cramped 16 (by simp [Call.KeepsSize])).mp same
  have known : (cramped.engine.caches.get .arm9).map (fun c =>
      ((Engine.findBlock c 0).isNone, c.table.isMapped 0, c.isThrashing cramped.engine.config 0,
        decide (c.IsLow cramped.engine.config),
        decide (c.IsLow (cramped.engine.config.withReserve (min (16 * mebibyte) Config.maxBytes))))) =
      some (true, true, false, false, true) := by
    decide +kernel
  obtain ⟨c, cached, facts⟩ := Option.map_eq_some_iff.mp known
  simp only [Prod.mk.injEq, Option.isNone_iff_eq_none, decide_eq_true_eq, decide_eq_false_iff_not]
    at facts
  obtain ⟨missing, mapped, calm, roomy, low⟩ := facts
  exact roomy ((now _ rfl c cached missing ⟨mapped, calm⟩).mp low)

/-! ### Sizes that do not matter -/

/-- Only a call that sets the size changes the settings, and a reset is no call of this kind either. -/
theorem config_call (w : Session σ) (bus : Bus σ) {next : Call σ} (plain : next.KeepsSize) :
    (w.call bus next).2.engine.config = w.engine.config := by
  cases next with
  | execute s =>
    cases cached : w.engine.caches.get s.cpu with
    | none => rw [call, Engine.execute_engine_of_none cached]
    | some c => exact (Engine.execute_engine cached bus w.host).1
  | executeUncached s => exact (w.engine.executeUncached_engine bus s w.host).1
  | invalidate addr cpu => exact w.engine.changeCache_config cpu _
  | invalidateRange first last cpu => exact w.engine.changeCache_config cpu _
  | change host => rfl
  | reset cpu => exact plain.elim
  | setReserve mebibytes => exact plain.elim

/-- If both sizes have the same threshold, it decides alike wherever the calls lead. -/
theorem decides_of_threshold (after : List (Call σ)) :
    ∀ {w : Session σ}, (∀ next ∈ after, next.KeepsSize) →
      (w.engine.config.withReserve reserve).resetThreshold = w.engine.config.resetThreshold →
        w.Decides bus reserve after := by
  induction after with
  | nil => intro w _ _; trivial
  | cons next rest ih =>
    intro w plain same
    refine ⟨fun s _ c _ _ _ => ?_, ih (fun other hother => plain other (List.mem_cons_of_mem _ hother)) ?_⟩
    · rw [CodeCache.IsLow, CodeCache.IsLow, same]
    · rw [config_call w bus (plain next List.mem_cons_self)]
      exact same

/-- Between sizes of which half is room enough, for the largest block as for the distance that is kept,
setting one does nothing before the next reset. -/
theorem sights_of_roomy (cpu : Cpu) {after : List (Call σ)} (plain : ∀ next ∈ after, next.KeepsSize)
    (old : max w.engine.config.lowWaterMark
      (w.engine.config.maxBlockInstructions * Config.bytesPerInstruction) ≤
        w.engine.config.cacheReserve / 2)
    (new : max w.engine.config.lowWaterMark
      (w.engine.config.maxBlockInstructions * Config.bytesPerInstruction) ≤ reserve / 2) :
    (w.withReserve reserve).sights bus cpu after = w.sights bus cpu after := by
  refine sights_withReserve cpu after plain (decides_of_threshold after plain ?_)
  exact (Nat.min_eq_left new).trans (Nat.min_eq_left old).symm

end Session

end ArmBlocks
