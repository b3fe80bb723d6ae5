import ArmBlocks.Proofs.ReserveChange
import ArmBlocks.Proofs.SlotPlaces

/-!
# Initialisations that fail

An initialisation that fails should leave the engine as it was. It makes one cache after the other, puts
each in its place before the next is made, and asks for the arena for single instructions last. So when
something is refused, what was made before is there already. It may be refused at three points: at the
cache of either processor, for its regions or for its memory, and at the small arena.

`Engine.failed_init` says what that comes to. The processors up to the one that was refused have a new
cache in place of what they had, and nothing else is touched: of the others the same is seen as before
(`Engine.sights_of_added`). A new cache in the place of an old one is no change only if the old one was
of that size, for the same regions, and nothing had been counted in it yet: such a cache is as it was
made (`CodeCache.Untouched`).

On an engine without memory a new cache is there without the arena, so blocks are run and single
instructions are not. The reset of a processor, which makes a cache too, has nothing of this: it makes
the cache first and then puts it in its place.
-/

set_option autoImplicit false

namespace ArmBlocks

open CodeCache (blank)

variable {σ : Type}

/-! ## The other processor

An engine may be given another cache for one processor, and an operation on the other one commutes
with that. So what is seen of a processor does not depend on the cache of the other, call by call and
then along any sequence.
-/

/-- The call is of no use of a processor. -/
def Call.Spares (cpu : Cpu) : Call σ → Prop
  | .execute s | .executeUncached s => s.cpu ≠ cpu
  | .invalidate _ other | .invalidateRange _ _ other | .reset other _ => other ≠ cpu
  | .setReserve _ | .change _ => True

/-- The engine with another cache of a processor. -/
def Engine.given (e : Engine) (cpu : Cpu) (c? : Option CodeCache) : Engine :=
  { e with caches := e.caches.set cpu c? }

/-- A turn that leaves the engine with another cache for one processor. -/
def Turn.given (t : Turn σ) (cpu : Cpu) (c? : Option CodeCache) : Turn σ :=
  { t with engine := t.engine.given cpu c? }

/-- A session whose engine has another cache for one processor. -/
def Session.given (w : Session σ) (cpu : Cpu) (c? : Option CodeCache) : Session σ :=
  { w with engine := w.engine.given cpu c? }

theorem PerCpu.ext_get {α : Type} {p q : PerCpu α} (h : ∀ cpu, p.get cpu = q.get cpu) : p = q := by
  rcases p with ⟨p₉, p₇⟩
  rcases q with ⟨q₉, q₇⟩
  exact congr (congrArg PerCpu.mk (h .arm9)) (h .arm7)

theorem PerCpu.set_comm {α : Type} (p : PerCpu α) {cpu other : Cpu} (x y : α) (h : other ≠ cpu) :
    (p.set cpu x).set other y = (p.set other y).set cpu x := by
  cases cpu <;> cases other <;> first | rfl | exact absurd rfl h

namespace Engine

variable (e : Engine) {cpu other : Cpu} {c? : Option CodeCache}

theorem get_given (apart : other ≠ cpu) :
    (e.given cpu c?).caches.get other = e.caches.get other :=
  PerCpu.get_set_of_ne _ _ apart

theorem set_given (apart : other ≠ cpu) (d? : Option CodeCache) :
    { e.given cpu c? with caches := (e.given cpu c?).caches.set other d? } =
      Engine.given { e with caches := e.caches.set other d? } cpu c? :=
  congrArg (fun caches => { e with caches }) (e.caches.set_comm c? d? apart)

/-- The uncached way looks at no cache. -/
theorem executeUncached_given (bus : Bus σ) (s : CpuState) (host : σ) :
    (e.given cpu c?).executeUncached bus s host = (e.executeUncached bus s host).given cpu c? := by
  have scratch : (e.given cpu c?).scratch = e.scratch := rfl
  unfold executeUncached
  rw [scratch]
  cases e.scratch with
  | none => rfl
  | some scratch =>
    dsimp only
    split
    · rfl
    · split
      · rfl
      · rfl

/-- Giving a cache to a processor and executing another one may be done in either order. -/
theorem execute_given (bus : Bus σ) {s : CpuState} (apart : s.cpu ≠ cpu) (host : σ) :
    (e.given cpu c?).execute bus s host = (e.execute bus s host).given cpu c? := by
  have config : (e.given cpu c?).config = e.config := rfl
  unfold execute
  rw [e.get_given apart, config]
  cases e.caches.get s.cpu with
  | none => rfl
  | some c =>
    dsimp only
    generalize obtainBlock c bus e.config s host = found
    rcases found with ⟨outcome, cache, s', host', told⟩
    dsimp only
    rw [← config, e.set_given apart (some cache), config]
    cases outcome with
    | error error => rfl
    | ok block =>
      dsimp only
      cases blockHeader? cache block with
      | none =>
        dsimp only
        rw [executeUncached_given]
        rfl
      | some h =>
        dsimp only
        split
        · rfl
        · rw [executeUncached_given]
          rfl

/-- So may giving it and changing the cache of another one. -/
theorem changeCache_given (apart : other ≠ cpu) (f : CodeCache → CodeCache × List Notice) :
    (e.given cpu c?).changeCache other f =
      ((e.changeCache other f).1.given cpu c?, (e.changeCache other f).2) := by
  unfold changeCache
  rw [e.get_given apart]
  cases e.caches.get other with
  | none => rfl
  | some c =>
    dsimp only
    rw [← e.set_given apart]

/-- So may giving it and resetting another one. -/
theorem reset_given (apart : other ≠ cpu) (grants : Grants) :
    (e.given cpu c?).reset other grants = (e.reset other grants).map (·.given cpu c?) := by
  have config : (e.given cpu c?).config = e.config := rfl
  unfold reset
  rw [e.get_given apart, config]
  cases e.caches.get other with
  | none => rfl
  | some c =>
    dsimp only
    split
    · exact congrArg Except.ok (e.set_given apart (some c.reset))
    · cases c.resized e.config (grants.cache other) with
      | error error => rfl
      | ok d => exact congrArg Except.ok (e.set_given apart (some d))

end Engine

namespace Session

variable {bus : Bus σ} {cpu other : Cpu} {c? : Option CodeCache}

/-- The cache of a processor does not matter to the calls of the other. -/
theorem call_given (w : Session σ) {next : Call σ} (spares : next.Spares cpu) :
    (w.given cpu c?).call bus next = ((w.call bus next).1, (w.call bus next).2.given cpu c?) := by
  have engine : (w.given cpu c?).engine = w.engine.given cpu c? := rfl
  have host : (w.given cpu c?).host = w.host := rfl
  cases next with
  | execute s =>
    simp only [call, engine, host, w.engine.execute_given bus spares]
    rfl
  | executeUncached s =>
    simp only [call, engine, host, Engine.executeUncached_given]
    rfl
  | invalidate addr cpu =>
    simp only [call, engine, Engine.invalidate, w.engine.changeCache_given spares]
    rfl
  | invalidateRange first last cpu =>
    simp only [call, engine, Engine.invalidateRange, w.engine.changeCache_given spares]
    rfl
  | reset cpu grants =>
    simp only [call, engine, w.engine.reset_given spares]
    cases w.engine.reset cpu grants with
    | error error => rfl
    | ok e => rfl
  | setReserve mebibytes =>
    -- with fields in place of projections, or the kernel goes on to compare the sizes
    rcases w with ⟨⟨config, caches, scratch⟩, host⟩
    cases config
    rfl
  | change host => rfl

/-- Nothing is seen of a cache that was given to another processor, as long as no call is for that one. -/
theorem sights_given (apart : other ≠ cpu) (after : List (Call σ)) :
    ∀ {w : Session σ}, (∀ next ∈ after, next.Spares cpu) →
      (w.given cpu c?).sights bus other after = w.sights bus other after := by
  induction after with
  | nil => intro w _; rfl
  | cons next rest ih =>
    intro w spares
    have stats (v : Session σ) : (v.given cpu c?).engine.stats other = v.engine.stats other :=
      congrArg (Option.map CodeCache.stats) (v.engine.get_given apart)
    rw [sights, sights, w.call_given (spares next List.mem_cons_self)]
    dsimp only
    rw [stats, ih fun later hlater => spares later (List.mem_cons_of_mem _ hlater)]
    rfl

end Session

/-! ## Caches that have counted nothing

Statistics count what is compiled and what is flushed. A cache for which both are zero has done
nothing that could be seen, since only a compilation fills the table, the coverage and the arena; and
the counts of a granule only go up where a block goes.
-/

namespace CodeCache

variable {c : CodeCache} {cpu : Cpu} {config : Config} {regions : List CodeRegion}
  {layout : SlotLayout}

/-- The cache is as it was made, unless it has compiled a block or dropped all. -/
def Untouched (c : CodeCache) : Prop :=
  c.tally = 0 → ∀ config : Config, config.cacheReserve = c.arena.capacity →
    c = blank c.cpu config c.regions c.table.layout

theorem untouched_blank (cpu : Cpu) (config : Config) (regions : List CodeRegion)
    (layout : SlotLayout) : (blank cpu config regions layout).Untouched := by
  intro _ other same
  have size : other.cacheReserve = config.cacheReserve := same
  simp only [blank, size]

/-- An untouched cache in which nothing was counted gives no code up. -/
theorem Untouched.isThrashing (h : c.Untouched) (none : c.tally = 0) (config : Config) (addr : Word) :
    c.isThrashing config addr = false := by
  have fresh := h none { cacheReserve := c.arena.capacity } rfl
  have counts : c.thrash = ∅ := congrArg thrash fresh
  unfold CodeCache.isThrashing thrashCount
  rw [counts]
  cases c.table.slot? addr with
  | none => rfl
  | some slot => simp

theorem Untouched.makeRoom (h : c.Untouched) (config : Config) : (c.makeRoom config).1.Untouched := by
  by_cases low : c.IsLow config
  · intro none
    rw [tally_makeRoom, if_pos low] at none
    cases none
  · rw [makeRoom_of_not_low low]
    exact h

/-- Compiling leaves a cache untouched, or counts. -/
theorem Untouched.compile (h : c.Untouched) (bus : Bus σ) (config : Config) (s : CpuState) (host : σ) :
    (c.compile bus config s host).cache.Untouched := by
  have step := c.compileStep bus config s host
  generalize c.compile bus config s host = made at step ⊢
  rcases made with ⟨outcome, cache, s', host', told⟩
  dsimp only at step ⊢
  cases step with
  | unmapped place => exact h
  | thrashing slot place often =>
    intro none
    -- a mark is only left where something was counted
    rw [h.isThrashing none] at often
    cases often
  | unfetched slot place calm empty => exact h.makeRoom config
  | full slot place calm nonempty arena emitted =>
    intro none
    exact absurd none (Nat.succ_ne_zero _)
  | built slot place calm nonempty ref arena emitted =>
    intro none
    have counted : (c.makeRoom config).1.blocksCompiled + 1 + (c.makeRoom config).1.resets = 0 := none
    omega

/-- Dropping blocks takes nothing from the tally. -/
theorem tally_dropBlocks (starts : List Word) :
    ∀ c : CodeCache, (c.dropBlocks starts).1.tally = c.tally := by
  induction starts with
  | nil => intro c; rfl
  | cons start rest ih =>
    intro c
    have one : (c.dropBlock start).1.tally = c.tally := by
      unfold dropBlock
      split
      · dsimp only
        split
        · rfl
        · rfl
      · rfl
    exact (ih _).trans one

theorem tally_invalidate (c : CodeCache) (addr : Word) : (c.invalidate addr).1.tally = c.tally := by
  unfold invalidate
  split
  · rfl
  · exact tally_dropBlocks _ _

/-- There is nothing to invalidate in a cache that was just made. -/
theorem invalidate_blank (addr : Word) :
    ((blank cpu config regions layout).invalidate addr).1 = blank cpu config regions layout := by
  have hits (slot : Nat) : CoverageMap.hits ∅ slot = [] := by
    simp [CoverageMap.hits, CoverageMap.entries]
  cases place : layout.slot? addr with
  | none => exact invalidate_of_unmapped place
  | some slot =>
    have place' : SlotTable.slot? { layout, slots := ∅ } addr = some slot := place
    simp [invalidate, blank, place', hits, dropBlocks, dropBlock, SlotTable.invalidate]

theorem Untouched.invalidate (h : c.Untouched) (addr : Word) : (c.invalidate addr).1.Untouched := by
  intro none config size
  have before : c.tally = 0 := c.tally_invalidate addr ▸ none
  have shell := c.sameShell_invalidate addr
  have fresh := h before config (size.trans shell.capacity)
  rw [shell.cpu, shell.regions, shell.layout, ← fresh, fresh]
  exact invalidate_blank addr

/-- A reset that goes through counts, and one that is refused does nothing. -/
theorem Untouched.renewed (h : c.Untouched) (config : Config) (grants : Nat → Bool) :
    (c.renewed config grants).Untouched := by
  unfold CodeCache.renewed
  split
  · intro none
    exact absurd none (Nat.succ_ne_zero _)
  · split
    · rename_i fresh resized
      obtain ⟨layout, -, -, rfl⟩ := resized_eq_ok.mp resized
      intro none
      exact absurd none (Nat.succ_ne_zero _)
    · exact h

theorem Untouched.obtainBlock (h : c.Untouched) (bus : Bus σ) (config : Config) (s : CpuState)
    (host : σ) : (Engine.obtainBlock c bus config s host).cache.Untouched := by
  unfold Engine.obtainBlock
  split
  · exact h
  · exact h.compile bus config s host

end CodeCache

namespace Engine

variable {e e' : Engine} {bus : Bus σ} {host : σ} {cpu : Cpu} {c : CodeCache} {error : EngineError}
  {told : List Notice} {regions : Cpu → List CodeRegion} {grants : Grants} {made : List Cpu}

/-- Every cache of an engine that has lived is new, or something was counted in it. -/
theorem Lived.untouched (lived : e.Lived bus) (cached : e.caches.get cpu = some c) : c.Untouched := by
  apply lived.cache_induction (P := fun _ c => c.Untouched) ?_ ?_ cpu c cached
  · intro cpu config regions c grants made
    obtain ⟨layout, -, -, rfl⟩ := CodeCache.new_eq_ok.mp made
    exact CodeCache.untouched_blank cpu config regions layout
  · intro cpu config c host next _ _ h
    exact Call.onCache_induction h (fun s => h.obtainBlock bus config s host)
      (fun addr before => before.invalidate addr) (h.renewed config) cpu next

/-! ## Where an initialisation fails

The recursion of the initialisation is cut at the processor that is refused. Those before it were
added, one after the other, and the engine is otherwise what it was.
-/

/-- The processors in `made` have got a new cache, and nothing else was done. -/
structure Added (e e' : Engine) (regions : Cpu → List CodeRegion) (grants : Grants)
    (made : List Cpu) : Prop where
  config : e'.config = e.config
  scratch : e'.scratch = e.scratch
  new : ∀ cpu ∈ made, e'.HasNew e.config regions grants cpu
  kept : ∀ cpu, cpu ∉ made → e'.caches.get cpu = e.caches.get cpu

/-- What an initialisation is refused when the processors in `rest` are still to get a cache: that of the
first of them, or else the arena for single instructions. -/
def StopsAt (e : Engine) (regions : Cpu → List CodeRegion) (grants : Grants) (error : EngineError) :
    List Cpu → Prop
  | cpu :: _ => CodeCache.new cpu e.config (regions cpu) (grants.cache cpu) = .error error
  | [] => grants.scratch scratchBytes = false ∧ error = .reserve scratchBytes

theorem Added.refl (e : Engine) (regions : Cpu → List CodeRegion) (grants : Grants) :
    e.Added e regions grants [] :=
  ⟨rfl, rfl, fun _ mem => absurd mem List.not_mem_nil, fun _ _ => rfl⟩

/-- One more processor, and then the others. -/
theorem Added.cons {new : CodeCache}
    (first : CodeCache.new cpu e.config (regions cpu) (grants.cache cpu) = .ok new)
    (others : (e.given cpu (some new)).Added e' regions grants made) (apart : cpu ∉ made) :
    e.Added e' regions grants (cpu :: made) where
  config := others.config
  scratch := others.scratch
  new other mem := by
    rcases List.mem_cons.mp mem with rfl | mem
    · exact ⟨new, (others.kept other apart).trans (PerCpu.get_set_self _ _ _), first⟩
    · exact others.new other mem
  kept other absent := by
    rw [List.mem_cons, not_or] at absent
    exact (others.kept other absent.2).trans (e.get_given absent.1)

theorem Added.engine (added : e.Added e' regions grants made) : e' = { e with caches := e'.caches } := by
  rcases e' with ⟨config, caches, scratch⟩
  obtain rfl := added.config
  obtain rfl := added.scratch
  rfl

/-- An engine that keeps its caches is the same. -/
theorem Added.eq (added : e.Added e' regions grants made)
    (kept : ∀ cpu ∈ made, e'.caches.get cpu = e.caches.get cpu) : e' = e := by
  have caches : e'.caches = e.caches := PerCpu.ext_get fun cpu => by
    by_cases mem : cpu ∈ made
    · exact kept cpu mem
    · exact added.kept cpu mem
  rw [added.engine, caches]

/-- Caches are added up to the first that cannot be made. -/
theorem added_addCaches (regions : Cpu → List CodeRegion) (grants : Grants) (cpus : List Cpu) :
    ∀ {e : Engine}, cpus.Nodup →
      ∃ made rest, made ++ rest = cpus ∧ e.Added (e.addCaches regions grants cpus).2 regions grants made ∧
        match (e.addCaches regions grants cpus).1 with
        | .ok () => rest = []
        | .error error => rest ≠ [] ∧ e.StopsAt regions grants error rest := by
  induction cpus with
  | nil => intro e _; exact ⟨[], [], rfl, .refl e regions grants, rfl⟩
  | cons cpu later ih =>
    intro e nodup
    obtain ⟨apart, nodup⟩ := List.nodup_cons.mp nodup
    unfold addCaches addCache
    cases new : CodeCache.new cpu e.config (regions cpu) (grants.cache cpu) with
    | error error => exact ⟨[], cpu :: later, rfl, .refl e regions grants, List.cons_ne_nil _ _, new⟩
    | ok c =>
      obtain ⟨made, rest, split, added, refused⟩ := ih (e := e.given cpu (some c)) nodup
      have absent : cpu ∉ made := fun mem => apart (split ▸ List.mem_append_left rest mem)
      refine ⟨cpu :: made, rest, congrArg (cpu :: ·) split, .cons new added absent, ?_⟩
      -- what is refused does not depend on the caches that are there
      cases rest with
      | nil => exact refused
      | cons next rest => exact refused

/-- **Something is refused in between,** and what was made before is in its place. -/
theorem added_of_init (failed : e.init bus host grants = (.error error, e', told)) :
    told = [] ∧ ∃ made rest, made ++ rest = Cpu.all ∧
      e.StopsAt (bus.codeRegions host) grants error rest ∧
      e.Added e' (bus.codeRegions host) grants made := by
  obtain ⟨made, rest, split, added, refused⟩ :=
    added_addCaches (bus.codeRegions host) grants Cpu.all (e := e) (by decide)
  unfold init at failed
  generalize e.addCaches (bus.codeRegions host) grants Cpu.all = x at added refused failed
  rcases x with ⟨error' | ⟨⟨⟩⟩, after⟩
  · cases failed
    exact ⟨rfl, made, rest, split, refused.2, added⟩
  · obtain rfl : rest = [] := refused
    dsimp only [Arena.reserve] at failed
    by_cases granted : grants.scratch scratchBytes = true
    · rw [if_pos granted] at failed
      cases failed
    · rw [if_neg granted] at failed
      cases failed
      exact ⟨rfl, made, [], split, ⟨Bool.eq_false_iff.mpr granted, rfl⟩, added⟩

/-- Where a processor has kept its cache, calls that are of no use of those with a new one do not tell the
engines apart. -/
theorem sights_of_added (added : e.Added e' regions grants made) (absent : cpu ∉ made) (host : σ)
    {after : List (Call σ)} (spares : ∀ next ∈ after, ∀ other ∈ made, next.Spares other) :
    Session.sights bus cpu { engine := e', host } after =
      Session.sights bus cpu { engine := e, host } after := by
  obtain ⟨other, apart, only⟩ : ∃ other, cpu ≠ other ∧ ∀ x, x = cpu ∨ x = other := by
    cases cpu
    · exact ⟨.arm7, by decide, fun x => by cases x <;> decide⟩
    · exact ⟨.arm9, by decide, fun x => by cases x <;> decide⟩
  by_cases mem : other ∈ made
  · -- the engines differ in the cache of the other processor
    have caches : e'.caches = e.caches.set other (e'.caches.get other) := PerCpu.ext_get fun x => by
      rcases only x with rfl | rfl
      · exact (added.kept x absent).trans (PerCpu.get_set_of_ne _ _ apart).symm
      · exact (PerCpu.get_set_self _ _ _).symm
    rw [added.engine, caches]
    exact Session.sights_given (w := { engine := e, host }) apart after fun next hnext =>
      spares next hnext other mem
  · have same : e' = e := added.eq fun x hx => by
      rcases only x with rfl | rfl
      · exact absurd hx absent
      · exact absurd hx mem
    rw [same]

/-- A cache that is replaced by a new one is no other if the statistics do not tell them apart. -/
theorem eq_new_of_stats {new : CodeCache} (lived : e.Lived bus) (cached : e.caches.get cpu = some c)
    (made : CodeCache.new cpu e.config c.regions (grants.cache cpu) = .ok new)
    (same : c.stats = new.stats) : c = new := by
  obtain ⟨layout, accepted, -, rfl⟩ := CodeCache.new_eq_ok.mp made
  have granted := lived.sound.caches cpu c cached
  obtain rfl := Except.ok.inj (granted.accepted.symm.trans accepted)
  have tally : c.tally = 0 := congrArg (fun s : CacheStats => s.blocksCompiled + s.resets) same
  have capacity : c.arena.capacity = e.config.cacheReserve := congrArg CacheStats.capacity same
  rw [lived.untouched cached tally e.config capacity.symm, granted.ours]
  rfl

/-- The statistics of a processor and the regions its cache is for do not tell the engines apart. -/
def Alike (e e' : Engine) (regions : Cpu → List CodeRegion) (cpu : Cpu) : Prop :=
  e'.stats cpu = e.stats cpu ∧ ∀ c, e.caches.get cpu = some c → c.regions = regions cpu

/-- A processor with a new cache has the one it had if and only if that one looks new. -/
theorem kept_iff_alike (lived : e.Lived bus) (new : e'.HasNew e.config regions grants cpu) :
    e'.caches.get cpu = e.caches.get cpu ↔ e.Alike e' regions cpu := by
  obtain ⟨new, cached', made⟩ := new
  have stats : e'.stats cpu = some new.stats := congrArg (Option.map CodeCache.stats) cached'
  constructor
  · intro kept
    refine ⟨congrArg (Option.map CodeCache.stats) kept, fun c cached => ?_⟩
    obtain rfl : new = c := Option.some.inj (cached'.symm.trans (kept.trans cached))
    obtain ⟨layout, -, -, rfl⟩ := CodeCache.new_eq_ok.mp made
    rfl
  · -- with the same statistics nothing was ever counted there, and then the cache is a new one
    rintro ⟨same, known⟩
    rw [stats, Engine.stats, eq_comm, Option.map_eq_some_iff] at same
    obtain ⟨c, cached, same⟩ := same
    rw [← known c cached] at made
    rw [cached', cached, eq_new_of_stats lived cached made same]

/-- **What an initialisation that fails does.** It tells nothing. The processors before the one that was
refused its cache, or both if it was the arena for single instructions, have a new cache, and nothing
else is done: of every other processor the same is seen as without the initialisation. All is as it was
if and only if neither the statistics nor the regions of those with a new cache tell it from the one
before; so nothing is changed where the first cache is refused. -/
theorem failed_init (lived : e.Lived bus) (failed : e.init bus host grants = (.error error, e', told)) :
    told = [] ∧ ∃ made rest, made ++ rest = Cpu.all ∧
      e.StopsAt (bus.codeRegions host) grants error rest ∧
      e.Added e' (bus.codeRegions host) grants made ∧
      (∀ cpu ∈ made, e'.stats cpu = some
        { bytesUsed := 0, capacity := e.config.cacheReserve, blocksCompiled := 0, resets := 0 }) ∧
      (∀ cpu ∈ rest, e'.stats cpu = e.stats cpu ∧
        ∀ (host : σ) (after : List (Call σ)),
          (∀ next ∈ after, ∀ other ∈ made, next.Spares other) →
            Session.sights bus cpu { engine := e', host } after =
              Session.sights bus cpu { engine := e, host } after) ∧
      (e' = e ↔ ∀ cpu ∈ made, e.Alike e' (bus.codeRegions host) cpu) := by
  obtain ⟨silent, made, rest, split, refused, added⟩ := added_of_init failed
  have nodup : (made ++ rest).Nodup := by
    rw [split]
    decide
  have apart (cpu : Cpu) (mem : cpu ∈ rest) : cpu ∉ made := fun other =>
    (List.nodup_append.mp nodup).2.2 cpu other cpu mem rfl
  refine ⟨silent, made, rest, split, refused, added, fun cpu mem => ?_, fun cpu mem => ?_, ?_⟩
  · obtain ⟨new, cached, new'⟩ := added.new cpu mem
    obtain ⟨layout, -, -, rfl⟩ := CodeCache.new_eq_ok.mp new'
    rw [stats, cached]
    rfl
  · have kept := added.kept cpu (apart cpu mem)
    exact ⟨congrArg (Option.map CodeCache.stats) kept,
      fun host after spares => sights_of_added added (apart cpu mem) host spares⟩
  · constructor
    · rintro rfl cpu mem
      exact (kept_iff_alike lived (added.new cpu mem)).mp rfl
    · intro alike
      exact added.eq fun cpu mem => (kept_iff_alike lived (added.new cpu mem)).mpr (alike cpu mem)

/-- What an initialisation was refused for. -/
def refusal : Except EngineError Unit × Engine × List Notice → Option EngineError
  | (.error error, _, _) => some error
  | (.ok _, _, _) => none

theorem init_eq_of_refusal {answer : Except EngineError Unit × Engine × List Notice} {error : EngineError}
    (refused : refusal answer = some error) : ∃ e' told, answer = (.error error, e', told) := by
  rcases answer with ⟨other | ⟨⟨⟩⟩, e', told⟩
  · obtain rfl : other = error := Option.some.inj refused
    exact ⟨e', told, rfl⟩
  · cases refused

/-- Every instruction is a branch to itself, and from some time on the memory of the second processor is
reported wrongly. -/
def misreported : Bus Bool :=
  { Bus.ofMemory (fun host _ w _ => (some (if w = .word then 0xEAFFFFFE else 0xE7FE), host))
      (fun host _ _ _ _ => (false, host)) (fun host _ _ _ _ => (1, host)) with
    codeRegions := fun wrong cpu =>
      if wrong ∧ cpu = .arm7 then [⟨0x100, 0x4000, 0x4000⟩] else [] }

/-- An engine that has compiled for both processors. -/
def atWork : Engine :=
  (Session.calls misreported { engine := ((Engine.new {}).1.init misreported false).2.1, host := false }
    [.execute (.new .arm9), .execute (.new .arm7)]).engine

/-- Initialised again when the memory is reported wrongly, it forgets what it compiled for the first
processor; and when the host has nothing left for the small arena, for both. -/
theorem failed_init_atWork :
    (∃ e', atWork.init misreported true = (.error (.invalidRegion 0x100 0x4000), e', []) ∧
      (e'.stats .arm9).map CacheStats.blocksCompiled = some 0 ∧
      (atWork.stats .arm9).map CacheStats.blocksCompiled = some 1 ∧
      Session.sights misreported .arm7 { engine := e', host := true } [.execute (.new .arm7)] =
        Session.sights misreported .arm7 { engine := atWork, host := true } [.execute (.new .arm7)]) ∧
    ∃ e', atWork.init misreported false { Grants.usual with scratch := fun _ => false } =
        (.error (.reserve 0x1000), e', []) ∧
      ∀ cpu, (e'.stats cpu).map CacheStats.blocksCompiled = some 0 := by
  have lived : atWork.Lived misreported := Lived.calls _ false ((Lived.new {}).init false .usual)
  have counted : (atWork.stats .arm9).map CacheStats.blocksCompiled = some 1 := by decide +kernel
  obtain ⟨layout, accepted⟩ := (SlotLayout.ofRegions_isOk []).mpr (by simp)
  have new (cpu : Cpu) : CodeCache.new cpu atWork.config [] = .ok (blank cpu atWork.config [] layout) :=
    CodeCache.new_eq_ok.mpr ⟨layout, accepted, by decide +kernel, rfl⟩
  constructor
  · obtain ⟨e', told, failed⟩ := init_eq_of_refusal
      (show refusal (atWork.init misreported true) = some (.invalidRegion 0x100 0x4000) by decide +kernel)
    obtain ⟨rfl, made, rest, split, refused, -, fresh, kept, -⟩ := failed_init lived failed
    obtain ⟨rfl, rfl⟩ : made = [.arm9] ∧ rest = [.arm7] := by
      rcases made with _ | ⟨first, _ | ⟨second, more⟩⟩
      · obtain rfl : rest = Cpu.all := split
        cases refused.symm.trans (new .arm9)
      · cases split
        exact ⟨rfl, rfl⟩
      · obtain ⟨-, rfl⟩ : more = [] ∧ rest = [] := by
          simpa [Cpu.all] using (List.cons.inj (List.cons.inj split).2).2
        cases refused.2
    obtain ⟨-, seen⟩ := kept .arm7 List.mem_cons_self
    exact ⟨e', failed, by rw [fresh .arm9 List.mem_cons_self]; rfl, counted,
      seen true _ (by simp [Call.Spares, CpuState.new])⟩
  · obtain ⟨e', told, failed⟩ := init_eq_of_refusal
      (show refusal (atWork.init misreported false { Grants.usual with scratch := fun _ => false }) =
        some (.reserve 0x1000) by decide +kernel)
    obtain ⟨rfl, made, rest, split, refused, -, fresh, -, -⟩ := failed_init lived failed
    rcases rest with _ | ⟨next, later⟩
    · rw [List.append_nil] at split
      subst split
      refine ⟨e', failed, fun cpu => ?_⟩
      rw [fresh cpu (by cases cpu <;> decide)]
      rfl
    · cases refused.symm.trans (new next)

end Engine

end ArmBlocks
