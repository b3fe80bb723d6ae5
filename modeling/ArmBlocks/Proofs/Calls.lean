import ArmBlocks.Proofs.StartedBlocks

/-!
# What an engine is used for

An engine is called by a host that goes on by itself in between. A `Call` is one of these events, and
a `Session` is an engine and its host after any number of them; `Session.call` is what the engine
does, with what its embedder gets to see (`Reply`).

Seen from the cache of one processor, most calls do nothing, and the others do one thing to it.
`Call.onCache` is that, and `Session.cache_call` says that nothing else happens: whatever is to be
shown of a cache in an engine need only be shown of the operations on it.
-/

set_option autoImplicit false

namespace ArmBlocks

variable {σ : Type}

/-- What may happen to an engine and its host. -/
inductive Call (σ : Type) where
  | execute (s : CpuState)
  | executeUncached (s : CpuState)
  | invalidate (addr : Word) (cpu : Cpu)
  | invalidateRange (first last : Word) (cpu : Cpu)
  | reset (cpu : Cpu) (grants : Grants)
  | setReserve (mebibytes : Nat)
  /-- The host becomes another one by itself. -/
  | change (host : σ)

/-- What the embedder gets to see of a call. -/
inductive Reply where
  /-- An execution ended. -/
  | turn (result : Except EngineError Word) (cpu : CpuState) (notices : List Notice) (broken : Bool)
  /-- Something else was done. -/
  | done (notices : List Notice)
  /-- Something else was refused. -/
  | refused (error : EngineError)

/-- An engine and its host. -/
structure Session (σ : Type) where
  engine : Engine
  host : σ

namespace Session

/-- What one call does. A reset that is refused does nothing. -/
def call (bus : Bus σ) (w : Session σ) : Call σ → Reply × Session σ
  | .execute s =>
    let t := w.engine.execute bus s w.host
    (.turn t.result t.cpu t.notices t.broken, { engine := t.engine, host := t.host })
  | .executeUncached s =>
    let t := w.engine.executeUncached bus s w.host
    (.turn t.result t.cpu t.notices t.broken, { engine := t.engine, host := t.host })
  | .invalidate addr cpu =>
    let done := w.engine.invalidate addr cpu
    (.done done.2, { w with engine := done.1 })
  | .invalidateRange first last cpu =>
    let done := w.engine.invalidateRange first last cpu
    (.done done.2, { w with engine := done.1 })
  | .reset cpu grants =>
    match w.engine.reset cpu grants with
    | .ok e => (.done [], { w with engine := e })
    | .error error => (.refused error, w)
  | .setReserve mebibytes => (.done [], { w with engine := w.engine.setReserveMebibytes mebibytes })
  | .change host => (.done [], { w with host })

/-- What some calls do, one after the other. -/
def calls (bus : Bus σ) (w : Session σ) (all : List (Call σ)) : Session σ :=
  all.foldl (fun w next => (w.call bus next).2) w

end Session

namespace CodeCache

/-- The cache after a reset that takes a changed size into account, if the host grants it. -/
def renewed (c : CodeCache) (config : Config) (grants : Nat → Bool) : CodeCache :=
  if c.arena.capacity = config.cacheReserve then c.reset
  else
    match c.resized config grants with
    | .ok fresh => fresh
    | .error _ => c

end CodeCache

/-- What a call does to the cache of a processor. -/
def Call.onCache (bus : Bus σ) (cpu : Cpu) (config : Config) (host : σ) (c : CodeCache) :
    Call σ → CodeCache
  | .execute s => if s.cpu = cpu then (Engine.obtainBlock c bus config s host).cache else c
  | .invalidate addr other => if other = cpu then (c.invalidate addr).1 else c
  | .invalidateRange first last other =>
    if other = cpu then (c.invalidateMany [] first (Engine.halfSteps first last)).1 else c
  | .reset other grants => if other = cpu then c.renewed config (grants.cache other) else c
  | .executeUncached _ | .setReserve _ | .change _ => c

theorem CodeCache.invalidateMany_induction {P : CodeCache → Prop}
    (one : ∀ {c : CodeCache} (addr : Word), P c → P (c.invalidate addr).1) (count : Nat) :
    ∀ {c : CodeCache} (told : List Notice) (addr : Word), P c → P (c.invalidateMany told addr count).1 := by
  induction count with
  | zero => intro c told addr h; exact h
  | succ count ih => intro c told addr h; exact ih _ _ (one addr h)

/-- What every operation on a cache keeps, no call breaks. -/
theorem Call.onCache_induction {P : CodeCache → Prop} {bus : Bus σ} {config : Config} {c : CodeCache}
    {host : σ} (h : P c) (obtained : ∀ s, P (Engine.obtainBlock c bus config s host).cache)
    (invalidated : ∀ {d : CodeCache} (addr : Word), P d → P (d.invalidate addr).1)
    (renewed : ∀ grants, P (c.renewed config grants)) (cpu : Cpu) (next : Call σ) :
    P (next.onCache bus cpu config host c) := by
  cases next with
  | execute s =>
    rw [Call.onCache]
    split
    · exact obtained s
    · exact h
  | invalidate addr other =>
    rw [Call.onCache]
    split
    · exact invalidated addr h
    · exact h
  | invalidateRange first last other =>
    rw [Call.onCache]
    split
    · exact CodeCache.invalidateMany_induction invalidated _ [] first h
    · exact h
  | reset other grants =>
    rw [Call.onCache]
    split
    · exact renewed (grants.cache other)
    · exact h
  | executeUncached s => exact h
  | setReserve mebibytes => exact h
  | change host => exact h

namespace Engine

variable {e : Engine} {cpu other : Cpu} {c : CodeCache} {grants : Grants}

/-- Changing the cache of one processor is seen in the cache of that processor only. -/
theorem cache_changeCache (cached : e.caches.get cpu = some c)
    (f : CodeCache → CodeCache × List Notice) :
    (e.changeCache other f).1.caches.get cpu = some (if other = cpu then (f c).1 else c) := by
  by_cases same : other = cpu
  · subst same
    rw [if_pos rfl]
    exact changeCache_self cached f
  · rw [if_neg same, changeCache_other e f (Ne.symm same)]
    exact cached

/-- A reset that goes through renews the cache of its processor and keeps the other one. -/
theorem cache_reset {e' : Engine} (cached : e.caches.get cpu = some c)
    (h : e.reset other grants = .ok e') :
    e'.caches.get cpu =
      some (if other = cpu then c.renewed e.config (grants.cache other) else c) := by
  obtain ⟨c', d, cached', made, rfl⟩ := reset_eq_ok h
  by_cases same : other = cpu
  · subst same
    obtain rfl : c = c' := Option.some.inj (cached.symm.trans cached')
    rw [if_pos rfl, PerCpu.get_set_self, CodeCache.renewed]
    -- the capacity stayed as it was, so the cache is emptied, or it was changed and a new one is reserved
    rcases made with ⟨kept, rfl⟩ | ⟨changed, resized⟩
    · rw [if_pos kept]
    · rw [if_neg changed, resized]
  · rw [if_neg same]
    exact (PerCpu.get_set_of_ne _ _ (Ne.symm same)).trans cached

/-- A reset that is refused would have left the cache as it is. -/
theorem renewed_of_refused {error : EngineError} (cached : e.caches.get cpu = some c)
    (h : e.reset cpu grants = .error error) : c.renewed e.config (grants.cache cpu) = c := by
  unfold reset at h
  rw [cached] at h
  unfold CodeCache.renewed
  dsimp only at h
  split at h
  · cases h
  · rename_i changed
    rw [if_neg changed]
    cases resized : c.resized e.config (grants.cache cpu) with
    | error error => rfl
    | ok fresh =>
      rw [resized] at h
      cases h

end Engine

namespace Session

variable {bus : Bus σ} {w : Session σ} {cpu : Cpu} {c : CodeCache}

/-- **What a call does to the cache of a processor is one operation on it,** or nothing. -/
theorem cache_call (cached : w.engine.caches.get cpu = some c) (next : Call σ) :
    (w.call bus next).2.engine.caches.get cpu =
      some (next.onCache bus cpu w.engine.config w.host c) := by
  cases next with
  | execute s =>
    -- a call for the other processor leaves this one's cache alone
    by_cases same : s.cpu = cpu
    · subst same
      obtain ⟨-, caches⟩ := w.engine.execute_engine cached bus w.host
      rw [Call.onCache, if_pos rfl]
      exact (congrArg (PerCpu.get · s.cpu) caches).trans (PerCpu.get_set_self _ _ _)
    · rw [Call.onCache, if_neg same]
      exact (w.engine.execute_other bus s w.host same).2.trans cached
  | executeUncached s =>
    obtain ⟨-, caches⟩ := w.engine.executeUncached_engine bus s w.host
    exact (congrArg (PerCpu.get · cpu) caches).trans cached
  | invalidate addr other => exact Engine.cache_changeCache cached _
  | invalidateRange first last other => exact Engine.cache_changeCache cached _
  | reset other grants =>
    rw [call, Call.onCache]
    cases done : w.engine.reset other grants with
    | ok e => exact Engine.cache_reset cached done
    | error error =>
      by_cases same : other = cpu
      · subst same
        rw [if_pos rfl, Engine.renewed_of_refused cached done]
        exact cached
      · rw [if_neg same]
        exact cached
  | setReserve mebibytes =>
    rw [call, (w.engine.setReserveMebibytes_engine mebibytes).2.1]
    exact cached
  | change host => exact cached

end Session

end ArmBlocks
