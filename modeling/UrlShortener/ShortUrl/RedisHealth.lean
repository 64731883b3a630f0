import UrlShortener.Base.Machine
import UrlShortener.Base.Threads

/-!
# UrlShortener.ShortUrl.RedisHealth

How `ShortUrlCache` follows an outage of Redis: the threads that call `get_redis`, `set` and
`erase`, the probe thread, and the thread that calls `init` and `shutdown`. One of them takes a step
at a time. Of a Redis operation there is only whether it throws; the caches are left out.

The server starts its workers after `init` and has joined them before `shutdown`, so `begin` and
`shutdown` are possible only then. `std::thread` objects are numbered; assigning to a joinable one
ends the program (`terminated`).
-/

namespace UrlShortener
namespace ShortUrl

/-- Where a caller stands. -/
inductive CallerPc where
  | entered
  /-- It has a client, and the operation is under way. -/
  | talking
  /-- In `mark_redis_unavailable`, before the exchange. -/
  | failed
  /-- The exchange has found `true`. -/
  | losing
  /-- In `ensure_probe_started`. -/
  | asking
  /-- `probe_running_` was false and is now true. -/
  | clearing
  | resetting
  | spawning
  | returned
deriving DecidableEq

/-- Where a probe thread stands in `probe_loop`. -/
inductive ProbePc where
  | top
  | waiting
  | woken
  | testing
  /-- `redis_available_` was false. -/
  | fetching
  | pinging
  | restoring
  /-- Redis is available again, and `redis_recovered` not yet counted. -/
  | counting
  | leaving
  | exited
deriving DecidableEq

/-- Where the thread of `init` and `shutdown` stands. -/
inductive OwnerPc where
  | down
  | up
  /-- In `shutdown`: `probe_stop_` is set. -/
  | stopped
  | joined
deriving DecidableEq

/-- `client` is whether `redis_` is set, `handle` the thread that `probe_thread_` is. `booted` counts
the calls of `init` that have found Redis up, `dropped` those before which it was still available. -/
structure RedisHealth where
  enabled : Bool := false
  client : Bool := false
  available : Bool := false
  running : Bool := false
  stop : Bool := false
  handle : Option Nat := none
  probes : List ProbePc := []
  callers : List CallerPc := []
  owner : OwnerPc := .down
  markedDown : Nat := 0
  recovered : Nat := 0
  booted : Nat := 0
  dropped : Nat := 0
  terminated : Bool := false

inductive RedisLabel where
  /-- `client`: its constructor does not throw; `ping`: neither does the ping. -/
  | init (enabled client ping : Bool)
  | begin
  /-- A caller goes on; `ok` is whether its operation succeeds. -/
  | caller (t : Nat) (ok : Bool)
  | probe (i : Nat) (ok : Bool)
  | shutdown

namespace RedisHealth

variable (s : RedisHealth)

/-- When the ping fails, `init` calls `ensure_probe_started` like any other caller. Its own call of
`shutdown` has nothing left to do. -/
def init (enabled client ping : Bool) : RedisHealth :=
  { s with
    enabled, client := enabled && client, available := enabled && client && ping
    running := false, stop := false, owner := .up
    callers := if enabled && client && !ping then s.callers ++ [.asking] else s.callers
    booted := s.booted + (enabled && client && ping).toNat
    dropped := s.dropped + s.available.toNat }

/-- Thread `i` has run to its end. -/
def isOver (i : Nat) : Bool := decide (s.probes[i]? = some .exited)

def callerStep (pc : CallerPc) (ok : Bool) : Option (RedisHealth × CallerPc) :=
  match pc with
  | .entered => if s.available && s.client then some (s, .talking) else some (s, .asking)
  | .talking => if ok then some (s, .returned) else some (s, .failed)
  | .failed =>
    some ({ s with available := false }, if s.available then .losing else .asking)
  | .losing => some ({ s with markedDown := s.markedDown + 1 }, .asking)
  | .asking =>
    if !s.enabled || s.running then some (s, .returned)
    else some ({ s with running := true }, .clearing)
  | .clearing =>
    match s.handle with
    | none => some (s, .resetting)
    | some i => if s.isOver i then some ({ s with handle := none }, .resetting) else none
  | .resetting => some ({ s with stop := false }, .spawning)
  | .spawning =>
    match s.handle with
    | none => some ({ s with handle := some s.probes.length, probes := s.probes ++ [.top] }, .returned)
    | some _ => some ({ s with terminated := true }, .returned)
  | .returned => none

def probeStep (pc : ProbePc) (ok : Bool) : Option (RedisHealth × ProbePc) :=
  match pc with
  | .top => some (s, if s.stop then .leaving else .waiting)
  | .waiting => some (s, .woken)
  | .woken => some (s, if s.stop then .leaving else .testing)
  | .testing => some (s, if s.available then .top else .fetching)
  | .fetching => some (s, if s.client then .pinging else .top)
  | .pinging => some (s, if ok then .restoring else .top)
  | .restoring => some ({ s with available := true }, .counting)
  | .counting => some ({ s with recovered := s.recovered + 1 }, .top)
  | .leaving => some ({ s with running := false }, .exited)
  | .exited => none

def shutdownStep : Option RedisHealth :=
  match s.owner with
  | .down => none
  | .up =>
    if s.callers.all (· = .returned) then some { s with stop := true, owner := .stopped } else none
  | .stopped =>
    match s.handle with
    | none => some { s with owner := .joined }
    | some i => if s.isOver i then some { s with handle := none, owner := .joined } else none
  | .joined => some { s with running := false, owner := .down }

def step (l : RedisLabel) : Option RedisHealth :=
  match l with
  | .init enabled client ping =>
    if s.owner = .down then some (s.init enabled client ping) else none
  | .begin =>
    if s.owner = .up then
      some { s with callers := s.callers ++ [if s.enabled then .entered else .returned] }
    else none
  | .caller t ok =>
    (s.callers[t]?).bind fun pc => (s.callerStep pc ok).map fun r =>
      { r.1 with callers := s.callers.set t r.2 }
  | .probe i ok =>
    (s.probes[i]?).bind fun pc => (s.probeStep pc ok).map fun r =>
      { r.1 with probes := s.probes.set i r.2 }
  | .shutdown => s.shutdownStep

end RedisHealth

/-! ## What a step can do -/

/-- All that a caller can do. -/
inductive CallerMove (s : RedisHealth) : CallerPc → RedisHealth → CallerPc → Prop
  | talk : CallerMove s .entered s .talking
  | miss : CallerMove s .entered s .asking
  | done : CallerMove s .talking s .returned
  | throw : CallerMove s .talking s .failed
  | lose (up : s.available = true) : CallerMove s .failed { s with available := false } .losing
  | lost (down : s.available = false) : CallerMove s .failed { s with available := false } .asking
  | count : CallerMove s .losing { s with markedDown := s.markedDown + 1 } .asking
  | leave (why : s.enabled = false ∨ s.running = true) : CallerMove s .asking s .returned
  | win (idle : s.running = false) : CallerMove s .asking { s with running := true } .clearing
  | skip (free : s.handle = none) : CallerMove s .clearing s .resetting
  | join (i : Nat) (handle : s.handle = some i) :
      CallerMove s .clearing { s with handle := none } .resetting
  | reset : CallerMove s .resetting { s with stop := false } .spawning
  | spawn (free : s.handle = none) :
      CallerMove s .spawning
        { s with handle := some s.probes.length, probes := s.probes ++ [.top] } .returned
  | terminate (i : Nat) (handle : s.handle = some i) :
      CallerMove s .spawning { s with terminated := true } .returned

theorem callerStep_move {s s' : RedisHealth} {pc pc' : CallerPc} {ok : Bool}
    (h : s.callerStep pc ok = some (s', pc')) : CallerMove s pc s' pc' := by
  unfold RedisHealth.callerStep at h
  split at h
  · split at h <;> cases h
    · exact .talk
    · exact .miss
  · split at h <;> cases h
    · exact .done
    · exact .throw
  · cases h
    split
    · exact .lose ‹_›
    · exact .lost (by simpa using ‹¬ s.available = true›)
  · cases h
    exact .count
  · split at h <;> rename_i hwhy <;> cases h
    · exact .leave (by simpa using hwhy)
    · rw [Bool.or_eq_true, not_or] at hwhy
      exact .win (by simpa using hwhy.2)
  · split at h <;> rename_i hhandle
    · cases h
      exact .skip hhandle
    · split at h <;> cases h
      exact .join _ hhandle
  · cases h
    exact .reset
  · split at h <;> rename_i hhandle <;> cases h
    · exact .spawn hhandle
    · exact .terminate _ hhandle
  · cases h

/-- All that a probe thread can do. -/
inductive ProbeMove (s : RedisHealth) : ProbePc → RedisHealth → ProbePc → Prop
  | quit (stop : s.stop = true) : ProbeMove s .top s .leaving
  | wait : ProbeMove s .top s .waiting
  | wake : ProbeMove s .waiting s .woken
  | stop (stop : s.stop = true) : ProbeMove s .woken s .leaving
  | test : ProbeMove s .woken s .testing
  | fine : ProbeMove s .testing s .top
  | fetch (down : s.available = false) : ProbeMove s .testing s .fetching
  | none : ProbeMove s .fetching s .top
  | ping : ProbeMove s .fetching s .pinging
  | answer : ProbeMove s .pinging s .restoring
  | throw : ProbeMove s .pinging s .top
  | restore : ProbeMove s .restoring { s with available := true } .counting
  | count : ProbeMove s .counting { s with recovered := s.recovered + 1 } .top
  | exit : ProbeMove s .leaving { s with running := false } .exited

theorem probeStep_move {s s' : RedisHealth} {pc pc' : ProbePc} {ok : Bool}
    (h : s.probeStep pc ok = some (s', pc')) : ProbeMove s pc s' pc' := by
  unfold RedisHealth.probeStep at h
  split at h <;> cases h
  · split
    · exact .quit ‹_›
    · exact .wait
  · exact .wake
  · split
    · exact .stop ‹_›
    · exact .test
  · split
    · exact .fine
    · exact .fetch (by simpa using ‹¬ s.available = true›)
  · split
    · exact .ping
    · exact .none
  · split
    · exact .answer
    · exact .throw
  · exact .restore
  · exact .count
  · exact .exit

/-- All that `shutdown` can do. -/
inductive OwnerMove (s : RedisHealth) : OwnerPc → RedisHealth → Prop
  | stop (quiet : ∀ pc ∈ s.callers, pc = .returned) :
      OwnerMove s .up { s with stop := true, owner := .stopped }
  | skip (free : s.handle = none) : OwnerMove s .stopped { s with owner := .joined }
  | join (i : Nat) (handle : s.handle = some i) (exited : s.probes[i]? = some .exited) :
      OwnerMove s .stopped { s with handle := none, owner := .joined }
  | done : OwnerMove s .joined { s with running := false, owner := .down }

theorem shutdownStep_move {s s' : RedisHealth} (h : s.shutdownStep = some s') :
    OwnerMove s s.owner s' := by
  unfold RedisHealth.shutdownStep at h
  split at h <;> rename_i howner <;> rw [howner]
  · cases h
  · split at h <;> cases h
    exact .stop fun pc hpc => of_decide_eq_true (List.all_eq_true.mp ‹s.callers.all _ = true› pc hpc)
  · split at h <;> rename_i hhandle
    · cases h
      exact .skip hhandle
    · split at h <;> cases h
      exact .join _ hhandle (by simpa [RedisHealth.isOver] using ‹s.isOver _ = true›)
  · cases h
    exact .done

theorem redisStep_cases {s s' : RedisHealth} {l : RedisLabel} (h : s.step l = some s') :
    (∃ enabled client ping, l = .init enabled client ping ∧ s.owner = .down ∧
      s' = s.init enabled client ping) ∨
    (l = .begin ∧ s.owner = .up ∧
      s' = { s with callers := s.callers ++ [if s.enabled then .entered else .returned] }) ∨
    (∃ t ok pc s₁ pc', l = .caller t ok ∧ s.callers[t]? = some pc ∧ CallerMove s pc s₁ pc' ∧
      s' = { s₁ with callers := s.callers.set t pc' }) ∨
    (∃ i ok pc s₁ pc', l = .probe i ok ∧ s.probes[i]? = some pc ∧ ProbeMove s pc s₁ pc' ∧
      s' = { s₁ with probes := s.probes.set i pc' }) ∨
    (l = .shutdown ∧ OwnerMove s s.owner s') := by
  cases l with
  | init enabled client ping =>
    simp only [RedisHealth.step] at h
    split at h <;> cases h
    exact Or.inl ⟨enabled, client, ping, rfl, ‹_›, rfl⟩
  | begin =>
    simp only [RedisHealth.step] at h
    split at h <;> cases h
    exact Or.inr (Or.inl ⟨rfl, ‹_›, rfl⟩)
  | caller t ok =>
    obtain ⟨pc, hpc, h⟩ := Option.bind_eq_some_iff.mp h
    obtain ⟨⟨s₁, pc'⟩, hstep, rfl⟩ := Option.map_eq_some_iff.mp h
    exact Or.inr (Or.inr (Or.inl ⟨t, ok, pc, s₁, pc', rfl, hpc, callerStep_move hstep, rfl⟩))
  | probe i ok =>
    obtain ⟨pc, hpc, h⟩ := Option.bind_eq_some_iff.mp h
    obtain ⟨⟨s₁, pc'⟩, hstep, rfl⟩ := Option.map_eq_some_iff.mp h
    exact Or.inr (Or.inr (Or.inr (Or.inl ⟨i, ok, pc, s₁, pc', rfl, hpc, probeStep_move hstep, rfl⟩)))
  | shutdown => exact Or.inr (Or.inr (Or.inr (Or.inr ⟨rfl, shutdownStep_move h⟩)))

end ShortUrl
end UrlShortener
