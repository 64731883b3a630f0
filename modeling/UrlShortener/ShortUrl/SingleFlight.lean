import UrlShortener.Base.Bytes
import UrlShortener.Base.Machine
import UrlShortener.Base.Threads

/-!
# UrlShortener.ShortUrl.SingleFlight

`SingleFlight::do_flight`, called by any number of threads. A thread of the table is one call of
`do_flight`; its program point says which lock it wants or holds next. Locks are explicit: taking
`mutex_` or a `call->mu` is a step of its own that needs the lock to be free, and what a critical
section does happens when it is left.

`call->cv.wait` gives up `call->mu` when the predicate fails and comes back through `joining`,
woken by `notify_all` or for no reason (`Label.wake`). The loader runs without a lock; when and how
it ends is an input.

The table of `Call`s stands for the heap behind `std::shared_ptr`. A Call is found by its index,
so comparing `it->second == call` compares indices.
-/

namespace UrlShortener
namespace SingleFlight

inductive Kind where
  | hit | notFound | expired | error | overload
deriving DecidableEq, Repr

structure SingleFlightResult where
  kind : Kind := .error
  longUrl : Bytes := []
  expireAt : Bytes := []
  error : Bytes := []
deriving DecidableEq

/-- `max_inflight_` and `max_waiters_per_key_`. -/
structure Config where
  maxInflight : Nat
  maxWaitersPerKey : Nat

def configure (maxInflight maxWaitersPerKey : Nat) : Config where
  maxInflight := if maxInflight = 0 then 1 else maxInflight
  maxWaitersPerKey := if maxWaitersPerKey = 0 then 1 else maxWaitersPerKey

structure Call where
  /-- Who holds `mu`. -/
  mu : Option Nat := none
  done : Bool := false
  result : SingleFlightResult := {}
  waiters : Nat := 0

/-- Where a call of `do_flight` stands. `c` is the index of the `Call` it joined or leads. -/
inductive Pc where
  /-- Wants `mutex_` to look the key up. -/
  | enter (key : Bytes)
  /-- Holds `mutex_`. -/
  | lookup (key : Bytes)
  /-- A waiter that wants `call->mu`. -/
  | joining (c : Nat)
  /-- Holds `call->mu` and looks at `done`. -/
  | checking (c : Nat)
  /-- In `cv.wait`. -/
  | sleeping (c : Nat)
  /-- Holds `call->mu`, has copied the result and wants `mutex_`. -/
  | sharing (c : Nat) (r : SingleFlightResult)
  /-- Holds `call->mu` and `mutex_`. -/
  | leaving (c : Nat) (r : SingleFlightResult)
  /-- Has given up `mutex_`, still holds `call->mu`. -/
  | dropping (c : Nat) (r : SingleFlightResult)
  /-- The leader, inside its loader. -/
  | loading (key : Bytes) (c : Nat)
  /-- Wants `call->mu`. -/
  | loaded (key : Bytes) (c : Nat) (r : SingleFlightResult)
  /-- Holds `call->mu`. -/
  | publishing (key : Bytes) (c : Nat) (r : SingleFlightResult)
  /-- Has published and not yet notified. -/
  | published (key : Bytes) (c : Nat) (r : SingleFlightResult)
  /-- Wants `mutex_`. -/
  | notified (key : Bytes) (c : Nat) (r : SingleFlightResult)
  /-- Holds `mutex_`. -/
  | removing (key : Bytes) (c : Nat) (r : SingleFlightResult)
  /-- The call is over; `of` is the `Call` it led or joined, if any. -/
  | returned (of : Option Nat) (r : SingleFlightResult)

structure State where
  /-- Who holds `mutex_`. -/
  mutex : Option Nat := none
  inflight : StrMap Nat := ∅
  calls : List Call := []
  threads : List Pc := []
  /-- The loader runs that have ended, by `Call`; `none` is an exception. -/
  loads : List (Nat × Option SingleFlightResult) := []

inductive Label where
  /-- A new call of `do_flight`. -/
  | call (key : Bytes)
  /-- Thread `t` goes on. -/
  | step (t : Nat)
  /-- The loader of thread `t` returns or throws. -/
  | load (t : Nat) (out : Option SingleFlightResult)
  /-- A spurious wake-up of thread `t`. -/
  | wake (t : Nat)

def overload (error : Bytes) : SingleFlightResult := { kind := .overload, error := error }

/-- The leader's `result` after its `try` block. -/
def outcome : Option SingleFlightResult → SingleFlightResult
  | some r => r
  | none => { kind := .error, error := ascii "singleflight loader exception" }

/-- `notify_all` on the condition variable of `c`. -/
def Pc.notify (c : Nat) : Pc → Pc
  | .sleeping d => if d = c then .joining d else .sleeping d
  | p => p

namespace State

def go (s : State) (t : Nat) (p : Pc) : State := { s with threads := s.threads.set t p }

def setCall (s : State) (c : Nat) (call : Call) : State := { s with calls := s.calls.set c call }

/-- A new `Call` for the key. -/
def register (s : State) (key : Bytes) : State :=
  { s with
    mutex := none
    calls := s.calls ++ [({} : Call)]
    inflight := s.inflight.insert key s.calls.length }

/-- What `do_flight` does with `mutex_` held, up to its release. -/
def lookup (cfg : Config) (s : State) (t : Nat) (key : Bytes) : Option State :=
  match s.inflight.lookup key with
  | some c => do
    let call ← s.calls[c]?
    if cfg.maxWaitersPerKey ≤ call.waiters then
      return { s with mutex := none }.go t
        (.returned none (overload (ascii "singleflight waiters overflow")))
    else
      return ({ s with mutex := none }.setCall c { call with waiters := call.waiters + 1 }).go t
        (.joining c)
  | none =>
    if cfg.maxInflight ≤ s.inflight.entries.length then
      return { s with mutex := none }.go t
        (.returned none (overload (ascii "singleflight inflight overflow")))
    else
      return (s.register key).go t (.loading key s.calls.length)

/-- The last section of the leader, with `mutex_` held. -/
def remove (s : State) (key : Bytes) (c : Nat) : State :=
  { s with
    mutex := none
    inflight := if s.inflight.lookup key = some c then s.inflight.erase key else s.inflight }

/-- One step of thread `t`. -/
def advance (cfg : Config) (s : State) (t : Nat) : Option State := do
  match ← s.threads[t]? with
  | .enter key => if s.mutex = none then some ({ s with mutex := some t }.go t (.lookup key)) else none
  | .lookup key => s.lookup cfg t key
  | .joining c =>
    let call ← s.calls[c]?
    if call.mu = none then some ((s.setCall c { call with mu := some t }).go t (.checking c))
    else none
  | .checking c =>
    let call ← s.calls[c]?
    if call.done then some (s.go t (.sharing c call.result))
    else some ((s.setCall c { call with mu := none }).go t (.sleeping c))
  | .sleeping _ => none
  | .sharing c r => if s.mutex = none then some ({ s with mutex := some t }.go t (.leaving c r)) else none
  | .leaving c r =>
    let call ← s.calls[c]?
    some (({ s with mutex := none }.setCall c { call with waiters := call.waiters - 1 }).go t
      (.dropping c r))
  | .dropping c r =>
    let call ← s.calls[c]?
    some ((s.setCall c { call with mu := none }).go t (.returned (some c) r))
  | .loading _ _ => none
  | .loaded key c r =>
    let call ← s.calls[c]?
    if call.mu = none then some ((s.setCall c { call with mu := some t }).go t (.publishing key c r))
    else none
  | .publishing key c r =>
    let call ← s.calls[c]?
    some ((s.setCall c { call with result := r, done := true, mu := none }).go t (.published key c r))
  | .published key c r => some ({ s with threads := s.threads.map (Pc.notify c) }.go t (.notified key c r))
  | .notified key c r =>
    if s.mutex = none then some ({ s with mutex := some t }.go t (.removing key c r)) else none
  | .removing key c r => some ((s.remove key c).go t (.returned (some c) r))
  | .returned _ _ => none

def step (cfg : Config) (s : State) : Label → Option State
  | .call key => some { s with threads := s.threads ++ [.enter key] }
  | .step t => s.advance cfg t
  | .load t out =>
    match s.threads[t]? with
    | some (.loading key c) =>
      some ({ s with loads := s.loads ++ [(c, out)] }.go t (.loaded key c (outcome out)))
    | _ => none
  | .wake t =>
    match s.threads[t]? with
    | some (.sleeping c) => some (s.go t (.joining c))
    | _ => none

/-! ## What a step can do -/

/-- The steps of `do_flight`, one constructor for each way a critical section can go. -/
inductive Step (cfg : Config) (s : State) : Label → State → Prop
  | call (key : Bytes) : Step cfg s (.call key) { s with threads := s.threads ++ [.enter key] }
  | enter {t : Nat} {key : Bytes} (ht : s.threads[t]? = some (.enter key)) (free : s.mutex = none) :
      Step cfg s (.step t) ({ s with mutex := some t }.go t (.lookup key))
  | full {t c : Nat} {key : Bytes} {call : Call} (ht : s.threads[t]? = some (.lookup key))
      (found : s.inflight.lookup key = some c) (hc : s.calls[c]? = some call)
      (full : cfg.maxWaitersPerKey ≤ call.waiters) :
      Step cfg s (.step t) ({ s with mutex := none }.go t
        (.returned none (overload (ascii "singleflight waiters overflow"))))
  | join {t c : Nat} {key : Bytes} {call : Call} (ht : s.threads[t]? = some (.lookup key))
      (found : s.inflight.lookup key = some c) (hc : s.calls[c]? = some call)
      (room : call.waiters < cfg.maxWaitersPerKey) :
      Step cfg s (.step t) (({ s with mutex := none }.setCall c { call with waiters := call.waiters + 1 }).go t
        (.joining c))
  | refuse {t : Nat} {key : Bytes} (ht : s.threads[t]? = some (.lookup key))
      (absent : s.inflight.lookup key = none) (full : cfg.maxInflight ≤ s.inflight.entries.length) :
      Step cfg s (.step t) ({ s with mutex := none }.go t
        (.returned none (overload (ascii "singleflight inflight overflow"))))
  | lead {t : Nat} {key : Bytes} (ht : s.threads[t]? = some (.lookup key))
      (absent : s.inflight.lookup key = none) (room : s.inflight.entries.length < cfg.maxInflight) :
      Step cfg s (.step t) ((s.register key).go t (.loading key s.calls.length))
  | lock {t c : Nat} {call : Call} (ht : s.threads[t]? = some (.joining c))
      (hc : s.calls[c]? = some call) (free : call.mu = none) :
      Step cfg s (.step t) ((s.setCall c { call with mu := some t }).go t (.checking c))
  | share {t c : Nat} {call : Call} (ht : s.threads[t]? = some (.checking c))
      (hc : s.calls[c]? = some call) (done : call.done = true) :
      Step cfg s (.step t) (s.go t (.sharing c call.result))
  | sleep {t c : Nat} {call : Call} (ht : s.threads[t]? = some (.checking c))
      (hc : s.calls[c]? = some call) (todo : call.done = false) :
      Step cfg s (.step t) ((s.setCall c { call with mu := none }).go t (.sleeping c))
  | leave {t c : Nat} {r : SingleFlightResult} (ht : s.threads[t]? = some (.sharing c r))
      (free : s.mutex = none) : Step cfg s (.step t) ({ s with mutex := some t }.go t (.leaving c r))
  | drop {t c : Nat} {r : SingleFlightResult} {call : Call}
      (ht : s.threads[t]? = some (.leaving c r)) (hc : s.calls[c]? = some call) :
      Step cfg s (.step t) (({ s with mutex := none }.setCall c { call with waiters := call.waiters - 1 }).go t
        (.dropping c r))
  | answer {t c : Nat} {r : SingleFlightResult} {call : Call}
      (ht : s.threads[t]? = some (.dropping c r)) (hc : s.calls[c]? = some call) :
      Step cfg s (.step t) ((s.setCall c { call with mu := none }).go t (.returned (some c) r))
  | load {t c : Nat} {key : Bytes} (out : Option SingleFlightResult)
      (ht : s.threads[t]? = some (.loading key c)) :
      Step cfg s (.load t out) ({ s with loads := s.loads ++ [(c, out)] }.go t (.loaded key c (outcome out)))
  | hold {t c : Nat} {key : Bytes} {r : SingleFlightResult} {call : Call}
      (ht : s.threads[t]? = some (.loaded key c r)) (hc : s.calls[c]? = some call)
      (free : call.mu = none) :
      Step cfg s (.step t) ((s.setCall c { call with mu := some t }).go t (.publishing key c r))
  | publish {t c : Nat} {key : Bytes} {r : SingleFlightResult} {call : Call}
      (ht : s.threads[t]? = some (.publishing key c r)) (hc : s.calls[c]? = some call) :
      Step cfg s (.step t) ((s.setCall c { call with result := r, done := true, mu := none }).go t
        (.published key c r))
  | notify {t c : Nat} {key : Bytes} {r : SingleFlightResult}
      (ht : s.threads[t]? = some (.published key c r)) :
      Step cfg s (.step t) ({ s with threads := s.threads.map (Pc.notify c) }.go t (.notified key c r))
  | claim {t c : Nat} {key : Bytes} {r : SingleFlightResult}
      (ht : s.threads[t]? = some (.notified key c r)) (free : s.mutex = none) :
      Step cfg s (.step t) ({ s with mutex := some t }.go t (.removing key c r))
  | remove {t c : Nat} {key : Bytes} {r : SingleFlightResult}
      (ht : s.threads[t]? = some (.removing key c r)) :
      Step cfg s (.step t) ((s.remove key c).go t (.returned (some c) r))
  | wake {t c : Nat} (ht : s.threads[t]? = some (.sleeping c)) : Step cfg s (.wake t) (s.go t (.joining c))

variable {cfg : Config} {s s' : State}

theorem lookup_cases {t : Nat} {key : Bytes} (ht : s.threads[t]? = some (.lookup key))
    (h : s.lookup cfg t key = some s') : Step cfg s (.step t) s' := by
  simp only [lookup] at h
  split at h
  · rename_i c found
    obtain ⟨call, hc, h⟩ := Option.bind_eq_some_iff.mp h
    split at h
    · rename_i hfull
      cases h
      exact .full ht found hc hfull
    · rename_i hroom
      cases h
      exact .join ht found hc (Nat.lt_of_not_le hroom)
  · rename_i absent
    split at h
    · rename_i hfull
      cases h
      exact .refuse ht absent hfull
    · rename_i hroom
      cases h
      exact .lead ht absent (Nat.lt_of_not_le hroom)

theorem advance_cases {t : Nat} (h : s.advance cfg t = some s') : Step cfg s (.step t) s' := by
  obtain ⟨p, ht, h⟩ := Option.bind_eq_some_iff.mp h
  cases p with
  | enter key =>
    simp only at h
    split at h
    · rename_i free; cases h; exact .enter ht free
    · cases h
  | lookup key => exact lookup_cases ht h
  | joining c =>
    obtain ⟨call, hc, h⟩ := Option.bind_eq_some_iff.mp h
    split at h
    · rename_i free; cases h; exact .lock ht hc free
    · cases h
  | checking c =>
    obtain ⟨call, hc, h⟩ := Option.bind_eq_some_iff.mp h
    split at h
    · rename_i done; cases h; exact .share ht hc done
    · rename_i todo; cases h; exact .sleep ht hc (Bool.eq_false_iff.mpr todo)
  | sleeping c => cases h
  | sharing c r =>
    simp only at h
    split at h
    · rename_i free; cases h; exact .leave ht free
    · cases h
  | leaving c r =>
    obtain ⟨call, hc, h⟩ := Option.bind_eq_some_iff.mp h
    cases h
    exact .drop ht hc
  | dropping c r =>
    obtain ⟨call, hc, h⟩ := Option.bind_eq_some_iff.mp h
    cases h
    exact .answer ht hc
  | loading key c => cases h
  | loaded key c r =>
    obtain ⟨call, hc, h⟩ := Option.bind_eq_some_iff.mp h
    split at h
    · rename_i free; cases h; exact .hold ht hc free
    · cases h
  | publishing key c r =>
    obtain ⟨call, hc, h⟩ := Option.bind_eq_some_iff.mp h
    cases h
    exact .publish ht hc
  | published key c r => cases h; exact .notify ht
  | notified key c r =>
    simp only at h
    split at h
    · rename_i free; cases h; exact .claim ht free
    · cases h
  | removing key c r => cases h; exact .remove ht
  | returned of r => cases h

theorem step_cases {l : Label} (h : s.step cfg l = some s') : Step cfg s l s' := by
  cases l with
  | call key => cases h; exact .call key
  | step t => exact advance_cases h
  | load t out =>
    simp only [step] at h
    split at h
    · rename_i ht; cases h; exact .load out ht
    · cases h
  | wake t =>
    simp only [step] at h
    split at h
    · rename_i ht; cases h; exact .wake ht
    · cases h

end State

end SingleFlight
end UrlShortener
