import UrlShortener.Base.Json
import UrlShortener.Base.Machine
import UrlShortener.Base.Threads
import UrlShortener.Http.Message
import UrlShortener.ShortUrl.Codes

/-!
# UrlShortener.Analytics.Producer

`ClickEventProducer`: request threads copy a click into a bounded queue, one worker thread
serializes and produces it, `shutdown` closes the door, joins the worker and clears the queue.

The machine has one program point for each place where another thread can come in between: the
atomics `accepting_` and `stop_` are read and written one at a time, the queue is touched under
`mutex_` only. `wait_for` sleeps without the mutex and may wake for any reason. The lists `pushed`,
`popped` and `dropped` record what has been done, each event with the number of its call.

`enabled_` is true. The configuration is what `init` has set before it starts the worker; it does
not change while the worker lives. Delivery reports and log lines are left out.
-/

namespace UrlShortener
namespace Analytics

open Http ShortUrl

structure ClickEvent where
  code : Bytes
  userAgent : Bytes
  referer : Bytes
  xForwardedFor : Bytes
  eventId : Bytes := []
  clickedAtMs : Int
deriving DecidableEq

/-- The copy that `publish_click` makes on the request thread; `now` is `now_ms()`. -/
def clickEvent (req : HttpRequest) (code : Bytes) (now : Int) : ClickEvent where
  code := code
  userAgent := req.headerOrEmpty (ascii "User-Agent")
  referer := req.headerOrEmpty (ascii "Referer")
  xForwardedFor := req.headerOrEmpty (ascii "X-Forwarded-For")
  clickedAtMs := now

/-- `dump()` of an integer. -/
def dumpInt (n : Int) : Bytes :=
  if n < 0 then ascii "-" ++ toDecimal n.natAbs else toDecimal n.natAbs

/-- A field of the payload: its quoted name, a colon, and the value's text. -/
def field (name : String) (value : Bytes) : Bytes := ascii "\"" ++ ascii name ++ ascii "\":" ++ value

/-- `build_event_json`, with the object's keys in the order of `std::map`; `none` when `dump()`
throws. -/
def buildEventJson (event : ClickEvent) : Option Bytes := do
  let eventId ← Json.dumpString event.eventId
  let referer ← Json.dumpString event.referer
  let shortCode ← Json.dumpString event.code
  let userAgent ← Json.dumpString event.userAgent
  let xForwardedFor ← Json.dumpString event.xForwardedFor
  return ascii "\x7b" ++
    field "clicked_at_ms" (dumpInt event.clickedAtMs) ++ ascii "," ++
    field "event_id" eventId ++ ascii "," ++
    field "referer" referer ++ ascii "," ++
    field "short_code" shortCode ++ ascii "," ++
    field "user_agent" userAgent ++ ascii "," ++
    field "x_forwarded_for" xForwardedFor ++ ascii "\x7d"

/-- `next_event_id`, on what the generator gives out: a number, or an exception once the clock
has run out of bits. -/
def nextEventId (id : Option UInt64) : Option Bytes := id.map base62Encode

def ClickEvent.withId (event : ClickEvent) (id : Option UInt64) : Option ClickEvent :=
  if event.eventId = [] then (nextEventId id).map fun eventId => { event with eventId := eventId }
  else some event

structure Config where
  maxQueue : Nat
  /-- `null_sink_`, set by tests only. -/
  nullSink : Bool := false
  /-- `producer_` is not null. -/
  producer : Bool := true

/-- Where a call of `publish_click` stands. `some event` says that the event is in the queue. -/
inductive CallPc where
  | entered
  /-- The event is built; `enqueue` waits for the mutex. -/
  | built (event : ClickEvent)
  | locked (event : ClickEvent)
  /-- `accepting_` was true under the mutex. -/
  | admitted (event : ClickEvent)
  | refused
  | stored (event : ClickEvent)
  /-- Before `observe_kafka_enqueue`. -/
  | counting (enqueued : Option ClickEvent)
  | returned (enqueued : Option ClickEvent)
deriving DecidableEq

structure Call where
  req : HttpRequest
  code : Bytes
  pc : CallPc := .entered
deriving DecidableEq

/-- Where `worker_loop` stands. -/
inductive WorkerPc where
  | loop
  /-- In `wait_for`, with the mutex. -/
  | held
  | asleep
  | woken (haveItem : Bool)
  /-- `stop_ && queue_.empty()` was false. -/
  | checked (haveItem : Bool)
  | handling (call : Nat) (event : ClickEvent)
  | exited
  /-- An exception has left the thread. -/
  | raised
deriving DecidableEq

/-- Where `shutdown` stands. -/
inductive ShutdownPc where
  | notCalled
  | closed
  | stopped
  | joined
  | clearing
  | cleared
  | finished
deriving DecidableEq

inductive Owner where
  | call (t : Nat)
  | worker
  | shutdown
deriving DecidableEq

structure State where
  calls : List Call := []
  worker : WorkerPc := .loop
  shutdown : ShutdownPc := .notCalled
  mutex : Option Owner := none
  queue : List (Nat × ClickEvent) := []
  accepting : Bool := true
  stop : Bool := false
  enqueueAccepted : Nat := 0
  enqueueDropped : Nat := 0
  produceAccepted : Nat := 0
  produceFailed : Nat := 0
  pushed : List (Nat × ClickEvent) := []
  popped : List (Nat × ClickEvent) := []
  dropped : List (Nat × ClickEvent) := []

def State.observeKafkaEnqueue (s : State) (accepted : Bool) : State :=
  if accepted then { s with enqueueAccepted := s.enqueueAccepted + 1 }
  else { s with enqueueDropped := s.enqueueDropped + 1 }

def State.observeKafkaProduceAccepted (s : State) (ok : Bool) : State :=
  if ok then { s with produceAccepted := s.produceAccepted + 1 }
  else { s with produceFailed := s.produceFailed + 1 }

theorem State.observeKafkaEnqueue_eq (s : State) (accepted : Bool) :
    s.observeKafkaEnqueue accepted = { s with
      enqueueAccepted := s.enqueueAccepted + accepted.toNat
      enqueueDropped := s.enqueueDropped + (!accepted).toNat } := by
  cases accepted <;> rfl

theorem State.observeKafkaProduceAccepted_eq (s : State) (ok : Bool) :
    s.observeKafkaProduceAccepted ok = { s with
      produceAccepted := s.produceAccepted + ok.toNat
      produceFailed := s.produceFailed + (!ok).toNat } := by
  cases ok <;> rfl

/-- What the environment decides in a step of the worker: whether a wait times out, which number
the generator gives out, whether `rd_kafka_producev` accepts. -/
structure Choice where
  timeout : Bool := false
  id : Option UInt64 := some 0
  accepts : Bool := true

inductive Label where
  | publish (req : HttpRequest) (code : Bytes)
  /-- Call `t` goes on; the clock shows `now`. -/
  | call (t : Nat) (now : Int)
  | worker (w : Choice)
  | shutdown

section Steps

variable (cfg : Config) (s : State)

/-- Call `t` goes on from `pc`. -/
def callStep (t : Nat) (call : Call) (now : Int) : CallPc → Option (State × CallPc)
  | .entered =>
    if s.accepting then some (s, .built (clickEvent call.req call.code now))
    else some (s, .counting none)
  | .built event =>
    if s.mutex = none then some ({ s with mutex := some (.call t) }, .locked event) else none
  | .locked event => if s.accepting then some (s, .admitted event) else some (s, .refused)
  | .admitted event =>
    if cfg.maxQueue ≤ s.queue.length then some (s, .refused)
    else some ({ s with
      queue := s.queue ++ [(t, event)], pushed := s.pushed ++ [(t, event)] }, .stored event)
  | .refused => some ({ s with mutex := none }, .counting none)
  | .stored event => some ({ s with mutex := none }, .counting (some event))
  | .counting enqueued => some (s.observeKafkaEnqueue enqueued.isSome, .returned enqueued)
  | .returned _ => none

/-- The worker on an event it has taken, to the next round of its loop. -/
def handle (event : ClickEvent) (w : Choice) : State :=
  match event.withId w.id with
  | none => { s with worker := .raised }
  | some event =>
    if cfg.nullSink then { s.observeKafkaProduceAccepted true with worker := .loop }
    else if cfg.producer = false then { s.observeKafkaProduceAccepted false with worker := .loop }
    else
      match buildEventJson event with
      | none => { s with worker := .raised }
      | some _ => { s.observeKafkaProduceAccepted w.accepts with worker := .loop }

def workerStep (w : Choice) : WorkerPc → Option State
  | .loop =>
    if s.mutex = none then some { s with mutex := some .worker, worker := .held } else none
  | .held =>
    if s.stop || !s.queue.isEmpty then some { s with worker := .woken true }
    else if w.timeout then some { s with worker := .woken false }
    else some { s with mutex := none, worker := .asleep }
  | .asleep =>
    if s.mutex = none then some { s with mutex := some .worker, worker := .held } else none
  | .woken haveItem =>
    if s.stop && s.queue.isEmpty then some { s with mutex := none, worker := .exited }
    else some { s with worker := .checked haveItem }
  | .checked haveItem =>
    match haveItem, s.queue with
    | true, (t, event) :: queue =>
      some { s with
        mutex := none, queue := queue, popped := s.popped ++ [(t, event)]
        worker := .handling t event }
    | _, _ => some { s with mutex := none, worker := .loop }
  | .handling _ event => some (handle cfg s event w)
  | .exited => none
  | .raised => none

/-- The drops that `shutdown` counts: one, and one for each further event. -/
def clearCount (queue : List (Nat × ClickEvent)) : Nat :=
  if queue.isEmpty then 0 else 1 + (queue.length - 1)

def shutdownStep : ShutdownPc → Option State
  | .notCalled => some { s with accepting := false, shutdown := .closed }
  | .closed => some { s with stop := true, shutdown := .stopped }
  | .stopped => if s.worker = .exited then some { s with shutdown := .joined } else none
  | .joined =>
    if s.mutex = none then some { s with mutex := some .shutdown, shutdown := .clearing } else none
  | .clearing =>
    some { s with
      enqueueDropped := s.enqueueDropped + clearCount s.queue
      dropped := s.dropped ++ s.queue
      queue := []
      shutdown := .cleared }
  | .cleared => some { s with mutex := none, shutdown := .finished }
  | .finished => none

/-- An exception that leaves the worker ends the process: nothing more happens. -/
def step : Label → Option State
  | .publish req code =>
    if s.worker = .raised then none else some { s with calls := s.calls ++ [⟨req, code, .entered⟩] }
  | .call t now =>
    if s.worker = .raised then none
    else
      (s.calls[t]?).bind fun call => (callStep cfg s t call now call.pc).map fun r =>
        { r.1 with calls := r.1.calls.set t { call with pc := r.2 } }
  | .worker w => workerStep cfg s w s.worker
  | .shutdown => if s.worker = .raised then none else shutdownStep s s.shutdown

end Steps

/-! ## What a step can do -/

/-- All that call `t` can do, by the place it is at. -/
inductive CallMove (cfg : Config) (s : State) (t : Nat) (call : Call) :
    CallPc → State → CallPc → Prop
  | build (now : Int) (open_ : s.accepting = true) :
      CallMove cfg s t call .entered s (.built (clickEvent call.req call.code now))
  | late (closed : s.accepting = false) : CallMove cfg s t call .entered s (.counting none)
  | lock (event : ClickEvent) (free : s.mutex = none) :
      CallMove cfg s t call (.built event) { s with mutex := some (.call t) } (.locked event)
  | admitted (event : ClickEvent) (open_ : s.accepting = true) :
      CallMove cfg s t call (.locked event) s (.admitted event)
  | refuse (event : ClickEvent) (closed : s.accepting = false) :
      CallMove cfg s t call (.locked event) s .refused
  | full (event : ClickEvent) (size : cfg.maxQueue ≤ s.queue.length) :
      CallMove cfg s t call (.admitted event) s .refused
  | push (event : ClickEvent) (room : s.queue.length < cfg.maxQueue) :
      CallMove cfg s t call (.admitted event)
        { s with queue := s.queue ++ [(t, event)], pushed := s.pushed ++ [(t, event)] }
        (.stored event)
  | giveUp : CallMove cfg s t call .refused { s with mutex := none } (.counting none)
  | unlock (event : ClickEvent) :
      CallMove cfg s t call (.stored event) { s with mutex := none } (.counting (some event))
  | count (enqueued : Option ClickEvent) :
      CallMove cfg s t call (.counting enqueued) (s.observeKafkaEnqueue enqueued.isSome)
        (.returned enqueued)

theorem CallMove.calls {cfg : Config} {s s' : State} {t : Nat} {call : Call} {pc pc' : CallPc}
    (h : CallMove cfg s t call pc s' pc') : s'.calls = s.calls := by
  cases h with
  | count enqueued => rw [State.observeKafkaEnqueue_eq]
  | _ => rfl

theorem callStep_move {cfg : Config} {s s' : State} {t : Nat} {call : Call} {now : Int}
    {pc pc' : CallPc} (h : callStep cfg s t call now pc = some (s', pc')) :
    CallMove cfg s t call pc s' pc' := by
  cases pc with
  | entered =>
    simp only [callStep] at h
    split at h <;> cases h
    · exact .build now ‹_›
    · exact .late (by simpa using ‹¬ s.accepting = true›)
  | built event =>
    simp only [callStep] at h
    split at h <;> cases h
    exact .lock event ‹_›
  | locked event =>
    simp only [callStep] at h
    split at h <;> cases h
    · exact .admitted event ‹_›
    · exact .refuse event (by simpa using ‹¬ s.accepting = true›)
  | admitted event =>
    simp only [callStep] at h
    split at h <;> cases h
    · exact .full event ‹_›
    · exact .push event (Nat.lt_of_not_le ‹_›)
  | refused => cases h; exact .giveUp
  | stored event => cases h; exact .unlock event
  | counting enqueued => cases h; exact .count enqueued
  | returned enqueued => cases h

/-- All that the worker can do. -/
inductive WorkerMove (cfg : Config) (s : State) : WorkerPc → State → Prop
  | lock (free : s.mutex = none) :
      WorkerMove cfg s .loop { s with mutex := some .worker, worker := .held }
  | relock (free : s.mutex = none) :
      WorkerMove cfg s .asleep { s with mutex := some .worker, worker := .held }
  | wake (haveItem : Bool) : WorkerMove cfg s .held { s with worker := .woken haveItem }
  | sleep : WorkerMove cfg s .held { s with mutex := none, worker := .asleep }
  | exit (haveItem : Bool) (stop : s.stop = true) (empty : s.queue = []) :
      WorkerMove cfg s (.woken haveItem) { s with mutex := none, worker := .exited }
  | check (haveItem : Bool) :
      WorkerMove cfg s (.woken haveItem) { s with worker := .checked haveItem }
  | take (t : Nat) (event : ClickEvent) (queue : List (Nat × ClickEvent))
      (front : s.queue = (t, event) :: queue) :
      WorkerMove cfg s (.checked true)
        { s with
          mutex := none, queue := queue, popped := s.popped ++ [(t, event)]
          worker := .handling t event }
  | again (haveItem : Bool) :
      WorkerMove cfg s (.checked haveItem) { s with mutex := none, worker := .loop }
  | produce (t : Nat) (event : ClickEvent) (ok : Bool) :
      WorkerMove cfg s (.handling t event)
        { s.observeKafkaProduceAccepted ok with worker := .loop }
  | raise (t : Nat) (event : ClickEvent) :
      WorkerMove cfg s (.handling t event) { s with worker := .raised }

theorem handle_move (cfg : Config) (s : State) (t : Nat) (event : ClickEvent) (w : Choice) :
    WorkerMove cfg s (.handling t event) (handle cfg s event w) := by
  unfold handle
  split
  · exact .raise t event
  · split
    · exact .produce t event true
    · split
      · exact .produce t event false
      · split
        · exact .raise t event
        · exact .produce t event w.accepts

theorem workerStep_move {cfg : Config} {s s' : State} {w : Choice} {pc : WorkerPc}
    (h : workerStep cfg s w pc = some s') : WorkerMove cfg s pc s' := by
  cases pc with
  | loop =>
    simp only [workerStep] at h
    split at h <;> cases h
    exact .lock ‹_›
  | held =>
    simp only [workerStep] at h
    split at h
    · cases h
      exact .wake true
    · split at h <;> cases h
      · exact .wake false
      · exact .sleep
  | asleep =>
    simp only [workerStep] at h
    split at h <;> cases h
    exact .relock ‹_›
  | woken haveItem =>
    simp only [workerStep] at h
    split at h
    · rename_i hexit
      cases h
      rw [Bool.and_eq_true, List.isEmpty_iff] at hexit
      exact .exit haveItem hexit.1 hexit.2
    · cases h
      exact .check haveItem
  | checked haveItem =>
    simp only [workerStep] at h
    split at h
    · rename_i t event queue hq
      cases h
      exact .take t event queue hq
    · cases h
      exact .again _
  | handling t event => cases h; exact handle_move cfg s t event w
  | exited => cases h
  | raised => cases h

/-- All that `shutdown` can do. -/
inductive ShutdownMove (s : State) : ShutdownPc → State → Prop
  | close : ShutdownMove s .notCalled { s with accepting := false, shutdown := .closed }
  | stop : ShutdownMove s .closed { s with stop := true, shutdown := .stopped }
  | join (exited : s.worker = .exited) : ShutdownMove s .stopped { s with shutdown := .joined }
  | lock (free : s.mutex = none) :
      ShutdownMove s .joined { s with mutex := some .shutdown, shutdown := .clearing }
  | clear : ShutdownMove s .clearing
      { s with
        enqueueDropped := s.enqueueDropped + clearCount s.queue
        dropped := s.dropped ++ s.queue, queue := [], shutdown := .cleared }
  | unlock : ShutdownMove s .cleared { s with mutex := none, shutdown := .finished }

theorem shutdownStep_move {s s' : State} {pc : ShutdownPc} (h : shutdownStep s pc = some s') :
    ShutdownMove s pc s' := by
  cases pc with
  | notCalled => cases h; exact .close
  | closed => cases h; exact .stop
  | stopped =>
    simp only [shutdownStep] at h
    split at h <;> cases h
    exact .join ‹_›
  | joined =>
    simp only [shutdownStep] at h
    split at h <;> cases h
    exact .lock ‹_›
  | clearing => cases h; exact .clear
  | cleared => cases h; exact .unlock
  | finished => cases h

/-- **All that a step can do.** -/
theorem step_cases {cfg : Config} {s s' : State} {l : Label} (h : step cfg s l = some s') :
    (∃ req code, s' = { s with calls := s.calls ++ [⟨req, code, .entered⟩] }) ∨
    (∃ t call s₁ pc', s.calls[t]? = some call ∧ CallMove cfg s t call call.pc s₁ pc' ∧
      s' = { s₁ with calls := s.calls.set t { call with pc := pc' } }) ∨
    WorkerMove cfg s s.worker s' ∨ ShutdownMove s s.shutdown s' := by
  cases l with
  | publish req code =>
    simp only [step] at h
    split at h <;> cases h
    exact Or.inl ⟨req, code, rfl⟩
  | call t now =>
    simp only [step] at h
    split at h
    · cases h
    · obtain ⟨call, hcall, h⟩ := Option.bind_eq_some_iff.mp h
      obtain ⟨⟨s₁, pc'⟩, hr, rfl⟩ := Option.map_eq_some_iff.mp h
      have hmove := callStep_move hr
      exact Or.inr (Or.inl ⟨t, call, s₁, pc', hcall, hmove, by simp only [hmove.calls]⟩)
  | worker w => exact Or.inr (Or.inr (Or.inl (workerStep_move h)))
  | shutdown =>
    simp only [step] at h
    split at h
    · cases h
    · exact Or.inr (Or.inr (Or.inr (shutdownStep_move h)))

end Analytics
end UrlShortener
