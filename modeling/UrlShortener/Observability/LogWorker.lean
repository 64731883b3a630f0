import UrlShortener.Base.Machine
import UrlShortener.Base.Threads
import UrlShortener.Observability.StructuredLogger

/-!
# UrlShortener.Observability.LogWorker

The threads of `StructuredLogger` after `init`: calls of `log_access`, `worker_loop`, which writes
the queue to the file, and one `shutdown`. A thread at a time takes a step; `mutex_` and the
condition variable are explicit, and a waiting thread may wake up for no reason.

`shutdown` does not take the mutex when it sets `stop_` and calls `notify_all`. So the worker can
have found that there is nothing to do and not be asleep yet, which is why `dozing` is a place of
its own.
-/

namespace UrlShortener
namespace Observability
namespace LogWorker

/-- Where a call of `log_access` stands. -/
inductive CallPc where
  | entered
  /-- The line is built; `enqueue` waits for the mutex. -/
  | built
  | locked
  /-- `accepting_` was true under the mutex. -/
  | admitted
  | refused
  /-- The line is in the queue; nobody has been told. -/
  | stored
  /-- Before `observe_log_enqueue`. -/
  | counting (enqueued : Bool)
  /-- `none`: the call has built no line. -/
  | returned (enqueued : Option Bool)
deriving DecidableEq

structure Call where
  line : Bytes
  pc : CallPc := .entered
deriving DecidableEq

/-- Where `worker_loop` stands. -/
inductive WorkerPc where
  | opening
  | loop
  /-- In `wait` with the mutex, before the predicate. -/
  | held
  /-- The predicate was false; the mutex is still held. -/
  | dozing
  | asleep
  | notified
  /-- The predicate was true. -/
  | ready
  /-- `stop_ && queue_.empty()` was false. -/
  | checked
  | writing (line : Bytes)
  | leaving
  | exited
deriving DecidableEq

/-- Where `shutdown` stands. -/
inductive ShutdownPc where
  | notCalled
  | closed
  | stopped
  /-- `notify_all` has been called. -/
  | joining
  | joined
  | clearing
  | cleared
  | finished
deriving DecidableEq

inductive Owner where
  | call (t : Nat)
  | worker
  | shutdown
deriving DecidableEq

/-- The threads, and what they share. `file` is what the worker has added to the file, `pending`
what is in the buffer of the stream after a failure. `pushed` and `taken` are the lines that went
through the queue, `written` those that the loop is done with, each with whether it could be
written. -/
structure State where
  logger : StructuredLogger
  stop : Bool := false
  calls : List Call := []
  worker : WorkerPc := .opening
  shutdown : ShutdownPc := .notCalled
  mutex : Option Owner := none
  isOpen : Bool := false
  good : Bool := false
  file : Bytes := []
  pending : Bytes := []
  enqueueAccepted : Nat := 0
  enqueueDropped : Nat := 0
  pushed : List (Nat × Bytes) := []
  taken : List Bytes := []
  written : List (Bytes × Bool) := []
  cleared : List Bytes := []

/-- What the file system and the library decide: whether the file can be opened, whether a line can
be written, and how much of it is written when not. -/
structure Disk where
  opens : Bool := true
  writes : Bool := true
  part : Nat := 0
  /-- A line that fails is still in the stream's buffer; a long one goes past the buffer. -/
  buffers : Bool := true
  /-- How much of the buffer the last `flush()` writes, if it tries on a stream that has failed. -/
  flushed : Nat := 0

inductive Label where
  | access (line : Bytes)
  | call (t : Nat)
  | worker (d : Disk)
  | shutdown
  /-- The worker wakes up for no reason. -/
  | spurious

namespace State

variable (s : State)

def observeLogEnqueue (accepted : Bool) : State :=
  if accepted then { s with enqueueAccepted := s.enqueueAccepted + 1 }
  else { s with enqueueDropped := s.enqueueDropped + 1 }

theorem observeLogEnqueue_eq (accepted : Bool) :
    s.observeLogEnqueue accepted = { s with
      enqueueAccepted := s.enqueueAccepted + accepted.toNat
      enqueueDropped := s.enqueueDropped + (!accepted).toNat } := by
  cases accepted <;> rfl

/-- What `notify_one` and `notify_all` do to the only thread that waits. -/
def notify : State := if s.worker = .asleep then { s with worker := .notified } else s

/-- Call `t` goes on. -/
def callStep (t : Nat) (call : Call) : Option (State × CallPc) :=
  match call.pc with
  | .entered =>
    if !s.logger.enabled || decide (s.logger.path = []) || !s.logger.accepting then
      some (s, .returned none)
    else some (s, .built)
  | .built =>
    if s.mutex = none then some ({ s with mutex := some (.call t) }, .locked) else none
  | .locked => if s.logger.accepting then some (s, .admitted) else some (s, .refused)
  | .admitted =>
    if s.logger.maxQueue ≤ s.logger.queue.length then some (s, .refused)
    else some ({ s with
      logger.queue := s.logger.queue ++ [call.line]
      pushed := s.pushed ++ [(t, call.line)] }, .stored)
  | .refused => some ({ s with mutex := none }, .counting false)
  | .stored => some ({ s.notify with mutex := none }, .counting true)
  | .counting enqueued => some (s.observeLogEnqueue enqueued, .returned (some enqueued))
  | .returned _ => none

/-- Another try to open the file, if that has failed so far. -/
def reopen (d : Disk) : State :=
  if s.isOpen then s else { s with isOpen := d.opens, good := d.opens }

/-- A line for the stream. One that has failed takes no more. -/
def write (d : Disk) (line : Bytes) : State :=
  if s.good then
    { s with
      good := d.writes
      file := s.file ++ if d.writes then line else line.take d.part
      pending := if !d.writes && d.buffers then line else []
      written := s.written ++ [(line, d.writes)] }
  else { s with written := s.written ++ [(line, false)] }

/-- What `flush()` and `close()` add to the file behind the loop: the buffer of a stream that has
failed goes out once more, from its first byte. -/
def closing (d : Disk) : Bytes :=
  if s.isOpen then
    s.pending.take d.flushed ++ if d.writes then s.pending else s.pending.take d.part
  else []

def workerStep (d : Disk) : Option State :=
  match s.worker with
  | .opening => some { s with isOpen := d.opens, good := d.opens, worker := .loop }
  | .loop => if s.mutex = none then some { s with mutex := some .worker, worker := .held } else none
  | .held =>
    if s.stop || !s.logger.queue.isEmpty then some { s with worker := .ready }
    else some { s with worker := .dozing }
  | .dozing => some { s with mutex := none, worker := .asleep }
  | .asleep => none
  | .notified =>
    if s.mutex = none then some { s with mutex := some .worker, worker := .held } else none
  | .ready =>
    if s.stop && s.logger.queue.isEmpty then some { s with mutex := none, worker := .leaving }
    else some { s with worker := .checked }
  | .checked =>
    match s.logger.queue with
    | [] => some { s with mutex := none, worker := .loop }
    | line :: queue =>
      some { s with
        mutex := none, logger.queue := queue, taken := s.taken ++ [line], worker := .writing line }
  | .writing line => some { (s.reopen d).write d line with worker := .loop }
  | .leaving =>
    some { s with
      isOpen := false, file := s.file ++ s.closing d, pending := [], worker := .exited }
  | .exited => none

def shutdownStep : Option State :=
  match s.shutdown with
  | .notCalled => some { s with logger.accepting := false, shutdown := .closed }
  | .closed => some { s with stop := true, shutdown := .stopped }
  | .stopped => some { s.notify with shutdown := .joining }
  | .joining => if s.worker = .exited then some { s with shutdown := .joined } else none
  | .joined =>
    if s.mutex = none then some { s with mutex := some .shutdown, shutdown := .clearing } else none
  | .clearing =>
    some { s with
      enqueueDropped := s.enqueueDropped + s.logger.queue.length
      cleared := s.cleared ++ s.logger.queue
      logger.queue := []
      shutdown := .cleared }
  | .cleared => some { s with mutex := none, shutdown := .finished }
  | .finished => none

def step (l : Label) : Option State :=
  match l with
  | .access line => some { s with calls := s.calls ++ [⟨line, .entered⟩] }
  | .call t =>
    (s.calls[t]?).bind fun call => (s.callStep t call).map fun r =>
      { r.1 with calls := r.1.calls.set t { call with pc := r.2 } }
  | .worker d => s.workerStep d
  | .shutdown => s.shutdownStep
  | .spurious => if s.worker = .asleep then some { s with worker := .notified } else none

end State

/-- What `init` leaves, when logging is enabled and `path` is not empty. -/
def init (path : Bytes) (queueSize : Int) : State where
  logger := { enabled := true, path, accepting := true, maxQueue := (max 1 queueSize).toNat }

/-! ## What a step can do -/

/-- All that call `t` can do, by the place it is at. -/
inductive CallMove (s : State) (t : Nat) (call : Call) : CallPc → State → CallPc → Prop
  | build (open_ : s.logger.accepting = true) : CallMove s t call .entered s .built
  | skip : CallMove s t call .entered s (.returned none)
  | lock (free : s.mutex = none) :
      CallMove s t call .built { s with mutex := some (.call t) } .locked
  | accept (open_ : s.logger.accepting = true) : CallMove s t call .locked s .admitted
  | refuse (closed : s.logger.accepting = false) : CallMove s t call .locked s .refused
  | full (size : s.logger.maxQueue ≤ s.logger.queue.length) :
      CallMove s t call .admitted s .refused
  | push (room : s.logger.queue.length < s.logger.maxQueue) :
      CallMove s t call .admitted
        { s with
          logger.queue := s.logger.queue ++ [call.line]
          pushed := s.pushed ++ [(t, call.line)] }
        .stored
  | giveUp : CallMove s t call .refused { s with mutex := none } (.counting false)
  | tell : CallMove s t call .stored { s.notify with mutex := none } (.counting true)
  | count (enqueued : Bool) :
      CallMove s t call (.counting enqueued) (s.observeLogEnqueue enqueued)
        (.returned (some enqueued))

theorem State.notify_eq (s : State) :
    s.notify = { s with worker := if s.worker = .asleep then .notified else s.worker } := by
  unfold notify
  split <;> rfl

theorem callStep_move {s s' : State} {t : Nat} {call : Call} {pc' : CallPc}
    (h : s.callStep t call = some (s', pc')) : CallMove s t call call.pc s' pc' := by
  unfold State.callStep at h
  split at h <;> rename_i hpc <;> rw [hpc]
  · split at h <;> cases h
    · exact .skip
    · rename_i hgate
      simp only [Bool.or_eq_true, Bool.not_eq_true', decide_eq_true_eq, not_or,
        Bool.not_eq_false] at hgate
      exact .build hgate.2
  · split at h <;> cases h
    exact .lock ‹_›
  · split at h <;> cases h
    · exact .accept ‹_›
    · exact .refuse (by simpa using ‹¬ s.logger.accepting = true›)
  · split at h <;> cases h
    · exact .full ‹_›
    · exact .push (Nat.lt_of_not_le ‹_›)
  · cases h
    exact .giveUp
  · cases h
    exact .tell
  · cases h
    exact .count _
  · cases h

/-- All that the worker can do. -/
inductive WorkerMove (s : State) (d : Disk) : WorkerPc → State → Prop
  | opened :
      WorkerMove s d .opening { s with isOpen := d.opens, good := d.opens, worker := .loop }
  | lock (free : s.mutex = none) :
      WorkerMove s d .loop { s with mutex := some .worker, worker := .held }
  | awake (work : s.stop = true ∨ s.logger.queue ≠ []) :
      WorkerMove s d .held { s with worker := .ready }
  | doze (running : s.stop = false) (empty : s.logger.queue = []) :
      WorkerMove s d .held { s with worker := .dozing }
  | sleep : WorkerMove s d .dozing { s with mutex := none, worker := .asleep }
  | relock (free : s.mutex = none) :
      WorkerMove s d .notified { s with mutex := some .worker, worker := .held }
  | leave (stopped : s.stop = true) (empty : s.logger.queue = []) :
      WorkerMove s d .ready { s with mutex := none, worker := .leaving }
  | stay (work : s.stop = false ∨ s.logger.queue ≠ []) :
      WorkerMove s d .ready { s with worker := .checked }
  | again (empty : s.logger.queue = []) :
      WorkerMove s d .checked { s with mutex := none, worker := .loop }
  | take (line : Bytes) (queue : List Bytes) (front : s.logger.queue = line :: queue) :
      WorkerMove s d .checked
        { s with
          mutex := none, logger.queue := queue, taken := s.taken ++ [line]
          worker := .writing line }
  | write (line : Bytes) :
      WorkerMove s d (.writing line) { (s.reopen d).write d line with worker := .loop }
  | exit :
      WorkerMove s d .leaving
        { s with isOpen := false, file := s.file ++ s.closing d, pending := [], worker := .exited }

theorem workerStep_move {s s' : State} {d : Disk} (h : s.workerStep d = some s') :
    WorkerMove s d s.worker s' := by
  unfold State.workerStep at h
  split at h <;> rename_i hpc <;> rw [hpc]
  · cases h
    exact .opened
  · split at h <;> cases h
    exact .lock ‹_›
  · split at h <;> rename_i hwork <;> cases h
    · rw [Bool.or_eq_true, Bool.not_eq_true', List.isEmpty_eq_false_iff] at hwork
      exact .awake hwork
    · rw [Bool.or_eq_true, Bool.not_eq_true', List.isEmpty_eq_false_iff, not_or, not_not,
        Bool.not_eq_true] at hwork
      exact .doze hwork.1 hwork.2
  · cases h
    exact .sleep
  · cases h
  · split at h <;> cases h
    exact .relock ‹_›
  · split at h <;> rename_i hleave <;> cases h
    · rw [Bool.and_eq_true, List.isEmpty_iff] at hleave
      exact .leave hleave.1 hleave.2
    · rw [Bool.and_eq_true, List.isEmpty_iff, not_and_or, Bool.not_eq_true] at hleave
      exact .stay hleave
  · split at h <;> rename_i hqueue <;> cases h
    · exact .again hqueue
    · exact .take _ _ hqueue
  · cases h
    exact .write _
  · cases h
    exact .exit
  · cases h

/-- All that `shutdown` can do. -/
inductive ShutdownMove (s : State) : ShutdownPc → State → Prop
  | close : ShutdownMove s .notCalled { s with logger.accepting := false, shutdown := .closed }
  | stop : ShutdownMove s .closed { s with stop := true, shutdown := .stopped }
  | notify : ShutdownMove s .stopped { s.notify with shutdown := .joining }
  | join (exited : s.worker = .exited) : ShutdownMove s .joining { s with shutdown := .joined }
  | lock (free : s.mutex = none) :
      ShutdownMove s .joined { s with mutex := some .shutdown, shutdown := .clearing }
  | clear :
      ShutdownMove s .clearing
        { s with
          enqueueDropped := s.enqueueDropped + s.logger.queue.length
          cleared := s.cleared ++ s.logger.queue
          logger.queue := []
          shutdown := .cleared }
  | unlock : ShutdownMove s .cleared { s with mutex := none, shutdown := .finished }

theorem shutdownStep_move {s s' : State} (h : s.shutdownStep = some s') :
    ShutdownMove s s.shutdown s' := by
  unfold State.shutdownStep at h
  split at h <;> rename_i hpc <;> rw [hpc]
  · cases h
    exact .close
  · cases h
    exact .stop
  · cases h
    exact .notify
  · split at h <;> cases h
    exact .join ‹_›
  · split at h <;> cases h
    exact .lock ‹_›
  · cases h
    exact .clear
  · cases h
    exact .unlock
  · cases h

/-- A step is a new call, a step of one of the threads, or a wake-up. -/
theorem step_cases {s s' : State} {l : Label} (h : s.step l = some s') :
    (∃ line, l = .access line ∧ s' = { s with calls := s.calls ++ [⟨line, .entered⟩] }) ∨
    (∃ t call s₁ pc', l = .call t ∧ s.calls[t]? = some call ∧ CallMove s t call call.pc s₁ pc' ∧
      s' = { s₁ with calls := s₁.calls.set t { call with pc := pc' } }) ∨
    (∃ d, l = .worker d ∧ WorkerMove s d s.worker s') ∨
    (l = .shutdown ∧ ShutdownMove s s.shutdown s') ∨
    (l = .spurious ∧ s.worker = .asleep ∧ s' = { s with worker := .notified }) := by
  cases l with
  | access line =>
    cases h
    exact Or.inl ⟨line, rfl, rfl⟩
  | call t =>
    obtain ⟨call, hcall, h⟩ := Option.bind_eq_some_iff.mp h
    obtain ⟨⟨s₁, pc'⟩, hstep, rfl⟩ := Option.map_eq_some_iff.mp h
    exact Or.inr (Or.inl ⟨t, call, s₁, pc', rfl, hcall, callStep_move hstep, rfl⟩)
  | worker d => exact Or.inr (Or.inr (Or.inl ⟨d, rfl, workerStep_move h⟩))
  | shutdown => exact Or.inr (Or.inr (Or.inr (Or.inl ⟨rfl, shutdownStep_move h⟩)))
  | spurious =>
    simp only [State.step] at h
    split at h <;> cases h
    exact Or.inr (Or.inr (Or.inr (Or.inr ⟨rfl, ‹_›, rfl⟩)))

theorem CallMove.calls {s s' : State} {t : Nat} {call : Call} {pc pc' : CallPc}
    (h : CallMove s t call pc s' pc') : s'.calls = s.calls := by
  cases h with
  | count enqueued => rw [State.observeLogEnqueue_eq]
  | tell => rw [State.notify_eq]
  | _ => rfl

end LogWorker
end Observability
end UrlShortener
