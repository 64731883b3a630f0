import UrlShortener.Observability.LogWorker

/-!
# UrlShortener.Observability.LogLines

What becomes of a line. The invariants are those of a queue behind a mutex: who holds it
(`Locked`), what each stage of the shutdown has made sure of (`Closed`), where the lines are
(`Kept`), which of them are in the file (`Filed`) and what the counters say (`Counted`).

The worker leaves only when it has seen `stop_` and an empty queue under the mutex, and by then
`accepting_` is false; so `shutdown` never finds a line to drop.
-/

namespace UrlShortener
namespace Observability
namespace LogWorker

open Threads

/-! ## Roles -/

def CallPc.holds : CallPc → Option Unit
  | .locked | .admitted | .refused | .stored => some ()
  | _ => none

/-- `enqueue` has put the line into the queue. -/
def CallPc.enqueued : CallPc → Option Unit
  | .stored | .counting true | .returned (some true) => some ()
  | _ => none

/-- What `enqueue` has returned to a call that is over. -/
def CallPc.result : CallPc → Option Bool
  | .returned enqueued => enqueued
  | _ => none

def CallPc.isAdmitted : CallPc → Option Unit
  | .admitted => some ()
  | _ => none

/-- The line of the call, once it is in the queue. -/
def Call.pushed (call : Call) : Option Bytes := call.pc.enqueued.map fun _ => call.line

/-- A role of calls is a role of their program points. -/
def ofPc {X : Type} (f : CallPc → Option X) (call : Call) : Option X := f call.pc

def WorkerPc.holds : WorkerPc → Bool
  | .held | .dozing | .ready | .checked => true
  | _ => false

/-- The line taken and not yet given to the stream. -/
def WorkerPc.inHand : WorkerPc → List Bytes
  | .writing line => [line]
  | _ => []

/-- The loop is over. -/
def WorkerPc.isGone : WorkerPc → Bool
  | .leaving | .exited => true
  | _ => false

def ShutdownPc.holds : ShutdownPc → Bool
  | .clearing | .cleared => true
  | _ => false

/-- The worker has been joined. -/
def ShutdownPc.isJoined : ShutdownPc → Bool
  | .joined | .clearing | .cleared | .finished => true
  | _ => false

/-! ## The mutex -/

/-- The call that holds the mutex. -/
def callOwner : Option Owner → Option Nat
  | some (.call t) => some t
  | _ => none

/-- The mutex is held by the thread that its owner field names, and by no other. -/
structure Locked (s : State) : Prop where
  call : Owns (ofPc CallPc.holds) s.calls () (callOwner s.mutex)
  worker : s.mutex = some .worker ↔ s.worker.holds = true
  shutdown : s.mutex = some .shutdown ↔ s.shutdown.holds = true

theorem Locked.init (path : Bytes) (queueSize : Int) : Locked (init path queueSize) := by
  refine ⟨fun t => ?_, by simp [LogWorker.init, WorkerPc.holds],
    by simp [LogWorker.init, ShutdownPc.holds]⟩
  simp [LogWorker.init, callOwner, At]

/-- The mutex of a call that holds it is its own. -/
theorem Locked.mine {s : State} (h : Locked s) {t : Nat} {call : Call}
    (hcall : s.calls[t]? = some call) (hp : call.pc.holds = some ()) :
    s.mutex = some (.call t) := by
  have hown := (h.call t).mpr ⟨call, hcall, hp⟩
  cases hmutex : s.mutex with
  | none => rw [hmutex] at hown; cases hown
  | some owner =>
    cases owner with
    | call u => rw [hmutex] at hown; cases hown; rfl
    | worker => rw [hmutex] at hown; cases hown
    | shutdown => rw [hmutex] at hown; cases hown

/-- What a worker that sleeps and one that has been notified have in common. -/
theorem notify_role {X : Sort*} (f : WorkerPc → X) (hf : f .notified = f .asleep) (s : State) :
    f s.notify.worker = f s.worker := by
  rw [State.notify_eq]
  by_cases hasleep : s.worker = .asleep
  · simp only [hasleep, if_true, hf]
  · simp only [hasleep, if_false]

theorem Locked.call_step {s s₁ : State} {t : Nat} {call : Call} {pc' : CallPc} (h : Locked s)
    (hcall : s.calls[t]? = some call) (hm : CallMove s t call call.pc s₁ pc') :
    Locked { s₁ with calls := s₁.calls.set t { call with pc := pc' } } := by
  rw [hm.calls]
  have keep : ∀ q : CallPc, q.holds = call.pc.holds →
      Owns (ofPc CallPc.holds) (s.calls.set t { call with pc := q }) () (callOwner s.mutex) :=
    fun q hq => h.call.keep hcall hq
  have hmine := h.mine hcall
  have hw := h.worker
  have hsd := h.shutdown
  have release : ∀ q : CallPc, call.pc.holds = some () → q.holds = none →
      Owns (ofPc CallPc.holds) (s.calls.set t { call with pc := q }) () none ∧
        (none = some Owner.worker ↔ s.worker.holds = true) ∧
        (none = some Owner.shutdown ↔ s.shutdown.holds = true) := by
    intro q hp hq
    rw [hmine hp] at hw hsd
    exact ⟨h.call.release hcall hp (by simp [ofPc, hq]), by simpa using hw, by simpa using hsd⟩
  generalize hpc : call.pc = pc at hm keep release
  cases hm with
  | lock free =>
    have hc := h.call
    rw [free] at hc hw hsd
    exact ⟨Owns.acquire hc hcall rfl, by simpa using hw, by simpa using hsd⟩
  | giveUp =>
    obtain ⟨h1, h2, h3⟩ := release (.counting false) rfl rfl
    exact ⟨h1, h2, h3⟩
  | tell =>
    obtain ⟨h1, h2, h3⟩ := release (.counting true) rfl rfl
    refine ⟨h1, ?_, ?_⟩
    · rw [← notify_role WorkerPc.holds rfl s] at h2
      exact h2
    · rw [State.notify_eq]
      exact h3
  | count enqueued =>
    rw [State.observeLogEnqueue_eq]
    exact ⟨keep _ rfl, hw, hsd⟩
  | _ => exact ⟨keep _ rfl, hw, hsd⟩

theorem write_eq (s : State) (d : Disk) (line : Bytes) : ∃ isOpen good file pending done,
    (s.reopen d).write d line = { s with
      isOpen, good, file, pending, written := s.written ++ [(line, done)] } := by
  unfold State.write State.reopen
  split <;> split <;> exact ⟨_, _, _, _, _, rfl⟩

theorem Locked.worker_step {s s' : State} {d : Disk} (h : Locked s)
    (hm : WorkerMove s d s.worker s') :
    Locked s' := by
  have hc := h.call
  have hw := h.worker
  have hsd := h.shutdown
  have release : s.worker.holds = true →
      Owns (ofPc CallPc.holds) s.calls () none ∧ (none = some Owner.shutdown ↔
        s.shutdown.holds = true) := by
    intro hp
    rw [hw.mpr hp] at hc hsd
    exact ⟨hc, by simpa using hsd⟩
  generalize hpc : s.worker = pc at hm hw release
  cases hm with
  | opened => exact ⟨hc, hw, hsd⟩
  | lock free =>
    rw [free] at hc hsd
    exact ⟨hc, by simp [WorkerPc.holds], by simpa using hsd⟩
  | relock free =>
    rw [free] at hc hsd
    exact ⟨hc, by simp [WorkerPc.holds], by simpa using hsd⟩
  | awake work => exact ⟨hc, hw, hsd⟩
  | doze running empty => exact ⟨hc, hw, hsd⟩
  | stay work => exact ⟨hc, hw, hsd⟩
  | sleep =>
    obtain ⟨h1, h2⟩ := release rfl
    exact ⟨h1, by simp [WorkerPc.holds], h2⟩
  | leave stopped empty =>
    obtain ⟨h1, h2⟩ := release rfl
    exact ⟨h1, by simp [WorkerPc.holds], h2⟩
  | again empty =>
    obtain ⟨h1, h2⟩ := release rfl
    exact ⟨h1, by simp [WorkerPc.holds], h2⟩
  | take line queue front =>
    obtain ⟨h1, h2⟩ := release rfl
    exact ⟨h1, by simp [WorkerPc.holds], h2⟩
  | write line =>
    obtain ⟨isOpen, good, file, pending, done, heq⟩ := write_eq s d line
    rw [heq]
    exact ⟨hc, hw, hsd⟩
  | exit => exact ⟨hc, hw, hsd⟩

theorem Locked.shutdown_step {s s' : State} (h : Locked s)
    (hm : ShutdownMove s s.shutdown s') : Locked s' := by
  have hc := h.call
  have hw := h.worker
  have hsd := h.shutdown
  generalize hpc : s.shutdown = pc at hm hsd
  cases hm with
  | close => exact ⟨hc, hw, hsd⟩
  | stop => exact ⟨hc, hw, hsd⟩
  | notify =>
    rw [← notify_role WorkerPc.holds rfl s] at hw
    rw [State.notify_eq] at hw ⊢
    exact ⟨hc, hw, hsd⟩
  | join exited => exact ⟨hc, hw, hsd⟩
  | lock free =>
    rw [free] at hc hw
    exact ⟨hc, by simpa using hw, by simp [ShutdownPc.holds]⟩
  | clear => exact ⟨hc, hw, hsd⟩
  | unlock =>
    rw [hsd.mpr rfl] at hc hw
    exact ⟨hc, by simpa using hw, by simp [ShutdownPc.holds]⟩

theorem Locked.step {s s' : State} {l : Label} (h : Locked s) (hs : s.step l = some s') :
    Locked s' := by
  rcases step_cases hs with ⟨line, -, rfl⟩ | ⟨t, call, s₁, pc', -, hcall, hm, rfl⟩ | ⟨d, -, hm⟩ |
    ⟨-, hm⟩ | ⟨-, hasleep, rfl⟩
  · exact ⟨h.call.spawn rfl, h.worker, h.shutdown⟩
  · exact h.call_step hcall hm
  · exact h.worker_step hm
  · exact h.shutdown_step hm
  · exact ⟨h.call, by simpa [hasleep, WorkerPc.holds] using h.worker, h.shutdown⟩

/-! ## Closing -/

/-- What each stage of the shutdown has made sure of. -/
structure Closed (s : State) : Prop where
  closed : s.shutdown ≠ .notCalled → s.logger.accepting = false
  stop : s.stop = true → s.logger.accepting = false
  joined : s.shutdown.isJoined = true → s.worker = .exited
  gone : s.worker.isGone = true → s.logger.accepting = false ∧ s.logger.queue = [] ∧
    ∀ t, ¬ At (ofPc CallPc.isAdmitted) s.calls t ()

theorem Closed.init (path : Bytes) (queueSize : Int) : Closed (init path queueSize) :=
  ⟨fun h => absurd rfl h, nofun, nofun, nofun⟩

theorem isAdmitted_holds {pc : CallPc} (h : pc.isAdmitted = some ()) : pc.holds = some () := by
  cases pc with
  | admitted => rfl
  | _ => cases h

theorem Closed.call_step {s s₁ : State} {t : Nat} {call : Call} {pc' : CallPc} (h : Closed s)
    (hcall : s.calls[t]? = some call) (hm : CallMove s t call call.pc s₁ pc') :
    Closed { s₁ with calls := s₁.calls.set t { call with pc := pc' } } := by
  rw [hm.calls]
  -- a step to a place that is not `admitted`
  have keep : ∀ q : CallPc, q.isAdmitted = none → s.worker.isGone = true →
      s.logger.accepting = false ∧ s.logger.queue = [] ∧
        ∀ u, ¬ At (ofPc CallPc.isAdmitted) (s.calls.set t { call with pc := q }) u () := by
    intro q hq hx
    obtain ⟨h1, h2, h3⟩ := h.gone hx
    refine ⟨h1, h2, fun u hu => ?_⟩
    rcases at_of_at_set hcall hu with hu | ⟨-, hu⟩
    · exact h3 u hu
    · rw [ofPc, hq] at hu
      cases hu
  generalize hpc : call.pc = pc at hm
  cases hm with
  | accept open_ =>
    refine ⟨h.closed, h.stop, h.joined, fun hx => ?_⟩
    have := (h.gone hx).1
    rw [open_] at this
    cases this
  | push room =>
    refine ⟨h.closed, h.stop, h.joined, fun hx => ?_⟩
    exact absurd ⟨call, hcall, by rw [ofPc, hpc]; rfl⟩ ((h.gone hx).2.2 t)
  | tell =>
    have hgone := keep (.counting true) rfl
    have hjoined := h.joined
    rw [← notify_role WorkerPc.isGone rfl s] at hgone
    rw [← notify_role (· = .exited) (by simp) s] at hjoined
    rw [State.notify_eq] at hgone hjoined ⊢
    exact ⟨h.closed, h.stop, hjoined, hgone⟩
  | count enqueued =>
    rw [State.observeLogEnqueue_eq]
    exact ⟨h.closed, h.stop, h.joined, keep _ rfl⟩
  | _ => exact ⟨h.closed, h.stop, h.joined, keep _ rfl⟩

theorem Closed.worker_step {s s' : State} {d : Disk} (h : Closed s) (hl : Locked s)
    (hm : WorkerMove s d s.worker s') : Closed s' := by
  have hj := h.joined
  have hg := h.gone
  have hw := hl.worker
  -- a worker that still moves has not been joined
  have busy : ∀ {q : Prop}, s.worker ≠ .exited → s.shutdown.isJoined = true → q :=
    fun hne hh => absurd (hj hh) hne
  generalize hpc : s.worker = pc at hm hw hg busy
  cases hm with
  | leave stopped empty =>
    refine ⟨h.closed, h.stop, busy nofun, fun _ => ⟨h.stop stopped, empty, ?_⟩⟩
    rintro t ⟨call, hcall, ha⟩
    have hown := (hl.call t).mpr ⟨call, hcall, isAdmitted_holds ha⟩
    rw [hw.mpr rfl] at hown
    cases hown
  | exit => exact ⟨h.closed, h.stop, fun _ => rfl, fun _ => hg rfl⟩
  | write line =>
    obtain ⟨isOpen, good, file, pending, done, heq⟩ := write_eq s d line
    rw [heq]
    exact ⟨h.closed, h.stop, busy nofun, nofun⟩
  | _ => exact ⟨h.closed, h.stop, busy nofun, nofun⟩

theorem Closed.shutdown_step {s s' : State} (h : Closed s) (hm : ShutdownMove s s.shutdown s') :
    Closed s' := by
  have hc := h.closed
  have hj := h.joined
  generalize hpc : s.shutdown = pc at hm hc hj
  cases hm with
  | close => exact ⟨fun _ => rfl, fun _ => rfl, nofun, fun hx => ⟨rfl, (h.gone hx).2⟩⟩
  | stop => exact ⟨fun _ => hc nofun, fun _ => hc nofun, nofun, h.gone⟩
  | notify =>
    have hgone := h.gone
    rw [← notify_role WorkerPc.isGone rfl s] at hgone
    rw [State.notify_eq] at hgone ⊢
    exact ⟨fun _ => hc nofun, h.stop, nofun, hgone⟩
  | join exited => exact ⟨fun _ => hc nofun, h.stop, fun _ => exited, h.gone⟩
  | lock free => exact ⟨fun _ => hc nofun, h.stop, fun _ => hj rfl, h.gone⟩
  | clear =>
    refine ⟨fun _ => hc nofun, h.stop, fun _ => hj rfl, fun hx => ?_⟩
    exact ⟨(h.gone hx).1, rfl, (h.gone hx).2.2⟩
  | unlock => exact ⟨fun _ => hc nofun, h.stop, fun _ => hj rfl, h.gone⟩

theorem Closed.step {s s' : State} {l : Label} (h : Closed s) (hl : Locked s)
    (hs : s.step l = some s') : Closed s' := by
  rcases step_cases hs with ⟨line, -, rfl⟩ | ⟨t, call, s₁, pc', -, hcall, hm, rfl⟩ | ⟨d, -, hm⟩ |
    ⟨-, hm⟩ | ⟨-, hasleep, rfl⟩
  · refine ⟨h.closed, h.stop, h.joined, fun hx => ?_⟩
    obtain ⟨h1, h2, h3⟩ := h.gone hx
    exact ⟨h1, h2, fun t ht => h3 t ((at_append_of_none rfl).mp ht)⟩
  · exact h.call_step hcall hm
  · exact h.worker_step hl hm
  · exact h.shutdown_step hm
  · exact ⟨h.closed, h.stop, fun hh => absurd (h.joined hh) (by rw [hasleep]; nofun), nofun⟩

/-! ## The lines -/

/-- Where the lines are. -/
structure Kept (s : State) : Prop where
  bound : s.logger.queue.length ≤ s.logger.maxQueue
  fifo : s.pushed.map Prod.snd = s.taken ++ s.logger.queue
  given : s.taken = s.written.map Prod.fst ++ s.worker.inHand
  none_cleared : s.cleared = []
  pushed_iff : ∀ t line, (t, line) ∈ s.pushed ↔ At Call.pushed s.calls t line
  once : (s.pushed.map Prod.fst).Nodup

theorem Kept.init (path : Bytes) (queueSize : Int) : Kept (init path queueSize) :=
  ⟨Nat.zero_le _, rfl, rfl, rfl, fun t line => by simp [LogWorker.init, At], List.nodup_nil⟩

theorem Kept.call_step {s s₁ : State} {t : Nat} {call : Call} {pc' : CallPc} (h : Kept s)
    (hcall : s.calls[t]? = some call) (hm : CallMove s t call call.pc s₁ pc') :
    Kept { s₁ with calls := s₁.calls.set t { call with pc := pc' } } := by
  rw [hm.calls]
  have keep : ∀ q : CallPc, q.enqueued = call.pc.enqueued → ∀ u line, (u, line) ∈ s.pushed ↔
      At Call.pushed (s.calls.set t { call with pc := q }) u line := by
    intro q hq u line
    have heq : Call.pushed { call with pc := q } = Call.pushed call := by
      rw [Call.pushed, Call.pushed, hq]
    exact (h.pushed_iff u line).trans (at_set_of_eq hcall heq).symm
  generalize hpc : call.pc = pc at hm keep
  cases hm with
  | push room =>
    have hnone : Call.pushed call = none := by
      rw [Call.pushed, hpc]
      rfl
    have hnew : ∀ line, (t, line) ∉ s.pushed := by
      intro line hline
      have := (at_here hcall).mp ((h.pushed_iff t line).mp hline)
      rw [hnone] at this
      cases this
    refine ⟨?_, ?_, h.given, h.none_cleared, fun u line => ?_, ?_⟩
    · show (s.logger.queue ++ [call.line]).length ≤ _
      rw [List.length_append, List.length_singleton]
      exact room
    · show (s.pushed ++ [(t, call.line)]).map Prod.snd = s.taken ++ (s.logger.queue ++ [call.line])
      rw [List.map_append, h.fifo, List.append_assoc, List.map_singleton]
    · show (u, line) ∈ s.pushed ++ [(t, call.line)] ↔ _
      rw [List.mem_append, List.mem_singleton, h.pushed_iff]
      by_cases hu : u = t
      · subst hu
        rw [at_here hcall, hnone, at_set_self hcall]
        simp [Call.pushed, CallPc.enqueued, eq_comm]
      · rw [at_set_ne hu]
        simp [hu]
    · show ((s.pushed ++ [(t, call.line)]).map Prod.fst).Nodup
      rw [List.map_append, List.map_singleton]
      refine List.Nodup.append h.once (List.nodup_singleton _) ?_
      intro u hu hu'
      obtain rfl := List.mem_singleton.mp hu'
      obtain ⟨⟨u, line⟩, hmem, rfl⟩ := List.mem_map.mp hu
      exact hnew line hmem
  | tell =>
    have hgiven := h.given
    rw [← notify_role WorkerPc.inHand rfl s] at hgiven
    rw [State.notify_eq] at hgiven ⊢
    exact ⟨h.bound, h.fifo, hgiven, h.none_cleared, keep _ rfl, h.once⟩
  | count enqueued =>
    rw [State.observeLogEnqueue_eq]
    cases enqueued <;> exact ⟨h.bound, h.fifo, h.given, h.none_cleared, keep _ rfl, h.once⟩
  | _ => exact ⟨h.bound, h.fifo, h.given, h.none_cleared, keep _ rfl, h.once⟩

theorem Kept.worker_step {s s' : State} {d : Disk} (h : Kept s)
    (hm : WorkerMove s d s.worker s') : Kept s' := by
  have hgiven := h.given
  generalize hpc : s.worker = pc at hm hgiven
  cases hm with
  | take line queue front =>
    have hbound := h.bound
    have hfifo := h.fifo
    rw [front] at hbound hfifo
    refine ⟨(Nat.le_succ _).trans hbound, ?_, ?_, h.none_cleared, h.pushed_iff, h.once⟩
    · rw [hfifo, List.append_assoc, List.singleton_append]
    · rw [hgiven]
      exact congrArg (· ++ [line]) (List.append_nil _)
  | write line =>
    obtain ⟨isOpen, good, file, pending, done, heq⟩ := write_eq s d line
    rw [heq]
    refine ⟨h.bound, h.fifo, ?_, h.none_cleared, h.pushed_iff, h.once⟩
    rw [hgiven]
    show _ = (s.written ++ [(line, done)]).map Prod.fst ++ []
    rw [List.append_nil, List.map_append]
    rfl
  | _ => exact ⟨h.bound, h.fifo, hgiven, h.none_cleared, h.pushed_iff, h.once⟩

theorem Kept.shutdown_step {s s' : State} (h : Kept s) (hc : Closed s)
    (hm : ShutdownMove s s.shutdown s') : Kept s' := by
  have hj := hc.joined
  generalize hpc : s.shutdown = pc at hm hj
  cases hm with
  | notify =>
    have hgiven := h.given
    rw [← notify_role WorkerPc.inHand rfl s] at hgiven
    rw [State.notify_eq] at hgiven ⊢
    exact ⟨h.bound, h.fifo, hgiven, h.none_cleared, h.pushed_iff, h.once⟩
  | clear =>
    -- the worker has left the queue empty
    have hempty : s.logger.queue = [] := (hc.gone (by rw [hj rfl]; rfl)).2.1
    have hfifo := h.fifo
    rw [hempty] at hfifo
    refine ⟨Nat.zero_le _, hfifo, h.given, ?_, h.pushed_iff, h.once⟩
    show s.cleared ++ s.logger.queue = []
    rw [h.none_cleared, hempty]
    rfl
  | _ => exact ⟨h.bound, h.fifo, h.given, h.none_cleared, h.pushed_iff, h.once⟩

theorem Kept.step {s s' : State} {l : Label} (h : Kept s) (hc : Closed s)
    (hs : s.step l = some s') : Kept s' := by
  rcases step_cases hs with ⟨line, -, rfl⟩ | ⟨t, call, s₁, pc', -, hcall, hm, rfl⟩ | ⟨d, -, hm⟩ |
    ⟨-, hm⟩ | ⟨-, hasleep, rfl⟩
  · exact ⟨h.bound, h.fifo, h.given, h.none_cleared,
      fun t line => (h.pushed_iff t line).trans (at_append_of_none rfl).symm, h.once⟩
  · exact h.call_step hcall hm
  · exact h.worker_step hm
  · exact h.shutdown_step hc hm
  · have hgiven := h.given
    rw [hasleep] at hgiven
    exact ⟨h.bound, h.fifo, hgiven, h.none_cleared, h.pushed_iff, h.once⟩

/-! ## The file -/

/-- Nothing that has to do with the file is touched. -/
structure SameStream (s s' : State) : Prop where
  written : s'.written = s.written
  file : s'.file = s.file
  isOpen : s'.isOpen = s.isOpen
  good : s'.good = s.good
  pending : s'.pending = s.pending
  opening : s'.worker = .opening ↔ s.worker = .opening
  exited : s'.worker = .exited ↔ s.worker = .exited

theorem notify_same (s : State) : SameStream s s.notify := by
  have hopening := notify_role (· = .opening) (by simp) s
  have hexited := notify_role (· = .exited) (by simp) s
  rw [State.notify_eq] at hopening hexited ⊢
  exact ⟨rfl, rfl, rfl, rfl, rfl, iff_of_eq hopening, iff_of_eq hexited⟩

/-- Only the worker has to do with the file. -/
theorem step_stream {s s' : State} {l : Label} (hs : s.step l = some s') :
    (∃ d, l = .worker d ∧ WorkerMove s d s.worker s') ∨ SameStream s s' := by
  rcases step_cases hs with ⟨line, -, rfl⟩ | ⟨t, call, s₁, pc', -, hcall, hm, rfl⟩ | hm | ⟨-, hm⟩ |
    ⟨-, hasleep, rfl⟩
  · exact Or.inr ⟨rfl, rfl, rfl, rfl, rfl, Iff.rfl, Iff.rfl⟩
  · right
    generalize call.pc = pc at hm
    cases hm with
    | tell =>
      have h := notify_same s
      exact ⟨h.written, h.file, h.isOpen, h.good, h.pending, h.opening, h.exited⟩
    | count enqueued =>
      rw [State.observeLogEnqueue_eq]
      exact ⟨rfl, rfl, rfl, rfl, rfl, Iff.rfl, Iff.rfl⟩
    | _ => exact ⟨rfl, rfl, rfl, rfl, rfl, Iff.rfl, Iff.rfl⟩
  · exact Or.inl hm
  · right
    generalize s.shutdown = pc at hm
    cases hm with
    | notify =>
      have h := notify_same s
      exact ⟨h.written, h.file, h.isOpen, h.good, h.pending, h.opening, h.exited⟩
    | _ => exact ⟨rfl, rfl, rfl, rfl, rfl, Iff.rfl, Iff.rfl⟩
  · exact Or.inr ⟨rfl, rfl, rfl, rfl, rfl, by simp [hasleep], by simp [hasleep]⟩

/-- The lines in the file are one stretch of the lines written: those before it came when the file
could not be opened, those after it when the stream had failed. `tries` are what has been written of
the line on which it failed: when its turn came, and once more by `flush()` and by `close()`. -/
structure Stretch where
  before : List Bytes := []
  kept : List Bytes := []
  after : List Bytes := []
  tries : List Bytes := []

namespace Stretch

def written (st : Stretch) : List (Bytes × Bool) :=
  st.before.map (·, false) ++ st.kept.map (·, true) ++ st.after.map (·, false)

def file (st : Stretch) : Bytes := st.kept.flatten ++ st.tries.flatten

/-- A try writes the line from its first byte; there is one in the loop and two behind it. -/
structure Tried (st : Stretch) (exited : Prop) : Prop where
  part : ∀ part ∈ st.tries, part <+: st.after.headD []
  loop : ¬ exited → st.tries.length ≤ 1
  closing : st.tries.length ≤ 3

/-- The stretch of a state, and what its stream says of it. -/
structure Of (st : Stretch) (s : State) : Prop where
  opening : s.worker = .opening → s.isOpen = false
  written : s.written = st.written
  file : s.file = st.file
  tried : st.Tried (s.worker = .exited)
  pending : s.pending <+: st.after.headD []
  closed : s.worker ≠ .exited → s.isOpen = false → st.kept = [] ∧ st.after = []
  good : s.good = true → st.after = []

variable {st : Stretch} {s s' : State}

/-- There is nothing to write of a line that has not been. -/
theorem Tried.flatten_nil {exited : Prop} (h : st.Tried exited) (hafter : st.after = []) :
    st.tries.flatten = [] := by
  rw [List.flatten_eq_nil_iff]
  intro part hpart
  have hpre := h.part part hpart
  rw [hafter] at hpre
  exact List.prefix_nil.mp hpre

theorem Tried.congr {exited exited' : Prop} (h : st.Tried exited) (himp : exited → exited') :
    st.Tried exited' := ⟨h.part, fun hno => h.loop (mt himp hno), h.closing⟩

theorem Tried.nil {exited : Prop} (before kept after : List Bytes) :
    Tried { before, kept, after } exited :=
  ⟨List.forall_mem_nil _, fun _ => Nat.zero_le _, Nat.zero_le _⟩

theorem Of.congr (h : st.Of s) (hsame : SameStream s s') : st.Of s' where
  opening hw := hsame.isOpen ▸ h.opening (hsame.opening.mp hw)
  written := hsame.written.trans h.written
  file := hsame.file.trans h.file
  tried := h.tried.congr hsame.exited.mpr
  pending := hsame.pending ▸ h.pending
  closed hw ho := h.closed (mt hsame.exited.mpr hw) (hsame.isOpen ▸ ho)
  good hg := h.good (hsame.good ▸ hg)

theorem Of.reopen (h : st.Of s) (hw : s.worker ≠ .exited) (hloop : s.worker ≠ .opening) (d : Disk) :
    st.Of (s.reopen d) := by
  unfold State.reopen
  split
  · exact h
  · rename_i hopen
    have hnone := h.closed hw (by simpa using hopen)
    exact ⟨fun ho => absurd ho hloop, h.written, h.file, h.tried, h.pending, fun _ _ => hnone,
      fun _ => hnone.2⟩

theorem good_reopen (s : State) (d : Disk) : (s.reopen d).good = true → (s.reopen d).isOpen = true := by
  unfold State.reopen
  split
  · exact fun _ => ‹_›
  · exact id

/-- A line for a stream that takes it, or fails on it. -/
theorem Of.write_good (h : st.Of s) (hgood : s.good = true) (hopen : s.isOpen = true) (d : Disk)
    (line : Bytes) : ∃ st' : Stretch, st'.Of (s.write d line) := by
  have hwritten := h.written
  have hfile := h.file
  have hafter := h.good hgood
  rw [Stretch.written, hafter, List.map_nil, List.append_nil] at hwritten
  rw [Stretch.file, h.tried.flatten_nil hafter, List.append_nil] at hfile
  have hclosed : ∀ {q : Prop}, s.isOpen = false → q := by
    intro q hq
    rw [hopen] at hq
    cases hq
  rw [State.write, if_pos hgood]
  cases hd : d.writes with
  | true =>
    refine ⟨{ before := st.before, kept := st.kept ++ [line] }, h.opening, ?_, ?_, .nil .., ?_,
      fun _ => hclosed, fun _ => rfl⟩
    · simp [hwritten, Stretch.written]
    · simp [hfile, Stretch.file]
    · exact List.nil_prefix
  | false =>
    refine ⟨{ before := st.before, kept := st.kept, after := [line], tries := [line.take d.part] },
      h.opening, ?_, ?_, ⟨?_, fun _ => Nat.le_refl 1, by simp⟩, ?_, fun _ => hclosed, nofun⟩
    · simp [hwritten, Stretch.written]
    · simp [hfile, Stretch.file]
    · simp [List.take_prefix]
    · show (if _ then line else []) <+: line
      split
      · exact List.prefix_rfl
      · exact List.nil_prefix

/-- A line that is lost. -/
theorem Of.write_bad (h : st.Of s) (hgood : s.good ≠ true) (d : Disk) (line : Bytes) :
    ∃ st' : Stretch, st'.Of (s.write d line) := by
  rw [State.write, if_neg hgood]
  by_cases hnone : st.kept = [] ∧ st.after = []
  · -- nothing has come into the file
    obtain ⟨hkept, hafter⟩ := hnone
    have hpending := h.pending
    rw [hafter] at hpending
    refine ⟨{ before := st.before ++ [line] }, h.opening, ?_, ?_, .nil .., hpending,
      fun _ _ => ⟨rfl, rfl⟩, fun _ => rfl⟩
    · simp [h.written, Stretch.written, hkept, hafter]
    · simp [h.file, Stretch.file, hkept, h.tried.flatten_nil hafter]
  · -- the line on which the stream failed stays the first one
    have hhead : ∀ x, x <+: st.after.headD [] → x <+: (st.after ++ [line]).headD [] := by
      intro x hx
      cases hafter : st.after with
      | nil =>
        rw [hafter] at hx
        rw [List.prefix_nil.mp hx]
        exact List.nil_prefix
      | cons first after =>
        rw [hafter] at hx
        exact hx
    refine ⟨{ st with after := st.after ++ [line] }, h.opening, ?_, h.file,
      ⟨fun part hpart => hhead part (h.tried.part part hpart), h.tried.loop, h.tried.closing⟩,
      hhead _ h.pending, fun hw ho => absurd (h.closed hw ho) hnone, fun hg => absurd hg hgood⟩
    simp [h.written, Stretch.written]

theorem Of.write (h : st.Of s) (hw : s.worker ≠ .exited) (hloop : s.worker ≠ .opening) (d : Disk)
    (line : Bytes) : ∃ st' : Stretch, st'.Of ((s.reopen d).write d line) := by
  have hreopen := h.reopen hw hloop d
  by_cases hgood : (s.reopen d).good = true
  · exact hreopen.write_good hgood (good_reopen s d hgood) d line
  · exact hreopen.write_bad hgood d line

/-- Behind the loop the line on which the stream failed is tried twice more. -/
theorem Of.close (h : st.Of s) (hw : s.worker = .leaving) (d : Disk) :
    ∃ st' : Stretch, st'.Of { s with
      isOpen := false, file := s.file ++ s.closing d, pending := [], worker := .exited } := by
  have hexited : s.worker ≠ .exited := by
    rw [hw]
    nofun
  have hloop := h.tried.loop hexited
  cases hopen : s.isOpen with
  | false =>
    refine ⟨st, nofun, h.written, ?_, h.tried.congr fun _ => rfl, List.nil_prefix,
      fun hne => absurd rfl hne, h.good⟩
    simp [State.closing, hopen, h.file]
  | true =>
    have hpart : ∀ n, s.pending.take n <+: st.after.headD [] :=
      fun n => (List.take_prefix n _).trans h.pending
    have hlast : (if d.writes then s.pending else s.pending.take d.part) <+: st.after.headD [] := by
      split
      · exact h.pending
      · exact hpart _
    refine ⟨{ st with tries := st.tries ++ [s.pending.take d.flushed,
        if d.writes then s.pending else s.pending.take d.part] }, nofun, h.written, ?_,
      ⟨fun part hmem => ?_, fun hno => absurd rfl hno, ?_⟩, List.nil_prefix,
      fun hne => absurd rfl hne, h.good⟩
    · simp [State.closing, hopen, h.file, Stretch.file]
    · rcases List.mem_append.mp hmem with hmem | hmem
      · exact h.tried.part part hmem
      · simp only [List.mem_cons, List.not_mem_nil, or_false] at hmem
        rcases hmem with rfl | rfl
        · exact hpart _
        · exact hlast
    · rw [List.length_append]
      exact Nat.add_le_add_right hloop 2

end Stretch

/-- What is in the file is a stretch of the lines. -/
def Filed (s : State) : Prop := ∃ st : Stretch, st.Of s

theorem Filed.init (path : Bytes) (queueSize : Int) : Filed (init path queueSize) :=
  ⟨{}, fun _ => rfl, rfl, rfl, .nil .., List.nil_prefix, fun _ _ => ⟨rfl, rfl⟩, fun _ => rfl⟩

theorem Filed.worker_step {s s' : State} {d : Disk} (h : Filed s)
    (hm : WorkerMove s d s.worker s') : Filed s' := by
  obtain ⟨st, h⟩ := h
  have hopening := h.opening
  have hclosed := h.closed
  have hwrite := h.write
  have hclose := h.close
  have htried := h.tried
  generalize hpc : s.worker = pc at hm hopening hclosed hwrite hclose htried
  cases hm with
  | opened =>
    have hnone := hclosed nofun (hopening rfl)
    exact ⟨st, nofun, h.written, h.file, htried.congr nofun, h.pending, fun _ _ => hnone,
      fun _ => hnone.2⟩
  | write line =>
    obtain ⟨st', h'⟩ := hwrite nofun nofun d line
    obtain ⟨isOpen, good, file, pending, done, heq⟩ := write_eq s d line
    rw [heq] at h' ⊢
    have hclosed' := h'.closed
    have htried' := h'.tried
    rw [hpc] at hclosed' htried'
    exact ⟨st', nofun, h'.written, h'.file, htried'.congr nofun, h'.pending,
      fun _ => hclosed' nofun, h'.good⟩
  | exit => exact hclose rfl d
  | _ =>
    exact ⟨st, nofun, h.written, h.file, htried.congr nofun, h.pending, fun _ => hclosed nofun,
      h.good⟩

theorem Filed.step {s s' : State} {l : Label} (h : Filed s) (hs : s.step l = some s') :
    Filed s' := by
  rcases step_stream hs with ⟨d, -, hm⟩ | hsame
  · exact h.worker_step hm
  · obtain ⟨st, hst⟩ := h
    exact ⟨st, hst.congr hsame⟩

/-- A disk on which nothing goes wrong. -/
def Label.Healthy : Label → Prop
  | .worker d => d.opens = true ∧ d.writes = true
  | _ => True

/-- Nothing has gone wrong so far. -/
structure Sound (s : State) : Prop where
  written : ∀ r ∈ s.written, r.2 = true
  stream : s.worker = .opening ∨ s.worker = .exited ∨ s.isOpen = true ∧ s.good = true

theorem Sound.worker_step {s s' : State} {d : Disk} (h : Sound s)
    (hd : d.opens = true ∧ d.writes = true) (hm : WorkerMove s d s.worker s') : Sound s' := by
  have hstream := h.stream
  generalize s.worker = pc at hm hstream
  cases hm with
  | opened => exact ⟨h.written, Or.inr (Or.inr ⟨hd.1, hd.1⟩)⟩
  | exit => exact ⟨h.written, Or.inr (Or.inl rfl)⟩
  | write line =>
    obtain ho | ho | ⟨hopen, hgood⟩ := hstream
    · cases ho
    · cases ho
    · rw [State.reopen, if_pos hopen, State.write, if_pos hgood]
      refine ⟨fun r hr => ?_, Or.inr (Or.inr ⟨hopen, hd.2⟩)⟩
      rcases List.mem_append.mp hr with hr | hr
      · exact h.written r hr
      · rw [List.mem_singleton.mp hr]
        exact hd.2
  | _ =>
    obtain ho | ho | hok := hstream
    · cases ho
    · cases ho
    · exact ⟨h.written, Or.inr (Or.inr hok)⟩

theorem Sound.step {s s' : State} {l : Label} (h : Sound s) (hl : l.Healthy)
    (hs : s.step l = some s') : Sound s' := by
  rcases step_stream hs with ⟨d, rfl, hm⟩ | hsame
  · exact h.worker_step hl hm
  · refine ⟨hsame.written ▸ h.written, ?_⟩
    rw [hsame.opening, hsame.exited, hsame.isOpen, hsame.good]
    exact h.stream

/-! ## The counters -/

/-- Each counter says how often its event has happened. -/
structure Counted (s : State) : Prop where
  accepted : s.enqueueAccepted = count (ofPc CallPc.result) s.calls true
  dropped : s.enqueueDropped = count (ofPc CallPc.result) s.calls false + s.cleared.length
  entered : count (ofPc CallPc.enqueued) s.calls () = s.pushed.length

theorem Counted.init (path : Bytes) (queueSize : Int) : Counted (init path queueSize) :=
  ⟨rfl, rfl, rfl⟩

theorem Counted.call_step {s s₁ : State} {t : Nat} {call : Call} {pc' : CallPc} (h : Counted s)
    (hcall : s.calls[t]? = some call) (hm : CallMove s t call call.pc s₁ pc') :
    Counted { s₁ with calls := s₁.calls.set t { call with pc := pc' } } := by
  rw [hm.calls]
  -- a step that does not return, and one that does not enqueue
  have accepted : ∀ q : CallPc, q.result = call.pc.result → s.enqueueAccepted =
      count (ofPc CallPc.result) (s.calls.set t { call with pc := q }) true :=
    fun q hq => h.accepted.trans (count_set_of_eq hcall hq).symm
  have dropped : ∀ q : CallPc, q.result = call.pc.result → s.enqueueDropped =
      count (ofPc CallPc.result) (s.calls.set t { call with pc := q }) false + s.cleared.length :=
    fun q hq => h.dropped.trans
      (congrArg (· + s.cleared.length) (count_set_of_eq hcall hq).symm)
  have entered : ∀ q : CallPc, q.enqueued = call.pc.enqueued →
      count (ofPc CallPc.enqueued) (s.calls.set t { call with pc := q }) () = s.pushed.length :=
    fun q hq => (count_set_of_eq hcall hq).trans h.entered
  generalize hpc : call.pc = pc at hm accepted dropped entered
  cases hm with
  | push room =>
    have hcount := count_set (f := ofPc CallPc.enqueued) (x := ())
      (q := { call with pc := .stored }) hcall
    have hstored : ofPc CallPc.enqueued { call with pc := .stored } = some () := rfl
    rw [if_neg (by rw [ofPc, hpc]; nofun), if_pos hstored] at hcount
    refine ⟨accepted _ rfl, dropped _ rfl, ?_⟩
    show _ = (s.pushed ++ [(t, call.line)]).length
    rw [List.length_append, List.length_singleton, ← h.entered]
    exact hcount
  | count enqueued =>
    have hcount : ∀ b : Bool, count (ofPc CallPc.result)
        (s.calls.set t { call with pc := .returned (some enqueued) }) b =
        count (ofPc CallPc.result) s.calls b + (enqueued == b).toNat := by
      intro b
      have hset := count_set (f := ofPc CallPc.result) (x := b)
        (q := { call with pc := .returned (some enqueued) }) hcall
      rw [if_neg (by rw [ofPc, hpc]; nofun), Nat.add_zero] at hset
      rw [hset]
      cases enqueued <;> cases b <;> rfl
    rw [State.observeLogEnqueue_eq]
    refine ⟨?_, ?_, entered _ (by cases enqueued <;> rfl)⟩
    · show s.enqueueAccepted + _ = _
      rw [hcount true, h.accepted]
      cases enqueued <;> rfl
    · show s.enqueueDropped + _ = _ + s.cleared.length
      rw [hcount false, h.dropped]
      cases enqueued <;> simp [Nat.add_right_comm]
  | tell =>
    rw [State.notify_eq]
    exact ⟨accepted _ rfl, dropped _ rfl, entered _ rfl⟩
  | _ => exact ⟨accepted _ rfl, dropped _ rfl, entered _ rfl⟩

theorem Counted.step {s s' : State} {l : Label} (h : Counted s) (hs : s.step l = some s') :
    Counted s' := by
  rcases step_cases hs with ⟨line, -, rfl⟩ | ⟨t, call, s₁, pc', -, hcall, hm, rfl⟩ | ⟨d, -, hm⟩ |
    ⟨-, hm⟩ | ⟨-, hasleep, rfl⟩
  · refine ⟨h.accepted.trans (count_append_of_none rfl).symm, ?_,
      (count_append_of_none rfl).trans h.entered⟩
    exact h.dropped.trans (congrArg (· + s.cleared.length) (count_append_of_none rfl).symm)
  · exact h.call_step hcall hm
  · generalize s.worker = pc at hm
    cases hm with
    | write line =>
      obtain ⟨isOpen, good, file, pending, done, heq⟩ := write_eq s d line
      rw [heq]
      exact ⟨h.accepted, h.dropped, h.entered⟩
    | _ => exact ⟨h.accepted, h.dropped, h.entered⟩
  · generalize s.shutdown = pc at hm
    cases hm with
    | notify =>
      rw [State.notify_eq]
      exact ⟨h.accepted, h.dropped, h.entered⟩
    | clear =>
      refine ⟨h.accepted, ?_, h.entered⟩
      show s.enqueueDropped + _ = _ + (s.cleared ++ s.logger.queue).length
      rw [h.dropped, List.length_append, Nat.add_assoc]
    | _ => exact ⟨h.accepted, h.dropped, h.entered⟩
  · exact ⟨h.accepted, h.dropped, h.entered⟩

/-! ## Whole runs -/

/-- All that is kept, together. -/
structure Inv (s : State) : Prop where
  locked : Locked s
  closed : Closed s
  kept : Kept s
  filed : Filed s
  counted : Counted s

theorem Inv.init (path : Bytes) (queueSize : Int) : Inv (init path queueSize) :=
  ⟨Locked.init .., Closed.init .., Kept.init .., Filed.init .., Counted.init ..⟩

theorem Inv.step {s s' : State} {l : Label} (h : Inv s) (hs : s.step l = some s') : Inv s' :=
  ⟨h.locked.step hs, h.closed.step h.locked hs, h.kept.step h.closed hs, h.filed.step hs,
    h.counted.step hs⟩

theorem Inv.of_run {path : Bytes} {queueSize : Int} {ls : List Label} {s : State}
    (hr : Machine.run State.step (LogWorker.init path queueSize) ls = some s) : Inv s :=
  Machine.run_preserves _ (fun _ _ _ h hs => h.step hs) (Inv.init ..) hr

/-- The call is over. -/
def Call.Returned (call : Call) : Prop := ∃ enqueued, call.pc = .returned enqueued

/-- A call that has returned is counted as accepted iff its line is in the queue's history. -/
theorem count_returned {calls : List Call} (h : ∀ call ∈ calls, call.Returned) :
    count (ofPc CallPc.result) calls true = count (ofPc CallPc.enqueued) calls () := by
  induction calls with
  | nil => rfl
  | cons call calls ih =>
    obtain ⟨enqueued, hpc⟩ := h call List.mem_cons_self
    have hresult : ofPc CallPc.result call = enqueued := by rw [ofPc, hpc]; rfl
    have hentered : ofPc CallPc.enqueued call = if enqueued = some true then some () else none := by
      rw [ofPc, hpc]
      cases enqueued with
      | none => rfl
      | some b => cases b <;> rfl
    rw [count_cons, count_cons, hresult, hentered, ih fun c hc => h c (List.mem_cons_of_mem _ hc)]
    split <;> rfl

/-- Every line is somewhere, and counted where it is. -/
structure Accounted (s : State) : Prop where
  bound : s.logger.queue.length ≤ s.logger.maxQueue
  /-- A call that has returned has its line in the queue's history or has been refused. -/
  returned : ∀ (t : Nat) (call : Call) (enqueued : Option Bool), s.calls[t]? = some call →
    call.pc = .returned enqueued →
    ∀ line, (t, line) ∈ s.pushed ↔ enqueued = some true ∧ line = call.line
  /-- No call has two lines. -/
  once : (s.pushed.map Prod.fst).Nodup
  /-- The lines reach the stream in the order of the queue. -/
  fifo : s.pushed.map Prod.snd = s.written.map Prod.fst ++ s.worker.inHand ++ s.logger.queue
  /-- What is in the file is one stretch of them, and the tries of the line behind it. -/
  file : ∃ st : Stretch, s.written = st.written ∧ s.file = st.file ∧
    st.Tried (s.worker = .exited)
  accepted : s.enqueueAccepted = count (ofPc CallPc.result) s.calls true
  dropped : s.enqueueDropped = count (ofPc CallPc.result) s.calls false
  /-- The shutdown has found no line to drop, and behind it nothing is left over. -/
  none_cleared : s.cleared = []
  settled : s.shutdown = .finished → (∀ call ∈ s.calls, call.Returned) →
    s.logger.queue = [] ∧ s.written.map Prod.fst = s.pushed.map Prod.snd ∧
      s.enqueueAccepted = s.written.length

/-- A stretch of lines that have all been written is the whole. -/
theorem Stretch.file_of_sound {st : Stretch} {exited : Prop} (htried : st.Tried exited)
    (hsound : ∀ r ∈ st.written, r.2 = true) : st.file = (st.written.map Prod.fst).flatten := by
  have hbefore : st.before = [] := by
    refine List.eq_nil_iff_forall_not_mem.mpr fun line hline => ?_
    have hmem : (line, false) ∈ st.written := by simp [Stretch.written, hline]
    cases hsound _ hmem
  have hafter : st.after = [] := by
    refine List.eq_nil_iff_forall_not_mem.mpr fun line hline => ?_
    have hmem : (line, false) ∈ st.written := by simp [Stretch.written, hline]
    cases hsound _ hmem
  have hnone : st.tries.flatten = [] := htried.flatten_nil hafter
  rw [Stretch.file, hnone]
  simp [Stretch.written, hbefore, hafter, Function.comp_def]

/-- **No accepted line is lost on its way to the stream.** In every run of calls, worker and shutdown,
with every behaviour of the disk; and when the disk is healthy, the lines are in the file. -/
theorem lines_accounted (path : Bytes) (queueSize : Int) (ls : List Label) (s : State)
    (hr : Machine.run State.step (init path queueSize) ls = some s) :
    Accounted s ∧
      ((∀ l ∈ ls, l.Healthy) → s.file = (s.written.map Prod.fst).flatten) := by
  obtain ⟨-, hclosed, hkept, ⟨st, hst⟩, hcounted⟩ := Inv.of_run hr
  have hfifo : s.pushed.map Prod.snd =
      s.written.map Prod.fst ++ s.worker.inHand ++ s.logger.queue := by
    rw [hkept.fifo, hkept.given]
  refine ⟨⟨hkept.bound, ?_, hkept.once, hfifo, ⟨st, hst.written, hst.file, hst.tried⟩,
    hcounted.accepted, ?_, hkept.none_cleared, ?_⟩, fun hhealthy => ?_⟩
  · intro t call enqueued hcall hpc line
    rw [hkept.pushed_iff, at_here hcall, Call.pushed, hpc]
    cases enqueued with
    | none => simp [CallPc.enqueued]
    | some b => cases b <;> simp [CallPc.enqueued, eq_comm]
  · rw [hcounted.dropped, hkept.none_cleared]
    rfl
  · intro hfinished hreturned
    have hexited := hclosed.joined (by rw [hfinished]; rfl)
    have hempty := (hclosed.gone (by rw [hexited]; rfl)).2.1
    rw [hexited, hempty, List.append_nil] at hfifo
    have hall : s.written.map Prod.fst = s.pushed.map Prod.snd :=
      (hfifo.trans (List.append_nil _)).symm
    refine ⟨hempty, hall, ?_⟩
    rw [hcounted.accepted, count_returned hreturned, hcounted.entered]
    simpa using (congrArg List.length hall).symm
  · have hsound : Sound s := Machine.run_invariant State.step
      (fun _ _ _ h hl hs => Sound.step h hl hs) ⟨List.forall_mem_nil _, Or.inl rfl⟩
      (Machine.along_of_forall State.step fun l hl _ => hhealthy l hl) hr
    have hwritten := hsound.written
    rw [hst.written] at hwritten
    rw [hst.file, hst.written]
    exact Stretch.file_of_sound hst.tried hwritten

/-- Two calls for a queue with one place, and a shutdown. -/
def twoLines : List Label := List.flatten
  [[.access [65, 10], .access [66, 10]], List.replicate 6 (.call 0), List.replicate 6 (.call 1),
    List.replicate 6 (.worker {}), List.replicate 3 .shutdown, List.replicate 4 (.worker {}),
    List.replicate 4 .shutdown]

theorem lines_accounted_two : ∃ s, Machine.run State.step (init (ascii "a") 0) twoLines = some s ∧
    s.written.map Prod.fst = [[65, 10]] ∧ s.enqueueAccepted = 1 ∧ s.enqueueDropped = 1 ∧
    s.file = [65, 10] := by
  have hrun : (Machine.run State.step (init (ascii "a") 0) twoLines).map (fun s =>
      (s.shutdown, s.calls, s.pushed)) =
        some (.finished, [⟨[65, 10], .returned (some true)⟩, ⟨[66, 10], .returned (some false)⟩],
          [(0, [65, 10])]) := by
    decide +kernel
  obtain ⟨s, hr, heq⟩ := Option.map_eq_some_iff.mp hrun
  simp only [Prod.mk.injEq] at heq
  obtain ⟨hfinished, hcalls, hpushed⟩ := heq
  obtain ⟨hacc, hfile⟩ := lines_accounted (ascii "a") 0 twoLines s hr
  have hreturned : ∀ call ∈ s.calls, call.Returned := by
    rw [hcalls]
    simp [Call.Returned]
  obtain ⟨-, hwritten, haccepted⟩ := hacc.settled hfinished hreturned
  rw [hpushed] at hwritten
  have hone : s.written.map Prod.fst = [[65, 10]] := hwritten
  refine ⟨s, hr, hone, ?_, ?_, ?_⟩
  · rw [haccepted, ← List.length_map (f := Prod.fst), hone]
    rfl
  · rw [hacc.dropped, hcalls]
    decide
  · have hhealthy : ∀ l ∈ twoLines, l.Healthy := by
      simp [twoLines, Label.Healthy]
    rw [hfile hhealthy, hone]
    rfl

/-- The disk takes one byte of the line, and all of it when the file is closed. -/
example : (Machine.run State.step (init (ascii "a") 0) (List.flatten
    [[.access [65, 10]], List.replicate 6 (.call 0), List.replicate 5 (.worker {}),
      [.worker { writes := false, part := 1 }], List.replicate 3 .shutdown,
      List.replicate 4 (.worker {})])).map State.file = some [65, 65, 10] := by
  decide +kernel

end LogWorker
end Observability
end UrlShortener
