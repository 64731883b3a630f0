import UrlShortener.Observability.LogLines

/-!
# UrlShortener.Observability.LogShutdown

Whether `shutdown` comes back. Every step of a thread lowers `State.weight`, so the threads come to
an end; what they can come to is that everything is over, or that the worker sleeps and nobody is
left to wake it up. The second needs the one moment between the worker's test and its sleep.
-/

namespace UrlShortener
namespace Observability
namespace LogWorker

open Threads

/-! ## The waiting worker -/

def CallPc.isStored : CallPc → Option Unit
  | .stored => some ()
  | _ => none

/-- `enqueue` has let the call in, or its line: it is going to notify. -/
def CallPc.isInside : CallPc → Option Unit
  | .admitted | .stored => some ()
  | _ => none

/-- The notification of `shutdown` has come before the worker was asleep. -/
def Missed (s : State) : Prop := s.shutdown = .joining ∧ (s.worker = .dozing ∨ s.worker = .asleep)

theorem not_missed {s : State} (hdozing : s.worker ≠ .dozing) (hasleep : s.worker ≠ .asleep) :
    ¬ Missed s := fun hw => hw.2.elim hdozing hasleep

/-- Why the worker is where it is. -/
structure Waits (s : State) : Prop where
  stopped : s.shutdown ≠ .notCalled → s.shutdown ≠ .closed → s.stop = true
  ready : s.worker = .ready → s.stop = true ∨ s.logger.queue ≠ []
  checked : s.worker = .checked → s.logger.queue ≠ []
  dozing : s.worker = .dozing → s.logger.queue = []
  asleep : s.worker = .asleep →
    s.logger.queue = [] ∨ ∃ t, At (ofPc CallPc.isStored) s.calls t ()
  /-- No call is going to notify the worker. -/
  missed : Missed s → ∀ t, ¬ At (ofPc CallPc.isInside) s.calls t ()

theorem Waits.init (path : Bytes) (queueSize : Int) : Waits (init path queueSize) :=
  ⟨fun h => absurd rfl h, nofun, nofun, nofun, nofun, fun h => nomatch h.1⟩

theorem isInside_holds {pc : CallPc} (h : pc.isInside = some ()) : pc.holds = some () := by
  cases pc with
  | admitted => rfl
  | stored => rfl
  | _ => cases h

theorem Waits.call_step {s s₁ : State} {t : Nat} {call : Call} {pc' : CallPc} (h : Waits s)
    (hl : Locked s) (hc : Closed s) (hcall : s.calls[t]? = some call)
    (hm : CallMove s t call call.pc s₁ pc') :
    Waits { s₁ with calls := s₁.calls.set t { call with pc := pc' } } := by
  rw [hm.calls]
  have asleep : ∀ q : CallPc, q.isStored = call.pc.isStored → s.worker = .asleep →
      s.logger.queue = [] ∨
        ∃ u, At (ofPc CallPc.isStored) (s.calls.set t { call with pc := q }) u () := by
    intro q hq hw
    rcases h.asleep hw with hempty | ⟨u, hu⟩
    · exact Or.inl hempty
    · exact Or.inr ⟨u, hu.set hcall hq⟩
  have missed : ∀ q : CallPc, q.isInside = none → Missed s →
      ∀ u, ¬ At (ofPc CallPc.isInside) (s.calls.set t { call with pc := q }) u () := by
    intro q hq hw u hu
    rcases at_of_at_set hcall hu with hu | ⟨-, hu⟩
    · exact h.missed hw u hu
    · rw [ofPc, hq] at hu
      cases hu
  have hmine := hl.mine hcall
  have hworker := hl.worker
  have hinside := h.missed
  generalize hpc : call.pc = pc at hm asleep missed hmine
  cases hm with
  | accept open_ =>
    -- after the notification the logger accepts no more
    refine ⟨h.stopped, h.ready, h.checked, h.dozing, asleep _ rfl, fun hw => ?_⟩
    have hclosed := hc.closed (by rw [hw.1]; simp)
    rw [open_] at hclosed
    cases hclosed
  | push room =>
    -- the worker that tests or dozes has the mutex
    rw [hmine rfl] at hworker
    have idle : s.worker.holds ≠ true := by
      intro hw
      cases hworker.mpr hw
    refine ⟨h.stopped, fun _ => Or.inr (by simp), fun _ => by simp, ?_, fun _ => Or.inr ?_,
      fun hw => ?_⟩
    · intro hw
      exact absurd (by rw [hw]; rfl) idle
    · exact ⟨t, (at_set_self hcall).mpr rfl⟩
    · exact absurd ⟨call, hcall, by rw [ofPc, hpc]; rfl⟩ (hinside hw t)
  | tell =>
    rw [State.notify_eq]
    by_cases hasleep : s.worker = .asleep
    · simp only [hasleep, if_true]
      exact ⟨h.stopped, by simp, by simp, by simp, by simp,
        fun hw => absurd hw (not_missed (by simp) (by simp))⟩
    · simp only [hasleep, if_false]
      exact ⟨h.stopped, h.ready, h.checked, h.dozing, fun hw => absurd hw hasleep, missed _ rfl⟩
  | count enqueued =>
    rw [State.observeLogEnqueue_eq]
    exact ⟨h.stopped, h.ready, h.checked, h.dozing, asleep _ rfl, missed _ rfl⟩
  | _ => exact ⟨h.stopped, h.ready, h.checked, h.dozing, asleep _ rfl, missed _ rfl⟩

theorem Waits.worker_step {s s' : State} {d : Disk} (h : Waits s)
    (hm : WorkerMove s d s.worker s') : Waits s' := by
  have hready := h.ready
  have hdozing := h.dozing
  have hmissed := h.missed
  generalize hpc : s.worker = pc at hm hready hdozing
  cases hm with
  | awake work =>
    exact ⟨h.stopped, fun _ => work, nofun, nofun, nofun,
      fun hw => absurd hw (not_missed nofun nofun)⟩
  | doze running empty =>
    -- `stop_` is set when the notification comes
    refine ⟨h.stopped, nofun, nofun, fun _ => empty, nofun, fun hw => ?_⟩
    have hstop := h.stopped (by rw [hw.1]; nofun) (by rw [hw.1]; nofun)
    rw [running] at hstop
    cases hstop
  | sleep =>
    refine ⟨h.stopped, nofun, nofun, nofun, fun _ => Or.inl (hdozing rfl), fun hw => ?_⟩
    exact hmissed ⟨hw.1, Or.inl hpc⟩
  | stay work =>
    refine ⟨h.stopped, nofun, fun _ hempty => ?_, nofun, nofun,
      fun hw => absurd hw (not_missed nofun nofun)⟩
    rcases work with hrunning | hne
    · rcases hready rfl with hstop | hne
      · rw [hrunning] at hstop
        cases hstop
      · exact hne hempty
    · exact hne hempty
  | write line =>
    obtain ⟨isOpen, good, file, pending, done, heq⟩ := write_eq s d line
    rw [heq]
    exact ⟨h.stopped, nofun, nofun, nofun, nofun,
      fun hw => absurd hw (not_missed nofun nofun)⟩
  | _ =>
    exact ⟨h.stopped, nofun, nofun, nofun, nofun,
      fun hw => absurd hw (not_missed nofun nofun)⟩

theorem Waits.shutdown_step {s s' : State} (h : Waits s) (hl : Locked s) (hc : Closed s)
    (hm : ShutdownMove s s.shutdown s') : Waits s' := by
  have hstopped := h.stopped
  have hjoined := hc.joined
  generalize hpc : s.shutdown = pc at hm hstopped hjoined
  cases hm with
  | close =>
    exact ⟨fun _ hne => absurd rfl hne, h.ready, h.checked, h.dozing, h.asleep,
      fun hw => nomatch hw.1⟩
  | stop =>
    exact ⟨fun _ _ => rfl, fun _ => Or.inl rfl, h.checked, h.dozing, h.asleep,
      fun hw => nomatch hw.1⟩
  | notify =>
    rw [State.notify_eq]
    by_cases hasleep : s.worker = .asleep
    · simp only [hasleep, if_true]
      refine ⟨fun _ _ => hstopped nofun nofun, nofun, nofun, nofun, nofun,
        fun hw => absurd hw (not_missed nofun nofun)⟩
    · simp only [hasleep, if_false]
      refine ⟨fun _ _ => hstopped nofun nofun, h.ready, h.checked, h.dozing,
        fun hw => absurd hw hasleep, fun hw => ?_⟩
      rcases hw.2 with hdozing | hw
      · rintro t ⟨call, hcall, hinside⟩
        have hmine := hl.mine hcall (isInside_holds hinside)
        have hworker := hl.worker.mpr (by rw [show s.worker = .dozing from hdozing]; rfl)
        rw [hmine] at hworker
        cases hworker
      · exact absurd hw hasleep
  | join exited =>
    exact ⟨fun _ _ => hstopped nofun nofun, h.ready, h.checked, h.dozing, h.asleep,
      fun hw => nomatch hw.1⟩
  | lock free =>
    exact ⟨fun _ _ => hstopped nofun nofun, h.ready, h.checked, h.dozing, h.asleep,
      fun hw => nomatch hw.1⟩
  | clear =>
    have hexited := hjoined rfl
    refine ⟨fun _ _ => hstopped nofun nofun, ?_, ?_, ?_, ?_, fun hw => nomatch hw.1⟩
    · exact fun hw => nomatch hexited.symm.trans hw
    · exact fun hw => nomatch hexited.symm.trans hw
    · exact fun hw => nomatch hexited.symm.trans hw
    · exact fun hw => nomatch hexited.symm.trans hw
  | unlock =>
    exact ⟨fun _ _ => hstopped nofun nofun, h.ready, h.checked, h.dozing, h.asleep,
      fun hw => nomatch hw.1⟩

theorem Waits.step {s s' : State} {l : Label} (h : Waits s) (hl : Locked s) (hc : Closed s)
    (hs : s.step l = some s') : Waits s' := by
  rcases step_cases hs with ⟨line, -, rfl⟩ | ⟨t, call, s₁, pc', -, hcall, hm, rfl⟩ | ⟨d, -, hm⟩ |
    ⟨-, hm⟩ | ⟨-, hasleep, rfl⟩
  · refine ⟨h.stopped, h.ready, h.checked, h.dozing, fun hw => ?_, fun hw t ht => ?_⟩
    · exact (h.asleep hw).imp_right fun ⟨t, ht⟩ => ⟨t, (at_append_of_none rfl).mpr ht⟩
    · exact h.missed hw t ((at_append_of_none rfl).mp ht)
  · exact h.call_step hl hc hcall hm
  · exact h.worker_step hm
  · exact h.shutdown_step hl hc hm
  · exact ⟨h.stopped, nofun, nofun, nofun, nofun,
      fun hw => absurd hw (not_missed nofun nofun)⟩

/-! ## The threads come to an end -/

/-- A step that a thread takes of its own accord. -/
def Label.IsThread : Label → Prop
  | .call _ | .worker _ | .shutdown => True
  | _ => False

/-- How much a call has still to do. The one that stores a line also pays for waking the worker. -/
def CallPc.weight : CallPc → Nat
  | .entered => 16
  | .built => 15
  | .locked => 14
  | .admitted => 13
  | .stored => 7
  | .refused => 2
  | .counting _ => 1
  | .returned _ => 0

def WorkerPc.weight : WorkerPc → Nat
  | .opening | .writing _ => 6
  | .loop | .notified => 5
  | .held => 4
  | .ready => 3
  | .checked => 2
  | .dozing | .leaving => 1
  | .asleep | .exited => 0

def ShutdownPc.weight : ShutdownPc → Nat
  | .notCalled => 12
  | .closed => 11
  | .stopped => 10
  | .joining => 4
  | .joined => 3
  | .clearing => 2
  | .cleared => 1
  | .finished => 0

namespace State

/-- A line in the queue is worth one more turn of the worker. -/
def weight (s : State) : Nat :=
  5 * s.logger.queue.length + s.worker.weight + s.shutdown.weight +
    (s.calls.map fun call => call.pc.weight).sum

theorem notify_weight (s : State) : s.notify.worker.weight ≤ s.worker.weight + 5 := by
  rw [notify_eq]
  by_cases hasleep : s.worker = .asleep
  · simp only [hasleep, if_true]
    decide
  · simp only [hasleep, if_false]
    omega

end State

theorem CallMove.weight_lt {s s₁ : State} {t : Nat} {call : Call} {pc' : CallPc}
    (hcall : s.calls[t]? = some call) (hm : CallMove s t call call.pc s₁ pc') :
    State.weight { s₁ with calls := s₁.calls.set t { call with pc := pc' } } < s.weight := by
  have hsum := sum_map_set (fun call : Call => call.pc.weight) (q := { call with pc := pc' }) hcall
  rw [hm.calls]
  unfold State.weight
  generalize hpc : call.pc = pc at hm hsum
  cases hm with
  | tell =>
    have := s.notify_weight
    simp only [State.notify_eq, CallPc.weight] at this hsum ⊢
    omega
  | count enqueued =>
    simp only [State.observeLogEnqueue_eq, CallPc.weight] at hsum ⊢
    omega
  | push room =>
    simp only [CallPc.weight, List.length_append, List.length_singleton] at hsum ⊢
    omega
  | _ =>
    simp only [CallPc.weight] at hsum ⊢
    omega

theorem WorkerMove.weight_lt {s s' : State} {d : Disk} (h : Waits s)
    (hm : WorkerMove s d s.worker s') : s'.weight < s.weight := by
  have hchecked := h.checked
  unfold State.weight
  generalize s.worker = pc at hm hchecked
  cases hm with
  | again empty => exact absurd empty (hchecked rfl)
  | take line queue front =>
    simp only [WorkerPc.weight, front, List.length_cons]
    omega
  | write line =>
    obtain ⟨isOpen, good, file, pending, done, heq⟩ := write_eq s d line
    simp only [heq, WorkerPc.weight]
    omega
  | _ =>
    simp only [WorkerPc.weight]
    omega

theorem ShutdownMove.weight_lt {s s' : State} (hm : ShutdownMove s s.shutdown s') :
    s'.weight < s.weight := by
  unfold State.weight
  generalize s.shutdown = pc at hm
  cases hm with
  | notify =>
    have := s.notify_weight
    simp only [State.notify_eq, ShutdownPc.weight] at this ⊢
    omega
  | clear =>
    simp only [ShutdownPc.weight, List.length_nil]
    omega
  | _ =>
    simp only [ShutdownPc.weight]
    omega

theorem weight_lt {s s' : State} {l : Label} (h : Waits s) (hl : l.IsThread)
    (hs : s.step l = some s') : s'.weight < s.weight := by
  rcases step_cases hs with ⟨line, rfl, rfl⟩ | ⟨t, call, s₁, pc', -, hcall, hm, rfl⟩ | ⟨d, -, hm⟩ |
    ⟨-, hm⟩ | ⟨rfl, hasleep, rfl⟩
  · cases hl
  · exact hm.weight_lt hcall
  · exact hm.weight_lt h
  · exact hm.weight_lt
  · cases hl

/-! ## Where they end -/

/-- No thread can go on. -/
def Blocked (s : State) : Prop := ∀ l : Label, l.IsThread → s.step l = none

/-- Everything is over. -/
structure Ended (s : State) : Prop where
  shutdown : s.shutdown = .finished
  worker : s.worker = .exited
  queue : s.logger.queue = []
  calls : ∀ call ∈ s.calls, call.Returned

/-- `shutdown` waits for a worker that nobody will wake up. -/
structure Stuck (s : State) : Prop where
  shutdown : s.shutdown = .joining
  worker : s.worker = .asleep
  queue : s.logger.queue = []
  calls : ∀ call ∈ s.calls, call.Returned

theorem Stuck.missed {s : State} (h : Stuck s) : Missed s := ⟨h.shutdown, Or.inr h.worker⟩

theorem blocked_of_over {s : State} (hcalls : ∀ call ∈ s.calls, call.Returned)
    (hworker : ∀ d, s.workerStep d = none) (hshutdown : s.shutdownStep = none) : Blocked s := by
  intro l hl
  cases l with
  | access line => cases hl
  | spurious => cases hl
  | worker d => exact hworker d
  | shutdown => exact hshutdown
  | call t =>
    cases hcall : s.calls[t]? with
    | none => simp [State.step, hcall]
    | some call =>
      obtain ⟨enqueued, hpc⟩ := hcalls call (List.mem_of_getElem? hcall)
      simp [State.step, hcall, State.callStep, hpc]

theorem Ended.blocked {s : State} (h : Ended s) : Blocked s :=
  blocked_of_over h.calls (fun d => by rw [State.workerStep, h.worker])
    (by rw [State.shutdownStep, h.shutdown])

theorem Stuck.blocked {s : State} (h : Stuck s) : Blocked s := by
  refine blocked_of_over h.calls (fun d => by rw [State.workerStep, h.worker]) ?_
  rw [State.shutdownStep, h.shutdown]
  simp [h.worker]

theorem Blocked.callStep {s : State} (h : Blocked s) {t : Nat} {call : Call}
    (hcall : s.calls[t]? = some call) : s.callStep t call = none := by
  have := h (.call t) trivial
  simpa [State.step, hcall] using this

/-- Whoever holds the mutex can go on. -/
theorem Blocked.free {s : State} (h : Blocked s) (hl : Locked s) : s.mutex = none := by
  cases hmutex : s.mutex with
  | none => rfl
  | some owner =>
    cases owner with
    | call t =>
      obtain ⟨call, hcall, hholds⟩ := (hl.call t).mp (by rw [hmutex]; rfl)
      have hnone := h.callStep hcall
      unfold State.callStep at hnone
      split at hnone <;> rename_i hpc <;> rw [ofPc, hpc] at hholds
      · cases hholds
      · cases hholds
      · split at hnone <;> cases hnone
      · split at hnone <;> cases hnone
      · cases hnone
      · cases hnone
      · cases hholds
      · cases hholds
    | worker =>
      have hholds := hl.worker.mp hmutex
      have hnone : s.workerStep {} = none := h (.worker {}) trivial
      unfold State.workerStep at hnone
      split at hnone <;> rename_i hpc <;> rw [hpc] at hholds
      · cases hholds
      · cases hholds
      · split at hnone <;> cases hnone
      · cases hnone
      · cases hholds
      · cases hholds
      · split at hnone <;> cases hnone
      · split at hnone <;> cases hnone
      · cases hholds
      · cases hholds
      · cases hholds
    | shutdown =>
      have hholds := hl.shutdown.mp hmutex
      have hnone : s.shutdownStep = none := h .shutdown trivial
      unfold State.shutdownStep at hnone
      split at hnone <;> rename_i hpc <;> rw [hpc] at hholds
      · cases hholds
      · cases hholds
      · cases hholds
      · cases hholds
      · cases hholds
      · cases hnone
      · cases hnone
      · cases hholds

theorem Blocked.returned {s : State} (h : Blocked s) (hfree : s.mutex = none) :
    ∀ call ∈ s.calls, call.Returned := by
  intro call hmem
  obtain ⟨t, hcall⟩ := List.mem_iff_getElem?.mp hmem
  have hnone := h.callStep hcall
  unfold State.callStep at hnone
  split at hnone <;> rename_i hpc
  · split at hnone <;> cases hnone
  · rw [if_pos hfree] at hnone
    cases hnone
  · split at hnone <;> cases hnone
  · split at hnone <;> cases hnone
  · cases hnone
  · cases hnone
  · cases hnone
  · exact ⟨_, hpc⟩

theorem Blocked.worker {s : State} (h : Blocked s) (hfree : s.mutex = none) :
    s.worker = .asleep ∨ s.worker = .exited := by
  have hnone : s.workerStep {} = none := h (.worker {}) trivial
  unfold State.workerStep at hnone
  split at hnone <;> rename_i hpc
  · cases hnone
  · rw [if_pos hfree] at hnone
    cases hnone
  · split at hnone <;> cases hnone
  · cases hnone
  · exact Or.inl hpc
  · rw [if_pos hfree] at hnone
    cases hnone
  · split at hnone <;> cases hnone
  · split at hnone <;> cases hnone
  · cases hnone
  · cases hnone
  · exact Or.inr hpc

theorem Blocked.shutdown {s : State} (h : Blocked s) (hfree : s.mutex = none) :
    s.shutdown = .finished ∨ s.shutdown = .joining ∧ s.worker ≠ .exited := by
  have hnone : s.shutdownStep = none := h .shutdown trivial
  unfold State.shutdownStep at hnone
  split at hnone <;> rename_i hpc
  · cases hnone
  · cases hnone
  · cases hnone
  · split at hnone
    · cases hnone
    · exact Or.inr ⟨hpc, ‹_›⟩
  · rw [if_pos hfree] at hnone
    cases hnone
  · cases hnone
  · cases hnone
  · exact Or.inl hpc

theorem blocked_iff {s : State} (hi : Inv s) (hw : Waits s) : Blocked s ↔ Ended s ∨ Stuck s := by
  constructor
  · intro h
    have hfree := h.free hi.locked
    have hreturned := h.returned hfree
    rcases h.shutdown hfree with hfinished | ⟨hjoining, hne⟩
    · have hexited := hi.closed.joined (by rw [hfinished]; rfl)
      have hempty := (hi.closed.gone (by rw [hexited]; rfl)).2.1
      exact Or.inl ⟨hfinished, hexited, hempty, hreturned⟩
    · have hasleep := (h.worker hfree).resolve_right hne
      refine Or.inr ⟨hjoining, hasleep, ?_, hreturned⟩
      rcases hw.asleep hasleep with hempty | ⟨t, call, hcall, hstored⟩
      · exact hempty
      · obtain ⟨enqueued, hpc⟩ := hreturned call (List.mem_of_getElem? hcall)
        rw [ofPc, hpc] at hstored
        cases hstored
  · rintro (h | h)
    · exact h.blocked
    · exact h.blocked

/-! ## The missed notification -/

theorem Missed.step {s s' : State} {l : Label} (h : Missed s) (hw : Waits s) (hl : l.IsThread)
    (hs : s.step l = some s') : Missed s' := by
  obtain ⟨hjoining, hworker⟩ := h
  rcases step_cases hs with ⟨line, rfl, rfl⟩ | ⟨t, call, s₁, pc', -, hcall, hm, rfl⟩ | ⟨d, -, hm⟩ |
    ⟨-, hm⟩ | ⟨rfl, hasleep, rfl⟩
  · exact ⟨hjoining, hworker⟩
  · have hno := hw.missed ⟨hjoining, hworker⟩ t
    generalize hpc : call.pc = pc at hm
    cases hm with
    | tell => exact absurd ⟨call, hcall, by rw [ofPc, hpc]; rfl⟩ hno
    | count enqueued =>
      rw [State.observeLogEnqueue_eq]
      exact ⟨hjoining, hworker⟩
    | _ => exact ⟨hjoining, hworker⟩
  · rcases hworker with hpc | hpc <;> rw [hpc] at hm <;> cases hm
    exact ⟨hjoining, Or.inr rfl⟩
  · rw [hjoining] at hm
    cases hm with
    | join exited => rcases hworker with hpc | hpc <;> rw [exited] at hpc <;> cases hpc
  · cases hl

/-- A worker that sleeps is woken up. -/
theorem worker_of_notify {s : State} (h : s.notify.worker = .dozing ∨ s.notify.worker = .asleep) :
    s.worker = .dozing := by
  rw [State.notify_eq] at h
  by_cases hasleep : s.worker = .asleep
  · simp [hasleep] at h
  · simpa [hasleep] using h

/-- The only way to miss it. -/
theorem missed_cause {s s' : State} {l : Label} (hw : Waits s) (hs : s.step l = some s')
    (hno : ¬ Missed s) (h : Missed s') :
    l = .shutdown ∧ s.shutdown = .stopped ∧ s.worker = .dozing := by
  obtain ⟨hjoining, hworker⟩ := h
  rcases step_cases hs with ⟨line, rfl, rfl⟩ | ⟨t, call, s₁, pc', -, hcall, hm, rfl⟩ | ⟨d, -, hm⟩ |
    ⟨rfl, hm⟩ | ⟨rfl, hasleep, rfl⟩
  · exact absurd ⟨hjoining, hworker⟩ hno
  · generalize call.pc = pc at hm
    cases hm with
    | tell =>
      have hdozing := worker_of_notify hworker
      rw [State.notify_eq] at hjoining
      exact absurd ⟨hjoining, Or.inl hdozing⟩ hno
    | count enqueued =>
      rw [State.observeLogEnqueue_eq] at hjoining hworker
      exact absurd ⟨hjoining, hworker⟩ hno
    | _ => exact absurd ⟨hjoining, hworker⟩ hno
  · generalize hpc : s.worker = pc at hm
    cases hm with
    | doze running empty =>
      have hstop := hw.stopped (by rw [show s.shutdown = .joining from hjoining]; nofun)
        (by rw [show s.shutdown = .joining from hjoining]; nofun)
      rw [running] at hstop
      cases hstop
    | sleep => exact absurd ⟨hjoining, Or.inl hpc⟩ hno
    | write line =>
      obtain ⟨isOpen, good, file, pending, done, heq⟩ := write_eq s d line
      rw [heq] at hworker
      rcases hworker with hw | hw <;> cases hw
    | _ => rcases hworker with hw | hw <;> cases hw
  · generalize hpc : s.shutdown = pc at hm
    cases hm with
    | notify => exact ⟨rfl, rfl, worker_of_notify hworker⟩
    | _ => cases hjoining
  · rcases hworker with hw | hw <;> cases hw

/-! ## Whole runs -/

/-- What the threads can come to from `s`. -/
structure Outcome (s : State) (steps : List Label) (s' : State) : Prop where
  /-- They do not go on for ever. -/
  length : steps.length ≤ s.weight
  /-- They end when everything is over, or with a worker that sleeps on. -/
  blocked : Blocked s' ↔ Ended s' ∨ Stuck s'
  /-- Who has missed the notification does not get another one. -/
  missed : Missed s → ¬ Ended s'
  /-- It is missed only between the worker's test and its sleep. -/
  cause : Stuck s' → Missed s ∨ ∃ before after s₁, steps = before ++ .shutdown :: after ∧
    Machine.run State.step s before = some s₁ ∧ s₁.shutdown = .stopped ∧ s₁.worker = .dozing

/-- **The end of the logger.** From every state that is reached, spurious wake-ups included, the
threads alone can be run until none can go on, and every run of them comes to such an end. -/
theorem shutdown_ends (path : Bytes) (queueSize : Int) (ls : List Label) (s : State)
    (hr : Machine.run State.step (init path queueSize) ls = some s) :
    (∃ steps s', (∀ l ∈ steps, l.IsThread) ∧ Machine.run State.step s steps = some s' ∧
      Blocked s') ∧
    ∀ (steps : List Label) (s' : State), (∀ l ∈ steps, l.IsThread) →
      Machine.run State.step s steps = some s' → Outcome s steps s' := by
  have hkeep : ∀ (s : State) (l : Label) (s' : State), (Inv s ∧ Waits s) → s.step l = some s' →
      Inv s' ∧ Waits s' :=
    fun s l s' h hs => ⟨h.1.step hs, h.2.step h.1.locked h.1.closed hs⟩
  have hlower : ∀ (s : State) (l : Label) (s' : State), (Inv s ∧ Waits s) → l.IsThread →
      s.step l = some s' → (Inv s' ∧ Waits s') ∧ s'.weight < s.weight :=
    fun s l s' h hl hs => ⟨hkeep s l s' h hs, weight_lt h.2 hl hs⟩
  have hinv : Inv s ∧ Waits s :=
    Machine.run_preserves State.step hkeep ⟨Inv.init .., Waits.init ..⟩ hr
  refine ⟨Machine.exists_run_blocked State.step hlower s hinv, fun steps s' hsteps hrun => ?_⟩
  have hinv' : Inv s' ∧ Waits s' := Machine.run_preserves State.step hkeep hinv hrun
  refine ⟨?_, blocked_iff hinv'.1 hinv'.2, fun hmissed hended => ?_, fun hstuck => ?_⟩
  · have := Machine.run_length_le State.step hlower hinv hsteps hrun
    omega
  · have hstay : ∀ (s : State) (l : Label) (s' : State), (Inv s ∧ Waits s) ∧ Missed s → l.IsThread →
        s.step l = some s' → (Inv s' ∧ Waits s') ∧ Missed s' :=
      fun s l s' h hl hs => ⟨hkeep s l s' h.1 hs, h.2.step h.1.2 hl hs⟩
    have hmissed' := Machine.run_invariant State.step hstay ⟨hinv, hmissed⟩
      (Machine.along_of_forall State.step fun l hl _ => hsteps l hl) hrun
    have hjoining := hmissed'.2.1
    rw [hended.shutdown] at hjoining
    cases hjoining
  · refine (Machine.run_cause State.step hrun hstuck.missed).imp_right ?_
    rintro ⟨before, l, after, s₁, s₂, rfl, hbefore, hs, hno, hyes⟩
    have hinv₁ : Inv s₁ ∧ Waits s₁ := Machine.run_preserves State.step hkeep hinv hbefore
    obtain ⟨rfl, hstopped, hdozing⟩ := missed_cause hinv₁.2 hs hno hyes
    exact ⟨before, after, s₁, rfl, hbefore, hstopped, hdozing⟩

/-- The notification comes between the worker's test and its sleep. -/
def tooEarly : List Label :=
  List.replicate 3 (.worker {}) ++ List.replicate 3 .shutdown ++ [.worker {}]

theorem shutdown_ends_early : ∃ s, Machine.run State.step (init (ascii "a") 1) tooEarly = some s ∧
    Blocked s ∧ s.shutdown = .joining := by
  have hrun : (Machine.run State.step (init (ascii "a") 1) tooEarly).map (fun s =>
      (s.shutdown, s.worker, s.calls, s.logger.queue)) = some (.joining, .asleep, [], []) := by
    decide +kernel
  obtain ⟨s, hr, heq⟩ := Option.map_eq_some_iff.mp hrun
  simp only [Prod.mk.injEq] at heq
  obtain ⟨hjoining, hasleep, hcalls, hempty⟩ := heq
  obtain ⟨-, hall⟩ := shutdown_ends (ascii "a") 1 [] (init (ascii "a") 1) rfl
  have hthreads : ∀ l ∈ tooEarly, l.IsThread := by simp [tooEarly, Label.IsThread]
  have houtcome := hall tooEarly s hthreads hr
  have hstuck : Stuck s := ⟨hjoining, hasleep, hempty, by rw [hcalls]; exact List.forall_mem_nil _⟩
  exact ⟨s, hr, houtcome.blocked.mpr (Or.inr hstuck), hjoining⟩

end LogWorker
end Observability
end UrlShortener
