import UrlShortener.Analytics.Producer

/-!
# UrlShortener.Analytics.ClickQueue

Nothing is lost between `publish_click` and the worker.

The order of the two stores in `shutdown` carries the argument. `accepting_` is false before
`stop_` is true, and the worker leaves only when it sees `stop_` and an empty queue under the
mutex (`Closed.exited`): by then no call can be admitted any more, and the mutex says that none
has been admitted and not yet pushed. So the queue stays empty behind the worker.
-/

namespace UrlShortener
namespace Analytics

open Threads

/-! ## Roles -/

def CallPc.holds : CallPc → Option Unit
  | .locked _ | .admitted _ | .refused | .stored _ => some ()
  | _ => none

/-- The event of the call, once it is in the queue. -/
def CallPc.enqueued : CallPc → Option ClickEvent
  | .stored event => some event
  | .counting enqueued => enqueued
  | .returned enqueued => enqueued
  | _ => none

/-- The event the call has built. -/
def CallPc.event : CallPc → Option ClickEvent
  | .built event | .locked event | .admitted event | .stored event => some event
  | .counting enqueued => enqueued
  | .returned enqueued => enqueued
  | _ => none

theorem event_of_enqueued {pc : CallPc} {event : ClickEvent} (h : pc.enqueued = some event) :
    pc.event = some event := by
  cases pc with
  | stored event' => exact h
  | counting enqueued => exact h
  | returned enqueued => exact h
  | _ => cases h

/-- How the call has returned. -/
def CallPc.result : CallPc → Option Bool
  | .returned enqueued => some enqueued.isSome
  | _ => none

def CallPc.isAdmitted : CallPc → Option Unit
  | .admitted _ => some ()
  | _ => none

def WorkerPc.holds : WorkerPc → Bool
  | .held | .woken _ | .checked _ => true
  | _ => false

/-- One event taken and not counted. -/
def WorkerPc.inHand : WorkerPc → Nat
  | .handling _ _ | .raised => 1
  | _ => 0

/-- One event taken, and the worker goes on with it. -/
def WorkerPc.busy : WorkerPc → Nat
  | .handling _ _ => 1
  | _ => 0

def ShutdownPc.holds : ShutdownPc → Bool
  | .clearing | .cleared => true
  | _ => false

/-- The worker has been joined. -/
def ShutdownPc.isJoined : ShutdownPc → Bool
  | .joined | .clearing | .cleared | .finished => true
  | _ => false

/-- A role of calls is a role of their program points. -/
def ofPc {X : Type} (f : CallPc → Option X) (call : Call) : Option X := f call.pc

/-! ## The mutex -/

/-- The call that holds the mutex. -/
def callOwner : Option Owner → Option Nat
  | some (.call t) => some t
  | _ => none

/-- The mutex is held by the thread that its owner field names, and by no other. -/
structure Locked (s : State) : Prop where
  call : Owns (ofPc CallPc.holds) s.calls () (callOwner s.mutex)
  worker : s.mutex = some .worker ↔ s.worker.holds = true
  shutdown : s.mutex = some .shutdown ↔ s.shutdown.holds = true

theorem Locked.init : Locked {} := by
  refine ⟨fun t => ?_, by simp [WorkerPc.holds], by simp [ShutdownPc.holds]⟩
  simp [callOwner, At]

theorem Locked.publish {s : State} (h : Locked s) (req : Http.HttpRequest) (code : Bytes) :
    Locked { s with calls := s.calls ++ [⟨req, code, .entered⟩] } :=
  ⟨h.call.spawn rfl, h.worker, h.shutdown⟩

theorem Locked.call_step {cfg : Config} {s s₁ : State} {t : Nat} {call : Call} {pc' : CallPc}
    (h : Locked s) (hcall : s.calls[t]? = some call) (hm : CallMove cfg s t call call.pc s₁ pc') :
    Locked { s₁ with calls := s.calls.set t { call with pc := pc' } } := by
  -- a step that does not touch the mutex
  have keep : ∀ q : CallPc, q.holds = call.pc.holds →
      Owns (ofPc CallPc.holds) (s.calls.set t { call with pc := q }) () (callOwner s.mutex) :=
    fun q hq => h.call.keep hcall hq
  -- a step that gives it back
  have mine : call.pc.holds = some () → s.mutex = some (.call t) := by
    intro hp
    have hown := (h.call t).mpr ⟨call, hcall, hp⟩
    cases hmutex : s.mutex with
    | none => rw [hmutex] at hown; cases hown
    | some owner =>
      cases owner with
      | call u => rw [hmutex] at hown; cases hown; rfl
      | worker => rw [hmutex] at hown; cases hown
      | shutdown => rw [hmutex] at hown; cases hown
  have release : ∀ q : CallPc, call.pc.holds = some () → q.holds = none →
      Locked { s with mutex := none, calls := s.calls.set t { call with pc := q } } := by
    intro q hp hq
    have hmine := mine hp
    have hw := h.worker
    have hsd := h.shutdown
    rw [hmine] at hw hsd
    refine ⟨h.call.release hcall hp (by simp [ofPc, hq]), ?_, ?_⟩
    · simpa using hw
    · simpa using hsd
  generalize hpc : call.pc = pc at hm keep release
  cases hm with
  | build now => exact ⟨keep _ rfl, h.worker, h.shutdown⟩
  | late => exact ⟨keep _ rfl, h.worker, h.shutdown⟩
  | admitted event => exact ⟨keep _ rfl, h.worker, h.shutdown⟩
  | refuse event => exact ⟨keep _ rfl, h.worker, h.shutdown⟩
  | full event => exact ⟨keep _ rfl, h.worker, h.shutdown⟩
  | push event => exact ⟨keep _ rfl, h.worker, h.shutdown⟩
  | giveUp => exact release _ rfl rfl
  | unlock event => exact release _ rfl rfl
  | count enqueued =>
    rw [State.observeKafkaEnqueue_eq]
    exact ⟨keep _ rfl, h.worker, h.shutdown⟩
  | lock event free =>
    have hc := h.call
    have hw := h.worker
    have hsd := h.shutdown
    rw [free] at hc hw hsd
    refine ⟨Owns.acquire hc hcall rfl, ?_, ?_⟩
    · simpa using hw
    · simpa using hsd

theorem Locked.worker_step {cfg : Config} {s s' : State} (h : Locked s)
    (hm : WorkerMove cfg s s.worker s') : Locked s' := by
  have hc := h.call
  have hw := h.worker
  have hsd := h.shutdown
  have acquire : s.mutex = none →
      Locked { s with mutex := some .worker, worker := .held } := by
    intro free
    rw [free] at hc hsd
    exact ⟨hc, by simp [WorkerPc.holds], by simpa using hsd⟩
  have release : s.worker.holds = true → ∀ q : WorkerPc, q.holds = false →
      Locked { s with mutex := none, worker := q } := by
    intro hp q hq
    rw [hw.mpr hp] at hc hsd
    exact ⟨hc, by simp [hq], by simpa using hsd⟩
  generalize hpc : s.worker = pc at hm release hw
  cases hm with
  | lock free => exact acquire free
  | relock free => exact acquire free
  | wake haveItem => exact ⟨hc, hw, hsd⟩
  | sleep => exact release rfl _ rfl
  | exit haveItem stop empty => exact release rfl _ rfl
  | check haveItem => exact ⟨hc, hw, hsd⟩
  | take t event queue front =>
    have hr := release rfl (.handling t event) rfl
    exact ⟨hr.call, hr.worker, hr.shutdown⟩
  | again haveItem => exact release rfl _ rfl
  | produce t event ok =>
    rw [State.observeKafkaProduceAccepted_eq]
    exact ⟨hc, hw, hsd⟩
  | raise t event => exact ⟨hc, hw, hsd⟩

theorem Locked.shutdown_step {s s' : State} (h : Locked s)
    (hm : ShutdownMove s s.shutdown s') : Locked s' := by
  have hc := h.call
  have hw := h.worker
  have hsd := h.shutdown
  generalize hpc : s.shutdown = pc at hm hsd
  cases hm with
  | close => exact ⟨hc, hw, hsd⟩
  | stop => exact ⟨hc, hw, hsd⟩
  | join exited => exact ⟨hc, hw, hsd⟩
  | lock free =>
    rw [free] at hc hw
    exact ⟨hc, by simpa using hw, by simp [ShutdownPc.holds]⟩
  | clear => exact ⟨hc, hw, hsd⟩
  | unlock =>
    rw [hsd.mpr rfl] at hc hw
    exact ⟨hc, by simpa using hw, by simp [ShutdownPc.holds]⟩

theorem Locked.step {cfg : Config} {s s' : State} {l : Label} (h : Locked s)
    (hs : Analytics.step cfg s l = some s') : Locked s' := by
  rcases step_cases hs with ⟨req, code, rfl⟩ | ⟨t, call, s₁, pc', hcall, hm, rfl⟩ | hm | hm
  · exact h.publish req code
  · exact h.call_step hcall hm
  · exact h.worker_step hm
  · exact h.shutdown_step hm

/-! ## Closing -/

/-- What each stage of the shutdown has made sure of. -/
structure Closed (s : State) : Prop where
  closed : s.shutdown ≠ .notCalled → s.accepting = false
  stop : s.stop = true → s.accepting = false
  joined : s.shutdown.isJoined = true → s.worker = .exited
  exited : s.worker = .exited → s.accepting = false ∧ s.queue = [] ∧
    ∀ t, ¬ At (ofPc CallPc.isAdmitted) s.calls t ()

theorem Closed.init : Closed {} := ⟨fun h => absurd rfl h, nofun, nofun, nofun⟩

theorem Closed.publish {s : State} (h : Closed s) (req : Http.HttpRequest) (code : Bytes) :
    Closed { s with calls := s.calls ++ [⟨req, code, .entered⟩] } := by
  refine ⟨h.closed, h.stop, h.joined, fun hx => ?_⟩
  obtain ⟨h1, h2, h3⟩ := h.exited hx
  exact ⟨h1, h2, fun t ht => h3 t ((at_append_of_none rfl).mp ht)⟩

theorem Closed.call_step {cfg : Config} {s s₁ : State} {t : Nat} {call : Call} {pc' : CallPc}
    (h : Closed s) (hcall : s.calls[t]? = some call) (hm : CallMove cfg s t call call.pc s₁ pc') :
    Closed { s₁ with calls := s.calls.set t { call with pc := pc' } } := by
  -- a step to a place that is not `admitted`
  have keep : ∀ q : CallPc, q.isAdmitted = none → s.worker = .exited →
      s.accepting = false ∧ s.queue = [] ∧
        ∀ u, ¬ At (ofPc CallPc.isAdmitted) (s.calls.set t { call with pc := q }) u () := by
    intro q hq hx
    obtain ⟨h1, h2, h3⟩ := h.exited hx
    refine ⟨h1, h2, fun u hu => ?_⟩
    rcases at_of_at_set hcall hu with hu | ⟨-, hu⟩
    · exact h3 u hu
    · rw [ofPc, hq] at hu
      cases hu
  generalize hpc : call.pc = pc at hm
  cases hm with
  | build now => exact ⟨h.closed, h.stop, h.joined, keep _ rfl⟩
  | late => exact ⟨h.closed, h.stop, h.joined, keep _ rfl⟩
  | lock event free => exact ⟨h.closed, h.stop, h.joined, keep _ rfl⟩
  | refuse event => exact ⟨h.closed, h.stop, h.joined, keep _ rfl⟩
  | full event => exact ⟨h.closed, h.stop, h.joined, keep _ rfl⟩
  | giveUp => exact ⟨h.closed, h.stop, h.joined, keep _ rfl⟩
  | unlock event => exact ⟨h.closed, h.stop, h.joined, keep _ rfl⟩
  | count enqueued =>
    rw [State.observeKafkaEnqueue_eq]
    exact ⟨h.closed, h.stop, h.joined, keep _ rfl⟩
  | admitted event open_ =>
    refine ⟨h.closed, h.stop, h.joined, fun hx => ?_⟩
    have := (h.exited hx).1
    rw [open_] at this
    cases this
  | push event room =>
    refine ⟨h.closed, h.stop, h.joined, fun hx => ?_⟩
    exact absurd ⟨call, hcall, by rw [ofPc, hpc]; rfl⟩ ((h.exited hx).2.2 t)

theorem isAdmitted_holds {pc : CallPc} (h : pc.isAdmitted = some ()) : pc.holds = some () := by
  cases pc with
  | admitted event => rfl
  | _ => cases h

theorem Closed.worker_step {cfg : Config} {s s' : State} (h : Closed s) (hl : Locked s)
    (hm : WorkerMove cfg s s.worker s') : Closed s' := by
  have hj := h.joined
  have hw := hl.worker
  generalize hpc : s.worker = pc at hm hj hw
  cases hm with
  | exit haveItem stop empty =>
    have hno : ∀ t, ¬ At (ofPc CallPc.isAdmitted) s.calls t () := by
      rintro t ⟨call, hcall, ha⟩
      have hown := (hl.call t).mpr ⟨call, hcall, isAdmitted_holds ha⟩
      rw [hw.mpr rfl] at hown
      cases hown
    exact ⟨h.closed, h.stop, fun _ => rfl, fun _ => ⟨h.stop stop, empty, hno⟩⟩
  | lock free => exact ⟨h.closed, h.stop, fun hh => absurd (hj hh) nofun, nofun⟩
  | relock free => exact ⟨h.closed, h.stop, fun hh => absurd (hj hh) nofun, nofun⟩
  | wake haveItem => exact ⟨h.closed, h.stop, fun hh => absurd (hj hh) nofun, nofun⟩
  | sleep => exact ⟨h.closed, h.stop, fun hh => absurd (hj hh) nofun, nofun⟩
  | check haveItem => exact ⟨h.closed, h.stop, fun hh => absurd (hj hh) nofun, nofun⟩
  | take t event queue front => exact ⟨h.closed, h.stop, fun hh => absurd (hj hh) nofun, nofun⟩
  | again haveItem => exact ⟨h.closed, h.stop, fun hh => absurd (hj hh) nofun, nofun⟩
  | produce t event ok =>
    rw [State.observeKafkaProduceAccepted_eq]
    exact ⟨h.closed, h.stop, fun hh => absurd (hj hh) nofun, nofun⟩
  | raise t event => exact ⟨h.closed, h.stop, fun hh => absurd (hj hh) nofun, nofun⟩

theorem Closed.shutdown_step {s s' : State} (h : Closed s)
    (hm : ShutdownMove s s.shutdown s') : Closed s' := by
  have hc := h.closed
  have hj := h.joined
  generalize hpc : s.shutdown = pc at hm hc hj
  cases hm with
  | close =>
    exact ⟨fun _ => rfl, fun _ => rfl, nofun, fun hx => ⟨rfl, (h.exited hx).2⟩⟩
  | stop => exact ⟨fun _ => hc nofun, fun _ => hc nofun, nofun, h.exited⟩
  | join exited => exact ⟨fun _ => hc nofun, h.stop, fun _ => exited, h.exited⟩
  | lock free => exact ⟨fun _ => hc nofun, h.stop, fun _ => hj rfl, h.exited⟩
  | clear =>
    refine ⟨fun _ => hc nofun, h.stop, fun _ => hj rfl, fun hx => ?_⟩
    exact ⟨(h.exited hx).1, rfl, (h.exited hx).2.2⟩
  | unlock => exact ⟨fun _ => hc nofun, h.stop, fun _ => hj rfl, h.exited⟩

theorem Closed.step {cfg : Config} {s s' : State} {l : Label} (h : Closed s) (hl : Locked s)
    (hs : Analytics.step cfg s l = some s') : Closed s' := by
  rcases step_cases hs with ⟨req, code, rfl⟩ | ⟨t, call, s₁, pc', hcall, hm, rfl⟩ | hm | hm
  · exact h.publish req code
  · exact h.call_step hcall hm
  · exact h.worker_step hl hm
  · exact h.shutdown_step hm

/-! ## The events -/

/-- Where the events are. -/
structure Kept (cfg : Config) (s : State) : Prop where
  bound : s.queue.length ≤ cfg.maxQueue
  fifo : s.pushed = s.popped ++ s.queue
  none_dropped : s.dropped = []
  pushed_iff : ∀ t event, (t, event) ∈ s.pushed ↔ At (ofPc CallPc.enqueued) s.calls t event
  nodup : (s.pushed.map Prod.fst).Nodup
  /-- Every event is the copy its call has made. -/
  copied : ∀ (t : Nat) (call : Call) (event : ClickEvent), s.calls[t]? = some call →
    call.pc.event = some event → ∃ now, event = clickEvent call.req call.code now
  in_hand : ∀ t event, s.worker = .handling t event → (t, event) ∈ s.popped

theorem Kept.init (cfg : Config) : Kept cfg {} := by
  refine ⟨Nat.zero_le _, rfl, rfl, fun t event => ?_, List.nodup_nil, ?_, nofun⟩
  · simp [At]
  · intro t call event h
    cases h

theorem Kept.publish {cfg : Config} {s : State} (h : Kept cfg s) (req : Http.HttpRequest)
    (code : Bytes) : Kept cfg { s with calls := s.calls ++ [⟨req, code, .entered⟩] } := by
  refine ⟨h.bound, h.fifo, h.none_dropped, fun t event => ?_, h.nodup, ?_, h.in_hand⟩
  · exact (h.pushed_iff t event).trans (at_append_of_none rfl).symm
  · intro t call event hcall hev
    rcases Nat.lt_trichotomy t s.calls.length with hlt | rfl | hgt
    · exact h.copied t call event (by rwa [List.getElem?_append_left hlt] at hcall) hev
    · rw [List.getElem?_concat_length] at hcall
      cases hcall
      cases hev
    · rw [List.getElem?_eq_none (by simp; omega)] at hcall
      cases hcall

theorem Kept.call_step {cfg : Config} {s s₁ : State} {t : Nat} {call : Call} {pc' : CallPc}
    (h : Kept cfg s) (hcall : s.calls[t]? = some call) (hm : CallMove cfg s t call call.pc s₁ pc') :
    Kept cfg { s₁ with calls := s.calls.set t { call with pc := pc' } } := by
  have keep : ∀ q : CallPc, q.enqueued = call.pc.enqueued → ∀ u event, (u, event) ∈ s.pushed ↔
      At (ofPc CallPc.enqueued) (s.calls.set t { call with pc := q }) u event := fun q hq u event =>
    (h.pushed_iff u event).trans (at_set_of_eq hcall hq).symm
  have copied : ∀ q : CallPc, (∀ event, q.event = some event →
      ∃ now, event = clickEvent call.req call.code now) →
      ∀ (u : Nat) (call' : Call) (event : ClickEvent),
        (s.calls.set t { call with pc := q })[u]? = some call' → call'.pc.event = some event →
        ∃ now, event = clickEvent call'.req call'.code now := by
    intro q hq u call' event hu hev
    by_cases hut : u = t
    · subst hut
      rw [getElem?_set_self hcall] at hu
      cases hu
      exact hq event hev
    · rw [getElem?_set_ne hut] at hu
      exact h.copied u call' event hu hev
  have mine := h.copied t call
  generalize hpc : call.pc = pc at hm keep
  rw [hpc] at mine
  cases hm with
  | build now =>
    exact ⟨h.bound, h.fifo, h.none_dropped, keep _ rfl, h.nodup,
      copied _ fun event he => ⟨now, (Option.some.inj he).symm⟩, h.in_hand⟩
  | late => exact ⟨h.bound, h.fifo, h.none_dropped, keep _ rfl, h.nodup, copied _ nofun, h.in_hand⟩
  | lock event free =>
    exact ⟨h.bound, h.fifo, h.none_dropped, keep _ rfl, h.nodup, copied _ (mine · hcall),
      h.in_hand⟩
  | admitted event =>
    exact ⟨h.bound, h.fifo, h.none_dropped, keep _ rfl, h.nodup, copied _ (mine · hcall),
      h.in_hand⟩
  | refuse event =>
    exact ⟨h.bound, h.fifo, h.none_dropped, keep _ rfl, h.nodup, copied _ nofun, h.in_hand⟩
  | full event =>
    exact ⟨h.bound, h.fifo, h.none_dropped, keep _ rfl, h.nodup, copied _ nofun, h.in_hand⟩
  | giveUp =>
    exact ⟨h.bound, h.fifo, h.none_dropped, keep _ rfl, h.nodup, copied _ nofun, h.in_hand⟩
  | unlock event =>
    exact ⟨h.bound, h.fifo, h.none_dropped, keep _ rfl, h.nodup, copied _ (mine · hcall),
      h.in_hand⟩
  | count enqueued =>
    rw [State.observeKafkaEnqueue_eq]
    exact ⟨h.bound, h.fifo, h.none_dropped, keep _ rfl, h.nodup, copied _ (mine · hcall),
      h.in_hand⟩
  | push event room =>
    have hnone : ofPc CallPc.enqueued call = none := by rw [ofPc, hpc]; rfl
    have hnew : ∀ e, (t, e) ∉ s.pushed := by
      intro e he
      have := (at_here hcall).mp ((h.pushed_iff t e).mp he)
      rw [hnone] at this
      cases this
    refine ⟨?_, ?_, h.none_dropped, fun u e => ?_, ?_, copied _ (mine · hcall), h.in_hand⟩
    · show (s.queue ++ [(t, event)]).length ≤ _
      rw [List.length_append, List.length_singleton]
      omega
    · show s.pushed ++ _ = s.popped ++ (s.queue ++ _)
      rw [h.fifo, List.append_assoc]
    · show (u, e) ∈ s.pushed ++ [(t, event)] ↔ _
      rw [List.mem_append, List.mem_singleton, h.pushed_iff]
      by_cases hu : u = t
      · subst hu
        rw [at_here hcall, hnone, at_set_self hcall]
        simp [ofPc, CallPc.enqueued, eq_comm]
      · rw [at_set_ne hu]
        simp [hu]
    · show ((s.pushed ++ [(t, event)]).map Prod.fst).Nodup
      rw [List.map_append, List.map_singleton]
      refine List.Nodup.append h.nodup (List.nodup_singleton _) ?_
      intro u hu hu'
      obtain rfl := List.mem_singleton.mp hu'
      obtain ⟨⟨u, e⟩, hmem, rfl⟩ := List.mem_map.mp hu
      exact hnew e hmem

theorem Kept.worker_step {cfg : Config} {s s' : State} (h : Kept cfg s)
    (hm : WorkerMove cfg s s.worker s') : Kept cfg s' := by
  -- a step that leaves the queue alone and takes nothing in hand
  have keep : ∀ (mutex : Option Owner) (q : WorkerPc), (∀ t event, q ≠ .handling t event) →
      Kept cfg { s with mutex := mutex, worker := q } := fun mutex q hq =>
    ⟨h.bound, h.fifo, h.none_dropped, h.pushed_iff, h.nodup, h.copied,
      fun t event heq => absurd heq (hq t event)⟩
  generalize hpc : s.worker = pc at hm
  cases hm with
  | lock free => exact keep _ _ nofun
  | relock free => exact keep _ _ nofun
  | wake haveItem => exact keep _ _ nofun
  | sleep => exact keep _ _ nofun
  | exit haveItem stop empty => exact keep _ _ nofun
  | check haveItem => exact keep _ _ nofun
  | again haveItem => exact keep _ _ nofun
  | raise t event => exact keep _ _ nofun
  | produce t event ok =>
    rw [State.observeKafkaProduceAccepted_eq]
    have := keep s.mutex .loop nofun
    exact ⟨this.bound, this.fifo, this.none_dropped, this.pushed_iff, this.nodup, this.copied,
      this.in_hand⟩
  | take t event queue front =>
    have hlen := h.bound
    have hfifo := h.fifo
    rw [front] at hlen hfifo
    refine ⟨?_, ?_, h.none_dropped, h.pushed_iff, h.nodup, h.copied, ?_⟩
    · exact (Nat.le_succ _).trans hlen
    · show s.pushed = s.popped ++ [(t, event)] ++ queue
      rw [hfifo, List.append_assoc, List.singleton_append]
    · intro u e hhand
      cases hhand
      exact List.mem_append_right _ (List.mem_singleton_self _)

theorem Kept.shutdown_step {cfg : Config} {s s' : State} (h : Kept cfg s) (hc : Closed s)
    (hm : ShutdownMove s s.shutdown s') : Kept cfg s' := by
  have hj := hc.joined
  generalize hpc : s.shutdown = pc at hm hj
  cases hm with
  | close => exact ⟨h.bound, h.fifo, h.none_dropped, h.pushed_iff, h.nodup, h.copied, h.in_hand⟩
  | stop => exact ⟨h.bound, h.fifo, h.none_dropped, h.pushed_iff, h.nodup, h.copied, h.in_hand⟩
  | join exited =>
    exact ⟨h.bound, h.fifo, h.none_dropped, h.pushed_iff, h.nodup, h.copied, h.in_hand⟩
  | lock free => exact ⟨h.bound, h.fifo, h.none_dropped, h.pushed_iff, h.nodup, h.copied, h.in_hand⟩
  | unlock => exact ⟨h.bound, h.fifo, h.none_dropped, h.pushed_iff, h.nodup, h.copied, h.in_hand⟩
  | clear =>
    -- the worker has left the queue empty
    have hempty : s.queue = [] := (hc.exited (hj rfl)).2.1
    have hfifo := h.fifo
    rw [hempty] at hfifo
    refine ⟨Nat.zero_le _, hfifo, ?_, h.pushed_iff, h.nodup, h.copied, h.in_hand⟩
    show s.dropped ++ s.queue = []
    rw [h.none_dropped, hempty]
    rfl

theorem Kept.step {cfg : Config} {s s' : State} {l : Label} (h : Kept cfg s) (hc : Closed s)
    (hs : Analytics.step cfg s l = some s') : Kept cfg s' := by
  rcases step_cases hs with ⟨req, code, rfl⟩ | ⟨t, call, s₁, pc', hcall, hm, rfl⟩ | hm | hm
  · exact h.publish req code
  · exact h.call_step hcall hm
  · exact h.worker_step hm
  · exact h.shutdown_step hc hm

/-! ## The counters -/

/-- The call's event is in the queue or has been. -/
def CallPc.isEnqueued (pc : CallPc) : Option Unit := pc.enqueued.map fun _ => ()

/-- Each counter says how often its event has happened. -/
structure Counted (s : State) : Prop where
  accepted : s.enqueueAccepted = count (ofPc CallPc.result) s.calls true
  rejected : s.enqueueDropped = count (ofPc CallPc.result) s.calls false + s.dropped.length
  entered : count (ofPc CallPc.isEnqueued) s.calls () = s.pushed.length
  produced : s.produceAccepted + s.produceFailed + s.worker.inHand = s.popped.length

theorem clearCount_eq (queue : List (Nat × ClickEvent)) : clearCount queue = queue.length := by
  cases queue with
  | nil => rfl
  | cons e queue =>
    show 1 + ((e :: queue).length - 1) = _
    rw [List.length_cons]
    omega

theorem Counted.init : Counted {} := ⟨rfl, rfl, rfl, rfl⟩

theorem Counted.publish {s : State} (h : Counted s) (req : Http.HttpRequest) (code : Bytes) :
    Counted { s with calls := s.calls ++ [⟨req, code, .entered⟩] } := by
  refine ⟨?_, ?_, ?_, h.produced⟩
  · exact h.accepted.trans (count_append_of_none rfl).symm
  · exact h.rejected.trans (congrArg (· + s.dropped.length) (count_append_of_none rfl).symm)
  · exact (count_append_of_none rfl).trans h.entered

theorem Counted.call_step {cfg : Config} {s s₁ : State} {t : Nat} {call : Call} {pc' : CallPc}
    (h : Counted s) (hcall : s.calls[t]? = some call) (hm : CallMove cfg s t call call.pc s₁ pc') :
    Counted { s₁ with calls := s.calls.set t { call with pc := pc' } } := by
  -- a step that neither returns nor enqueues
  have keep : ∀ (mutex : Option Owner) (q : CallPc), q.result = call.pc.result →
      q.isEnqueued = call.pc.isEnqueued →
      Counted { s with mutex := mutex, calls := s.calls.set t { call with pc := q } } := by
    intro mutex q hr he
    have hres : ofPc CallPc.result { call with pc := q } = ofPc CallPc.result call := hr
    have henq : ofPc CallPc.isEnqueued { call with pc := q } = ofPc CallPc.isEnqueued call := he
    refine ⟨?_, ?_, ?_, h.produced⟩
    · exact h.accepted.trans (count_set_of_eq hcall hres).symm
    · exact h.rejected.trans (congrArg (· + s.dropped.length) (count_set_of_eq hcall hres).symm)
    · exact (count_set_of_eq hcall henq).trans h.entered
  generalize hpc : call.pc = pc at hm keep
  cases hm with
  | build now => exact keep s.mutex _ rfl rfl
  | late => exact keep s.mutex _ rfl rfl
  | lock event free => exact keep _ _ rfl rfl
  | admitted event => exact keep s.mutex _ rfl rfl
  | refuse event => exact keep s.mutex _ rfl rfl
  | full event => exact keep s.mutex _ rfl rfl
  | giveUp => exact keep _ _ rfl rfl
  | unlock event => exact keep _ _ rfl rfl
  | push event room =>
    have hres : ofPc CallPc.result { call with pc := .stored event } = ofPc CallPc.result call := by
      rw [ofPc, ofPc, hpc]
      rfl
    have hcount := count_set (f := ofPc CallPc.isEnqueued) (x := ())
      (q := { call with pc := .stored event }) hcall
    have hstored : ofPc CallPc.isEnqueued { call with pc := .stored event } = some () := rfl
    rw [if_neg (by rw [ofPc, hpc]; nofun), if_pos hstored] at hcount
    refine ⟨?_, ?_, ?_, h.produced⟩
    · exact h.accepted.trans (count_set_of_eq hcall hres).symm
    · exact h.rejected.trans (congrArg (· + s.dropped.length) (count_set_of_eq hcall hres).symm)
    · show _ = (s.pushed ++ [(t, event)]).length
      rw [List.length_append, List.length_singleton, ← h.entered]
      exact hcount
  | count enqueued =>
    rw [State.observeKafkaEnqueue_eq]
    have henq : ofPc CallPc.isEnqueued { call with pc := .returned enqueued } =
        ofPc CallPc.isEnqueued call := by
      rw [ofPc, ofPc, hpc]
      rfl
    have hcount : ∀ b : Bool, count (ofPc CallPc.result)
        (s.calls.set t { call with pc := .returned enqueued }) b =
        count (ofPc CallPc.result) s.calls b + (enqueued.isSome == b).toNat := by
      intro b
      have hset := count_set (f := ofPc CallPc.result) (x := b)
        (q := { call with pc := .returned enqueued }) hcall
      rw [if_neg (by rw [ofPc, hpc]; nofun)] at hset
      rw [Nat.add_zero] at hset
      rw [hset]
      cases enqueued <;> cases b <;> rfl
    refine ⟨?_, ?_, (count_set_of_eq hcall henq).trans h.entered, h.produced⟩
    · show s.enqueueAccepted + _ = _
      rw [hcount true, h.accepted]
      cases enqueued <;> rfl
    · show s.enqueueDropped + _ = _ + s.dropped.length
      rw [hcount false, h.rejected]
      cases enqueued <;> simp [Nat.add_right_comm]

theorem Counted.worker_step {cfg : Config} {s s' : State} (h : Counted s)
    (hm : WorkerMove cfg s s.worker s') : Counted s' := by
  have hp := h.produced
  generalize hpc : s.worker = pc at hm hp
  cases hm with
  | lock free => exact ⟨h.accepted, h.rejected, h.entered, hp⟩
  | relock free => exact ⟨h.accepted, h.rejected, h.entered, hp⟩
  | wake haveItem => exact ⟨h.accepted, h.rejected, h.entered, hp⟩
  | sleep => exact ⟨h.accepted, h.rejected, h.entered, hp⟩
  | exit haveItem stop empty => exact ⟨h.accepted, h.rejected, h.entered, hp⟩
  | check haveItem => exact ⟨h.accepted, h.rejected, h.entered, hp⟩
  | again haveItem => exact ⟨h.accepted, h.rejected, h.entered, hp⟩
  | raise t event => exact ⟨h.accepted, h.rejected, h.entered, hp⟩
  | take t event queue front =>
    refine ⟨h.accepted, h.rejected, h.entered, ?_⟩
    show s.produceAccepted + s.produceFailed + 1 = (s.popped ++ [(t, event)]).length
    rw [List.length_append, List.length_singleton]
    exact congrArg (· + 1) hp
  | produce t event ok =>
    rw [State.observeKafkaProduceAccepted_eq]
    refine ⟨h.accepted, h.rejected, h.entered, ?_⟩
    show s.produceAccepted + _ + (s.produceFailed + _) + 0 = s.popped.length
    rw [← hp]
    cases ok <;> simp [WorkerPc.inHand] <;> omega

theorem Counted.shutdown_step {s s' : State} (h : Counted s)
    (hm : ShutdownMove s s.shutdown s') : Counted s' := by
  generalize s.shutdown = pc at hm
  cases hm with
  | close => exact ⟨h.accepted, h.rejected, h.entered, h.produced⟩
  | stop => exact ⟨h.accepted, h.rejected, h.entered, h.produced⟩
  | join exited => exact ⟨h.accepted, h.rejected, h.entered, h.produced⟩
  | lock free => exact ⟨h.accepted, h.rejected, h.entered, h.produced⟩
  | unlock => exact ⟨h.accepted, h.rejected, h.entered, h.produced⟩
  | clear =>
    refine ⟨h.accepted, ?_, h.entered, h.produced⟩
    show s.enqueueDropped + clearCount s.queue = _ + (s.dropped ++ s.queue).length
    rw [clearCount_eq, List.length_append, h.rejected, Nat.add_assoc]

theorem Counted.step {cfg : Config} {s s' : State} {l : Label} (h : Counted s)
    (hs : Analytics.step cfg s l = some s') : Counted s' := by
  rcases step_cases hs with ⟨req, code, rfl⟩ | ⟨t, call, s₁, pc', hcall, hm, rfl⟩ | hm | hm
  · exact h.publish req code
  · exact h.call_step hcall hm
  · exact h.worker_step hm
  · exact h.shutdown_step hm

/-! ## Whole runs -/

/-- All that is kept, together. -/
structure Inv (cfg : Config) (s : State) : Prop where
  locked : Locked s
  closed : Closed s
  kept : Kept cfg s
  counted : Counted s

theorem Inv.init (cfg : Config) : Inv cfg {} := ⟨Locked.init, Closed.init, Kept.init cfg, Counted.init⟩

theorem Inv.step {cfg : Config} {s s' : State} {l : Label} (h : Inv cfg s)
    (hs : Analytics.step cfg s l = some s') : Inv cfg s' :=
  ⟨h.locked.step hs, h.closed.step h.locked hs, h.kept.step h.closed hs, h.counted.step hs⟩

theorem Inv.of_run {cfg : Config} {s : State} {ls : List Label}
    (hr : Machine.run (Analytics.step cfg) {} ls = some s) : Inv cfg s :=
  Machine.run_preserves _ (fun _ _ _ h hs => h.step hs) (Inv.init cfg) hr

/-- The call has returned. -/
def Call.Returned (call : Call) : Prop := ∃ enqueued, call.pc = .returned enqueued

/-- Every click is somewhere, and counted where it is. -/
structure Conserved (cfg : Config) (s : State) : Prop where
  bound : s.queue.length ≤ cfg.maxQueue
  /-- A call that has returned has its event in the queue's history or has been refused. -/
  returned : ∀ (t : Nat) (call : Call) (enqueued : Option ClickEvent),
    s.calls[t]? = some call → call.pc = .returned enqueued →
    ∀ event, (t, event) ∈ s.pushed ↔ enqueued = some event
  accepted : s.enqueueAccepted = count (ofPc CallPc.result) s.calls true
  rejected : s.enqueueDropped = count (ofPc CallPc.result) s.calls false + s.dropped.length
  /-- Every event is taken in the order of the queue. -/
  fifo : s.pushed = s.popped ++ s.dropped ++ s.queue
  /-- No call has two events. -/
  once : (s.pushed.map Prod.fst).Nodup
  /-- Each event taken is counted once, but for the one that the worker is busy with. -/
  produced : s.produceAccepted + s.produceFailed +
    s.worker.busy = s.popped.length
  /-- After the shutdown nothing is left over. -/
  settled : s.shutdown = .finished → (∀ call ∈ s.calls, call.Returned) →
    s.queue = [] ∧ s.pushed = s.popped ++ s.dropped ∧ s.enqueueAccepted = s.pushed.length ∧
    s.enqueueAccepted + s.enqueueDropped = s.calls.length + s.dropped.length ∧
    s.produceAccepted + s.produceFailed = s.popped.length

theorem inHand_eq_busy {pc : WorkerPc} (h : pc ≠ .raised) : pc.inHand = pc.busy := by
  cases pc with
  | raised => exact absurd rfl h
  | _ => rfl

/-- When all calls have returned, each has been counted once. -/
theorem count_returned {calls : List Call} (h : ∀ call ∈ calls, call.Returned) :
    count (ofPc CallPc.result) calls true = count (ofPc CallPc.isEnqueued) calls () ∧
    count (ofPc CallPc.result) calls true + count (ofPc CallPc.result) calls false =
      calls.length := by
  induction calls with
  | nil => exact ⟨rfl, rfl⟩
  | cons call calls ih =>
    obtain ⟨enqueued, hpc⟩ := h call (List.mem_cons_self ..)
    obtain ⟨ih1, ih2⟩ := ih fun c hc => h c (List.mem_cons_of_mem _ hc)
    have hresult : ofPc CallPc.result call = some enqueued.isSome := by rw [ofPc, hpc]; rfl
    have henqueued : ofPc CallPc.isEnqueued call = enqueued.map fun _ => () := by rw [ofPc, hpc]; rfl
    simp only [count_cons, hresult, henqueued, List.length_cons, ← ih1, ← ih2]
    cases enqueued with
    | none => exact ⟨rfl, rfl⟩
    | some event => exact ⟨rfl, Nat.add_right_comm ..⟩

/-- **No click is lost.** In every run of calls, worker and shutdown in which no exception leaves
the worker, every event is in the queue, taken in order and counted, or counted as dropped. -/
theorem clicks_conserved {cfg : Config} {ls : List Label} {s : State}
    (hr : Machine.run (Analytics.step cfg) {} ls = some s) (hw : s.worker ≠ .raised) :
    Conserved cfg s := by
  obtain ⟨-, hclosed, hkept, hcounted⟩ := Inv.of_run hr
  have hfifo : s.pushed = s.popped ++ s.dropped ++ s.queue := by
    rw [hkept.none_dropped, List.append_nil]
    exact hkept.fifo
  have hproduced : s.produceAccepted + s.produceFailed + s.worker.busy = s.popped.length := by
    rw [← inHand_eq_busy hw]
    exact hcounted.produced
  refine ⟨hkept.bound, ?_, hcounted.accepted, hcounted.rejected, hfifo, hkept.nodup, hproduced, ?_⟩
  · intro t call enqueued hcall hpc event
    rw [hkept.pushed_iff, at_here hcall, ofPc, hpc]
    rfl
  · intro hfin hall
    obtain ⟨hres, hlen⟩ := count_returned hall
    have hexit : s.worker = .exited := hclosed.joined (by rw [hfin]; rfl)
    have hempty : s.queue = [] := (hclosed.exited hexit).2.1
    refine ⟨hempty, ?_, ?_, ?_, ?_⟩
    · rw [hfifo, hempty, List.append_nil]
    · rw [hcounted.accepted, hres, hcounted.entered]
    · rw [hcounted.accepted, hcounted.rejected, ← Nat.add_assoc, hlen]
    · rw [hexit] at hproduced
      exact hproduced

/-- Two calls with room for one event; the first is pushed while the shutdown runs, the second
comes too late. -/
def lateClicks : List Label :=
  [.publish {} (ascii "abc"), .publish {} (ascii "abd"), .call 0 7, .call 1 8, .call 0 7, .call 0 7,
    .shutdown, .call 0 7, .call 0 7, .call 1 8, .call 1 8, .call 1 8, .shutdown, .call 0 7, .call 1 8,
    .worker {}, .worker {}, .worker {}, .worker {}, .worker {}, .worker {}, .worker {}, .worker {},
    .shutdown, .shutdown, .shutdown, .shutdown]

theorem clicks_conserved_lateClicks : ∃ s,
    Machine.run (Analytics.step { maxQueue := 1 }) {} lateClicks = some s ∧
    s.worker ≠ .raised ∧ s.shutdown = .finished ∧ s.enqueueAccepted = 1 ∧ s.enqueueDropped = 1 ∧
    s.produceAccepted = 1 ∧ Conserved { maxQueue := 1 } s := by
  have hrun : (Machine.run (Analytics.step { maxQueue := 1 }) {} lateClicks).map (fun s =>
      (s.worker, s.shutdown, s.enqueueAccepted, s.enqueueDropped, s.produceAccepted)) =
      some (.exited, .finished, 1, 1, 1) := by decide +kernel
  obtain ⟨s, hs, hfields⟩ := Option.map_eq_some_iff.mp hrun
  simp only [Prod.mk.injEq] at hfields
  obtain ⟨hw, hsd, ha, hd, hp⟩ := hfields
  have hne : s.worker ≠ .raised := by rw [hw]; nofun
  exact ⟨s, hs, hne, hsd, ha, hd, hp, clicks_conserved hs hne⟩

end Analytics
end UrlShortener
