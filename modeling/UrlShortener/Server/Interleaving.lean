import UrlShortener.Base.Threads
import UrlShortener.Server.Session

/-!
# UrlShortener.Server.Interleaving

One connection slot under any interleaving of the event loop with the workers. The event loop
accepts on the slot (`init`), handles what epoll delivers (`dealwithread`, `dealwithwrite`) and
closes it (`cb_func`, for a hangup, a timeout or a failed call). A task is a generation in the
queue of the thread pool; a worker that has taken it goes through `threadpool::run` and
`http_conn::process` one check and one effect at a time.

Epoll is one-shot: an event is delivered only while the socket is armed, and disarms it.

`m_generation` is a `uint64_t`. `HttpConn.generation` counts how often it was bumped, and
`generationMatches` compares what 64 bits keep of that count. `Slot.State.effects` records what
workers did to the slot: for which generation, and at which.

`dispatch` works on `m_request`, of which it sets the matched route and its parameters; the parser
never reads them, so they are not among the effects.
-/

namespace UrlShortener
namespace Http

namespace HttpConn

/-- `generation_matches`. -/
def generationMatches (c : HttpConn) (expected : Nat) : Bool :=
  decide (c.generation % 2 ^ 64 = expected % 2 ^ 64)

end HttpConn

namespace Slot

/-- Where a worker stands; `g` is the generation its task was queued with. -/
inductive Pc where
  /-- In `run`, before its check. -/
  | taken (g : Nat)
  /-- In `process`, before the entry check. -/
  | passed (g : Nat)
  /-- Before `process_read`. -/
  | entered (g : Nat)
  /-- Before the response is built. -/
  | parsed (g : Nat) (code : HttpCode)
  /-- Before the check behind `dispatch`. -/
  | answered (g : Nat) (resp : HttpResponse)
  /-- Before `process_write`. -/
  | replying (g : Nat) (resp : HttpResponse)
  /-- `process_write` was false; before the check of generation and socket. -/
  | failed (g : Nat)
  /-- Before `m_pending_close = true`. -/
  | closing (g : Nat)
  /-- In `arm_epoll_if_current`, before its check. -/
  | arm (g : Nat) (ev : Interest)
  /-- Before `modfd`. -/
  | arming (g : Nat) (ev : Interest)
  | returned
  /-- An exception left `process`. -/
  | raised
deriving DecidableEq

/-- What a worker does to the slot. -/
inductive Call where
  | processRead
  /-- `m_linger = false`. -/
  | lingerOff
  | processWrite
  /-- `m_pending_close = true`. -/
  | pendingClose
  | modfd
deriving DecidableEq

structure Effect where
  call : Call
  /-- The generation of the task. -/
  task : Nat
  /-- The generation of the slot. -/
  slot : Nat
deriving DecidableEq

/-- The event loop waits for events, or has found a reason to close and is about to. -/
inductive Loop where
  | waiting
  | closing
deriving DecidableEq

structure State (σ : Type) where
  store : σ
  conn : HttpConn := {}
  loop : Loop := .waiting
  armed : Option Interest := none
  queue : List Nat := []
  workers : List Pc := []
  effects : List Effect := []

inductive Label where
  /-- `accept` and `init(connfd, ..)`. -/
  | init (connfd trigMode : Nat)
  /-- `cb_func`. -/
  | invalidate
  | readable (rs : List RecvResult) (a : Appended)
  | writable (ws : List WritevResult) (a : Appended)
  /-- A worker takes the task at the front of the queue. -/
  | take
  /-- Worker `t` goes on. -/
  | work (t : Nat)

namespace State

section Steps

variable {σ : Type} (dispatch : σ → HttpRequest → σ × Dispatched)

def go (s : State σ) (t : Nat) (p : Pc) : State σ := { s with workers := s.workers.set t p }

/-- A worker does `call` to the slot, for generation `g`. -/
def touch (s : State σ) (call : Call) (g : Nat) (c : HttpConn) : State σ :=
  { s with conn := c, effects := s.effects ++ [⟨call, g, s.conn.generation⟩] }

/-- What follows `append_p`. -/
def append (s : State σ) : Appended → State σ
  | .accepted => { s with queue := s.queue ++ [s.conn.generation] }
  | .refused _ => { s with loop := .closing }

def dealwithread (s : State σ) (rs : List RecvResult) (a : Appended) : State σ :=
  match s.conn.readOnce rs with
  | (c, true) => append { s with conn := c } a
  | (c, false) => { s with conn := c, loop := .closing }

/-- `none`: `write` has not returned. -/
def dealwithwrite (s : State σ) (ws : List WritevResult) (a : Appended) : Option (State σ) :=
  match s.conn.write ws with
  | (_, _, .looping) => none
  | (c, _, .returned ok armed) =>
    let s := { s with conn := c, armed := armed }
    some (if ok then if c.hasPipelinedInput then append s a else s else { s with loop := .closing })

/-- The check of `arm_epoll_if_current`, which also stands in the error path of `process`. -/
def current (s : State σ) (g : Nat) : Bool :=
  s.conn.generationMatches g && decide (0 ≤ s.conn.sockfd)

def advance (s : State σ) (t : Nat) : Pc → Option (State σ)
  | .taken g => some (s.go t (if s.conn.generationMatches g then .passed g else .returned))
  | .passed g => some (s.go t (if s.conn.generationMatches g then .entered g else .returned))
  | .entered g =>
    let (c, code) := s.conn.processRead
    some ((s.touch .processRead g c).go t
      (if code = .noRequest then .arm g .epollin else .parsed g code))
  | .parsed g code =>
    match HttpConn.answer dispatch s.store s.conn code with
    | none => some (s.go t .raised)
    | some (st, resp, _) =>
      let s := { s with store := st }
      let s := if code = .requestEntityTooLarge then s.touch .lingerOff g (s.conn.settled code) else s
      some (s.go t (.answered g (s.conn.withConnection resp)))
  | .answered g resp =>
    some (s.go t (if s.conn.generationMatches g then .replying g resp else .returned))
  | .replying g resp =>
    let (c, ok) := s.conn.processWrite resp
    some ((s.touch .processWrite g c).go t (if ok then .arm g .epollout else .failed g))
  | .failed g => some (s.go t (if s.current g then .closing g else .returned))
  | .closing g =>
    some ((s.touch .pendingClose g { s.conn with pendingClose := true }).go t (.arm g .epollout))
  | .arm g ev => some (s.go t (if s.current g then .arming g ev else .returned))
  -- `modfd` on the descriptor -1 of a closed slot does nothing
  | .arming g ev =>
    let s := { s with armed := if 0 ≤ s.conn.sockfd then some ev else s.armed }
    some ((s.touch .modfd g s.conn).go t .returned)
  | .returned => none
  | .raised => none

def step (s : State σ) : Label → Option (State σ)
  | .init connfd trigMode =>
    if s.loop = .waiting ∧ s.conn.sockfd < 0 then
      some { s with conn := s.conn.initSocket connfd trigMode, armed := some .epollin }
    else none
  | .invalidate =>
    if 0 ≤ s.conn.sockfd then
      some { s with conn := s.conn.invalidate, armed := none, loop := .waiting }
    else none
  | .readable rs a =>
    if s.loop = .waiting ∧ s.armed = some .epollin then
      some (dealwithread { s with armed := none } rs a)
    else none
  | .writable ws a =>
    if s.loop = .waiting ∧ s.armed = some .epollout then
      dealwithwrite { s with armed := none } ws a
    else none
  | .take =>
    match s.queue with
    | [] => none
    | g :: queue => some { s with queue, workers := s.workers ++ [.taken g] }
  | .work t => do s.advance dispatch t (← s.workers[t]?)

end Steps

end State

/-! ## What a step can do -/

end Slot

namespace HttpConn

/-- What makes a connection this connection. -/
def identity (c : HttpConn) : Nat × Int := (c.generation, c.sockfd)

theorem readOnceEt_identity (rs : List RecvResult) (gotData : Bool) (c : HttpConn) :
    (readOnceEt rs gotData c).1.identity = c.identity := by
  induction rs generalizing gotData c with
  | nil => rfl
  | cons r rs ih =>
    unfold readOnceEt
    split
    · rfl
    · cases r with
      | eagain => rfl
      | error => rfl
      | eof => rfl
      | data d =>
        by_cases hd : d = []
        · simp only [if_pos hd]
        · simp only [if_neg hd]
          exact ih true _

theorem readOnce_identity (c : HttpConn) (rs : List RecvResult) :
    (c.readOnce rs).1.identity = c.identity := by
  unfold readOnce
  split
  · rfl
  · split
    · cases rs with
      | nil => rfl
      | cons r rs =>
        cases r with
        | data d =>
          by_cases hd : d = []
          · simp only [if_pos hd]
          · simp only [if_neg hd]
            rfl
        | _ => rfl
    · exact readOnceEt_identity rs false c

theorem retainPipelinedBytes_identity (c : HttpConn) :
    c.retainPipelinedBytes.identity = c.identity := by
  simp only [retainPipelinedBytes]
  split <;> rfl

theorem writeLoop_identity (ws : List WritevResult) (c : HttpConn) (out : Bytes) :
    (writeLoop ws c out).1.identity = c.identity := by
  induction ws generalizing c out with
  | nil => rfl
  | cons w ws ih =>
    cases w with
    | eintr => exact ih c out
    | eagain => rfl
    | error => rfl
    | sent k =>
      simp only [writeLoop]
      split
      · split
        · exact retainPipelinedBytes_identity _
        · rfl
      · exact ih _ _

theorem write_identity (c : HttpConn) (ws : List WritevResult) :
    (c.write ws).1.identity = c.identity := by
  unfold write
  split
  · rfl
  · split
    · exact retainPipelinedBytes_identity c
    · exact writeLoop_identity ws c []

theorem processRead_identity (c : HttpConn) : c.processRead.1.identity = c.identity := by
  obtain ⟨p, buf, i, k, h, -⟩ := processReadLoop_frame (2 * (c.readIdx - c.checkedIdx) + 2) c .lineOk
  rw [processRead, h]
  rfl

theorem settled_identity (c : HttpConn) (code : HttpCode) :
    (c.settled code).identity = c.identity := by
  unfold settled
  split <;> rfl

theorem processWrite_identity (c : HttpConn) (resp : HttpResponse) :
    (c.processWrite resp).1.identity = c.identity := by
  simp only [processWrite]
  split <;> rfl

end HttpConn

namespace Slot

open HttpConn

/-- The task a worker is at. -/
def Pc.task : Pc → Option Nat
  | .taken g => some g
  | .passed g => some g
  | .entered g => some g
  | .parsed g _ => some g
  | .answered g _ => some g
  | .replying g _ => some g
  | .failed g => some g
  | .closing g => some g
  | .arm g _ => some g
  | .arming g _ => some g
  | .returned => none
  | .raised => none

/-- The worker stands between a check and what the check was for. -/
def Pc.window : Pc → Option Nat
  | .entered g => some g
  | .parsed g .requestEntityTooLarge => some g
  | .replying g _ => some g
  | .closing g => some g
  | .arming g _ => some g
  | _ => none

namespace State

variable {σ : Type} {dispatch : σ → HttpRequest → σ × Dispatched} {s s' : State σ} {t g : Nat}
  {p q : Pc}

/-- A step of worker `t`, from `p` to `q`. -/
structure Advanced (s : State σ) (t : Nat) (p q : Pc) (s' : State σ) : Prop where
  workers : s'.workers = s.workers.set t q
  queue : s'.queue = s.queue
  loop : s'.loop = s.loop
  identity : s'.conn.identity = s.conn.identity
  task : p.task ≠ none ∧ (q.task = p.task ∨ q.task = none)
  /-- A window is entered by a check, or left for the next one. -/
  window : ∀ g, q.window = some g →
    p.window = some g ∨ p.task = some g ∧ s.conn.generationMatches g = true
  effects : s'.effects = s.effects ∨
    ∃ call g, p.window = some g ∧ s'.effects = s.effects ++ [⟨call, g, s.conn.generation⟩]
  /-- Arming an open socket is the last thing a worker does. -/
  armed : s'.armed = s.armed ∨ q.task = none ∧ 0 ≤ s.conn.sockfd

/-- A step that only makes a check. -/
theorem Advanced.check (hp : p.task ≠ none) (hq : q.task = p.task ∨ q.task = none)
    (hw : ∀ g, q.window = some g → p.task = some g ∧ s.conn.generationMatches g = true) :
    Advanced s t p q (s.go t q) :=
  ⟨rfl, rfl, rfl, rfl, ⟨hp, hq⟩, fun g h => Or.inr (hw g h), Or.inl rfl, Or.inl rfl⟩

/-- A step that does something to the slot. -/
theorem Advanced.touch {call : Call} {c : HttpConn} (hc : c.identity = s.conn.identity)
    (hp : p.window = some g) (ht : p.task = some g) (hq : q.task = some g)
    (hw : ∀ g', q.window = some g' → g' = g) :
    Advanced s t p q ((s.touch call g c).go t q) :=
  ⟨rfl, rfl, rfl, hc, ⟨by simp [ht], Or.inl (hq.trans ht.symm)⟩,
    fun g' h => Or.inl (hw g' h ▸ hp), Or.inr ⟨call, g, hp, rfl⟩, Or.inl rfl⟩

theorem current_matches (h : s.current g = true) : s.conn.generationMatches g = true := by
  unfold current at h
  simp only [Bool.and_eq_true] at h
  exact h.1

theorem advance_spec (h : s.advance dispatch t p = some s') : ∃ q, Advanced s t p q s' := by
  cases p with
  | taken g =>
    cases h
    refine ⟨_, .check (by simp [Pc.task]) ?_ ?_⟩ <;> split <;> simp [Pc.task, Pc.window]
  | passed g =>
    cases h
    refine ⟨_, .check (by simp [Pc.task]) ?_ ?_⟩ <;> split <;> simp_all [Pc.task, Pc.window]
  | entered g =>
    have hid := processRead_identity s.conn
    rcases hread : s.conn.processRead with ⟨c, code⟩
    rw [hread] at hid
    simp only [advance, hread, Option.some.injEq] at h
    subst h
    refine ⟨_, .touch hid rfl rfl ?_ ?_⟩
    · split <;> rfl
    · cases code <;> simp [Pc.window, eq_comm]
  | parsed g code =>
    simp only [advance] at h
    split at h
    · cases h
      exact ⟨_, .check (by simp [Pc.task]) (Or.inr rfl) (by simp [Pc.window])⟩
    · cases h
      by_cases hcode : code = .requestEntityTooLarge
      · subst hcode
        refine ⟨_, ⟨rfl, rfl, rfl, settled_identity _ _, ⟨by simp [Pc.task], Or.inl rfl⟩,
          by simp [Pc.window], Or.inr ⟨.lingerOff, g, rfl, rfl⟩, Or.inl rfl⟩⟩
      · simp only [if_neg hcode]
        exact ⟨_, ⟨rfl, rfl, rfl, rfl, ⟨by simp [Pc.task], Or.inl rfl⟩, by simp [Pc.window],
          Or.inl rfl, Or.inl rfl⟩⟩
  | answered g resp =>
    cases h
    refine ⟨_, .check (by simp [Pc.task]) ?_ ?_⟩ <;> split <;> simp_all [Pc.task, Pc.window]
  | replying g resp =>
    have hid := processWrite_identity s.conn resp
    rcases hwrite : s.conn.processWrite resp with ⟨c, ok⟩
    rw [hwrite] at hid
    simp only [advance, hwrite, Option.some.injEq] at h
    subst h
    refine ⟨_, .touch hid rfl rfl ?_ ?_⟩
    · cases ok <;> rfl
    · cases ok <;> simp [Pc.window]
  | failed g =>
    cases h
    refine ⟨_, .check (by simp [Pc.task]) ?_ ?_⟩
    · split <;> simp [Pc.task]
    · intro g' hg
      split at hg
      · rename_i hcur
        cases hg
        exact ⟨rfl, current_matches hcur⟩
      · cases hg
  | closing g =>
    cases h
    exact ⟨_, .touch rfl rfl rfl rfl (by simp [Pc.window])⟩
  | arm g ev =>
    cases h
    refine ⟨_, .check (by simp [Pc.task]) ?_ ?_⟩
    · split <;> simp [Pc.task]
    · intro g' hg
      split at hg
      · rename_i hcur
        cases hg
        exact ⟨rfl, current_matches hcur⟩
      · cases hg
  | arming g ev =>
    cases h
    refine ⟨.returned, ⟨rfl, rfl, rfl, rfl, ⟨by simp [Pc.task], Or.inr rfl⟩, by simp [Pc.window],
      Or.inr ⟨.modfd, g, rfl, rfl⟩, ?_⟩⟩
    by_cases hs : 0 ≤ s.conn.sockfd
    · exact Or.inr ⟨rfl, hs⟩
    · exact Or.inl (if_neg hs)
  | returned => cases h
  | raised => cases h

/-- What the event loop does with a delivered event. The queue grows by a task of the slot's
generation, or stays. -/
structure Handled (s s' : State σ) : Prop where
  identity : s'.conn.identity = s.conn.identity
  workers : s'.workers = s.workers
  effects : s'.effects = s.effects
  queue : s'.queue = s.queue ∨ s'.queue = s.queue ++ [s.conn.generation]

theorem generation_of_identity {c c' : HttpConn} (h : c'.identity = c.identity) :
    c'.generation = c.generation := congrArg Prod.fst h

theorem sockfd_of_identity {c c' : HttpConn} (h : c'.identity = c.identity) :
    c'.sockfd = c.sockfd := congrArg Prod.snd h

/-- `append_p` for a connection that was read from or written to. -/
theorem Handled.append {c : HttpConn} {armed : Option Interest} (a : Appended)
    (hc : c.identity = s.conn.identity) :
    Handled s (State.append { s with conn := c, armed := armed } a) := by
  cases a with
  | accepted =>
    refine ⟨hc, rfl, rfl, Or.inr ?_⟩
    rw [← generation_of_identity hc]
    rfl
  | refused k => exact ⟨hc, rfl, rfl, Or.inl rfl⟩

theorem dealwithread_spec (s : State σ) (rs : List RecvResult) (a : Appended) :
    Handled s (s.dealwithread rs a) ∧ (s.dealwithread rs a).armed = s.armed := by
  have hid := s.conn.readOnce_identity rs
  rcases hread : s.conn.readOnce rs with ⟨c, ok⟩
  rw [hread] at hid
  simp only [dealwithread, hread]
  cases ok with
  | true => exact ⟨.append a hid, by cases a <;> rfl⟩
  | false => exact ⟨⟨hid, rfl, rfl, Or.inl rfl⟩, rfl⟩

theorem dealwithwrite_spec {ws : List WritevResult} {a : Appended}
    (h : s.dealwithwrite ws a = some s') : Handled s s' := by
  have hid := s.conn.write_identity ws
  rcases hwrite : s.conn.write ws with ⟨c, out, o⟩
  rw [hwrite] at hid
  cases o with
  | looping => simp [dealwithwrite, hwrite] at h
  | returned ok armed =>
    simp only [dealwithwrite, hwrite, Option.some.injEq] at h
    subst h
    split
    · split
      · exact .append a hid
      · exact ⟨hid, rfl, rfl, Or.inl rfl⟩
    · exact ⟨hid, rfl, rfl, Or.inl rfl⟩

/-- A task of generation `g` is queued or running. -/
def Outstanding (s : State σ) (g : Nat) : Prop :=
  g ∈ s.queue ∨ ∃ t, Threads.At Pc.task s.workers t g

theorem Handled.outstanding (h : Handled s s') (ho : s'.Outstanding g) :
    s.Outstanding g ∨ g = s.conn.generation := by
  rcases ho with hq | hw
  · rcases h.queue with he | he
    · exact Or.inl (Or.inl (he ▸ hq))
    · rw [he, List.mem_append, List.mem_singleton] at hq
      exact hq.imp_left Or.inl
  · exact Or.inl (Or.inr (h.workers ▸ hw))

theorem Advanced.outstanding (h : Advanced s t p q s') (hp : s.workers[t]? = some p)
    (ho : s'.Outstanding g) : s.Outstanding g := by
  rcases ho with hq | ⟨u, hu⟩
  · exact Or.inl (h.queue ▸ hq)
  · rw [h.workers] at hu
    rcases Threads.at_of_at_set hp hu with hu | ⟨-, hq⟩
    · exact Or.inr ⟨u, hu⟩
    · rcases h.task.2 with he | he
      · exact Or.inr ⟨t, p, hp, he ▸ hq⟩
      · rw [he] at hq
        cases hq

theorem step_take (h : s.step dispatch .take = some s') : ∃ g queue,
    s.queue = g :: queue ∧ s' = { s with queue, workers := s.workers ++ [.taken g] } := by
  simp only [step] at h
  split at h
  · cases h
  · rename_i g queue hq
    cases h
    exact ⟨g, queue, hq, rfl⟩

theorem step_work (h : s.step dispatch (.work t) = some s') : ∃ p q,
    s.workers[t]? = some p ∧ Advanced s t p q s' := by
  obtain ⟨p, hp, h⟩ := Option.bind_eq_some_iff.mp h
  obtain ⟨q, hq⟩ := advance_spec h
  exact ⟨p, q, hp, hq⟩

theorem step_readable {rs : List RecvResult} {a : Appended}
    (h : s.step dispatch (.readable rs a) = some s') :
    s.armed ≠ none ∧ Handled s s' ∧ s'.armed = none := by
  simp only [step] at h
  split at h
  · rename_i hc
    cases h
    obtain ⟨hh, ha⟩ := dealwithread_spec { s with armed := none } rs a
    exact ⟨by simp [hc.2], ⟨hh.identity, hh.workers, hh.effects, hh.queue⟩, ha⟩
  · cases h

theorem step_writable {ws : List WritevResult} {a : Appended}
    (h : s.step dispatch (.writable ws a) = some s') : s.armed ≠ none ∧ Handled s s' := by
  simp only [step] at h
  split at h
  · rename_i hc
    have hh := dealwithwrite_spec h
    exact ⟨by simp [hc.2], hh.identity, hh.workers, hh.effects, hh.queue⟩
  · cases h

end State

end Slot
end Http
end UrlShortener
