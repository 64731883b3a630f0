import UrlShortener.Base.Machine
import UrlShortener.Http.Writing

/-!
# UrlShortener.Server.Session

One connection from accept to close, as `WebServer::dealwithread`, `WebServer::dealwithwrite` and
the workers drive it, on the serial schedule: a queued task runs before the next event of its
connection is handled. The events carry what the kernel answered (`recv`, `writev`) and whether
the thread pool took the task.

The invariant is `Phase`: a connection either has its task queued, waits for input with an idle
write side, has a response on its way, or is about to be closed. `Phase.step` keeps it for every
answer of the kernel except one: a `writev` that refuses (EAGAIN) while request bytes are still
buffered, which makes `dealwithwrite` queue a second task over the response (`Interrupts`).
-/

namespace UrlShortener
namespace Http

namespace HttpConn

/-- What `reject_overload` sends. -/
def overloadResponse : Bytes :=
  ascii "HTTP/1.1 503 Service Unavailable\r\nContent-Type: application/json\r\n" ++
  ascii "Connection: close\r\nContent-Length: 31\r\n\r\n" ++
  ascii "\x7b\"error\":\"service unavailable\"\x7d"

end HttpConn

/-- The answer of `append_p`; a refused task is followed by the overload response, of which
`send` takes `k` bytes. -/
inductive Appended where
  | accepted
  | refused (k : Nat)
deriving DecidableEq

inductive Event where
  | readable (rs : List RecvResult) (a : Appended)
  | writable (ws : List WritevResult) (a : Appended)
  /-- EPOLLRDHUP, EPOLLHUP, EPOLLERR, or the connection's timer. -/
  | hangup
  /-- A worker takes the queued task and runs `process` to its end. -/
  | work

/-- Writes, if the event has any, are complete. -/
def Event.Complete : Event → Prop
  | .writable ws _ => HttpConn.Completes ws
  | _ => True

inductive Status where
  | opened
  | closed
  /-- An exception left `process`, and with it the worker thread. -/
  | crashed
deriving DecidableEq

structure Session (σ : Type) where
  store : σ
  conn : HttpConn
  status : Status := .opened
  armed : Option Interest := some .epollin
  queued : Bool := false
  sent : Bytes := []
  log : List Processed := []

namespace Session

section Steps

variable {σ : Type} (dispatch : σ → HttpRequest → σ × Dispatched)

/-- `accept`, `timer`, `init(connfd, ..)` on a slot. -/
def accept (st : σ) (slot : HttpConn) (connfd trigMode : Nat) : Session σ :=
  { store := st, conn := slot.initSocket connfd trigMode }

/-- `deal_timer`: `cb_func` removes the socket from epoll, invalidates the slot and closes it. -/
def dealTimer (s : Session σ) : Session σ :=
  { s with conn := s.conn.invalidate, status := .closed, armed := none, queued := false }

def append (s : Session σ) : Appended → Session σ
  | .accepted => { s with queued := true }
  | .refused k => dealTimer { s with sent := s.sent ++ HttpConn.overloadResponse.take k }

def dealwithread (s : Session σ) (rs : List RecvResult) (a : Appended) : Session σ :=
  match s.conn.readOnce rs with
  | (c, true) => append { s with conn := c } a
  | (c, false) => dealTimer { s with conn := c }

/-- What `dealwithwrite` does with the result of `write`. A call that has not returned leaves the
event loop inside it: nothing more happens. -/
def written (s : Session σ) (a : Appended) : HttpConn × Bytes × HttpConn.WriteOutcome → Session σ
  | (c, out, .looping) => { s with conn := c, sent := s.sent ++ out }
  | (c, out, .returned ok armed) =>
    let s := { s with conn := c, sent := s.sent ++ out, armed := armed }
    if ok then if c.hasPipelinedInput then append s a else s else dealTimer s

def dealwithwrite (s : Session σ) (ws : List WritevResult) (a : Appended) : Session σ :=
  written s a (s.conn.write ws)

def work (s : Session σ) : Session σ :=
  match s.conn.process dispatch s.store s.conn.generation with
  | some (st, c, armed, did) =>
    { s with
      store := st
      conn := c
      armed := armed.or s.armed
      queued := false
      log := s.log ++ [did] }
  | none =>
    { s with status := .crashed, armed := none, queued := false, log := s.log ++ [.raised] }

/-- Epoll delivers only what is armed, and disarms it; the serial schedule runs a queued task
before anything else. -/
def step (s : Session σ) : Event → Option (Session σ)
  | .readable rs a =>
    if s.status = .opened ∧ s.queued = false ∧ s.armed = some .epollin then
      some (dealwithread { s with armed := none } rs a)
    else none
  | .writable ws a =>
    if s.status = .opened ∧ s.queued = false ∧ s.armed = some .epollout then
      some (dealwithwrite { s with armed := none } ws a)
    else none
  | .hangup => if s.status = .opened ∧ s.queued = false then some (dealTimer s) else none
  | .work => if s.status = .opened ∧ s.queued = true then some (work dispatch s) else none

end Steps


/-! ## The invariant -/

section Phases

variable {σ : Type} {dispatch : σ → HttpRequest → σ × Dispatched}

/-- Where a connection stands between two steps. -/
inductive Phase (s : Session σ) : Prop
  | task (opened : s.status = .opened) (queued : s.queued = true) (waiting : s.conn.Waiting)
      (some : 0 < s.conn.readIdx)
  | idle (opened : s.status = .opened) (free : s.queued = false) (armed : s.armed = some .epollin)
      (waiting : s.conn.Waiting)
  | reply (raw : Bytes) (k : Nat) (opened : s.status = .opened) (free : s.queued = false)
      (armed : s.armed = some .epollout) (replying : s.conn.Replying raw k)
  | closing (opened : s.status = .opened) (free : s.queued = false)
      (armed : s.armed = some .epollout) (pending : s.conn.pendingClose = true)
  | writing (opened : s.status = .opened) (free : s.queued = false) (armed : s.armed = none)
  | ended (gone : s.status ≠ .opened) (free : s.queued = false)

/-- `writev` refuses while request bytes are buffered: `dealwithwrite` then queues a task over
the response that is still going out. -/
def Interrupts (s : Session σ) : Event → Prop
  | .writable ws _ => .eagain ∈ ws ∧ s.conn.hasPipelinedInput = true
  | _ => False

instance (s : Session σ) : ∀ e, Decidable (Interrupts s e)
  | .writable _ _ => inferInstanceAs (Decidable (_ ∧ _))
  | .readable _ _ => isFalse not_false
  | .hangup => isFalse not_false
  | .work => isFalse not_false

theorem accept_waiting (st : σ) (slot : HttpConn) (connfd trigMode : Nat) :
    (accept st slot connfd trigMode).conn.Waiting :=
  ⟨HttpConn.init_ready _, rfl, rfl, rfl, Int.natCast_nonneg _⟩

theorem accept_phase (st : σ) (slot : HttpConn) (connfd trigMode : Nat) :
    Phase (accept st slot connfd trigMode) :=
  .idle rfl rfl rfl (accept_waiting st slot connfd trigMode)

theorem append_phase {s : Session σ} (hs : s.status = .opened) (hw : s.conn.Waiting)
    (hpos : 0 < s.conn.readIdx) (a : Appended) : Phase (append s a) := by
  cases a with
  | accepted => exact .task hs rfl hw hpos
  | refused k => exact .ended (by simp [append, dealTimer]) rfl

variable (dispatch) in
/-- All a task can do to its session. -/
theorem work_cases {s : Session σ} (hw : s.conn.Waiting) :
    (∃ c₁, s.conn.processRead = (c₁, .noRequest) ∧ c₁.Waiting ∧
      work dispatch s =
        { s with conn := c₁, armed := some .epollin, queued := false, log := s.log ++ [.waiting] }) ∨
    ∃ c₁ code, s.conn.processRead = (c₁, code) ∧ code ≠ .noRequest ∧
      (HttpConn.answer dispatch s.store c₁ code = none ∧
          work dispatch s =
            { s with status := .crashed, armed := none, queued := false, log := s.log ++ [.raised] } ∨
        ∃ st resp did, HttpConn.answer dispatch s.store c₁ code = some (st, resp, did) ∧
          work dispatch s =
            { s with
              store := st
              conn := (c₁.settled code).deliver ((c₁.settled code).withConnection resp).serialize
              armed := some .epollout
              queued := false
              log := s.log ++ [did] }) := by
  obtain ⟨p, buf, i, k, code, he, hk1, hk2, -, hv⟩ := hw.ready.processRead
  by_cases hcode : code = .noRequest
  · subst hcode
    refine Or.inl ⟨_, he, ?_, ?_⟩
    · cases hv with
      | waits ready => exact ⟨ready, hw.toSend, hw.haveSend, hw.noClose, hw.sock⟩
    · rw [work, HttpConn.process_waits dispatch s.store he hw.sock rfl]
      rfl
  · refine Or.inr ⟨_, code, he, hcode, ?_⟩
    have hp := HttpConn.process_answers dispatch s.store he hcode hw.sock rfl
    cases ha : HttpConn.answer dispatch s.store (s.conn.moved p buf i k) code with
    | none =>
      rw [ha] at hp
      refine Or.inl ⟨rfl, ?_⟩
      rw [work, hp]
      rfl
    | some r =>
      rw [ha] at hp
      refine Or.inr ⟨r.1, r.2.1, r.2.2, rfl, ?_⟩
      rw [work, hp]
      rfl

theorem work_phase {s : Session σ} (hs : s.status = .opened) (hw : s.conn.Waiting) :
    Phase (work dispatch s) := by
  rcases work_cases dispatch hw with ⟨c₁, -, hc, he⟩ | ⟨c₁, code, hread, -, ha⟩
  · rw [he]
    exact .idle hs rfl rfl hc
  · rcases ha with ⟨-, he⟩ | ⟨st, resp, did, -, he⟩
    · rw [he]
      exact .ended (by simp) rfl
    · have hd := hw.deliver hread ((c₁.settled code).withConnection resp)
      rw [he]
      generalize (c₁.settled code).deliver _ = c₂ at hd ⊢
      rcases hd with hr | hc
      · exact .reply _ 0 hs rfl rfl hr
      · exact .closing hs rfl rfl hc

/-- All a call of `dealwithwrite` can do while a response goes out. -/
theorem dealwithwrite_phase {s : Session σ} {raw : Bytes} {k : Nat} (hs : s.status = .opened)
    (hq : s.queued = false) (ha : s.armed = none) (hr : s.conn.Replying raw k)
    {ws : List WritevResult} {a : Appended}
    (hok : ¬ (.eagain ∈ ws ∧ s.conn.hasPipelinedInput = true)) : Phase (dealwithwrite s ws a) := by
  obtain ⟨k', -, -, -, hw⟩ := hr.sending.write ws
  rw [dealwithwrite]
  rcases hwr : s.conn.write ws with ⟨c', out, o⟩
  rw [hwr] at hw
  simp only at hw
  cases hw with
  | looping lt few => exact .writing hs hq ha
  | refused lt mem =>
    have hp : (s.conn.sentTo raw k').hasPipelinedInput = false := by
      have : ¬ s.conn.hasPipelinedInput = true := fun h => hok ⟨mem, h⟩
      exact Bool.eq_false_iff.mpr this
    simp only [written, hp]
    exact .reply raw k' hs hq rfl (hr.sentTo lt)
  | failed lt mem => exact .ended (by simp [written, dealTimer]) rfl
  | kept alive =>
    have hwait : (s.conn.sentTo raw raw.length).retainPipelinedBytes.Waiting :=
      HttpConn.retain_waiting hr.read_le hr.sock
    simp only [written, if_true]
    split
    · rename_i hp
      refine append_phase (s := { s with
        conn := (s.conn.sentTo raw raw.length).retainPipelinedBytes
        sent := s.sent ++ out
        armed := some .epollin }) hs hwait ?_ a
      have h0 := (HttpConn.retain_fresh (s.conn.sentTo raw raw.length)).checked
      rw [HttpConn.hasPipelinedInput, h0] at hp
      exact of_decide_eq_true hp
    · exact .idle hs hq rfl hwait
  | done close => exact .ended (by simp [written, dealTimer]) rfl

/-- **The phases are kept by every step that does not interrupt a response.** -/
theorem Phase.step {s s' : Session σ} {e : Event} (h : Phase s) (hok : ¬ Interrupts s e)
    (hs : Session.step dispatch s e = some s') : Phase s' := by
  cases e with
  | hangup =>
    simp only [Session.step] at hs
    split at hs
    · cases hs
      exact .ended (by simp [dealTimer]) rfl
    · cases hs
  | work =>
    simp only [Session.step] at hs
    split at hs
    · rename_i hc
      cases hs
      cases h with
      | task ho hq hw hpos => exact work_phase ho hw
      | idle ho hq => rw [hq] at hc; simp at hc
      | reply raw k ho hq => rw [hq] at hc; simp at hc
      | closing ho hq => rw [hq] at hc; simp at hc
      | writing ho hq => rw [hq] at hc; simp at hc
      | ended hg => exact absurd hc.1 hg
    · cases hs
  | readable rs a =>
    simp only [Session.step] at hs
    split at hs
    · rename_i hc
      cases hs
      cases h with
      | idle ho hq ha hw =>
        obtain ⟨hw', hpos⟩ := hw.readOnce rs
        rw [dealwithread]
        rcases hr : s.conn.readOnce rs with ⟨c, ok⟩
        rw [hr] at hw' hpos
        cases ok with
        | false => exact .ended (by simp [dealTimer]) rfl
        | true => exact append_phase (s := { s with conn := c, armed := none }) ho hw' (hpos rfl) a
      | task ho hq => rw [hq] at hc; simp at hc
      | reply raw k ho hq ha => rw [ha] at hc; simp at hc
      | closing ho hq ha => rw [ha] at hc; simp at hc
      | writing ho hq ha => rw [ha] at hc; simp at hc
      | ended hg => exact absurd hc.1 hg
    · cases hs
  | writable ws a =>
    simp only [Session.step] at hs
    split at hs
    · rename_i hc
      cases hs
      cases h with
      | reply raw k ho hq ha hr =>
        exact dealwithwrite_phase (s := { s with armed := none }) ho hq rfl hr hok
      | closing ho hq ha hp =>
        have hw : s.conn.write ws = ({ s.conn with pendingClose := false }, [],
            .returned false none) := by
          rw [HttpConn.write, if_pos hp]
        simp only [dealwithwrite, hw]
        exact .ended (by simp [written, dealTimer]) rfl
      | task ho hq => rw [hq] at hc; simp at hc
      | idle ho hq ha => rw [ha] at hc; simp at hc
      | writing ho hq ha => rw [ha] at hc; simp at hc
      | ended hg => exact absurd hc.1 hg
    · cases hs

theorem phase_of_run {st : σ} {slot : HttpConn} {connfd trigMode : Nat} {es : List Event}
    {s : Session σ}
    (hrun : Machine.run (Session.step dispatch) (accept st slot connfd trigMode) es = some s)
    (hok : Machine.Along (Session.step dispatch) (fun s e => ¬ Interrupts s e)
      (accept st slot connfd trigMode) es) : Phase s :=
  Machine.run_invariant _ (fun _ _ _ h hok hs => h.step hok hs)
    (accept_phase st slot connfd trigMode) hok hrun

theorem not_interrupts_of_complete {e : Event} (h : e.Complete) {s : Session σ} :
    ¬ Interrupts s e := by
  cases e with
  | writable ws a => exact fun hi => absurd rfl (h.1 _ hi.1).1
  | readable rs a => exact id
  | hangup => exact id
  | work => exact id

end Phases

end Session
end Http
end UrlShortener
