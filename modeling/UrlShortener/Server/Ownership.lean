import UrlShortener.Server.Interleaving
import UrlShortener.Server.Rounds

/-!
# UrlShortener.Server.Ownership

Who owns a connection between accept and close. The one-shot registration with epoll and the task
in the pool are meant to be one token: the event loop gives it to the pool with `append_p`, and the
last thing a worker does is to arm the socket again.

`write` arms the socket on its own before `dealwithwrite` queues a task for what is left in the
read buffer, and from then on there are two tokens (`Redispatches`). In runs without such a step
`Owned` is an invariant: the tasks of the connection and the armed socket count to at most one.
-/

namespace UrlShortener
namespace Http

namespace HttpConn

theorem retain_hasPipelinedInput (c : HttpConn) :
    c.retainPipelinedBytes.hasPipelinedInput = c.hasPipelinedInput := by
  have hc : c.retainPipelinedBytes.checkedIdx = 0 := by
    simp only [retainPipelinedBytes]
    split <;> rfl
  rw [hasPipelinedInput, hasPipelinedInput, hc, retain_readIdx]
  exact decide_eq_decide.mpr ⟨fun h => by omega, fun h => by omega⟩

/-- `write` returns true. -/
def WriteOutcome.ok : WriteOutcome → Bool
  | .looping => false
  | .returned ok _ => ok

/-- When `write` returns true, it has armed the socket and kept what is left in the read buffer. -/
theorem writeLoop_true {ws : List WritevResult} {c c' : HttpConn} {out out' : Bytes}
    {armed : Option Interest} (h : writeLoop ws c out = (c', out', .returned true armed)) :
    c'.hasPipelinedInput = c.hasPipelinedInput ∧ armed ≠ none := by
  induction ws generalizing c out with
  | nil => cases h
  | cons w ws ih =>
    cases w with
    | eintr => exact ih h
    | eagain =>
      cases h
      exact ⟨rfl, by simp⟩
    | error => cases h
    | sent k =>
      simp only [writeLoop] at h
      split at h
      · split at h
        · cases h
          exact ⟨retain_hasPipelinedInput _, by simp⟩
        · cases h
      · obtain ⟨hp, ha⟩ := ih h
        exact ⟨hp, ha⟩

theorem write_true {ws : List WritevResult} {c c' : HttpConn} {out : Bytes}
    {armed : Option Interest} (h : c.write ws = (c', out, .returned true armed)) :
    c'.hasPipelinedInput = c.hasPipelinedInput ∧ armed ≠ none := by
  unfold write at h
  split at h
  · cases h
  · split at h
    · cases h
      exact ⟨retain_hasPipelinedInput c, by simp⟩
    · exact writeLoop_true h

end HttpConn

namespace Slot

variable {σ : Type} {dispatch : σ → HttpRequest → σ × Dispatched} {s s' : State σ} {t g : Nat}
  {p q : Pc}

/-- A new connection: the slot right after `init(connfd, ..)`. -/
def accepted (st : σ) (slot : HttpConn) (connfd trigMode : Nat) : State σ :=
  { store := st, conn := slot.initSocket connfd trigMode, armed := some .epollin }

/-- The steps of one connection. -/
def Label.SameConnection : Label → Prop
  | .init _ _ => False
  | _ => True

/-- How many tasks of generation `g` are queued or running. -/
def tasks (s : State σ) (g : Nat) : Nat := s.queue.count g + Threads.count Pc.task s.workers g

structure Exclusive (s : State σ) : Prop where
  armed : s.armed ≠ none → tasks s s.conn.generation = 0
  one : tasks s s.conn.generation ≤ 1

instance (s : State σ) : Decidable (Exclusive s) :=
  decidable_of_iff ((s.armed ≠ none → tasks s s.conn.generation = 0) ∧
      tasks s s.conn.generation ≤ 1)
    ⟨fun h => ⟨h.1, h.2⟩, fun h => ⟨h.armed, h.one⟩⟩

/-- An EPOLLOUT event whose `write` returns true while request bytes are left in the read buffer,
and the pool takes the task. -/
def Redispatches (s : State σ) : Label → Prop
  | .writable ws a => s.conn.hasPipelinedInput = true ∧ (s.conn.write ws).2.2.ok = true ∧
      a = .accepted
  | _ => False

instance (s : State σ) : ∀ l, Decidable (Redispatches s l)
  | .writable _ _ => inferInstanceAs (Decidable (_ ∧ _ ∧ _))
  | .init _ _ => isFalse not_false
  | .invalidate => isFalse not_false
  | .readable _ _ => isFalse not_false
  | .take => isFalse not_false
  | .work _ => isFalse not_false

/-! ## Counting the tokens -/

theorem tasks_eq_zero (h : ¬ s.Outstanding g) : tasks s g = 0 := by
  have hq : s.queue.count g = 0 := List.count_eq_zero.mpr fun hm => h (Or.inl hm)
  have hw : Threads.count Pc.task s.workers g = 0 := by
    refine List.countP_eq_zero.mpr fun p hp ht => h ?_
    obtain ⟨t, hget⟩ := List.getElem?_of_mem hp
    exact Or.inr ⟨t, p, hget, of_decide_eq_true ht⟩
  rw [tasks, hq, hw]

/-- The tasks of the connection and the armed socket. -/
def tokens (s : State σ) : Nat :=
  tasks s s.conn.generation + if s.armed = none then 0 else 1

structure Owned (s : State σ) : Prop where
  token : tokens s ≤ 1
  closed : s.conn.sockfd < 0 → s.armed = none
  outstanding : ∀ g, s.Outstanding g → g ≤ s.conn.generation ∧
    (0 ≤ s.conn.sockfd ↔ g = s.conn.generation)

theorem Owned.exclusive (h : Owned s) : Exclusive s := by
  have htoken := h.token
  unfold tokens at htoken
  refine ⟨fun ha => ?_, by omega⟩
  rw [if_neg ha] at htoken
  omega

theorem Owned.idle (h : Owned s) (ha : s.armed ≠ none) :
    tasks s s.conn.generation = 0 ∧ 0 ≤ s.conn.sockfd := by
  refine ⟨h.exclusive.armed ha, ?_⟩
  by_contra hs
  exact ha (h.closed (by omega))

theorem owned_accepted (st : σ) (slot : HttpConn) (connfd trigMode : Nat) :
    Owned (accepted st slot connfd trigMode) := by
  refine ⟨Nat.le_refl 1, ?_, ?_⟩
  · intro h
    have hs : (accepted st slot connfd trigMode).conn.sockfd = connfd := rfl
    omega
  · rintro g (hq | ⟨t, p, hp, -⟩)
    · cases hq
    · cases hp

theorem Owned.outstanding_handled (h : Owned s) (hh : s.Handled s') (hopen : 0 ≤ s.conn.sockfd) :
    ∀ g, s'.Outstanding g → g ≤ s'.conn.generation ∧
      (0 ≤ s'.conn.sockfd ↔ g = s'.conn.generation) := by
  intro g ho
  rw [State.generation_of_identity hh.identity, State.sockfd_of_identity hh.identity]
  rcases hh.outstanding ho with ho | rfl
  · exact h.outstanding g ho
  · exact ⟨Nat.le_refl _, by simp [hopen]⟩

theorem Owned.readable {rs : List RecvResult} {a : Appended} (h : Owned s)
    (hs : s.step dispatch (.readable rs a) = some s') : Owned s' := by
  obtain ⟨harmed, hh, hnone⟩ := State.step_readable hs
  obtain ⟨hidle, hopen⟩ := h.idle harmed
  refine ⟨?_, fun _ => hnone, h.outstanding_handled hh hopen⟩
  unfold tokens tasks
  unfold tasks at hidle
  rw [if_pos hnone, State.generation_of_identity hh.identity, hh.workers]
  rcases hh.queue with he | he
  · rw [he]
    omega
  · rw [he, List.count_append, List.count_singleton_self]
    omega

/-- Without a second dispatch, `dealwithwrite` leaves the queue alone. With one, the task is queued
behind an armed socket. -/
theorem writable_queue {ws : List WritevResult} {a : Appended}
    (hs : s.step dispatch (.writable ws a) = some s') : s'.queue = s.queue ∨
      Redispatches s (.writable ws a) ∧ s'.armed ≠ none ∧ s.conn.generation ∈ s'.queue := by
  simp only [State.step] at hs
  split at hs
  · have hid := s.conn.write_identity ws
    rcases hwrite : s.conn.write ws with ⟨c, out, o⟩
    rw [hwrite] at hid
    cases o with
    | looping => simp [State.dealwithwrite, hwrite] at hs
    | returned ok armed =>
      simp only [State.dealwithwrite, hwrite, Option.some.injEq] at hs
      subst hs
      split
      · rename_i hok
        subst hok
        obtain ⟨hp, harmed⟩ := HttpConn.write_true hwrite
        split
        · rename_i hin
          cases a with
          | accepted =>
            refine Or.inr ⟨⟨hp ▸ hin, by rw [hwrite]; rfl, rfl⟩, harmed, ?_⟩
            rw [← State.generation_of_identity hid]
            exact List.mem_append_right _ List.mem_cons_self
          | refused k => exact Or.inl rfl
        · exact Or.inl rfl
      · exact Or.inl rfl
  · cases hs

/-- Every second dispatch makes two owners. -/
theorem not_exclusive_of_redispatch {ws : List WritevResult} {a : Appended}
    (hs : s.step dispatch (.writable ws a) = some s') (hq : s'.queue ≠ s.queue) :
    ¬ Exclusive s' := by
  intro h
  rcases writable_queue hs with he | ⟨-, harmed, hmem⟩
  · exact hq he
  · have hz := h.armed harmed
    rw [State.generation_of_identity (State.step_writable hs).2.identity, tasks] at hz
    have := List.count_pos_iff.mpr hmem
    omega

theorem Owned.writable {ws : List WritevResult} {a : Appended} (h : Owned s)
    (hnot : ¬ Redispatches s (.writable ws a)) (hs : s.step dispatch (.writable ws a) = some s') :
    Owned s' := by
  obtain ⟨harmed, hh⟩ := State.step_writable hs
  obtain ⟨hidle, hopen⟩ := h.idle harmed
  refine ⟨?_, ?_, h.outstanding_handled hh hopen⟩
  · have hqueue : s'.queue = s.queue := (writable_queue hs).resolve_right fun hr => hnot hr.1
    unfold tokens tasks
    unfold tasks at hidle
    rw [State.generation_of_identity hh.identity, hh.workers, hqueue, hidle]
    split <;> omega
  · intro hclosed
    rw [State.sockfd_of_identity hh.identity] at hclosed
    omega

theorem Owned.take (h : Owned s) (hs : s.step dispatch .take = some s') : Owned s' := by
  obtain ⟨g, queue, hqueue, rfl⟩ := State.step_take hs
  refine ⟨?_, h.closed, ?_⟩
  · have htoken := h.token
    unfold tokens tasks at htoken ⊢
    rw [hqueue, List.count_cons] at htoken
    simp only [Threads.count, List.countP_append, List.countP_singleton, Pc.task,
      Option.some.injEq, decide_eq_true_eq, beq_iff_eq] at htoken ⊢
    omega
  · intro g' ho
    refine h.outstanding g' ?_
    rcases ho with hmem | ⟨t, ht⟩
    · exact Or.inl (hqueue ▸ List.mem_cons_of_mem g hmem)
    · rcases Threads.at_append.mp ht with ht | ⟨-, htask⟩
      · exact Or.inr ⟨t, ht⟩
      · cases htask
        exact Or.inl (hqueue ▸ List.mem_cons_self)

theorem Owned.advance (h : Owned s) (hp : s.workers[t]? = some p) (ha : s.Advanced t p q s') :
    Owned s' := by
  have hgen := State.generation_of_identity ha.identity
  have hsock := State.sockfd_of_identity ha.identity
  have hcount := Threads.count_set (f := Pc.task) (x := s.conn.generation) (q := q) hp
  have htoken := h.token
  unfold tokens tasks at htoken
  refine ⟨?_, ?_, ?_⟩
  · unfold tokens tasks
    rw [hgen, ha.workers, ha.queue]
    rcases ha.armed with harmed | ⟨hq, hopen⟩
    · rw [harmed]
      rcases ha.task.2 with he | he
      · rw [he] at hcount
        omega
      · rw [he] at hcount
        simp only [reduceCtorEq, if_false] at hcount
        omega
    · -- an open connection has tasks of its own generation only, so this is one of them
      obtain ⟨g, hg⟩ := Option.ne_none_iff_exists'.mp ha.task.1
      have hg' : g = s.conn.generation :=
        (h.outstanding g (Or.inr ⟨t, p, hp, hg⟩)).2.mp hopen
      rw [hq, hg, hg'] at hcount
      simp only [reduceCtorEq, if_false, if_true] at hcount
      split <;> omega
  · intro hclosed
    rw [hsock] at hclosed
    rcases ha.armed with harmed | ⟨-, hopen⟩
    · rw [harmed]
      exact h.closed hclosed
    · omega
  · intro g ho
    rw [hgen, hsock]
    exact h.outstanding g (ha.outstanding hp ho)

theorem Owned.invalidate (h : Owned s) (hs : s.step dispatch .invalidate = some s') :
    Owned s' := by
  simp only [State.step] at hs
  split at hs
  · cases hs
    -- every task is older than the bumped generation
    have hold : ∀ g, s.Outstanding g → g ≠ s.conn.generation + 1 := by
      intro g ho
      have := (h.outstanding g ho).1
      omega
    refine ⟨?_, fun _ => rfl, ?_⟩
    · have hz : tasks s (s.conn.generation + 1) = 0 := tasks_eq_zero fun ho => hold _ ho rfl
      exact (Nat.le_of_eq hz).trans (Nat.zero_le 1)
    · intro g ho
      have hle := (h.outstanding g ho).1
      have hg : g ≠ s.conn.generation + 1 := hold g ho
      exact ⟨Nat.le_succ_of_le hle, by simpa [HttpConn.invalidate] using hg⟩
  · cases hs

theorem Owned.step {l : Label} (h : Owned s) (hl : l.SameConnection) (hnot : ¬ Redispatches s l)
    (hs : s.step dispatch l = some s') : Owned s' := by
  cases l with
  | init connfd trigMode => exact hl.elim
  | invalidate => exact h.invalidate hs
  | readable rs a => exact h.readable hs
  | writable ws a => exact h.writable hnot hs
  | take => exact h.take hs
  | work t =>
    obtain ⟨p, q, hp, ha⟩ := State.step_work hs
    exact h.advance hp ha

variable (dispatch) in
/-- **One owner.** In every state of every run of a connection that never dispatches a second time
from `dealwithwrite`, the socket is not armed while a task of the connection is queued or running,
and there is at most one such task. -/
theorem exclusive_run (st : σ) (slot : HttpConn) (connfd trigMode : Nat) (ls : List Label)
    (s : State σ) (hconn : ∀ l ∈ ls, l.SameConnection)
    (hok : Machine.Along (State.step dispatch) (fun s l => ¬ Redispatches s l)
      (accepted st slot connfd trigMode) ls)
    (hr : Machine.run (State.step dispatch) (accepted st slot connfd trigMode) ls = some s) :
    Exclusive s :=
  (Machine.run_invariant (State.step dispatch)
    (fun _ _ _ h hl hs => Owned.step h hl.1 hl.2 hs)
    (owned_accepted st slot connfd trigMode) (hok.and_forall _ hconn) hr).exclusive

/-- A connection from its first request to the end of the response. -/
def oneExchange (d : Bytes) : List Label :=
  [.readable [.data d] .accepted, .take, .work 0, .work 0, .work 0, .work 0, .work 0, .work 0,
    .work 0, .work 0, .writable [.sent WRITE_BUFFER_SIZE] .accepted]

theorem exclusive_run_oneGet : ∃ s,
    Machine.run (State.step Session.noRoutes) (accepted () {} 5 0)
        (oneExchange (ascii "GET /a HTTP/1.1\r\n\r\n")) = some s ∧
      s.workers = [.returned] ∧ s.armed = some .epollin ∧ Exclusive s := by
  have hrun : (Machine.run (State.step Session.noRoutes) (accepted () {} 5 0)
      (oneExchange (ascii "GET /a HTTP/1.1\r\n\r\n"))).map (fun s => (s.workers, s.armed)) =
        some ([.returned], some .epollin) := by
    decide +kernel
  obtain ⟨s, hs, he⟩ := Option.map_eq_some_iff.mp hrun
  obtain ⟨hw, harmed⟩ := Prod.mk.inj he
  exact ⟨s, hs, hw, harmed, exclusive_run Session.noRoutes () {} 5 0 _ s
    (by simp [oneExchange, Label.SameConnection]) (by decide +kernel) hs⟩

/-- Two requests in one segment: the second is queued while the socket is armed, and the next
byte on the socket queues a second task. -/
theorem exclusive_fails : ¬ ∀ (ls : List Label) (s : State Unit), (∀ l ∈ ls, l.SameConnection) →
    Machine.run (State.step Session.noRoutes) (accepted () {} 5 0) ls = some s → Exclusive s := by
  intro hall
  have hrun : (Machine.run (State.step Session.noRoutes) (accepted () {} 5 0)
      (oneExchange (ascii "GET /a HTTP/1.1\r\n\r\nGET /b HTTP/1.1\r\n\r\n") ++
        [.readable [.data [LF]] .accepted])).map (fun s => tasks s s.conn.generation) = some 2 := by
    decide +kernel
  obtain ⟨s, hs, he⟩ := Option.map_eq_some_iff.mp hrun
  have hone := (hall _ s (by simp [oneExchange, Label.SameConnection]) hs).one
  omega

end Slot
end Http
end UrlShortener
