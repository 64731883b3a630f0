import UrlShortener.Server.Rounds

/-!
# UrlShortener.Server.Framing

After a framing error the bytes behind it must not be taken for a request. `process` answers an
error of `process_read` and, except for the 413, leaves keep-alive as it is, so what happens next
depends on where the parser stopped.

* At a bad line end the cursor stays in front of it, and the bytes kept for the next round start
  with it: every later call refuses again (`Doomed`).
* At a line that `parse_request_line` or `parse_headers` refuses the cursor is already behind the
  line, and the rest of the refused request is parsed as a new one (`RefusesAlive`).

The second case is the only one that lets a request through.
-/

namespace UrlShortener
namespace Http

namespace HttpConn

/-- Among the buffered head lines stands one that is refused with 400, and no line before it has
turned keep-alive off. -/
def RefusesAlive (c : HttpConn) : Prop := ∃ p : Parser, c.Refuses p ∧ p.linger = true

theorem errorResponse_isSome (code : HttpCode) : (errorResponse code).isSome = true := by
  cases code <;> decide +kernel

theorem deliver_unread (c : HttpConn) (raw : Bytes) : (c.deliver raw).unread = c.unread := by
  unfold deliver
  split <;> rfl

theorem settled_unread (c : HttpConn) (code : HttpCode) : (c.settled code).unread = c.unread := by
  unfold settled
  split <;> rfl

theorem deliver_linger (c : HttpConn) (raw : Bytes) : (c.deliver raw).linger = c.linger := by
  unfold deliver
  split <;> rfl

end HttpConn

def Processed.IsRejected : Processed → Prop
  | .rejected _ => True
  | _ => False

/-- The call reached `Router::dispatch`. -/
def Processed.IsDispatched : Processed → Prop
  | .dispatched _ _ => True
  | .raised => True
  | _ => False

namespace Session

variable {σ : Type} {dispatch : σ → HttpRequest → σ × Dispatched}

/-- No call that reached the router comes after one that met a framing error. -/
def NoDispatchAfterError (log : List Processed) : Prop :=
  log.Pairwise fun a b => a.IsRejected → ¬ b.IsDispatched

theorem NoDispatchAfterError.append {log : List Processed} (h : NoDispatchAfterError log)
    {d : Processed} (hd : ∀ a ∈ log, a.IsRejected → ¬ d.IsDispatched) :
    NoDispatchAfterError (log ++ [d]) := by
  refine List.pairwise_append.mpr ⟨h, List.pairwise_singleton _ _, fun a ha b hb => ?_⟩
  rw [List.mem_singleton] at hb
  subst hb
  exact hd a ha

/-- Nothing will be dispatched on this connection any more. -/
inductive Doomed (s : Session σ) : Prop
  | gone (h : s.status ≠ .opened)
  | stuck (queued : s.queued = true) (h : s.Stuck)
  | ending (free : s.queued = false) (armed : s.armed = some .epollout)
      (h : s.conn.linger = false ∨ StartsBad s.conn.unread ∨ s.conn.pendingClose = true)
  | writing (free : s.queued = false) (armed : s.armed = none)

/-- The history so far is in order, and a rejection in it has sealed the connection. -/
structure Sealed (s : Session σ) : Prop where
  phase : Phase s
  ordered : NoDispatchAfterError s.log
  doomed : (∀ d ∈ s.log, ¬ d.IsRejected) ∨ Doomed s

variable (dispatch) in
/-- A task whose request is refused: the answer goes out, the unread bytes stay. -/
theorem work_rejects {s : Session σ} (hwait : s.conn.Waiting) {c₁ : HttpConn} {code : HttpCode}
    (hread : s.conn.processRead = (c₁, code))
    (hcode : code = .badRequest ∨ code = .requestEntityTooLarge) :
    ∃ c', work dispatch s =
        { s with conn := c', armed := some .epollout, queued := false,
                 log := s.log ++ [.rejected code] } ∧
      c'.linger = (c₁.settled code).linger ∧ c'.unread = c₁.unread := by
  obtain ⟨resp, hresp⟩ : ∃ resp,
      HttpConn.answer dispatch s.store c₁ code = some (s.store, resp, .rejected code) := by
    obtain ⟨resp, hr⟩ := Option.isSome_iff_exists.mp (HttpConn.errorResponse_isSome code)
    rcases hcode with rfl | rfl <;> exact ⟨resp, by rw [HttpConn.answer, hr, Option.map_some]⟩
  rcases work_cases dispatch hwait with ⟨c₂, hread', -⟩ | ⟨c₂, code', hread', -, ha⟩
  · rw [hread] at hread'
    cases hread'
    simp at hcode
  · rw [hread] at hread'
    cases hread'
    rcases ha with ⟨hnone, -⟩ | ⟨st, resp', did, hans, hw⟩
    · rw [hresp] at hnone
      cases hnone
    · rw [hresp] at hans
      cases hans
      refine ⟨_, hw, HttpConn.deliver_linger _ _, ?_⟩
      rw [HttpConn.deliver_unread, HttpConn.settled_unread]

/-- A sealed connection whose task finds no error has never met one. -/
theorem Sealed.clean {s : Session σ} (h : Sealed s) (hs : s.status = .opened)
    (hq : s.queued = true) (hwait : s.conn.Waiting) {c₁ : HttpConn} {code : HttpCode}
    (hread : s.conn.processRead = (c₁, code)) (hcode : code ≠ .badRequest) :
    ∀ d ∈ s.log, ¬ d.IsRejected := by
  refine h.doomed.resolve_right fun hd => ?_
  cases hd with
  | gone hg => exact hg hs
  | ending hfree => rw [hq] at hfree; cases hfree
  | writing hfree => rw [hq] at hfree; cases hfree
  | stuck _ hstuck =>
    obtain ⟨buf, he⟩ := hwait.ready.processRead_stuck hstuck.1 hstuck.2
    rw [hread] at he
    exact hcode (congrArg Prod.snd he)

theorem Sealed.rejected {s : Session σ} (h : Sealed s) {s' : Session σ} {c' : HttpConn}
    {code : HttpCode} (hphase : Phase s')
    (hw : s' = { s with conn := c', armed := some .epollout, queued := false,
                        log := s.log ++ [.rejected code] })
    (hend : c'.linger = false ∨ StartsBad c'.unread) : Sealed s' := by
  subst hw
  refine ⟨hphase, h.ordered.append fun _ _ _ => id, Or.inr (.ending rfl rfl ?_)⟩
  rcases hend with h1 | h1
  · exact Or.inl h1
  · exact Or.inr (Or.inl h1)

/-- **One task.** It keeps the connection sealed unless it meets a line that is refused with
keep-alive on. -/
theorem work_sealed {s : Session σ} (h : Sealed s) (hs : s.status = .opened)
    (hq : s.queued = true) (hwait : s.conn.Waiting) (hok : ¬ s.conn.RefusesAlive) :
    Sealed (work dispatch s) := by
  have hphase : Phase (work dispatch s) := work_phase hs hwait
  obtain ⟨p, buf, i, k, code, he, -, -, -, hv⟩ := hwait.ready.processRead
  cases hv with
  | tooLarge =>
    obtain ⟨c', hw, hl, -⟩ := work_rejects dispatch hwait he (Or.inr rfl)
    exact h.rejected hphase hw (Or.inl hl)
  | badLine bad =>
    obtain ⟨c', hw, -, hu⟩ := work_rejects dispatch hwait he (Or.inl rfl)
    exact h.rejected hphase hw (Or.inr (hu ▸ bad))
  | refused line pos =>
    obtain ⟨c', hw, hl, -⟩ := work_rejects dispatch hwait he (Or.inl rfl)
    refine h.rejected hphase hw (Or.inl ?_)
    have : ¬ (s.conn.moved p buf i k).linger = true := fun hl => hok ⟨_, line, hl⟩
    rw [hl]
    exact Bool.eq_false_iff.mpr this
  | waits ready =>
    have hclean := h.clean hs hq hwait he (by simp)
    rcases work_cases dispatch hwait with ⟨c₁, -, -, hw⟩ | ⟨c₁, code', hread, hne, -⟩
    · refine ⟨hphase, ?_, Or.inl ?_⟩ <;> rw [hw]
      · exact h.ordered.append fun _ _ _ => id
      · intro d hd
        rcases List.mem_append.mp hd with hd | hd
        · exact hclean d hd
        · rw [List.mem_singleton.mp hd]
          exact id
    · rw [he] at hread
      cases hread
      exact absurd rfl hne
  | request pos =>
    have hclean := h.clean hs hq hwait he (by simp)
    obtain ⟨d, hd, hlog⟩ : ∃ d : Processed, ¬ d.IsRejected ∧ (work dispatch s).log = s.log ++ [d] := by
      rcases work_cases dispatch hwait with ⟨c₁, hread, -⟩ | ⟨c₁, code', hread, -, ha⟩
      · rw [he] at hread
        cases hread
      · rw [he] at hread
        cases hread
        rcases ha with ⟨-, hw⟩ | ⟨st, resp, did, hans, hw⟩
        · exact ⟨.raised, id, by rw [hw]⟩
        · rw [HttpConn.answer_getRequest, Option.map_eq_some_iff] at hans
          obtain ⟨r, -, hr⟩ := hans
          cases hr
          exact ⟨_, id, by rw [hw]⟩
    refine ⟨hphase, ?_, Or.inl ?_⟩ <;> rw [hlog]
    · exact h.ordered.append fun a ha hrej => absurd hrej (hclean a ha)
    · intro d' hd'
      rcases List.mem_append.mp hd' with hd' | hd'
      · exact hclean d' hd'
      · rw [List.mem_singleton.mp hd']
        exact hd

theorem doomed_append {s : Session σ} (hstuck : s.Stuck) (a : Appended) : Doomed (append s a) := by
  cases a with
  | accepted => exact .stuck rfl hstuck
  | refused k => exact .gone (by simp [append, dealTimer])

/-- A complete write keeps the seal. -/
theorem doomed_dealwithwrite {s : Session σ}
    (hend : s.conn.linger = false ∨ StartsBad s.conn.unread ∨ s.conn.pendingClose = true)
    (hr : (∃ raw k, s.conn.Replying raw k) ∨ s.conn.pendingClose = true)
    {ws : List WritevResult} (hw : HttpConn.Completes ws) (a : Appended) :
    Doomed (dealwithwrite s ws a) := by
  have closes : ∀ {c' out i}, s.conn.write ws = (c', out, .returned false i) →
      Doomed (dealwithwrite s ws a) := by
    intro c' out i hwr
    rw [dealwithwrite, hwr]
    exact .gone (by simp [written, dealTimer])
  rcases hr with ⟨raw, k, hr⟩ | hp
  · obtain ⟨-, ⟨hl, hc, ho⟩ | ⟨-, -, ho⟩⟩ := hr.sending.write_completes hr.fits hw
    · have hbad : StartsBad s.conn.unread := by
        rcases hend with h | h | h
        · rw [hl] at h
          cases h
        · exact h
        · rw [hr.sending.noClose] at h
          cases h
      let c' := (s.conn.sentTo raw raw.length).retainPipelinedBytes
      have hun : c'.unread = s.conn.unread := HttpConn.retain_unread _
      have hstart : c'.checkedIdx = 0 := (HttpConn.retain_fresh _).checked
      have hpos : c'.checkedIdx < c'.readIdx := by
        have hlen := congrArg List.length hun
        rw [HttpConn.unread_length] at hlen
        have : s.conn.unread ≠ [] := by
          intro h0
          rw [h0] at hbad
          exact hbad
        have := List.length_pos_iff.mpr this
        omega
      have hwr : s.conn.write ws = (c', (s.conn.write ws).2.1, .returned true (some .epollin)) :=
        Prod.ext hc (Prod.ext rfl ho)
      rw [dealwithwrite, hwr]
      simp only [written, HttpConn.hasPipelinedInput, hpos, decide_true, if_true]
      exact doomed_append ⟨hstart, hun ▸ hbad⟩ a
    · exact closes (Prod.ext rfl (Prod.ext rfl ho))
  · exact closes (by rw [HttpConn.write, if_pos hp])

theorem Phase.replying {s : Session σ} (h : Phase s) (hs : s.status = .opened)
    (ha : s.armed = some .epollout) (hq : s.queued = false) :
    (∃ raw k, s.conn.Replying raw k) ∨ s.conn.pendingClose = true := by
  cases h with
  | task _ hq' => rw [hq] at hq'; cases hq'
  | idle _ _ ha' => rw [ha] at ha'; cases ha'
  | reply raw k _ _ _ hr => exact Or.inl ⟨raw, k, hr⟩
  | closing _ _ _ hp => exact Or.inr hp
  | writing _ _ ha' => rw [ha] at ha'; cases ha'
  | ended hg => exact absurd hs hg

theorem written_log (s : Session σ) (a : Appended) (r : HttpConn × Bytes × HttpConn.WriteOutcome) :
    (written s a r).log = s.log := by
  obtain ⟨c, out, o⟩ := r
  cases o with
  | looping => rfl
  | returned ok armed =>
    simp only [written]
    split
    · split
      · cases a <;> rfl
      · rfl
    · rfl

/-- **One step.** -/
theorem Sealed.step {s s' : Session σ} {e : Event} (h : Sealed s) (he : e.Complete)
    (hok : e = .work → ¬ s.conn.RefusesAlive) (hs : Session.step dispatch s e = some s') :
    Sealed s' := by
  have hphase := h.phase.step (not_interrupts_of_complete he) hs
  cases e with
  | work =>
    simp only [Session.step] at hs
    split at hs
    · rename_i hc
      cases hs
      cases h.phase with
      | task ho hq hwait hpos => exact work_sealed h ho hq hwait (hok rfl)
      | idle _ hq => rw [hq] at hc; simp at hc
      | reply _ _ _ hq => rw [hq] at hc; simp at hc
      | closing _ hq => rw [hq] at hc; simp at hc
      | writing _ hq => rw [hq] at hc; simp at hc
      | ended _ hq => rw [hq] at hc; simp at hc
    · cases hs
  | hangup =>
    simp only [Session.step] at hs
    split at hs
    · cases hs
      exact ⟨hphase, h.ordered, Or.inr (.gone (by simp [dealTimer]))⟩
    · cases hs
  | readable rs a =>
    simp only [Session.step] at hs
    split at hs
    · rename_i hc
      cases hs
      have hlog : (dealwithread { s with armed := none } rs a).log = s.log := by
        unfold dealwithread
        split
        · cases a <;> rfl
        · rfl
      refine ⟨hphase, by rw [hlog]; exact h.ordered, Or.inl ?_⟩
      rw [hlog]
      refine h.doomed.resolve_right fun hd => ?_
      cases hd with
      | gone hg => exact hg hc.1
      | stuck hq => rw [hq] at hc; simp at hc
      | ending _ ha => rw [ha] at hc; simp at hc
      | writing _ ha => rw [ha] at hc; simp at hc
    · cases hs
  | writable ws a =>
    simp only [Session.step] at hs
    split at hs
    · rename_i hc
      cases hs
      have hlog : (dealwithwrite { s with armed := none } ws a).log = s.log := written_log _ _ _
      refine ⟨hphase, by rw [hlog]; exact h.ordered, ?_⟩
      rw [hlog]
      refine h.doomed.imp_right fun hd => ?_
      have hr := h.phase.replying hc.1 hc.2.2 hc.2.1
      cases hd with
      | gone hg => exact absurd hc.1 hg
      | stuck hq => rw [hq] at hc; simp at hc
      | ending _ _ hend => exact doomed_dealwithwrite (s := { s with armed := none }) hend hr he a
      | writing _ ha => rw [ha] at hc; simp at hc
    · cases hs

/-- **No dispatch after a framing error**, in every run whose tasks never start in front of a line
that is refused with keep-alive on. -/
theorem no_dispatch_after_error (dispatch : σ → HttpRequest → σ × Dispatched) (st : σ)
    (slot : HttpConn) (connfd trigMode : Nat) (es : List Event) (s : Session σ)
    (hrun : Machine.run (Session.step dispatch) (accept st slot connfd trigMode) es = some s)
    (hes : ∀ e ∈ es, e.Complete)
    (hok : Machine.Along (Session.step dispatch)
      (fun s e => e = .work → ¬ s.conn.RefusesAlive) (accept st slot connfd trigMode) es) :
    NoDispatchAfterError s.log := by
  have hinit : Sealed (accept st slot connfd trigMode) :=
    ⟨accept_phase st slot connfd trigMode, .nil, Or.inl (by simp [accept])⟩
  exact (Machine.run_invariant _ (fun _ _ _ h hok hs => Sealed.step h hok.1 hok.2 hs) hinit
    (hok.and_forall _ hes) hrun).ordered

/-- A line end that is refused stands in front of what `process_read` looks at. -/
theorem not_refusesAlive_of_bad {c : HttpConn} (h : scanLine c.pending = ([], .lineBad)) :
    ¬ c.RefusesAlive := by
  rintro ⟨p, ⟨-, pos, rest, hr⟩, -⟩
  rw [readHead_bad h] at hr
  cases hr

/-- A lone LF, in front of two tasks. -/
def twice : List Event :=
  [.readable [.data [LF]] .accepted, .work, .writable [.sent WRITE_BUFFER_SIZE] .accepted, .work]

theorem no_dispatch_after_error_lf :
    ∃ s, Machine.run (Session.step noRoutes) (accept () {} 5 0) twice = some s ∧
      s.log = [.rejected .badRequest, .rejected .badRequest] ∧ NoDispatchAfterError s.log := by
  have hrun : (Machine.run (Session.step noRoutes) (accept () {} 5 0) twice).map (fun s => s.log) =
      some [.rejected .badRequest, .rejected .badRequest] := by
    decide +kernel
  have hagain : (Machine.run (Session.step noRoutes) (accept () {} 5 0) (twice.take 3)).map
      (fun s => scanLine s.conn.pending) = some ([], .lineBad) := by
    decide +kernel
  have hok : Machine.Along (Session.step noRoutes) (fun s e => e = .work → ¬ s.conn.RefusesAlive)
      (accept () {} 5 0) twice := by
    refine ⟨by simp, fun s hs => ⟨fun _ => ?_, fun s₁ hs₁ => ⟨by simp, fun s₂ hs₂ =>
      ⟨fun _ => ?_, fun _ _ => trivial⟩⟩⟩⟩
    · obtain rfl : received [LF] = s := Option.some.inj hs
      exact not_refusesAlive_of_bad (by decide)
    · simp only [twice, List.take, Machine.run, hs, hs₁, hs₂, Option.bind_some,
        Option.map_some] at hagain
      exact not_refusesAlive_of_bad (Option.some.inj hagain)
  obtain ⟨s, hs, hlog⟩ := Option.map_eq_some_iff.mp hrun
  exact ⟨s, hs, hlog, no_dispatch_after_error noRoutes () {} 5 0 _ s hs
    (by simp [twice, Event.Complete, completes_sent]) hok⟩

/-! ## A request behind a refused one -/

/-- A head that ends with this code in front of these bytes, keep-alive being on. -/
def endsAlive (code : HttpCode) (rest : Bytes) : HeadResult → Bool
  | .ended code' p _ rest' => decide (code' = code) && p.linger && decide (rest' = rest)
  | _ => false

theorem endsAlive_iff {code : HttpCode} {rest : Bytes} {r : HeadResult}
    (h : endsAlive code rest r = true) :
    ∃ p pos, r = .ended code p pos rest ∧ p.linger = true := by
  cases r with
  | ended code' p pos rest' =>
    simp only [endsAlive, Bool.and_eq_true, decide_eq_true_eq] at h
    obtain ⟨⟨rfl, hl⟩, rfl⟩ := h
    exact ⟨p, pos, rfl, hl⟩
  | more => cases h
  | badLine => cases h
  | body => cases h

variable (dispatch) in
/-- A line refused with keep-alive on: the next round starts behind it. -/
theorem AtRequest.refused {s : Session σ} {u : Bytes} (h : s.AtRequest u) (hu : u ≠ [])
    (rest : Bytes)
    (hr : endsAlive .badRequest rest (readHead {} 0 u) = true) {ws : List WritevResult}
    (hw : HttpConn.Completes ws) :
    ∃ s', Machine.run (Session.step dispatch) s [.work, .writable ws .accepted] = some s' ∧
      s'.AtRequest rest ∧ s'.log = s.log ++ [.rejected .badRequest] := by
  obtain ⟨p, pos, hhead, hl⟩ := endsAlive_iff hr
  rw [← h.unread] at hhead
  obtain ⟨c₁, hread, hp, hrest⟩ := h.fresh.processRead_ended h.waiting.ready.read_le hhead
  obtain ⟨resp, hresp, hfit⟩ := (Option.any_eq_true _ _).mp badRequest_fits
  have hl₁ : c₁.linger = true := (congrArg Parser.linger hp).trans hl
  have hans : HttpConn.answer dispatch s.store c₁ .badRequest =
      some (s.store, resp, .rejected .badRequest) := by
    rw [HttpConn.answer, hresp, Option.map_some]
  have hfit₁ : (c₁.withConnection resp).serialize.length < WRITE_BUFFER_SIZE := by
    rw [HttpConn.withConnection, if_pos hl₁]
    exact of_decide_eq_true hfit
  have hq : s.queued = true := h.queued.trans (decide_eq_true hu)
  have hres := round_resumes dispatch h.opened hq h.waiting hw hread (by simp) (by simp) hl₁ hans hfit₁
  obtain ⟨hwork, -⟩ := work_answers h.waiting hread (by simp) (by simp) hans hfit₁
  refine ⟨_, run_round h.opened hq ?_ ?_ ?_ ws, hrest ▸ hres.atRequest, hres.log_eq⟩ <;> rw [hwork]
  exact h.opened

variable (dispatch) in
theorem AtRequest.dispatches {s : Session σ} {u : Bytes} (h : s.AtRequest u) (hu : u ≠ [])
    (rest : Bytes)
    (hr : endsAlive .getRequest rest (readHead {} 0 u) = true) :
    ∃ s' d, Session.step dispatch s .work = some s' ∧ s'.log = s.log ++ [d] ∧ d.IsDispatched := by
  obtain ⟨p, pos, hhead, -⟩ := endsAlive_iff hr
  rw [← h.unread] at hhead
  obtain ⟨c₁, hread, -, -⟩ := h.fresh.processRead_ended h.waiting.ready.read_le hhead
  have hq : s.queued = true := h.queued.trans (decide_eq_true hu)
  have hstep : Session.step dispatch s .work = some (work dispatch s) := by
    simp only [Session.step, h.opened, hq, and_self, if_true]
  rcases work_cases dispatch h.waiting with ⟨c₂, hread', -⟩ | ⟨c₂, code, hread', -, ha⟩
  · rw [hread] at hread'
    cases hread'
  · rw [hread] at hread'
    cases hread'
    rcases ha with ⟨-, hw⟩ | ⟨st, resp, did, hans, hw⟩
    · exact ⟨_, .raised, hstep, by rw [hw], trivial⟩
    · rw [HttpConn.answer_getRequest, Option.map_eq_some_iff] at hans
      obtain ⟨r, -, hr⟩ := hans
      cases hr
      exact ⟨_, .dispatched _ _, hstep, by rw [hw], trivial⟩

/-- The body of a request refused for its Transfer-Encoding is dispatched as a request. -/
def smuggled : Bytes :=
  ascii "POST / HTTP/1.1\r\nTransfer-Encoding: chunked\r\n\r\nGET /admin HTTP/1.1\r\n\r\n"

theorem no_dispatch_after_error_fails :
    ¬ ∀ (es : List Event) (s : Session Unit),
      Machine.run (Session.step noRoutes) (accept () {} 5 0) es = some s →
      (∀ e ∈ es, e.Complete) → NoDispatchAfterError s.log := by
  intro hall
  obtain ⟨s₀, h₀, hat₀, -, -, hlog₀⟩ := accept_received noRoutes () {} 5 0
    (d := smuggled) (by decide) (by decide)
  obtain ⟨s₁, h₁, hat₁, hlog₁⟩ := hat₀.refused noRoutes (by decide)
    (ascii "\r\nGET /admin HTTP/1.1\r\n\r\n") (by decide +kernel) completes_sent
  obtain ⟨s₂, h₂, hat₂, hlog₂⟩ := hat₁.refused noRoutes (by decide)
    (ascii "GET /admin HTTP/1.1\r\n\r\n") (by decide +kernel) completes_sent
  obtain ⟨s₃, d, h₃, hlog₃, hd⟩ := hat₂.dispatches noRoutes (by decide)
    [] (by decide +kernel)
  have hrun : Machine.run (Session.step noRoutes) (accept () {} 5 0)
      ([.readable [.data smuggled] .accepted] ++
        ([.work, .writable [.sent WRITE_BUFFER_SIZE] .accepted] ++
          ([.work, .writable [.sent WRITE_BUFFER_SIZE] .accepted] ++ [.work]))) = some s₃ := by
    rw [Machine.run_append, Machine.run_single, h₀, Option.bind_some, Machine.run_append, h₁,
      Option.bind_some, Machine.run_append, h₂, Option.bind_some, Machine.run_single, h₃]
  have := hall _ _ hrun (by simp [Event.Complete, completes_sent])
  rw [hlog₃, hlog₂, hlog₁, hlog₀] at this
  simp only [NoDispatchAfterError, List.nil_append, List.cons_append, List.pairwise_cons,
    List.mem_cons, List.not_mem_nil, or_false] at this
  exact this.1 d (Or.inr rfl) trivial hd

end Session
end Http
end UrlShortener
