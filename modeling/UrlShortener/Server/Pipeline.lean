import UrlShortener.Http.Wire
import UrlShortener.Server.Rounds

/-!
# UrlShortener.Server.Pipeline

Requests that arrive together are answered one by one.

`serve` is what the handlers answer to a list of requests, one after the other. The encoding of
well-formed requests is taken through rounds of `process` and complete writes: each is dispatched
as it was sent, and nothing is left in the buffer.

`Serving` is the invariant behind short writes: whatever has been sent, the rest of the response
on its way and the responses still to come make up the whole stream. It is kept by every answer of
`writev` but one. When `writev` refuses while a request is still buffered, `dealwithwrite` queues a
task at once, and `process` overwrites the response that was going out.
-/

namespace UrlShortener
namespace Http

/-- What the server must make of a request, seen through the map's lookups. -/
structure Delivered (r : WireRequest) (req : HttpRequest) : Prop where
  method : req.method = r.method.name
  path : req.path = r.path
  query : req.query = r.query
  body : req.body = r.body
  headers : ∀ key, req.headers.lookup key =
    (r.headers.find? fun f => decide (canonicalName f.1 = key)).map Prod.snd
  params : req.params = ∅
  route : req.routePattern = []

theorem WireRequest.WellFormed.delivered {r : WireRequest} (h : r.WellFormed) :
    Delivered r r.request :=
  ⟨rfl, rfl, rfl, rfl, WireRequest.headerMap_lookup h.distinct, rfl, rfl⟩

namespace Session

variable {σ : Type} {dispatch : σ → HttpRequest → σ × Dispatched}

/-- The responses to a list of requests on one kept-alive connection. -/
def serve (dispatch : σ → HttpRequest → σ × Dispatched) :
    σ → List HttpRequest → Option (σ × List HttpResponse)
  | st, [] => some (st, [])
  | st, req :: reqs => do
    let (st, resp) ← HttpConn.respond dispatch st req
    let (st, resps) ← serve dispatch st reqs
    return (st, resp.setHeader (ascii "Connection") (ascii "keep-alive") :: resps)

theorem serve_cons {st st' : σ} {req : HttpRequest} {reqs : List HttpRequest}
    {resps : List HttpResponse} (h : serve dispatch st (req :: reqs) = some (st', resps)) :
    ∃ st₁ resp resps', HttpConn.respond dispatch st req = some (st₁, resp) ∧
      serve dispatch st₁ reqs = some (st', resps') ∧
      resps = resp.setHeader (ascii "Connection") (ascii "keep-alive") :: resps' := by
  simp only [serve, Option.bind_eq_bind, Option.bind_eq_some_iff] at h
  obtain ⟨⟨st₁, resp⟩, h1, ⟨st₂, resps'⟩, h2, h3⟩ := h
  cases h3
  exact ⟨st₁, resp, resps', h1, h2, rfl⟩

/-- The requests that reached the router. -/
def dispatchedRequests (log : List Processed) : List HttpRequest :=
  log.filterMap fun d => match d with | .dispatched req _ => some req | _ => none

/-- The bytes of a list of responses. -/
def wire (resps : List HttpResponse) : Bytes := resps.flatMap HttpResponse.serialize

/-- **`process_read` accepts an encoded request** and stops right behind it. -/
theorem AtRequest.processRead {s : Session σ} {r : WireRequest} {rest : Bytes}
    (h : s.AtRequest (r.encode ++ rest)) (hwf : r.WellFormed)
    (hlen : r.encode.length < READ_BUFFER_SIZE) :
    ∃ c₁, s.conn.processRead = (c₁, .getRequest) ∧ c₁.request = r.request ∧
      c₁.linger = true ∧ c₁.unread = rest := by
  obtain ⟨pos, hhead⟩ := WireRequest.readHead_encode hwf hlen rest
  rw [← h.unread] at hhead
  have hread := h.waiting.ready.read_le
  by_cases hb : r.body = []
  · rw [if_pos hb] at hhead
    obtain ⟨c₁, he, hp, hu⟩ := h.fresh.processRead_ended hread hhead
    refine ⟨c₁, he, (congrArg Parser.request hp).trans ?_, congrArg Parser.linger hp, hu⟩
    simp only [WireRequest.headParser, WireRequest.request, hb]
  · rw [if_neg hb] at hhead
    obtain ⟨c₁, he, hp, hu⟩ := h.fresh.processRead_body hread hhead
      (by simp [WireRequest.headParser])
    refine ⟨c₁, he, (congrArg Parser.request hp).trans ?_, congrArg Parser.linger hp, ?_⟩
    · simp only [WireRequest.headParser, WireRequest.request, List.take_left]
    · rw [hu]
      exact List.drop_left

/-- **One round takes one request off the buffer.** -/
theorem AtRequest.round {s : Session σ} {r : WireRequest} {rest : Bytes}
    (h : s.AtRequest (r.encode ++ rest)) (hwf : r.WellFormed)
    (hlen : r.encode.length < READ_BUFFER_SIZE) {st : σ} {resp : HttpResponse}
    (hresp : HttpConn.respond dispatch s.store r.request = some (st, resp))
    (hfit : (resp.setHeader (ascii "Connection") (ascii "keep-alive")).serialize.length <
      WRITE_BUFFER_SIZE) {ws : List WritevResult} (hw : HttpConn.Completes ws) :
    (Session.round dispatch s ws).AtRequest rest ∧ (Session.round dispatch s ws).store = st ∧
      (Session.round dispatch s ws).armed = some .epollin ∧
      (Session.round dispatch s ws).sent = s.sent ++
        (resp.setHeader (ascii "Connection") (ascii "keep-alive")).serialize ∧
      (Session.round dispatch s ws).log = s.log ++
        [.dispatched r.request (resp.setHeader (ascii "Connection") (ascii "keep-alive"))] := by
  obtain ⟨c₁, he, hreq, hl, hu⟩ := h.processRead hwf hlen
  have hq : s.queued = true := h.queued.trans (decide_eq_true (by
    simp [WireRequest.encode]))
  have hconn : c₁.withConnection resp =
      resp.setHeader (ascii "Connection") (ascii "keep-alive") := by
    rw [HttpConn.withConnection, if_pos hl]
  have hans : HttpConn.answer dispatch s.store c₁ .getRequest =
      some (st, resp, .dispatched r.request
        (resp.setHeader (ascii "Connection") (ascii "keep-alive"))) := by
    rw [HttpConn.answer_getRequest, hreq, hresp, Option.map_some, hconn]
  have hres := round_resumes dispatch h.opened hq h.waiting hw he (by simp) (by simp) hl hans
    (by rw [hconn]; exact hfit)
  rw [hconn] at hres
  exact ⟨hu ▸ hres.atRequest, hres.store, hres.armed, hres.sent_eq, hres.log_eq⟩

theorem rounds_succ (s : Session σ) (wss : Nat → List WritevResult) (n : Nat) :
    rounds dispatch s wss (n + 1) =
      rounds dispatch (Session.round dispatch s (wss 0)) (fun k => wss (k + 1)) n := by
  induction n with
  | zero => rfl
  | succ n ih => rw [rounds, ih]; rfl

/-- Rounds over a buffer that holds exactly these requests. -/
theorem rounds_serve {reqs : List WireRequest} {s : Session σ} {st' : σ}
    {resps : List HttpResponse} {wss : Nat → List WritevResult}
    (h : s.AtRequest (reqs.flatMap WireRequest.encode)) (ha : reqs = [] → s.armed = some .epollin)
    (hwf : ∀ r ∈ reqs, r.WellFormed)
    (hlen : (reqs.flatMap WireRequest.encode).length < READ_BUFFER_SIZE)
    (hserve : serve dispatch s.store (reqs.map WireRequest.request) = some (st', resps))
    (hfit : ∀ resp ∈ resps, resp.serialize.length < WRITE_BUFFER_SIZE)
    (hw : ∀ k, HttpConn.Completes (wss k)) :
    (rounds dispatch s wss reqs.length).AtRequest [] ∧
      (rounds dispatch s wss reqs.length).armed = some .epollin ∧
      (rounds dispatch s wss reqs.length).sent = s.sent ++ wire resps ∧
      (rounds dispatch s wss reqs.length).log = s.log ++
        List.zipWith Processed.dispatched (reqs.map WireRequest.request) resps := by
  induction reqs generalizing s resps wss with
  | nil =>
    simp only [List.map_nil, serve, Option.some.injEq, Prod.mk.injEq] at hserve
    obtain ⟨-, rfl⟩ := hserve
    exact ⟨h, ha rfl, by simp [rounds, wire], by simp [rounds]⟩
  | cons r reqs ih =>
    obtain ⟨hwfr, hwfs⟩ := List.forall_mem_cons.mp hwf
    rw [List.flatMap_cons, List.length_append] at hlen
    rw [List.map_cons] at hserve
    obtain ⟨st₁, resp, resps', hresp, hserve', rfl⟩ := serve_cons hserve
    obtain ⟨hfitr, hfits⟩ := List.forall_mem_cons.mp hfit
    obtain ⟨hat, hstore, harm, hsent, hlog⟩ := h.round hwfr (by omega) hresp hfitr (hw 0)
    rw [List.length_cons, rounds_succ]
    obtain ⟨h1, h2, h3, h4⟩ := ih hat (fun _ => harm) hwfs (by omega)
      (by rw [hstore]; exact hserve') hfits (fun k => hw (k + 1))
    refine ⟨h1, h2, ?_, ?_⟩
    · rw [h3, hsent, List.append_assoc]
      rfl
    · rw [h4, hlog, List.append_assoc]
      rfl

/-- Bytes that arrive in one read; no bytes, no event. -/
def arrival (d : Bytes) : List Event := if d = [] then [] else [.readable [.data d] .accepted]

variable (dispatch) in
theorem run_arrival (st : σ) (slot : HttpConn) (connfd trigMode : Nat) {d : Bytes}
    (hlen : d.length ≤ READ_BUFFER_SIZE) :
    ∃ s, Machine.run (step dispatch) (accept st slot connfd trigMode) (arrival d) = some s ∧
      s.AtRequest d ∧ (d = [] → s.armed = some .epollin) ∧ s.store = st ∧ s.sent = [] ∧
      s.log = [] := by
  unfold arrival
  split
  · rename_i hd
    subst hd
    exact ⟨_, rfl, ⟨rfl, rfl, accept_waiting st slot connfd trigMode, ⟨rfl, rfl, rfl⟩, rfl⟩,
      fun _ => rfl, rfl, rfl, rfl⟩
  · rename_i hd
    obtain ⟨s, h1, h2, h3, h4, h5⟩ := accept_received dispatch st slot connfd trigMode
      hd hlen
    exact ⟨s, (Machine.run_single _ _ _).trans h1, h2, fun h => absurd h hd, h3, h4, h5⟩

theorem serve_length {st st' : σ} {reqs : List HttpRequest} {resps : List HttpResponse}
    (h : serve dispatch st reqs = some (st', resps)) : resps.length = reqs.length := by
  induction reqs generalizing st resps with
  | nil => cases h; rfl
  | cons req reqs ih =>
    obtain ⟨st₁, resp, resps', -, h2, rfl⟩ := serve_cons h
    rw [List.length_cons, List.length_cons, ih h2]

theorem dispatchedRequests_zipWith {reqs : List HttpRequest} {resps : List HttpResponse}
    (h : resps.length = reqs.length) :
    dispatchedRequests (List.zipWith Processed.dispatched reqs resps) = reqs := by
  induction reqs generalizing resps with
  | nil => rfl
  | cons req reqs ih =>
    obtain ⟨resp, resps, rfl⟩ : ∃ resp resps', resps = resp :: resps' := by
      cases resps with
      | nil => simp at h
      | cons resp resps => exact ⟨resp, resps, rfl⟩
    rw [List.zipWith_cons_cons, dispatchedRequests, List.filterMap_cons]
    exact congrArg (req :: ·) (ih (by simpa using h))

/-- **The pipelined round trip.** -/
theorem pipelined_round_trip (dispatch : σ → HttpRequest → σ × Dispatched) (st st' : σ)
    (slot : HttpConn) (connfd trigMode : Nat) (reqs : List WireRequest)
    (resps : List HttpResponse) (wss : Nat → List WritevResult)
    (hwf : ∀ r ∈ reqs, r.WellFormed)
    (hlen : (reqs.flatMap WireRequest.encode).length < READ_BUFFER_SIZE)
    (hserve : serve dispatch st (reqs.map WireRequest.request) = some (st', resps))
    (hfit : ∀ resp ∈ resps, resp.serialize.length < WRITE_BUFFER_SIZE)
    (hw : ∀ k, HttpConn.Completes (wss k)) :
    ∃ s, Machine.run (step dispatch) (accept st slot connfd trigMode)
        (arrival (reqs.flatMap WireRequest.encode)) = some s ∧
      List.Forall₂ Delivered reqs
        (dispatchedRequests (rounds dispatch s wss reqs.length).log) ∧
      (rounds dispatch s wss reqs.length).log.length = reqs.length ∧
      (rounds dispatch s wss reqs.length).conn.hasPipelinedInput = false := by
  obtain ⟨s, hrun, hat, harm, hstore, -, hlog⟩ := run_arrival dispatch st slot connfd
    trigMode (Nat.le_of_lt hlen)
  have hempty : reqs = [] → s.armed = some .epollin := fun h => harm (by rw [h]; rfl)
  obtain ⟨h1, -, -, h4⟩ := rounds_serve hat hempty hwf hlen (by rw [hstore]; exact hserve) hfit hw
  have hl : resps.length = (reqs.map WireRequest.request).length := serve_length hserve
  refine ⟨s, hrun, ?_, ?_, ?_⟩
  · rw [h4, hlog, List.nil_append, dispatchedRequests_zipWith hl]
    exact List.forall₂_map_right_iff.mpr (List.forall₂_same.mpr fun r hr => (hwf r hr).delivered)
  · rw [h4, hlog, List.nil_append, List.length_zipWith, hl, List.length_map, Nat.min_self]
  · have hlen0 : (rounds dispatch s wss reqs.length).conn.unread.length = 0 := by
      rw [h1.unread]
      rfl
    rw [HttpConn.unread_length] at hlen0
    rw [HttpConn.hasPipelinedInput]
    exact decide_eq_false (by omega)

/-- A GET and a POST whose body is made of line ends and a NUL. -/
def mixedPair : List WireRequest :=
  [{ method := .get, target := ascii "/a?x", headers := [(ascii "host", ascii "h")], body := [] },
    { method := .post, target := ascii "/b", headers := [(ascii "Content-Length", ascii "3")],
      body := [CR, LF, NUL] }]

theorem mixedPair_wellFormed : ∀ r ∈ mixedPair, r.WellFormed := by decide +kernel

theorem mixedPair_served :
    (serve noRoutes () (mixedPair.map WireRequest.request)).any
      (fun r => r.2.all fun resp => resp.serialize.length < WRITE_BUFFER_SIZE) = true := by
  decide +kernel

theorem pipelined_round_trip_mixedPair :
    ∃ s, Machine.run (step noRoutes) (accept () {} 5 0)
        (arrival (mixedPair.flatMap WireRequest.encode)) = some s ∧
      List.Forall₂ Delivered mixedPair
        (dispatchedRequests (rounds noRoutes s (fun _ => [.sent WRITE_BUFFER_SIZE]) 2).log) := by
  obtain ⟨⟨st', resps⟩, hserve, hfit⟩ := (Option.any_eq_true _ _).mp mixedPair_served
  obtain ⟨s, h1, h2, -⟩ := pipelined_round_trip noRoutes () st' {} 5 0 mixedPair resps
    (fun _ => [.sent WRITE_BUFFER_SIZE]) mixedPair_wellFormed (by decide) hserve
    (by simpa using hfit) (fun _ => completes_sent)
  exact ⟨s, h1, h2⟩

/-! ## Short writes -/

/-- The requests still in the buffer, and what will be answered to them. -/
structure Pending (dispatch : σ → HttpRequest → σ × Dispatched) (st : σ)
    (reqs : List WireRequest) (resps : List HttpResponse) : Prop where
  wellFormed : ∀ r ∈ reqs, r.WellFormed
  length : (reqs.flatMap WireRequest.encode).length < READ_BUFFER_SIZE
  served : ∃ st', serve dispatch st (reqs.map WireRequest.request) = some (st', resps)
  fits : ∀ resp ∈ resps, resp.serialize.length < WRITE_BUFFER_SIZE

/-- How a stream of responses is being sent: `sent`, the rest of the response on its way, and the
responses to what is still buffered make up `total`. -/
inductive Serving (dispatch : σ → HttpRequest → σ × Dispatched) (total : Bytes) (n : Nat)
    (s : Session σ) : Prop
  | request (reqs : List WireRequest) (resps : List HttpResponse)
      (at_ : s.AtRequest (reqs.flatMap WireRequest.encode))
      (armed : reqs = [] → s.armed = some .epollin) (pending : Pending dispatch s.store reqs resps)
      (few : reqs.length ≤ n) (stream : s.sent ++ wire resps = total)
  | reply (raw : Bytes) (k : Nat) (reqs : List WireRequest) (resps : List HttpResponse)
      (opened : s.status = .opened) (free : s.queued = false) (armed : s.armed = some .epollout)
      (replying : s.conn.Replying raw k) (alive : s.conn.linger = true)
      (unread : s.conn.unread = reqs.flatMap WireRequest.encode)
      (pending : Pending dispatch s.store reqs resps) (few : reqs.length ≤ n)
      (stream : s.sent ++ (raw.drop k ++ wire resps) = total)
  | writing (free : s.queued = false) (armed : s.armed = none) (rest : s.sent <+: total)

theorem Serving.isPrefix {total : Bytes} {n : Nat} {s : Session σ}
    (h : Serving dispatch total n s) : s.sent <+: total := by
  cases h with
  | request _ _ _ _ _ _ stream => exact ⟨_, stream⟩
  | reply _ _ _ _ _ _ _ _ _ _ _ _ stream => exact ⟨_, stream⟩
  | writing _ _ rest => exact rest

/-- The events of a connection that receives nothing more: tasks, and writes under any answers of
`writev` but a broken socket. -/
def Event.Sends : Event → Prop
  | .work => True
  | .writable ws a => .error ∉ ws ∧ a = .accepted
  | _ => False

theorem Serving.work {total : Bytes} {n : Nat} {s : Session σ} (h : Serving dispatch total n s)
    (hq : s.queued = true) : Serving dispatch total n (work dispatch s) := by
  cases h with
  | reply _ _ _ _ _ free => rw [free] at hq; cases hq
  | writing free => rw [free] at hq; cases hq
  | request reqs resps hat harm hp few stream =>
    cases reqs with
    | nil =>
      have := hat.queued
      rw [hq] at this
      simp at this
    | cons r reqs =>
      obtain ⟨hwfr, hwfs⟩ := List.forall_mem_cons.mp hp.wellFormed
      have hlen := hp.length
      rw [List.flatMap_cons, List.length_append] at hlen
      obtain ⟨st', hserve⟩ := hp.served
      rw [List.map_cons] at hserve
      obtain ⟨st₁, resp, resps', hresp, hserve', rfl⟩ := serve_cons hserve
      obtain ⟨hfitr, hfits⟩ := List.forall_mem_cons.mp hp.fits
      obtain ⟨c₁, he, hreq, hl, hu⟩ := hat.processRead hwfr (by omega)
      have hconn : c₁.withConnection resp =
          resp.setHeader (ascii "Connection") (ascii "keep-alive") := by
        rw [HttpConn.withConnection, if_pos hl]
      have hans : HttpConn.answer dispatch s.store c₁ .getRequest =
          some (st₁, resp, .dispatched c₁.request (c₁.withConnection resp)) := by
        rw [HttpConn.answer_getRequest, hreq, hresp, Option.map_some]
      obtain ⟨hwork, hr⟩ := work_answers hat.waiting he (by simp) (by simp) hans
        (by rw [hconn]; exact hfitr)
      rw [hconn] at hwork hr
      rw [hwork]
      generalize hraw : (resp.setHeader (ascii "Connection") (ascii "keep-alive")).serialize = raw at *
      refine .reply raw 0 reqs resps' hat.opened rfl rfl hr hl hu
        ⟨hwfs, by omega, ⟨st', hserve'⟩, hfits⟩ (by simp only [List.length_cons] at few; omega) ?_
      rw [← stream, List.drop_zero, wire, wire, List.flatMap_cons, hraw]

/-- The connection after a complete response. -/
theorem written_kept {s : Session σ} {c : HttpConn} {raw : Bytes} {k : Nat}
    (out : Bytes) (hr : c.Replying raw k) (hs : s.status = .opened) (hq : s.queued = false) :
    (written s .accepted ((c.sentTo raw raw.length).retainPipelinedBytes, out,
        .returned true (some .epollin))).AtRequest c.unread ∧
      (written s .accepted ((c.sentTo raw raw.length).retainPipelinedBytes, out,
        .returned true (some .epollin))).armed = some .epollin ∧
      (written s .accepted ((c.sentTo raw raw.length).retainPipelinedBytes, out,
        .returned true (some .epollin))).store = s.store ∧
      (written s .accepted ((c.sentTo raw raw.length).retainPipelinedBytes, out,
        .returned true (some .epollin))).sent = s.sent ++ out := by
  generalize hc' : (c.sentTo raw raw.length).retainPipelinedBytes = c'
  have hfresh : c'.Fresh := hc' ▸ HttpConn.retain_fresh _
  have hun : c'.unread = c.unread := hc' ▸ HttpConn.retain_unread _
  have hwait : c'.Waiting := hc' ▸ HttpConn.retain_waiting hr.read_le hr.sock
  have hlen := congrArg List.length hun
  rw [HttpConn.unread_length, hfresh.checked] at hlen
  simp only [written, if_true, HttpConn.hasPipelinedInput, hfresh.checked]
  by_cases hp : 0 < c'.readIdx
  · have hne : c.unread ≠ [] := List.length_pos_iff.mp (by omega)
    simp only [hp, decide_true, if_true]
    exact ⟨⟨hs, (decide_eq_true hne).symm, hwait, hfresh, hun⟩, rfl, rfl, rfl⟩
  · have hnil : c.unread = [] := List.length_eq_zero_iff.mp (by omega)
    simp only [hp, decide_false, Bool.false_eq_true, if_false]
    exact ⟨⟨hs, by rw [hnil]; exact hq, hwait, hfresh, hun⟩, trivial, trivial, trivial⟩

theorem Serving.dealwithwrite {total : Bytes} {n : Nat} {s : Session σ}
    {raw : Bytes} {k : Nat} {reqs : List WireRequest} {resps : List HttpResponse}
    (hs : s.status = .opened) (hq : s.queued = false) (ha : s.armed = none)
    (hr : s.conn.Replying raw k) (hl : s.conn.linger = true)
    (hu : s.conn.unread = reqs.flatMap WireRequest.encode)
    (hp : Pending dispatch s.store reqs resps) (few : reqs.length ≤ n)
    (stream : s.sent ++ (raw.drop k ++ wire resps) = total) {ws : List WritevResult}
    (herr : .error ∉ ws) (hok : ¬ (.eagain ∈ ws ∧ s.conn.hasPipelinedInput = true)) :
    Serving dispatch total n (Session.dealwithwrite s ws .accepted) := by
  obtain ⟨k', hk, hk', hout, hw⟩ := hr.sending.write ws
  -- What has gone out by now, and what is left of the response.
  have hsplit : ∀ tail, s.sent ++ (raw.drop k).take (k' - k) ++ (raw.drop k' ++ tail) =
      s.sent ++ (raw.drop k ++ tail) := by
    intro tail
    have hdrop : raw.drop k' = (raw.drop k).drop (k' - k) := by
      rw [List.drop_drop, Nat.add_sub_of_le hk]
    rw [hdrop, List.append_assoc, ← List.append_assoc (List.take _ _), List.take_append_drop]
  rw [Session.dealwithwrite]
  rcases hwr : s.conn.write ws with ⟨c', out, o⟩
  rw [hwr] at hw hout
  simp only at hw hout
  cases hw with
  | looping lt few' =>
    refine .writing hq ha ⟨raw.drop k' ++ wire resps, ?_⟩
    show s.sent ++ out ++ _ = _
    rw [hout, hsplit, stream]
  | refused lt mem =>
    have hpi : (s.conn.sentTo raw k').hasPipelinedInput = false := by
      have : ¬ s.conn.hasPipelinedInput = true := fun h => hok ⟨mem, h⟩
      exact Bool.eq_false_iff.mpr this
    simp only [written, hpi]
    refine .reply raw k' reqs resps hs hq rfl (hr.sentTo lt) hl hu hp few ?_
    show s.sent ++ out ++ _ = _
    rw [hout, hsplit, stream]
  | failed lt mem => exact absurd mem herr
  | kept alive =>
    obtain ⟨hat, harm, hstore, hsent⟩ := written_kept out hr hs hq
    refine .request reqs resps (hu ▸ hat) (fun _ => harm) (by rw [hstore]; exact hp) few ?_
    rw [hsent, hout, ← stream, ← hsplit, List.drop_length, List.nil_append]
  | done close => rw [hl] at close; cases close

theorem Serving.step {total : Bytes} {n : Nat} {s s' : Session σ} {e : Event}
    (h : Serving dispatch total n s) (he : Event.Sends e) (hok : ¬ Interrupts s e)
    (hs : Session.step dispatch s e = some s') : Serving dispatch total n s' := by
  cases e with
  | readable rs a => cases he
  | hangup => cases he
  | work =>
    simp only [Session.step] at hs
    split at hs
    · rename_i hc
      cases hs
      exact h.work hc.2
    · cases hs
  | writable ws a =>
    obtain ⟨herr, rfl⟩ := he
    simp only [Session.step] at hs
    split at hs
    · rename_i hc
      cases hs
      cases h with
      | request reqs resps hat harm hp few stream =>
        have hnil : reqs.flatMap WireRequest.encode = [] := by
          have := hat.queued
          rw [hc.2.1] at this
          simpa using this.symm
        have hreqs : reqs = [] := by
          cases reqs with
          | nil => rfl
          | cons r reqs => simp [WireRequest.encode] at hnil
        rw [harm hreqs] at hc
        simp at hc
      | writing _ armed => rw [armed] at hc; simp at hc
      | reply raw k reqs resps ho hq ha hr hl hu hp few stream =>
        exact Serving.dealwithwrite (s := { s with armed := none }) ho hq rfl hr hl hu hp few stream
          herr hok
    · cases hs

/-- Buffered requests, served by complete writes. -/
theorem AtRequest.finish {total : Bytes} {n : Nat} {s : Session σ} {reqs : List WireRequest}
    {resps : List HttpResponse} (hat : s.AtRequest (reqs.flatMap WireRequest.encode))
    (harm : reqs = [] → s.armed = some .epollin) (hp : Pending dispatch s.store reqs resps)
    (few : reqs.length ≤ n) (stream : s.sent ++ wire resps = total)
    {wss : Nat → List WritevResult} (hw : ∀ k, HttpConn.Completes (wss k)) :
    (rounds dispatch s wss n).sent = total := by
  obtain ⟨st', hserve⟩ := hp.served
  obtain ⟨h1, h2, h3, -⟩ := rounds_serve hat harm hp.wellFormed hp.length hserve hp.fits hw
  rw [rounds_of_atRest ⟨h1.queued.trans (by simp), fun _ => h2⟩ few, h3, stream]

/-- **When `writev` stops refusing, everything goes out.** -/
theorem Serving.finish {total : Bytes} {n : Nat} {s : Session σ} (h : Serving dispatch total n s)
    (hout : ¬ (s.queued = false ∧ s.armed = none)) {wss : Nat → List WritevResult}
    (hw : ∀ k, HttpConn.Completes (wss k)) : (rounds dispatch s wss (n + 1)).sent = total := by
  cases h with
  | writing free armed => exact absurd ⟨free, armed⟩ hout
  | request reqs resps hat harm hp few stream =>
    exact hat.finish harm hp (Nat.le_succ_of_le few) stream hw
  | reply raw k reqs resps ho hq ha hr hl hu hp few stream =>
    obtain ⟨hsent, ⟨-, hc, hok⟩ | ⟨hl', -, -⟩⟩ := hr.sending.write_completes hr.fits (hw 0)
    · have hwr : s.conn.write (wss 0) = ((s.conn.sentTo raw raw.length).retainPipelinedBytes,
          raw.drop k, .returned true (some .epollin)) := Prod.ext hc (Prod.ext hsent hok)
      have hround : Session.round dispatch s (wss 0) = written { s with armed := none } .accepted
          ((s.conn.sentTo raw raw.length).retainPipelinedBytes, raw.drop k,
            .returned true (some .epollin)) := by
        have h1 : Session.step dispatch s .work = none := by
          simp only [Session.step, hq, Bool.false_eq_true, and_false, if_false]
        have h2 : Session.step dispatch s (.writable (wss 0) .accepted) =
            some (Session.dealwithwrite { s with armed := none } (wss 0) .accepted) := by
          simp only [Session.step, ho, hq, ha, and_self, if_true]
        rw [Session.round, h1, Option.getD_none, h2, Option.getD_some, Session.dealwithwrite, hwr]
      obtain ⟨hat, harm, hstore, hsent'⟩ := written_kept (s := { s with armed := none })
        (raw.drop k) hr ho hq
      rw [← hround] at hat harm hstore hsent'
      rw [rounds_succ]
      refine (hu ▸ hat).finish (fun _ => harm) (by rw [hstore]; exact hp) few ?_
        (fun k => hw (k + 1))
      rw [hsent', ← stream, List.append_assoc]
    · rw [hl] at hl'
      cases hl'

/-- **The response stream under short writes.** In every run in which `writev` never refuses while
a request is still buffered, the bytes sent are a prefix of the responses in request order, and
complete writes from there on send the rest. -/
theorem sent_isPrefix (dispatch : σ → HttpRequest → σ × Dispatched) (st st' : σ) (slot : HttpConn)
    (connfd trigMode : Nat) (reqs : List WireRequest) (resps : List HttpResponse)
    (s₀ s : Session σ) (es : List Event) (hwf : ∀ r ∈ reqs, r.WellFormed)
    (hlen : (reqs.flatMap WireRequest.encode).length < READ_BUFFER_SIZE)
    (hserve : serve dispatch st (reqs.map WireRequest.request) = some (st', resps))
    (hfit : ∀ resp ∈ resps, resp.serialize.length < WRITE_BUFFER_SIZE)
    (harr : Machine.run (Session.step dispatch) (accept st slot connfd trigMode)
      (arrival (reqs.flatMap WireRequest.encode)) = some s₀)
    (hes : ∀ e ∈ es, Event.Sends e)
    (hok : Machine.Along (Session.step dispatch) (fun s e => ¬ Interrupts s e) s₀ es)
    (hrun : Machine.run (Session.step dispatch) s₀ es = some s) :
    s.sent <+: wire resps ∧
      (¬ (s.queued = false ∧ s.armed = none) →
        ∀ wss : Nat → List WritevResult, (∀ k, HttpConn.Completes (wss k)) →
          (rounds dispatch s wss (reqs.length + 1)).sent = wire resps) := by
  obtain ⟨s₁, harr', hat, harm, hstore, hsent, -⟩ := run_arrival dispatch st slot
    connfd trigMode (Nat.le_of_lt hlen)
  obtain rfl : s₁ = s₀ := Option.some.inj (harr'.symm.trans harr)
  have hinit : Serving dispatch (wire resps) reqs.length s₁ :=
    .request reqs resps hat (fun h => harm (by rw [h]; rfl))
      ⟨hwf, hlen, ⟨st', by rw [hstore]; exact hserve⟩, hfit⟩ (Nat.le_refl _)
      (by rw [hsent, List.nil_append])
  have h := Machine.run_invariant _ (fun _ _ _ h hok hs => Serving.step h hok.1 hok.2 hs) hinit
    (hok.and_forall _ hes) hrun
  exact ⟨h.isPrefix, fun hout wss hw => h.finish hout hw⟩

/-- Two GETs for different paths. -/
def twoGets : List WireRequest :=
  [{ method := .get, target := ascii "/a", headers := [], body := [] },
    { method := .get, target := ascii "/b", headers := [], body := [] }]

theorem twoGets_wellFormed : ∀ r ∈ twoGets, r.WellFormed := by decide +kernel

theorem twoGets_served :
    (serve noRoutes () (twoGets.map WireRequest.request)).any
      (fun r => r.2.all fun resp => resp.serialize.length < WRITE_BUFFER_SIZE) = true := by
  decide +kernel

/-- Both responses go out in parts. `writev` refuses the rest of the second one, when no request is
left in the buffer. -/
def inParts : List Event :=
  [.work, .writable [.sent 5, .eintr, .sent WRITE_BUFFER_SIZE] .accepted, .work,
    .writable [.sent 5, .eagain] .accepted]

theorem sent_isPrefix_twoGets :
    ∃ resps s₀ s, serve noRoutes () (twoGets.map WireRequest.request) = some ((), resps) ∧
      Machine.run (Session.step noRoutes) (accept () {} 5 0)
        (arrival (twoGets.flatMap WireRequest.encode)) = some s₀ ∧
      Machine.run (Session.step noRoutes) s₀ inParts = some s ∧
      s.sent = wire (resps.take 1) ++ (wire (resps.drop 1)).take 5 ∧ s.sent <+: wire resps ∧
      (rounds noRoutes s (fun _ => [.sent WRITE_BUFFER_SIZE]) 3).sent = wire resps := by
  obtain ⟨⟨st', resps⟩, hserve, hfit⟩ := (Option.any_eq_true _ _).mp twoGets_served
  have harr : Machine.run (Session.step noRoutes) (accept () {} 5 0)
      (arrival (twoGets.flatMap WireRequest.encode)) =
        some (received (twoGets.flatMap WireRequest.encode)) := rfl
  have hparts : (Machine.run (Session.step noRoutes)
      (received (twoGets.flatMap WireRequest.encode)) inParts).any (fun s =>
        decide (s.armed = some .epollout) &&
          (serve noRoutes () (twoGets.map WireRequest.request)).any fun r =>
            decide (s.sent = wire (r.2.take 1) ++ (wire (r.2.drop 1)).take 5)) = true := by
    decide +kernel
  obtain ⟨s, hrun, hs⟩ := (Option.any_eq_true _ _).mp hparts
  rw [hserve, Bool.and_eq_true] at hs
  obtain ⟨harmed, hsent⟩ := hs
  have hok : Machine.Along (Session.step noRoutes) (fun s e => ¬ Interrupts s e)
      (received (twoGets.flatMap WireRequest.encode)) inParts := by
    decide +kernel
  obtain ⟨hpre, hfinish⟩ := sent_isPrefix noRoutes () st' {} 5 0 twoGets resps _ s inParts
    twoGets_wellFormed (by decide) hserve (by simpa using hfit) harr
    (by simp [inParts, Event.Sends]) hok hrun
  refine ⟨resps, _, s, hserve, harr, hrun, of_decide_eq_true hsent, hpre, ?_⟩
  exact hfinish (fun h => by rw [h.2] at harmed; simp at harmed) _ fun _ => completes_sent

/-- `writev` takes five bytes and refuses: the second task sends the first response anew. -/
theorem sent_isPrefix_fails :
    ¬ ∀ (reqs : List WireRequest) (resps : List HttpResponse) (s₀ s : Session Unit)
      (es : List Event), (∀ r ∈ reqs, r.WellFormed) →
      (reqs.flatMap WireRequest.encode).length < READ_BUFFER_SIZE →
      serve noRoutes () (reqs.map WireRequest.request) = some ((), resps) →
      (∀ resp ∈ resps, resp.serialize.length < WRITE_BUFFER_SIZE) →
      Machine.run (Session.step noRoutes) (accept () {} 5 0)
        (arrival (reqs.flatMap WireRequest.encode)) = some s₀ →
      (∀ e ∈ es, Event.Sends e) → Machine.run (Session.step noRoutes) s₀ es = some s →
      s.sent <+: wire resps := by
  intro hall
  obtain ⟨⟨st', resps⟩, hserve, hfit⟩ := (Option.any_eq_true _ _).mp twoGets_served
  obtain ⟨s₀, harr, -⟩ := run_arrival noRoutes () {} 5 0
    (d := twoGets.flatMap WireRequest.encode) (by decide)
  have hbad : (Machine.run (Session.step noRoutes) (accept () {} 5 0)
      (arrival (twoGets.flatMap WireRequest.encode) ++ [.work, .writable [.sent 5, .eagain] .accepted,
        .work, .writable [.sent WRITE_BUFFER_SIZE] .accepted])).any (fun s =>
      (serve noRoutes () (twoGets.map WireRequest.request)).any fun r =>
        decide (¬ s.sent <+: wire r.2)) = true := by
    decide +kernel
  rw [Machine.run_append, harr, Option.bind_some] at hbad
  obtain ⟨s, hrun, hs⟩ := (Option.any_eq_true _ _).mp hbad
  rw [hserve] at hs
  have hnot : ¬ s.sent <+: wire resps := of_decide_eq_true hs
  exact hnot (hall twoGets resps s₀ s _ twoGets_wellFormed (by decide) hserve (by simpa using hfit)
    harr (by simp [Event.Sends]) hrun)

end Session
end Http
end UrlShortener
