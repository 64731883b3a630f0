import UrlShortener.Server.Pipeline

/-!
# UrlShortener.Server.Exchange

One client and one request: a connection is accepted, the request arrives in one read, a worker
runs `process`, and what is in the write buffer then goes out in one `write`. The client reads the
answer of the handler, or nothing.
-/

namespace UrlShortener
namespace Http

/-- The text of an answer on a connection that stays open. -/
def answerText (resp : HttpResponse) : Bytes :=
  (resp.setHeader (ascii "Connection") (ascii "keep-alive")).serialize

namespace Session

variable {σ : Type}

/-- Where a connection is put, and how its answer goes out. -/
structure Link where
  slot : HttpConn
  connfd : Nat
  trigMode : Nat
  ws : List WritevResult
  completes : HttpConn.Completes ws

/-- What the server has stored afterwards, and the bytes that the client has read. -/
def exchange (dispatch : σ → HttpRequest → σ × Dispatched) (k : Link) (st : σ) (d : Bytes) :
    Option (σ × Bytes) :=
  (Machine.run (step dispatch) (accept st k.slot k.connfd k.trigMode) (arrival d)).map fun s =>
    ((round dispatch s k.ws).store, (round dispatch s k.ws).sent)

variable {dispatch : σ → HttpRequest → σ × Dispatched}

/-- Nothing is sent on a connection that is not open or shall be closed. -/
theorem round_unsent {s s₁ : Session σ} (hwork : step dispatch s .work = some s₁)
    (hend : s₁.status ≠ .opened ∨ s₁.conn.pendingClose = true) (ws : List WritevResult) :
    (round dispatch s ws).sent = s₁.sent := by
  rw [round, hwork, Option.getD_some]
  simp only [step]
  split
  · rename_i hopen
    have hclose := hend.resolve_left fun hne => hne hopen.1
    rw [dealwithwrite, HttpConn.write, if_pos hclose]
    simp [written, dealTimer]
  · rfl

theorem AtRequest.step_work {s : Session σ} {d : Bytes} (h : s.AtRequest d) (hd : d ≠ []) :
    step dispatch s .work = some (work dispatch s) := by
  have hq : s.queued = true := h.queued.trans (decide_eq_true hd)
  simp only [step, h.opened, hq, and_self, if_true]

/-- **What one exchange comes to.** -/
theorem exchange_cases (dispatch : σ → HttpRequest → σ × Dispatched) {r : WireRequest}
    (hwf : r.WellFormed)
    (hlen : r.encode.length < READ_BUFFER_SIZE) (k : Link) (st : σ) :
    ∃ st' out, exchange dispatch k st r.encode = some (st', out) ∧
      (out = [] ∨ ∃ resp, HttpConn.respond dispatch st r.request = some (st', resp) ∧
        out = answerText resp) ∧
      ∀ st₁ resp, HttpConn.respond dispatch st r.request = some (st₁, resp) →
        (answerText resp).length < WRITE_BUFFER_SIZE → st' = st₁ ∧ out = answerText resp := by
  obtain ⟨s, hrun, hat, -, hstore, hsent, -⟩ := run_arrival dispatch st k.slot k.connfd k.trigMode
    (Nat.le_of_lt hlen)
  have hne : r.encode ≠ [] := by simp [WireRequest.encode]
  refine ⟨_, _, by rw [exchange, hrun]; rfl, ?_⟩
  have hat' : s.AtRequest (r.encode ++ []) := by rwa [List.append_nil]
  obtain ⟨c₁, hread, hreq, hl, -⟩ := hat'.processRead hwf hlen
  have hconn : ∀ resp : HttpResponse, c₁.withConnection resp =
      resp.setHeader (ascii "Connection") (ascii "keep-alive") := by
    intro resp
    rw [HttpConn.withConnection, if_pos hl]
  by_cases hfits : ∃ st₁ resp, HttpConn.respond dispatch st r.request = some (st₁, resp) ∧
      (answerText resp).length < WRITE_BUFFER_SIZE
  · obtain ⟨st₁, resp, hresp, hfit⟩ := hfits
    obtain ⟨-, hst, -, hout, -⟩ := hat'.round hwf hlen (by rw [hstore]; exact hresp) hfit
      k.completes
    rw [hsent, List.nil_append] at hout
    refine ⟨Or.inr ⟨resp, by rw [hst]; exact hresp, hout⟩, ?_⟩
    intro st₂ resp' hresp' _
    rw [hresp] at hresp'
    cases hresp'
    exact ⟨hst, hout⟩
  · refine ⟨Or.inl ?_, fun st₁ resp hresp hfit => absurd ⟨st₁, resp, hresp, hfit⟩ hfits⟩
    have hwork : step dispatch s .work = some (work dispatch s) := hat.step_work hne
    rw [← hsent]
    rcases work_cases dispatch hat.waiting with ⟨c₂, hread₂, -⟩ | ⟨c₂, code, hread₂, -, hans⟩
    · rw [hread] at hread₂
      cases hread₂
    · rw [hread] at hread₂
      cases hread₂
      rw [HttpConn.answer_getRequest, hreq, hstore] at hans
      rcases hans with ⟨-, he⟩ | ⟨st₁, resp, did, hans, he⟩
      · rw [round_unsent hwork (Or.inl (by rw [he]; simp)), he]
      · obtain ⟨⟨st₂, resp₂⟩, hresp, hmk⟩ := Option.map_eq_some_iff.mp hans
        cases hmk
        have hset : c₁.settled .getRequest = c₁ := by
          rw [HttpConn.settled, if_neg (by simp)]
        have hlong : ¬ (c₁.withConnection resp₂).serialize.length < WRITE_BUFFER_SIZE := by
          rw [hconn]
          exact fun hfit => hfits ⟨_, resp₂, hresp, hfit⟩
        have hclose : (work dispatch s).conn.pendingClose = true := by
          rw [he, hset, HttpConn.deliver, if_neg hlong]
        rw [round_unsent hwork (Or.inr hclose), he]

end Session
end Http
end UrlShortener
