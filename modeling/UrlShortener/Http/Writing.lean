import UrlShortener.Http.Reading

/-!
# UrlShortener.Http.Writing

The write side of a connection, and what one call of `process` does to the whole of it.

* `Sending` says that `k` bytes of a response are out. `Sending.write` runs `write` from there
  under any answers of `writev` (`Written` lists the outcomes), `Sending.write_completes` under
  answers that take everything.
* `retain_fresh` and `retain_unread`: the reset after a response keeps exactly the unread bytes.
* `process_waits` and `process_answers` give `process` as what `process_read` found followed by
  `answer` and `deliver`.
-/

namespace UrlShortener
namespace Http
namespace HttpConn

/-! ## The write side -/

/-- The write side as `process_write` leaves it. -/
def loaded (c : HttpConn) (raw : Bytes) : HttpConn :=
  { c with
    writeBuf := c.writeBuf.write 0 raw
    writeIdx := raw.length
    iovBase := 0
    iovLen := raw.length
    bytesToSend := raw.length }

/-- The counters after `k` bytes of a response have been sent. -/
def sentTo (c : HttpConn) (raw : Bytes) (k : Nat) : HttpConn :=
  { c with
    bytesHaveSend := k
    bytesToSend := raw.length - k
    iovBase := k
    iovLen := raw.length - k }

/-- `k` bytes of the response `raw` have been sent. -/
structure Sending (c : HttpConn) (raw : Bytes) (k : Nat) : Prop where
  lt : k < raw.length
  counters : c = c.sentTo raw k
  buffered : c.writeBuf.seg 0 raw.length = raw
  noClose : c.pendingClose = false

theorem Sending.sentTo {c : HttpConn} {raw : Bytes} {k k' : Nat} (h : c.Sending raw k)
    (hk : k' < raw.length) : (c.sentTo raw k').Sending raw k' :=
  ⟨hk, rfl, h.buffered, h.noClose⟩

theorem loaded_sending {c : HttpConn} {raw : Bytes} (hpos : 0 < raw.length)
    (h0 : c.bytesHaveSend = 0) (hc : c.pendingClose = false) : (c.loaded raw).Sending raw 0 := by
  refine ⟨hpos, ?_, Mem.seg_write_same _ _ _, hc⟩
  simp only [loaded, HttpConn.sentTo, Nat.sub_zero, h0]

/-- What a call of `write` may come to, `k'` bytes of the response being out by then. -/
inductive Written (c : HttpConn) (raw : Bytes) (ws : List WritevResult) :
    Nat → HttpConn → WriteOutcome → Prop
  | looping {k' : Nat} (lt : k' < raw.length)
      (few : ∀ w ∈ ws, w ≠ .eagain ∧ w ≠ .error) : Written c raw ws k' (c.sentTo raw k') .looping
  | refused {k' : Nat} (lt : k' < raw.length) (mem : .eagain ∈ ws) :
      Written c raw ws k' (c.sentTo raw k') (.returned true (some .epollout))
  | failed {k' : Nat} (lt : k' < raw.length) (mem : .error ∈ ws) :
      Written c raw ws k' (c.sentTo raw k') (.returned false none)
  | kept (alive : c.linger = true) :
      Written c raw ws raw.length (c.sentTo raw raw.length).retainPipelinedBytes
        (.returned true (some .epollin))
  | done (close : c.linger = false) :
      Written c raw ws raw.length (c.sentTo raw raw.length) (.returned false (some .epollin))

theorem Written.cons {c c' : HttpConn} {raw : Bytes} {ws : List WritevResult} {k' : Nat}
    {o : WriteOutcome} {w : WritevResult} (hw : w ≠ .eagain ∧ w ≠ .error)
    (h : Written c raw ws k' c' o) : Written c raw (w :: ws) k' c' o := by
  cases h with
  | looping lt few => exact .looping lt (List.forall_mem_cons.mpr ⟨hw, few⟩)
  | refused lt mem => exact .refused lt (List.mem_cons_of_mem _ mem)
  | failed lt mem => exact .failed lt (List.mem_cons_of_mem _ mem)
  | kept alive => exact .kept alive
  | done close => exact .done close

theorem Written.of_sentTo {c c' : HttpConn} {raw : Bytes} {ws : List WritevResult} {k k' : Nat}
    {o : WriteOutcome} (h : Written (c.sentTo raw k) raw ws k' c' o) : Written c raw ws k' c' o := by
  cases h with
  | looping lt few => exact .looping lt few
  | refused lt mem => exact .refused lt mem
  | failed lt mem => exact .failed lt mem
  | kept alive => exact .kept alive
  | done close => exact .done close

theorem seg_of_buffered {m : Mem} {raw : Bytes} (h : m.seg 0 raw.length = raw) {k t : Nat}
    (hk : k + t ≤ raw.length) : m.seg k t = (raw.drop k).take t := by
  conv_rhs => rw [← h]
  rw [Mem.seg_drop _ _ _ _ (by omega), Mem.seg_take _ _ _ _ (by omega), Nat.zero_add]

/-- **The loop of `write` sends the response on from where it stands.** -/
theorem Sending.writeLoop {c : HttpConn} {raw : Bytes} {k : Nat} (h : c.Sending raw k)
    (ws : List WritevResult) (acc : Bytes) :
    ∃ k', k ≤ k' ∧ k' ≤ raw.length ∧
      (HttpConn.writeLoop ws c acc).2.1 = acc ++ (raw.drop k).take (k' - k) ∧
      Written c raw ws k' (HttpConn.writeLoop ws c acc).1 (HttpConn.writeLoop ws c acc).2.2 := by
  have hlt := h.lt
  have here : acc = acc ++ (raw.drop k).take (k - k) := by simp
  induction ws generalizing c k acc with
  | nil =>
    refine ⟨k, Nat.le_refl _, Nat.le_of_lt hlt, here, ?_⟩
    have : Written c raw [] k (c.sentTo raw k) .looping := .looping hlt (by simp)
    rw [← h.counters] at this
    exact this
  | cons w ws ih =>
    cases w with
    | eintr =>
      obtain ⟨k', h1, h2, h3, h4⟩ := ih h acc hlt here
      exact ⟨k', h1, h2, h3, h4.cons ⟨by simp, by simp⟩⟩
    | eagain =>
      refine ⟨k, Nat.le_refl _, Nat.le_of_lt hlt, here, ?_⟩
      have : Written c raw (.eagain :: ws) k (c.sentTo raw k) (.returned true (some .epollout)) :=
        .refused hlt (by simp)
      rw [← h.counters] at this
      exact this
    | error =>
      refine ⟨k, Nat.le_refl _, Nat.le_of_lt hlt, here, ?_⟩
      have : Written c raw (.error :: ws) k (c.sentTo raw k) (.returned false none) :=
        .failed hlt (by simp)
      rw [← h.counters] at this
      exact this
    | sent n =>
      have hlen : c.iovLen = raw.length - k := by rw [h.counters]; rfl
      have hbase : c.iovBase = k := by rw [h.counters]; rfl
      have hhave : c.bytesHaveSend = k := by rw [h.counters]; rfl
      have hto : c.bytesToSend = raw.length - k := by rw [h.counters]; rfl
      rw [HttpConn.writeLoop]
      simp only [hlen, hbase, hhave, hto]
      generalize ht : min n (raw.length - k) = t
      have htle : k + t ≤ raw.length := by omega
      have hout : c.writeBuf.seg k t = (raw.drop k).take t := seg_of_buffered h.buffered htle
      by_cases hall : raw.length - k - t = 0
      · have hk : k + t = raw.length := by omega
        have hc : ({ c with
            bytesHaveSend := k + t
            bytesToSend := raw.length - k - t
            iovBase := k + t
            iovLen := raw.length - k - t } : HttpConn) = c.sentTo raw raw.length := by
          simp only [HttpConn.sentTo, hk, hall, Nat.sub_self]
        have hsum : acc ++ c.writeBuf.seg k t = acc ++ (raw.drop k).take (raw.length - k) := by
          rw [hout]
          congr 2
          omega
        rw [if_pos hall, hc]
        refine ⟨raw.length, by omega, Nat.le_refl _, ?_⟩
        by_cases hl : c.linger = true
        · rw [if_pos hl]
          exact ⟨hsum, .kept hl⟩
        · rw [if_neg hl]
          exact ⟨hsum, .done (by simpa using hl)⟩
      · have hk : k + t < raw.length := by omega
        have hc : ({ c with
            bytesHaveSend := k + t
            bytesToSend := raw.length - k - t
            iovBase := k + t
            iovLen := raw.length - k - t } : HttpConn) = c.sentTo raw (k + t) := by
          simp only [HttpConn.sentTo, Nat.sub_sub]
        rw [if_neg hall, hc]
        obtain ⟨k', h1, h2, h3, h4⟩ := ih (h.sentTo hk) (acc ++ c.writeBuf.seg k t) hk (by simp)
        refine ⟨k', by omega, h2, ?_, h4.of_sentTo.cons ⟨by simp, by simp⟩⟩
        rw [h3, hout, List.append_assoc]
        congr 1
        have e : k' - k = t + (k' - (k + t)) := by omega
        rw [e, List.take_add, List.drop_drop]

theorem Sending.write {c : HttpConn} {raw : Bytes} {k : Nat} (h : c.Sending raw k)
    (ws : List WritevResult) :
    ∃ k', k ≤ k' ∧ k' ≤ raw.length ∧ (c.write ws).2.1 = (raw.drop k).take (k' - k) ∧
      Written c raw ws k' (c.write ws).1 (c.write ws).2.2 := by
  have hlt := h.lt
  have hto : c.bytesToSend = raw.length - k := by rw [h.counters]; rfl
  have hw : c.write ws = HttpConn.writeLoop ws c [] := by
    rw [HttpConn.write, h.noClose, if_neg (by simp), if_neg (by omega)]
  rw [hw]
  simpa using h.writeLoop ws []

/-- Answers of `writev` that take a whole response, however large. -/
def Completes (ws : List WritevResult) : Prop :=
  (∀ w ∈ ws, w ≠ .eagain ∧ w ≠ .error) ∧
    WRITE_BUFFER_SIZE ≤ (ws.map fun w => match w with | .sent k => k | _ => 0).sum

theorem writeLoop_completes {ws : List WritevResult} {c : HttpConn} {acc : Bytes}
    (hw : ∀ w ∈ ws, w ≠ .eagain ∧ w ≠ .error) (hpos : 0 < c.bytesToSend)
    (hlen : c.iovLen = c.bytesToSend)
    (hsum : c.bytesToSend ≤ (ws.map fun w => match w with | .sent k => k | _ => 0).sum) :
    (HttpConn.writeLoop ws c acc).2.2 ≠ .looping := by
  induction ws generalizing c acc with
  | nil => simp at hsum; omega
  | cons w ws ih =>
    obtain ⟨hw0, hws⟩ := List.forall_mem_cons.mp hw
    cases w with
    | eintr => exact ih hws hpos hlen (by simpa using hsum)
    | eagain => exact absurd rfl hw0.1
    | error => exact absurd rfl hw0.2
    | sent n =>
      rw [HttpConn.writeLoop]
      simp only [List.map_cons, List.sum_cons, hlen] at hsum ⊢
      split
      · split <;> simp
      · refine ih hws ?_ rfl ?_
        · simp only; omega
        · simp only; omega

/-- A complete write ends the response. -/
theorem Sending.write_completes {c : HttpConn} {raw : Bytes} {k : Nat} (h : c.Sending raw k)
    (hraw : raw.length < WRITE_BUFFER_SIZE) {ws : List WritevResult} (hw : Completes ws) :
    (c.write ws).2.1 = raw.drop k ∧
      ((c.linger = true ∧ (c.write ws).1 = (c.sentTo raw raw.length).retainPipelinedBytes ∧
          (c.write ws).2.2 = .returned true (some .epollin)) ∨
        (c.linger = false ∧ (c.write ws).1 = c.sentTo raw raw.length ∧
          (c.write ws).2.2 = .returned false (some .epollin))) := by
  have hlt := h.lt
  have hto : c.bytesToSend = raw.length - k := by rw [h.counters]; rfl
  have hiov : c.iovLen = raw.length - k := by rw [h.counters]; rfl
  have hnl : (c.write ws).2.2 ≠ .looping := by
    rw [HttpConn.write, h.noClose, if_neg (by simp), if_neg (by omega)]
    exact writeLoop_completes hw.1 (by omega) (by omega) (by have := hw.2; omega)
  obtain ⟨k', h1, h2, h3, h4⟩ := h.write ws
  rw [h3]
  generalize (c.write ws).1 = c' at h4
  generalize (c.write ws).2.2 = o at h4 hnl
  cases h4 with
  | looping lt few => exact absurd rfl hnl
  | refused lt mem => exact absurd rfl (hw.1 _ mem).1
  | failed lt mem => exact absurd rfl (hw.1 _ mem).2
  | kept alive =>
    refine ⟨?_, Or.inl ⟨alive, rfl, rfl⟩⟩
    rw [← List.length_drop, List.take_length]
  | done close =>
    refine ⟨?_, Or.inr ⟨close, rfl, rfl⟩⟩
    rw [← List.length_drop, List.take_length]

/-! ## Between two requests -/

/-- Nothing to send and the parser between two calls. -/
structure Waiting (c : HttpConn) : Prop where
  ready : c.Ready
  toSend : c.bytesToSend = 0
  haveSend : c.bytesHaveSend = 0
  noClose : c.pendingClose = false
  sock : 0 ≤ c.sockfd

theorem retain_fresh (c : HttpConn) : c.retainPipelinedBytes.Fresh := by
  unfold retainPipelinedBytes
  dsimp only
  split <;> exact ⟨rfl, rfl, rfl⟩

theorem retain_readIdx (c : HttpConn) :
    c.retainPipelinedBytes.readIdx = c.readIdx - c.checkedIdx := by
  unfold retainPipelinedBytes
  dsimp only
  split <;> rfl

/-- **Exactly the unread bytes survive the reset.** -/
theorem retain_unread (c : HttpConn) : c.retainPipelinedBytes.unread = c.unread := by
  unfold retainPipelinedBytes
  dsimp only
  split
  · show (c.init.readBuf.write 0 (c.readBuf.seg c.checkedIdx _)).seg 0 (c.readIdx - c.checkedIdx) = _
    have := Mem.seg_write_same c.init.readBuf 0 c.unread
    rw [unread_length] at this
    exact this
  · rename_i h
    have h0 : c.readIdx - c.checkedIdx = 0 := by omega
    simp only [unread, h0]
    rfl

theorem retain_waiting {c : HttpConn} (hread : c.readIdx ≤ READ_BUFFER_SIZE)
    (hs : 0 ≤ c.sockfd) : c.retainPipelinedBytes.Waiting := by
  have hr := retain_readIdx c
  refine ⟨(retain_fresh c).ready (by omega), ?_, ?_, ?_, ?_⟩ <;>
    (unfold retainPipelinedBytes; dsimp only; split <;> first | rfl | exact hs)

theorem Waiting.receive {c : HttpConn} (h : c.Waiting) {d : Bytes}
    (hlen : c.readIdx + d.length ≤ READ_BUFFER_SIZE) : (c.receive d).Waiting :=
  ⟨h.ready.receive hlen, h.toSend, h.haveSend, h.noClose, h.sock⟩

theorem Waiting.readOnceEt {rs : List RecvResult} {got : Bool} {c : HttpConn} (h : c.Waiting)
    (hgot : got = true → 0 < c.readIdx) :
    (HttpConn.readOnceEt rs got c).1.Waiting ∧
      ((HttpConn.readOnceEt rs got c).2 = true → 0 < (HttpConn.readOnceEt rs got c).1.readIdx) := by
  have full : READ_BUFFER_SIZE ≤ c.readIdx → 0 < c.readIdx := Nat.lt_of_lt_of_le (by decide)
  have stop : (got || decide (READ_BUFFER_SIZE ≤ c.readIdx)) = true → 0 < c.readIdx := by
    intro hor
    rcases Bool.or_eq_true_iff.mp hor with hg | hf
    · exact hgot hg
    · exact full (of_decide_eq_true hf)
  induction rs generalizing got c with
  | nil => exact ⟨h, stop⟩
  | cons r rs ih =>
    rw [HttpConn.readOnceEt.eq_def]
    simp only
    split
    · rename_i hf
      exact ⟨h, fun _ => full hf⟩
    · rename_i hf
      cases r with
      | eagain => exact ⟨h, stop⟩
      | error => exact ⟨h, fun hh => by cases hh⟩
      | eof => exact ⟨h, hgot⟩
      | data d =>
        simp only
        split
        · exact ⟨h, hgot⟩
        · rename_i hd
          have hpos : 0 < d.length := List.length_pos_iff.mpr hd
          have hlen : (d.take (READ_BUFFER_SIZE - c.readIdx)).length ≤ READ_BUFFER_SIZE - c.readIdx := by
            rw [List.length_take]
            omega
          have hr' : 0 < (c.receive (d.take (READ_BUFFER_SIZE - c.readIdx))).readIdx := by
            show 0 < c.readIdx + (d.take _).length
            rw [List.length_take]
            omega
          refine ih (h.receive (by omega)) (fun _ => hr') (fun _ => hr') (fun _ => hr')

/-- `read_once` only adds bytes, and finds some when it succeeds. -/
theorem Waiting.readOnce {c : HttpConn} (h : c.Waiting) (rs : List RecvResult) :
    (c.readOnce rs).1.Waiting ∧ ((c.readOnce rs).2 = true → 0 < (c.readOnce rs).1.readIdx) := by
  unfold HttpConn.readOnce
  split
  · rename_i hf
    exact ⟨h, fun _ => Nat.lt_of_lt_of_le (by decide) hf⟩
  · have fail : (c, false).1.Waiting ∧ ((c, false).2 = true → 0 < c.readIdx) :=
      ⟨h, fun hh => by cases hh⟩
    split
    · rcases rs with _ | ⟨r, rs⟩
      · exact fail
      · cases r with
        | eof => exact fail
        | eagain => exact fail
        | error => exact fail
        | data d =>
          simp only
          split
          · exact fail
          · rename_i hd
            have hpos : 0 < d.length := List.length_pos_iff.mpr hd
            refine ⟨h.receive ?_, fun _ => ?_⟩
            · rw [List.length_take]
              omega
            · show 0 < c.readIdx + (d.take _).length
              rw [List.length_take]
              omega
    · exact h.readOnceEt (fun hh => by cases hh)

/-! ## What a task does -/

/-- The response `process` builds for what `process_read` found. -/
def answer {σ : Type} (dispatch : σ → HttpRequest → σ × Dispatched) (st : σ) (c : HttpConn) :
    HttpCode → Option (σ × HttpResponse × Processed)
  | .badRequest => (errorResponse .badRequest).map fun r => (st, r, .rejected .badRequest)
  | .requestEntityTooLarge =>
    (errorResponse .requestEntityTooLarge).map fun r => (st, r, .rejected .requestEntityTooLarge)
  | .internalError => (errorResponse .internalError).map fun r => (st, r, .rejected .internalError)
  | _ => (respond dispatch st c.request).map fun r =>
      (r.1, r.2, .dispatched c.request (c.withConnection r.2))

theorem answer_getRequest {σ : Type} (dispatch : σ → HttpRequest → σ × Dispatched) (st : σ)
    (c : HttpConn) :
    answer dispatch st c .getRequest =
      (respond dispatch st c.request).map fun r =>
        (r.1, r.2, .dispatched c.request (c.withConnection r.2)) := rfl

/-- Only the 413 branch of `process` turns keep-alive off. -/
def settled (c : HttpConn) (code : HttpCode) : HttpConn :=
  if code = .requestEntityTooLarge then { c with linger := false } else c

/-- A response on its way out, or, if it does not fit, the request to close. -/
def deliver (c : HttpConn) (raw : Bytes) : HttpConn :=
  if raw.length < WRITE_BUFFER_SIZE then c.loaded raw else { c with pendingClose := true }

theorem finish_eq {c : HttpConn} (hs : 0 ≤ c.sockfd) (resp : HttpResponse) :
    c.finish c.generation resp = (c.deliver resp.serialize, some .epollout) := by
  unfold finish processWrite deliver
  by_cases hfit : resp.serialize.length < WRITE_BUFFER_SIZE
  · rw [if_neg (by omega), if_pos hfit]
    simp [armEpollIfCurrent, loaded, hs]
  · rw [if_pos (by omega), if_neg hfit]
    simp [armEpollIfCurrent, hs]

theorem process_waits {σ : Type} (dispatch : σ → HttpRequest → σ × Dispatched) (st : σ)
    {c c₁ : HttpConn} (hread : c.processRead = (c₁, .noRequest)) (hs : 0 ≤ c₁.sockfd)
    (hgen : c₁.generation = c.generation) :
    process dispatch st c c.generation = some (st, c₁, some .epollin, .waiting) := by
  rw [process, if_neg (by simp), hread]
  simp [armEpollIfCurrent, hgen, hs]

theorem process_answers {σ : Type} (dispatch : σ → HttpRequest → σ × Dispatched) (st : σ)
    {c c₁ : HttpConn} {code : HttpCode} (hread : c.processRead = (c₁, code))
    (hcode : code ≠ .noRequest) (hs : 0 ≤ c₁.sockfd) (hgen : c₁.generation = c.generation) :
    process dispatch st c c.generation =
      (answer dispatch st c₁ code).map fun r =>
        (r.1, (c₁.settled code).deliver ((c₁.settled code).withConnection r.2.1).serialize,
          some .epollout, r.2.2) := by
  have hfin : ∀ resp, (c₁.settled code).finish c.generation resp =
      ((c₁.settled code).deliver resp.serialize, some .epollout) := by
    intro resp
    rw [← hgen]
    have hs' : 0 ≤ (c₁.settled code).sockfd := by unfold settled; split <;> exact hs
    have hg' : c₁.generation = (c₁.settled code).generation := by unfold settled; split <;> rfl
    rw [hg']
    exact finish_eq hs' resp
  rw [process, if_neg (by simp), hread]
  cases code with
  | noRequest => exact absurd rfl hcode
  | badRequest =>
    simp only [settled, if_neg (show ¬ HttpCode.badRequest = .requestEntityTooLarge from by simp)]
      at hfin ⊢
    simp only [reject, answer, Option.map_map]
    cases errorResponse .badRequest with
    | none => rfl
    | some r => simp [hfin]
  | internalError =>
    simp only [settled, if_neg (show ¬ HttpCode.internalError = .requestEntityTooLarge from by simp)]
      at hfin ⊢
    simp only [reject, answer, Option.map_map]
    cases errorResponse .internalError with
    | none => rfl
    | some r => simp [hfin]
  | requestEntityTooLarge =>
    simp only [settled, if_true] at hfin ⊢
    simp only [reject, answer, Option.map_map]
    cases errorResponse .requestEntityTooLarge with
    | none => rfl
    | some r => simp [hfin]
  | getRequest =>
    simp only [settled, if_neg (show ¬ HttpCode.getRequest = .requestEntityTooLarge from by simp)]
      at hfin ⊢
    simp only [answer, Option.map_map]
    cases respond dispatch st c₁.request with
    | none => rfl
    | some r => simp [hfin]
  | closedConnection =>
    simp only [settled, if_neg (show ¬ HttpCode.closedConnection = .requestEntityTooLarge from by simp)]
      at hfin ⊢
    simp only [answer, Option.map_map]
    cases respond dispatch st c₁.request with
    | none => rfl
    | some r => simp [hfin]

/-- A response of which `k` bytes are out, and the bytes behind its request. -/
structure Replying (c : HttpConn) (raw : Bytes) (k : Nat) : Prop where
  sending : c.Sending raw k
  fits : raw.length < WRITE_BUFFER_SIZE
  checked_le : c.checkedIdx ≤ c.readIdx
  read_le : c.readIdx ≤ READ_BUFFER_SIZE
  sock : 0 ≤ c.sockfd

theorem Replying.sentTo {c : HttpConn} {raw : Bytes} {k k' : Nat} (h : c.Replying raw k)
    (hk : k' < raw.length) : (c.sentTo raw k').Replying raw k' :=
  ⟨h.sending.sentTo hk, h.fits, h.checked_le, h.read_le, h.sock⟩

theorem Waiting.deliver {c c₁ : HttpConn} {code : HttpCode} (h : c.Waiting)
    (hread : c.processRead = (c₁, code)) (resp : HttpResponse) :
    ((c₁.settled code).deliver resp.serialize).Replying resp.serialize 0 ∨
      ((c₁.settled code).deliver resp.serialize).pendingClose = true := by
  obtain ⟨p, buf, s, k, code', he, -, hk, -⟩ := h.ready.processRead
  rw [he] at hread
  cases hread
  have hpos := resp.serialize_length_pos
  unfold HttpConn.deliver
  split
  · rename_i hfit
    left
    unfold settled
    split
    · exact ⟨loaded_sending hpos h.haveSend h.noClose, hfit, hk, h.ready.read_le, h.sock⟩
    · exact ⟨loaded_sending hpos h.haveSend h.noClose, hfit, hk, h.ready.read_le, h.sock⟩
  · exact Or.inr rfl

end HttpConn
end Http
end UrlShortener
