import UrlShortener.Server.Session

/-!
# UrlShortener.Server.Rounds

A connection that receives no further bytes drives itself: `process`, the response, a complete
`write`, `retain_pipelined_bytes`, and again as long as bytes are left (`round`).

`round_cases` lists the ends of a round; `Resumed` is the one that goes on. A round that goes on
leaves fewer bytes, unless the parser has consumed nothing and stands in front of a bad line end
(`Stuck`): `parse_line` then refuses without moving its cursor, the 400 leaves the connection
alive, and the same bytes come round again. This is the only way to loop.
-/

namespace UrlShortener
namespace Http
namespace Session

variable {σ : Type} (dispatch : σ → HttpRequest → σ × Dispatched)

def round (s : Session σ) (ws : List WritevResult) : Session σ :=
  let s₁ := (step dispatch s .work).getD s
  (step dispatch s₁ (.writable ws .accepted)).getD s₁

def rounds (s : Session σ) (wss : Nat → List WritevResult) : Nat → Session σ
  | 0 => s
  | k + 1 => round dispatch (rounds s wss k) (wss k)

/-- No task is queued and none will be without a new event: idle, closed or crashed. -/
def AtRest (s : Session σ) : Prop :=
  s.queued = false ∧ (s.status = .opened → s.armed = some .epollin)

instance (s : Session σ) : Decidable s.AtRest := inferInstanceAs (Decidable (_ ∧ _))

/-- A round that ends with the connection alive: the response is out, the parser is reset in front
of the bytes `c₁` had not read. -/
structure Resumed (sent : Bytes) (log : List Processed) (s' : Session σ) (c₁ : HttpConn) (st : σ)
    (raw : Bytes) (did : Processed) : Prop where
  opened : s'.status = .opened
  armed : s'.armed = some .epollin
  queued : s'.queued = decide (c₁.checkedIdx < c₁.readIdx)
  waiting : s'.conn.Waiting
  fresh : s'.conn.Fresh
  unread : s'.conn.unread = c₁.unread
  readIdx : s'.conn.readIdx = c₁.readIdx - c₁.checkedIdx
  store : s'.store = st
  sent_eq : s'.sent = sent ++ raw
  log_eq : s'.log = log ++ [did]

/-- A reset parser in front of the bytes `u`, with a task queued if there are any. -/
structure AtRequest (s : Session σ) (u : Bytes) : Prop where
  opened : s.status = .opened
  queued : s.queued = decide (u ≠ [])
  waiting : s.conn.Waiting
  fresh : s.conn.Fresh
  unread : s.conn.unread = u

theorem Resumed.atRequest {sent : Bytes} {log : List Processed} {s' : Session σ} {c₁ : HttpConn}
    {st : σ} {raw : Bytes} {did : Processed} (h : Resumed sent log s' c₁ st raw did) :
    s'.AtRequest c₁.unread := by
  refine ⟨h.opened, ?_, h.waiting, h.fresh, h.unread⟩
  rw [h.queued]
  refine decide_eq_decide.mpr ?_
  rw [← List.length_pos_iff, HttpConn.unread_length]
  omega

/-- The first read of a new connection. -/
theorem accept_received (st : σ) (slot : HttpConn) (connfd trigMode : Nat) {d : Bytes}
    (hd : d ≠ []) (hlen : d.length ≤ READ_BUFFER_SIZE) :
    ∃ s, step dispatch (accept st slot connfd trigMode) (.readable [.data d] .accepted) = some s ∧
      s.AtRequest d ∧ s.store = st ∧ s.sent = [] ∧ s.log = [] := by
  let c := (accept st slot connfd trigMode).conn
  have htake : d.take (READ_BUFFER_SIZE - c.readIdx) = d := List.take_of_length_le hlen
  have hzero : c.readIdx = 0 := rfl
  have hread : c.readOnce [.data d] = (c.receive d, true) := by
    unfold HttpConn.readOnce
    rw [if_neg (by rw [hzero]; decide)]
    split
    · simp only [if_neg hd, htake]
    · rw [HttpConn.readOnceEt.eq_def]
      simp only
      rw [if_neg (by rw [hzero]; decide)]
      simp only [if_neg hd, htake, HttpConn.readOnceEt, Bool.true_or]
  refine ⟨{ accept st slot connfd trigMode with
    conn := c.receive d, armed := none, queued := true }, ?_, ⟨rfl, ?_, ?_, ⟨rfl, rfl, rfl⟩, ?_⟩,
    rfl, rfl, rfl⟩
  · have hguard : (accept st slot connfd trigMode).status = .opened ∧
        (accept st slot connfd trigMode).queued = false ∧
        (accept st slot connfd trigMode).armed = some .epollin := ⟨rfl, rfl, rfl⟩
    simp only [step, if_pos hguard, dealwithread]
    rw [show HttpConn.readOnce (accept st slot connfd trigMode).conn [.data d] = _ from hread]
    rfl
  · exact (decide_eq_true hd).symm
  · exact (accept_waiting st slot connfd trigMode).receive (by rw [show _ = c.readIdx from rfl]; omega)
  · exact HttpConn.receive_seg c d (Nat.zero_le _)

/-- A complete write of a buffered response. -/
theorem written_resumed {s : Session σ} {c₁ : HttpConn} {raw : Bytes} {did : Processed}
    {log : List Processed} (hs : s.status = .opened) (hq : s.queued = false)
    (ha : s.armed = some .epollout) (hr : (c₁.loaded raw).Replying raw 0)
    (hconn : s.conn = c₁.loaded raw) (hlog : s.log = log ++ [did]) (hl : c₁.linger = true)
    {ws : List WritevResult} (hw : HttpConn.Completes ws) :
    Resumed s.sent log ((step dispatch s (.writable ws .accepted)).getD s) c₁ s.store raw
      did := by
  obtain ⟨hout, hend⟩ := hr.sending.write_completes hr.fits hw
  rcases hend with ⟨-, hc, ho⟩ | ⟨hl', -, -⟩
  · let c' := ((c₁.loaded raw).sentTo raw raw.length).retainPipelinedBytes
    have hwr : (c₁.loaded raw).write ws = (c', raw, .returned true (some .epollin)) :=
      Prod.ext hc (Prod.ext hout ho)
    have hfresh : c'.Fresh := HttpConn.retain_fresh _
    have hread : c'.readIdx = c₁.readIdx - c₁.checkedIdx := HttpConn.retain_readIdx _
    have hun : c'.unread = c₁.unread := HttpConn.retain_unread _
    have hwait : c'.Waiting := HttpConn.retain_waiting hr.read_le hr.sock
    have hp : c'.hasPipelinedInput = decide (c₁.checkedIdx < c₁.readIdx) := by
      rw [HttpConn.hasPipelinedInput, hfresh.checked, hread]
      exact decide_eq_decide.mpr (by omega)
    have hstep : step dispatch s (.writable ws .accepted) =
        some { s with
          conn := c'
          sent := s.sent ++ raw
          armed := some .epollin
          queued := decide (c₁.checkedIdx < c₁.readIdx) } := by
      simp only [step, hs, hq, ha, and_self, if_true, dealwithwrite, hconn, hwr, written, hp,
        decide_eq_true_eq]
      split
      · rename_i hlt
        simp [append, hlt]
      · rename_i hlt
        simp [hlt]
    rw [hstep]
    exact ⟨hs, rfl, rfl, hwait, hfresh, hun, hread, rfl, rfl, hlog⟩
  · rw [show (c₁.loaded raw).linger = c₁.linger from rfl, hl] at hl'
    cases hl'

variable {dispatch}

theorem step_writable_of_not_armed {s : Session σ} {ws : List WritevResult} {a : Appended}
    (h : s.status = .opened → s.armed ≠ some .epollout) :
    step dispatch s (.writable ws a) = none := by
  simp only [step]
  split
  · rename_i hc
    exact absurd hc.2.2 (h hc.1)
  · rfl

theorem round_atRest {s : Session σ} (h : s.AtRest) (ws : List WritevResult) :
    round dispatch s ws = s := by
  have h1 : step dispatch s .work = none := by
    simp only [step, h.1, Bool.false_eq_true, and_false, if_false]
  rw [round, h1]
  simp only [Option.getD_none]
  rw [step_writable_of_not_armed fun ho => by rw [h.2 ho]; simp]
  rfl

/-- A task whose response fits and keeps the connection alive. -/
theorem work_answers {s : Session σ} (hwait : s.conn.Waiting) {c₁ : HttpConn} {code : HttpCode}
    {st : σ} {resp : HttpResponse} {did : Processed} (hread : s.conn.processRead = (c₁, code))
    (hne : code ≠ .noRequest) (hbig : code ≠ .requestEntityTooLarge)
    (hans : HttpConn.answer dispatch s.store c₁ code = some (st, resp, did))
    (hfit : (c₁.withConnection resp).serialize.length < WRITE_BUFFER_SIZE) :
    work dispatch s =
        { s with
          store := st
          conn := c₁.loaded (c₁.withConnection resp).serialize
          armed := some .epollout
          queued := false
          log := s.log ++ [did] } ∧
      (c₁.loaded (c₁.withConnection resp).serialize).Replying (c₁.withConnection resp).serialize
        0 := by
  obtain ⟨p, buf, i, k, code', he, -, hk2, -⟩ := hwait.ready.processRead
  rw [he] at hread
  cases hread
  generalize hc₁ : s.conn.moved p buf i k = c₁ at *
  have hset : c₁.settled code = c₁ := by rw [HttpConn.settled, if_neg hbig]
  have hdel := hwait.deliver he (c₁.withConnection resp)
  rw [hset] at hdel
  generalize hraw : (c₁.withConnection resp).serialize = raw at *
  have hload : c₁.deliver raw = c₁.loaded raw := by rw [HttpConn.deliver, if_pos hfit]
  constructor
  · rw [work, HttpConn.process_answers dispatch s.store he hne (by rw [← hc₁]; exact hwait.sock)
      (by rw [← hc₁]; rfl), hans, hset]
    simp only [Option.map_some, hraw, hload]
    rfl
  · rw [hload] at hdel
    refine hdel.resolve_right ?_
    rw [← hc₁]
    simpa [HttpConn.loaded, HttpConn.moved] using hwait.noClose

variable (dispatch) in
/-- A round whose response fits and keeps the connection alive. -/
theorem round_resumes {s : Session σ} (hs : s.status = .opened) (hq : s.queued = true)
    (hwait : s.conn.Waiting) {ws : List WritevResult} (hw : HttpConn.Completes ws) {c₁ : HttpConn}
    {code : HttpCode} {st : σ} {resp : HttpResponse} {did : Processed}
    (hread : s.conn.processRead = (c₁, code)) (hne : code ≠ .noRequest)
    (hbig : code ≠ .requestEntityTooLarge) (hl : c₁.linger = true)
    (hans : HttpConn.answer dispatch s.store c₁ code = some (st, resp, did))
    (hfit : (c₁.withConnection resp).serialize.length < WRITE_BUFFER_SIZE) :
    Resumed s.sent s.log (round dispatch s ws) c₁ st (c₁.withConnection resp).serialize did := by
  obtain ⟨hwork, hr⟩ := work_answers hwait hread hne hbig hans hfit
  have hstep : step dispatch s .work = some (work dispatch s) := by
    simp only [step, hs, hq, and_self, if_true]
  rw [round, hstep, Option.getD_some, hwork]
  generalize (c₁.withConnection resp).serialize = raw at *
  exact written_resumed dispatch
    (s := { s with
      store := st
      conn := c₁.loaded raw
      armed := some .epollout
      queued := false
      log := s.log ++ [did] }) hs rfl rfl hr rfl rfl hl hw

/-- A round is two steps of the session. -/
theorem run_round {s : Session σ} (hs : s.status = .opened) (hq : s.queued = true)
    (hs' : (work dispatch s).status = .opened) (hq' : (work dispatch s).queued = false)
    (ha' : (work dispatch s).armed = some .epollout) (ws : List WritevResult) :
    Machine.run (step dispatch) s [.work, .writable ws .accepted] =
      some (round dispatch s ws) := by
  have hstep : step dispatch s .work = some (work dispatch s) := by
    simp only [step, hs, hq, and_self, if_true]
  have hstep' : step dispatch (work dispatch s) (.writable ws .accepted) =
      some (dealwithwrite { work dispatch s with armed := none } ws .accepted) := by
    simp only [step, hs', hq', ha', and_self, if_true]
  simp only [Machine.run, round, hstep, hstep', Option.bind_some, Option.getD_some]

variable (dispatch) in
/-- **What a round can come to.** -/
theorem round_cases {s : Session σ} (hs : s.status = .opened) (hq : s.queued = true)
    (hwait : s.conn.Waiting) {ws : List WritevResult} (hw : HttpConn.Completes ws) :
    ((round dispatch s ws).AtRest ∧
        ∃ ds, (round dispatch s ws).log = s.log ++ ds ∧ ds.length ≤ 1) ∨
      ∃ c₁ code st resp did, s.conn.processRead = (c₁, code) ∧
        HttpConn.answer dispatch s.store c₁ code = some (st, resp, did) ∧
        code ≠ .noRequest ∧ code ≠ .requestEntityTooLarge ∧ c₁.linger = true ∧
        Resumed s.sent s.log (round dispatch s ws) c₁ st (c₁.withConnection resp).serialize did := by
  have hstep : step dispatch s .work = some (work dispatch s) := by
    simp only [step, hs, hq, and_self, if_true]
  rw [round, hstep]
  simp only [Option.getD_some]
  have rest : ∀ s₁ : Session σ, s₁.queued = false → s₁.status ≠ .opened →
      (step dispatch s₁ (.writable ws .accepted)).getD s₁ = s₁ ∧ s₁.AtRest := by
    intro s₁ hq₁ hs₁
    rw [step_writable_of_not_armed fun ho => absurd ho hs₁]
    exact ⟨rfl, hq₁, fun ho => absurd ho hs₁⟩
  rcases work_cases dispatch hwait with ⟨c₁, -, hc, he⟩ | ⟨c₁, code, hread, hne, ha⟩
  · left
    rw [he, step_writable_of_not_armed fun _ => by simp]
    exact ⟨⟨rfl, fun _ => rfl⟩, [.waiting], rfl, by simp⟩
  · rcases ha with ⟨-, he⟩ | ⟨st, resp, did, hans, he⟩
    · left
      rw [he]
      obtain ⟨h1, h2⟩ := rest
        { s with status := .crashed, armed := none, queued := false, log := s.log ++ [.raised] } rfl
        (by simp)
      rw [h1]
      exact ⟨h2, [.raised], rfl, by simp⟩
    · generalize hraw : ((c₁.settled code).withConnection resp).serialize = raw at he
      have hd := hwait.deliver hread ((c₁.settled code).withConnection resp)
      rw [hraw] at hd
      -- A response that does not fit, or one without keep-alive, ends the connection.
      have closes : ∀ s₁ : Session σ, s₁ = work dispatch s → s₁.conn.pendingClose = true ∨
          s₁.conn.Replying raw 0 ∧ s₁.conn.linger = false →
          (((step dispatch s₁ (.writable ws .accepted)).getD s₁).AtRest ∧
            ∃ ds, ((step dispatch s₁ (.writable ws .accepted)).getD s₁).log = s.log ++ ds ∧
              ds.length ≤ 1) := by
        intro s₁ hs₁ hor
        have hst : s₁.status = .opened := by rw [hs₁, he]; exact hs
        have hqu : s₁.queued = false := by rw [hs₁, he]
        have har : s₁.armed = some .epollout := by rw [hs₁, he]
        have hlo : s₁.log = s.log ++ [did] := by rw [hs₁, he]
        obtain ⟨c', out, i, hwr⟩ : ∃ c' out i, s₁.conn.write ws = (c', out, .returned false i) := by
          rcases hor with hp | ⟨hr, hl⟩
          · exact ⟨_, _, _, by rw [HttpConn.write, if_pos hp]⟩
          · obtain ⟨-, hend⟩ := hr.sending.write_completes hr.fits hw
            rcases hend with ⟨hl', -, -⟩ | ⟨-, -, ho⟩
            · rw [hl] at hl'
              cases hl'
            · exact ⟨_, _, _, Prod.ext rfl (Prod.ext rfl ho)⟩
        have hstep₁ : step dispatch s₁ (.writable ws .accepted) =
            some (dealTimer { s₁ with conn := c', sent := s₁.sent ++ out, armed := i }) := by
          simp only [step, hst, hqu, har, and_self, if_true, dealwithwrite, hwr, written,
            Bool.false_eq_true, if_false]
        rw [hstep₁]
        exact ⟨⟨rfl, fun ho => by simp [dealTimer] at ho⟩, [did], hlo, by simp⟩
      rcases hd with hr | hp
      · cases hl : (c₁.settled code).linger with
        | false =>
          left
          have hl' : ((c₁.settled code).deliver raw).linger = false := by
            unfold HttpConn.deliver
            split <;> exact hl
          refine closes (work dispatch s) rfl (Or.inr ?_)
          rw [he]
          exact ⟨hr, hl'⟩
        | true =>
          right
          have hcode : code ≠ .requestEntityTooLarge := by
            rintro rfl
            simp [HttpConn.settled] at hl
          have hset : c₁.settled code = c₁ := by rw [HttpConn.settled, if_neg hcode]
          rw [hset] at hraw hl hr
          refine ⟨c₁, code, st, resp, did, hread, hans, hne, hcode, hl, ?_⟩
          have := round_resumes dispatch hs hq hwait hw hread hne hcode hl hans (by rw [hraw]; exact hr.fits)
          rw [round, hstep, Option.getD_some] at this
          exact this
      · left
        refine closes (work dispatch s) rfl (Or.inl ?_)
        rw [he]
        exact hp

/-! ## Progress -/

/-- The parser has consumed nothing and stands in front of a lone LF, or of a CR without LF. -/
def Stuck (s : Session σ) : Prop := s.conn.checkedIdx = 0 ∧ StartsBad s.conn.unread

instance (s : Session σ) : Decidable s.Stuck := inferInstanceAs (Decidable (_ ∧ _))

/-- The number of responses in a history. -/
def responses (log : List Processed) : Nat :=
  log.countP fun d => match d with | .rejected _ => true | .dispatched _ _ => true | _ => false

theorem responses_append_le {log ds : List Processed} (h : ds.length ≤ 1) :
    responses (log ++ ds) ≤ responses log + 1 := by
  rw [responses, List.countP_append]
  have := List.countP_le_length
    (p := fun d => match d with | .rejected _ => true | .dispatched _ _ => true | _ => false) (l := ds)
  rw [responses]
  omega

variable (dispatch) in
/-- **A round that goes on leaves fewer bytes**, unless it started stuck. -/
theorem round_shrinks {s : Session σ} (hs : s.status = .opened) (hq : s.queued = true)
    (hwait : s.conn.Waiting) (hfree : ¬ s.Stuck) {ws : List WritevResult}
    (hw : HttpConn.Completes ws) (hq' : (round dispatch s ws).queued = true) :
    (round dispatch s ws).conn.readIdx < s.conn.readIdx := by
  rcases round_cases dispatch hs hq hwait hw with ⟨hrest, -⟩ | hgo
  · rw [hrest.1] at hq'
    cases hq'
  · obtain ⟨c₁, code, st, resp, did, hread, -, hne, hbig, -, hres⟩ := hgo
    obtain ⟨p, buf, i, k, code', he, hk1, hk2, hun, hv⟩ := hwait.ready.processRead
    rw [he] at hread
    cases hread
    have hidx : (round dispatch s ws).conn.readIdx = s.conn.readIdx - k := hres.readIdx
    have hlt : k < s.conn.readIdx := by
      have := hres.queued
      rw [hq'] at this
      exact of_decide_eq_true this.symm
    have hk : 0 < k := by
      cases hv with
      | waits ready => exact absurd rfl hne
      | tooLarge => exact absurd rfl hbig
      | refused line pos => exact pos
      | request pos => exact pos
      | badLine bad =>
        by_contra h0
        have hk0 : s.conn.checkedIdx = 0 := by omega
        refine hfree ⟨hk0, ?_⟩
        rw [hun, show k - s.conn.checkedIdx = 0 from by omega, List.drop_zero] at bad
        exact bad
    omega

/-- The 400 that `process` builds for a live connection exists and fits the write buffer. -/
theorem badRequest_fits :
    (HttpConn.errorResponse .badRequest).any (fun r =>
      (r.setHeader (ascii "Connection") (ascii "keep-alive")).serialize.length < WRITE_BUFFER_SIZE) =
      true := by
  decide +kernel

variable (dispatch) in
/-- A round that starts stuck goes on with the same bytes. -/
theorem round_stuck {s : Session σ} (hs : s.status = .opened) (hq : s.queued = true)
    (hwait : s.conn.Waiting) (hpos : 0 < s.conn.readIdx) (hstuck : s.Stuck)
    {ws : List WritevResult} (hw : HttpConn.Completes ws) :
    (round dispatch s ws).queued = true ∧
      (round dispatch s ws).conn.readIdx = s.conn.readIdx := by
  obtain ⟨buf, he⟩ := hwait.ready.processRead_stuck hstuck.1 hstuck.2
  obtain ⟨resp, hresp, hfit⟩ := (Option.any_eq_true _ _).mp badRequest_fits
  have hl : (s.conn.moved {} buf 0 0).linger = true := rfl
  have hres := round_resumes dispatch hs hq hwait hw he (by simp) (by simp) hl
    (show HttpConn.answer dispatch s.store _ .badRequest = _ by
      rw [HttpConn.answer, hresp, Option.map_some])
    (by rw [HttpConn.withConnection, if_pos hl]; exact of_decide_eq_true hfit)
  refine ⟨?_, hres.readIdx⟩
  rw [hres.queued]
  exact decide_eq_true hpos

/-! ## Whole runs -/

/-- What must hold of a connection left alone: every round that goes on leaves fewer bytes, there
is at most one response for each byte, and then the connection is idle or closed. -/
structure Drains (dispatch : σ → HttpRequest → σ × Dispatched) (s : Session σ)
    (wss : Nat → List WritevResult) : Prop where
  shrinks : ∀ k, (rounds dispatch s wss k).queued = true →
    (rounds dispatch s wss (k + 1)).queued = true →
    (rounds dispatch s wss (k + 1)).conn.readIdx < (rounds dispatch s wss k).conn.readIdx
  few : ∀ k, responses (rounds dispatch s wss k).log ≤ responses s.log + s.conn.readIdx
  rest : ∃ k ≤ s.conn.readIdx, (rounds dispatch s wss k).AtRest

/-- A task waiting on a live connection, or rest. -/
def TaskOrRest (s : Session σ) : Prop :=
  s.AtRest ∨ (s.status = .opened ∧ s.queued = true ∧ s.conn.Waiting ∧ 0 < s.conn.readIdx)

variable (dispatch) in
theorem round_taskOrRest {s : Session σ} (h : s.TaskOrRest) {ws : List WritevResult}
    (hw : HttpConn.Completes ws) : (round dispatch s ws).TaskOrRest := by
  rcases h with hrest | ⟨hs, hq, hwait, -⟩
  · rw [round_atRest hrest]
    exact Or.inl hrest
  · rcases round_cases dispatch hs hq hwait hw with ⟨hrest, -⟩ | hgo
    · exact Or.inl hrest
    · obtain ⟨c₁, code, st, resp, did, -, -, -, -, -, hres⟩ := hgo
      by_cases hlt : c₁.checkedIdx < c₁.readIdx
      · refine Or.inr ⟨hres.opened, ?_, hres.waiting, ?_⟩
        · rw [hres.queued]
          exact decide_eq_true hlt
        · rw [hres.readIdx]
          omega
      · refine Or.inl ⟨?_, fun _ => hres.armed⟩
        rw [hres.queued]
        exact decide_eq_false hlt

variable (dispatch) in
theorem rounds_taskOrRest {s : Session σ} (h : s.TaskOrRest) {wss : Nat → List WritevResult}
    (hw : ∀ k, HttpConn.Completes (wss k)) (k : Nat) : (rounds dispatch s wss k).TaskOrRest := by
  induction k with
  | zero => exact h
  | succ k ih => exact round_taskOrRest dispatch ih (hw k)

variable (dispatch) in
theorem round_responses {s : Session σ} (h : s.TaskOrRest) {ws : List WritevResult}
    (hw : HttpConn.Completes ws) :
    responses (round dispatch s ws).log ≤ responses s.log + 1 := by
  rcases h with hrest | ⟨hs, hq, hwait, -⟩
  · rw [round_atRest hrest]
    omega
  · rcases round_cases dispatch hs hq hwait hw with ⟨-, ds, hlog, hlen⟩ | hgo
    · rw [hlog]
      exact responses_append_le hlen
    · obtain ⟨c₁, code, st, resp, did, -, -, -, -, -, hres⟩ := hgo
      rw [hres.log_eq]
      exact responses_append_le (by simp)

/-- After `k` rounds without a stuck start, either `k` bytes at least are gone or all is at rest. -/
theorem rounds_progress {s : Session σ} (h : s.TaskOrRest) {wss : Nat → List WritevResult}
    (hw : ∀ k, HttpConn.Completes (wss k))
    (hfree : ∀ k, (rounds dispatch s wss k).queued = true → ¬ (rounds dispatch s wss k).Stuck)
    (k : Nat) :
    ((rounds dispatch s wss k).queued = true ∧
        (rounds dispatch s wss k).conn.readIdx + k ≤ s.conn.readIdx ∧
        responses (rounds dispatch s wss k).log ≤ responses s.log + k) ∨
      ((rounds dispatch s wss k).AtRest ∧
        responses (rounds dispatch s wss k).log ≤ responses s.log + s.conn.readIdx) := by
  induction k with
  | zero =>
    rcases h with hrest | ⟨hs, hq, hwait, -⟩
    · exact Or.inr ⟨hrest, Nat.le_add_right _ _⟩
    · exact Or.inl ⟨hq, Nat.le_refl _, Nat.le_refl _⟩
  | succ k ih =>
    have hk := rounds_taskOrRest dispatch h hw k
    have hresp := round_responses dispatch hk (hw k)
    rcases ih with ⟨hq, hle, hr⟩ | ⟨hrest, hr⟩
    · rcases hk with hrest | ⟨hs, -, hwait, hpos⟩
      · rw [hrest.1] at hq
        cases hq
      · rcases round_taskOrRest dispatch (Or.inr ⟨hs, hq, hwait, hpos⟩) (hw k) with
          hrest | ⟨-, hq', -, -⟩
        · refine Or.inr ⟨hrest, ?_⟩
          rw [rounds]
          omega
        · have := round_shrinks dispatch hs hq hwait (hfree k hq) (hw k) hq'
          refine Or.inl ⟨hq', ?_, ?_⟩ <;> rw [rounds] <;> omega
    · refine Or.inr ?_
      rw [rounds, round_atRest hrest]
      exact ⟨hrest, hr⟩

theorem rounds_of_atRest {s : Session σ} {wss : Nat → List WritevResult} {m : Nat}
    (h : (rounds dispatch s wss m).AtRest) {n : Nat} (hn : m ≤ n) :
    rounds dispatch s wss n = rounds dispatch s wss m := by
  induction hn with
  | refl => rfl
  | step _ ih => rw [rounds, ih, round_atRest h]

theorem not_drains_of_stuck {s : Session σ} {wss : Nat → List WritevResult} {k : Nat}
    (hs : (rounds dispatch s wss k).status = .opened)
    (hq : (rounds dispatch s wss k).queued = true) (hwait : (rounds dispatch s wss k).conn.Waiting)
    (hpos : 0 < (rounds dispatch s wss k).conn.readIdx) (hstuck : (rounds dispatch s wss k).Stuck)
    (hw : HttpConn.Completes (wss k)) : ¬ Drains dispatch s wss := by
  intro hd
  obtain ⟨hq', hsame⟩ := round_stuck dispatch hs hq hwait hpos hstuck hw
  have := hd.shrinks k hq hq'
  rw [rounds, hsame] at this
  omega

theorem drains_iff_not_stuck {s : Session σ} (h : s.TaskOrRest)
    {wss : Nat → List WritevResult} (hw : ∀ k, HttpConn.Completes (wss k)) :
    Drains dispatch s wss ↔
      ∀ k, (rounds dispatch s wss k).queued = true → ¬ (rounds dispatch s wss k).Stuck := by
  constructor
  · intro hd k hq hstuck
    rcases rounds_taskOrRest dispatch h hw k with hrest | ⟨hs, -, hwait, hpos⟩
    · rw [hrest.1] at hq
      cases hq
    · exact not_drains_of_stuck hs hq hwait hpos hstuck (hw k) hd
  · intro hfree
    have hprog := rounds_progress h hw hfree
    refine ⟨fun k hq hq' => ?_, fun k => ?_, s.conn.readIdx, Nat.le_refl _, ?_⟩
    · rcases rounds_taskOrRest dispatch h hw k with hrest | ⟨hs, -, hwait, -⟩
      · rw [hrest.1] at hq
        cases hq
      · exact round_shrinks dispatch hs hq hwait (hfree k hq) (hw k) hq'
    · rcases hprog k with ⟨-, hle, hr⟩ | ⟨-, hr⟩
      · omega
      · exact hr
    · rcases hprog s.conn.readIdx with ⟨hq, hle, -⟩ | ⟨hrest, -⟩
      · rcases rounds_taskOrRest dispatch h hw s.conn.readIdx with
          hrest | ⟨-, -, -, hpos⟩
        · exact hrest
        · omega
      · exact hrest

/-- **A connection left alone drains unless a round starts stuck.** -/
theorem drains_iff (dispatch : σ → HttpRequest → σ × Dispatched) (st : σ) (slot : HttpConn)
    (connfd trigMode : Nat) (es : List Event) (s : Session σ) (wss : Nat → List WritevResult)
    (hrun : Machine.run (step dispatch) (accept st slot connfd trigMode) es = some s)
    (hes : ∀ e ∈ es, e.Complete) (hq : s.queued = true)
    (hw : ∀ k, HttpConn.Completes (wss k)) :
    Drains dispatch s wss ↔
      ∀ k, (rounds dispatch s wss k).queued = true → ¬ (rounds dispatch s wss k).Stuck := by
  have hphase := phase_of_run hrun
    (Machine.along_of_forall _ fun e he s => not_interrupts_of_complete (hes e he))
  refine drains_iff_not_stuck (Or.inr ?_) hw
  cases hphase with
  | task hs _ hwait hpos => exact ⟨hs, hq, hwait, hpos⟩
  | idle _ hfree => rw [hfree] at hq; cases hq
  | reply raw k _ hfree => rw [hfree] at hq; cases hq
  | closing _ hfree => rw [hfree] at hq; cases hq
  | writing _ hfree => rw [hfree] at hq; cases hq
  | ended _ hfree => rw [hfree] at hq; cases hq

/-- Answers every request with the 404 of `process`. -/
def noRoutes (_ : Unit) (_ : HttpRequest) : Unit × Dispatched := ((), .unmatched)

/-- A new connection whose first read found `d`. -/
def received (d : Bytes) : Session Unit :=
  dealwithread { accept () {} 5 0 with armed := none } [.data d] .accepted

theorem received_run (d : Bytes) :
    Machine.run (step noRoutes) (accept () {} 5 0) [.readable [.data d] .accepted] =
      some (received d) := rfl

theorem completes_sent : HttpConn.Completes [.sent WRITE_BUFFER_SIZE] := ⟨by simp, by simp⟩

/-- Two requests and a bit of a third in one read: two rounds, and the connection waits. -/
def twoAndABit : Bytes := ascii "GET /a HTTP/1.1\r\n\r\nGET /b HTTP/1.1\r\n\r\nGET"

theorem drains_iff_twoAndABit :
    (received twoAndABit).queued = true ∧
      Drains noRoutes (received twoAndABit) (fun _ => [.sent WRITE_BUFFER_SIZE]) := by
  have hqueued : (received twoAndABit).queued = true := by decide +kernel
  have hfirst : ∀ k < 3, ¬ (rounds noRoutes (received twoAndABit)
      (fun _ => [.sent WRITE_BUFFER_SIZE]) k).Stuck := by
    decide +kernel
  have hrest : (rounds noRoutes (received twoAndABit)
      (fun _ => [.sent WRITE_BUFFER_SIZE]) 3).AtRest := by
    decide +kernel
  refine ⟨hqueued, (drains_iff noRoutes () {} 5 0 _ _ _ (received_run twoAndABit)
    (by simp [Event.Complete]) hqueued fun _ => completes_sent).mpr ?_⟩
  intro k hk
  rcases Nat.lt_or_ge k 3 with hlt | hge
  · exact hfirst k hlt
  · rw [rounds_of_atRest hrest hge, hrest.1] at hk
    cases hk

/-- A lone LF is answered for ever. -/
theorem drains_fails_lf :
    ¬ ∀ (es : List Event) (s : Session Unit) (wss : Nat → List WritevResult),
      Machine.run (step noRoutes) (accept () {} 5 0) es = some s →
      (∀ e ∈ es, e.Complete) → s.queued = true → (∀ k, HttpConn.Completes (wss k)) →
      Drains noRoutes s wss := by
  intro hall
  have hd := hall _ _ (fun _ => [.sent WRITE_BUFFER_SIZE]) (received_run [LF])
    (by simp [Event.Complete]) rfl (fun _ => completes_sent)
  have hwait : (received [LF]).conn.Waiting :=
    (accept_waiting () {} 5 0).receive (d := [LF]) (by decide)
  have hstuck : (received [LF]).Stuck := ⟨rfl, rfl⟩
  exact not_drains_of_stuck (k := 0) rfl rfl hwait Nat.one_pos hstuck completes_sent hd

end Session
end Http
end UrlShortener
