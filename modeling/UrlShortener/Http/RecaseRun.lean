import UrlShortener.Http.Recase
import UrlShortener.Http.Writing

/-!
# UrlShortener.Http.RecaseRun

Two connections that receive streams which differ in the case of field names only.

They stay `Alike` from chunk to chunk: all that ever differs is the header map and the bytes of the
read buffer behind the current line. So `process_read` returns the same code on both
(`feed_alike`), and `finish` does the same to both.
-/

namespace UrlShortener

theorem Mem.eq_of_seg {m m' : Mem} {i n : Nat} (h : m.seg i n = m'.seg i n) :
    ∀ j, i ≤ j → j < i + n → m j = m' j := by
  induction n generalizing i with
  | zero =>
    intro j h1 h2
    omega
  | succ n ih =>
    obtain ⟨hb, htail⟩ := List.cons.inj h
    intro j h1 h2
    by_cases hj : j = i
    · rw [hj]
      exact hb
    · exact ih htail j (by omega) (by omega)

namespace Http
namespace HttpConn

/-- The connection with another header map and another read buffer. -/
def reread (c : HttpConn) (headers : StrMap Bytes) (buf : Mem) : HttpConn :=
  { c with toParser := c.toParser.withHeaders headers, readBuf := buf }

/-! ## In a body -/

/-- In a body, with another buffer that holds the same bytes from the current line on. -/
structure BodyAlike (c : HttpConn) (buf : Mem) : Prop where
  inBody : c.InBody
  same : ∀ j, c.startLine ≤ j → j < c.readIdx → buf j = c.readBuf j
  prev : c.checkedIdx ≤ 1 ∨ buf (c.checkedIdx - 1) ≠ CR

theorem BodyAlike.unread {c : HttpConn} {buf : Mem} (h : c.BodyAlike buf) (headers : StrMap Bytes) :
    (c.reread headers buf).unread = c.unread := by
  have hstart := h.inBody.start_le
  refine Mem.seg_congr fun j h1 h2 => h.same j (Nat.le_trans hstart h1) ?_
  have hle := h.inBody.checked_le
  change j < c.checkedIdx + (c.readIdx - c.checkedIdx) at h2
  omega

/-- What the scan of a line leaves behind. -/
theorem BodyAlike.afterScan {c : HttpConn} {buf : Mem} (h : c.BodyAlike buf) (headers : StrMap Bytes) :
    ∃ buf', (c.reread headers buf).afterScan (scanLine c.unread) =
        ((c.afterScan (scanLine c.unread)).1.reread headers buf', (scanLine c.unread).2) ∧
      (c.afterScan (scanLine c.unread)).1.BodyAlike buf' := by
  have hstart := h.inBody.start_le
  have hle := h.inBody.checked_le
  have hlen := scanLine_length_le c.unread
  rw [unread_length] at hlen
  -- the scanned text is the same in both buffers, and holds no CR
  have advance : ∀ {pre : Bytes} {m : Mem}, pre = (scanLine c.unread).1 →
      (c.checkedIdx ≤ 1 ∨ m (c.checkedIdx - 1) ≠ CR) →
      m.seg c.checkedIdx (c.readIdx - c.checkedIdx) = c.unread →
      (c.checkedIdx + pre.length ≤ 1 ∨ m (c.checkedIdx + pre.length - 1) ≠ CR) := by
    intro pre m hpre hprev hseg
    rcases Nat.eq_zero_or_pos pre.length with h0 | hpos
    · rw [h0]
      exact hprev
    · refine Or.inr (clean_last ?_ hpos)
      rw [← Mem.seg_take m c.checkedIdx _ _ (hpre ▸ hlen), hseg, hpre, scanLine_take]
      exact scanLine_clean _
  have hunread := h.unread headers
  rcases hs : scanLine c.unread with ⟨pre, st⟩
  rw [hs] at hlen
  simp only at hlen
  have stop : HttpConn.BodyAlike { c with checkedIdx := c.checkedIdx + pre.length } buf := by
    have hpre : pre = (scanLine c.unread).1 := by rw [hs]
    refine ⟨⟨h.inBody.state, ?_, ?_, advance hpre h.inBody.prev rfl⟩, h.same,
      advance hpre h.prev hunread⟩
    · show c.startLine ≤ c.checkedIdx + pre.length
      omega
    · show c.checkedIdx + pre.length ≤ c.readIdx
      omega
  cases st with
  | lineBad => exact ⟨buf, rfl, stop⟩
  | lineOpen => exact ⟨buf, rfl, stop⟩
  | lineOk =>
    have hlen2 := scanLine_ok_length hs
    rw [unread_length] at hlen2
    have hlast : ∀ m : Mem, ((m.set (c.checkedIdx + pre.length) NUL).set
        (c.checkedIdx + pre.length + 1) NUL) (c.checkedIdx + pre.length + 2 - 1) ≠ CR := by
      intro m
      have e : c.checkedIdx + pre.length + 2 - 1 = c.checkedIdx + pre.length + 1 := by omega
      rw [e, Mem.set_same]
      decide
    refine ⟨(buf.set (c.checkedIdx + pre.length) NUL).set (c.checkedIdx + pre.length + 1) NUL, rfl,
      ⟨h.inBody.state, ?_, ?_, Or.inr (hlast _)⟩, ?_, Or.inr (hlast _)⟩
    · show c.startLine ≤ c.checkedIdx + pre.length + 2
      omega
    · show c.checkedIdx + pre.length + 2 ≤ c.readIdx
      omega
    · intro j h1 h2
      have hj := h.same j h1 h2
      show Mem.set _ _ _ j = Mem.set _ _ _ j
      simp only [Mem.set, hj]

/-- **The loop does not see the difference in a body.** -/
theorem processReadLoop_alike (n : Nat) {c : HttpConn} (ls : LineStatus) (headers : StrMap Bytes)
    {buf : Mem} (h : c.BodyAlike buf) :
    ∃ buf', processReadLoop n (c.reread headers buf) ls =
        ((processReadLoop n c ls).1.reread headers buf', (processReadLoop n c ls).2) ∧
      ((processReadLoop n c ls).2 = .noRequest → (processReadLoop n c ls).1.BodyAlike buf') := by
  induction n generalizing c ls buf with
  | zero => exact ⟨buf, rfl, fun hcode => by cases hcode⟩
  | succ n ih =>
    have body : ∀ {c : HttpConn} (ls : LineStatus) {buf : Mem}, c.BodyAlike buf →
        ∃ buf', goesOn n ((c.reread headers buf).processLine ls) =
            ((goesOn n (c.processLine ls)).1.reread headers buf', (goesOn n (c.processLine ls)).2) ∧
          ((goesOn n (c.processLine ls)).2 = .noRequest →
            (goesOn n (c.processLine ls)).1.BodyAlike buf') := by
      intro c ls buf h
      have hstart := h.inBody.start_le
      rw [processLine_content h.inBody.state,
        processLine_content (c := c.reread headers buf) h.inBody.state]
      by_cases hfull : c.contentLength + c.checkedIdx ≤ c.readIdx
      · have hseg : buf.seg c.startLine c.contentLength = c.readBuf.seg c.startLine c.contentLength :=
          Mem.seg_congr fun j h1 h2 => h.same j h1 (by omega)
        have hfull' : (c.reread headers buf).contentLength + (c.reread headers buf).checkedIdx ≤
            (c.reread headers buf).readIdx := hfull
        rw [if_pos hfull, if_pos hfull']
        refine ⟨buf, ?_, fun hcode => by cases hcode⟩
        rw [goesOn, goesOn, ← hseg]
        rfl
      · have hfull' : ¬ (c.reread headers buf).contentLength + (c.reread headers buf).checkedIdx ≤
            (c.reread headers buf).readIdx := hfull
        rw [if_neg hfull, if_neg hfull']
        have h' : HttpConn.BodyAlike { c with startLine := c.checkedIdx } buf :=
          ⟨⟨h.inBody.state, Nat.le_refl _, h.inBody.checked_le, h.inBody.prev⟩,
            fun j h1 h2 => h.same j (Nat.le_trans hstart h1) h2, h.prev⟩
        exact ih .lineOpen h'
    rw [processReadLoop, processReadLoop]
    by_cases hif : c.checkState = .content ∧ ls = .lineOk
    · have hif' : (c.reread headers buf).checkState = .content ∧ ls = .lineOk := hif
      rw [if_pos hif, if_pos hif']
      exact body ls h
    · have hif' : ¬ ((c.reread headers buf).checkState = .content ∧ ls = .lineOk) := hif
      rw [if_neg hif, if_neg hif', parseLine_eq h.inBody.prev, parseLine_eq (c := c.reread headers buf)
        h.prev, h.unread headers]
      obtain ⟨buf', hscan, h'⟩ := h.afterScan headers
      rw [hscan]
      have hst : (c.afterScan (scanLine c.unread)).2 = (scanLine c.unread).2 := by
        rcases scanLine c.unread with ⟨pre, st⟩
        cases st <;> rfl
      rcases hr : c.afterScan (scanLine c.unread) with ⟨c₁, st⟩
      rw [hr] at hst h'
      simp only at hst h'
      rw [← hst]
      cases st with
      | lineBad => exact ⟨buf', rfl, fun _ => h'⟩
      | lineOpen => exact ⟨buf', rfl, fun _ => h'⟩
      | lineOk => exact body .lineOk h'

/-! ## From chunk to chunk -/

/-- Between two calls of `process_read`: connections that have received bytes of two streams which
differ in case only; `R` and `R'` are still to come. -/
inductive Alike (R R' : Bytes) (c : HttpConn) : HttpConn → Prop
  | head {headers : StrMap Bytes} {buf : Mem} (hat : c.AtLine) (hat' : (c.reread headers buf).AtLine)
      (hstate : c.checkState ≠ .content)
      (hdiffer : Differ c.checkState (c.pending ++ R) ((c.reread headers buf).pending ++ R')) :
      Alike R R' c (c.reread headers buf)
  | body {headers : StrMap Bytes} {buf : Mem} (hbody : c.BodyAlike buf) (hrest : R = R') :
      Alike R R' c (c.reread headers buf)

theorem alike_init (c : HttpConn) {R R' : Bytes} (h : SameButCase R R') : c.init.Alike R R' c.init :=
  @Alike.head R R' c.init ∅ Mem.zero (init_atLine c) (init_atLine c) (by simp [init]) h

theorem Alike.receive {c c' : HttpConn} {d d' R R' : Bytes} (h : c.Alike (d ++ R) (d' ++ R') c')
    (hlen : d.length = d'.length) (hfit : c.readIdx + d.length ≤ READ_BUFFER_SIZE) :
    (c.receive d).Alike R R' (c'.receive d') := by
  cases h with
  | @head headers buf hat hat' hstate hdiffer =>
    obtain ⟨h1, hpend⟩ := hat.receive hfit
    obtain ⟨h1', hpend'⟩ := hat'.receive (d := d') (hlen ▸ hfit)
    have he : (c.reread headers buf).receive d' =
        (c.receive d).reread headers (buf.write c.readIdx d') := by
      simp only [HttpConn.receive, reread, hlen]
    rw [he] at h1' hpend' ⊢
    refine .head h1 h1' hstate ?_
    rw [hpend, hpend', List.append_assoc, List.append_assoc]
    exact hdiffer
  | @body headers buf hbody hrest =>
    obtain ⟨rfl, rfl⟩ := List.append_inj hrest hlen
    have hle := hbody.inBody.checked_le
    have hprev := hbody.prev
    refine @Alike.body _ _ _ headers (buf.write c.readIdx d) ⟨(hbody.inBody.receive d).1, ?_, ?_⟩ rfl
    · intro j h1 h2
      by_cases hj : j < c.readIdx
      · rw [Mem.write_of_lt _ _ hj, receive_readBuf c d hj]
        exact hbody.same j h1 hj
      · show Mem.write _ _ _ j = Mem.write _ _ _ j
        have hin : c.readIdx ≤ j ∧ j < c.readIdx + d.length := ⟨Nat.le_of_not_lt hj, h2⟩
        simp only [Mem.write, if_pos hin]
    · by_cases h0 : c.checkedIdx ≤ 1
      · exact Or.inl h0
      · refine Or.inr ?_
        rw [Mem.write_of_lt _ _ (by show c.checkedIdx - 1 < c.readIdx; omega)]
        exact hprev.resolve_left h0

/-- The connection as the other stream leaves it. -/
def recast (c : HttpConn) (headers : StrMap Bytes) (buf : Mem) (startLine : Nat) : HttpConn :=
  { c.reread headers buf with startLine := startLine }

/-- **One call of `process_read` on each.** -/
theorem Alike.processRead {c c' : HttpConn} {R R' : Bytes} (h : c.Alike R R' c') :
    (∃ headers buf s, c'.processRead = (c.processRead.1.recast headers buf s, c.processRead.2)) ∧
      (c.processRead.2 = .noRequest → c.processRead.1.Alike R R' c'.processRead.1) := by
  cases h with
  | @body headers buf hbody hrest =>
    obtain ⟨buf', he, hnext⟩ := processReadLoop_alike (2 * (c.readIdx - c.checkedIdx) + 2) .lineOk
      headers hbody
    have he : (c.reread headers buf).processRead =
      (c.processRead.1.reread headers buf', c.processRead.2) := he
    rw [he]
    exact ⟨⟨headers, buf', _, rfl⟩, fun hcode => .body (hnext hcode) hrest⟩
  | @head headers buf hat hat' hstate hdiffer =>
    have hreach := processReadLoop_head _ c .lineOk hat hstate (Nat.le_refl _)
    have hreach' := processReadLoop_head _ (c.reread headers buf) .lineOk hat' hstate (Nat.le_refl _)
    have hlen : c.pending.length = (c.reread headers buf).pending.length := by
      rw [pending_length, pending_length]
      rfl
    have halike := readHead_alike c.toParser c.startLine c.pending headers hlen hstate hdiffer
    change (c.reread headers buf).Reaches _ _
      (readHead (c.toParser.withHeaders headers) c.startLine _) at hreach'
    have hmore : ∀ {p pos rest}, readHead c.toParser c.startLine c.pending = .more p pos rest →
        p.checkState ≠ .content := fun hr => (readHead_more hstate hr).1
    have hended : ∀ {code p pos rest}, readHead c.toParser c.startLine c.pending =
        .ended code p pos rest → code ≠ .noRequest := by
      intro code p pos rest hr
      rcases readHead_ended_code hr with rfl | rfl | rfl
      · simp
      · simp
      · simp
    generalize readHead c.toParser c.startLine c.pending = r at hreach halike hmore hended
    generalize readHead (c.toParser.withHeaders headers) c.startLine (c.reread headers buf).pending =
      r' at hreach' halike
    cases halike with
    | @more p headers' pos rest rest' hlen hdiffer =>
      obtain ⟨b, hk, hrest, he⟩ := hreach
      obtain ⟨b', hk', hrest', he'⟩ := hreach'
      have hscan : (scanLine rest).1.length = (scanLine rest').1.length := by
        have hlower := hdiffer.lower
        rw [lower_append, lower_append] at hlower
        exact (scanLine_alike (List.append_inj hlower (by simpa using hlen)).1).2
      obtain ⟨h1, hpend⟩ := hk.atLine_more (p := p) hat hrest
      obtain ⟨h1', hpend'⟩ := hk'.atLine_more (p := p.withHeaders headers') hat' hrest'
      rw [← hscan] at he' h1' hpend'
      have hc : c.processRead = _ := he
      have hc' : (c.reread headers buf).processRead = _ := he'
      rw [hc, hc']
      refine ⟨⟨headers', b', _, rfl⟩, fun _ => ?_⟩
      refine @Alike.head _ _ _ headers' b' h1 h1' (hmore rfl) ?_
      rw [hpend]
      have hpend' : (reread (c.moved p b pos (pos + (scanLine rest).1.length)) headers' b').pending =
          rest' := hpend'
      rw [hpend']
      exact hdiffer
    | @badLine p headers' pos rest rest' =>
      obtain ⟨b, s, -, -, -, -, he⟩ := hreach
      obtain ⟨b', s', -, -, -, -, he'⟩ := hreach'
      have hc : c.processRead = _ := he
      have hc' : (c.reread headers buf).processRead = _ := he'
      rw [hc, hc']
      exact ⟨⟨headers', b', s', rfl⟩, fun hcode => by cases hcode⟩
    | @ended code p headers' pos rest rest' =>
      obtain ⟨b, -, -, he⟩ := hreach
      obtain ⟨b', -, -, he'⟩ := hreach'
      have hc : c.processRead = _ := he
      have hc' : (c.reread headers buf).processRead = _ := he'
      rw [hc, hc']
      exact ⟨⟨headers', b', _, rfl⟩, fun hcode => absurd hcode (hended rfl)⟩
    | @body p headers' pos rest hR =>
      obtain ⟨b, m, hk, hrest, hm, hp, he⟩ := hreach
      obtain ⟨b', m', hk', hrest', hm', hp', he'⟩ := hreach'
      have hc : c.processRead = (c.moved p b pos pos).processRead :=
        he.trans (processReadLoop_eq_processRead hm)
      have hc' : (c.reread headers buf).processRead =
          ((c.moved p b pos pos).reread headers' b').processRead :=
        he'.trans (processReadLoop_eq_processRead hm')
      have hsame : (c.moved p b pos pos).BodyAlike b' := by
        refine ⟨⟨hp, Nat.le_refl _, hk.le_read, hk.prev⟩, ?_, hk'.prev⟩
        intro j h1 h2
        have hj := Mem.eq_of_seg (hrest'.symm.trans hrest) j h1
          (by show j < pos + (c.readIdx - pos); change j < c.readIdx at h2; omega)
        exact (hk'.same j h1).trans (hj.trans (hk.same j h1).symm)
      obtain ⟨b₁, hloop, hnext⟩ := processReadLoop_alike (2 * (c.readIdx - pos) + 2) .lineOk headers' hsame
      have hloop : ((c.moved p b pos pos).reread headers' b').processRead =
        ((c.moved p b pos pos).processRead.1.reread headers' b₁, (c.moved p b pos pos).processRead.2) :=
        hloop
      rw [hc, hc', hloop]
      exact ⟨⟨headers', b₁, _, rfl⟩, fun hcode => .body (hnext hcode) hR⟩

/-- **The run over the chunks.** -/
theorem feed_alike {chunks chunks' : List Bytes} {c c' : HttpConn} {R R' : Bytes}
    (hlen : chunks.map List.length = chunks'.map List.length)
    (hfit : c.readIdx + chunks.flatten.length ≤ READ_BUFFER_SIZE)
    (h : c.Alike (chunks.flatten ++ R) (chunks'.flatten ++ R') c') :
    ∃ headers buf s, feed c' chunks' = ((feed c chunks).1.recast headers buf s, (feed c chunks).2) := by
  induction chunks generalizing chunks' c c' with
  | nil =>
    obtain rfl : chunks' = [] := List.map_eq_nil_iff.mp hlen.symm
    cases h with
    | head => exact ⟨_, _, _, rfl⟩
    | body => exact ⟨_, _, _, rfl⟩
  | cons d chunks ih =>
    cases chunks' with
    | nil => cases hlen
    | cons d' chunks' =>
      obtain ⟨hd, hlen⟩ := List.cons.inj hlen
      rw [List.flatten_cons, List.length_append] at hfit
      rw [List.flatten_cons, List.flatten_cons, List.append_assoc, List.append_assoc] at h
      obtain ⟨⟨headers, buf, s, he⟩, hnext⟩ := (h.receive hd (by omega)).processRead
      obtain ⟨p₁, buf₁, s₁, k₁, hm, -, -⟩ := processReadLoop_frame
        (2 * ((c.receive d).readIdx - (c.receive d).checkedIdx) + 2) (c.receive d) .lineOk
      have hread : (c.receive d).processRead.1.readIdx = c.readIdx + d.length :=
        congrArg HttpConn.readIdx hm
      rw [he] at hnext
      rw [feed, feed, he]
      rcases hr : (c.receive d).processRead with ⟨c₁, code⟩
      rw [hr] at hnext hread
      cases code with
      | noRequest => exact ih hlen (by simp only at hread; omega) (hnext rfl)
      | badRequest => exact ⟨_, _, _, rfl⟩
      | requestEntityTooLarge => exact ⟨_, _, _, rfl⟩
      | getRequest => exact ⟨_, _, _, rfl⟩
      | internalError => exact ⟨_, _, _, rfl⟩
      | closedConnection => exact ⟨_, _, _, rfl⟩

/-- `process_read` has three ends, and waiting. -/
theorem feed_code {ds : List Bytes} {c : HttpConn} (h : c.Ready)
    (hfit : c.readIdx + ds.flatten.length ≤ READ_BUFFER_SIZE) :
    (feed c ds).2 ≠ .closedConnection := by
  induction ds generalizing c with
  | nil => simp [feed]
  | cons d ds ih =>
    rw [List.flatten_cons, List.length_append] at hfit
    obtain ⟨p, buf, s, k, code, he, -, -, -, hverdict⟩ := (h.receive (d := d) (by omega)).processRead
    rw [feed, he]
    cases hverdict with
    | waits ready =>
      refine ih ready ?_
      show c.readIdx + d.length + _ ≤ _
      omega
    | tooLarge => simp
    | badLine bad => simp
    | refused line pos => simp
    | request pos => simp

theorem feed_stop {c c₁ : HttpConn} {d : Bytes} {ds : List Bytes} {code : HttpCode}
    (hr : (c.receive d).processRead = (c₁, code)) (hcode : code ≠ .noRequest) :
    feed c (d :: ds) = (c₁, code) := by
  rw [feed, hr]
  cases code with
  | noRequest => exact absurd rfl hcode
  | badRequest => rfl
  | requestEntityTooLarge => rfl
  | getRequest => rfl
  | internalError => rfl
  | closedConnection => rfl

/-! ## The answer -/

section Recast

variable (c : HttpConn) (headers : StrMap Bytes) (buf : Mem) (k expected : Nat)

theorem finish_recast (resp : HttpResponse) :
    (c.recast headers buf k).finish expected resp =
      ((c.finish expected resp).1.recast headers buf k, (c.finish expected resp).2) := by
  unfold finish processWrite
  generalize resp.serialize = raw
  by_cases hlen : WRITE_BUFFER_SIZE ≤ raw.length
  · simp only [if_pos hlen]
    by_cases hcur : c.generation = expected ∧ 0 ≤ c.sockfd
    · have hcur' : (c.recast headers buf k).generation = expected ∧
          0 ≤ (c.recast headers buf k).sockfd := hcur
      rw [if_pos hcur, if_pos hcur']
      rfl
    · have hcur' : ¬ ((c.recast headers buf k).generation = expected ∧
          0 ≤ (c.recast headers buf k).sockfd) := hcur
      rw [if_neg hcur, if_neg hcur']
  · simp only [if_neg hlen]
    rfl

theorem withConnection_recast (resp : HttpResponse) :
    (c.recast headers buf k).withConnection resp = c.withConnection resp := rfl

theorem settled_recast (code : HttpCode) :
    (c.recast headers buf k).settled code = (c.settled code).recast headers buf k := by
  unfold settled
  split
  · rfl
  · rfl

theorem finish_request (resp : HttpResponse) : (c.finish expected resp).1.request = c.request := by
  unfold finish processWrite
  by_cases hlen : WRITE_BUFFER_SIZE ≤ resp.serialize.length
  · simp only [if_pos hlen]
    split
    · rfl
    · rfl
  · simp only [if_neg hlen]

end Recast

section Process

variable {σ : Type} (dispatch : σ → HttpRequest → σ × Dispatched)

/-- The end of `process`: what was answered goes out on `c`. -/
def finishWith (c : HttpConn) (expected : Nat) (a : σ × HttpResponse × Processed) :
    σ × HttpConn × Option Interest × Processed :=
  (a.1, (c.finish expected (c.withConnection a.2.1)).1, (c.finish expected (c.withConnection a.2.1)).2,
    a.2.2)

/-- `process` behind `process_read`. -/
def afterRead (st : σ) (expected : Nat) (r : HttpConn × HttpCode) :
    Option (σ × HttpConn × Option Interest × Processed) :=
  if r.2 = .noRequest then some (st, r.1, r.1.armEpollIfCurrent expected .epollin, .waiting)
  else (answer dispatch st r.1 r.2).map (finishWith (r.1.settled r.2) expected)

theorem process_afterRead (st : σ) (c : HttpConn) :
    c.process dispatch st c.generation = afterRead dispatch st c.generation c.processRead := by
  have hsettled : ∀ {c : HttpConn} {code : HttpCode}, code ≠ .requestEntityTooLarge →
      c.settled code = c := fun hne => if_neg hne
  rw [process, if_neg (by simp)]
  rcases c.processRead with ⟨c₁, code⟩
  cases code with
  | noRequest => rfl
  | badRequest =>
    simp only [reject, afterRead, reduceCtorEq, if_false, answer, Option.map_map]
    rw [hsettled (by simp)]
    cases errorResponse .badRequest with
    | none => simp
    | some r => simp [finishWith]
  | internalError =>
    simp only [reject, afterRead, reduceCtorEq, if_false, answer, Option.map_map]
    rw [hsettled (by simp)]
    cases errorResponse .internalError with
    | none => simp
    | some r => simp [finishWith]
  | requestEntityTooLarge =>
    simp only [reject, afterRead, reduceCtorEq, if_false, answer, Option.map_map, settled, if_true]
    cases errorResponse .requestEntityTooLarge with
    | none => simp
    | some r => simp [finishWith]
  | getRequest =>
    simp only [afterRead, reduceCtorEq, if_false, answer, Option.map_map]
    rw [hsettled (by simp)]
    cases respond dispatch st c₁.request with
    | none => simp
    | some r => simp [finishWith]
  | closedConnection =>
    simp only [afterRead, reduceCtorEq, if_false, answer, Option.map_map]
    rw [hsettled (by simp)]
    cases respond dispatch st c₁.request with
    | none => simp
    | some r => simp [finishWith]

/-- The server state that `process` leaves. -/
def stateAfter (st : σ) (req : HttpRequest) : HttpCode → σ
  | .getRequest => (dispatch st req).1
  | .closedConnection => (dispatch st req).1
  | _ => st

theorem respond_state {st : σ} {req : HttpRequest} {r : σ × HttpResponse}
    (h : respond dispatch st req = some r) : r.1 = (dispatch st req).1 := by
  unfold respond at h
  rcases hd : dispatch st req with ⟨st', answered | unmatched | threw⟩
  · rw [hd] at h
    cases h
    rfl
  · rw [hd] at h
    obtain ⟨resp, -, hr⟩ := Option.map_eq_some_iff.mp h
    rw [← hr]
  · rw [hd] at h
    cases h

theorem answer_state {st : σ} {c : HttpConn} {code : HttpCode} {a : σ × HttpResponse × Processed}
    (hcode : code ≠ .noRequest) (h : answer dispatch st c code = some a) :
    a.1 = stateAfter dispatch st c.request code := by
  have rejected : ∀ {o : Option HttpResponse} {did : Processed},
      (o.map fun r => (st, r, did)) = some a → a.1 = st := by
    intro o did h
    obtain ⟨r, -, hr⟩ := Option.map_eq_some_iff.mp h
    rw [← hr]
  have answered : ((respond dispatch st c.request).map fun r =>
      (r.1, r.2, Processed.dispatched c.request (c.withConnection r.2))) = some a →
        a.1 = (dispatch st c.request).1 := by
    intro h
    obtain ⟨r, hr, ha⟩ := Option.map_eq_some_iff.mp h
    rw [← ha]
    exact respond_state dispatch hr
  cases code with
  | noRequest => exact absurd rfl hcode
  | badRequest =>
    simp only [answer] at h
    exact rejected h
  | requestEntityTooLarge =>
    simp only [answer] at h
    exact rejected h
  | internalError =>
    simp only [answer] at h
    exact rejected h
  | getRequest =>
    simp only [answer] at h
    exact answered h
  | closedConnection =>
    simp only [answer] at h
    exact answered h

variable {dispatch} in
theorem afterRead_state {st : σ} {expected : Nat} {c : HttpConn} {code : HttpCode}
    {r : σ × HttpConn × Option Interest × Processed}
    (h : afterRead dispatch st expected (c, code) = some r) :
    r.1 = stateAfter dispatch st c.request code ∧ r.2.1.request = c.request := by
  rw [afterRead] at h
  by_cases hcode : code = .noRequest
  · subst hcode
    rw [if_pos rfl] at h
    rw [← Option.some.inj h]
    exact ⟨rfl, rfl⟩
  · rw [if_neg hcode] at h
    obtain ⟨a, ha, hr⟩ := Option.map_eq_some_iff.mp h
    rw [← hr]
    refine ⟨answer_state dispatch hcode ha, ?_⟩
    simp only [finishWith]
    rw [finish_request]
    unfold settled
    split
    · rfl
    · rfl

variable {dispatch} in
/-- A call that finds a request, or an error, answers. -/
theorem afterRead_did {st : σ} {expected : Nat} {c c' : HttpConn} {code : HttpCode} {st' : σ}
    {armed : Option Interest} {did : Processed} (hcode : code ≠ .noRequest)
    (h : afterRead dispatch st expected (c, code) = some (st', c', armed, did)) :
    (∃ code, did = .rejected code) ∨ ∃ resp, did = .dispatched c.request resp := by
  rw [afterRead, if_neg hcode] at h
  obtain ⟨a, ha, he⟩ := Option.map_eq_some_iff.mp h
  obtain rfl : a.2.2 = did := congrArg (fun r => r.2.2.2) he
  have rejected : ∀ {o : Option HttpResponse} {code : HttpCode},
      (o.map fun r => (st, r, Processed.rejected code)) = some a → ∃ code, a.2.2 = .rejected code := by
    intro o code h
    obtain ⟨r, -, hr⟩ := Option.map_eq_some_iff.mp h
    exact ⟨code, by rw [← hr]⟩
  have answered : ((respond dispatch st c.request).map fun r =>
      (r.1, r.2, Processed.dispatched c.request (c.withConnection r.2))) = some a →
        ∃ resp, a.2.2 = .dispatched c.request resp := by
    intro h
    obtain ⟨r, -, hr⟩ := Option.map_eq_some_iff.mp h
    exact ⟨c.withConnection r.2, by rw [← hr]⟩
  cases code with
  | noRequest => exact absurd rfl hcode
  | badRequest =>
    simp only [answer] at ha
    exact Or.inl (rejected ha)
  | requestEntityTooLarge =>
    simp only [answer] at ha
    exact Or.inl (rejected ha)
  | internalError =>
    simp only [answer] at ha
    exact Or.inl (rejected ha)
  | getRequest =>
    simp only [answer] at ha
    exact Or.inr (answered ha)
  | closedConnection =>
    simp only [answer] at ha
    exact Or.inr (answered ha)

/-- What a call did, for a request with other headers. -/
def Processed.withHeaders (headers : StrMap Bytes) : Processed → Processed
  | .dispatched req resp => .dispatched { req with headers := headers } resp
  | did => did

section Recast

variable {dispatch}
  (hd : ∀ st req headers, (dispatch st { req with headers := headers }).2 = (dispatch st req).2)
  (st : σ) (c : HttpConn) (headers : StrMap Bytes) (buf : Mem) (k : Nat)

include hd

theorem respond_headers (req : HttpRequest) :
    respond dispatch st { req with headers := headers } =
      (respond dispatch st req).map fun r => ((dispatch st { req with headers := headers }).1, r.2) := by
  have hsame := hd st req headers
  unfold respond
  rcases h : dispatch st req with ⟨st₁, did⟩
  rcases h' : dispatch st { req with headers := headers } with ⟨st₂, did'⟩
  rw [h, h'] at hsame
  obtain rfl : did' = did := hsame
  cases did' with
  | answered resp => rfl
  | threw => rfl
  | unmatched =>
    simp only
    cases notFoundResponse req.path with
    | none => simp
    | some resp => simp

theorem answer_recast {code : HttpCode} (hcode : code ≠ .noRequest) :
    answer dispatch st (c.recast headers buf k) code =
      (answer dispatch st c code).map fun a =>
        (stateAfter dispatch st { c.request with headers := headers } code, a.2.1,
          Processed.withHeaders headers a.2.2) := by
  have rejected : ∀ {o : Option HttpResponse} {did : Processed},
      Processed.withHeaders headers did = did →
      (o.map fun r => (st, r, did)) = ((o.map fun r => (st, r, did)).map fun a =>
        (st, a.2.1, Processed.withHeaders headers a.2.2)) := by
    intro o did hdid
    cases o with
    | none => rfl
    | some r => simp only [Option.map_some, hdid]
  have answered : ((respond dispatch st { c.request with headers := headers }).map fun r =>
        (r.1, r.2, Processed.dispatched { c.request with headers := headers } (c.withConnection r.2))) =
      ((respond dispatch st c.request).map fun r =>
        (r.1, r.2, Processed.dispatched c.request (c.withConnection r.2))).map fun a =>
          ((dispatch st { c.request with headers := headers }).1, a.2.1,
            Processed.withHeaders headers a.2.2) := by
    rw [respond_headers hd]
    cases respond dispatch st c.request with
    | none => rfl
    | some r => rfl
  have hrequest : (c.recast headers buf k).request = { c.request with headers := headers } := rfl
  cases code with
  | noRequest => exact absurd rfl hcode
  | badRequest =>
    simp only [answer, stateAfter]
    exact rejected rfl
  | requestEntityTooLarge =>
    simp only [answer, stateAfter]
    exact rejected rfl
  | internalError =>
    simp only [answer, stateAfter]
    exact rejected rfl
  | getRequest =>
    simp only [answer, stateAfter, hrequest, withConnection_recast]
    exact answered
  | closedConnection =>
    simp only [answer, stateAfter, hrequest, withConnection_recast]
    exact answered

/-- **`process` makes the same of both**, when no answer depends on the headers. -/
theorem afterRead_recast (expected : Nat) (code : HttpCode) :
    afterRead dispatch st expected (c.recast headers buf k, code) =
      (afterRead dispatch st expected (c, code)).map fun r =>
        (stateAfter dispatch st { c.request with headers := headers } code,
          r.2.1.recast headers buf k, r.2.2.1, Processed.withHeaders headers r.2.2.2) := by
  unfold afterRead
  by_cases hcode : code = .noRequest
  · subst hcode
    rfl
  · rw [if_neg hcode, if_neg hcode]
    simp only
    rw [answer_recast hd st c headers buf k hcode, settled_recast]
    generalize answer dispatch st c code = o
    generalize c.settled code = c₁
    cases o with
    | none => rfl
    | some a => simp only [Option.map_some, finishWith, withConnection_recast, finish_recast]

end Recast

end Process

end HttpConn
end Http
end UrlShortener
