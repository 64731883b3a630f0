import UrlShortener.Http.Refine

/-!
# UrlShortener.Http.Reading

One call of `process_read`, for the callers.

Between two calls a connection is `Ready`: it reads a head (`AtLine`) or waits for a body
(`InBody`), and a parser that has consumed nothing is a fresh one. Received bytes keep that
(`Ready.receive`), and `Ready.processRead` lists all a call can do: it waits, it accepts a
request, or it refuses one, either at a line end that is not CR LF or at a line it does not
understand.
-/

namespace UrlShortener
namespace Http
namespace HttpConn

/-! ## Received bytes -/

theorem receive_seg (c : HttpConn) (d : Bytes) {i : Nat} (h : i ≤ c.readIdx) :
    (c.receive d).readBuf.seg i ((c.receive d).readIdx - i) =
      c.readBuf.seg i (c.readIdx - i) ++ d :=
  Mem.seg_write_append c.readBuf d h

theorem receive_readBuf (c : HttpConn) (d : Bytes) {j : Nat} (h : j < c.readIdx) :
    (c.receive d).readBuf j = c.readBuf j := Mem.write_of_lt c.readBuf d h

theorem AtLine.receive {c : HttpConn} (h : c.AtLine) {d : Bytes}
    (hlen : c.readIdx + d.length ≤ READ_BUFFER_SIZE) :
    (c.receive d).AtLine ∧ (c.receive d).pending = c.pending ++ d := by
  have h1 := h.start_le
  have h2 := h.checked_le
  refine ⟨⟨h1, ?_, hlen, ?_, ?_⟩, receive_seg c d (Nat.le_trans h1 h2)⟩
  · show c.checkedIdx ≤ c.readIdx + d.length
    omega
  · show Clean ((c.receive d).readBuf.seg c.startLine (c.checkedIdx - c.startLine))
    rw [Mem.seg_congr fun j _ hj => receive_readBuf c d (by omega : j < c.readIdx)]
    exact h.clean
  · by_cases hs : c.startLine ≤ 1
    · exact Or.inl hs
    · right
      show (c.receive d).readBuf (c.startLine - 1) ≠ CR
      rw [receive_readBuf c d (by omega)]
      exact h.prev.resolve_left hs

theorem init_atLine (c : HttpConn) : c.init.AtLine :=
  ⟨Nat.le_refl _, Nat.le_refl _, Nat.zero_le _, Clean.nil, Or.inl (Nat.zero_le _)⟩

/-! ## In a body -/

/-- The invariant between two calls of the parser while it waits for a body. -/
structure InBody (c : HttpConn) : Prop where
  state : c.checkState = .content
  start_le : c.startLine ≤ c.checkedIdx
  checked_le : c.checkedIdx ≤ c.readIdx
  prev : c.PrevOk

theorem InBody.receive {c : HttpConn} (h : c.InBody) (d : Bytes) :
    (c.receive d).InBody ∧ (c.receive d).unread = c.unread ++ d := by
  have h2 := h.checked_le
  refine ⟨⟨h.state, h.start_le, ?_, ?_⟩, receive_seg c d h2⟩
  · show c.checkedIdx ≤ c.readIdx + d.length
    omega
  · by_cases hs : c.checkedIdx ≤ 1
    · exact Or.inl hs
    · right
      show (c.receive d).readBuf (c.checkedIdx - 1) ≠ CR
      rw [receive_readBuf c d (by omega)]
      exact h.prev.resolve_left hs

theorem processRead_accept {c : HttpConn} (h : c.InBody)
    (hfull : c.contentLength + c.checkedIdx ≤ c.readIdx) :
    c.processRead =
      ({ c with
          request := { c.request with body := c.readBuf.seg c.startLine c.contentLength }
          startLine := c.checkedIdx
          checkedIdx := c.checkedIdx + c.contentLength }, .getRequest) :=
  processReadLoop_accept h.state hfull _

/-! ## In a head -/

/-- The parser's cursor stands where the scan of the pending line stops. -/
def AtRest (c : HttpConn) : Prop :=
  (scanLine c.pending).2 = .lineOpen ∧ c.checkedIdx = c.startLine + (scanLine c.pending).1.length

theorem Kept.atLine_more {c : HttpConn} {p : Parser} {buf : Mem} {pos : Nat} {rest : Bytes}
    (hk : c.Kept buf pos) (h : c.AtLine) (hrest : rest = c.readBuf.seg pos (c.readIdx - pos)) :
    (c.moved p buf pos (pos + (scanLine rest).1.length)).AtLine ∧
      (c.moved p buf pos (pos + (scanLine rest).1.length)).pending = rest := by
  have hpend : buf.seg pos (c.readIdx - pos) = rest := by
    rw [hrest]
    exact Mem.seg_congr fun j hj _ => hk.same j hj
  have hlen := scanLine_length_le rest
  rw [hrest, Mem.seg_length, ← hrest] at hlen
  have hpr := hk.le_read
  have hcl : buf.seg pos (scanLine rest).1.length = (scanLine rest).1 := by
    rw [← Mem.seg_take _ _ _ _ hlen, hpend]
    exact scanLine_take rest
  refine ⟨⟨?_, ?_, h.read_le, ?_, hk.prev⟩, hpend⟩
  · show pos ≤ pos + _
    omega
  · show pos + _ ≤ c.readIdx
    omega
  · show Clean (buf.seg pos (pos + (scanLine rest).1.length - pos))
    rw [Nat.add_sub_cancel_left, hcl]
    exact scanLine_clean rest

/-- One call of the parser inside a head, by where the head's bytes take it. -/
theorem processRead_head {c : HttpConn} (h : c.AtLine) (hc : c.checkState ≠ .content)
    (hread : c.readIdx < READ_BUFFER_SIZE) :
    match readHead c.toParser c.startLine c.pending with
    | .more p pos rest => ∃ c' : HttpConn, c.processRead = (c', .noRequest) ∧ c'.AtLine ∧ c'.AtRest ∧
        c'.toParser = p ∧ c'.startLine = pos ∧ c'.pending = rest ∧ c'.readIdx = c.readIdx
    | .badLine p pos _ => ∃ c' : HttpConn, c.processRead = (c', .badRequest) ∧ c'.toParser = p ∧
        c'.checkedIdx = pos
    | .ended code p pos _ => ∃ c' : HttpConn, c.processRead = (c', code) ∧ c'.toParser = p ∧
        c'.checkedIdx = pos
    | .body p pos rest => ∃ c' : HttpConn, c.processRead = c'.processRead ∧ c'.InBody ∧
        c'.toParser = p ∧ c'.startLine = pos ∧ c'.checkedIdx = pos ∧ c'.unread = rest ∧ c'.readIdx = c.readIdx := by
  have hreach := processReadLoop_head _ c .lineOk h hc (Nat.le_refl _)
  have hopen : c.openCode = .noRequest := if_neg (Nat.not_le.mpr hread)
  cases hr : readHead c.toParser c.startLine c.pending with
  | more p pos rest =>
    rw [hr] at hreach
    obtain ⟨buf, hk, hrest, he⟩ := hreach
    obtain ⟨hat, hpend⟩ := hk.atLine_more (p := p) h hrest
    rw [hopen] at he
    refine ⟨_, he, hat, ⟨?_, ?_⟩, rfl, rfl, hpend, rfl⟩
    · rw [hpend]
      exact (readHead_more hc hr).2
    · rw [hpend]
      rfl
  | badLine p pos rest =>
    rw [hr] at hreach
    obtain ⟨buf, s, -, -, -, -, he⟩ := hreach
    exact ⟨_, he, rfl, rfl⟩
  | ended code p pos rest =>
    rw [hr] at hreach
    obtain ⟨buf, -, -, he⟩ := hreach
    exact ⟨_, he, rfl, rfl⟩
  | body p pos rest =>
    rw [hr] at hreach
    obtain ⟨buf, m, hk, hrest, hm, hp, he⟩ := hreach
    refine ⟨c.moved p buf pos pos, he.trans (processReadLoop_eq_processRead hm),
      ⟨hp, Nat.le_refl _, hk.le_read, hk.prev⟩, rfl, rfl, rfl, ?_, rfl⟩
    rw [hrest]
    exact Mem.seg_congr fun j hj _ => hk.same j hj


/-! ## One call, from any state -/

/-- The invariant between two calls of `process_read`. -/
structure Ready (c : HttpConn) : Prop where
  read_le : c.readIdx ≤ READ_BUFFER_SIZE
  inside : (c.AtLine ∧ c.checkState ≠ .content) ∨ c.InBody
  fresh : c.checkedIdx = 0 → c.toParser = {}

theorem Ready.checked_le {c : HttpConn} (h : c.Ready) : c.checkedIdx ≤ c.readIdx := by
  rcases h.inside with ⟨h, -⟩ | h
  · exact h.checked_le
  · exact h.checked_le

theorem init_ready (c : HttpConn) : c.init.Ready :=
  ⟨Nat.zero_le _, Or.inl ⟨init_atLine c, by simp [init]⟩, fun _ => rfl⟩

theorem Ready.receive {c : HttpConn} (h : c.Ready) {d : Bytes}
    (hlen : c.readIdx + d.length ≤ READ_BUFFER_SIZE) : (c.receive d).Ready := by
  refine ⟨hlen, ?_, h.fresh⟩
  rcases h.inside with ⟨h, hc⟩ | h
  · exact Or.inl ⟨(h.receive hlen).1, hc⟩
  · exact Or.inr (h.receive d).1

/-- A head line among the buffered bytes is refused; `p` is the parser at that line. -/
def Refuses (c : HttpConn) (p : Parser) : Prop :=
  c.checkState ≠ .content ∧
    ∃ pos rest, readHead c.toParser c.startLine c.pending = .ended .badRequest p pos rest

/-- What a call of `process_read` that takes `c` to `c'` may return. -/
inductive Verdict (c c' : HttpConn) : HttpCode → Prop
  | waits (ready : c'.Ready) : Verdict c c' .noRequest
  | tooLarge : Verdict c c' .requestEntityTooLarge
  | badLine (bad : StartsBad c'.unread) : Verdict c c' .badRequest
  | refused (line : c.Refuses c'.toParser) (pos : 0 < c'.checkedIdx) : Verdict c c' .badRequest
  | request (pos : 0 < c'.checkedIdx) : Verdict c c' .getRequest

theorem moved_unread {c : HttpConn} {p : Parser} {buf : Mem} {s k : Nat}
    (hk : c.checkedIdx ≤ k) (hr : k ≤ c.readIdx) (hsame : ∀ j, k ≤ j → buf j = c.readBuf j) :
    (c.moved p buf s k).unread = c.unread.drop (k - c.checkedIdx) := by
  rw [unread, unread, Mem.seg_drop _ _ _ _ (by omega)]
  show buf.seg k (c.readIdx - k) = _
  rw [Mem.seg_congr fun j hj _ => hsame j hj, Nat.add_sub_of_le hk]
  congr 1
  omega

theorem processRead_mono {c : HttpConn} {p : Parser} {buf : Mem} {s k : Nat} {code : HttpCode}
    (he : c.processRead = (c.moved p buf s k, code)) (hle : c.checkedIdx ≤ c.readIdx) :
    c.checkedIdx ≤ k ∧ k ≤ c.readIdx := by
  obtain ⟨p', buf', s', k', hm, h1, h2⟩ := processReadLoop_frame _ c .lineOk
  have hm' : c.processRead.1 = c.moved p' buf' s' k' := hm
  rw [he] at hm'
  have hk : k = k' := congrArg checkedIdx hm'
  exact ⟨hk ▸ h1, hk ▸ h2 hle⟩

theorem InBody.processRead {c : HttpConn} (h : c.InBody) (hpos : 0 < c.checkedIdx)
    (hread : c.readIdx ≤ READ_BUFFER_SIZE) :
    ∃ p buf s k code, c.processRead = (c.moved p buf s k, code) ∧ c.checkedIdx ≤ k ∧
      k ≤ c.readIdx ∧ (∀ j, k ≤ j → buf j = c.readBuf j) ∧
      ∀ c₀ : HttpConn, c₀.Verdict (c.moved p buf s k) code := by
  have hle := h.checked_le
  by_cases hfull : c.contentLength + c.checkedIdx ≤ c.readIdx
  · refine ⟨_, _, _, _, _, processRead_accept h hfull, by omega, by omega, fun _ _ => rfl,
      fun c₀ => .request ?_⟩
    show 0 < c.checkedIdx + c.contentLength
    omega
  · obtain ⟨buf, s, hs, hk, he⟩ := processReadLoop_short (2 * (c.readIdx - c.checkedIdx) + 2)
      h.state (by omega) h.start_le hle h.prev (Nat.le_refl _)
    refine ⟨c.toParser, buf, s, _, _, he, by omega, hk.k_le, hk.same, fun c₀ => ?_⟩
    rw [processReadExit]
    split
    · rename_i hst
      refine .badLine ?_
      rw [moved_unread (by omega) hk.k_le hk.same, Nat.add_sub_cancel_left]
      exact bodyScan_bad_rest hst
    · split
      · exact .tooLarge
      · refine .waits ⟨hread, Or.inr ⟨h.state, hk.s_le, hk.k_le, hk.prev⟩, fun h0 => ?_⟩
        have h0' : c.checkedIdx + (bodyScan c.unread).1 = 0 := h0
        omega

/-- **One call of `process_read`.** -/
theorem Ready.processRead {c : HttpConn} (h : c.Ready) :
    ∃ p buf s k code, c.processRead = (c.moved p buf s k, code) ∧ c.checkedIdx ≤ k ∧
      k ≤ c.readIdx ∧ (c.moved p buf s k).unread = c.unread.drop (k - c.checkedIdx) ∧
      c.Verdict (c.moved p buf s k) code := by
  rcases h.inside with ⟨hat, hc⟩ | hb
  · have hreach := processReadLoop_head _ c .lineOk hat hc (Nat.le_refl _)
    have hstart := hat.start_le
    have hpos := readHead_pos c.toParser c.startLine c.pending
    have hprog : (readHead c.toParser c.startLine c.pending).pos < c.startLine + 2 → _ :=
      readHead_start
    cases hr : readHead c.toParser c.startLine c.pending with
    | more p pos rest =>
      rw [hr] at hreach hprog
      obtain ⟨buf, hk, hrest, he⟩ := hreach
      obtain ⟨hk1, hk2⟩ := processRead_mono he hat.checked_le
      refine ⟨_, _, _, _, _, he, hk1, hk2, moved_unread hk1 hk2
        fun j hj => hk.same j (Nat.le_trans (Nat.le_add_right _ _) hj), ?_⟩
      rw [openCode]
      split
      · exact .tooLarge
      · refine .waits ⟨h.read_le, Or.inl ⟨(hk.atLine_more hat hrest).1, (readHead_more hc hr).1⟩,
          fun h0 => ?_⟩
        have h0' : pos + (scanLine rest).1.length = 0 := h0
        rcases hprog (by simp only [HeadResult.pos]; omega) with hm | ⟨_, _, hm⟩
        · cases hm
          exact h.fresh (by omega)
        · cases hm
    | badLine p pos rest =>
      rw [hr] at hreach
      obtain ⟨buf, s, hk, hs, hpr, hrest, he⟩ := hreach
      obtain ⟨hk1, hk2⟩ := processRead_mono he hat.checked_le
      have hun : (c.moved p buf s pos).unread = rest := by
        rw [hrest]
        exact Mem.seg_congr fun j hj _ => hk.same j (Nat.le_trans hs hj)
      refine ⟨_, _, _, _, _, he, hk1, hk2, moved_unread hk1 hk2
        fun j hj => hk.same j (Nat.le_trans hs hj), .badLine ?_⟩
      rw [hun]
      exact readHead_badLine hr
    | ended code p pos rest =>
      rw [hr] at hreach hprog
      obtain ⟨buf, hk, hrest, he⟩ := hreach
      obtain ⟨hk1, hk2⟩ := processRead_mono he hat.checked_le
      refine ⟨_, _, _, _, _, he, hk1, hk2, moved_unread hk1 hk2 hk.same, ?_⟩
      have hpos2 : 0 < pos := by
        by_contra h0
        rcases hprog (by simp only [HeadResult.pos]; omega) with hm | ⟨_, _, hm⟩ <;> cases hm
      rcases readHead_ended_code hr with rfl | rfl | rfl
      · exact .refused ⟨hc, pos, rest, hr⟩ hpos2
      · exact .tooLarge
      · exact .request hpos2
    | body p pos rest =>
      rw [hr] at hreach hprog
      obtain ⟨buf, m, hk, hrest, hm, hp, he⟩ := hreach
      have hpos2 : 0 < pos := by
        by_contra h0
        rcases hprog (by simp only [HeadResult.pos]; omega) with hm | ⟨_, _, hm⟩ <;> cases hm
      have hin : (c.moved p buf pos pos).InBody := ⟨hp, Nat.le_refl _, hk.le_read, hk.prev⟩
      obtain ⟨p', buf', s', k', code, he', hk1', hk2', hsame, hv⟩ :=
        hin.processRead hpos2 h.read_le
      have he₂ : c.processRead = (c.moved p' buf' s' k', code) :=
        (he.trans (processReadLoop_eq_processRead hm)).trans he'
      obtain ⟨hk1, hk2⟩ := processRead_mono he₂ hat.checked_le
      refine ⟨p', buf', s', k', code, he₂, hk1, hk2, moved_unread hk1 hk2 fun j hj => ?_, hv c⟩
      exact (hsame j hj).trans (hk.same j (Nat.le_trans hk1' hj))
  · have hpos : 0 < c.checkedIdx := by
      by_contra h0
      have := congrArg Parser.checkState (h.fresh (by omega))
      rw [hb.state] at this
      cases this
    obtain ⟨p, buf, s, k, code, he, hk1, hk2, hsame, hv⟩ := hb.processRead hpos h.read_le
    exact ⟨p, buf, s, k, code, he, hk1, hk2, moved_unread hk1 hk2 hsame, hv c⟩

/-- A parser that has consumed nothing refuses a bad line end on the spot, and stays there. -/
theorem Ready.processRead_stuck {c : HttpConn} (h : c.Ready) (h0 : c.checkedIdx = 0)
    (hbad : StartsBad c.unread) :
    ∃ buf, c.processRead = (c.moved {} buf 0 0, .badRequest) := by
  have hp := h.fresh h0
  rcases h.inside with ⟨hat, hc⟩ | hb
  · have hs0 : c.startLine = 0 := Nat.le_zero.mp (h0 ▸ hat.start_le)
    have hpend : c.pending = c.unread := by rw [pending, unread, hs0, h0]
    have hreach := processReadLoop_head _ c .lineOk hat hc (Nat.le_refl _)
    rw [hpend, readHead_bad (scanLine_startsBad hbad), hs0, hp] at hreach
    obtain ⟨buf, s, -, hs, -, -, he⟩ := hreach
    obtain rfl : s = 0 := Nat.le_zero.mp hs
    exact ⟨buf, he⟩
  · have := congrArg Parser.checkState hp
    rw [hb.state] at this
    cases this

/-! ## From a reset parser -/

/-- A parser right after a reset: everything buffered is unread. -/
structure Fresh (c : HttpConn) : Prop where
  parser : c.toParser = {}
  start : c.startLine = 0
  checked : c.checkedIdx = 0

theorem Fresh.ready {c : HttpConn} (h : c.Fresh) (hread : c.readIdx ≤ READ_BUFFER_SIZE) :
    c.Ready := by
  have hs : c.checkState ≠ .content := by
    rw [show c.checkState = Parser.checkState {} from congrArg Parser.checkState h.parser]
    simp
  refine ⟨hread, Or.inl ⟨⟨?_, ?_, hread, ?_, ?_⟩, hs⟩, fun _ => h.parser⟩
  · rw [h.start, h.checked]
  · rw [h.checked]
    omega
  · rw [h.start, h.checked]
    exact Clean.nil
  · rw [h.start]
    exact Or.inl (Nat.zero_le _)

theorem Fresh.reaches {c : HttpConn} (h : c.Fresh) (hread : c.readIdx ≤ READ_BUFFER_SIZE) :
    c.Reaches (2 * (c.readIdx - c.checkedIdx) + 2) .lineOk (readHead {} 0 c.unread) := by
  rcases (h.ready hread).inside with ⟨hat, hc⟩ | hb
  · have hreach := processReadLoop_head _ c .lineOk hat hc (Nat.le_refl _)
    have hpend : c.pending = c.unread := by rw [pending, unread, h.start, h.checked]
    rw [hpend, h.parser, h.start] at hreach
    exact hreach
  · have := congrArg Parser.checkState h.parser
    rw [hb.state] at this
    cases this

/-- A head that ends the reading, read by a reset parser. -/
theorem Fresh.processRead_ended {c : HttpConn} (h : c.Fresh)
    (hread : c.readIdx ≤ READ_BUFFER_SIZE) {code : HttpCode} {p : Parser} {pos : Nat}
    {rest : Bytes} (hr : readHead {} 0 c.unread = .ended code p pos rest) :
    ∃ c₁, c.processRead = (c₁, code) ∧ c₁.toParser = p ∧ c₁.unread = rest := by
  have hreach := h.reaches hread
  rw [hr] at hreach
  obtain ⟨buf, hk, hrest, he⟩ := hreach
  refine ⟨_, he, rfl, ?_⟩
  rw [hrest]
  exact Mem.seg_congr fun j hj _ => hk.same j hj

/-- A complete body behind a head, read by a reset parser. -/
theorem Fresh.processRead_body {c : HttpConn} (h : c.Fresh)
    (hread : c.readIdx ≤ READ_BUFFER_SIZE) {p : Parser} {pos : Nat} {rest : Bytes}
    (hr : readHead {} 0 c.unread = .body p pos rest) (hfull : p.contentLength ≤ rest.length) :
    ∃ c₁, c.processRead = (c₁, .getRequest) ∧
      c₁.toParser = { p with request := { p.request with body := rest.take p.contentLength } } ∧
      c₁.unread = rest.drop p.contentLength := by
  have hreach := h.reaches hread
  rw [hr] at hreach
  obtain ⟨buf, m, hk, hrest, hm, hp, he⟩ := hreach
  have hin : (c.moved p buf pos pos).InBody := ⟨hp, Nat.le_refl _, hk.le_read, hk.prev⟩
  have hle := hk.le_read
  have hlen : rest.length = c.readIdx - pos := by rw [hrest, Mem.seg_length]
  have hseg : buf.seg pos (c.readIdx - pos) = rest := by
    rw [hrest]
    exact Mem.seg_congr fun j hj _ => hk.same j hj
  have hacc := processRead_accept hin
    (by show p.contentLength + pos ≤ c.readIdx; omega)
  refine ⟨_, (he.trans (processReadLoop_eq_processRead hm)).trans hacc, ?_, ?_⟩
  · show { p with request := { p.request with body := buf.seg pos p.contentLength } } = _
    rw [← Mem.seg_take _ _ _ _ (hlen ▸ hfull), hseg]
  · show buf.seg (pos + p.contentLength) (c.readIdx - (pos + p.contentLength)) = _
    rw [← hseg, Mem.seg_drop _ _ _ _ (by omega), Nat.sub_sub]

end HttpConn
end Http
end UrlShortener
