import UrlShortener.Http.Stream

/-!
# UrlShortener.Http.Refine

`process_read` on a connection does to the bytes of its read buffer what `Http.Stream` says.

* `AtLine` is the invariant between two calls of the parser while it reads a head: the cursors
  are ordered and the bytes between `m_start_line` and `m_checked_idx` belong to a line that has
  not ended. `pending` is that line and everything behind it.
* `processReadLoop_head` runs the loop to where `readHead` stops on `pending`.
* `processReadLoop_accept` and `processReadLoop_short` are the two ways the loop leaves the
  content state: the whole body is there, or it is not and `parse_line` walks over what is.

Every result gives the connection after the call as `moved`: the parser fields, the buffer and
two cursors change, nothing else.
-/

namespace UrlShortener
namespace Http
namespace HttpConn

/-- Bytes behind the parser's cursor. -/
def unread (c : HttpConn) : Bytes := c.readBuf.seg c.checkedIdx (c.readIdx - c.checkedIdx)

/-- Bytes from the start of the current line on. -/
def pending (c : HttpConn) : Bytes := c.readBuf.seg c.startLine (c.readIdx - c.startLine)

/-- What a call of `process_read` can change. -/
def moved (c : HttpConn) (p : Parser) (buf : Mem) (startLine checkedIdx : Nat) : HttpConn :=
  { c with toParser := p, readBuf := buf, startLine := startLine, checkedIdx := checkedIdx }

/-- No CR stands right before the cursor, so an LF under it is a lone one. -/
def PrevOk (c : HttpConn) : Prop := c.checkedIdx ≤ 1 ∨ c.readBuf (c.checkedIdx - 1) ≠ CR

structure AtLine (c : HttpConn) : Prop where
  start_le : c.startLine ≤ c.checkedIdx
  checked_le : c.checkedIdx ≤ c.readIdx
  read_le : c.readIdx ≤ READ_BUFFER_SIZE
  clean : Clean (c.readBuf.seg c.startLine (c.checkedIdx - c.startLine))
  prev : c.startLine ≤ 1 ∨ c.readBuf (c.startLine - 1) ≠ CR

@[simp] theorem unread_length (c : HttpConn) : c.unread.length = c.readIdx - c.checkedIdx := by
  simp [unread]

@[simp] theorem pending_length (c : HttpConn) : c.pending.length = c.readIdx - c.startLine := by
  simp [pending]

theorem AtLine.pending_eq {c : HttpConn} (h : c.AtLine) :
    c.pending = c.readBuf.seg c.startLine (c.checkedIdx - c.startLine) ++ c.unread := by
  have h1 := h.start_le
  have h2 := h.checked_le
  have e : c.readIdx - c.startLine = (c.checkedIdx - c.startLine) + (c.readIdx - c.checkedIdx) := by
    omega
  have e2 : c.startLine + (c.checkedIdx - c.startLine) = c.checkedIdx := by omega
  rw [pending, e, Mem.seg_add, e2]
  rfl

/-- A byte before the end of a clean run is not a CR. -/
theorem clean_last {m : Mem} {i k : Nat} (h : Clean (m.seg i k)) (hk : 0 < k) :
    m (i + k - 1) ≠ CR := by
  obtain ⟨k, rfl⟩ : ∃ j, k = j + 1 := ⟨k - 1, by omega⟩
  rw [Mem.seg_add] at h
  exact (h (m (i + k)) (by simp [Mem.seg])).1

theorem PrevOk.advance {c : HttpConn} (h : c.PrevOk) {k : Nat}
    (hc : Clean (c.readBuf.seg c.checkedIdx k)) : PrevOk { c with checkedIdx := c.checkedIdx + k } := by
  rcases Nat.eq_zero_or_pos k with rfl | hk
  · exact h
  · exact Or.inr (clean_last hc hk)

theorem AtLine.prevOk {c : HttpConn} (h : c.AtLine) : c.PrevOk := by
  have h1 := h.start_le
  rcases Nat.eq_zero_or_pos (c.checkedIdx - c.startLine) with h0 | hpos
  · have e : c.checkedIdx = c.startLine := by omega
    rw [PrevOk, e]
    exact h.prev
  · have := clean_last h.clean hpos
    rw [Nat.add_sub_of_le h1] at this
    exact Or.inr this

/-! ## The loop counter -/

/-- What `parse_line` can change, whatever the buffer holds. -/
theorem parseLineFrom_frame (n : Nat) (c : HttpConn) (hn : n = c.readIdx - c.checkedIdx) :
    ∃ buf k, c.checkedIdx ≤ k ∧ (c.checkedIdx ≤ c.readIdx → k ≤ c.readIdx) ∧
      (parseLineFrom n c).1 = { c with readBuf := buf, checkedIdx := k } ∧
      ((parseLineFrom n c).2 = .lineOk → c.checkedIdx < k ∧ c.checkedIdx < c.readIdx) := by
  induction n generalizing c with
  | zero => exact ⟨c.readBuf, c.checkedIdx, Nat.le_refl _, id, rfl, fun h => by cases h⟩
  | succ n ih =>
    have stay : ∀ st, st ≠ LineStatus.lineOk → ∃ buf k, c.checkedIdx ≤ k ∧
        (c.checkedIdx ≤ c.readIdx → k ≤ c.readIdx) ∧
        ((c, st) : HttpConn × LineStatus).1 = { c with readBuf := buf, checkedIdx := k } ∧
        (((c, st) : HttpConn × LineStatus).2 = .lineOk →
          c.checkedIdx < k ∧ c.checkedIdx < c.readIdx) :=
      fun st hst => ⟨c.readBuf, c.checkedIdx, Nat.le_refl _, id, rfl, fun h => absurd h hst⟩
    rw [parseLineFrom]
    split
    · split
      · exact stay .lineOpen (by simp)
      · split
        · exact ⟨_, _, by omega, by omega, rfl, fun _ => by omega⟩
        · exact stay .lineBad (by simp)
    · split
      · split
        · exact ⟨_, _, by omega, by omega, rfl, fun _ => by omega⟩
        · exact stay .lineBad (by simp)
      · obtain ⟨buf, k, h1, h2, h3, h4⟩ := ih { c with checkedIdx := c.checkedIdx + 1 }
          (by simp only; omega)
        simp only at h1 h2 h4
        refine ⟨buf, k, by omega, fun _ => h2 (by omega), h3, fun h => ?_⟩
        have := h4 h
        omega

theorem parseLine_frame (c : HttpConn) :
    ∃ buf k, c.checkedIdx ≤ k ∧ (c.checkedIdx ≤ c.readIdx → k ≤ c.readIdx) ∧
      c.parseLine.1 = { c with readBuf := buf, checkedIdx := k } ∧
      (c.parseLine.2 = .lineOk → c.checkedIdx < k ∧ c.checkedIdx < c.readIdx) :=
  parseLineFrom_frame _ c rfl

/-- The loop body does not move the cursor back, and leaves the received bytes alone. -/
theorem processLine_frame (c : HttpConn) (ls : LineStatus) :
    ∃ p s k, (c.processLine ls).1 = c.moved p c.readBuf s k ∧ c.checkedIdx ≤ k ∧
      (c.checkedIdx ≤ c.readIdx → k ≤ c.readIdx) ∧
      ((c.processLine ls).2 = .inr .lineOk → c.checkState ≠ .content ∧ ls = .lineOk) := by
  cases hs : c.checkState with
  | requestLine =>
    simp only [processLine, hs]
    refine ⟨_, _, _, rfl, Nat.le_refl _, id, fun h => ⟨by simp, ?_⟩⟩
    split at h
    · cases h
    · simpa using h
  | header =>
    simp only [processLine, hs]
    refine ⟨_, _, _, rfl, Nat.le_refl _, id, fun h => ⟨by simp, ?_⟩⟩
    cases hret : (c.toParser.parseHeaders c.checkedIdx
        (c.readBuf.cstr READ_BUFFER_SIZE c.startLine)).2 <;> rw [hret] at h <;> simp_all
  | content =>
    simp only [processLine, hs, parseContent]
    split
    · rename_i hfull
      exact ⟨_, _, _, rfl, by simp, fun _ => by omega, fun h => by simp at h⟩
    · exact ⟨_, _, _, rfl, by simp, id, fun h => by simp at h⟩

/-- Two rounds of the loop for each unread byte, and one more in the content state. -/
def loopMeasure (c : HttpConn) (ls : LineStatus) : Nat :=
  2 * (c.readIdx - c.checkedIdx) + if c.checkState = .content ∧ ls = .lineOk then 1 else 0

/-- **The counter of `process_read`'s loop never runs out.** -/
theorem processReadLoop_fuel (n : Nat) (c : HttpConn) (ls : LineStatus)
    (h : c.loopMeasure ls < n) : processReadLoop (n + 1) c ls = processReadLoop n c ls := by
  induction n generalizing c ls with
  | zero => omega
  | succ n ih =>
    rw [processReadLoop, processReadLoop.eq_def (n + 1)]
    simp only
    by_cases hif : c.checkState = .content ∧ ls = .lineOk
    · rw [if_pos hif, if_pos hif]
      rw [loopMeasure, if_pos hif] at h
      obtain ⟨p, s, k, hm, hk, -, hl⟩ := processLine_frame c ls
      rcases hpl : c.processLine ls with ⟨c', code | ls'⟩
      · rfl
      · rw [hpl] at hm hl
        simp only at hm ⊢
        have hr : c'.readIdx = c.readIdx := by rw [hm]; rfl
        have hc : c'.checkedIdx = k := by rw [hm]; rfl
        refine ih c' ls' ?_
        have hne : ¬ (c'.checkState = .content ∧ ls' = .lineOk) := by
          rintro ⟨-, rfl⟩
          exact (hl rfl).1 hif.1
        rw [loopMeasure, if_neg hne]
        omega
    · rw [if_neg hif, if_neg hif]
      rw [loopMeasure, if_neg hif] at h
      obtain ⟨buf, k, h1, -, h3, h4⟩ := c.parseLine_frame
      rcases hp : c.parseLine with ⟨c', ls'⟩
      rw [hp] at h3 h4
      cases ls' with
      | lineBad => rfl
      | lineOpen => rfl
      | lineOk =>
        simp only at h3 ⊢
        obtain ⟨p, s, k', hm, hk', -, -⟩ := processLine_frame c' .lineOk
        rcases hpl : c'.processLine .lineOk with ⟨c₂, code | ls₂⟩
        · rfl
        · rw [hpl] at hm
          simp only at hm ⊢
          have hr : c₂.readIdx = c'.readIdx := by rw [hm]; rfl
          have hc : c₂.checkedIdx = k' := by rw [hm]; rfl
          refine ih c₂ ls₂ ?_
          have hk := h4 rfl
          have e1 : c'.checkedIdx = k := by rw [h3]
          have e2 : c'.readIdx = c.readIdx := by rw [h3]
          rw [loopMeasure]
          split <;> omega

/-- The rest of `process_read` after a line. -/
def goesOn (n : Nat) : HttpConn × (HttpCode ⊕ LineStatus) → HttpConn × HttpCode
  | (c, .inl code) => (c, code)
  | (c, .inr ls) => processReadLoop n c ls

/-- **What a call of `process_read` can change**, whatever the buffer holds. -/
theorem processReadLoop_frame (n : Nat) (c : HttpConn) (ls : LineStatus) :
    ∃ p buf s k, (processReadLoop n c ls).1 = c.moved p buf s k ∧ c.checkedIdx ≤ k ∧
      (c.checkedIdx ≤ c.readIdx → k ≤ c.readIdx) := by
  induction n generalizing c ls with
  | zero => exact ⟨c.toParser, c.readBuf, c.startLine, c.checkedIdx, rfl, Nat.le_refl _, id⟩
  | succ n ih =>
    have body : ∀ (c' : HttpConn) ls',
        ∃ p buf s k, (goesOn n (c'.processLine ls')).1 = c'.moved p buf s k ∧
          c'.checkedIdx ≤ k ∧ (c'.checkedIdx ≤ c'.readIdx → k ≤ c'.readIdx) := by
      intro c' ls'
      obtain ⟨p, s, k, hm, hk, hkr, -⟩ := processLine_frame c' ls'
      rcases hpl : c'.processLine ls' with ⟨c₂, code | ls₂⟩
      · rw [hpl] at hm
        exact ⟨p, c'.readBuf, s, k, hm, hk, hkr⟩
      · rw [hpl] at hm
        simp only at hm
        subst hm
        obtain ⟨p', buf', s', k', he, hk', hr'⟩ := ih (c'.moved p c'.readBuf s k) ls₂
        exact ⟨p', buf', s', k', he, Nat.le_trans hk hk', fun hle => hr' (hkr hle)⟩
    rw [processReadLoop]
    split
    · exact body c ls
    · obtain ⟨buf, k, h1, h2, h3, -⟩ := c.parseLine_frame
      rcases hp : c.parseLine with ⟨c', ls'⟩
      rw [hp] at h3
      simp only at h3
      subst h3
      cases ls' with
      | lineBad => exact ⟨_, _, _, _, rfl, h1, h2⟩
      | lineOpen => exact ⟨_, _, _, _, rfl, h1, h2⟩
      | lineOk =>
        obtain ⟨p', buf', s', k', he, hk', hr'⟩ := body { c with readBuf := buf, checkedIdx := k }
          .lineOk
        exact ⟨p', buf', s', k', he, Nat.le_trans h1 hk', fun hle => hr' (h2 hle)⟩

theorem processReadLoop_eq_processRead {c : HttpConn} {n : Nat}
    (h : 2 * (c.readIdx - c.checkedIdx) + 2 ≤ n) : processReadLoop n c .lineOk = c.processRead := by
  obtain ⟨d, rfl⟩ := Nat.exists_eq_add_of_le h
  induction d with
  | zero => rfl
  | succ d ih =>
    rw [← Nat.add_assoc, processReadLoop_fuel _ _ _ (by rw [loopMeasure]; split <;> omega)]
    exact ih (by omega)

/-! ## `parse_line` -/

/-- The cursor past a line end, with its two bytes overwritten. -/
def endLine (c : HttpConn) (k : Nat) : HttpConn :=
  { c with
    readBuf := (c.readBuf.set (c.checkedIdx + k) NUL).set (c.checkedIdx + k + 1) NUL
    checkedIdx := c.checkedIdx + k + 2 }

/-- `parse_line`, read off the scan of the unread bytes. -/
def afterScan (c : HttpConn) : Bytes × LineStatus → HttpConn × LineStatus
  | (line, .lineOk) => (c.endLine line.length, .lineOk)
  | (pre, st) => ({ c with checkedIdx := c.checkedIdx + pre.length }, st)

theorem parseLineFrom_eq (n : Nat) (c : HttpConn) (hn : n = c.readIdx - c.checkedIdx)
    (h : c.PrevOk) : parseLineFrom n c = c.afterScan (scanLine c.unread) := by
  induction n generalizing c with
  | zero => simp [parseLineFrom, unread, ← hn, scanLine, afterScan]
  | succ n ih =>
    have hu : c.unread = c.readBuf c.checkedIdx :: c.readBuf.seg (c.checkedIdx + 1) n := by
      rw [unread, ← hn, Mem.seg_succ]
    rw [parseLineFrom, hu]
    by_cases hcr : c.readBuf c.checkedIdx = CR
    · simp only [hcr, if_true]
      cases n with
      | zero =>
        have e : c.checkedIdx + 1 = c.readIdx := by omega
        simp [e, scanLine, afterScan]
      | succ n =>
        have e : ¬ c.checkedIdx + 1 = c.readIdx := by omega
        by_cases hlf : c.readBuf (c.checkedIdx + 1) = LF
        · simp [e, hlf, Mem.seg_succ, scanLine, afterScan, endLine]
        · simp [e, hlf, Mem.seg_succ, scanLine, afterScan]
    · by_cases hlf : c.readBuf c.checkedIdx = LF
      · have hp : ¬ (1 < c.checkedIdx ∧ c.readBuf (c.checkedIdx - 1) = CR) := by
          rintro ⟨h1, h2⟩
          rcases h with h | h
          · omega
          · exact h h2
        simp [hlf, hp, scanLine, afterScan, show ¬ LF = CR from by decide]
      · have hp : PrevOk { c with checkedIdx := c.checkedIdx + 1 } := Or.inr hcr
        have := ih { c with checkedIdx := c.checkedIdx + 1 } (by simp only; omega) hp
        have e : ({ c with checkedIdx := c.checkedIdx + 1 } : HttpConn).unread =
            c.readBuf.seg (c.checkedIdx + 1) n := by
          rw [unread]
          congr 1
          simp only
          omega
        simp only [if_neg hcr, if_neg hlf, this, e, scanLine]
        rcases hs : scanLine (c.readBuf.seg (c.checkedIdx + 1) n) with ⟨pre, st⟩
        have e1 : c.checkedIdx + 1 + pre.length = c.checkedIdx + (pre.length + 1) := by omega
        cases st <;> simp [afterScan, endLine, e1]

theorem parseLine_eq {c : HttpConn} (h : c.PrevOk) : c.parseLine = c.afterScan (scanLine c.unread) :=
  parseLineFrom_eq _ c rfl h

theorem AtLine.scan_pending {c : HttpConn} (h : c.AtLine) :
    scanLine c.pending =
      (c.readBuf.seg c.startLine (c.checkedIdx - c.startLine) ++ (scanLine c.unread).1,
        (scanLine c.unread).2) := by
  rw [h.pending_eq, scanLine_append_clean h.clean]

/-- The scan of the current line, when it ends. -/
theorem AtLine.parseLine_ok {c : HttpConn} (h : c.AtLine) {line : Bytes}
    (hs : scanLine c.pending = (line, .lineOk)) :
    c.checkedIdx ≤ c.startLine + line.length ∧
    c.parseLine =
      ({ c with
          readBuf := (c.readBuf.set (c.startLine + line.length) NUL).set
            (c.startLine + line.length + 1) NUL
          checkedIdx := c.startLine + line.length + 2 }, .lineOk) := by
  have h1 := h.start_le
  rw [h.scan_pending, Prod.mk.injEq] at hs
  obtain ⟨hl, hst⟩ := hs
  have hlen := congrArg List.length hl
  rw [List.length_append, Mem.seg_length] at hlen
  have e : c.checkedIdx + (scanLine c.unread).1.length = c.startLine + line.length := by omega
  refine ⟨by omega, ?_⟩
  have hsc : scanLine c.unread = ((scanLine c.unread).1, .lineOk) := Prod.ext rfl hst
  rw [parseLine_eq h.prevOk, hsc]
  simp only [afterScan, endLine, e]

theorem AtLine.parseLine_stop {c : HttpConn} (h : c.AtLine) {pre : Bytes} {st : LineStatus}
    (hs : scanLine c.pending = (pre, st)) (hst : st ≠ .lineOk) :
    c.parseLine = ({ c with checkedIdx := c.startLine + pre.length }, st) := by
  have h1 := h.start_le
  rw [h.scan_pending, Prod.mk.injEq] at hs
  obtain ⟨hl, hst'⟩ := hs
  have hlen := congrArg List.length hl
  rw [List.length_append, Mem.seg_length] at hlen
  have e : c.checkedIdx + (scanLine c.unread).1.length = c.startLine + pre.length := by omega
  have hsc : scanLine c.unread = ((scanLine c.unread).1, st) := Prod.ext rfl hst'
  rw [parseLine_eq h.prevOk, hsc]
  cases st with
  | lineOk => exact absurd rfl hst
  | lineBad => simp only [afterScan, e]
  | lineOpen => simp only [afterScan, e]

/-! ## Heads -/

/-- The loop body on a complete head line. -/
theorem processLine_head {c : HttpConn} (hc : c.checkState ≠ .content) (ls : LineStatus) :
    c.processLine ls =
      ({ c with
          toParser := (c.toParser.step c.checkedIdx (c.readBuf.cstr READ_BUFFER_SIZE c.startLine)).1
          startLine := c.checkedIdx },
        match (c.toParser.step c.checkedIdx (c.readBuf.cstr READ_BUFFER_SIZE c.startLine)).2 with
        | some code => .inl code
        | none => .inr ls) := by
  generalize ht : c.readBuf.cstr READ_BUFFER_SIZE c.startLine = text
  cases hs : c.checkState with
  | requestLine =>
    simp only [processLine, Parser.step, hs, ht]
    split <;> rfl
  | header =>
    simp only [processLine, Parser.step, hs, ht]
    cases (c.toParser.parseHeaders c.checkedIdx text).2 <;> rfl
  | content => exact absurd hs hc

/-- How the buffer may change: bytes from `s` on stay, and no CR is left right before `s`. -/
structure Kept (c : HttpConn) (buf : Mem) (s : Nat) : Prop where
  start_le : c.startLine ≤ s
  le_read : s ≤ c.readIdx
  same : ∀ j, s ≤ j → buf j = c.readBuf j
  prev : s ≤ 1 ∨ buf (s - 1) ≠ CR

theorem Kept.refl {c : HttpConn} (h : c.AtLine) : c.Kept c.readBuf c.startLine :=
  ⟨Nat.le_refl _, Nat.le_trans h.start_le h.checked_le, fun _ _ => rfl, h.prev⟩

/-- The code after a loop that ended for want of bytes. -/
def openCode (c : HttpConn) : HttpCode :=
  if READ_BUFFER_SIZE ≤ c.readIdx then .requestEntityTooLarge else .noRequest

/-- Where the loop of `process_read` is taken by a head result. -/
def Reaches (c : HttpConn) (n : Nat) (ls : LineStatus) : HeadResult → Prop
  | .more p pos rest => ∃ buf, c.Kept buf pos ∧ rest = c.readBuf.seg pos (c.readIdx - pos) ∧
      processReadLoop n c ls = (c.moved p buf pos (pos + (scanLine rest).1.length), c.openCode)
  | .badLine p pos rest => ∃ buf s, c.Kept buf s ∧ s ≤ pos ∧ pos ≤ c.readIdx ∧
      rest = c.readBuf.seg pos (c.readIdx - pos) ∧
      processReadLoop n c ls = (c.moved p buf s pos, .badRequest)
  | .ended code p pos rest => ∃ buf, c.Kept buf pos ∧ rest = c.readBuf.seg pos (c.readIdx - pos) ∧
      processReadLoop n c ls = (c.moved p buf pos pos, code)
  | .body p pos rest => ∃ buf m, c.Kept buf pos ∧ rest = c.readBuf.seg pos (c.readIdx - pos) ∧
      2 * (c.readIdx - pos) + 2 ≤ m ∧ p.checkState = .content ∧
      processReadLoop n c ls = processReadLoop m (c.moved p buf pos pos) .lineOk

/-- A result reached from the state after one more line is reached from the state before it. -/
theorem Reaches.of_line {c c' : HttpConn} {p : Parser} {buf : Mem} {s n : Nat} {ls : LineStatus}
    {r : HeadResult} (hk : c.Kept buf s) (hc' : c' = c.moved p buf s s)
    (hloop : processReadLoop (n + 1) c ls = processReadLoop n c' .lineOk)
    (h : c'.Reaches n .lineOk r) : c.Reaches (n + 1) ls r := by
  subst hc'
  have trans : ∀ {buf' s'}, (c.moved p buf s s).Kept buf' s' → c.Kept buf' s' := by
    intro buf' s' h'
    have h1 : s ≤ s' := h'.start_le
    refine ⟨Nat.le_trans hk.start_le h1, h'.le_read, fun j hj => ?_, h'.prev⟩
    exact (h'.same j hj).trans (hk.same j (Nat.le_trans h1 hj))
  have hseg : ∀ {pos}, s ≤ pos → (c.moved p buf s s).readBuf.seg pos (c.readIdx - pos) =
      c.readBuf.seg pos (c.readIdx - pos) :=
    fun hpos => Mem.seg_congr fun j hj _ => hk.same j (Nat.le_trans hpos hj)
  cases r with
  | more p' pos rest =>
    obtain ⟨buf', hk', hr, he⟩ := h
    exact ⟨buf', trans hk', hr.trans (hseg hk'.start_le), hloop.trans he⟩
  | badLine p' pos rest =>
    obtain ⟨buf', s', hk', hsp, hpr, hr, he⟩ := h
    exact ⟨buf', s', trans hk', hsp, hpr, hr.trans (hseg (Nat.le_trans hk'.start_le hsp)),
      hloop.trans he⟩
  | ended code p' pos rest =>
    obtain ⟨buf', hk', hr, he⟩ := h
    exact ⟨buf', trans hk', hr.trans (hseg hk'.start_le), hloop.trans he⟩
  | body p' pos rest =>
    obtain ⟨buf', m, hk', hr, hm, hp, he⟩ := h
    exact ⟨buf', m, trans hk', hr.trans (hseg hk'.start_le), hm, hp, hloop.trans he⟩

/-- A complete head line: `parse_line` ends it, the loop body parses its text. -/
theorem AtLine.ends {c : HttpConn} (h : c.AtLine) (hc : c.checkState ≠ .content) {line : Bytes}
    (hs : scanLine c.pending = (line, .lineOk)) :
    let pos := c.startLine + line.length + 2
    let r := c.toParser.step pos (cString line)
    ∃ buf, c.Kept buf pos ∧
      c.parseLine = ({ c with readBuf := buf, checkedIdx := pos }, .lineOk) ∧
      HttpConn.processLine { c with readBuf := buf, checkedIdx := pos } .lineOk =
        (c.moved r.1 buf pos pos, r.2.elim (.inr .lineOk) .inl) := by
  intro pos r
  have hlen := scanLine_ok_length hs
  rw [pending_length] at hlen
  have hread := h.read_le
  obtain ⟨hadv, hpl⟩ := h.parseLine_ok hs
  let buf := (c.readBuf.set (c.startLine + line.length) NUL).set (c.startLine + line.length + 1) NUL
  have hbuf : buf = (c.readBuf.set (c.startLine + line.length) NUL).set
      (c.startLine + line.length + 1) NUL := rfl
  have hline : buf.seg c.startLine line.length = line := by
    rw [hbuf, Mem.seg_set_of_ge _ _ (by omega), Mem.seg_set_of_ge _ _ (by omega),
      ← Mem.seg_take c.readBuf c.startLine (c.readIdx - c.startLine) line.length (by omega)]
    show List.take line.length c.pending = line
    have := (scanLine_ok hs).2
    rw [this]
    simp
  have hnul : buf (c.startLine + line.length) = NUL := by
    rw [hbuf, Mem.set_ne _ _ (by omega), Mem.set_same]
  have hkeep : c.Kept buf pos := by
    refine ⟨by omega, by omega, fun j hj => ?_, Or.inr ?_⟩
    · rw [hbuf, Mem.set_ne _ _ (by omega), Mem.set_ne _ _ (by omega)]
    · have e : pos - 1 = c.startLine + line.length + 1 := by omega
      rw [e, hbuf, Mem.set_same]
      decide
  have hcs : buf.cstr READ_BUFFER_SIZE c.startLine = cString line := by
    rw [Mem.cstr_of_nul (by omega) hnul, hline]
    rfl
  refine ⟨buf, hkeep, hpl, ?_⟩
  rw [processLine_head (by exact hc)]
  simp only [hcs]
  cases (c.toParser.step pos (cString line)).2 with
  | some code => simp only [r]; rfl
  | none => simp only [r]; rfl

/-- The state after a complete head line, and the loop's way there. -/
theorem AtLine.line {c : HttpConn} (h : c.AtLine) (hc : c.checkState ≠ .content) {line : Bytes}
    (hs : scanLine c.pending = (line, .lineOk)) (n : Nat) (ls : LineStatus) :
    let pos := c.startLine + line.length + 2
    let r := c.toParser.step pos (cString line)
    ∃ buf, c.Kept buf pos ∧
      processReadLoop (n + 1) c ls =
        match r.2 with
        | some code => (c.moved r.1 buf pos pos, code)
        | none => processReadLoop n (c.moved r.1 buf pos pos) .lineOk := by
  intro pos r
  obtain ⟨buf, hkeep, hpl, hproc⟩ := h.ends hc hs
  refine ⟨buf, hkeep, ?_⟩
  have hif : ¬ (c.checkState = .content ∧ ls = .lineOk) := fun hh => hc hh.1
  rw [processReadLoop, if_neg hif, hpl]
  simp only [hproc]
  cases (c.toParser.step pos (cString line)).2 with
  | some code => simp only [r, pos, Option.elim_some]
  | none => simp only [r, pos, Option.elim_none]

/-- **The loop follows `readHead`.** The induction is on the loop's counter, which bounds the
unread bytes; one line of the head uses up at least its CR LF. -/
theorem processReadLoop_head (n : Nat) (c : HttpConn) (ls : LineStatus) (h : c.AtLine)
    (hc : c.checkState ≠ .content) (hn : 2 * (c.readIdx - c.checkedIdx) + 2 ≤ n) :
    c.Reaches n ls (readHead c.toParser c.startLine c.pending) := by
  induction n generalizing c ls with
  | zero => omega
  | succ n ih =>
    have hread := h.read_le
    rcases hs : scanLine c.pending with ⟨pre, st⟩
    have hif : ¬ (c.checkState = .content ∧ ls = .lineOk) := fun hh => hc hh.1
    cases st with
    | lineOpen =>
      rw [readHead_open hs]
      refine ⟨c.readBuf, Kept.refl h, rfl, ?_⟩
      rw [processReadLoop, if_neg hif, h.parseLine_stop hs (by simp), hs]
      rfl
    | lineBad =>
      have hle := scanLine_length_le c.pending
      rw [hs, pending_length] at hle
      have h1 := h.start_le
      have h2 := h.checked_le
      rw [readHead_bad hs]
      refine ⟨c.readBuf, c.startLine, Kept.refl h, by omega, by simp only at hle; omega, ?_, ?_⟩
      · rw [pending, Mem.seg_drop _ _ _ _ hle]
        congr 1
        simp only
        omega
      · rw [processReadLoop, if_neg hif, h.parseLine_stop hs (by simp)]
        rfl
    | lineOk =>
      have hlen := scanLine_ok_length hs
      rw [pending_length] at hlen
      obtain ⟨buf, hk, hloop⟩ := h.line hc hs n ls
      obtain ⟨hadv, -⟩ := h.parseLine_ok hs
      rw [readHead_ok hs]
      have hdrop : c.pending.drop (pre.length + 2) =
          c.readBuf.seg (c.startLine + pre.length + 2) (c.readIdx - (c.startLine + pre.length + 2)) := by
        rw [pending, Mem.seg_drop _ _ _ _ hlen]
        congr 1
        omega
      rcases hst : c.toParser.step (c.startLine + pre.length + 2) (cString pre) with ⟨p', code⟩
      rw [hst] at hloop
      cases code with
      | some code => exact ⟨buf, hk, hdrop, hloop⟩
      | none =>
        simp only at hloop ⊢
        by_cases hp : p'.checkState = .content
        · rw [if_pos hp]
          exact ⟨buf, n, hk, hdrop, by omega, hp, hloop⟩
        · rw [if_neg hp, hdrop]
          let c' := c.moved p' buf (c.startLine + pre.length + 2) (c.startLine + pre.length + 2)
          have hat : c'.AtLine :=
            ⟨Nat.le_refl _, hk.le_read, hread, by simp [c', moved, Clean.nil], hk.prev⟩
          have hpend : c'.pending = c.readBuf.seg (c.startLine + pre.length + 2)
              (c.readIdx - (c.startLine + pre.length + 2)) :=
            Mem.seg_congr fun j hj _ => hk.same j hj
          have := ih c' .lineOk hat hp (by simp only [c', moved]; omega)
          rw [hpend] at this
          exact Reaches.of_line hk rfl hloop this

/-! ## Bodies -/

theorem parseLine_toParser (c : HttpConn) : c.parseLine.1.toParser = c.toParser := by
  obtain ⟨buf, k, -, -, he, -⟩ := c.parseLine_frame
  rw [he]

theorem processLine_content {c : HttpConn} (hc : c.checkState = .content) (ls : LineStatus) :
    c.processLine ls =
      if c.contentLength + c.checkedIdx ≤ c.readIdx then
        ({ c with
            request := { c.request with body := c.readBuf.seg c.startLine c.contentLength }
            startLine := c.checkedIdx
            checkedIdx := c.checkedIdx + c.contentLength }, .inl .getRequest)
      else ({ c with startLine := c.checkedIdx }, .inr .lineOpen) := by
  simp only [processLine, hc, parseContent]
  split <;> rfl

theorem processReadExit_ne (c : HttpConn) (st : LineStatus) : c.processReadExit st ≠ .getRequest := by
  unfold processReadExit
  split
  · simp
  · split <;> simp

/-- **In the content state only the body can change**, and an accepted body has the announced
length. -/
theorem processReadLoop_content (n : Nat) {c : HttpConn} (hc : c.checkState = .content)
    (ls : LineStatus) :
    (processReadLoop n c ls).1.checkState = .content ∧
      (processReadLoop n c ls).1.contentLength = c.contentLength ∧
      ((processReadLoop n c ls).2 = .getRequest →
        (processReadLoop n c ls).1.request.body.length = c.contentLength) := by
  induction n generalizing c ls with
  | zero => exact ⟨hc, rfl, fun h => by cases h⟩
  | succ n ih =>
    have body : ∀ (c' : HttpConn) (ls' : LineStatus), c'.toParser = c.toParser →
        (goesOn n (c'.processLine ls')).1.checkState = .content ∧
          (goesOn n (c'.processLine ls')).1.contentLength = c.contentLength ∧
          ((goesOn n (c'.processLine ls')).2 = .getRequest →
            (goesOn n (c'.processLine ls')).1.request.body.length = c.contentLength) := by
      intro c' ls' hp
      have hc' : c'.checkState = .content := (congrArg Parser.checkState hp).trans hc
      have hl' : c'.contentLength = c.contentLength := congrArg Parser.contentLength hp
      rw [processLine_content hc']
      split
      · exact ⟨hc', hl', fun _ => (Mem.seg_length _ _ _).trans hl'⟩
      · obtain ⟨h1, h2, h3⟩ := ih (c := { c' with startLine := c'.checkedIdx }) hc' .lineOpen
        exact ⟨h1, h2.trans hl', fun h => (h3 h).trans hl'⟩
    rw [processReadLoop]
    split
    · exact body c ls rfl
    · have hp := c.parseLine_toParser
      rcases hpl : c.parseLine with ⟨c', st⟩
      rw [hpl] at hp
      have hstop : ∀ code : HttpCode, code ≠ .getRequest → c'.checkState = .content ∧
          c'.contentLength = c.contentLength ∧
          (code = .getRequest → c'.request.body.length = c.contentLength) := fun code hne =>
        ⟨(congrArg Parser.checkState hp).trans hc, congrArg Parser.contentLength hp,
          fun h => absurd h hne⟩
      cases st with
      | lineBad => exact hstop _ (c'.processReadExit_ne .lineBad)
      | lineOpen => exact hstop _ (c'.processReadExit_ne .lineOpen)
      | lineOk => exact body c' .lineOk hp

theorem processReadLoop_accept {c : HttpConn} (hc : c.checkState = .content)
    (hfull : c.contentLength + c.checkedIdx ≤ c.readIdx) (n : Nat) :
    processReadLoop (n + 1) c .lineOk =
      ({ c with
          request := { c.request with body := c.readBuf.seg c.startLine c.contentLength }
          startLine := c.checkedIdx
          checkedIdx := c.checkedIdx + c.contentLength }, .getRequest) := by
  rw [processReadLoop, if_pos ⟨hc, rfl⟩]
  simp [processLine, hc, parseContent, hfull]

/-- A body that is not all there sends the loop to `parse_line` with the line marked open. -/
theorem processReadLoop_notYet {c : HttpConn} (hc : c.checkState = .content)
    (hshort : c.readIdx < c.contentLength + c.checkedIdx) (n : Nat) :
    processReadLoop (n + 1) c .lineOk =
      processReadLoop n { c with startLine := c.checkedIdx } .lineOpen := by
  rw [processReadLoop, if_pos ⟨hc, rfl⟩]
  simp [processLine, hc, parseContent, Nat.not_le.mpr hshort]

/-- The state a short body leaves behind. -/
structure ShortKept (c : HttpConn) (buf : Mem) (s k : Nat) : Prop where
  start_le : c.startLine ≤ s
  s_le : s ≤ k
  k_le : k ≤ c.readIdx
  same : ∀ j, k ≤ j → buf j = c.readBuf j
  prev : k ≤ 1 ∨ buf (k - 1) ≠ CR

theorem processReadLoop_bodyLines (n : Nat) (c : HttpConn) (hc : c.checkState = .content)
    (hshort : c.readIdx < c.contentLength + c.checkedIdx) (hstart : c.startLine ≤ c.checkedIdx)
    (hle : c.checkedIdx ≤ c.readIdx) (hp : c.PrevOk) (hn : 2 * (c.readIdx - c.checkedIdx) + 1 ≤ n) :
    ∃ buf s, c.ShortKept buf s (c.checkedIdx + (bodyScan c.unread).1) ∧
      processReadLoop n c .lineOpen =
        (c.moved c.toParser buf s (c.checkedIdx + (bodyScan c.unread).1),
          c.processReadExit (bodyScan c.unread).2) := by
  induction n generalizing c with
  | zero => omega
  | succ n ih =>
    rw [processReadLoop, if_neg (by simp), parseLine_eq hp, bodyScan_eq]
    rcases hs : scanLine c.unread with ⟨pre, st⟩
    have hlen := scanLine_length_le c.unread
    rw [hs, unread_length] at hlen
    have hclean : Clean (c.readBuf.seg c.checkedIdx pre.length) := by
      have hcl := scanLine_clean c.unread
      have e := scanLine_take c.unread
      rw [hs] at hcl e
      rw [unread, Mem.seg_take _ _ _ _ (by simpa using hlen)] at e
      rw [e]
      exact hcl
    simp only at hlen
    have stop : ∀ st, st ≠ LineStatus.lineOk →
        c.ShortKept c.readBuf c.startLine (c.checkedIdx + pre.length) := fun _ _ =>
      ⟨Nat.le_refl _, by omega, by omega, fun _ _ => rfl, hp.advance hclean⟩
    cases st with
    | lineBad => exact ⟨c.readBuf, c.startLine, stop .lineBad (by simp), rfl⟩
    | lineOpen => exact ⟨c.readBuf, c.startLine, stop .lineOpen (by simp), rfl⟩
    | lineOk =>
      have hlen2 := scanLine_ok_length hs
      rw [unread_length] at hlen2
      -- `parse_content` is tried again at the new cursor and still finds the body short.
      let c' : HttpConn := { c.endLine pre.length with startLine := c.checkedIdx + pre.length + 2 }
      have hc' : c'.PrevOk := by
        right
        show ((c.readBuf.set _ NUL).set (c.checkedIdx + pre.length + 1) NUL)
          (c.checkedIdx + pre.length + 2 - 1) ≠ CR
        rw [show c.checkedIdx + pre.length + 2 - 1 = c.checkedIdx + pre.length + 1 from by omega,
          Mem.set_same]
        decide
      have hun : c'.unread = c.unread.drop (pre.length + 2) := by
        rw [unread, unread, Mem.seg_drop _ _ _ _ (by simpa using hlen2)]
        show ((c.readBuf.set _ NUL).set _ NUL).seg (c.checkedIdx + pre.length + 2)
          (c.readIdx - (c.checkedIdx + pre.length + 2)) = _
        rw [Mem.seg_set_of_lt _ _ (by omega), Mem.seg_set_of_lt _ _ (by omega)]
        congr 1
        omega
      obtain ⟨buf, s, hk, he⟩ := ih c' hc
        (by show c.readIdx < c.contentLength + (c.checkedIdx + pre.length + 2); omega)
        (Nat.le_refl _) (by show c.checkedIdx + pre.length + 2 ≤ c.readIdx; omega) hc'
        (by show 2 * (c.readIdx - (c.checkedIdx + pre.length + 2)) + 1 ≤ n; omega)
      have e : c'.checkedIdx + (bodyScan c'.unread).1 =
          c.checkedIdx + ((bodyScan (c.unread.drop (pre.length + 2))).1 + (pre.length + 2)) := by
        rw [hun]
        show c.checkedIdx + pre.length + 2 + _ = _
        omega
      rw [e] at hk he
      rw [hun] at he
      have hsl : c.startLine ≤ s := by
        have : c.checkedIdx + pre.length + 2 ≤ s := hk.start_le
        omega
      refine ⟨buf, s, ⟨hsl, hk.s_le, hk.k_le, fun j hj => ?_, hk.prev⟩, ?_⟩
      · simp only at hj
        rw [hk.same j hj]
        show ((c.readBuf.set _ NUL).set _ NUL) j = _
        rw [Mem.set_ne _ _ (by omega), Mem.set_ne _ _ (by omega)]
      · simp only [afterScan]
        have hpl : (c.endLine pre.length).processLine .lineOk = (c', .inr .lineOpen) := by
          have hns : ¬ c.contentLength + (c.checkedIdx + pre.length + 2) ≤ c.readIdx := by omega
          simp [processLine, hc, parseContent, endLine, hns, c']
        rw [hpl]
        exact he

/-- **A body that is not all there.** The loop keeps the request as it is and leaves the cursor
where `bodyScan` stops, not at the body's start. -/
theorem processReadLoop_short {c : HttpConn} (n : Nat) (hc : c.checkState = .content)
    (hshort : c.readIdx < c.contentLength + c.checkedIdx) (hstart : c.startLine ≤ c.checkedIdx)
    (hle : c.checkedIdx ≤ c.readIdx) (hp : c.PrevOk) (hn : 2 * (c.readIdx - c.checkedIdx) + 2 ≤ n) :
    ∃ buf s, c.checkedIdx ≤ s ∧ c.ShortKept buf s (c.checkedIdx + (bodyScan c.unread).1) ∧
      processReadLoop n c .lineOk =
        (c.moved c.toParser buf s (c.checkedIdx + (bodyScan c.unread).1),
          c.processReadExit (bodyScan c.unread).2) := by
  obtain ⟨n, rfl⟩ : ∃ m, n = m + 1 := ⟨n - 1, by omega⟩
  rw [processReadLoop_notYet hc hshort]
  obtain ⟨buf, s, hk, he⟩ := processReadLoop_bodyLines n { c with startLine := c.checkedIdx } hc
    hshort (Nat.le_refl _) hle hp (by simp only; omega)
  exact ⟨buf, s, hk.start_le, ⟨Nat.le_trans hstart hk.start_le, hk.s_le, hk.k_le, hk.same, hk.prev⟩,
    he⟩

end HttpConn
end Http
end UrlShortener
