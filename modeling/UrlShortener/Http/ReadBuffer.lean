import UrlShortener.Base.Machine
import UrlShortener.Http.Writing

/-!
# UrlShortener.Http.ReadBuffer

Every use of `m_read_buf`, and where it lies.

* `processReadT` is `process_read` with a record of what it does to the buffer: the bytes
  `parse_line` reads and writes, the connection at each `get_line()`, and the range the body is
  copied from. `writeT` records the two `memcpy` calls of `retain_pipelined_bytes`. Erasing the
  record gives back `processRead` and `write`.
* `Indexed` is the invariant of the cursors. It does not depend on who calls what when, so `Op`
  allows the calls in any order, with slot reuse in between: every sequence the event loop and
  the workers issue is one of these.
-/

namespace UrlShortener
namespace Http
namespace HttpConn

/-- One use of the read buffer. -/
inductive Touch where
  | read (i : Nat)
  | write (i : Nat)
  /-- `text = get_line()`, on the connection as it is then. -/
  | text (c : HttpConn)
  /-- `std::string(text, m_content_length)`. -/
  | copy (start len : Nat)

/-! ## The recorded parser -/

def parseLineFromT : Nat → HttpConn → (HttpConn × LineStatus) × List Touch
  | 0, c => ((c, .lineOpen), [])
  | n + 1, c =>
    let i := c.checkedIdx
    let temp := c.readBuf i
    if temp = CR then
      if i + 1 = c.readIdx then ((c, .lineOpen), [.read i])
      else if c.readBuf (i + 1) = LF then
        (({ c with
            readBuf := (c.readBuf.set i NUL).set (i + 1) NUL
            checkedIdx := i + 2 }, .lineOk), [.read i, .read (i + 1), .write i, .write (i + 1)])
      else ((c, .lineBad), [.read i, .read (i + 1)])
    else if temp = LF then
      if 1 < i then
        if c.readBuf (i - 1) = CR then
          (({ c with
              readBuf := (c.readBuf.set (i - 1) NUL).set i NUL
              checkedIdx := i + 1 }, .lineOk), [.read i, .read (i - 1), .write (i - 1), .write i])
        else ((c, .lineBad), [.read i, .read (i - 1)])
      else ((c, .lineBad), [.read i])
    else
      let r := parseLineFromT n { c with checkedIdx := i + 1 }
      (r.1, .read i :: r.2)

def parseLineT (c : HttpConn) : (HttpConn × LineStatus) × List Touch :=
  parseLineFromT (c.readIdx - c.checkedIdx) c

/-- The loop body's own uses: the line's text, and the body once it is all there. -/
def processLineTouches (c : HttpConn) : List Touch :=
  .text c ::
    if c.checkState = .content ∧ c.contentLength + c.checkedIdx ≤ c.readIdx then
      [.copy c.startLine c.contentLength]
    else []

def processReadLoopT : Nat → HttpConn → LineStatus → (HttpConn × HttpCode) × List Touch
  | 0, c, _ => ((c, .internalError), [])
  | n + 1, c, lineStatus =>
    if c.checkState = .content ∧ lineStatus = .lineOk then
      match c.processLine lineStatus with
      | (c', .inl code) => ((c', code), c.processLineTouches)
      | (c', .inr lineStatus) =>
        let r := processReadLoopT n c' lineStatus
        (r.1, c.processLineTouches ++ r.2)
    else
      match c.parseLineT with
      | ((c, .lineOk), ts) =>
        match c.processLine .lineOk with
        | (c', .inl code) => ((c', code), ts ++ c.processLineTouches)
        | (c', .inr lineStatus) =>
          let r := processReadLoopT n c' lineStatus
          (r.1, ts ++ c.processLineTouches ++ r.2)
      | ((c, lineStatus), ts) => ((c, c.processReadExit lineStatus), ts)

def processReadT (c : HttpConn) : (HttpConn × HttpCode) × List Touch :=
  processReadLoopT (2 * (c.readIdx - c.checkedIdx) + 2) c .lineOk

theorem parseLineFromT_fst (n : Nat) (c : HttpConn) : (parseLineFromT n c).1 = parseLineFrom n c := by
  induction n generalizing c with
  | zero => rfl
  | succ n ih =>
    simp only [parseLineFromT, parseLineFrom]
    by_cases hcr : c.readBuf c.checkedIdx = CR
    · rw [if_pos hcr, if_pos hcr]
      split
      · rfl
      · split <;> rfl
    · rw [if_neg hcr, if_neg hcr]
      by_cases hlf : c.readBuf c.checkedIdx = LF
      · rw [if_pos hlf, if_pos hlf]
        by_cases h1 : 1 < c.checkedIdx
        · by_cases h2 : c.readBuf (c.checkedIdx - 1) = CR
          · rw [if_pos h1, if_pos h2, if_pos ⟨h1, h2⟩]
          · rw [if_pos h1, if_neg h2, if_neg fun h => h2 h.2]
        · rw [if_neg h1, if_neg fun h => h1 h.1]
      · rw [if_neg hlf, if_neg hlf]
        exact ih _

theorem parseLineT_fst (c : HttpConn) : c.parseLineT.1 = c.parseLine := parseLineFromT_fst _ c

theorem processReadLoopT_fst (n : Nat) (c : HttpConn) (ls : LineStatus) :
    (processReadLoopT n c ls).1 = processReadLoop n c ls := by
  induction n generalizing c ls with
  | zero => rfl
  | succ n ih =>
    simp only [processReadLoopT, processReadLoop]
    split
    · rcases c.processLine ls with ⟨c', code | ls'⟩
      · rfl
      · exact ih c' ls'
    · rw [← parseLineT_fst]
      rcases c.parseLineT with ⟨⟨c', st⟩, ts⟩
      cases st with
      | lineBad => rfl
      | lineOpen => rfl
      | lineOk =>
        simp only
        rcases c'.processLine .lineOk with ⟨c₂, code | ls'⟩
        · rfl
        · exact ih c₂ ls'

/-- **The record does not change what `process_read` does.** -/
theorem processReadT_fst (c : HttpConn) : c.processReadT.1 = c.processRead :=
  processReadLoopT_fst _ c .lineOk

/-! ## The recorded write -/

/-- A `memcpy` between two arrays of `READ_BUFFER_SIZE` bytes. -/
structure Memcpy where
  dst : Nat
  src : Nat
  len : Nat
deriving DecidableEq, Repr

/-- Both ranges lie inside their arrays. -/
def Memcpy.Fits (m : Memcpy) : Prop :=
  m.src + m.len ≤ READ_BUFFER_SIZE ∧ m.dst + m.len ≤ READ_BUFFER_SIZE

/-- `saved` is filled from the read buffer, and copied back to its start. -/
def retainCopies (c : HttpConn) : List Memcpy :=
  let leftover := c.readIdx - c.checkedIdx
  if 0 < leftover then [⟨0, c.checkedIdx, leftover⟩, ⟨0, 0, leftover⟩] else []

def writeLoopT : List WritevResult → HttpConn → Bytes →
    (HttpConn × Bytes × WriteOutcome) × List Memcpy
  | [], c, out => ((c, out, .looping), [])
  | .eintr :: ws, c, out => writeLoopT ws c out
  | .eagain :: _, c, out => ((c, out, .returned true (some .epollout)), [])
  | .error :: _, c, out => ((c, out, .returned false none), [])
  | .sent k :: ws, c, out =>
    let temp := min k c.iovLen
    let out := out ++ c.writeBuf.seg c.iovBase temp
    let c := { c with
      bytesHaveSend := c.bytesHaveSend + temp
      bytesToSend := c.bytesToSend - temp
      iovBase := c.bytesHaveSend + temp
      iovLen := c.bytesToSend - temp }
    if c.bytesToSend = 0 then
      if c.linger then
        ((c.retainPipelinedBytes, out, .returned true (some .epollin)), c.retainCopies)
      else ((c, out, .returned false (some .epollin)), [])
    else writeLoopT ws c out

def writeT (c : HttpConn) (ws : List WritevResult) :
    (HttpConn × Bytes × WriteOutcome) × List Memcpy :=
  if c.pendingClose then (({ c with pendingClose := false }, [], .returned false none), [])
  else if c.bytesToSend = 0 then
    ((c.retainPipelinedBytes, [], .returned true (some .epollin)), c.retainCopies)
  else writeLoopT ws c []

theorem writeLoopT_fst (ws : List WritevResult) (c : HttpConn) (out : Bytes) :
    (writeLoopT ws c out).1 = writeLoop ws c out := by
  induction ws generalizing c out with
  | nil => rfl
  | cons w ws ih =>
    cases w with
    | eintr => exact ih c out
    | eagain => rfl
    | error => rfl
    | sent k =>
      simp only [writeLoopT, writeLoop]
      split
      · split <;> rfl
      · exact ih _ _

theorem writeT_fst (c : HttpConn) (ws : List WritevResult) : (c.writeT ws).1 = c.write ws := by
  unfold writeT write
  split
  · rfl
  · split
    · rfl
    · exact writeLoopT_fst ws c []

/-! ## The cursors -/

/-- **The invariant of the read buffer.** -/
structure Indexed (c : HttpConn) : Prop where
  start_le : c.startLine ≤ c.checkedIdx
  checked_le : c.checkedIdx ≤ c.readIdx
  read_le : c.readIdx ≤ READ_BUFFER_SIZE
  zero_above : ∀ i, c.readIdx ≤ i → c.readBuf i = 0

/-- Where a use lies, when the first `readIdx` bytes have been received. -/
def Touch.Within (readIdx : Nat) : Touch → Prop
  | .read i => i < readIdx
  | .write i => i < readIdx
  | .text c => c.Indexed ∧ c.readIdx = readIdx
  | .copy start len => start + len ≤ readIdx

theorem init_indexed (c : HttpConn) : c.init.Indexed :=
  ⟨Nat.le_refl _, Nat.le_refl _, Nat.zero_le _, fun _ _ => rfl⟩

theorem Indexed.receive {c : HttpConn} (h : c.Indexed) {d : Bytes}
    (hlen : c.readIdx + d.length ≤ READ_BUFFER_SIZE) : (c.receive d).Indexed := by
  have hle := h.checked_le
  refine ⟨h.start_le, ?_, hlen, fun i hi => ?_⟩
  · show c.checkedIdx ≤ c.readIdx + d.length
    omega
  · have hi : c.readIdx + d.length ≤ i := hi
    show c.readBuf.write c.readIdx d i = 0
    rw [Mem.write_of_ge _ _ hi]
    exact h.zero_above i (by omega)

/-- What `recv` is asked for is what the buffer has room for. -/
theorem take_room_length (c : HttpConn) (d : Bytes) (h : c.readIdx ≤ READ_BUFFER_SIZE) :
    c.readIdx + (d.take (READ_BUFFER_SIZE - c.readIdx)).length ≤ READ_BUFFER_SIZE := by
  rw [List.length_take]
  omega

/-- `read_once` is a sequence of `receive`s that fit: what those keep, it keeps. -/
theorem readOnceEt_keeps {I : HttpConn → Prop} (hread : ∀ c, I c → c.readIdx ≤ READ_BUFFER_SIZE)
    (hrec : ∀ (c : HttpConn) (d : Bytes), I c → c.readIdx + d.length ≤ READ_BUFFER_SIZE →
      I (c.receive d)) (rs : List RecvResult) (got : Bool) {c : HttpConn} (h : I c) :
    I (readOnceEt rs got c).1 := by
  induction rs generalizing got c with
  | nil => exact h
  | cons r rs ih =>
    rw [readOnceEt.eq_def]
    simp only
    split
    · exact h
    · cases r with
      | eagain => exact h
      | error => exact h
      | eof => exact h
      | data d =>
        simp only
        split
        · exact h
        · exact ih true (hrec c _ h (take_room_length c d (hread c h)))

theorem readOnce_keeps {I : HttpConn → Prop} (hread : ∀ c, I c → c.readIdx ≤ READ_BUFFER_SIZE)
    (hrec : ∀ (c : HttpConn) (d : Bytes), I c → c.readIdx + d.length ≤ READ_BUFFER_SIZE →
      I (c.receive d)) (rs : List RecvResult) {c : HttpConn} (h : I c) : I (c.readOnce rs).1 := by
  unfold readOnce
  split
  · exact h
  · split
    · rcases rs with _ | ⟨r, rs⟩
      · exact h
      · cases r with
        | eagain => exact h
        | error => exact h
        | eof => exact h
        | data d =>
          simp only
          split
          · exact h
          · exact hrec c _ h (take_room_length c d (hread c h))
    · exact readOnceEt_keeps hread hrec rs false h

theorem Indexed.readOnce {c : HttpConn} (h : c.Indexed) (rs : List RecvResult) :
    (c.readOnce rs).1.Indexed :=
  readOnce_keeps (fun _ h => h.read_le) (fun _ _ h hlen => h.receive hlen) rs h

/-- `parse_line` stays below `m_read_idx`; a line it ends is closed by a NUL. -/
theorem Indexed.parseLineFromT {n : Nat} {c : HttpConn} (h : c.Indexed)
    (hn : n = c.readIdx - c.checkedIdx) :
    (∀ t ∈ (HttpConn.parseLineFromT n c).2, t.Within c.readIdx) ∧
      (HttpConn.parseLineFromT n c).1.1.Indexed ∧
      ((HttpConn.parseLineFromT n c).1.2 = .lineOk →
        ∃ j, c.startLine ≤ j ∧ j < c.readIdx ∧
          (HttpConn.parseLineFromT n c).1.1.readBuf j = NUL) := by
  have hstart := h.start_le
  have hle := h.checked_le
  -- a line end overwrites two received bytes and moves the cursor past them
  have ended : ∀ {a b k : Nat}, a < c.readIdx → b < c.readIdx → c.checkedIdx ≤ k → k ≤ c.readIdx →
      Indexed { c with readBuf := (c.readBuf.set a NUL).set b NUL, checkedIdx := k } := by
    intro a b k ha hb h1 h2
    refine ⟨by simp only; omega, h2, h.read_le, fun i hi => ?_⟩
    have hi : c.readIdx ≤ i := hi
    show (c.readBuf.set a NUL).set b NUL i = 0
    rw [Mem.set_ne _ _ (by omega), Mem.set_ne _ _ (by omega)]
    exact h.zero_above i hi
  induction n generalizing c with
  | zero => exact ⟨fun _ ht => (List.not_mem_nil ht).elim, h, fun hh => by cases hh⟩
  | succ n ih =>
    have hi : c.checkedIdx < c.readIdx := by omega
    rw [HttpConn.parseLineFromT]
    simp only
    split
    · split
      · refine ⟨?_, h, fun hh => by cases hh⟩
        simpa [Touch.Within] using hi
      · rename_i hlast
        split
        · refine ⟨?_, ended hi (by omega) (by omega) (by omega), fun _ => ?_⟩
          · simp only [List.mem_cons, List.not_mem_nil, or_false]
            rintro t (rfl | rfl | rfl | rfl) <;> simp only [Touch.Within] <;> omega
          · exact ⟨c.checkedIdx + 1, by omega, by omega, Mem.set_same _ _ _⟩
        · refine ⟨?_, h, fun hh => by cases hh⟩
          simp only [List.mem_cons, List.not_mem_nil, or_false]
          rintro t (rfl | rfl) <;> simp only [Touch.Within] <;> omega
    · split
      · split
        · split
          · refine ⟨?_, ended (by omega) hi (by omega) (by omega), fun _ => ?_⟩
            · simp only [List.mem_cons, List.not_mem_nil, or_false]
              rintro t (rfl | rfl | rfl | rfl) <;> simp only [Touch.Within] <;> omega
            · exact ⟨c.checkedIdx, hstart, hi, Mem.set_same _ _ _⟩
          · refine ⟨?_, h, fun hh => by cases hh⟩
            simp only [List.mem_cons, List.not_mem_nil, or_false]
            rintro t (rfl | rfl) <;> simp only [Touch.Within] <;> omega
        · refine ⟨?_, h, fun hh => by cases hh⟩
          simpa [Touch.Within] using hi
      · have hnext : Indexed { c with checkedIdx := c.checkedIdx + 1 } :=
          ⟨by simp only; omega, hi, h.read_le, h.zero_above⟩
        obtain ⟨h1, h2, h3⟩ := ih hnext (by simp only; omega) hnext.start_le hnext.checked_le
          fun ha hb hk1 hk2 => ended ha hb (by simp only at hk1; omega) hk2
        refine ⟨?_, h2, h3⟩
        rintro t (_ | ⟨_, ht⟩)
        · exact hi
        · exact h1 t ht

theorem Indexed.parseLineT {c : HttpConn} (h : c.Indexed) :
    (∀ t ∈ c.parseLineT.2, t.Within c.readIdx) ∧ c.parseLineT.1.1.Indexed ∧
      (c.parseLineT.1.2 = .lineOk → ∃ j, c.startLine ≤ j ∧ j < c.readIdx ∧
        c.parseLineT.1.1.readBuf j = NUL) :=
  h.parseLineFromT rfl

theorem parseLineT_moved (c : HttpConn) :
    ∃ buf k, c.parseLineT.1.1 = { c with readBuf := buf, checkedIdx := k } := by
  obtain ⟨buf, k, -, -, he, -⟩ := c.parseLine_frame
  exact ⟨buf, k, by rw [parseLineT_fst]; exact he⟩

/-- The loop body on any state: it moves the line's start to the cursor, and the cursor over a
body that is all there. -/
theorem Indexed.processLine {c : HttpConn} (h : c.Indexed) (ls : LineStatus) :
    (∀ t ∈ c.processLineTouches, t.Within c.readIdx) ∧ (c.processLine ls).1.Indexed ∧
      (c.processLine ls).1.readIdx = c.readIdx := by
  have hstart := h.start_le
  have hle := h.checked_le
  refine ⟨?_, ?_⟩
  · rintro t (_ | ⟨_, ht⟩)
    · exact ⟨h, rfl⟩
    · split at ht
      · rename_i hc
        cases List.mem_singleton.mp ht
        show c.startLine + c.contentLength ≤ c.readIdx
        omega
      · cases ht
  · have atCursor : ∀ p : Parser,
        Indexed { c with toParser := p, startLine := c.checkedIdx } := fun _ =>
      ⟨Nat.le_refl _, hle, h.read_le, h.zero_above⟩
    by_cases hc : c.checkState = .content
    · rw [processLine_content hc]
      split
      · rename_i hfull
        exact ⟨⟨Nat.le_add_right _ _, by simp only; omega, h.read_le, h.zero_above⟩, rfl⟩
      · exact ⟨atCursor _, rfl⟩
    · rw [processLine_head hc]
      exact ⟨atCursor _, rfl⟩

/-- **Every use by `process_read` lies below `m_read_idx`, and the cursors stay ordered.** The
induction is on the loop's counter. -/
theorem Indexed.processReadLoopT (n : Nat) {c : HttpConn} (h : c.Indexed) (ls : LineStatus) :
    (∀ t ∈ (HttpConn.processReadLoopT n c ls).2, t.Within c.readIdx) ∧
      (HttpConn.processReadLoopT n c ls).1.1.Indexed := by
  induction n generalizing c ls with
  | zero => exact ⟨fun _ ht => (List.not_mem_nil ht).elim, h⟩
  | succ n ih =>
    rw [HttpConn.processReadLoopT]
    split
    · obtain ⟨h1, h2, h3⟩ := h.processLine ls
      rcases hpl : c.processLine ls with ⟨c', code | ls'⟩
      · rw [hpl] at h2
        exact ⟨h1, h2⟩
      · rw [hpl] at h2 h3
        obtain ⟨ih1, ih2⟩ := ih h2 ls'
        refine ⟨fun t ht => ?_, ih2⟩
        rcases List.mem_append.mp ht with ht | ht
        · exact h1 t ht
        · exact h3 ▸ ih1 t ht
    · obtain ⟨h1, h2, -⟩ := h.parseLineT
      obtain ⟨buf, k, hm⟩ := c.parseLineT_moved
      rcases hp : c.parseLineT with ⟨⟨c', st⟩, ts⟩
      rw [hp] at h1 h2 hm
      have hr : c'.readIdx = c.readIdx := by
        have hm : c' = { c with readBuf := buf, checkedIdx := k } := hm
        rw [hm]
      cases st with
      | lineBad => exact ⟨h1, h2⟩
      | lineOpen => exact ⟨h1, h2⟩
      | lineOk =>
        obtain ⟨g1, g2, g3⟩ := Indexed.processLine h2 .lineOk
        have head : ∀ t ∈ ts ++ c'.processLineTouches, t.Within c.readIdx := by
          intro t ht
          rcases List.mem_append.mp ht with ht | ht
          · exact h1 t ht
          · exact hr ▸ g1 t ht
        simp only
        rcases hpl : c'.processLine .lineOk with ⟨c₂, code | ls'⟩
        · rw [hpl] at g2
          exact ⟨head, g2⟩
        · rw [hpl] at g2 g3
          obtain ⟨ih1, ih2⟩ := ih g2 ls'
          refine ⟨fun t ht => ?_, ih2⟩
          rcases List.mem_append.mp ht with ht | ht
          · exact head t ht
          · exact hr ▸ g3 ▸ ih1 t ht

theorem Indexed.processRead {c : HttpConn} (h : c.Indexed) : c.processRead.1.Indexed := by
  rw [← processReadT_fst]
  exact (h.processReadLoopT _ .lineOk).2

/-! ## `retain_pipelined_bytes` -/

/-- The two copies fit, whatever part of the buffer is left over. -/
theorem Indexed.retainCopies {c : HttpConn} (h : c.Indexed) : ∀ m ∈ c.retainCopies, m.Fits := by
  have hle := h.checked_le
  have hread := h.read_le
  unfold HttpConn.retainCopies
  simp only
  split
  · simp only [List.mem_cons, List.not_mem_nil, or_false]
    rintro m (rfl | rfl) <;> simp only [Memcpy.Fits] <;> omega
  · intro m hm
    cases hm

theorem Indexed.retain {c : HttpConn} (h : c.Indexed) : c.retainPipelinedBytes.Indexed := by
  have hread := h.read_le
  have hw := Fresh.ready (retain_fresh c) (by rw [retain_readIdx]; omega)
  have hf := retain_fresh c
  refine ⟨by rw [hf.start, hf.checked], hw.checked_le, hw.read_le, fun i hi => ?_⟩
  rw [retain_readIdx] at hi
  unfold HttpConn.retainPipelinedBytes
  simp only
  split
  · show Mem.write _ 0 (c.readBuf.seg c.checkedIdx (c.readIdx - c.checkedIdx)) i = 0
    rw [Mem.write_of_ge _ _ (by rw [Mem.seg_length]; omega)]
    rfl
  · rfl

theorem Indexed.writeLoopT {ws : List WritevResult} {c : HttpConn} {out : Bytes} (h : c.Indexed) :
    (∀ m ∈ (HttpConn.writeLoopT ws c out).2, m.Fits) ∧
      (HttpConn.writeLoopT ws c out).1.1.Indexed := by
  induction ws generalizing c out with
  | nil => exact ⟨fun _ hm => (List.not_mem_nil hm).elim, h⟩
  | cons w ws ih =>
    cases w with
    | eintr => exact ih h
    | eagain => exact ⟨fun _ hm => (List.not_mem_nil hm).elim, h⟩
    | error => exact ⟨fun _ hm => (List.not_mem_nil hm).elim, h⟩
    | sent k =>
      -- only counters of the write side move before the reset
      have hsent : ∀ a b x y, Indexed { c with
          bytesHaveSend := a, bytesToSend := b, iovBase := x, iovLen := y } :=
        fun _ _ _ _ => ⟨h.start_le, h.checked_le, h.read_le, h.zero_above⟩
      simp only [HttpConn.writeLoopT]
      split
      · split
        · exact ⟨(hsent _ _ _ _).retainCopies, (hsent _ _ _ _).retain⟩
        · exact ⟨fun _ hm => (List.not_mem_nil hm).elim, hsent _ _ _ _⟩
      · exact ih (hsent _ _ _ _)

theorem Indexed.writeT {c : HttpConn} (h : c.Indexed) (ws : List WritevResult) :
    (∀ m ∈ (c.writeT ws).2, m.Fits) ∧ (c.writeT ws).1.1.Indexed := by
  unfold HttpConn.writeT
  split
  · exact ⟨fun _ hm => (List.not_mem_nil hm).elim,
      ⟨h.start_le, h.checked_le, h.read_le, h.zero_above⟩⟩
  · split
    · exact ⟨h.retainCopies, h.retain⟩
    · exact h.writeLoopT

/-! ## Runs -/

/-- A call on the connection, with what the kernel answered. -/
inductive Op where
  | initSocket (sockfd trigMode : Nat)
  | readOnce (rs : List RecvResult)
  | process (expected : Nat)
  | write (ws : List WritevResult)
  | invalidate

section Runs

variable {σ : Type} (dispatch : σ → HttpRequest → σ × Dispatched)

/-- `none`: an exception has left `process`. -/
def step (s : σ × HttpConn) : Op → Option (σ × HttpConn)
  | .initSocket sockfd trigMode => some (s.1, s.2.initSocket sockfd trigMode)
  | .readOnce rs => some (s.1, (s.2.readOnce rs).1)
  | .process expected => (s.2.process dispatch s.1 expected).map fun r => (r.1, r.2.1)
  | .write ws => some (s.1, (s.2.write ws).1)
  | .invalidate => some (s.1, s.2.invalidate)

/-- Two connections that agree on the read side. -/
structure SameInput (c c' : HttpConn) : Prop where
  readBuf : c'.readBuf = c.readBuf
  readIdx : c'.readIdx = c.readIdx
  checkedIdx : c'.checkedIdx = c.checkedIdx
  startLine : c'.startLine = c.startLine
  checkState : c'.checkState = c.checkState

theorem SameInput.indexed {c c' : HttpConn} (h : SameInput c c') (hc : c.Indexed) : c'.Indexed := by
  constructor
  · rw [h.startLine, h.checkedIdx]
    exact hc.start_le
  · rw [h.checkedIdx, h.readIdx]
    exact hc.checked_le
  · rw [h.readIdx]
    exact hc.read_le
  · rw [h.readIdx, h.readBuf]
    exact hc.zero_above

theorem finish_sameInput (c : HttpConn) (expected : Nat) (resp : HttpResponse) :
    SameInput c (c.finish expected resp).1 := by
  unfold HttpConn.finish processWrite
  by_cases hlen : WRITE_BUFFER_SIZE ≤ resp.serialize.length
  · simp only [if_pos hlen]
    split <;> exact ⟨rfl, rfl, rfl, rfl, rfl⟩
  · simp only [if_neg hlen]
    exact ⟨rfl, rfl, rfl, rfl, rfl⟩

theorem reject_sameInput {c c' : HttpConn} {expected : Nat} {code : HttpCode}
    {armed : Option Interest} (h : c.reject expected code = some (c', armed)) : SameInput c c' := by
  obtain ⟨resp, -, hresp⟩ := Option.bind_eq_some_iff.mp h
  have hc : (c.finish expected (c.withConnection resp)).1 = c' :=
    congrArg Prod.fst (Option.some.inj hresp)
  rw [← hc]
  exact finish_sameInput c expected _

/-- `process` touches the read side in `process_read` only. -/
theorem process_sameInput {st st' : σ} {c c' : HttpConn} {expected : Nat} {armed : Option Interest}
    {did : Processed} (h : c.process dispatch st expected = some (st', c', armed, did)) :
    c' = c ∨ SameInput c.processRead.1 c' := by
  unfold HttpConn.process at h
  split at h
  · left
    exact (congrArg (fun r => r.2.1) (Option.some.inj h)).symm
  · right
    rcases hr : c.processRead with ⟨c₁, code⟩
    rw [hr] at h
    have rejected : ∀ (c₂ : HttpConn) {code' : HttpCode} {did' : Processed}, SameInput c₁ c₂ →
        ((c₂.reject expected code').map fun r => (st, r.1, r.2, did')) =
          some (st', c', armed, did) → SameInput c₁ c' := by
      intro c₂ code' did' h₂ hrej
      obtain ⟨⟨c₃, armed'⟩, hr, he⟩ := Option.map_eq_some_iff.mp hrej
      have hc : c₃ = c' := congrArg (fun r => r.2.1) he
      have h₃ := hc ▸ reject_sameInput hr
      exact ⟨h₃.readBuf.trans h₂.readBuf, h₃.readIdx.trans h₂.readIdx,
        h₃.checkedIdx.trans h₂.checkedIdx, h₃.startLine.trans h₂.startLine,
        h₃.checkState.trans h₂.checkState⟩
    have answered : ∀ {r : Option (σ × HttpResponse)}, r.bind (fun r =>
          some (r.1, (c₁.finish expected (c₁.withConnection r.2)).1,
            (c₁.finish expected (c₁.withConnection r.2)).2,
            Processed.dispatched c₁.request (c₁.withConnection r.2))) =
          some (st', c', armed, did) → SameInput c₁ c' := by
      intro r hans
      obtain ⟨r, -, he⟩ := Option.bind_eq_some_iff.mp hans
      have hc : (c₁.finish expected (c₁.withConnection r.2)).1 = c' :=
        congrArg (fun r => r.2.1) (Option.some.inj he)
      rw [← hc]
      exact finish_sameInput c₁ expected _
    cases code with
    | noRequest =>
      have hc : c₁ = c' := congrArg (fun r => r.2.1) (Option.some.inj h)
      rw [← hc]
      exact ⟨rfl, rfl, rfl, rfl, rfl⟩
    | badRequest => exact rejected c₁ ⟨rfl, rfl, rfl, rfl, rfl⟩ h
    | requestEntityTooLarge =>
      exact rejected { c₁ with linger := false } ⟨rfl, rfl, rfl, rfl, rfl⟩ h
    | internalError => exact rejected c₁ ⟨rfl, rfl, rfl, rfl, rfl⟩ h
    | getRequest =>
      simp only at h
      exact answered h
    | closedConnection =>
      simp only at h
      exact answered h

/-- One call keeps the cursors ordered. -/
theorem Indexed.step {s s' : σ × HttpConn} {op : Op} (h : s.2.Indexed)
    (hs : HttpConn.step dispatch s op = some s') : s'.2.Indexed := by
  cases op with
  | initSocket sockfd trigMode =>
    cases hs
    exact init_indexed _
  | readOnce rs =>
    cases hs
    exact h.readOnce rs
  | process expected =>
    obtain ⟨⟨st', c', armed, did⟩, hp, he⟩ := Option.map_eq_some_iff.mp hs
    cases he
    rcases process_sameInput dispatch hp with rfl | hsame
    · exact h
    · exact hsame.indexed h.processRead
  | write ws =>
    cases hs
    rw [← writeT_fst]
    exact (h.writeT ws).2
  | invalidate =>
    cases hs
    exact ⟨h.start_le, h.checked_le, h.read_le, h.zero_above⟩

/-- **Read-buffer index safety.** In every state of a connection's life, whatever was received and
however the calls alternate: the cursors are ordered and everything above `m_read_idx` is zero, the
next `process_read` uses only positions below `m_read_idx` (and keeps the cursors ordered between
its lines), and the next `write` copies inside the two arrays. -/
theorem read_buffer_safe {st : σ} {slot : HttpConn} {connfd trigMode : Nat} {ops : List Op}
    {s : σ × HttpConn}
    (hrun : Machine.run (HttpConn.step dispatch) (st, slot.initSocket connfd trigMode) ops = some s) :
    s.2.Indexed ∧
      (s.2.processReadT.1 = s.2.processRead ∧ ∀ t ∈ s.2.processReadT.2, t.Within s.2.readIdx) ∧
      ∀ ws, (s.2.writeT ws).1 = s.2.write ws ∧ ∀ m ∈ (s.2.writeT ws).2, m.Fits := by
  have h : s.2.Indexed :=
    Machine.run_preserves (HttpConn.step dispatch) (I := fun s => s.2.Indexed)
      (fun _ _ _ h hs => h.step dispatch hs) (init_indexed _) hrun
  exact ⟨h, ⟨s.2.processReadT_fst, (h.processReadLoopT _ .lineOk).1⟩,
    fun ws => ⟨s.2.writeT_fst ws, (h.writeT ws).1⟩⟩

/-- A request with the first bytes of the next one behind it. -/
def pipelinedRun : Option (Unit × HttpConn) :=
  Machine.run (HttpConn.step fun st _ => (st, .answered {})) ((), HttpConn.initSocket {} 5 0)
    [.readOnce [.data (ascii "GET / HTTP/1.1\r\n\r\nGET")], .process 1, .write [.sent 8192]]

theorem read_buffer_safe_pipelined :
    ∃ s, pipelinedRun = some s ∧ s.2.readIdx = 3 ∧ s.2.Indexed := by
  have hrun : (pipelinedRun.map fun s => s.2.readIdx) = some 3 := by decide +kernel
  obtain ⟨s, hs, hread⟩ := Option.map_eq_some_iff.mp hrun
  exact ⟨s, hs, hread, (read_buffer_safe (fun st _ => (st, .answered {})) hs).1⟩

end Runs

end HttpConn
end Http
end UrlShortener
