import UrlShortener.Http.ReadBuffer

/-!
# UrlShortener.Http.LineText

The pointers that `process_read` passes on as C strings: `text = get_line()` goes to `LOG_INFO`
in every check state, and to the line parsers in two of them.

`parse_line` closes each line with a NUL, so a text looked at after it has found a line ends in
the buffer. The body state looks at its text before `parse_line` is called; there only a NUL among
the bytes, or the zeros above `m_read_idx`, can end the string. A full buffer has no such zeros.
-/

namespace UrlShortener
namespace Http

/-- What stands behind a head that announces a body. -/
def HeadResult.bodyBytes : HeadResult → Option Bytes
  | .body _ _ rest => some rest
  | _ => none

theorem readHead_append_body {p : Parser} {pos : Nat} {u rest : Bytes} (d : Bytes)
    (h : (readHead p pos u).bodyBytes = some rest) :
    (readHead p pos (u ++ d)).bodyBytes = some (rest ++ d) := by
  rw [readHead_append]
  cases hr : readHead p pos u with
  | body p' pos' rest' =>
    rw [hr] at h
    cases h
    rfl
  | more p' pos' rest' => rw [hr] at h; cases h
  | badLine p' pos' rest' => rw [hr] at h; cases h
  | ended code p' pos' rest' => rw [hr] at h; cases h

namespace HttpConn

/-- A text ends at a NUL inside the read buffer. -/
def Touch.Terminated : Touch → Prop
  | .text c => ∃ j, c.startLine ≤ j ∧ j < READ_BUFFER_SIZE ∧ c.readBuf j = NUL
  | _ => True

/-- Every C string that `process_read` would scan on this connection ends inside the buffer. -/
def TextsTerminated (c : HttpConn) : Prop := ∀ t ∈ c.processReadT.2, t.Terminated

/-- The bytes from the body's start on, when the next call of `process_read` looks at a body. -/
def bodyAhead (c : HttpConn) : Option Bytes :=
  if c.checkState = .content then some c.pending
  else (readHead c.toParser c.startLine c.pending).bodyBytes

/-- The buffer is not full, or a NUL stands in the body that the next call looks at. -/
def BodyEnds (c : HttpConn) : Prop :=
  c.readIdx < READ_BUFFER_SIZE ∨ ∀ rest, c.bodyAhead = some rest → NUL ∈ rest

/-! ## One round of the loop -/

theorem parseLineFromT_terminated (n : Nat) (c : HttpConn) :
    ∀ t ∈ (parseLineFromT n c).2, t.Terminated := by
  induction n generalizing c with
  | zero => exact fun _ ht => (List.not_mem_nil ht).elim
  | succ n ih =>
    have plain : ∀ (ts : List Touch), (∀ t ∈ ts, (∃ i, t = .read i) ∨ ∃ i, t = .write i) →
        ∀ t ∈ ts, t.Terminated := by
      intro ts hts t ht
      rcases hts t ht with ⟨i, rfl⟩ | ⟨i, rfl⟩ <;> trivial
    rw [parseLineFromT]
    simp only
    split
    · split
      · exact plain _ (by simp)
      · split <;> exact plain _ (by simp)
    · split
      · split
        · split <;> exact plain _ (by simp)
        · exact plain _ (by simp)
      · rintro t (_ | ⟨_, ht⟩)
        · trivial
        · exact ih _ t ht

theorem parseLineT_terminated (c : HttpConn) : ∀ t ∈ c.parseLineT.2, t.Terminated :=
  parseLineFromT_terminated _ c

theorem processLineTouches_terminated {c : HttpConn} :
    (∀ t ∈ c.processLineTouches, t.Terminated) ↔ (Touch.text c).Terminated := by
  constructor
  · exact fun h => h _ (by simp [processLineTouches])
  · rintro h t (_ | ⟨_, ht⟩)
    · exact h
    · split at ht
      · cases List.mem_singleton.mp ht
        trivial
      · cases ht

/-- A line that `parse_line` has just ended is a C string. -/
theorem Indexed.parseLineT_text {c c' : HttpConn} {ts : List Touch} (h : c.Indexed)
    (hp : c.parseLineT = ((c', .lineOk), ts)) : (Touch.text c').Terminated := by
  obtain ⟨-, -, hnul⟩ := h.parseLineT
  obtain ⟨buf, k, hm⟩ := c.parseLineT_moved
  rw [hp] at hnul hm
  obtain ⟨j, h1, h2, h3⟩ := hnul rfl
  have hm : c' = { c with readBuf := buf, checkedIdx := k } := hm
  have hs : c'.startLine = c.startLine := by rw [hm]
  exact ⟨j, by omega, Nat.lt_of_lt_of_le h2 h.read_le, h3⟩

/-- One round that calls `parse_line`: only what comes after the line can be unterminated. -/
theorem Indexed.round {n : Nat} {c : HttpConn} {ls : LineStatus} (h : c.Indexed)
    (hif : ¬ (c.checkState = .content ∧ ls = .lineOk)) :
    ((c.parseLine.2 = .lineOk → ∃ r, (c.parseLine.1.processLine .lineOk).2 = .inl r) ∧
        ∀ t ∈ (HttpConn.processReadLoopT (n + 1) c ls).2, t.Terminated) ∨
      ∃ c' c₂ ls', c.parseLine = (c', .lineOk) ∧ c'.processLine .lineOk = (c₂, .inr ls') ∧
        c₂.Indexed ∧
        ((∀ t ∈ (HttpConn.processReadLoopT (n + 1) c ls).2, t.Terminated) ↔
          ∀ t ∈ (HttpConn.processReadLoopT n c₂ ls').2, t.Terminated) := by
  have hts := c.parseLineT_terminated
  obtain ⟨-, h2, -⟩ := h.parseLineT
  rw [HttpConn.processReadLoopT, if_neg hif, ← parseLineT_fst]
  rcases hp : c.parseLineT with ⟨⟨c', st⟩, ts⟩
  rw [hp] at h2 hts
  cases st with
  | lineBad => exact Or.inl ⟨by simp, hts⟩
  | lineOpen => exact Or.inl ⟨by simp, hts⟩
  | lineOk =>
    have hline := processLineTouches_terminated.mpr (h.parseLineT_text hp)
    obtain ⟨-, g2, -⟩ := Indexed.processLine h2 .lineOk
    simp only
    rcases hpl : c'.processLine .lineOk with ⟨c₂, code | ls'⟩
    · left
      refine ⟨fun _ => ⟨code, rfl⟩, fun t ht => ?_⟩
      rcases List.mem_append.mp ht with ht | ht
      · exact hts t ht
      · exact hline t ht
    · right
      rw [hpl] at g2
      refine ⟨c', c₂, ls', rfl, hpl, g2, ?_, ?_⟩
      · intro hall t ht
        exact hall t (List.mem_append_right _ ht)
      · intro hrest t ht
        rcases List.mem_append.mp ht with ht | ht
        · rcases List.mem_append.mp ht with ht | ht
          · exact hts t ht
          · exact hline t ht
        · exact hrest t ht

/-! ## The body state -/

theorem processLine_content_state {c : HttpConn} (hc : c.checkState = .content) (ls : LineStatus) :
    (c.processLine ls).1.checkState = .content ∧ ∀ ls', (c.processLine ls).2 = .inr ls' →
      ls' = .lineOpen := by
  rw [processLine_content hc]
  split
  · exact ⟨hc, fun _ h => by cases h⟩
  · exact ⟨hc, fun _ h => (Sum.inr.inj h).symm⟩

/-- Once the body's first text has been looked at, `parse_line` closes all later ones. -/
theorem Indexed.bodyLines {n : Nat} {c : HttpConn} (h : c.Indexed) (hc : c.checkState = .content) :
    ∀ t ∈ (HttpConn.processReadLoopT n c .lineOpen).2, t.Terminated := by
  induction n generalizing c with
  | zero => exact fun _ ht => (List.not_mem_nil ht).elim
  | succ n ih =>
    have hif : ¬ (c.checkState = .content ∧ LineStatus.lineOpen = .lineOk) := by simp
    rcases h.round (n := n) hif with ⟨-, hall⟩ | ⟨c', c₂, ls', hp, hpl, h₂, hiff⟩
    · exact hall
    · have hc' : c'.checkState = .content := by
        have := congrArg Parser.checkState c.parseLine_toParser
        rw [hp, hc] at this
        exact this
      obtain ⟨hc₂, hls⟩ := processLine_content_state hc' .lineOk
      rw [hpl] at hc₂ hls
      obtain rfl := hls ls' rfl
      exact hiff.mpr (ih h₂ hc₂)

/-- A text ends in the buffer exactly when zeros follow the received bytes or a NUL is among them. -/
theorem Indexed.text_terminated {c : HttpConn} (h : c.Indexed) :
    (Touch.text c).Terminated ↔ c.readIdx < READ_BUFFER_SIZE ∨ NUL ∈ c.pending := by
  have hstart := h.start_le
  have hle := h.checked_le
  constructor
  · rintro ⟨j, h1, h2, h3⟩
    by_cases hj : j < c.readIdx
    · exact Or.inr (Mem.mem_seg.mpr ⟨j, h1, by omega, h3⟩)
    · exact Or.inl (by omega)
  · rintro (hr | hm)
    · exact ⟨c.readIdx, by omega, hr, h.zero_above _ (Nat.le_refl _)⟩
    · obtain ⟨j, h1, h2, h3⟩ := Mem.mem_seg.mp hm
      have hread := h.read_le
      exact ⟨j, h1, by omega, h3⟩

theorem Indexed.body_texts {n : Nat} {c : HttpConn} (h : c.Indexed) (hc : c.checkState = .content) :
    (∀ t ∈ (HttpConn.processReadLoopT (n + 1) c .lineOk).2, t.Terminated) ↔
      c.readIdx < READ_BUFFER_SIZE ∨ NUL ∈ c.pending := by
  rw [← h.text_terminated, ← processLineTouches_terminated]
  obtain ⟨-, h₂, -⟩ := h.processLine .lineOk
  obtain ⟨hc₂, hls⟩ := processLine_content_state hc .lineOk
  rw [HttpConn.processReadLoopT, if_pos ⟨hc, rfl⟩]
  rcases hpl : c.processLine .lineOk with ⟨c₂, code | ls'⟩
  · exact Iff.rfl
  · rw [hpl] at h₂ hc₂ hls
    obtain rfl := hls ls' rfl
    constructor
    · exact fun hall t ht => hall t (List.mem_append_left _ ht)
    · intro hfirst t ht
      rcases List.mem_append.mp ht with ht | ht
      · exact hfirst t ht
      · exact h₂.bodyLines hc₂ t ht

/-! ## The head -/

/-- The state after a complete head line is between two lines again. -/
theorem Kept.atLine {c : HttpConn} {p : Parser} {buf : Mem} {pos : Nat} (hk : c.Kept buf pos)
    (hread : c.readIdx ≤ READ_BUFFER_SIZE) : (c.moved p buf pos pos).AtLine :=
  ⟨Nat.le_refl _, hk.le_read, hread, by simp [moved, Clean.nil], hk.prev⟩

theorem Kept.pending {c : HttpConn} {p : Parser} {buf : Mem} {pos : Nat} (hk : c.Kept buf pos) :
    (c.moved p buf pos pos).pending = c.readBuf.seg pos (c.readIdx - pos) :=
  Mem.seg_congr fun j hj _ => hk.same j hj

theorem pending_drop {c : HttpConn} {k : Nat} (hk : k ≤ c.readIdx - c.startLine) :
    c.pending.drop k = c.readBuf.seg (c.startLine + k) (c.readIdx - (c.startLine + k)) := by
  rw [HttpConn.pending, Mem.seg_drop _ _ _ _ hk]
  congr 1
  omega

/-- **A head puts at most one text at risk**: the body's, when the head announces one. The
induction follows the loop's counter, as in `processReadLoop_head`. -/
theorem Indexed.head_texts {n : Nat} {c : HttpConn} {ls : LineStatus} (h : c.Indexed)
    (hat : c.AtLine) (hc : c.checkState ≠ .content)
    (hn : 2 * (c.readIdx - c.checkedIdx) + 2 ≤ n) :
    (∀ t ∈ (HttpConn.processReadLoopT n c ls).2, t.Terminated) ↔
      (c.readIdx < READ_BUFFER_SIZE ∨ ∀ p pos rest,
        readHead c.toParser c.startLine c.pending = .body p pos rest → NUL ∈ rest) := by
  induction n generalizing c ls with
  | zero => omega
  | succ n ih =>
    have hif : ¬ (c.checkState = .content ∧ ls = .lineOk) := fun hh => hc hh.1
    rcases hs : scanLine c.pending with ⟨pre, st⟩
    -- no line, or a line the parser stops at: `readHead` reports no body either
    have none_ahead : (∀ p pos rest,
        readHead c.toParser c.startLine c.pending ≠ .body p pos rest) →
        (∀ t ∈ (HttpConn.processReadLoopT (n + 1) c ls).2, t.Terminated) →
        ((∀ t ∈ (HttpConn.processReadLoopT (n + 1) c ls).2, t.Terminated) ↔
          (c.readIdx < READ_BUFFER_SIZE ∨ ∀ p pos rest,
            readHead c.toParser c.startLine c.pending = .body p pos rest → NUL ∈ rest)) :=
      fun hnot hall => ⟨fun _ => Or.inr fun p pos rest he => absurd he (hnot p pos rest), fun _ => hall⟩
    by_cases hst : st = .lineOk
    · subst hst
      have hlen := scanLine_ok_length hs
      rw [pending_length] at hlen
      obtain ⟨hadv, -⟩ := hat.parseLine_ok hs
      obtain ⟨buf, hk, hpl, hproc⟩ := hat.ends hc hs
      have hhead := @readHead_ok c.toParser c.startLine _ _ hs
      rw [pending_drop hlen, ← Nat.add_assoc] at hhead
      rcases hstep : c.toParser.step (c.startLine + pre.length + 2) (cString pre) with ⟨p', code⟩
      rw [hstep] at hproc hhead
      rcases h.round (n := n) hif with ⟨hstop, hall⟩ | ⟨c', c₂, ls', hp, hl, h₂, hiff⟩
      · rw [hpl, hproc] at hstop
        obtain ⟨r, hr⟩ := hstop rfl
        cases code with
        | none => cases hr
        | some code =>
          refine none_ahead (fun p pos rest he => ?_) hall
          rw [hhead] at he
          cases he
      · rw [hpl] at hp
        obtain rfl : _ = c' := congrArg Prod.fst hp
        rw [hproc] at hl
        cases code with
        | some code => exact absurd (congrArg Prod.snd hl) (by simp)
        | none =>
          obtain rfl : _ = c₂ := congrArg Prod.fst hl
          obtain rfl : LineStatus.lineOk = ls' := Sum.inr.inj (congrArg Prod.snd hl)
          rw [hiff]
          simp only [← hk.pending (p := p')] at hhead
          by_cases hcont : p'.checkState = .content
          · obtain ⟨m, rfl⟩ : ∃ m, n = m + 1 := ⟨n - 1, by omega⟩
            rw [if_pos hcont] at hhead
            rw [h₂.body_texts hcont, hhead]
            refine or_congr Iff.rfl ⟨fun hm p pos rest he => ?_, fun hm => hm _ _ _ rfl⟩
            cases he
            exact hm
          · rw [if_neg hcont] at hhead
            rw [hhead]
            exact ih h₂ (hk.atLine h.read_le) hcont (by simp only [moved]; omega)
    · have hpl := hat.parseLine_stop hs hst
      refine none_ahead ?_ ?_
      · intro p pos rest he
        cases st with
        | lineOk => exact hst rfl
        | lineBad => rw [readHead_bad hs] at he; cases he
        | lineOpen => rw [readHead_open hs] at he; cases he
      · rcases h.round (n := n) hif with ⟨-, hall⟩ | ⟨c', c₂, ls', hp, -⟩
        · exact hall
        · rw [hpl] at hp
          exact absurd (congrArg Prod.snd hp) hst

/-! ## Every state of a connection -/

/-- Cursors in order and, while a head is read, a line that has not ended before the cursor. -/
structure Sound (c : HttpConn) : Prop where
  indexed : c.Indexed
  atLine : c.checkState ≠ .content → c.AtLine

theorem init_sound (c : HttpConn) : c.init.Sound := ⟨init_indexed c, fun _ => init_atLine c⟩

theorem Fresh.sound {c : HttpConn} (hf : c.Fresh) (h : c.Indexed) : c.Sound := by
  refine ⟨h, fun hc => ?_⟩
  rcases (hf.ready h.read_le).inside with ⟨hat, -⟩ | hb
  · exact hat
  · exact absurd hb.state hc

theorem AtLine.processReadLoop {n : Nat} {c : HttpConn} {ls : LineStatus} (h : c.AtLine)
    (hc : c.checkState ≠ .content) (hc' : (HttpConn.processReadLoop n c ls).1.checkState ≠ .content) :
    (HttpConn.processReadLoop n c ls).1.AtLine := by
  induction n generalizing c ls with
  | zero => exact h
  | succ n ih =>
    rcases hs : scanLine c.pending with ⟨pre, st⟩
    by_cases hst : st = .lineOk
    · subst hst
      obtain ⟨buf, hk, hloop⟩ := h.line hc hs n ls
      rw [hloop] at hc' ⊢
      rcases hstep : c.toParser.step (c.startLine + pre.length + 2) (cString pre) with ⟨p', code⟩
      rw [hstep] at hc'
      cases code with
      | some code => exact hk.atLine h.read_le
      | none =>
        by_cases hcont : p'.checkState = .content
        · exact absurd (processReadLoop_content n hcont _).1 hc'
        · exact ih (hk.atLine h.read_le) hcont hc'
    · have hstop : (c.moved c.toParser c.readBuf c.startLine
          (c.startLine + (scanLine c.pending).1.length)).AtLine :=
        ((Kept.refl h).atLine_more h rfl).1
      rw [hs] at hstop
      have hif : ¬ (c.checkState = .content ∧ ls = .lineOk) := fun hh => hc hh.1
      rw [HttpConn.processReadLoop, if_neg hif, h.parseLine_stop hs hst]
      cases st with
      | lineOk => exact absurd rfl hst
      | lineBad => exact hstop
      | lineOpen => exact hstop

theorem Sound.processRead {c : HttpConn} (h : c.Sound) : c.processRead.1.Sound := by
  refine ⟨h.indexed.processRead, fun hc' => ?_⟩
  by_cases hc : c.checkState = .content
  · exact absurd (processReadLoop_content _ hc _).1 hc'
  · exact (h.atLine hc).processReadLoop hc hc'

theorem SameInput.sound {c c' : HttpConn} (h : SameInput c c') (hc : c.Sound) : c'.Sound := by
  refine ⟨h.indexed hc.indexed, fun hs => ?_⟩
  have hat := hc.atLine (h.checkState ▸ hs)
  refine ⟨?_, ?_, ?_, ?_, ?_⟩
  · rw [h.startLine, h.checkedIdx]
    exact hat.start_le
  · rw [h.checkedIdx, h.readIdx]
    exact hat.checked_le
  · rw [h.readIdx]
    exact hat.read_le
  · rw [h.startLine, h.checkedIdx, h.readBuf]
    exact hat.clean
  · rw [h.startLine, h.readBuf]
    exact hat.prev

/-- `write` either resets the parser or leaves the read side alone. -/
theorem writeLoop_input (ws : List WritevResult) {c₀ c : HttpConn} (h₀ : SameInput c₀ c)
    (out : Bytes) :
    SameInput c₀ (writeLoop ws c out).1 ∨ (writeLoop ws c out).1.Fresh := by
  induction ws generalizing c out with
  | nil => exact Or.inl h₀
  | cons w ws ih =>
    cases w with
    | eintr => exact ih h₀ out
    | eagain => exact Or.inl h₀
    | error => exact Or.inl h₀
    | sent k =>
      have hsent : ∀ a b x y, SameInput c₀ { c with
          bytesHaveSend := a, bytesToSend := b, iovBase := x, iovLen := y } :=
        fun _ _ _ _ => ⟨h₀.readBuf, h₀.readIdx, h₀.checkedIdx, h₀.startLine, h₀.checkState⟩
      simp only [writeLoop]
      split
      · split
        · exact Or.inr (retain_fresh _)
        · exact Or.inl (hsent _ _ _ _)
      · exact ih (hsent _ _ _ _) _

theorem Sound.write {c : HttpConn} (h : c.Sound) (ws : List WritevResult) :
    (c.write ws).1.Sound := by
  have hidx : (c.write ws).1.Indexed := by
    rw [← writeT_fst]
    exact (h.indexed.writeT ws).2
  have hin : SameInput c (c.write ws).1 ∨ (c.write ws).1.Fresh := by
    unfold HttpConn.write
    split
    · exact Or.inl ⟨rfl, rfl, rfl, rfl, rfl⟩
    · split
      · exact Or.inr (retain_fresh c)
      · exact writeLoop_input ws ⟨rfl, rfl, rfl, rfl, rfl⟩ []
  rcases hin with hsame | hf
  · exact hsame.sound h
  · exact hf.sound hidx

section Runs

variable {σ : Type} (dispatch : σ → HttpRequest → σ × Dispatched)

theorem Sound.step {s s' : σ × HttpConn} {op : Op} (h : s.2.Sound)
    (hs : HttpConn.step dispatch s op = some s') : s'.2.Sound := by
  cases op with
  | initSocket sockfd trigMode =>
    cases hs
    exact init_sound _
  | readOnce rs =>
    cases hs
    exact readOnce_keeps (fun _ h => h.indexed.read_le)
      (fun _ _ h hlen => ⟨h.indexed.receive hlen, fun hc => ((h.atLine hc).receive hlen).1⟩) rs h
  | process expected =>
    obtain ⟨⟨st', c', armed, did⟩, hp, he⟩ := Option.map_eq_some_iff.mp hs
    cases he
    rcases process_sameInput dispatch hp with rfl | hsame
    · exact h
    · exact hsame.sound h.processRead
  | write ws =>
    cases hs
    exact h.write ws
  | invalidate =>
    cases hs
    have hsame : SameInput s.2 s.2.invalidate := ⟨rfl, rfl, rfl, rfl, rfl⟩
    exact hsame.sound h

/-- The texts of one call, from a state the invariant allows. -/
theorem Sound.texts_iff {c : HttpConn} (h : c.Sound) : c.TextsTerminated ↔ c.BodyEnds := by
  unfold TextsTerminated BodyEnds bodyAhead processReadT
  by_cases hc : c.checkState = .content
  · rw [h.indexed.body_texts hc, if_pos hc]
    simp only [Option.some.injEq, forall_eq']
  · rw [h.indexed.head_texts (h.atLine hc) hc (Nat.le_refl _), if_neg hc]
    refine or_congr Iff.rfl ?_
    cases readHead c.toParser c.startLine c.pending with
    | body p pos rest => simp [HeadResult.bodyBytes]
    | more p pos rest => simp [HeadResult.bodyBytes]
    | badLine p pos rest => simp [HeadResult.bodyBytes]
    | ended code p pos rest => simp [HeadResult.bodyBytes]

/-- **When C strings stay inside the read buffer.** In every state of a connection's life, all the
texts that `process_read` treats as C strings end inside `m_read_buf` exactly when the buffer is
not full or the body it looks at holds a NUL byte. -/
theorem texts_terminated_iff {st : σ} {slot : HttpConn} {connfd trigMode : Nat} {ops : List Op}
    {s : σ × HttpConn}
    (hrun : Machine.run (HttpConn.step dispatch) (st, slot.initSocket connfd trigMode) ops = some s) :
    s.2.TextsTerminated ↔ s.2.BodyEnds := by
  have h : s.2.Sound :=
    Machine.run_preserves (HttpConn.step dispatch) (I := fun s => s.2.Sound)
      (fun _ _ _ h hs => h.step dispatch hs) (init_sound _) hrun
  exact h.texts_iff

/-- A POST of one body byte in a buffer that is not full. -/
theorem texts_terminated_iff_shortPost :
    TextsTerminated ((HttpConn.initSocket {} 5 0).readOnce
      [.data (ascii "POST / HTTP/1.1\r\nContent-Length: 1\r\n\r\na")]).1 :=
  (texts_terminated_iff (fun (st : Unit) _ => (st, .unmatched))
    (show Machine.run _ ((), HttpConn.initSocket {} 5 0)
      [.readOnce [.data (ascii "POST / HTTP/1.1\r\nContent-Length: 1\r\n\r\na")]] = some _ from
      rfl)).mpr (Or.inl (by decide +kernel))

/-- The first `recv` of a level-triggered connection, when it delivers `d`. -/
theorem initSocket_readOnce (c : HttpConn) (connfd : Int) {d : Bytes} (hne : d ≠ [])
    (hlen : d.length ≤ READ_BUFFER_SIZE) :
    ((c.initSocket connfd 0).readOnce [.data d]).1 = (c.initSocket connfd 0).receive d := by
  have htrig : (c.initSocket connfd 0).trigMode = 0 := rfl
  have hread : (c.initSocket connfd 0).readIdx = 0 := rfl
  have hroom : ¬ READ_BUFFER_SIZE ≤ (c.initSocket connfd 0).readIdx := by
    rw [hread]
    decide
  unfold HttpConn.readOnce
  rw [if_neg hroom, if_pos htrig]
  simp only [if_neg hne, hread, Nat.sub_zero, List.take_of_length_le hlen]

theorem initSocket_receive (c : HttpConn) (connfd : Int) {d : Bytes}
    (hlen : d.length ≤ READ_BUFFER_SIZE) :
    ((c.initSocket connfd 0).receive d).Sound ∧
      ((c.initSocket connfd 0).receive d).pending = d ∧
      ((c.initSocket connfd 0).receive d).readIdx = d.length := by
  have hlen : (c.initSocket connfd 0).readIdx + d.length ≤ READ_BUFFER_SIZE := by
    show 0 + d.length ≤ _
    omega
  refine ⟨⟨Indexed.receive (init_indexed _) hlen, fun _ => (AtLine.receive (init_atLine _) hlen).1⟩,
    (AtLine.receive (init_atLine _) hlen).2, ?_⟩
  show 0 + d.length = _
  omega

/-- A POST of one body byte. -/
def onePost : Bytes := ascii "POST / HTTP/1.1\r\nContent-Length: 1\r\n\r\n"

/-- With as many bytes behind its head as the buffer takes, a POST's body has no end: one `recv`
delivers it, and the next `process` logs it. -/
theorem onePost_not_terminated :
    ¬ ∀ (ops : List Op) (s : Unit × HttpConn),
      Machine.run (HttpConn.step fun st _ => (st, .unmatched)) ((), HttpConn.initSocket {} 5 0) ops =
        some s → s.2.TextsTerminated := by
  intro hall
  obtain ⟨tail, htail⟩ : ∃ tail, tail = List.replicate (READ_BUFFER_SIZE - 38) (97 : UInt8) :=
    ⟨_, rfl⟩
  have hlen : (onePost ++ tail).length = READ_BUFFER_SIZE := by
    rw [List.length_append, htail, List.length_replicate]
    decide
  have hne : onePost ++ tail ≠ [] := List.append_ne_nil_of_left_ne_nil (by decide) _
  have hterm := hall [.readOnce [.data (onePost ++ tail)]] _ (Machine.run_single _ _ _)
  simp only [initSocket_readOnce {} 5 hne (Nat.le_of_eq hlen)] at hterm
  obtain ⟨hsound, hpend, hread⟩ := initSocket_receive {} 5 (Nat.le_of_eq hlen)
  have hbody : ((HttpConn.initSocket {} 5 0).receive (onePost ++ tail)).bodyAhead = some tail := by
    have hhead : (readHead {} 0 onePost).bodyBytes = some [] := by decide +kernel
    have := readHead_append_body tail hhead
    rw [bodyAhead, if_neg (by simp [HttpConn.initSocket, init, receive]), hpend]
    exact this
  rcases hsound.texts_iff.mp hterm with hlt | hnul
  · omega
  · have := hnul _ hbody
    rw [htail] at this
    have := List.eq_of_mem_replicate this
    revert this
    decide

end Runs

end HttpConn
end Http
end UrlShortener
