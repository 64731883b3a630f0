import UrlShortener.Http.Reading

/-!
# UrlShortener.Http.Fragment

A request stream cut into chunks, `process_read` running after each (`feed`).

What a run shows is its code, the parsed request and the bytes consumed (`seen`). A head may be
cut anywhere: `feed_head` says that the chunks of a head are read as their concatenation is. A
body may not. When `parse_content` finds the body short, the loop condition of `process_read`
calls `parse_line` on the part that is there, and the cursor leaves the body's start; the next
call then counts `Content-Length` bytes from the wrong place. Every cut is
harmless but one strictly inside a body that the stream holds in full; there only a cut right
behind a first body byte CR is, where `parse_line` waits.
-/

namespace UrlShortener
namespace Http

/-- The codes of a body scan. -/
def bodyCode (st : LineStatus) : HttpCode := if st = .lineBad then .badRequest else .noRequest

/-- What `process_read` shows when a head comes to this end, the buffer not being full. -/
def HeadResult.verdict : HeadResult → HttpCode × HttpRequest × Nat
  | .more p pos rest => (.noRequest, p.request, pos + (scanLine rest).1.length)
  | .badLine p pos _ => (.badRequest, p.request, pos)
  | .ended code p pos _ => (code, p.request, pos)
  | .body p pos rest =>
    if p.contentLength ≤ rest.length then
      (.getRequest, { p.request with body := rest.take p.contentLength }, pos + p.contentLength)
    else (bodyCode (bodyScan rest).2, p.request, pos + (bodyScan rest).1)

/-- The stream position of the body and its `Content-Length`, once the head has come to one. -/
def bodySpan (S : Bytes) : Option (Nat × Nat) :=
  match readHead {} 0 S with
  | .body p pos _ => some (pos, p.contentLength)
  | _ => none

/-- The stream positions at which a run of chunks stops to parse. -/
def cutPoints : Nat → List Bytes → List Nat
  | r, [] => [r]
  | r, d :: ds => r :: cutPoints (r + d.length) ds

theorem le_of_mem_cutPoints {ds : List Bytes} {r k : Nat} (h : k ∈ cutPoints r ds) : r ≤ k := by
  induction ds generalizing r with
  | nil => simp only [cutPoints, List.mem_singleton] at h; omega
  | cons d ds ih =>
    rcases List.mem_cons.mp h with rfl | h
    · omega
    · exact Nat.le_trans (Nat.le_add_right _ _) (ih h)

/-- A cut inside the body that is not the one behind a leading CR. -/
def SplitAt (h n : Nat) (first : Option UInt8) (k : Nat) : Prop :=
  h < k ∧ k < h + n ∧ ¬ (k = h + 1 ∧ first = some CR)

/-- The stream holds a body in full and some chunk ends inside it. -/
def SplitsBody (chunks : List Bytes) : Prop :=
  ∃ h n, bodySpan chunks.flatten = some (h, n) ∧ h + n ≤ chunks.flatten.length ∧
    ∃ k ∈ cutPoints 0 chunks, SplitAt h n (chunks.flatten.drop h).head? k

namespace HttpConn

/-- The chunked run: append a chunk, parse, stop at the first result that is not NO_REQUEST. -/
def feed : HttpConn → List Bytes → HttpConn × HttpCode
  | c, [] => (c, .noRequest)
  | c, d :: ds =>
    match (c.receive d).processRead with
    | (c', .noRequest) => feed c' ds
    | r => r

/-- A run that parses what is already there before it takes the next chunk. -/
def feedFrom (c : HttpConn) (ds : List Bytes) : HttpConn × HttpCode :=
  match c.processRead with
  | (c', .noRequest) => feed c' ds
  | r => r

theorem feed_cons (c : HttpConn) (d : Bytes) (ds : List Bytes) :
    feed c (d :: ds) = feedFrom (c.receive d) ds := rfl

theorem feedFrom_bodyCode {c c' : HttpConn} {st : LineStatus}
    (he : c.processRead = (c', bodyCode st)) (ds : List Bytes) :
    feedFrom c ds = if st = .lineBad then (c', .badRequest) else feed c' ds := by
  rw [feedFrom, he]
  cases st <;> rfl

/-- What a run shows: the code, the request and the bytes consumed. -/
def seen (r : HttpConn × HttpCode) : HttpCode × HttpRequest × Nat :=
  (r.2, r.1.request, r.1.checkedIdx)

/-! ## Inside a body -/

/-- One call of the parser on a body that is not all there. -/
theorem processRead_short {c : HttpConn} (h : c.InBody) (hread : c.readIdx < READ_BUFFER_SIZE)
    (hshort : c.readIdx < c.contentLength + c.checkedIdx) :
    ∃ c', c.processRead = (c', bodyCode (bodyScan c.unread).2) ∧ c'.InBody ∧
      c'.toParser = c.toParser ∧ c'.readIdx = c.readIdx ∧ c.checkedIdx ≤ c'.startLine ∧
      c'.checkedIdx = c.checkedIdx + (bodyScan c.unread).1 ∧
      c'.unread = c.unread.drop (bodyScan c.unread).1 := by
  obtain ⟨buf, s, hs, hk, he⟩ := processReadLoop_short (2 * (c.readIdx - c.checkedIdx) + 2) h.state
    hshort h.start_le h.checked_le h.prev (Nat.le_refl _)
  have hcode : c.processReadExit (bodyScan c.unread).2 = bodyCode (bodyScan c.unread).2 := by
    simp only [processReadExit, bodyCode, if_neg (Nat.not_le.mpr hread)]
  rw [hcode] at he
  have hle := bodyScan_le c.unread
  rw [unread_length] at hle
  refine ⟨_, he, ⟨h.state, hk.s_le, hk.k_le, hk.prev⟩, rfl, rfl, hs, rfl, ?_⟩
  show buf.seg (c.checkedIdx + (bodyScan c.unread).1)
    (c.readIdx - (c.checkedIdx + (bodyScan c.unread).1)) = _
  have e : c.readIdx - (c.checkedIdx + (bodyScan c.unread).1) =
      c.readIdx - c.checkedIdx - (bodyScan c.unread).1 := by omega
  rw [Mem.seg_congr fun j hj _ => hk.same j hj, e, ← Mem.seg_drop _ _ _ _ hle]
  rfl

/-- A body the stream does not hold in full may be cut anywhere. -/
theorem feedFrom_short {ds : List Bytes} {c : HttpConn} (h : c.InBody)
    (hread : c.readIdx + ds.flatten.length < READ_BUFFER_SIZE)
    (hshort : c.readIdx + ds.flatten.length < c.contentLength + c.checkedIdx) :
    seen (feedFrom c ds) =
      (bodyCode (bodyScan (c.unread ++ ds.flatten)).2, c.request,
        c.checkedIdx + (bodyScan (c.unread ++ ds.flatten)).1) := by
  induction ds generalizing c with
  | nil =>
    obtain ⟨c', he, -, hp, -, -, hk, -⟩ := processRead_short h (by simpa using hread)
      (by simpa using hshort)
    have hreq : c'.request = c.request := congrArg Parser.request hp
    rw [feedFrom_bodyCode he, List.flatten_nil, List.append_nil]
    by_cases hst : (bodyScan c.unread).2 = .lineBad
    · simp [seen, bodyCode, hst, hreq, hk]
    · simp [seen, bodyCode, feed, hst, hreq, hk]
  | cons d ds ih =>
    rw [List.flatten_cons, List.length_append] at hread hshort
    obtain ⟨c', he, hb, hp, hr, -, hk, hu⟩ := processRead_short h (by omega) (by omega)
    have hreq : c'.request = c.request := congrArg Parser.request hp
    have hcl : c'.contentLength = c.contentLength := congrArg Parser.contentLength hp
    rw [feedFrom_bodyCode he, List.flatten_cons, bodyScan_append]
    rcases hsc : bodyScan c.unread with ⟨k, st⟩
    rw [hsc] at hk hu
    cases st with
    | lineOk => exact absurd (congrArg Prod.snd hsc) (bodyScan_ne_ok _)
    | lineBad => simp [seen, bodyCode, hreq, hk]
    | lineOpen =>
      obtain ⟨hb', hu'⟩ := hb.receive d
      have hih := ih (c := c'.receive d) hb'
        (by show c'.readIdx + d.length + _ < _; omega)
        (by show c'.readIdx + d.length + _ < c'.contentLength + c'.checkedIdx; omega)
      simp only at hk hu
      rw [if_neg (by simp), feed_cons, hih, hu', hu, List.append_assoc]
      refine Prod.ext rfl (Prod.ext hreq ?_)
      show c'.checkedIdx + _ = c.checkedIdx + (_ + k)
      omega

/-- A body is accepted whole when every cut inside it is the harmless one. -/
theorem feedFrom_accept {ds : List Bytes} {c : HttpConn} (h : c.InBody)
    (hstart : c.startLine = c.checkedIdx)
    (hread : c.readIdx + ds.flatten.length < READ_BUFFER_SIZE)
    (hfull : c.contentLength ≤ (c.unread ++ ds.flatten).length)
    (hcuts : ∀ k ∈ cutPoints c.readIdx ds,
      ¬ SplitAt c.checkedIdx c.contentLength (c.unread ++ ds.flatten).head? k) :
    seen (feedFrom c ds) =
      (.getRequest, { c.request with body := (c.unread ++ ds.flatten).take c.contentLength },
        c.checkedIdx + c.contentLength) := by
  induction ds generalizing c with
  | nil =>
    simp only [List.flatten_nil, List.append_nil, unread_length] at hfull ⊢
    have hle := h.checked_le
    rw [feedFrom, processRead_accept h (by omega)]
    simp only [seen, hstart, unread]
    rw [Mem.seg_take _ _ _ _ hfull]
  | cons d ds ih =>
    have hle := h.checked_le
    by_cases hnow : c.contentLength + c.checkedIdx ≤ c.readIdx
    · rw [feedFrom, processRead_accept h hnow]
      have ht : c.contentLength ≤ c.unread.length := by rw [unread_length]; omega
      simp only [seen, hstart]
      rw [List.take_append_of_le_length ht, unread, Mem.seg_take _ _ _ _ (by omega)]
    · -- The body is short here, so this cut is at its start or behind a leading CR.
      have hcut := hcuts c.readIdx (by simp [cutPoints])
      rw [List.flatten_cons, List.length_append] at hread
      obtain ⟨c', he, hb, hp, hr, hs', hk, hu⟩ := processRead_short h (by omega) (by omega)
      have hzero : bodyScan c.unread = (0, .lineOpen) := by
        have hul := unread_length c
        rcases hc : c.unread with _ | ⟨b, bs⟩
        · rfl
        · rw [hc] at hul hcut
          simp only [SplitAt, List.cons_append, List.head?_cons, Option.some.injEq] at hcut
          simp only [List.length_cons] at hul
          have hlt : c.checkedIdx < c.readIdx := by omega
          have hcase : c.readIdx = c.checkedIdx + 1 ∧ b = CR := by
            by_contra hno
            exact hcut ⟨hlt, by omega, hno⟩
          have : bs = [] := List.length_eq_zero_iff.mp (by omega)
          rw [this, hcase.2]
          rfl
      rw [hzero] at hk hu he
      simp only [Nat.add_zero, List.drop_zero] at hk hu
      obtain ⟨hb', hu'⟩ := hb.receive d
      have hcl : c'.contentLength = c.contentLength := congrArg Parser.contentLength hp
      have hreq : c'.request = c.request := congrArg Parser.request hp
      have hsl : c'.startLine = c'.checkedIdx := Nat.le_antisymm hb.start_le (hk ▸ hs')
      have hih := ih (c := c'.receive d) hb' hsl
        (by show c'.readIdx + d.length + _ < _; omega)
        (by
          rw [hu', hu, List.append_assoc, ← List.flatten_cons]
          show c'.contentLength ≤ _
          rw [hcl]
          exact hfull)
        (by
          rw [hu', hu, List.append_assoc, ← List.flatten_cons]
          show ∀ k ∈ cutPoints (c'.readIdx + d.length) ds,
            ¬ SplitAt c'.checkedIdx c'.contentLength _ k
          rw [hr, hk, hcl]
          exact fun k hk' => hcuts k (by simp [cutPoints, hk']))
      rw [feedFrom_bodyCode he, if_neg (by simp), feed_cons, hih, hu', hu, List.append_assoc,
        ← List.flatten_cons, show (c'.receive d).contentLength = c.contentLength from hcl,
        show (c'.receive d).request = c.request from hreq,
        show (c'.receive d).checkedIdx = c.checkedIdx from hk]

/-- Once the cursor has left the body's start, an accepted body ends too late. -/
theorem feedFrom_overrun {ds : List Bytes} {c : HttpConn} (h : c.InBody) (pos : Nat)
    (hpos : pos < c.checkedIdx) (hread : c.readIdx + ds.flatten.length < READ_BUFFER_SIZE)
    (hget : (feedFrom c ds).2 = .getRequest) :
    pos + c.contentLength < (feedFrom c ds).1.checkedIdx := by
  induction ds generalizing c with
  | nil =>
    by_cases hnow : c.contentLength + c.checkedIdx ≤ c.readIdx
    · rw [feedFrom, processRead_accept h hnow]
      simp only
      omega
    · obtain ⟨c', he, -⟩ := processRead_short h (by simpa using hread) (by omega)
      rw [feedFrom_bodyCode he] at hget
      split at hget <;> simp [feed] at hget
  | cons d ds ih =>
    by_cases hnow : c.contentLength + c.checkedIdx ≤ c.readIdx
    · rw [feedFrom, processRead_accept h hnow]
      simp only
      omega
    · rw [List.flatten_cons, List.length_append] at hread
      obtain ⟨c', he, hb, hp, hr, -, hk, -⟩ := processRead_short h (by omega) (by omega)
      have hcl : c'.contentLength = c.contentLength := congrArg Parser.contentLength hp
      rw [feedFrom_bodyCode he] at hget ⊢
      by_cases hst : (bodyScan c.unread).2 = .lineBad
      · simp [hst] at hget
      · rw [if_neg hst, feed_cons] at hget ⊢
        have := ih (hb.receive d).1 (by show pos < c'.checkedIdx; omega)
          (by show c'.readIdx + d.length + _ < _; omega) hget
        show pos + c.contentLength < _
        rw [← hcl]
        exact this

/-- A harmful cut makes an accepted body end too late. -/
theorem feedFrom_split {ds : List Bytes} {c : HttpConn} (h : c.InBody)
    (hread : c.readIdx + ds.flatten.length < READ_BUFFER_SIZE) {k : Nat}
    (hk : k ∈ cutPoints c.readIdx ds)
    (hsplit : SplitAt c.checkedIdx c.contentLength (c.unread ++ ds.flatten).head? k)
    (hget : (feedFrom c ds).2 = .getRequest) :
    c.checkedIdx + c.contentLength < (feedFrom c ds).1.checkedIdx := by
  induction ds generalizing c with
  | nil =>
    obtain ⟨hk1, hk2, -⟩ := hsplit
    have hmin := le_of_mem_cutPoints hk
    obtain ⟨c', he, -⟩ := processRead_short h (by simpa using hread) (by omega)
    rw [feedFrom_bodyCode he] at hget
    split at hget <;> simp [feed] at hget
  | cons d ds ih =>
    obtain ⟨hk1, hk2, hk3⟩ := hsplit
    have hmin := le_of_mem_cutPoints hk
    rw [List.flatten_cons, List.length_append] at hread
    obtain ⟨c', he, hb, hp, hr, -, hkk, hu⟩ := processRead_short h (by omega) (by omega)
    have hcl : c'.contentLength = c.contentLength := congrArg Parser.contentLength hp
    rw [feedFrom_bodyCode he] at hget ⊢
    by_cases hst : (bodyScan c.unread).2 = .lineBad
    · simp [hst] at hget
    rw [if_neg hst, feed_cons] at hget ⊢
    obtain ⟨hb', hu'⟩ := hb.receive d
    have hlen' : (c'.receive d).readIdx + ds.flatten.length < READ_BUFFER_SIZE := by
      show c'.readIdx + d.length + _ < _
      omega
    rcases Nat.eq_zero_or_pos (bodyScan c.unread).1 with h0 | hpos
    · -- `parse_line` stayed at the body's start: the cut here was harmless.
      have hopen : (bodyScan c.unread).2 = .lineOpen := by
        have := bodyScan_ne_ok c.unread
        revert this hst
        cases (bodyScan c.unread).2 <;> simp
      have hrest := bodyScan_open_rest hopen
      rw [h0, Nat.add_zero] at hkk
      rw [h0, List.drop_zero] at hu hrest
      have hkne : k ≠ c.readIdx := by
        rintro rfl
        have hul := unread_length c
        rcases hrest with hrest | hrest
        · rw [hrest] at hul
          simp only [List.length_nil] at hul
          omega
        · rw [hrest] at hul hk3
          simp only [List.length_singleton] at hul
          exact hk3 ⟨by omega, rfl⟩
      have hk' : k ∈ cutPoints (c'.receive d).readIdx ds := by
        show k ∈ cutPoints (c'.readIdx + d.length) ds
        rw [hr]
        simp only [cutPoints, List.mem_cons] at hk
        exact hk.resolve_left hkne
      have hsplit' : SplitAt (c'.receive d).checkedIdx (c'.receive d).contentLength
          ((c'.receive d).unread ++ ds.flatten).head? k := by
        rw [hu', hu, List.append_assoc, ← List.flatten_cons]
        show SplitAt c'.checkedIdx c'.contentLength _ k
        rw [hkk, hcl]
        exact ⟨hk1, hk2, hk3⟩
      have := ih hb' hlen' hk' hsplit' hget
      show c.checkedIdx + c.contentLength < _
      rw [← hcl, ← hkk]
      exact this
    · have := feedFrom_overrun hb' c.checkedIdx
        (by show c.checkedIdx < c'.checkedIdx; omega) hlen' hget
      show c.checkedIdx + c.contentLength < _
      rw [← hcl]
      exact this

/-! ## From head to body -/

/-- **The chunks of a head are read as their concatenation is**, up to its end or to the first
byte of the body. -/
theorem feed_head (ds : List Bytes) {c : HttpConn} (h : c.AtLine) (hc : c.checkState ≠ .content)
    (hrest : c.AtRest) (hread : c.readIdx + ds.flatten.length < READ_BUFFER_SIZE) :
    match readHead c.toParser c.startLine (c.pending ++ ds.flatten) with
    | .body p pos rest => ∃ (c' : HttpConn) (ds' : List Bytes), feed c ds = feedFrom c' ds' ∧ c'.InBody ∧ c'.toParser = p ∧
        c'.startLine = pos ∧ c'.checkedIdx = pos ∧ c'.unread ++ ds'.flatten = rest ∧
        c'.readIdx + ds'.flatten.length = c.readIdx + ds.flatten.length ∧
        ∀ k, pos < k → (k ∈ cutPoints c.readIdx ds ↔ k ∈ cutPoints c'.readIdx ds')
    | r => seen (feed c ds) = r.verdict := by
  induction ds generalizing c with
  | nil =>
    have hs : scanLine c.pending = ((scanLine c.pending).1, .lineOpen) := Prod.ext rfl hrest.1
    rw [List.flatten_nil, List.append_nil, readHead_open hs]
    simp only [feed, seen, HeadResult.verdict, hrest.2]
  | cons d ds ih =>
    rw [List.flatten_cons, List.length_append] at hread
    obtain ⟨hat, hpend⟩ := h.receive (d := d) (by omega)
    have hstep := processRead_head hat hc (by show c.readIdx + d.length < _; omega)
    have hlen : c.startLine + (c.pending ++ d).length = c.readIdx + d.length := by
      have h1 := h.start_le
      have h2 := h.checked_le
      rw [List.length_append, pending_length]
      omega
    have hmore : readHead c.toParser c.startLine c.pending = .more c.toParser c.startLine c.pending :=
      readHead_open (Prod.ext rfl hrest.1)
    rw [hpend] at hstep
    rw [List.flatten_cons, ← List.append_assoc, readHead_append]
    change match readHead c.toParser c.startLine (c.pending ++ d) with
      | .more p pos rest => _
      | .badLine p pos _ => _
      | .ended code p pos _ => _
      | .body p pos rest => _ at hstep
    cases hr : readHead c.toParser c.startLine (c.pending ++ d) with
    | more p pos rest =>
      rw [hr] at hstep
      obtain ⟨c', he, hat', hrest', hp, hsl, hpe, hri⟩ := hstep
      have hri' : c'.readIdx = c.readIdx + d.length := hri
      have hc' : c'.checkState ≠ .content := by
        rw [show c'.checkState = p.checkState from congrArg Parser.checkState hp]
        exact (readHead_more hc hr).1
      have hih := ih hat' hc' hrest' (by omega)
      have hfeed : feed c (d :: ds) = feed c' ds := by rw [feed, he]
      rw [hp, hsl, hpe] at hih
      simp only
      cases hr2 : readHead p pos (rest ++ ds.flatten) with
      | body p' pos' rest' =>
        rw [hr2] at hih
        obtain ⟨c₂, ds₂, hf, hb, hp₂, hs₂, hk₂, hu₂, hl₂, hcut⟩ := hih
        refine ⟨c₂, ds₂, hfeed.trans hf, hb, hp₂, hs₂, hk₂, hu₂, ?_, fun k hk => ?_⟩
        · rw [hl₂, List.length_append]
          omega
        · have hbody : readHead c.toParser c.startLine (c.pending ++ (d ++ ds.flatten)) =
              .body p' pos' rest' := by
            rw [← List.append_assoc, readHead_append, hr]
            exact hr2
          have hlt := readHead_more_body hc hmore hbody
          rw [pending_length] at hlt
          have h1 := h.start_le
          have h2 := h.checked_le
          rw [← hcut k hk, cutPoints, hri', List.mem_cons]
          exact or_iff_right (by omega)
      | _ =>
        rw [hr2] at hih
        rw [hfeed]
        exact hih
    | badLine p pos rest =>
      rw [hr] at hstep
      obtain ⟨c', he, hp, hk⟩ := hstep
      simp only [HeadResult.extend, HeadResult.verdict]
      rw [feed, he]
      simp only [seen, hk]
      rw [show c'.request = p.request from congrArg Parser.request hp]
    | ended code p pos rest =>
      rw [hr] at hstep
      obtain ⟨c', he, hp, hk⟩ := hstep
      simp only [HeadResult.extend, HeadResult.verdict]
      have hcode := readHead_ended_code hr
      rw [feed, he]
      rcases hcode with rfl | rfl | rfl <;>
        (simp only [seen, hk]; rw [show c'.request = p.request from congrArg Parser.request hp])
    | body p pos rest =>
      rw [hr] at hstep
      obtain ⟨c', he, hb, hp, hsl, hk, hu, hri⟩ := hstep
      have hri' : c'.readIdx = c.readIdx + d.length := hri
      have hlt := readHead_more_body hc hmore hr
      rw [pending_length] at hlt
      have h1 := h.start_le
      have h2 := h.checked_le
      simp only [HeadResult.extend]
      refine ⟨c', ds, ?_, hb, hp, hsl, hk, by rw [hu], ?_, fun k hk' => ?_⟩
      · rw [feed_cons, feedFrom, feedFrom, he]
      · rw [hri', List.length_append]
        omega
      · rw [cutPoints, hri', List.mem_cons]
        exact or_iff_right (by omega)

/-! ## Whole streams -/

/-- What the chunked run must show: what one chunk shows, and a complete body as it was sent,
with the next request right behind it. -/
structure Unfragmented (c : HttpConn) (chunks : List Bytes) : Prop where
  same : seen (feed c.init chunks) = seen (feed c.init [chunks.flatten])
  body : ∀ h n, bodySpan chunks.flatten = some (h, n) → h + n ≤ chunks.flatten.length →
    (feed c.init chunks).2 = .getRequest ∧
      (feed c.init chunks).1.request.body = (chunks.flatten.drop h).take n ∧
      (feed c.init chunks).1.checkedIdx = h + n

/-- The run of a fresh connection, up to the body. -/
theorem feed_init (c : HttpConn) {chunks : List Bytes}
    (hlen : chunks.flatten.length < READ_BUFFER_SIZE) :
    match readHead {} 0 chunks.flatten with
    | .body p pos rest => ∃ (c' : HttpConn) (ds : List Bytes), feed c.init chunks = feedFrom c' ds ∧
        c'.InBody ∧ c'.toParser = p ∧ c'.startLine = pos ∧ c'.checkedIdx = pos ∧
        c'.unread ++ ds.flatten = rest ∧
        c'.readIdx + ds.flatten.length = chunks.flatten.length ∧
        ∀ k, pos < k → (k ∈ cutPoints 0 chunks ↔ k ∈ cutPoints c'.readIdx ds)
    | r => seen (feed c.init chunks) = r.verdict := by
  have hrest : c.init.AtRest := ⟨rfl, rfl⟩
  have h := feed_head chunks (init_atLine c) (by simp [init]) hrest
    (by show 0 + _ < _; omega)
  have hri : c.init.readIdx = 0 := rfl
  rw [hri] at h
  simp only [Nat.zero_add] at h
  exact h

theorem bodySpan_some {S : Bytes} {h n : Nat} (hs : bodySpan S = some (h, n)) :
    ∃ p, readHead {} 0 S = .body p h (S.drop h) ∧ p.contentLength = n ∧
      h + (S.drop h).length = S.length := by
  have hpos := readHead_pos {} 0 S
  have hrest := readHead_rest {} 0 S
  unfold bodySpan at hs
  split at hs
  · rename_i p pos rest hr
    cases hs
    rw [hr] at hpos hrest
    simp only [HeadResult.pos, HeadResult.rest, Nat.sub_zero, Nat.zero_add] at hpos hrest
    refine ⟨p, by rw [hr, hrest], rfl, ?_⟩
    rw [← hrest]
    exact hpos.2
  · cases hs

theorem bodySpan_body {S rest : Bytes} {p : Parser} {pos : Nat}
    (hr : readHead {} 0 S = .body p pos rest) : bodySpan S = some (pos, p.contentLength) := by
  rw [bodySpan, hr]

/-- A run that splits no body shows what the bytes of its stream say. -/
theorem seen_feed {c : HttpConn} {chunks : List Bytes}
    (hlen : chunks.flatten.length < READ_BUFFER_SIZE) (hcuts : ¬ SplitsBody chunks) :
    seen (feed c.init chunks) = (readHead {} 0 chunks.flatten).verdict := by
  have h := feed_init c hlen
  cases hr : readHead {} 0 chunks.flatten with
  | body p pos rest =>
    rw [hr] at h
    obtain ⟨c', ds, he, hb, hp, hs, hk, hu, hl, hcut⟩ := h
    obtain ⟨p', hr', -, hsum⟩ := bodySpan_some (bodySpan_body hr)
    obtain ⟨-, -, hrest⟩ := HeadResult.body.inj (hr.symm.trans hr')
    have hcl : c'.contentLength = p.contentLength := congrArg Parser.contentLength hp
    have hreq : c'.request = p.request := congrArg Parser.request hp
    have hread : c'.readIdx + ds.flatten.length < READ_BUFFER_SIZE := by omega
    rw [← hrest] at hsum
    simp only [HeadResult.verdict]
    rw [he]
    split
    · rename_i hfull
      rw [feedFrom_accept hb (by rw [hs, hk]) hread (by rw [hcl, hu]; exact hfull), hu, hcl, hreq,
        hk]
      intro k hk' hsplit
      rw [hk, hcl, hu] at hsplit
      refine hcuts ⟨pos, p.contentLength, bodySpan_body hr, by omega, k, ?_, ?_⟩
      · exact (hcut k hsplit.1).mpr hk'
      · rw [← hrest]
        exact hsplit
    · rw [feedFrom_short hb hread (by omega), hu, hreq, hk]
  | more p pos rest => rw [hr] at h; exact h
  | badLine p pos rest => rw [hr] at h; exact h
  | ended code p pos rest => rw [hr] at h; exact h

theorem not_splitsBody_single (S : Bytes) : ¬ SplitsBody [S] := by
  rintro ⟨h, n, -, hle, k, hk, hlt, hlt', -⟩
  simp only [List.flatten_cons, List.flatten_nil, List.append_nil] at hle
  simp only [cutPoints, List.mem_cons, List.not_mem_nil, or_false, Nat.zero_add] at hk
  omega

/-- A run that does split a body never shows what its stream says. -/
theorem seen_feed_split {c : HttpConn} {chunks : List Bytes}
    (hlen : chunks.flatten.length < READ_BUFFER_SIZE) (hsplit : SplitsBody chunks) :
    seen (feed c.init chunks) ≠ (readHead {} 0 chunks.flatten).verdict := by
  obtain ⟨pos, n, hspan, hle, k, hk, hcut⟩ := hsplit
  obtain ⟨p, hr, hn, hsum⟩ := bodySpan_some hspan
  have h := feed_init c hlen
  rw [hr] at h
  obtain ⟨c', ds, he, hb, hp, hs, hk', hu, hl, hcuts⟩ := h
  have hcl : c'.contentLength = n := (congrArg Parser.contentLength hp).trans hn
  rw [hr, HeadResult.verdict, if_pos (by omega), he]
  intro heq
  have hget : (feedFrom c' ds).2 = .getRequest := congrArg Prod.fst heq
  have hidx : (feedFrom c' ds).1.checkedIdx = pos + p.contentLength :=
    congrArg (fun x => x.2.2) heq
  have := feedFrom_split hb (by omega) ((hcuts k hcut.1).mp hk)
    (by rw [hk', hcl, hu]; exact hcut) hget
  omega

/-- **Exactly the cuts inside a complete body break the parser.** -/
theorem fragmentation_iff (c : HttpConn) (chunks : List Bytes)
    (hlen : chunks.flatten.length < READ_BUFFER_SIZE) :
    c.Unfragmented chunks ↔ ¬ SplitsBody chunks := by
  have hone : seen (feed c.init [chunks.flatten]) = (readHead {} 0 chunks.flatten).verdict := by
    have hlen₁ : [chunks.flatten].flatten.length < READ_BUFFER_SIZE := by simpa using hlen
    simpa using seen_feed (c := c) hlen₁ (not_splitsBody_single _)
  constructor
  · intro h hsplit
    exact seen_feed_split hlen hsplit (h.same.trans hone)
  · intro hcuts
    have hseen := seen_feed (c := c) hlen hcuts
    refine ⟨hseen.trans hone.symm, fun h n hspan hle => ?_⟩
    obtain ⟨p, hr, hn, hsum⟩ := bodySpan_some hspan
    rw [hr, HeadResult.verdict, if_pos (by omega), hn] at hseen
    refine ⟨congrArg Prod.fst hseen, ?_, congrArg (fun x => x.2.2) hseen⟩
    exact congrArg (fun x => x.2.1.body) hseen

/-- A POST cut inside its head and right before its body. -/
def headCutPost : List Bytes :=
  [ascii "POST / HT", ascii "TP/1.1\r\nContent-Length: 2\r\n\r\n", ascii "ab"]

theorem fragmentation_iff_headCutPost :
    headCutPost.flatten.length < READ_BUFFER_SIZE ∧ ({} : HttpConn).Unfragmented headCutPost := by
  have hlen : headCutPost.flatten.length < READ_BUFFER_SIZE := by decide
  refine ⟨hlen, (fragmentation_iff {} headCutPost hlen).mpr ?_⟩
  rintro ⟨h, n, hspan, -, k, hk, hlt, hlt', -⟩
  have hbody : bodySpan headCutPost.flatten = some (38, 2) := by decide +kernel
  have hcuts : cutPoints 0 headCutPost = [0, 9, 38, 40] := by decide
  rw [hbody] at hspan
  rw [hcuts] at hk
  cases hspan
  simp only [List.mem_cons, List.not_mem_nil, or_false] at hk
  omega

/-- A POST whose two body bytes arrive one by one. -/
def bodyCutPost : List Bytes :=
  [ascii "POST / HTTP/1.1\r\nContent-Length: 2\r\n\r\na", ascii "b"]

theorem fragmentation_fails_bodyCutPost :
    ¬ ∀ (c : HttpConn) (chunks : List Bytes), (∀ d ∈ chunks, d ≠ []) →
      chunks.flatten.length < READ_BUFFER_SIZE → c.Unfragmented chunks := by
  intro hall
  have h := (hall {} bodyCutPost (by decide) (by decide)).same
  have hwhole : (feed ({} : HttpConn).init [bodyCutPost.flatten]).2 = .getRequest := by
    decide +kernel
  have hcut : (feed ({} : HttpConn).init bodyCutPost).2 = .noRequest := by decide +kernel
  have hcode := congrArg Prod.fst h
  simp only [seen, hwhole, hcut] at hcode
  cases hcode

end HttpConn
end Http
end UrlShortener
