import UrlShortener.Http.Conn

/-!
# UrlShortener.Http.Stream

What the incremental parser means on a byte stream, with no buffer and no cursors.

* `scanLine` cuts the first line off a stream, as `parse_line` does.
* `readHead` reads a request head line by line: it needs more bytes, meets a bad line, is refused
  by a line parser, ends a request without a body, or comes to a body.
* `bodyScan` is what `parse_line` does to the bytes of a body that has not fully arrived.

The results here are about lists only; `Http.Refine` ties them to `process_read`. The law that
carries the fragmentation results is `readHead_append`: bytes that arrive later extend whatever
the bytes before them left open.
-/

namespace UrlShortener
namespace Http

/-- The text before the first line end, and how the scan for it ended. -/
def scanLine : Bytes → Bytes × LineStatus
  | [] => ([], .lineOpen)
  | b :: bs =>
    if b = CR then
      match bs with
      | [] => ([], .lineOpen)
      | b' :: _ => if b' = LF then ([], .lineOk) else ([], .lineBad)
    else if b = LF then ([], .lineBad)
    else (b :: (scanLine bs).1, (scanLine bs).2)

/-- Bytes that neither end nor spoil a line. -/
def Clean (u : Bytes) : Prop := ∀ b ∈ u, b ≠ CR ∧ b ≠ LF

theorem Clean.nil : Clean [] := by intro b hb; cases hb

theorem Clean.append {u v : Bytes} (hu : Clean u) (hv : Clean v) : Clean (u ++ v) := by
  intro b hb
  rcases List.mem_append.mp hb with h | h
  · exact hu b h
  · exact hv b h

theorem Clean.of_cons {b : UInt8} {u : Bytes} (h : Clean (b :: u)) :
    b ≠ CR ∧ b ≠ LF ∧ Clean u :=
  ⟨(h b (by simp)).1, (h b (by simp)).2, fun x hx => h x (by simp [hx])⟩

/-- The text in front of a bad line end: a lone LF, or a CR without its LF. -/
def StartsBad : Bytes → Prop
  | [] => False
  | [b] => b = LF
  | b :: b' :: _ => b = LF ∨ b = CR ∧ b' ≠ LF

instance : DecidablePred StartsBad := fun u =>
  match u with
  | [] => isFalse id
  | [b] => inferInstanceAs (Decidable (b = LF))
  | b :: b' :: _ => inferInstanceAs (Decidable (b = LF ∨ b = CR ∧ b' ≠ LF))

theorem scanLine_append_clean {u : Bytes} (hu : Clean u) (v : Bytes) :
    scanLine (u ++ v) = (u ++ (scanLine v).1, (scanLine v).2) := by
  induction u with
  | nil => rfl
  | cons b bs ih =>
    obtain ⟨h1, h2, h3⟩ := hu.of_cons
    simp only [List.cons_append, scanLine, if_neg h1, if_neg h2, ih h3]

/-- What each outcome of the scan says about the stream. -/
theorem scanLine_spec (u : Bytes) :
    Clean (scanLine u).1 ∧
    match (scanLine u).2 with
    | .lineOk => ∃ rest, u = (scanLine u).1 ++ CR :: LF :: rest
    | .lineBad => ∃ rest, u = (scanLine u).1 ++ rest ∧ StartsBad rest
    | .lineOpen => u = (scanLine u).1 ∨ u = (scanLine u).1 ++ [CR] := by
  induction u with
  | nil => exact ⟨Clean.nil, Or.inl rfl⟩
  | cons b bs ih =>
    by_cases hb : b = CR
    · subst hb
      cases bs with
      | nil => exact ⟨Clean.nil, Or.inr rfl⟩
      | cons b' bs' =>
        by_cases hb' : b' = LF
        · subst hb'
          simp only [scanLine, if_true]
          exact ⟨Clean.nil, bs', rfl⟩
        · simp only [scanLine, if_true, if_neg hb']
          exact ⟨Clean.nil, CR :: b' :: bs', rfl, Or.inr ⟨rfl, hb'⟩⟩
    · by_cases hb2 : b = LF
      · subst hb2
        simp only [scanLine, if_neg hb, if_true]
        refine ⟨Clean.nil, LF :: bs, rfl, ?_⟩
        cases bs with
        | nil => rfl
        | cons _ _ => exact Or.inl rfl
      · obtain ⟨hc, hs⟩ := ih
        have hcl : Clean (b :: (scanLine bs).1) := by
          intro x hx
          rcases List.mem_cons.mp hx with rfl | hx
          · exact ⟨hb, hb2⟩
          · exact hc x hx
        simp only [scanLine, if_neg hb, if_neg hb2]
        refine ⟨hcl, ?_⟩
        cases hst : (scanLine bs).2 with
        | lineOk =>
          rw [hst] at hs
          obtain ⟨rest, hr⟩ := hs
          exact ⟨rest, by rw [List.cons_append, ← hr]⟩
        | lineBad =>
          rw [hst] at hs
          obtain ⟨rest, hr, hbad⟩ := hs
          exact ⟨rest, by rw [List.cons_append, ← hr], hbad⟩
        | lineOpen =>
          rw [hst] at hs
          rcases hs with hr | hr
          · exact Or.inl (by rw [← hr])
          · exact Or.inr (by rw [List.cons_append, ← hr])

theorem scanLine_clean (u : Bytes) : Clean (scanLine u).1 := (scanLine_spec u).1

theorem scanLine_ok {u line : Bytes} (h : scanLine u = (line, .lineOk)) :
    Clean line ∧ u = line ++ CR :: LF :: u.drop (line.length + 2) := by
  have hs := scanLine_spec u
  rw [h] at hs
  obtain ⟨hc, rest, hr⟩ := hs
  refine ⟨hc, ?_⟩
  have : u.drop (line.length + 2) = rest := by
    rw [hr, List.drop_append]
    simp
  rw [this]
  exact hr

theorem scanLine_bad {u pre : Bytes} (h : scanLine u = (pre, .lineBad)) :
    Clean pre ∧ u = pre ++ u.drop pre.length ∧ StartsBad (u.drop pre.length) := by
  have hs := scanLine_spec u
  rw [h] at hs
  obtain ⟨hc, rest, hr, hb⟩ := hs
  have e : u.drop pre.length = rest := by rw [hr, List.drop_left]
  rw [e]
  exact ⟨hc, hr, hb⟩

theorem scanLine_open {u pre : Bytes} (h : scanLine u = (pre, .lineOpen)) :
    Clean pre ∧ (u = pre ∨ u = pre ++ [CR]) := by
  have hs := scanLine_spec u
  rw [h] at hs
  exact hs

theorem scanLine_isPrefix (u : Bytes) : (scanLine u).1 <+: u := by
  have hs := (scanLine_spec u).2
  cases hst : (scanLine u).2 with
  | lineOk =>
    rw [hst] at hs
    obtain ⟨rest, hr⟩ := hs
    exact ⟨_, hr.symm⟩
  | lineBad =>
    rw [hst] at hs
    obtain ⟨rest, hr, _⟩ := hs
    exact ⟨_, hr.symm⟩
  | lineOpen =>
    rw [hst] at hs
    rcases hs with hr | hr
    · exact ⟨[], by rw [List.append_nil, ← hr]⟩
    · exact ⟨[CR], hr.symm⟩

theorem scanLine_take (u : Bytes) : u.take (scanLine u).1.length = (scanLine u).1 :=
  (List.prefix_iff_eq_take.mp (scanLine_isPrefix u)).symm

theorem scanLine_length_le (u : Bytes) : (scanLine u).1.length ≤ u.length :=
  (scanLine_isPrefix u).length_le

theorem scanLine_ok_length {u line : Bytes} (h : scanLine u = (line, .lineOk)) :
    line.length + 2 ≤ u.length := by
  have := congrArg List.length (scanLine_ok h).2
  simp only [List.length_append, List.length_cons] at this
  omega

theorem scanLine_line {line : Bytes} (h : Clean line) (rest : Bytes) :
    scanLine (line ++ CR :: LF :: rest) = (line, .lineOk) := by
  rw [scanLine_append_clean h]
  simp [scanLine]

theorem startsBad_append {u : Bytes} (h : StartsBad u) (d : Bytes) : StartsBad (u ++ d) := by
  match u, h with
  | [b], h =>
    subst h
    cases d with
    | nil => rfl
    | cons _ _ => exact Or.inl rfl
  | b :: b' :: _, h => exact h

theorem scanLine_startsBad {u : Bytes} (h : StartsBad u) : scanLine u = ([], .lineBad) := by
  match u, h with
  | [b], h => subst h; rfl
  | b :: b' :: _, h =>
    rcases h with rfl | ⟨rfl, hb'⟩
    · rfl
    · simp [scanLine, hb']

/-- A line that has ended, well or badly, is not changed by what follows it. -/
theorem scanLine_append_closed {u : Bytes} (h : (scanLine u).2 ≠ .lineOpen) (d : Bytes) :
    scanLine (u ++ d) = scanLine u := by
  have hs := scanLine_spec u
  cases hst : (scanLine u).2 with
  | lineOk =>
    rw [hst] at hs
    obtain ⟨hc, rest, hr⟩ := hs
    have e : scanLine u = ((scanLine u).1, .lineOk) := Prod.ext rfl hst
    rw [e]
    conv_lhs => rw [hr]
    rw [List.append_assoc]
    exact scanLine_line hc (rest ++ d)
  | lineBad =>
    rw [hst] at hs
    obtain ⟨hc, rest, hr, hb⟩ := hs
    have e : scanLine u = ((scanLine u).1, .lineBad) := Prod.ext rfl hst
    rw [e]
    conv_lhs => rw [hr]
    rw [List.append_assoc, scanLine_append_clean hc, scanLine_startsBad (startsBad_append hb d)]
    simp
  | lineOpen => exact absurd hst h

/-! ## Heads -/

namespace Parser

/-- One line of a head, with the code that ends `process_read` if there is one. -/
def step (p : Parser) (checkedIdx : Nat) (text : Bytes) : Parser × Option HttpCode :=
  match p.checkState with
  | .requestLine =>
    ((p.parseRequestLine text).1,
      if (p.parseRequestLine text).2 = .badRequest then some .badRequest else none)
  | .header =>
    ((p.parseHeaders checkedIdx text).1,
      match (p.parseHeaders checkedIdx text).2 with
      | .badRequest => some .badRequest
      | .requestEntityTooLarge => some .requestEntityTooLarge
      | .getRequest => some .getRequest
      | _ => none)
  | .content => (p, none)

end Parser

/-- How far a stream takes the parser. Each case holds the parser's fields, a stream position
and the bytes from there on. -/
inductive HeadResult where
  | more (p : Parser) (pos : Nat) (rest : Bytes)
  | badLine (p : Parser) (pos : Nat) (rest : Bytes)
  | ended (code : HttpCode) (p : Parser) (pos : Nat) (rest : Bytes)
  | body (p : Parser) (pos : Nat) (rest : Bytes)

namespace HeadResult

def parser : HeadResult → Parser
  | more p _ _ | badLine p _ _ | ended _ p _ _ | body p _ _ => p

def pos : HeadResult → Nat
  | more _ pos _ | badLine _ pos _ | ended _ _ pos _ | body _ pos _ => pos

def rest : HeadResult → Bytes
  | more _ _ rest | badLine _ _ rest | ended _ _ _ rest | body _ _ rest => rest

/-- The bytes after the result's position, with `d` arriving behind them. -/
def extend (d : Bytes) : HeadResult → HeadResult
  | more p pos rest => more p pos (rest ++ d)
  | badLine p pos rest => badLine p pos (rest ++ d)
  | ended code p pos rest => ended code p pos (rest ++ d)
  | body p pos rest => body p pos (rest ++ d)

end HeadResult

/-- Read a head from the line start at stream position `pos`. -/
def readHead (p : Parser) (pos : Nat) (u : Bytes) : HeadResult :=
  match _h : scanLine u with
  | (_, .lineOpen) => .more p pos u
  | (pre, .lineBad) => .badLine p (pos + pre.length) (u.drop pre.length)
  | (line, .lineOk) =>
    match p.step (pos + line.length + 2) (cString line) with
    | (p', some code) => .ended code p' (pos + line.length + 2) (u.drop (line.length + 2))
    | (p', none) =>
      if p'.checkState = .content then
        .body p' (pos + line.length + 2) (u.drop (line.length + 2))
      else readHead p' (pos + line.length + 2) (u.drop (line.length + 2))
termination_by u.length
decreasing_by
  have := scanLine_ok_length _h
  simp only [List.length_drop]
  omega

theorem readHead_open {p : Parser} {pos : Nat} {u pre : Bytes}
    (h : scanLine u = (pre, .lineOpen)) : readHead p pos u = .more p pos u := by
  rw [readHead]
  split <;> simp_all

theorem readHead_bad {p : Parser} {pos : Nat} {u pre : Bytes} (h : scanLine u = (pre, .lineBad)) :
    readHead p pos u = .badLine p (pos + pre.length) (u.drop pre.length) := by
  rw [readHead]
  split <;> simp_all

theorem readHead_ok {p : Parser} {pos : Nat} {u line : Bytes}
    (h : scanLine u = (line, .lineOk)) :
    readHead p pos u =
      match p.step (pos + line.length + 2) (cString line) with
      | (p', some code) => .ended code p' (pos + line.length + 2) (u.drop (line.length + 2))
      | (p', none) =>
        if p'.checkState = .content then
          .body p' (pos + line.length + 2) (u.drop (line.length + 2))
        else readHead p' (pos + line.length + 2) (u.drop (line.length + 2)) := by
  rw [readHead]
  split <;> simp_all

/-- Induction along the lines of a head. -/
theorem readHead_rec {motive : Parser → Nat → Bytes → HeadResult → Prop}
    (more : ∀ p pos u pre, scanLine u = (pre, .lineOpen) → motive p pos u (.more p pos u))
    (badLine : ∀ p pos u pre, scanLine u = (pre, .lineBad) →
      motive p pos u (.badLine p (pos + pre.length) (u.drop pre.length)))
    (ended : ∀ p pos u line p' code, scanLine u = (line, .lineOk) →
      p.step (pos + line.length + 2) (cString line) = (p', some code) →
      motive p pos u (.ended code p' (pos + line.length + 2) (u.drop (line.length + 2))))
    (body : ∀ p pos u line p', scanLine u = (line, .lineOk) →
      p.step (pos + line.length + 2) (cString line) = (p', none) → p'.checkState = .content →
      motive p pos u (.body p' (pos + line.length + 2) (u.drop (line.length + 2))))
    (next : ∀ p pos u line p', scanLine u = (line, .lineOk) →
      p.step (pos + line.length + 2) (cString line) = (p', none) → p'.checkState ≠ .content →
      motive p' (pos + line.length + 2) (u.drop (line.length + 2))
        (readHead p' (pos + line.length + 2) (u.drop (line.length + 2))) →
      motive p pos u (readHead p' (pos + line.length + 2) (u.drop (line.length + 2))))
    (p : Parser) (pos : Nat) (u : Bytes) : motive p pos u (readHead p pos u) := by
  induction hn : u.length using Nat.strongRecOn generalizing p pos u with
  | _ n ih =>
    rcases hs : scanLine u with ⟨pre, st⟩
    cases st with
    | lineOpen => rw [readHead_open hs]; exact more p pos u pre hs
    | lineBad => rw [readHead_bad hs]; exact badLine p pos u pre hs
    | lineOk =>
      have hle := scanLine_ok_length hs
      rw [readHead_ok hs]
      rcases hst : p.step (pos + pre.length + 2) (cString pre) with ⟨p', code⟩
      cases code with
      | some code => exact ended p pos u pre p' code hs hst
      | none =>
        by_cases hc : p'.checkState = .content
        · simp only [hc, if_true]
          exact body p pos u pre p' hs hst hc
        · simp only [hc, if_false]
          exact next p pos u pre p' hs hst hc
            (ih _ (by simp only [List.length_drop]; omega) p' _ _ rfl)

/-- A complete line is passed over the same way whatever comes behind the stream. -/
theorem readHead_line {p : Parser} {pos : Nat} {u line : Bytes}
    (hs : scanLine u = (line, .lineOk)) (d : Bytes) :
    readHead p pos (u ++ d) =
      match p.step (pos + line.length + 2) (cString line) with
      | (p', some code) =>
        .ended code p' (pos + line.length + 2) (u.drop (line.length + 2) ++ d)
      | (p', none) =>
        if p'.checkState = .content then
          .body p' (pos + line.length + 2) (u.drop (line.length + 2) ++ d)
        else readHead p' (pos + line.length + 2) (u.drop (line.length + 2) ++ d) := by
  have hs' : scanLine (u ++ d) = (line, .lineOk) := by
    rw [scanLine_append_closed (by rw [hs]; simp), hs]
  rw [readHead_ok hs', List.drop_append_of_le_length (scanLine_ok_length hs)]

/-- **Later bytes extend what earlier bytes left open.** -/
theorem readHead_append (p : Parser) (pos : Nat) (u d : Bytes) :
    readHead p pos (u ++ d) =
      match readHead p pos u with
      | .more p' pos' rest => readHead p' pos' (rest ++ d)
      | r => r.extend d := by
  refine readHead_rec (motive := fun p pos u r => readHead p pos (u ++ d) =
    match r with
    | .more p' pos' rest => readHead p' pos' (rest ++ d)
    | r => r.extend d) ?_ ?_ ?_ ?_ ?_ p pos u
  · intro p pos u pre _
    rfl
  · intro p pos u pre hs
    have hle := scanLine_length_le u
    rw [hs] at hle
    have hs' : scanLine (u ++ d) = (pre, .lineBad) := by
      rw [scanLine_append_closed (by rw [hs]; simp), hs]
    rw [readHead_bad hs', List.drop_append_of_le_length hle]
    rfl
  · intro p pos u line p' code hs hst
    rw [readHead_line hs d, hst]
    rfl
  · intro p pos u line p' hs hst hc
    rw [readHead_line hs d, hst]
    simp only [hc, if_true]
    rfl
  · intro p pos u line p' hs hst hc ih
    rw [readHead_line hs d, hst]
    simp only [hc, if_false]
    exact ih

/-- One line parser's codes: a refusal, or the end of the request. -/
theorem Parser.step_code {p : Parser} {i : Nat} {text : Bytes} {code : HttpCode}
    (h : (p.step i text).2 = some code) :
    code = .badRequest ∨ code = .requestEntityTooLarge ∨ code = .getRequest := by
  unfold Parser.step at h
  split at h
  · simp only at h
    split at h
    · cases h; exact Or.inl rfl
    · cases h
  · simp only at h
    split at h <;> cases h <;> simp
  · cases h

/-- Inside a head the parser is not in the content state, and its last line has not ended. -/
theorem readHead_more {p p' : Parser} {pos pos' : Nat} {u rest : Bytes}
    (hp : p.checkState ≠ .content) (h : readHead p pos u = .more p' pos' rest) :
    p'.checkState ≠ .content ∧ (scanLine rest).2 = .lineOpen := by
  revert hp h
  refine readHead_rec (motive := fun p _ _ r => p.checkState ≠ .content →
    r = .more p' pos' rest → p'.checkState ≠ .content ∧ (scanLine rest).2 = .lineOpen)
    ?_ ?_ ?_ ?_ ?_ p pos u
  · intro p pos u pre hs hp h
    cases h
    exact ⟨hp, by rw [hs]⟩
  · intro _ _ _ _ _ _ h; cases h
  · intro _ _ _ _ _ _ _ _ _ h; cases h
  · intro _ _ _ _ _ _ _ _ _ h; cases h
  · intro _ _ _ _ _ _ _ hc ih _ h
    exact ih hc h

theorem readHead_ended_code {p p' : Parser} {pos pos' : Nat} {u rest : Bytes} {code : HttpCode}
    (h : readHead p pos u = .ended code p' pos' rest) :
    code = .badRequest ∨ code = .requestEntityTooLarge ∨ code = .getRequest := by
  revert h
  refine readHead_rec (motive := fun _ _ _ r => r = .ended code p' pos' rest →
    code = .badRequest ∨ code = .requestEntityTooLarge ∨ code = .getRequest)
    ?_ ?_ ?_ ?_ ?_ p pos u
  · intro _ _ _ _ _ h; cases h
  · intro _ _ _ _ _ h; cases h
  · intro p pos u line p₁ code₁ _ hst h
    cases h
    exact Parser.step_code (by rw [hst])
  · intro _ _ _ _ _ _ _ _ h; cases h
  · intro _ _ _ _ _ _ _ _ ih h
    exact ih h

/-- A line that had not ended ends behind the bytes that were there. -/
theorem scanLine_open_append {u pre line d : Bytes} (h : scanLine u = (pre, .lineOpen))
    (h' : scanLine (u ++ d) = (line, .lineOk)) : u.length < line.length + 2 := by
  obtain ⟨hc, hu⟩ := scanLine_open h
  have hp : pre.length ≤ line.length := by
    rcases hu with hu | hu
    · rw [hu, scanLine_append_clean hc, Prod.mk.injEq] at h'
      rw [← h'.1, List.length_append]
      omega
    · rw [hu, List.append_assoc, scanLine_append_clean hc, Prod.mk.injEq] at h'
      rw [← h'.1, List.length_append]
      omega
  rcases hu with hu | hu <;> rw [hu]
  · omega
  · rw [List.length_append, List.length_singleton]
    omega

/-- Where a head result stands in the stream. -/
theorem readHead_pos (p : Parser) (pos : Nat) (u : Bytes) :
    pos ≤ (readHead p pos u).pos ∧
      (readHead p pos u).pos + (readHead p pos u).rest.length = pos + u.length := by
  refine readHead_rec (motive := fun _ pos u r => pos ≤ r.pos ∧
    r.pos + r.rest.length = pos + u.length) ?_ ?_ ?_ ?_ ?_ p pos u
  · intro p pos u pre _
    exact ⟨Nat.le_refl _, rfl⟩
  · intro p pos u pre hs
    have hle := scanLine_length_le u
    rw [hs] at hle
    simp only [HeadResult.pos, HeadResult.rest, List.length_drop] at hle ⊢
    omega
  · intro p pos u line p' code hs _
    have hle := scanLine_ok_length hs
    simp only [HeadResult.pos, HeadResult.rest, List.length_drop]
    omega
  · intro p pos u line p' hs _ _
    have hle := scanLine_ok_length hs
    simp only [HeadResult.pos, HeadResult.rest, List.length_drop]
    omega
  · intro p pos u line p' hs _ _ ih
    have hle := scanLine_ok_length hs
    simp only [List.length_drop] at ih
    omega

theorem readHead_rest (p : Parser) (pos : Nat) (u : Bytes) :
    (readHead p pos u).rest = u.drop ((readHead p pos u).pos - pos) := by
  refine readHead_rec (motive := fun _ pos u r => r.rest = u.drop (r.pos - pos))
    ?_ ?_ ?_ ?_ ?_ p pos u
  · intro p pos u pre _
    simp only [HeadResult.rest, HeadResult.pos, Nat.sub_self, List.drop_zero]
  · intro p pos u pre _
    simp only [HeadResult.rest, HeadResult.pos, Nat.add_sub_cancel_left]
  · intro p pos u line p' code _ _
    simp only [HeadResult.rest, HeadResult.pos, Nat.add_assoc, Nat.add_sub_cancel_left]
  · intro p pos u line p' _ _ _
    simp only [HeadResult.rest, HeadResult.pos, Nat.add_assoc, Nat.add_sub_cancel_left]
  · intro p pos u line p' hs _ _ ih
    have hle := (readHead_pos p' (pos + line.length + 2) (u.drop (line.length + 2))).1
    rw [ih, List.drop_drop]
    congr 1
    omega

/-- A head that stops at a bad line end stops right in front of it. -/
theorem readHead_badLine {p p' : Parser} {pos pos' : Nat} {u rest : Bytes}
    (h : readHead p pos u = .badLine p' pos' rest) : StartsBad rest := by
  revert h
  refine readHead_rec (motive := fun _ _ _ r => r = .badLine p' pos' rest → StartsBad rest)
    ?_ ?_ ?_ ?_ ?_ p pos u
  · intro _ _ _ _ _ h
    cases h
  · intro _ _ _ _ hs h
    cases h
    exact (scanLine_bad hs).2.2
  · intro _ _ _ _ _ _ _ _ h
    cases h
  · intro _ _ _ _ _ _ _ _ h
    cases h
  · intro _ _ _ _ _ _ _ _ ih h
    exact ih h

/-- A head result that consumed nothing left the parser alone. -/
theorem readHead_start {p : Parser} {pos : Nat} {u : Bytes}
    (h : (readHead p pos u).pos < pos + 2) :
    readHead p pos u = .more p pos u ∨
      ∃ pos' rest, readHead p pos u = .badLine p pos' rest := by
  rcases hs : scanLine u with ⟨pre, st⟩
  cases st with
  | lineOpen => exact Or.inl (readHead_open hs)
  | lineBad => exact Or.inr ⟨_, _, readHead_bad hs⟩
  | lineOk =>
    rw [readHead_ok hs] at h
    split at h
    · simp only [HeadResult.pos] at h
      omega
    · split at h
      · simp only [HeadResult.pos] at h
        omega
      · rename_i p' _ _
        have := (readHead_pos p' (pos + pre.length + 2) (u.drop (pre.length + 2))).1
        omega

/-- A head that wanted more bytes stops behind the bytes that were there, unless it still wants
more or its current line turns bad. -/
theorem readHead_more_body {p p' p₁ : Parser} {pos h pos₁ : Nat} {u d rest rest₁ : Bytes}
    (hp : p.checkState ≠ .content) (hm : readHead p pos u = .more p₁ pos₁ rest₁)
    (hb : readHead p pos (u ++ d) = .body p' h rest) :
    pos + u.length < h := by
  rw [readHead_append, hm] at hb
  simp only at hb
  have hpos := readHead_pos p pos u
  rw [hm] at hpos
  simp only [HeadResult.pos, HeadResult.rest] at hpos
  have hopen : (scanLine rest₁).2 = .lineOpen := (readHead_more hp hm).2
  rcases hs : scanLine (rest₁ ++ d) with ⟨line, st⟩
  cases st with
  | lineOpen => rw [readHead_open hs] at hb; cases hb
  | lineBad => rw [readHead_bad hs] at hb; cases hb
  | lineOk =>
    have hlt := scanLine_open_append (Prod.ext rfl hopen : scanLine rest₁ = (_, .lineOpen)) hs
    rw [readHead_ok hs] at hb
    rcases hst : p₁.step (pos₁ + line.length + 2) (cString line) with ⟨p₂, code⟩
    rw [hst] at hb
    cases code with
    | some code => cases hb
    | none =>
      simp only at hb
      split at hb
      · cases hb
        omega
      · have := (readHead_pos p₂ (pos₁ + line.length + 2) ((rest₁ ++ d).drop (line.length + 2))).1
        rw [hb] at this
        simp only [HeadResult.pos] at this
        omega

/-! ## Bodies -/

/-- `parse_line` called again and again over body bytes: how far it gets, and whether it meets a
bad line end. -/
def bodyScan : Bytes → Nat × LineStatus
  | [] => (0, .lineOpen)
  | b :: bs =>
    if b = CR then
      match bs with
      | [] => (0, .lineOpen)
      | b' :: bs' =>
        if b' = LF then ((bodyScan bs').1 + 2, (bodyScan bs').2) else (0, .lineBad)
    else if b = LF then (0, .lineBad)
    else ((bodyScan bs).1 + 1, (bodyScan bs).2)

theorem bodyScan_append_clean {u : Bytes} (hu : Clean u) (v : Bytes) :
    bodyScan (u ++ v) = ((bodyScan v).1 + u.length, (bodyScan v).2) := by
  induction u with
  | nil => rfl
  | cons b bs ih =>
    obtain ⟨h1, h2, h3⟩ := hu.of_cons
    rw [List.cons_append, bodyScan.eq_def]
    simp only [if_neg h1, if_neg h2, ih h3, List.length_cons, Prod.mk.injEq, and_true]
    omega

/-- `bodyScan` follows the lines of the stream. -/
theorem bodyScan_eq (u : Bytes) :
    bodyScan u =
      match scanLine u with
      | (line, .lineOk) =>
        ((bodyScan (u.drop (line.length + 2))).1 + (line.length + 2),
          (bodyScan (u.drop (line.length + 2))).2)
      | (pre, st) => (pre.length, st) := by
  rcases hs : scanLine u with ⟨pre, st⟩
  cases st with
  | lineOk =>
    obtain ⟨hc, hu⟩ := scanLine_ok hs
    conv_lhs => rw [hu]
    rw [bodyScan_append_clean hc]
    simp only [bodyScan, if_true, Prod.mk.injEq, and_true]
    omega
  | lineBad =>
    obtain ⟨hc, hu, hb⟩ := scanLine_bad hs
    conv_lhs => rw [hu]
    rw [bodyScan_append_clean hc]
    generalize u.drop pre.length = v at hb
    match v, hb with
    | [b], h => subst h; simp [bodyScan, LF, CR]
    | b :: b' :: _, h =>
      rcases h with rfl | ⟨rfl, hb'⟩
      · simp [bodyScan, LF, CR]
      · simp [bodyScan, hb']
  | lineOpen =>
    obtain ⟨hc, hu⟩ := scanLine_open hs
    rcases hu with hu | hu
    · have := bodyScan_append_clean hc []
      rw [List.append_nil, ← hu] at this
      rw [this, hu]
      simp [bodyScan]
    · conv_lhs => rw [hu]
      rw [bodyScan_append_clean hc]
      simp [bodyScan]

theorem bodyScan_le (u : Bytes) : (bodyScan u).1 ≤ u.length := by
  induction hn : u.length using Nat.strongRecOn generalizing u with
  | _ n ih =>
    rw [bodyScan_eq]
    rcases hs : scanLine u with ⟨pre, st⟩
    have hle := scanLine_length_le u
    rw [hs] at hle
    cases st with
    | lineOk =>
      have h2 := scanLine_ok_length hs
      have := ih _ (by simp only [List.length_drop]; omega) (u.drop (pre.length + 2)) rfl
      simp only [List.length_drop] at this ⊢
      omega
    | lineBad => simpa [← hn] using hle
    | lineOpen => simpa [← hn] using hle

theorem bodyScan_ne_ok (u : Bytes) : (bodyScan u).2 ≠ .lineOk := by
  induction hn : u.length using Nat.strongRecOn generalizing u with
  | _ n ih =>
    rw [bodyScan_eq]
    rcases hs : scanLine u with ⟨pre, st⟩
    cases st with
    | lineOk =>
      have h2 := scanLine_ok_length hs
      exact ih _ (by simp only [List.length_drop]; omega) (u.drop (pre.length + 2)) rfl
    | lineBad => simp
    | lineOpen => simp

/-- A scan that ran out of bytes stopped at the end, or at a CR that is the last byte. -/
theorem bodyScan_open_rest {u : Bytes} (h : (bodyScan u).2 = .lineOpen) :
    u.drop (bodyScan u).1 = [] ∨ u.drop (bodyScan u).1 = [CR] := by
  induction hn : u.length using Nat.strongRecOn generalizing u with
  | _ n ih =>
    rw [bodyScan_eq] at h ⊢
    rcases hs : scanLine u with ⟨pre, st⟩
    rw [hs] at h
    cases st with
    | lineOk =>
      have h2 := scanLine_ok_length hs
      have := ih _ (by simp only [List.length_drop]; omega) (u := u.drop (pre.length + 2)) h rfl
      simpa only [List.drop_drop, Nat.add_comm] using this
    | lineBad => cases h
    | lineOpen =>
      obtain ⟨_, hu⟩ := scanLine_open hs
      rcases hu with hu | hu
      · left; rw [hu]; simp
      · right; rw [hu]; simp

theorem bodyScan_bad_rest {u : Bytes} (h : (bodyScan u).2 = .lineBad) :
    StartsBad (u.drop (bodyScan u).1) := by
  induction hn : u.length using Nat.strongRecOn generalizing u with
  | _ n ih =>
    rw [bodyScan_eq] at h ⊢
    rcases hs : scanLine u with ⟨pre, st⟩
    rw [hs] at h
    cases st with
    | lineOk =>
      have h2 := scanLine_ok_length hs
      have := ih _ (by simp only [List.length_drop]; omega) (u := u.drop (pre.length + 2)) h rfl
      simpa only [List.drop_drop, Nat.add_comm] using this
    | lineBad => exact (scanLine_bad hs).2.2
    | lineOpen => cases h

/-- **Scanning a body piece by piece is scanning it in one go.** -/
theorem bodyScan_append (u d : Bytes) :
    bodyScan (u ++ d) =
      match bodyScan u with
      | (k, .lineOpen) =>
        ((bodyScan (u.drop k ++ d)).1 + k, (bodyScan (u.drop k ++ d)).2)
      | r => r := by
  induction hn : u.length using Nat.strongRecOn generalizing u with
  | _ n ih =>
    rcases hs : scanLine u with ⟨pre, st⟩
    cases st with
    | lineOk =>
      have hle := scanLine_ok_length hs
      have hs' : scanLine (u ++ d) = (pre, .lineOk) := by
        rw [scanLine_append_closed (by rw [hs]; simp), hs]
      have ih' := ih _ (by simp only [List.length_drop]; omega) (u.drop (pre.length + 2)) rfl
      rw [bodyScan_eq (u ++ d), hs', bodyScan_eq u, hs]
      simp only
      rw [List.drop_append_of_le_length hle, ih']
      rcases hb : bodyScan (u.drop (pre.length + 2)) with ⟨k, st⟩
      cases st with
      | lineOpen =>
        have e : u.drop (k + (pre.length + 2)) = (u.drop (pre.length + 2)).drop k := by
          rw [List.drop_drop, Nat.add_comm]
        simp only [e, Prod.mk.injEq, and_true]
        omega
      | lineBad => rfl
      | lineOk => rfl
    | lineBad =>
      have hs' : scanLine (u ++ d) = (pre, .lineBad) := by
        rw [scanLine_append_closed (by rw [hs]; simp), hs]
      rw [bodyScan_eq (u ++ d), hs', bodyScan_eq u, hs]
    | lineOpen =>
      obtain ⟨hc, hu⟩ := scanLine_open hs
      rw [bodyScan_eq u, hs]
      have e : u = pre ++ u.drop pre.length := by
        rcases hu with hu | hu <;> rw [hu] <;> simp
      simp only
      conv_lhs => rw [e, List.append_assoc]
      rw [bodyScan_append_clean hc]

end Http
end UrlShortener
