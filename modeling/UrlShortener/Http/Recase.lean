import UrlShortener.Http.FieldLines

/-!
# UrlShortener.Http.Recase

Two streams that differ in the letter case of header field names only, and what the parser makes of
them.

`parse_headers` compares the names it knows without regard to case, so the two parsers go the same
way (`readHead_alike`). They may end with different header maps: the other names are keys as they
were spelled. What such a key holds is `lastSpelled` of the header lines.
-/

namespace UrlShortener
namespace Http

/-! ## Lines -/

namespace Parser

/-- Case decides nothing but the key. -/
theorem parseField_alike (p : Parser) (h : StrMap Bytes) {name name' : Bytes}
    (hcase : lower name = lower name') (value : Bytes) :
    ∃ h', (p.withHeaders h).parseField name' value =
      ((p.parseField name value).1.withHeaders h', (p.parseField name value).2) := by
  have same : ∀ lit, strcasecmp name' lit = strcasecmp name lit := by
    intro lit
    rw [strcasecmp, strcasecmp, hcase]
  unfold parseField
  rw [same, same, same, same, same]
  split
  · refine ⟨h.insert (ascii "Connection") value, ?_⟩
    split
    · rfl
    · split
      · rfl
      · rfl
  · split
    · cases parseContentLength value with
      | none => exact ⟨h, rfl⟩
      | some length =>
        simp only
        split
        · exact ⟨h, rfl⟩
        · exact ⟨h.insert (ascii "Content-Length") value, rfl⟩
    · split
      · exact ⟨h, rfl⟩
      · split
        · exact ⟨h.insert (ascii "Host") value, rfl⟩
        · exact ⟨h.insert name' value, rfl⟩

/-- Any line, whatever the headers are. -/
theorem parseHeaders_withHeaders (p : Parser) (h : StrMap Bytes) (i : Nat) (text : Bytes) :
    ∃ h', (p.withHeaders h).parseHeaders i text =
      ((p.parseHeaders i text).1.withHeaders h', (p.parseHeaders i text).2) := by
  by_cases hnil : text = []
  · refine ⟨h, ?_⟩
    unfold parseHeaders
    rw [if_pos hnil, if_pos hnil, withHeaders_contentLength]
    split
    · split
      · rfl
      · rfl
    · rfl
  · cases hchr : strchr text COLON with
    | some k =>
      obtain ⟨name, v, rfl, -, hname⟩ := strchr_some hchr
      rw [parseHeaders_field _ i hname, parseHeaders_field _ i hname]
      exact parseField_alike p h rfl _
    | none =>
      refine ⟨h, ?_⟩
      rw [parseHeaders_noColon _ i hnil hchr, parseHeaders_noColon _ i hnil hchr]

theorem step_withHeaders (p : Parser) (h : StrMap Bytes) (i : Nat) (text : Bytes) :
    ∃ h', (p.withHeaders h).step i text = ((p.step i text).1.withHeaders h', (p.step i text).2) := by
  unfold step
  rw [withHeaders_checkState]
  cases p.checkState with
  | requestLine =>
    refine ⟨h, ?_⟩
    simp only [parseRequestLine_withHeaders]
  | header =>
    obtain ⟨h', hp⟩ := p.parseHeaders_withHeaders h i text
    refine ⟨h', ?_⟩
    simp only [hp]
  | content => exact ⟨h, rfl⟩

end Parser

/-! ## Streams that differ in case -/

/-- From a header line on: the same bytes, but for the case of field names before the empty line. -/
inductive SameFields : Bytes → Bytes → Prop
  | same (u : Bytes) : SameFields u u
  | kept {line u v : Bytes} (hclean : Clean line) (htext : cString line ≠ []) (h : SameFields u v) :
      SameFields (line ++ CR :: LF :: u) (line ++ CR :: LF :: v)
  | recased {name name' value u v : Bytes} (hname : COLON ∉ name ∧ NUL ∉ name)
      (hclean : Clean (name ++ COLON :: value)) (hcase : lower name = lower name')
      (h : SameFields u v) :
      SameFields ((name ++ COLON :: value) ++ CR :: LF :: u) ((name' ++ COLON :: value) ++ CR :: LF :: v)

/-- Requests with the same request line, the same header fields and the same body, but for the case
of the field names. -/
inductive SameButCase : Bytes → Bytes → Prop
  | same (u : Bytes) : SameButCase u u
  | fields {line u v : Bytes} (hclean : Clean line) (h : SameFields u v) :
      SameButCase (line ++ CR :: LF :: u) (line ++ CR :: LF :: v)

/-- What is left of such streams, by the state of the parser. -/
def Differ : CheckState → Bytes → Bytes → Prop
  | .requestLine, u, v => SameButCase u v
  | .header, u, v => SameFields u v
  | .content, u, v => u = v

theorem Clean.of_lower {a b : Bytes} (h : lower a = lower b) (ha : Clean a) : Clean b := by
  intro c hc
  constructor
  · rintro rfl
    exact (ha _ (mem_of_lower_eq (by decide) (by decide) h hc)).1 rfl
  · rintro rfl
    exact (ha _ (mem_of_lower_eq (by decide) (by decide) h hc)).2 rfl

theorem SameFields.lower {u v : Bytes} (h : SameFields u v) : lower u = lower v := by
  have behind : ∀ {a b : Bytes}, UrlShortener.lower a = UrlShortener.lower b →
      UrlShortener.lower (CR :: LF :: a) = UrlShortener.lower (CR :: LF :: b) := by
    intro a b hab
    exact congrArg (fun x => tolower CR :: tolower LF :: x) hab
  induction h with
  | same u => rfl
  | kept _ _ _ ih => rw [lower_append, lower_append, behind ih]
  | recased _ _ hcase _ ih =>
    rw [lower_append, lower_append, lower_append, lower_append, hcase, behind ih]

theorem SameButCase.lower {u v : Bytes} (h : SameButCase u v) : lower u = lower v := by
  cases h with
  | same u => rfl
  | fields _ h =>
    rw [lower_append, lower_append]
    exact congrArg (_ ++ tolower CR :: tolower LF :: ·) h.lower

theorem Differ.lower {st : CheckState} {u v : Bytes} (h : Differ st u v) : lower u = lower v := by
  cases st with
  | requestLine => exact SameButCase.lower h
  | header => exact SameFields.lower h
  | content => exact congrArg UrlShortener.lower h

/-- Line ends stand at the same places. -/
theorem scanLine_alike {u v : Bytes} (h : lower u = lower v) :
    (scanLine u).2 = (scanLine v).2 ∧ (scanLine u).1.length = (scanLine v).1.length := by
  have same : ∀ {b b' c : UInt8}, ¬ (65 ≤ c ∧ c ≤ 90) → ¬ (97 ≤ c ∧ c ≤ 122) →
      tolower b = tolower b' → (b = c ↔ b' = c) := by
    intro b b' c hupper hlower hb
    rw [← tolower_eq_iff hupper hlower, hb, tolower_eq_iff hupper hlower]
  induction u generalizing v with
  | nil =>
    cases v with
    | nil => exact ⟨rfl, rfl⟩
    | cons b v => cases h
  | cons b u ih =>
    cases v with
    | nil => cases h
    | cons b' v =>
      obtain ⟨hb, htail⟩ := List.cons.inj h
      have hcr : b = CR ↔ b' = CR := same (by decide) (by decide) hb
      have hlf : b = LF ↔ b' = LF := same (by decide) (by decide) hb
      by_cases hc : b = CR
      · obtain rfl : b' = CR := hcr.mp hc
        subst hc
        cases u with
        | nil =>
          cases v with
          | nil => exact ⟨rfl, rfl⟩
          | cons x v => cases htail
        | cons x u =>
          cases v with
          | nil => cases htail
          | cons x' v =>
            have hx : x = LF ↔ x' = LF := same (by decide) (by decide) (List.cons.inj htail).1
            simp only [scanLine, if_true]
            by_cases hl : x = LF
            · rw [if_pos hl, if_pos (hx.mp hl)]
              exact ⟨rfl, rfl⟩
            · rw [if_neg hl, if_neg fun h => hl (hx.mpr h)]
              exact ⟨rfl, rfl⟩
      · have hc' : ¬ b' = CR := fun h => hc (hcr.mpr h)
        by_cases hl : b = LF
        · simp only [scanLine, if_neg hc, if_neg hc', if_pos hl, if_pos (hlf.mp hl)]
          exact ⟨trivial, trivial⟩
        · have hl' : ¬ b' = LF := fun h => hl (hlf.mpr h)
          obtain ⟨hst, hlen⟩ := ih htail
          simp only [scanLine, if_neg hc, if_neg hc', if_neg hl, if_neg hl']
          exact ⟨hst, congrArg Nat.succ hlen⟩

theorem crlf_inj {a b u v : Bytes} (ha : Clean a) (hb : Clean b)
    (h : a ++ CR :: LF :: u = b ++ CR :: LF :: v) : a = b ∧ u = v := by
  have hline := scanLine_line ha u
  rw [h, scanLine_line hb v] at hline
  obtain rfl := congrArg Prod.fst hline
  exact ⟨rfl, by simpa using h⟩

/-! ## Line by line -/

/-- The same line, or the same but for the case of its field name. -/
inductive LineAlike : Bytes → Bytes → Prop
  | same (line : Bytes) : LineAlike line line
  | recased {name name' value : Bytes} (hname : COLON ∉ name ∧ NUL ∉ name)
      (hcase : lower name = lower name') : LineAlike (name ++ COLON :: value) (name' ++ COLON :: value)

theorem cString_field {name : Bytes} (hname : NUL ∉ name) (value : Bytes) :
    cString (name ++ COLON :: value) = name ++ COLON :: cString value := by
  have hall : ∀ b ∈ name, decide (b ≠ NUL) = true := by
    intro b hb
    exact decide_eq_true fun h => hname (h ▸ hb)
  rw [cString, List.takeWhile_append_of_pos hall, List.takeWhile_cons_of_pos (by decide)]
  rfl

theorem SameFields.line {line line' u v : Bytes} (hl : Clean line) (hl' : Clean line')
    (h : SameFields (line ++ CR :: LF :: u) (line' ++ CR :: LF :: v)) :
    LineAlike line line' ∧ SameFields u v ∧ (cString line = [] → line = line' ∧ u = v) := by
  generalize hx : line ++ CR :: LF :: u = x at h
  generalize hy : line' ++ CR :: LF :: v = y at h
  cases h with
  | same =>
    obtain ⟨rfl, rfl⟩ := crlf_inj hl hl' (hx.trans hy.symm)
    exact ⟨.same _, .same _, fun _ => ⟨rfl, rfl⟩⟩
  | kept hclean htext h =>
    obtain ⟨rfl, rfl⟩ := crlf_inj hl hclean hx
    obtain ⟨rfl, rfl⟩ := crlf_inj hl' hl hy
    exact ⟨.same _, h, fun hnil => absurd hnil htext⟩
  | @recased name name' value a b hname hclean hcase h =>
    obtain ⟨rfl, rfl⟩ := crlf_inj hl hclean hx
    have hclean' : Clean (name' ++ COLON :: value) := by
      refine hclean.of_lower ?_
      rw [lower_append, lower_append, hcase]
    obtain ⟨rfl, rfl⟩ := crlf_inj hl' hclean' hy
    refine ⟨.recased hname hcase, h, ?_⟩
    intro hnil
    rw [cString_field hname.2] at hnil
    simp at hnil

theorem SameButCase.line {line line' u v : Bytes} (hl : Clean line) (hl' : Clean line')
    (h : SameButCase (line ++ CR :: LF :: u) (line' ++ CR :: LF :: v)) :
    line = line' ∧ SameFields u v := by
  generalize hx : line ++ CR :: LF :: u = x at h
  generalize hy : line' ++ CR :: LF :: v = y at h
  cases h with
  | same =>
    obtain ⟨rfl, rfl⟩ := crlf_inj hl hl' (hx.trans hy.symm)
    exact ⟨rfl, .same _⟩
  | fields hclean h =>
    obtain ⟨rfl, rfl⟩ := crlf_inj hl hclean hx
    obtain ⟨rfl, rfl⟩ := crlf_inj hl' hl hy
    exact ⟨rfl, h⟩

/-- Alike header lines are taken alike. -/
theorem Parser.parseHeaders_alike (p : Parser) (h : StrMap Bytes) (i : Nat) {line line' : Bytes}
    (hline : LineAlike line line') :
    ∃ h', (p.withHeaders h).parseHeaders i (cString line') =
      ((p.parseHeaders i (cString line)).1.withHeaders h',
        (p.parseHeaders i (cString line)).2) := by
  cases hline with
  | same => exact p.parseHeaders_withHeaders h i _
  | recased hname hcase =>
    have hcolon : COLON ∉ _ := fun hin => hname.1 (mem_of_lower_eq (by decide) (by decide) hcase hin)
    have hnul : NUL ∉ _ := fun hin => hname.2 (mem_of_lower_eq (by decide) (by decide) hcase hin)
    rw [cString_field hname.2, cString_field hnul, parseHeaders_field _ i hname.1,
      parseHeaders_field _ i hcolon]
    exact p.parseField_alike h hcase _

/-- One line of two streams that differ in case. -/
theorem Differ.step {p : Parser} {line line' u v : Bytes} (hp : p.checkState ≠ .content)
    (hl : Clean line) (hl' : Clean line')
    (h : Differ p.checkState (line ++ CR :: LF :: u) (line' ++ CR :: LF :: v)) (headers : StrMap Bytes)
    (i : Nat) :
    (∃ headers', (p.withHeaders headers).step i (cString line') =
      ((p.step i (cString line)).1.withHeaders headers', (p.step i (cString line)).2)) ∧
    ((p.step i (cString line)).2 = none → Differ (p.step i (cString line)).1.checkState u v) := by
  cases hst : p.checkState with
  | requestLine =>
    rw [hst] at h
    obtain ⟨rfl, hrest⟩ := SameButCase.line hl hl' h
    refine ⟨p.step_withHeaders headers i _, ?_⟩
    intro hnone
    rcases hline : p.parseRequestLine (cString line) with ⟨p₁, code⟩
    simp only [Parser.step, hst, hline] at hnone ⊢
    have hcode : code ≠ .badRequest := by
      rintro rfl
      cases hnone
    rw [(parseRequestLine_passed hline hcode).2.1]
    exact hrest
  | header =>
    rw [hst] at h
    obtain ⟨hline, hrest, hnil⟩ := SameFields.line hl hl' h
    constructor
    · obtain ⟨headers', hp'⟩ := p.parseHeaders_alike headers i hline
      refine ⟨headers', ?_⟩
      simp only [Parser.step, Parser.withHeaders_checkState, hst, hp']
    · intro hnone
      have hret := (step_header hst (Prod.ext rfl hnone : p.step i (cString line) =
        ((p.step i (cString line)).1, none))).1 rfl
      by_cases htext : cString line = []
      · obtain ⟨-, rfl⟩ := hnil htext
        rw [htext] at hret ⊢
        have hcontent := (parseHeaders_nil (p := p) (i := i)).2.2.1
        rw [hret] at hcontent
        rw [hcontent rfl]
        rfl
      · rw [(parseHeaders_passed htext hret).2.2.2.1, hst]
        exact hrest
  | content => exact absurd hst hp

/-! ## Heads -/

/-- The same result, the headers and the bytes that are left apart; with `R` and `R'` still to come,
what is left differs in case only. -/
inductive HeadResult.Alike (R R' : Bytes) : HeadResult → HeadResult → Prop
  | more {p : Parser} {h : StrMap Bytes} {pos : Nat} {rest rest' : Bytes}
      (hlen : rest.length = rest'.length) (hdiffer : Differ p.checkState (rest ++ R) (rest' ++ R')) :
      Alike R R' (.more p pos rest) (.more (p.withHeaders h) pos rest')
  | badLine {p : Parser} {h : StrMap Bytes} {pos : Nat} {rest rest' : Bytes} :
      Alike R R' (.badLine p pos rest) (.badLine (p.withHeaders h) pos rest')
  | ended {code : HttpCode} {p : Parser} {h : StrMap Bytes} {pos : Nat} {rest rest' : Bytes} :
      Alike R R' (.ended code p pos rest) (.ended code (p.withHeaders h) pos rest')
  | body {p : Parser} {h : StrMap Bytes} {pos : Nat} {rest : Bytes} (hrest : R = R') :
      Alike R R' (.body p pos rest) (.body (p.withHeaders h) pos rest)

/-- **Heads that differ in case are read alike.** -/
theorem readHead_alike {R R' : Bytes} (p : Parser) (pos : Nat) (u : Bytes) (h : StrMap Bytes)
    {u' : Bytes} (hlen : u.length = u'.length) (hp : p.checkState ≠ .content)
    (hdiffer : Differ p.checkState (u ++ R) (u' ++ R')) :
    (readHead p pos u).Alike R R' (readHead (p.withHeaders h) pos u') := by
  revert h u' hlen hp hdiffer
  have lowers : ∀ {st : CheckState} {u u' : Bytes}, u.length = u'.length →
      Differ st (u ++ R) (u' ++ R') → lower u = lower u' := by
    intro st u u' hlen hdiffer
    have hall := hdiffer.lower
    rw [lower_append, lower_append] at hall
    exact (List.append_inj hall (by simpa using hlen)).1
  -- a line of the one stream ends where the same line of the other does
  have ends : ∀ {st : CheckState} {u u' line : Bytes}, u.length = u'.length →
      Differ st (u ++ R) (u' ++ R') → scanLine u = (line, .lineOk) → ∃ line',
        scanLine u' = (line', .lineOk) ∧ line.length = line'.length ∧
          (u.drop (line.length + 2)).length = (u'.drop (line.length + 2)).length ∧
          Differ st (line ++ CR :: LF :: (u.drop (line.length + 2) ++ R))
            (line' ++ CR :: LF :: (u'.drop (line.length + 2) ++ R')) := by
    intro st u u' line hlen hdiffer hs
    obtain ⟨hstatus, hlength⟩ := scanLine_alike (lowers hlen hdiffer)
    rw [hs] at hstatus hlength
    have hs' : scanLine u' = ((scanLine u').1, .lineOk) := Prod.ext rfl hstatus.symm
    refine ⟨_, hs', hlength, by rw [List.length_drop, List.length_drop, hlen], ?_⟩
    have e := (scanLine_ok hs).2
    have e' := (scanLine_ok hs').2
    simp only at hlength
    rw [← hlength] at e'
    rw [e, e'] at hdiffer
    simpa only [List.append_assoc, List.cons_append] using hdiffer
  refine readHead_rec (motive := fun p pos u r => ∀ (h : StrMap Bytes) {u' : Bytes},
    u.length = u'.length → p.checkState ≠ .content → Differ p.checkState (u ++ R) (u' ++ R') →
      r.Alike R R' (readHead (p.withHeaders h) pos u')) ?_ ?_ ?_ ?_ ?_ p pos u
  · intro p pos u pre hs h u' hlen hp hdiffer
    obtain ⟨hstatus, -⟩ := scanLine_alike (lowers hlen hdiffer)
    rw [hs] at hstatus
    rw [readHead_open (Prod.ext rfl hstatus.symm : scanLine u' = ((scanLine u').1, .lineOpen))]
    exact .more hlen hdiffer
  · intro p pos u pre hs h u' hlen hp hdiffer
    obtain ⟨hstatus, hlength⟩ := scanLine_alike (lowers hlen hdiffer)
    rw [hs] at hstatus hlength
    rw [readHead_bad (Prod.ext rfl hstatus.symm : scanLine u' = ((scanLine u').1, .lineBad)), ← hlength]
    exact .badLine
  · intro p pos u line p₁ code hs hst h u' hlen hp hdiffer
    obtain ⟨line', hs', hlength, -, hlines⟩ := ends hlen hdiffer hs
    obtain ⟨⟨h', hstep⟩, -⟩ := hlines.step hp (scanLine_ok hs).1 (scanLine_ok hs').1 h
      (pos + line.length + 2)
    rw [hst] at hstep
    rw [readHead_ok hs', ← hlength, hstep]
    exact .ended
  · intro p pos u line p₁ hs hst hc h u' hlen hp hdiffer
    obtain ⟨line', hs', hlength, hdrop, hlines⟩ := ends hlen hdiffer hs
    obtain ⟨⟨h', hstep⟩, hnext⟩ := hlines.step hp (scanLine_ok hs).1 (scanLine_ok hs').1 h
      (pos + line.length + 2)
    rw [hst] at hstep hnext
    have hrest := hnext rfl
    simp only [hc] at hrest
    obtain ⟨hu, hR⟩ := List.append_inj hrest hdrop
    rw [readHead_ok hs', ← hlength, hstep]
    simp only [Parser.withHeaders_checkState, hc, if_true]
    rw [← hu]
    exact .body hR
  · intro p pos u line p₁ hs hst hc ih h u' hlen hp hdiffer
    obtain ⟨line', hs', hlength, hdrop, hlines⟩ := ends hlen hdiffer hs
    obtain ⟨⟨h', hstep⟩, hnext⟩ := hlines.step hp (scanLine_ok hs).1 (scanLine_ok hs').1 h
      (pos + line.length + 2)
    rw [hst] at hstep hnext
    rw [readHead_ok hs', ← hlength, hstep]
    simp only [Parser.withHeaders_checkState, hc, if_false]
    exact ih h' hdrop hc (hnext rfl)

end Http
end UrlShortener
