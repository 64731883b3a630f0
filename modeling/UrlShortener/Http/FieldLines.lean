import UrlShortener.Http.BodyFraming

/-!
# UrlShortener.Http.FieldLines

Header lines by their names, and what ends up in `m_request.headers`.

The names that `parse_headers` knows are compared without regard to case and stored under one
spelling. Every other name is a key as it was spelled, and the last line with that spelling counts
(`readHead_lookup`, `feed_headers`).
-/

namespace UrlShortener
namespace Http

/-! ## A header line by its name -/

/-- The tests of `parse_headers` on a line with a colon are tests of its name. -/
theorem prefixes_field {name : Bytes} (hname : COLON ∉ name) (v : Bytes) :
    strncasecmp (name ++ COLON :: v) (ascii "Connection:") 11 = strcasecmp name (ascii "Connection") ∧
    strncasecmp (name ++ COLON :: v) (ascii "Content-length:") 15 =
      strcasecmp name (ascii "Content-length") ∧
    isUnsupportedBodyEncodingHeader (name ++ COLON :: v) =
      (strcasecmp name TRANSFER_ENCODING || strcasecmp name CONTENT_ENCODING) ∧
    strncasecmp (name ++ COLON :: v) (ascii "Host:") 5 = strcasecmp name (ascii "Host") := by
  have test : ∀ {full lit : Bytes} {n : Nat}, full = lit ++ [COLON] → n = lit.length + 1 →
      (∀ b ∈ lit, tolower b ≠ COLON) →
        strncasecmp (name ++ COLON :: v) full n = strcasecmp name lit := by
    intro full lit n hfull hn hlit
    rw [hfull]
    exact strncasecmp_field hn (by decide)
      (fun b hb => WireRequest.tolower_ne_colon fun e => hname (e ▸ hb)) hlit
  have h3 : strncasecmp (name ++ COLON :: v) (ascii "Transfer-Encoding:") 18 =
      strcasecmp name TRANSFER_ENCODING :=
    test (by decide +kernel) (by decide +kernel) (by decide +kernel)
  have h4 : strncasecmp (name ++ COLON :: v) (ascii "Content-Encoding:") 17 =
      strcasecmp name CONTENT_ENCODING :=
    test (by decide +kernel) (by decide +kernel) (by decide +kernel)
  refine ⟨test (by decide +kernel) (by decide +kernel) (by decide +kernel),
    test (by decide +kernel) (by decide +kernel) (by decide +kernel), ?_,
    test (by decide +kernel) (by decide +kernel) (by decide +kernel)⟩
  rw [isUnsupportedBodyEncodingHeader, h3, h4]

/-- A line without a colon passes none of them. -/
theorem prefixes_noColon {text : Bytes} (hchr : strchr text COLON = none) :
    strncasecmp text (ascii "Connection:") 11 = false ∧
    strncasecmp text (ascii "Content-length:") 15 = false ∧
    isUnsupportedBodyEncodingHeader text = false ∧ strncasecmp text (ascii "Host:") 5 = false := by
  have fails : ∀ {full : Bytes} {n : Nat}, COLON ∈ full.take n → strncasecmp text full n = false := by
    intro full n hfull
    by_contra htest
    rw [Bool.not_eq_false, strncasecmp, beq_iff_eq] at htest
    have hmem : COLON ∈ lower (full.take n) := List.mem_map.mpr ⟨COLON, hfull, by decide⟩
    rw [← htest] at hmem
    have hin := List.mem_of_mem_take (colon_of_tolower hmem)
    simpa using List.findIdx?_eq_none_iff.mp hchr COLON hin
  refine ⟨fails (by decide), fails (by decide), ?_, fails (by decide)⟩
  rw [isUnsupportedBodyEncodingHeader, fails (by decide), fails (by decide)]
  rfl

theorem headerValue_field (name v : Bytes) {n : Nat} (hn : n = name.length + 1) :
    Parser.headerValue (name ++ COLON :: v) n = v.drop (strspn v blanks) := by
  rw [Parser.headerValue, hn, drop_past]

namespace Parser

/-- The parser with another header map. -/
def withHeaders (p : Parser) (headers : StrMap Bytes) : Parser :=
  { p with request := { p.request with headers := headers } }

@[simp] theorem withHeaders_checkState (p : Parser) (h : StrMap Bytes) :
    (p.withHeaders h).checkState = p.checkState := rfl

@[simp] theorem withHeaders_contentLength (p : Parser) (h : StrMap Bytes) :
    (p.withHeaders h).contentLength = p.contentLength := rfl

@[simp] theorem withHeaders_headers (p : Parser) (h : StrMap Bytes) :
    (p.withHeaders h).request.headers = h := rfl

/-- The request line does not look at the headers. -/
theorem parseRequestLine_withHeaders (p : Parser) (h : StrMap Bytes) (text : Bytes) :
    (p.withHeaders h).parseRequestLine text =
      ((p.parseRequestLine text).1.withHeaders h, (p.parseRequestLine text).2) := by
  unfold parseRequestLine
  cases strpbrk text blanks with
  | none => rfl
  | some i =>
    simp only
    cases methodOf (text.take i) with
    | none => rfl
    | some m =>
      simp only
      generalize (text.drop (i + 1)).drop (strspn (text.drop (i + 1)) blanks) = url
      cases strpbrk url blanks with
      | none => rfl
      | some j =>
        simp only
        split
        · rfl
        · cases stripScheme (url.take j) with
          | none => rfl
          | some target =>
            simp only
            split
            · rfl
            · cases strchr target 63 with
              | none => rfl
              | some q => rfl

/-- `parse_headers` on the name before the first colon and the value behind it. -/
def parseField (p : Parser) (name value : Bytes) : Parser × HttpCode :=
  if strcasecmp name (ascii "Connection") then
    let p :=
      if strcasecmp value (ascii "keep-alive") then { p with linger := true }
      else if strcasecmp value (ascii "close") then { p with linger := false }
      else p
    (p.setHeader (ascii "Connection") value, .noRequest)
  else if strcasecmp name (ascii "Content-length") then
    match parseContentLength value with
    | none => (p, .badRequest)
    | some length =>
      if READ_BUFFER_SIZE ≤ length then (p, .requestEntityTooLarge)
      else ({ p with contentLength := length }.setHeader (ascii "Content-Length") value, .noRequest)
  else if strcasecmp name TRANSFER_ENCODING || strcasecmp name CONTENT_ENCODING then (p, .badRequest)
  else if strcasecmp name (ascii "Host") then (p.setHeader (ascii "Host") value, .noRequest)
  else (p.setHeader name value, .noRequest)

theorem parseHeaders_field (p : Parser) (i : Nat) {name : Bytes} (hname : COLON ∉ name) (v : Bytes) :
    p.parseHeaders i (name ++ COLON :: v) = p.parseField name (v.drop (strspn v blanks)) := by
  have hne : name ++ COLON :: v ≠ [] := by simp
  obtain ⟨t1, t2, t3, t4⟩ := prefixes_field hname v
  have hlen : ∀ {lit : Bytes}, strcasecmp name lit = true → lit.length = name.length :=
    fun h => (WireRequest.length_of_strcasecmp h).symm
  unfold parseHeaders parseField
  rw [if_neg hne, t1, t2, t3, t4]
  by_cases h1 : strcasecmp name (ascii "Connection") = true
  · have hv := headerValue_field name v (n := 11) (by rw [← hlen h1]; decide)
    rw [if_pos h1, if_pos h1, hv]
  · rw [if_neg h1, if_neg h1]
    by_cases h2 : strcasecmp name (ascii "Content-length") = true
    · have hv := headerValue_field name v (n := 15) (by rw [← hlen h2]; decide)
      cases hlength : parseContentLength (v.drop (strspn v blanks)) with
      | none => simp only [if_pos h2, hv, hlength]
      | some length => simp only [if_pos h2, hv, hlength]
    · rw [if_neg h2, if_neg h2]
      by_cases h5 : strcasecmp name (ascii "Host") = true
      · have hv := headerValue_field name v (n := 5) (by rw [← hlen h5]; decide)
        rw [if_pos h5, if_pos h5, hv]
      · have hchr : strchr (name ++ COLON :: v) 58 = some name.length := strchr_append hname
        have htake : (name ++ COLON :: v).take name.length = name := List.take_left
        rw [if_neg h5, if_neg h5, hchr]
        simp only
        rw [htake, headerValue_field name v rfl]

theorem parseHeaders_noColon (p : Parser) (i : Nat) {text : Bytes} (hne : text ≠ [])
    (hchr : strchr text COLON = none) : p.parseHeaders i text = (p, .noRequest) := by
  obtain ⟨t1, t2, t3, t4⟩ := prefixes_noColon hchr
  have hchr : strchr text 58 = none := hchr
  unfold parseHeaders
  rw [if_neg hne, t1, t2, t3, t4, hchr]
  rfl

end Parser

/-! ## What a line puts into the map -/

/-- `parse_headers` refuses the line. -/
def refused (line : Bytes) : Bool :=
  isUnsupportedBodyEncodingHeader line ||
    (strncasecmp line (ascii "Content-length:") 15 &&
      (parseContentLength (Parser.headerValue line 15)).all fun n => decide (READ_BUFFER_SIZE ≤ n))

/-- The value of a line whose field name is spelled exactly so. -/
def valueOf (name line : Bytes) : Option Bytes :=
  (strchr line COLON).bind fun k =>
    if line.take k = name then some (Parser.headerValue line (k + 1)) else none

/-- The value of the last of the lines whose field name is spelled so. -/
def spelled (name : Bytes) : List Bytes → Option Bytes
  | [] => none
  | line :: lines => (spelled name lines).or (valueOf name line)

/-- Empty where no line is spelled so. -/
def lastSpelled (name : Bytes) (lines : List Bytes) : Bytes := (spelled name lines).getD []

/-- No spelling of a name that `parse_headers` stores under its own spelling. -/
structure Uncased (name : Bytes) : Prop where
  connection : lower name ≠ lower (ascii "Connection")
  contentLength : lower name ≠ lower (ascii "Content-length")
  host : lower name ≠ lower (ascii "Host")

theorem valueOf_field {name n : Bytes} (hn : COLON ∉ n) (v : Bytes) :
    valueOf name (n ++ COLON :: v) = if n = name then some (v.drop (strspn v blanks)) else none := by
  have htake : (n ++ COLON :: v).take n.length = n := List.take_left
  rw [valueOf, strchr_append hn, Option.bind_some, htake, headerValue_field n v rfl]

/-- A header that is stored under another key. -/
theorem lookup_canonical {name n key lit : Bytes} (value : Bytes) (hkey : lower name ≠ lower lit)
    (hlit : strcasecmp n lit = true) (hlower : lower key = lower lit) (m : StrMap Bytes) :
    (m.insert key value).lookup name = (if n = name then some value else none).or (m.lookup name) := by
  have hne : n ≠ name := by
    rintro rfl
    exact hkey (lower_eq_of_strcasecmp hlit)
  have hkey' : name ≠ key := by
    rintro rfl
    exact hkey hlower
  rw [if_neg hne, AList.lookup_insert_ne hkey']
  rfl

theorem strcasecmp_ne {n a b : Bytes} (ha : strcasecmp n a = true) (hne : lower a ≠ lower b) :
    strcasecmp n b = false := by
  by_contra hb
  rw [Bool.not_eq_false] at hb
  exact hne ((lower_eq_of_strcasecmp ha).symm.trans (lower_eq_of_strcasecmp hb))

/-- **One header line**: it is refused and changes no header, or it sets the key it names. -/
theorem parseHeaders_lookup {name : Bytes} (hname : Uncased name) (p : Parser) (i : Nat)
    {text : Bytes} (hne : text ≠ []) :
    (refused text = true ∧ (p.parseHeaders i text).2 ≠ .noRequest ∧
      (p.parseHeaders i text).1.request.headers = p.request.headers) ∨
    (refused text = false ∧ (p.parseHeaders i text).2 = .noRequest ∧
      (p.parseHeaders i text).1.request.headers.lookup name =
        (valueOf name text).or (p.request.headers.lookup name)) := by
  cases hchr : strchr text COLON with
  | none =>
    right
    obtain ⟨-, t2, t3, -⟩ := prefixes_noColon hchr
    rw [p.parseHeaders_noColon i hne hchr, refused, t2, t3, valueOf, hchr]
    exact ⟨rfl, rfl, rfl⟩
  | some k =>
    obtain ⟨n, v, rfl, -, hn⟩ := strchr_some hchr
    obtain ⟨-, t2, t3, -⟩ := prefixes_field hn v
    rw [p.parseHeaders_field i hn, refused, t2, t3, valueOf_field hn]
    generalize hvalue : v.drop (strspn v blanks) = value
    have hval : strcasecmp n (ascii "Content-length") = true →
        Parser.headerValue (n ++ COLON :: v) 15 = value := by
      intro h
      rw [← hvalue]
      exact headerValue_field n v (by rw [WireRequest.length_of_strcasecmp h]; decide)
    unfold Parser.parseField
    by_cases h1 : strcasecmp n (ascii "Connection") = true
    · right
      have h2 : strcasecmp n (ascii "Content-length") = false := strcasecmp_ne h1 (by decide +kernel)
      have h3 : strcasecmp n TRANSFER_ENCODING = false := strcasecmp_ne h1 (by decide +kernel)
      have h4 : strcasecmp n CONTENT_ENCODING = false := strcasecmp_ne h1 (by decide +kernel)
      rw [if_pos h1, h2, h3, h4]
      refine ⟨rfl, rfl, ?_⟩
      rw [← lookup_canonical value hname.connection h1 rfl p.request.headers]
      simp only [Parser.setHeader]
      split
      · rfl
      · split
        · rfl
        · rfl
    · rw [if_neg h1]
      by_cases h2 : strcasecmp n (ascii "Content-length") = true
      · have h3 : strcasecmp n TRANSFER_ENCODING = false := strcasecmp_ne h2 (by decide +kernel)
        have h4 : strcasecmp n CONTENT_ENCODING = false := strcasecmp_ne h2 (by decide +kernel)
        have hkey : lower (ascii "Content-Length") = lower (ascii "Content-length") := by
          decide +kernel
        rw [if_pos h2, h2, hval h2, h3, h4]
        cases hlength : parseContentLength value with
        | none =>
          left
          exact ⟨rfl, by simp, rfl⟩
        | some length =>
          simp only [Option.all_some, Bool.or_self, Bool.false_or, Bool.true_and]
          by_cases hlarge : READ_BUFFER_SIZE ≤ length
          · left
            rw [if_pos hlarge]
            exact ⟨decide_eq_true hlarge, by simp, rfl⟩
          · right
            rw [if_neg hlarge]
            exact ⟨decide_eq_false hlarge, rfl,
              lookup_canonical value hname.contentLength h2 hkey p.request.headers⟩
      · have h2' : strcasecmp n (ascii "Content-length") = false := by simpa using h2
        rw [if_neg h2, h2', Bool.false_and, Bool.or_false]
        cases henc : strcasecmp n TRANSFER_ENCODING || strcasecmp n CONTENT_ENCODING with
        | true =>
          left
          exact ⟨rfl, by simp, rfl⟩
        | false =>
          right
          rw [if_neg Bool.false_ne_true]
          by_cases h5 : strcasecmp n (ascii "Host") = true
          · rw [if_pos h5]
            exact ⟨rfl, rfl, lookup_canonical value hname.host h5 rfl p.request.headers⟩
          · rw [if_neg h5]
            refine ⟨rfl, rfl, ?_⟩
            by_cases hn : n = name
            · rw [if_pos hn, ← hn]
              exact AList.lookup_insert _
            · rw [if_neg hn]
              exact AList.lookup_insert_ne (Ne.symm hn)

/-! ## What a stream puts into the map -/

/-- What `parse_headers` is given line by line, up to the text that ends the head. -/
def headTexts (u : Bytes) : List Bytes :=
  match _h : scanLine u with
  | (line, .lineOk) =>
    if cString line = [] then [] else cString line :: headTexts (u.drop (line.length + 2))
  | _ => []
termination_by u.length
decreasing_by
  have := scanLine_ok_length _h
  simp only [List.length_drop]
  omega

/-- The same behind the request line. -/
def headerTexts (stream : Bytes) : List Bytes := (headTexts stream).tail

theorem headTexts_ok {u line : Bytes} (hs : scanLine u = (line, .lineOk)) :
    headTexts u =
      if cString line = [] then [] else cString line :: headTexts (u.drop (line.length + 2)) := by
  rw [headTexts]
  split <;> simp_all

/-- The header lines that `parse_headers` takes: those before the first that it refuses, and none
behind a request line that is refused. -/
def fieldLines (stream : Bytes) : List Bytes :=
  if (({} : Parser).parseRequestLine (cString (scanLine stream).1)).2 = .badRequest then []
  else (headerTexts stream).takeWhile fun l => !refused l

theorem headTexts_closed {u : Bytes} (h : (scanLine u).2 ≠ .lineOk) : headTexts u = [] := by
  rw [headTexts]
  split
  · rename_i hs
    rw [hs] at h
    exact absurd rfl h
  · rfl

theorem parseRequestLine_headers (p : Parser) (text : Bytes) :
    (p.parseRequestLine text).1.request.headers = p.request.headers :=
  congrArg (fun r => r.1.request.headers) (p.parseRequestLine_withHeaders p.request.headers text)

/-- The headers of a head, by its lines. -/
theorem readHead_lookup {name : Bytes} (hname : Uncased name) (p : Parser) (pos : Nat) (u : Bytes)
    (hp : p.checkState = .header) :
    (readHead p pos u).parser.request.headers.lookup name =
      (spelled name ((headTexts u).takeWhile fun l => !refused l)).or
        (p.request.headers.lookup name) := by
  revert hp
  -- a line that is taken, by what the parser is behind it
  have step : ∀ {p p' : Parser} {i : Nat} {text : Bytes} {code : Option HttpCode},
      p.checkState = .header → p.step i text = (p', code) →
        p' = (p.parseHeaders i text).1 ∧ (code = none → (p.parseHeaders i text).2 = .noRequest) ∧
          ((p.parseHeaders i text).2 = .noRequest → code = none) := by
    intro p p' i text code hp hst
    refine ⟨?_, ?_, ?_⟩
    · simp only [Parser.step, hp] at hst
      exact (congrArg Prod.fst hst).symm
    · intro hnone
      rw [(step_header hp hst).1 hnone]
    · intro hcode
      simp only [Parser.step, hp, hcode] at hst
      exact (congrArg Prod.snd hst).symm
  refine readHead_rec (motive := fun p _ u r => p.checkState = .header →
    r.parser.request.headers.lookup name =
      (spelled name ((headTexts u).takeWhile fun l => !refused l)).or
        (p.request.headers.lookup name))
    ?_ ?_ ?_ ?_ ?_ p pos u
  · intro p pos u pre hs hp
    rw [headTexts_closed (by rw [hs]; simp)]
    rfl
  · intro p pos u pre hs hp
    rw [headTexts_closed (by rw [hs]; simp)]
    rfl
  · intro p pos u line p₁ code hs hst hp
    obtain ⟨rfl, -, hcode⟩ := step hp hst
    rw [headTexts_ok hs]
    by_cases hnil : cString line = []
    · rw [if_pos hnil]
      have hreq := (parseHeaders_nil (p := p) (i := pos + line.length + 2)).2.1
      rw [← hnil] at hreq
      simp only [HeadResult.parser]
      rw [hreq]
      rfl
    · rw [if_neg hnil]
      rcases parseHeaders_lookup hname p (pos + line.length + 2) hnil with ⟨hrefused, -, hkeep⟩ | ⟨-, hno, -⟩
      · rw [List.takeWhile_cons_of_neg (by simp [hrefused])]
        simp only [HeadResult.parser]
        rw [hkeep]
        rfl
      · cases hcode hno
  · intro p pos u line p₁ hs hst hc hp
    obtain ⟨rfl, hno, -⟩ := step hp hst
    have hnil : cString line = [] := by
      by_contra hne
      obtain ⟨-, -, -, hcs, -⟩ := parseHeaders_passed hne (Prod.ext rfl (hno rfl))
      rw [hc, hp] at hcs
      cases hcs
    rw [headTexts_ok hs, if_pos hnil]
    have hreq := (parseHeaders_nil (p := p) (i := pos + line.length + 2)).2.1
    rw [← hnil] at hreq
    simp only [HeadResult.parser]
    rw [hreq]
    rfl
  · intro p pos u line p₁ hs hst hc ih hp
    obtain ⟨rfl, hno, -⟩ := step hp hst
    have hne : cString line ≠ [] := by
      intro hnil
      have hcs := (parseHeaders_nil (p := p) (i := pos + line.length + 2)).2.2.1
      rw [← hnil] at hcs
      exact hc (hcs (hno rfl))
    obtain ⟨-, -, -, hcs, -⟩ := parseHeaders_passed hne (Prod.ext rfl (hno rfl) :
      p.parseHeaders (pos + line.length + 2) (cString line) =
        ((p.parseHeaders (pos + line.length + 2) (cString line)).1, .noRequest))
    rw [headTexts_ok hs, if_neg hne, ih (hcs.trans hp)]
    rcases parseHeaders_lookup hname p (pos + line.length + 2) hne with ⟨-, hcode, -⟩ | ⟨hok, -, hset⟩
    · exact absurd (hno rfl) hcode
    · rw [List.takeWhile_cons_of_pos (by simp [hok]), spelled, hset, Option.or_assoc]

/-- **What the map holds** under a name of no canonical spelling. -/
theorem readHead_headers {name : Bytes} (hname : Uncased name) (stream : Bytes) :
    (readHead {} 0 stream).parser.request.headers.lookup name = spelled name (fieldLines stream) := by
  rcases hs : scanLine stream with ⟨line, st⟩
  have hline : (scanLine stream).1 = line := congrArg Prod.fst hs
  have closed : st ≠ .lineOk → fieldLines stream = [] := by
    intro hst
    rw [fieldLines, headerTexts, headTexts_closed (by rw [hs]; exact hst)]
    split
    · rfl
    · rfl
  cases st with
  | lineOpen =>
    rw [readHead_open hs, closed (by simp)]
    rfl
  | lineBad =>
    rw [readHead_bad hs, closed (by simp)]
    rfl
  | lineOk =>
    rw [readHead_ok hs, fieldLines, hline]
    have hheaders := parseRequestLine_headers {} (cString line)
    rcases hp : ({} : Parser).parseRequestLine (cString line) with ⟨p₁, code⟩
    rw [hp] at hheaders
    simp only [Parser.step, hp]
    by_cases hbad : code = .badRequest
    · rw [if_pos hbad, if_pos hbad]
      simp only [HeadResult.parser]
      rw [show p₁.request.headers = ∅ from hheaders]
      rfl
    · obtain ⟨hne, hcs, -, -⟩ := parseRequestLine_passed hp hbad
      rw [if_neg hbad, if_neg hbad]
      simp only [hcs, reduceCtorEq, if_false]
      rw [readHead_lookup hname p₁ _ _ hcs, headerTexts, headTexts_ok hs, if_neg hne,
        List.tail_cons, show p₁.request.headers = ∅ from hheaders]
      exact Option.or_none

/-! ## Streams in chunks -/

namespace HttpConn

/-- A body adds no header. -/
theorem processReadLoop_headers (n : Nat) {c : HttpConn} (hc : c.checkState = .content)
    (ls : LineStatus) : (processReadLoop n c ls).1.request.headers = c.request.headers := by
  induction n generalizing c ls with
  | zero => rfl
  | succ n ih =>
    have body : ∀ (c' : HttpConn) (ls' : LineStatus), c'.toParser = c.toParser →
        (goesOn n (c'.processLine ls')).1.request.headers = c.request.headers := by
      intro c' ls' hp
      have hc' : c'.checkState = .content := (congrArg Parser.checkState hp).trans hc
      have hh : c'.request.headers = c.request.headers := congrArg (fun p => p.request.headers) hp
      rw [processLine_content hc']
      split
      · exact hh
      · exact (ih (c := { c' with startLine := c'.checkedIdx }) hc' .lineOpen).trans hh
    rw [processReadLoop]
    split
    · exact body c ls rfl
    · have hp := c.parseLine_toParser
      rcases hpl : c.parseLine with ⟨c', st⟩
      rw [hpl] at hp
      have hstop : c'.request.headers = c.request.headers := congrArg (fun p => p.request.headers) hp
      cases st with
      | lineBad => exact hstop
      | lineOpen => exact hstop
      | lineOk => exact body c' .lineOk hp

theorem feed_content_headers {ds : List Bytes} {c : HttpConn} (hc : c.checkState = .content) :
    (feed c ds).1.request.headers = c.request.headers := by
  induction ds generalizing c with
  | nil => rfl
  | cons d ds ih =>
    obtain ⟨hstate, -, -⟩ := processReadLoop_content
      (2 * ((c.receive d).readIdx - (c.receive d).checkedIdx) + 2) (c := c.receive d) hc .lineOk
    have hheaders := processReadLoop_headers
      (2 * ((c.receive d).readIdx - (c.receive d).checkedIdx) + 2) (c := c.receive d) hc .lineOk
    rw [feed]
    rcases hr : (c.receive d).processRead with ⟨c₁, code⟩
    rw [show processReadLoop _ (c.receive d) .lineOk = (c₁, code) from hr] at hstate hheaders
    cases code with
    | noRequest => exact (ih hstate).trans hheaders
    | badRequest => exact hheaders
    | requestEntityTooLarge => exact hheaders
    | getRequest => exact hheaders
    | internalError => exact hheaders
    | closedConnection => exact hheaders

/-- **The headers of a chunked run** are those of the head that its bytes hold. -/
theorem feed_headers {ds : List Bytes} {c : HttpConn} (hat : c.AtLine) (hc : c.checkState ≠ .content)
    (hopen : (scanLine c.pending).2 = .lineOpen)
    (hlen : c.readIdx + ds.flatten.length ≤ READ_BUFFER_SIZE) :
    (feed c ds).1.request.headers =
      (readHead c.toParser c.startLine (c.pending ++ ds.flatten)).parser.request.headers := by
  induction ds generalizing c with
  | nil =>
    rw [List.flatten_nil, List.append_nil,
      readHead_open (Prod.ext rfl hopen : scanLine c.pending = ((scanLine c.pending).1, .lineOpen))]
    rfl
  | cons d ds ih =>
    rw [List.flatten_cons, List.length_append] at hlen
    obtain ⟨hat', hpend⟩ := hat.receive (d := d) (by omega)
    have hreach := processReadLoop_head _ (c.receive d) .lineOk hat' hc (Nat.le_refl _)
    rw [hpend] at hreach
    rw [List.flatten_cons, ← List.append_assoc, readHead_append, feed]
    have hreach : (c.receive d).Reaches _ .lineOk
        (readHead c.toParser c.startLine (c.pending ++ d)) := hreach
    cases hr : readHead c.toParser c.startLine (c.pending ++ d) with
    | more p pos rest =>
      rw [hr] at hreach
      obtain ⟨buf, hk, hrest, he⟩ := hreach
      rw [show (c.receive d).processRead = _ from he]
      obtain ⟨hstate, hline⟩ := readHead_more hc hr
      obtain ⟨hat₁, hpend₁⟩ := hk.atLine_more (p := p) hat' hrest
      by_cases hfull : READ_BUFFER_SIZE ≤ (c.receive d).readIdx
      · -- nothing more fits
        have hnil : ds.flatten = [] := by
          refine List.length_eq_zero_iff.mp ?_
          change READ_BUFFER_SIZE ≤ c.readIdx + d.length at hfull
          omega
        rw [openCode, if_pos hfull, hnil]
        simp only [List.append_nil]
        rw [readHead_open (Prod.ext rfl hline : scanLine rest = ((scanLine rest).1, .lineOpen))]
        rfl
      · rw [openCode, if_neg hfull]
        have := ih hat₁ hstate (by rw [hpend₁]; exact hline)
          (by show c.readIdx + d.length + _ ≤ _; omega)
        rw [hpend₁] at this
        exact this
    | badLine p pos rest =>
      rw [hr] at hreach
      obtain ⟨buf, s, -, -, -, -, he⟩ := hreach
      rw [show (c.receive d).processRead = _ from he]
      rfl
    | ended code p pos rest =>
      rw [hr] at hreach
      obtain ⟨buf, -, -, he⟩ := hreach
      rw [show (c.receive d).processRead = _ from he]
      rcases readHead_ended_code hr with rfl | rfl | rfl
      · rfl
      · rfl
      · rfl
    | body p pos rest =>
      rw [hr] at hreach
      obtain ⟨buf, m, -, -, -, hp, he⟩ := hreach
      have hheaders := processReadLoop_headers m (c := (c.receive d).moved p buf pos pos) hp .lineOk
      obtain ⟨hstate, -, -⟩ := processReadLoop_content m (c := (c.receive d).moved p buf pos pos) hp
        .lineOk
      rw [← show (c.receive d).processRead = _ from he] at hheaders hstate
      rcases hpr : (c.receive d).processRead with ⟨c₁, code⟩
      rw [hpr] at hheaders hstate
      cases code with
      | noRequest => exact (feed_content_headers hstate).trans hheaders
      | badRequest => exact hheaders
      | requestEntityTooLarge => exact hheaders
      | getRequest => exact hheaders
      | internalError => exact hheaders
      | closedConnection => exact hheaders

/-- What a header of the run reads as: the last line that spells its name so. -/
theorem feed_headerOrEmpty {name : Bytes} (hname : Uncased name) (c : HttpConn) {chunks : List Bytes}
    (hlen : chunks.flatten.length ≤ READ_BUFFER_SIZE) :
    (feed c.init chunks).1.request.headerOrEmpty name =
      lastSpelled name (fieldLines chunks.flatten) := by
  have hfit : c.init.readIdx + chunks.flatten.length ≤ READ_BUFFER_SIZE := by
    show 0 + _ ≤ _
    omega
  have hheaders := feed_headers (init_atLine c) (by simp [init]) rfl hfit
  have hlookup := readHead_headers hname chunks.flatten
  rw [HttpRequest.headerOrEmpty, lastSpelled, ← hlookup, hheaders]
  rfl

end HttpConn

end Http
end UrlShortener
