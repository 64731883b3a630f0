import UrlShortener.Http.RequestLine
import UrlShortener.Http.Stream

/-!
# UrlShortener.Http.Wire

Requests as a client sends them, and what the parser makes of them.

A `WireRequest` is a method, an origin-form target, header fields in order and a body; `encode`
writes it down and `request` is the `HttpRequest` it stands for. `WellFormed` says which of them
the server has to understand. `readHead_encode` reads an encoded request back, whatever follows
it: the parser comes to the end of the head with `request` in its hands, keep-alive on, and the
body right behind its cursor.
-/

namespace UrlShortener
namespace Http

def COLON : UInt8 := 58

/-- A decimal number, leading zeros allowed. -/
def IsDecimal (text : Bytes) (n : Nat) : Prop :=
  text ≠ [] ∧ (∀ b ∈ text, 48 ≤ b ∧ b ≤ 57) ∧
    text.foldl (fun v b => v * 10 + (b.toNat - 48)) 0 = n

structure WireRequest where
  method : Method
  target : Bytes
  headers : List (Bytes × Bytes)
  body : Bytes
deriving DecidableEq

/-- The key under which `parse_headers` stores a field. -/
def canonicalName (name : Bytes) : Bytes :=
  if strcasecmp name (ascii "Connection") then ascii "Connection"
  else if strcasecmp name (ascii "Content-Length") then ascii "Content-Length"
  else if strcasecmp name (ascii "Host") then ascii "Host"
  else name

/-- No byte that would end the line or its C string. -/
def LineSafe (text : Bytes) : Prop := ∀ b ∈ text, b ≠ CR ∧ b ≠ LF ∧ b ≠ NUL

structure WellFormedField (body : Bytes) (field : Bytes × Bytes) : Prop where
  name_safe : LineSafe field.1
  value_safe : LineSafe field.2
  name_colon : COLON ∉ field.1
  value_head : ∀ b, field.2.head? = some b → b ∉ blanks
  no_transfer : strcasecmp field.1 (ascii "Transfer-Encoding") = false
  no_encoding : strcasecmp field.1 (ascii "Content-Encoding") = false
  no_close : strcasecmp field.1 (ascii "Connection") = true →
    strcasecmp field.2 (ascii "close") = false
  length : strcasecmp field.1 (ascii "Content-Length") = true → IsDecimal field.2 body.length

instance (text : Bytes) : Decidable (LineSafe text) :=
  List.decidableBAll (fun b => b ≠ CR ∧ b ≠ LF ∧ b ≠ NUL) text

instance (text : Bytes) (n : Nat) : Decidable (IsDecimal text n) :=
  have := List.decidableBAll (fun b : UInt8 => 48 ≤ b ∧ b ≤ 57) text
  inferInstanceAs (Decidable (_ ∧ _ ∧ _))

instance (body : Bytes) (f : Bytes × Bytes) : Decidable (WellFormedField body f) :=
  have := List.decidableBAll (fun b => b ∉ blanks) f.2.head?.toList
  decidable_of_iff (LineSafe f.1 ∧ LineSafe f.2 ∧ COLON ∉ f.1 ∧
      (∀ b ∈ f.2.head?.toList, b ∉ blanks) ∧
      strcasecmp f.1 (ascii "Transfer-Encoding") = false ∧
      strcasecmp f.1 (ascii "Content-Encoding") = false ∧
      (strcasecmp f.1 (ascii "Connection") = true → strcasecmp f.2 (ascii "close") = false) ∧
      (strcasecmp f.1 (ascii "Content-Length") = true → IsDecimal f.2 body.length))
    ⟨fun ⟨h1, h2, h3, h4, h5, h6, h7, h8⟩ => ⟨h1, h2, h3, by simpa using h4, h5, h6, h7, h8⟩,
      fun ⟨h1, h2, h3, h4, h5, h6, h7, h8⟩ => ⟨h1, h2, h3, by simpa using h4, h5, h6, h7, h8⟩⟩

namespace WireRequest

structure WellFormed (r : WireRequest) : Prop where
  method : r.method = .get ∨ r.method = .post ∨ r.method = .put ∨ r.method = .delete
  target_head : r.target.head? = some 47
  target_safe : LineSafe r.target
  target_blank : ∀ b ∈ r.target, b ∉ blanks
  fields : ∀ f ∈ r.headers, WellFormedField r.body f
  distinct : r.headers.Pairwise fun f g => strcasecmp f.1 g.1 = false
  framed : r.body ≠ [] → ∃ f ∈ r.headers, strcasecmp f.1 (ascii "Content-Length") = true

instance (r : WireRequest) : Decidable r.WellFormed :=
  have := List.decidableBAll (fun b => b ∉ blanks) r.target
  decidable_of_iff ((r.method = .get ∨ r.method = .post ∨ r.method = .put ∨ r.method = .delete) ∧
      r.target.head? = some 47 ∧ LineSafe r.target ∧ (∀ b ∈ r.target, b ∉ blanks) ∧
      (∀ f ∈ r.headers, WellFormedField r.body f) ∧
      (r.headers.Pairwise fun f g => strcasecmp f.1 g.1 = false) ∧
      (r.body ≠ [] → ∃ f ∈ r.headers, strcasecmp f.1 (ascii "Content-Length") = true))
    ⟨fun ⟨h1, h2, h3, h4, h5, h6, h7⟩ => ⟨h1, h2, h3, h4, h5, h6, h7⟩,
      fun ⟨h1, h2, h3, h4, h5, h6, h7⟩ => ⟨h1, h2, h3, h4, h5, h6, h7⟩⟩

def requestLine (r : WireRequest) : Bytes :=
  r.method.name ++ SP :: r.target ++ SP :: ascii "HTTP/1.1"

def fieldLine (field : Bytes × Bytes) : Bytes := field.1 ++ COLON :: SP :: field.2

def encodeLine (line : Bytes) : Bytes := line ++ [CR, LF]

def encode (r : WireRequest) : Bytes :=
  encodeLine r.requestLine ++ r.headers.flatMap (fun f => encodeLine (fieldLine f)) ++ [CR, LF] ++
    r.body

/-- The part of the target before the first `?`. -/
def path (r : WireRequest) : Bytes :=
  match strchr r.target 63 with
  | some q => r.target.take q
  | none => r.target

def query (r : WireRequest) : Bytes :=
  match strchr r.target 63 with
  | some q => r.target.drop (q + 1)
  | none => []

def headerMap (headers : List (Bytes × Bytes)) : StrMap Bytes :=
  headers.foldl (fun m f => m.insert (canonicalName f.1) f.2) ∅

def request (r : WireRequest) : HttpRequest :=
  { method := r.method.name
    path := r.path
    query := r.query
    headers := headerMap r.headers
    body := r.body }

end WireRequest

/-! ## Numbers -/

theorem parseContentLengthLoop_decimal {text : Bytes} {v : Nat} {saw : Bool}
    (hd : ∀ b ∈ text, 48 ≤ b ∧ b ≤ 57) (hsaw : text = [] → saw = true)
    (hle : text.foldl (fun v b => v * 10 + (b.toNat - 48)) v ≤ LONG_MAX) :
    parseContentLengthLoop v saw text =
      some (text.foldl (fun v b => v * 10 + (b.toNat - 48)) v) := by
  induction text generalizing v saw with
  | nil =>
    simp only [List.foldl_nil] at hle ⊢
    simp [parseContentLengthLoop, hsaw rfl, Nat.not_lt.mpr hle]
  | cons b text ih =>
    obtain ⟨h1, h2⟩ := hd b (by simp)
    have h1' : 48 ≤ b.toNat := UInt8.le_iff_toNat_le.mp h1
    have h2' : b.toNat ≤ 57 := UInt8.le_iff_toNat_le.mp h2
    have hmono : v * 10 + (b.toNat - 48) ≤
        (b :: text).foldl (fun v b => v * 10 + (b.toNat - 48)) v := by
      rw [List.foldl_cons]
      generalize v * 10 + (b.toNat - 48) = w
      clear hle ih hd hsaw
      induction text generalizing w with
      | nil => exact Nat.le_refl _
      | cons b' text ih =>
        rw [List.foldl_cons]
        exact Nat.le_trans (by omega) (ih (w * 10 + (b'.toNat - 48)))
    have hbound : v * 10 + (b.toNat - 48) ≤ LONG_MAX := Nat.le_trans hmono hle
    rw [parseContentLengthLoop, if_neg (by rw [not_or, UInt8.not_lt, UInt8.not_lt]; exact ⟨h1, h2⟩)]
    simp only
    rw [if_neg (by simp only [ULLONG_MAX, LONG_MAX] at hbound ⊢; omega),
      Nat.mod_eq_of_lt (by simp only [LONG_MAX] at hbound; omega)]
    exact ih (fun x hx => hd x (by simp [hx])) (fun _ => rfl) hle

theorem parseContentLength_decimal {text : Bytes} {n : Nat} (h : IsDecimal text n)
    (hn : n ≤ LONG_MAX) : parseContentLength text = some n := by
  obtain ⟨hne, hd, hv⟩ := h
  cases text with
  | nil => exact absurd rfl hne
  | cons b text =>
    have hb := hd b (by simp)
    have h45 : b ≠ 45 := by rintro rfl; exact absurd hb.1 (by decide)
    have h43 : b ≠ 43 := by rintro rfl; exact absurd hb.1 (by decide)
    simp only [parseContentLength, if_neg h45, if_neg h43]
    rw [parseContentLengthLoop_decimal hd (by simp) (by rw [hv]; exact hn), hv]

/-! ## The request line -/

theorem cString_of_safe {text : Bytes} (h : LineSafe text) : cString text = text :=
  cString_eq_self fun hmem => (h NUL hmem).2.2 rfl

theorem LineSafe.append {a b : Bytes} (ha : LineSafe a) (hb : LineSafe b) : LineSafe (a ++ b) := by
  intro x hx
  rcases List.mem_append.mp hx with h | h
  · exact ha x h
  · exact hb x h

theorem LineSafe.cons {x : UInt8} {a : Bytes} (hx : x ≠ CR ∧ x ≠ LF ∧ x ≠ NUL) (ha : LineSafe a) :
    LineSafe (x :: a) := by
  intro y hy
  rcases List.mem_cons.mp hy with rfl | h
  · exact hx
  · exact ha y h

theorem LineSafe.clean {a : Bytes} (ha : LineSafe a) : Clean a :=
  fun b hb => ⟨(ha b hb).1, (ha b hb).2.1⟩

namespace WireRequest

variable {r : WireRequest}

theorem WellFormed.method_name (h : r.WellFormed) :
    Parser.methodOf r.method.name = some r.method ∧ LineSafe r.method.name ∧
      ∀ b ∈ r.method.name, b ∉ blanks := by
  unfold LineSafe
  rcases h.method with e | e | e | e <;> rw [e] <;> decide +kernel

theorem WellFormed.requestLine_safe (h : r.WellFormed) : LineSafe r.requestLine := by
  have hv : LineSafe (ascii "HTTP/1.1") := by unfold LineSafe; decide +kernel
  have hsp : SP ≠ CR ∧ SP ≠ LF ∧ SP ≠ NUL := by decide
  rw [requestLine]
  exact (h.method_name.2.1.append (h.target_safe.cons hsp)).append (hv.cons hsp)

/-- What `parse_request_line` sets. -/
def afterLine (p : Parser) (r : WireRequest) : Parser :=
  { p with
    method := r.method
    checkState := .header
    request := { p.request with method := r.method.name, path := r.path, query := r.query } }

theorem WellFormed.requestLine (h : r.WellFormed) :
    RequestLine r.requestLine r.method r.target := by
  have hline : r.requestLine =
      r.method.name ++ [SP] ++ r.target ++ [SP] ++ ascii "HTTP/1.1" := by simp [WireRequest.requestLine]
  have hsp : Blank [SP] := ⟨by simp, by simp [blanks]⟩
  have hne : r.target ≠ [] := by
    intro he
    have := h.target_head
    rw [he] at this
    cases this
  rw [hline]
  refine .mk ?_ (by simp [strcasecmp]) hsp hne h.target_blank hsp (by decide)
  rcases h.method with e | e | e | e <;> rw [e] <;> decide

theorem parseRequestLine_wire (h : r.WellFormed) {p : Parser} (hq : p.request.query = []) :
    p.parseRequestLine r.requestLine = (afterLine p r, .noRequest) := by
  rw [parseRequestLine_of_shape p h.requestLine, Parser.withTarget, stripScheme_origin h.target_head]
  simp only [Parser.withPath, h.target_head, ne_eq, not_true, if_false, afterLine, path, query]
  cases strchr r.target 63 with
  | none => simp [hq]
  | some q => rfl

/-! ## Header lines -/

theorem tolower_ne_colon {b : UInt8} (h : b ≠ COLON) : tolower b ≠ COLON := by
  unfold tolower
  split
  · rename_i hb
    have h1 := UInt8.le_iff_toNat_le.mp hb.1
    have h2 := UInt8.le_iff_toNat_le.mp hb.2
    intro e
    have := congrArg UInt8.toNat e
    rw [UInt8.toNat_add] at this
    simp [COLON] at this h1 h2
    omega
  · exact h

/-- The prefix tests of `parse_headers` look at the whole field name. -/
theorem field_test {field : Bytes × Bytes} (full lit : Bytes) (n : Nat) (hc : COLON ∉ field.1)
    (hfull : full = lit ++ [COLON]) (hn : n = lit.length + 1)
    (hlit : ∀ b ∈ lit, tolower b ≠ COLON) :
    strncasecmp (fieldLine field) full n = strcasecmp field.1 lit := by
  rw [hfull]
  exact strncasecmp_field hn (by decide) (fun b hb => tolower_ne_colon fun e => hc (e ▸ hb)) hlit

/-- What a field line sets. -/
def withField (n : Nat) (p : Parser) (field : Bytes × Bytes) : Parser :=
  { p with
    contentLength := if strcasecmp field.1 (ascii "Content-Length") then n else p.contentLength
    request := { p.request with
      headers := p.request.headers.insert (canonicalName field.1) field.2 } }

theorem headerValue_fieldLine {body : Bytes} {field : Bytes × Bytes}
    (h : WellFormedField body field) {n : Nat} (hn : n = field.1.length + 1) :
    Parser.headerValue (fieldLine field) n = field.2 := by
  have hd : (fieldLine field).drop n = SP :: field.2 := by
    rw [hn, fieldLine, drop_past]
  rw [Parser.headerValue, hd]
  exact strspn_single (by decide) h.value_head

theorem length_of_strcasecmp {a b : Bytes} (h : strcasecmp a b = true) : a.length = b.length := by
  have := congrArg List.length (beq_iff_eq.mp h)
  simpa using this

theorem parseHeaders_wire {body : Bytes} {field : Bytes × Bytes} (h : WellFormedField body field)
    (hbody : body.length < READ_BUFFER_SIZE) {p : Parser} (hl : p.linger = true) (i : Nat) :
    p.parseHeaders i (fieldLine field) = (withField body.length p field, .noRequest) := by
  have hc := h.name_colon
  have hne : fieldLine field ≠ [] := by simp [fieldLine]
  have t1 := field_test (ascii "Connection:") (ascii "Connection") 11 hc
    (by decide +kernel) (by decide +kernel) (by decide +kernel)
  have t2 := field_test (ascii "Content-length:") (ascii "Content-length") 15 hc
    (by decide +kernel) (by decide +kernel) (by decide +kernel)
  have t2' : strcasecmp field.1 (ascii "Content-length") =
      strcasecmp field.1 (ascii "Content-Length") := by
    rw [strcasecmp, strcasecmp,
      show lower (ascii "Content-length") = lower (ascii "Content-Length") from by decide]
  have t3 := field_test (ascii "Transfer-Encoding:") (ascii "Transfer-Encoding") 18 hc
    (by decide +kernel) (by decide +kernel) (by decide +kernel)
  have t3' := field_test (ascii "Content-Encoding:") (ascii "Content-Encoding") 17 hc
    (by decide +kernel) (by decide +kernel) (by decide +kernel)
  have t4 := field_test (ascii "Host:") (ascii "Host") 5 hc
    (by decide +kernel) (by decide +kernel) (by decide +kernel)
  unfold Parser.parseHeaders
  rw [if_neg hne, t1, t2, t2', isUnsupportedBodyEncodingHeader, t3, t3', t4, h.no_transfer,
    h.no_encoding]
  by_cases hconn : strcasecmp field.1 (ascii "Connection") = true
  · have hcl : strcasecmp field.1 (ascii "Content-Length") = false := by
      by_contra hcl
      have h1 := length_of_strcasecmp hconn
      have h2 := length_of_strcasecmp (Bool.not_eq_false _ ▸ hcl)
      rw [h1] at h2
      exact absurd h2 (by decide)
    have hv := headerValue_fieldLine h (n := 11) (by rw [length_of_strcasecmp hconn]; decide)
    rw [if_pos hconn, hv]
    simp only [h.no_close hconn, Bool.false_eq_true, if_false, withField, hcl, canonicalName,
      hconn, if_true]
    split
    · simp [Parser.setHeader, hl]
    · rfl
  · rw [if_neg hconn]
    by_cases hcl : strcasecmp field.1 (ascii "Content-Length") = true
    · have hv := headerValue_fieldLine h (n := 15) (by rw [length_of_strcasecmp hcl]; decide)
      have hnum := parseContentLength_decimal (h.length hcl)
        (by simp only [LONG_MAX]; simp only [READ_BUFFER_SIZE] at hbody; omega)
      rw [if_pos hcl, hv]
      simp only [hnum]
      rw [if_neg (by omega)]
      simp [withField, canonicalName, hconn, hcl, Parser.setHeader]
    · rw [if_neg hcl, if_neg (by simp)]
      by_cases hhost : strcasecmp field.1 (ascii "Host") = true
      · have hv := headerValue_fieldLine h (n := 5) (by rw [length_of_strcasecmp hhost]; decide)
        rw [if_pos hhost, hv]
        simp [withField, canonicalName, hconn, hcl, hhost, Parser.setHeader]
      · have hchr : strchr (fieldLine field) 58 = some field.1.length := strchr_append hc
        have htake : (fieldLine field).take field.1.length = field.1 := List.take_left
        rw [if_neg hhost, hchr]
        simp only
        rw [htake, headerValue_fieldLine h rfl]
        simp [withField, canonicalName, hconn, hcl, hhost, Parser.setHeader]

/-! ## Whole requests -/

theorem readHead_encodeLine {p p' : Parser} {pos : Nat} {line tail : Bytes} (h : LineSafe line)
    (hp : p.step (pos + line.length + 2) line = (p', none)) (hc : p'.checkState ≠ .content) :
    readHead p pos (encodeLine line ++ tail) =
      readHead p' (pos + (encodeLine line).length) tail := by
  have hs : scanLine (encodeLine line ++ tail) = (line, .lineOk) := by
    rw [encodeLine, List.append_assoc]
    exact scanLine_line h.clean tail
  have hlen : (encodeLine line).length = line.length + 2 := by simp [encodeLine]
  rw [readHead_ok hs, cString_of_safe h, hp]
  simp only
  rw [if_neg hc, ← hlen, List.drop_left, hlen, Nat.add_assoc]

theorem fieldLine_safe {body : Bytes} {field : Bytes × Bytes}
    (h : WellFormedField body field) : LineSafe (fieldLine field) :=
  h.name_safe.append ((h.value_safe.cons (by decide)).cons (by decide))

/-- The header lines are read one after the other. -/
theorem readHead_fields {body : Bytes} (hbody : body.length < READ_BUFFER_SIZE)
    {fields : List (Bytes × Bytes)} (h : ∀ f ∈ fields, WellFormedField body f) {p : Parser}
    (hc : p.checkState = .header) (hl : p.linger = true) (pos : Nat) (tail : Bytes) :
    readHead p pos (fields.flatMap (fun f => encodeLine (fieldLine f)) ++ tail) =
      readHead (fields.foldl (withField body.length) p)
        (pos + (fields.flatMap (fun f => encodeLine (fieldLine f))).length) tail := by
  induction fields generalizing p pos with
  | nil => rfl
  | cons f fs ih =>
    obtain ⟨hf, hfs⟩ := List.forall_mem_cons.mp h
    have hstep : p.step (pos + (fieldLine f).length + 2) (fieldLine f) =
        (withField body.length p f, none) := by
      simp only [Parser.step, hc, parseHeaders_wire hf hbody hl]
    rw [List.flatMap_cons, List.append_assoc,
      readHead_encodeLine (fieldLine_safe hf) hstep (by rw [withField, hc]; simp),
      ih hfs (p := withField body.length p f) hc hl, List.foldl_cons, List.length_append,
      Nat.add_assoc]

theorem foldl_withField (n : Nat) (fields : List (Bytes × Bytes)) (p : Parser) :
    fields.foldl (withField n) p =
      { p with
        contentLength :=
          if ∃ f ∈ fields, strcasecmp f.1 (ascii "Content-Length") = true then n
          else p.contentLength
        request := { p.request with
          headers := fields.foldl (fun m f => m.insert (canonicalName f.1) f.2)
            p.request.headers } } := by
  induction fields generalizing p with
  | nil => simp
  | cons f fs ih =>
    rw [List.foldl_cons, ih]
    simp only [withField, List.foldl_cons, List.mem_cons, exists_eq_or_imp, Parser.mk.injEq,
      and_true, true_and]
    by_cases h1 : strcasecmp f.1 (ascii "Content-Length") = true
    · by_cases h2 : ∃ g ∈ fs, strcasecmp g.1 (ascii "Content-Length") = true <;> simp [h1, h2]
    · by_cases h2 : ∃ g ∈ fs, strcasecmp g.1 (ascii "Content-Length") = true <;> simp [h1, h2]

/-- The parser in front of the empty line of a request. -/
def headParser (r : WireRequest) : Parser :=
  { checkState := .header
    method := r.method
    request := { r.request with body := [] }
    contentLength := r.body.length
    linger := true }

theorem WellFormed.headParser_eq (h : r.WellFormed) :
    r.headers.foldl (withField r.body.length) (afterLine {} r) = r.headParser := by
  rw [foldl_withField]
  have hcl : (if ∃ f ∈ r.headers, strcasecmp f.1 (ascii "Content-Length") = true
      then r.body.length else 0) = r.body.length := by
    split
    · rfl
    · rename_i hno
      by_contra hne
      exact hno (h.framed fun h0 => hne (by rw [h0]; rfl))
  simp only [afterLine, headParser, request, headerMap, hcl]

/-- **Reading an encoded request back.** -/
theorem readHead_encode (h : r.WellFormed) (hlen : r.encode.length < READ_BUFFER_SIZE)
    (rest : Bytes) :
    ∃ pos, readHead {} 0 (r.encode ++ rest) =
      if r.body = [] then .ended .getRequest r.headParser pos rest
      else .body { r.headParser with checkState := .content } pos (r.body ++ rest) := by
  have hbody : r.body.length < READ_BUFFER_SIZE := by
    simp only [encode, List.length_append] at hlen
    omega
  have hline : Parser.step {} (0 + r.requestLine.length + 2) r.requestLine =
      (afterLine {} r, none) := by
    simp only [Parser.step, parseRequestLine_wire h (p := {}) rfl]
    rfl
  have e : r.encode ++ rest = encodeLine r.requestLine ++
      (r.headers.flatMap (fun f => encodeLine (fieldLine f)) ++ ([CR, LF] ++ (r.body ++ rest))) := by
    simp only [encode, List.append_assoc]
  rw [e, readHead_encodeLine h.requestLine_safe hline (by simp [afterLine]),
    readHead_fields hbody h.fields rfl rfl, h.headParser_eq]
  generalize hpos : 0 + (encodeLine r.requestLine).length +
    (r.headers.flatMap fun f => encodeLine (fieldLine f)).length = pos
  have hs : scanLine ([CR, LF] ++ (r.body ++ rest)) = ([], .lineOk) := rfl
  refine ⟨pos + 2, ?_⟩
  rw [readHead_ok hs]
  have hsum : pos + 2 + r.body.length < READ_BUFFER_SIZE := by
    simp only [encode, List.length_append, List.length_cons, List.length_nil] at hlen
    omega
  by_cases hb : r.body = []
  · have hstep : r.headParser.step (pos + ([] : Bytes).length + 2) (cString []) =
        (r.headParser, some .getRequest) := by
      simp [Parser.step, headParser, Parser.parseHeaders, cString, hb]
    rw [hstep, if_pos hb, hb]
    rfl
  · have hne : r.body.length ≠ 0 := fun h0 => hb (List.length_eq_zero_iff.mp h0)
    have hstep : r.headParser.step (pos + ([] : Bytes).length + 2) (cString []) =
        ({ r.headParser with checkState := .content }, none) := by
      have hlt : ¬ READ_BUFFER_SIZE ≤ pos + 2 + r.body.length := by omega
      simp [Parser.step, headParser, Parser.parseHeaders, cString, hne, hlt]
    rw [hstep, if_neg hb]
    rfl

/-! ## The header map -/

theorem strcasecmp_canonicalName (name : Bytes) : strcasecmp (canonicalName name) name = true := by
  have hsymm : ∀ {a b : Bytes}, strcasecmp a b = true → strcasecmp b a = true := fun h =>
    beq_iff_eq.mpr (beq_iff_eq.mp h).symm
  unfold canonicalName
  split
  · rename_i h
    exact hsymm h
  · split
    · rename_i h
      exact hsymm h
    · split
      · rename_i h
        exact hsymm h
      · exact beq_iff_eq.mpr rfl

/-- Names that differ beyond case have different keys. -/
theorem canonicalName_ne {a b : Bytes} (h : strcasecmp a b = false) :
    canonicalName a ≠ canonicalName b := by
  intro e
  have h1 := beq_iff_eq.mp (strcasecmp_canonicalName a)
  have h2 := beq_iff_eq.mp (strcasecmp_canonicalName b)
  rw [e, h2] at h1
  rw [strcasecmp, h1, beq_self_eq_true] at h
  cases h

/-- **The parsed map holds exactly the fields sent**, under their keys. -/
theorem headerMap_lookup {fields : List (Bytes × Bytes)}
    (hd : fields.Pairwise fun f g => strcasecmp f.1 g.1 = false) (key : Bytes) :
    (headerMap fields).lookup key =
      (fields.find? fun f => decide (canonicalName f.1 = key)).map Prod.snd := by
  have general : ∀ m : StrMap Bytes,
      (fields.foldl (fun m f => m.insert (canonicalName f.1) f.2) m).lookup key =
        ((fields.find? fun f => decide (canonicalName f.1 = key)).map Prod.snd).or
          (m.lookup key) := by
    induction fields with
    | nil => intro m; rfl
    | cons f fs ih =>
      intro m
      obtain ⟨hf, hfs⟩ := List.pairwise_cons.mp hd
      rw [List.foldl_cons, ih hfs, List.find?_cons]
      by_cases hk : canonicalName f.1 = key
      · have hnone : fs.find? (fun g => decide (canonicalName g.1 = key)) = none := by
          rw [List.find?_eq_none]
          intro g hg
          have := canonicalName_ne (hf g hg)
          rw [hk] at this
          simpa using this.symm
        rw [hnone, decide_eq_true hk, hk, AList.lookup_insert]
        rfl
      · rw [decide_eq_false hk, AList.lookup_insert_ne (Ne.symm hk)]
  have := general ∅
  rw [headerMap, this]
  cases fields.find? fun f => decide (canonicalName f.1 = key) <;> rfl

end WireRequest

end Http
end UrlShortener
