import UrlShortener.Http.Message
import UrlShortener.Http.ProtocolUtils

/-!
# UrlShortener.Http.Conn

The connection object `http_conn`: its read buffer with the three cursors of the incremental
parser, the write side (`m_write_buf`, `m_iv[0]`, the two byte counters), and the functions the
event loop and the workers call on it.

* `Parser` holds the fields that `parse_request_line` and `parse_headers` set. Both take the C
  string of the current line; the NULs they write into that line only end the substrings they
  cut out of it, and bytes before `m_start_line` are never read again, so cutting the list
  stands for writing the NUL.
* `HttpConn` adds the buffer. `parse_line` writes its NULs into it, since they end the C string
  that the next call of `get_line` reads.
* Kernel calls are inputs: `recv` and `writev` answer with a `RecvResult` or a `WritevResult`,
  and a function that calls `modfd` returns the interest it armed.

`m_url`, `m_version` and `m_host` are locals of one call in effect, and `m_address`,
`m_close_log`, `mysql` and `m_state` steer nothing modelled here; they are left out.
-/

namespace UrlShortener
namespace Http

def READ_BUFFER_SIZE : Nat := 8192
def WRITE_BUFFER_SIZE : Nat := 8192

inductive Method where
  | get | post | put | delete | head | options
deriving DecidableEq, Repr

inductive CheckState where
  | requestLine | header | content
deriving DecidableEq, Repr

inductive HttpCode where
  | noRequest | getRequest | badRequest | requestEntityTooLarge | internalError | closedConnection
deriving DecidableEq, Repr

inductive LineStatus where
  | lineOk | lineBad | lineOpen
deriving DecidableEq, Repr

/-- `EPOLLIN` or `EPOLLOUT`. -/
inductive Interest where
  | epollin | epollout
deriving DecidableEq, Repr

def Method.name : Method → Bytes
  | .get => ascii "GET"
  | .post => ascii "POST"
  | .put => ascii "PUT"
  | .delete => ascii "DELETE"
  | .head => ascii "HEAD"
  | .options => ascii "OPTIONS"

/-! ## Parsing one line -/

structure Parser where
  checkState : CheckState := .requestLine
  method : Method := .get
  request : HttpRequest := {}
  contentLength : Nat := 0
  linger : Bool := true
deriving DecidableEq

namespace Parser

def methodOf (text : Bytes) : Option Method :=
  if strcasecmp text (ascii "GET") then some .get
  else if strcasecmp text (ascii "POST") then some .post
  else if strcasecmp text (ascii "PUT") then some .put
  else if strcasecmp text (ascii "DELETE") then some .delete
  else none

/-- `m_url` after the two scheme tests; `none` is the null pointer. -/
def stripScheme (url : Bytes) : Option Bytes := do
  let url ←
    if strncasecmp url (ascii "http://") 7 then
      let url := url.drop 7
      (strchr url 47).map fun k => url.drop k
    else some url
  if strncasecmp url (ascii "https://") 8 then
    let url := url.drop 8
    (strchr url 47).map fun k => url.drop k
  else some url

def parseRequestLine (p : Parser) (text : Bytes) : Parser × HttpCode :=
  match strpbrk text blanks with
  | none => (p, .badRequest)
  | some i =>
    let url := text.drop (i + 1)
    match methodOf (text.take i) with
    | none => (p, .badRequest)
    | some m =>
      let p := { p with method := m }
      let url := url.drop (strspn url blanks)
      match strpbrk url blanks with
      | none => (p, .badRequest)
      | some j =>
        let version := url.drop (j + 1)
        let version := version.drop (strspn version blanks)
        if strcasecmp version (ascii "HTTP/1.1") = false then (p, .badRequest)
        else
          match stripScheme (url.take j) with
          | none => (p, .badRequest)
          | some url =>
            if url.head? ≠ some 47 then (p, .badRequest)
            else
              let req := { p.request with method := m.name }
              let req :=
                match strchr url 63 with
                | some q => { req with query := url.drop (q + 1), path := url.take q }
                | none => { req with path := url }
              ({ p with request := req, checkState := .header }, .noRequest)

/-- `m_request.headers[key] = value`. -/
def setHeader (p : Parser) (key value : Bytes) : Parser :=
  { p with request := { p.request with headers := p.request.headers.insert key value } }

/-- The text after a header's name and colon, leading blanks skipped. -/
def headerValue (text : Bytes) (n : Nat) : Bytes :=
  (text.drop n).drop (strspn (text.drop n) blanks)

/-- `m_content_length` is never negative (`parse_content_length` refuses a sign that would make
it so), so the source's test for that case is not repeated. -/
def parseHeaders (p : Parser) (checkedIdx : Nat) (text : Bytes) : Parser × HttpCode :=
  if text = [] then
    if p.contentLength ≠ 0 then
      if READ_BUFFER_SIZE ≤ checkedIdx + p.contentLength then (p, .requestEntityTooLarge)
      else ({ p with checkState := .content }, .noRequest)
    else (p, .getRequest)
  else if strncasecmp text (ascii "Connection:") 11 then
    let value := headerValue text 11
    let p :=
      if strcasecmp value (ascii "keep-alive") then { p with linger := true }
      else if strcasecmp value (ascii "close") then { p with linger := false }
      else p
    (p.setHeader (ascii "Connection") value, .noRequest)
  else if strncasecmp text (ascii "Content-length:") 15 then
    let value := headerValue text 15
    match parseContentLength value with
    | none => (p, .badRequest)
    | some length =>
      if READ_BUFFER_SIZE ≤ length then (p, .requestEntityTooLarge)
      else ({ p with contentLength := length }.setHeader (ascii "Content-Length") value, .noRequest)
  else if isUnsupportedBodyEncodingHeader text then (p, .badRequest)
  else if strncasecmp text (ascii "Host:") 5 then
    (p.setHeader (ascii "Host") (headerValue text 5), .noRequest)
  else
    match strchr text 58 with
    | some colon => (p.setHeader (text.take colon) (headerValue text (colon + 1)), .noRequest)
    | none => (p, .noRequest)

end Parser

/-! ## The connection -/

structure HttpConn extends Parser where
  readBuf : Mem := Mem.zero
  readIdx : Nat := 0
  checkedIdx : Nat := 0
  startLine : Nat := 0
  writeBuf : Mem := Mem.zero
  writeIdx : Nat := 0
  iovBase : Nat := 0
  iovLen : Nat := 0
  bytesToSend : Nat := 0
  bytesHaveSend : Nat := 0
  pendingClose : Bool := false
  sockfd : Int := -1
  trigMode : Nat := 0
  generation : Nat := 0

/-- What one call of `recv` did; no bytes at all is the end of the stream. -/
inductive RecvResult where
  | data (bytes : Bytes)
  | eof
  | eagain
  | error
deriving DecidableEq

/-- What one call of `writev` did; `sent k` takes at most `k` of the offered bytes. -/
inductive WritevResult where
  | sent (k : Nat)
  | eintr
  | eagain
  | error
deriving DecidableEq

namespace HttpConn

/-- `init()`: the parser reset between two requests of a connection. -/
def init (c : HttpConn) : HttpConn :=
  { c with
    toParser := {}
    bytesToSend := 0
    bytesHaveSend := 0
    startLine := 0
    checkedIdx := 0
    readIdx := 0
    writeIdx := 0
    pendingClose := false
    readBuf := Mem.zero
    writeBuf := Mem.zero }

/-- `init(sockfd, ..)`: a new connection on the slot. `addfd` arms `EPOLLIN`, one-shot. -/
def initSocket (c : HttpConn) (sockfd : Int) (trigMode : Nat) : HttpConn :=
  init { c with sockfd := sockfd, trigMode := trigMode, generation := c.generation + 1 }

def invalidate (c : HttpConn) : HttpConn :=
  { c with generation := c.generation + 1, pendingClose := false, sockfd := -1 }

def hasPipelinedInput (c : HttpConn) : Bool := decide (c.checkedIdx < c.readIdx)

/-- The interest armed by `arm_epoll_if_current`, if it arms at all. -/
def armEpollIfCurrent (c : HttpConn) (expected : Nat) (ev : Interest) : Option Interest :=
  if c.generation = expected ∧ 0 ≤ c.sockfd then some ev else none

/-- `memcpy` of received bytes behind the ones already there. -/
def receive (c : HttpConn) (d : Bytes) : HttpConn :=
  { c with readBuf := c.readBuf.write c.readIdx d, readIdx := c.readIdx + d.length }

/-- The edge-triggered loop of `read_once`: it calls `recv` until the buffer is full or `recv`
has nothing more, which is also how the list of answers ends. -/
def readOnceEt : List RecvResult → Bool → HttpConn → HttpConn × Bool
  | [], gotData, c => (c, gotData || decide (READ_BUFFER_SIZE ≤ c.readIdx))
  | r :: rs, gotData, c =>
    if READ_BUFFER_SIZE ≤ c.readIdx then (c, true)
    else
      match r with
      | .eagain => (c, gotData || decide (READ_BUFFER_SIZE ≤ c.readIdx))
      | .error => (c, false)
      | .eof => (c, gotData)
      | .data d =>
        if d = [] then (c, gotData)
        else readOnceEt rs true (c.receive (d.take (READ_BUFFER_SIZE - c.readIdx)))

def readOnce (c : HttpConn) (rs : List RecvResult) : HttpConn × Bool :=
  if READ_BUFFER_SIZE ≤ c.readIdx then (c, true)
  else if c.trigMode = 0 then
    match rs with
    | .data d :: _ =>
      if d = [] then (c, false) else (c.receive (d.take (READ_BUFFER_SIZE - c.readIdx)), true)
    | _ => (c, false)
  else readOnceEt rs false c

/-- The scan of `parse_line`; the counter is `m_read_idx - m_checked_idx`. -/
def parseLineFrom : Nat → HttpConn → HttpConn × LineStatus
  | 0, c => (c, .lineOpen)
  | n + 1, c =>
    let temp := c.readBuf c.checkedIdx
    if temp = CR then
      if c.checkedIdx + 1 = c.readIdx then (c, .lineOpen)
      else if c.readBuf (c.checkedIdx + 1) = LF then
        ({ c with
            readBuf := (c.readBuf.set c.checkedIdx NUL).set (c.checkedIdx + 1) NUL
            checkedIdx := c.checkedIdx + 2 }, .lineOk)
      else (c, .lineBad)
    else if temp = LF then
      if 1 < c.checkedIdx ∧ c.readBuf (c.checkedIdx - 1) = CR then
        ({ c with
            readBuf := (c.readBuf.set (c.checkedIdx - 1) NUL).set c.checkedIdx NUL
            checkedIdx := c.checkedIdx + 1 }, .lineOk)
      else (c, .lineBad)
    else parseLineFrom n { c with checkedIdx := c.checkedIdx + 1 }

def parseLine (c : HttpConn) : HttpConn × LineStatus := parseLineFrom (c.readIdx - c.checkedIdx) c

/-- `text` is an offset into the read buffer; the body is `m_content_length` raw bytes of it. -/
def parseContent (c : HttpConn) (text : Nat) : HttpConn × HttpCode :=
  if c.contentLength + c.checkedIdx ≤ c.readIdx then
    ({ c with
        request := { c.request with body := c.readBuf.seg text c.contentLength }
        checkedIdx := c.checkedIdx + c.contentLength }, .getRequest)
  else (c, .noRequest)

/-- The loop body of `process_read`: `.inl code` leaves the function, `.inr` goes round again. -/
def processLine (c : HttpConn) (lineStatus : LineStatus) : HttpConn × (HttpCode ⊕ LineStatus) :=
  let text := c.startLine
  let line := c.readBuf.cstr READ_BUFFER_SIZE text
  let c := { c with startLine := c.checkedIdx }
  match c.checkState with
  | .requestLine =>
    let (p, ret) := c.toParser.parseRequestLine line
    ({ c with toParser := p }, if ret = .badRequest then .inl .badRequest else .inr lineStatus)
  | .header =>
    let (p, ret) := c.toParser.parseHeaders c.checkedIdx line
    ({ c with toParser := p },
      match ret with
      | .badRequest => .inl .badRequest
      | .requestEntityTooLarge => .inl .requestEntityTooLarge
      | .getRequest => .inl .getRequest
      | _ => .inr lineStatus)
  | .content =>
    let (c, ret) := c.parseContent text
    (c, if ret = .getRequest then .inl .getRequest else .inr .lineOpen)

/-- What `process_read` returns once its loop has ended. -/
def processReadExit (c : HttpConn) (lineStatus : LineStatus) : HttpCode :=
  if lineStatus = .lineBad then .badRequest
  else if READ_BUFFER_SIZE ≤ c.readIdx then .requestEntityTooLarge
  else .noRequest

/-- The loop of `process_read`. `processReadLoop_fuel` shows that the counter never runs out. -/
def processReadLoop : Nat → HttpConn → LineStatus → HttpConn × HttpCode
  | 0, c, _ => (c, .internalError)
  | n + 1, c, lineStatus =>
    if c.checkState = .content ∧ lineStatus = .lineOk then
      match c.processLine lineStatus with
      | (c, .inl code) => (c, code)
      | (c, .inr lineStatus) => processReadLoop n c lineStatus
    else
      match c.parseLine with
      | (c, .lineOk) =>
        match c.processLine .lineOk with
        | (c, .inl code) => (c, code)
        | (c, .inr lineStatus) => processReadLoop n c lineStatus
      | (c, lineStatus) => (c, c.processReadExit lineStatus)

def processRead (c : HttpConn) : HttpConn × HttpCode :=
  processReadLoop (2 * (c.readIdx - c.checkedIdx) + 2) c .lineOk

/-! ## The write side -/

def processWrite (c : HttpConn) (resp : HttpResponse) : HttpConn × Bool :=
  let raw := resp.serialize
  if WRITE_BUFFER_SIZE ≤ raw.length then (c, false)
  else
    ({ c with
        writeBuf := c.writeBuf.write 0 raw
        writeIdx := raw.length
        iovBase := 0
        iovLen := raw.length
        bytesToSend := raw.length }, true)

def retainPipelinedBytes (c : HttpConn) : HttpConn :=
  let leftover := c.readIdx - c.checkedIdx
  if 0 < leftover then
    let saved := c.readBuf.seg c.checkedIdx leftover
    { c.init with readBuf := c.init.readBuf.write 0 saved, readIdx := leftover }
  else { c.init with readIdx := leftover }

/-- How a call of `write` stands: still inside its loop (the next `writev` has not answered), or
returned, with the interest `modfd` armed on the way. -/
inductive WriteOutcome where
  | looping
  | returned (ok : Bool) (armed : Option Interest)
deriving DecidableEq, Repr

/-- The loop of `write`; the second component collects the bytes handed to the socket. -/
def writeLoop : List WritevResult → HttpConn → Bytes → HttpConn × Bytes × WriteOutcome
  | [], c, out => (c, out, .looping)
  | .eintr :: ws, c, out => writeLoop ws c out
  | .eagain :: _, c, out => (c, out, .returned true (some .epollout))
  | .error :: _, c, out => (c, out, .returned false none)
  | .sent k :: ws, c, out =>
    let temp := min k c.iovLen
    let out := out ++ c.writeBuf.seg c.iovBase temp
    let c := { c with
      bytesHaveSend := c.bytesHaveSend + temp
      bytesToSend := c.bytesToSend - temp
      iovBase := c.bytesHaveSend + temp
      iovLen := c.bytesToSend - temp }
    if c.bytesToSend = 0 then
      if c.linger then (c.retainPipelinedBytes, out, .returned true (some .epollin))
      else (c, out, .returned false (some .epollin))
    else writeLoop ws c out

def write (c : HttpConn) (ws : List WritevResult) : HttpConn × Bytes × WriteOutcome :=
  if c.pendingClose then ({ c with pendingClose := false }, [], .returned false none)
  else if c.bytesToSend = 0 then (c.retainPipelinedBytes, [], .returned true (some .epollin))
  else writeLoop ws c []

/-! ## The worker -/

end HttpConn

/-- What `Router::dispatch` did with a request. -/
inductive Dispatched where
  | answered (resp : HttpResponse)
  | unmatched
  | threw
deriving DecidableEq

/-- What one call of `process` did, for the histories the results are about. -/
inductive Processed where
  | stale
  | waiting
  | rejected (code : HttpCode)
  | dispatched (req : HttpRequest) (resp : HttpResponse)
  /-- An exception left the call. -/
  | raised
deriving DecidableEq

namespace HttpConn

/-- Status and text of the answer to a request the parser refused. -/
def errorStatus : HttpCode → Nat × Bytes
  | .badRequest => (400, ascii "bad request")
  | .requestEntityTooLarge => (413, ascii "request entity too large")
  | _ => (500, ascii "internal server error")

def errorResponse (code : HttpCode) : Option HttpResponse :=
  (HttpResponse.setStatus {} (errorStatus code).1).setJson
    [(ascii "error", some (errorStatus code).2)]

/-- The answer to a request no route matches. -/
def notFoundResponse (path : Bytes) : Option HttpResponse :=
  (HttpResponse.setStatus {} 404).setJson
    [(ascii "error", some (ascii "not found")), (ascii "path", some path)]

def withConnection (c : HttpConn) (resp : HttpResponse) : HttpResponse :=
  resp.setHeader (ascii "Connection") (if c.linger then ascii "keep-alive" else ascii "close")

/-- The end of `process`: buffer the response, or ask the event loop to close. -/
def finish (c : HttpConn) (expected : Nat) (resp : HttpResponse) : HttpConn × Option Interest :=
  match c.processWrite resp with
  | (c, true) => (c, c.armEpollIfCurrent expected .epollout)
  | (c, false) =>
    if c.generation = expected ∧ 0 ≤ c.sockfd then
      let c := { c with pendingClose := true }
      (c, c.armEpollIfCurrent expected .epollout)
    else (c, none)

/-- The three error branches of `process`. -/
def reject (c : HttpConn) (expected : Nat) (code : HttpCode) :
    Option (HttpConn × Option Interest) := do
  let resp ← errorResponse code
  return c.finish expected (c.withConnection resp)

section Process

variable {σ : Type} (dispatch : σ → HttpRequest → σ × Dispatched)

/-- The response to a parsed request: the matched handler's, or the 404 of `process`. -/
def respond (st : σ) (req : HttpRequest) : Option (σ × HttpResponse) :=
  match dispatch st req with
  | (st, .answered resp) => some (st, resp)
  | (st, .unmatched) => (notFoundResponse req.path).map fun resp => (st, resp)
  | (_, .threw) => none

/-- `process(expected)` run without interference, on the server state `st`. `none`: an exception
leaves the function (and the worker). Metrics and the access log are outputs only. -/
def process (st : σ) (c : HttpConn) (expected : Nat) :
    Option (σ × HttpConn × Option Interest × Processed) :=
  if c.generation ≠ expected then some (st, c, none, .stale)
  else
    match c.processRead with
    | (c, .noRequest) => some (st, c, c.armEpollIfCurrent expected .epollin, .waiting)
    | (c, .badRequest) =>
      (c.reject expected .badRequest).map fun r => (st, r.1, r.2, .rejected .badRequest)
    | (c, .requestEntityTooLarge) =>
      let c := { c with linger := false }
      (c.reject expected .requestEntityTooLarge).map
        fun r => (st, r.1, r.2, .rejected .requestEntityTooLarge)
    | (c, .internalError) =>
      (c.reject expected .internalError).map fun r => (st, r.1, r.2, .rejected .internalError)
    | (c, _) => do
      let (st, resp) ← respond dispatch st c.request
      let resp := c.withConnection resp
      let (c', armed) := c.finish expected resp
      return (st, c', armed, .dispatched c.request resp)

end Process

end HttpConn

end Http
end UrlShortener
