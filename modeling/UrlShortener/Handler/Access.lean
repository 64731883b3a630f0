import UrlShortener.Handler.Sizes
import UrlShortener.Http.RecaseRun
import UrlShortener.Observability.StructuredLogger

/-!
# UrlShortener.Handler.Access

The server with what a request leaves behind it: clicks in the queue of the producer and lines in
the queue of the access log.

Three consumers look headers up by name. `publish_click` and `log_access` ask the map for one
spelling each, and the map has the spelling of the wire. For which requests that differ in the case
of field names it makes no difference is what `header_case_iff` says.
-/

namespace UrlShortener
namespace Handler

open Analytics (ClickEvent clickEvent)
open Http (Dispatched HandlerFunc HttpCode HttpConn HttpRequest HttpResponse Interest Processed
  READ_BUFFER_SIZE SameButCase Uncased fieldLines lastSpelled splitPath)
open Http.Router (Handlers)
open Observability (Occasion StructuredLogger accessLine)

/-- `ClickEventProducer`, for a request thread. -/
structure ClickEventProducer where
  enabled : Bool
  accepting : Bool
  maxQueue : Nat
  queue : List ClickEvent := []

namespace ClickEventProducer

/-- `publish_click`, on the event that it builds; the metrics and what it returns are left out. -/
def publishClick (p : ClickEventProducer) (event : ClickEvent) : ClickEventProducer :=
  if !p.enabled || !p.accepting || decide (p.maxQueue ≤ p.queue.length) then p
  else { p with queue := p.queue ++ [event] }

/-- The next click finds a place in the queue. -/
structure Takes (p : ClickEventProducer) : Prop where
  enabled : p.enabled = true
  accepting : p.accepting = true
  room : p.queue.length < p.maxQueue

theorem publishClick_takes {p : ClickEventProducer} (h : p.Takes) (event : ClickEvent) :
    p.publishClick event = { p with queue := p.queue ++ [event] } := by
  have hroom := Nat.not_le.mpr h.room
  unfold publishClick
  simp only [h.enabled, h.accepting, hroom, Bool.not_true, decide_false, Bool.or_self,
    Bool.false_eq_true, if_false]

theorem publishClick_drops {p : ClickEventProducer} (h : ¬ p.Takes) (event : ClickEvent) :
    p.publishClick event = p := by
  unfold publishClick
  split
  · rfl
  · rename_i hon
    simp only [Bool.or_eq_true, Bool.not_eq_true', decide_eq_true_eq, not_or, Bool.not_eq_false,
      Nat.not_le] at hon
    obtain ⟨⟨henabled, haccepting⟩, hroom⟩ := hon
    exact absurd ⟨henabled, haccepting, hroom⟩ h

end ClickEventProducer

structure Server (cfg : Config) where
  process : Process cfg
  producer : ClickEventProducer
  logger : StructuredLogger

namespace Server

variable {cfg : Config}

/-- A handler that leaves the two queues alone. -/
def lift (f : HandlerFunc (Process cfg)) : HandlerFunc (Server cfg) := fun s req =>
  ({ s with process := (f s.process req).1 }, (f s.process req).2)

def redirect (o : Outside) : HandlerFunc (Server cfg) := fun s req =>
  let served := Handler.redirect s.process req o.toVisit
  ({ s with
      process := served.process
      producer := served.published.foldl ClickEventProducer.publishClick s.producer },
    served.response)

def handlers (o : Outside) : Handlers (Server cfg) where
  health := lift health
  metrics := lift (metrics o)
  shorten := lift (shorten o)
  redirect := redirect o

def table (o : Outside) : List (Http.Route (Server cfg)) := Http.Router.routes (handlers o)

def dispatch (o : Outside) : Server cfg → HttpRequest → Server cfg × Dispatched :=
  Http.Router.dispatch (table o)

/-- `route_pattern` behind `dispatch`. -/
def routePattern (routes : List (Http.Route (Server cfg))) (req : HttpRequest) : Bytes :=
  match routes.find? fun r => (Http.Router.matchRoute r req).isSome with
  | some r => r.pattern
  | none => ascii "unmatched"

/-- What `process` hands to `log_access`, if it comes to that: the request and the status. -/
def accessed (routes : List (Http.Route (Server cfg))) (c : HttpConn) :
    Processed → Option (HttpRequest × Int)
  | .rejected code => some (c.request, (HttpConn.errorStatus code).1)
  | .dispatched req resp => some ({ req with routePattern := routePattern routes req }, resp.statusCode)
  | _ => none

def logAccess (at_ : Occasion) (s : Server cfg) : Option (HttpRequest × Int) → Server cfg
  | some (req, status) => { s with logger := s.logger.logAccess at_ req status }
  | none => s

/-- `process` with its line in the access log. -/
def serve (o : Outside) (at_ : Occasion) (s : Server cfg) (c : HttpConn) (expected : Nat) :
    Option (Server cfg × HttpConn × Option Interest × Processed) :=
  (c.process (dispatch o) s expected).map fun r =>
    (r.1.logAccess at_ (accessed (table o : List (Http.Route (Server cfg))) r.2.1 r.2.2.2), r.2)

/-- Bytes come in and a worker calls `process`, until it does more than wait. -/
def arrive (o : Outside) (at_ : Occasion) (s : Server cfg) (c : HttpConn) :
    List Bytes → Option (Server cfg × HttpConn × Option Interest × Processed)
  | [] => some (s, c, c.armEpollIfCurrent c.generation .epollin, .waiting)
  | d :: chunks =>
    match s.serve o at_ (c.receive d) c.generation with
    | some (s, c, _, .waiting) => arrive o at_ s c chunks
    | r => r

/-! ## What the handlers make of the headers -/

theorem redirect_headers (s : Process cfg) (req : HttpRequest) (headers : StrMap Bytes) (v : Visit) :
    (Handler.redirect s { req with headers := headers } v).process = (Handler.redirect s req v).process ∧
      (Handler.redirect s { req with headers := headers } v).response =
        (Handler.redirect s req v).response := by
  unfold Handler.redirect
  simp only
  cases req.params.lookup (ascii "code") with
  | none => exact ⟨rfl, rfl⟩
  | some code =>
    simp only
    split
    · exact ⟨rfl, rfl⟩
    · split
      · exact ⟨rfl, rfl⟩
      · cases LocalCache.get cfg.cache s.shards code s.now s.wall with
        | hit e => exact ⟨rfl, rfl⟩
        | expired e => exact ⟨rfl, rfl⟩
        | negHit => exact ⟨rfl, rfl⟩
        | miss => exact ⟨rfl, rfl⟩

/-- The same process, and lines are logged later. -/
structure SameButClicks (s s₁ s₂ : Server cfg) : Prop where
  process : s₂.process = s₁.process
  logger₁ : s₁.logger = s.logger
  logger₂ : s₂.logger = s.logger

/-- **No answer depends on the headers**, and of what stays behind the clicks only. -/
theorem dispatch_headers (o : Outside) (s : Server cfg) (req : HttpRequest) (headers : StrMap Bytes) :
    SameButClicks s (dispatch o s req).1 (dispatch o s { req with headers := headers }).1 ∧
      (dispatch o s { req with headers := headers }).2 = (dispatch o s req).2 := by
  have run : ∀ routes : List (Http.Route (Server cfg)),
      (∀ r ∈ routes, ∀ req : HttpRequest,
        SameButClicks s (r.handler s req).1 (r.handler s { req with headers := headers }).1 ∧
          (r.handler s { req with headers := headers }).2 = (r.handler s req).2) →
      SameButClicks s (Http.Router.dispatch routes s req).1
          (Http.Router.dispatch routes s { req with headers := headers }).1 ∧
        (Http.Router.dispatch routes s { req with headers := headers }).2 =
          (Http.Router.dispatch routes s req).2 := by
    intro routes hroutes
    induction routes with
    | nil => exact ⟨⟨rfl, rfl, rfl⟩, rfl⟩
    | cons r routes ih =>
      have hmatch : Http.Router.matchRoute r { req with headers := headers } =
          Http.Router.matchRoute r req := rfl
      rw [Http.Router.dispatch, Http.Router.dispatch, hmatch]
      cases Http.Router.matchRoute r req with
      | none => exact ih fun r' hr' => hroutes r' (List.mem_cons_of_mem _ hr')
      | some params =>
        obtain ⟨hsame, hresp⟩ := hroutes r List.mem_cons_self
          { req with params := params, routePattern := r.pattern }
        simp only at hsame hresp ⊢
        generalize r.handler s { req with params := params, routePattern := r.pattern } = x at hsame hresp
        generalize r.handler s
          { req with headers := headers, params := params, routePattern := r.pattern } = y at hsame hresp
        obtain ⟨s₁, resp⟩ := x
        obtain ⟨s₂, resp'⟩ := y
        obtain rfl : resp' = resp := hresp
        cases resp' with
        | none => exact ⟨hsame, rfl⟩
        | some resp => exact ⟨hsame, rfl⟩
  refine run _ ?_
  intro r hr req
  have lifted : ∀ f : HandlerFunc (Process cfg),
      (∀ p, f p { req with headers := headers } = f p req) →
      SameButClicks s (lift f s req).1 (lift f s { req with headers := headers }).1 ∧
        (lift f s { req with headers := headers }).2 = (lift f s req).2 := by
    intro f hf
    unfold lift
    rw [hf]
    exact ⟨⟨rfl, rfl, rfl⟩, rfl⟩
  simp only [table, Http.Router.routes, List.mem_cons, List.not_mem_nil, or_false] at hr
  obtain rfl | rfl | rfl | rfl := hr
  · exact lifted health fun p => rfl
  · exact lifted (metrics o) fun p => rfl
  · exact lifted (shorten o) fun p => rfl
  · obtain ⟨hprocess, hresponse⟩ := redirect_headers s.process req headers o.toVisit
    exact ⟨⟨hprocess, rfl, rfl⟩, hresponse⟩

/-! ## The clicks -/

/-- `redirect` is asked for a code that it finds. -/
def Clicks (o : Outside) (s : Process cfg) (req : HttpRequest) : Prop :=
  target req = .redirect ∧ ∃ code url, splitPath req.path = [code] ∧ code ≠ [] ∧
    o.bloom.hardMiss code ≠ some true ∧ Finds s code o.toVisit url

/-- What the route of the redirect hands on. -/
theorem dispatch_redirect {σ : Type} (h : Handlers σ) (s : σ) {req : HttpRequest} {code : Bytes}
    (ht : target req = .redirect) (hcode : splitPath req.path = [code]) :
    Http.Router.dispatch (Http.Router.routes h) s req =
      returned (h.redirect s { req with
        params := (∅ : StrMap Bytes).insert (ascii "code") code
        routePattern := ascii "/\x7bcode\x7d" }) := by
  have hhealth := match_health h.health req
  have hmetrics := match_metrics h.metrics req
  have hshorten := match_shorten h.shorten req
  unfold target at ht
  by_cases hget : req.method = ascii "GET"
  · rw [if_pos hget] at ht
    by_cases h1 : splitPath req.path = [ascii "health"]
    · rw [if_pos h1] at ht
      cases ht
    · rw [if_neg h1] at ht
      by_cases h2 : splitPath req.path = [ascii "metrics"]
      · rw [if_pos h2] at ht
        cases ht
      · rw [if_neg fun h => h1 h.2] at hhealth
        rw [if_neg fun h => h2 h.2] at hmetrics
        have hpost : ascii "POST" ≠ ascii "GET" := by decide
        rw [if_neg fun h => hpost (h.1.symm.trans hget)] at hshorten
        exact (dispatch_cons_of_none hhealth).trans <| (dispatch_cons_of_none hmetrics).trans <|
          (dispatch_cons_of_none hshorten).trans
            (dispatch_cons_of_some (match_code h.redirect hget hcode))
  · rw [if_neg hget] at ht
    split at ht
    · cases ht
    · cases ht

/-- **The clicks of a request**, whatever its headers are: one if its mapping is found. -/
theorem dispatch_producer (o : Outside) (s : Server cfg) (req : HttpRequest) :
    (Clicks o s.process req ∧ ∃ code, ∀ headers,
      (dispatch o s { req with headers := headers }).1.producer =
        s.producer.publishClick (clickEvent { req with headers := headers } code o.nowMs)) ∨
    (¬ Clicks o s.process req ∧ ∀ headers,
      (dispatch o s { req with headers := headers }).1.producer = s.producer) := by
  by_cases ht : target req = .redirect
  · have hone : (splitPath req.path).length = 1 := by
      unfold target at ht
      split at ht
      · split at ht
        · cases ht
        · split at ht
          · cases ht
          · split at ht
            · rename_i h
              exact h
            · cases ht
      · split at ht
        · cases ht
        · cases ht
    obtain ⟨code, hcode⟩ := List.length_eq_one_iff.mp hone
    -- the request that the handler gets
    let routed (headers : StrMap Bytes) : HttpRequest :=
      { req with
        headers := headers
        params := (∅ : StrMap Bytes).insert (ascii "code") code
        routePattern := ascii "/\x7bcode\x7d" }
    have hparam : ∀ headers, (routed headers).params.lookup (ascii "code") = some code :=
      fun headers => AList.lookup_insert _
    have hproducer : ∀ headers, (dispatch o s { req with headers := headers }).1.producer =
        (Handler.redirect s.process (routed headers) o.toVisit).published.foldl
          ClickEventProducer.publishClick s.producer := by
      intro headers
      have ht' : target { req with headers := headers } = .redirect := ht
      have hd := dispatch_redirect (handlers o) s ht' hcode
      unfold dispatch table
      rw [hd]
      unfold returned
      simp only [handlers, redirect]
      cases (Handler.redirect s.process (routed headers) o.toVisit).response with
      | none => rfl
      | some resp => rfl
    have hiff : ∀ headers code' url, (Admitted (routed headers) o.toVisit code' ∧
        Finds s.process code' o.toVisit url) → code' = code ∧ Clicks o s.process req := by
      rintro headers code' url ⟨hadmitted, hfinds⟩
      obtain rfl : code' = code := Option.some.inj (hadmitted.param.symm.trans (hparam headers))
      exact ⟨rfl, ht, code', url, hcode, hadmitted.nonempty, hadmitted.bloom, hfinds⟩
    by_cases hclicks : Clicks o s.process req
    · left
      refine ⟨hclicks, code, fun headers => ?_⟩
      rw [hproducer]
      obtain ⟨-, code', url, hcode', hne, hbloom, hfinds⟩ := hclicks
      obtain rfl : code' = code := by
        rw [hcode] at hcode'
        exact (List.cons.inj hcode').1.symm
      have hserves := redirect_serves s.process (routed headers) o.toVisit
      generalize Handler.redirect s.process (routed headers) o.toVisit = served at hserves
      cases hserves with
      | @found s' code₂ url₂ hadmitted hfinds₂ =>
        rw [(hiff headers code₂ url₂ ⟨hadmitted, hfinds₂⟩).1]
        rfl
      | other hnone _ => exact absurd hfinds (hnone code' url ⟨hparam headers, hne, hbloom⟩)
    · right
      refine ⟨hclicks, fun headers => ?_⟩
      rw [hproducer]
      have hserves := redirect_serves s.process (routed headers) o.toVisit
      generalize Handler.redirect s.process (routed headers) o.toVisit = served at hserves
      cases hserves with
      | @found s' code₂ url₂ hadmitted hfinds₂ =>
        exact absurd (hiff headers code₂ url₂ ⟨hadmitted, hfinds₂⟩).2 hclicks
      | other _ _ => rfl
  · right
    refine ⟨fun h => ht h.1, fun headers => ?_⟩
    obtain ⟨params, pattern, hd⟩ := dispatch_routes (handlers o) s { req with headers := headers }
    have lifted : ∀ (f : HandlerFunc (Process cfg)) (req : HttpRequest),
        (returned (lift f s req)).1.producer = s.producer := by
      intro f req
      unfold lift returned
      cases (f s.process req).2 with
      | none => rfl
      | some resp => rfl
    have ht' : target { req with headers := headers } = target req := by
      simp only [target]
    unfold dispatch table
    rw [hd, ht']
    cases htarget : target req with
    | health =>
      rw [answerBy, show (handlers o).health = (lift health : HandlerFunc (Server cfg)) from rfl]
      exact lifted health _
    | metrics =>
      rw [answerBy, show (handlers o).metrics = (lift (metrics o) : HandlerFunc (Server cfg)) from rfl]
      exact lifted (metrics o) _
    | shorten =>
      rw [answerBy, show (handlers o).shorten = (lift (shorten o) : HandlerFunc (Server cfg)) from rfl]
      exact lifted (shorten o) _
    | redirect => exact absurd htarget ht
    | unmatched => rfl

/-! ## Runs -/

/-- A run is what `process_read` finds in the chunks, answered and logged. -/
theorem arrive_eq (o : Outside) (at_ : Occasion) (s : Server cfg) (c : HttpConn)
    (chunks : List Bytes) :
    s.arrive o at_ c chunks =
      (HttpConn.afterRead (dispatch o) s c.generation (HttpConn.feed c chunks)).map fun r =>
        (r.1.logAccess at_ (accessed (table o : List (Http.Route (Server cfg))) r.2.1 r.2.2.2), r.2) := by
  induction chunks generalizing c with
  | nil => rfl
  | cons d chunks ih =>
    have hgen : (c.receive d).processRead.1.generation = c.generation := by
      obtain ⟨p, buf, k, n, hm, -, -⟩ := HttpConn.processReadLoop_frame
        (2 * ((c.receive d).readIdx - (c.receive d).checkedIdx) + 2) (c.receive d) .lineOk
      have hm : (c.receive d).processRead.1 = (c.receive d).moved p buf k n := hm
      rw [hm]
      rfl
    have hprocess := HttpConn.process_afterRead (dispatch o) s (c.receive d)
    rw [show (c.receive d).generation = c.generation from rfl] at hprocess
    rw [arrive, serve, hprocess]
    rcases hr : (c.receive d).processRead with ⟨c₁, code⟩
    rw [hr] at hgen
    simp only at hgen
    by_cases hcode : code = .noRequest
    · subst hcode
      rw [HttpConn.feed, hr, HttpConn.afterRead, if_pos rfl]
      rw [← hgen]
      exact ih c₁
    · rw [HttpConn.feed_stop hr hcode]
      cases hafter : HttpConn.afterRead (dispatch o) s c.generation (c₁, code) with
      | none => rfl
      | some r =>
        obtain ⟨s', c', armed, did⟩ := r
        rcases HttpConn.afterRead_did hcode hafter with ⟨code', rfl⟩ | ⟨resp, rfl⟩
        · rfl
        · rfl

/-! ## Requests that differ in case -/

/-- What a run comes to; `none`: an exception leaves `process`. -/
abbrev Result (cfg : Config) := Option (Server cfg × HttpConn × Option Interest × Processed)

/-- The same answer on the same connection: all that differs is the header map and the bytes that
were received. -/
inductive SameAnswer : Result cfg → Result cfg → Prop
  | threw : SameAnswer none none
  | answered {s s' : Server cfg} {c : HttpConn} {armed : Option Interest} {did : Processed}
      {headers : StrMap Bytes} {buf : Mem} {k : Nat} (hprocess : s'.process = s.process) :
      SameAnswer (some (s, c, armed, did))
        (some (s', c.recast headers buf k, armed, HttpConn.Processed.withHeaders headers did))

/-- The clicks and the lines in the queues. -/
def queues (r : Result cfg) : Option (List ClickEvent × List Bytes) :=
  r.map fun r => (r.1.producer.queue, r.1.logger.queue)

/-- The same response, the same clicks, the same lines. -/
structure CaseBlind (r r' : Result cfg) : Prop where
  answer : SameAnswer r r'
  queues : queues r' = queues r

/-- A request has been answered. -/
def Answered (r : Result cfg) : Prop :=
  ∃ s c armed did, r = some (s, c, armed, did) ∧ did ≠ .waiting

/-- The names that `publish_click` asks for. -/
def clickHeaders : List Bytes := [ascii "User-Agent", ascii "Referer", ascii "X-Forwarded-For"]

/-- The spellings that are asked for have the same values, as far as somebody asks. -/
structure Unnoticed (o : Outside) (s : Server cfg) (c : HttpConn) (chunks chunks' : List Bytes) :
    Prop where
  line : s.logger.Takes → lastSpelled (ascii "User-Agent") (fieldLines chunks'.flatten) =
    lastSpelled (ascii "User-Agent") (fieldLines chunks.flatten)
  click : s.producer.Takes → (HttpConn.feed c.init chunks).2 = .getRequest →
    Clicks o s.process (HttpConn.feed c.init chunks).1.request → ∀ name ∈ clickHeaders,
      lastSpelled name (fieldLines chunks'.flatten) = lastSpelled name (fieldLines chunks.flatten)

theorem clickHeaders_uncased {name : Bytes} (h : name ∈ clickHeaders) : Uncased name := by
  simp only [clickHeaders, List.mem_cons, List.not_mem_nil, or_false] at h
  obtain rfl | rfl | rfl := h
  · exact ⟨by decide +kernel, by decide +kernel, by decide +kernel⟩
  · exact ⟨by decide +kernel, by decide +kernel, by decide +kernel⟩
  · exact ⟨by decide +kernel, by decide +kernel, by decide +kernel⟩

theorem clickEvent_headers_iff (req : HttpRequest) (headers : StrMap Bytes) (code : Bytes)
    (now : Int) :
    clickEvent { req with headers := headers } code now = clickEvent req code now ↔
      ∀ name ∈ clickHeaders,
        ({ req with headers := headers } : HttpRequest).headerOrEmpty name = req.headerOrEmpty name := by
  simp only [clickHeaders, List.mem_cons, List.not_mem_nil, or_false, forall_eq_or_imp, forall_eq,
    clickEvent, ClickEvent.mk.injEq, true_and, and_true]

theorem accessed_headers (routes : List (Http.Route (Server cfg))) (c : HttpConn)
    (headers : StrMap Bytes) (buf : Mem) (k : Nat) (did : Processed) :
    accessed routes (c.recast headers buf k) (HttpConn.Processed.withHeaders headers did) =
      (accessed routes c did).map fun e => ({ e.1 with headers := headers }, e.2) := by
  cases did with
  | stale => rfl
  | waiting => rfl
  | raised => rfl
  | rejected code => rfl
  | dispatched req resp => rfl

/-- The lines are the same when `User-Agent` is, or when none is taken. -/
theorem logAccess_queue_iff (at_ : Occasion) (l : StructuredLogger) (req : HttpRequest) (status : Int)
    (headers : StrMap Bytes) :
    (l.logAccess at_ { req with headers := headers } status).queue =
        (l.logAccess at_ req status).queue ↔
      (l.Takes → ({ req with headers := headers } : HttpRequest).headerOrEmpty (ascii "User-Agent") =
        req.headerOrEmpty (ascii "User-Agent")) := by
  by_cases htakes : l.Takes
  · rw [StructuredLogger.logAccess_takes htakes, StructuredLogger.logAccess_takes htakes]
    simp only [List.append_cancel_left_eq, List.cons.injEq, and_true]
    rw [Observability.accessLine_headers]
    exact ⟨fun h _ => h, fun h => h htakes⟩
  · rw [StructuredLogger.logAccess_drops htakes, StructuredLogger.logAccess_drops htakes]
    exact iff_of_true rfl fun h => absurd h htakes

/-- The clicks are the same when the three headers are, or when none is taken. -/
theorem dispatch_clicks_iff (o : Outside) (s : Server cfg) (req : HttpRequest)
    (headers : StrMap Bytes) :
    (dispatch o s { req with headers := headers }).1.producer.queue =
        (dispatch o s req).1.producer.queue ↔
      (s.producer.Takes → Clicks o s.process req → ∀ name ∈ clickHeaders,
        ({ req with headers := headers } : HttpRequest).headerOrEmpty name = req.headerOrEmpty name) := by
  rcases dispatch_producer o s req with ⟨hclicks, code, hproducer⟩ | ⟨hclicks, hproducer⟩
  · have hown := hproducer req.headers
    rw [show ({ req with headers := req.headers } : HttpRequest) = req from rfl] at hown
    rw [hproducer headers, hown]
    by_cases htakes : s.producer.Takes
    · rw [ClickEventProducer.publishClick_takes htakes, ClickEventProducer.publishClick_takes htakes]
      simp only [List.append_cancel_left_eq, List.cons.injEq, and_true]
      rw [clickEvent_headers_iff]
      exact ⟨fun h _ _ => h, fun h => h htakes hclicks⟩
    · rw [ClickEventProducer.publishClick_drops htakes, ClickEventProducer.publishClick_drops htakes]
      exact iff_of_true rfl fun h => absurd h htakes
  · have hown := hproducer req.headers
    rw [show ({ req with headers := req.headers } : HttpRequest) = req from rfl] at hown
    rw [hproducer headers, hown]
    exact iff_of_true rfl fun _ h => absurd h hclicks

theorem logAccess_process (at_ : Occasion) (s : Server cfg) (e : Option (HttpRequest × Int)) :
    (s.logAccess at_ e).process = s.process := by
  cases e with
  | none => rfl
  | some e => rfl

/-- What `process` logs, of a request that it has answered. -/
theorem accessed_some (routes : List (Http.Route (Server cfg))) {s s' : Server cfg} {expected : Nat}
    {c c' : HttpConn} {code : HttpCode} {armed : Option Interest} {did : Processed}
    {dispatch : Server cfg → HttpRequest → Server cfg × Dispatched} (hcode : code ≠ .noRequest)
    (h : HttpConn.afterRead dispatch s expected (c, code) = some (s', c', armed, did)) :
    ∃ req status, accessed routes c' did = some (req, status) ∧ req.headers = c.request.headers := by
  obtain ⟨-, hrequest⟩ := HttpConn.afterRead_state h
  simp only at hrequest
  rcases HttpConn.afterRead_did hcode h with ⟨code', rfl⟩ | ⟨resp, rfl⟩
  · exact ⟨_, _, rfl, congrArg HttpRequest.headers hrequest⟩
  · exact ⟨_, _, rfl, rfl⟩

/-- **When the case of field names makes no difference.** Two streams that differ in it only, cut
into the same chunks, are answered alike in every state of the server. The same clicks and the same
lines stay behind exactly when the spellings that are asked for have the same values in both. -/
theorem header_case_iff (o : Outside) (at_ : Occasion) (s : Server cfg) (c : HttpConn)
    {chunks chunks' : List Bytes} {rest rest' : Bytes}
    (hcase : SameButCase (chunks.flatten ++ rest) (chunks'.flatten ++ rest'))
    (hcuts : chunks.map List.length = chunks'.map List.length)
    (hfit : chunks.flatten.length ≤ READ_BUFFER_SIZE) :
    CaseBlind (s.arrive o at_ c.init chunks) (s.arrive o at_ c.init chunks') ↔
      (Answered (s.arrive o at_ c.init chunks) → Unnoticed o s c chunks chunks') := by
  have hfit' : chunks'.flatten.length ≤ READ_BUFFER_SIZE := by
    rw [List.length_flatten, ← hcuts, ← List.length_flatten]
    exact hfit
  obtain ⟨headers, buf, k, hfeed⟩ := HttpConn.feed_alike (c := c.init) hcuts
    (by show 0 + _ ≤ _; omega) (HttpConn.alike_init c hcase)
  have hname : ∀ {name}, name ∈ clickHeaders →
      (({ (HttpConn.feed c.init chunks).1.request with headers := headers } : HttpRequest).headerOrEmpty
          name = (HttpConn.feed c.init chunks).1.request.headerOrEmpty name ↔
        lastSpelled name (fieldLines chunks'.flatten) = lastSpelled name (fieldLines chunks.flatten)) := by
    intro name hmem
    rw [← HttpConn.feed_headerOrEmpty (clickHeaders_uncased hmem) c hfit,
      ← HttpConn.feed_headerOrEmpty (clickHeaders_uncased hmem) c hfit', hfeed]
    rfl
  have hroom : c.init.readIdx + chunks.flatten.length ≤ READ_BUFFER_SIZE := by
    show 0 + _ ≤ _
    omega
  have hcodes := HttpConn.feed_code (HttpConn.init_ready c) hroom
  have hagent : ascii "User-Agent" ∈ clickHeaders := List.mem_cons_self
  have hline : (s.logger.Takes → ({ (HttpConn.feed c.init chunks).1.request with
        headers := headers } : HttpRequest).headerOrEmpty (ascii "User-Agent") =
          (HttpConn.feed c.init chunks).1.request.headerOrEmpty (ascii "User-Agent")) ↔
      (s.logger.Takes → lastSpelled (ascii "User-Agent") (fieldLines chunks'.flatten) =
        lastSpelled (ascii "User-Agent") (fieldLines chunks.flatten)) :=
    imp_congr_right fun _ => hname hagent
  rw [arrive_eq, arrive_eq, hfeed]
  have hunnoticed : Unnoticed o s c chunks chunks' ↔ _ ∧ _ :=
    ⟨fun h => ⟨h.line, h.click⟩, fun h => ⟨h.1, h.2⟩⟩
  rw [hunnoticed, ← hline]
  rcases hr : HttpConn.feed c.init chunks with ⟨c₁, code⟩
  rw [hr] at hname hcodes
  simp only at hname hcodes ⊢
  rw [HttpConn.afterRead_recast (fun st req headers => (dispatch_headers o st req headers).2)]
  cases hafter : HttpConn.afterRead (dispatch o) s c.init.generation (c₁, code) with
  | none =>
    refine iff_of_true ⟨.threw, rfl⟩ ?_
    rintro ⟨s', c', armed, did, he, -⟩
    cases he
  | some r =>
    obtain ⟨s₁, c₂, armed, did⟩ := r
    obtain ⟨hstate, -⟩ := HttpConn.afterRead_state hafter
    obtain ⟨hsame, -⟩ := dispatch_headers o s c₁.request headers
    simp only at hstate
    subst hstate
    -- only an accepted request is dispatched
    have hprocess : (HttpConn.stateAfter (dispatch o) s { c₁.request with headers := headers } code).process =
        (HttpConn.stateAfter (dispatch o) s c₁.request code).process := by
      cases code with
      | getRequest => exact hsame.process
      | closedConnection => exact absurd rfl hcodes
      | noRequest => rfl
      | badRequest => rfl
      | requestEntityTooLarge => rfl
      | internalError => rfl
    have hloggers : (HttpConn.stateAfter (dispatch o) s c₁.request code).logger = s.logger ∧
        (HttpConn.stateAfter (dispatch o) s { c₁.request with headers := headers } code).logger =
          s.logger := by
      cases code with
      | getRequest => exact ⟨hsame.logger₁, hsame.logger₂⟩
      | closedConnection => exact absurd rfl hcodes
      | noRequest => exact ⟨rfl, rfl⟩
      | badRequest => exact ⟨rfl, rfl⟩
      | requestEntityTooLarge => exact ⟨rfl, rfl⟩
      | internalError => exact ⟨rfl, rfl⟩
    have hclicks :
        (HttpConn.stateAfter (dispatch o) s { c₁.request with headers := headers } code).producer.queue =
          (HttpConn.stateAfter (dispatch o) s c₁.request code).producer.queue ↔
        (s.producer.Takes → code = .getRequest → Clicks o s.process c₁.request →
          ∀ name ∈ clickHeaders, lastSpelled name (fieldLines chunks'.flatten) =
            lastSpelled name (fieldLines chunks.flatten)) := by
      cases code with
      | getRequest =>
        refine (dispatch_clicks_iff o s c₁.request headers).trans ?_
        constructor
        · intro h htakes _ hc name hmem
          exact (hname hmem).mp (h htakes hc name hmem)
        · intro h htakes hc name hmem
          exact (hname hmem).mpr (h htakes rfl hc name hmem)
      | closedConnection => exact absurd rfl hcodes
      | noRequest => exact iff_of_true rfl fun _ h => by cases h
      | badRequest => exact iff_of_true rfl fun _ h => by cases h
      | requestEntityTooLarge => exact iff_of_true rfl fun _ h => by cases h
      | internalError => exact iff_of_true rfl fun _ h => by cases h
    simp only [Option.map_some]
    rw [accessed_headers]
    have hanswer : ∀ e e', SameAnswer
        (some ((HttpConn.stateAfter (dispatch o) s c₁.request code).logAccess at_ e, c₂, armed, did))
        (some ((HttpConn.stateAfter (dispatch o) s { c₁.request with headers := headers } code).logAccess
          at_ e', c₂.recast headers buf k, armed, HttpConn.Processed.withHeaders headers did)) := by
      intro e e'
      refine .answered ?_
      rw [logAccess_process, logAccess_process, hprocess]
    by_cases hcode : code = .noRequest
    · subst hcode
      rw [HttpConn.afterRead, if_pos rfl] at hafter
      cases hafter
      refine iff_of_true ⟨hanswer _ _, rfl⟩ ?_
      rintro ⟨s', c', armed', did', he, hdid⟩
      cases he
      exact absurd rfl hdid
    · obtain ⟨req, status, haccessed, hheaders⟩ := accessed_some (table o) hcode hafter
      have hanswered : did ≠ .waiting := by
        rcases HttpConn.afterRead_did hcode hafter with ⟨code', rfl⟩ | ⟨resp, rfl⟩
        · simp
        · simp
      have hqueue := logAccess_queue_iff at_ s.logger req status headers
      have hown : req.headerOrEmpty (ascii "User-Agent") =
          c₁.request.headerOrEmpty (ascii "User-Agent") := by
        rw [HttpRequest.headerOrEmpty, HttpRequest.headerOrEmpty, hheaders]
      rw [hown] at hqueue
      rw [haccessed]
      have hqueues : queues (some
            ((HttpConn.stateAfter (dispatch o) s { c₁.request with headers := headers } code).logAccess at_
              (some ({ req with headers := headers }, status)),
              c₂.recast headers buf k, armed, HttpConn.Processed.withHeaders headers did)) =
          queues (some ((HttpConn.stateAfter (dispatch o) s c₁.request code).logAccess at_
            (some (req, status)), c₂, armed, did)) ↔
          (s.producer.Takes → code = .getRequest → Clicks o s.process c₁.request →
            ∀ name ∈ clickHeaders, lastSpelled name (fieldLines chunks'.flatten) =
              lastSpelled name (fieldLines chunks.flatten)) ∧
          (s.logger.Takes → ({ req with headers := headers } : HttpRequest).headerOrEmpty
            (ascii "User-Agent") = c₁.request.headerOrEmpty (ascii "User-Agent")) := by
        rw [← hclicks, ← hqueue]
        simp only [queues, logAccess, Option.map_some, Option.some.injEq, Prod.mk.injEq, hloggers.1,
          hloggers.2]
      constructor
      · intro h _
        obtain ⟨h1, h2⟩ := hqueues.mp h.queues
        exact ⟨h2, h1⟩
      · intro h
        obtain ⟨h1, h2⟩ := h ⟨_, _, _, _, rfl, hanswered⟩
        exact ⟨hanswer _ _, hqueues.mpr ⟨h2, h1⟩⟩

/-! ## One request, spelled in two ways -/

/-- A server with room in both queues. -/
def roomy : Server plainConfig where
  process := foreignRow
  producer := { enabled := true, accepting := true, maxQueue := 4 }
  logger := { enabled := true, path := ascii "logs/access.log", accepting := true, maxQueue := 4 }

def noon : Occasion where
  ts := ascii "2026-01-01T12:00:00Z"
  durationMs := ascii "0.100"
  remoteAddr := ascii "127.0.0.1"

/-- `GET /health`, with one header field of this name and the value `x`. -/
def healthWith (name : Bytes) : Bytes :=
  ascii "GET /health HTTP/1.1" ++ CR :: LF :: ((name ++ Http.COLON :: ascii " x") ++
    CR :: LF :: [CR, LF])

theorem healthWith_sameButCase {name name' : Bytes} (hname : Http.COLON ∉ name ∧ NUL ∉ name)
    (hclean : Http.Clean (name ++ Http.COLON :: ascii " x"))
    (hcase : lower name = lower name') :
    SameButCase (healthWith name) (healthWith name') :=
  .fields (by unfold Http.Clean; decide +kernel) (.recased hname hclean hcase (.same _))

/-- Nobody asks for `X-Trace`. -/
theorem header_case_iff_trace :
    CaseBlind
      (roomy.arrive quiet noon (HttpConn.init {}) [healthWith (ascii "X-Trace")])
      (roomy.arrive quiet noon (HttpConn.init {}) [healthWith (ascii "x-trace")]) := by
  have hcase : SameButCase (healthWith (ascii "X-Trace")) (healthWith (ascii "x-trace")) :=
    healthWith_sameButCase (by decide +kernel) (by unfold Http.Clean; decide +kernel)
      (by decide +kernel)
  have hstreams : SameButCase ([healthWith (ascii "X-Trace")].flatten ++ [])
      ([healthWith (ascii "x-trace")].flatten ++ []) := by
    simpa using hcase
  exact (header_case_iff quiet noon roomy {} hstreams (by decide +kernel) (by decide +kernel)).mpr
    fun _ => ⟨fun _ => by decide +kernel, fun _ _ _ => by decide +kernel⟩

/-- `user-agent` is not `User-Agent`. -/
theorem header_case_noticed : ¬ ∀ (o : Outside) (at_ : Occasion) (s : Server plainConfig)
    (c : HttpConn) (stream stream' : Bytes), SameButCase stream stream' →
      CaseBlind (s.arrive o at_ c.init [stream]) (s.arrive o at_ c.init [stream']) := by
  intro hall
  have hcase : SameButCase (healthWith (ascii "User-Agent")) (healthWith (ascii "user-agent")) :=
    healthWith_sameButCase (by decide +kernel) (by unfold Http.Clean; decide +kernel)
      (by decide +kernel)
  have hblind := hall quiet noon roomy {} _ _ hcase
  exact absurd hblind.queues (by decide +kernel)

end Server

end Handler
end UrlShortener
