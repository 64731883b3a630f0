import UrlShortener.Http.Conn

/-!
# UrlShortener.Http.Router

`Router`: the table of routes, `match` and `dispatch`, and what `process` does with a request no
route takes. A handler gets the server state and answers, or lets an exception out (`none`).

The 404 answer quotes the path, and `set_json` throws on a string that is not UTF-8. The path is
whatever bytes the request line had, so `process` returns for exactly the paths that are UTF-8.
-/

namespace UrlShortener
namespace Http

abbrev HandlerFunc (σ : Type) := σ → HttpRequest → σ × Option HttpResponse

structure Route (σ : Type) where
  method : Bytes
  pattern : Bytes
  segments : List Bytes
  handler : HandlerFunc σ

/-- `split_path`: the non-empty pieces between slashes. -/
def splitPath (path : Bytes) : List Bytes := (path.splitOn 47).filter fun seg => seg ≠ []

namespace Router

variable {σ : Type}

def get (pattern : Bytes) (h : HandlerFunc σ) : Route σ := ⟨ascii "GET", pattern, splitPath pattern, h⟩

def post (pattern : Bytes) (h : HandlerFunc σ) : Route σ := ⟨ascii "POST", pattern, splitPath pattern, h⟩

/-- A pattern segment in braces; it matches anything and names it. -/
def isParam (pat : Bytes) : Bool :=
  decide (3 ≤ pat.length) && pat.head? == some 123 && pat.getLast? == some 125

/-- The segment loop of `match`; the two lists have one length. -/
def matchSegments : List Bytes → List Bytes → StrMap Bytes → Option (StrMap Bytes)
  | [], _, params => some params
  | _, [], params => some params
  | pat :: pats, seg :: segs, params =>
    if isParam pat then
      matchSegments pats segs (params.insert ((pat.drop 1).take (pat.length - 2)) seg)
    else if pat ≠ seg then none
    else matchSegments pats segs params

/-- `match`; `some params` when it returns true. -/
def matchRoute (r : Route σ) (req : HttpRequest) : Option (StrMap Bytes) :=
  if r.method ≠ req.method then none
  else if (splitPath req.path).length ≠ r.segments.length then none
  else matchSegments r.segments (splitPath req.path) ∅

def dispatch : List (Route σ) → σ → HttpRequest → σ × Dispatched
  | [], st, _ => (st, .unmatched)
  | route :: routes, st, req =>
    match matchRoute route req with
    | some params =>
      match route.handler st { req with params := params, routePattern := route.pattern } with
      | (st, some resp) => (st, .answered resp)
      | (st, none) => (st, .threw)
    | none => dispatch routes st req

/-- **A request is unmatched when no route of the table matches it.** -/
theorem dispatch_unmatched_iff (routes : List (Route σ)) (st : σ) (req : HttpRequest) :
    (dispatch routes st req).2 = .unmatched ↔ ∀ r ∈ routes, matchRoute r req = none := by
  induction routes with
  | nil => simp [dispatch]
  | cons route routes ih =>
    rw [dispatch]
    rcases hm : matchRoute route req with _ | params
    · simp only [List.mem_cons, forall_eq_or_imp, hm, true_and]
      exact ih
    · simp only [List.mem_cons, forall_eq_or_imp, hm, reduceCtorEq, false_and, iff_false]
      rcases route.handler st { req with params := params, routePattern := route.pattern } with
        ⟨st', _ | resp⟩ <;> simp

/-! ## The server's routes -/

/-- The handlers of `register_health_routes`, `register_metrics_routes` and
`register_short_url_routes`. -/
structure Handlers (σ : Type) where
  health : HandlerFunc σ
  metrics : HandlerFunc σ
  shorten : HandlerFunc σ
  redirect : HandlerFunc σ

/-- The table in the order in which `main` fills it. -/
def routes (h : Handlers σ) : List (Route σ) :=
  [get (ascii "/health") h.health, get (ascii "/metrics") h.metrics,
    post (ascii "/api/shorten") h.shorten, get (ascii "/\x7bcode\x7d") h.redirect]

/-- A pattern without parameters matches its own segments only. -/
theorem matchSegments_literal {pats segs : List Bytes} {params : StrMap Bytes}
    (hlit : ∀ pat ∈ pats, isParam pat = false) (hlen : segs.length = pats.length) :
    matchSegments pats segs params = if pats = segs then some params else none := by
  induction pats generalizing segs with
  | nil =>
    obtain rfl := List.length_eq_zero_iff.mp hlen
    rfl
  | cons pat pats ih =>
    cases segs with
    | nil => cases hlen
    | cons seg segs =>
      rw [matchSegments, hlit pat (by simp)]
      have ih := ih (fun q hq => hlit q (by simp [hq])) (Nat.succ.inj hlen)
      by_cases hseg : pat = seg
      · simp [hseg, ih]
      · simp [hseg]

theorem matchRoute_literal {r : Route σ} (hlit : ∀ pat ∈ r.segments, isParam pat = false)
    (req : HttpRequest) :
    matchRoute r req = none ↔ ¬ (req.method = r.method ∧ splitPath req.path = r.segments) := by
  unfold matchRoute
  by_cases hm : r.method = req.method
  · rw [if_neg (not_not.mpr hm)]
    by_cases hlen : (splitPath req.path).length = r.segments.length
    · rw [if_neg (not_not.mpr hlen), matchSegments_literal hlit hlen]
      by_cases hs : r.segments = splitPath req.path
      · simp [hm, hs]
      · simp [hs, Ne.symm hs]
    · rw [if_pos hlen]
      have : splitPath req.path ≠ r.segments := fun h => hlen (congrArg List.length h)
      simp [this]
  · rw [if_pos hm]
    simp [Ne.symm hm]

theorem matchRoute_code {h : HandlerFunc σ} (req : HttpRequest) :
    matchRoute (get (ascii "/\x7bcode\x7d") h) req = none ↔
      ¬ (req.method = ascii "GET" ∧ (splitPath req.path).length = 1) := by
  have hsegs : (get (ascii "/\x7bcode\x7d") h).segments = [ascii "\x7bcode\x7d"] := by
    show splitPath _ = _
    decide
  have hparam : isParam (ascii "\x7bcode\x7d") = true := by decide
  unfold matchRoute
  rw [hsegs]
  by_cases hm : ascii "GET" = req.method
  · by_cases hlen : (splitPath req.path).length = 1
    · obtain ⟨seg, hseg⟩ := List.length_eq_one_iff.mp hlen
      rw [hseg]
      simp [get, hm, matchSegments, hparam]
    · simp [get, hm, hlen]
  · simp [get, hm, Ne.symm hm]

/-- **What the server's routes leave over**: every method but GET and POST, a GET that does not
name exactly one segment, a POST that is not to `/api/shorten`. -/
theorem routes_unmatched_iff (h : Handlers σ) (st : σ) (req : HttpRequest) :
    (dispatch (routes h) st req).2 = .unmatched ↔
      ¬ (req.method = ascii "GET" ∧ (splitPath req.path).length = 1) ∧
      ¬ (req.method = ascii "POST" ∧ splitPath req.path = [ascii "api", ascii "shorten"]) := by
  have hshorten : splitPath (ascii "/api/shorten") = [ascii "api", ascii "shorten"] := by decide
  have hhealth : splitPath (ascii "/health") = [ascii "health"] := by decide
  have hmetrics : splitPath (ascii "/metrics") = [ascii "metrics"] := by decide
  rw [dispatch_unmatched_iff]
  simp only [routes, List.mem_cons, List.not_mem_nil, or_false, forall_eq_or_imp, forall_eq]
  have literal : ∀ {pattern : Bytes} {segs : List Bytes}, splitPath pattern = segs →
      (∀ pat ∈ segs, isParam pat = false) → ∀ (method : Bytes) (f : HandlerFunc σ),
      matchRoute ⟨method, pattern, splitPath pattern, f⟩ req = none ↔
        ¬ (req.method = method ∧ splitPath req.path = segs) := by
    intro pattern segs hsegs hlit method f
    subst hsegs
    exact matchRoute_literal hlit req
  have h1 := literal hhealth (by decide) (ascii "GET") h.health
  have h2 := literal hmetrics (by decide) (ascii "GET") h.metrics
  have h3 := literal hshorten (by decide) (ascii "POST") h.shorten
  rw [get, get, post, h1, h2, h3, matchRoute_code]
  constructor
  · rintro ⟨-, -, hpost, hcode⟩
    exact ⟨hcode, hpost⟩
  · rintro ⟨hcode, hpost⟩
    have one : ∀ seg : Bytes, ¬ (req.method = ascii "GET" ∧ splitPath req.path = [seg]) :=
      fun seg hh => hcode ⟨hh.1, by rw [hh.2]; rfl⟩
    exact ⟨one _, one _, hpost, hcode⟩

end Router

/-! ## Requests no route takes -/

namespace HttpConn

/-- The 404 answer exists for the paths that can be quoted. -/
theorem notFoundResponse_isSome (path : Bytes) :
    (notFoundResponse path).isSome = Json.utf8Valid path := by
  have herror : Json.utf8Valid (ascii "error") = true := by decide +kernel
  have hnot : Json.utf8Valid (ascii "not found") = true := by decide +kernel
  have hpath : Json.utf8Valid (ascii "path") = true := by decide +kernel
  rw [notFoundResponse, HttpResponse.setJson_isSome, Json.dump_isSome]
  simp only [List.all_cons, List.all_nil, Option.all_some, herror, hnot, hpath, Bool.true_and,
    Bool.and_true]

theorem notFoundResponse_status {path : Bytes} {resp : HttpResponse}
    (h : notFoundResponse path = some resp) : resp.statusCode = 404 := by
  rw [notFoundResponse] at h
  exact HttpResponse.setJson_status h

section Unmatched

variable {σ : Type} {dispatch : σ → HttpRequest → σ × Dispatched} {st st' : σ} {c c₁ : HttpConn}
  {expected : Nat}

/-- `process` on an accepted request that no route takes. -/
theorem process_unmatched (hgen : c.generation = expected)
    (hread : c.processRead = (c₁, .getRequest))
    (hdispatch : dispatch st c₁.request = (st', .unmatched)) :
    c.process dispatch st expected = (notFoundResponse c₁.request.path).map fun resp =>
      (st', (c₁.finish expected (c₁.withConnection resp)).1,
        (c₁.finish expected (c₁.withConnection resp)).2,
        .dispatched c₁.request (c₁.withConnection resp)) := by
  rw [HttpConn.process, if_neg (not_not.mpr hgen), hread]
  simp only [respond, hdispatch]
  cases notFoundResponse c₁.request.path <;> rfl

/-- `process` returns, with a 404 response built. -/
def AnswersNotFound (dispatch : σ → HttpRequest → σ × Dispatched) (st : σ) (c : HttpConn)
    (expected : Nat) : Prop :=
  ∃ st' c' armed req resp,
    c.process dispatch st expected = some (st', c', armed, .dispatched req resp) ∧
      resp.statusCode = 404

end Unmatched

/-- **When an unmatched request is answered.** For every accepted request that `dispatch` returns
false for, `process` returns with a 404 response exactly when the path is valid UTF-8. -/
theorem unmatched_answered_iff {σ : Type} (routes : List (Route σ)) (st : σ) {c c₁ : HttpConn}
    {expected : Nat} (hgen : c.generation = expected) (hread : c.processRead = (c₁, .getRequest))
    (hdispatch : (Router.dispatch routes st c₁.request).2 = .unmatched) :
    AnswersNotFound (Router.dispatch routes) st c expected ↔
      Json.utf8Valid c₁.request.path = true := by
  have hp := process_unmatched hgen hread (Prod.ext rfl hdispatch :
    Router.dispatch routes st c₁.request = ((Router.dispatch routes st c₁.request).1, .unmatched))
  rw [← notFoundResponse_isSome, AnswersNotFound, hp]
  constructor
  · rintro ⟨st', c', armed, req, resp, he, -⟩
    obtain ⟨r, hr, -⟩ := Option.map_eq_some_iff.mp he
    rw [hr]
    rfl
  · intro hsome
    obtain ⟨r, hr⟩ := Option.isSome_iff_exists.mp hsome
    rw [hr]
    refine ⟨_, _, _, _, _, rfl, ?_⟩
    show r.statusCode = 404
    exact notFoundResponse_status hr

/-- The server with handlers that answer nothing in particular. -/
def plainRoutes : List (Route Unit) :=
  Router.routes ⟨fun st _ => (st, some {}), fun st _ => (st, some {}), fun st _ => (st, some {}),
    fun st _ => (st, some {})⟩

/-- A connection on which one `recv` has delivered a request. -/
def holding (stream : Bytes) : HttpConn := (HttpConn.initSocket {} 5 0).receive stream

theorem holding_reads {S : Bytes} (h : (holding S).processRead.2 = .getRequest) :
    (holding S).processRead = ((holding S).processRead.1, .getRequest) := by
  rw [← h]

/-- A GET of two segments. -/
def twoSegments : Bytes := ascii "GET /a/b HTTP/1.1\r\n\r\n"

theorem unmatched_answered_iff_twoSegments :
    AnswersNotFound (Router.dispatch plainRoutes) () (holding twoSegments)
      (holding twoSegments).generation := by
  have hread := holding_reads (S := twoSegments) (by decide +kernel)
  have hdispatch : (Router.dispatch plainRoutes () (holding twoSegments).processRead.1.request).2 =
      .unmatched := by decide +kernel
  have hvalid : Json.utf8Valid (holding twoSegments).processRead.1.request.path = true := by
    decide +kernel
  exact (unmatched_answered_iff plainRoutes () (Eq.refl _) hread hdispatch).mpr hvalid

/-- A GET of two segments, the second one a byte that is never UTF-8. -/
def badPath : Bytes := ascii "GET /a/" ++ [255] ++ ascii " HTTP/1.1\r\n\r\n"

theorem unmatched_raises_badPath :
    ¬ ∀ (routes : List (Route Unit)) (c c₁ : HttpConn), c.processRead = (c₁, .getRequest) →
      (Router.dispatch routes () c₁.request).2 = .unmatched →
      AnswersNotFound (Router.dispatch routes) () c c.generation := by
  intro hall
  have hread := holding_reads (S := badPath) (by decide +kernel)
  have hdispatch : (Router.dispatch plainRoutes () (holding badPath).processRead.1.request).2 =
      .unmatched := by decide +kernel
  have hbad : (notFoundResponse (holding badPath).processRead.1.request.path).isSome = false := by
    rw [notFoundResponse_isSome]
    decide +kernel
  obtain ⟨st', c', armed, req, resp, he, -⟩ := hall plainRoutes _ _ hread hdispatch
  rw [process_unmatched (Eq.refl _) hread (Prod.ext (Eq.refl ()) hdispatch),
    Option.isNone_iff_eq_none.mp (Option.isSome_eq_false_iff.mp hbad)] at he
  cases he

end HttpConn

end Http
end UrlShortener
