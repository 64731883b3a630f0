import Mathlib.Data.List.DropRight
import UrlShortener.Handler.Publish
import UrlShortener.Handler.Shorten
import UrlShortener.Http.Router

/-!
# UrlShortener.Handler.Routes

The four handlers that `main` registers, as the router calls them: `/health`, `/metrics`, `shorten`
from the body of the request to the response, and `redirect`. What the outside does while one of
them runs is an input (`Outside`).
-/

namespace UrlShortener
namespace Http

/-- All slashes at the end of the base go. -/
def joinPublicBaseUrl (base code : Bytes) : Bytes :=
  if base = [] then ascii "/" ++ code else base.rdropWhile (fun b => decide (b = 47)) ++ ascii "/" ++ code

end Http

namespace Handler

open Http (Dispatched HandlerFunc HttpRequest HttpResponse joinPublicBaseUrl splitPath)
open Http.Router (Handlers)
open ShortUrl

/-- What decides a request besides the process. -/
structure Outside extends Visit where
  /-- `g_public_base_url`. -/
  publicBaseUrl : Bytes
  /-- What `render_prometheus` returns. -/
  metrics : Bytes := []
  /-- What `next_id` returns in each round of the loop of `shorten`, and what becomes of the
  `INSERT`. `none`: it throws. -/
  tries : Fin 3 → Option UInt64 × Reply := fun _ => (none, .answered)

variable {cfg : Config}

def health (s : Process cfg) (_req : HttpRequest) : Process cfg × Option HttpResponse :=
  (s, (HttpResponse.setStatus {} 200).setJson
    [(ascii "status", some (ascii "ok")), (ascii "version", some (ascii "0.1.0"))])

def metrics (o : Outside) (s : Process cfg) (_req : HttpRequest) :
    Process cfg × Option HttpResponse :=
  (s, some (((HttpResponse.setStatus {} 200).setHeader (ascii "Content-Type")
    (ascii "text/plain; version=0.0.4; charset=utf-8")).setBody o.metrics))

/-! ## shorten -/

/-- The fields of the 201. -/
def createdFields (base code longUrl expireAt : Bytes) : List (Bytes × Option Bytes) :=
  [(ascii "expire_at", if expireAt = [] then none else some expireAt),
    (ascii "long_url", some longUrl), (ascii "short_code", some code),
    (ascii "short_url", some (joinPublicBaseUrl base code))]

/-- `none`: `next_id` or `set_json` throws. -/
def Creation.response (base longUrl expireAt : Bytes) : Creation → Option HttpResponse
  | .created code => (HttpResponse.setStatus {} 201).setJson (createdFields base code longUrl expireAt)
  | .failed dbError => (Outcome.unavailable dbError).response
  | .threw => none

def shorten (o : Outside) (s : Process cfg) (req : HttpRequest) :
    Process cfg × Option HttpResponse :=
  match decodeShorten req.body with
  | .answered resp => (s, some resp)
  | .raised _ => (s, none)
  | .accepted longUrl expireAt =>
    if !s.redisAvailable && !o.env.slot then
      (s, (Outcome.unavailable (ascii "create origin budget exhausted")).response)
    else if !o.env.mysql then (s, (Outcome.unavailable noConnection).response)
    else
      let (s, creation) := s.createLoop longUrl expireAt o.env (List.ofFn o.tries)
      (s, creation.response o.publicBaseUrl longUrl expireAt)

/-! ## The table -/

def handlers (o : Outside) : Handlers (Process cfg) where
  health := health
  metrics := metrics o
  shorten := shorten o
  redirect s req := ((redirect s req o.toVisit).process, (redirect s req o.toVisit).response)

/-- `Router::dispatch` in the server. -/
def dispatch (o : Outside) : Process cfg → HttpRequest → Process cfg × Http.Dispatched :=
  Http.Router.dispatch (Http.Router.routes (handlers o))

/-- Who answers a request. -/
inductive Target where
  | health | metrics | shorten | redirect | unmatched
deriving DecidableEq

def target (req : HttpRequest) : Target :=
  if req.method = ascii "GET" then
    if splitPath req.path = [ascii "health"] then .health
    else if splitPath req.path = [ascii "metrics"] then .metrics
    else if (splitPath req.path).length = 1 then .redirect
    else .unmatched
  else if req.method = ascii "POST" ∧ splitPath req.path = [ascii "api", ascii "shorten"] then .shorten
  else .unmatched

/-- What `dispatch` makes of a handler's end. -/
def returned {σ : Type} : σ × Option HttpResponse → σ × Dispatched
  | (s, some resp) => (s, .answered resp)
  | (s, none) => (s, .threw)

section Table

variable {σ : Type} {route : Http.Route σ} {routes : List (Http.Route σ)} {s : σ} {req : HttpRequest}

def answerBy (h : Handlers σ) (s : σ) (req : HttpRequest) : Target → σ × Dispatched
  | .health => returned (h.health s req)
  | .metrics => returned (h.metrics s req)
  | .shorten => returned (h.shorten s req)
  | .redirect => returned (h.redirect s req)
  | .unmatched => (s, .unmatched)

theorem dispatch_cons_of_none (h : Http.Router.matchRoute route req = none) :
    Http.Router.dispatch (route :: routes) s req = Http.Router.dispatch routes s req := by
  rw [Http.Router.dispatch, h]

theorem dispatch_cons_of_some {params : StrMap Bytes}
    (h : Http.Router.matchRoute route req = some params) :
    Http.Router.dispatch (route :: routes) s req =
      returned (route.handler s { req with params := params, routePattern := route.pattern }) := by
  rw [Http.Router.dispatch, h]
  simp only
  cases route.handler s { req with params := params, routePattern := route.pattern } with
  | mk s' resp =>
    cases resp with
    | none => rfl
    | some resp => rfl

/-- A route without parameters takes its own method and path. -/
theorem matchRoute_fixed (method pattern : Bytes) (segs : List Bytes) (f : HandlerFunc σ)
    (hsegs : splitPath pattern = segs) (hlit : ∀ pat ∈ segs, Http.Router.isParam pat = false)
    (req : HttpRequest) :
    Http.Router.matchRoute ⟨method, pattern, splitPath pattern, f⟩ req =
      if req.method = method ∧ splitPath req.path = segs then some ∅ else none := by
  subst hsegs
  unfold Http.Router.matchRoute
  simp only
  by_cases hm : method = req.method
  · rw [if_neg (not_not.mpr hm)]
    by_cases hlen : (splitPath req.path).length = (splitPath pattern).length
    · rw [if_neg (not_not.mpr hlen), Http.Router.matchSegments_literal hlit hlen]
      by_cases hs : splitPath pattern = splitPath req.path
      · rw [if_pos hs, if_pos ⟨hm.symm, hs.symm⟩]
      · rw [if_neg hs, if_neg fun h => hs h.2.symm]
    · rw [if_pos hlen, if_neg fun h => hlen (congrArg List.length h.2)]
  · rw [if_pos hm, if_neg fun h => hm h.1.symm]

/-! The four routes, one by one. -/

theorem match_health (f : HandlerFunc σ) (req : HttpRequest) :
    Http.Router.matchRoute (Http.Router.get (ascii "/health") f) req =
      if req.method = ascii "GET" ∧ splitPath req.path = [ascii "health"] then some ∅ else none :=
  matchRoute_fixed (ascii "GET") (ascii "/health") [ascii "health"] f (by decide) (by decide) req

theorem match_metrics (f : HandlerFunc σ) (req : HttpRequest) :
    Http.Router.matchRoute (Http.Router.get (ascii "/metrics") f) req =
      if req.method = ascii "GET" ∧ splitPath req.path = [ascii "metrics"] then some ∅ else none :=
  matchRoute_fixed (ascii "GET") (ascii "/metrics") [ascii "metrics"] f (by decide) (by decide) req

theorem match_shorten (f : HandlerFunc σ) (req : HttpRequest) :
    Http.Router.matchRoute (Http.Router.post (ascii "/api/shorten") f) req =
      if req.method = ascii "POST" ∧ splitPath req.path = [ascii "api", ascii "shorten"] then some ∅
      else none :=
  matchRoute_fixed (ascii "POST") (ascii "/api/shorten") [ascii "api", ascii "shorten"] f
    (by decide) (by decide) req

theorem match_code (f : HandlerFunc σ) {req : HttpRequest} {code : Bytes}
    (hget : req.method = ascii "GET") (hcode : splitPath req.path = [code]) :
    Http.Router.matchRoute (Http.Router.get (ascii "/\x7bcode\x7d") f) req =
      some ((∅ : StrMap Bytes).insert (ascii "code") code) := by
  have hsegs : splitPath (ascii "/\x7bcode\x7d") = [ascii "\x7bcode\x7d"] := by decide
  have hparam : Http.Router.isParam (ascii "\x7bcode\x7d") = true := by decide
  have hkey : ((ascii "\x7bcode\x7d").drop 1).take ((ascii "\x7bcode\x7d").length - 2) =
    ascii "code" := by decide
  unfold Http.Router.matchRoute Http.Router.get
  simp only [hget, hsegs, hcode, Http.Router.matchSegments, hparam, hkey]
  rfl

/-- **The table as a decision**: the handler that answers gets the request with the route's pattern
and parameters put in. -/
theorem dispatch_routes (h : Handlers σ) (s : σ) (req : HttpRequest) :
    ∃ params pattern, Http.Router.dispatch (Http.Router.routes h) s req =
      answerBy h s { req with params := params, routePattern := pattern } (target req) := by
  have hhealth := match_health h.health req
  have hmetrics := match_metrics h.metrics req
  have hshorten := match_shorten h.shorten req
  have hcode := Http.Router.matchRoute_code (h := h.redirect) req
  have hpost : ascii "POST" ≠ ascii "GET" := by decide
  unfold Http.Router.routes target
  by_cases hget : req.method = ascii "GET"
  · rw [if_pos hget]
    have hno : ¬ (req.method = ascii "POST" ∧
        splitPath req.path = [ascii "api", ascii "shorten"]) := fun h => hpost (h.1.symm.trans hget)
    rw [if_neg hno] at hshorten
    by_cases h1 : splitPath req.path = [ascii "health"]
    · rw [if_pos h1]
      rw [if_pos ⟨hget, h1⟩] at hhealth
      exact ⟨_, _, dispatch_cons_of_some hhealth⟩
    · rw [if_neg h1]
      rw [if_neg fun h => h1 h.2] at hhealth
      by_cases h2 : splitPath req.path = [ascii "metrics"]
      · rw [if_pos h2]
        rw [if_pos ⟨hget, h2⟩] at hmetrics
        exact ⟨_, _, (dispatch_cons_of_none hhealth).trans (dispatch_cons_of_some hmetrics)⟩
      · rw [if_neg h2]
        rw [if_neg fun h => h2 h.2] at hmetrics
        by_cases h3 : (splitPath req.path).length = 1
        · rw [if_pos h3]
          obtain ⟨params, hparams⟩ := Option.ne_none_iff_exists'.mp
            (fun hnone => hcode.mp hnone ⟨hget, h3⟩)
          exact ⟨params, _, (dispatch_cons_of_none hhealth).trans <|
            (dispatch_cons_of_none hmetrics).trans <|
            (dispatch_cons_of_none hshorten).trans (dispatch_cons_of_some hparams)⟩
        · rw [if_neg h3]
          exact ⟨∅, [], (dispatch_cons_of_none hhealth).trans <|
            (dispatch_cons_of_none hmetrics).trans <|
            (dispatch_cons_of_none hshorten).trans <|
            dispatch_cons_of_none (hcode.mpr fun h => h3 h.2)⟩
  · rw [if_neg hget]
    rw [if_neg fun h => hget h.1] at hhealth hmetrics
    by_cases h4 : req.method = ascii "POST" ∧ splitPath req.path = [ascii "api", ascii "shorten"]
    · rw [if_pos h4]
      rw [if_pos h4] at hshorten
      exact ⟨_, _, (dispatch_cons_of_none hhealth).trans <|
            (dispatch_cons_of_none hmetrics).trans <|
        dispatch_cons_of_some hshorten⟩
    · rw [if_neg h4]
      rw [if_neg h4] at hshorten
      exact ⟨∅, [], (dispatch_cons_of_none hhealth).trans <|
            (dispatch_cons_of_none hmetrics).trans <|
        (dispatch_cons_of_none hshorten).trans <|
        dispatch_cons_of_none (hcode.mpr fun h => hget h.1)⟩

end Table

end Handler
end UrlShortener
