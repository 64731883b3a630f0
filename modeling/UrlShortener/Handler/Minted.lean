import UrlShortener.Handler.Routes
import UrlShortener.ShortUrl.Base62
import UrlShortener.ShortUrl.Snowflake

/-!
# UrlShortener.Handler.Minted

The way back from a code to its route. `shorten` mints codes from ids without a look at the table of
routes, and the table holds two paths that are codes as well: `/health` and `/metrics`, each of
which stands in front of `/{code}`. Exactly two of the ids that `next_id` can return have such a
code.
-/

namespace UrlShortener
namespace Handler

open Http (HandlerFunc HttpRequest splitPath)
open Http.Router (Handlers)
open ShortUrl (alphabet base62Encode base62Encode_mem base62Encode_ne_nil base62Encode_injective)
open Snowflake (pack)

section Select

variable {σ : Type} {route : Http.Route σ} {routes : List (Http.Route σ)} {req : HttpRequest}

/-- The route that `dispatch` takes, with what `match` reads from the path. -/
def select (routes : List (Http.Route σ)) (req : HttpRequest) :
    Option (Http.Route σ × StrMap Bytes) :=
  routes.findSome? fun r => (Http.Router.matchRoute r req).map fun params => (r, params)

theorem select_cons_of_none (h : Http.Router.matchRoute route req = none) :
    select (route :: routes) req = select routes req := by
  rw [select, List.findSome?_cons, h]
  rfl

theorem select_cons_of_some {params : StrMap Bytes}
    (h : Http.Router.matchRoute route req = some params) :
    select (route :: routes) req = some (route, params) := by
  rw [select, List.findSome?_cons, h]
  rfl

/-- `dispatch` calls the handler of the selected route. -/
theorem dispatch_select (routes : List (Http.Route σ)) (s : σ) (req : HttpRequest) :
    Http.Router.dispatch routes s req = (select routes req).elim (s, .unmatched) fun x =>
      returned (x.1.handler s { req with params := x.2, routePattern := x.1.pattern }) := by
  induction routes with
  | nil => rfl
  | cons route routes ih =>
    cases hmatch : Http.Router.matchRoute route req with
    | none => rw [dispatch_cons_of_none hmatch, select_cons_of_none hmatch, ih]
    | some params =>
      rw [dispatch_cons_of_some hmatch, select_cons_of_some hmatch]
      rfl

end Select

/-- The route of the short codes. -/
def codeRoute {σ : Type} (h : Handlers σ) : Http.Route σ :=
  Http.Router.get (ascii "/\x7bcode\x7d") h.redirect

def codeParams (code : Bytes) : StrMap Bytes := (∅ : StrMap Bytes).insert (ascii "code") code

/-- The request goes to `redirect`, under this code. -/
structure Reaches {σ : Type} (h : Handlers σ) (req : HttpRequest) (code : Bytes) : Prop where
  selected : select (Http.Router.routes h) req = some (codeRoute h, codeParams code)
  answered : ∀ s, Http.Router.dispatch (Http.Router.routes h) s req =
    returned (h.redirect s
      { req with params := codeParams code, routePattern := ascii "/\x7bcode\x7d" })
  param : (codeParams code).lookup (ascii "code") = some code

/-- `GET /<code>`. -/
structure Asks (req : HttpRequest) (code : Bytes) : Prop where
  method : req.method = ascii "GET"
  path : req.path = ascii "/" ++ code

/-- The ids whose codes are `health` and `metrics`. -/
def healthId : UInt64 := 15783592667
def metricsId : UInt64 := 1262866061060

theorem base62Encode_healthId : base62Encode healthId = ascii "health" := by decide +kernel

theorem base62Encode_metricsId : base62Encode metricsId = ascii "metrics" := by decide +kernel

theorem slash_not_letter : (47 : UInt8) ∉ alphabet := by decide

/-- A code is one segment. -/
theorem splitPath_code {code : Bytes} (hne : code ≠ []) (hslash : (47 : UInt8) ∉ code) :
    splitPath (ascii "/" ++ code) = [code] := by
  have hsplit : (ascii "/" ++ code).splitOn 47 = [[], code] := by
    have hfirst := List.splitOn_append_cons_self_of_not_mem (List.not_mem_nil (a := (47 : UInt8))) code
    rw [List.splitOn_eq_singleton hslash] at hfirst
    exact hfirst
  unfold splitPath
  rw [hsplit]
  simp [hne]

section Selected

variable {σ : Type} (h : Handlers σ) {req : HttpRequest} {code : Bytes}

theorem select_health (hask : Asks req code) (hsegs : splitPath req.path = [ascii "health"]) :
    select (Http.Router.routes h) req = some (Http.Router.get (ascii "/health") h.health, ∅) := by
  have hhealth := match_health h.health req
  rw [if_pos ⟨hask.method, hsegs⟩] at hhealth
  exact select_cons_of_some hhealth

theorem select_metrics (hask : Asks req code) (hsegs : splitPath req.path = [ascii "metrics"]) :
    select (Http.Router.routes h) req =
      some (Http.Router.get (ascii "/metrics") h.metrics, ∅) := by
  have hhealth := match_health h.health req
  have hmetrics := match_metrics h.metrics req
  rw [hsegs, if_neg fun hc => absurd hc.2 (by decide)] at hhealth
  rw [if_pos ⟨hask.method, hsegs⟩] at hmetrics
  exact (select_cons_of_none hhealth).trans (select_cons_of_some hmetrics)

theorem select_code (hask : Asks req code) (hsegs : splitPath req.path = [code])
    (hhealth : code ≠ ascii "health") (hmetrics : code ≠ ascii "metrics") :
    select (Http.Router.routes h) req = some (codeRoute h, codeParams code) := by
  have h1 := match_health h.health req
  have h2 := match_metrics h.metrics req
  have h3 := match_shorten h.shorten req
  rw [hsegs, if_neg fun hc => hhealth (List.cons.inj hc.2).1] at h1
  rw [hsegs, if_neg fun hc => hmetrics (List.cons.inj hc.2).1] at h2
  rw [hask.method, if_neg fun hc => absurd hc.1 (by decide)] at h3
  exact (select_cons_of_none h1).trans <| (select_cons_of_none h2).trans <|
    (select_cons_of_none h3).trans
      (select_cons_of_some (match_code h.redirect hask.method hsegs))

theorem Reaches.of_selected
    (hsel : select (Http.Router.routes h) req = some (codeRoute h, codeParams code)) :
    Reaches h req code where
  selected := hsel
  answered s := by
    rw [dispatch_select, hsel]
    rfl
  param := AList.lookup_insert _

end Selected

/-- The route of the code, seen from its pattern. -/
theorem Reaches.pattern {σ : Type} {h : Handlers σ} {req : HttpRequest} {code pattern : Bytes}
    {f : HandlerFunc σ} {params : StrMap Bytes} (hreach : Reaches h req code)
    (hsel : select (Http.Router.routes h) req = some (Http.Router.get pattern f, params)) :
    pattern = ascii "/\x7bcode\x7d" := by
  have hroute := hsel.symm.trans hreach.selected
  exact congrArg Http.Route.pattern (Prod.ext_iff.mp (Option.some.inj hroute)).1

/-- **Which minted codes are reachable**: those of all ids but two. -/
theorem minted_reachable_iff {σ : Type} (h : Handlers σ) (id : UInt64) {req : HttpRequest}
    (hask : Asks req (base62Encode id)) :
    Reaches h req (base62Encode id) ↔ id ≠ healthId ∧ id ≠ metricsId := by
  have hsegs : splitPath req.path = [base62Encode id] := by
    rw [hask.path]
    exact splitPath_code (base62Encode_ne_nil _)
      fun hmem => slash_not_letter (base62Encode_mem _ _ hmem)
  constructor
  · intro hreach
    constructor
    · intro hid
      rw [hid, base62Encode_healthId] at hsegs
      exact absurd (hreach.pattern (select_health h hask hsegs)) (by decide)
    · intro hid
      rw [hid, base62Encode_metricsId] at hsegs
      exact absurd (hreach.pattern (select_metrics h hask hsegs)) (by decide)
  · rintro ⟨hhealth, hmetrics⟩
    refine .of_selected h (select_code h hask hsegs ?_ ?_)
    · rw [← base62Encode_healthId]
      exact fun hcode => hhealth (base62Encode_injective hcode)
    · rw [← base62Encode_metricsId]
      exact fun hcode => hmetrics (base62Encode_injective hcode)

/-- Handlers that write down who was called. -/
def namedHandlers : Handlers Bytes where
  health _ _ := (ascii "health", some {})
  metrics _ _ := (ascii "metrics", some {})
  shorten _ _ := (ascii "shorten", some {})
  redirect _ _ := (ascii "redirect", some {})

def getPath (path : Bytes) : HttpRequest where
  method := ascii "GET"
  path := path

/-- The first code of worker 1. -/
theorem minted_reachable_iff_first :
    Reaches namedHandlers (getPath (ascii "/" ++ base62Encode (pack 1 1 0)))
      (base62Encode (pack 1 1 0)) :=
  (minted_reachable_iff namedHandlers _ ⟨rfl, rfl⟩).mpr ⟨by decide, by decide⟩

/-- The code of sequence number 731 of worker 104 in second 3763 is `health`. -/
theorem minted_shadowed : ¬ ∀ (second worker sequence : UInt64), second.toNat < 2 ^ 29 →
    worker.toNat < 2 ^ 10 → sequence.toNat < 2 ^ 12 → ∀ req : HttpRequest,
      Asks req (base62Encode (pack second worker sequence)) →
        Reaches namedHandlers req (base62Encode (pack second worker sequence)) := by
  intro hall
  have hcode : base62Encode (pack 3763 104 731) = ascii "health" := by decide +kernel
  have hreach := hall 3763 104 731 (by decide) (by decide) (by decide)
    (getPath (ascii "/health")) ⟨rfl, by rw [hcode]; decide⟩
  have hask : Asks (getPath (ascii "/health")) (ascii "health") := ⟨rfl, by decide⟩
  exact absurd (hreach.pattern (select_health namedHandlers hask (by decide))) (by decide)

end Handler
end UrlShortener
