import UrlShortener.Handler.Client
import UrlShortener.Handler.Service
import UrlShortener.Http.RecaseRun

/-!
# UrlShortener.Handler.Promise

A 201 is a promise. Its client reads a code in the body, and whoever asks for that code later is led
to the URL that the body of the POST had, for as long as it has not expired: from the bytes of the
first request to the bytes of the last answer, whatever is requested in between, whatever Redis
loses, and however often the process is started again.
-/

namespace UrlShortener
namespace Handler

open Http (Dispatched HttpConn HttpRequest HttpResponse READ_BUFFER_SIZE WRITE_BUFFER_SIZE
  WireRequest answerText)
open Http.Session (Link exchange exchange_cases)
open LocalCache (EntryView isBusinessExpired)
open ShortUrl
open Service

/-! ## The outcome of a redirect, as it is read -/

/-- The `Location` of an outcome. -/
def Outcome.location : Outcome → Option Bytes
  | .found longUrl => some longUrl
  | _ => none

theorem Outcome.redirected {o : Outcome} {resp : HttpResponse} (hresp : o.response = some resp)
    (hsafe : Safe resp) :
    redirected (answerText resp) = some ((o.statusCode : Int), o.location) := by
  rw [hsafe.redirected_answerText, Outcome.response_status hresp]
  have hlocation : resp.headers.lookup (ascii "Location") = o.location := by
    cases o with
    | found longUrl =>
      cases hresp
      exact AList.lookup_insert _
    | unsafeUrl => exact setJson_lookup (k := ascii "Location") hresp (by decide)
    | expired => exact setJson_lookup (k := ascii "Location") hresp (by decide)
    | notFound => exact setJson_lookup (k := ascii "Location") hresp (by decide)
    | unavailable detail => exact setJson_lookup (k := ascii "Location") hresp (by decide)
  rw [hlocation]

/-- What a promised code comes to. -/
structure Outcome.Keeps (outcome : Outcome) (v : EntryView) (wall : Bytes) (reachable : Prop) :
    Prop where
  live : isBusinessExpired v.expireAt wall = false →
    outcome = .found v.longUrl ∨ ∃ detail, outcome = .unavailable detail
  expired : isBusinessExpired v.expireAt wall = true →
    outcome = .expired ∨ outcome = .notFound ∨ ∃ detail, outcome = .unavailable detail
  reached : reachable → ∀ detail, outcome ≠ .unavailable detail

/-- It is kept by who tells what is stored, or that nobody can tell. -/
theorem Outcome.keeps {outcome : Outcome} {v : EntryView} {wall : Bytes} {reachable : Prop}
    (htruth : outcome = direct (some v) wall ∨ ∃ detail, outcome = .unavailable detail)
    (hreached : reachable → ∀ detail, outcome ≠ .unavailable detail) :
    outcome.Keeps v wall reachable where
  live hlive := by
    rcases htruth with hdirect | hunavailable
    · rw [direct, hlive] at hdirect
      exact Or.inl hdirect
    · exact Or.inr hunavailable
  expired hexpired := by
    rcases htruth with hdirect | hunavailable
    · rw [direct, hexpired] at hdirect
      exact Or.inl hdirect
    · exact Or.inr (Or.inr hunavailable)
  reached := hreached

/-- What the client of a promised code may read. -/
structure Honours (v : EntryView) (wall : Bytes) (reachable : Prop) (raw : Bytes) : Prop where
  /-- The URL, or that nobody can tell at the moment. -/
  live : isBusinessExpired v.expireAt wall = false →
    ∀ a, redirected raw = some a → a = (302, some v.longUrl) ∨ a = (503, none)
  reached : isBusinessExpired v.expireAt wall = false → reachable →
    redirected raw = some (302, some v.longUrl)
  expired : isBusinessExpired v.expireAt wall = true →
    ∀ a, redirected raw = some a → a.2 = none ∧ (a.1 = 410 ∨ a.1 = 404 ∨ a.1 = 503)

namespace Service

variable {cfg : Config} {P : Promised} {s s₁ : State cfg} {o : Outside} {req : HttpRequest}
  {resp : HttpResponse} {code : Bytes} {v : EntryView}

/-- The service answers what its process answers. -/
theorem respond_eq (o : Outside) (s : State cfg) (req : HttpRequest) :
    HttpConn.respond (State.dispatch o) s req =
      (HttpConn.respond (Handler.dispatch { o with bloom := s.bloom }) s.process req).map
        fun r => ({ (s.dispatch o req).1 with process := r.1 }, r.2) := by
  unfold HttpConn.respond State.dispatch
  simp only
  rcases Handler.dispatch { o with bloom := s.bloom } s.process req with ⟨process, answer⟩
  cases answer with
  | answered r => rfl
  | unmatched =>
    simp only [Option.map_map]
    rfl
  | threw => rfl

theorem respond_process (h : HttpConn.respond (State.dispatch o) s req = some (s₁, resp)) :
    s₁ = (s.dispatch o req).1 ∧
      HttpConn.respond (Handler.dispatch { o with bloom := s.bloom }) s.process req =
        some (s₁.process, resp) := by
  refine ⟨HttpConn.respond_state (State.dispatch o) h, ?_⟩
  rw [respond_eq] at h
  obtain ⟨⟨process, r⟩, hr, he⟩ := Option.map_eq_some_iff.mp h
  cases he
  exact hr

/-! ## The promise -/

/-- **A code that is read from a 201 is promised** from then on. -/
theorem Holding.created (h : Holding P s) {post : WireRequest} (hwf : post.WellFormed)
    (hlen : post.encode.length < READ_BUFFER_SIZE) {k : Link} {raw : Bytes}
    (hex : exchange (State.dispatch o) k s post.encode = some (s₁, raw))
    (hcode : createdCode raw = some code) :
    ∃ longUrl expireAt, decodeShorten post.body = .accepted longUrl expireAt ∧
      (∃ id, code = base62Encode id) ∧ Holding (P.and code ⟨longUrl, expireAt⟩) s₁ := by
  obtain ⟨s', out, hex', hout, -⟩ := exchange_cases (State.dispatch o) hwf hlen k s
  rw [hex] at hex'
  cases hex'
  rcases hout with rfl | ⟨resp, hresp, rfl⟩
  · rw [createdCode_nil] at hcode
    cases hcode
  · obtain ⟨hs₁, hprocess⟩ := respond_process hresp
    obtain ⟨hsafe, h201⟩ := respond_cases hprocess
    have hshort : shortCode resp = some code := by
      rw [createdCode, hsafe.parse_answerText, Option.bind_some] at hcode
      exact hcode
    have hstatus : resp.statusCode = 201 := by
      by_contra hne
      rw [shortCode, if_pos hne] at hshort
      cases hshort
    obtain ⟨htarget, hshortened⟩ := h201 hstatus
    obtain ⟨hheld, hnew⟩ := h.dispatch o post.request
    rw [← hs₁] at hheld hnew
    generalize hp : s₁.process = p at hshortened
    cases hshortened with
    | other _ hne => exact absurd hstatus hne
    | @created longUrl expireAt code' _ decoded budget mysql made answer =>
      rw [createdCode_answerText answer] at hcode
      obtain rfl : code' = code := Option.some.inj hcode
      obtain ⟨-, hpromise⟩ := h.kept.createLoop o.env (Traffic.sound_of_decoded decoded)
        (List.ofFn o.tries)
      obtain ⟨hid, hkept⟩ := hpromise code' (congrArg Prod.snd made)
      have hpassed : code' ∈ passed { o with bloom := s.bloom } s.process post.request := by
        rw [passed, htarget]
        simp only [shortenPassed, decoded, if_neg budget, if_neg mysql, made]
        exact List.mem_singleton_self code'
      refine ⟨longUrl, expireAt, decoded, hid, ?_, hheld.covered, ?_⟩
      · rw [made] at hkept
        rw [hp]
        exact hkept
      · intro c w hw hlive
        rcases hw with hw | ⟨rfl, -⟩
        · exact hheld.shown c w hw hlive
        · exact hnew c hpassed

/-! ## Keeping it -/

/-- `redirect` for a promised code, filter included. -/
theorem Holding.redirect (h : Holding P s) (hP : P code v) (hflight : o.flight = none)
    (hparam : req.params.lookup (ascii "code") = some code) :
    ∃ outcome : Outcome, (Handler.redirect s.process req
        { o with bloom := s.bloom }.toVisit).response = outcome.response ∧
      outcome.Keeps v s.process.wall (Reachable s.process o.env) := by
  by_cases hmiss : s.bloom.hardMiss code = some true
  · -- Only a code that has expired can be missing from the filter.
    have hexpired : isBusinessExpired v.expireAt s.process.wall = true := by
      by_contra hlive
      rw [h.shown code v hP (by simpa using hlive)] at hmiss
      cases hmiss
    refine ⟨.notFound, ?_, ?_, fun _ => Or.inr (Or.inl rfl), fun _ _ => by simp⟩
    · unfold Handler.redirect
      simp only [hparam, hmiss, if_true]
      split
      · rfl
      · rfl
    · intro hlive
      rw [hlive] at hexpired
      cases hexpired
  · have hresponse := (redirect_eq s.process (v := { o with bloom := s.bloom }.toVisit) hparam hmiss
      hflight).2
    obtain ⟨-, -, htruth⟩ := h.kept.redirect code o.env
    exact ⟨(s.process.redirect code o.env).2, hresponse,
      Outcome.keeps (htruth v hP) fun hr => hr.redirect code⟩

/-- The answer to a GET for a code is that of `redirect`. -/
theorem respond_get {cfg : Handler.Config} (o : Outside) (p : Process cfg)
    (hid : ∃ id, code = base62Encode id) (hhealth : code ≠ ascii "health")
    (hmetrics : code ≠ ascii "metrics") (hask : Asks req code) :
    ∃ req' : HttpRequest, req'.params.lookup (ascii "code") = some code ∧
      HttpConn.respond (Handler.dispatch o) p req =
        (Handler.redirect p req' o.toVisit).response.map
          fun resp => ((Handler.redirect p req' o.toVisit).process, resp) := by
  have hsegs : Http.splitPath req.path = [code] := by
    obtain ⟨id, rfl⟩ := hid
    rw [hask.path]
    exact splitPath_code (base62Encode_ne_nil _)
      fun hmem => slash_not_letter (base62Encode_mem _ _ hmem)
  have hreach : Reaches (@handlers cfg o) req code :=
    .of_selected _ (select_code _ hask hsegs hhealth hmetrics)
  refine ⟨{ req with params := codeParams code, routePattern := ascii "/\x7bcode\x7d" },
    hreach.param, ?_⟩
  rw [HttpConn.respond, Handler.dispatch, hreach.answered p, handlers]
  simp only
  generalize Handler.redirect p _ o.toVisit = served
  obtain ⟨p', published, response⟩ := served
  cases response with
  | none => rfl
  | some resp => rfl

/-- A promised URL fits a response. -/
theorem Holding.fits (h : Holding P s) (hP : P code v) : (answerText
    (((HttpResponse.setStatus {} 302).setHeader (ascii "Location") v.longUrl).setBody [])).length <
      WRITE_BUFFER_SIZE := by
  obtain ⟨row, hsound, -, rfl⟩ := h.kept.row hP
  have hsafe := safeUrl_of_check hsound.url
  exact location_fits {} hsafe.length.2

/-- **A promise is kept**: what the client of a GET for the code reads. -/
theorem Holding.honours (h : Holding P s) (hP : P code v) (hid : ∃ id, code = base62Encode id)
    (hhealth : code ≠ ascii "health") (hmetrics : code ≠ ascii "metrics") {get : WireRequest}
    (hwf : get.WellFormed) (hlen : get.encode.length < READ_BUFFER_SIZE)
    (hmethod : get.method = .get) (hpath : get.path = ascii "/" ++ code) (hflight : o.flight = none)
    (k : Link) :
    ∃ s' raw, exchange (State.dispatch o) k s get.encode = some (s', raw) ∧
      Honours v s.process.wall (Reachable s.process o.env) raw := by
  obtain ⟨s', raw, hex, hout, hfits⟩ := exchange_cases (State.dispatch o) hwf hlen k s
  refine ⟨s', raw, hex, ?_⟩
  have hask : Asks get.request code := ⟨congrArg Http.Method.name hmethod, hpath⟩
  obtain ⟨req, hparam, hprocess⟩ := respond_get { o with bloom := s.bloom } s.process hid hhealth
    hmetrics hask
  obtain ⟨outcome, hresponse, hkeeps⟩ := h.redirect hP hflight hparam
  rw [hresponse] at hprocess
  have hread : ∀ resp s', HttpConn.respond (State.dispatch o) s get.request = some (s', resp) →
      redirected (answerText resp) = some ((outcome.statusCode : Int), outcome.location) := by
    intro resp s' hresp
    obtain ⟨-, hresp⟩ := respond_process hresp
    obtain ⟨hsafe, -⟩ := respond_cases hresp
    rw [hprocess] at hresp
    obtain ⟨resp', houtcome, he⟩ := Option.map_eq_some_iff.mp hresp
    obtain rfl : resp' = resp := (Prod.mk.inj he).2
    exact Outcome.redirected houtcome hsafe
  have hall : ∀ a, redirected raw = some a →
      a = ((outcome.statusCode : Int), outcome.location) := by
    intro a ha
    rcases hout with rfl | ⟨resp, hresp, rfl⟩
    · rw [redirected, parseResponse_nil] at ha
      cases ha
    · rw [hread resp _ hresp] at ha
      exact (Option.some.inj ha).symm
  refine ⟨?_, ?_, ?_⟩
  · intro hlive a ha
    rw [hall a ha]
    rcases hkeeps.live hlive with rfl | ⟨detail, rfl⟩
    · exact Or.inl rfl
    · exact Or.inr rfl
  · intro hlive hreachable
    have hfound : outcome = .found v.longUrl := by
      rcases hkeeps.live hlive with hfound | ⟨detail, hunavailable⟩
      · exact hfound
      · exact absurd hunavailable (hkeeps.reached hreachable detail)
    subst hfound
    have hresp := respond_eq o s get.request
    rw [hprocess] at hresp
    obtain ⟨-, rfl⟩ := hfits _ _ hresp (h.fits hP)
    exact hread _ _ hresp
  · intro hexpired a ha
    rw [hall a ha]
    rcases hkeeps.expired hexpired with rfl | rfl | ⟨detail, rfl⟩
    · exact ⟨rfl, Or.inl rfl⟩
    · exact ⟨rfl, Or.inr (Or.inl rfl)⟩
    · exact ⟨rfl, Or.inr (Or.inr rfl)⟩

/-- **What a 201 promises is kept.** In any run of the service a client POSTs, and reads a code in
the answer. After any further run, with other requests, lost entries and restarts in it, a client
asks for this code, and nobody else does at the same time. The body of the POST had a URL and an expiry,
and the answer is a redirect to exactly this URL for as long as it has not expired, or a 503, and no
503 if MySQL answers and there is a slot; later on it is no redirect. -/
theorem promise_kept (cfg : Config) (hcounted : cfg.process.router.Counted) (b : Boot)
    (wall : Bytes) (before after : List Label) (s s₁ s₂ : State cfg) (o o' : Outside) (k k' : Link)
    (post get : WireRequest) (raw code : Bytes)
    (hbefore : Machine.run State.step (.start cfg b wall) before = some s)
    (hpost : post.WellFormed) (hposted : post.encode.length < READ_BUFFER_SIZE)
    (hanswer : exchange (State.dispatch o) k s post.encode = some (s₁, raw))
    (hcode : createdCode raw = some code)
    (hhealth : code ≠ ascii "health") (hmetrics : code ≠ ascii "metrics")
    (hafter : Machine.run State.step s₁ after = some s₂)
    (hget : get.WellFormed) (hasked : get.encode.length < READ_BUFFER_SIZE)
    (hmethod : get.method = .get) (hpath : get.path = ascii "/" ++ code)
    (halone : o'.flight = none) :
    ∃ longUrl expireAt s₃ raw', decodeShorten post.body = .accepted longUrl expireAt ∧
      exchange (State.dispatch o') k' s₂ get.encode = some (s₃, raw') ∧
      Honours ⟨longUrl, expireAt⟩ s₂.process.wall (Reachable s₂.process o'.env) raw' := by
  have hstart := (holding_start hcounted b wall).run hcounted hbefore
  obtain ⟨longUrl, expireAt, hbody, hid, hpromised⟩ := hstart.created hpost hposted hanswer hcode
  have hlater := hpromised.run hcounted hafter
  obtain ⟨s₃, raw', hex, hhonours⟩ := hlater.honours (Or.inr ⟨rfl, rfl⟩) hid hhealth hmetrics hget
    hasked hmethod hpath halone k'
  exact ⟨longUrl, expireAt, s₃, raw', hbody, hex, hhonours⟩

/-- A hard filter of sixteen bits. -/
def hardConfig : Config where
  process := small
  bloom := smallBloom

/-- The only id is 10. -/
def ten : Outside := { quiet with tries := fun _ => (some 10, .answered) }

def wire : Link where
  slot := {}
  connfd := 5
  trigMode := 0
  ws := [.sent WRITE_BUFFER_SIZE]
  completes := Http.Session.completes_sent

def shortenPost : WireRequest where
  method := .post
  target := ascii "/api/shorten"
  headers := [(ascii "Content-Length", ascii "28")]
  body := ascii "\x7b\"long_url\":\"http://x.org/\"\x7d"

def codeGet : WireRequest where
  method := .get
  target := ascii "/a"
  headers := []
  body := []

def upAt (now : Int) : Boot where
  now := now
  redisAvailable := true

/-- The process is started again in between. -/
theorem promise_kept_restarted : ∃ s₁ : State hardConfig, ∃ raw s₂ s₃ raw',
    exchange (State.dispatch ten) wire (.start hardConfig (upAt 0) []) shortenPost.encode =
        some (s₁, raw) ∧ createdCode raw = some (ascii "a") ∧
      s₁.step (.restart (upAt 7)) = some s₂ ∧
      exchange (State.dispatch ten) wire s₂ codeGet.encode = some (s₃, raw') ∧
      redirected raw' = some (302, some (ascii "http://x.org/")) := by
  have hcounted : hardConfig.process.router.Counted := ⟨by decide, by decide⟩
  have hpost : shortenPost.WellFormed := by decide +kernel
  have hread : (HttpConn.respond (State.dispatch ten) (State.start hardConfig (upAt 0) [])
      shortenPost.request).map (fun r => (createdCode (answerText r.2),
        decide ((answerText r.2).length < WRITE_BUFFER_SIZE))) = some (some (ascii "a"), true) := by
    decide +kernel
  obtain ⟨⟨st, resp⟩, hresp, hanswer⟩ := Option.map_eq_some_iff.mp hread
  obtain ⟨hcode, hfits⟩ := Prod.mk.inj hanswer
  obtain ⟨s₁, raw, hex, -, hout⟩ := exchange_cases (State.dispatch ten) hpost
    (by decide +kernel) wire (State.start hardConfig (upAt 0) [])
  obtain ⟨-, rfl⟩ := hout st resp hresp (of_decide_eq_true hfits)
  obtain ⟨longUrl, expireAt, s₃, raw', hbody, hex', hhonours⟩ := promise_kept hardConfig hcounted
    (upAt 0) [] [] [.restart (upAt 7)] _ s₁ _ ten ten wire wire shortenPost codeGet _ (ascii "a")
    rfl hpost (by decide +kernel) hex hcode (by decide) (by decide) rfl (by decide +kernel)
    (by decide +kernel) rfl (by decide +kernel) rfl
  have hdecoded : decodeShorten shortenPost.body = .accepted (ascii "http://x.org/") [] := rfl
  rw [hdecoded] at hbody
  cases hbody
  exact ⟨s₁, _, _, s₃, raw', hex, hcode, rfl, hex', hhonours.reached rfl ⟨rfl, rfl, Or.inl rfl⟩⟩

end Service

end Handler
end UrlShortener
