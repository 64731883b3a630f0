import UrlShortener.Base.JsonDump
import UrlShortener.Handler.Sizes
import UrlShortener.Server.Exchange

/-!
# UrlShortener.Handler.Client

What a client reads: the code in the body of a 201, and the `Location` of the answer to a GET. Only
`shorten` answers with 201, and the code that is read from its answer is the one it has created.
-/

namespace UrlShortener
namespace Handler

open Http (HttpConn HttpRequest HttpResponse answerText)
open Http.HttpResponse (Clean)
open JsonText (Token Value)
open ShortUrl

/-! ## Reading -/

/-- A client that was sent nothing reads no answer. -/
theorem parseResponse_nil : Http.parseResponse [] = none := by decide +kernel

/-- `short_code` in the body of a 201. -/
def shortCode (resp : HttpResponse) : Option Bytes :=
  if resp.statusCode ≠ 201 then none
  else
    match parse resp.body with
    | .error _ => none
    | .ok payload =>
      match payload.lookup (ascii "short_code") with
      | some (.string code) => some code
      | _ => none

/-- The code that the client of a POST reads. -/
def createdCode (raw : Bytes) : Option Bytes := (Http.parseResponse raw).bind shortCode

theorem createdCode_nil : createdCode [] = none := by
  rw [createdCode, parseResponse_nil, Option.bind_none]

/-- The status of the answer to a GET, and its `Location`. -/
def redirected (raw : Bytes) : Option (Int × Option Bytes) :=
  (Http.parseResponse raw).map fun resp => (resp.statusCode, resp.headers.lookup (ascii "Location"))

theorem Safe.parse_answerText {resp : HttpResponse} (h : Safe resp) :
    Http.parseResponse (answerText resp) =
      some (resp.setHeader (ascii "Connection") (ascii "keep-alive")) :=
  (h.setHeader (by decide) (by decide) (by decide) (by decide) (by decide)).clean.parse

theorem Safe.redirected_answerText {resp : HttpResponse} (h : Safe resp) :
    redirected (answerText resp) =
      some (resp.statusCode, resp.headers.lookup (ascii "Location")) := by
  rw [redirected, h.parse_answerText]
  have hother : (resp.headers.insert (ascii "Connection") (ascii "keep-alive")).lookup
      (ascii "Location") = resp.headers.lookup (ascii "Location") :=
    AList.lookup_insert_ne (by decide)
  rw [Option.map_some, HttpResponse.setHeader, hother]

/-! ## The answers of the four handlers -/

variable {cfg : Config} {s s' : Process cfg} {o : Outside} {req : HttpRequest} {resp : HttpResponse}

/-- A response with nothing but its status. -/
theorem safe_status (n : Int) : Safe (HttpResponse.setStatus {} n) := safe_empty.of_headers rfl

theorem json_safe {n : Int} {fields : List (Bytes × Option Bytes)}
    (h : (HttpResponse.setStatus {} n).setJson fields = some resp) :
    Safe resp ∧ resp.statusCode = n := by
  refine ⟨(safe_status n).setJson h, ?_⟩
  obtain ⟨body, -, hr⟩ := Option.bind_eq_some_iff.mp h
  cases hr
  rfl

/-- The body of a JSON answer is the text of its fields. -/
theorem json_body {n : Int} {fields : List (Bytes × Option Bytes)}
    (h : (HttpResponse.setStatus {} n).setJson fields = some resp) :
    Json.dump fields = some resp.body := by
  obtain ⟨body, hbody, hr⟩ := Option.bind_eq_some_iff.mp h
  cases hr
  exact hbody

/-- What `shorten` answers, and when it is a 201. -/
inductive Shortened (o : Outside) (s : Process cfg) (body : Bytes) :
    Process cfg → HttpResponse → Prop
  | created {s' : Process cfg} {longUrl expireAt code : Bytes} {resp : HttpResponse}
      (decoded : decodeShorten body = .accepted longUrl expireAt)
      (budget : ¬ (!s.redisAvailable && !o.env.slot) = true) (mysql : ¬ (!o.env.mysql) = true)
      (made : s.createLoop longUrl expireAt o.env (List.ofFn o.tries) = (s', .created code))
      (answer : Creation.response o.publicBaseUrl longUrl expireAt (.created code) = some resp) :
      Shortened o s body s' resp
  | other {s' : Process cfg} {resp : HttpResponse} (safe : Safe resp)
      (status : resp.statusCode ≠ 201) :
      Shortened o s body s' resp

theorem shorten_shortened (h : shorten o s req = (s', some resp)) :
    Shortened o s req.body s' resp := by
  have unavailable : ∀ detail, (Outcome.unavailable detail).response = some resp →
      Shortened o s req.body s' resp := by
    intro detail hresp
    obtain ⟨hsafe, hstatus⟩ := json_safe (n := 503) hresp
    exact .other hsafe (by rw [hstatus]; decide)
  unfold shorten at h
  cases hbody : decodeShorten req.body with
  | answered r =>
    rw [hbody] at h
    cases h
    obtain ⟨fields, -, -, hr⟩ := decodeShorten_answered hbody
    obtain ⟨hsafe, hstatus⟩ := json_safe (n := 400) hr
    exact .other hsafe (by rw [hstatus]; decide)
  | raised e =>
    rw [hbody] at h
    cases h
  | accepted longUrl expireAt =>
    rw [hbody] at h
    simp only at h
    split at h
    · exact unavailable _ (Prod.mk.inj h).2
    · rename_i hbudget
      split at h
      · exact unavailable _ (Prod.mk.inj h).2
      · rename_i hmysql
        rcases hmade : s.createLoop longUrl expireAt o.env (List.ofFn o.tries) with ⟨s₁, creation⟩
        rw [hmade] at h
        obtain ⟨hs, hresp⟩ := Prod.mk.inj h
        cases creation with
        | created code => exact .created hbody hbudget hmysql (hs ▸ hmade) hresp
        | failed e => exact unavailable e hresp
        | threw => cases hresp

/-- `redirect` never answers with 201. -/
theorem redirect_status {v : Visit} (h : (redirect s req v).response = some resp) :
    resp.statusCode ≠ 201 := by
  have hstatus : ∃ o : Outcome, o.response = some resp := by
    have hserves := redirect_serves s req v
    generalize redirect s req v = served at hserves h
    cases hserves with
    | found _ _ => exact ⟨_, h⟩
    | other _ _ => exact ⟨_, h⟩
  obtain ⟨outcome, hresp⟩ := hstatus
  rw [Outcome.response_status hresp]
  cases outcome with
  | found url => simp [Outcome.statusCode]
  | unsafeUrl => simp [Outcome.statusCode]
  | expired => simp [Outcome.statusCode]
  | notFound => simp [Outcome.statusCode]
  | unavailable detail => simp [Outcome.statusCode]

/-- Who made this answer: the loop of `shorten`, or somebody whose answer is no 201. -/
theorem respond_cases (h : HttpConn.respond (dispatch o) s req = some (s', resp)) :
    Safe resp ∧ (resp.statusCode = 201 →
      target req = .shorten ∧ Shortened o s req.body s' resp) := by
  obtain ⟨params, pattern, hdispatch⟩ := dispatch_routes (handlers o) s req
  cases htarget : target req with
  | health =>
    rw [htarget, answerBy] at hdispatch
    have hr := (Prod.mk.inj (respond_returned h hdispatch)).2
    obtain ⟨hsafe, hstatus⟩ := json_safe (n := 200) hr
    exact ⟨hsafe, fun h201 => absurd (hstatus.symm.trans h201) (by decide)⟩
  | metrics =>
    rw [htarget, answerBy] at hdispatch
    have hr : metrics o s req = (s', some resp) := respond_returned h hdispatch
    cases hr
    refine ⟨?_, fun h201 => absurd (show (200 : Int) = 201 from h201) (by decide)⟩
    refine Safe.of_headers (r := (HttpResponse.setStatus {} 200).setHeader (ascii "Content-Type")
      (ascii "text/plain; version=0.0.4; charset=utf-8")) ?_ rfl
    exact (safe_status 200).setHeader (by decide) (by decide) (by decide) (by decide) (by decide)
  | shorten =>
    rw [htarget, answerBy] at hdispatch
    have hr : shorten o s { req with params, routePattern := pattern } = (s', some resp) :=
      respond_returned h hdispatch
    have hshortened := shorten_shortened hr
    refine ⟨?_, fun _ => ⟨rfl, hshortened⟩⟩
    cases hshortened with
    | created _ _ _ _ answer => exact (json_safe (n := 201) answer).1
    | other safe _ => exact safe
  | redirect =>
    rw [htarget, answerBy] at hdispatch
    have hr := (Prod.mk.inj (respond_returned h hdispatch)).2
    exact ⟨redirect_safe s _ o.toVisit hr, fun h201 => absurd h201 (redirect_status hr)⟩
  | unmatched =>
    rw [htarget, answerBy] at hdispatch
    obtain ⟨hsafe, hstatus⟩ := json_safe (n := 404) (respond_notFound h hdispatch)
    exact ⟨hsafe, fun h201 => absurd (hstatus.symm.trans h201) (by decide)⟩

/-! ## The code of a 201 -/

theorem createdFields_plain (base code longUrl expireAt : Bytes) :
    ∀ f ∈ createdFields base code longUrl expireAt, f.1.all Json.isPlain = true := by
  simp only [createdFields, List.forall_mem_cons]
  repeat rw [ascii_ofList]
  decide +kernel

theorem createdFields_nodup (base code longUrl expireAt : Bytes) :
    ((createdFields base code longUrl expireAt).map Prod.fst).Nodup := by
  simp only [createdFields, List.map_cons, List.map_nil]
  repeat rw [ascii_ofList]
  decide +kernel

/-- No byte order mark in front. -/
theorem skipBom_dump {fields : List (Bytes × Option Bytes)} {text : Bytes}
    (h : Json.dump fields = some text) : skipBom text = some text := by
  have hopen : ascii "\x7b" = [0x7B] := by decide
  obtain ⟨body, -, htext⟩ := Option.bind_eq_some_iff.mp h
  obtain rfl : ascii "\x7b" ++ body ++ ascii "\x7d" = text := Option.some.inj htext
  rw [hopen, List.singleton_append, List.cons_append, skipBom, if_neg (by decide)]

/-- **The 201 is read back**: with the code that was created. -/
theorem createdCode_answerText {base longUrl expireAt code : Bytes}
    (h : Creation.response base longUrl expireAt (.created code) = some resp) :
    createdCode (answerText resp) = some code := by
  have hbody := json_body (n := 201) h
  obtain ⟨hsafe, hstatus⟩ := json_safe (n := 201) h
  have hread : JsonText.read nlohmann numberOverflow resp.body =
      .ok (.object ((createdFields base code longUrl expireAt).map JsonText.fieldPair)) :=
    JsonText.read_dump hbody (List.cons_ne_nil _ _)
      (createdFields_plain base code longUrl expireAt)
      (createdFields_nodup base code longUrl expireAt) rfl (fun v => by cases v <;> rfl)
  have hparse : parse resp.body =
      .ok (.object ((createdFields base code longUrl expireAt).map JsonText.fieldPair)) := by
    rw [parse, skipBom_dump hbody]
    simp only [hread]
  have hlookup : (Value.object ((createdFields base code longUrl expireAt).map
      JsonText.fieldPair)).lookup (ascii "short_code") = some (.string code) := by
    refine JsonText.lookup_of_mem ?_ ?_
    · rw [List.map_map]
      exact createdFields_nodup base code longUrl expireAt
    · exact List.mem_map.mpr ⟨(ascii "short_code", some code), by simp [createdFields], rfl⟩
  have hcode : shortCode resp = some code := by
    rw [shortCode, if_neg (not_not.mpr hstatus), hparse]
    simp only [hlookup]
  rw [createdCode, hsafe.parse_answerText, Option.bind_some]
  exact hcode

end Handler
end UrlShortener
