import UrlShortener.Base.Json

/-!
# UrlShortener.Http.Message

Requests as the parser hands them to the router (`http/request.h`) and responses as the handlers
build them (`http/response.cpp`). The request's MySQL handle is left out: `process` sets it to
null and no handler reads it.
-/

namespace UrlShortener
namespace Http

structure HttpRequest where
  method : Bytes := []
  path : Bytes := []
  query : Bytes := []
  routePattern : Bytes := []
  headers : StrMap Bytes := ∅
  body : Bytes := []
  params : StrMap Bytes := ∅
deriving DecidableEq

def HttpRequest.headerOrEmpty (req : HttpRequest) (name : Bytes) : Bytes :=
  (req.headers.lookup name).getD []

/-- The header map is walked in its list order; `std::unordered_map` fixes some order, and no
result depends on which. -/
structure HttpResponse where
  statusCode : Int := 200
  headers : StrMap Bytes := ∅
  body : Bytes := []
deriving DecidableEq

namespace HttpResponse

def setStatus (r : HttpResponse) (code : Int) : HttpResponse := { r with statusCode := code }

def setHeader (r : HttpResponse) (k v : Bytes) : HttpResponse :=
  { r with headers := r.headers.insert k v }

def setBody (r : HttpResponse) (body : Bytes) : HttpResponse := { r with body := body }

/-- `none` when `dump()` throws. -/
def setJson (r : HttpResponse) (fields : List (Bytes × Option Bytes)) : Option HttpResponse := do
  let body ← Json.dump fields
  return (r.setHeader (ascii "Content-Type") (ascii "application/json")).setBody body

theorem setJson_isSome (r : HttpResponse) (fields : List (Bytes × Option Bytes)) :
    (r.setJson fields).isSome = (Json.dump fields).isSome := by
  unfold setJson
  cases Json.dump fields <;> rfl

theorem setJson_status {r r' : HttpResponse} {fields : List (Bytes × Option Bytes)}
    (h : r.setJson fields = some r') : r'.statusCode = r.statusCode := by
  unfold setJson at h
  cases hd : Json.dump fields with
  | none => rw [hd] at h; cases h
  | some body =>
    rw [hd] at h
    cases h
    rfl

def statusText : Int → Bytes
  | 200 => ascii "OK"
  | 201 => ascii "Created"
  | 301 => ascii "Moved Permanently"
  | 302 => ascii "Found"
  | 400 => ascii "Bad Request"
  | 403 => ascii "Forbidden"
  | 404 => ascii "Not Found"
  | 405 => ascii "Method Not Allowed"
  | 410 => ascii "Gone"
  | 409 => ascii "Conflict"
  | 413 => ascii "Payload Too Large"
  | 500 => ascii "Internal Server Error"
  | 503 => ascii "Service Unavailable"
  | _ => ascii "Unknown"

def headerLine (h : Bytes × Bytes) : Bytes := h.1 ++ ascii ": " ++ h.2 ++ ascii "\r\n"

def serialize (r : HttpResponse) : Bytes :=
  ascii "HTTP/1.1 " ++ toDecimalInt r.statusCode ++ ascii " " ++ statusText r.statusCode ++
    ascii "\r\n" ++ ascii "Content-Length: " ++ toDecimal r.body.length ++ ascii "\r\n" ++
    r.headers.entries.flatMap (fun h => headerLine (h.1, h.2)) ++ ascii "\r\n" ++ r.body

/-- A response is never empty, so `bytes_to_send` is positive after `process_write`. -/
theorem serialize_length_pos (r : HttpResponse) : 0 < r.serialize.length := by
  have h : (ascii "HTTP/1.1 ").length = 9 := by decide
  simp only [serialize, List.length_append, h]
  omega

end HttpResponse

end Http
end UrlShortener
