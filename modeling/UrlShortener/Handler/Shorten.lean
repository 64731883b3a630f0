import UrlShortener.Base.JsonText
import UrlShortener.Handler.Redirect

/-!
# UrlShortener.Handler.Shorten

The first part of `shorten`: the body is parsed, and `long_url` and `expire_at` are checked.

`json::parse` is the reader of `Base.JsonText` in the dialect of the vendored `nlohmann::json`. It
throws a `parse_error` on what is not JSON and an `out_of_range` on a number that no double can
hold. An integer that fits 64 bits is not made a double, but such a one is never too large.
-/

namespace UrlShortener
namespace Handler

open Http (HttpResponse isHttpUrlSafeForLocation)
open JsonText (Dialect Token Value)

/-! ## json::parse -/

inductive JsonException where
  | parseError
  | outOfRange
  | typeError
deriving DecidableEq

def nlohmann : Dialect where
  constants := false
  nulEnds := true
  loneSurrogates := false
  strictNumbers := true

/-- The check of `sax_parse_internal` on a `value_float`. -/
def numberOverflow (_depth : Nat) : Token → Option Unit
  | .number n => if n.overflows then some () else none
  | _ => none

/-- A byte order mark may come first, but has to be whole. -/
def skipBom : Bytes → Option Bytes
  | [] => some []
  | b :: bs => if b = 0xEF then JsonText.stripWord [0xBB, 0xBF] bs else some (b :: bs)

def parse (text : Bytes) : Except JsonException Value :=
  match skipBom text with
  | none => .error .parseError
  | some text =>
    match JsonText.read nlohmann numberOverflow text with
    | .ok v => .ok v
    | .error .malformed => .error .parseError
    | .error (.trapped ()) => .error .outOfRange

/-! ## shorten, up to the storage -/

inductive Decoded where
  /-- `shorten` has answered and returned. -/
  | answered (resp : HttpResponse)
  /-- `shorten` goes on with this pair. -/
  | accepted (longUrl expireAt : Bytes)
  /-- An exception leaves `shorten`. -/
  | raised (e : JsonException)

def badRequest (error : String) : Decoded :=
  match (HttpResponse.setStatus {} 400).setJson [(ascii "error", some (ascii error))] with
  | some resp => .answered resp
  | none => .raised .typeError

def checkExpireAt (longUrl : Bytes) : Option Value → Decoded
  | none => .accepted longUrl []
  | some .null => .accepted longUrl []
  | some (.string expireAt) =>
    if validExpireAt expireAt then .accepted longUrl expireAt
    else badRequest "expire_at format must be YYYY-MM-DD HH:MM:SS"
  | some _ => badRequest "expire_at must be a datetime string"

def checkPayload (payload : Value) : Decoded :=
  match payload.lookup (ascii "long_url") with
  | some (.string longUrl) =>
    if isHttpUrlSafeForLocation longUrl then
      checkExpireAt longUrl (payload.lookup (ascii "expire_at"))
    else badRequest "long_url must be http(s) without control characters"
  | _ => badRequest "long_url is required"

/-- Only a `parse_error` is caught. -/
def decodeShorten (body : Bytes) : Decoded :=
  match parse body with
  | .error .parseError => badRequest "invalid json"
  | .error e => .raised e
  | .ok payload => checkPayload payload

/-! ## Which bodies it survives -/

/-- A 400, or a pair that has passed the checks. -/
inductive Decided : Decoded → Prop where
  | answered {resp : HttpResponse} (status : resp.statusCode = 400) : Decided (.answered resp)
  | accepted {longUrl expireAt : Bytes} (url : isHttpUrlSafeForLocation longUrl = true)
      (expire : expireAt = [] ∨ validExpireAt expireAt = true) :
      Decided (.accepted longUrl expireAt)

theorem badRequest_decided {error : String} (h : Json.utf8Valid (ascii error) = true) :
    Decided (badRequest error) := by
  have herror : Json.utf8Valid (ascii "error") = true := by decide +kernel
  have hsome : ((HttpResponse.setStatus {} 400).setJson
      [(ascii "error", some (ascii error))]).isSome = true := by
    rw [HttpResponse.setJson_isSome, Json.dump_isSome]
    simp only [List.all_cons, List.all_nil, Option.all_some, herror, h, Bool.and_self]
  obtain ⟨resp, hresp⟩ := Option.isSome_iff_exists.mp hsome
  rw [badRequest, hresp]
  exact .answered (HttpResponse.setJson_status hresp)

theorem checkExpireAt_decided {longUrl : Bytes} (hurl : isHttpUrlSafeForLocation longUrl = true)
    (v : Option Value) : Decided (checkExpireAt longUrl v) := by
  unfold checkExpireAt
  split
  · exact .accepted hurl (Or.inl rfl)
  · exact .accepted hurl (Or.inl rfl)
  · split
    · exact .accepted hurl (Or.inr ‹_›)
    · exact badRequest_decided (by decide +kernel)
  · exact badRequest_decided (by decide +kernel)

theorem checkPayload_decided (payload : Value) : Decided (checkPayload payload) := by
  unfold checkPayload
  split
  · split
    · exact checkExpireAt_decided ‹_› _
    · exact badRequest_decided (by decide +kernel)
  · exact badRequest_decided (by decide +kernel)

/-- Some number of the body, where a value may stand and before anything that is not JSON, is too
large for a double. -/
def NumberOverflows (body : Bytes) : Prop :=
  ∃ text, skipBom body = some text ∧ JsonText.Traps nlohmann numberOverflow text

theorem parse_outOfRange_iff (body : Bytes) :
    parse body = .error .outOfRange ↔ NumberOverflows body := by
  unfold parse NumberOverflows
  cases skipBom body with
  | none => simp
  | some text =>
    simp only [← JsonText.read_traps_iff, Option.some.injEq, exists_eq_left']
    cases JsonText.read nlohmann numberOverflow text with
    | ok v => simp
    | error e => cases e <;> simp

theorem parse_ne_typeError (body : Bytes) : parse body ≠ .error .typeError := by
  unfold parse
  split
  · simp
  · split <;> simp

theorem decodeShorten_decided {body : Bytes} (h : parse body ≠ .error .outOfRange) :
    Decided (decodeShorten body) := by
  rw [decodeShorten]
  cases hparse : parse body with
  | ok payload => exact checkPayload_decided payload
  | error e =>
    cases e with
    | parseError => exact badRequest_decided (by decide +kernel)
    | outOfRange => exact absurd hparse h
    | typeError => exact absurd hparse (parse_ne_typeError body)

/-- A pair that is accepted has passed the checks. -/
theorem decided_of_accepted {body longUrl expireAt : Bytes}
    (h : decodeShorten body = .accepted longUrl expireAt) :
    Decided (.accepted longUrl expireAt) := by
  rw [← h]
  refine decodeShorten_decided ?_
  intro hparse
  rw [decodeShorten, hparse] at h
  cases h

/-- **Which bodies `shorten` survives.** It answers 400 or goes on with a checked pair exactly when
no number of the body overflows. -/
theorem shorten_decides_iff (body : Bytes) :
    Decided (decodeShorten body) ↔ ¬ NumberOverflows body := by
  rw [← parse_outOfRange_iff]
  constructor
  · intro hdecided hparse
    rw [decodeShorten, hparse] at hdecided
    cases hdecided
  · exact decodeShorten_decided

def isOutOfRange : Except JsonException Value → Bool
  | .error .outOfRange => true
  | _ => false

theorem isOutOfRange_iff {r : Except JsonException Value} :
    isOutOfRange r = true ↔ r = .error .outOfRange := by
  unfold isOutOfRange
  split <;> simp_all

def hugeNumber : Bytes := ascii "\x7b\"long_url\":1e999\x7d"

theorem shorten_raises_hugeNumber : ¬ ∀ body : Bytes, Decided (decodeShorten body) := by
  intro hall
  have hparse : parse hugeNumber = .error .outOfRange := isOutOfRange_iff.mp (by decide +kernel)
  have hdecided := hall hugeNumber
  rw [decodeShorten, hparse] at hdecided
  cases hdecided

end Handler
end UrlShortener
