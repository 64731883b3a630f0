import UrlShortener.Base.CString

/-!
# UrlShortener.Http.ProtocolUtils

The framing and Location-safety helpers of `http/protocol_utils.h`.
-/

namespace UrlShortener
namespace Http

def ULLONG_MAX : Nat := 2 ^ 64 - 1
def LONG_MAX : Nat := 2 ^ 63 - 1

/-- The digit loop of `parse_content_length`; `value` is an `unsigned long long`. -/
def parseContentLengthLoop : Nat → Bool → Bytes → Option Nat
  | value, sawDigit, [] => if !sawDigit || decide (LONG_MAX < value) then none else some value
  | value, _, b :: text =>
    if b < 48 ∨ 57 < b then none
    else
      let digit := b.toNat - 48
      if (ULLONG_MAX - digit) / 10 < value then none
      else parseContentLengthLoop ((value * 10 + digit) % 2 ^ 64) true text

/-- `parse_content_length`: `some v` when it returns true with `*out = v`. -/
def parseContentLength (text : Bytes) : Option Nat :=
  match text with
  | [] => none
  | b :: rest =>
    if b = 45 then none
    else if b = 43 then
      if rest = [] then none else parseContentLengthLoop 0 false rest
    else parseContentLengthLoop 0 false text

def containsCtlOrSeparator (value : Bytes) : Bool := value.any fun c => decide (c < 0x20 ∨ c = 0x7f)

def isHttpUrlSafeForLocation (url : Bytes) : Bool :=
  if url.length < 8 ∨ 2048 < url.length then false
  else if containsCtlOrSeparator url then false
  else url.take 7 == ascii "http://" || url.take 8 == ascii "https://"

theorem isHttpUrlSafeForLocation_noNul {url : Bytes} (h : isHttpUrlSafeForLocation url = true) :
    NUL ∉ url := by
  intro hmem
  unfold isHttpUrlSafeForLocation at h
  split at h
  · cases h
  · split at h
    · cases h
    · rename_i hctl
      exact hctl (List.any_eq_true.mpr ⟨NUL, hmem, by decide⟩)

def isUnsupportedBodyEncodingHeader (text : Bytes) : Bool :=
  strncasecmp text (ascii "Transfer-Encoding:") 18 || strncasecmp text (ascii "Content-Encoding:") 17

end Http
end UrlShortener
