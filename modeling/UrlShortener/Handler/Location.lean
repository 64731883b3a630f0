import UrlShortener.Handler.Publish
import UrlShortener.Http.Conn
import UrlShortener.Http.ResponseText

/-!
# UrlShortener.Handler.Location

The headers of the answers of `redirect`. All but `Location` are fixed texts, and `Location` is a URL
that `set_safe_location` let through, so a stored URL can neither end the header it is put into nor
begin another one.
-/

namespace UrlShortener
namespace Handler

open Http (HttpConn HttpRequest HttpResponse isHttpUrlSafeForLocation)
open Http.HttpResponse (Clean)

/-- What `set_safe_location` asks of a URL. -/
structure SafeUrl (url : Bytes) : Prop where
  length : 8 ≤ url.length ∧ url.length ≤ 2048
  noControl : ∀ b ∈ url, ¬ b < 0x20 ∧ b ≠ 0x7f
  scheme : ascii "http://" <+: url ∨ ascii "https://" <+: url

theorem safeUrl_of_check {url : Bytes} (h : isHttpUrlSafeForLocation url = true) : SafeUrl url := by
  unfold isHttpUrlSafeForLocation at h
  split at h
  · cases h
  · rename_i hlen
    split at h
    · cases h
    · rename_i hctl
      refine ⟨by omega, ?_, ?_⟩
      · intro b hb
        rw [Bool.not_eq_true, Http.containsCtlOrSeparator, List.any_eq_false] at hctl
        have hb := hctl b hb
        rw [decide_eq_true_eq, not_or] at hb
        exact hb
      · rw [Bool.or_eq_true, beq_iff_eq, beq_iff_eq] at h
        rcases h with h | h
        · exact Or.inl (h ▸ List.take_prefix 7 url)
        · exact Or.inr (h ▸ List.take_prefix 8 url)

/-- Headers that cannot be taken for more than one line each, and a `Location`, if there is one,
that is safe. -/
structure Safe (r : HttpResponse) : Prop where
  clean : Clean r
  location : ∀ url, r.headers.lookup (ascii "Location") = some url → SafeUrl url

/-- A header with a fixed name and a value without line ends keeps a response clean. -/
theorem clean_setHeader {r : HttpResponse} {k v : Bytes} (h : Clean r) (hk : k ≠ [])
    (hname : CR ∉ k ∧ LF ∉ k ∧ 58 ∉ k) (hlength : k ≠ Http.contentLength)
    (hvalue : CR ∉ v ∧ LF ∉ v) : Clean (r.setHeader k v) := by
  have hmem : ∀ f ∈ (r.setHeader k v).headers.entries, f = ⟨k, v⟩ ∨ f ∈ r.headers.entries := by
    intro f hf
    rw [HttpResponse.setHeader, AList.entries_insert, List.mem_cons] at hf
    exact hf.imp_right fun hf => (List.kerase_sublist k r.headers.entries).mem hf
  constructor
  · intro f hf
    rcases hmem f hf with rfl | hf
    · exact hk
    · exact h.nonempty f hf
  · intro f hf
    rcases hmem f hf with rfl | hf
    · exact hname
    · exact h.name f hf
  · intro f hf
    rcases hmem f hf with rfl | hf
    · exact hvalue
    · exact h.value f hf
  · intro f hf
    rcases hmem f hf with rfl | hf
    · exact hlength
    · exact h.noLength f hf

/-- The headers are those of `r`. -/
theorem Safe.of_headers {r r' : HttpResponse} (h : Safe r) (heq : r'.headers = r.headers) :
    Safe r' := by
  obtain ⟨hclean, hlocation⟩ := h
  refine ⟨⟨?_, ?_, ?_, ?_⟩, ?_⟩
  · rw [heq]
    exact hclean.nonempty
  · rw [heq]
    exact hclean.name
  · rw [heq]
    exact hclean.value
  · rw [heq]
    exact hclean.noLength
  · rw [heq]
    exact hlocation

theorem safe_empty : Safe {} := by
  refine ⟨⟨?_, ?_, ?_, ?_⟩, ?_⟩
  · intro f hf
    cases hf
  · intro f hf
    cases hf
  · intro f hf
    cases hf
  · intro f hf
    cases hf
  · intro url h
    cases h

/-- A header other than `Location`. -/
theorem Safe.setHeader {r : HttpResponse} {k v : Bytes} (h : Safe r) (hk : k ≠ [])
    (hname : CR ∉ k ∧ LF ∉ k ∧ 58 ∉ k) (hlength : k ≠ Http.contentLength)
    (hvalue : CR ∉ v ∧ LF ∉ v) (hother : k ≠ ascii "Location") : Safe (r.setHeader k v) := by
  refine ⟨clean_setHeader h.clean hk hname hlength hvalue, ?_⟩
  intro url hurl
  rw [HttpResponse.setHeader, AList.lookup_insert_ne hother.symm] at hurl
  exact h.location url hurl

theorem Safe.setJson {r r' : HttpResponse} {fields : List (Bytes × Option Bytes)} (h : Safe r)
    (hr : r.setJson fields = some r') : Safe r' := by
  obtain ⟨body, -, hr⟩ := Option.bind_eq_some_iff.mp hr
  cases hr
  exact (h.setHeader (k := ascii "Content-Type") (v := ascii "application/json") (by decide)
    (by decide) (by decide) (by decide) (by decide)).of_headers rfl

/-- The `Connection` header of `process`. -/
theorem Safe.withConnection {r : HttpResponse} (h : Safe r) (c : HttpConn) :
    Safe (c.withConnection r) := by
  unfold HttpConn.withConnection
  refine h.setHeader (by decide) (by decide) (by decide) ?_ (by decide)
  split
  · decide
  · decide

theorem Outcome.safe_response {o : Outcome} {resp : HttpResponse}
    (ho : ∀ url, o = .found url → isHttpUrlSafeForLocation url = true)
    (h : o.response = some resp) : Safe resp := by
  have hstart : Safe (HttpResponse.setStatus {} o.statusCode) := safe_empty.of_headers rfl
  cases o with
  | found url =>
    cases h
    have hsafe := safeUrl_of_check (ho url rfl)
    have hvalue : CR ∉ url ∧ LF ∉ url := by
      constructor
      · intro hmem
        exact absurd (hsafe.noControl _ hmem).1 (by decide)
      · intro hmem
        exact absurd (hsafe.noControl _ hmem).1 (by decide)
    have hclean := clean_setHeader (k := ascii "Location") hstart.clean (by decide) (by decide)
      (by decide) hvalue
    refine Safe.of_headers (r := (HttpResponse.setStatus {} 302).setHeader (ascii "Location") url)
      ⟨hclean, ?_⟩ rfl
    intro url' hurl
    rw [HttpResponse.setHeader, AList.lookup_insert] at hurl
    cases hurl
    exact hsafe
  | unsafeUrl => exact hstart.setJson h
  | expired => exact hstart.setJson h
  | notFound => exact hstart.setJson h
  | unavailable detail => exact hstart.setJson h

/-- Whatever the URL is. -/
theorem setSafeLocation_found {longUrl url : Bytes} (h : setSafeLocation longUrl = .found url) :
    isHttpUrlSafeForLocation url = true := by
  unfold setSafeLocation at h
  split at h
  · rename_i hsafe
    cases h
    exact hsafe
  · cases h

theorem redirect_safe {cfg : Config} (s : Process cfg) (req : HttpRequest) (v : Visit)
    {resp : HttpResponse} (h : (redirect s req v).response = some resp) : Safe resp := by
  have hserves := redirect_serves s req v
  generalize redirect s req v = served at hserves h
  cases hserves with
  | found _ _ => exact Outcome.safe_response (fun url => setSafeLocation_found) h
  | other _ ho =>
    refine Outcome.safe_response (fun url hurl => ?_) h
    rw [hurl] at ho
    exact absurd rfl ho

/-- `set_json` touches no other header. -/
theorem setJson_lookup {r r' : HttpResponse} {fields : List (Bytes × Option Bytes)} {k : Bytes}
    (h : r.setJson fields = some r') (hk : k ≠ ascii "Content-Type") :
    r'.headers.lookup k = r.headers.lookup k := by
  obtain ⟨body, -, hr⟩ := Option.bind_eq_some_iff.mp h
  cases hr
  exact AList.lookup_insert_ne hk

/-- **Responses are serialized faithfully and cannot be split.** A response with clean headers is
cut at its first empty line into its lines and its body, and read back as it was. The answers of
`redirect` are clean whatever is stored, before and after `process` adds its header; one that has a
`Location` has a safe URL there. -/
theorem response_faithful (r : HttpResponse) (hclean : Clean r) :
    (CrlfText.cutHead r.serialize = some (CrlfText.join r.lines, r.body) ∧
      CrlfText.crlfLines (CrlfText.join r.lines) =
        r.statusLine :: r.lengthLine :: r.headers.entries.map HttpResponse.fieldLine ∧
      (∀ line ∈ r.lines, CR ∉ line ∧ LF ∉ line) ∧
      Http.parseResponse r.serialize = some r) ∧
    (∀ longUrl resp, (setSafeLocation longUrl).response = some resp → Safe resp ∧
      ∀ url, resp.headers.lookup (ascii "Location") = some url → url = longUrl) ∧
    ∀ (cfg : Config) (s : Process cfg) req v resp, (redirect s req v).response = some resp →
      Safe resp ∧ ∀ c : HttpConn, Safe (c.withConnection resp) := by
  refine ⟨⟨hclean.cutHead.1, hclean.cutHead.2, hclean.noLineEnd, hclean.parse⟩, ?_, ?_⟩
  · intro longUrl resp hresp
    refine ⟨Outcome.safe_response (fun url => setSafeLocation_found) hresp, ?_⟩
    intro url hurl
    unfold setSafeLocation at hresp
    split at hresp
    · cases hresp
      have hlookup : ((∅ : StrMap Bytes).insert (ascii "Location") longUrl).lookup
          (ascii "Location") = some longUrl := AList.lookup_insert _
      exact Option.some.inj (hurl.symm.trans hlookup)
    · have hnone := setJson_lookup (k := ascii "Location") hresp (by decide)
      rw [hnone] at hurl
      cases hurl
  · intro cfg s req v resp hresp
    have hsafe := redirect_safe s req v hresp
    exact ⟨hsafe, fun c => hsafe.withConnection c⟩

/-- Two headers, one with a colon in its value, and a body that looks like the end of a head. -/
def twoHeads : HttpResponse :=
  let body : HttpResponse := { body := ascii "a\r\n\r\nb" }
  (body.setHeader (ascii "Retry-After") (ascii "1")).setHeader (ascii "Location")
    (ascii "http://x.org/?a: b")

theorem response_faithful_twoHeads :
    CrlfText.crlfLines (CrlfText.join twoHeads.lines) =
      twoHeads.statusLine :: twoHeads.lengthLine ::
        twoHeads.headers.entries.map HttpResponse.fieldLine ∧
    twoHeads.headers.entries.length = 2 ∧
    Http.parseResponse twoHeads.serialize = some twoHeads := by
  have hbody : Safe { body := ascii "a\r\n\r\nb" } := safe_empty.of_headers rfl
  have hretry := clean_setHeader (k := ascii "Retry-After") (v := ascii "1") hbody.clean (by decide)
    (by decide) (by decide) (by decide)
  have hclean : Clean twoHeads :=
    clean_setHeader hretry (by decide) (by decide) (by decide) (by decide)
  obtain ⟨⟨-, hlines, -, hparse⟩, -, -⟩ := response_faithful twoHeads hclean
  exact ⟨hlines, by decide, hparse⟩

end Handler
end UrlShortener
