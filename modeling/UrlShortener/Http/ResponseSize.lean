import UrlShortener.Base.JsonLength
import UrlShortener.Base.JsonRoundTrip
import UrlShortener.Http.Writing

/-!
# UrlShortener.Http.ResponseSize

How long a serialized response is, and when `process_write` takes it. A JSON answer is long because
of the strings in it; what is around them has a fixed size, up to the digits of `Content-Length`.
Where the limit runs, a body has four of them.
-/

namespace UrlShortener
namespace Http

namespace HttpResponse

def headerLength (h : (_ : Bytes) × Bytes) : Nat := h.1.length + h.2.length + 4

/-- Everything but the body and the digits of its length. -/
def headLength (r : HttpResponse) : Nat :=
  32 + (toDecimalInt r.statusCode).length + (statusText r.statusCode).length +
    (r.headers.entries.map headerLength).sum

theorem serialize_length (r : HttpResponse) :
    r.serialize.length = r.headLength + (toDecimal r.body.length).length + r.body.length := by
  have hversion : (ascii "HTTP/1.1 ").length = 9 := by decide
  have hname : (ascii "Content-Length: ").length = 16 := by decide
  have hend : (ascii "\r\n").length = 2 := by decide
  have hblank : (ascii " ").length = 1 := by decide
  have hcolon : (ascii ": ").length = 2 := by decide
  have hfields : ∀ hs : List ((_ : Bytes) × Bytes),
      (hs.flatMap fun h => headerLine (h.1, h.2)).length = (hs.map headerLength).sum := by
    intro hs
    induction hs with
    | nil => rfl
    | cons h hs ih =>
      rw [List.flatMap_cons, List.length_append, ih, List.map_cons, List.sum_cons]
      simp only [headerLine, headerLength, List.length_append, hcolon, hend]
      omega
  simp only [serialize, List.length_append, hfields, hversion, hname, hend, hblank, headLength]
  omega

/-! ## Digits -/

/-- With `m` bytes left for the body, next to four digits, a body fits when it is shorter. -/
theorem fits_iff {r : HttpResponse} {m : Nat} (hm : r.headLength + 4 + m = WRITE_BUFFER_SIZE)
    (hdigits : 1000 ≤ m) : r.serialize.length < WRITE_BUFFER_SIZE ↔ r.body.length < m := by
  rw [serialize_length]
  have hsize : WRITE_BUFFER_SIZE = 8192 := rfl
  constructor
  · intro hfits
    by_contra hge
    have hthree : ¬ (toDecimal r.body.length).length ≤ 3 := by
      rw [JsonText.toDecimal_length_le_iff (by decide)]
      omega
    omega
  · intro hlt
    have hfour : (toDecimal r.body.length).length ≤ 4 := by
      rw [JsonText.toDecimal_length_le_iff (by decide)]
      omega
    omega

/-! ## JSON answers -/

theorem statusText_length_le (code : Int) : (statusText code).length ≤ 21 := by
  unfold statusText
  split <;> decide

theorem setJson_eq_some {r r' : HttpResponse} {fields : List (Bytes × Option Bytes)}
    (h : r.setJson fields = some r') : ∃ body, Json.dump fields = some body ∧
      r' = (r.setHeader (ascii "Content-Type") (ascii "application/json")).setBody body := by
  obtain ⟨body, hbody, h⟩ := Option.bind_eq_some_iff.mp h
  exact ⟨body, hbody, (Option.some.inj h).symm⟩

/-- The headers of a response with one header. -/
theorem entries_single (code : Int) (k v body : Bytes) :
    (((setStatus {} code).setHeader k v).setBody body).headers.entries = [⟨k, v⟩] := rfl

end HttpResponse

namespace HttpConn

open HttpResponse (headerLength)

/-- What `Connection: close` leaves over. -/
def spare (c : HttpConn) : Nat := if c.linger then 0 else 5

theorem connection_length (c : HttpConn) :
    (if c.linger then ascii "keep-alive" else ascii "close").length + c.spare = 10 := by
  unfold spare
  cases c.linger with
  | true => decide
  | false => decide

/-- A response with one header of its own. -/
theorem headLength_withConnection (c : HttpConn) {r : HttpResponse} {k v : Bytes}
    (hk : k ≠ ascii "Connection") (hr : r.headers.entries = [⟨k, v⟩]) :
    (c.withConnection r).headLength + c.spare =
      60 + (toDecimalInt r.statusCode).length + (HttpResponse.statusText r.statusCode).length +
        k.length + v.length := by
  have hname : (ascii "Connection").length = 10 := by decide
  have hconn := c.connection_length
  have herase : List.kerase (ascii "Connection") [(⟨k, v⟩ : (_ : Bytes) × Bytes)] = [⟨k, v⟩] :=
    List.kerase_of_notMem_keys (by simpa using hk.symm)
  have hentries : (c.withConnection r).headers.entries =
      [⟨ascii "Connection", if c.linger then ascii "keep-alive" else ascii "close"⟩, ⟨k, v⟩] := by
    rw [withConnection, HttpResponse.setHeader, AList.entries_insert, hr, herase]
  rw [HttpResponse.headLength, hentries]
  simp only [List.map_cons, List.map_nil, List.sum_cons, List.sum_nil, headerLength, hname]
  show 32 + (toDecimalInt r.statusCode).length + (HttpResponse.statusText r.statusCode).length + _ +
    _ = _
  omega

/-- A JSON answer has room for a body of this size, and no more. -/
theorem json_fits_iff (c : HttpConn) {code : Int} {r : HttpResponse}
    {fields : List (Bytes × Option Bytes)} (hne : fields ≠ [])
    (hr : (HttpResponse.setStatus {} code).setJson fields = some r)
    (hcode : (toDecimalInt code).length = 3) :
    (c.withConnection r).serialize.length < WRITE_BUFFER_SIZE ↔
      Json.dumpLength fields + (HttpResponse.statusText code).length < 8097 + c.spare := by
  obtain ⟨body, hbody, rfl⟩ := HttpResponse.setJson_eq_some hr
  have hlen := Json.dump_length hne hbody
  have htext := HttpResponse.statusText_length_le code
  have hspare : c.spare ≤ 5 := by
    unfold spare
    split
    · exact Nat.zero_le 5
    · exact Nat.le_refl 5
  have hhead := c.headLength_withConnection (k := ascii "Content-Type")
    (v := ascii "application/json") (r := ((HttpResponse.setStatus {} code).setHeader
      (ascii "Content-Type") (ascii "application/json")).setBody body) (by decide)
    (HttpResponse.entries_single code _ _ body)
  have hname : (ascii "Content-Type").length = 12 := by decide
  have hvalue : (ascii "application/json").length = 16 := by decide
  have hsize : WRITE_BUFFER_SIZE = 8192 := rfl
  rw [hname, hvalue] at hhead
  have hhead : _ + c.spare = 60 + (toDecimalInt code).length +
    (HttpResponse.statusText code).length + 12 + 16 := hhead
  rw [HttpResponse.fits_iff (m := 8097 + c.spare - (HttpResponse.statusText code).length) (by omega)
    (by omega)]
  show body.length < _ ↔ _
  rw [hlen]
  omega

/-! ## What the client gets -/

/-- `process` leaves the whole response in the write buffer, and does not ask for the end of the
connection. -/
structure Delivered (c c' : HttpConn) (resp : HttpResponse) : Prop where
  fits : resp.serialize.length < WRITE_BUFFER_SIZE
  written : (c.processWrite resp).2 = true
  kept : c'.pendingClose = c.pendingClose
  buffered : c'.bytesToSend = resp.serialize.length
  text : c'.writeBuf.seg 0 c'.bytesToSend = resp.serialize

theorem loaded_text (c : HttpConn) (raw : Bytes) :
    (c.loaded raw).pendingClose = c.pendingClose ∧ (c.loaded raw).bytesToSend = raw.length ∧
      (c.loaded raw).writeBuf.seg 0 (c.loaded raw).bytesToSend = raw :=
  ⟨rfl, rfl, Mem.seg_write_same c.writeBuf 0 raw⟩

theorem delivered_iff (c : HttpConn) (resp : HttpResponse) (expected : Nat) :
    Delivered c (c.finish expected resp).1 resp ↔ resp.serialize.length < WRITE_BUFFER_SIZE := by
  constructor
  · intro h
    exact h.fits
  · intro hfits
    have hwrite : c.processWrite resp = (c.loaded resp.serialize, true) := by
      rw [processWrite]
      exact if_neg (by omega)
    have hfinish : (c.finish expected resp).1 = c.loaded resp.serialize := by
      rw [finish, hwrite]
    rw [hfinish]
    obtain ⟨hkept, hbuffered, htext⟩ := c.loaded_text resp.serialize
    exact ⟨hfits, by rw [hwrite], hkept, hbuffered, htext⟩

section Dispatched

variable {σ : Type} {dispatch : σ → HttpRequest → σ × Dispatched} {st st' : σ} {c c₁ c' : HttpConn}
  {expected : Nat} {armed : Option Interest} {req : HttpRequest} {resp : HttpResponse}

/-- The answer to an accepted request. -/
theorem process_dispatched (hread : c.processRead = (c₁, .getRequest))
    (h : c.process dispatch st expected = some (st', c', armed, .dispatched req resp)) :
    ∃ r, respond dispatch st c₁.request = some (st', r) ∧ resp = c₁.withConnection r ∧
      c' = (c₁.finish expected resp).1 := by
  by_cases hgen : c.generation = expected
  · have hp : c.process dispatch st expected = (respond dispatch st c₁.request).map fun p =>
        (p.1, (c₁.finish expected (c₁.withConnection p.2)).1,
          (c₁.finish expected (c₁.withConnection p.2)).2,
          .dispatched c₁.request (c₁.withConnection p.2)) := by
      rw [process, if_neg (not_not.mpr hgen), hread]
      simp only
      cases respond dispatch st c₁.request with
      | none => rfl
      | some p => rfl
    rw [hp] at h
    obtain ⟨⟨s₁, r⟩, hrespond, heq⟩ := Option.map_eq_some_iff.mp h
    simp only [Prod.mk.injEq, Processed.dispatched.injEq] at heq
    obtain ⟨rfl, rfl, -, -, rfl⟩ := heq
    exact ⟨r, hrespond, rfl, rfl⟩
  · rw [process, if_pos hgen] at h
    cases h

end Dispatched

end HttpConn

end Http
end UrlShortener
