import UrlShortener.Handler.Location
import UrlShortener.Handler.Routes
import UrlShortener.Http.ResponseSize
import UrlShortener.Http.Wire

/-!
# UrlShortener.Handler.Sizes

Which answers fit into the write buffer. `process` has no other answer for one that does not: it asks
the event loop to close the connection. The texts that `shorten` and `redirect` put into an answer
are bounded, most of them far below the limit. Three are not bounded where they are used: the path
of the 404 for a request that no route takes, which JSON can make six times as long, the text of
`/metrics`, and the public base URL of the 201.
-/

namespace UrlShortener
namespace Handler

open Http (HttpConn HttpRequest HttpResponse WRITE_BUFFER_SIZE isHttpUrlSafeForLocation
  joinPublicBaseUrl)
open Http.HttpConn (Delivered)
open Json (dumpLength escapedLength escapedLength_le valueLength)
open ShortUrl
open SingleFlight (SingleFlightResult)

/-! ## Fixed texts and bounded ones -/

/-- A JSON answer that is nowhere near the limit. -/
theorem json_fits {code : Int} {r : HttpResponse} {fields : List (Bytes × Option Bytes)}
    (c : HttpConn) (hr : (HttpResponse.setStatus {} code).setJson fields = some r)
    (hcode : (toDecimalInt code).length = 3) (hne : fields ≠ []) (hlen : dumpLength fields ≤ 8000) :
    (c.withConnection r).serialize.length < WRITE_BUFFER_SIZE := by
  rw [c.json_fits_iff hne hr hcode]
  have := HttpResponse.statusText_length_le code
  omega

/-- A redirect. -/
theorem location_fits (c : HttpConn) {url : Bytes} (hlen : url.length ≤ 2048) :
    (c.withConnection (((HttpResponse.setStatus {} 302).setHeader (ascii "Location") url).setBody
      [])).serialize.length < WRITE_BUFFER_SIZE := by
  have hhead := c.headLength_withConnection (k := ascii "Location") (v := url)
    (r := ((HttpResponse.setStatus {} 302).setHeader (ascii "Location") url).setBody [])
    (by decide) rfl
  have hcode : (toDecimalInt 302).length = 3 := by decide
  have htext := HttpResponse.statusText_length_le 302
  have hname : (ascii "Location").length = 8 := by decide
  have hdigits : (toDecimal 0).length = 1 := by decide
  have hsize : WRITE_BUFFER_SIZE = 8192 := rfl
  have hhead : _ + c.spare = 60 + (toDecimalInt 302).length +
    (HttpResponse.statusText 302).length + (ascii "Location").length + url.length := hhead
  rw [HttpResponse.serialize_length]
  show _ + (toDecimal 0).length + 0 < _
  omega

theorem Outcome.fits {o : Outcome} {r : HttpResponse} (c : HttpConn)
    (hurl : ∀ url, o = .found url → isHttpUrlSafeForLocation url = true)
    (hdetail : ∀ detail, o = .unavailable detail → detail.length ≤ 512) (h : o.response = some r) :
    (c.withConnection r).serialize.length < WRITE_BUFFER_SIZE := by
  cases o with
  | found url =>
    cases h
    exact location_fits c (safeUrl_of_check (hurl url rfl)).length.2
  | unsafeUrl => exact json_fits c h (by decide) (by decide) (by decide)
  | expired => exact json_fits c h (by decide) (by decide) (by decide)
  | notFound => exact json_fits c h (by decide) (by decide) (by decide)
  | unavailable detail =>
    have hlen := hdetail detail rfl
    have hesc := escapedLength_le detail
    have hfixed : escapedLength (ascii "detail") = 6 ∧ escapedLength (ascii "error") = 5 ∧
        escapedLength (ascii "short url storage unavailable") = 29 := by decide
    have hcode : (toDecimalInt 503).length = 3 := by decide
    refine json_fits c h hcode (by simp [Outcome.fields]) ?_
    simp only [dumpLength, Outcome.fields, List.map_cons, List.map_nil, List.sum_cons, List.sum_nil,
      valueLength, hfixed]
    omega

theorem health_fits {cfg : Config} {s s' : Process cfg} {req : HttpRequest} {r : HttpResponse}
    (c : HttpConn) (h : health s req = (s', some r)) :
    (c.withConnection r).serialize.length < WRITE_BUFFER_SIZE :=
  json_fits c (congrArg Prod.snd h) (by decide) (by decide) (by decide)

/-! ## What bounds the error texts -/

/-- The text that comes with a reply of MySQL. -/
def replyError : Reply → Bytes
  | .answered => []
  | .failed error => error
  | .lost error => error

/-- The error texts of MySQL, and one that comes from another call's lookup, are not longer. -/
structure ErrorsWithin (n : Nat) (o : Outside) : Prop where
  find : (replyError o.env.find).length ≤ n
  insert : ∀ i, (replyError (o.tries i).2).length ≤ n
  flight : ∀ r, o.flight = some r → r.error.length ≤ n

variable {cfg : Config} {s s' : Process cfg} {o : Outside} {req : HttpRequest}

theorem refill_error (s : Process cfg) (code : Bytes) {env : Env}
    (h : (replyError env.find).length ≤ 512) : (s.refill code env).2.error.length ≤ 512 := by
  unfold Process.refill
  have hfind : ∀ error, findLongUrl cfg.coll cfg.router s.db env.mysql code s.wall env.find =
      .dbError error → error.length ≤ 512 := by
    intro error herror
    unfold findLongUrl at herror
    split at herror
    · cases herror
      decide
    · cases hreply : env.find with
      | answered =>
        rw [hreply] at herror
        simp only at herror
        repeat' split at herror
        all_goals cases herror
      | failed e =>
        rw [hreply] at herror h
        cases herror
        exact h
      | lost e =>
        rw [hreply] at herror h
        cases herror
        exact h
  cases hstatus : findLongUrl cfg.coll cfg.router s.db env.mysql code s.wall env.find with
  | ok longUrl expireAt => exact Nat.zero_le 512
  | expired longUrl expireAt => exact Nat.zero_le 512
  | notFound => exact Nat.zero_le 512
  | dbError error => exact hfind error hstatus

theorem originLookup_error (s : Process cfg) (code : Bytes) {env : Env}
    (h : (replyError env.find).length ≤ 512) : (s.originLookup code env).2.error.length ≤ 512 := by
  unfold Process.originLookup
  split
  · show (ascii "redirect origin budget exhausted").length ≤ 512
    decide
  · rcases s.getRedis code env with ⟨s₁, status⟩
    cases status with
    | hit v => exact Nat.zero_le 512
    | expired v => exact Nat.zero_le 512
    | miss => exact refill_error s₁ code h
    | unavailable => exact refill_error s₁ code h

theorem doFlight_error (h : ErrorsWithin 512 o) (s : Process cfg) (code : Bytes) :
    (doFlight s code o.toVisit).2.error.length ≤ 512 := by
  unfold doFlight
  cases hflight : o.flight with
  | some r => exact h.flight r hflight
  | none => exact originLookup_error s code h.find

theorem answerFlight_detail {r : SingleFlightResult} (h : r.error.length ≤ 512) (detail : Bytes)
    (ho : answerFlight r = .unavailable detail) : detail.length ≤ 512 := by
  unfold answerFlight at ho
  cases hkind : r.kind with
  | hit =>
    rw [hkind] at ho
    simp only [setSafeLocation] at ho
    split at ho
    · cases ho
    · cases ho
  | expired =>
    rw [hkind] at ho
    cases ho
  | notFound =>
    rw [hkind] at ho
    cases ho
  | overload =>
    rw [hkind] at ho
    cases ho
    split
    · decide
    · exact h
  | error =>
    rw [hkind] at ho
    cases ho
    exact h

/-- What `redirect` answers, as an outcome with a bounded text. -/
theorem redirect_outcome (h : ErrorsWithin 512 o) (s : Process cfg) (req : HttpRequest) :
    ∃ out : Outcome, (redirect s req o.toVisit).response = out.response ∧
      (∀ url, out = .found url → isHttpUrlSafeForLocation url = true) ∧
      ∀ detail, out = .unavailable detail → detail.length ≤ 512 := by
  have hfixed : ∀ out : Outcome, (∀ url, out ≠ .found url) → (∀ detail, out ≠ .unavailable detail) →
      (∀ url, out = .found url → isHttpUrlSafeForLocation url = true) ∧
        ∀ detail, out = .unavailable detail → detail.length ≤ 512 := by
    intro out hfound hunavailable
    exact ⟨fun url he => absurd he (hfound url), fun detail he => absurd he (hunavailable detail)⟩
  have hlocation : ∀ url, (∀ url', setSafeLocation url = .found url' →
      isHttpUrlSafeForLocation url' = true) ∧
        ∀ detail, setSafeLocation url = .unavailable detail → detail.length ≤ 512 := by
    intro url
    refine ⟨fun url' => setSafeLocation_found, ?_⟩
    intro detail he
    unfold setSafeLocation at he
    split at he
    · cases he
    · cases he
  unfold redirect
  split
  · exact ⟨.notFound, rfl, hfixed _ (by simp) (by simp)⟩
  · split
    · exact ⟨.notFound, rfl, hfixed _ (by simp) (by simp)⟩
    · split
      · exact ⟨.notFound, rfl, hfixed _ (by simp) (by simp)⟩
      · rename_i code _ _ _
        cases LocalCache.get cfg.cache s.shards code s.now s.wall with
        | hit e => exact ⟨setSafeLocation e.longUrl, rfl, hlocation e.longUrl⟩
        | expired e => exact ⟨.expired, rfl, hfixed _ (by simp) (by simp)⟩
        | negHit => exact ⟨.notFound, rfl, hfixed _ (by simp) (by simp)⟩
        | miss =>
          have herror := doFlight_error h (s.perform (.get code s.now s.wall)) code
          refine ⟨answerFlight (doFlight (s.perform (.get code s.now s.wall)) code o.toVisit).2, rfl,
            ?_, answerFlight_detail herror⟩
          intro url he
          unfold answerFlight at he
          split at he
          · exact setSafeLocation_found he
          all_goals cases he

theorem redirect_fits (h : ErrorsWithin 512 o) {r : HttpResponse} (c : HttpConn)
    (hr : (redirect s req o.toVisit).response = some r) :
    (c.withConnection r).serialize.length < WRITE_BUFFER_SIZE := by
  obtain ⟨out, hout, hurl, hdetail⟩ := redirect_outcome h s req
  exact Outcome.fits c hurl hdetail (hout.symm.trans hr)

/-! ## shorten -/

/-- The 400s have fixed texts. -/
theorem badRequest_length {error : String} {r : HttpResponse} (h : badRequest error = .answered r)
    (hlen : (ascii error).length ≤ 512) : ∃ fields, fields ≠ [] ∧ dumpLength fields ≤ 8000 ∧
      (HttpResponse.setStatus {} 400).setJson fields = some r := by
  unfold badRequest at h
  split at h
  · rename_i resp hresp
    cases h
    refine ⟨_, by simp, ?_, hresp⟩
    have hesc := escapedLength_le (ascii error)
    have hname : escapedLength (ascii "error") = 5 := by decide
    simp only [dumpLength, List.map_cons, List.map_nil, List.sum_cons, List.sum_nil, valueLength, hname]
    omega
  · cases h

theorem decodeShorten_answered {body : Bytes} {r : HttpResponse}
    (h : decodeShorten body = .answered r) : ∃ fields, fields ≠ [] ∧ dumpLength fields ≤ 8000 ∧
      (HttpResponse.setStatus {} 400).setJson fields = some r := by
  unfold decodeShorten at h
  split at h
  · exact badRequest_length h (by decide)
  · cases h
  · unfold checkPayload at h
    split at h
    · split at h
      · unfold checkExpireAt at h
        split at h
        · cases h
        · cases h
        · split at h
          · cases h
          · exact badRequest_length h (by decide)
        · exact badRequest_length h (by decide)
      · exact badRequest_length h (by decide)
    · exact badRequest_length h (by decide)

/-- No row of the table has the id, or a code equal to the id's. -/
def Free (s : Process cfg) (id : UInt64) : Prop :=
  ∀ row ∈ s.db (cfg.router.tableForCode (base62Encode id)),
    row.id ≠ id ∧ cfg.coll.eq row.shortCode (base62Encode id) = false

/-- The first id that is free is inserted, and this is its code. -/
inductive Makes (s : Process cfg) : List (Option UInt64 × Reply) → Bytes → Prop
  | first {id : UInt64} {tries : List (Option UInt64 × Reply)} (h : Free s id) :
      Makes s ((some id, .answered) :: tries) (base62Encode id)
  | next {id : UInt64} {tries : List (Option UInt64 × Reply)} {code : Bytes} (h : ¬ Free s id)
      (rest : Makes s tries code) : Makes s ((some id, .answered) :: tries) code

theorem insert_free_iff (s : Process cfg) (id : UInt64) (longUrl expireAt : Bytes) :
    (insert cfg.coll cfg.router s.db ⟨id, base62Encode id, longUrl, expireAt⟩).2 = true ↔
      Free s id := by
  unfold ShortUrl.insert Free
  simp only
  split
  · rename_i hany
    obtain ⟨row, hrow, hconflict⟩ := List.any_eq_true.mp hany
    refine iff_of_false (by simp) ?_
    intro hfree
    obtain ⟨hid, hcode⟩ := hfree row hrow
    simp [conflicts, hid, hcode] at hconflict
  · rename_i hnone
    refine iff_of_true rfl ?_
    intro row hrow
    by_contra hboth
    refine hnone (List.any_eq_true.mpr ⟨row, hrow, ?_⟩)
    rw [not_and_or, not_not, Bool.not_eq_false] at hboth
    rcases hboth with hid | hcode
    · simp [conflicts, hid]
    · simp [conflicts, hcode]

/-- **What the loop creates**: the code of the first free id, if every `INSERT` so far was
answered. -/
theorem createLoop_created_iff (s : Process cfg) (longUrl expireAt : Bytes) {env : Env}
    (hmysql : env.mysql = true) (tries : List (Option UInt64 × Reply)) (code : Bytes) :
    (s.createLoop longUrl expireAt env tries).2 = .created code ↔ Makes s tries code := by
  induction tries with
  | nil =>
    refine iff_of_false (by simp [Process.createLoop]) ?_
    intro h
    cases h
  | cons t tries ih =>
    obtain ⟨id, reply⟩ := t
    cases id with
    | none =>
      refine iff_of_false (by simp [Process.createLoop]) ?_
      intro h
      cases h
    | some id =>
      rw [Process.createLoop]
      have hfree := insert_free_iff s id longUrl expireAt
      cases reply with
      | failed e =>
        refine iff_of_false (by simp [create, hmysql]) ?_
        intro h
        cases h
      | lost e =>
        refine iff_of_false (by simp [create, hmysql]) ?_
        intro h
        cases h
      | answered =>
        rcases hins : insert cfg.coll cfg.router s.db ⟨id, base62Encode id, longUrl, expireAt⟩ with
          ⟨db, ok⟩
        rw [hins] at hfree
        have hcreate : create cfg.coll cfg.router s.db env.mysql
            ⟨id, base62Encode id, longUrl, expireAt⟩ .answered =
              (if ok then (db, .ok) else (db, .duplicateCode)) := by
          simp only [create, hmysql, hins]
          cases ok with
          | true => rfl
          | false => rfl
        cases ok with
        | true =>
          simp only [hcreate, if_true, Creation.created.injEq]
          have hfree := hfree.mp rfl
          constructor
          · rintro rfl
            exact .first hfree
          · intro h
            cases h with
            | first _ => rfl
            | next hnot _ => exact absurd hfree hnot
        | false =>
          have hdb : db = s.db := by
            have hcode : create cfg.coll cfg.router s.db true
                ⟨id, base62Encode id, longUrl, expireAt⟩ .answered = (db, .duplicateCode) := by
              rw [← hmysql, hcreate]
              rfl
            exact create_duplicateCode hcode
          subst hdb
          have hfree : ¬ Free s id := fun h => Bool.false_ne_true (hfree.mpr h)
          simp only [hcreate, Bool.false_eq_true, if_false]
          rw [show ({ s with db := s.db } : Process cfg) = s from rfl, ih]
          constructor
          · intro h
            exact .next hfree h
          · intro h
            cases h with
            | first h => exact absurd h hfree
            | next _ h => exact h

theorem createLoop_failed {s : Process cfg} {longUrl expireAt : Bytes} {env : Env}
    {tries : List (Option UInt64 × Reply)} (htries : ∀ t ∈ tries, (replyError t.2).length ≤ 512)
    {error : Bytes} (h : (s.createLoop longUrl expireAt env tries).2 = .failed error) :
    error.length ≤ 512 := by
  induction tries generalizing s with
  | nil =>
    cases h
    exact Nat.zero_le 512
  | cons t tries ih =>
    obtain ⟨id, reply⟩ := t
    cases id with
    | none => cases h
    | some id =>
      rw [Process.createLoop] at h
      have hreply := htries (some id, reply) (by simp)
      rcases hcreate : create cfg.coll cfg.router s.db env.mysql
        ⟨id, base62Encode id, longUrl, expireAt⟩ reply with ⟨db, status⟩
      rw [hcreate] at h
      cases status with
      | ok => cases h
      | duplicateCode => exact ih (fun t ht => htries t (by simp [ht])) h
      | dbError e =>
        cases h
        unfold create at hcreate
        split at hcreate
        · cases hcreate
          decide
        · cases reply with
          | failed e =>
            cases hcreate
            exact hreply
          | lost e =>
            cases hcreate
            exact hreply
          | answered =>
            simp only at hcreate
            split at hcreate
            · cases hcreate
            · cases hcreate

/-- `shorten` answers this body with a 201. -/
structure Creates (o : Outside) (s : Process cfg) (body longUrl expireAt code : Bytes) : Prop where
  decoded : decodeShorten body = .accepted longUrl expireAt
  budget : s.redisAvailable = true ∨ o.env.slot = true
  mysql : o.env.mysql = true
  makes : Makes s (List.ofFn o.tries) code

/-- What the strings of the 201 add to the 59 bytes around them. -/
def createdLength (base code longUrl expireAt : Bytes) : Nat :=
  valueLength (if expireAt = [] then none else some expireAt) + escapedLength longUrl +
    escapedLength code + escapedLength (joinPublicBaseUrl base code)

theorem createdFields_length (base code longUrl expireAt : Bytes) :
    dumpLength (createdFields base code longUrl expireAt) =
      createdLength base code longUrl expireAt + 59 := by
  have hnames : escapedLength (ascii "expire_at") = 9 ∧ escapedLength (ascii "long_url") = 8 ∧
      escapedLength (ascii "short_code") = 10 ∧ escapedLength (ascii "short_url") = 9 := by decide
  simp only [dumpLength, createdFields, List.map_cons, List.map_nil, List.sum_cons, List.sum_nil, hnames,
    createdLength]
  simp only [valueLength]
  omega

/-- What `shorten` answers. -/
inductive Shortens (o : Outside) (s : Process cfg) (body : Bytes) : Option HttpResponse → Prop
  | refused {r : HttpResponse} {fields : List (Bytes × Option Bytes)} (hne : fields ≠ [])
      (hlen : dumpLength fields ≤ 8000) (hr : (HttpResponse.setStatus {} 400).setJson fields = some r)
      (hnone : ∀ longUrl expireAt code, ¬ Creates o s body longUrl expireAt code) :
      Shortens o s body (some r)
  | unavailable {detail : Bytes} (hlen : detail.length ≤ 512)
      (hnone : ∀ longUrl expireAt code, ¬ Creates o s body longUrl expireAt code) :
      Shortens o s body (Outcome.unavailable detail).response
  | created {longUrl expireAt code : Bytes} (h : Creates o s body longUrl expireAt code) :
      Shortens o s body (Creation.response o.publicBaseUrl longUrl expireAt (.created code))
  | raised : Shortens o s body none

/-- One body is decoded to one pair, and one code comes of it. -/
theorem Creates.unique {body longUrl expireAt code longUrl' expireAt' code' : Bytes}
    (h : Creates o s body longUrl expireAt code) (h' : Creates o s body longUrl' expireAt' code') :
    longUrl' = longUrl ∧ expireAt' = expireAt ∧ code' = code := by
  have hdecoded := h'.decoded
  rw [h.decoded] at hdecoded
  cases hdecoded
  have hmade := (createLoop_created_iff s longUrl expireAt h.mysql _ _).mpr h.makes
  have hmade' := (createLoop_created_iff s longUrl expireAt h.mysql _ _).mpr h'.makes
  rw [hmade] at hmade'
  cases hmade'
  exact ⟨rfl, rfl, rfl⟩

/-- The end of `shorten`, from the loop on. -/
theorem creation_shortens (herr : ErrorsWithin 512 o) {body longUrl expireAt : Bytes}
    (hbody : decodeShorten body = .accepted longUrl expireAt)
    (hbudget : s.redisAvailable = true ∨ o.env.slot = true) (hmysql : o.env.mysql = true) :
    Shortens o s body
      ((s.createLoop longUrl expireAt o.env (List.ofFn o.tries)).2.response o.publicBaseUrl longUrl
        expireAt) := by
  have hiff := createLoop_created_iff s longUrl expireAt hmysql (List.ofFn o.tries)
  have htries : ∀ t ∈ List.ofFn o.tries, (replyError t.2).length ≤ 512 := by
    intro t ht
    obtain ⟨i, rfl⟩ := (List.mem_ofFn' _ _).mp ht
    exact herr.insert i
  cases hcreation : (s.createLoop longUrl expireAt o.env (List.ofFn o.tries)).2 with
  | threw => exact .raised
  | failed e =>
    refine .unavailable (createLoop_failed htries hcreation) ?_
    intro longUrl' expireAt' code hcreates
    have hdecoded := hcreates.decoded
    rw [hbody] at hdecoded
    cases hdecoded
    have := (hiff code).mpr hcreates.makes
    rw [hcreation] at this
    cases this
  | created code => exact .created ⟨hbody, hbudget, hmysql, (hiff code).mp hcreation⟩

theorem shorten_shortens (herr : ErrorsWithin 512 o) (s : Process cfg) (req : HttpRequest) :
    Shortens o s req.body (shorten o s req).2 := by
  unfold shorten
  cases hbody : decodeShorten req.body with
  | answered resp =>
    obtain ⟨fields, hne, hlen, hr⟩ := decodeShorten_answered hbody
    refine .refused hne hlen hr ?_
    intro longUrl expireAt code hcreates
    have hdecoded := hcreates.decoded
    rw [hbody] at hdecoded
    cases hdecoded
  | raised e => exact .raised
  | accepted longUrl expireAt =>
    simp only
    split
    · rename_i hbudget
      refine .unavailable (by decide) ?_
      intro longUrl' expireAt' code hcreates
      rw [Bool.and_eq_true, Bool.not_eq_true', Bool.not_eq_true'] at hbudget
      rcases hcreates.budget with hup | hslot
      · rw [hup] at hbudget
        cases hbudget.1
      · rw [hslot] at hbudget
        cases hbudget.2
    · rename_i hbudget
      rw [Bool.and_eq_true, Bool.not_eq_true', Bool.not_eq_true', not_and_or, Bool.not_eq_false,
        Bool.not_eq_false] at hbudget
      split
      · rename_i hmysql
        refine .unavailable (by decide) ?_
        intro longUrl' expireAt' code hcreates
        rw [hcreates.mysql] at hmysql
        cases hmysql
      · rename_i hmysql
        exact creation_shortens herr hbody hbudget (by simpa using hmysql)

/-- Every answer of `shorten` fits but a 201 whose strings are too long. -/
theorem Shortens.fits_iff {body : Bytes} {answer : Option HttpResponse} {r : HttpResponse}
    (h : Shortens o s body answer) (hr : answer = some r) (c : HttpConn) :
    (c.withConnection r).serialize.length < WRITE_BUFFER_SIZE ↔
      ∀ longUrl expireAt code, Creates o s body longUrl expireAt code →
        createdLength o.publicBaseUrl code longUrl expireAt < 8031 + c.spare := by
  cases h with
  | @refused r' fields hne hlen hjson hnone =>
    cases hr
    exact iff_of_true (json_fits c hjson (by decide) hne hlen) fun longUrl expireAt code hcreates =>
      absurd hcreates (hnone longUrl expireAt code)
  | @unavailable detail hlen hnone =>
    refine iff_of_true (Outcome.fits (o := .unavailable detail) c ?_ ?_ hr)
      fun longUrl expireAt code hcreates => absurd hcreates (hnone longUrl expireAt code)
    · intro url he
      cases he
    · rintro _ ⟨⟩
      exact hlen
  | @created longUrl expireAt code hcreates =>
    have htext : (HttpResponse.statusText 201).length = 7 := by decide
    rw [c.json_fits_iff (by simp [createdFields]) hr (by decide), createdFields_length, htext]
    constructor
    · intro hfits longUrl' expireAt' code' hcreates'
      obtain ⟨rfl, rfl, rfl⟩ := hcreates.unique hcreates'
      omega
    · intro hall
      have := hall longUrl expireAt code hcreates
      omega
  | raised => cases hr

/-! ## Every answer -/

theorem metrics_fits_iff {r : HttpResponse} (c : HttpConn) (h : metrics o s req = (s', some r)) :
    (c.withConnection r).serialize.length < WRITE_BUFFER_SIZE ↔ o.metrics.length < 8071 + c.spare := by
  cases h
  have hhead := c.headLength_withConnection (k := ascii "Content-Type")
    (v := ascii "text/plain; version=0.0.4; charset=utf-8")
    (r := ((HttpResponse.setStatus {} 200).setHeader (ascii "Content-Type")
      (ascii "text/plain; version=0.0.4; charset=utf-8")).setBody o.metrics) (by decide) rfl
  have hcode : (toDecimalInt 200).length = 3 := by decide
  have htext : (HttpResponse.statusText 200).length = 2 := by decide
  have hname : (ascii "Content-Type").length = 12 := by decide
  have hvalue : (ascii "text/plain; version=0.0.4; charset=utf-8").length = 40 := by decide
  have hsize : WRITE_BUFFER_SIZE = 8192 := rfl
  have hspare := c.connection_length
  rw [hname, hvalue] at hhead
  have hhead : _ + c.spare = 60 + (toDecimalInt 200).length + (HttpResponse.statusText 200).length +
    12 + 40 := hhead
  exact HttpResponse.fits_iff (m := 8071 + c.spare) (by omega) (by omega)

/-- The 404 with the path. -/
theorem notFound_fits_iff {path : Bytes} {r : HttpResponse} (c : HttpConn)
    (h : HttpConn.notFoundResponse path = some r) :
    (c.withConnection r).serialize.length < WRITE_BUFFER_SIZE ↔
      escapedLength path < 8057 + c.spare := by
  have htext : (HttpResponse.statusText 404).length = 9 := by decide
  have hnames : escapedLength (ascii "error") = 5 ∧ escapedLength (ascii "not found") = 9 ∧
      escapedLength (ascii "path") = 4 := by decide
  have hlen : dumpLength [(ascii "error", some (ascii "not found")), (ascii "path", some path)] =
      31 + escapedLength path := by
    simp only [dumpLength, List.map_cons, List.map_nil, List.sum_cons, List.sum_nil, valueLength,
      hnames]
    omega
  rw [c.json_fits_iff (by simp) h (by decide), hlen, htext]
  omega

/-- The strings that nobody has bounded are short enough. `c` is the connection with the request
read. -/
structure Fits (o : Outside) (s : Process cfg) (c : HttpConn) : Prop where
  unmatched : target c.request = .unmatched → escapedLength c.request.path < 8057 + c.spare
  metrics : target c.request = .metrics → o.metrics.length < 8071 + c.spare
  created : target c.request = .shorten → ∀ longUrl expireAt code,
    Creates o s c.request.body longUrl expireAt code →
      createdLength o.publicBaseUrl code longUrl expireAt < 8031 + c.spare

theorem Fits.of_target {c : HttpConn} {t : Target} (ht : target c.request = t)
    (hunmatched : t ≠ .unmatched) (hmetrics : t ≠ .metrics) (hshorten : t ≠ .shorten) :
    Fits o s c := by
  refine ⟨?_, ?_, ?_⟩
  · intro h
    exact absurd (ht.symm.trans h) hunmatched
  · intro h
    exact absurd (ht.symm.trans h) hmetrics
  · intro h
    exact absurd (ht.symm.trans h) hshorten

theorem respond_returned {σ : Type} {dispatch : σ → HttpRequest → σ × Http.Dispatched} {st st' : σ}
    {p : σ × Option HttpResponse} {r : HttpResponse}
    (h : HttpConn.respond dispatch st req = some (st', r)) (hd : dispatch st req = returned p) :
    p = (st', some r) := by
  unfold HttpConn.respond at h
  rw [hd] at h
  obtain ⟨s, resp⟩ := p
  cases resp with
  | none => cases h
  | some resp =>
    cases h
    rfl

theorem respond_notFound {σ : Type} {dispatch : σ → HttpRequest → σ × Http.Dispatched} {st st' : σ}
    {r : HttpResponse} (h : HttpConn.respond dispatch st req = some (st', r))
    (hd : dispatch st req = (st, .unmatched)) : HttpConn.notFoundResponse req.path = some r := by
  unfold HttpConn.respond at h
  rw [hd] at h
  obtain ⟨resp, hresp, heq⟩ := Option.map_eq_some_iff.mp h
  cases heq
  exact hresp

/-- What the server answers to a request fits when the strings do. -/
theorem respond_fits_iff (herr : ErrorsWithin 512 o) {c : HttpConn} {r : HttpResponse}
    (h : HttpConn.respond (dispatch o) s c.request = some (s', r)) :
    (c.withConnection r).serialize.length < WRITE_BUFFER_SIZE ↔ Fits o s c := by
  obtain ⟨params, pattern, hdispatch⟩ := dispatch_routes (handlers o) s c.request
  cases htarget : target c.request with
  | health =>
    rw [htarget, answerBy] at hdispatch
    have h : health s c.request = (s', some r) := respond_returned h hdispatch
    exact iff_of_true (health_fits c h) (.of_target htarget (by simp) (by simp) (by simp))
  | metrics =>
    rw [htarget, answerBy] at hdispatch
    have h : metrics o s c.request = (s', some r) := respond_returned h hdispatch
    rw [metrics_fits_iff c h]
    constructor
    · intro hlen
      refine ⟨?_, fun _ => hlen, ?_⟩
      · intro ht
        cases htarget.symm.trans ht
      · intro ht
        cases htarget.symm.trans ht
    · intro hfits
      exact hfits.metrics htarget
  | shorten =>
    rw [htarget, answerBy] at hdispatch
    have hr := congrArg Prod.snd (respond_returned h hdispatch)
    rw [(shorten_shortens herr s _).fits_iff hr c]
    constructor
    · intro hlen
      refine ⟨?_, ?_, fun _ => hlen⟩
      · intro ht
        cases htarget.symm.trans ht
      · intro ht
        cases htarget.symm.trans ht
    · intro hfits
      exact hfits.created htarget
  | redirect =>
    rw [htarget, answerBy] at hdispatch
    have hr := congrArg Prod.snd (respond_returned h hdispatch)
    exact iff_of_true (redirect_fits herr c hr) (.of_target htarget (by simp) (by simp) (by simp))
  | unmatched =>
    rw [htarget, answerBy] at hdispatch
    rw [notFound_fits_iff c (respond_notFound h hdispatch)]
    constructor
    · intro hlen
      refine ⟨fun _ => hlen, ?_, ?_⟩
      · intro ht
        cases htarget.symm.trans ht
      · intro ht
        cases htarget.symm.trans ht
    · intro hfits
      exact hfits.unmatched htarget

/-- **Which answers reach the client.** For every accepted request and every answer to it, `process`
leaves the answer in the write buffer exactly when the path of an unmatched request, the text of
`/metrics` and the strings of a 201 are short enough. All other answers always fit. -/
theorem answer_delivered_iff {c c₁ c' : HttpConn} {expected : Nat} {armed : Option Http.Interest}
    {resp : HttpResponse} (herr : ErrorsWithin 512 o) (hread : c.processRead = (c₁, .getRequest))
    (h : c.process (dispatch o) s expected = some (s', c', armed, .dispatched req resp)) :
    Delivered c₁ c' resp ↔ Fits o s c₁ := by
  obtain ⟨r, hrespond, hresp, hc'⟩ := HttpConn.process_dispatched hread h
  rw [hc', HttpConn.delivered_iff, hresp, respond_fits_iff herr hrespond]

/-- Nothing happens outside. -/
def quiet : Outside where
  bloom := softBloom
  nowMs := 0
  publicBaseUrl := ascii "http://localhost:9006"

theorem quiet_errors : ErrorsWithin 512 quiet := by
  refine ⟨Nat.zero_le 512, fun _ => Nat.zero_le 512, ?_⟩
  intro r hr
  cases hr

/-- The 404 for a short path is sent. -/
theorem answer_delivered_iff_twoSegments : ∃ c₁ s' c' armed req resp,
    (HttpConn.holding HttpConn.twoSegments).processRead = (c₁, .getRequest) ∧
      (HttpConn.holding HttpConn.twoSegments).process (dispatch quiet) foreignRow
        (HttpConn.holding HttpConn.twoSegments).generation =
          some (s', c', armed, .dispatched req resp) ∧ Delivered c₁ c' resp := by
  have hread := HttpConn.holding_reads (S := HttpConn.twoSegments) (by decide +kernel)
  have htarget : target (HttpConn.holding HttpConn.twoSegments).processRead.1.request = .unmatched := by
    decide +kernel
  have hvalid : Json.utf8Valid (HttpConn.holding HttpConn.twoSegments).processRead.1.request.path =
      true := by
    decide +kernel
  have hshort : escapedLength (HttpConn.holding HttpConn.twoSegments).processRead.1.request.path <
      8057 := by
    decide +kernel
  generalize (HttpConn.holding HttpConn.twoSegments).processRead.1 = c₁ at *
  obtain ⟨params, pattern, hdispatch⟩ := dispatch_routes (handlers quiet) foreignRow c₁.request
  rw [htarget, answerBy] at hdispatch
  obtain ⟨r, hr⟩ := Option.isSome_iff_exists.mp
    ((HttpConn.notFoundResponse_isSome c₁.request.path).trans hvalid)
  have hprocess := HttpConn.process_unmatched (Eq.refl _) hread hdispatch
  rw [hr] at hprocess
  refine ⟨c₁, _, _, _, _, _, hread, hprocess,
    (answer_delivered_iff quiet_errors hread hprocess).mpr ⟨?_, ?_, ?_⟩⟩
  · intro _
    exact Nat.lt_of_lt_of_le hshort (Nat.le_add_right 8057 _)
  · intro ht
    cases htarget.symm.trans ht
  · intro ht
    cases htarget.symm.trans ht

/-! ## A path that is too long -/

/-- A GET of two segments, the second one 1400 control bytes long. -/
def longPath : Http.WireRequest where
  method := .get
  target := ascii "/a/" ++ List.replicate 1400 1
  headers := []
  body := []

/-- A connection that has received this request. -/
theorem holding_encode {r : Http.WireRequest} (hr : r.WellFormed) (hbody : r.body = [])
    (hlen : r.encode.length < Http.READ_BUFFER_SIZE) :
    ∃ c₁, (HttpConn.holding r.encode).processRead = (c₁, .getRequest) ∧
      c₁.request.path = r.path ∧ c₁.request.method = r.method.name ∧ c₁.linger = true := by
  have hread : (HttpConn.holding r.encode).readIdx = r.encode.length := Nat.zero_add _
  have hunread : (HttpConn.holding r.encode).unread = r.encode := by
    unfold HttpConn.unread
    rw [hread]
    exact Mem.seg_write_same _ 0 r.encode
  have hfresh : (HttpConn.holding r.encode).Fresh := ⟨rfl, rfl, rfl⟩
  obtain ⟨pos, hhead⟩ := Http.WireRequest.readHead_encode hr hlen []
  rw [List.append_nil, if_pos hbody, ← hunread] at hhead
  obtain ⟨c₁, hc₁, hparser, -⟩ := hfresh.processRead_ended (by omega) hhead
  have hrequest : c₁.request = _ := congrArg Http.Parser.request hparser
  exact ⟨c₁, hc₁, congrArg HttpRequest.path hrequest, congrArg HttpRequest.method hrequest,
    congrArg Http.Parser.linger hparser⟩

/-- The 404 for the long path is not sent. -/
theorem answer_lost_longPath : ¬ ∀ (o : Outside) (s s' : Process plainConfig) (c c₁ c' : HttpConn)
    (expected : Nat) (armed : Option Http.Interest) (req : HttpRequest) (resp : HttpResponse),
    ErrorsWithin 512 o → c.processRead = (c₁, .getRequest) →
      c.process (dispatch o) s expected = some (s', c', armed, .dispatched req resp) →
        Delivered c₁ c' resp := by
  intro hall
  have hwell : longPath.WellFormed := by decide +kernel
  have hlen : longPath.encode.length < Http.READ_BUFFER_SIZE := by decide +kernel
  have hpath : longPath.path = longPath.target := by decide +kernel
  obtain ⟨c₁, hread, hreqPath, hmethod, hlinger⟩ := holding_encode hwell rfl hlen
  rw [hpath] at hreqPath
  have htarget : target c₁.request = .unmatched := by
    have hget : c₁.request.method = ascii "GET" := hmethod
    unfold target
    rw [if_pos hget, hreqPath]
    decide +kernel
  obtain ⟨params, pattern, hdispatch⟩ := dispatch_routes (handlers quiet) foreignRow c₁.request
  rw [htarget, answerBy] at hdispatch
  obtain ⟨r, hr⟩ := Option.isSome_iff_exists.mp
    ((HttpConn.notFoundResponse_isSome c₁.request.path).trans (by rw [hreqPath]; decide +kernel))
  have hprocess := HttpConn.process_unmatched (Eq.refl _) hread hdispatch
  rw [hr] at hprocess
  have hdelivered := hall quiet foreignRow _ _ c₁ _ _ _ _ _ quiet_errors hread hprocess
  have hlong := (notFound_fits_iff c₁ hr).mp hdelivered.fits
  have hspare : c₁.spare = 0 := by
    unfold HttpConn.spare
    rw [if_pos hlinger]
  rw [hreqPath, hspare] at hlong
  exact absurd hlong (by decide +kernel)

end Handler
end UrlShortener
