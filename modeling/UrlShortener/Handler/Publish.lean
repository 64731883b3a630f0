import UrlShortener.Analytics.Producer
import UrlShortener.Handler.Redirect
import UrlShortener.ShortUrl.BloomFilter

/-!
# UrlShortener.Handler.Publish

`redirect` as the router calls it: from the request with its parameters to the response, with the
test of the Bloom filter before the lookup and with every call of `publish_click`. Where
`do_flight` does not return what this call's own loader returned, what it returns is an input.

A click is published as soon as a mapping is found, and only then does `set_safe_location` look at
the URL. It refuses one that is not safe, so a click is published for a 500 as well.
-/

namespace UrlShortener
namespace Handler

open Analytics (ClickEvent clickEvent)
open Http (HttpRequest HttpResponse isHttpUrlSafeForLocation)
open ShortUrl
open SingleFlight (SingleFlightResult)

/-- What decides a run of `redirect`, besides the process and the request. -/
structure Visit where
  bloom : BloomState
  env : Env := {}
  /-- `do_flight` returns this: another call's result, an overload, or the error its loader made by
  throwing. `none`: it returns what the loader returned. -/
  flight : Option SingleFlightResult := none
  /-- `now_ms()`. -/
  nowMs : Int

/-- What a run of `redirect` comes to. -/
structure Served (cfg : Config) where
  process : Process cfg
  /-- The calls of `publish_click`. -/
  published : List ClickEvent
  /-- `none`: `set_json` throws. -/
  response : Option HttpResponse

variable {cfg : Config}

def doFlight (s : Process cfg) (code : Bytes) (v : Visit) : Process cfg × SingleFlightResult :=
  match v.flight with
  | some r => (s, r)
  | none => s.originLookup code v.env

def redirect (s : Process cfg) (req : HttpRequest) (v : Visit) : Served cfg :=
  match req.params.lookup (ascii "code") with
  | none => ⟨s, [], Outcome.notFound.response⟩
  | some code =>
    if code = [] then ⟨s, [], Outcome.notFound.response⟩
    else if v.bloom.hardMiss code = some true then ⟨s, [], Outcome.notFound.response⟩
    else
      let status := LocalCache.get cfg.cache s.shards code s.now s.wall
      let s := s.perform (.get code s.now s.wall)
      match status with
      | .hit e => ⟨s, [clickEvent req code v.nowMs], (setSafeLocation e.longUrl).response⟩
      | .expired _ => ⟨s.erase code v.env, [], Outcome.expired.response⟩
      | .negHit => ⟨s, [], Outcome.notFound.response⟩
      | .miss =>
        let (s, r) := doFlight s code v
        ⟨s, if r.kind = .hit then [clickEvent req code v.nowMs] else [], (answerFlight r).response⟩

/-- A code that the filter lets through and whose flight runs its own loader is looked up as in
`Process.redirect`. -/
theorem redirect_eq (s : Process cfg) {req : HttpRequest} {v : Visit} {code : Bytes}
    (hcode : req.params.lookup (ascii "code") = some code)
    (hbloom : v.bloom.hardMiss code ≠ some true) (hflight : v.flight = none) :
    (redirect s req v).process = (s.redirect code v.env).1 ∧
      (redirect s req v).response = (s.redirect code v.env).2.response := by
  unfold redirect Process.redirect doFlight
  simp only [hcode, hbloom, hflight, if_false]
  split
  · exact ⟨rfl, rfl⟩
  · cases LocalCache.get cfg.cache s.shards code s.now s.wall with
    | hit e => exact ⟨rfl, rfl⟩
    | expired e => exact ⟨rfl, rfl⟩
    | negHit => exact ⟨rfl, rfl⟩
    | miss => exact ⟨rfl, rfl⟩

/-! ## Where the mapping is found -/

/-- `redirect` comes to its lookup, for this code. -/
structure Admitted (req : HttpRequest) (v : Visit) (code : Bytes) : Prop where
  param : req.params.lookup (ascii "code") = some code
  nonempty : code ≠ []
  bloom : v.bloom.hardMiss code ≠ some true

/-- Redis is up and answers, and holds a value that decodes. -/
def RedisKnows (s : Process cfg) (code : Bytes) (env : Env) : Prop :=
  s.redisUp = true ∧ env.get = .answered ∧
    ∃ raw, s.redis (cacheKey code) = some raw ∧ interpretRedisPayload raw s.wall ≠ .miss

/-- The first layer behind the local cache that has a live mapping for the code has this URL. -/
inductive Origin (s : Process cfg) (code : Bytes) (env : Env) : Bytes → Prop
  | redis {raw : Bytes} {e : LocalCache.EntryView}
      (hbudget : s.redisAvailable = true ∨ env.slot = true)
      (hup : s.redisUp = true) (hget : env.get = .answered)
      (hraw : s.redis (cacheKey code) = some raw)
      (hvalue : interpretRedisPayload raw s.wall = .hit e) : Origin s code env e.longUrl
  | mysql {longUrl expireAt : Bytes}
      (hbudget : s.redisAvailable = true ∨ env.slot = true) (hredis : ¬ RedisKnows s code env)
      (hfind : findLongUrl cfg.coll cfg.router s.db env.mysql code s.wall env.find =
        .ok longUrl expireAt) : Origin s code env longUrl

/-- The mapping that `redirect` finds for the code has this URL. -/
inductive Finds (s : Process cfg) (code : Bytes) (v : Visit) : Bytes → Prop
  | cached {e : LocalCache.EntryView}
      (hlocal : LocalCache.get cfg.cache s.shards code s.now s.wall = .hit e) : Finds s code v e.longUrl
  | shared {r : SingleFlightResult}
      (hlocal : LocalCache.get cfg.cache s.shards code s.now s.wall = .miss)
      (hflight : v.flight = some r) (hkind : r.kind = .hit) : Finds s code v r.longUrl
  | origin {url : Bytes} (hlocal : LocalCache.get cfg.cache s.shards code s.now s.wall = .miss)
      (hflight : v.flight = none) (h : Origin s code v.env url) : Finds s code v url

variable {s : Process cfg} {code : Bytes} {env : Env} {v : Visit} {req : HttpRequest}

/-- What an answer of `get_redis` says of Redis. -/
def RedisSays (s : Process cfg) (code : Bytes) (env : Env) : Process.RedisStatus → Prop
  | .hit e => ∃ raw, s.redisUp = true ∧ env.get = .answered ∧
      s.redis (cacheKey code) = some raw ∧ interpretRedisPayload raw s.wall = .hit e
  | .expired _ => RedisKnows s code env ∧ ∀ raw e, s.redis (cacheKey code) = some raw →
      interpretRedisPayload raw s.wall ≠ .hit e
  | .miss => ¬ RedisKnows s code env
  | .unavailable => ¬ RedisKnows s code env

/-- `get_redis`; it leaves the database and the clock alone. -/
theorem getRedis_says (s : Process cfg) (code : Bytes) (env : Env) :
    (s.getRedis code env).1.db = s.db ∧ (s.getRedis code env).1.wall = s.wall ∧
      RedisSays s code env (s.getRedis code env).2 := by
  unfold Process.getRedis
  split
  · rename_i hdown
    refine ⟨rfl, rfl, ?_⟩
    rintro ⟨hup, -⟩
    simp [hup] at hdown
  · rename_i hup
    have hup : s.redisUp = true := by simpa using hup
    cases hget : env.get with
    | failed e =>
      refine ⟨rfl, rfl, ?_⟩
      rintro ⟨-, hget', -⟩
      rw [hget] at hget'
      cases hget'
    | lost e =>
      refine ⟨rfl, rfl, ?_⟩
      rintro ⟨-, hget', -⟩
      rw [hget] at hget'
      cases hget'
    | answered =>
      cases hraw : s.redis (cacheKey code) with
      | none =>
        refine ⟨rfl, rfl, ?_⟩
        rintro ⟨-, -, raw, hraw', -⟩
        rw [hraw] at hraw'
        cases hraw'
      | some raw =>
        cases hvalue : interpretRedisPayload raw s.wall with
        | miss =>
          simp only [hvalue, true_and]
          rintro ⟨-, -, raw', hraw', hne⟩
          rw [hraw] at hraw'
          cases hraw'
          exact hne hvalue
        | expired e =>
          simp only [hvalue, Process.dropRedis_db, Process.dropRedis_wall, true_and]
          refine ⟨⟨hup, hget, raw, hraw, by simp [hvalue]⟩, ?_⟩
          intro raw' e' hraw'
          rw [hraw] at hraw'
          cases hraw'
          simp [hvalue]
        | hit e =>
          simp only [hvalue, true_and]
          exact ⟨raw, hup, hget, hraw, hvalue⟩

/-- The result of a refill is a hit for what MySQL finds. -/
theorem refill_hit_iff (s : Process cfg) (code : Bytes) (env : Env) (url : Bytes) :
    ((s.refill code env).2.kind = .hit ∧ (s.refill code env).2.longUrl = url) ↔
      ∃ expireAt, findLongUrl cfg.coll cfg.router s.db env.mysql code s.wall env.find =
        .ok url expireAt := by
  unfold Process.refill
  cases findLongUrl cfg.coll cfg.router s.db env.mysql code s.wall env.find with
  | ok longUrl expireAt => simp
  | notFound => simp
  | expired longUrl expireAt => simp
  | dbError error => simp

/-- **The loader hits** for the URL of the first layer that has one, and for no other. -/
theorem originLookup_hit_iff (s : Process cfg) (code : Bytes) (env : Env) (url : Bytes) :
    ((s.originLookup code env).2.kind = .hit ∧ (s.originLookup code env).2.longUrl = url) ↔
      Origin s code env url := by
  obtain ⟨hdb, hwall, hsays⟩ := getRedis_says s code env
  unfold Process.originLookup
  by_cases hbudget : s.redisAvailable = true ∨ env.slot = true
  · have hif : (!s.redisAvailable && !env.slot) = false := by
      rcases hbudget with h | h
      · simp [h]
      · simp [h]
    rw [hif, if_neg Bool.false_ne_true]
    rcases hredis : s.getRedis code env with ⟨s₁, status⟩
    rw [hredis] at hdb hwall hsays
    simp only at hdb hwall
    have hmysql : ¬ RedisKnows s code env →
        (((s₁.refill code env).2.kind = .hit ∧ (s₁.refill code env).2.longUrl = url) ↔
          Origin s code env url) := by
      intro hknows
      rw [refill_hit_iff, hdb, hwall]
      constructor
      · rintro ⟨expireAt, hfind⟩
        exact .mysql hbudget hknows hfind
      · intro horigin
        cases horigin with
        | redis _ hup hget hraw hvalue =>
          exact absurd ⟨hup, hget, _, hraw, by simp [hvalue]⟩ hknows
        | mysql _ _ hfind => exact ⟨_, hfind⟩
    cases status with
    | miss => exact hmysql hsays
    | unavailable => exact hmysql hsays
    | expired e =>
      obtain ⟨hknows, hno⟩ := hsays
      constructor
      · rintro ⟨h, -⟩
        cases h
      · intro horigin
        cases horigin with
        | redis _ _ _ hraw hvalue => exact absurd hvalue (hno _ _ hraw)
        | mysql _ hknows' _ => exact absurd hknows hknows'
    | hit e =>
      obtain ⟨raw, hup, hget, hraw, hvalue⟩ := hsays
      constructor
      · rintro ⟨-, rfl⟩
        exact .redis hbudget hup hget hraw hvalue
      · intro horigin
        cases horigin with
        | redis _ _ _ hraw' hvalue' =>
          rw [hraw] at hraw'
          cases hraw'
          rw [hvalue] at hvalue'
          cases hvalue'
          exact ⟨rfl, rfl⟩
        | mysql _ hknows _ => exact absurd ⟨hup, hget, raw, hraw, by simp [hvalue]⟩ hknows
  · have hif : (!s.redisAvailable && !env.slot) = true := by
      simpa [not_or] using hbudget
    rw [hif, if_pos rfl]
    constructor
    · rintro ⟨h, -⟩
      cases h
    · intro horigin
      cases horigin with
      | redis hb => exact absurd hb hbudget
      | mysql hb => exact absurd hb hbudget

/-- The local cache has no part in it. -/
theorem origin_perform (s : Process cfg) (op : LocalCache.Op) (code : Bytes) (env : Env)
    (url : Bytes) : Origin (s.perform op) code env url ↔ Origin s code env url := by
  constructor
  · intro h
    cases h with
    | redis hbudget hup hget hraw hvalue => exact .redis hbudget hup hget hraw hvalue
    | mysql hbudget hredis hfind => exact .mysql hbudget hredis hfind
  · intro h
    cases h with
    | redis hbudget hup hget hraw hvalue => exact .redis hbudget hup hget hraw hvalue
    | mysql hbudget hredis hfind => exact .mysql hbudget hredis hfind

/-- On a miss of the local cache a flight hits for what is found. -/
theorem doFlight_hit_iff {op : LocalCache.Op}
    (hlocal : LocalCache.get cfg.cache s.shards code s.now s.wall = .miss) (url : Bytes) :
    ((doFlight (s.perform op) code v).2.kind = .hit ∧
      (doFlight (s.perform op) code v).2.longUrl = url) ↔ Finds s code v url := by
  unfold doFlight
  cases hflight : v.flight with
  | some r =>
    constructor
    · rintro ⟨hkind, rfl⟩
      exact .shared hlocal hflight hkind
    · intro hfinds
      cases hfinds with
      | cached h =>
        rw [hlocal] at h
        cases h
      | shared _ h hkind =>
        rw [hflight] at h
        cases h
        exact ⟨hkind, rfl⟩
      | origin _ h _ =>
        rw [hflight] at h
        cases h
  | none =>
    rw [originLookup_hit_iff, origin_perform]
    constructor
    · intro h
      exact .origin hlocal hflight h
    · intro hfinds
      cases hfinds with
      | cached h =>
        rw [hlocal] at h
        cases h
      | shared _ h _ =>
        rw [hflight] at h
        cases h
      | origin _ _ h => exact h

/-- At most one mapping is found. -/
theorem Finds.unique {url url' : Bytes} (h : Finds s code v url) (h' : Finds s code v url') :
    url = url' := by
  cases h with
  | cached h =>
    cases h' with
    | cached h' =>
      rw [h] at h'
      cases h'
      rfl
    | shared h' _ _ =>
      rw [h] at h'
      cases h'
    | origin h' _ _ =>
      rw [h] at h'
      cases h'
  | @shared r hlocal hflight hkind =>
    have hfinds : (doFlight (s.perform (.erase code)) code v).2.kind = .hit ∧
        (doFlight (s.perform (.erase code)) code v).2.longUrl = url' :=
      (doFlight_hit_iff hlocal url').mpr h'
    unfold doFlight at hfinds
    rw [hflight] at hfinds
    exact hfinds.2
  | origin hlocal hflight h =>
    cases h' with
    | cached h' =>
      rw [hlocal] at h'
      cases h'
    | shared _ h' _ =>
      rw [hflight] at h'
      cases h'
    | origin _ _ h' =>
      have hhit := (originLookup_hit_iff s code v.env url).mpr h
      exact hhit.2.symm.trans ((originLookup_hit_iff s code v.env url').mpr h').2

/-! ## Clicks and redirects -/

/-- Only a mapping that is found can be answered with a redirect. -/
theorem answerFlight_of_ne_hit {r : SingleFlightResult} (h : r.kind ≠ .hit) :
    (answerFlight r).statusCode ≠ 302 := by
  unfold answerFlight
  cases hkind : r.kind with
  | hit => exact absurd hkind h
  | expired => simp [Outcome.statusCode]
  | notFound => simp [Outcome.statusCode]
  | overload => simp [Outcome.statusCode]
  | error => simp [Outcome.statusCode]

theorem Outcome.response_status {o : Outcome} {resp : HttpResponse} (h : o.response = some resp) :
    resp.statusCode = o.statusCode := by
  cases o with
  | found longUrl =>
    cases h
    rfl
  | unsafeUrl => exact HttpResponse.setJson_status h
  | expired => exact HttpResponse.setJson_status h
  | notFound => exact HttpResponse.setJson_status h
  | unavailable detail => exact HttpResponse.setJson_status h

theorem Outcome.status_ne {o : Outcome} (h : o.statusCode ≠ 302) :
    o.response.map (·.statusCode) ≠ some 302 := by
  intro heq
  obtain ⟨resp, hresp, hstatus⟩ := Option.map_eq_some_iff.mp heq
  rw [Outcome.response_status hresp] at hstatus
  exact h (by exact_mod_cast hstatus)

/-- What a run of `redirect` answers and publishes. -/
inductive Serves (s : Process cfg) (req : HttpRequest) (v : Visit) : Served cfg → Prop
  | found {s' : Process cfg} {code url : Bytes} (hadmitted : Admitted req v code)
      (hfinds : Finds s code v url) :
      Serves s req v ⟨s', [clickEvent req code v.nowMs], (setSafeLocation url).response⟩
  | other {s' : Process cfg} {o : Outcome}
      (hnone : ∀ code url, Admitted req v code → ¬ Finds s code v url) (ho : o.statusCode ≠ 302) :
      Serves s req v ⟨s', [], o.response⟩

theorem redirect_serves (s : Process cfg) (req : HttpRequest) (v : Visit) :
    Serves s req v (redirect s req v) := by
  unfold redirect
  cases hparam : req.params.lookup (ascii "code") with
  | none =>
    refine .other ?_ (by decide)
    intro code url hadmitted
    rw [hadmitted.param] at hparam
    cases hparam
  | some code =>
    have hcode : ∀ code', Admitted req v code' → code' = code := by
      intro code' hadmitted
      rw [hadmitted.param] at hparam
      exact Option.some.inj hparam
    simp only
    split
    · rename_i hempty
      refine .other ?_ (by decide)
      intro code' url hadmitted
      exact absurd (hcode code' hadmitted ▸ hempty) hadmitted.nonempty
    · rename_i hne
      split
      · rename_i hmiss
        refine .other ?_ (by decide)
        intro code' url hadmitted
        exact absurd (hcode code' hadmitted ▸ hmiss) hadmitted.bloom
      · rename_i hbloom
        have hadmitted : Admitted req v code := ⟨hparam, hne, hbloom⟩
        have hno : ∀ {status}, LocalCache.get cfg.cache s.shards code s.now s.wall = status →
            (∀ e, status ≠ .hit e) → status ≠ .miss →
            ∀ code' url, Admitted req v code' → ¬ Finds s code' v url := by
          intro status hstatus hhit hmiss code' url hadmitted' hfinds
          rw [hcode code' hadmitted'] at hfinds
          cases hfinds with
          | cached h => exact hhit _ (hstatus.symm.trans h)
          | shared h _ _ => exact hmiss (hstatus.symm.trans h)
          | origin h _ _ => exact hmiss (hstatus.symm.trans h)
        cases hlocal : LocalCache.get cfg.cache s.shards code s.now s.wall with
        | hit e => exact .found hadmitted (.cached hlocal)
        | expired e => exact .other (hno hlocal (by simp) (by simp)) (by decide)
        | negHit => exact .other (hno hlocal (by simp) (by simp)) (by decide)
        | miss =>
          simp only
          have hflight := @doFlight_hit_iff cfg s code v (.get code s.now s.wall) hlocal
          generalize doFlight (s.perform (.get code s.now s.wall)) code v = flown at hflight
          obtain ⟨s', r⟩ := flown
          by_cases hkind : r.kind = .hit
          · have hanswer : answerFlight r = setSafeLocation r.longUrl := by
              unfold answerFlight
              rw [hkind]
            simp only [hkind, if_true, hanswer]
            exact .found hadmitted ((hflight r.longUrl).mp ⟨hkind, rfl⟩)
          · simp only [hkind, if_false]
            refine .other ?_ (answerFlight_of_ne_hit hkind)
            intro code' url hadmitted' hfinds
            rw [hcode code' hadmitted'] at hfinds
            exact hkind ((hflight url).mpr hfinds).1

/-- `publish_click` is called once for a 302, and otherwise not at all. -/
def Served.ClickIffRedirect (r : Served cfg) : Prop :=
  r.published.length = if r.response.map (·.statusCode) = some 302 then 1 else 0

instance (r : Served cfg) : Decidable r.ClickIffRedirect := inferInstanceAs (Decidable (_ = _))

/-- **When the clicks are the redirects**: in every state and for every request, exactly when the
mapping that is found, if one is, has a URL that is safe for `Location`. -/
theorem click_iff_redirect (s : Process cfg) (req : HttpRequest) (v : Visit) :
    (redirect s req v).ClickIffRedirect ↔
      ∀ code url, Admitted req v code → Finds s code v url → isHttpUrlSafeForLocation url = true := by
  have hserves := redirect_serves s req v
  generalize redirect s req v = served at hserves
  cases hserves with
  | @found s' code url hadmitted hfinds =>
    have hsame : (∀ code url, Admitted req v code → Finds s code v url →
        isHttpUrlSafeForLocation url = true) ↔ isHttpUrlSafeForLocation url = true := by
      constructor
      · intro hall
        exact hall code url hadmitted hfinds
      · intro hsafe code' url' hadmitted' hfinds'
        have hcode : code = code' := Option.some.inj (hadmitted.param.symm.trans hadmitted'.param)
        subst hcode
        rwa [hfinds'.unique hfinds]
    rw [hsame, Served.ClickIffRedirect, setSafeLocation]
    cases hsafe : isHttpUrlSafeForLocation url with
    | true => exact iff_of_true rfl rfl
    | false =>
      have hne := Outcome.status_ne (o := .unsafeUrl) (by decide)
      rw [if_neg Bool.false_ne_true, if_neg hne]
      exact iff_of_false (by simp) (by simp)
  | other hnone ho =>
    refine iff_of_true ?_ fun code url hadmitted hfinds =>
      absurd hfinds (hnone code url hadmitted)
    rw [Served.ClickIffRedirect, if_neg (Outcome.status_ne ho)]
    rfl

/-- A filter that is never asked. -/
def softBloom : BloomState := .init { smallBloom with bloomHardFilter := false }

/-- One shard, no Redis, no sharding, and a column that ignores case. -/
def plainConfig : Config where
  enabled := false
  client := false
  cache := LocalCache.configure 1 8 8 60 60 0
  router := { enabled := false }
  coll := .ignoreCase

/-- MySQL has a row whose URL is no http URL. -/
def foreignRow : Process plainConfig :=
  { Process.start plainConfig 0 (ascii "2026-01-01 00:00:00") false with
    db := fun _ => [⟨1, ascii "abc", ascii "ftp://files.example/a", []⟩] }

/-- The router's request for `/abc`. -/
def getAbc : HttpRequest where
  method := ascii "GET"
  path := ascii "/abc"
  params := (∅ : StrMap Bytes).insert (ascii "code") (ascii "abc")

/-- A click is published, and the answer is 500. -/
theorem click_for_500 : ¬ ∀ (s : Process plainConfig) (req : HttpRequest) (v : Visit),
    (redirect s req v).ClickIffRedirect := by
  intro hall
  exact absurd (hall foreignRow getAbc { bloom := softBloom, nowMs := 0 }) (by decide +kernel)

end Handler
end UrlShortener
