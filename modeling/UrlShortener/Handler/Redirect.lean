import UrlShortener.Http.Message
import UrlShortener.Http.ProtocolUtils
import UrlShortener.ShortUrl.LocalCacheSpec
import UrlShortener.ShortUrl.RedisCodec
import UrlShortener.ShortUrl.Repository
import UrlShortener.ShortUrl.SingleFlight

/-!
# UrlShortener.Handler.Redirect

The redirect handler over its three layers: the local cache, Redis and MySQL
(`short_url_handler.cpp`, and the parts of `short_url_cache.cpp` it calls), run without
interference. `do_flight` with no other call in flight runs its loader and returns what it returns,
so `redirect` calls `originLookup` directly.

What the outside world does is an input (`Env`): a call of Redis or of MySQL is answered, fails, or
takes effect while its answer is lost. Redis entries live until they are lost; when, is an input
too. `bloom_hard_filter` is off, so the Bloom filter is never asked.
-/

namespace UrlShortener
namespace Handler

open Http (HttpResponse isHttpUrlSafeForLocation)
open LocalCache (EntryView Op Shards)
open ShortUrl
open SingleFlight (SingleFlightResult)

/-- The shape of `YYYY-MM-DD HH:MM:SS`. -/
def validExpireAt (expireAt : Bytes) : Bool :=
  decide (expireAt.length = 19) && expireAt.zipIdx.all fun (c, i) =>
    if i = 4 ∨ i = 7 then decide (c = 45)
    else if i = 10 then decide (c = SP)
    else if i = 13 ∨ i = 16 then decide (c = 58)
    else decide (48 ≤ c) && decide (c ≤ 57)

theorem validExpireAt_noLf {expireAt : Bytes} (h : validExpireAt expireAt = true) :
    LF ∉ expireAt := by
  intro hmem
  simp only [validExpireAt, Bool.and_eq_true, List.all_eq_true] at h
  obtain ⟨i, hi⟩ := List.getElem?_of_mem hmem
  have hall := h.2 (LF, i) (List.mk_mem_zipIdx_iff_getElem?.mpr hi)
  simp only at hall
  split at hall
  · simp [LF] at hall
  · split at hall
    · simp [LF, SP] at hall
    · split at hall
      · simp [LF] at hall
      · simp [LF] at hall

/-! ## Answers -/

inductive Outcome where
  | found (longUrl : Bytes)
  /-- `set_safe_location` refuses the stored URL. -/
  | unsafeUrl
  | expired
  | notFound
  | unavailable (detail : Bytes)
deriving DecidableEq

namespace Outcome

def statusCode : Outcome → Nat
  | .found _ => 302
  | .unsafeUrl => 500
  | .expired => 410
  | .notFound => 404
  | .unavailable _ => 503

/-- The fields of the JSON body; a redirect has an empty one. -/
def fields : Outcome → List (Bytes × Option Bytes)
  | .found _ => []
  | .unsafeUrl => [(ascii "error", some (ascii "stored long_url is unsafe for Location"))]
  | .expired => [(ascii "error", some (ascii "short url expired"))]
  | .notFound => [(ascii "error", some (ascii "short url not found"))]
  | .unavailable detail =>
    [(ascii "detail", some detail), (ascii "error", some (ascii "short url storage unavailable"))]

/-- `none`: `set_json` throws. -/
def response (o : Outcome) : Option HttpResponse :=
  let resp := HttpResponse.setStatus {} o.statusCode
  match o with
  | .found longUrl => some ((resp.setHeader (ascii "Location") longUrl).setBody [])
  | _ => resp.setJson o.fields

end Outcome

def setSafeLocation (longUrl : Bytes) : Outcome :=
  if isHttpUrlSafeForLocation longUrl then .found longUrl else .unsafeUrl

/-- What `redirect` answers to the result of a flight. -/
def answerFlight (r : SingleFlightResult) : Outcome :=
  match r.kind with
  | .hit => setSafeLocation r.longUrl
  | .expired => .expired
  | .notFound => .notFound
  | .overload => .unavailable (if r.error = [] then ascii "singleflight overload" else r.error)
  | .error => .unavailable r.error

/-- How the loop of `shorten` ends. -/
inductive Creation where
  | created (code : Bytes)
  /-- With what `db_error` holds. -/
  | failed (dbError : Bytes)
  | threw

/-! ## The process -/

structure Config where
  /-- `enabled_`. -/
  enabled : Bool
  /-- There is a client `redis_`. -/
  client : Bool
  cache : LocalCache.Config
  router : ShardRouter
  /-- How the `short_code` columns compare. -/
  coll : Collation

structure Process (cfg : Config) where
  /-- The steady clock. -/
  now : Int := 0
  /-- What `now_datetime()` and `NOW()` say. -/
  wall : Bytes
  db : Tables := fun _ => []
  shards : Shards cfg.cache
  /-- Redis, by key. -/
  redis : Bytes → Option Bytes := fun _ => none
  redisAvailable : Bool

/-- What the outside does during one request. -/
structure Env where
  draw : Nat := 0
  /-- `try_acquire_origin` finds a slot; asked only while Redis is down. -/
  slot : Bool := true
  get : Reply := .answered
  /-- The `DEL` inside `get_redis`. -/
  drop : Reply := .answered
  /-- The `SETEX` of `set`, or the `DEL` of `erase`. -/
  write : Reply := .answered
  mysql : Bool := true
  find : Reply := .answered

namespace Process

variable {cfg : Config}

/-- An operation of the local cache. -/
def perform (s : Process cfg) (op : Op) : Process cfg :=
  let i := LocalCache.shardIndex cfg.cache op.code
  { s with shards := Function.update s.shards i (op.apply cfg.cache (s.shards i)) }

def setRedis (s : Process cfg) (key : Bytes) (value : Option Bytes) : Process cfg :=
  { s with redis := Function.update s.redis key value }

/-- `enabled_` holds and `redis_snapshot` is not null. -/
def redisUp (s : Process cfg) : Bool := cfg.enabled && s.redisAvailable && cfg.client

/-- A `SETEX` or `DEL`; an error marks Redis as unavailable. -/
def writeRedis (s : Process cfg) (key : Bytes) (value : Option Bytes) (reply : Reply) :
    Process cfg :=
  if !s.redisUp then s
  else
    match reply with
    | .answered => s.setRedis key value
    | .failed _ => { s with redisAvailable := false }
    | .lost _ => { s.setRedis key value with redisAvailable := false }

/-- What `get_redis` returns. -/
inductive RedisStatus where
  | hit (v : EntryView)
  | expired (v : EntryView)
  | miss
  | unavailable
deriving DecidableEq

/-- The best-effort `DEL` of an expired value. -/
def dropRedis (s : Process cfg) (key : Bytes) : Reply → Process cfg
  | .answered => s.setRedis key none
  | .failed _ => s
  | .lost _ => s.setRedis key none

def getRedis (s : Process cfg) (code : Bytes) (env : Env) : Process cfg × RedisStatus :=
  if !s.redisUp then (s, .unavailable)
  else
    match env.get with
    | .failed _ => ({ s with redisAvailable := false }, .unavailable)
    | .lost _ => ({ s with redisAvailable := false }, .unavailable)
    | .answered =>
      match s.redis (cacheKey code) with
      | none => (s, .miss)
      | some raw =>
        match interpretRedisPayload raw s.wall with
        | .miss => (s, .miss)
        | .expired v => (s.dropRedis (cacheKey code) env.drop, .expired v)
        | .hit v => (s, .hit v)

def putLocalPositive (s : Process cfg) (code : Bytes) (v : EntryView) (draw : Nat) : Process cfg :=
  s.perform (.putPositive code v s.now draw)

def putLocalNegative (s : Process cfg) (code : Bytes) : Process cfg :=
  s.perform (.putNegative code s.now)

def eraseLocal (s : Process cfg) (code : Bytes) : Process cfg := s.perform (.erase code)

def set (s : Process cfg) (code : Bytes) (v : EntryView) (env : Env) : Process cfg :=
  (s.putLocalPositive code v env.draw).writeRedis (cacheKey code) (some (encodeRedisValue v))
    env.write

def erase (s : Process cfg) (code : Bytes) (env : Env) : Process cfg :=
  (s.eraseLocal code).writeRedis (cacheKey code) none env.write

/-- The MySQL half of `origin_lookup`. -/
def refill (s : Process cfg) (code : Bytes) (env : Env) : Process cfg × SingleFlightResult :=
  match findLongUrl cfg.coll cfg.router s.db env.mysql code s.wall env.find with
  | .ok longUrl expireAt =>
    (s.set code ⟨longUrl, expireAt⟩ env, { kind := .hit, longUrl, expireAt })
  | .expired longUrl expireAt => (s.erase code env, { kind := .expired, longUrl, expireAt })
  | .notFound => (s.putLocalNegative code, { kind := .notFound })
  | .dbError error => (s, { kind := .error, error })

def originLookup (s : Process cfg) (code : Bytes) (env : Env) :
    Process cfg × SingleFlightResult :=
  if !s.redisAvailable && !env.slot then
    (s, SingleFlight.overload (ascii "redirect origin budget exhausted"))
  else
    match s.getRedis code env with
    | (s, .hit v) =>
      (s.putLocalPositive code v env.draw,
        { kind := .hit, longUrl := v.longUrl, expireAt := v.expireAt })
    | (s, .expired v) =>
      (s.eraseLocal code, { kind := .expired, longUrl := v.longUrl, expireAt := v.expireAt })
    | (s, .miss) => s.refill code env
    | (s, .unavailable) => s.refill code env

def redirect (s : Process cfg) (code : Bytes) (env : Env) : Process cfg × Outcome :=
  if code = [] then (s, .notFound)
  else
    let status := LocalCache.get cfg.cache s.shards code s.now s.wall
    let s := s.perform (.get code s.now s.wall)
    match status with
    | .hit v => (s, setSafeLocation v.longUrl)
    | .expired _ => (s.erase code env, .expired)
    | .negHit => (s, .notFound)
    | .miss =>
      let (s, r) := s.originLookup code env
      (s, answerFlight r)

/-- The loop of `shorten`: what `next_id` returns in each round, and what becomes of the `INSERT`.
`none`: it throws. A duplicate leaves `db_error` empty. -/
def createLoop (s : Process cfg) (longUrl expireAt : Bytes) (env : Env) :
    List (Option UInt64 × Reply) → Process cfg × Creation
  | [] => (s, .failed [])
  | (none, _) :: _ => (s, .threw)
  | (some id, reply) :: tries =>
    let record : ShortUrlRecord := ⟨id, base62Encode id, longUrl, expireAt⟩
    match create cfg.coll cfg.router s.db env.mysql record reply with
    | (db, .ok) =>
      ({ s with db }.set record.shortCode ⟨longUrl, expireAt⟩ env, .created record.shortCode)
    | (db, .duplicateCode) => createLoop { s with db } longUrl expireAt env tries
    | (db, .dbError error) => ({ s with db }, .failed error)

/-- `shorten` for a body that was decoded to this URL and expiry. `none` is an answer other than
201. -/
def shorten (s : Process cfg) (longUrl expireAt : Bytes) (tries : List (Option UInt64 × Reply))
    (env : Env) : Process cfg × Option Bytes :=
  if isHttpUrlSafeForLocation longUrl = false then (s, none)
  else if expireAt ≠ [] ∧ validExpireAt expireAt = false then (s, none)
  else if !s.redisAvailable && !env.slot then (s, none)
  else
    match s.createLoop longUrl expireAt env (tries.take 3) with
    | (s, .created code) => (s, some code)
    | (s, _) => (s, none)

section Frames

variable (s : Process cfg) (key : Bytes) (value : Option Bytes) (reply : Reply)

@[simp] theorem writeRedis_shards : (s.writeRedis key value reply).shards = s.shards := by
  unfold writeRedis
  split
  · rfl
  · cases reply <;> rfl

@[simp] theorem writeRedis_db : (s.writeRedis key value reply).db = s.db := by
  unfold writeRedis
  split
  · rfl
  · cases reply <;> rfl

@[simp] theorem writeRedis_wall : (s.writeRedis key value reply).wall = s.wall := by
  unfold writeRedis
  split
  · rfl
  · cases reply <;> rfl

@[simp] theorem dropRedis_shards : (s.dropRedis key reply).shards = s.shards := by
  cases reply <;> rfl

@[simp] theorem dropRedis_db : (s.dropRedis key reply).db = s.db := by
  cases reply <;> rfl

@[simp] theorem dropRedis_wall : (s.dropRedis key reply).wall = s.wall := by
  cases reply <;> rfl

/-- A write puts the value, or nothing happens to the key. -/
theorem writeRedis_redis : (s.writeRedis key value reply).redis key = value ∨
    (s.writeRedis key value reply).redis key = s.redis key := by
  unfold writeRedis
  split
  · exact Or.inr rfl
  · cases reply with
    | answered => exact Or.inl (Function.update_self _ _ _)
    | failed e => exact Or.inr rfl
    | lost e => exact Or.inl (Function.update_self _ _ _)

theorem dropRedis_redis : (s.dropRedis key reply).redis key = none ∨
    (s.dropRedis key reply).redis key = s.redis key := by
  cases reply with
  | answered => exact Or.inl (Function.update_self _ _ _)
  | failed e => exact Or.inr rfl
  | lost e => exact Or.inl (Function.update_self _ _ _)

end Frames

end Process

/-! ## Runs -/

inductive Label where
  | shorten (longUrl expireAt : Bytes) (tries : List (Option UInt64 × Reply)) (env : Env)
  | redirect (code : Bytes) (env : Env)
  /-- The clocks move. -/
  | tick (now : Int) (wall : Bytes)
  /-- Redis loses an entry: it was evicted, or its time to live is over. -/
  | lose (key : Bytes)
  /-- Somebody else puts bytes into Redis. -/
  | foreign (key raw : Bytes)
  /-- `mark_redis_unavailable` or `restore_redis_available`. -/
  | available (up : Bool)

/-- Only a successful `shorten` is a step, and foreign bytes do not decode. -/
def Process.step {cfg : Config} (s : Process cfg) : Label → Option (Process cfg)
  | .shorten longUrl expireAt tries env =>
    match s.shorten longUrl expireAt tries env with
    | (s, some _) => some s
    | (_, none) => none
  | .redirect code env => some (s.redirect code env).1
  | .tick now wall => some { s with now, wall }
  | .lose key => some (s.setRedis key none)
  | .foreign key raw => if decodeRedisValue raw = none then some (s.setRedis key (some raw)) else none
  | .available up => some { s with redisAvailable := up }

/-- The process after its start: nothing stored and nothing cached. -/
def Process.start (cfg : Config) (now : Int) (wall : Bytes) (redisAvailable : Bool) :
    Process cfg := { now, wall, shards := LocalCache.empty cfg.cache, redisAvailable }

end Handler
end UrlShortener
