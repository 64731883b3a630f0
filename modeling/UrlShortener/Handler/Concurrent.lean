import UrlShortener.Handler.Redirect

/-!
# UrlShortener.Handler.Concurrent

Redirects of one code that run at the same time, beside the `shorten` that creates it. A step is
one access to something shared: an operation of the local cache (its shard is locked throughout),
a command to Redis, a statement to MySQL, a step of `do_flight`.

Request `u` is thread `u` of the `SingleFlight` table. Its thread is there from the arrival and
rests at `enter` until the local cache has missed. The loader that `do_flight` calls is
`origin_lookup`, cut at its accesses; without interference its steps add up to `originLookup`.

Requests for other codes show as operations on their own codes in the local cache, which may evict
this one.
-/

namespace UrlShortener
namespace Handler
namespace Race

open Http (isHttpUrlSafeForLocation)
open LocalCache (EntryView Op)
open ShortUrl
open SingleFlight (SingleFlightResult Kind)

structure Config where
  process : Handler.Config
  flights : SingleFlight.Config
  code : Bytes

/-! ## The loader -/

/-- What `origin_lookup` does next. -/
inductive Loader where
  | budget
  | get
  /-- Redis has answered. -/
  | interpret (raw : Bytes)
  /-- The `DEL` inside `get_redis`. -/
  | del (v : EntryView)
  /-- `put_local_positive` after a hit in Redis. -/
  | putPositive (v : EntryView)
  /-- `erase_local` after an expired value in Redis. -/
  | drop (v : EntryView)
  | mysql
  /-- The two halves of `set`. -/
  | setLocal (v : EntryView)
  | setRedis (v : EntryView)
  /-- The two halves of `erase`. -/
  | eraseLocal (v : EntryView)
  | eraseRedis (v : EntryView)
  | putNegative
  | loaded (r : SingleFlightResult)
deriving DecidableEq

def hit (v : EntryView) : SingleFlightResult :=
  { kind := .hit, longUrl := v.longUrl, expireAt := v.expireAt }

def expired (v : EntryView) : SingleFlightResult :=
  { kind := .expired, longUrl := v.longUrl, expireAt := v.expireAt }

namespace Loader

/-- The kind of the result, once it is settled. -/
def kind : Loader → Option Kind
  | .putPositive _ | .setLocal _ | .setRedis _ => some .hit
  | .del _ | .drop _ | .eraseLocal _ | .eraseRedis _ => some .expired
  | .putNegative => some .notFound
  | .loaded r => some r.kind
  | .budget | .get | .interpret _ | .mysql => none

def step {cfg : Handler.Config} (p : Process cfg) (code : Bytes) (env : Env) :
    Loader → Process cfg × Loader
  | .budget =>
    if !p.redisAvailable && !env.slot then
      (p, .loaded (SingleFlight.overload (ascii "redirect origin budget exhausted")))
    else (p, .get)
  | .get =>
    if !p.redisUp then (p, .mysql)
    else
      match env.get with
      | .failed _ => ({ p with redisAvailable := false }, .mysql)
      | .lost _ => ({ p with redisAvailable := false }, .mysql)
      | .answered =>
        match p.redis (cacheKey code) with
        | none => (p, .mysql)
        | some raw => (p, .interpret raw)
  | .interpret raw =>
    match interpretRedisPayload raw p.wall with
    | .miss => (p, .mysql)
    | .expired v => (p, .del v)
    | .hit v => (p, .putPositive v)
  | .del v => (p.dropRedis (cacheKey code) env.drop, .drop v)
  | .putPositive v => (p.putLocalPositive code v env.draw, .loaded (hit v))
  | .drop v => (p.eraseLocal code, .loaded (expired v))
  | .mysql =>
    match findLongUrl cfg.coll cfg.router p.db env.mysql code p.wall env.find with
    | .ok longUrl expireAt => (p, .setLocal ⟨longUrl, expireAt⟩)
    | .expired longUrl expireAt => (p, .eraseLocal ⟨longUrl, expireAt⟩)
    | .notFound => (p, .putNegative)
    | .dbError error => (p, .loaded { kind := .error, error })
  | .setLocal v => (p.putLocalPositive code v env.draw, .setRedis v)
  | .setRedis v =>
    (p.writeRedis (cacheKey code) (some (encodeRedisValue v)) env.write, .loaded (hit v))
  | .eraseLocal v => (p.eraseLocal code, .eraseRedis v)
  | .eraseRedis v => (p.writeRedis (cacheKey code) none env.write, .loaded (expired v))
  | .putNegative => (p.putLocalNegative code, .loaded { kind := .notFound })
  | .loaded r => (p, .loaded r)

/-- `n` steps with nobody in between. -/
def steps {cfg : Handler.Config} (code : Bytes) (env : Env) :
    Nat → Process cfg → Loader → Process cfg × Loader
  | 0, p, l => (p, l)
  | n + 1, p, l => steps code env n (l.step p code env).1 (l.step p code env).2

section Alone

variable {cfg : Handler.Config} {code : Bytes} {env : Env} {p p' : Process cfg} {l l' : Loader}

theorem steps_succ (h : l.step p code env = (p', l')) (n : Nat) :
    steps code env (n + 1) p l = steps code env n p' l' := by
  rw [steps, h]

theorem steps_loaded (n : Nat) (r : SingleFlightResult) :
    steps code env n p (.loaded r) = (p, .loaded r) := by
  induction n with
  | zero => rfl
  | succ n ih => exact ih

/-- From MySQL on, the loader does what `refill` does. -/
theorem steps_mysql (n : Nat) :
    steps code env (n + 3) p .mysql =
      ((p.refill code env).1, .loaded (p.refill code env).2) := by
  unfold Process.refill
  cases hf : findLongUrl cfg.coll cfg.router p.db env.mysql code p.wall env.find with
  | ok longUrl expireAt =>
    simp only [steps, step, hf, steps_loaded]
    rfl
  | expired longUrl expireAt =>
    simp only [steps, step, hf, steps_loaded]
    rfl
  | notFound => simp only [steps, step, hf, steps_loaded]
  | dbError error => simp only [steps, step, hf, steps_loaded]

/-- **Alone, the loader does what `originLookup` does.** -/
theorem steps_alone (code : Bytes) (env : Env) (p : Process cfg) :
    steps code env 6 p .budget =
      ((p.originLookup code env).1, .loaded (p.originLookup code env).2) := by
  unfold Process.originLookup
  by_cases hslot : (!p.redisAvailable && !env.slot) = true
  · rw [if_pos hslot, steps_succ (by rw [step, if_pos hslot]), steps_loaded]
  · rw [if_neg hslot, steps_succ (by rw [step, if_neg hslot])]
    unfold Process.getRedis
    by_cases hup : (!p.redisUp) = true
    · rw [if_pos hup, steps_succ (by rw [step, if_pos hup])]
      exact steps_mysql 1
    · rw [if_neg hup]
      cases henv : env.get with
      | failed e =>
        rw [steps_succ (by rw [step, if_neg hup, henv])]
        exact steps_mysql 1
      | lost e =>
        rw [steps_succ (by rw [step, if_neg hup, henv])]
        exact steps_mysql 1
      | answered =>
        cases hraw : p.redis (cacheKey code) with
        | none =>
          rw [steps_succ (by rw [step, if_neg hup, henv, hraw])]
          exact steps_mysql 1
        | some raw =>
          rw [steps_succ (by rw [step, if_neg hup, henv, hraw])]
          cases hpay : interpretRedisPayload raw p.wall with
          | miss =>
            rw [steps_succ (by rw [step, hpay])]
            simp only [hpay]
            exact steps_mysql 0
          | expired v =>
            rw [steps_succ (by rw [step, hpay])]
            simp only [hpay]
            rfl
          | hit v =>
            rw [steps_succ (by rw [step, hpay])]
            simp only [hpay]
            rfl

end Alone

end Loader
/-! ## Requests -/

/-- What a redirect does next. -/
inductive Pc where
  /-- `get_local`. -/
  | start
  /-- The two halves of `erase`, after the local cache had an expired value. -/
  | eraseLocal
  | eraseRedis
  /-- A step of `do_flight`. -/
  | flight
  /-- A step of the loader that `do_flight` called. -/
  | loader (l : Loader)
  | answered (o : Outcome)
deriving DecidableEq

structure Request where
  /-- The wall clock at the arrival. -/
  born : Bytes
  /-- The request arrived after the 201. -/
  after : Bool
  pc : Pc := .start

/-- How far `shorten` is. -/
inductive Creation where
  | idle
  /-- The row is in, `set` comes next. -/
  | inserted (v : EntryView)
  /-- The local half of `set` is done. -/
  | cached (v : EntryView)
  /-- The 201. -/
  | created
deriving DecidableEq

/-- `set` has not written to the local cache yet. -/
def Creation.pending : Creation → Bool
  | .idle | .inserted _ => true
  | .cached _ | .created => false

structure State (cfg : Config) where
  process : Process cfg.process
  flights : SingleFlight.State := {}
  requests : List Request := []
  creation : Creation := .idle

inductive Label where
  /-- A new request. -/
  | arrive
  /-- Request `u` goes on. -/
  | step (u : Nat) (env : Env)
  /-- A spurious wake-up of request `u`. -/
  | wake (u : Nat)
  /-- The `INSERT` of `shorten`. -/
  | insert (id : UInt64) (longUrl expireAt : Bytes)
  /-- `shorten` goes on. -/
  | create (env : Env)
  | tick (now : Int) (wall : Bytes)
  /-- A request for another code uses the local cache. -/
  | other (op : Op)
  /-- Redis loses an entry or somebody else writes to it. -/
  | redis (key : Bytes) (value : Option Bytes)
  | available (up : Bool)

/-- A step outside `do_flight`. -/
def act {cfg : Handler.Config} (p : Process cfg) (code : Bytes) (env : Env) :
    Pc → Process cfg × Pc
  | .start =>
    if code = [] then (p, .answered .notFound)
    else
      (p.perform (.get code p.now p.wall),
        match LocalCache.get cfg.cache p.shards code p.now p.wall with
        | .hit v => .answered (setSafeLocation v.longUrl)
        | .expired _ => .eraseLocal
        | .negHit => .answered .notFound
        | .miss => .flight)
  | .eraseLocal => (p.eraseLocal code, .eraseRedis)
  | .eraseRedis => (p.writeRedis (cacheKey code) none env.write, .answered .expired)
  | .flight => (p, .flight)
  | .loader l => ((l.step p code env).1, .loader (l.step p code env).2)
  | .answered o => (p, .answered o)

/-- Where request `u` is after a step of `do_flight`. -/
def landed (fl : SingleFlight.State) (u : Nat) : Pc :=
  match fl.threads[u]? with
  | some (.loading _ _) => .loader .budget
  | some (.returned _ r) => .answered (answerFlight r)
  | _ => .flight

namespace State

variable {cfg : Config}

def move (s : State cfg) (u : Nat) (q : Request) (pc : Pc) : State cfg :=
  { s with requests := s.requests.set u { q with pc } }

def advance (s : State cfg) (u : Nat) (env : Env) : Option (State cfg) := do
  let q ← s.requests[u]?
  match q.pc with
  | .flight =>
    let flights ← s.flights.step cfg.flights (.step u)
    some ({ s with flights }.move u q (landed flights u))
  | .loader (.loaded r) =>
    let flights ← s.flights.step cfg.flights (.load u (some r))
    some ({ s with flights }.move u q .flight)
  | .answered _ => none
  | pc =>
    let (process, pc) := act s.process cfg.code env pc
    some ({ s with process }.move u q pc)

/-- The `INSERT` of a `shorten` that will succeed. -/
def insert (s : State cfg) (id : UInt64) (longUrl expireAt : Bytes) : Option (State cfg) :=
  if s.creation ≠ .idle ∨ base62Encode id ≠ cfg.code then none
  else if isHttpUrlSafeForLocation longUrl = false then none
  else if expireAt ≠ [] ∧ validExpireAt expireAt = false then none
  else
    match ShortUrl.create cfg.process.coll cfg.process.router s.process.db true
        ⟨id, base62Encode id, longUrl, expireAt⟩ .answered with
    | (db, .ok) =>
      some { s with process := { s.process with db }, creation := .inserted ⟨longUrl, expireAt⟩ }
    | _ => none

def step (s : State cfg) : Label → Option (State cfg)
  | .arrive => do
    let flights ← s.flights.step cfg.flights (.call cfg.code)
    let q : Request := { born := s.process.wall, after := decide (s.creation = .created) }
    some { s with flights, requests := s.requests ++ [q] }
  | .step u env => s.advance u env
  | .wake u => do
    let flights ← s.flights.step cfg.flights (.wake u)
    some { s with flights }
  | .insert id longUrl expireAt => s.insert id longUrl expireAt
  | .create env =>
    match s.creation with
    | .inserted v =>
      some { s with process := s.process.putLocalPositive cfg.code v env.draw, creation := .cached v }
    | .cached v =>
      let process := s.process.writeRedis (cacheKey cfg.code) (some (encodeRedisValue v)) env.write
      some { s with process, creation := .created }
    | .idle => none
    | .created => none
  | .tick now wall =>
    if s.process.wall ≤ wall then some { s with process := { s.process with now, wall } } else none
  | .other op => if op.code = cfg.code then none else some { s with process := s.process.perform op }
  | .redis key value =>
    if key = cacheKey cfg.code ∧ value.bind decodeRedisValue ≠ none then none
    else some { s with process := s.process.setRedis key value }
  | .available up => some { s with process := { s.process with redisAvailable := up } }

end State

/-! ## What a step can do -/

/-- Neither in `do_flight` nor at its end. -/
def Pc.acts : Pc → Bool
  | .start | .eraseLocal | .eraseRedis => true
  | .loader (.loaded _) => false
  | .loader _ => true
  | .flight | .answered _ => false

/-- What `shorten` has checked of what it inserts. -/
structure Accepted (cfg : Config) (longUrl expireAt : Bytes) : Prop where
  code : cfg.code ≠ []
  url : isHttpUrlSafeForLocation longUrl = true
  expiry : expireAt = [] ∨ validExpireAt expireAt = true

variable {cfg : Config}

inductive Step (s : State cfg) : Label → State cfg → Prop
  | arrive {flights : SingleFlight.State}
      (hfl : s.flights.step cfg.flights (.call cfg.code) = some flights) :
      Step s .arrive { s with
        flights
        requests := s.requests ++ [{ born := s.process.wall, after := decide (s.creation = .created) }] }
  | act {u : Nat} {env : Env} {q : Request} (hq : s.requests[u]? = some q)
      (hpc : q.pc.acts = true) :
      Step s (.step u env) ({ s with process := (act s.process cfg.code env q.pc).1 }.move u q
        (act s.process cfg.code env q.pc).2)
  | fly {u : Nat} {env : Env} {q : Request} {flights : SingleFlight.State}
      (hq : s.requests[u]? = some q) (hpc : q.pc = .flight)
      (hfl : s.flights.step cfg.flights (.step u) = some flights) :
      Step s (.step u env) ({ s with flights }.move u q (landed flights u))
  | deliver {u : Nat} {env : Env} {q : Request} {r : SingleFlightResult}
      {flights : SingleFlight.State} (hq : s.requests[u]? = some q)
      (hpc : q.pc = .loader (.loaded r))
      (hfl : s.flights.step cfg.flights (.load u (some r)) = some flights) :
      Step s (.step u env) ({ s with flights }.move u q .flight)
  | wake {u : Nat} {flights : SingleFlight.State}
      (hfl : s.flights.step cfg.flights (.wake u) = some flights) :
      Step s (.wake u) { s with flights }
  | insert {id : UInt64} {longUrl expireAt : Bytes} {db : Tables} (hidle : s.creation = .idle)
      (hacc : Accepted cfg longUrl expireAt)
      (hins : ShortUrl.insert cfg.process.coll cfg.process.router s.process.db
        ⟨id, cfg.code, longUrl, expireAt⟩ = (db, true)) :
      Step s (.insert id longUrl expireAt) { s with
        process := { s.process with db }
        creation := .inserted ⟨longUrl, expireAt⟩ }
  | cache {v : EntryView} {env : Env} (hc : s.creation = .inserted v) :
      Step s (.create env) { s with
        process := s.process.putLocalPositive cfg.code v env.draw
        creation := .cached v }
  | create {v : EntryView} {env : Env} (hc : s.creation = .cached v) :
      Step s (.create env) { s with
        process := s.process.writeRedis (cacheKey cfg.code) (some (encodeRedisValue v)) env.write
        creation := .created }
  | tick {now : Int} {wall : Bytes} (hle : s.process.wall ≤ wall) :
      Step s (.tick now wall) { s with process := { s.process with now, wall } }
  | other {op : Op} (hne : op.code ≠ cfg.code) :
      Step s (.other op) { s with process := s.process.perform op }
  | redis {key : Bytes} {value : Option Bytes}
      (hv : key = cacheKey cfg.code → value.bind decodeRedisValue = none) :
      Step s (.redis key value) { s with process := s.process.setRedis key value }
  | available {up : Bool} :
      Step s (.available up) { s with process := { s.process with redisAvailable := up } }

namespace State

variable {s s' : State cfg}

theorem advance_cases {u : Nat} {env : Env} (h : s.advance u env = some s') :
    Step s (.step u env) s' := by
  obtain ⟨q, hq, h⟩ := Option.bind_eq_some_iff.mp h
  -- Everything but `do_flight` and its end goes through `act`.
  have hact : q.pc.acts = true → some ({ s with
      process := (act s.process cfg.code env q.pc).1 }.move u q (act s.process cfg.code env q.pc).2)
        = some s' → Step s (.step u env) s' := by
    intro hpc he
    cases he
    exact .act hq hpc
  cases hpc : q.pc with
  | start => rw [hpc] at h hact; exact hact rfl h
  | eraseLocal => rw [hpc] at h hact; exact hact rfl h
  | eraseRedis => rw [hpc] at h hact; exact hact rfl h
  | flight =>
    rw [hpc] at h
    obtain ⟨flights, hfl, h⟩ := Option.bind_eq_some_iff.mp h
    cases h
    exact .fly hq hpc hfl
  | loader l =>
    cases l with
    | loaded r =>
      rw [hpc] at h
      obtain ⟨flights, hfl, h⟩ := Option.bind_eq_some_iff.mp h
      cases h
      exact .deliver hq hpc hfl
    | _ => rw [hpc] at h hact; exact hact rfl h
  | answered o => rw [hpc] at h; cases h

theorem insert_cases {id : UInt64} {longUrl expireAt : Bytes}
    (h : s.insert id longUrl expireAt = some s') : Step s (.insert id longUrl expireAt) s' := by
  unfold State.insert at h
  split at h
  · cases h
  · rename_i hfree
    simp only [not_or, not_not] at hfree
    obtain ⟨hidle, hcode⟩ := hfree
    split at h
    · cases h
    · rename_i hurl
      split at h
      · cases h
      · rename_i hexp
        rcases hc : ShortUrl.create cfg.process.coll cfg.process.router s.process.db true
          ⟨id, base62Encode id, longUrl, expireAt⟩ .answered with ⟨db, status⟩
        rw [hc] at h
        cases status with
        | ok =>
          cases h
          refine .insert hidle ⟨hcode ▸ base62Encode_ne_nil id, by simpa using hurl, ?_⟩ ?_
          · by_cases hne : expireAt = []
            · exact Or.inl hne
            · exact Or.inr (by simpa [hne] using hexp)
          · rw [← hcode]
            exact create_ok hc
        | duplicateCode => cases h
        | dbError e => cases h

theorem step_cases {l : Label} (h : s.step l = some s') : Step s l s' := by
  cases l with
  | arrive =>
    rw [State.step] at h
    obtain ⟨flights, hfl, h⟩ := Option.bind_eq_some_iff.mp h
    cases h
    exact .arrive hfl
  | step u env => exact advance_cases h
  | wake u =>
    obtain ⟨flights, hfl, h⟩ := Option.bind_eq_some_iff.mp h
    cases h
    exact .wake hfl
  | insert id longUrl expireAt => exact insert_cases h
  | create env =>
    simp only [State.step] at h
    split at h
    · rename_i v hc; cases h; exact .cache hc
    · rename_i v hc; cases h; exact .create hc
    · cases h
    · cases h
  | tick now wall =>
    simp only [State.step] at h
    split at h
    · rename_i hle; cases h; exact .tick hle
    · cases h
  | other op =>
    simp only [State.step] at h
    split at h
    · cases h
    · rename_i hne; cases h; exact .other hne
  | redis key value =>
    simp only [State.step] at h
    split at h
    · cases h
    · rename_i hv
      cases h
      exact .redis fun hk => by_contra fun hd => hv ⟨hk, hd⟩
  | available up => cases h; exact .available

end State

end Race
end Handler
end UrlShortener
