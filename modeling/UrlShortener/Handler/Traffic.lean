import UrlShortener.Handler.Race
import UrlShortener.Handler.Routes

/-!
# UrlShortener.Handler.Traffic

All of the short URLs at once: any number of redirects and of `shorten`s, for any codes, at the same
time. A step is one access to something shared. The redirects are those of `Handler.Concurrent`,
each for its own code; a `shorten` is cut in the same way, with the ids, the duplicates and the lost
answers that it meets, and without interference its steps add up to `shorten`.

The process may be killed at any step and started again. What is in memory is gone then, what MySQL
and Redis hold is not.

`log` is what clients can have seen, in order.
-/

namespace UrlShortener
namespace Handler
namespace Traffic

open Http (HttpRequest)
open Race (Pc act landed)
open ShortUrl
open SingleFlight (SingleFlightResult)

structure Config where
  process : Handler.Config
  flights : SingleFlight.Config

/-! ## shorten, cut at its accesses -/

/-- What `shorten` does next, for a pair that has passed its checks. -/
inductive Making where
  /-- `try_acquire_origin`, and a connection. -/
  | budget
  /-- `next_id` and the `INSERT`, with so many rounds left. -/
  | insert (left : Nat)
  /-- The two halves of `set`. -/
  | setLocal (code : Bytes)
  | setRedis (code : Bytes)
  | answered (c : Creation)

namespace Making

/-- `next` is what `next_id` returns and what becomes of the `INSERT`, as in `createLoop`. -/
def step {cfg : Handler.Config} (p : Process cfg) (longUrl expireAt : Bytes) (env : Env)
    (next : Option UInt64 × Reply) : Making → Process cfg × Making
  | .budget =>
    if !p.redisAvailable && !env.slot then
      (p, .answered (.failed (ascii "create origin budget exhausted")))
    else if !env.mysql then (p, .answered (.failed noConnection))
    else (p, .insert 3)
  | .insert 0 => (p, .answered (.failed []))
  | .insert (left + 1) =>
    match next with
    | (none, _) => (p, .answered .threw)
    | (some id, reply) =>
      match create cfg.coll cfg.router p.db true ⟨id, base62Encode id, longUrl, expireAt⟩ reply with
      | (db, .ok) => ({ p with db }, .setLocal (base62Encode id))
      | (db, .duplicateCode) => ({ p with db }, .insert left)
      | (db, .dbError error) => ({ p with db }, .answered (.failed error))
  | .setLocal code => (p.putLocalPositive code ⟨longUrl, expireAt⟩ env.draw, .setRedis code)
  | .setRedis code =>
    (p.writeRedis (cacheKey code) (some (encodeRedisValue ⟨longUrl, expireAt⟩)) env.write,
      .answered (.created code))
  | .answered c => (p, .answered c)

/-- Steps with nobody in between. -/
def steps {cfg : Handler.Config} (longUrl expireAt : Bytes) (env : Env) :
    List (Option UInt64 × Reply) → Process cfg → Making → Process cfg × Making
  | [], p, m => (p, m)
  | next :: rest, p, m =>
    steps longUrl expireAt env rest (m.step p longUrl expireAt env next).1
      (m.step p longUrl expireAt env next).2

section Alone

variable {cfg : Handler.Config} {longUrl expireAt : Bytes} {env : Env} {p p' : Process cfg}
  {m m' : Making} {next : Option UInt64 × Reply} {rest : List (Option UInt64 × Reply)}

theorem steps_cons (h : m.step p longUrl expireAt env next = (p', m')) :
    steps longUrl expireAt env (next :: rest) p m = steps longUrl expireAt env rest p' m' := by
  rw [steps, h]

theorem steps_answered (p : Process cfg) (c : Creation) :
    steps longUrl expireAt env rest p (.answered c) = (p, .answered c) := by
  induction rest with
  | nil => rfl
  | cons next rest ih => exact ih

/-- The two halves of `set`, and then the answer. -/
theorem steps_set (p : Process cfg) (code : Bytes) (x y : Option UInt64 × Reply) :
    steps longUrl expireAt env (x :: y :: rest) p (.setLocal code) =
      (p.set code ⟨longUrl, expireAt⟩ env, .answered (.created code)) := by
  rw [steps_cons rfl, steps_cons rfl, steps_answered]
  rfl

/-- The rounds are those of `createLoop`. -/
theorem steps_insert (hmysql : env.mysql = true) (tries : List (Option UInt64 × Reply))
    (x y : Option UInt64 × Reply) (p : Process cfg) :
    steps longUrl expireAt env (tries ++ [x, y]) p (.insert tries.length) =
      ((p.createLoop longUrl expireAt env tries).1,
        .answered (p.createLoop longUrl expireAt env tries).2) := by
  induction tries generalizing p with
  | nil => exact (steps_cons rfl).trans (steps_answered p _)
  | cons next tries ih =>
    obtain ⟨id, reply⟩ := next
    cases id with
    | none => exact (steps_cons rfl).trans (steps_answered p _)
    | some id =>
      rcases hcreate : create cfg.coll cfg.router p.db true ⟨id, base62Encode id, longUrl, expireAt⟩
        reply with ⟨db, status⟩
      rw [Process.createLoop, hmysql]
      simp only [List.cons_append, List.length_cons, hcreate]
      cases status with
      | ok =>
        rw [steps_cons (by rw [step, hcreate])]
        -- whatever is left of the tries is enough for the two halves of `set`
        obtain ⟨a, b, rest, hrest⟩ : ∃ a b rest, tries ++ [x, y] = a :: b :: rest := by
          cases tries with
          | nil => exact ⟨x, y, [], rfl⟩
          | cons a tries =>
            cases tries with
            | nil => exact ⟨a, x, [y], rfl⟩
            | cons b tries => exact ⟨a, b, tries ++ [x, y], rfl⟩
        rw [hrest, steps_set]
      | duplicateCode =>
        rw [steps_cons (by rw [step, hcreate])]
        exact ih _
      | dbError error =>
        rw [steps_cons (by rw [step, hcreate])]
        exact steps_answered _ _

/-- **Alone, the steps do what `shorten` does.** -/
theorem steps_alone {o : Outside} {req : HttpRequest}
    (hbody : decodeShorten req.body = .accepted longUrl expireAt) (x y z : Option UInt64 × Reply)
    (p : Process cfg) : ∃ c, steps longUrl expireAt o.env (x :: List.ofFn o.tries ++ [y, z]) p .budget =
        ((shorten o p req).1, .answered c) ∧
      (shorten o p req).2 = c.response o.publicBaseUrl longUrl expireAt := by
  unfold shorten
  rw [hbody]
  simp only [List.cons_append]
  by_cases hslot : (!p.redisAvailable && !o.env.slot) = true
  · rw [if_pos hslot, steps_cons (by rw [step, if_pos hslot]), steps_answered]
    exact ⟨_, rfl, rfl⟩
  · rw [if_neg hslot]
    by_cases hmysql : (!o.env.mysql) = true
    · rw [if_pos hmysql, steps_cons (by rw [step, if_neg hslot, if_pos hmysql]), steps_answered]
      exact ⟨_, rfl, rfl⟩
    · rw [if_neg hmysql, steps_cons (by rw [step, if_neg hslot, if_neg hmysql])]
      have hinsert := @steps_insert cfg longUrl expireAt o.env (by simpa using hmysql)
        (List.ofFn o.tries) y z p
      rw [List.length_ofFn] at hinsert
      exact ⟨_, hinsert, rfl⟩

end Alone

end Making

/-! ## The system -/

structure Ask where
  code : Bytes
  pc : Pc := .start

structure Post where
  longUrl : Bytes
  expireAt : Bytes
  pc : Making := .budget

inductive Event where
  /-- A request to create, whatever becomes of it. -/
  | posted (body : Bytes)
  /-- The 201. -/
  | created (code longUrl : Bytes)
  /-- The 302. -/
  | redirected (code url : Bytes)
deriving DecidableEq

structure State (cfg : Config) where
  process : Process cfg.process
  flights : SingleFlight.State := {}
  asks : List Ask := []
  posts : List Post := []
  log : List Event := []

inductive Label where
  /-- A redirect for the code. -/
  | get (code : Bytes)
  /-- Redirect `u` goes on. -/
  | step (u : Nat) (env : Env)
  /-- A spurious wake-up of redirect `u`. -/
  | wake (u : Nat)
  | post (body : Bytes)
  /-- `shorten` `w` goes on. -/
  | make (w : Nat) (env : Env) (next : Option UInt64 × Reply)
  | tick (now : Int) (wall : Bytes)
  /-- Redis loses an entry, or somebody else writes what does not decode. -/
  | redis (key : Bytes) (value : Option Bytes)
  | available (up : Bool)
  /-- The process dies and is started again. -/
  | restart (now : Int) (redisAvailable : Bool)

/-- What an answer of a redirect adds to the log. -/
def shown (code : Bytes) : Pc → List Event
  | .answered (.found url) => [.redirected code url]
  | _ => []

/-- What an answer of `shorten` adds to the log. -/
def given (p : Post) : Making → List Event
  | .answered (.created code) => [.created code p.longUrl]
  | _ => []

/-- The `shorten` that a body leads to, if it passes the checks. -/
def posted (body : Bytes) : List Post :=
  match decodeShorten body with
  | .accepted longUrl expireAt => [{ longUrl, expireAt }]
  | _ => []

namespace State

variable {cfg : Config}

def start (cfg : Config) (now : Int) (wall : Bytes) (redisAvailable : Bool) : State cfg where
  process := Process.start cfg.process now wall redisAvailable

def move (s : State cfg) (u : Nat) (q : Ask) (pc : Pc) : State cfg :=
  { s with asks := s.asks.set u { q with pc }, log := s.log ++ shown q.code pc }

def advance (s : State cfg) (u : Nat) (env : Env) : Option (State cfg) := do
  let q ← s.asks[u]?
  match q.pc with
  | .flight =>
    let flights ← s.flights.step cfg.flights (.step u)
    some ({ s with flights }.move u q (landed flights u))
  | .loader (.loaded r) =>
    let flights ← s.flights.step cfg.flights (.load u (some r))
    some ({ s with flights }.move u q .flight)
  | .answered _ => none
  | pc =>
    let (process, pc) := act s.process q.code env pc
    some ({ s with process }.move u q pc)

def make (s : State cfg) (w : Nat) (env : Env) (next : Option UInt64 × Reply) :
    Option (State cfg) := do
  let p ← s.posts[w]?
  match p.pc with
  | .answered _ => none
  | pc =>
    let (process, pc) := pc.step s.process p.longUrl p.expireAt env next
    some { s with process, posts := s.posts.set w { p with pc }, log := s.log ++ given p pc }

def step (s : State cfg) : Label → Option (State cfg)
  | .get code => do
    let flights ← s.flights.step cfg.flights (.call code)
    some { s with flights, asks := s.asks ++ [{ code }] }
  | .step u env => s.advance u env
  | .wake u => do
    let flights ← s.flights.step cfg.flights (.wake u)
    some { s with flights }
  | .post body => some { s with posts := s.posts ++ posted body, log := s.log ++ [.posted body] }
  | .make w env next => s.make w env next
  | .tick now wall => some { s with process := { s.process with now, wall } }
  | .redis key value =>
    if value.bind decodeRedisValue = none then
      some { s with process := s.process.setRedis key value }
    else none
  | .available up => some { s with process := { s.process with redisAvailable := up } }
  | .restart now redisAvailable =>
    some {
      process := { s.process with now, redisAvailable, shards := LocalCache.empty cfg.process.cache }
      log := s.log }

end State

/-! ## What a step can do -/

variable {cfg : Config}

inductive Step (s : State cfg) : Label → State cfg → Prop
  | get {code : Bytes} {flights : SingleFlight.State}
      (hfl : s.flights.step cfg.flights (.call code) = some flights) :
      Step s (.get code) { s with flights, asks := s.asks ++ [{ code }] }
  | act {u : Nat} {env : Env} {q : Ask} (hq : s.asks[u]? = some q) (hpc : q.pc.acts = true) :
      Step s (.step u env) ({ s with process := (act s.process q.code env q.pc).1 }.move u q
        (act s.process q.code env q.pc).2)
  | fly {u : Nat} {env : Env} {q : Ask} {flights : SingleFlight.State}
      (hq : s.asks[u]? = some q) (hpc : q.pc = .flight)
      (hfl : s.flights.step cfg.flights (.step u) = some flights) :
      Step s (.step u env) ({ s with flights }.move u q (landed flights u))
  | deliver {u : Nat} {env : Env} {q : Ask} {r : SingleFlightResult}
      {flights : SingleFlight.State} (hq : s.asks[u]? = some q) (hpc : q.pc = .loader (.loaded r))
      (hfl : s.flights.step cfg.flights (.load u (some r)) = some flights) :
      Step s (.step u env) ({ s with flights }.move u q .flight)
  | wake {u : Nat} {flights : SingleFlight.State}
      (hfl : s.flights.step cfg.flights (.wake u) = some flights) :
      Step s (.wake u) { s with flights }
  | post (body : Bytes) :
      Step s (.post body) { s with posts := s.posts ++ posted body, log := s.log ++ [.posted body] }
  | make {w : Nat} {env : Env} {next : Option UInt64 × Reply} {p : Post} (hp : s.posts[w]? = some p)
      (hpc : ∀ c, p.pc ≠ .answered c) :
      Step s (.make w env next) { s with
        process := (p.pc.step s.process p.longUrl p.expireAt env next).1
        posts := s.posts.set w { p with pc := (p.pc.step s.process p.longUrl p.expireAt env next).2 }
        log := s.log ++ given p (p.pc.step s.process p.longUrl p.expireAt env next).2 }
  | tick (now : Int) (wall : Bytes) :
      Step s (.tick now wall) { s with process := { s.process with now, wall } }
  | redis {key : Bytes} {value : Option Bytes} (hv : value.bind decodeRedisValue = none) :
      Step s (.redis key value) { s with process := s.process.setRedis key value }
  | available (up : Bool) :
      Step s (.available up) { s with process := { s.process with redisAvailable := up } }
  | restart (now : Int) (redisAvailable : Bool) :
      Step s (.restart now redisAvailable) {
        process := { s.process with now, redisAvailable, shards := LocalCache.empty cfg.process.cache }
        log := s.log }

namespace State

variable {s s' : State cfg}

theorem advance_cases {u : Nat} {env : Env} (h : s.advance u env = some s') :
    Step s (.step u env) s' := by
  obtain ⟨q, hq, h⟩ := Option.bind_eq_some_iff.mp h
  -- Everything but `do_flight` and its end goes through `act`.
  have hact : q.pc.acts = true → some ({ s with
      process := (act s.process q.code env q.pc).1 }.move u q (act s.process q.code env q.pc).2)
        = some s' → Step s (.step u env) s' := by
    intro hpc he
    cases he
    exact .act hq hpc
  cases hpc : q.pc with
  | start => rw [hpc] at h hact; exact hact rfl h
  | eraseLocal => rw [hpc] at h hact; exact hact rfl h
  | eraseRedis => rw [hpc] at h hact; exact hact rfl h
  | flight =>
    rw [hpc] at h
    obtain ⟨flights, hfl, h⟩ := Option.bind_eq_some_iff.mp h
    cases h
    exact .fly hq hpc hfl
  | loader l =>
    cases l with
    | loaded r =>
      rw [hpc] at h
      obtain ⟨flights, hfl, h⟩ := Option.bind_eq_some_iff.mp h
      cases h
      exact .deliver hq hpc hfl
    | _ => rw [hpc] at h hact; exact hact rfl h
  | answered o => rw [hpc] at h; cases h

theorem make_cases {w : Nat} {env : Env} {next : Option UInt64 × Reply}
    (h : s.make w env next = some s') : Step s (.make w env next) s' := by
  obtain ⟨p, hp, h⟩ := Option.bind_eq_some_iff.mp h
  have hstep : (∀ c, p.pc ≠ .answered c) → some { s with
      process := (p.pc.step s.process p.longUrl p.expireAt env next).1
      posts := s.posts.set w { p with pc := (p.pc.step s.process p.longUrl p.expireAt env next).2 }
      log := s.log ++ given p (p.pc.step s.process p.longUrl p.expireAt env next).2 } = some s' →
        Step s (.make w env next) s' := by
    intro hpc he
    cases he
    exact .make hp hpc
  cases hpc : p.pc with
  | answered c => rw [hpc] at h; cases h
  | _ => rw [hpc] at h hstep; exact hstep (by simp) h

theorem step_cases {l : Label} (h : s.step l = some s') : Step s l s' := by
  cases l with
  | get code =>
    rw [State.step] at h
    obtain ⟨flights, hfl, h⟩ := Option.bind_eq_some_iff.mp h
    cases h
    exact .get hfl
  | step u env => exact advance_cases h
  | wake u =>
    obtain ⟨flights, hfl, h⟩ := Option.bind_eq_some_iff.mp h
    cases h
    exact .wake hfl
  | post body => cases h; exact .post body
  | make w env next => exact make_cases h
  | tick now wall => cases h; exact .tick now wall
  | redis key value =>
    simp only [State.step] at h
    split at h
    · rename_i hv; cases h; exact .redis hv
    · cases h
  | available up => cases h; exact .available up
  | restart now redisAvailable => cases h; exact .restart now redisAvailable

end State

end Traffic
end Handler
end UrlShortener
