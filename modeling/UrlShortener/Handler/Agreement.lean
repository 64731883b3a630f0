import UrlShortener.Handler.Traffic
import UrlShortener.ShortUrl.FlightKeys

/-!
# UrlShortener.Handler.Agreement

What clients can be told about a code, in any interleaving of redirects, `shorten`s and restarts.

A loader may be late, a cache may have forgotten or may still say that a code is missing, and an
`INSERT` may have taken effect although its client got a 503. None of this changes a mapping: a row
is never overwritten, and whatever a cache, a flight or a thread holds for a code is the row's. So
all who are told a URL for a code are told the same one, and somebody has asked for it before.
-/

namespace UrlShortener
namespace Handler
namespace Traffic

open LocalCache (EntryView Known Op isBusinessExpired)
open Race (Pc act landed)
open ShortUrl
open SingleFlight (SingleFlightResult)
open Threads

/-! ## The caches -/

/-- What Redis and the local cache have for a code is what `m` has. A code that is cached as missing
may be there. -/
structure Caches {cfg : Handler.Config} (m : Bytes → Option EntryView) (p : Process cfg) : Prop where
  positive : Known (fun c v => m c = some v) (fun _ => True) p.shards
  redis : ∀ c raw v, p.redis (cacheKey c) = some raw → decodeRedisValue raw = some v → m c = some v

namespace Caches

variable {cfg : Handler.Config} {m m' : Bytes → Option EntryView} {p p' : Process cfg}

theorem mono (h : Caches m p) (hm : ∀ c v, m c = some v → m' c = some v) : Caches m' p where
  positive := h.positive.imp hm (fun _ _ => trivial)
  redis c raw v hraw hdec := hm c v (h.redis c raw v hraw hdec)

theorem of_eq (h : Caches m p) (hshards : p'.shards = p.shards) (hredis : p'.redis = p.redis) :
    Caches m p' := ⟨by rw [hshards]; exact h.positive, by rw [hredis]; exact h.redis⟩

theorem perform (h : Caches m p) {op : Op}
    (hput : ∀ c v t draw, op = .putPositive c v t draw → m c = some v) : Caches m (p.perform op) :=
  ⟨h.positive.step op rfl (fun _ _ _ hp => hp) hput (fun _ _ hn => hn) (fun _ _ _ => trivial), h.redis⟩

theorem setRedis (h : Caches m p) {key : Bytes} {value : Option Bytes}
    (hv : ∀ c raw v, key = cacheKey c → value = some raw → decodeRedisValue raw = some v →
      m c = some v) : Caches m (p.setRedis key value) := by
  refine ⟨h.positive, ?_⟩
  intro c raw v hraw hdec
  by_cases hk : cacheKey c = key
  · subst hk
    simp only [Process.setRedis, Function.update_self] at hraw
    exact hv c raw v rfl hraw hdec
  · simp only [Process.setRedis, Function.update_of_ne hk] at hraw
    exact h.redis c raw v hraw hdec

theorem writeRedis (h : Caches m p) {key : Bytes} {value : Option Bytes} {reply : Reply}
    (hv : ∀ c raw v, key = cacheKey c → value = some raw → decodeRedisValue raw = some v →
      m c = some v) : Caches m (p.writeRedis key value reply) := by
  unfold Process.writeRedis
  split
  · exact h
  · cases reply with
    | answered => exact h.setRedis hv
    | failed e => exact h.of_eq rfl rfl
    | lost e => exact (h.setRedis hv).of_eq rfl rfl

theorem eraseRedis (h : Caches m p) {key : Bytes} {reply : Reply} :
    Caches m (p.writeRedis key none reply) := by
  refine h.writeRedis ?_
  intro c raw v _ hraw
  cases hraw

theorem dropRedis (h : Caches m p) {key : Bytes} {reply : Reply} :
    Caches m (p.dropRedis key reply) := by
  have herased : Caches m (p.setRedis key none) := by
    refine h.setRedis ?_
    intro c raw v _ hraw
    cases hraw
  cases reply with
  | answered => exact herased
  | failed e => exact h
  | lost e => exact herased

/-- What is written for a code is what `m` has for it. -/
theorem encoded {code : Bytes} {v : EntryView} {reply : Reply} (h : Caches m p)
    (hm : m code = some v) (hexp : LF ∉ v.expireAt) :
    Caches m (p.writeRedis (cacheKey code) (some (encodeRedisValue v)) reply) := by
  refine h.writeRedis ?_
  intro c raw v' hkey hraw hdec
  cases hraw
  rw [decode_encode hexp] at hdec
  cases hdec
  rw [← cacheKey_injective hkey]
  exact hm

theorem putPositive {code : Bytes} {v : EntryView} {draw : Nat} (h : Caches m p)
    (hm : m code = some v) : Caches m (p.putLocalPositive code v draw) := by
  refine h.perform ?_
  intro c v' t draw' he
  cases he
  exact hm

end Caches

/-! ## What a redirect carries -/

/-- A hit is one for what is stored. -/
def Tells (stored : Option EntryView) (r : SingleFlightResult) : Prop :=
  r.kind = .hit → stored = some ⟨r.longUrl, r.expireAt⟩

def Holds (stored : Option EntryView) : Pc → Prop
  | .loader (.interpret raw) => ∀ v, decodeRedisValue raw = some v → stored = some v
  | .loader (.putPositive v) | .loader (.setLocal v) | .loader (.setRedis v) => stored = some v
  | .loader (.loaded r) => Tells stored r
  | .answered o => ∀ url, o = .found url → ∃ expireAt, stored = some ⟨url, expireAt⟩
  | _ => True

theorem Tells.mono {stored stored' : Option EntryView} {r : SingleFlightResult}
    (h : Tells stored r) (hm : ∀ v, stored = some v → stored' = some v) : Tells stored' r :=
  fun hk => hm _ (h hk)

theorem Tells.of_ne {stored : Option EntryView} {r : SingleFlightResult} (h : r.kind ≠ .hit) :
    Tells stored r := fun hk => absurd hk h

theorem Holds.mono {stored stored' : Option EntryView} {pc : Pc} (h : Holds stored pc)
    (hm : ∀ v, stored = some v → stored' = some v) : Holds stored' pc := by
  cases pc with
  | loader loader =>
    cases loader with
    | interpret raw => exact fun v hv => hm v (h v hv)
    | putPositive v => exact hm v h
    | setLocal v => exact hm v h
    | setRedis v => exact hm v h
    | loaded r => exact Tells.mono h hm
    | _ => trivial
  | answered o =>
    intro url ho
    obtain ⟨expireAt, hv⟩ := h url ho
    exact ⟨expireAt, hm _ hv⟩
  | _ => trivial

/-- The answer to a result that tells what is stored. -/
theorem Tells.answer {stored : Option EntryView} {r : SingleFlightResult} (h : Tells stored r) :
    Holds stored (.answered (answerFlight r)) := by
  intro url ho
  have hk : r.kind = .hit := by
    unfold answerFlight at ho
    cases hkind : r.kind with
    | hit => rfl
    | _ => rw [hkind] at ho; cases ho
  have hurl : r.longUrl = url := by
    rw [answerFlight, hk] at ho
    simp only [setSafeLocation] at ho
    split at ho
    · cases ho
      rfl
    · cases ho
  exact ⟨r.expireAt, hurl ▸ h hk⟩

section Act

variable {cfg : Handler.Config} {m : Bytes → Option EntryView} {p : Process cfg} {code : Bytes}
  {env : Env} {pc : Pc}

/-- A step of a redirect outside `do_flight` leaves the tables alone. -/
theorem act_db (p : Process cfg) (code : Bytes) (env : Env) (pc : Pc) :
    (act p code env pc).1.db = p.db :=
  (@Race.act_db_wall ⟨cfg, SingleFlight.configure 0 0, code⟩ p env pc).1

/-- It writes what it carries into the caches. -/
theorem Caches.act (h : Caches m p) (hexp : ∀ v, m code = some v → LF ∉ v.expireAt)
    (hpc : Holds (m code) pc) : Caches m (act p code env pc).1 := by
  have hquiet : ∀ {op : Op}, (∀ c v t draw, op ≠ .putPositive c v t draw) →
      Caches m (p.perform op) := by
    intro op hop
    refine h.perform ?_
    intro c v t draw he
    exact absurd he (hop c v t draw)
  cases pc with
  | start =>
    simp only [Race.act]
    split
    · exact h
    · exact hquiet (by simp)
  | eraseLocal => exact hquiet (by simp)
  | eraseRedis => exact h.eraseRedis
  | flight => exact h
  | answered o => exact h
  | loader loader =>
    cases loader with
    | budget => simp only [Race.act, Race.Loader.step]; split <;> exact h
    | get =>
      simp only [Race.act, Race.Loader.step]
      split
      · exact h
      · split
        · exact h.of_eq rfl rfl
        · exact h.of_eq rfl rfl
        · split <;> exact h
    | interpret raw => simp only [Race.act, Race.Loader.step]; split <;> exact h
    | del v => exact h.dropRedis
    | putPositive v => exact h.putPositive hpc
    | drop v => exact hquiet (by simp)
    | mysql => simp only [Race.act, Race.Loader.step]; split <;> exact h
    | setLocal v => exact h.putPositive hpc
    | setRedis v => exact h.encoded hpc (hexp v hpc)
    | eraseLocal v => exact hquiet (by simp)
    | eraseRedis v => exact h.eraseRedis
    | putNegative => exact hquiet (by simp)
    | loaded r => exact h

/-- And what it carries then is still what is stored. -/
theorem Caches.holds_act (h : Caches m p) (hm : lookup cfg.coll cfg.router p.db code = m code)
    (hpc : Holds (m code) pc) : Holds (m code) (Race.act p code env pc).2 := by
  cases pc with
  | start =>
    simp only [Race.act]
    split
    · intro url ho
      cases ho
    · have hget := h.positive.get code p.now p.wall
      cases hstatus : LocalCache.get cfg.cache p.shards code p.now p.wall with
      | hit v =>
        rw [hstatus] at hget
        intro url ho
        simp only [setSafeLocation] at ho
        split at ho
        · cases ho
          exact ⟨v.expireAt, hget.1⟩
        · cases ho
      | negHit =>
        intro url ho
        cases ho
      | expired v => trivial
      | miss => trivial
  | eraseLocal => trivial
  | eraseRedis =>
    intro url ho
    cases ho
  | flight => trivial
  | answered o => exact hpc
  | loader loader =>
    cases loader with
    | budget =>
      simp only [Race.act, Race.Loader.step]
      split
      · exact Tells.of_ne (by simp [SingleFlight.overload])
      · trivial
    | get =>
      simp only [Race.act, Race.Loader.step]
      split
      · trivial
      · split
        · trivial
        · trivial
        · split
          · trivial
          · rename_i raw hraw
            exact fun v hv => h.redis code raw v hraw hv
    | interpret raw =>
      simp only [Race.act, Race.Loader.step, interpretRedisPayload]
      cases hdec : decodeRedisValue raw with
      | none => trivial
      | some v =>
        by_cases hexp : isBusinessExpired v.expireAt p.wall = true
        · simp only [hexp]
          trivial
        · simp only [hexp]
          exact hpc v hdec
    | mysql =>
      simp only [Race.act, Race.Loader.step]
      rcases @findLongUrl_cases cfg.coll cfg.router p.db env.mysql code p.wall env.find with
        ⟨error, he⟩ | ⟨hl, he⟩ | ⟨v, hl, he⟩
      · rw [he]
        exact Tells.of_ne (by simp)
      · rw [he]
        trivial
      · by_cases hexp : isBusinessExpired v.expireAt p.wall = true
        · rw [he, if_pos hexp]
          trivial
        · rw [he, if_neg hexp]
          exact hm ▸ hl
    | putPositive v => exact fun _ => hpc
    | setLocal v => exact hpc
    | setRedis v => exact fun _ => hpc
    | drop v => exact Tells.of_ne (by simp [Race.expired])
    | eraseRedis v => exact Tells.of_ne (by simp [Race.expired])
    | putNegative => exact Tells.of_ne (by simp)
    | loaded r => exact hpc
    | del v => trivial
    | eraseLocal v => trivial

end Act

/-! ## What `shorten` has in hand -/

/-- The code whose row is in and whose answer is still to come. -/
def Making.code : Making → Option Bytes
  | .setLocal code | .setRedis code => some code
  | _ => none

def Post.code (p : Post) : Option Bytes := p.pc.code

/-- What a step of `shorten` does. -/
inductive Making.Move {cfg : Handler.Config} (p : Process cfg) (longUrl expireAt : Bytes) (env : Env) :
    Making → Process cfg → Making → Prop
  | pass {m m' : Making} (hm : m.code = none) (hm' : m'.code = none)
      (hno : ∀ code, m' ≠ .answered (.created code)) : Move p longUrl expireAt env m p m'
  | insert {left : Nat} {id : UInt64} {db : Tables}
      (hins : ShortUrl.insert cfg.coll cfg.router p.db ⟨id, base62Encode id, longUrl, expireAt⟩ =
        (db, true)) :
      Move p longUrl expireAt env (.insert left) { p with db } (.setLocal (base62Encode id))
  /-- The row is in, and the client gets a 503. -/
  | lose {left : Nat} {id : UInt64} {db : Tables} {error : Bytes}
      (hins : ShortUrl.insert cfg.coll cfg.router p.db ⟨id, base62Encode id, longUrl, expireAt⟩ =
        (db, true)) :
      Move p longUrl expireAt env (.insert left) { p with db } (.answered (.failed error))
  | cache (code : Bytes) :
      Move p longUrl expireAt env (.setLocal code) (p.putLocalPositive code ⟨longUrl, expireAt⟩ env.draw)
        (.setRedis code)
  | answer (code : Bytes) :
      Move p longUrl expireAt env (.setRedis code)
        (p.writeRedis (cacheKey code) (some (encodeRedisValue ⟨longUrl, expireAt⟩)) env.write)
        (.answered (.created code))

/-- What `shorten` checks before it inserts. -/
theorem sound_of_decoded {body longUrl expireAt : Bytes}
    (h : decodeShorten body = .accepted longUrl expireAt) (id : UInt64) :
    Sound ⟨id, base62Encode id, longUrl, expireAt⟩ := by
  cases decided_of_accepted h with
  | accepted url expire =>
    refine ⟨url, ?_, base62Encode_ne_nil id, base62Encode_noNul id⟩
    rcases expire with rfl | hexp
    · simp
    · exact validExpireAt_noLf hexp

/-- An `INSERT` that leaves the tables as they are is not answered with success. -/
theorem create_effect {coll : Collation} {router : ShardRouter} {db db' : Tables}
    {record : ShortUrlRecord} {reply : Reply} {status : CreateStatus}
    (h : create coll router db true record reply = (db', status)) :
    (db' = db ∧ status ≠ .ok) ∨
      (ShortUrl.insert coll router db record = (db', true) ∧
        (status = .ok ∨ ∃ error, status = .dbError error)) := by
  have hfull : ∀ {db₁ : Tables}, ShortUrl.insert coll router db record = (db₁, false) →
      db₁ = db := by
    intro db₁ hins
    simp only [ShortUrl.insert] at hins
    split at hins
    · cases hins
      rfl
    · cases hins
  unfold create at h
  rcases hins : ShortUrl.insert coll router db record with ⟨db₁, ok⟩
  cases reply with
  | failed error =>
    cases h
    exact Or.inl ⟨rfl, by simp⟩
  | lost error =>
    rw [hins] at h
    cases h
    cases ok with
    | true => exact Or.inr ⟨rfl, Or.inr ⟨error, rfl⟩⟩
    | false => exact Or.inl ⟨hfull hins, by simp⟩
  | answered =>
    rw [hins] at h
    cases ok with
    | true =>
      cases h
      exact Or.inr ⟨rfl, Or.inl rfl⟩
    | false =>
      cases h
      exact Or.inl ⟨hfull hins, by simp⟩

theorem Making.move {cfg : Handler.Config} (p : Process cfg) (longUrl expireAt : Bytes) (env : Env)
    (next : Option UInt64 × Reply) {m : Making} (hm : ∀ c, m ≠ .answered c) :
    Making.Move p longUrl expireAt env m (m.step p longUrl expireAt env next).1
      (m.step p longUrl expireAt env next).2 := by
  cases m with
  | budget =>
    rw [Making.step]
    split
    · exact .pass rfl rfl (by simp)
    · split
      · exact .pass rfl rfl (by simp)
      · exact .pass rfl rfl (by simp)
  | insert left =>
    cases left with
    | zero => exact .pass rfl rfl (by simp [Making.step])
    | succ left =>
      obtain ⟨id, reply⟩ := next
      cases id with
      | none => exact .pass rfl rfl (by simp [Making.step])
      | some id =>
        rw [Making.step]
        rcases hcreate : create cfg.coll cfg.router p.db true
          ⟨id, base62Encode id, longUrl, expireAt⟩ reply with ⟨db, status⟩
        rcases create_effect hcreate with ⟨rfl, hno⟩ | ⟨hins, rfl | ⟨error, rfl⟩⟩
        · cases status with
          | ok => exact absurd rfl hno
          | duplicateCode => exact .pass rfl rfl (by simp)
          | dbError error => exact .pass rfl rfl (by simp)
        · exact .insert hins
        · exact .lose hins
  | setLocal code => exact .cache code
  | setRedis code => exact .answer code
  | answered c => exact absurd rfl (hm c)

/-! ## What clients have been told -/

/-- The URL that an event tells for a code. -/
def Event.tells : Event → Option (Bytes × Bytes)
  | .posted _ => none
  | .created code url => some (code, url)
  | .redirected code url => some (code, url)

/-- The 201 for this code. -/
def Event.creates (code : Bytes) : Event → Bool
  | .created code' _ => decide (code' = code)
  | _ => false

/-- Somebody has asked for the mapping, and the code is one of an id, as far as MySQL can tell. -/
def Backed (coll : Collation) (log : List Event) (code : Bytes) (v : EntryView) : Prop :=
  (∃ body, Event.posted body ∈ log ∧ decodeShorten body = .accepted v.longUrl v.expireAt) ∧
    ∃ id, coll.eq (base62Encode id) code = true

/-- Whatever is told has been asked for before. -/
def Ordered (coll : Collation) (log : List Event) : Prop :=
  ∀ n e code url, log[n]? = some e → e.tells = some (code, url) →
    ∃ expireAt, Backed coll (log.take n) code ⟨url, expireAt⟩

/-- What `shorten` writes has been asked for, and is stored once it has inserted it. -/
structure Fits (m : Bytes → Option EntryView) (log : List Event) (p : Post) : Prop where
  asked : ∃ body, Event.posted body ∈ log ∧ decodeShorten body = .accepted p.longUrl p.expireAt
  stored : ∀ code, p.code = some code → m code = some ⟨p.longUrl, p.expireAt⟩

section Log

variable {coll : Collation} {m m' : Bytes → Option EntryView} {log log' new : List Event}
  {code : Bytes} {v : EntryView} {p : Post}

theorem Backed.mono (h : Backed coll log code v) (hlog : log ⊆ log') : Backed coll log' code v := by
  obtain ⟨⟨body, hmem, hbody⟩, hcode⟩ := h
  exact ⟨⟨body, hlog hmem, hbody⟩, hcode⟩

theorem Fits.mono (h : Fits m log p) (hm : ∀ c v, m c = some v → m' c = some v)
    (hlog : log ⊆ log') : Fits m' log' p := by
  obtain ⟨⟨body, hmem, hbody⟩, hstored⟩ := h
  exact ⟨⟨body, hlog hmem, hbody⟩, fun code hcode => hm code _ (hstored code hcode)⟩

/-- The checks of `shorten` keep line ends out of the expiry. -/
theorem Backed.expiry (h : Backed coll log code v) : LF ∉ v.expireAt := by
  obtain ⟨⟨body, -, hbody⟩, -⟩ := h
  exact (sound_of_decoded hbody 0).expiry

theorem Ordered.append (h : Ordered coll log)
    (hnew : ∀ e ∈ new, ∀ code url, e.tells = some (code, url) →
      ∃ expireAt, Backed coll log code ⟨url, expireAt⟩) : Ordered coll (log ++ new) := by
  intro n e code url hn he
  rcases Nat.lt_or_ge n log.length with hlt | hge
  · rw [List.getElem?_append_left hlt] at hn
    rw [List.take_append_of_le_length hlt.le]
    exact h n e code url hn he
  · rw [List.getElem?_append_right hge] at hn
    obtain ⟨expireAt, hbacked⟩ := hnew e (List.mem_of_getElem? hn) code url he
    refine ⟨expireAt, hbacked.mono ?_⟩
    rw [List.take_append, List.take_of_length_le hge]
    exact List.subset_append_left _ _

end Log

/-! ## The invariant -/

variable {cfg : Config} {s s' : State cfg} {l : Label}

/-- What is stored for a code. -/
def State.mapping (s : State cfg) (code : Bytes) : Option EntryView :=
  lookup cfg.process.coll cfg.process.router s.process.db code

/-- The flights are kept apart, and what a loader has brought is stored for its key. -/
def Shared (s : State cfg) : Prop :=
  ∃ owner, SingleFlight.State.Apart (s.asks.map Ask.code) owner s.flights ∧
    ∀ c r, (c, some r) ∈ s.flights.loads → ∃ key, owner[c]? = some key ∧ Tells (s.mapping key) r

structure Inv (s : State cfg) : Prop where
  flights : SingleFlight.State.Inv cfg.flights s.flights
  shared : Shared s
  caches : Caches s.mapping s.process
  backed : ∀ code v, s.mapping code = some v → Backed cfg.process.coll s.log code v
  asks : ∀ q ∈ s.asks, Holds (s.mapping q.code) q.pc
  posts : ∀ p ∈ s.posts, Fits s.mapping s.log p
  told : ∀ e ∈ s.log, ∀ code url, e.tells = some (code, url) →
    ∃ expireAt, s.mapping code = some ⟨url, expireAt⟩
  ordered : Ordered cfg.process.coll s.log
  /-- A row leads to one 201 at most. -/
  handed : ∀ code, count Post.code s.posts code + s.log.countP (Event.creates code) ≤
    if (s.mapping code).isSome then 1 else 0

theorem inv_start (now : Int) (wall : Bytes) (redisAvailable : Bool) :
    Inv (State.start cfg now wall redisAvailable) where
  flights := SingleFlight.State.inv_init _
  shared := ⟨[], SingleFlight.State.apart_init, fun c r h => by cases h⟩
  caches := ⟨LocalCache.known_empty _ _, fun c raw v h => by cases h⟩
  backed code v h := by cases h
  asks q h := by cases h
  posts p h := by cases h
  told e h := by cases h
  ordered n e code url h := by cases h
  handed code := Nat.zero_le _

theorem Inv.expiry (h : Inv s) (code : Bytes) (v : EntryView) (hm : s.mapping code = some v) :
    LF ∉ v.expireAt := (h.backed code v hm).expiry

/-- The frame of a step that a redirect or the outside makes: the tables and the `shorten`s stay, and
what is told is stored. -/
theorem Inv.frame (h : Inv s) {new : List Event} (hdb : s'.process.db = s.process.db)
    (hposts : s'.posts = s.posts) (hlog : s'.log = s.log ++ new)
    (hnew : ∀ e ∈ new, (∀ code, e.creates code = false) ∧ ∀ code url, e.tells = some (code, url) →
      ∃ expireAt, s.mapping code = some ⟨url, expireAt⟩)
    (hflights : SingleFlight.State.Inv cfg.flights s'.flights) (hshared : Shared s')
    (hcaches : Caches s.mapping s'.process) (hasks : ∀ q ∈ s'.asks, Holds (s.mapping q.code) q.pc) :
    Inv s' := by
  have hm : s'.mapping = s.mapping := by
    funext code
    rw [State.mapping, hdb]
    rfl
  have hsub : s.log ⊆ s'.log := by
    rw [hlog]
    exact List.subset_append_left _ _
  refine ⟨hflights, hshared, by rw [hm]; exact hcaches, ?_, by rw [hm]; exact hasks, ?_, ?_, ?_, ?_⟩
  · rw [hm]
    exact fun code v hv => (h.backed code v hv).mono hsub
  · rw [hm, hposts]
    exact fun p hp => (h.posts p hp).mono (fun _ _ hv => hv) hsub
  · rw [hm, hlog]
    intro e he
    rcases List.mem_append.mp he with he | he
    · exact h.told e he
    · exact (hnew e he).2
  · rw [hlog]
    refine h.ordered.append ?_
    intro e he code url htells
    obtain ⟨expireAt, hv⟩ := (hnew e he).2 code url htells
    exact ⟨expireAt, h.backed code _ hv⟩
  · intro code
    have hzero : new.countP (Event.creates code) = 0 :=
      List.countP_eq_zero.mpr fun e he => by simp [(hnew e he).1 code]
    rw [hm, hposts, hlog, List.countP_append, hzero]
    exact h.handed code

/-- A redirect moves, and what it carries then is stored. -/
theorem Inv.move (h : Inv s) {u : Nat} {q : Ask} {pc : Pc} {process : Process cfg.process}
    {flights : SingleFlight.State} (hq : s.asks[u]? = some q)
    (hdb : process.db = s.process.db) (hcaches : Caches s.mapping process)
    (hflights : SingleFlight.State.Inv cfg.flights flights)
    (hshared : Shared { s with flights }) (hpc : Holds (s.mapping q.code) pc) :
    Inv ({ s with process, flights }.move u q pc) := by
  have hcodes : (s.asks.set u { q with pc }).map Ask.code = s.asks.map Ask.code := by
    rw [List.map_set]
    refine List.ext_getElem? fun i => ?_
    by_cases hi : i = u
    · subst hi
      rw [getElem?_set_self (p := q.code) (by rw [List.getElem?_map, hq]; rfl), List.getElem?_map, hq]
      rfl
    · rw [getElem?_set_ne hi]
  refine h.frame hdb rfl (show _ = s.log ++ shown q.code pc from rfl) ?_ hflights ?_ hcaches ?_
  · intro e he
    cases pc with
    | answered o =>
      cases o with
      | found url =>
        cases List.mem_singleton.mp he
        refine ⟨fun code => rfl, ?_⟩
        intro code url' htells
        cases htells
        exact hpc url rfl
      | _ => cases he
    | _ => cases he
  · obtain ⟨owner, hapart, hloads⟩ := hshared
    refine ⟨owner, by rw [State.move, hcodes]; exact hapart, ?_⟩
    intro c r hmem
    obtain ⟨key, hkey, htells⟩ := hloads c r hmem
    refine ⟨key, hkey, ?_⟩
    rw [State.mapping, State.move]
    simp only [hdb]
    exact htells
  · intro q' hmem
    rcases List.mem_or_eq_of_mem_set hmem with hold | rfl
    · exact h.asks q' hold
    · exact hpc

/-- A step of `do_flight` that ends no loader. -/
theorem Shared.step (h : Shared s) {label : SingleFlight.Label} {flights : SingleFlight.State}
    (hfl : s.flights.step cfg.flights label = some flights) (hasked : label.asked = [])
    (hload : ∀ t r, label = .load t (some r) → ∃ q, s.asks[t]? = some q ∧ Tells (s.mapping q.code) r) :
    Shared { s with flights } := by
  obtain ⟨owner, hapart, hloads⟩ := h
  have hstep := SingleFlight.State.step_cases hfl
  obtain ⟨new, hapart'⟩ := hapart.step hstep
  rw [hasked, List.append_nil] at hapart'
  have hold : ∀ {c : Nat} {key : Bytes}, owner[c]? = some key → (owner ++ new)[c]? = some key := by
    intro c key hc
    rw [List.getElem?_append_left (lt_of_getElem? hc)]
    exact hc
  refine ⟨owner ++ new, hapart', ?_⟩
  intro c r hmem
  have hbefore : (c, some r) ∈ s.flights.loads →
      ∃ key, (owner ++ new)[c]? = some key ∧ Tells (s.mapping key) r := by
    intro hmem
    obtain ⟨key, hkey, htells⟩ := hloads c r hmem
    exact ⟨key, hold hkey, htells⟩
  rcases SingleFlight.State.loads_step hstep with he | ⟨t, out, d, hl, ⟨pc, ht, hpc⟩, he⟩
  · exact hbefore (he ▸ hmem)
  · rcases List.mem_append.mp (he ▸ hmem) with hmem | hmem
    · exact hbefore hmem
    · cases List.mem_singleton.mp hmem
      obtain ⟨q, hq, htells⟩ := hload t r hl
      have hrefers : At SingleFlight.Pc.refers s.flights.threads t c := by
        refine ⟨pc, ht, ?_⟩
        cases pc with
        | loading key c' => exact hpc
        | _ => cases hpc
      obtain ⟨key, hkey, howner⟩ := hapart.refers t c hrefers
      rw [List.getElem?_map, hq] at hkey
      cases hkey
      exact ⟨q.code, hold howner, htells⟩

/-- What `do_flight` returns is stored for the code that it was called for. -/
theorem Inv.landed (h : Inv s) {u : Nat} {q : Ask} {flights : SingleFlight.State}
    (hq : s.asks[u]? = some q) (hfl : s.flights.step cfg.flights (.step u) = some flights) :
    Holds (s.mapping q.code) (Race.landed flights u) := by
  unfold Race.landed
  split
  · trivial
  · rename_i of r hr
    refine Tells.answer ?_
    rcases SingleFlight.State.returned_of_step h.flights (SingleFlight.State.step_cases hfl) rfl hr with
      hover | ⟨c, out, hrefers, hmem, rfl⟩
    · exact .of_ne (by simp [hover])
    · cases out with
      | none => exact .of_ne (by simp [SingleFlight.outcome])
      | some r =>
        obtain ⟨owner, hapart, hloads⟩ := h.shared
        obtain ⟨key, hkey, htells⟩ := hloads c r hmem
        obtain ⟨key', hask, howner⟩ := hapart.refers u c hrefers
        rw [List.getElem?_map, hq] at hask
        cases hask
        rw [hkey] at howner
        cases howner
        exact htells
  · trivial

/-! ## shorten -/

/-- The frame of a step of `shorten`. The tables have grown or stay, and the log has at most its own
201 more. -/
theorem Inv.made (h : Inv s) {w : Nat} {p : Post} {m : Making} {process : Process cfg.process}
    (hp : s.posts[w]? = some p)
    (hmono : ∀ code v, s.mapping code = some v →
      lookup cfg.process.coll cfg.process.router process.db code = some v)
    (hbacked : ∀ code v, lookup cfg.process.coll cfg.process.router process.db code = some v →
      Backed cfg.process.coll s.log code v)
    (hcaches : Caches (lookup cfg.process.coll cfg.process.router process.db) process)
    (hstored : ∀ code, m.code = some code →
      lookup cfg.process.coll cfg.process.router process.db code = some ⟨p.longUrl, p.expireAt⟩)
    (hgiven : ∀ code, m = .answered (.created code) → s.mapping code = some ⟨p.longUrl, p.expireAt⟩)
    (hhanded : ∀ code, count Post.code (s.posts.set w { p with pc := m }) code +
      (s.log ++ given p m).countP (Event.creates code) ≤
        if (lookup cfg.process.coll cfg.process.router process.db code).isSome then 1 else 0) :
    Inv { s with process, posts := s.posts.set w { p with pc := m }, log := s.log ++ given p m } := by
  have hsub : s.log ⊆ s.log ++ given p m := List.subset_append_left _ _
  have hgiven' : ∀ e ∈ given p m, ∀ code url, e.tells = some (code, url) →
      ∃ expireAt, s.mapping code = some ⟨url, expireAt⟩ := by
    intro e he code url htells
    cases m with
    | answered c =>
      cases c with
      | created code' =>
        cases List.mem_singleton.mp he
        cases htells
        exact ⟨p.expireAt, hgiven code rfl⟩
      | _ => cases he
    | _ => cases he
  refine ⟨h.flights, ?_, hcaches, fun code v hv => (hbacked code v hv).mono hsub, ?_, ?_, ?_, ?_, hhanded⟩
  · obtain ⟨owner, hapart, hloads⟩ := h.shared
    refine ⟨owner, hapart, ?_⟩
    intro c r hmem
    obtain ⟨key, hkey, htells⟩ := hloads c r hmem
    exact ⟨key, hkey, htells.mono (hmono key)⟩
  · exact fun q hq => (h.asks q hq).mono (hmono q.code)
  · intro p' hmem
    rcases List.mem_or_eq_of_mem_set hmem with hold | rfl
    · exact (h.posts p' hold).mono hmono hsub
    · obtain ⟨body, hmem, hbody⟩ := (h.posts p (List.mem_of_getElem? hp)).asked
      exact ⟨⟨body, hsub hmem, hbody⟩, hstored⟩
  · intro e he code url htells
    have hold : ∃ expireAt, s.mapping code = some ⟨url, expireAt⟩ := by
      rcases List.mem_append.mp he with he | he
      · exact h.told e he code url htells
      · exact hgiven' e he code url htells
    obtain ⟨expireAt, hv⟩ := hold
    exact ⟨expireAt, hmono code _ hv⟩
  · refine h.ordered.append ?_
    intro e he code url htells
    obtain ⟨expireAt, hv⟩ := hgiven' e he code url htells
    exact ⟨expireAt, h.backed code _ hv⟩

/-- The mappings after an `INSERT`. Codes that compare equal to the new one may have got it as
well. -/
structure Grown (s : State cfg) (db : Tables) (code : Bytes) (v : EntryView) : Prop where
  fresh : s.mapping code = none
  here : lookup cfg.process.coll cfg.process.router db code = some v
  other : ∀ c, lookup cfg.process.coll cfg.process.router db c = s.mapping c ∨
    s.mapping c = none ∧ lookup cfg.process.coll cfg.process.router db c = some v ∧
      cfg.process.coll.eq code c = true

/-- There are not fewer than before. -/
theorem Grown.isSome {db : Tables} {code : Bytes} {v : EntryView} (h : Grown s db code v)
    (c : Bytes) : (if (s.mapping c).isSome then 1 else 0) ≤
      if (lookup cfg.process.coll cfg.process.router db c).isSome then 1 else 0 := by
  rcases h.other c with hsame | ⟨hnone, -, -⟩
  · rw [hsame]
  · rw [hnone]
    exact Nat.zero_le _

theorem Inv.grown (h : Inv s) {p : Post} {w : Nat} {id : UInt64} {db : Tables}
    (hp : s.posts[w]? = some p)
    (hins : ShortUrl.insert cfg.process.coll cfg.process.router s.process.db
      ⟨id, base62Encode id, p.longUrl, p.expireAt⟩ = (db, true)) :
    Grown s db (base62Encode id) ⟨p.longUrl, p.expireAt⟩ ∧
      (∀ code v, lookup cfg.process.coll cfg.process.router db code = some v →
        Backed cfg.process.coll s.log code v) ∧
      Caches (lookup cfg.process.coll cfg.process.router db)
        ({ s.process with db } : Process cfg.process) := by
  have hasked := (h.posts p (List.mem_of_getElem? hp)).asked
  have hview := hasked.elim fun body h => (sound_of_decoded h.2 id).view
  have hlookup := lookup_insert hins
  rw [hview] at hlookup
  have hgrown : Grown s db (base62Encode id) ⟨p.longUrl, p.expireAt⟩ := by
    refine ⟨lookup_of_insert hins matches_self, ?_, ?_⟩
    · rw [hlookup, if_pos matches_self]
    · intro c
      by_cases hm : Matches cfg.process.coll cfg.process.router
          ⟨id, base62Encode id, p.longUrl, p.expireAt⟩ c
      · exact Or.inr ⟨lookup_of_insert hins hm, by rw [hlookup, if_pos hm], hm.2⟩
      · exact Or.inl (by rw [hlookup, if_neg hm]; rfl)
  refine ⟨hgrown, ?_, (h.caches.mono fun code v hm => lookup_insert_of_some hins hm).of_eq rfl rfl⟩
  intro code v hv
  rcases hgrown.other code with hsame | ⟨-, hnew, heq⟩
  · exact h.backed code v (hsame.symm.trans hv)
  · rw [hnew] at hv
    cases hv
    exact ⟨hasked, id, heq⟩

theorem Inv.make (h : Inv s) {w : Nat} {p : Post} {m : Making} {env : Env}
    {process : Process cfg.process} (hp : s.posts[w]? = some p)
    (hmove : Making.Move s.process p.longUrl p.expireAt env p.pc process m) :
    Inv { s with process, posts := s.posts.set w { p with pc := m }, log := s.log ++ given p m } := by
  have hfits := h.posts p (List.mem_of_getElem? hp)
  have hcount : ∀ code, count Post.code (s.posts.set w { p with pc := m }) code +
      (if p.pc.code = some code then 1 else 0) =
        count Post.code s.posts code + if m.code = some code then 1 else 0 :=
    fun code => count_set (f := Post.code) hp
  have hstored : ∀ code, p.pc.code = some code → s.mapping code = some ⟨p.longUrl, p.expireAt⟩ :=
    hfits.stored
  generalize p.pc = pc at hmove hcount hstored
  cases hmove with
  | pass hm hm' hno =>
    have hgiven : given p m = [] := by
      cases m with
      | answered c =>
        cases c with
        | created code => exact absurd rfl (hno code)
        | _ => rfl
      | _ => rfl
    refine h.made hp (fun _ _ hv => hv) h.backed h.caches ?_ ?_ ?_
    · intro code hc
      rw [hm'] at hc
      cases hc
    · intro code hc
      exact absurd hc (hno code)
    · intro code
      have hcount := hcount code
      rw [hm, hm'] at hcount
      rw [hgiven, List.append_nil, Nat.add_right_cancel hcount]
      exact h.handed code
  | @insert left id db hins =>
    obtain ⟨hgrown, hbacked, hcaches⟩ := h.grown hp hins
    refine h.made hp (fun _ _ hm => lookup_insert_of_some hins hm) hbacked hcaches ?_ ?_ ?_
    · intro code hc
      cases hc
      exact hgrown.here
    · intro code hc
      cases hc
    · intro code
      have hcount := hcount code
      have hhanded := h.handed code
      simp only [given, List.append_nil, Making.code, Option.some.injEq, reduceCtorEq, if_false]
        at hcount ⊢
      by_cases hcode : base62Encode id = code
      · subst hcode
        rw [hgrown.fresh] at hhanded
        rw [if_pos rfl] at hcount
        simp only [hgrown.here, Option.isSome_some, Option.isSome_none, if_true, Bool.false_eq_true,
          if_false] at hhanded ⊢
        omega
      · rw [if_neg hcode] at hcount
        have hmore := hgrown.isSome code
        omega
  | @lose left id db error hins =>
    obtain ⟨hgrown, hbacked, hcaches⟩ := h.grown hp hins
    refine h.made hp (fun _ _ hm => lookup_insert_of_some hins hm) hbacked hcaches ?_ ?_ ?_
    · intro code hc
      cases hc
    · intro code hc
      cases hc
    · intro code
      have hcount := hcount code
      have hhanded := h.handed code
      simp only [given, List.append_nil, Making.code, reduceCtorEq, if_false] at hcount ⊢
      have hmore := hgrown.isSome code
      omega
  | cache code =>
    have hv := hstored code rfl
    refine h.made hp (fun _ _ hv => hv) h.backed (h.caches.putPositive hv) ?_ ?_ ?_
    · intro code' hc
      cases hc
      exact hv
    · intro code' hc
      cases hc
    · intro code'
      have hhanded := h.handed code'
      have hcount := Nat.add_right_cancel (hcount code')
      simp only [given, List.append_nil]
      rw [hcount]
      exact hhanded
  | answer code =>
    have hv := hstored code rfl
    have hdb : (s.process.writeRedis (cacheKey code) (some (encodeRedisValue ⟨p.longUrl, p.expireAt⟩))
        env.write).db = s.process.db := Process.writeRedis_db _ _ _ _
    refine h.made hp ?_ ?_ ?_ ?_ ?_ ?_
    · rw [hdb]
      exact fun _ _ hv => hv
    · rw [hdb]
      exact h.backed
    · rw [hdb]
      exact h.caches.encoded hv (h.expiry code _ hv)
    · intro code' hc
      cases hc
    · intro code' hc
      cases hc
      exact hv
    · rw [hdb]
      intro code'
      have hhanded := h.handed code'
      have hcount := hcount code'
      have hlog : (s.log ++ given p (.answered (.created code))).countP (Event.creates code') =
          s.log.countP (Event.creates code') + if code = code' then 1 else 0 := by
        simp [given, Event.creates, List.countP_append, List.countP_cons]
      simp only [Making.code, Option.some.injEq, reduceCtorEq, if_false] at hcount
      rw [hlog]
      show _ ≤ if (s.mapping code').isSome then 1 else 0
      omega

/-- **Every step keeps the mappings and what is told of them.** -/
theorem Inv.step (h : Inv s) (hs : Step s l s') : Inv s' := by
  have hnothing : ∀ e ∈ ([] : List Event), (∀ code, e.creates code = false) ∧
      ∀ code url, e.tells = some (code, url) → ∃ expireAt, s.mapping code = some ⟨url, expireAt⟩ := by
    intro e he
    cases he
  cases hs with
  | @get code flights hfl =>
    refine h.frame rfl rfl (List.append_nil _).symm hnothing (h.flights.step hfl) ?_ h.caches ?_
    · obtain ⟨owner, hapart, hloads⟩ := h.shared
      cases hfl
      exact ⟨owner, by rw [List.map_append]; exact hapart.call code, hloads⟩
    · intro q hmem
      rcases List.mem_append.mp hmem with hmem | hmem
      · exact h.asks q hmem
      · cases List.mem_singleton.mp hmem
        trivial
  | @act u env q hq hpc =>
    have hholds := h.asks q (List.mem_of_getElem? hq)
    exact h.move hq (act_db _ _ _ _) (h.caches.act (h.expiry q.code) hholds) h.flights h.shared
      (h.caches.holds_act rfl hholds)
  | fly hq hpc hfl =>
    exact h.move hq rfl h.caches (h.flights.step hfl)
      (h.shared.step hfl rfl (fun t r hl => by cases hl)) (h.landed hq hfl)
  | @deliver u env q r flights hq hpc hfl =>
    have hholds := h.asks q (List.mem_of_getElem? hq)
    rw [hpc] at hholds
    refine h.move hq rfl h.caches (h.flights.step hfl) (h.shared.step hfl rfl ?_) trivial
    intro t r' hl
    cases hl
    exact ⟨q, hq, hholds⟩
  | wake hfl =>
    exact h.frame rfl rfl (List.append_nil _).symm hnothing (h.flights.step hfl)
      (h.shared.step hfl rfl (fun t r hl => by cases hl)) h.caches h.asks
  | post body =>
    have hsub : s.log ⊆ s.log ++ [.posted body] := List.subset_append_left _ _
    have hnew : ∀ p ∈ posted body, p.code = none ∧
        decodeShorten body = .accepted p.longUrl p.expireAt := by
      intro p hmem
      unfold posted at hmem
      split at hmem
      · rename_i hbody
        cases List.mem_singleton.mp hmem
        exact ⟨rfl, hbody⟩
      · cases hmem
    refine ⟨h.flights, h.shared, h.caches, fun code v hv => (h.backed code v hv).mono hsub, h.asks, ?_,
      ?_, ?_, ?_⟩
    · intro p hmem
      rcases List.mem_append.mp hmem with hmem | hmem
      · exact (h.posts p hmem).mono (fun _ _ hv => hv) hsub
      · obtain ⟨hcode, hbody⟩ := hnew p hmem
        refine ⟨⟨body, List.mem_append_right _ (List.mem_singleton.mpr rfl), hbody⟩, ?_⟩
        intro code hc
        rw [hcode] at hc
        cases hc
    · intro e he
      rcases List.mem_append.mp he with he | he
      · exact h.told e he
      · cases List.mem_singleton.mp he
        intro code url htells
        cases htells
    · refine h.ordered.append ?_
      intro e he code url htells
      cases List.mem_singleton.mp he
      cases htells
    · intro code
      have hposts : (posted body).countP (fun p => decide (p.code = some code)) = 0 := by
        refine List.countP_eq_zero.mpr fun p hmem => ?_
        simp [(hnew p hmem).1]
      have hlog : ([.posted body] : List Event).countP (Event.creates code) = 0 := rfl
      rw [count, List.countP_append, List.countP_append, hposts, hlog]
      exact h.handed code
  | @make w env next p hp hpc => exact h.make hp (Making.move _ _ _ _ _ hpc)
  | tick now wall =>
    exact h.frame rfl rfl (List.append_nil _).symm hnothing h.flights h.shared
      (h.caches.of_eq rfl rfl) h.asks
  | @redis key value hv =>
    refine h.frame rfl rfl (List.append_nil _).symm hnothing h.flights h.shared
      (h.caches.setRedis ?_) h.asks
    intro c raw v _ hraw hdec
    rw [hraw, Option.bind_some, hdec] at hv
    cases hv
  | available up =>
    exact h.frame rfl rfl (List.append_nil _).symm hnothing h.flights h.shared
      (h.caches.of_eq rfl rfl) h.asks
  | restart now redisAvailable =>
    exact {
      flights := SingleFlight.State.inv_init _
      shared := ⟨[], SingleFlight.State.apart_init, fun c r hc => by cases hc⟩
      caches := ⟨LocalCache.known_empty _ _, h.caches.redis⟩
      backed := h.backed
      asks := fun q hq => by cases hq
      posts := fun p hp => by cases hp
      told := h.told
      ordered := h.ordered
      handed := fun code => Nat.le_trans (Nat.le_of_eq (Nat.zero_add _))
        (Nat.le_trans (Nat.le_add_left _ _) (h.handed code)) }

/-- **One code, one URL.** In every run of any redirects and `shorten`s at the same time, whatever
becomes of the calls of MySQL and Redis and however often the process is killed and started again:
a URL that a 302 or a 201 tells for a code has been asked for by an earlier request; all that are
told one for the code are told the same; and no code is given out twice. -/
theorem one_code_one_url (cfg : Config) (now : Int) (wall : Bytes) (redisAvailable : Bool)
    (ls : List Label) (s : State cfg)
    (hr : Machine.run State.step (State.start cfg now wall redisAvailable) ls = some s) :
    (∀ n e code url, s.log[n]? = some e → e.tells = some (code, url) →
      ∃ expireAt, Backed cfg.process.coll (s.log.take n) code ⟨url, expireAt⟩) ∧
    (∀ e ∈ s.log, ∀ e' ∈ s.log, ∀ code url url', e.tells = some (code, url) →
      e'.tells = some (code, url') → url = url') ∧
    ∀ code, s.log.countP (Event.creates code) ≤ 1 := by
  have h : Inv s := Machine.run_preserves State.step
    (fun _ _ _ h hs => h.step (State.step_cases hs)) (inv_start now wall redisAvailable) hr
  refine ⟨h.ordered, ?_, ?_⟩
  · intro e he e' he' code url url' htells htells'
    obtain ⟨expireAt, hv⟩ := h.told e he code url htells
    obtain ⟨expireAt', hv'⟩ := h.told e' he' code url' htells'
    rw [hv] at hv'
    exact congrArg EntryView.longUrl (Option.some.inj hv')
  · intro code
    have hhanded := h.handed code
    split at hhanded
    · omega
    · omega

def oneShard : Config where
  process := small
  flights := SingleFlight.configure 4 4

def wish : Bytes := ascii "\x7b\"long_url\":\"http://x.org/\"\x7d"

/-- The answer to the `INSERT` of `a` is lost, and the same id is minted again. The process is killed
while a loader for `a` runs; then two ask for `a` at the same time. -/
def lostThenKilled : List Label := List.flatten [
  [.post wish, .make 0 {} (none, .answered), .make 0 {} (some 10, .lost (ascii "gone"))],
  [.post wish, .make 1 {} (none, .answered), .make 1 {} (some 10, .answered),
    .make 1 {} (some 11, .answered), .make 1 {} (none, .answered), .make 1 {} (none, .answered)],
  [.get (ascii "a")], List.replicate 6 (.step 0 {}),
  [.restart 5 true, .get (ascii "a"), .get (ascii "a")],
  List.replicate 4 (.step 0 {}), List.replicate 5 (.step 1 {}), List.replicate 10 (.step 0 {}),
  List.replicate 5 (.step 1 {})]

theorem one_code_one_url_killed : ∃ s,
    Machine.run State.step (State.start oneShard 0 [] true) lostThenKilled = some s ∧
      s.log = [.posted wish, .posted wish, .created (ascii "b") (ascii "http://x.org/"),
        .redirected (ascii "a") (ascii "http://x.org/"),
        .redirected (ascii "a") (ascii "http://x.org/")] ∧
      ∃ expireAt, Backed .binary (s.log.take 3) (ascii "a") ⟨ascii "http://x.org/", expireAt⟩ := by
  have hrun : (Machine.run State.step (State.start oneShard 0 [] true) lostThenKilled).map State.log =
      some [.posted wish, .posted wish, .created (ascii "b") (ascii "http://x.org/"),
        .redirected (ascii "a") (ascii "http://x.org/"),
        .redirected (ascii "a") (ascii "http://x.org/")] := by
    decide +kernel
  obtain ⟨s, hs, hlog⟩ := Option.map_eq_some_iff.mp hrun
  refine ⟨s, hs, hlog, ?_⟩
  exact (one_code_one_url oneShard 0 [] true lostThenKilled s hs).1 3
    (.redirected (ascii "a") (ascii "http://x.org/")) _ _ (by rw [hlog]; rfl) rfl

end Traffic
end Handler
end UrlShortener
